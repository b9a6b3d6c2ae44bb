import GasWatch.Proofs.Agreement
import GasWatch.Proofs.Arming
import GasWatch.Session

/-!
# Interleavings of host and monitor

The main processor and the coprocessor share the words without any lock.  It works because each
word has one writer: the operations of the main processor read and write the host-writable words,
and a sample writes the others.  Only the above count has two writers.

`HostAgree` compares what belongs to the main processor in two sessions, `MonitorAgree` what
belongs to the monitor.  Each relation is kept when both sessions do the same operation of its own
side (`HostAgree.perform`, `MonitorAgree.sample`), and when one session alone does an operation of
the other side (`hostAgree_sample`, `monitorAgree_perform`).  Hence an interleaving does to the main
processor's part what its own operations do when nothing comes in between, and the same for the
monitor's part.  `interleavings_agree` compares two interleavings that way.

The platform may fail at any operation.  Its settings are changed by operations of their own
(`Operation.setControl`), so that a list of operations also says which of them fail.
-/

namespace GasWatch

/-! ## The words that the power manager reads and writes -/

/-- A load does not look at the shared words and does not touch them. -/
def Control.KeepsWords {κ : Type} [Control κ] (control : κ) : Prop :=
  ∃ result next, ∀ b, Control.load control b = (result, next, b)

theorem ScriptedControl.keepsWords {control : ScriptedControl}
    (hreset : control.resetsOnLoad = false) : Control.KeepsWords control := by
  cases hfailure : control.loadFailure with
  | none =>
    refine ⟨.ok (), control, fun b => ?_⟩
    simp [Control.load, hfailure, hreset]
  | some text =>
    refine ⟨.error text, control, fun b => ?_⟩
    simp [Control.load, hfailure]

theorem ScriptedControl.resetsOnLoad_change {control : ScriptedControl}
    (hreset : control.resetsOnLoad = false) {change : ScriptedControl.Change}
    (hchange : change.resetsOnLoad != some true) :
    (control.change change).resetsOnLoad = false := by
  simp only [ScriptedControl.change]
  cases hnew : change.resetsOnLoad with
  | none => exact hreset
  | some value =>
    cases value with
    | false => rfl
    | true => simp [hnew] at hchange

namespace Manager

variable {κ : Type} [Control κ]

/-- Whether the operation directs the monitor, and neither asks for its state nor sleeps. -/
def Operation.directs : Operation → Bool
  | arm _ | load | start | resume | requestStop => true
  | readState | wakeReason | sleep => false

/-- The outcomes differ at most in words that the host may not write. -/
structure Outcome.Alike (p q : Outcome κ) : Prop where
  manager : p.manager = q.manager
  result : p.result = q.result
  calls : p.calls = q.calls
  log : p.log = q.log
  block : p.block.Agree Word.hostWritable q.block

omit [Control κ] in
theorem arm_alike (m : Manager κ) (c : Config) (a b : Block)
    (h : a.Agree Word.hostWritable b) : (m.arm a c).Alike (m.arm b c) := by
  rcases arm_cases m a c with ⟨reason, hvalidate, ha⟩ | ⟨hvalidate, ha⟩
  · rw [ha, arm_of_error m b hvalidate]
    exact ⟨rfl, rfl, rfl, rfl, h⟩
  · rw [ha, arm_of_valid m b (Config.validate_eq_ok_iff.mp hvalidate)]
    exact ⟨rfl, rfl, rfl, rfl, Block.agree_hostWritable_iff.mpr ⟨rfl, rfl, rfl⟩⟩

theorem load_alike {m : Manager κ} (hkeeps : Control.KeepsWords m.control) {a b : Block}
    (h : a.Agree Word.hostWritable b) : (m.load a).Alike (m.load b) := by
  obtain ⟨result, next, hload⟩ := hkeeps
  unfold load
  cases m.config.validate with
  | error reason => exact ⟨rfl, rfl, rfl, rfl, h⟩
  | ok _ =>
    simp only [hload]
    cases result with
    | error text => exact ⟨rfl, rfl, rfl, rfl, h⟩
    | ok _ =>
      have harm := arm_alike { m with control := next } m.config a b h
      exact ⟨harm.manager, harm.result, congrArg (.load :: ·) harm.calls, harm.log, harm.block⟩

theorem start_alike (m : Manager κ) {a b : Block} (h : a.Agree Word.hostWritable b) :
    (m.start a).Alike (m.start b) := by
  unfold start
  split
  · exact ⟨rfl, rfl, rfl, rfl, h⟩
  · split
    · exact ⟨rfl, rfl, rfl, rfl, h⟩
    · exact ⟨rfl, rfl, rfl, rfl, h⟩

/-- An operation that directs the monitor has the same outcome on blocks with the same
host-writable words. -/
theorem perform_alike {m : Manager κ} (hkeeps : Control.KeepsWords m.control)
    {operation : Operation} (hdirects : operation.directs) {a b : Block}
    (h : a.Agree Word.hostWritable b) :
    (m.perform a operation).Alike (m.perform b operation) := by
  cases operation with
  | arm c => exact arm_alike m c a b h
  | load => exact load_alike hkeeps h
  | start => exact start_alike m h
  | resume => exact start_alike m ((h.store .aboveCount 0).store .stopFlag 0)
  | requestStop => exact ⟨rfl, rfl, rfl, rfl, h.store .stopFlag 1⟩
  | readState | wakeReason | sleep => exact absurd hdirects Bool.false_ne_true

/-- An operation that directs the monitor leaves the last reading and the cycle count alone. -/
theorem agree_perform {m : Manager κ} (hkeeps : Control.KeepsWords m.control)
    {operation : Operation} (hdirects : operation.directs) (b : Block) :
    (m.perform b operation).block.Agree Word.monitorOnly b := by
  rw [Block.agree_monitorOnly_iff]
  cases operation with
  | arm c =>
    rcases arm_cases m b c with ⟨reason, -, h⟩ | ⟨-, h⟩
    · rw [perform, h]
      exact ⟨rfl, rfl⟩
    · rw [perform, h]
      exact ⟨rfl, rfl⟩
  | load =>
    obtain ⟨result, next, hload⟩ := hkeeps
    rcases load_cases m b with ⟨reason, -, h⟩ | ⟨-, text, control, left, hfailed, h⟩ |
      ⟨-, control, left, hloaded, h⟩
    · rw [perform, h]
      exact ⟨rfl, rfl⟩
    · obtain ⟨-, -, rfl⟩ := (hload b).symm.trans hfailed
      rw [perform, h]
      exact ⟨rfl, rfl⟩
    · obtain ⟨-, -, rfl⟩ := (hload b).symm.trans hloaded
      rw [perform, h]
      exact ⟨rfl, rfl⟩
  | start =>
    rw [perform, block_start]
    exact ⟨rfl, rfl⟩
  | resume =>
    rw [perform, resume, block_start]
    exact ⟨rfl, rfl⟩
  | requestStop => exact ⟨rfl, rfl⟩
  | readState | wakeReason | sleep => exact absurd hdirects Bool.false_ne_true

end Manager

/-- A scripted control stays as it is set. -/
theorem Manager.control_perform (m : Manager ScriptedControl) (b : Block)
    (operation : Operation) : (m.perform b operation).manager.control = m.control := by
  cases operation with
  | arm c => rcases arm_cases m b c with ⟨_, -, h⟩ | ⟨-, h⟩ <;> rw [perform, h]
  | load =>
    have hcontrol : (Control.load m.control b).2.1 = m.control := by
      cases hfailure : m.control.loadFailure <;> simp [Control.load, hfailure]
    rcases load_cases m b with ⟨_, -, h⟩ | ⟨-, _, _, _, hload, h⟩ | ⟨-, _, _, hload, h⟩
    · rw [perform, h]
    · rw [perform, h, ← hcontrol, hload]
    · rw [perform, h, ← hcontrol, hload]
  | start | resume =>
    simp only [perform, resume, start]
    split
    · next hstart => exact (congrArg Prod.snd hstart).symm
    · next hstart =>
      have hcontrol := (congrArg Prod.snd hstart).symm
      split
      · next hwakeup => exact (congrArg Prod.snd hwakeup).symm.trans hcontrol
      · next hwakeup => exact (congrArg Prod.snd hwakeup).symm.trans hcontrol
  | requestStop | readState | wakeReason | sleep => rfl

/-! ## The two sides of a session -/

/-- The reading of a sample, if it has one. -/
def Verdict.reading? : Verdict → Option UInt32
  | readFailed => none
  | below reading | above reading _ | confirmed reading _ => some reading

theorem Block.reading?_observe (a b : Block) (conversion : Conversion) :
    (a.observe conversion).verdict.reading? = (b.observe conversion).verdict.reading? := by
  have hreading : ∀ (c : Block) reading,
      (c.observe (.reading reading)).verdict.reading? = some reading := by
    intro c reading
    simp only [observe]
    split
    · rfl
    · dsimp only
      split <;> rfl
  cases conversion with
  | failed fault => rfl
  | reading reading => rw [hreading, hreading]

namespace Session

/-- Whether the operation is one of the main processor that directs the monitor or writes a
host-writable word, or a change of the platform's settings that does not make loads reset the
words. -/
def Operation.isHost : Operation → Bool
  | power operation => operation.directs
  | store write => write.word.hostWritable
  | setStop _ => true
  | setControl change => change.resetsOnLoad != some true
  | newMonitor .. | step | run .. | load _ | stopRequested | wakeHost | pause _ | config
  | lastPpm => false

/-- What belongs to the main processor is the same in both sessions, and loads reset nothing. -/
structure HostAgree (s t : Session) : Prop where
  manager : s.manager = t.manager
  block : s.block.Agree Word.hostWritable t.block
  resetsNothing : t.manager.control.resetsOnLoad = false

/-- What belongs to the monitor is the same in both sessions. -/
structure MonitorAgree (s t : Session) : Prop where
  monitor : s.monitor = t.monitor
  block : s.block.Agree Word.monitorOnly t.block

theorem HostAgree.refl {s : Session} (hreset : s.manager.control.resetsOnLoad = false) :
    s.HostAgree s :=
  ⟨rfl, Block.Agree.refl _ _, hreset⟩

theorem MonitorAgree.refl (s : Session) : s.MonitorAgree s :=
  ⟨rfl, Block.Agree.refl _ _⟩

/-- What an operation shows of itself: its answer, its requests to the platform and its records. -/
def Response.shown (r : Response) : Answer × List ControlCall × List Record :=
  (r.answer, r.calls, r.log)

/-- The reading of an operation that takes a sample, `none` inside if the sample fails. -/
def Response.sampled? (r : Response) : Option (Option UInt32) :=
  match r.answer with
  | .verdict verdict => some verdict.reading?
  | _ => none

/-- An operation of the main processor shows the same in both sessions and keeps its part of them
the same. -/
theorem HostAgree.perform {s t : Session} (h : s.HostAgree t) {operation : Operation}
    (hhost : operation.isHost) :
    (s.perform operation).session.HostAgree (t.perform operation).session ∧
      (s.perform operation).shown = (t.perform operation).shown := by
  cases operation with
  | power operation =>
    have hkeeps := ScriptedControl.keepsWords h.resetsNothing
    have halike := Manager.perform_alike hkeeps hhost h.block
    have hcontrol := Manager.control_perform t.manager t.block operation
    simp only [Session.perform, Response.shown, h.manager]
    refine ⟨⟨halike.manager, halike.block, ?_⟩, ?_⟩
    · rw [hcontrol]
      exact h.resetsNothing
    · rw [halike.calls, halike.log]
      cases operation with
      | arm | load | start | resume | requestStop => simp only [powerAnswer, halike.result]
      | readState | wakeReason | sleep => exact absurd hhost Bool.false_ne_true
  | store write => exact ⟨⟨h.manager, h.block.store _ _, h.resetsNothing⟩, rfl⟩
  | setStop stop => exact ⟨⟨h.manager, h.block.store .stopFlag _, h.resetsNothing⟩, rfl⟩
  | setControl change =>
    refine ⟨⟨?_, h.block, ScriptedControl.resetsOnLoad_change h.resetsNothing hhost⟩, rfl⟩
    simp only [Session.perform, h.manager]
  | newMonitor | step | run | load | stopRequested | wakeHost | pause | config | lastPpm =>
    exact absurd hhost Bool.false_ne_true

/-- An operation of the main processor leaves the monitor's part alone. -/
theorem MonitorAgree.perform {s t : Session} (h : s.MonitorAgree t)
    (hreset : s.manager.control.resetsOnLoad = false) {operation : Operation}
    (hhost : operation.isHost) : (s.perform operation).session.MonitorAgree t := by
  have hself : (s.perform operation).session.MonitorAgree s := by
    cases operation with
    | power operation =>
      exact ⟨rfl, Manager.agree_perform (ScriptedControl.keepsWords hreset) hhost s.block⟩
    | store write =>
      exact ⟨rfl, Block.agree_store (Word.monitorOnly_eq_false hhost) s.block write.value⟩
    | setStop stop => exact ⟨rfl, Block.agree_monitorOnly_iff.mpr ⟨rfl, rfl⟩⟩
    | setControl change => exact ⟨rfl, Block.Agree.refl _ _⟩
    | newMonitor | step | run | load | stopRequested | wakeHost | pause | config | lastPpm =>
      exact absurd hhost Bool.false_ne_true
  exact ⟨hself.monitor.trans h.monitor, hself.block.trans h.block⟩

/-- A sample leaves the main processor's part alone. -/
theorem HostAgree.sample {s t : Session} (h : s.HostAgree t) :
    (s.perform .step).session.HostAgree t :=
  ⟨h.manager, (Block.agree_observe s.block _).trans h.block, h.resetsNothing⟩

/-- No operation of the main processor takes a sample. -/
theorem sampled?_of_isHost {s : Session} {operation : Operation} (hhost : operation.isHost) :
    (s.perform operation).sampled? = none := by
  cases operation with
  | power operation =>
    cases operation with
    | arm | load | start | resume | requestStop => rfl
    | readState | wakeReason | sleep => exact absurd hhost Bool.false_ne_true
  | store | setStop | setControl => rfl
  | newMonitor | step | run | load | stopRequested | wakeHost | pause | config | lastPpm =>
    exact absurd hhost Bool.false_ne_true

/-- A sample of both monitors keeps their part the same and reads the same. -/
theorem MonitorAgree.sample {s t : Session} (h : s.MonitorAgree t) :
    (s.perform .step).session.MonitorAgree (t.perform .step).session ∧
      (s.perform .step).sampled? = (t.perform .step).sampled? := by
  simp only [Session.perform, Monitor.sample, h.monitor, Response.sampled?]
  exact ⟨⟨rfl, h.block.observe _⟩, congrArg some (Block.reading?_observe _ _ _)⟩

/-! ## Interleavings -/

/-- The session after operations in order. -/
def afterAll (s : Session) (operations : List Operation) : Session :=
  operations.foldl (fun s operation => (s.perform operation).session) s

/-- What the operations of the main processor among others show. -/
def hostShown (s : Session) (operations : List Operation) :
    List (Answer × List ControlCall × List Record) :=
  ((operations.zip (s.performAll operations)).filter (·.1.isHost)).map (·.2.shown)

/-- Which samples fail and what the others read. -/
def sampled (s : Session) (operations : List Operation) : List (Option UInt32) :=
  (s.performAll operations).filterMap Response.sampled?

end Session

/-- The third list merges the first two and keeps the order of each. -/
inductive Interleaving {α : Type} : List α → List α → List α → Prop where
  | nil : Interleaving [] [] []
  | left {x : α} {xs ys zs : List α} (rest : Interleaving xs ys zs) :
    Interleaving (x :: xs) ys (x :: zs)
  | right {y : α} {xs ys zs : List α} (rest : Interleaving xs ys zs) :
    Interleaving xs (y :: ys) (y :: zs)

namespace Session

variable {host steps operations : List Operation}

theorem hostShown_cons (s : Session) (operation : Operation) (operations : List Operation) :
    s.hostShown (operation :: operations) =
      if operation.isHost
      then (s.perform operation).shown :: (s.perform operation).session.hostShown operations
      else (s.perform operation).session.hostShown operations := by
  simp only [hostShown, performAll, List.zip_cons_cons, List.filter_cons]
  split
  · rfl
  · rfl

theorem sampled_cons (s : Session) (operation : Operation) (operations : List Operation) :
    s.sampled (operation :: operations) =
      (s.perform operation).sampled?.toList ++ (s.perform operation).session.sampled operations := by
  simp only [sampled, performAll]
  cases hsampled : (s.perform operation).sampled? <;> simp [hsampled]

/-- To the main processor an interleaving is what its own operations are alone. -/
theorem HostAgree.afterAll (h : Interleaving host steps operations)
    (hhost : ∀ operation ∈ host, operation.isHost)
    (hsteps : ∀ operation ∈ steps, operation = .step) {s t : Session} (hagree : s.HostAgree t) :
    (s.afterAll operations).HostAgree (t.afterAll host) ∧
      s.hostShown operations = t.hostShown host := by
  induction h generalizing s t with
  | nil => exact ⟨hagree, rfl⟩
  | left rest ih =>
    obtain ⟨hfirst, hrest⟩ := List.forall_mem_cons.mp hhost
    obtain ⟨hnext, hshown⟩ := hagree.perform hfirst
    obtain ⟨hfinal, hlater⟩ := ih hrest hsteps hnext
    refine ⟨hfinal, ?_⟩
    rw [hostShown_cons, hostShown_cons, if_pos hfirst, if_pos hfirst, hshown, hlater]
  | right rest ih =>
    obtain ⟨hfirst, hrest⟩ := List.forall_mem_cons.mp hsteps
    subst hfirst
    obtain ⟨hfinal, hlater⟩ := ih hhost hrest hagree.sample
    refine ⟨hfinal, ?_⟩
    have hnot : ¬ Operation.step.isHost := Bool.false_ne_true
    rw [hostShown_cons, if_neg hnot, hlater]

/-- To the monitor an interleaving is what its own samples are alone. -/
theorem MonitorAgree.afterAll (h : Interleaving host steps operations)
    (hhost : ∀ operation ∈ host, operation.isHost)
    (hsteps : ∀ operation ∈ steps, operation = .step) {s t : Session}
    (hreset : s.manager.control.resetsOnLoad = false) (hagree : s.MonitorAgree t) :
    (s.afterAll operations).MonitorAgree (t.afterAll steps) ∧
      s.sampled operations = t.sampled steps := by
  induction h generalizing s t with
  | nil => exact ⟨hagree, rfl⟩
  | left rest ih =>
    obtain ⟨hfirst, hrest⟩ := List.forall_mem_cons.mp hhost
    have hnext := (HostAgree.refl hreset).perform hfirst
    obtain ⟨hfinal, hlater⟩ :=
      ih hrest hsteps hnext.1.resetsNothing (hagree.perform hreset hfirst)
    refine ⟨hfinal, ?_⟩
    rw [sampled_cons, sampled?_of_isHost hfirst, hlater]
    rfl
  | right rest ih =>
    obtain ⟨hfirst, hrest⟩ := List.forall_mem_cons.mp hsteps
    subst hfirst
    obtain ⟨hnext, hsampled⟩ := hagree.sample
    have hnextReset : (s.perform .step).session.manager.control.resetsOnLoad = false := hreset
    obtain ⟨hfinal, hlater⟩ := ih hhost hrest hnextReset hnext
    refine ⟨hfinal, ?_⟩
    rw [sampled_cons, sampled_cons, hsampled, hlater]

/-- Two interleavings of the same operations and the same number of samples differ at most in the
above count and in what it decides.  The other words, the configuration, the platform and the
monitor end the same, every operation of the main processor has the same answer, the same requests
and the same records, and every sample fails or reads the same. -/
theorem interleavings_agree (s : Session) (hreset : s.manager.control.resetsOnLoad = false)
    (host : List Operation) (hhost : ∀ operation ∈ host, operation.isHost) (samples : Nat)
    (first second : List Operation)
    (hfirst : Interleaving host (List.replicate samples .step) first)
    (hsecond : Interleaving host (List.replicate samples .step) second) :
    (∀ word ≠ .aboveCount,
        (s.afterAll first).block.load word = (s.afterAll second).block.load word) ∧
      (s.afterAll first).manager = (s.afterAll second).manager ∧
      (s.afterAll first).monitor = (s.afterAll second).monitor ∧
      s.hostShown first = s.hostShown second ∧
      s.sampled first = s.sampled second := by
  have hsteps : ∀ operation ∈ List.replicate samples Operation.step, operation = .step :=
    fun _ hmem => List.eq_of_mem_replicate hmem
  obtain ⟨hhostFirst, hshownFirst⟩ := (HostAgree.refl hreset).afterAll hfirst hhost hsteps
  obtain ⟨hhostSecond, hshownSecond⟩ := (HostAgree.refl hreset).afterAll hsecond hhost hsteps
  obtain ⟨hmonFirst, hsampledFirst⟩ := (MonitorAgree.refl s).afterAll hfirst hhost hsteps hreset
  obtain ⟨hmonSecond, hsampledSecond⟩ := (MonitorAgree.refl s).afterAll hsecond hhost hsteps hreset
  refine ⟨?_, hhostFirst.manager.trans hhostSecond.manager.symm,
    hmonFirst.monitor.trans hmonSecond.monitor.symm, hshownFirst.trans hshownSecond.symm,
    hsampledFirst.trans hsampledSecond.symm⟩
  intro word hword
  cases word with
  | threshold | confirmCount | stopFlag =>
    exact (hhostFirst.block.trans hhostSecond.block.symm) _ rfl
  | lastReading | cycleCount => exact (hmonFirst.block.trans hmonSecond.block.symm) _ rfl
  | aboveCount => exact absurd rfl hword

/-- The order decides the above count when the monitor is resumed, also when the coprocessor then
fails to start, and it decides nothing else. -/
theorem interleavings_agree_on_resume :
    let s : Session :=
      { manager := { control := {}, config := .standard }
        block := { Block.withLimits 1000 3 with lastReading := 5, cycleCount := 0xffffffff }
        monitor := { converter := { remaining := [some 1200, some 1300] }, intervalMs := 200 } }
    let host : List Operation :=
      [.power .requestStop, .setControl { startFailure := some (some "busy") }, .power .resume]
    let first := host ++ [.step, .step]
    let second := [.step, .step] ++ host
    (s.manager.control.resetsOnLoad = false ∧ (∀ operation ∈ host, operation.isHost) ∧
        Interleaving host (List.replicate 2 .step) first ∧
        Interleaving host (List.replicate 2 .step) second) ∧
      (∀ word ≠ .aboveCount,
        (s.afterAll first).block.load word = (s.afterAll second).block.load word) ∧
      s.hostShown first = s.hostShown second ∧
      (s.afterAll first).block.aboveCount = 2 ∧ (s.afterAll second).block.aboveCount = 0 := by
  intro s host first second
  have hreset : s.manager.control.resetsOnLoad = false := rfl
  have hhost : ∀ operation ∈ host, operation.isHost := by decide
  have hfirst : Interleaving host (List.replicate 2 .step) first :=
    .left (.left (.left (.right (.right .nil))))
  have hsecond : Interleaving host (List.replicate 2 .step) second :=
    .right (.right (.left (.left (.left .nil))))
  obtain ⟨hwords, -, -, hshown, -⟩ :=
    interleavings_agree s hreset host hhost 2 first second hfirst hsecond
  exact ⟨⟨hreset, hhost, hfirst, hsecond⟩, hwords, hshown, by decide, by decide⟩

end Session

end GasWatch
