import GasWatch.Converter.Scripted
import GasWatch.Proofs.Agreement
import GasWatch.Proofs.Arming
import GasWatch.Proofs.Turns

/-!
# Arming forgets the past

A block that has been armed, loaded or resumed behaves like a new one with the same limits.
`Manager.Rearms` lists the three ways to get such a block.  `Block.Tracks` relates it to the new
block: all words are equal but the cycle count, which is ahead by a constant, and the last reading,
which is equal as soon as there is one.

The relation is kept by host writes (`Tracks.apply`) and by samples (`Tracks.observe`), which also
give the same verdict on both sides.  Hence it is kept by anything that a monitor and a host do
together: sample by sample and write by write in a `Course`, and turn by turn in a run
(`Run.Tracks.turn`).  `rearmed_tracks_new` puts these together.
-/

namespace GasWatch

/-! ## A block and a new one -/

/-- The first block is a new one apart from its past: its cycle count is ahead by `offset`, and its
last reading may be an old one unless a reading has been `seen` since. -/
structure Block.Tracks (offset : UInt32) (seen : Prop) (a b : Block) : Prop where
  limits : a.Agree Word.hostWritable b
  aboveCount : a.aboveCount = b.aboveCount
  cycleCount : a.cycleCount = b.cycleCount + offset
  lastReading : seen → a.lastReading = b.lastReading

namespace Block.Tracks

variable {offset : UInt32} {seen : Prop} {a b : Block}

/-- A block without readings counted and without a request to halt tracks the new block with its
limits. -/
theorem of_cleared (haboveCount : a.aboveCount = 0) (hstopFlag : a.stopFlag = 0) :
    a.Tracks a.cycleCount False (.withLimits a.threshold a.confirmCount) := by
  refine ⟨agree_hostWritable_iff.mpr ⟨rfl, rfl, hstopFlag⟩, haboveCount, ?_, False.elim⟩
  exact (UInt32.zero_add a.cycleCount).symm

theorem mono {seen' : Prop} (h : a.Tracks offset seen b) (himp : seen' → seen) :
    a.Tracks offset seen' b :=
  { h with lastReading := fun hseen => h.lastReading (himp hseen) }

/-- The same writes by the host keep the relation. -/
theorem apply (h : a.Tracks offset seen b) {writes : List Write}
    (hwrites : ∀ write ∈ writes, write.word.hostWritable) :
    (a.apply writes).Tracks offset seen (b.apply writes) := by
  have hkept : ∀ (c : Block) (word : Word), word.hostWritable = false →
      (c.apply writes).load word = c.load word :=
    fun c _ hword => load_apply_of_not_hostWritable hwrites hword c
  have haboveCount : ∀ c : Block, (c.apply writes).aboveCount = c.aboveCount :=
    fun c => hkept c .aboveCount rfl
  have hcycleCount : ∀ c : Block, (c.apply writes).cycleCount = c.cycleCount :=
    fun c => hkept c .cycleCount rfl
  have hlastReading : ∀ c : Block, (c.apply writes).lastReading = c.lastReading :=
    fun c => hkept c .lastReading rfl
  refine ⟨h.limits.apply writes, ?_, ?_, fun hseen => ?_⟩
  · rw [haboveCount, haboveCount, h.aboveCount]
  · rw [hcycleCount, hcycleCount, h.cycleCount]
  · rw [hlastReading, hlastReading, h.lastReading hseen]

/-- A reading is recorded alike, and from then on it is the last one of both. -/
theorem record (h : a.Tracks offset seen b) (reading : UInt32) :
    (a.record reading).Tracks offset True (b.record reading) := by
  obtain ⟨hthreshold, hconfirmCount, hstopFlag⟩ := agree_hostWritable_iff.mp h.limits
  refine ⟨agree_hostWritable_iff.mpr ⟨hthreshold, hconfirmCount, hstopFlag⟩, ?_, ?_, fun _ => rfl⟩
  · simp only [Block.record, hthreshold, h.aboveCount]
  · simp only [Block.record, h.cycleCount]
    rw [UInt32.add_assoc, UInt32.add_comm offset 1, ← UInt32.add_assoc]

theorem verdict_eq (h : a.Tracks offset seen b) (conversion : Conversion) :
    (a.observe conversion).verdict = (b.observe conversion).verdict := by
  cases conversion with
  | failed fault => rfl
  | reading reading =>
    obtain ⟨hthreshold, hconfirmCount, -⟩ := agree_hostWritable_iff.mp h.limits
    simp only [observe, hthreshold, hconfirmCount, (h.record reading).aboveCount]
    split
    · rfl
    · rfl

/-- A conversion keeps the relation, and a reading makes the last readings equal. -/
theorem observe (h : a.Tracks offset seen b) (conversion : Conversion) :
    (a.observe conversion).block.Tracks offset
      (seen ∨ (a.observe conversion).verdict ≠ .readFailed) (b.observe conversion).block := by
  cases conversion with
  | failed fault =>
    refine h.mono ?_
    intro hseen
    rcases hseen with hseen | hverdict
    · exact hseen
    · exact absurd rfl hverdict
  | reading reading =>
    rw [block_observe_reading, block_observe_reading]
    exact (h.record reading).mono fun _ => trivial

end Block.Tracks

/-! ## Samples and writes one by one -/

/-- What can happen to a block that is watched. -/
inductive Activity where
  /-- The monitor takes a sample. -/
  | sample
  /-- The host writes a word. -/
  | write (write : Block.Write)

/-- A write of the host goes to a word that it may write. -/
def Activity.Permitted : Activity → Prop
  | sample => True
  | write w => w.word.hostWritable

/-- A monitor, a block, and the verdicts on the samples so far. -/
structure Course (σ : Type) where
  monitor : Monitor σ
  block : Block
  verdicts : List Verdict := []

namespace Course

variable {σ : Type} [Converter σ]

/-- Lets something happen. -/
def next (c : Course σ) : Activity → Course σ
  | .sample =>
    let sampled := c.monitor.sample c.block
    { monitor := sampled.1
      block := sampled.2.block
      verdicts := c.verdicts ++ [sampled.2.verdict] }
  | .write w => { c with block := c.block.store w.word w.value }

/-- Lets things happen in order. -/
def follow (c : Course σ) (activities : List Activity) : Course σ := activities.foldl next c

/-- The courses have gave the same verdicts, and the first block tracks the second. -/
structure Tracks (offset : UInt32) (c d : Course σ) : Prop where
  monitor : c.monitor = d.monitor
  verdicts : c.verdicts = d.verdicts
  block : c.block.Tracks offset (∃ verdict ∈ c.verdicts, verdict ≠ .readFailed) d.block

omit [Converter σ] in
theorem Tracks.start {offset : UInt32} {a b : Block} (m : Monitor σ)
    (h : a.Tracks offset False b) :
    Tracks offset { monitor := m, block := a } { monitor := m, block := b } := by
  refine ⟨rfl, rfl, h.mono ?_⟩
  intro hseen
  obtain ⟨verdict, hmem, -⟩ := hseen
  exact List.not_mem_nil hmem

theorem Tracks.next {offset : UInt32} {c d : Course σ} (h : c.Tracks offset d)
    {activity : Activity} (hactivity : activity.Permitted) :
    (c.next activity).Tracks offset (d.next activity) := by
  cases activity with
  | write w =>
    have hwrites : ∀ write ∈ [w], write.word.hostWritable := List.forall_mem_singleton.mpr hactivity
    exact ⟨h.monitor, h.verdicts, h.block.apply hwrites⟩
  | sample =>
    simp only [Course.next, Monitor.sample, ← h.monitor]
    refine ⟨rfl, ?_, ?_⟩
    · rw [h.verdicts, h.block.verdict_eq]
    · refine (h.block.observe _).mono ?_
      intro hseen
      obtain ⟨verdict, hmem, hverdict⟩ := hseen
      rcases List.mem_append.mp hmem with hmem | hmem
      · exact Or.inl ⟨verdict, hmem, hverdict⟩
      · rw [List.mem_singleton.mp hmem] at hverdict
        exact Or.inr hverdict

theorem Tracks.follow {offset : UInt32} {c d : Course σ} (h : c.Tracks offset d)
    {activities : List Activity} (hactivities : ∀ a ∈ activities, a.Permitted) :
    (c.follow activities).Tracks offset (d.follow activities) := by
  induction activities generalizing c d with
  | nil => exact h
  | cons activity activities ih =>
    have hactivity := hactivities activity List.mem_cons_self
    exact ih (h.next hactivity) fun a ha => hactivities a (List.mem_cons_of_mem _ ha)

end Course

/-! ## Turns of a run -/

/-- Whether the record tells of a reading. -/
def Record.ofReading : Record → Bool
  | below .. | above .. | confirmed .. => true
  | readFailed _ | halted | converterReady | armed .. | running | stopRequested
  | wakeupNotArmed _ | sleeping => false

theorem exists_ofReading_push {log : Array Record} {record : Record} :
    (∃ other ∈ log.push record, other.ofReading) ↔
      (∃ other ∈ log, other.ofReading) ∨ record.ofReading := by
  constructor
  · intro h
    obtain ⟨other, hmem, hreading⟩ := h
    rcases Array.mem_push.mp hmem with hmem | rfl
    · exact Or.inl ⟨other, hmem, hreading⟩
    · exact Or.inr hreading
  · intro h
    rcases h with ⟨other, hmem, hreading⟩ | hreading
    · exact ⟨other, Array.mem_push_of_mem _ hmem, hreading⟩
    · exact ⟨record, Array.mem_push_self, hreading⟩

theorem Block.verdict_ne_of_ofReading {b : Block} {conversion : Conversion}
    (h : (b.observe conversion).record.ofReading) :
    (b.observe conversion).verdict ≠ .readFailed := by
  cases conversion with
  | failed fault => exact absurd h Bool.false_ne_true
  | reading reading =>
    simp only [observe]
    split
    · exact Verdict.noConfusion
    · dsimp only
      split <;> exact Verdict.noConfusion

namespace Run

variable {σ : Type} [Converter σ]

/-- The runs are at the same point, and the first block tracks the second.  The log shows whether
there has been a reading. -/
structure Tracks (offset : UInt32) (r q : Run σ) : Prop where
  exit : r.exit = q.exit
  delays : r.delays = q.delays
  monitor : r.monitor = q.monitor
  block : r.block.Tracks offset (∃ record ∈ r.log, record.ofReading) q.block

namespace Tracks

variable {offset : UInt32} {r q : Run σ}

omit [Converter σ] in
theorem start {a b : Block} (m : Monitor σ) (h : a.Tracks offset False b) :
    (m.start a).Tracks offset (m.start b) := by
  refine ⟨rfl, rfl, rfl, h.mono ?_⟩
  intro hseen
  obtain ⟨record, hmem, -⟩ := hseen
  exact Array.not_mem_empty record hmem

theorem verdict_eq (h : r.Tracks offset q) :
    r.observation.verdict = q.observation.verdict := by
  unfold observation Monitor.sample
  rw [← h.monitor]
  exact h.block.verdict_eq _

theorem sampledMonitor_eq (h : r.Tracks offset q) : r.sampledMonitor = q.sampledMonitor := by
  unfold sampledMonitor Monitor.sample
  rw [h.monitor]

theorem block_observation (h : r.Tracks offset q) :
    r.observation.block.Tracks offset
      ((∃ record ∈ r.log, record.ofReading) ∨ r.observation.verdict ≠ .readFailed)
      q.observation.block := by
  unfold observation Monitor.sample
  rw [← h.monitor]
  exact h.block.observe _

/-- A turn of both runs keeps them at the same point. -/
theorem turn (h : r.Tracks offset q) {host : Schedule} (hhost : host.Permitted) :
    (r.turn host).Tracks offset (q.turn host) := by
  cases hexit : r.exit with
  | some exit =>
    rw [turn_of_exit host (by rw [hexit]; rfl), turn_of_exit host (by rw [← h.exit, hexit]; rfl)]
    exact h
  | none =>
    rw [turn_of_ongoing host hexit, turn_of_ongoing host (h.exit.symm.trans hexit)]
    cases hstop : r.block.stopRequested with
    | true =>
      rw [advance_of_stopRequested host hstop,
        advance_of_stopRequested host (h.block.limits.stopRequested_eq.symm.trans hstop)]
      refine ⟨rfl, h.delays, h.monitor, h.block.mono fun hseen => ?_⟩
      exact (exists_ofReading_push.mp hseen).resolve_right Bool.false_ne_true
    | false =>
      have hstop' := h.block.limits.stopRequested_eq.symm.trans hstop
      cases hconfirmed : r.observation.verdict.isConfirmed with
      | true =>
        obtain ⟨reading, count, hverdict⟩ := Verdict.exists_of_isConfirmed hconfirmed
        rw [advance_of_confirmed host hstop hverdict,
          advance_of_confirmed host hstop' (h.verdict_eq.symm.trans hverdict)]
        refine ⟨rfl, h.delays, congrArg Monitor.wakeHost h.sampledMonitor_eq, ?_⟩
        refine h.block_observation.mono fun _ => Or.inr ?_
        rw [hverdict]
        exact Verdict.noConfusion
      | false =>
        have hconfirmed' : q.observation.verdict.isConfirmed = false := by
          rw [← h.verdict_eq, hconfirmed]
        rw [advance_of_unconfirmed host hstop hconfirmed,
          advance_of_unconfirmed host hstop' hconfirmed']
        refine ⟨h.exit, congrArg (· + 1) h.delays, ?_, ?_⟩
        · simp only [h.sampledMonitor_eq, h.monitor]
        · simp only [← h.delays]
          refine (h.block_observation.mono fun hseen => ?_).apply (hhost _)
          exact (exists_ofReading_push.mp hseen).imp_right Block.verdict_ne_of_ofReading

theorem after (h : r.Tracks offset q) {host : Schedule} (hhost : host.Permitted) (turns : Nat) :
    (r.after host turns).Tracks offset (q.after host turns) := by
  induction turns with
  | zero => exact h
  | succ turns ih =>
    rw [after_succ, after_succ]
    exact ih.turn hhost

end Tracks

end Run

/-! ## Arming, loading and resuming -/

namespace Manager

variable {κ : Type} [Control κ]

/-- The block is what the manager makes of another one when it arms a configuration, loads an
image or resumes the monitor, and these are its limits.  A platform that fails to start is no
obstacle, since the words are written before. -/
inductive Rearms (m : Manager κ) (b : Block) : Block → UInt32 → UInt32 → Prop where
  | arm (c : Config) (hresult : (m.arm b c).result = .ok ()) :
    Rearms m b (m.arm b c).block c.threshold c.confirmCount
  | load (hresult : (m.load b).result = .ok ()) :
    Rearms m b (m.load b).block m.config.threshold m.config.confirmCount
  | resume :
    Rearms m b (m.resume b).block (m.resume b).block.threshold (m.resume b).block.confirmCount

/-- Whatever a block went through, it is like new once it is armed. -/
theorem Rearms.tracks {m : Manager κ} {b armed : Block} {threshold confirmCount : UInt32}
    (h : m.Rearms b armed threshold confirmCount) :
    armed.Tracks armed.cycleCount False (.withLimits threshold confirmCount) := by
  cases h with
  | arm c hresult =>
    rw [block_arm_of_ok hresult]
    exact Block.Tracks.of_cleared rfl rfl
  | load hresult =>
    rw [block_load_of_ok hresult]
    exact Block.Tracks.of_cleared rfl rfl
  | resume =>
    rw [Manager.resume, block_start]
    exact Block.Tracks.of_cleared rfl rfl

end Manager

/-- A monitor on a block that has been armed, loaded or resumed does what it would do on a new block
with the same limits.  This holds for samples and host writes in any order and after any number of
turns of a run: verdicts, exit, delays and wakes are the same, and so are the words, apart from
the cycles counted before and, up to the first reading, the last reading from before. -/
theorem rearmed_tracks_new {κ σ : Type} [Control κ] [Converter σ] (manager : Manager κ)
    (b armed : Block) (threshold confirmCount : UInt32)
    (hrearms : manager.Rearms b armed threshold confirmCount) (m : Monitor σ) :
    (∀ activities : List Activity, (∀ a ∈ activities, a.Permitted) →
        Course.Tracks armed.cycleCount
          (Course.follow { monitor := m, block := armed } activities)
          (Course.follow { monitor := m, block := .withLimits threshold confirmCount }
            activities)) ∧
      ∀ host : Schedule, host.Permitted → ∀ turns,
        Run.Tracks armed.cycleCount ((m.start armed).after host turns)
          ((m.start (.withLimits threshold confirmCount)).after host turns) := by
  have htracks := hrearms.tracks
  refine ⟨fun activities hactivities => ?_, fun host hhost turns => ?_⟩
  · exact (Course.Tracks.start m htracks).follow hactivities
  · exact (Run.Tracks.start m htracks).after hhost turns

/-- A block that was stopped in the middle of a row wakes the host like a new one after it has been
loaded without a reset. -/
theorem loaded_tracks_new :
    let manager : Manager ScriptedControl := { control := {}, config := .standard }
    let b : Block :=
      { threshold := 17, lastReading := 99, aboveCount := 2, confirmCount := 0, cycleCount := 41
        stopFlag := 7 }
    let m : Monitor ScriptedConverter :=
      { converter := { remaining := [none, some 600, some 560, some 700] }, intervalMs := 200 }
    manager.Rearms b (manager.load b).block 560 3 ∧
      ∀ turns, Run.Tracks 41 ((m.start (manager.load b).block).after .quiet turns)
        ((m.start (.withLimits 560 3)).after .quiet turns) := by
  intro manager b m
  have hresult : (manager.load b).result = .ok () :=
    (Manager.load_succeeds_iff manager b).mpr
      ⟨Config.validate_eq_ok_iff.mpr Config.valid_standard, rfl⟩
  have hrearms : manager.Rearms b (manager.load b).block 560 3 := by
    rw [← Config.threshold_standard]
    exact .load hresult
  have hcycles : (manager.load b).block.cycleCount = 41 := by
    rw [Manager.block_load_of_ok hresult]
    rfl
  refine ⟨hrearms, fun turns => ?_⟩
  have hquiet : Schedule.quiet.Permitted := fun _ _ hmem => absurd hmem List.not_mem_nil
  rw [← hcycles]
  exact (rearmed_tracks_new manager b _ 560 3 hrearms m).2 .quiet hquiet turns

end GasWatch
