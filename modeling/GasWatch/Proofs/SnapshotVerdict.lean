import GasWatch.Proofs.Accord
import GasWatch.Proofs.ScriptedRuns
import GasWatch.Proofs.WakeCondition

/-!
# The verdict of a snapshot

The main processor does not see the samples.  It reads the six words, and `Snapshot.confirmed`
judges them on its own: there is a row, and it is as long as the confirm count asks for.  A sample
judges the row in another way, right after it has extended it.

The two verdicts are compared by the history of a session.  `Event` lists what bears on them, the
samples with their verdicts and the operations that clear the row, and `Alarmed` says that the last
of these events, failed samples aside, is a sample that completed a row.  A snapshot is confirmed
exactly if the history is alarmed.

There are three groups of lemmas.

* Samples.  `confirmed_observe_iff` is the agreement on one sample.  Since no host writes the two
  counts, a run keeps it turn by turn (`confirmed_after_iff`).
* Runs.  A run ends with the first sample that completes a row, so if there was none before it the
  snapshot after it also tells how it ended (`wakeSignalled_iff_confirmed`).
* Sessions.  An operation of the power manager clears the row (`aboveCount_of_clears`) or leaves the
  two counts alone (`confirmed_of_not_clears`).  `confirmed_iff_alarmed` follows by induction on the
  operations of a session.
-/

namespace GasWatch

/-! ## Histories -/

/-- Something that bears on the verdict of a snapshot. -/
inductive Event where
  /-- A sample was taken, with this verdict. -/
  | sampled (verdict : Verdict)
  /-- The row was cleared. -/
  | cleared
  deriving DecidableEq

/-- A sample completed a row, and since then no reading was taken and nothing was cleared. -/
def Alarmed (history : List Event) : Prop :=
  ∃ before reading count after,
    history = before ++ .sampled (.confirmed reading count) :: after ∧
      ∀ event ∈ after, event = .sampled .readFailed

/-- The last event decides, unless it is a failed sample. -/
theorem alarmed_concat_iff {history : List Event} {event : Event} :
    Alarmed (history ++ [event]) ↔
      (∃ reading count, event = .sampled (.confirmed reading count)) ∨
        event = .sampled .readFailed ∧ Alarmed history := by
  constructor
  · intro h
    obtain ⟨before, reading, count, after, heq, hafter⟩ := h
    rcases List.eq_nil_or_concat after with rfl | ⟨rest, last, rfl⟩
    · have hevent := (List.append_inj' heq rfl).2
      exact Or.inl ⟨reading, count, List.head_eq_of_cons_eq hevent⟩
    · rw [List.concat_eq_append] at heq hafter
      have hsplit : history ++ [event] =
          (before ++ .sampled (.confirmed reading count) :: rest) ++ [last] := by
        rw [heq, List.append_assoc, List.cons_append]
      obtain ⟨hhistory, hlast⟩ := List.append_inj' hsplit rfl
      obtain rfl : event = last := List.head_eq_of_cons_eq hlast
      obtain ⟨hrest, hfailed⟩ := List.forall_mem_append.mp hafter
      exact Or.inr ⟨hfailed event (List.mem_singleton_self event),
        before, reading, count, rest, hhistory, hrest⟩
  · intro h
    rcases h with ⟨reading, count, rfl⟩ | ⟨rfl, before, reading, count, after, rfl, hafter⟩
    · exact ⟨history, reading, count, [], rfl, fun _ hmem => absurd hmem List.not_mem_nil⟩
    · refine ⟨before, reading, count, after ++ [.sampled .readFailed], ?_, ?_⟩
      · rw [List.append_assoc, List.cons_append]
      · exact List.forall_mem_append.mpr ⟨hafter, List.forall_mem_singleton.mpr rfl⟩

theorem not_alarmed_nil : ¬ Alarmed [] := by
  intro h
  obtain ⟨before, reading, count, after, heq, -⟩ := h
  exact List.cons_ne_nil _ _ (List.append_eq_nil_iff.mp heq.symm).2

/-! ## Samples -/

namespace Block

variable {b : Block}

/-- The snapshot of a block is confirmed if there is a row and it reaches the confirm count. -/
theorem confirmed_snapshot_iff :
    b.snapshot.confirmed ↔ 0 < b.aboveCount.toNat ∧ b.confirmCount ≤ b.aboveCount := by
  rw [Snapshot.confirmed, Bool.and_eq_true, decide_eq_true_iff, decide_eq_true_iff,
    UInt32.lt_iff_toNat_lt]
  rfl

/-- Without a row no snapshot is confirmed. -/
theorem not_confirmed_of_aboveCount (hcount : b.aboveCount = 0) :
    b.snapshot.confirmed = false := by
  rw [← Bool.not_eq_true, confirmed_snapshot_iff, hcount]
  exact fun h => absurd h.1 (Nat.lt_irrefl 0)

/-- Only the two counts matter to the verdict of a snapshot. -/
theorem confirmed_congr {c : Block} (haboveCount : c.aboveCount = b.aboveCount)
    (hconfirmCount : c.confirmCount = b.confirmCount) :
    c.snapshot.confirmed = b.snapshot.confirmed := by
  rw [Bool.eq_iff_iff, confirmed_snapshot_iff, confirmed_snapshot_iff, haboveCount, hconfirmCount]

/-- After a sample the snapshot is confirmed if the sample completed a row, or if it failed and the
snapshot was confirmed before. -/
theorem confirmed_observe_iff (b : Block) (conversion : Conversion) :
    (b.observe conversion).block.snapshot.confirmed ↔
      (b.observe conversion).verdict.isConfirmed ∨
        (b.observe conversion).verdict = .readFailed ∧ b.snapshot.confirmed := by
  cases conversion with
  | failed fault => simp [observe, Verdict.isConfirmed]
  | reading reading =>
    have hcount := b.toNat_aboveCount_record reading
    have hread := b.verdict_observe_reading_ne reading
    simp only [hread, false_and, or_false, isConfirmed_observe_iff, block_observe_reading,
      confirmed_snapshot_iff, Conversion.reading.injEq, exists_eq_left']
    have hconfirmCount : (b.record reading).confirmCount = b.confirmCount := rfl
    rw [hconfirmCount]
    by_cases hreached : b.threshold ≤ reading
    · rw [if_pos hreached] at hcount
      have hpositive : 0 < (b.record reading).aboveCount.toNat := by omega
      simp only [hpositive, hreached]
    · rw [if_neg hreached] at hcount
      have hnone : ¬ 0 < (b.record reading).aboveCount.toNat := by omega
      simp only [hnone, hreached, false_and]

/-- The history that a sample adds to agrees with the snapshot after it. -/
theorem confirmed_observe_iff_alarmed {history : List Event}
    (h : b.snapshot.confirmed ↔ Alarmed history) (conversion : Conversion) :
    (b.observe conversion).block.snapshot.confirmed ↔
      Alarmed (history ++ [.sampled (b.observe conversion).verdict]) := by
  rw [confirmed_observe_iff, alarmed_concat_iff, h]
  cases (b.observe conversion).verdict with
  | confirmed reading count => simp [Verdict.isConfirmed]
  | readFailed => simp [Verdict.isConfirmed]
  | below reading => simp [Verdict.isConfirmed]
  | above reading count => simp [Verdict.isConfirmed]

/-- Writes to other words than the two counts leave the verdict of a snapshot alone. -/
theorem confirmed_apply {writes : List Write}
    (hwrites : ∀ write ∈ writes, write.word ≠ .aboveCount ∧ write.word ≠ .confirmCount)
    (b : Block) : (b.apply writes).snapshot.confirmed = b.snapshot.confirmed := by
  have haboveCount : (b.apply writes).load .aboveCount = b.load .aboveCount :=
    load_apply_of_forall_ne (fun write hwrite => (hwrites write hwrite).1) b
  have hconfirmCount : (b.apply writes).load .confirmCount = b.load .confirmCount :=
    load_apply_of_forall_ne (fun write hwrite => (hwrites write hwrite).2) b
  exact confirmed_congr haboveCount hconfirmCount

end Block

/-! ## Runs -/

/-- The host writes neither the above count nor the confirm count. -/
def Schedule.SparesCounts (host : Schedule) : Prop :=
  ∀ delay, ∀ write ∈ host delay, write.word ≠ .aboveCount ∧ write.word ≠ .confirmCount

theorem Schedule.SparesCounts.stoppingFrom {host : Schedule} (h : host.SparesCounts)
    (last : Nat) : (host.stoppingFrom last).SparesCounts := by
  intro delay write hwrite
  rcases List.mem_append.mp hwrite with hmem | hmem
  · exact h delay write hmem
  · by_cases hlast : last ≤ delay
    · rw [if_pos hlast] at hmem
      rw [List.mem_singleton.mp hmem]
      exact ⟨Word.noConfusion, Word.noConfusion⟩
    · rw [if_neg hlast] at hmem
      exact absurd hmem List.not_mem_nil

section Runs

variable {σ : Type} [Converter σ] {m : Monitor σ} {b : Block} {host : Schedule}

/-- The verdict on the sample that the next turn takes, if it takes one. -/
def Run.nextVerdict? (r : Run σ) : Option Verdict :=
  if r.exit.isSome || r.block.stopRequested then none else some r.observation.verdict

/-- The verdicts on the samples that a run takes in its first turns, in order. -/
def Monitor.verdicts (m : Monitor σ) (b : Block) (host : Schedule) (turns : Nat) : List Verdict :=
  (List.range turns).filterMap fun turn => ((m.start b).after host turn).nextVerdict?

theorem Monitor.verdicts_succ (m : Monitor σ) (b : Block) (host : Schedule) (turns : Nat) :
    m.verdicts b host (turns + 1) =
      m.verdicts b host turns ++ ((m.start b).after host turns).nextVerdict?.toList := by
  rw [verdicts, verdicts, List.range_succ, List.filterMap_append]
  cases hcase : ((m.start b).after host turns).nextVerdict? <;> simp [hcase]

/-- A turn takes no sample and leaves the verdict of the snapshot alone, or it takes a sample, and
the host does not change the verdict of the snapshot after it. -/
theorem Run.confirmed_turn_cases (hhost : host.SparesCounts) (r : Run σ) :
    r.nextVerdict? = none ∧
        (r.turn host).block.snapshot.confirmed = r.block.snapshot.confirmed ∨
      r.nextVerdict? = some r.observation.verdict ∧
        (r.turn host).block.snapshot.confirmed = r.observation.block.snapshot.confirmed := by
  rcases turn_cases host r with ⟨hexit, h⟩ | ⟨hexit, hstop, h⟩ | ⟨hexit, hstop, _, _, -, h⟩ |
    ⟨hexit, hstop, -, h⟩
  · exact Or.inl ⟨by simp [nextVerdict?, hexit], by rw [h]⟩
  · exact Or.inl ⟨by simp [nextVerdict?, hstop], by rw [h]⟩
  · exact Or.inr ⟨by simp [nextVerdict?, hexit, hstop], by rw [h]⟩
  · refine Or.inr ⟨by simp [nextVerdict?, hexit, hstop], ?_⟩
    rw [h]
    exact Block.confirmed_apply (hhost _) _

/-- At every turn of a run the snapshot agrees with the history that its samples add to. -/
theorem confirmed_after_iff (hhost : host.SparesCounts) {history : List Event}
    (h : b.snapshot.confirmed ↔ Alarmed history) (turns : Nat) :
    ((m.start b).after host turns).block.snapshot.confirmed ↔
      Alarmed (history ++ (m.verdicts b host turns).map .sampled) := by
  induction turns with
  | zero =>
    rw [show m.verdicts b host 0 = [] from rfl, List.map_nil, List.append_nil]
    exact h
  | succ turns ih =>
    rw [Run.after_succ, Monitor.verdicts_succ, List.map_append, ← List.append_assoc]
    rcases Run.confirmed_turn_cases hhost ((m.start b).after host turns) with
      ⟨hnone, hsame⟩ | ⟨hsome, hsame⟩
    · rw [hnone, hsame, ih, Option.toList_none, List.map_nil, List.append_nil]
    · rw [hsome, hsame, Option.toList_some, List.map_singleton]
      exact Block.confirmed_observe_iff_alarmed ih _

/-- A run that begins without a confirmed snapshot has one exactly after it has woken the host. -/
theorem confirmed_after_iff_exit (hhost : host.SparesCounts)
    (hstart : b.snapshot.confirmed = false) (turns : Nat) :
    ((m.start b).after host turns).block.snapshot.confirmed ↔
      ((m.start b).after host turns).exit = some .wakeSignalled := by
  induction turns with
  | zero =>
    show b.snapshot.confirmed = true ↔ none = some Exit.wakeSignalled
    simp [hstart]
  | succ turns ih =>
    rw [Run.after_succ]
    generalize (m.start b).after host turns = r at ih ⊢
    have hsample := Block.confirmed_observe_iff r.block (Converter.convert r.monitor.converter).1
    rcases Run.turn_cases host r with ⟨-, h⟩ | ⟨hexit, -, h⟩ |
      ⟨hexit, -, reading, count, hverdict, h⟩ | ⟨hexit, -, hverdict, h⟩
    · rw [h]
      exact ih
    -- No turn before this one has woken the host, so there is no confirmed snapshot to halt on.
    · rw [h]
      simp only [ih, hexit]
      decide
    · rw [h]
      have hconfirmed : r.observation.verdict.isConfirmed := by rw [hverdict]; rfl
      simp only [iff_true]
      exact hsample.mpr (Or.inl hconfirmed)
    · rw [h]
      show (r.observation.block.apply _).snapshot.confirmed = true ↔ r.exit = some .wakeSignalled
      rw [Block.confirmed_apply (hhost _), ← ih]
      refine hsample.trans ⟨fun hafter => ?_, fun hbefore => ?_⟩
      · rcases hafter with hconfirmed | ⟨-, hbefore⟩
        · exact absurd (hverdict.symm.trans hconfirmed) Bool.false_ne_true
        · exact hbefore
      · rw [ih, hexit] at hbefore
        cases hbefore

theorem Monitor.Ends.wakeSignalled_iff_confirmed (hhost : host.SparesCounts)
    (hstart : b.snapshot.confirmed = false) {report : Report σ}
    (hends : m.Ends b host report) :
    report.exit = .wakeSignalled ↔ report.block.snapshot.confirmed := by
  obtain ⟨turns, hended, rfl⟩ := hends
  have hlast := confirmed_after_iff_exit (m := m) hhost hstart turns
  constructor
  · intro hexit
    exact hlast.mpr (Run.exit_of_report hexit)
  · intro hconfirmed
    exact Run.exit_report (hlast.mp hconfirmed) hended

end Runs

/-! ## What the power manager does -/

namespace Manager

variable {κ : Type} [Control κ]

/-- The operation clears the row: it arms a configuration or loads an image with success, or it
resumes the monitor, with or without success. -/
def clears (m : Manager κ) (b : Block) : Operation → Bool
  | .arm c => (m.arm b c).result.isOk
  | .load => (m.load b).result.isOk
  | .resume => true
  | .start | .requestStop | .readState | .wakeReason | .sleep => false

theorem aboveCount_of_clears {m : Manager κ} {b : Block} {operation : Operation}
    (hclears : m.clears b operation) : (m.perform b operation).block.aboveCount = 0 := by
  cases operation with
  | arm c =>
    rcases arm_cases m b c with ⟨reason, -, h⟩ | ⟨-, h⟩
    · simp [clears, h, Except.isOk, Except.toBool] at hclears
    · rw [perform, h]
      rfl
  | load =>
    rcases load_cases m b with ⟨reason, -, h⟩ | ⟨-, text, control, left, -, h⟩ |
      ⟨-, control, left, -, h⟩
    · simp [clears, h, Except.isOk, Except.toBool] at hclears
    · simp [clears, h, Except.isOk, Except.toBool] at hclears
    · rw [perform, h]
      rfl
  | resume =>
    rw [perform, resume, block_start]
    rfl
  | start | requestStop | readState | wakeReason | sleep => exact absurd hclears Bool.false_ne_true

/-- An operation that does not clear the row leaves the verdict of a snapshot alone. -/
theorem confirmed_of_not_clears {m : Manager κ} (hclean : Control.FailsCleanly m.control)
    {b : Block} {operation : Operation} (hclears : m.clears b operation = false) :
    (m.perform b operation).block.snapshot.confirmed = b.snapshot.confirmed := by
  cases operation with
  | arm c =>
    rcases arm_cases m b c with ⟨reason, -, h⟩ | ⟨-, h⟩
    · rw [perform, h]
    · simp [clears, h, Except.isOk, Except.toBool] at hclears
  | load =>
    rcases load_cases m b with ⟨reason, -, h⟩ | ⟨-, text, control, left, hload, h⟩ |
      ⟨-, control, left, -, h⟩
    · rw [perform, h]
    · rw [perform, h, hclean b text control left hload]
    · simp [clears, h, Except.isOk, Except.toBool] at hclears
  | resume => exact absurd hclears.symm Bool.false_ne_true
  | start => rw [perform, block_start]
  | requestStop => exact Block.confirmed_congr rfl rfl
  | readState | wakeReason | sleep => rfl

end Manager

/-! ## Sessions -/

namespace Session

/-- The host writes neither the above count nor the confirm count on its own during the operation.
What the power manager and the monitor write is not meant. -/
def Operation.sparesCounts : Operation → Bool
  | store write => write.word != .aboveCount && write.word != .confirmCount
  | run host _ => host.all fun entry => entry.2.all fun write =>
      write.word != .aboveCount && write.word != .confirmCount
  | newMonitor .. | step | load _ | stopRequested | setStop _ | wakeHost | pause _ | setControl _
  | power _ | config | lastPpm => true

/-- The events during an operation, in order.  A run takes the samples of its turns. -/
def events (s : Session) : Operation → List Event
  | .step => [.sampled (s.monitor.sample s.block).2.verdict]
  | .run host last =>
    (s.monitor.verdicts s.block ((Schedule.ofEntries host).stoppingFrom last)
      (max 1 last + 1)).map .sampled
  | .power operation => if s.manager.clears s.block operation then [.cleared] else []
  | .newMonitor .. | .load _ | .store _ | .stopRequested | .setStop _ | .wakeHost | .pause _
  | .setControl _ | .config | .lastPpm => []

/-- The events during a list of operations, in order. -/
def history (s : Session) : List Operation → List Event
  | [] => []
  | operation :: rest => s.events operation ++ (s.perform operation).session.history rest

variable {s : Session} {operation : Operation}

theorem sparesCounts_ofEntries {host : List (Nat × List Block.Write)} {last : Nat}
    (hspares : (Operation.run host last).sparesCounts) :
    (Schedule.ofEntries host).SparesCounts := by
  refine Schedule.forall_mem_ofEntries fun entry hentry write hwrite => ?_
  have hwrites := List.all_eq_true.mp (List.all_eq_true.mp hspares entry hentry) write hwrite
  simpa using hwrites

/-- An operation keeps snapshot and history in agreement. -/
theorem confirmed_perform_iff (hspares : operation.sparesCounts) {history : List Event}
    (h : s.block.snapshot.confirmed ↔ Alarmed history) :
    (s.perform operation).session.block.snapshot.confirmed ↔
      Alarmed (history ++ s.events operation) := by
  have hnothing : s.block.snapshot.confirmed ↔ Alarmed (history ++ []) := by
    rw [List.append_nil]
    exact h
  have hmonitor (monitor : Monitor ScriptedConverter) :
      { s with monitor }.block.snapshot.confirmed ↔ Alarmed (history ++ []) := hnothing
  cases operation with
  | step => exact Block.confirmed_observe_iff_alarmed h _
  | run host last =>
    exact confirmed_after_iff ((sparesCounts_ofEntries hspares).stoppingFrom last) h _
  | power operation =>
    show (s.manager.perform s.block operation).block.snapshot.confirmed ↔ _
    cases hclears : s.manager.clears s.block operation with
    | true =>
      rw [Block.not_confirmed_of_aboveCount (Manager.aboveCount_of_clears hclears), events, hclears,
        if_pos rfl, alarmed_concat_iff]
      simp
    | false =>
      have hclean := ScriptedControl.failsCleanly s.manager.control
      rw [Manager.confirmed_of_not_clears hclean hclears, events, hclears]
      exact hnothing
  | store write =>
    simp only [Operation.sparesCounts, Bool.and_eq_true, bne_iff_ne] at hspares
    have hwrite : (s.block.apply [write]).snapshot.confirmed = s.block.snapshot.confirmed :=
      Block.confirmed_apply (List.forall_mem_singleton.mpr hspares) s.block
    exact (Bool.eq_iff_iff.mp hwrite).trans hnothing
  -- Not `exact hnothing`: that would have the clocks of the two monitors compared.
  | newMonitor | wakeHost | pause => exact hmonitor _
  | load | stopRequested | setStop | setControl | config | lastPpm => exact hnothing

theorem confirmed_afterAll_iff {operations : List Operation}
    (hspares : ∀ operation ∈ operations, operation.sparesCounts) {history : List Event}
    (h : s.block.snapshot.confirmed ↔ Alarmed history) :
    (s.afterAll operations).block.snapshot.confirmed ↔
      Alarmed (history ++ s.history operations) := by
  induction operations generalizing s history with
  | nil =>
    rw [Session.history, List.append_nil]
    exact h
  | cons operation rest ih =>
    obtain ⟨hfirst, hrest⟩ := List.forall_mem_cons.mp hspares
    rw [Session.history, ← List.append_assoc]
    exact ih hrest (confirmed_perform_iff hfirst h)

/-- In a session that begins without a confirmed snapshot, and in which nobody but the monitor and
the power manager writes the two counts, the main processor reads a confirmed snapshot exactly if
the last reading since the row was last cleared has completed a row.  This holds after every list of
operations and at every turn of a run begun then.  A run that is begun without a confirmed snapshot
has woken the host exactly if the snapshot after it is confirmed. -/
theorem confirmed_iff_alarmed (s : Session) (hstart : s.block.snapshot.confirmed = false)
    (operations : List Operation)
    (hspares : ∀ operation ∈ operations, operation.sparesCounts) :
    let now := s.afterAll operations
    (∃ snapshot, (now.perform (.power .readState)).answer = .state snapshot ∧
        (snapshot.confirmed ↔ Alarmed (s.history operations))) ∧
      ∀ host : Schedule, host.SparesCounts →
        (∀ turns,
          ((now.monitor.start now.block).after host turns).block.snapshot.confirmed ↔
            Alarmed (s.history operations ++
              (now.monitor.verdicts now.block host turns).map .sampled)) ∧
        ∀ report, now.monitor.Ends now.block host report → now.block.snapshot.confirmed = false →
          (report.exit = .wakeSignalled ↔ report.block.snapshot.confirmed) := by
  intro now
  have hbegin : s.block.snapshot.confirmed ↔ Alarmed [] := by
    simp [hstart, not_alarmed_nil]
  have hnow : now.block.snapshot.confirmed ↔ Alarmed (s.history operations) :=
    confirmed_afterAll_iff hspares hbegin
  refine ⟨⟨now.block.snapshot, rfl, hnow⟩, fun host hhost => ⟨?_, ?_⟩⟩
  · exact fun turns => confirmed_after_iff hhost hnow turns
  · exact fun report hends hcalm => hends.wakeSignalled_iff_confirmed hhost hcalm

/-- A confirm count of zero is reached by one reading, and a failure after it changes nothing.  A
resumption clears the row although the coprocessor then fails to start.  After an arming three
readings are needed, which a stopped run and a step bring together over another failure. -/
theorem confirmed_across_resumption :
    let s : Session :=
      { manager := { control := {}, config := .standard }
        block := Block.withLimits 560 0
        monitor :=
          { converter := { remaining := [some 600, none, some 700, some 800, none, some 900] }
            intervalMs := 200 } }
    let first : List Operation := [.step, .step]
    let second : List Operation :=
      first ++ [.setControl { startFailure := some (some "busy") }, .power .resume]
    let third : List Operation := second ++ [.power (.arm .standard), .run [] 3, .step]
    s.block.snapshot.confirmed = false ∧
      (∀ operation ∈ third, operation.sparesCounts) ∧
      (Alarmed (s.history first) ∧ (s.afterAll first).block.snapshot.confirmed) ∧
      (¬ Alarmed (s.history second) ∧ (s.afterAll second).block.snapshot.confirmed = false) ∧
      Alarmed (s.history third) ∧ (s.afterAll third).block.snapshot.confirmed := by
  intro s first second third
  have hstart : s.block.snapshot.confirmed = false := by decide
  have hthird : ∀ operation ∈ third, operation.sparesCounts := by decide
  have hsecond : ∀ operation ∈ second, operation.sparesCounts := by decide
  have hfirst : ∀ operation ∈ first, operation.sparesCounts := by decide
  have halarmed : Alarmed (s.history first) :=
    ⟨[], 600, 1, [.sampled .readFailed], by decide +kernel, by decide⟩
  have halarmedAgain : Alarmed (s.history third) :=
    ⟨(s.history third).dropLast, 900, 3, [], by decide +kernel, by decide⟩
  have hcalm : (s.afterAll second).block.snapshot.confirmed = false := by decide +kernel
  obtain ⟨⟨snapshot, hread, hconfirmed⟩, -⟩ := confirmed_iff_alarmed s hstart first hfirst
  obtain ⟨⟨cleared, hreadCleared, hcleared⟩, -⟩ := confirmed_iff_alarmed s hstart second hsecond
  obtain ⟨⟨last, hreadLast, hlast⟩, -⟩ := confirmed_iff_alarmed s hstart third hthird
  obtain rfl := Answer.state.inj hread
  obtain rfl := Answer.state.inj hreadCleared
  obtain rfl := Answer.state.inj hreadLast
  refine ⟨hstart, hthird, ⟨halarmed, hconfirmed.mpr halarmed⟩, ⟨?_, hcalm⟩, halarmedAgain,
    hlast.mpr halarmedAgain⟩
  exact fun h => Bool.false_ne_true (hcalm.symm.trans (hcleared.mpr h))

end Session

end GasWatch
