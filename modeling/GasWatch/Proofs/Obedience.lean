import GasWatch.Proofs.Accounting
import GasWatch.Proofs.Restarting

/-!
# Obeying the stop flag

The loop of a run has no bound of its own.  What ends it, when no alarm does, is the stop flag: the
check that finds it raised is the last thing a run does (`Run.after_of_stopFlag`).  So a host that
keeps the flag raised from some delay on has the run end within that many delays.
`Run.WithinDelays` is the invariant behind the bounds.  A run that has made as many delays as it may
has the flag raised and has not woken the host, and so the next turn, if there is one, halts it.

The bounds are met exactly if nothing else raises the flag.  Before the delay from which on the host
stops the run the words in force are those of a host that does not (`inForce_stoppingFrom`).
-/

namespace GasWatch

/-! ## Who raises the flag -/

namespace Block

theorem stopRequested_iff {b : Block} : b.stopRequested ↔ b.stopFlag ≠ 0 := by
  simp [stopRequested]

/-- Writes that give a word no other value than it has leave it as it is. -/
theorem load_apply_of_forall_value {writes : List Write} {word : Word} {value : UInt32}
    (hwrites : ∀ write ∈ writes, write.word = word → write.value = value) {b : Block}
    (hload : b.load word = value) : (b.apply writes).load word = value := by
  induction writes generalizing b with
  | nil => exact hload
  | cons write writes ih =>
    obtain ⟨hfirst, hrest⟩ := List.forall_mem_cons.mp hwrites
    refine ih hrest ?_
    rw [load_store]
    split
    · next hword => exact hfirst hword.symm
    · exact hload

end Block

namespace Schedule

/-- A host that stops a run from some delay on puts the same words in force before that delay. -/
theorem inForce_stoppingFrom (host : Schedule) (b : Block) {delays last : Nat}
    (hlt : delays < max 1 last) :
    (host.stoppingFrom last).inForce b delays = host.inForce b delays := by
  induction delays with
  | zero => rfl
  | succ delays ih =>
    rw [inForce, inForce, ih (by omega), host.stoppingFrom_of_lt (by omega)]

/-- A host that writes no other value than zero to the stop flag leaves it down. -/
theorem stopFlag_inForce {host : Schedule} {b : Block} (hflag : b.stopFlag = 0)
    (hhost : ∀ delay, ∀ write ∈ host delay, write.word = .stopFlag → write.value = 0)
    (delays : Nat) : (host.inForce b delays).stopFlag = 0 := by
  induction delays with
  | zero => exact hflag
  | succ delays ih => exact Block.load_apply_of_forall_value (hhost (delays + 1)) ih

end Schedule

/-! ## The delays of a run -/

namespace Run

variable {σ : Type} [Converter σ] {r : Run σ}

/-- The check that finds the flag raised ends the run, and nothing follows it. -/
theorem after_of_stopFlag (host : Schedule) (hexit : r.exit = none) (hstop : r.block.stopFlag ≠ 0)
    {turns : Nat} (hturns : 1 ≤ turns) :
    r.after host turns = { r with log := r.log.push .halted, exit := some .stopped } := by
  obtain ⟨turns, rfl⟩ : ∃ n, turns = n + 1 := ⟨turns - 1, by omega⟩
  rw [after_succ_start, turn_of_ongoing host hexit,
    advance_of_stopRequested host (Block.stopRequested_iff.mpr hstop)]
  exact after_of_exit host turns rfl

/-- The run keeps to the delays that a host gives it which stops it from the `last`-th on. -/
structure WithinDelays (last : Nat) (r : Run σ) : Prop where
  delays_le : r.delays ≤ max 1 last
  raised : r.delays = max 1 last → r.block.stopRequested ∧ r.exit ≠ some .wakeSignalled
  stopped : r.exit = some .stopped → r.block.stopRequested

omit [Converter σ] in
theorem WithinDelays.start (m : Monitor σ) (b : Block) (last : Nat) :
    (m.start b).WithinDelays last := by
  have hdelays : (m.start b).delays = 0 := rfl
  have hexit : (m.start b).exit = none := rfl
  refine ⟨by omega, fun hlast => by omega, fun hstopped => ?_⟩
  rw [hexit] at hstopped
  exact absurd hstopped (by decide)

omit [Converter σ] in
/-- With the flag down there are delays left. -/
theorem WithinDelays.delays_lt {last : Nat} (h : r.WithinDelays last)
    (hstop : r.block.stopRequested = false) : r.delays < max 1 last := by
  refine Nat.lt_of_le_of_ne h.delays_le fun hlast => ?_
  rw [(h.raised hlast).1] at hstop
  exact absurd hstop (by decide)

theorem WithinDelays.turn {last : Nat} (h : r.WithinDelays last) (host : Schedule) :
    (r.turn (host.stoppingFrom last)).WithinDelays last := by
  rcases turn_cases (host.stoppingFrom last) r with ⟨-, hturn⟩ | ⟨-, hstop, hturn⟩ |
    ⟨-, hstop, _, _, -, hturn⟩ | ⟨hexit, hstop, -, hturn⟩
  · rw [hturn]
    exact h
  · rw [hturn]
    exact ⟨h.delays_le, fun _ => ⟨hstop, by simp⟩, fun _ => hstop⟩
  · have hlt := h.delays_lt hstop
    rw [hturn]
    refine ⟨h.delays_le, fun hlast => ?_, fun hstopped => absurd hstopped (by simp)⟩
    exact absurd hlast (Nat.ne_of_lt hlt)
  · have hlt := h.delays_lt hstop
    rw [hturn]
    refine ⟨hlt, fun hlast => ⟨?_, ?_⟩, fun hstopped => ?_⟩
    · have hmax : r.delays + 1 = max 1 last := hlast
      exact host.stopRequested_apply_stoppingFrom (by omega) _
    · simp [hexit]
    · exact absurd hstopped (by simp [hexit])

theorem withinDelays_after (m : Monitor σ) (b : Block) (host : Schedule) (last turns : Nat) :
    ((m.start b).after (host.stoppingFrom last) turns).WithinDelays last := by
  induction turns with
  | zero => exact WithinDelays.start m b last
  | succ turns ih =>
    rw [after_succ]
    exact ih.turn host

end Run

/-! ## Runs that a host stops -/

section Reports

variable {σ : Type} [Converter σ] {m : Monitor σ} {b : Block} {host : Schedule} {last : Nat}
  {report : Report σ}

theorem Monitor.Ends.delays_le (hends : m.Ends b (host.stoppingFrom last) report) :
    report.delays ≤ max 1 last := by
  obtain ⟨turns, hended, rfl⟩ := hends
  exact (Run.withinDelays_after m b host last turns).delays_le

/-- A run that wakes the host makes one conversion more than delays, but it has a delay left. -/
theorem Monitor.Ends.delays_lt (hends : m.Ends b (host.stoppingFrom last) report)
    (hexit : report.exit = .wakeSignalled) : report.delays < max 1 last := by
  refine Nat.lt_of_le_of_ne hends.delays_le fun hlast => ?_
  obtain ⟨turns, hended, rfl⟩ := hends
  have hwithin := Run.withinDelays_after m b host last turns
  exact (hwithin.raised hlast).2 (Run.exit_of_report hexit)

theorem Monitor.Ends.reads_le (hends : m.Ends b (host.stoppingFrom last) report)
    {reads : σ → Nat} (hreads : Converter.Meters reads) :
    reads report.monitor.converter ≤ reads m.converter + max 1 last := by
  obtain ⟨made, h⟩ := hends.exists_tallied
  have hmade : made ≤ max 1 last := by
    cases hexit : report.exit with
    | wakeSignalled =>
      have hlt := hends.delays_lt hexit
      have hmade := (h.woken hexit).1
      omega
    | stopped =>
      have hle := hends.delays_le
      have hmade := (h.stopped hexit).1
      omega
  rw [h.converter, hreads.reads_skip]
  omega

/-- A run is not stopped earlier than the host means it to be if nothing else raises the flag. -/
theorem Monitor.Ends.delays_eq (hends : m.Ends b (host.stoppingFrom last) report)
    (hstopped : report.exit = .stopped)
    (hdown : ∀ delays < max 1 last, (host.inForce b delays).stopFlag = 0) :
    report.delays = max 1 last := by
  obtain ⟨turns, hended, rfl⟩ := hends
  have hwithin := Run.withinDelays_after m b host last turns
  obtain ⟨made, h⟩ := m.exists_tallied b (host.stoppingFrom last) turns
  generalize (m.start b).after (host.stoppingFrom last) turns = r at hended hstopped hwithin h
  show r.delays = max 1 last
  by_contra hne
  have hlt : r.delays < max 1 last := Nat.lt_of_le_of_ne hwithin.delays_le hne
  have hflag := hwithin.stopped (Run.exit_of_report hstopped)
  rw [h.limits.stopRequested_eq, host.inForce_stoppingFrom b hlt, Block.stopRequested_iff] at hflag
  exact hflag (hdown r.delays hlt)

end Reports

/-- When the host raises the stop flag at the end of every delay from the `last`-th on, whatever it
writes besides, a run ends.  It makes at most that many delays and conversions, one if `last` is
zero, and exactly that many delays if it is stopped and nothing else raises the flag.  In no run
does anything follow a check that finds the flag raised, and a run that begins with such a check
leaves everything as it is. -/
theorem stop_is_obeyed {σ : Type} [Converter σ] (m : Monitor σ) (b : Block) (host : Schedule)
    (last : Nat) :
    (m.Ends b (host.stoppingFrom last) (m.run b host last) ∧
        (m.run b host last).delays ≤ max 1 last ∧
        (∀ reads : σ → Nat, Converter.Meters reads →
          reads (m.run b host last).monitor.converter ≤ reads m.converter + max 1 last) ∧
        ((m.run b host last).exit = .stopped →
          (∀ delays < max 1 last, (host.inForce b delays).stopFlag = 0) →
            (m.run b host last).delays = max 1 last)) ∧
      (∀ turns more, turns < more →
        let r := (m.start b).after host turns
        r.exit = none → r.block.stopFlag ≠ 0 →
          (m.start b).after host more =
            { r with log := r.log.push .halted, exit := some .stopped }) ∧
      (b.stopFlag ≠ 0 →
        m.Ends b host
          { exit := .stopped, monitor := m, block := b, delays := 0, log := [.halted] }) := by
  have hends := m.run_ends b host last
  refine ⟨⟨hends, hends.delays_le, fun reads => hends.reads_le, hends.delays_eq⟩, ?_, ?_⟩
  · intro turns more hlt r hexit hstop
    obtain ⟨rest, rfl⟩ : ∃ rest, more = turns + rest := ⟨more - turns, by omega⟩
    rw [Run.after_add]
    exact Run.after_of_stopFlag host hexit hstop (by omega)
  · intro hstop
    exact Monitor.Ends.of_after (Run.after_of_stopFlag host rfl hstop (Nat.le_refl 1)) rfl

/-- A converter that never reads, and a host that clears the stop flag in every delay, right before
it raises it from the second delay on. -/
theorem stop_is_obeyed_after_clearing :
    let m : Monitor ScriptedConverter := { converter := { remaining := [] }, intervalMs := 200 }
    let b := Block.withLimits 1000 1
    let host : Schedule := fun _ => [⟨.stopFlag, 0⟩]
    (m.run b host 2).exit = .stopped ∧ (m.run b host 2).delays = 2 ∧
      (m.run b host 2).monitor.converter.reads ≤ 2 := by
  intro m b host
  obtain ⟨⟨-, -, hreads, hdelays⟩, -⟩ := stop_is_obeyed m b host 2
  have hstopped : (m.run b host 2).exit = .stopped := by decide
  have hdown : ∀ delays < max 1 2, (host.inForce b delays).stopFlag = 0 :=
    fun delays _ => Schedule.stopFlag_inForce rfl (by simp [host]) delays
  exact ⟨hstopped, hdelays hstopped hdown, hreads _ ScriptedConverter.meters_reads⟩

end GasWatch
