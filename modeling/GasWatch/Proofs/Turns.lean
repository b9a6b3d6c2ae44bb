import GasWatch.Monitor.Run

/-!
# Turns of the loop

`Run.after` recurses from the first turn on.  Invariants of a run are about its last turn, so this
module gives the other reading, `after_succ`: the run after one turn more is one `turn` of the run
so far.  `after_eq_of_le` says that turns after the end change nothing.

A turn does one of three things, and `advance_of_stopRequested`, `advance_of_confirmed` and
`advance_of_unconfirmed` say each of them in full.  Which of the last two it is depends on the
verdict alone, and `isConfirmed_observe_iff` reads that off the block and the conversion.
`turn_cases` lists them all, for runs that may have ended too.  What samples and host writes keep of
a block is an invariant of runs (`block_after_of_kept`), and a run asks the host for no delays but
those that it makes (`after_congr_of_delays`).  How a run has ended can be told from its last turn
(`exists_last_turn`, `exists_waking_turn`).

`Monitor.Ends` says that a run comes to an end and what its report is.  It is the report of
`Monitor.run` when the host raises the stop flag at last (`Monitor.run_ends`), but it is there for
hosts that never do, too.
-/

namespace GasWatch

/-! ## Sequences of conversions -/

namespace Converter

variable {σ : Type} [Converter σ]

/-- The converter after a number of conversions. -/
def skip (s : σ) : Nat → σ
  | 0 => s
  | count + 1 => (convert (skip s count)).2

theorem skip_skip (s : σ) (first more : Nat) :
    skip (skip s first) more = skip s (first + more) := by
  induction more with
  | zero => rfl
  | succ more ih =>
    rw [skip, ih]
    rfl

/-- What the conversion yields that follows `index` others. -/
def outcome (s : σ) (index : Nat) : Conversion := (convert (skip s index)).1

end Converter

/-! ## What a sample decides -/

/-- Whether the sample completes the row. -/
def Verdict.isConfirmed : Verdict → Bool
  | confirmed .. => true
  | readFailed | below _ | above .. => false

theorem Verdict.exists_of_isConfirmed {verdict : Verdict} (h : verdict.isConfirmed) :
    ∃ reading count, verdict = .confirmed reading count := by
  cases verdict with
  | confirmed reading count => exact ⟨reading, count, rfl⟩
  | readFailed | below | above => exact absurd h Bool.false_ne_true

/-- The verdict on a reading that reaches the threshold. -/
theorem Block.verdict_observe_of_reached {b : Block} {reading : UInt32}
    (hreached : b.threshold ≤ reading) :
    (b.observe (.reading reading)).verdict =
      if b.confirmCount ≤ (b.record reading).aboveCount
      then .confirmed reading (b.record reading).aboveCount
      else .above reading (b.record reading).aboveCount := by
  simp only [observe, if_neg (UInt32.not_lt.mpr hreached)]

/-- A sample completes the row when its reading reaches the threshold and the count after it
reaches the confirm count. -/
theorem Block.isConfirmed_observe_iff {b : Block} {conversion : Conversion} :
    (b.observe conversion).verdict.isConfirmed ↔
      ∃ reading, conversion = .reading reading ∧ b.threshold ≤ reading ∧
        b.confirmCount ≤ (b.record reading).aboveCount := by
  cases conversion with
  | failed fault => simp [observe, Verdict.isConfirmed]
  | reading reading =>
    by_cases hreached : b.threshold ≤ reading
    · rw [verdict_observe_of_reached hreached]
      split
      · next hcount => simp [Verdict.isConfirmed, hreached, hcount]
      · next hcount => simp [Verdict.isConfirmed, hcount]
    · simp [observe, UInt32.not_le.mp hreached, Verdict.isConfirmed, hreached]

namespace Run

variable {σ : Type} [Converter σ]

/-! ## One turn -/

/-- What the next sample of a run shows. -/
def observation (r : Run σ) : Observation := (r.monitor.sample r.block).2

/-- The monitor after that sample. -/
def sampledMonitor (r : Run σ) : Monitor σ := (r.monitor.sample r.block).1

section Sample

variable {r : Run σ} {s : σ} {count : Nat}

/-- The sample takes the conversion that follows those made. -/
theorem observation_of_converter (hconverter : r.monitor.converter = Converter.skip s count) :
    r.observation = r.block.observe (Converter.outcome s count) := by
  unfold observation Monitor.sample Converter.outcome
  rw [hconverter]

theorem converter_sampledMonitor (hconverter : r.monitor.converter = Converter.skip s count) :
    r.sampledMonitor.converter = Converter.skip s (count + 1) := by
  show (Converter.convert r.monitor.converter).2 = Converter.skip s (count + 1)
  rw [hconverter]
  rfl

end Sample

/-- A raised stop flag ends the run without a sample. -/
theorem advance_of_stopRequested (host : Schedule) {r : Run σ} (hstop : r.block.stopRequested) :
    r.advance host = { r with log := r.log.push .halted, exit := some .stopped } := by
  rw [advance, if_pos hstop]

/-- A sample that completes the row wakes the host and ends the run without a delay. -/
theorem advance_of_confirmed (host : Schedule) {r : Run σ}
    (hstop : r.block.stopRequested = false) {reading count : UInt32}
    (hverdict : r.observation.verdict = .confirmed reading count) :
    r.advance host =
      { r with
        monitor := r.sampledMonitor.wakeHost
        block := r.observation.block
        log := (r.log.push r.observation.record).push
          (.confirmed reading r.observation.block.threshold count)
        exit := some .wakeSignalled } := by
  unfold observation at hverdict
  simp only [advance, hstop, hverdict]
  rfl

/-- Any other sample is followed by a delay, in which the host writes. -/
theorem advance_of_unconfirmed (host : Schedule) {r : Run σ}
    (hstop : r.block.stopRequested = false)
    (hverdict : r.observation.verdict.isConfirmed = false) :
    r.advance host =
      { r with
        monitor := r.sampledMonitor.pause r.monitor.intervalMs
        block := r.observation.block.apply (host (r.delays + 1))
        delays := r.delays + 1
        log := r.log.push r.observation.record } := by
  have hsample : (r.monitor.sample r.block).2 = r.observation := rfl
  simp only [advance, hstop, hsample]
  cases hcase : r.observation.verdict with
  | confirmed reading count => simp [hcase, Verdict.isConfirmed] at hverdict
  | readFailed | below | above => rfl

/-! ## Many turns -/

/-- One turn of the loop, or none when the run has ended. -/
def turn (host : Schedule) (r : Run σ) : Run σ :=
  if r.exit.isSome then r else r.advance host

theorem turn_of_exit (host : Schedule) {r : Run σ} (hexit : r.exit.isSome) :
    r.turn host = r := by
  rw [turn, if_pos hexit]

theorem turn_of_ongoing (host : Schedule) {r : Run σ} (hexit : r.exit = none) :
    r.turn host = r.advance host := by
  rw [turn, hexit]
  rfl

/-- Everything that a turn can do: nothing after the end, halt, wake the host, or pause. -/
theorem turn_cases (host : Schedule) (r : Run σ) :
    (r.exit.isSome ∧ r.turn host = r) ∨
      (r.exit = none ∧ r.block.stopRequested ∧
        r.turn host = { r with log := r.log.push .halted, exit := some .stopped }) ∨
      (r.exit = none ∧ r.block.stopRequested = false ∧ ∃ reading count,
        r.observation.verdict = .confirmed reading count ∧
          r.turn host =
            { r with
              monitor := r.sampledMonitor.wakeHost
              block := r.observation.block
              log := (r.log.push r.observation.record).push
                (.confirmed reading r.observation.block.threshold count)
              exit := some .wakeSignalled }) ∨
      r.exit = none ∧ r.block.stopRequested = false ∧
        r.observation.verdict.isConfirmed = false ∧
          r.turn host =
            { r with
              monitor := r.sampledMonitor.pause r.monitor.intervalMs
              block := r.observation.block.apply (host (r.delays + 1))
              delays := r.delays + 1
              log := r.log.push r.observation.record } := by
  cases hexit : r.exit with
  | some exit =>
    have hsome : r.exit.isSome := by rw [hexit]; rfl
    exact Or.inl ⟨rfl, turn_of_exit host hsome⟩
  | none =>
    rw [turn_of_ongoing host hexit]
    cases hstop : r.block.stopRequested with
    | true => exact Or.inr (Or.inl ⟨rfl, rfl, by rw [advance_of_stopRequested host hstop]⟩)
    | false =>
      cases hconfirmed : r.observation.verdict.isConfirmed with
      | true =>
        obtain ⟨reading, count, hverdict⟩ := Verdict.exists_of_isConfirmed hconfirmed
        refine Or.inr (Or.inr (Or.inl ⟨rfl, rfl, reading, count, hverdict, ?_⟩))
        rw [advance_of_confirmed host hstop hverdict]
      | false =>
        refine Or.inr (Or.inr (Or.inr ⟨rfl, rfl, rfl, ?_⟩))
        rw [advance_of_unconfirmed host hstop hconfirmed, hexit]

/-- A run that goes on after a turn has paused in it. -/
theorem ongoing_of_turn {host : Schedule} {r : Run σ} (hexit : (r.turn host).exit = none) :
    r.exit = none ∧ r.block.stopRequested = false ∧ r.observation.verdict.isConfirmed = false := by
  rcases turn_cases host r with ⟨hsome, hturn⟩ | ⟨-, -, hturn⟩ | ⟨-, -, _, _, -, hturn⟩ |
    ⟨hbefore, hstop, hverdict, -⟩
  · rw [hturn] at hexit
    rw [hexit] at hsome
    exact absurd hsome Bool.false_ne_true
  · rw [hturn] at hexit
    exact absurd hexit (Option.some_ne_none _)
  · rw [hturn] at hexit
    exact absurd hexit (Option.some_ne_none _)
  · exact ⟨hbefore, hstop, hverdict⟩

/-- One turn more, at the end. -/
theorem after_succ (host : Schedule) (turns : Nat) (r : Run σ) :
    r.after host (turns + 1) = (r.after host turns).turn host := by
  induction turns generalizing r with
  | zero => rfl
  | succ turns ih =>
    by_cases hexit : r.exit.isSome
    · rw [after_of_exit host _ hexit, after_of_exit host _ hexit, turn_of_exit host hexit]
    · rw [after, if_neg hexit, ih, after, if_neg hexit]

/-- One turn more, at the start. -/
theorem after_succ_start (host : Schedule) (turns : Nat) (r : Run σ) :
    r.after host (turns + 1) = (r.turn host).after host turns := by
  by_cases hexit : r.exit.isSome
  · rw [turn_of_exit host hexit, after_of_exit host _ hexit, after_of_exit host _ hexit]
  · rw [after, if_neg hexit, turn, if_neg hexit]

theorem after_add (host : Schedule) (first more : Nat) (r : Run σ) :
    r.after host (first + more) = (r.after host first).after host more := by
  induction more with
  | zero => rfl
  | succ more ih => rw [← Nat.add_assoc, after_succ, ih, after_succ]

theorem delays_turn (host : Schedule) (r : Run σ) :
    (r.turn host).delays = r.delays ∨ (r.turn host).delays = r.delays + 1 := by
  rcases turn_cases host r with ⟨-, h⟩ | ⟨-, -, h⟩ | ⟨-, -, _, _, -, h⟩ | ⟨-, -, -, h⟩
  · exact Or.inl (by rw [h])
  · exact Or.inl (by rw [h])
  · exact Or.inl (by rw [h])
  · exact Or.inr (by rw [h])

/-- A turn asks the host for the writes of one delay only. -/
theorem turn_congr {host guest : Schedule} {r : Run σ}
    (hwrites : host (r.delays + 1) = guest (r.delays + 1)) : r.turn host = r.turn guest := by
  simp only [turn, advance, hwrites]

/-- A turn without a delay asks the host for nothing. -/
theorem turn_congr_of_delays {host guest : Schedule} {r : Run σ}
    (hwrites : (r.turn host).delays = r.delays + 1 → host (r.delays + 1) = guest (r.delays + 1)) :
    r.turn host = r.turn guest := by
  rcases turn_cases host r with ⟨hexit, -⟩ | ⟨hexit, hstop, -⟩ | ⟨hexit, hstop, _, _, hverdict, -⟩ |
    ⟨-, -, -, hturn⟩
  · rw [turn_of_exit host hexit, turn_of_exit guest hexit]
  · rw [turn_of_ongoing host hexit, turn_of_ongoing guest hexit,
      advance_of_stopRequested host hstop, advance_of_stopRequested guest hstop]
  · rw [turn_of_ongoing host hexit, turn_of_ongoing guest hexit,
      advance_of_confirmed host hstop hverdict, advance_of_confirmed guest hstop hverdict]
  · exact turn_congr (hwrites (by rw [hturn]))

/-- There is at most one delay in each turn. -/
theorem delays_after_bounds (host : Schedule) (turns : Nat) (r : Run σ) :
    r.delays ≤ (r.after host turns).delays ∧ (r.after host turns).delays ≤ r.delays + turns := by
  induction turns with
  | zero => exact ⟨Nat.le_refl _, Nat.le_refl _⟩
  | succ turns ih =>
    have hturn := delays_turn host (r.after host turns)
    rw [after_succ]
    omega

/-- A run asks the host for no other delays than those that it makes. -/
theorem after_congr_of_delays {host guest : Schedule} {turns : Nat} {r : Run σ}
    (hwrites : ∀ delay, r.delays < delay → delay ≤ (r.after host turns).delays →
      host delay = guest delay) : r.after host turns = r.after guest turns := by
  induction turns generalizing r with
  | zero => rfl
  | succ turns ih =>
    rw [after_succ_start] at hwrites
    obtain ⟨hlater, -⟩ := delays_after_bounds host turns (r.turn host)
    have hturn : r.turn host = r.turn guest := turn_congr_of_delays fun hdelay =>
      hwrites _ (by omega) (by omega)
    have hdelays := delays_turn host r
    rw [after_succ_start, after_succ_start, ← hturn]
    exact ih fun delay hlt hle => hwrites delay (by omega) hle

/-- So many turns ask the host for no more delays than that. -/
theorem after_congr {host guest : Schedule} {turns : Nat} {r : Run σ}
    (hwrites : ∀ delay, r.delays < delay → delay ≤ r.delays + turns → host delay = guest delay) :
    r.after host turns = r.after guest turns := by
  obtain ⟨-, hdelays⟩ := delays_after_bounds host turns r
  exact after_congr_of_delays fun delay hlt hle => hwrites delay hlt (by omega)

/-- Turns after the end change nothing. -/
theorem after_eq_of_le (host : Schedule) {turns more : Nat} {r : Run σ}
    (hexit : (r.after host turns).exit.isSome) (hle : turns ≤ more) :
    r.after host more = r.after host turns := by
  induction more with
  | zero =>
    have hzero : turns = 0 := Nat.le_zero.mp hle
    rw [hzero]
  | succ more ih =>
    rcases Nat.lt_or_ge more turns with hlt | hge
    · have hturns : turns = more + 1 := by omega
      rw [hturns]
    · rw [after_succ, ih hge, turn_of_exit host hexit]

/-- A run that has ended did so in some turn. -/
theorem exists_last_turn {host : Schedule} {turns : Nat} {r : Run σ} (hstart : r.exit = none)
    (hended : (r.after host turns).exit.isSome) :
    ∃ last, (r.after host last).exit = none ∧
      r.after host turns = (r.after host last).turn host := by
  induction turns with
  | zero =>
    rw [after, hstart] at hended
    exact absurd hended Bool.false_ne_true
  | succ turns ih =>
    cases hexit : (r.after host turns).exit with
    | none => exact ⟨turns, hexit, after_succ host turns r⟩
    | some exit =>
      have hbefore : (r.after host turns).exit.isSome := Option.isSome_of_eq_some hexit
      obtain ⟨last, hlast, hturn⟩ := ih hbefore
      exact ⟨last, hlast, (after_eq_of_le host hbefore (Nat.le_succ turns)).trans hturn⟩

/-- A run that has woken the host did so in a turn with a sample that completed the row. -/
theorem exists_waking_turn {host : Schedule} {turns : Nat} {r : Run σ} (hstart : r.exit = none)
    (hwake : (r.after host turns).exit = some .wakeSignalled) :
    ∃ last, (r.after host last).exit = none ∧
      (r.after host last).observation.verdict.isConfirmed ∧
      (r.after host turns).delays = (r.after host last).delays ∧
      (r.after host turns).block = (r.after host last).observation.block := by
  obtain ⟨last, hlast, hturn⟩ := exists_last_turn hstart (Option.isSome_of_eq_some hwake)
  rw [hturn] at hwake ⊢
  rcases turn_cases host (r.after host last) with ⟨hsome, -⟩ | ⟨-, -, heq⟩ |
    ⟨-, -, _, _, hverdict, heq⟩ | ⟨-, -, -, heq⟩
  · rw [hlast] at hsome
    exact absurd hsome Bool.false_ne_true
  · rw [heq] at hwake
    cases hwake
  · refine ⟨last, hlast, ?_, by rw [heq], by rw [heq]⟩
    rw [hverdict]
    rfl
  · rw [heq, hlast] at hwake
    cases hwake

/-- What samples and the writes of the host keep of a block, a run keeps. -/
theorem block_after_of_kept {host : Schedule} {P : Block → Prop}
    (hobserve : ∀ b conversion, P b → P (Block.observe b conversion).block)
    (hwrites : ∀ b delay, P b → P (b.apply (host delay))) {r : Run σ} (h : P r.block)
    (turns : Nat) : P (r.after host turns).block := by
  induction turns with
  | zero => exact h
  | succ turns ih =>
    rw [after_succ]
    rcases turn_cases host (r.after host turns) with ⟨-, heq⟩ | ⟨-, -, heq⟩ |
      ⟨-, -, _, _, -, heq⟩ | ⟨-, -, -, heq⟩
    · rw [heq]
      exact ih
    · rw [heq]
      exact ih
    · rw [heq]
      exact hobserve _ _ ih
    · rw [heq]
      exact hwrites _ _ (hobserve _ _ ih)

end Run

/-! ## Ends -/

/-- A run has ended as its report says. -/
theorem Run.exit_of_report {σ : Type} {r : Run σ} {hended : r.exit.isSome} {exit : Exit}
    (hexit : (r.report hended).exit = exit) : r.exit = some exit := by
  rw [← hexit, Run.report, Option.some_get]

theorem Run.exit_report {σ : Type} {r : Run σ} {exit : Exit} (hexit : r.exit = some exit)
    (hended : r.exit.isSome) : (r.report hended).exit = exit := by
  simp only [report, hexit, Option.get_some]

namespace Monitor

variable {σ : Type} [Converter σ]

/-- A run of the monitor on a block before its first turn. -/
def start (m : Monitor σ) (b : Block) : Run σ := { monitor := m, block := b }

/-- The run of the monitor on a block ends, and this is its report. -/
def Ends (m : Monitor σ) (b : Block) (host : Schedule) (report : Report σ) : Prop :=
  ∃ turns, ∃ hexit : ((m.start b).after host turns).exit.isSome,
    ((m.start b).after host turns).report hexit = report

/-- A run that ends has one report. -/
theorem Ends.unique {m : Monitor σ} {b : Block} {host : Schedule} {first second : Report σ}
    (hfirst : m.Ends b host first) (hsecond : m.Ends b host second) : first = second := by
  obtain ⟨turns, hturns, rfl⟩ := hfirst
  obtain ⟨more, hmore, rfl⟩ := hsecond
  rcases Nat.le_total turns more with hle | hle
  · simp only [Run.after_eq_of_le host hturns hle]
  · simp only [Run.after_eq_of_le host hmore hle]

/-- The end of a run is the same with any host that makes the same writes in the delays of the
run. -/
theorem Ends.congr {m : Monitor σ} {b : Block} {host guest : Schedule} {report : Report σ}
    (hends : m.Ends b host report)
    (hwrites : ∀ delay, 0 < delay → delay ≤ report.delays → host delay = guest delay) :
    m.Ends b guest report := by
  obtain ⟨turns, hended, rfl⟩ := hends
  have hafter : (m.start b).after host turns = (m.start b).after guest turns :=
    Run.after_congr_of_delays hwrites
  refine ⟨turns, hafter ▸ hended, ?_⟩
  simp only [hafter]

theorem Ends.of_after {m : Monitor σ} {b : Block} {host : Schedule} {r : Run σ} {turns : Nat}
    (hafter : (m.start b).after host turns = r) (hexit : r.exit.isSome) :
    m.Ends b host (r.report hexit) := by
  subst hafter
  exact ⟨turns, hexit, rfl⟩

/-- The report of a run that the host stops at last is the one that the run ends with. -/
theorem run_ends (m : Monitor σ) (b : Block) (host : Schedule) (last : Nat) :
    m.Ends b (host.stoppingFrom last) (m.run b host last) :=
  ⟨max 1 last + 1, Run.exit_isSome_of_stopping host last (Nat.le_refl _), rfl⟩

theorem run_eq_report {m : Monitor σ} {b : Block} {host : Schedule} {last : Nat} {r : Run σ}
    {turns : Nat} (hafter : (m.start b).after (host.stoppingFrom last) turns = r)
    (hexit : r.exit.isSome) : m.run b host last = r.report hexit :=
  (m.run_ends b host last).unique (Ends.of_after hafter hexit)

end Monitor

end GasWatch
