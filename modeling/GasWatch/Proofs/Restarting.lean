import GasWatch.Converter.Scripted
import GasWatch.Proofs.Agreement
import GasWatch.Proofs.Turns

/-!
# Stopping a run and starting it again

A run does not look at how many delays it has made or what it has logged, other than to ask the host
for the writes of its next delay.  So the rest of a run is a run of its own, on the block and with
the monitor at hand and with the host counting its delays anew (`after_continuing`).

That is used to cut a run in two.  A host that stops it at a delay does the same before that delay
as one that stops it later, and at the delay it only adds the stop flag (`after_stopping_cases`).
Once the flag is taken back, the second part is the rest of the whole run
(`stopped_run_continues`).
-/

namespace GasWatch

namespace Schedule

/-- What the host does from some delay on, the first delay after that being its first again. -/
def later (host : Schedule) (delays : Nat) : Schedule := fun delay => host (delays + delay)

/-- The host writes nothing but the two limits. -/
def Retunes (host : Schedule) : Prop :=
  ∀ delay, ∀ write ∈ host delay, write.word = .threshold ∨ write.word = .confirmCount

theorem stoppingFrom_of_lt (host : Schedule) {delay last : Nat} (hlt : delay < last) :
    host.stoppingFrom last delay = host delay := by
  have hnot : ¬ last ≤ delay := by omega
  simp [stoppingFrom, hnot]

theorem apply_stoppingFrom_self (host : Schedule) (last : Nat) (b : Block) :
    b.apply (host.stoppingFrom last last) = (b.apply (host last)).setStop true := by
  simp [stoppingFrom]
  rfl

theorem later_stoppingFrom (host : Schedule) (delays last : Nat) :
    (host.stoppingFrom (delays + last)).later delays = (host.later delays).stoppingFrom last := by
  funext delay
  simp only [later, stoppingFrom, Nat.add_le_add_iff_left]

theorem Retunes.stopFlag_apply {host : Schedule} (h : host.Retunes) (b : Block) (delay : Nat) :
    (b.apply (host delay)).stopFlag = b.stopFlag := by
  have hother : ∀ write ∈ host delay, write.word ≠ .stopFlag := by
    intro write hmem heq
    rcases h delay write hmem with hword | hword <;> rw [heq] at hword <;> cases hword
  exact Block.load_apply_of_forall_ne hother b

end Schedule

namespace Block

theorem setStop_setStop_of_stopFlag {b : Block} (hflag : b.stopFlag = 0) :
    (b.setStop true).setStop false = b := by
  show { b with stopFlag := 0 } = b
  rw [← hflag]

end Block

/-! ## The rest of a run -/

namespace Run

variable {σ : Type}

/-- The run as the rest of one that has made these delays and these records before. -/
def continuing (q : Run σ) (delays : Nat) (log : Array Record) : Run σ :=
  { q with delays := delays + q.delays, log := log ++ q.log }

variable [Converter σ]

theorem turn_continuing (host : Schedule) (q : Run σ) (delays : Nat) (log : Array Record) :
    (q.continuing delays log).turn host =
      (q.turn (host.later delays)).continuing delays log := by
  generalize hwhole : q.continuing delays log = whole
  have hexit : whole.exit = q.exit := by rw [← hwhole]; rfl
  have hblock : whole.block = q.block := by rw [← hwhole]; rfl
  have hobservation : whole.observation = q.observation := by rw [← hwhole]; rfl
  rcases turn_cases (host.later delays) q with ⟨hended, h⟩ | ⟨hnone, hstop, h⟩ |
    ⟨hnone, hstop, reading, count, hverdict, h⟩ | ⟨hnone, hstop, hverdict, h⟩
  · rw [h, turn_of_exit host (hexit ▸ hended), hwhole]
  · rw [h, turn_of_ongoing host (hexit.trans hnone), advance_of_stopRequested host (hblock ▸ hstop),
      ← hwhole]
    simp only [continuing, Array.append_push]
  · rw [← hblock] at hstop
    rw [← hobservation] at hverdict
    rw [h, turn_of_ongoing host (hexit.trans hnone), advance_of_confirmed host hstop hverdict,
      hobservation, ← hwhole]
    simp only [continuing, Array.append_push]
    rfl
  · rw [← hblock] at hstop
    rw [← hobservation] at hverdict
    rw [h, turn_of_ongoing host (hexit.trans hnone), advance_of_unconfirmed host hstop hverdict,
      hobservation, ← hwhole]
    simp only [continuing, Array.append_push, Schedule.later, Nat.add_assoc]
    rfl

theorem after_continuing (host : Schedule) (q : Run σ) (delays : Nat) (log : Array Record)
    (turns : Nat) :
    (q.continuing delays log).after host turns =
      (q.after (host.later delays) turns).continuing delays log := by
  induction turns with
  | zero => rfl
  | succ turns ih => rw [after_succ, ih, turn_continuing, ← after_succ]

/-! ## A stop that comes earlier -/

section Stop

variable {m : Monitor σ} {b : Block} {host : Schedule}

/-- Until the host stops it, a run wakes the host or goes on with the flag down. -/
theorem after_stopping_ongoing (hflag : b.stopFlag = 0) (hhost : host.Retunes) {turns last : Nat}
    (hlt : turns < last) :
    let r := (m.start b).after (host.stoppingFrom last) turns
    r.exit = some .wakeSignalled ∨ r.exit = none ∧ r.delays = turns ∧ r.block.stopFlag = 0 := by
  intro r
  induction turns with
  | zero => exact Or.inr ⟨rfl, rfl, hflag⟩
  | succ turns ih =>
    have hprefix := ih (by omega)
    generalize hq : (m.start b).after (host.stoppingFrom last) turns = q at hprefix
    have hr : r = q.turn (host.stoppingFrom last) := by rw [← hq, ← after_succ]
    rcases hprefix with hwoken | ⟨hexit, hdelays, hdown⟩
    · rw [turn_of_exit _ (by rw [hwoken]; rfl)] at hr
      exact Or.inl (by rw [hr, hwoken])
    · have hstop := Block.stopRequested_of_stopFlag hdown
      rcases turn_cases (host.stoppingFrom last) q with ⟨hsome, -⟩ | ⟨-, hraised, -⟩ |
        ⟨-, -, _, _, -, hturn⟩ | ⟨-, -, -, hturn⟩
      · simp [hexit] at hsome
      · simp [hstop] at hraised
      · exact Or.inl (by rw [hr, hturn])
      · refine Or.inr ?_
        rw [hr, hturn]
        refine ⟨hexit, by rw [hdelays], ?_⟩
        show (q.observation.block.apply (host.stoppingFrom last (q.delays + 1))).stopFlag = 0
        rw [hdelays, host.stoppingFrom_of_lt hlt, hhost.stopFlag_apply, ← hdown]
        exact Block.stopFlag_observe q.block _

/-- In one turn two hosts differ only by the stop flag that one of them raises in the delay. -/
theorem turn_stopping (host : Schedule) {p : Run σ} {last : Nat} (hexit : p.exit = none)
    (hlt : p.delays + 1 < last) :
    let r := p.turn (host.stoppingFrom last)
    let q := p.turn (host.stoppingFrom (p.delays + 1))
    r.exit.isSome ∧ q = r ∨ r.exit = none ∧ q = { r with block := r.block.setStop true } := by
  intro r q
  have hr : r = p.advance (host.stoppingFrom last) := turn_of_ongoing _ hexit
  have hq : q = p.advance (host.stoppingFrom (p.delays + 1)) := turn_of_ongoing _ hexit
  cases hstop : p.block.stopRequested with
  | true =>
    rw [advance_of_stopRequested _ hstop] at hr hq
    exact Or.inl ⟨by rw [hr]; rfl, hq.trans hr.symm⟩
  | false =>
    cases hconfirmed : p.observation.verdict.isConfirmed with
    | true =>
      obtain ⟨reading, count, hverdict⟩ := Verdict.exists_of_isConfirmed hconfirmed
      rw [advance_of_confirmed _ hstop hverdict] at hr hq
      exact Or.inl ⟨by rw [hr]; rfl, hq.trans hr.symm⟩
    | false =>
      rw [advance_of_unconfirmed _ hstop hconfirmed] at hr hq
      rw [host.stoppingFrom_of_lt hlt] at hr
      rw [host.apply_stoppingFrom_self] at hq
      exact Or.inr ⟨by rw [hr, hexit], by rw [hq, hr]⟩

/-- A host that stops the run at a delay and one that stops it later: the run has woken the host
before and does not tell them apart, or it goes on with the one where it halts with the other. -/
theorem after_stopping_cases (hflag : b.stopFlag = 0) (hhost : host.Retunes) {delay last : Nat}
    (hpos : 1 ≤ delay) (hlt : delay < last) :
    let r := (m.start b).after (host.stoppingFrom last) delay
    let q := (m.start b).after (host.stoppingFrom delay) (delay + 1)
    r.exit = some .wakeSignalled ∧ q = r ∨
      r.exit = none ∧ r.delays = delay ∧ r.block.stopFlag = 0 ∧
        q = { r with
          block := r.block.setStop true
          log := r.log.push .halted
          exit := some .stopped } := by
  intro r q
  obtain ⟨before, rfl⟩ : ∃ before, delay = before + 1 := ⟨delay - 1, by omega⟩
  have hzero : (m.start b).delays = 0 := rfl
  -- Before the delay in question both hosts write the same.
  have hsame : (m.start b).after (host.stoppingFrom (before + 1)) before =
      (m.start b).after (host.stoppingFrom last) before := by
    refine after_congr fun other _ hle => ?_
    rw [host.stoppingFrom_of_lt (show other < before + 1 by omega),
      host.stoppingFrom_of_lt (show other < last by omega)]
  have hprefix := after_stopping_ongoing (m := m) hflag hhost (show before < last by omega)
  generalize hp : (m.start b).after (host.stoppingFrom last) before = p at hsame hprefix
  have hr : r = p.turn (host.stoppingFrom last) := by rw [← hp, ← after_succ]
  have hq : q = (p.turn (host.stoppingFrom (before + 1))).turn
      (host.stoppingFrom (before + 1)) := by rw [← hsame, ← after_succ, ← after_succ]
  rcases hprefix with hwoken | ⟨hexit, hdelays, -⟩
  · have hsome : p.exit.isSome := by rw [hwoken]; rfl
    rw [turn_of_exit _ hsome] at hr
    rw [turn_of_exit _ hsome, turn_of_exit _ hsome] at hq
    exact Or.inl ⟨by rw [hr, hwoken], hq.trans hr.symm⟩
  · subst hdelays
    have hturn := turn_stopping host hexit hlt
    rw [← hr] at hturn
    rcases after_stopping_ongoing (m := m) hflag hhost hlt with hwoken | ⟨hnone, hcount, hdown⟩
    · rcases hturn with ⟨hsome, hcut⟩ | ⟨hnone, -⟩
      · rw [hcut, turn_of_exit _ hsome] at hq
        exact Or.inl ⟨hwoken, hq⟩
      · exact absurd (hwoken.symm.trans hnone) (by simp)
    · rcases hturn with ⟨hsome, -⟩ | ⟨-, hcut⟩
      · rw [show r.exit = none from hnone] at hsome
        exact absurd hsome Bool.false_ne_true
      · refine Or.inr ⟨hnone, hcount, hdown, ?_⟩
        rw [hcut, turn_of_ongoing _ (by exact hnone),
          advance_of_stopRequested _ (Block.stopRequested_setStop _ true)] at hq
        exact hq

end Stop

end Run

/-! ## Two runs for one -/

/-- A run that is stopped at a delay and started again with the flag taken back comes to the same
as one that is not stopped there, if the host does nothing else than set limits: the same exit,
words, conversions, wakes and time, with the delays and the records of the two in turn.  If it wakes
the host before it is stopped, it is that run. -/
theorem stopped_run_continues {σ : Type} [Converter σ] (m : Monitor σ) (b : Block)
    (hflag : b.stopFlag = 0) (host : Schedule) (hhost : host.Retunes) (n k : Nat) (hn : 1 ≤ n)
    (hk : 1 ≤ k) :
    let first := m.run b host n
    let second := first.monitor.run (first.block.setStop false) (host.later n) k
    let whole := m.run b host (n + k)
    (first.exit = .wakeSignalled → whole = first) ∧
      (first.exit = .stopped →
        second.exit = whole.exit ∧ second.block = whole.block ∧ second.monitor = whole.monitor ∧
          first.delays + second.delays = whole.delays ∧
          ∃ records, first.log = records ++ [.halted] ∧ whole.log = records ++ second.log) := by
  intro first second whole
  rcases Run.after_stopping_cases (m := m) hflag hhost hn (show n < n + k by omega) with
    ⟨hwoken, hfirst⟩ | ⟨hexit, hdelays, hdown, hfirst⟩
  · have hsome : ((m.start b).after (host.stoppingFrom (n + k)) n).exit.isSome := by
      rw [hwoken]
      rfl
    have hfirst' : first = _ := Monitor.run_eq_report hfirst hsome
    have hwhole : whole = _ := Monitor.run_eq_report rfl hsome
    refine ⟨fun _ => hwhole.trans hfirst'.symm, fun hstopped => ?_⟩
    rw [hfirst'] at hstopped
    simp [Run.report, hwoken] at hstopped
  · generalize hr : (m.start b).after (host.stoppingFrom (n + k)) n = r
      at hexit hdelays hdown hfirst
    have hfirst' : first = _ := Monitor.run_eq_report hfirst rfl
    have hblock : first.block.setStop false = r.block := by
      rw [hfirst']
      exact Block.setStop_setStop_of_stopFlag hdown
    have hsecond : second = r.monitor.run r.block (host.later n) k := by
      show first.monitor.run (first.block.setStop false) (host.later n) k = _
      rw [hblock, hfirst']
      rfl
    -- What is left of the whole run after `n` turns is the second run.
    have hrest : r = (r.monitor.start r.block).continuing n r.log := by
      simp [Run.continuing, Monitor.start, ← hdelays, ← hexit]
    generalize hq : (r.monitor.start r.block).after ((host.later n).stoppingFrom k) (k + 1) = q
    have hended : q.exit.isSome := by
      rw [← hq]
      refine Run.exit_isSome_of_stopping _ k ?_
      show max 1 (k - 0) + 1 ≤ k + 1
      omega
    have hwhole : whole = (q.continuing n r.log).report hended := by
      have hafter : (m.start b).after (host.stoppingFrom (n + k)) (n + (k + 1)) =
          q.continuing n r.log := by
        rw [Run.after_add, hr, hrest, Run.after_continuing, host.later_stoppingFrom, hq]
        rfl
      exact Monitor.run_eq_report hafter hended
    rw [Monitor.run_eq_report hq hended] at hsecond
    rw [hsecond, hwhole, hfirst']
    refine ⟨fun hwoken => ?_, fun _ => ⟨rfl, rfl, rfl, ?_, r.log.toList, ?_, ?_⟩⟩
    · cases hwoken
    · show r.delays + q.delays = n + q.delays
      rw [hdelays]
    · exact Array.toList_push
    · exact Array.toList_append

/-- A run is stopped in the middle of a row and started again.  Then the host asks for a shorter
row, and the readings from before the stop count towards it. -/
theorem stopped_row_continues :
    let m : Monitor ScriptedConverter :=
      { converter := { remaining := [some 1200, some 1300, none, some 1400] }, intervalMs := 200 }
    let b := Block.withLimits 1000 5
    let host : Schedule := .ofEntries [(3, [⟨.confirmCount, 3⟩])]
    let first := m.run b host 2
    let second := first.monitor.run (first.block.setStop false) (host.later 2) 4
    let whole := m.run b host 6
    (b.stopFlag = 0 ∧ host.Retunes ∧ first.exit = .stopped ∧ second.exit = .wakeSignalled) ∧
      second.exit = whole.exit ∧ second.block = whole.block ∧ second.monitor = whole.monitor ∧
        first.delays + second.delays = whole.delays := by
  intro m b host first second whole
  have hhost : host.Retunes := Schedule.forall_mem_ofEntries (by decide)
  have hfirst : first.exit = .stopped := by decide
  have hsecond : second.exit = .wakeSignalled := by decide
  obtain ⟨hexit, hblock, hmonitor, hdelays, -⟩ :=
    (stopped_run_continues m b rfl host hhost 2 4 (by omega) (by omega)).2 hfirst
  exact ⟨⟨rfl, hhost, hfirst, hsecond⟩, hexit, hblock, hmonitor, hdelays⟩

end GasWatch
