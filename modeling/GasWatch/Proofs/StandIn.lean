import GasWatch.Proofs.Cycles
import GasWatch.Proofs.UnitLife

/-!
# A script stands in for the unit

The monitor looks at nothing of a converter but the readings that it yields, and at nothing of a
fault but that there is no reading.  So a converter may be replaced by any other one that reads
alike (`Converter.ReadsAlike`), however different its state is: two runs on equal blocks then go on
turn by turn with the same words, delays and wakes (`Run.Alike.turn`), and only the requests to the
hardware and the faults in the log differ.

The unit of the chip is a handle, a queue of raw conversions and a record of requests, and a script
is a list of entries.  `UnitConverter.outcome_eq` and `ScriptedConverter.outcome_eq` say what either
yields at an index, within its list and past the end of it.  `RawConversion.entry` turns the one
list into the other, and `readsAlike_entries` compares them.  `unit_runs_like_script` is the result.
-/

namespace GasWatch

/-! ## Converters that read alike -/

/-- The reading, if there is one. -/
def Conversion.reading? : Conversion → Option UInt32
  | reading raw => some raw
  | failed _ => none

/-- A sample does not depend on why a conversion failed. -/
theorem Block.observe_congr {c d : Conversion} (h : c.reading? = d.reading?) (b : Block) :
    (b.observe c).verdict = (b.observe d).verdict ∧
      (b.observe c).block = (b.observe d).block := by
  cases c with
  | reading low =>
    cases d with
    | reading high =>
      obtain rfl : low = high := Option.some.inj h
      exact ⟨rfl, rfl⟩
    | failed fault => cases h
  | failed fault =>
    cases d with
    | reading high => cases h
    | failed other => exact ⟨rfl, rfl⟩

namespace Converter

variable {σ τ : Type} [Converter σ] [Converter τ]

/-- However long both are asked, the converters succeed at the same conversions and read the
same. -/
def ReadsAlike (s : σ) (t : τ) : Prop :=
  ∀ index, (outcome s index).reading? = (outcome t index).reading?

theorem ReadsAlike.symm {s : σ} {t : τ} (h : ReadsAlike s t) : ReadsAlike t s :=
  fun index => (h index).symm

theorem outcome_skip (s : σ) (count index : Nat) :
    outcome (skip s count) index = outcome s (count + index) := by
  rw [outcome, outcome, skip_skip]

theorem ReadsAlike.next {s : σ} {t : τ} (h : ReadsAlike s t) :
    ReadsAlike (convert s).2 (convert t).2 := by
  intro index
  have hs : outcome (convert s).2 index = outcome s (1 + index) := outcome_skip s 1 index
  have ht : outcome (convert t).2 index = outcome t (1 + index) := outcome_skip t 1 index
  rw [hs, ht]
  exact h (1 + index)

end Converter

/-! ## Runs over them -/

section Alike

variable {σ τ : Type} [Converter σ] [Converter τ]

/-- The runs are at the same point, on equal blocks, and their converters read alike. -/
structure Run.Alike (r : Run σ) (q : Run τ) : Prop where
  exit : r.exit = q.exit
  delays : r.delays = q.delays
  block : r.block = q.block
  wakes : r.monitor.wakes = q.monitor.wakes
  intervalMs : r.monitor.intervalMs = q.monitor.intervalMs
  elapsedNs : r.monitor.elapsedNs = q.monitor.elapsedNs
  converter : Converter.ReadsAlike r.monitor.converter q.monitor.converter

namespace Run.Alike

variable {r : Run σ} {q : Run τ} {host : Schedule}

theorem symm (h : r.Alike q) : q.Alike r :=
  ⟨h.exit.symm, h.delays.symm, h.block.symm, h.wakes.symm, h.intervalMs.symm, h.elapsedNs.symm,
    h.converter.symm⟩

theorem observation_eq (h : r.Alike q) :
    r.observation.verdict = q.observation.verdict ∧
      r.observation.block = q.observation.block := by
  show (r.block.observe (Converter.convert r.monitor.converter).1).verdict =
      (q.block.observe (Converter.convert q.monitor.converter).1).verdict ∧
    (r.block.observe (Converter.convert r.monitor.converter).1).block =
      (q.block.observe (Converter.convert q.monitor.converter).1).block
  rw [h.block]
  exact Block.observe_congr (h.converter 0) q.block

/-- A turn of both runs keeps them at the same point. -/
theorem turn (h : r.Alike q) : (r.turn host).Alike (q.turn host) := by
  obtain ⟨hverdict, hblock⟩ := h.observation_eq
  rcases turn_cases host r with ⟨hexit, hr⟩ | ⟨hexit, hstop, hr⟩ |
    ⟨hexit, hstop, reading, count, hconfirmed, hr⟩ | ⟨hexit, hstop, hconfirmed, hr⟩
  · rw [hr, turn_of_exit host (h.exit ▸ hexit)]
    exact h
  · rw [hr, turn_of_ongoing host (h.exit.symm.trans hexit),
      advance_of_stopRequested host (h.block ▸ hstop)]
    exact { h with exit := rfl }
  · rw [hr, turn_of_ongoing host (h.exit.symm.trans hexit),
      advance_of_confirmed host (h.block ▸ hstop) (hverdict.symm.trans hconfirmed)]
    exact
      { h with
        exit := rfl
        block := hblock
        wakes := congrArg (· + 1) h.wakes
        converter := h.converter.next }
  · rw [hr, turn_of_ongoing host (h.exit.symm.trans hexit),
      advance_of_unconfirmed host (h.block ▸ hstop) (hverdict ▸ hconfirmed)]
    refine
      { exit := h.exit
        delays := congrArg (· + 1) h.delays
        block := ?_
        wakes := h.wakes
        intervalMs := h.intervalMs
        elapsedNs := ?_
        converter := h.converter.next }
    · show r.observation.block.apply _ = q.observation.block.apply _
      rw [hblock, h.delays]
    · show r.monitor.elapsedNs + r.monitor.intervalMs.toNat * 1000000 =
        q.monitor.elapsedNs + q.monitor.intervalMs.toNat * 1000000
      rw [h.elapsedNs, h.intervalMs]

theorem after (h : r.Alike q) (turns : Nat) : (r.after host turns).Alike (q.after host turns) := by
  induction turns with
  | zero => exact h
  | succ turns ih =>
    rw [after_succ, after_succ]
    exact ih.turn

end Run.Alike

/-- The reports say the same, but for the converters and the faults in their logs. -/
structure Report.Alike (report : Report σ) (other : Report τ) : Prop where
  exit : report.exit = other.exit
  delays : report.delays = other.delays
  wakes : report.monitor.wakes = other.monitor.wakes
  block : report.block = other.block
  elapsedNs : report.monitor.elapsedNs = other.monitor.elapsedNs

omit [Converter σ] [Converter τ] in
theorem Report.Alike.symm {report : Report σ} {other : Report τ} (h : report.Alike other) :
    other.Alike report :=
  ⟨h.exit.symm, h.delays.symm, h.wakes.symm, h.block.symm, h.elapsedNs.symm⟩

theorem Run.Alike.report {r : Run σ} {q : Run τ} (h : r.Alike q) (hr : r.exit.isSome)
    (hq : q.exit.isSome) : (r.report hr).Alike (q.report hq) := by
  refine ⟨?_, h.delays, h.wakes, h.block, h.elapsedNs⟩
  show r.exit.get hr = q.exit.get hq
  simp only [h.exit]

variable {m : Monitor σ} {n : Monitor τ} {b : Block} {host : Schedule}

/-- If one of two runs that go on alike ends, the other one does. -/
theorem Monitor.Ends.exists_alike
    (halike : ∀ turns, ((m.start b).after host turns).Alike ((n.start b).after host turns))
    {report : Report σ} (hends : m.Ends b host report) :
    ∃ other, n.Ends b host other ∧ report.Alike other := by
  obtain ⟨turns, hended, rfl⟩ := hends
  have hother : ((n.start b).after host turns).exit.isSome := (halike turns).exit ▸ hended
  exact ⟨_, ⟨turns, hother, rfl⟩, (halike turns).report hended hother⟩

end Alike

/-! ## What a unit yields -/

namespace UnitConverter

theorem conversions_skip (u : UnitConverter) (count : Nat) :
    (Converter.skip u count).hardware.conversions = u.hardware.conversions.drop count := by
  induction count with
  | zero => rfl
  | succ count ih =>
    show (Converter.skip u count).hardware.conversions.tail = _
    rw [ih, List.tail_drop]

/-- A conversion of a unit is the one queued for it, and a timeout past the end of the queue. -/
theorem outcome_eq (u : UnitConverter) (index : Nat) :
    Converter.outcome u index =
      conversionOf (u.hardware.conversions[index]?.getD (.failure Hardware.timeout)) := by
  show conversionOf ((Converter.skip u index).hardware.conversions.headD _) = _
  rw [conversions_skip, List.headD_eq_head?_getD, List.head?_drop]

end UnitConverter

/-- The entry of a script that says what a raw conversion does: a count is held to twelve bits, and
a code is a failure. -/
def RawConversion.entry : RawConversion → Option UInt32
  | value raw => some (max 0 (min raw.toInt 4095)).toNat.toUInt32
  | failure _ => none

theorem UnitConverter.reading?_conversionOf (conversion : RawConversion) :
    (conversionOf conversion).reading? = conversion.entry := by
  cases conversion with
  | value raw =>
    have hheld : (min raw.toInt 4095).toNat = (max 0 (min raw.toInt 4095)).toNat := by omega
    show some (min raw.toInt 4095).toNat.toUInt32 = some _
    rw [hheld]
  | failure code => rfl

/-- The least and the greatest count are held to either end of the scale. -/
example :
    [.value (-2147483648), .value 2147483647, .value 4095, .failure 263].map RawConversion.entry =
      [some 0, some 4095, some 4095, none] := by
  decide

/-- A unit reads like the script of its conversions that are left. -/
theorem UnitConverter.readsAlike_entries (u : UnitConverter) :
    Converter.ReadsAlike u
      ({ remaining := u.hardware.conversions.map RawConversion.entry } : ScriptedConverter) := by
  intro index
  rw [outcome_eq, reading?_conversionOf, ScriptedConverter.outcome_eq, List.getElem?_map]
  cases u.hardware.conversions[index]? with
  | none => rfl
  | some conversion =>
    show conversion.entry = _
    cases conversion with
    | value raw => rfl
    | failure code => rfl

/-- A monitor over the unit of the chip, after any number of reads, does what it does over the
script of the conversions that are left.  At every turn the runs are at the same point with the same
words, delays and wakes, for any limits and for any host.  If one of them ends the other one ends,
and so it does with the same report, which is what a host that stops the run is given. -/
theorem unit_runs_like_script (conversions : List RawConversion) (reads : Nat) (b : Block)
    (intervalMs : UInt32) (host : Schedule) :
    ∃ unit, UnitConverter.claim { conversions } = .ok unit ∧
      let m : Monitor UnitConverter := { converter := (unit.readMany reads).2, intervalMs }
      let n : Monitor ScriptedConverter :=
        { converter := { remaining := (conversions.drop reads).map RawConversion.entry }
          intervalMs }
      (∀ turns, ((m.start b).after host turns).Alike ((n.start b).after host turns)) ∧
        (∀ report, m.Ends b host report → ∃ other, n.Ends b host other ∧ report.Alike other) ∧
        (∀ other, n.Ends b host other → ∃ report, m.Ends b host report ∧ report.Alike other) ∧
        ∀ last, (m.run b host last).Alike (n.run b host last) := by
  let unit : UnitConverter := .granted { conversions }
  refine ⟨unit, UnitConverter.claim_of_granted rfl rfl, ?_⟩
  intro m n
  have hunit : (unit.readMany reads).2 = Converter.skip unit reads :=
    (UnitConverter.readMany_eq reads unit).2
  have hconverter : Converter.ReadsAlike m.converter n.converter := by
    have hentries := UnitConverter.readsAlike_entries (Converter.skip unit reads)
    rw [unit.conversions_skip, ← hunit] at hentries
    exact hentries
  have hstart : (m.start b).Alike (n.start b) := ⟨rfl, rfl, rfl, rfl, rfl, rfl, hconverter⟩
  have halike (host : Schedule) (turns : Nat) :
      ((m.start b).after host turns).Alike ((n.start b).after host turns) :=
    hstart.after turns
  refine ⟨halike host, fun report hends => hends.exists_alike (halike host), ?_, ?_⟩
  · intro other hends
    obtain ⟨report, hreport, h⟩ := hends.exists_alike fun turns => (halike host turns).symm
    exact ⟨report, hreport, h.symm⟩
  · intro last
    obtain ⟨other, hother, h⟩ :=
      (m.run_ends b host last).exists_alike (halike (host.stoppingFrom last))
    rw [(n.run_ends b host last).unique hother]
    exact h

end GasWatch
