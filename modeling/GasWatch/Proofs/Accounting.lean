import GasWatch.Converter.Scripted
import GasWatch.Proofs.Agreement
import GasWatch.Proofs.WakeCondition
import Mathlib.Algebra.GroupWithZero.Nat

/-!
# The accounts of a run

A run keeps several counts in different places: the converter has made conversions, the clock has
advanced, the host has been woken, delays have passed, and the words hold the last reading, the
cycles and the row.  `Run.Tallied` says how all of them go with the number of conversions made.  It
holds before the first turn, a turn keeps it (`Tallied.turn`), and so it holds of a run at any time
(`Monitor.exists_tallied`) and of the report of a run that has ended (`run_accounting`).

There are three groups of lemmas.

* Conversions.  `Converter.Meters` says of a count that it goes up with each conversion.  A run
  knows its converter only by the conversions it asks for, so any such count has gone up by as many
  as the run has made.
* Words.  `Block.Remembers` says what a list of sightings leaves in the words of the monitor.
* Time.  The clock of a device counts in a double word and is advanced in pieces that fit into a
  word.  `toNat_clockAfter` says that this comes to the same as long as the double word holds it.
-/

namespace GasWatch

/-! ## Conversions -/

namespace Converter

variable {σ : Type} [Converter σ]

/-- A count that each conversion raises by one, whatever it yields. -/
def Meters (reads : σ → Nat) : Prop := ∀ s, reads (convert s).2 = reads s + 1

theorem Meters.reads_skip {reads : σ → Nat} (h : Meters reads) (s : σ) (count : Nat) :
    reads (skip s count) = reads s + count := by
  induction count with
  | zero => rfl
  | succ count ih =>
    show reads (convert (skip s count)).2 = reads s + (count + 1)
    rw [h, ih]
    omega

end Converter

theorem ScriptedConverter.meters_reads : Converter.Meters ScriptedConverter.reads :=
  ScriptedConverter.reads_next

/-! ## Words -/

/-- What a list of sightings leaves in the words of the monitor.  The last reading is that of the
last sighting, every sighting adds a cycle, and a last sighting below its threshold leaves no
row. -/
structure Block.Remembers (before : Block) (seen : List Sighting) (after : Block) : Prop where
  lastReading :
    after.lastReading = (seen.getLast?.map Sighting.reading).getD before.lastReading
  cycleCount : after.cycleCount = before.cycleCount + .ofNat seen.length
  aboveCount : ∀ s, seen.getLast? = some s → s.reading < s.threshold → after.aboveCount = 0

namespace Block.Remembers

variable {before b : Block} {seen : List Sighting}

theorem start (before : Block) : before.Remembers [] before := by
  refine ⟨rfl, ?_, ?_⟩
  · exact (UInt32.add_zero before.cycleCount).symm
  · intro s hlast
    simp at hlast

/-- A reading is remembered with the threshold that it is compared with. -/
theorem record (h : before.Remembers seen b) (reading : UInt32) :
    before.Remembers (seen ++ [{ reading, threshold := b.threshold }]) (b.record reading) := by
  refine ⟨?_, ?_, ?_⟩
  · rw [List.getLast?_concat]
    rfl
  · show b.cycleCount + 1 = _
    rw [h.cycleCount, List.length_append, List.length_singleton, UInt32.ofNat_add,
      UInt32.add_assoc]
    rfl
  · intro s hlast hbelow
    rw [List.getLast?_concat] at hlast
    obtain rfl := Option.some.inj hlast
    exact if_pos hbelow

/-- The host writes none of these words. -/
theorem apply (h : before.Remembers seen b) {writes : List Write}
    (hwrites : ∀ write ∈ writes, write.word.hostWritable) :
    before.Remembers seen (b.apply writes) := by
  have hkept : ∀ word : Word, word.hostWritable = false →
      (b.apply writes).load word = b.load word :=
    fun _ hword => load_apply_of_not_hostWritable hwrites hword b
  have haboveCount : (b.apply writes).aboveCount = b.aboveCount := hkept .aboveCount rfl
  have hcycleCount : (b.apply writes).cycleCount = b.cycleCount := hkept .cycleCount rfl
  have hlastReading : (b.apply writes).lastReading = b.lastReading := hkept .lastReading rfl
  refine ⟨?_, ?_, fun s hlast hbelow => ?_⟩
  · rw [hlastReading, h.lastReading]
  · rw [hcycleCount, h.cycleCount]
  · rw [haboveCount, h.aboveCount s hlast hbelow]

end Block.Remembers

/-! ## Time -/

/-- A way to break pauses of milliseconds into pauses of nanoseconds that fit into a word and add up
to them. -/
def SplitsPauses (split : UInt32 → List UInt32) : Prop :=
  ∀ ms, ((split ms).map UInt32.toNat).sum = ms.toNat * 1000000

/-- A clock that counts nanoseconds in a double word, after so many delays of the same pieces. -/
def clockAfter (pieces : List UInt32) (clock : UInt64) : Nat → UInt64
  | 0 => clock
  | delays + 1 =>
    pieces.foldl (fun clock piece => clock + piece.toUInt64) (clockAfter pieces clock delays)

theorem toNat_foldl_pieces {pieces : List UInt32} {clock : UInt64}
    (hfits : clock.toNat + (pieces.map UInt32.toNat).sum < UInt64.size) :
    (pieces.foldl (fun clock piece => clock + piece.toUInt64) clock).toNat =
      clock.toNat + (pieces.map UInt32.toNat).sum := by
  induction pieces generalizing clock with
  | nil => rfl
  | cons piece pieces ih =>
    simp only [List.map_cons, List.sum_cons] at hfits ⊢
    have hfirst : (clock + piece.toUInt64).toNat = clock.toNat + piece.toNat := by
      rw [UInt64.toNat_add, UInt32.toNat_toUInt64]
      exact Nat.mod_eq_of_lt (by simp only [UInt64.size] at hfits; omega)
    rw [List.foldl_cons, ih (by omega), hfirst, Nat.add_assoc]

/-- Such a clock advances by the pauses asked for, as long as it does not run over. -/
theorem toNat_clockAfter {split : UInt32 → List UInt32} (hsplit : SplitsPauses split)
    (ms : UInt32) (clock : UInt64) {delays : Nat}
    (hfits : clock.toNat + delays * (ms.toNat * 1000000) < UInt64.size) :
    (clockAfter (split ms) clock delays).toNat = clock.toNat + delays * (ms.toNat * 1000000) := by
  induction delays with
  | zero => simp [clockAfter]
  | succ delays ih =>
    rw [Nat.succ_mul] at hfits ⊢
    have hbefore := ih (by omega)
    have hpieces := hsplit ms
    rw [clockAfter, toNat_foldl_pieces (by omega)]
    omega

/-- The pieces of a pause when as many whole milliseconds as fit go into each. -/
def wholePieces (ms : Nat) : List UInt32 :=
  if 4294 < ms then 4294000000 :: wholePieces (ms - 4294) else [.ofNat (ms * 1000000)]
termination_by ms
decreasing_by omega

theorem sum_wholePieces (ms : Nat) :
    ((wholePieces ms).map UInt32.toNat).sum = ms * 1000000 := by
  fun_induction wholePieces ms with
  | case1 ms hlt ih =>
    have hpiece : (4294000000 : UInt32).toNat = 4294000000 := rfl
    rw [List.map_cons, List.sum_cons, ih, hpiece]
    omega
  | case2 ms hle =>
    have hsize : UInt32.size = 4294967296 := rfl
    rw [List.map_singleton, List.sum_singleton, UInt32.toNat_ofNat_of_lt' (by omega)]

theorem splitsPauses_wholePieces : SplitsPauses fun ms => wholePieces ms.toNat :=
  fun ms => sum_wholePieces ms.toNat

/-! ## The invariant -/

section Invariant

variable {σ : Type} [Converter σ] {m : Monitor σ} {b : Block} {host : Schedule} {made : Nat}
  {r : Run σ}

/-- The run has made `made` conversions.  It has made as many delays, or one delay less if the last
conversion woke the host, and the time passed is that of the delays. -/
structure Run.Tallied (m : Monitor σ) (b : Block) (host : Schedule) (made : Nat) (r : Run σ) :
    Prop where
  converter : r.monitor.converter = Converter.skip m.converter made
  intervalMs : r.monitor.intervalMs = m.intervalMs
  elapsedNs : r.monitor.elapsedNs = m.elapsedNs + r.delays * (m.intervalMs.toNat * 1000000)
  standing : r.exit = some .wakeSignalled ∧ made = r.delays + 1 ∧ r.monitor.wakes = m.wakes + 1 ∨
    r.exit ≠ some .wakeSignalled ∧ made = r.delays ∧ r.monitor.wakes = m.wakes
  limits : r.block.Agree Word.hostWritable (host.inForce b r.delays)
  words : host.Permitted → b.Remembers (m.sightings b host made) r.block

namespace Run.Tallied

theorem start (m : Monitor σ) (b : Block) (host : Schedule) :
    Run.Tallied m b host 0 (m.start b) := by
  refine ⟨rfl, rfl, ?_, Or.inr ⟨?_, rfl, rfl⟩, Block.Agree.refl _ _, fun _ => .start b⟩
  · show m.elapsedNs = m.elapsedNs + 0 * _
    omega
  · exact fun hexit => absurd hexit (by simp [Monitor.start])

theorem made_eq (h : Run.Tallied m b host made r) (hexit : r.exit ≠ some .wakeSignalled) :
    made = r.delays ∧ r.monitor.wakes = m.wakes := by
  rcases h.standing with ⟨hwoken, -⟩ | ⟨-, hmade⟩
  · exact absurd hwoken hexit
  · exact hmade

theorem made_eq_of_wakeSignalled (h : Run.Tallied m b host made r)
    (hexit : r.exit = some .wakeSignalled) :
    made = r.delays + 1 ∧ r.monitor.wakes = m.wakes + 1 := by
  rcases h.standing with ⟨-, hmade⟩ | ⟨hnot, -⟩
  · exact hmade
  · exact absurd hexit hnot

/-- The next sample of a run that has not ended is remembered with what it sees. -/
theorem remembers_observation (h : Run.Tallied m b host made r) (hexit : r.exit = none)
    (hhost : host.Permitted) :
    b.Remembers (m.sightings b host (made + 1)) r.observation.block := by
  have hmade := (h.made_eq (by simp [hexit])).1
  have hthreshold := (Block.agree_hostWritable_iff.mp h.limits).1
  rw [Run.observation_of_converter h.converter, Monitor.sightings_succ]
  cases hconversion : Converter.outcome m.converter made with
  | failed fault => simpa [Monitor.sighting?, hconversion] using h.words hhost
  | reading reading =>
    simp only [Monitor.sighting?, hconversion, Option.toList_some]
    rw [Block.block_observe_reading, hmade, ← hthreshold, ← hmade]
    exact (h.words hhost).record reading

/-- A turn makes no conversion or one, and the accounts go with it. -/
theorem turn (h : Run.Tallied m b host made r) :
    ∃ next, Run.Tallied m b host next (r.turn host) := by
  have hobserve : r.observation.block.Agree Word.hostWritable r.block :=
    Block.agree_observe r.block _
  rcases Run.turn_cases host r with ⟨-, hturn⟩ | ⟨hexit, -, hturn⟩ |
    ⟨hexit, -, reading, count, -, hturn⟩ | ⟨hexit, -, -, hturn⟩
  · refine ⟨made, ?_⟩
    rw [hturn]
    exact h
  -- Halting takes no sample, so the accounts close as they stand.
  · obtain ⟨hmade, hwakes⟩ := h.made_eq (by simp [hexit])
    refine ⟨made, ?_⟩
    rw [hturn]
    exact { h with standing := Or.inr ⟨by simp, hmade, hwakes⟩ }
  -- The conversion that wakes the host has no delay to go with it.
  · obtain ⟨hmade, hwakes⟩ := h.made_eq (by simp [hexit])
    refine ⟨made + 1, ?_⟩
    rw [hturn]
    exact
      { converter := Run.converter_sampledMonitor h.converter
        intervalMs := h.intervalMs
        elapsedNs := h.elapsedNs
        standing := Or.inl ⟨rfl, congrArg (· + 1) hmade, congrArg (· + 1) hwakes⟩
        limits := hobserve.trans h.limits
        words := h.remembers_observation hexit }
  · obtain ⟨hmade, hwakes⟩ := h.made_eq (by simp [hexit])
    refine ⟨made + 1, ?_⟩
    rw [hturn]
    refine ⟨Run.converter_sampledMonitor h.converter, h.intervalMs, ?_,
      Or.inr ⟨?_, ?_, hwakes⟩, ?_, fun hhost => ?_⟩
    · show r.monitor.elapsedNs + r.monitor.intervalMs.toNat * 1000000 = _
      rw [h.elapsedNs, h.intervalMs, Nat.succ_mul, Nat.add_assoc]
    · simp [hexit]
    · exact congrArg (· + 1) hmade
    · exact (hobserve.trans h.limits).apply (host (r.delays + 1))
    · exact (h.remembers_observation hexit hhost).apply (hhost _)

end Run.Tallied

theorem Monitor.exists_tallied (m : Monitor σ) (b : Block) (host : Schedule) (turns : Nat) :
    ∃ made, Run.Tallied m b host made ((m.start b).after host turns) := by
  induction turns with
  | zero => exact ⟨0, Run.Tallied.start m b host⟩
  | succ turns ih =>
    obtain ⟨made, h⟩ := ih
    rw [Run.after_succ]
    exact h.turn

end Invariant

/-! ## Reports -/

/-- The accounts of a run that has ended, after `made` conversions. -/
structure Report.Tallied {σ : Type} [Converter σ] (m : Monitor σ) (b : Block) (host : Schedule)
    (made : Nat) (report : Report σ) : Prop where
  converter : report.monitor.converter = Converter.skip m.converter made
  elapsedNs :
    report.monitor.elapsedNs = m.elapsedNs + report.delays * (m.intervalMs.toNat * 1000000)
  woken : report.exit = .wakeSignalled →
    made = report.delays + 1 ∧ report.monitor.wakes = m.wakes + 1
  stopped : report.exit = .stopped → made = report.delays ∧ report.monitor.wakes = m.wakes
  words : host.Permitted → b.Remembers (m.sightings b host made) report.block

theorem Monitor.Ends.exists_tallied {σ : Type} [Converter σ] {m : Monitor σ} {b : Block}
    {host : Schedule} {report : Report σ} (hends : m.Ends b host report) :
    ∃ made, Report.Tallied m b host made report := by
  obtain ⟨turns, hended, rfl⟩ := hends
  obtain ⟨made, h⟩ := m.exists_tallied b host turns
  generalize (m.start b).after host turns = r at hended h
  refine ⟨made, h.converter, h.elapsedNs, fun hexit => ?_, fun hexit => ?_, h.words⟩
  · exact h.made_eq_of_wakeSignalled (Run.exit_of_report hexit)
  · exact h.made_eq (by simp [Run.exit_of_report hexit])

/-- The accounts of a run that has ended.  It has made one delay for each conversion, but none after
the one that woke the host, and it has woken the host once or not at all.  The words hold what it
has seen, and the clock has advanced by the delays, also if it is a clock that counts in a double
word and is advanced in pieces. -/
theorem run_accounting {σ : Type} [Converter σ] (m : Monitor σ) (b : Block) (host : Schedule)
    (hhost : host.Permitted) (report : Report σ) (hends : m.Ends b host report) :
    ∃ made,
      (report.monitor.converter = Converter.skip m.converter made ∧
        ∀ reads : σ → Nat, Converter.Meters reads →
          reads report.monitor.converter = reads m.converter + made) ∧
      (report.exit = .wakeSignalled →
        made = report.delays + 1 ∧ report.monitor.wakes = m.wakes + 1) ∧
      (report.exit = .stopped → made = report.delays ∧ report.monitor.wakes = m.wakes) ∧
      b.Remembers (m.sightings b host made) report.block ∧
      report.monitor.elapsedNs = m.elapsedNs + report.delays * (m.intervalMs.toNat * 1000000) ∧
      ∀ split, SplitsPauses split → ∀ clock : UInt64, clock.toNat = m.elapsedNs →
        report.monitor.elapsedNs < UInt64.size →
          (clockAfter (split m.intervalMs) clock report.delays).toNat =
            report.monitor.elapsedNs := by
  obtain ⟨made, h⟩ := hends.exists_tallied
  refine ⟨made, ⟨h.converter, fun reads hreads => ?_⟩, h.woken, h.stopped, h.words hhost,
    h.elapsedNs, fun split hsplit clock hclock hfits => ?_⟩
  · rw [h.converter, hreads.reads_skip]
  · rw [h.elapsedNs, ← hclock] at hfits ⊢
    exact toNat_clockAfter hsplit m.intervalMs clock hfits

/-- A failure, a reading that a raised threshold takes out of the row, and a wake at the fifth
conversion.  Pauses of five seconds are too long for a word of nanoseconds and come in two
pieces. -/
theorem run_accounting_of_retuned_run :
    let m : Monitor ScriptedConverter :=
      { converter := { remaining := [some 1200, none, some 1200, some 1300, some 1400], reads := 3 }
        intervalMs := 5000
        elapsedNs := 7
        wakes := 2 }
    let b : Block := { Block.withLimits 1000 2 with cycleCount := 0xffffffff }
    let host : Schedule := (Schedule.ofEntries [(2, [⟨.threshold, 1250⟩])]).stoppingFrom 9
    let report := m.run b (.ofEntries [(2, [⟨.threshold, 1250⟩])]) 9
    (host.Permitted ∧ m.Ends b host report ∧ report.exit = .wakeSignalled ∧
        SplitsPauses fun ms => wholePieces ms.toNat) ∧
      report.monitor.converter.reads = 8 ∧ report.delays = 4 ∧ report.monitor.wakes = 3 ∧
        report.block.lastReading = 1400 ∧ report.block.cycleCount = 3 ∧
        report.monitor.elapsedNs = 20000000007 ∧
        (clockAfter (wholePieces 5000) 7 4).toNat = 20000000007 := by
  intro m b host report
  have hhost : host.Permitted :=
    Schedule.Permitted.stoppingFrom (Schedule.forall_mem_ofEntries (by decide)) 9
  have hends : m.Ends b host report := m.run_ends b _ 9
  have hexit : report.exit = .wakeSignalled := by decide
  have hdelays : report.delays = 4 := by decide
  obtain ⟨made, ⟨-, hreads⟩, hwoken, -, hwords, htime, hclock⟩ :=
    run_accounting m b host hhost report hends
  obtain ⟨rfl, hwakes⟩ := hwoken hexit
  have hconversions := hreads _ ScriptedConverter.meters_reads
  rw [hdelays] at hconversions hwords htime hclock
  have helapsed : report.monitor.elapsedNs = 20000000007 := htime.trans (by decide)
  have hfits : report.monitor.elapsedNs < UInt64.size := by
    rw [helapsed]
    decide
  have hms : m.intervalMs.toNat = 5000 := rfl
  have hadvanced := hclock _ splitsPauses_wholePieces 7 rfl hfits
  rw [hms, helapsed] at hadvanced
  refine ⟨⟨hhost, hends, hexit, splitsPauses_wholePieces⟩, hconversions, hdelays, hwakes,
    hwords.lastReading, hwords.cycleCount.trans (by decide), helapsed, hadvanced⟩

end GasWatch
