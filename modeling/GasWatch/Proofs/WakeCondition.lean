import GasWatch.Converter.Scripted
import GasWatch.Proofs.Agreement
import GasWatch.Proofs.Turns
import Mathlib.Data.List.Induction
import Mathlib.Data.Nat.Find

/-!
# When a run wakes the host

A run is described from outside by the conversions that the converter yields and by the limits that
the host's writes put in force.  `Monitor.sightings` lists the readings of a run with the threshold
in force at each, and `Monitor.ConfirmsAt` says in terms of that list that a sample completes a row:
either enough readings of this run in a row reach their thresholds, or all of them do and the count
found at the start makes up for what is missing.  `wakeSignalled_iff_alarm` is the result: the run
wakes the host exactly if such a sample comes before the stop flag is seen, and it does so at the
first of them.

There are three groups of lemmas.

* Rows.  `rowAfter` counts the trailing row in unbounded arithmetic, starting from any count, and
  `le_rowAfter_iff` compares it with the two alternatives of `ConfirmsAt`.
* The invariant.  `Sampled` says where a run stands before its sample `index`.  The above count is
  `rowAfter` held at the greatest word, which is as good as the count itself since no confirm
  count is greater.
* The end.  `sampled_after` carries the invariant to the first sample that decides, and the turn at
  that sample ends the run.
-/

namespace GasWatch

/-! ## Sightings -/

/-- A reading, and the threshold in force at its sample. -/
structure Sighting where
  reading : UInt32
  threshold : UInt32

/-- The reading is at or above the threshold. -/
def Sighting.Reaches (s : Sighting) : Prop := s.threshold ≤ s.reading

instance : DecidablePred Sighting.Reaches := fun s =>
  inferInstanceAs (Decidable (s.threshold ≤ s.reading))

namespace Monitor

variable {σ : Type} [Converter σ]

/-- What a sample of a run sees, if its conversion succeeds.  Samples are counted from zero. -/
def sighting? (m : Monitor σ) (b : Block) (host : Schedule) (index : Nat) : Option Sighting :=
  match Converter.outcome m.converter index with
  | .reading reading => some { reading, threshold := (host.inForce b index).threshold }
  | .failed _ => none

/-- What the first samples of a run see, in order. -/
def sightings (m : Monitor σ) (b : Block) (host : Schedule) (count : Nat) : List Sighting :=
  (List.range count).filterMap (m.sighting? b host)

/-- A sample succeeds and completes a row.  With the confirm count in force there, a count of zero
taken as one, either that many last readings of the run reach the threshold in force at their own
sample, or all readings of the run do and their number together with the count at the start is
large enough. -/
def ConfirmsAt (m : Monitor σ) (b : Block) (host : Schedule) (index : Nat) : Prop :=
  let needed := max 1 (host.inForce b index).confirmCount.toNat
  let seen := m.sightings b host (index + 1)
  (m.sighting? b host index).isSome ∧
    (needed ≤ seen.length ∧ (∀ s ∈ seen.drop (seen.length - needed), s.Reaches) ∨
      (∀ s ∈ seen, s.Reaches) ∧ needed ≤ b.aboveCount.toNat + seen.length)

instance (m : Monitor σ) (b : Block) (host : Schedule) (index : Nat) :
    Decidable (m.ConfirmsAt b host index) :=
  inferInstanceAs (Decidable (_ ∧ (_ ∧ _ ∨ _ ∧ _)))

/-- A sample completes a row, and no check of the stop flag up to it finds the flag raised. -/
def AlarmAt (m : Monitor σ) (b : Block) (host : Schedule) (index : Nat) : Prop :=
  (∀ earlier ≤ index, (host.inForce b earlier).stopRequested = false) ∧ m.ConfirmsAt b host index

instance (m : Monitor σ) (b : Block) (host : Schedule) (index : Nat) :
    Decidable (m.AlarmAt b host index) :=
  inferInstanceAs (Decidable (_ ∧ _))

/-- A sample neither follows a raised flag nor completes a row. -/
def UndecidedAt (m : Monitor σ) (b : Block) (host : Schedule) (index : Nat) : Prop :=
  (host.inForce b index).stopRequested = false ∧ ¬ m.ConfirmsAt b host index

theorem isSome_sighting?_iff {m : Monitor σ} {b : Block} {host : Schedule} {index : Nat} :
    (m.sighting? b host index).isSome ↔
      ∃ reading, Converter.outcome m.converter index = .reading reading := by
  unfold sighting?
  cases Converter.outcome m.converter index with
  | reading reading => simp
  | failed fault => simp

theorem sightings_succ (m : Monitor σ) (b : Block) (host : Schedule) (count : Nat) :
    m.sightings b host (count + 1) =
      m.sightings b host count ++ (m.sighting? b host count).toList := by
  rw [sightings, sightings, List.range_succ, List.filterMap_append]
  cases hcase : m.sighting? b host count <;> simp [hcase]

/-- When a converter plays a list, a run has seen as many readings as entries of it that count. -/
theorem length_sightings_of_entries {α : Type} {m : Monitor σ} {b : Block} {host : Schedule}
    {entries : List α} {reads : α → Bool}
    (hentries : ∀ index, (m.sighting? b host index).isSome = (entries[index]?).any reads)
    (count : Nat) : (m.sightings b host count).length = (entries.take count).countP reads := by
  induction count with
  | zero => rfl
  | succ count ih =>
    have hlast : (m.sighting? b host count).toList.length =
        (entries[count]?).toList.countP reads := by
      rw [Option.length_toList, hentries count]
      cases entries[count]? with
      | none => rfl
      | some entry => rw [Option.any_some, Option.toList_some, List.countP_singleton]
    rw [sightings_succ, List.length_append, ih, List.take_add_one, List.countP_append, hlast]

/-- When all samples succeed there are as many readings. -/
theorem length_sightings_of_isSome {m : Monitor σ} {b : Block} {host : Schedule} {count : Nat}
    (hall : ∀ i < count, (m.sighting? b host i).isSome) :
    (m.sightings b host count).length = count := by
  have hsome : (List.range count).countP (fun i => (m.sighting? b host i).isSome) = count := by
    rw [List.countP_eq_length.mpr fun i hi => hall i (List.mem_range.mp hi), List.length_range]
  rw [sightings, List.length_filterMap_eq_countP]
  exact hsome

end Monitor

/-! ## Rows -/

/-- The length of the row of readings that reach their thresholds, after a list of sightings and
counted on from the length before it. -/
def rowAfter (start : Nat) (seen : List Sighting) : Nat :=
  seen.foldl (fun row s => if s.Reaches then row + 1 else 0) start

theorem rowAfter_append_singleton (start : Nat) (seen : List Sighting) (s : Sighting) :
    rowAfter start (seen ++ [s]) = if s.Reaches then rowAfter start seen + 1 else 0 := by
  rw [rowAfter, List.foldl_append]
  rfl

/-- A row is long enough if that many last readings reach their thresholds, or if all of them do
and the row went on from before. -/
theorem le_rowAfter_iff (start : Nat) (seen : List Sighting) (needed : Nat) :
    needed ≤ rowAfter start seen ↔
      needed ≤ seen.length ∧ (∀ s ∈ seen.drop (seen.length - needed), s.Reaches) ∨
        (∀ s ∈ seen, s.Reaches) ∧ needed ≤ start + seen.length := by
  -- From the end of the list, since the row is its trailing part.
  induction seen using List.reverseRecOn generalizing needed with
  | nil =>
    simp [rowAfter]
    omega
  | append_singleton seen s ih =>
    rw [rowAfter_append_singleton]
    cases needed with
    | zero => simp
    | succ needed =>
      have hlength : (seen ++ [s]).length = seen.length + 1 := by simp
      have hdrop : seen.length + 1 - (needed + 1) = seen.length - needed := by omega
      rw [hlength, hdrop, List.drop_append_of_le_length (Nat.sub_le _ _)]
      simp only [List.forall_mem_append, List.forall_mem_singleton]
      by_cases hs : s.Reaches
      · rw [if_pos hs, Nat.add_le_add_iff_right, ih needed, ← Nat.add_assoc,
          Nat.add_le_add_iff_right, Nat.add_le_add_iff_right]
        simp only [hs, and_true]
      · rw [if_neg hs]
        simp only [hs, and_false, false_and, or_false, iff_false]
        exact Nat.not_succ_le_zero needed

/-- The above count after a reading. -/
theorem Block.toNat_aboveCount_record (b : Block) (reading : UInt32) :
    (b.record reading).aboveCount.toNat =
      if b.threshold ≤ reading then min (b.aboveCount.toNat + 1) 0xffffffff else 0 := by
  by_cases hreached : b.threshold ≤ reading
  · rw [if_pos hreached, record]
    simp only [if_neg (UInt32.not_lt.mpr hreached)]
    exact toNat_saturatingAdd b.aboveCount 1
  · rw [if_neg hreached, record]
    simp only [if_pos (UInt32.not_le.mp hreached)]
    rfl

/-! ## The invariant -/

section Invariant

variable {σ : Type} [Converter σ] {m : Monitor σ} {b : Block} {host : Schedule} {index : Nat}
  {r : Run σ}

/-- The run has made `index` samples and a delay after each, and goes on. -/
structure Sampled (m : Monitor σ) (b : Block) (host : Schedule) (index : Nat) (r : Run σ) :
    Prop where
  ongoing : r.exit = none
  delays : r.delays = index
  converter : r.monitor.converter = Converter.skip m.converter index
  wakes : r.monitor.wakes = m.wakes
  limits : r.block.Agree Word.hostWritable (host.inForce b index)
  row : r.block.aboveCount.toNat =
    min (rowAfter b.aboveCount.toNat (m.sightings b host index)) 0xffffffff

namespace Sampled

theorem start (m : Monitor σ) (b : Block) (host : Schedule) :
    Sampled m b host 0 (m.start b) := by
  refine ⟨rfl, rfl, rfl, rfl, Block.Agree.refl _ _, ?_⟩
  have hword := b.aboveCount.toNat_lt
  change b.aboveCount.toNat = min b.aboveCount.toNat 0xffffffff
  omega

/-- The next sample takes the next conversion. -/
theorem observation_eq (h : Sampled m b host index r) :
    r.observation = r.block.observe (Converter.outcome m.converter index) :=
  Run.observation_of_converter h.converter

/-- The flag that the next check finds is the one in force. -/
theorem stopRequested_eq (h : Sampled m b host index r) :
    r.block.stopRequested = (host.inForce b index).stopRequested :=
  h.limits.stopRequested_eq

/-- After the next sample the above count is the row after its sighting. -/
theorem row_observation (h : Sampled m b host index r) :
    r.observation.block.aboveCount.toNat =
      min (rowAfter b.aboveCount.toNat (m.sightings b host (index + 1))) 0xffffffff := by
  have hthreshold := (Block.agree_hostWritable_iff.mp h.limits).1
  rw [h.observation_eq, Monitor.sightings_succ]
  cases hconversion : Converter.outcome m.converter index with
  | failed fault => simp [Monitor.sighting?, hconversion, h.row]
  | reading reading =>
    simp only [Monitor.sighting?, hconversion, Option.toList_some]
    rw [Block.block_observe_reading, Block.toNat_aboveCount_record, rowAfter_append_singleton,
      hthreshold, h.row]
    let s : Sighting := { reading, threshold := (host.inForce b index).threshold }
    by_cases hreached : (host.inForce b index).threshold ≤ reading
    · have hs : s.Reaches := hreached
      rw [if_pos hreached, if_pos hs]
      omega
    · have hs : ¬ s.Reaches := hreached
      rw [if_neg hreached, if_neg hs]
      rfl

/-- The next sample completes a row exactly if the sightings say so. -/
theorem isConfirmed_iff (h : Sampled m b host index r) :
    r.observation.verdict.isConfirmed ↔ m.ConfirmsAt b host index := by
  obtain ⟨hthreshold, hconfirm, -⟩ := Block.agree_hostWritable_iff.mp h.limits
  have hrow := h.row_observation
  rw [h.observation_eq] at hrow ⊢
  rw [Block.isConfirmed_observe_iff, Monitor.ConfirmsAt]
  simp only [← le_rowAfter_iff, Monitor.isSome_sighting?_iff]
  constructor
  · intro hconfirmed
    obtain ⟨reading, hreading, hreached, hcount⟩ := hconfirmed
    rw [hreading, Block.block_observe_reading] at hrow
    have hpositive := Block.toNat_aboveCount_record r.block reading
    rw [if_pos hreached] at hpositive
    rw [UInt32.le_iff_toNat_le, hconfirm] at hcount
    exact ⟨⟨reading, hreading⟩, by omega⟩
  · intro hconfirms
    obtain ⟨⟨reading, hreading⟩, hneeded⟩ := hconfirms
    rw [hreading, Block.block_observe_reading] at hrow
    have hvalue := Block.toNat_aboveCount_record r.block reading
    have hword := (host.inForce b index).confirmCount.toNat_lt
    refine ⟨reading, hreading, ?_, ?_⟩
    -- A reading below the threshold leaves no row, and at least one is needed.
    · by_contra hreached
      rw [if_neg hreached] at hvalue
      omega
    · rw [UInt32.le_iff_toNat_le, hconfirm]
      omega

/-- A sample that does not decide carries the invariant on. -/
theorem turn (h : Sampled m b host index r) (hhost : host.Permitted)
    (hundecided : m.UndecidedAt b host index) :
    Sampled m b host (index + 1) (r.turn host) := by
  obtain ⟨hstop, hconfirms⟩ := hundecided
  have hverdict : r.observation.verdict.isConfirmed = false := by
    rw [← h.isConfirmed_iff] at hconfirms
    exact Bool.eq_false_iff.mpr hconfirms
  rw [Run.turn_of_ongoing host h.ongoing,
    Run.advance_of_unconfirmed host (h.stopRequested_eq.trans hstop) hverdict]
  have hobserve : r.observation.block.Agree Word.hostWritable r.block :=
    Block.agree_observe r.block _
  refine ⟨h.ongoing, ?_, ?_, h.wakes, ?_, ?_⟩
  · rw [h.delays]
  · exact Run.converter_sampledMonitor h.converter
  · rw [h.delays]
    exact (hobserve.trans h.limits).apply (host (index + 1))
  · have habove : Word.aboveCount.hostWritable = false := rfl
    rw [← h.row_observation]
    exact congrArg UInt32.toNat (Block.load_apply_of_not_hostWritable (hhost _) habove _)

end Sampled

/-! ## The end -/

/-- As long as no sample decides, the run goes on. -/
theorem sampled_after (hhost : host.Permitted)
    (hbefore : ∀ earlier < index, m.UndecidedAt b host earlier) :
    Sampled m b host index ((m.start b).after host index) := by
  induction index with
  | zero => exact Sampled.start m b host
  | succ index ih =>
    have hprefix := ih fun earlier hlt => hbefore earlier (Nat.lt_succ_of_lt hlt)
    rw [Run.after_succ]
    exact hprefix.turn hhost (hbefore index (Nat.lt_succ_self index))

/-- A run that goes on has taken a sample in every turn. -/
theorem sampled_of_ongoing (hhost : host.Permitted) {turns : Nat}
    (hexit : ((m.start b).after host turns).exit = none) :
    Sampled m b host turns ((m.start b).after host turns) := by
  induction turns with
  | zero => exact Sampled.start m b host
  | succ turns ih =>
    rw [Run.after_succ] at hexit ⊢
    obtain ⟨hbefore, hstop, hverdict⟩ := Run.ongoing_of_turn hexit
    have h := ih hbefore
    refine h.turn hhost ⟨h.stopRequested_eq.symm.trans hstop, fun hconfirms => ?_⟩
    rw [h.isConfirmed_iff.mpr hconfirms] at hverdict
    exact absurd hverdict.symm Bool.false_ne_true

/-- A stop flag that is raised before any alarm stops the run. -/
theorem exit_after_of_stop (hhost : host.Permitted)
    (hbefore : ∀ earlier < index, m.UndecidedAt b host earlier)
    (hstop : (host.inForce b index).stopRequested) :
    ((m.start b).after host (index + 1)).exit = some .stopped := by
  have h := sampled_after hhost hbefore
  rw [Run.after_succ, Run.turn_of_ongoing host h.ongoing,
    Run.advance_of_stopRequested host (h.stopRequested_eq.trans hstop)]

/-- What a run comes to that is ended by an alarm at the sample `index`: it has woken the host
once, made one conversion for each sample up to that one, and made no delay after it. -/
structure Woken (m : Monitor σ) (index : Nat) (r : Run σ) : Prop where
  exit : r.exit = some .wakeSignalled
  delays : r.delays = index
  converter : r.monitor.converter = Converter.skip m.converter (index + 1)
  wakes : r.monitor.wakes = m.wakes + 1

/-- The first sample that completes a row ends the run if the flag is down up to it. -/
theorem woken_after (hhost : host.Permitted)
    (hbefore : ∀ earlier < index, m.UndecidedAt b host earlier)
    (halarm : m.AlarmAt b host index) :
    Woken m index ((m.start b).after host (index + 1)) := by
  have h := sampled_after hhost hbefore
  have hstop := h.stopRequested_eq.trans (halarm.1 index (Nat.le_refl index))
  obtain ⟨reading, count, hverdict⟩ :=
    Verdict.exists_of_isConfirmed (h.isConfirmed_iff.mpr halarm.2)
  rw [Run.after_succ, Run.turn_of_ongoing host h.ongoing,
    Run.advance_of_confirmed host hstop hverdict]
  exact ⟨rfl, h.delays, Run.converter_sampledMonitor h.converter, congrArg (· + 1) h.wakes⟩

/-- A run that wakes the host meets an alarm. -/
theorem exists_alarm_of_wakeSignalled (hhost : host.Permitted) {turns : Nat}
    (hexit : ((m.start b).after host turns).exit = some .wakeSignalled) :
    ∃ index, m.AlarmAt b host index := by
  classical
  by_cases hall : ∀ earlier < turns, m.UndecidedAt b host earlier
  · rw [(sampled_after hhost hall).ongoing] at hexit
    exact absurd hexit (by decide)
  -- Some sample decides, and the first one to do so ends the run for good.
  have hex : ∃ index, index < turns ∧ ¬ m.UndecidedAt b host index := by
    push Not at hall
    exact hall
  obtain ⟨hlt, hdecided⟩ := Nat.find_spec hex
  have hbefore : ∀ earlier < Nat.find hex, m.UndecidedAt b host earlier := by
    intro earlier hearlier
    by_contra hnot
    exact Nat.find_min hex hearlier ⟨by omega, hnot⟩
  by_cases hstop : (host.inForce b (Nat.find hex)).stopRequested
  · have hstopped := exit_after_of_stop hhost hbefore hstop
    have hended : ((m.start b).after host (Nat.find hex + 1)).exit.isSome := by
      rw [hstopped]
      rfl
    rw [Run.after_eq_of_le host hended (by omega), hstopped] at hexit
    exact absurd hexit (by decide)
  · have hdown := Bool.eq_false_iff.mpr hstop
    refine ⟨Nat.find hex, ?_, ?_⟩
    · intro earlier hle
      rcases Nat.lt_or_eq_of_le hle with hearlier | rfl
      · exact (hbefore earlier hearlier).1
      · exact hdown
    · by_contra hnot
      exact hdecided ⟨hdown, hnot⟩

/-- The first alarm ends the run. -/
theorem exists_report_of_first_alarm (hhost : host.Permitted) (halarm : m.AlarmAt b host index)
    (hfirst : ∀ earlier < index, ¬ m.AlarmAt b host earlier) :
    ∃ report, m.Ends b host report ∧ report.exit = .wakeSignalled ∧ report.delays = index ∧
      report.monitor.converter = Converter.skip m.converter (index + 1) ∧
      report.monitor.wakes = m.wakes + 1 := by
  have hbefore : ∀ earlier < index, m.UndecidedAt b host earlier := by
    intro earlier hlt
    refine ⟨halarm.1 earlier (Nat.le_of_lt hlt), fun hconfirms => ?_⟩
    exact hfirst earlier hlt ⟨fun before hle => halarm.1 before (by omega), hconfirms⟩
  have h := woken_after hhost hbefore halarm
  have hended : ((m.start b).after host (index + 1)).exit.isSome := Option.isSome_of_eq_some h.exit
  exact ⟨_, ⟨index + 1, hended, rfl⟩, Run.exit_report h.exit hended, h.delays, h.converter, h.wakes⟩

/-- An alarm at some sample wakes the host there at the latest. -/
theorem exists_report_of_alarm (hhost : host.Permitted) (halarm : m.AlarmAt b host index) :
    ∃ report, m.Ends b host report ∧ report.exit = .wakeSignalled ∧ report.delays ≤ index ∧
      report.monitor.converter = Converter.skip m.converter (report.delays + 1) := by
  have hex : ∃ index, m.AlarmAt b host index := ⟨index, halarm⟩
  obtain ⟨report, hends, hexit, hdelays, hconverter, -⟩ :=
    exists_report_of_first_alarm hhost (Nat.find_spec hex) fun _ => Nat.find_min hex
  refine ⟨report, hends, hexit, ?_, ?_⟩
  · rw [hdelays]
    exact Nat.find_min' hex halarm
  · rw [hconverter, hdelays]

/-- A run that wakes the host does so at an alarm, one sample after its last delay. -/
theorem Monitor.Ends.alarmAt_delays (hhost : host.Permitted) {report : Report σ}
    (hends : m.Ends b host report) (hexit : report.exit = .wakeSignalled) :
    m.AlarmAt b host report.delays ∧
      report.monitor.converter = Converter.skip m.converter (report.delays + 1) := by
  have hex : ∃ index, m.AlarmAt b host index := by
    obtain ⟨turns, hended, rfl⟩ := hends
    exact exists_alarm_of_wakeSignalled hhost (Run.exit_of_report hexit)
  obtain ⟨other, hother, -, hdelays, hconverter, -⟩ :=
    exists_report_of_first_alarm hhost (Nat.find_spec hex) fun _ => Nat.find_min hex
  rw [hends.unique hother, hdelays]
  exact ⟨Nat.find_spec hex, hconverter⟩

/-- A run that wakes the host leaves the row that woke it. -/
theorem Monitor.Ends.row_of_wakeSignalled (hhost : host.Permitted) {report : Report σ}
    (hends : m.Ends b host report) (hexit : report.exit = .wakeSignalled) :
    report.block.aboveCount.toNat =
      min (rowAfter b.aboveCount.toNat (m.sightings b host (report.delays + 1))) 0xffffffff := by
  obtain ⟨turns, hended, rfl⟩ := hends
  obtain ⟨last, hlast, -, hdelays, hblock⟩ :=
    Run.exists_waking_turn rfl (Run.exit_of_report hexit)
  have h := sampled_of_ongoing hhost hlast
  simp only [Run.report, hdelays, hblock, h.delays]
  exact h.row_observation

end Invariant

/-! ## The wake condition -/

/-- A run wakes the host exactly if there is an alarm, and it does so at the first one: after one
conversion for each sample up to that one, and without a delay after it. -/
theorem wakeSignalled_iff_alarm {σ : Type} [Converter σ] (m : Monitor σ) (b : Block)
    (host : Schedule) (hhost : host.Permitted) :
    ((∃ report, m.Ends b host report ∧ report.exit = .wakeSignalled) ↔
        ∃ index, m.AlarmAt b host index) ∧
      ∀ index, m.AlarmAt b host index → (∀ earlier < index, ¬ m.AlarmAt b host earlier) →
        ∃ report, m.Ends b host report ∧ report.exit = .wakeSignalled ∧
          report.delays = index ∧
          report.monitor.converter = Converter.skip m.converter (index + 1) ∧
          report.monitor.wakes = m.wakes + 1 := by
  refine ⟨⟨?_, ?_⟩, fun index => exists_report_of_first_alarm hhost⟩
  · intro hreport
    obtain ⟨report, ⟨turns, hexit, rfl⟩, hwake⟩ := hreport
    have hsome : ((m.start b).after host turns).exit = some .wakeSignalled := by
      rw [← hwake, Run.report, Option.some_get]
    exact exists_alarm_of_wakeSignalled hhost hsome
  · intro hex
    obtain ⟨report, hends, hexit, -⟩ :=
      exists_report_of_first_alarm hhost (Nat.find_spec hex) fun _ => Nat.find_min hex
    exact ⟨report, hends, hexit⟩

/-- Two readings complete a row of the greatest length on top of a count from before the run.  The
host raises the threshold in between, and a conversion fails. -/
theorem wakeSignalled_of_leftover_row :
    let m : Monitor ScriptedConverter :=
      { converter := { remaining := [some 1200, none, some 1300] }, intervalMs := 200 }
    let b : Block :=
      { Block.withLimits 1000 0xffffffff with aboveCount := 0xfffffffd, cycleCount := 7 }
    let host : Schedule := .ofEntries [(1, [⟨.threshold, 1250⟩])]
    host.Permitted ∧
      ∃ report, m.Ends b host report ∧ report.exit = .wakeSignalled ∧ report.delays = 2 ∧
        report.monitor.converter.reads = 3 ∧ report.monitor.wakes = 1 := by
  intro m b host
  have hhost : host.Permitted := by
    intro delay write hwrite
    simp only [host, Schedule.ofEntries, List.mem_flatMap, List.mem_singleton] at hwrite
    obtain ⟨entry, rfl, hwrite⟩ := hwrite
    split at hwrite
    · rw [List.mem_singleton.mp hwrite]
      rfl
    · exact absurd hwrite List.not_mem_nil
  have halarm : m.AlarmAt b host 2 := by decide
  have hfirst : ∀ earlier < 2, ¬ m.AlarmAt b host earlier := by decide
  obtain ⟨report, hends, hexit, hdelays, hconverter, hwakes⟩ :=
    (wakeSignalled_iff_alarm m b host hhost).2 2 halarm hfirst
  refine ⟨hhost, report, hends, hexit, hdelays, ?_, hwakes⟩
  rw [hconverter]
  rfl

end GasWatch
