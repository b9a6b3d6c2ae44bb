import GasWatch.Proofs.WakeCondition
import Mathlib.Data.List.Forall2
import Mathlib.Tactic.IntervalCases

/-!
# More danger, no later alarm

Two runs with different monitors, blocks and hosts are compared sample by sample.  `NoSaferAt` says
that the second run is in at least as much danger at a sample: its conversion fails or reads no
less, as that of the first does, and its limits are no higher.  Then a reading that reaches the
threshold in the first run reaches it in the second, and so the row above the threshold is at least
as long there (`rowAfter_mono`), wherever the two rows began and ended.  An alarm of the first run
is therefore an alarm of the second, which may have had one before.

The two above counts do not appear here.  `le_rowAfter_iff` has settled what they have to do with
rows, and a count held at the greatest word is among that.
-/

namespace GasWatch

/-- Both conversions fail, or both read and the second reads at least as much. -/
def Conversion.AtMost : Conversion → Conversion → Prop
  | .reading low, .reading high => low ≤ high
  | .failed _, .failed _ => True
  | .reading _, .failed _ | .failed _, .reading _ => False

instance : ∀ c d : Conversion, Decidable (c.AtMost d)
  | .reading low, .reading high => inferInstanceAs (Decidable (low ≤ high))
  | .failed _, .failed _ => inferInstanceAs (Decidable True)
  | .reading _, .failed _ | .failed _, .reading _ => inferInstanceAs (Decidable False)

/-! ## Rows that grow with the readings -/

theorem rowAfter_mono {seen seen' : List Sighting}
    (hseen : List.Forall₂ (fun s t => s.Reaches → t.Reaches) seen seen') {start start' : Nat}
    (hstart : start ≤ start') : rowAfter start seen ≤ rowAfter start' seen' := by
  -- The row before the head is only a start, so both starts have to be free.
  induction hseen generalizing start start' with
  | nil => exact hstart
  | @cons s t seen seen' hreaches _ ih =>
    apply ih
    show (if s.Reaches then start + 1 else 0) ≤ if t.Reaches then start' + 1 else 0
    by_cases hs : s.Reaches
    · rw [if_pos hs, if_pos (hreaches hs)]
      omega
    · rw [if_neg hs]
      omega

/-! ## Two runs -/

section TwoRuns

variable {σ τ : Type} [Converter σ] [Converter τ]

/-- At a sample the second run has the same request to halt as the first, and is in at least as
much danger. -/
structure NoSaferAt (m : Monitor σ) (b : Block) (host : Schedule) (n : Monitor τ) (c : Block)
    (guest : Schedule) (index : Nat) : Prop where
  stopRequested : (host.inForce b index).stopRequested = (guest.inForce c index).stopRequested
  conversion : (Converter.outcome m.converter index).AtMost (Converter.outcome n.converter index)
  threshold : (guest.inForce c index).threshold ≤ (host.inForce b index).threshold
  confirmCount : (guest.inForce c index).confirmCount ≤ (host.inForce b index).confirmCount

variable {m : Monitor σ} {b : Block} {host : Schedule} {n : Monitor τ} {c : Block}
  {guest : Schedule} {index : Nat}

theorem NoSaferAt.sighting? (h : NoSaferAt m b host n c guest index) :
    List.Forall₂ (fun s t => s.Reaches → t.Reaches)
      (m.sighting? b host index).toList (n.sighting? c guest index).toList := by
  have hconversion := h.conversion
  unfold Monitor.sighting?
  cases hm : Converter.outcome m.converter index with
  | failed fault =>
    cases hn : Converter.outcome n.converter index with
    | failed other => exact .nil
    | reading high => simp [hm, hn, Conversion.AtMost] at hconversion
  | reading low =>
    cases hn : Converter.outcome n.converter index with
    | failed other => simp [hm, hn, Conversion.AtMost] at hconversion
    | reading high =>
      refine .cons (fun hreaches => ?_) .nil
      rw [hm, hn] at hconversion
      exact UInt32.le_trans h.threshold (UInt32.le_trans hreaches hconversion)

theorem forall₂_sightings {count : Nat}
    (hdanger : ∀ index < count, NoSaferAt m b host n c guest index) :
    List.Forall₂ (fun s t => s.Reaches → t.Reaches)
      (m.sightings b host count) (n.sightings c guest count) := by
  induction count with
  | zero => exact .nil
  | succ count ih =>
    rw [Monitor.sightings_succ, Monitor.sightings_succ]
    have hlast := hdanger count (by omega)
    exact List.rel_append (ih fun index hlt => hdanger index (by omega)) hlast.sighting?

theorem NoSaferAt.isSome_sighting? (h : NoSaferAt m b host n c guest index)
    (hsome : (m.sighting? b host index).isSome) : (n.sighting? c guest index).isSome := by
  have hlength := h.sighting?.length_eq
  cases hm : m.sighting? b host index with
  | none => simp [hm] at hsome
  | some s =>
    cases hn : n.sighting? c guest index with
    | none => simp [hm, hn] at hlength
    | some t => rfl

/-- A sample that completes a row in the first run does so in the second. -/
theorem confirmsAt_of_noSafer (hcount : b.aboveCount ≤ c.aboveCount)
    (hdanger : ∀ earlier ≤ index, NoSaferAt m b host n c guest earlier)
    (hconfirms : m.ConfirmsAt b host index) : n.ConfirmsAt c guest index := by
  unfold Monitor.ConfirmsAt at hconfirms ⊢
  simp only [← le_rowAfter_iff] at hconfirms ⊢
  have hlast := hdanger index (Nat.le_refl index)
  have hseen : List.Forall₂ (fun s t => s.Reaches → t.Reaches)
      (m.sightings b host (index + 1)) (n.sightings c guest (index + 1)) :=
    forall₂_sightings fun earlier hlt => hdanger earlier (by omega)
  have hrow := rowAfter_mono hseen (UInt32.le_iff_toNat_le.mp hcount)
  have hconfirmCount := UInt32.le_iff_toNat_le.mp hlast.confirmCount
  exact ⟨hlast.isSome_sighting? hconfirms.1, by omega⟩

theorem alarmAt_of_noSafer (hcount : b.aboveCount ≤ c.aboveCount)
    (hdanger : ∀ earlier ≤ index, NoSaferAt m b host n c guest earlier)
    (halarm : m.AlarmAt b host index) : n.AlarmAt c guest index := by
  refine ⟨fun earlier hle => ?_, confirmsAt_of_noSafer hcount hdanger halarm.2⟩
  rw [← (hdanger earlier hle).stopRequested]
  exact halarm.1 earlier hle

/-- A run that is in no less danger than another one up to the sample at which that one wakes the
host wakes the host as well, and at no later sample.  Samples are told by the conversions made: a
run that wakes the host has made one more of them than delays. -/
theorem wakes_no_later (hhost : host.Permitted) (hguest : guest.Permitted) (report : Report σ)
    (hends : m.Ends b host report) (hexit : report.exit = .wakeSignalled)
    (hcount : b.aboveCount ≤ c.aboveCount)
    (hdanger : ∀ index ≤ report.delays, NoSaferAt m b host n c guest index) :
    report.monitor.converter = Converter.skip m.converter (report.delays + 1) ∧
      ∃ other, n.Ends c guest other ∧ other.exit = .wakeSignalled ∧
        other.delays ≤ report.delays ∧
        other.monitor.converter = Converter.skip n.converter (other.delays + 1) := by
  obtain ⟨halarm, hconverter⟩ := hends.alarmAt_delays hhost hexit
  exact ⟨hconverter, exists_report_of_alarm hguest (alarmAt_of_noSafer hcount hdanger halarm)⟩

/-- Of two runs that meet the same failure the second reads a little more and is given a lower
threshold after its first delay, so that its row goes on where that of the first is broken off. -/
theorem wakes_no_later_after_retuning :
    let m : Monitor ScriptedConverter :=
      { converter := { remaining := [some 1200, none, some 900, some 1100, some 1300] }
        intervalMs := 200 }
    let n : Monitor ScriptedConverter :=
      { converter := { remaining := [some 1200, none, some 950, some 1100, some 1300] }
        intervalMs := 500 }
    let host : Schedule := Schedule.quiet.stoppingFrom 9
    let guest : Schedule := (Schedule.ofEntries [(1, [⟨.threshold, 940⟩])]).stoppingFrom 9
    let b := Block.withLimits 1000 2
    let report := m.run b .quiet 9
    (host.Permitted ∧ guest.Permitted ∧ m.Ends b host report ∧ report.exit = .wakeSignalled ∧
        report.delays = 4 ∧ ∀ index ≤ 4, NoSaferAt m b host n b guest index) ∧
      ∃ other, n.Ends b guest other ∧ other.exit = .wakeSignalled ∧ other.delays ≤ 4 := by
  intro m n host guest b report
  have hhost : host.Permitted := Schedule.permitted_quiet.stoppingFrom 9
  have hguest : guest.Permitted :=
    Schedule.Permitted.stoppingFrom (Schedule.forall_mem_ofEntries (by decide)) 9
  have hends : m.Ends b host report := m.run_ends b .quiet 9
  have hexit : report.exit = .wakeSignalled := by decide
  have hdelays : report.delays = 4 := by decide
  have hdanger : ∀ index ≤ 4, NoSaferAt m b host n b guest index := by
    intro index hindex
    interval_cases index <;> constructor <;> decide
  obtain ⟨-, other, hother, hwake, hle, -⟩ :=
    wakes_no_later hhost hguest report hends hexit (UInt32.le_refl _) (by rwa [hdelays])
  rw [hdelays] at hle
  exact ⟨⟨hhost, hguest, hends, hexit, hdelays, hdanger⟩, other, hother, hwake, hle⟩

end TwoRuns

end GasWatch
