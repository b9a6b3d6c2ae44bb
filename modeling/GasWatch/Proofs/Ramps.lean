import GasWatch.Proofs.Cycles
import GasWatch.Proofs.SteadyLimits
import Mathlib.Order.Bounds.Defs

/-!
# Runs over a ramp

The readings of a ramp climb by a fixed step until they are held at the greatest word, and
`ScriptedConverter.rampReading` gives each of them in closed form.  They never fall, so there is an
index from which on all of them reach a threshold (`reaches_iff_le`), or none does.  From that index
on the row of a run grows with every sample (`rowAfter_sightings_of_rising`), which tells at which
samples it is long enough (`confirmsAt_ramp_iff`), as far as the ramp goes.  A ramp that goes far
enough is one that `CompletesRow`.

`ramp_wakes_iff` says what the run comes to.  The host may do as it likes when the ramp is used up,
since a run that wakes the host has done so before (`Ends.of_agree_on_script`).
-/

namespace GasWatch

/-! ## Readings -/

namespace ScriptedConverter

/-- The reading of a ramp at an index, had the ramp no end. -/
def rampReading (start step : UInt32) (index : Nat) : UInt32 :=
  saturate (start.toNat + index * step.toNat)

theorem toNat_rampReading (start step : UInt32) (index : Nat) :
    (rampReading start step index).toNat = min (start.toNat + index * step.toNat) 0xffffffff :=
  toNat_saturate _

theorem rampReading_zero (start step : UInt32) : rampReading start step 0 = start := by
  rw [rampReading, Nat.zero_mul, Nat.add_zero, saturate_toNat]

/-- One step into a ramp there is the ramp from the next reading on. -/
theorem rampReading_succ (start step : UInt32) (index : Nat) :
    rampReading start step (index + 1) = rampReading (saturatingAdd start step) step index := by
  apply UInt32.toNat_inj.mp
  rw [toNat_rampReading, toNat_rampReading, toNat_saturatingAdd, Nat.succ_mul]
  omega

/-- The readings of a ramp never fall. -/
theorem rampReading_le {start step : UInt32} {index later : Nat} (hle : index ≤ later) :
    rampReading start step index ≤ rampReading start step later := by
  have hsteps := Nat.mul_le_mul_right step.toNat hle
  rw [UInt32.le_iff_toNat_le, toNat_rampReading, toNat_rampReading]
  omega

theorem getElem?_rampReadings (start step : UInt32) (length index : Nat) :
    (rampReadings start step length)[index]? =
      if index < length then some (rampReading start step index) else none := by
  induction length generalizing start index with
  | zero => rfl
  | succ length ih =>
    cases index with
    | zero => rw [rampReadings, List.getElem?_cons_zero, rampReading_zero, if_pos length.succ_pos]
    | succ index =>
      rw [rampReadings, List.getElem?_cons_succ, ih, rampReading_succ]
      simp only [Nat.add_lt_add_iff_right]

/-- The indices at which a ramp without an end reaches a threshold. -/
def reachingIndices (start step threshold : UInt32) : Set Nat :=
  {index | threshold.toNat ≤ min (start.toNat + index * step.toNat) 0xffffffff}

theorem mem_reachingIndices {start step threshold : UInt32} {index : Nat} :
    index ∈ reachingIndices start step threshold ↔ threshold ≤ rampReading start step index := by
  rw [UInt32.le_iff_toNat_le, toNat_rampReading]
  rfl

/-- From the first index on at which it reaches the threshold, the ramp stays there. -/
theorem reaches_iff_le {start step threshold : UInt32} {first : Nat}
    (hfirst : IsLeast (reachingIndices start step threshold) first) (index : Nat) :
    threshold ≤ rampReading start step index ↔ first ≤ index := by
  rw [← mem_reachingIndices]
  constructor
  · intro hmem
    exact hfirst.2 hmem
  · intro hle
    exact mem_reachingIndices.mpr
      (UInt32.le_trans (mem_reachingIndices.mp hfirst.1) (rampReading_le hle))

/-- A ramp completes a row of `needed` readings, the first of which is that at the index `first`:
this is where it reaches the threshold, and it goes on for so long. -/
structure CompletesRow (start step threshold : UInt32) (length needed first : Nat) : Prop where
  reaching : IsLeast (reachingIndices start step threshold) first
  fits : first + needed ≤ length

end ScriptedConverter

/-! ## The end of a script -/

section Agree

variable {m : Monitor ScriptedConverter} {b : Block} {host guest : Schedule}
  {report : Report ScriptedConverter}

/-- The conversion that wakes the host is an entry of the script. -/
theorem Monitor.Ends.delays_lt_of_wakeSignalled (hends : m.Ends b host report)
    (hexit : report.exit = .wakeSignalled) : report.delays < m.converter.remaining.length := by
  obtain ⟨turns, hended, rfl⟩ := hends
  obtain ⟨last, hlast, hconfirmed, hdelays, -⟩ :=
    Run.exists_waking_turn rfl (Run.exit_of_report hexit)
  obtain ⟨made, h⟩ := m.exists_tallied b host last
  obtain ⟨hmade, -⟩ := h.made_eq (by simp [hlast])
  rw [Run.observation_of_converter h.converter, Block.isConfirmed_observe_iff] at hconfirmed
  obtain ⟨reading, hreading, -⟩ := hconfirmed
  show ((m.start b).after host turns).delays < _
  rw [hdelays, ← hmade]
  by_contra hge
  rw [ScriptedConverter.outcome_eq, List.getElem?_eq_none (Nat.le_of_not_lt hge)] at hreading
  cases hreading

/-- A run that wakes the host does so before its script is used up, so that it does not matter what
the host does from then on. -/
theorem Monitor.Ends.of_agree_on_script (hends : m.Ends b host report)
    (hexit : report.exit = .wakeSignalled)
    (hagree : ∀ delay, 0 < delay → delay < m.converter.remaining.length →
      host delay = guest delay) : m.Ends b guest report := by
  have hlast := hends.delays_lt_of_wakeSignalled hexit
  exact hends.congr fun delay hpos hle => hagree delay hpos (by omega)

end Agree

/-! ## Rows -/

/-- While every sample succeeds, and those from the sample `first` on reach the threshold but none
before it, a row that begins with nothing grows by one with each sample from that one on. -/
theorem rowAfter_sightings_of_rising {σ : Type} [Converter σ] {m : Monitor σ} {b : Block}
    {host : Schedule} {first count : Nat}
    (hrising : ∀ i < count, ∃ s, m.sighting? b host i = some s ∧ (s.Reaches ↔ first ≤ i)) :
    rowAfter 0 (m.sightings b host count) = count - first := by
  induction count with
  | zero => exact (Nat.zero_sub first).symm
  | succ count ih =>
    have hbefore := ih fun i hlt => hrising i (Nat.lt_succ_of_lt hlt)
    obtain ⟨s, hs, hreaches⟩ := hrising count (Nat.lt_succ_self count)
    rw [Monitor.sightings_succ, hs, Option.toList_some, rowAfter_append_singleton, hbefore]
    by_cases hle : first ≤ count
    · rw [if_pos (hreaches.mpr hle)]
      omega
    · rw [if_neg (mt hreaches.mp hle)]
      omega

section Ramp

open ScriptedConverter

variable {m : Monitor ScriptedConverter} {start step threshold confirmCount : UInt32}
  {length first index : Nat}

/-- What a sample over a ramp sees. -/
theorem sighting?_of_ramp (hramp : m.converter = .ramp start step length) (index : Nat) :
    m.sighting? (.withLimits threshold confirmCount) .quiet index =
      if index < length then some { reading := rampReading start step index, threshold }
      else none := by
  unfold Monitor.sighting?
  rw [outcome_eq, hramp, ramp, List.getElem?_map, getElem?_rampReadings,
    Schedule.inForce_quiet]
  by_cases hindex : index < length
  · rw [if_pos hindex, if_pos hindex]
    rfl
  · rw [if_neg hindex, if_neg hindex]
    rfl

/-- The row of a run over a ramp. -/
theorem rowAfter_sightings_of_ramp (hramp : m.converter = .ramp start step length)
    (hfirst : IsLeast (reachingIndices start step threshold) first) {count : Nat}
    (hcount : count ≤ length) :
    rowAfter 0 (m.sightings (.withLimits threshold confirmCount) .quiet count) = count - first := by
  apply rowAfter_sightings_of_rising
  intro i hlt
  refine ⟨{ reading := rampReading start step i, threshold }, ?_, reaches_iff_le hfirst i⟩
  rw [sighting?_of_ramp hramp, if_pos (by omega)]

/-- A ramp that reaches the threshold completes a row as many samples later as are needed, and goes
on to do so up to its end. -/
theorem confirmsAt_ramp_iff (hramp : m.converter = .ramp start step length)
    (hfirst : IsLeast (reachingIndices start step threshold) first) :
    m.ConfirmsAt (.withLimits threshold confirmCount) .quiet index ↔
      index < length ∧ first + max 1 confirmCount.toNat ≤ index + 1 := by
  have hnothing : (Block.withLimits threshold confirmCount).aboveCount.toNat = 0 := rfl
  have hcount : (Block.withLimits threshold confirmCount).confirmCount = confirmCount := rfl
  unfold Monitor.ConfirmsAt
  simp only [← le_rowAfter_iff]
  rw [Schedule.inForce_quiet, hnothing, hcount, sighting?_of_ramp hramp]
  by_cases hindex : index < length
  · rw [rowAfter_sightings_of_ramp hramp hfirst hindex, if_pos hindex]
    simp only [Option.isSome_some, true_and, hindex]
    omega
  · simp [hindex]

/-- A row over a ramp begins where the ramp reaches the threshold. -/
theorem exists_completesRow_of_confirmsAt (hramp : m.converter = .ramp start step length)
    (hconfirms : m.ConfirmsAt (.withLimits threshold confirmCount) .quiet index) :
    ∃ first, CompletesRow start step threshold length (max 1 confirmCount.toNat) first := by
  classical
  have hmem : index ∈ reachingIndices start step threshold := by
    obtain ⟨s, hs, hreaches⟩ := hconfirms.reaches
    rw [sighting?_of_ramp hramp] at hs
    split at hs
    · obtain rfl := Option.some.inj hs
      exact mem_reachingIndices.mpr hreaches
    · cases hs
  have hex : ∃ index, index ∈ reachingIndices start step threshold := ⟨index, hmem⟩
  have hfirst : IsLeast (reachingIndices start step threshold) (Nat.find hex) :=
    ⟨Nat.find_spec hex, fun _ hother => Nat.find_min' hex hother⟩
  obtain ⟨hindex, hneeded⟩ := (confirmsAt_ramp_iff hramp hfirst).mp hconfirms
  exact ⟨_, hfirst, by omega⟩

/-! ## Runs -/

/-- What a run over a ramp comes to that wakes the host with the reading that completes a row of
`needed`, the first of which is that at the index `first`. -/
structure WokenOnRamp (start step : UInt32) (first needed : Nat)
    (report : Report ScriptedConverter) : Prop where
  exit : report.exit = .wakeSignalled
  reads : report.monitor.converter.reads = first + needed
  delays : report.delays = first + needed - 1
  lastReading : report.block.lastReading.toNat =
    min (start.toNat + (first + needed - 1) * step.toNat) 0xffffffff
  aboveCount : report.block.aboveCount.toNat = needed
  cycleCount : report.block.cycleCount.toNat = (first + needed) % 2 ^ 32

/-- The first sample that completes a row over a ramp wakes the host. -/
theorem exists_report_of_ramp (hramp : m.converter = .ramp start step length)
    (hrow : CompletesRow start step threshold length (max 1 confirmCount.toNat) first) :
    ∃ report, m.Ends (.withLimits threshold confirmCount) .quiet report ∧
      report.exit = .wakeSignalled ∧ report.delays = first + max 1 confirmCount.toNat - 1 := by
  have halarm : m.AlarmAt (.withLimits threshold confirmCount) .quiet
      (first + max 1 confirmCount.toNat - 1) := by
    refine ⟨fun earlier _ => by rw [Schedule.inForce_quiet]; rfl, ?_⟩
    have hlength := hrow.fits
    rw [confirmsAt_ramp_iff hramp hrow.reaching]
    omega
  have hbefore : ∀ earlier < first + max 1 confirmCount.toNat - 1,
      ¬ m.AlarmAt (.withLimits threshold confirmCount) .quiet earlier := by
    intro earlier hlt hearlier
    have hcompletes := (confirmsAt_ramp_iff hramp hrow.reaching).mp hearlier.2
    omega
  obtain ⟨report, hends, hexit, hdelays, -⟩ :=
    exists_report_of_first_alarm Schedule.permitted_quiet halarm hbefore
  exact ⟨report, hends, hexit, hdelays⟩

/-- The words and counts that such a run leaves. -/
theorem wokenOnRamp_of_ends (hramp : m.converter = .ramp start step length)
    (hrow : CompletesRow start step threshold length (max 1 confirmCount.toNat) first)
    {report : Report ScriptedConverter}
    (hends : m.Ends (.withLimits threshold confirmCount) .quiet report)
    (hexit : report.exit = .wakeSignalled)
    (hdelays : report.delays = first + max 1 confirmCount.toNat - 1) :
    WokenOnRamp start step first (max 1 confirmCount.toNat) report := by
  obtain ⟨made, h⟩ := hends.exists_tallied
  obtain ⟨hmade, -⟩ := h.woken hexit
  have hwords := h.words Schedule.permitted_quiet
  have habove := hends.row_of_wakeSignalled Schedule.permitted_quiet hexit
  have hlength := hrow.fits
  have hcount : report.delays + 1 = first + max 1 confirmCount.toNat := by omega
  rw [hmade] at hwords
  refine ⟨hexit, ?_, hdelays, ?_, ?_, ?_⟩
  · rw [h.converter, meters_reads.reads_skip, hramp, hmade, hcount]
    exact Nat.zero_add _
  · rw [hwords.lastReading, Monitor.sightings_succ, sighting?_of_ramp hramp, if_pos (by omega),
      Option.toList_some, List.getLast?_concat, ← hdelays]
    exact toNat_rampReading start step report.delays
  · have hword := confirmCount.toNat_lt
    rw [habove, hcount]
    show min (rowAfter 0 _) _ = _
    rw [rowAfter_sightings_of_ramp hramp hrow.reaching hlength]
    omega
  · have hseen : (m.sightings (.withLimits threshold confirmCount) .quiet
        (report.delays + 1)).length = report.delays + 1 := by
      apply Monitor.length_sightings_of_isSome
      intro i hlt
      rw [sighting?_of_ramp hramp, if_pos (by omega)]
      rfl
    rw [hwords.cycleCount, hseen, hcount]
    show ((0 : UInt32) + .ofNat _).toNat = _
    rw [UInt32.zero_add, UInt32.toNat_ofNat']

/-- A ramp on which no row is completed does not end the run, even when it is used up. -/
theorem sampled_of_ramp (hramp : m.converter = .ramp start step length)
    (hnone : ¬ ∃ first,
      CompletesRow start step threshold length (max 1 confirmCount.toNat) first) (turns : Nat) :
    Sampled m (.withLimits threshold confirmCount) .quiet turns
      ((m.start (.withLimits threshold confirmCount)).after .quiet turns) := by
  apply sampled_after Schedule.permitted_quiet
  intro earlier _
  refine ⟨?_, fun hconfirms => hnone (exists_completesRow_of_confirmsAt hramp hconfirms)⟩
  rw [Schedule.inForce_quiet]
  rfl

end Ramp

/-- A run over a ramp from fresh words wakes the host exactly if the ramp reaches the threshold and
goes on for as many readings as are needed, and it does so with the last of these.  Otherwise it
never wakes the host, and as long as the host stays quiet it goes on to read.  What the host writes
when the ramp is used up does not matter. -/
theorem ramp_wakes_iff (m : Monitor ScriptedConverter) (start step : UInt32) (length : Nat)
    (hramp : m.converter = .ramp start step length) (threshold confirmCount : UInt32)
    (host : Schedule) (hquiet : ∀ delay, 0 < delay → delay < length → host delay = []) :
    let b := Block.withLimits threshold confirmCount
    let needed := max 1 confirmCount.toNat
    let completesRow := ScriptedConverter.CompletesRow start step threshold length needed
    ((∃ report, m.Ends b host report ∧ report.exit = .wakeSignalled) ↔
        ∃ first, completesRow first) ∧
      (∀ first, completesRow first →
        ∃ report, m.Ends b host report ∧ WokenOnRamp start step first needed report) ∧
      ((¬ ∃ first, completesRow first) → ∀ turns,
        ((m.start b).after host turns).exit ≠ some .wakeSignalled ∧
          ((∀ delay, 0 < delay → delay ≤ turns → host delay = []) →
            ((m.start b).after host turns).exit = none ∧
              ((m.start b).after host turns).monitor.converter.reads = turns)) := by
  intro b needed completesRow
  have hscript : m.converter.remaining.length = length := by
    rw [hramp, ScriptedConverter.ramp, List.length_map, ScriptedConverter.length_rampReadings]
  have hwakes : ∀ first, completesRow first →
      ∃ report, m.Ends b host report ∧ WokenOnRamp start step first needed report := by
    intro first hrow
    obtain ⟨report, hends, hexit, hdelays⟩ := exists_report_of_ramp hramp hrow
    refine ⟨report, ?_, wokenOnRamp_of_ends hramp hrow hends hexit hdelays⟩
    apply hends.of_agree_on_script hexit
    rw [hscript]
    exact fun delay hpos hlt => (hquiet delay hpos hlt).symm
  have hreaches : (∃ report, m.Ends b host report ∧ report.exit = .wakeSignalled) →
      ∃ first, completesRow first := by
    intro hreport
    obtain ⟨report, hends, hexit⟩ := hreport
    have hends : m.Ends b .quiet report := by
      apply hends.of_agree_on_script hexit
      rw [hscript]
      exact hquiet
    have halarm := (hends.alarmAt_delays Schedule.permitted_quiet hexit).1
    exact exists_completesRow_of_confirmsAt hramp halarm.2
  refine ⟨⟨hreaches, ?_⟩, hwakes, fun hnone turns => ⟨fun hexit => ?_, fun hsilent => ?_⟩⟩
  · intro hrow
    obtain ⟨first, hrow⟩ := hrow
    obtain ⟨report, hends, hwoken⟩ := hwakes first hrow
    exact ⟨report, hends, hwoken.exit⟩
  · have hended : ((m.start b).after host turns).exit.isSome := Option.isSome_of_eq_some hexit
    exact hnone (hreaches ⟨_, ⟨turns, hended, rfl⟩, Run.exit_report hexit hended⟩)
  · have hafter : (m.start b).after host turns = (m.start b).after .quiet turns :=
      Run.after_congr fun delay hpos hle => hsilent delay hpos (by simpa [Monitor.start] using hle)
    have h := sampled_of_ramp hramp hnone turns
    rw [hafter]
    refine ⟨h.ongoing, ?_⟩
    rw [h.converter, ScriptedConverter.meters_reads.reads_skip, hramp]
    exact Nat.zero_add turns

/-- A ramp that is held at the greatest word, which is the threshold, from its third reading on.
With five readings it wakes the host, so that the lower threshold for the delay after them comes
too late.  With four readings it does not, for a failed conversion is at no threshold. -/
theorem ramp_wakes_with_last_reading :
    let m : Nat → Monitor ScriptedConverter := fun length =>
      { converter := .ramp 0xfffffff0 11 length, intervalMs := 200 }
    let b := Block.withLimits 0xffffffff 3
    let host : Schedule := .ofEntries [(5, [⟨.threshold, 0⟩])]
    (∀ delay, 0 < delay → delay < 5 → host delay = []) ∧
      (∃ report, (m 5).Ends b host report ∧ report.exit = .wakeSignalled ∧
        report.monitor.converter.reads = 5 ∧ report.delays = 4 ∧
        report.block.lastReading.toNat = 0xffffffff ∧ report.block.aboveCount.toNat = 3 ∧
        report.block.cycleCount.toNat = 5) ∧
      ∀ turns, (((m 4).start b).after host turns).exit ≠ some .wakeSignalled := by
  intro m b host
  have hquiet : ∀ delay, 0 < delay → delay < 5 → host delay = [] := by
    intro delay _ hlt
    have hne : 5 ≠ delay := by omega
    simp [host, Schedule.ofEntries, hne]
  have hleast : IsLeast (ScriptedConverter.reachingIndices 0xfffffff0 11 0xffffffff) 2 := by
    refine ⟨ScriptedConverter.mem_reachingIndices.mpr (by decide), fun index hindex => ?_⟩
    change 0xffffffff ≤ min (0xfffffff0 + index * 11) 0xffffffff at hindex
    omega
  refine ⟨hquiet, ?_, fun turns => ?_⟩
  · obtain ⟨report, hends, h⟩ := (ramp_wakes_iff (m 5) 0xfffffff0 11 5 rfl 0xffffffff 3 host
      hquiet).2.1 2 ⟨hleast, by decide⟩
    exact ⟨report, hends, h.exit, h.reads, h.delays, h.lastReading, h.aboveCount, h.cycleCount⟩
  · refine ((ramp_wakes_iff (m 4) 0xfffffff0 11 4 rfl 0xffffffff 3 host fun delay hpos hlt =>
      hquiet delay hpos (by omega)).2.2 ?_ turns).1
    intro hrow
    obtain ⟨first, hfirst, hfits⟩ := hrow
    change first + 3 ≤ 4 at hfits
    have htwo := hleast.2 hfirst.1
    omega

end GasWatch
