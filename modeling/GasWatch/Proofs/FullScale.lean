import GasWatch.Proofs.Arming
import GasWatch.Proofs.StandIn
import GasWatch.Proofs.SteadyLimits

/-!
# Full scale always raises the alarm

A sensor that is saturated gives raw conversions at the end of the scale or beyond it.  The unit
holds them to full scale, and no armed threshold lies above that, whatever the line of the sensor
and the concentration are: `Calibration.rawOf_le_fullScale` covers every way the arithmetic can go,
also beyond the range of its numbers.  So every such conversion reaches the threshold, and as many
of them as the configuration asks for raise the alarm (`saturated_sensor_wakes`).
-/

namespace GasWatch

namespace RawConversion

/-- Whether the conversion gives a count. -/
def succeeds : RawConversion → Bool
  | value _ => true
  | failure _ => false

/-- The conversions end with a count, they have at least so many counts, and every count among them
is at full scale or beyond it.  Between the counts there are failures only. -/
structure Saturates (conversions : List RawConversion) (count : Nat) : Prop where
  counts : count ≤ conversions.countP succeeds
  saturated : ∀ raw, value raw ∈ conversions → 4095 ≤ raw.toInt
  last : ∃ raw, conversions.getLast? = some (value raw)

end RawConversion

namespace UnitConverter

/-- A count at full scale or beyond it is read as full scale. -/
theorem clampRaw_of_saturated {raw : Int32} (hraw : 4095 ≤ raw.toInt) :
    clampRaw raw = Board.fullScale := by
  have hscale : Board.fullScale.toNat = 4095 := rfl
  apply UInt32.le_antisymm (clampRaw_le raw)
  rw [UInt32.le_iff_toNat_le, toNat_clampRaw]
  omega

/-- The samples of a run over a unit see as many readings as conversions succeed. -/
theorem length_sightings (m : Monitor UnitConverter) (b : Block) (host : Schedule)
    (count : Nat) :
    (m.sightings b host count).length =
      (m.converter.hardware.conversions.take count).countP RawConversion.succeeds := by
  refine Monitor.length_sightings_of_entries (fun index => ?_) count
  rw [Monitor.sighting?, outcome_eq]
  cases m.converter.hardware.conversions[index]? with
  | none => rfl
  | some conversion => cases conversion <;> rfl

/-- A sample of a unit sees the count of the conversion that is queued for it. -/
theorem sighting?_of_value {m : Monitor UnitConverter} {index : Nat} {raw : Int32}
    (hqueued : m.converter.hardware.conversions[index]? = some (.value raw)) (b : Block)
    (host : Schedule) :
    m.sighting? b host index =
      some { reading := clampRaw raw, threshold := (host.inForce b index).threshold } := by
  have houtcome := outcome_eq m.converter index
  rw [hqueued] at houtcome
  rw [Monitor.sighting?, houtcome]
  rfl

/-- It sees nothing of a conversion that fails. -/
theorem sighting?_of_failure {m : Monitor UnitConverter} {index : Nat} {code : Int32}
    (hqueued : m.converter.hardware.conversions[index]? = some (.failure code)) (b : Block)
    (host : Schedule) : m.sighting? b host index = none := by
  have houtcome := outcome_eq m.converter index
  rw [hqueued] at houtcome
  rw [Monitor.sighting?, houtcome]
  rfl

end UnitConverter

/-! ## The alarm -/

section Alarm

variable {m : Monitor UnitConverter} {b : Block} {host : Schedule}
  {before row after : List RawConversion}

/-- The conversions of a row that lies within those of a unit. -/
theorem getElem?_of_within
    (hconversions : m.converter.hardware.conversions = before ++ row ++ after) {i : Nat}
    (hi : i < row.length) :
    m.converter.hardware.conversions[before.length + i]? = row[i]? := by
  rw [hconversions, List.append_assoc, List.getElem?_append_right (by omega),
    Nat.add_sub_cancel_left, List.getElem?_append_left hi]

/-- Whatever a sample sees of a saturated sensor reaches a threshold on the scale. -/
theorem reaches_of_saturates {count i : Nat}
    (hconversions : m.converter.hardware.conversions = before ++ row ++ after)
    (hrow : RawConversion.Saturates row count)
    (hthreshold : (host.inForce b (before.length + i)).threshold ≤ Board.fullScale)
    (hi : i < row.length) (s : Sighting) (hs : m.sighting? b host (before.length + i) = some s) :
    s.Reaches := by
  have hqueued := getElem?_of_within hconversions hi
  cases hconversion : row[i]? with
  | none => exact absurd (List.getElem?_eq_none_iff.mp hconversion) (by omega)
  | some conversion =>
    rw [hconversion] at hqueued
    cases conversion with
    | failure code =>
      rw [UnitConverter.sighting?_of_failure hqueued] at hs
      cases hs
    | value raw =>
      rw [UnitConverter.sighting?_of_value hqueued] at hs
      obtain rfl := Option.some.inj hs
      show (host.inForce b (before.length + i)).threshold ≤ UnitConverter.clampRaw raw
      rw [UnitConverter.clampRaw_of_saturated
        (hrow.saturated raw (List.mem_of_getElem? hconversion))]
      exact hthreshold

/-- A saturated sensor completes a row at the last of its counts, if the threshold lies on the scale
for as long as it is saturated and the confirm count then in force is not more than the counts. -/
theorem confirmsAt_of_saturates {count : Nat}
    (hconversions : m.converter.hardware.conversions = before ++ row ++ after)
    (hrow : RawConversion.Saturates row count)
    (hthreshold : ∀ i < row.length,
      (host.inForce b (before.length + i)).threshold ≤ Board.fullScale)
    (hcount : (host.inForce b (before.length + (row.length - 1))).confirmCount.toNat ≤ count) :
    m.ConfirmsAt b host (before.length + (row.length - 1)) := by
  obtain ⟨last, hlast⟩ := hrow.last
  have hmem : RawConversion.value last ∈ row := List.mem_of_getLast? hlast
  have hlength : 0 < row.length := List.length_pos_of_mem hmem
  apply confirmsAt_of_stretch
  · have hqueued := getElem?_of_within hconversions (by omega : row.length - 1 < row.length)
    rw [← List.getLast?_eq_getElem?, hlast] at hqueued
    rw [UnitConverter.sighting?_of_value hqueued]
    rfl
  · intro i hi
    exact reaches_of_saturates hconversions hrow (hthreshold i (by omega)) (by omega)
  · have hcounts := hrow.counts
    have hsome : 0 < row.countP RawConversion.succeeds :=
      List.countP_pos_iff.mpr ⟨.value last, hmem, rfl⟩
    have htotal : before.length + (row.length - 1) + 1 = (before ++ row).length := by
      rw [List.length_append]
      omega
    rw [UnitConverter.length_sightings, UnitConverter.length_sightings, hconversions, htotal,
      List.take_left, List.append_assoc, List.take_left, List.countP_append]
    omega

end Alarm

/-- When the sensor is saturated for as many conversions as an armed configuration asks for, with
nothing but failures in between, and the host has not stopped the run by then, the run wakes the
host at the last of them or earlier.  The concentration, the line and what the words held before the
arming do not matter. -/
theorem saturated_sensor_wakes {κ : Type} (manager : Manager κ) (b : Block) (c : Config)
    (harmed : (manager.arm b c).result = .ok ()) (m : Monitor UnitConverter)
    (before row after : List RawConversion)
    (hconversions : m.converter.hardware.conversions = before ++ row ++ after)
    (hrow : RawConversion.Saturates row c.confirmCount.toNat)
    (host : Schedule) (hhost : host.OnlyStops)
    (hgoes : ∀ delay, 0 < delay → delay < before.length + row.length → host delay = []) :
    ∃ report, m.Ends (manager.arm b c).block host report ∧ report.exit = .wakeSignalled ∧
      report.delays < before.length + row.length ∧
      report.monitor.converter = Converter.skip m.converter (report.delays + 1) := by
  rw [Manager.block_arm_of_ok harmed]
  have hlength : 0 < row.length := by
    obtain ⟨last, hlast⟩ := hrow.last
    exact List.length_pos_of_mem (List.mem_of_getLast? hlast)
  have hlimits := hhost.limits_inForce (Manager.armedBlock c b)
  have hconfirms :
      m.ConfirmsAt (Manager.armedBlock c b) host (before.length + (row.length - 1)) := by
    apply confirmsAt_of_saturates hconversions hrow
    · intro i _
      rw [(hlimits (before.length + i)).1]
      exact Calibration.rawOf_le_fullScale c.calibration c.thresholdPpm
    · rw [(hlimits _).2]
      exact Nat.le_refl c.confirmCount.toNat
  -- The arming has lowered the flag, and nothing is done to the words up to the last count.
  have halarm : m.AlarmAt (Manager.armedBlock c b) host (before.length + (row.length - 1)) := by
    refine ⟨fun earlier hle => ?_, hconfirms⟩
    rw [Schedule.inForce_of_forall_nil fun delay hpos hdelay => hgoes delay hpos (by omega)]
    rfl
  obtain ⟨report, hends, hexit, hdelays, hconverter⟩ :=
    exists_report_of_alarm hhost.permitted halarm
  exact ⟨report, hends, hexit, by omega, hconverter⟩

/-- The sensor is beyond its line: the threshold is full scale, one count below it breaks the row,
and the three counts that complete it have a failure between them. -/
theorem saturated_sensor_wakes_at_fullScale :
    let c : Config := { Config.standard with thresholdPpm := 1000, confirmCount := 3 }
    let manager : Manager SimulatedCoprocessor := { control := {}, config := .standard }
    let b : Block := { Block.fresh with aboveCount := 9, stopFlag := 1 }
    let before : List RawConversion := [.value 4095, .value (-5), .value 4094]
    let row : List RawConversion := [.value 4095, .failure 263, .value 0x7fffffff, .value 5000]
    let m : Monitor UnitConverter :=
      { converter := .granted { conversions := before ++ row ++ [.value 0] }, intervalMs := 200 }
    let host : Schedule := Schedule.quiet.stoppingFrom 7
    c.threshold = Board.fullScale ∧ (manager.arm b c).result = .ok () ∧
      RawConversion.Saturates row c.confirmCount.toNat ∧ host.OnlyStops ∧
      (∀ delay, 0 < delay → delay < before.length + row.length → host delay = []) ∧
      ∃ report, m.Ends (manager.arm b c).block host report ∧ report.exit = .wakeSignalled ∧
        report.delays < before.length + row.length ∧
        report.monitor.converter = Converter.skip m.converter (report.delays + 1) := by
  intro c manager b before row m host
  have hvalid : c.validate = .ok () := by decide +kernel
  have harmed : (manager.arm b c).result = .ok () := by
    rw [Manager.arm_of_valid manager b (Config.validate_eq_ok_iff.mp hvalid)]
  have hrow : RawConversion.Saturates row c.confirmCount.toNat :=
    { counts := by decide
      saturated := by
        intro raw hmem
        simp only [row, List.mem_cons, RawConversion.value.injEq, reduceCtorEq,
          List.not_mem_nil, false_or, or_false] at hmem
        rcases hmem with rfl | rfl | rfl <;> decide
      last := ⟨5000, rfl⟩ }
  have hhost : host.OnlyStops := Schedule.onlyStops_stoppingFrom 7
  have hgoes (delay : Nat) (_ : 0 < delay) (hdelay : delay < before.length + row.length) :
      host delay = [] :=
    if_neg (Nat.not_le.mpr hdelay)
  exact ⟨by decide +kernel, harmed, hrow, hhost, hgoes,
    saturated_sensor_wakes manager b c harmed m before row [.value 0] rfl hrow host hhost hgoes⟩

end GasWatch
