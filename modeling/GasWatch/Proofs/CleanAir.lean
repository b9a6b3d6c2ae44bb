import GasWatch.Proofs.AlarmLine
import GasWatch.Proofs.Arming
import GasWatch.Proofs.Cycles
import GasWatch.Proofs.SteadyLimits

/-!
# Clean air and the alarm

Readings up to the zero point are clean air.  They wake the host under a configuration exactly if
the threshold it arms is the zero point itself, for a reading raises the alarm when it is *at* the
threshold.  The threshold is the count next to the line, so a positive concentration is armed at the
zero point as well if it is worth less than half a count: `clean_air_is_quiet_iff` says so, and
`clean_air_wakes_at_zero` is such a configuration.
-/

namespace GasWatch

/-- The entries of the script that are readings do not exceed the zero point. -/
def ScriptedConverter.CleanAir (s : ScriptedConverter) (c : Calibration) : Prop :=
  ∀ reading, some reading ∈ s.remaining → reading ≤ c.zero

/-- No run over clean air from these words on wakes the host, as long as the host does no more than
stop it. -/
def Block.QuietInCleanAir (b : Block) (c : Calibration) : Prop :=
  ∀ (m : Monitor ScriptedConverter) (host : Schedule), m.converter.CleanAir c → host.OnlyStops →
    ∀ turns, ((m.start b).after host turns).exit ≠ some .wakeSignalled

section Sightings

variable {m : Monitor ScriptedConverter} {b : Block} {host : Schedule} {index : Nat}

/-- What a sample over a script sees is an entry of the script. -/
theorem mem_remaining_of_sighting? {s : Sighting} (hs : m.sighting? b host index = some s) :
    some s.reading ∈ m.converter.remaining ∧ s.threshold = (host.inForce b index).threshold := by
  unfold Monitor.sighting? at hs
  rw [ScriptedConverter.outcome_eq] at hs
  cases hentry : m.converter.remaining[index]? with
  | none =>
    rw [hentry] at hs
    cases hs
  | some entry =>
    rw [hentry] at hs
    cases entry with
    | none => cases hs
    | some raw =>
      obtain rfl := Option.some.inj hs
      exact ⟨List.mem_of_getElem? hentry, rfl⟩

/-- Under steady limits a script wakes the host only if one of its readings is at the threshold. -/
theorem exists_reading_of_wakeSignalled (hhost : host.OnlyStops) {turns : Nat}
    (hexit : ((m.start b).after host turns).exit = some .wakeSignalled) :
    ∃ reading, some reading ∈ m.converter.remaining ∧ b.threshold ≤ reading := by
  obtain ⟨index, -, hconfirms⟩ := exists_alarm_of_wakeSignalled hhost.permitted hexit
  obtain ⟨s, hs, hreaches⟩ := hconfirms.reaches
  obtain ⟨hmem, hthreshold⟩ := mem_remaining_of_sighting? hs
  refine ⟨s.reading, hmem, ?_⟩
  rw [← (hhost.limits_inForce b index).1, ← hthreshold]
  exact hreaches

theorem sighting?_of_replicate {count : Nat} {reading : UInt32}
    (hscript : m.converter.remaining = List.replicate count (some reading)) (hindex : index < count) :
    m.sighting? b host index =
      some { reading, threshold := (host.inForce b index).threshold } := by
  have houtcome := ScriptedConverter.outcome_eq m.converter index
  rw [hscript, List.getElem?_replicate, if_pos hindex] at houtcome
  unfold Monitor.sighting?
  rw [houtcome]

/-- A reading at the threshold wakes the host when it comes as often in a row as asked for. -/
theorem exists_report_of_replicate {reading : UInt32} (hflag : b.stopRequested = false)
    (hconfirms : b.confirmCount ≠ 0) (hreading : b.threshold ≤ reading)
    (hscript : m.converter.remaining = List.replicate b.confirmCount.toNat (some reading)) :
    ∃ report, m.Ends b .quiet report ∧ report.exit = .wakeSignalled := by
  have hneeded : 0 < b.confirmCount.toNat := by
    by_contra hzero
    exact hconfirms (UInt32.toNat_inj.mp (Nat.eq_zero_of_not_pos hzero))
  have hseen (i : Nat) (hi : i < b.confirmCount.toNat) :
      m.sighting? b .quiet i = some { reading, threshold := b.threshold } := by
    rw [sighting?_of_replicate hscript hi, Schedule.inForce_quiet]
  have hrow : m.ConfirmsAt b .quiet (0 + (b.confirmCount.toNat - 1)) := by
    apply confirmsAt_of_stretch
    · rw [hseen _ (by omega)]
      rfl
    · intro i hi s hs
      rw [hseen _ (by omega)] at hs
      obtain rfl := Option.some.inj hs
      exact hreading
    · have hlength : (m.sightings b .quiet b.confirmCount.toNat).length = b.confirmCount.toNat :=
        Monitor.length_sightings_of_isSome fun i hi => by rw [hseen i hi]; rfl
      have hcount : 0 + (b.confirmCount.toNat - 1) + 1 = b.confirmCount.toNat := by omega
      rw [Schedule.inForce_quiet, hcount, hlength]
      show 0 + max 1 b.confirmCount.toNat ≤ b.confirmCount.toNat
      omega
  obtain ⟨report, hends, hexit, -⟩ := exists_report_of_alarm Schedule.permitted_quiet
    ⟨fun earlier _ => by rw [Schedule.inForce_quiet]; exact hflag, hrow⟩
  exact ⟨report, hends, hexit⟩

end Sightings

/-- An armed configuration is quiet in clean air exactly if its threshold lies above the zero
point. -/
theorem quietInCleanAir_armedBlock_iff {c : Config} (hvalid : c.Valid) (b : Block) :
    (Manager.armedBlock c b).QuietInCleanAir c.calibration ↔ c.calibration.zero < c.threshold := by
  constructor
  · intro hquiet
    by_contra hnot
    let m : Monitor ScriptedConverter :=
      { converter := { remaining := List.replicate c.confirmCount.toNat (some c.calibration.zero) }
        intervalMs := c.sampleIntervalMs }
    have hclean : m.converter.CleanAir c.calibration := by
      intro reading hmem
      obtain rfl := Option.some.inj (List.eq_of_mem_replicate hmem)
      exact UInt32.le_refl c.calibration.zero
    obtain ⟨report, ⟨turns, hended, rfl⟩, hexit⟩ :=
      exists_report_of_replicate (m := m) (b := Manager.armedBlock c b) rfl hvalid.confirms
        (UInt32.not_lt.mp hnot) rfl
    exact hquiet m .quiet hclean Schedule.onlyStops_quiet turns (Run.exit_of_report hexit)
  · intro hthreshold m host hclean hhost turns hexit
    obtain ⟨reading, hmem, hreaches⟩ := exists_reading_of_wakeSignalled hhost hexit
    have hlow := hclean reading hmem
    exact absurd (UInt32.lt_of_lt_of_le hthreshold hreaches) (UInt32.not_lt.mpr hlow)

/-- Whatever was in the words before, a configuration with a positive concentration is quiet in
clean air from its arming on exactly if its threshold lies above the zero point.  It does if the
concentration is worth half a count, and the little that the quotient can lose of it, and it does
not if it falls short of half a count by a little. -/
theorem clean_air_is_quiet_iff {κ : Type} (manager : Manager κ) (b : Block) (c : Config)
    (harmed : (manager.arm b c).result = .ok ()) (hppm : 0 < c.thresholdPpm) :
    ((manager.arm b c).block.QuietInCleanAir c.calibration ↔ c.calibration.zero < c.threshold) ∧
      (1 / 2 + 1 / 0x1000000 ≤ c.calibration.rise c.thresholdPpm →
        c.calibration.zero < c.threshold) ∧
      (c.calibration.rise c.thresholdPpm ≤ 1 / 2 - 1 / 0x800 →
        c.threshold = c.calibration.zero) := by
  have hvalid : c.Valid := Manager.arm_ok_iff_valid.mp harmed
  rw [Manager.block_arm_of_ok harmed]
  refine ⟨quietInCleanAir_armedBlock_iff hvalid b, fun hrise => ?_, fun hrise => ?_⟩
  · exact Calibration.zero_lt_rawOf hvalid.usable hvalid.within hvalid.finite hppm hrise
  · exact Calibration.rawOf_eq_zero hvalid.usable hvalid.within hvalid.finite hppm hrise

/-- A concentration worth 0.72 counts is armed one count above the zero point, and clean air is
quiet. -/
theorem clean_air_is_quiet_above_half_count :
    let c : Config := { Config.standard with thresholdPpm := .round false (1 / 50) }
    let manager : Manager SimulatedCoprocessor := { control := {}, config := .standard }
    let b : Block := { Block.fresh with aboveCount := 9, stopFlag := 1 }
    (manager.arm b c).result = .ok () ∧ 0 < c.thresholdPpm ∧ c.threshold = 201 ∧
      ((manager.arm b c).block.QuietInCleanAir c.calibration ↔ c.calibration.zero < c.threshold) ∧
      1 / 2 + 1 / 0x1000000 ≤ c.calibration.rise c.thresholdPpm ∧
      c.calibration.zero < c.threshold ∧ (manager.arm b c).block.QuietInCleanAir c.calibration := by
  intro c manager b
  have hvalid : c.validate = .ok () := by decide +kernel
  have harmed : (manager.arm b c).result = .ok () :=
    Manager.arm_ok_iff_valid.mpr (Config.validate_eq_ok_iff.mp hvalid)
  have hppm : 0 < c.thresholdPpm := by decide +kernel
  have hrise : 1 / 2 + 1 / 0x1000000 ≤ c.calibration.rise c.thresholdPpm := by decide +kernel
  obtain ⟨hiff, habove, -⟩ := clean_air_is_quiet_iff manager b c harmed hppm
  exact ⟨harmed, hppm, by decide +kernel, hiff, hrise, habove hrise, hiff.mpr (habove hrise)⟩

/-- A concentration worth 0.36 counts is accepted and armed at the zero point, where one reading of
clean air raises the alarm. -/
theorem clean_air_wakes_at_zero :
    let c : Config :=
      { Config.standard with thresholdPpm := .round false (1 / 100), confirmCount := 1 }
    let manager : Manager SimulatedCoprocessor := { control := {}, config := .standard }
    let m : Monitor ScriptedConverter :=
      { converter := { remaining := [some 200] }, intervalMs := 200 }
    (manager.arm .fresh c).result = .ok () ∧ 0 < c.thresholdPpm ∧
      m.converter.CleanAir c.calibration ∧
      (∀ reading, some reading ∈ m.converter.remaining → c.calibration.ppmOf reading = 0) ∧
      Schedule.quiet.OnlyStops ∧
      ∃ report, m.Ends (manager.arm .fresh c).block .quiet report ∧
        report.exit = .wakeSignalled := by
  intro c manager m
  have hvalid : c.validate = .ok () := by decide +kernel
  have harmed : (manager.arm .fresh c).result = .ok () :=
    Manager.arm_ok_iff_valid.mpr (Config.validate_eq_ok_iff.mp hvalid)
  have hthreshold : c.threshold = 200 := by decide +kernel
  have hclean : m.converter.CleanAir c.calibration := by
    intro reading hmem
    obtain rfl := Option.some.inj (List.mem_singleton.mp hmem)
    exact UInt32.le_refl 200
  refine ⟨harmed, by decide +kernel, hclean, fun reading hmem => ?_, Schedule.onlyStops_quiet, ?_⟩
  · exact Calibration.ppmOf_of_le_zero (hclean reading hmem)
  · rw [Manager.block_arm_of_ok harmed]
    have hreading : (Manager.armedBlock c .fresh).threshold ≤ 200 := by
      show c.threshold ≤ 200
      rw [hthreshold]
      exact UInt32.le_refl 200
    exact exists_report_of_replicate rfl (by decide) hreading rfl

end GasWatch
