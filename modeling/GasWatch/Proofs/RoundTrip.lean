import GasWatch.Proofs.Arming
import GasWatch.Proofs.LineError
import Mathlib.Algebra.Order.Field.Basic

/-!
# There and back along the line

A reading is shown as a concentration and a concentration is armed as a reading.  On a line on the
scale whose concentration at the span point is far from both ends of the format
(`Calibration.Moderate`), the concentration of a reading is off by a small part of a step
(`ppmOf_bounds`), and the reading of a concentration by half a step and a small part
(`Calibration.rawOf_near_line`).  So a reading comes back as it was (`rawOf_ppmOf`), and a
concentration within one step (`ppmOf_rawOf_within_step`).
-/

namespace GasWatch

open Single

namespace Single

/-! ## Rounded steps from a count to a concentration -/

/-- The concentration that a count comes to along a line of `counts` counts up to the concentration
`ppm`, with each step rounded. -/
def nearestConcentration (counts ppm n : Rat) : Rat := nearest (nearest (n / counts) * ppm)

/-- It is off by a small part of what one count is worth. -/
theorem concentration_bounds {counts ppm n : Rat} (hone : 1 ≤ counts) (hmost : counts ≤ 4095)
    (hppm : (2 : Rat) ^ (-100 : Int) ≤ ppm) (hn : 0 ≤ n) (hscale : n ≤ 4095) :
    nearestConcentration counts ppm n ≤ (n + 1 / 1024) * (ppm / counts) ∧
      (n - 1 / 1024) * (ppm / counts) ≤ nearestConcentration counts ppm n := by
  have hcounts : 0 < counts := by linarith
  have hppmPos : 0 < ppm := (two_zpow_pos _).trans_le hppm
  have hratio : 0 ≤ n / counts := div_nonneg hn hcounts.le
  -- Everything is compared with what one count is worth.
  set step := ppm / counts with hstep
  have hstepPos : 0 ≤ step := div_nonneg hppmPos.le hcounts.le
  have hworth : n / counts * ppm = n * step := by rw [hstep]; ring
  have hspan : ppm ≤ 4095 * step := by
    have hpart : ppm = counts * step := by rw [hstep, mul_div_cancel₀ _ hcounts.ne']
    rw [hpart]
    exact mul_le_mul_of_nonneg_right hmost hstepPos
  have hmany : n * step ≤ 4095 * step := mul_le_mul_of_nonneg_right hscale hstepPos
  have hfinest : (2 : Rat) ^ (-150 : Int) ≤ step / 0x1000 := by
    calc (2 : Rat) ^ (-150 : Int) ≤ (2 : Rat) ^ (-100 : Int) / 0x1000000 := by norm_num
      _ ≤ ppm / 0x1000000 := div_le_div_of_nonneg_right hppm (by norm_num)
      _ ≤ step / 0x1000 := by linarith
  have hfinestPpm : (2 : Rat) ^ (-150 : Int) * ppm ≤ step / 0x1000000 := by
    have hfew : (2 : Rat) ^ (-150 : Int) ≤ 1 / 0x1000000000 := by norm_num
    have := mul_le_mul_of_nonneg_right hfew hppmPos.le
    linarith
  obtain ⟨hquotientHigh, hquotientLow⟩ := nearest_bounds hratio
  have hquotientHigh := mul_le_mul_of_nonneg_right hquotientHigh hppmPos.le
  have hquotientLow := mul_le_mul_of_nonneg_right hquotientLow hppmPos.le
  rw [add_mul, add_mul, div_mul_eq_mul_div (n / counts), hworth] at hquotientHigh hquotientLow
  obtain ⟨hhigh, hlow⟩ := nearest_bounds (mul_nonneg (nearest_nonneg hratio) hppmPos.le)
  unfold nearestConcentration
  constructor <;> linarith

end Single

namespace Calibration

/-- A line on the scale of the converter whose span point measures a concentration `y` that leaves
room to both ends of the format. -/
structure Moderate (c : Calibration) (y : Finite) : Prop where
  rises : c.zero < c.span
  within : c.span ≤ Board.fullScale
  spanPpm : c.spanPpm = .finite y
  low : (2 : Rat) ^ (-100 : Int) ≤ y.value
  high : y.value ≤ (2 : Rat) ^ (100 : Int)

variable {c : Calibration} {x y : Finite} {raw : UInt32}

namespace Moderate

theorem pos (hc : c.Moderate y) : 0 < y.value := (two_zpow_pos _).trans_le hc.low

theorem unsigned (hc : c.Moderate y) : y.negative = false := Finite.unsigned_of_pos hc.pos

theorem magnitude_eq (hc : c.Moderate y) : y.magnitude = y.value :=
  (Finite.value_of_unsigned hc.unsigned).symm

theorem usable (hc : c.Moderate y) : c.Usable := by
  refine ⟨hc.rises, UInt32.le_trans (UInt32.le_of_lt hc.rises) hc.within, ?_⟩
  rw [hc.spanPpm, zero_lt_finite_iff]
  exact hc.pos

end Moderate

/-! ## The concentration of a reading -/

theorem ppmOf_of_gt {c : Calibration} {raw : UInt32} (hrises : c.zero < c.span)
    (hraw : c.zero < raw) :
    c.ppmOf raw = (.ofWord (raw - c.zero) / c.range * c.spanPpm : Single).greater 0 := by
  unfold ppmOf
  rw [if_neg (not_or.mpr ⟨UInt32.not_le.mpr hraw, UInt32.not_le.mpr hrises⟩)]

/-- A reading that stands so many counts above the zero point or higher shows at least the
concentration of these counts. -/
theorem ppmOf_atLeast (hc : c.Moderate y) {n : Nat} (hpos : 0 < n) (hn : n ≤ 4095)
    (hraw : c.zero.toNat + n ≤ raw.toNat) :
    (c.ppmOf raw).AtLeast (nearestConcentration (c.span - c.zero).toNat y.value n) := by
  obtain ⟨-, -, hbits⟩ := counts_bounds hc.usable hc.within
  have hzero : c.zero < raw := UInt32.lt_iff_toNat_lt.mpr (by omega)
  have hcounts : n ≤ (raw - c.zero).toNat := by
    rw [UInt32.toNat_sub_of_le raw c.zero (UInt32.le_of_lt hzero)]
    omega
  have hword : (ofWord (raw - c.zero)).AtLeast n := ofWord_atLeast_of_le (by omega) hcounts
  have hquotient := hword.div (ofWord_atMost hbits) (by exact_mod_cast hpos)
  have hproduct := hquotient.mul_finite hc.unsigned (hc.magnitude_eq ▸ hc.pos)
  rw [ppmOf_of_gt hc.rises hzero, range, hc.spanPpm, hproduct.greater_zero, nearestConcentration,
    ← hc.magnitude_eq]
  exact hproduct

/-- A reading on the scale shows no more than the concentration of its counts. -/
theorem ppmOf_atMost (hc : c.Moderate y) (hzero : c.zero < raw) (hraw : raw ≤ Board.fullScale) :
    (c.ppmOf raw).AtMost
      (nearestConcentration (c.span - c.zero).toNat y.value (raw - c.zero).toNat) := by
  obtain ⟨hone, hmost, hbits⟩ := counts_bounds hc.usable hc.within
  have hscale := counts_on_scale (UInt32.le_of_lt hzero) hraw
  have hscaleRat : ((raw - c.zero).toNat : Rat) ≤ 4095 := by exact_mod_cast hscale
  have hratio : ((raw - c.zero).toNat : Rat) / (c.span - c.zero).toNat ≤ 4095 :=
    (div_le_self (Nat.cast_nonneg _) hone).trans hscaleRat
  -- The concentration stays below the end of the format.
  obtain ⟨hbound, -⟩ := concentration_bounds hone hmost hc.low (Nat.cast_nonneg _) hscaleRat
  have hlimit : nearestConcentration (c.span - c.zero).toNat y.value (raw - c.zero).toNat <
      (2 : Rat) ^ (128 : Int) := by
    have hstep : y.value / (c.span - c.zero).toNat ≤ (2 : Rat) ^ (100 : Int) :=
      (div_le_self hc.pos.le hone).trans hc.high
    have hmuch := mul_le_mul (by linarith : ((raw - c.zero).toNat : Rat) + 1 / 1024 ≤ 4096) hstep
      (div_nonneg hc.pos.le (by linarith)) (by norm_num)
    have hroom : (4096 : Rat) * (2 : Rat) ^ (100 : Int) < (2 : Rat) ^ (128 : Int) := by norm_num
    exact hbound.trans_lt (hmuch.trans_lt hroom)
  have hspanPpm : (Single.finite y).AtMost y.value := ⟨hc.unsigned, hc.magnitude_eq.le⟩
  have hquotient := (ofWord_atMost (by omega : (raw - c.zero).toNat < 0x1000000)).div
    (ofWord_atLeast hbits) (by linarith) (nearest_lt_of_scale (by linarith))
  have hproduct := hquotient.mul hspanPpm hlimit
  rw [ppmOf_of_gt hc.rises hzero, range, hc.spanPpm, hproduct.atLeast_zero.greater_zero]
  exact hproduct

/-- A reading from the zero point to full scale shows a finite concentration, off by a small part of
what one count is worth. -/
theorem ppmOf_bounds (hc : c.Moderate y) (hzero : c.zero ≤ raw) (hraw : raw ≤ Board.fullScale) :
    ∃ z : Finite, c.ppmOf raw = .finite z ∧ 0 ≤ z.value ∧
      z.value ≤ ((raw.toNat : Rat) - c.zero.toNat + 1 / 1024) *
        (y.value / (c.span - c.zero).toNat) ∧
      ((raw.toNat : Rat) - c.zero.toNat - 1 / 1024) * (y.value / (c.span - c.zero).toNat) ≤
        z.value := by
  obtain ⟨hone, hmost, -⟩ := counts_bounds hc.usable hc.within
  have hstep : 0 < y.value / (c.span - c.zero).toNat := div_pos hc.pos (by linarith)
  rcases UInt32.lt_or_eq_of_le hzero with hzero | rfl
  · have hgap : c.zero.toNat < raw.toNat := UInt32.lt_iff_toNat_lt.mp hzero
    have hscale : raw.toNat ≤ 4095 := UInt32.le_iff_toNat_le.mp hraw
    have hcounts : (raw - c.zero).toNat = raw.toNat - c.zero.toNat :=
      UInt32.toNat_sub_of_le raw c.zero (UInt32.le_of_lt hzero)
    have hcast : ((raw - c.zero).toNat : Rat) = (raw.toNat : Rat) - c.zero.toNat := by
      rw [hcounts, Nat.cast_sub hgap.le]
    have hlow : (c.ppmOf raw).AtLeast _ :=
      ppmOf_atLeast hc (n := (raw - c.zero).toNat) (by omega) (by omega) (by omega)
    obtain ⟨z, hz, hsign, hle⟩ := (ppmOf_atMost hc hzero hraw).cases
    rw [hz] at hlow
    have hmany : ((raw - c.zero).toNat : Rat) ≤ 4095 := by
      exact_mod_cast (by omega : (raw - c.zero).toNat ≤ 4095)
    obtain ⟨hboundHigh, hboundLow⟩ :=
      concentration_bounds hone hmost hc.low (Nat.cast_nonneg (raw - c.zero).toNat) hmany
    rw [← Finite.value_of_unsigned hsign] at hle
    have hge := hlow.2
    rw [← Finite.value_of_unsigned hsign] at hge
    rw [← hcast]
    exact ⟨z, hz, Finite.value_nonneg_of_unsigned hsign, hle.trans hboundHigh,
      hboundLow.trans hge⟩
  · rw [ppmOf_of_le_zero (UInt32.le_refl _), zero_eq]
    refine ⟨⟨false, 0, -149, by decide⟩, rfl, ?_⟩
    rw [Finite.value_of_unsigned rfl, Finite.magnitude_zero, sub_self]
    refine ⟨le_refl 0, ?_, ?_⟩ <;> linarith

/-! ## From a reading to a concentration and back -/

/-- How high a concentration stands, against how many steps it is worth. -/
theorem height_le_iff (hc : c.Moderate y) {z steps : Rat} :
    z * ((c.span.toNat : Rat) - c.zero.toNat) / y.value ≤ steps ↔
      z ≤ steps * (y.value / (c.span - c.zero).toNat) := by
  have hcounts : 0 < ((c.span - c.zero).toNat : Rat) := by
    linarith [(counts_bounds hc.usable hc.within).1]
  rw [← counts_eq hc.usable, div_le_iff₀ hc.pos, ← mul_div_assoc, le_div_iff₀ hcounts]

theorem le_height_iff (hc : c.Moderate y) {z steps : Rat} :
    steps ≤ z * ((c.span.toNat : Rat) - c.zero.toNat) / y.value ↔
      steps * (y.value / (c.span - c.zero).toNat) ≤ z := by
  have hcounts : 0 < ((c.span - c.zero).toNat : Rat) := by
    linarith [(counts_bounds hc.usable hc.within).1]
  rw [← counts_eq hc.usable, le_div_iff₀ hc.pos, ← mul_div_assoc, div_le_iff₀ hcounts]

/-- A concentration worth so many steps, or little less, is brought to their count at least. -/
theorem le_rawOf_of_steps (hc : c.Moderate y) {z : Finite} {n : Nat} (hz : 0 ≤ z.value)
    (hn : c.zero.toNat + n ≤ 4095)
    (hsteps : ((n : Rat) - 1 / 1024) * (y.value / (c.span - c.zero).toNat) ≤ z.value) :
    c.zero.toNat + n ≤ (c.rawOf (.finite z)).toNat := by
  have hnear := (abs_sub_le_iff.mp (rawOf_near_line hc.usable hc.within hc.spanPpm hz)).2
  have hheight : (c.zero.toNat + n : Rat) - 1 / 1024 ≤
      min (c.zero.toNat + z.value * ((c.span.toNat : Rat) - c.zero.toNat) / y.value) 4095 := by
    have hscale : (c.zero.toNat + n : Rat) ≤ 4095 := by exact_mod_cast hn
    rw [le_min_iff]
    constructor
    · linarith [(le_height_iff hc).mpr hsteps]
    · linarith
  have hlt : (c.zero.toNat + n : Rat) < (c.rawOf (.finite z)).toNat + 1 := by linarith
  have hlt : c.zero.toNat + n < (c.rawOf (.finite z)).toNat + 1 := by exact_mod_cast hlt
  omega

/-- A concentration worth so many steps, or little more, is brought to their count at most. -/
theorem rawOf_le_of_steps (hc : c.Moderate y) {z : Finite} {n : Nat} (hz : 0 ≤ z.value)
    (hsteps : z.value ≤ ((n : Rat) + 1 / 1024) * (y.value / (c.span - c.zero).toNat)) :
    (c.rawOf (.finite z)).toNat ≤ c.zero.toNat + n := by
  have hnear := (abs_sub_le_iff.mp (rawOf_near_line hc.usable hc.within hc.spanPpm hz)).1
  have hheight := min_le_left
    (c.zero.toNat + z.value * ((c.span.toNat : Rat) - c.zero.toNat) / y.value) 4095
  have hlt : ((c.rawOf (.finite z)).toNat : Rat) < c.zero.toNat + n + 1 := by
    linarith [(height_le_iff hc).mpr hsteps]
  have hlt : (c.rawOf (.finite z)).toNat < c.zero.toNat + n + 1 := by exact_mod_cast hlt
  omega

/-- A reading from the zero point to full scale comes back as it was. -/
theorem rawOf_ppmOf_of_mem (hc : c.Moderate y) (hzero : c.zero ≤ raw)
    (hraw : raw ≤ Board.fullScale) : c.rawOf (c.ppmOf raw) = raw := by
  have hgap := UInt32.le_iff_toNat_le.mp hzero
  have hscale : raw.toNat ≤ 4095 := UInt32.le_iff_toNat_le.mp hraw
  obtain ⟨z, hz, hnonneg, hhigh, hlow⟩ := ppmOf_bounds hc hzero hraw
  rw [← Nat.cast_sub hgap] at hhigh hlow
  have hle := rawOf_le_of_steps hc hnonneg hhigh
  have hge := le_rawOf_of_steps hc hnonneg (by omega) hlow
  rw [hz, ← UInt32.toNat_inj]
  omega

/-- A reading beyond full scale comes back as full scale, also when its concentration is beyond the
end of the format. -/
theorem rawOf_ppmOf_of_beyond (hc : c.Moderate y) (hraw : Board.fullScale ≤ raw) :
    c.rawOf (c.ppmOf raw) = Board.fullScale := by
  obtain ⟨hone, hmost, -⟩ := counts_bounds hc.usable hc.within
  have hzero := zero_add_one_le hc.usable hc.within
  have hzero : c.zero.toNat + 1 ≤ 4095 := by exact_mod_cast hzero
  have hscale : 4095 ≤ raw.toNat := UInt32.le_iff_toNat_le.mp hraw
  have hn : 4095 - c.zero.toNat ≤ 4095 := Nat.sub_le _ _
  have hatLeast : (c.ppmOf raw).AtLeast _ :=
    ppmOf_atLeast hc (n := 4095 - c.zero.toNat) (by omega) hn (by omega)
  obtain ⟨-, hlow⟩ := concentration_bounds hone hmost hc.low
    (Nat.cast_nonneg (4095 - c.zero.toNat)) (by exact_mod_cast hn)
  rcases hatLeast.cases with hinfinite | ⟨z, hz, hsign, hle⟩
  · rw [hinfinite, rawOf_infinity]
  · rw [← Finite.value_of_unsigned hsign] at hle
    have hnonneg := Finite.value_nonneg_of_unsigned hsign
    have hge := le_rawOf_of_steps hc hnonneg (by omega) (hlow.trans hle)
    have hmost := UInt32.le_iff_toNat_le.mp (rawOf_le_fullScale c (.finite z))
    have hfull : Board.fullScale.toNat = 4095 := rfl
    rw [hz, ← UInt32.toNat_inj]
    omega

/-- A reading up to the zero point comes back as the zero point. -/
theorem rawOf_ppmOf_of_le (hc : c.Moderate y) (hraw : raw ≤ c.zero) :
    c.rawOf (c.ppmOf raw) = c.zero := by
  rw [ppmOf_of_le_zero hraw]
  exact rawOf_of_le_zero hc.usable (by rw [zero_eq]; rfl) (by decide +kernel)

/-- The reading that stands for the concentration of a reading is that reading, held between the
zero point and full scale.  So the concentration of a reading between the two, armed as a threshold,
gives the reading itself as the threshold, whatever was in the words before. -/
theorem rawOf_ppmOf (c : Calibration) (y : Finite) (hc : c.Moderate y) (raw : UInt32) :
    (c.rawOf (c.ppmOf raw)).toNat = max c.zero.toNat (min raw.toNat 4095) ∧
      ∀ {κ : Type} (manager : Manager κ) (b : Block) (config : Config),
        config.calibration = c → config.thresholdPpm = c.ppmOf raw →
        config.confirmCount ≠ 0 → config.sampleIntervalMs ≠ 0 →
        c.zero ≤ raw → raw ≤ Board.fullScale →
        (manager.arm b config).result = .ok () ∧ (manager.arm b config).block.threshold = raw := by
  constructor
  · have hzero : c.zero.toNat ≤ 4095 := zero_bound hc.usable
    have hfull : Board.fullScale.toNat = 4095 := rfl
    rcases UInt32.le_total raw c.zero with hlow | hlow
    · rw [rawOf_ppmOf_of_le hc hlow]
      have hlow := UInt32.le_iff_toNat_le.mp hlow
      omega
    · rcases UInt32.le_total raw Board.fullScale with hhigh | hhigh
      · rw [rawOf_ppmOf_of_mem hc hlow hhigh]
        have hlow := UInt32.le_iff_toNat_le.mp hlow
        have hhigh := UInt32.le_iff_toNat_le.mp hhigh
        omega
      · rw [rawOf_ppmOf_of_beyond hc hhigh]
        have hhigh := UInt32.le_iff_toNat_le.mp hhigh
        omega
  · intro κ manager b config hcalibration hppm hconfirms hpauses hlow hhigh
    obtain ⟨z, hz, hnonneg, -⟩ := ppmOf_bounds hc hlow hhigh
    have hvalid : config.Valid :=
      { confirms := hconfirms
        pauses := hpauses
        rises := hcalibration ▸ hc.rises
        within := hcalibration ▸ hc.within
        measures := hcalibration ▸ hc.usable.2.2
        finite := by rw [hppm, hz]; rfl
        nonnegative := by
          rw [hppm, hz, finite_lt_zero_iff, not_lt]
          exact hnonneg }
    have harmed : (manager.arm b config).result = .ok () := Manager.arm_ok_iff_valid.mpr hvalid
    refine ⟨harmed, ?_⟩
    rw [Manager.block_arm_of_ok harmed]
    show config.calibration.rawOf config.thresholdPpm = raw
    rw [hcalibration, hppm]
    exact rawOf_ppmOf_of_mem hc hlow hhigh

/-- On a line up to a third of a ppm, which the format does not have exactly, a reading comes back
and is armed as it is, and the greatest word comes back as full scale. -/
theorem rawOf_ppmOf_of_third :
    let y : Finite := ⟨false, 0xaaaaab, -25, by decide⟩
    let c : Calibration := { zero := 1, span := 4094, spanPpm := .finite y }
    let config : Config := { Config.standard with thresholdPpm := c.ppmOf 2741, calibration := c }
    let manager : Manager SimulatedCoprocessor := { control := {}, config := .standard }
    let b : Block := { Block.fresh with aboveCount := 9, stopFlag := 1 }
    c.Moderate y ∧ (c.rawOf (c.ppmOf 2741)).toNat = 2741 ∧
      (c.rawOf (c.ppmOf 0xffffffff)).toNat = 4095 ∧ (manager.arm b config).result = .ok () ∧
      (manager.arm b config).block.threshold = 2741 := by
  intro y c config manager b
  have hc : c.Moderate y :=
    { rises := by decide
      within := by decide
      spanPpm := rfl
      low := by decide +kernel
      high := by decide +kernel }
  obtain ⟨hraw, harmed⟩ := rawOf_ppmOf c y hc 2741
  obtain ⟨hresult, hthreshold⟩ :=
    harmed manager b config rfl rfl (by decide) (by decide) (by decide) (by decide)
  exact ⟨hc, hraw, (rawOf_ppmOf c y hc 0xffffffff).1, hresult, hthreshold⟩

/-! ## From a concentration to a reading and back -/

/-- A concentration whose height is on the scale comes back at most one step away. -/
theorem ppmOf_rawOf_within_step (c : Calibration) (y : Finite) (hc : c.Moderate y) (x : Finite)
    (hx : 0 ≤ x.value)
    (hscale :
      c.zero.toNat + x.value * ((c.span.toNat : Rat) - c.zero.toNat) / y.value ≤ 4095) :
    ∃ z : Finite, c.ppmOf (c.rawOf (.finite x)) = .finite z ∧
      |z.value - x.value| ≤ y.value / ((c.span.toNat : Rat) - c.zero.toNat) := by
  obtain ⟨hone, -, -⟩ := counts_bounds hc.usable hc.within
  have hnear := rawOf_near_line hc.usable hc.within hc.spanPpm hx
  rw [min_eq_left hscale, abs_sub_le_iff] at hnear
  obtain ⟨hnearHigh, hnearLow⟩ := hnear
  obtain ⟨z, hz, -, hhigh, hlow⟩ :=
    ppmOf_bounds hc (zero_le_rawOf hc.usable (.finite x)) (rawOf_le_fullScale c (.finite x))
  refine ⟨z, hz, ?_⟩
  rw [← counts_eq hc.usable] at hnearHigh hnearLow ⊢
  -- All is measured in steps.
  set step := y.value / ((c.span - c.zero).toNat : Rat) with hstep
  have hstepPos : 0 ≤ step := div_nonneg hc.pos.le (by linarith)
  have hrise : x.value * (c.span - c.zero).toNat / y.value * step = x.value := by
    have hcounts : ((c.span - c.zero).toNat : Rat) ≠ 0 := by linarith
    rw [hstep, div_mul_div_cancel₀ hc.pos.ne', mul_div_cancel_right₀ _ hcounts]
  have habove := mul_le_mul_of_nonneg_right hnearHigh hstepPos
  have hbelow := mul_le_mul_of_nonneg_right hnearLow hstepPos
  rw [sub_mul, add_mul, hrise] at habove hbelow
  rw [abs_sub_le_iff]
  constructor <;> linarith

/-- A tenth of a ppm on a line up to a third comes back at most one step away. -/
theorem ppmOf_rawOf_of_tenth :
    let y : Finite := ⟨false, 0xaaaaab, -25, by decide⟩
    let x : Finite := ⟨false, 0xcccccd, -27, by decide⟩
    let c : Calibration := { zero := 200, span := 2000, spanPpm := .finite y }
    c.Moderate y ∧ 0 ≤ x.value ∧
      c.zero.toNat + x.value * ((c.span.toNat : Rat) - c.zero.toNat) / y.value ≤ 4095 ∧
      ∃ z : Finite, c.ppmOf (c.rawOf (.finite x)) = .finite z ∧
        |z.value - x.value| ≤ y.value / ((c.span.toNat : Rat) - c.zero.toNat) := by
  intro y x c
  have hc : c.Moderate y :=
    { rises := by decide
      within := by decide
      spanPpm := rfl
      low := by decide +kernel
      high := by decide +kernel }
  have hx : 0 ≤ x.value := by decide +kernel
  have hscale :
      c.zero.toNat + x.value * ((c.span.toNat : Rat) - c.zero.toNat) / y.value ≤ 4095 := by
    decide +kernel
  exact ⟨hc, hx, hscale, ppmOf_rawOf_within_step c y hc x hx hscale⟩

end Calibration

end GasWatch
