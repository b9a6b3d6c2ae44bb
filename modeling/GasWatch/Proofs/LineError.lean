import GasWatch.Config
import GasWatch.Proofs.AlarmLine
import Mathlib.Algebra.Order.Group.MinMax
import Mathlib.Algebra.Order.Group.Unbundled.Abs

/-!
# How far the count is from the line

The count of a concentration comes out of a quotient, a product and a sum, each rounded, and of a
rounding to a whole count.  On the scale of the converter every rounded step is off by a small part
of a count (`height_bounds`), whatever the concentration at the span point is, and the last rounding
by half a count.  Beyond the scale the steps need not be followed, for they keep the order
(`le_rawOf`).  `rawOf_near_line` says so for one line and `threshold_near_line` for the thresholds
of accepted configurations.
-/

namespace GasWatch

open Single

namespace Single

/-! ## Rounded steps on the scale -/

/-- Around the scale of the converter the nearest number is off by a small part of a count. -/
theorem nearest_bounds_on_scale {x : Rat} (hx : 0 ≤ x) (hscale : x ≤ 5000) :
    nearest x ≤ x + 1 / 0x800 ∧ x ≤ nearest x + 1 / 0x800 := by
  obtain ⟨hhigh, hlow⟩ := nearest_bounds hx
  have hfinest : (2 : Rat) ^ (-150 : Int) ≤ 1 / 0x1000000 := by norm_num
  constructor <;> linarith

/-- Nothing overflows around the scale. -/
theorem nearest_lt_of_scale {x : Rat} (hx : x ≤ 8192) : nearest x < (2 : Rat) ^ (128 : Int) := by
  have hbound : x ≤ ((8192 : Nat) : Rat) := by exact_mod_cast hx
  exact (nearest_le (representable_natCast (by norm_num)) hbound).trans_lt
    (natCast_lt_two_zpow (by norm_num))

/-- The height that a quotient comes to when it is taken along a line of so many counts from a zero
point on, with each step rounded. -/
def nearestHeight (zero counts q : Rat) : Rat := nearest (zero + nearest (nearest q * counts))

theorem height_bounds {zero counts q : Rat} (hzero : 0 ≤ zero) (hcounts : 0 ≤ counts)
    (hmost : counts ≤ 4095) (hq : 0 ≤ q) (hscale : zero + q * counts ≤ 4095) :
    nearestHeight zero counts q ≤ zero + q * counts + 1 / 512 ∧
      zero + q * counts ≤ nearestHeight zero counts q + 1 / 512 := by
  obtain ⟨hquotientHigh, hquotientLow⟩ :=
    Calibration.nearest_mul_bounds hq hcounts hmost (by linarith)
  have hproduct : 0 ≤ nearest q * counts := mul_nonneg (nearest_nonneg hq) hcounts
  obtain ⟨hproductHigh, hproductLow⟩ := nearest_bounds_on_scale hproduct (by linarith)
  have hsum : 0 ≤ zero + nearest (nearest q * counts) := add_nonneg hzero (nearest_nonneg hproduct)
  obtain ⟨hsumHigh, hsumLow⟩ := nearest_bounds_on_scale hsum (by linarith)
  unfold nearestHeight
  constructor <;> linarith

end Single

namespace Calibration

variable {c : Calibration}

/-! ## Counts -/

theorem counts_eq (hline : c.Usable) :
    ((c.span - c.zero).toNat : Rat) = (c.span.toNat : Rat) - c.zero.toNat := by
  have hrises := UInt32.le_of_lt hline.1
  rw [UInt32.toNat_sub_of_le c.span c.zero hrises, Nat.cast_sub (UInt32.le_iff_toNat_le.mp hrises)]

theorem zero_add_one_le (hline : c.Usable) (hspan : c.span ≤ Board.fullScale) :
    (c.zero.toNat : Rat) + 1 ≤ 4095 := by
  have hrises := UInt32.lt_iff_toNat_lt.mp hline.1
  have hscale : c.span.toNat ≤ 4095 := UInt32.le_iff_toNat_le.mp hspan
  exact_mod_cast (by omega : c.zero.toNat + 1 ≤ 4095)

theorem toNat_rawOf_of_pos {ppm : Single} (hline : c.Usable) (hfinite : ppm.isFinite)
    (hpos : 0 < ppm) :
    (c.rawOf ppm).toNat =
      max c.zero.toNat
        (min (.ofWord c.zero + ppm / c.spanPpm * c.range : Single).toWord.toNat 4095) := by
  rw [rawOf_of_pos hline hfinite hpos, toNat_clamp hline.2.1]
  rfl

/-! ## Below and above the line -/

section OnScale

variable {x y : Finite} {q : Rat}

theorem spanPpm_pos (hline : c.Usable) (hspanPpm : c.spanPpm = .finite y) : 0 < y.value :=
  zero_lt_finite_iff.mp (hspanPpm ▸ hline.2.2)

theorem zero_bits (hline : c.Usable) : c.zero.toNat < 0x1000000 :=
  Nat.lt_of_le_of_lt (zero_bound hline) (by norm_num)

/-- The height that is computed for a quotient is at least that of a lesser one. -/
theorem nearestHeight_le (hline : c.Usable) (hspan : c.span ≤ Board.fullScale)
    (hspanPpm : c.spanPpm = .finite y) (hpos : 0 < x.value) (hquotient : q ≤ x.value / y.value) :
    (.ofWord c.zero + .finite x / c.spanPpm * c.range : Single).AtLeast
      (nearestHeight c.zero.toNat (c.span - c.zero).toNat q) := by
  obtain ⟨hone, -, hbits⟩ := counts_bounds hline hspan
  obtain ⟨counts, hrange, hsign, hcounts⟩ := exists_finite_ofWord hbits
  have hy := spanPpm_pos hline hspanPpm
  have hx := Finite.unsigned_of_pos hpos
  have hysign := Finite.unsigned_of_pos hy
  rw [Finite.value_of_unsigned hysign] at hy hquotient
  rw [Finite.value_of_unsigned hx] at hquotient
  have hdiv : (.finite x / .finite y : Single).AtLeast (nearest q) := by
    rw [div_of_unsigned hx hysign hy]
    exact (round_atLeast (div_nonneg x.magnitude_nonneg hy.le)).weaken (nearest_mono hquotient)
  have hmul := hdiv.mul_finite hsign (by rw [hcounts]; linarith)
  rw [hspanPpm, range, hrange, ← hcounts]
  exact (ofWord_atLeast (zero_bits hline)).add hmul

/-- On the scale it is no more than that of the quotient itself. -/
theorem le_nearestHeight (hline : c.Usable) (hspan : c.span ≤ Board.fullScale)
    (hspanPpm : c.spanPpm = .finite y) (hpos : 0 < x.value)
    (hscale : c.zero.toNat + x.value / y.value * (c.span - c.zero).toNat ≤ 4095) :
    (.ofWord c.zero + .finite x / c.spanPpm * c.range : Single).AtMost
      (nearestHeight c.zero.toNat (c.span - c.zero).toNat (x.value / y.value)) := by
  obtain ⟨hone, hmost, hbits⟩ := counts_bounds hline hspan
  have hzero : (0 : Rat) ≤ c.zero.toNat := Nat.cast_nonneg _
  have hy := spanPpm_pos hline hspanPpm
  have hquotient : 0 ≤ x.value / y.value := div_nonneg hpos.le hy.le
  have hsmall : x.value / y.value ≤ x.value / y.value * (c.span - c.zero).toNat :=
    le_mul_of_one_le_right hquotient hone
  -- Each step stays far from the end of the format.
  obtain ⟨hproduct, -⟩ := nearest_mul_bounds hquotient (by linarith) hmost (by linarith)
  obtain ⟨hsum, -⟩ := nearest_bounds_on_scale
    (mul_nonneg (nearest_nonneg hquotient) (by linarith : 0 ≤ ((c.span - c.zero).toNat : Rat)))
    (by linarith)
  have hx := Finite.unsigned_of_pos hpos
  have hysign := Finite.unsigned_of_pos hy
  have hdiv : (.finite x / .finite y : Single).AtMost (nearest (x.value / y.value)) :=
    AtMost.div ⟨hx, (Finite.value_of_unsigned hx).ge⟩
      ⟨hysign, (Finite.value_of_unsigned hysign).le⟩ hy (nearest_lt_of_scale (by linarith))
  have hmul := hdiv.mul (ofWord_atMost hbits) (nearest_lt_of_scale (by linarith))
  rw [hspanPpm]
  exact (ofWord_atMost (zero_bits hline)).add hmul (nearest_lt_of_scale (by linarith))

/-- The count of a concentration is not below the height of a lesser quotient on the scale, but for
the rounding. -/
theorem le_rawOf (hline : c.Usable) (hspan : c.span ≤ Board.fullScale)
    (hspanPpm : c.spanPpm = .finite y) (hpos : 0 < x.value) (hq : 0 ≤ q)
    (hquotient : q ≤ x.value / y.value)
    (hscale : c.zero.toNat + q * (c.span - c.zero).toNat ≤ 4095) :
    c.zero.toNat + q * (c.span - c.zero).toNat ≤
      (c.rawOf (.finite x)).toNat + (1 / 2 + 1 / 512) := by
  obtain ⟨hone, hmost, -⟩ := counts_bounds hline hspan
  obtain ⟨hhigh, hlow⟩ := height_bounds (Nat.cast_nonneg c.zero.toNat) (by linarith) hmost hq hscale
  have hword := (nearestHeight_le hline hspan hspanPpm hpos hquotient).le_toWord_add_half
    (by linarith)
  rw [toNat_rawOf_of_pos hline rfl (zero_lt_finite_iff.mpr hpos), Nat.cast_max, Nat.cast_min]
  refine le_trans ?_ (add_le_add_left (le_max_right _ _) _)
  rw [min_add, le_min_iff]
  constructor
  · linarith
  · norm_num
    linarith

/-- The count of a concentration whose height is on the scale is not above it, but for the
rounding. -/
theorem rawOf_le (hline : c.Usable) (hspan : c.span ≤ Board.fullScale)
    (hspanPpm : c.spanPpm = .finite y) (hpos : 0 < x.value)
    (hscale : c.zero.toNat + x.value / y.value * (c.span - c.zero).toNat ≤ 4095) :
    ((c.rawOf (.finite x)).toNat : Rat) ≤
      c.zero.toNat + x.value / y.value * (c.span - c.zero).toNat + (1 / 2 + 1 / 512) := by
  obtain ⟨hone, hmost, -⟩ := counts_bounds hline hspan
  have hy := spanPpm_pos hline hspanPpm
  have hquotient : 0 ≤ x.value / y.value := div_nonneg hpos.le hy.le
  have hrise : 0 ≤ x.value / y.value * (c.span - c.zero).toNat := mul_nonneg hquotient (by linarith)
  obtain ⟨hhigh, -⟩ := height_bounds (Nat.cast_nonneg c.zero.toNat) (by linarith) hmost hquotient
    hscale
  have hword := (le_nearestHeight hline hspan hspanPpm hpos hscale).toWord_le_add_half
  rw [toNat_rawOf_of_pos hline rfl (zero_lt_finite_iff.mpr hpos), Nat.cast_max, Nat.cast_min]
  refine max_le (by linarith) ((min_le_left _ _).trans (by linarith))

/-- A concentration that is not negative is brought to a count within half a count of the line, and
a little for the rounding, and the line is followed no further than to full scale. -/
theorem rawOf_near_line (hline : c.Usable) (hspan : c.span ≤ Board.fullScale)
    (hspanPpm : c.spanPpm = .finite y) (hx : 0 ≤ x.value) :
    |((c.rawOf (.finite x)).toNat : Rat) -
        min (c.zero.toNat + x.value * ((c.span.toNat : Rat) - c.zero.toNat) / y.value) 4095| ≤
      1 / 2 + 1 / 512 := by
  obtain ⟨hone, -, -⟩ := counts_bounds hline hspan
  have hzero := zero_add_one_le hline hspan
  have hy := spanPpm_pos hline hspanPpm
  rw [← counts_eq hline, mul_div_right_comm]
  rcases hx.eq_or_lt with hx | hpos
  · rw [rawOf_of_le_zero hline rfl (finite_le_zero_iff.mpr hx.ge), ← hx, zero_div, zero_mul,
      add_zero, min_eq_left (by linarith), sub_self, abs_zero]
    norm_num
  have hquotient : 0 ≤ x.value / y.value := div_nonneg hpos.le hy.le
  rcases le_total (c.zero.toNat + x.value / y.value * (c.span - c.zero).toNat : Rat) 4095 with
    hscale | hbeyond
  · rw [min_eq_left hscale, abs_sub_le_iff]
    have hhigh := rawOf_le hline hspan hspanPpm hpos hscale
    have hlow := le_rawOf hline hspan hspanPpm hpos hquotient (le_refl _) hscale
    constructor <;> linarith
  · -- The quotient that reaches full scale is exceeded.
    have hcounts : ((c.span - c.zero).toNat : Rat) ≠ 0 := by linarith
    have hfull : (4095 - c.zero.toNat : Rat) / (c.span - c.zero).toNat * (c.span - c.zero).toNat =
        4095 - c.zero.toNat := div_mul_cancel₀ _ hcounts
    have hlow := le_rawOf (q := (4095 - c.zero.toNat) / (c.span - c.zero).toNat) hline hspan
      hspanPpm hpos (div_nonneg (by linarith) (by linarith))
      (by rw [div_le_iff₀ (by linarith)]; linarith) (by linarith)
    have hhigh : ((c.rawOf (.finite x)).toNat : Rat) ≤ 4095 := by
      exact_mod_cast UInt32.le_iff_toNat_le.mp (rawOf_le_fullScale c (.finite x))
    rw [min_eq_right hbeyond, abs_sub_le_iff]
    constructor <;> linarith

end OnScale

end Calibration

/-! ## Thresholds -/

/-- An accepted configuration is armed along its line.  The line can be followed and the
concentration is finite, so nothing stands in for either; and if the concentration at the span point
is finite as well, the threshold is within half a count and a little of the exact height of the
alarm, or of full scale if that is lower. -/
theorem Config.threshold_near_line (c : Config) (hvalidate : c.validate = .ok ()) (y : Finite)
    (hspanPpm : c.calibration.spanPpm = .finite y) :
    c.calibration.Usable ∧ ∃ x : Finite, c.thresholdPpm = .finite x ∧
      |(c.threshold.toNat : Rat) -
          min (c.calibration.zero.toNat +
            x.value * ((c.calibration.span.toNat : Rat) - c.calibration.zero.toNat) / y.value)
            4095| ≤ 1 / 2 + 1 / 512 := by
  have hvalid := validate_eq_ok_iff.mp hvalidate
  have hfinite := hvalid.finite
  have hnonnegative := hvalid.nonnegative
  unfold threshold
  cases hppm : c.thresholdPpm with
  | nan => rw [hppm] at hfinite; cases hfinite
  | infinity negative => rw [hppm] at hfinite; cases hfinite
  | finite x =>
    rw [hppm, finite_lt_zero_iff, not_lt] at hnonnegative
    exact ⟨hvalid.usable, x, rfl,
      Calibration.rawOf_near_line hvalid.usable hvalid.within hspanPpm hnonnegative⟩

/-- With the least positive number at the span point the quotient is infinite, and the threshold is
full scale, which the exact height is far beyond. -/
theorem Config.threshold_of_least_spanPpm :
    let y : Finite := ⟨false, 1, -149, by decide⟩
    let c : Config :=
      { standard with calibration := { zero := 200, span := 2000, spanPpm := .finite y } }
    c.validate = .ok () ∧ c.calibration.Usable ∧ c.threshold = 4095 ∧
      ∃ x : Finite, c.thresholdPpm = .finite x ∧
        |(c.threshold.toNat : Rat) -
            min (c.calibration.zero.toNat +
              x.value * ((c.calibration.span.toNat : Rat) - c.calibration.zero.toNat) / y.value)
              4095| ≤ 1 / 2 + 1 / 512 := by
  intro y c
  have hvalidate : c.validate = .ok () := by decide +kernel
  obtain ⟨husable, hnear⟩ := threshold_near_line c hvalidate y rfl
  exact ⟨hvalidate, husable, by decide +kernel, hnear⟩

end GasWatch
