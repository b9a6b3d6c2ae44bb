import GasWatch.Proofs.NumberOrder
import GasWatch.Proofs.RoundTrip

/-!
# The order along the line

Both ways along a line keep the order, also on lines that nobody would arm.  Between the counts and
the concentration every rounded step does (`Single.Ascends`), and where a line is not followed the
stand-in fits in: clean air is below every other reading (`ppmOf_ascends`), and the zero point below
the count of every positive concentration (`rawOf_le_of_le`).

* `exists_quotient`: the part of the span that a reading stands for is a positive number, so a line
  up to an infinite concentration shows an infinite one, and never a NaN.
* `ppmOf_of_not_measures`: a span point with a concentration that is not positive, or a NaN, makes
  every reading clean air.
-/

namespace GasWatch

open Single

namespace Single

/-! ## Words as numbers -/

theorem ofWord_atLeast_one {w : UInt32} (hw : 0 < w.toNat) : (ofWord w).AtLeast 1 := by
  rw [← Nat.cast_one]
  exact ofWord_atLeast_of_le (by norm_num) hw

/-- Rounding a word does not take it beyond the first number of 33 bits. -/
theorem ofWord_atMost_of_word (w : UInt32) : (ofWord w).AtMost ((2 : Rat) ^ (32 : Int)) := by
  have hbits : Representable ((2 : Rat) ^ (32 : Int)) := ⟨1, 32, by norm_num, by omega, by norm_num⟩
  have hword : (w.toNat : Rat) ≤ (2 : Rat) ^ (32 : Int) := by
    have hlt := w.toNat_lt
    norm_num
    exact_mod_cast hlt.le
  have hnearest := nearest_le hbits hword
  have hroom : (2 : Rat) ^ (32 : Int) < (2 : Rat) ^ (128 : Int) := by norm_num
  exact (round_atMost (Nat.cast_nonneg w.toNat) (hnearest.trans_lt hroom)).weaken hnearest

theorem isFinite_ofWord (w : UInt32) : (ofWord w).isFinite := by
  obtain ⟨x, hx, -⟩ := (ofWord_atMost_of_word w).cases
  rw [hx]
  rfl

end Single

namespace Calibration

variable {c : Calibration} {raw : UInt32}

theorem toNat_sub_pos {high low : UInt32} (h : low < high) : 0 < (high - low).toNat := by
  have hlt := UInt32.lt_iff_toNat_lt.mp h
  rw [UInt32.toNat_sub_of_le high low (UInt32.le_of_lt h)]
  omega

theorem sub_le_sub {low high zero : UInt32} (hzero : zero ≤ low) (h : low ≤ high) :
    low - zero ≤ high - zero := by
  have hle := UInt32.le_iff_toNat_le.mp h
  rw [UInt32.le_iff_toNat_le, UInt32.toNat_sub_of_le low zero hzero,
    UInt32.toNat_sub_of_le high zero (UInt32.le_trans hzero h)]
  omega

theorem clamp_mono {low high v w : UInt32} (hbounds : low ≤ high) (h : v ≤ w) :
    clamp low high v ≤ clamp low high w := by
  have hle := UInt32.le_iff_toNat_le.mp h
  rw [UInt32.le_iff_toNat_le, toNat_clamp hbounds, toNat_clamp hbounds]
  omega

/-! ## From readings to concentrations -/

theorem range_pos (hrises : c.zero < c.span) : 0 < c.range := by
  have hone : (ofWord (c.span - c.zero)).AtLeast 1 := ofWord_atLeast_one (toNat_sub_pos hrises)
  obtain ⟨x, hx, hsign, -⟩ := (ofWord_atMost_of_word (c.span - c.zero)).cases
  rw [hx] at hone
  rw [range, hx, zero_lt_finite_iff, Finite.value_of_unsigned hsign]
  linarith [hone.2]

/-- The part of the span that a reading stands for is a positive number. -/
theorem exists_quotient (hrises : c.zero < c.span) (hraw : c.zero < raw) :
    ∃ q : Finite, (.ofWord (raw - c.zero) / c.range : Single) = .finite q ∧ q.negative = false ∧
      0 < q.magnitude := by
  have hcountsLow := ofWord_atLeast_one (toNat_sub_pos hraw)
  have hcountsHigh := ofWord_atMost_of_word (raw - c.zero)
  have hrangeLow := ofWord_atLeast_one (toNat_sub_pos hrises)
  have hrangeHigh := ofWord_atMost_of_word (c.span - c.zero)
  have hlow := hcountsLow.div hrangeHigh one_pos
  have hhigh := hcountsHigh.div hrangeLow one_pos (by
    rw [div_one, nearest_of_representable ⟨1, 32, by norm_num, by omega, by norm_num⟩]
    norm_num)
  obtain ⟨q, hq, hsign, -⟩ := hhigh.cases
  rw [hq] at hlow
  have hleast : (2 : Rat) ^ (-32 : Int) ≤ nearest (1 / (2 : Rat) ^ (32 : Int)) :=
    le_nearest ⟨1, -32, by norm_num, by omega, by norm_num⟩ (by norm_num)
  exact ⟨q, hq, hsign, (two_zpow_pos _).trans_le (hleast.trans hlow.2)⟩

/-- A reading stands for clean air, or for a part of a span. -/
theorem clean_or_above (c : Calibration) (raw : UInt32) :
    (raw ≤ c.zero ∨ c.span ≤ c.zero) ∨ c.zero < c.span ∧ c.zero < raw := by
  by_cases hclean : raw ≤ c.zero ∨ c.span ≤ c.zero
  · exact Or.inl hclean
  · obtain ⟨hraw, hrises⟩ := not_or.mp hclean
    exact Or.inr ⟨UInt32.not_le.mp hrises, UInt32.not_le.mp hraw⟩

theorem ppmOf_of_clean (hclean : raw ≤ c.zero ∨ c.span ≤ c.zero) : c.ppmOf raw = 0 := by
  unfold ppmOf
  rw [if_pos hclean]

/-- A line whose span point measures nothing shows clean air everywhere. -/
theorem ppmOf_of_not_measures (hmeasures : ¬ 0 < c.spanPpm) (raw : UInt32) : c.ppmOf raw = 0 := by
  rcases c.clean_or_above raw with hclean | ⟨hrises, hraw⟩
  · exact ppmOf_of_clean hclean
  · obtain ⟨q, hq, hsign, hpos⟩ := exists_quotient hrises hraw
    rw [ppmOf_of_gt hrises hraw, hq]
    exact mul_greater_zero hsign hpos hmeasures

/-- Above the zero point the concentration is the product itself, which is not negative. -/
theorem ppmOf_of_measures (hrises : c.zero < c.span) (hmeasures : 0 < c.spanPpm)
    (hraw : c.zero < raw) :
    c.ppmOf raw = .ofWord (raw - c.zero) / c.range * c.spanPpm ∧ (c.ppmOf raw).AtLeast 0 := by
  obtain ⟨q, hq, hsign, hpos⟩ := exists_quotient hrises hraw
  have hproduct : (.finite q * c.spanPpm : Single).AtLeast 0 := by
    rcases pos_cases hmeasures with hinfinite | ⟨y, hy, hysign, hypos⟩
    · rw [hinfinite, mul_infinity_of_pos hsign hpos]
      exact infinity_atLeast 0
    · have hquotient : (Single.finite q).AtLeast 0 := ⟨hsign, hpos.le⟩
      rw [hy]
      exact (hquotient.mul_finite hysign hypos).atLeast_zero
  rw [ppmOf_of_gt hrises hraw, hq, hproduct.greater_zero]
  exact ⟨rfl, hproduct⟩

/-- The concentration of a reading is not negative, and not a NaN. -/
theorem ppmOf_atLeast_zero (c : Calibration) (raw : UInt32) : (c.ppmOf raw).AtLeast 0 := by
  by_cases hmeasures : 0 < c.spanPpm
  · rcases c.clean_or_above raw with hclean | ⟨hrises, hraw⟩
    · rw [ppmOf_of_clean hclean]
      exact zero_atLeast
    · exact (ppmOf_of_measures hrises hmeasures hraw).2
  · rw [ppmOf_of_not_measures hmeasures]
    exact zero_atLeast

theorem ppmOf_ascends_of_gt {low high : UInt32} (hrises : c.zero < c.span)
    (hmeasures : 0 < c.spanPpm) (hlow : c.zero < low) (h : low ≤ high) :
    (c.ppmOf low).Ascends (c.ppmOf high) := by
  have hhigh := UInt32.lt_of_lt_of_le hlow h
  rw [(ppmOf_of_measures hrises hmeasures hlow).1, (ppmOf_of_measures hrises hmeasures hhigh).1]
  rcases pos_cases hmeasures with hinfinite | ⟨y, hy, hysign, hypos⟩
  · -- Neither quotient is zero, so both products are infinite.
    obtain ⟨q, hq, hsign, hpos⟩ := exists_quotient hrises hlow
    obtain ⟨r, hr, hrsign, hrpos⟩ := exists_quotient hrises hhigh
    rw [hinfinite, hq, hr, mul_infinity_of_pos hsign hpos, mul_infinity_of_pos hrsign hrpos]
    exact .refl (infinity_atLeast 0)
  · have hcounts : (ofWord (low - c.zero)).Ascends (ofWord (high - c.zero)) :=
      .of_word (sub_le_sub (UInt32.le_of_lt hlow) h)
    rw [hy]
    exact (hcounts.div_right (isFinite_ofWord _) (range_pos hrises)).mul_right hysign hypos

/-- The greater reading shows the greater concentration, or the same. -/
theorem ppmOf_ascends (c : Calibration) {low high : UInt32} (h : low ≤ high) :
    (c.ppmOf low).Ascends (c.ppmOf high) := by
  by_cases hmeasures : 0 < c.spanPpm
  · rcases c.clean_or_above low with hclean | ⟨hrises, hlow⟩
    · rw [ppmOf_of_clean hclean]
      exact .from_zero (ppmOf_atLeast_zero c high)
    · exact ppmOf_ascends_of_gt hrises hmeasures hlow h
  · rw [ppmOf_of_not_measures hmeasures, ppmOf_of_not_measures hmeasures]
    exact .refl zero_atLeast

/-! ## From concentrations to counts -/

theorem rawOf_le_of_pos (hline : c.Usable) {x y : Finite} (hx : 0 < Single.finite x)
    (hy : 0 < Single.finite y) (h : Single.finite x ≤ .finite y) :
    c.rawOf (.finite x) ≤ c.rawOf (.finite y) := by
  have hxsign := Finite.unsigned_of_pos (zero_lt_finite_iff.mp hx)
  have hysign := Finite.unsigned_of_pos (zero_lt_finite_iff.mp hy)
  have hxy : (Single.finite x).Ascends (.finite y) :=
    ⟨⟨hxsign, x.magnitude_nonneg⟩, ⟨hysign, y.magnitude_nonneg⟩, h⟩
  obtain ⟨z, hz, hzsign, -⟩ := (ofWord_atMost_of_word c.zero).cases
  obtain ⟨counts, hcounts, hcountsSign, -⟩ := (ofWord_atMost_of_word (c.span - c.zero)).cases
  have hcountsPos : 0 < counts.magnitude := by
    have hrange := range_pos hline.1
    rwa [range, hcounts, zero_lt_finite_iff, Finite.value_of_unsigned hcountsSign] at hrange
  have hheight := ((hxy.div_right rfl hline.2.2).mul_right hcountsSign hcountsPos).add_left hzsign
  rw [rawOf_of_pos hline rfl hx, rawOf_of_pos hline rfl hy, range, hcounts, hz]
  exact clamp_mono hline.2.1 hheight.toWord_le

/-- The greater of two finite concentrations is brought to the greater count, or the same. -/
theorem rawOf_le_of_le (c : Calibration) {low high : Single} (hlow : low.isFinite)
    (hhigh : high.isFinite) (h : low ≤ high) : c.rawOf low ≤ c.rawOf high := by
  by_cases hline : c.Usable
  · cases low with
    | nan => cases hlow
    | infinity => cases hlow
    | finite x =>
      cases high with
      | nan => cases hhigh
      | infinity => cases hhigh
      | finite y =>
        by_cases hx : Single.finite x ≤ 0
        · rw [rawOf_of_le_zero hline hlow hx]
          exact zero_le_rawOf hline _
        · have hxpos := pos_of_not_le_zero hx
          have hypos : 0 < Single.finite y := by
            rw [zero_lt_finite_iff] at hxpos ⊢
            exact hxpos.trans_le (finite_le_finite_iff.mp h)
          exact rawOf_le_of_pos hline hxpos hypos h
  · rw [rawOf_of_not_usable hline, rawOf_of_not_usable hline]
    exact UInt32.le_refl _

/-! ## Both ways -/

/-- Whatever the two points of a line are, a greater reading does not show a lesser concentration,
and a greater finite concentration is not brought to a lesser count. -/
theorem conversions_keep_order (c : Calibration) :
    (∀ low high : UInt32, low ≤ high → c.ppmOf low ≤ c.ppmOf high) ∧
      ∀ low high : Single, low.isFinite → high.isFinite → low ≤ high →
        c.rawOf low ≤ c.rawOf high :=
  ⟨fun _ _ h => (ppmOf_ascends c h).le, fun _ _ hlow hhigh h => rawOf_le_of_le c hlow hhigh h⟩

/-- On a line up to the least positive number a reading short of halfway shows nothing, one beyond
halfway shows that number, and the quotient of the greatest concentration is infinite. -/
theorem conversions_keep_order_at_ends :
    let least : Finite := ⟨false, 1, -149, by decide⟩
    let greatest : Finite := ⟨false, 0xffffff, 104, by decide⟩
    let below : Finite := ⟨true, 1, -149, by decide⟩
    let c : Calibration := { zero := 200, span := 2000, spanPpm := .finite least }
    (1099 : UInt32) ≤ 1101 ∧ c.ppmOf 1099 = 0 ∧ c.ppmOf 1101 = .finite least ∧
      c.ppmOf 1099 ≤ c.ppmOf 1101 ∧
      (Single.finite below).isFinite ∧ (Single.finite greatest).isFinite ∧
      Single.finite below ≤ .finite greatest ∧ c.rawOf (.finite below) = 200 ∧
      c.rawOf (.finite greatest) = 4095 ∧ c.rawOf (.finite below) ≤ c.rawOf (.finite greatest) := by
  intro least greatest below c
  have hraws : (1099 : UInt32) ≤ 1101 := by decide
  have hppms : Single.finite below ≤ .finite greatest := by decide +kernel
  obtain ⟨hshown, harmed⟩ := conversions_keep_order c
  exact ⟨hraws, by decide +kernel, by decide +kernel, hshown 1099 1101 hraws, rfl, rfl, hppms,
    by decide +kernel, by decide +kernel, harmed _ _ rfl rfl hppms⟩

end Calibration

end GasWatch
