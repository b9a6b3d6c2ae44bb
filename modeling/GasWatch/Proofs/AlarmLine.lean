import GasWatch.Calibration
import GasWatch.Proofs.NumberBounds

/-!
# The line from a concentration to a count

`Calibration.rise` is the exact number of counts by which a concentration stands above the zero
point.  The line follows it in three rounded steps, a quotient, a product and a sum, and takes the
count next to what comes out.  On a line within the scale the parts of a count, down to
`1 / 0x1000`, are numbers of the format, which rounding does not cross (`height_atLeast`,
`height_atMost`), so only the quotient has to be paid for:

* `zero_lt_rawOf`: a rise of half a count, and as much as the quotient can lose of it, is seen.
* `rawOf_eq_zero`: a rise that falls short of half a count by a little is not.
-/

namespace GasWatch

open Single

namespace Calibration

/-- The counts by which a concentration stands above the zero point, exactly.  A line that measures
an infinite concentration leaves nothing of a finite one. -/
def rise (c : Calibration) (ppm : Single) : Rat :=
  match ppm, c.spanPpm with
  | .finite x, .finite y => x.value / y.value * (c.span - c.zero).toNat
  | _, _ => 0

/-! ## Quotients -/

/-- A quotient that is worth half a count, and as much as it can lose, is still worth half a count
when it is rounded. -/
theorem half_le_nearest_mul {q counts : Rat} (hcounts : 1 ≤ counts) (hscale : counts ≤ 4095)
    (hq : 1 / 2 + 1 / 0x1000000 ≤ q * counts) :
    (0x800 : Nat) / (0x1000 : Rat) ≤ nearest q * counts := by
  have hpos : 0 < q := pos_of_mul_pos_left (by linarith : 0 < q * counts) (by linarith)
  have hpart : 1 / 8190 ≤ q := by
    have := mul_le_mul_of_nonneg_left hscale hpos.le
    linarith
  have hsmall : (2 : Rat) ^ (-126 : Int) ≤ 1 / 8190 := by norm_num
  have hnearest := (nearest_bounds_of_normal (hsmall.trans hpart)).2
  have hkept := mul_le_mul_of_nonneg_right hnearest (by linarith : 0 ≤ counts)
  norm_num
  linarith

/-- What is lost of a quotient comes to a small part of a count. -/
theorem nearest_mul_bounds {q counts : Rat} (hq : 0 ≤ q) (hcounts : 0 ≤ counts)
    (hmost : counts ≤ 4095) (hscale : q * counts ≤ 4095) :
    nearest q * counts ≤ q * counts + 1 / 0x1000 ∧
      q * counts ≤ nearest q * counts + 1 / 0x1000 := by
  obtain ⟨hhigh, hlow⟩ := nearest_bounds hq
  have hhigh := mul_le_mul_of_nonneg_right hhigh hcounts
  have hlow := mul_le_mul_of_nonneg_right hlow hcounts
  have hfinest : (2 : Rat) ^ (-150 : Int) * counts ≤ 1 / 0x1000000 := by
    calc (2 : Rat) ^ (-150 : Int) * counts ≤ (2 : Rat) ^ (-150 : Int) * 4095 :=
          mul_le_mul_of_nonneg_left hmost (two_zpow_pos _).le
      _ ≤ 1 / 0x1000000 := by norm_num
  constructor <;> linarith

/-- A quotient that falls short of half a count by a little still does when it is rounded. -/
theorem nearest_mul_le {q counts : Rat} (hq : 0 ≤ q) (hcounts : 0 ≤ counts) (hscale : counts ≤ 4095)
    (hrise : q * counts ≤ 1 / 2 - 1 / 0x800) :
    nearest q * counts ≤ (0x7ff : Nat) / (0x1000 : Rat) := by
  obtain ⟨hgained, -⟩ := nearest_mul_bounds hq hcounts hscale (by linarith)
  norm_num
  linarith

/-! ## Along the line -/

/-- A positive concentration is brought to the scale along the line. -/
theorem rawOf_of_pos {c : Calibration} {ppm : Single} (hline : c.Usable) (hfinite : ppm.isFinite)
    (hpos : 0 < ppm) :
    c.rawOf ppm =
      clamp c.zero Board.fullScale (.ofWord c.zero + ppm / c.spanPpm * c.range : Single).toWord := by
  unfold rawOf
  rw [if_neg (not_or.mpr ⟨not_not.mpr hline, not_not.mpr hfinite⟩), if_neg (not_le_zero hpos)]

/-- The parts of a count, in steps of `1 / 0x1000`, are numbers of the format all along the scale. -/
theorem representable_height {whole part : Nat} (hwhole : whole ≤ 4095) (hpart : part < 0x1000) :
    Representable ((whole : Rat) + part / 0x1000) := by
  refine ⟨whole * 0x1000 + part, -12, by omega, by omega, ?_⟩
  push_cast
  norm_num
  ring

theorem representable_part {part : Nat} (hpart : part < 0x1000) :
    Representable ((part : Rat) / 0x1000) := by
  have h := representable_height (Nat.zero_le 4095) hpart
  rwa [Nat.cast_zero, zero_add] at h

section OnScale

variable {c : Calibration} {ppm : Single} {q : Rat} {part : Nat}

/-- The counts between the two points of a line on the scale. -/
theorem counts_bounds (hline : c.Usable) (hspan : c.span ≤ Board.fullScale) :
    (1 : Rat) ≤ (c.span - c.zero).toNat ∧ ((c.span - c.zero).toNat : Rat) ≤ 4095 ∧
      (c.span - c.zero).toNat < 0x1000000 := by
  have hrises := UInt32.lt_iff_toNat_lt.mp hline.1
  have hscale : c.span.toNat ≤ 4095 := UInt32.le_iff_toNat_le.mp hspan
  rw [UInt32.toNat_sub_of_le c.span c.zero (UInt32.le_of_lt hline.1)]
  refine ⟨?_, ?_, by omega⟩
  · exact_mod_cast (by omega : 1 ≤ c.span.toNat - c.zero.toNat)
  · exact_mod_cast (by omega : c.span.toNat - c.zero.toNat ≤ 4095)

/-- The counts of a reading on the scale. -/
theorem counts_on_scale {raw : UInt32} (hzero : c.zero ≤ raw) (hraw : raw ≤ Board.fullScale) :
    (raw - c.zero).toNat ≤ 4095 := by
  have hraw : raw.toNat ≤ 4095 := UInt32.le_iff_toNat_le.mp hraw
  rw [UInt32.toNat_sub_of_le raw c.zero hzero]
  omega

theorem zero_bound (hline : c.Usable) : c.zero.toNat ≤ 4095 :=
  UInt32.le_iff_toNat_le.mp hline.2.1

/-- A quotient that is worth a part of a count comes out no lower than that. -/
theorem height_atLeast (hline : c.Usable) (hspan : c.span ≤ Board.fullScale)
    (hpos : 0 < part) (hpart : part < 0x1000) (hquotient : (ppm / c.spanPpm).AtLeast q)
    (hq : (part : Rat) / 0x1000 ≤ q * (c.span - c.zero).toNat) :
    (.ofWord c.zero + ppm / c.spanPpm * c.range : Single).AtLeast
      (c.zero.toNat + part / 0x1000) := by
  obtain ⟨hone, -, hbits⟩ := counts_bounds hline hspan
  have hzero := zero_bound hline
  have hcounts : 0 < ((c.span - c.zero).toNat : Rat) := by linarith
  have hpartPos : 0 < (part : Rat) / 0x1000 := div_pos (by exact_mod_cast hpos) (by norm_num)
  have hqpos : 0 < q := pos_of_mul_pos_left (hpartPos.trans_le hq) hcounts.le
  have hproduct := (hquotient.mul (ofWord_atLeast hbits) hqpos hcounts).weaken
    (le_nearest (representable_part hpart) hq)
  have hheight := (ofWord_atLeast (by omega : c.zero.toNat < 0x1000000)).add hproduct
  rwa [nearest_of_representable (representable_height hzero hpart)] at hheight

/-- A quotient that is not worth more than a part of a count comes out no higher than that. -/
theorem height_atMost (hline : c.Usable) (hspan : c.span ≤ Board.fullScale)
    (hpart : part < 0x1000) (hquotient : (ppm / c.spanPpm).AtMost q)
    (hq : q * (c.span - c.zero).toNat ≤ part / 0x1000) :
    (.ofWord c.zero + ppm / c.spanPpm * c.range : Single).AtMost
      (c.zero.toNat + part / 0x1000) := by
  obtain ⟨-, -, hbits⟩ := counts_bounds hline hspan
  have hzero := zero_bound hline
  have hzeroRat : (c.zero.toNat : Rat) ≤ 4095 := by exact_mod_cast hzero
  have hpartRat : (part : Rat) / 0x1000 ≤ 1 := by
    rw [div_le_one₀ (by norm_num)]
    exact_mod_cast hpart.le
  have hsmall : (4096 : Rat) < (2 : Rat) ^ (128 : Int) := by norm_num
  have hrounded := nearest_le (representable_part hpart) hq
  have hproduct := (hquotient.mul (ofWord_atMost hbits) (by linarith)).weaken hrounded
  have hsum := nearest_of_representable (representable_height hzero hpart)
  have hheight := (ofWord_atMost (by omega : c.zero.toNat < 0x1000000)).add hproduct
    (by rw [hsum]; linarith)
  rwa [hsum] at hheight

theorem rise_of_finite {x y : Finite} (hx : x.negative = false) (hy : y.negative = false)
    (hspanPpm : c.spanPpm = .finite y) :
    c.rise (.finite x) = x.magnitude / y.magnitude * (c.span - c.zero).toNat := by
  unfold rise
  rw [hspanPpm]
  dsimp only
  rw [Finite.value_of_unsigned hx, Finite.value_of_unsigned hy]

theorem rise_of_infinite {negative : Bool} (hspanPpm : c.spanPpm = .infinity negative)
    (ppm : Single) : c.rise ppm = 0 := by
  unfold rise
  rw [hspanPpm]
  cases ppm <;> rfl

/-- A concentration that is worth half a count, and as much as the quotient can lose, stands above
the zero point. -/
theorem zero_lt_rawOf (hline : c.Usable) (hspan : c.span ≤ Board.fullScale)
    (hfinite : ppm.isFinite) (hpos : 0 < ppm) (hrise : 1 / 2 + 1 / 0x1000000 ≤ c.rise ppm) :
    c.zero < c.rawOf ppm := by
  obtain ⟨hone, hscale, -⟩ := counts_bounds hline hspan
  have hheight : (.ofWord c.zero + ppm / c.spanPpm * c.range : Single).AtLeast
      (c.zero.toNat + (0x800 : Nat) / 0x1000) := by
    rcases pos_cases hpos with rfl | ⟨x, rfl, hx, hxpos⟩
    · cases hfinite
    rcases pos_cases hline.2.2 with hinfinite | ⟨y, hy, hysign, hypos⟩
    · rw [rise_of_infinite hinfinite] at hrise
      norm_num at hrise
    · rw [rise_of_finite hx hysign hy] at hrise
      have hxbound : (Single.finite x).AtLeast x.magnitude := ⟨hx, le_refl _⟩
      have hybound : c.spanPpm.AtMost y.magnitude := hy ▸ ⟨hysign, le_refl _⟩
      exact height_atLeast hline hspan (by norm_num) (by norm_num) (hxbound.div hybound hxpos)
        (half_le_nearest_mul hone hscale hrise)
  have hnext : (c.zero + 1).toNat = c.zero.toNat + 1 := by
    have := zero_bound hline
    rw [UInt32.toNat_add]
    exact Nat.mod_eq_of_lt (by
      show c.zero.toNat + 1 < 2 ^ 32
      omega)
  -- Halves go up, so the word is the one after the zero point or a greater one.
  have hword := hheight.le_toWord (w := c.zero + 1) (by
    rw [hnext]
    push_cast
    norm_num
    linarith)
  rw [rawOf_of_pos hline hfinite hpos]
  apply lt_clamp (UInt32.lt_of_lt_of_le hline.1 hspan)
  rw [UInt32.le_iff_toNat_le, hnext] at hword
  rw [UInt32.lt_iff_toNat_lt]
  omega

/-- A concentration that falls short of half a count by a little stands at the zero point. -/
theorem rawOf_eq_zero (hline : c.Usable) (hspan : c.span ≤ Board.fullScale)
    (hfinite : ppm.isFinite) (hpos : 0 < ppm) (hrise : c.rise ppm ≤ 1 / 2 - 1 / 0x800) :
    c.rawOf ppm = c.zero := by
  obtain ⟨hone, hscale, -⟩ := counts_bounds hline hspan
  have hcounts : 0 ≤ ((c.span - c.zero).toNat : Rat) := by linarith
  obtain ⟨q, hquotient, hq⟩ : ∃ q, (ppm / c.spanPpm).AtMost q ∧
      q * (c.span - c.zero).toNat ≤ (0x7ff : Nat) / (0x1000 : Rat) := by
    rcases pos_cases hpos with rfl | ⟨x, rfl, hx, hxpos⟩
    · cases hfinite
    rcases pos_cases hline.2.2 with hinfinite | ⟨y, hy, hysign, hypos⟩
    -- An infinite span takes every quotient to zero.
    · refine ⟨0, ?_, by norm_num⟩
      rw [hinfinite, div_infinity_of_unsigned hx]
      exact zero_atMost (le_refl 0)
    · rw [rise_of_finite hx hysign hy] at hrise
      have hxbound : (Single.finite x).AtMost x.magnitude := ⟨hx, le_refl _⟩
      have hybound : c.spanPpm.AtLeast y.magnitude := hy ▸ ⟨hysign, le_refl _⟩
      have hnonneg : 0 ≤ x.magnitude / y.magnitude := div_nonneg hxpos.le hypos.le
      have hq := nearest_mul_le hnonneg hcounts hscale hrise
      have hsmall : nearest (x.magnitude / y.magnitude) < (2 : Rat) ^ (128 : Int) := by
        have hless := le_mul_of_one_le_right (nearest_nonneg hnonneg) hone
        have hbig : (1 : Rat) < (2 : Rat) ^ (128 : Int) := by norm_num
        norm_num at hq
        linarith
      exact ⟨_, hxbound.div hybound hypos hsmall, hq⟩
  have hheight := height_atMost hline hspan (by norm_num) hquotient hq
  rw [rawOf_of_pos hline hfinite hpos]
  exact clamp_of_le hline.2.1 (hheight.toWord_le (by norm_num))

end OnScale

end Calibration

end GasWatch
