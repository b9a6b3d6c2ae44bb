import GasWatch.Proofs.NumberBounds

/-!
# Order through the arithmetic

`Single.Ascends` puts two numbers that are not negative in order.  Rounding keeps it
(`Ascends.of_round`), for the magnitude that overflows is the greater one, and so does every
operation with an operand that stays the same:

* `Ascends.of_word`, `Ascends.toWord_le`: the steps from a word and to a word;
* `Ascends.add_left`, `Ascends.mul_right`, `Ascends.div_right`: a sum, a product and a quotient.

A factor that is not positive leaves the order of products open.  `mul_greater_zero` says what
becomes of such a product when it is held to zero: whatever the factor is, also a NaN, it is zero.
-/

namespace GasWatch

namespace Single

variable {s t : Single} {u : Rat}

/-! ## Comparing -/

theorem finite_le_finite_iff {x y : Finite} :
    Single.finite x ≤ .finite y ↔ x.value ≤ y.value :=
  decide_eq_true_iff

theorem zero_atLeast : (0 : Single).AtLeast 0 := by
  rw [zero_eq]
  exact (zero_atMost (le_refl 0)).atLeast_zero

theorem AtLeast.atLeast_zero (hs : s.AtLeast u) : s.AtLeast 0 := by
  rcases hs.cases with rfl | ⟨x, rfl, hx, -⟩
  · exact infinity_atLeast 0
  · exact ⟨hx, x.magnitude_nonneg⟩

theorem AtLeast.ne_nan (hs : s.AtLeast u) : s ≠ .nan := by
  rintro rfl
  exact hs

theorem AtLeast.le_infinity (hs : s.AtLeast u) : s ≤ .infinity false := by
  rcases hs.cases with rfl | ⟨x, rfl, -, -⟩
  · show (infinity false).isAtMost (infinity false) = true
    rfl
  · show (Single.finite x).isAtMost (infinity false) = true
    rfl

theorem AtLeast.zero_le (hs : s.AtLeast u) : 0 ≤ s := by
  rw [zero_eq]
  rcases hs.cases with rfl | ⟨x, rfl, hx, -⟩
  · show (zero false).isAtMost (infinity false) = true
    rfl
  · rw [zero, finite_le_finite_iff, Finite.value_of_unsigned rfl, Finite.magnitude_zero]
    exact Finite.value_nonneg_of_unsigned hx

theorem AtLeast.not_lt_zero (hs : s.AtLeast u) : ¬ s < 0 := by
  intro hlt
  have hbelow : s.isBelow 0 = true := hlt
  rw [zero_eq] at hbelow
  rcases hs.cases with rfl | ⟨x, rfl, hx, -⟩
  · cases hbelow
  · rw [finite_lt_zero_iff] at hlt
    exact absurd (Finite.value_nonneg_of_unsigned hx) (not_le.mpr hlt)

/-- A finite number is positive, or at most zero. -/
theorem pos_of_not_le_zero {x : Finite} (hx : ¬ Single.finite x ≤ 0) : 0 < Single.finite x := by
  rw [finite_le_zero_iff, not_le] at hx
  exact zero_lt_finite_iff.mpr hx

/-- Two numbers that are not negative, the second no less than the first. -/
structure Ascends (s t : Single) : Prop where
  low : s.AtLeast 0
  high : t.AtLeast 0
  le : s ≤ t

namespace Ascends

theorem to_infinity (hs : s.AtLeast u) : s.Ascends (.infinity false) :=
  ⟨hs.atLeast_zero, infinity_atLeast 0, hs.le_infinity⟩

theorem from_zero (ht : t.AtLeast u) : (0 : Single).Ascends t :=
  ⟨zero_atLeast, ht.atLeast_zero, ht.zero_le⟩

theorem of_finite {x y : Finite} (hx : x.negative = false) (hy : y.negative = false)
    (hxy : x.magnitude ≤ y.magnitude) : (Single.finite x).Ascends (.finite y) := by
  refine ⟨⟨hx, x.magnitude_nonneg⟩, ⟨hy, y.magnitude_nonneg⟩, ?_⟩
  rw [finite_le_finite_iff, Finite.value_of_unsigned hx, Finite.value_of_unsigned hy]
  exact hxy

theorem refl (hs : s.AtLeast u) : s.Ascends s := by
  rcases hs.cases with rfl | ⟨x, rfl, hx, -⟩
  · exact to_infinity (infinity_atLeast u)
  · exact of_finite hx hx (le_refl _)

/-- The greater number is infinite, or both are finite. -/
theorem cases (h : s.Ascends t) :
    t = .infinity false ∨ ∃ x y : Finite, s = .finite x ∧ t = .finite y ∧
      x.negative = false ∧ y.negative = false ∧ x.magnitude ≤ y.magnitude := by
  rcases h.high.cases with rfl | ⟨y, rfl, hy, -⟩
  · exact Or.inl rfl
  have hle := h.le
  rcases h.low.cases with rfl | ⟨x, rfl, hx, -⟩
  · have hnot : (infinity false).isAtMost (.finite y) = true := hle
    cases hnot
  · rw [finite_le_finite_iff, Finite.value_of_unsigned hx, Finite.value_of_unsigned hy] at hle
    exact Or.inr ⟨x, y, rfl, rfl, hx, hy, hle⟩

/-! ## Rounding -/

/-- Rounding keeps the order, also when the greater magnitude overflows. -/
theorem of_round {x y : Rat} (hx : 0 ≤ x) (hxy : x ≤ y) :
    (round false x).Ascends (round false y) := by
  have hy := hx.trans hxy
  have hnearest := nearest_mono hxy
  by_cases hlt : nearest y < (2 : Rat) ^ (128 : Int)
  · obtain ⟨low, hlow, hlowSign, hlowMagnitude⟩ := round_of_lt false hx (hnearest.trans_lt hlt)
    obtain ⟨high, hhigh, hhighSign, hhighMagnitude⟩ := round_of_lt false hy hlt
    rw [hlow, hhigh]
    apply of_finite hlowSign hhighSign
    rw [hlowMagnitude, hhighMagnitude]
    exact hnearest
  · rw [round_of_ge false hy (not_lt.mp hlt)]
    exact to_infinity (round_atLeast hx)

/-- The number of a word grows with the word, although several words may share one. -/
theorem of_word {v w : UInt32} (h : v ≤ w) : (ofWord v).Ascends (ofWord w) := by
  apply of_round (Nat.cast_nonneg v.toNat)
  exact_mod_cast UInt32.le_iff_toNat_le.mp h

/-! ## Operations -/

variable {z : Finite}

theorem add_left (hz : z.negative = false) (h : s.Ascends t) :
    (.finite z + s : Single).Ascends (.finite z + t) := by
  have hbound : (Single.finite z).AtLeast 0 := ⟨hz, z.magnitude_nonneg⟩
  rcases h.cases with rfl | ⟨x, y, rfl, rfl, hx, hy, hxy⟩
  · exact to_infinity (hbound.add h.low)
  · rw [add_of_unsigned hz hx, add_of_unsigned hz hy]
    apply of_round (add_nonneg z.magnitude_nonneg x.magnitude_nonneg)
    linarith

theorem mul_right (hz : z.negative = false) (hpos : 0 < z.magnitude) (h : s.Ascends t) :
    (s * .finite z : Single).Ascends (t * .finite z) := by
  rcases h.cases with rfl | ⟨x, y, rfl, rfl, hx, hy, hxy⟩
  · rw [infinity_mul_of_pos hz hpos]
    exact to_infinity (h.low.mul_finite hz hpos)
  · rw [mul_of_unsigned hx hz, mul_of_unsigned hy hz]
    apply of_round (mul_nonneg x.magnitude_nonneg hpos.le)
    exact mul_le_mul_of_nonneg_right hxy hpos.le

/-- An infinite divisor takes both quotients to zero. -/
theorem div_right {r : Single} (h : s.Ascends t) (ht : t.isFinite) (hr : 0 < r) :
    (s / r).Ascends (t / r) := by
  rcases h.cases with rfl | ⟨x, y, rfl, rfl, hx, hy, hxy⟩
  · cases ht
  rcases pos_cases hr with rfl | ⟨z, rfl, hz, hpos⟩
  · rw [div_infinity_of_unsigned hx, div_infinity_of_unsigned hy, ← zero_eq]
    exact refl zero_atLeast
  · rw [div_of_unsigned hx hz hpos, div_of_unsigned hy hz hpos]
    apply of_round (div_nonneg x.magnitude_nonneg hpos.le)
    exact div_le_div_of_nonneg_right hxy hpos.le

theorem toWord_le (h : s.Ascends t) : s.toWord ≤ t.toWord := by
  rw [UInt32.le_iff_toNat_le]
  rcases h.cases with rfl | ⟨x, y, rfl, rfl, hx, hy, hxy⟩
  · have hlt := s.toWord.toNat_lt
    show s.toWord.toNat ≤ 0xffffffff
    omega
  · have hround := Int.toNat_le_toNat (roundNearest_mono .up hxy)
    show (if x.negative then 0 else saturate (roundNearest .up x.magnitude).toNat).toNat ≤
      (if y.negative then 0 else saturate (roundNearest .up y.magnitude).toNat).toNat
    rw [hx, hy, if_neg Bool.false_ne_true, if_neg Bool.false_ne_true, toNat_saturate,
      toNat_saturate]
    omega

end Ascends

/-! ## Products held to zero -/

/-- A number with a negative sign is held to zero, also the negative zero. -/
theorem greater_zero_of_isNegative (hs : s.isNegative = true) : s.greater 0 = 0 := by
  rw [zero_eq]
  cases s with
  | nan => cases hs
  | infinity negative =>
    obtain rfl : negative = true := hs
    rfl
  | finite x =>
    have hle : Single.finite x ≤ zero false := by
      rw [← zero_eq, finite_le_zero_iff, Finite.value, if_pos (show x.negative = true from hs)]
      linarith [x.magnitude_nonneg]
    show (if Single.finite x < zero false ∨
      (Single.finite x ≤ zero false ∧ (Single.finite x).isNegative) then _ else _) = _
    rw [if_pos (Or.inr ⟨hle, hs⟩)]

theorem isNegative_round {x : Rat} (hx : 0 ≤ x) : (round true x).isNegative = true := by
  by_cases hlt : nearest x < (2 : Rat) ^ (128 : Int)
  · obtain ⟨y, hround, hsign, -⟩ := round_of_lt true hx hlt
    rw [hround]
    exact hsign
  · rw [round_of_ge true hx (not_lt.mp hlt)]
    rfl

/-- A positive number times one that is not positive, held to zero, is zero. -/
theorem mul_greater_zero {x : Finite} (hx : x.negative = false) (hpos : 0 < x.magnitude)
    (hs : ¬ 0 < s) : (.finite x * s : Single).greater 0 = 0 := by
  cases s with
  | nan => rfl
  | infinity negative =>
    cases negative with
    | false => exact absurd (by rw [zero_eq]; rfl) hs
    | true =>
      have hproduct : (.finite x * .infinity true : Single) = .infinity true := by
        show (if x.significand = 0 then Single.nan else .infinity (x.negative ^^ true)) = _
        rw [if_neg (Finite.significand_ne_zero hpos), hx]
        rfl
      rw [hproduct]
      exact greater_zero_of_isNegative rfl
  | finite y =>
    cases hy : y.negative with
    | false =>
      have hzero : y.magnitude = 0 := by
        rw [zero_lt_finite_iff, Finite.value_of_unsigned hy, not_lt] at hs
        exact le_antisymm hs y.magnitude_nonneg
      rw [mul_of_unsigned hx hy, hzero, mul_zero, round_zero, ← zero_eq]
      exact zero_atLeast.greater_zero
    | true =>
      have hproduct : (.finite x * .finite y : Single) =
          round true (x.magnitude * y.magnitude) := by
        show round (x.negative ^^ y.negative) _ = _
        rw [hx, hy]
        rfl
      rw [hproduct]
      apply greater_zero_of_isNegative
      exact isNegative_round (mul_nonneg x.magnitude_nonneg y.magnitude_nonneg)

end Single

end GasWatch
