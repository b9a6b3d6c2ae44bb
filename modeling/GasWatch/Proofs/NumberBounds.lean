import GasWatch.Proofs.Nearest
import GasWatch.Single.Arithmetic

/-!
# Bounds through the arithmetic

`Single.AtLeast` and `Single.AtMost` bound a number that is not negative by an exact one; the first
holds of the positive infinity, the second does not.  A sum, a product and a quotient are bounded by
the nearest number of what the bounds of the operands come to, so a bound is followed through a
formula one operation at a time, and an overflow on the way is no case of its own.
`AtLeast.le_toWord` and `AtMost.toWord_le` bring it to the word that the formula gives.
-/

namespace GasWatch

namespace Single

/-! ## Numbers that are not negative -/

theorem round_zero : round false 0 = zero false := by decide +kernel

namespace Finite

theorem magnitude_nonneg (x : Finite) : 0 ≤ x.magnitude :=
  mul_nonneg (Nat.cast_nonneg _) (two_zpow_pos _).le

theorem magnitude_eq_zero_iff {x : Finite} : x.magnitude = 0 ↔ x.significand = 0 := by
  unfold magnitude
  rw [mul_eq_zero, Nat.cast_eq_zero, or_iff_left (two_zpow_pos _).ne']

theorem magnitude_zero (negative : Bool) (place : Int) (hcanonical : Canonical 0 place) :
    (Finite.mk negative 0 place hcanonical).magnitude = 0 :=
  magnitude_eq_zero_iff.mpr rfl

theorem significand_ne_zero {x : Finite} (hpos : 0 < x.magnitude) : x.significand ≠ 0 :=
  fun h => hpos.ne' (magnitude_eq_zero_iff.mpr h)

theorem value_of_unsigned {x : Finite} (hx : x.negative = false) : x.value = x.magnitude := by
  rw [value, hx, if_neg Bool.false_ne_true]

theorem value_nonneg_of_unsigned {x : Finite} (hx : x.negative = false) : 0 ≤ x.value := by
  rw [value_of_unsigned hx]
  exact x.magnitude_nonneg

theorem unsigned_of_pos {x : Finite} (hpos : 0 < x.value) : x.negative = false := by
  cases hx : x.negative with
  | false => rfl
  | true =>
    rw [value, hx, if_pos rfl] at hpos
    linarith [x.magnitude_nonneg]

end Finite

theorem zero_eq : (0 : Single) = zero false := round_zero

theorem zero_lt_finite_iff {x : Finite} : 0 < Single.finite x ↔ 0 < x.value := by
  show (0 : Single).isBelow (.finite x) = true ↔ _
  rw [zero_eq, zero, isBelow, decide_eq_true_iff, Finite.value_of_unsigned rfl,
    Finite.magnitude_zero]

theorem finite_le_zero_iff {x : Finite} : Single.finite x ≤ 0 ↔ x.value ≤ 0 := by
  show (Single.finite x).isAtMost 0 = true ↔ _
  rw [zero_eq, zero, isAtMost, decide_eq_true_iff]
  rw [Finite.value_of_unsigned (x := ⟨false, 0, -149, _⟩) rfl, Finite.magnitude_zero]

theorem finite_lt_zero_iff {x : Finite} : Single.finite x < 0 ↔ x.value < 0 := by
  show (Single.finite x).isBelow 0 = true ↔ _
  rw [zero_eq, zero, isBelow, decide_eq_true_iff]
  rw [Finite.value_of_unsigned (x := ⟨false, 0, -149, _⟩) rfl, Finite.magnitude_zero]

/-- A positive number is the positive infinity, or finite with a positive magnitude. -/
theorem pos_cases {s : Single} (hs : 0 < s) :
    s = .infinity false ∨ ∃ x : Finite, s = .finite x ∧ x.negative = false ∧ 0 < x.magnitude := by
  cases s with
  | nan =>
    have hbelow : (0 : Single).isBelow nan = true := hs
    rw [zero_eq] at hbelow
    cases hbelow
  | infinity negative =>
    have hbelow : (0 : Single).isBelow (infinity negative) = true := hs
    rw [zero_eq] at hbelow
    cases negative with
    | false => exact Or.inl rfl
    | true => cases hbelow
  | finite x =>
    have hvalue := zero_lt_finite_iff.mp hs
    have hx := Finite.unsigned_of_pos hvalue
    rw [Finite.value_of_unsigned hx] at hvalue
    exact Or.inr ⟨x, rfl, hx, hvalue⟩

/-- A positive number is not at most zero. -/
theorem not_le_zero {s : Single} (hs : 0 < s) : ¬ s ≤ 0 := by
  rcases pos_cases hs with rfl | ⟨x, rfl, -, -⟩
  · intro hle
    have hle : (infinity false).isAtMost 0 = true := hle
    rw [zero_eq] at hle
    cases hle
  · rw [finite_le_zero_iff, not_le]
    exact zero_lt_finite_iff.mp hs

/-! ## Bounds -/

/-- The number is not negative and not less than the bound. -/
def AtLeast : Single → Rat → Prop
  | .nan, _ => False
  | .infinity negative, _ => negative = false
  | .finite x, bound => x.negative = false ∧ bound ≤ x.magnitude

/-- The number is finite, not negative and not more than the bound. -/
def AtMost : Single → Rat → Prop
  | .finite x, bound => x.negative = false ∧ x.magnitude ≤ bound
  | _, _ => False

variable {s t : Single} {u v : Rat}

theorem infinity_atLeast (u : Rat) : (infinity false).AtLeast u := rfl

theorem zero_atMost (hu : 0 ≤ u) : (zero false).AtMost u :=
  ⟨rfl, (Finite.magnitude_zero _ _ _).trans_le hu⟩

theorem AtLeast.cases (hs : s.AtLeast u) :
    s = .infinity false ∨ ∃ x : Finite, s = .finite x ∧ x.negative = false ∧ u ≤ x.magnitude := by
  cases s with
  | nan => exact hs.elim
  | infinity negative => exact Or.inl (congrArg infinity hs)
  | finite x => exact Or.inr ⟨x, rfl, hs⟩

theorem AtMost.cases (hs : s.AtMost u) :
    ∃ x : Finite, s = .finite x ∧ x.negative = false ∧ x.magnitude ≤ u := by
  cases s with
  | nan => exact hs.elim
  | infinity negative => exact hs.elim
  | finite x => exact ⟨x, rfl, hs⟩

theorem AtLeast.weaken (hs : s.AtLeast u) (h : v ≤ u) : s.AtLeast v := by
  rcases hs.cases with rfl | ⟨x, rfl, hx, hu⟩
  · exact infinity_atLeast v
  · exact ⟨hx, h.trans hu⟩

theorem AtMost.weaken (hs : s.AtMost u) (h : u ≤ v) : s.AtMost v := by
  obtain ⟨x, rfl, hx, hu⟩ := hs.cases
  exact ⟨hx, hu.trans h⟩

theorem AtMost.nonneg (hs : s.AtMost u) : 0 ≤ u := by
  obtain ⟨x, -, -, hu⟩ := hs.cases
  exact x.magnitude_nonneg.trans hu

theorem AtMost.atLeast_zero (hs : s.AtMost u) : s.AtLeast 0 := by
  obtain ⟨x, rfl, hx, -⟩ := hs.cases
  exact ⟨hx, x.magnitude_nonneg⟩

/-- A number that is not negative is not held to zero. -/
theorem AtLeast.greater_zero (hs : s.AtLeast u) : s.greater 0 = s := by
  rw [zero_eq]
  rcases hs.cases with rfl | ⟨x, rfl, hx, -⟩
  · rfl
  · have hnotBelow : ¬ Single.finite x < zero false := by
      rw [← zero_eq, finite_lt_zero_iff, not_lt]
      exact Finite.value_nonneg_of_unsigned hx
    have hsign : (Single.finite x).isNegative = false := hx
    show (if Single.finite x < zero false ∨
      (Single.finite x ≤ zero false ∧ (Single.finite x).isNegative) then _ else _) = _
    rw [if_neg]
    simp [hnotBelow, hsign]

theorem round_atLeast {x : Rat} (hx : 0 ≤ x) : (round false x).AtLeast (nearest x) := by
  by_cases hlt : nearest x < (2 : Rat) ^ (128 : Int)
  · obtain ⟨y, hround, hsign, hmagnitude⟩ := round_of_lt false hx hlt
    rw [hround]
    exact ⟨hsign, hmagnitude.ge⟩
  · rw [round_of_ge false hx (not_lt.mp hlt)]
    exact rfl

theorem round_atMost {x : Rat} (hx : 0 ≤ x) (hlt : nearest x < (2 : Rat) ^ (128 : Int)) :
    (round false x).AtMost (nearest x) := by
  obtain ⟨y, hround, hsign, hmagnitude⟩ := round_of_lt false hx hlt
  rw [hround]
  exact ⟨hsign, hmagnitude.le⟩

/-! ## Sums -/

theorem add_of_unsigned {x y : Finite} (hx : x.negative = false) (hy : y.negative = false) :
    (.finite x + .finite y : Single) = round false (x.magnitude + y.magnitude) := by
  have hsum : 0 ≤ x.magnitude + y.magnitude := add_nonneg x.magnitude_nonneg y.magnitude_nonneg
  show (if x.value + y.value = 0 then zero (x.negative && y.negative)
    else if x.value + y.value < 0 then round true (-(x.value + y.value))
    else round false (x.value + y.value)) = _
  rw [Finite.value_of_unsigned hx, Finite.value_of_unsigned hy, hx, if_neg hsum.not_gt]
  by_cases hzero : x.magnitude + y.magnitude = 0
  · rw [if_pos hzero, hzero, round_zero]
    rfl
  · rw [if_neg hzero]

theorem AtLeast.add (hs : s.AtLeast u) (ht : t.AtLeast v) :
    (s + t).AtLeast (nearest (u + v)) := by
  rcases hs.cases with rfl | ⟨x, rfl, hx, hu⟩ <;> rcases ht.cases with rfl | ⟨y, rfl, hy, hv⟩
  · exact infinity_atLeast _
  · exact infinity_atLeast _
  · exact infinity_atLeast _
  · rw [add_of_unsigned hx hy]
    exact (round_atLeast (add_nonneg x.magnitude_nonneg y.magnitude_nonneg)).weaken
      (nearest_mono (add_le_add hu hv))

theorem AtMost.add (hs : s.AtMost u) (ht : t.AtMost v)
    (hlt : nearest (u + v) < (2 : Rat) ^ (128 : Int)) : (s + t).AtMost (nearest (u + v)) := by
  obtain ⟨x, rfl, hx, hu⟩ := hs.cases
  obtain ⟨y, rfl, hy, hv⟩ := ht.cases
  have hle := nearest_mono (add_le_add hu hv)
  rw [add_of_unsigned hx hy]
  exact (round_atMost (add_nonneg x.magnitude_nonneg y.magnitude_nonneg)
    (hle.trans_lt hlt)).weaken hle

/-! ## Products -/

theorem mul_of_unsigned {x y : Finite} (hx : x.negative = false) (hy : y.negative = false) :
    (.finite x * .finite y : Single) = round false (x.magnitude * y.magnitude) := by
  show round (x.negative ^^ y.negative) (x.magnitude * y.magnitude) = _
  rw [hx, hy]
  rfl

theorem infinity_mul_of_pos {y : Finite} (hy : y.negative = false) (hpos : 0 < y.magnitude) :
    (.infinity false * .finite y : Single) = .infinity false := by
  show (if y.significand = 0 then Single.nan else .infinity (false ^^ y.negative)) = _
  rw [if_neg (Finite.significand_ne_zero hpos), hy]
  rfl

theorem mul_infinity_of_pos {x : Finite} (hx : x.negative = false) (hpos : 0 < x.magnitude) :
    (.finite x * .infinity false : Single) = .infinity false := by
  show (if x.significand = 0 then Single.nan else .infinity (x.negative ^^ false)) = _
  rw [if_neg (Finite.significand_ne_zero hpos), hx]
  rfl

theorem AtLeast.mul (hs : s.AtLeast u) (ht : t.AtLeast v) (hupos : 0 < u) (hvpos : 0 < v) :
    (s * t).AtLeast (nearest (u * v)) := by
  rcases hs.cases with rfl | ⟨x, rfl, hx, hu⟩ <;> rcases ht.cases with rfl | ⟨y, rfl, hy, hv⟩
  · exact infinity_atLeast _
  · rw [infinity_mul_of_pos hy (hvpos.trans_le hv)]
    exact infinity_atLeast _
  · rw [mul_infinity_of_pos hx (hupos.trans_le hu)]
    exact infinity_atLeast _
  · rw [mul_of_unsigned hx hy]
    exact (round_atLeast (mul_nonneg x.magnitude_nonneg y.magnitude_nonneg)).weaken
      (nearest_mono (mul_le_mul hu hv hvpos.le x.magnitude_nonneg))

theorem AtMost.mul (hs : s.AtMost u) (ht : t.AtMost v)
    (hlt : nearest (u * v) < (2 : Rat) ^ (128 : Int)) : (s * t).AtMost (nearest (u * v)) := by
  have hunonneg := hs.nonneg
  obtain ⟨x, rfl, hx, hu⟩ := hs.cases
  obtain ⟨y, rfl, hy, hv⟩ := ht.cases
  have hle := nearest_mono (mul_le_mul hu hv y.magnitude_nonneg hunonneg)
  rw [mul_of_unsigned hx hy]
  exact (round_atMost (mul_nonneg x.magnitude_nonneg y.magnitude_nonneg)
    (hle.trans_lt hlt)).weaken hle

/-- A finite factor does not have to be bounded apart. -/
theorem AtLeast.mul_finite {y : Finite} (hs : s.AtLeast u) (hy : y.negative = false)
    (hpos : 0 < y.magnitude) : (s * .finite y).AtLeast (nearest (u * y.magnitude)) := by
  rcases hs.cases with rfl | ⟨x, rfl, hx, hu⟩
  · rw [infinity_mul_of_pos hy hpos]
    exact infinity_atLeast _
  · rw [mul_of_unsigned hx hy]
    exact (round_atLeast (mul_nonneg x.magnitude_nonneg hpos.le)).weaken
      (nearest_mono (mul_le_mul_of_nonneg_right hu hpos.le))

/-! ## Quotients -/

theorem div_of_unsigned {x y : Finite} (hx : x.negative = false) (hy : y.negative = false)
    (hpos : 0 < y.magnitude) :
    (.finite x / .finite y : Single) = round false (x.magnitude / y.magnitude) := by
  show (if y.significand = 0 then _ else round (x.negative ^^ y.negative) _) = _
  rw [if_neg (Finite.significand_ne_zero hpos), hx, hy]
  rfl

theorem div_of_zero {x y : Finite} (hx : x.negative = false) (hpos : 0 < x.magnitude)
    (hy : y.negative = false) (hzero : y.magnitude = 0) :
    (.finite x / .finite y : Single) = .infinity false := by
  show (if y.significand = 0 then
      if x.significand = 0 then Single.nan else .infinity (x.negative ^^ y.negative)
    else _) = _
  rw [if_pos (Finite.magnitude_eq_zero_iff.mp hzero),
    if_neg (Finite.significand_ne_zero hpos), hx, hy]
  rfl

theorem div_infinity_of_unsigned {x : Finite} (hx : x.negative = false) :
    (.finite x / .infinity false : Single) = zero false := by
  show zero (Bool.xor x.negative false) = _
  rw [hx]
  rfl

theorem AtLeast.div (hs : s.AtLeast u) (ht : t.AtMost v) (hupos : 0 < u) :
    (s / t).AtLeast (nearest (u / v)) := by
  obtain ⟨y, rfl, hy, hv⟩ := ht.cases
  rcases hs.cases with rfl | ⟨x, rfl, hx, hu⟩
  · show Bool.xor false y.negative = false
    rw [hy]
    rfl
  · rcases y.magnitude_nonneg.eq_or_lt with hzero | hpos
    · rw [div_of_zero hx (hupos.trans_le hu) hy hzero.symm]
      exact rfl
    · rw [div_of_unsigned hx hy hpos]
      exact (round_atLeast (div_nonneg x.magnitude_nonneg hpos.le)).weaken
        (nearest_mono (div_le_div₀ x.magnitude_nonneg hu hpos hv))

theorem AtMost.div (hs : s.AtMost u) (ht : t.AtLeast v) (hvpos : 0 < v)
    (hlt : nearest (u / v) < (2 : Rat) ^ (128 : Int)) : (s / t).AtMost (nearest (u / v)) := by
  have hunonneg := hs.nonneg
  obtain ⟨x, rfl, hx, hu⟩ := hs.cases
  rcases ht.cases with rfl | ⟨y, rfl, hy, hv⟩
  · rw [div_infinity_of_unsigned hx]
    exact zero_atMost (nearest_nonneg (div_nonneg hunonneg hvpos.le))
  · have hpos := hvpos.trans_le hv
    have hle := nearest_mono (div_le_div₀ hunonneg hu hvpos hv)
    rw [div_of_unsigned hx hy hpos]
    exact (round_atMost (div_nonneg x.magnitude_nonneg hpos.le) (hle.trans_lt hlt)).weaken hle

/-! ## Words -/

theorem representable_natCast {n : Nat} (hn : n < 0x1000000) : Representable n :=
  ⟨n, 0, hn, by omega, by rw [zpow_zero, mul_one]⟩

theorem natCast_lt_two_zpow {n : Nat} (hn : n < 0x1000000) :
    (n : Rat) < (2 : Rat) ^ (128 : Int) := by
  have hlt : (n : Rat) < 0x1000000 := by exact_mod_cast hn
  norm_num
  linarith

/-- A longer word may be rounded, but not below a count of at most 24 bits. -/
theorem ofWord_atLeast_of_le {w : UInt32} {n : Nat} (hn : n < 0x1000000) (h : n ≤ w.toNat) :
    (ofWord w).AtLeast n := by
  apply (round_atLeast (Nat.cast_nonneg w.toNat)).weaken
  exact le_nearest (representable_natCast hn) (by exact_mod_cast h)

/-- A word of at most 24 bits is kept. -/
theorem ofWord_atLeast {w : UInt32} (hw : w.toNat < 0x1000000) :
    (ofWord w).AtLeast w.toNat :=
  ofWord_atLeast_of_le hw (Nat.le_refl _)

theorem ofWord_atMost {w : UInt32} (hw : w.toNat < 0x1000000) : (ofWord w).AtMost w.toNat := by
  have hnearest := nearest_of_representable (representable_natCast hw)
  have h := round_atMost (Nat.cast_nonneg (α := Rat) w.toNat)
    (by rw [hnearest]; exact natCast_lt_two_zpow hw)
  rwa [hnearest] at h

theorem exists_finite_ofWord {w : UInt32} (hw : w.toNat < 0x1000000) :
    ∃ y : Finite, ofWord w = .finite y ∧ y.negative = false ∧ y.magnitude = w.toNat := by
  obtain ⟨y, hy, hsign, hle⟩ := (ofWord_atMost hw).cases
  have hge := ofWord_atLeast hw
  rw [hy] at hge
  exact ⟨y, hy, hsign, le_antisymm hle hge.2⟩

/-- From half a unit below a word on, a number is taken to that word or a greater one. -/
theorem AtLeast.le_toWord {w : UInt32} (hs : s.AtLeast u) (hw : (w.toNat : Rat) ≤ u + 1 / 2) :
    w ≤ s.toWord := by
  have hlt := w.toNat_lt
  rcases hs.cases with rfl | ⟨x, rfl, hx, hu⟩
  · rw [UInt32.le_iff_toNat_le]
    show w.toNat ≤ (0xffffffff : UInt32).toNat
    exact Nat.le_of_lt_succ hlt
  · have hle : ((w.toNat : Int) : Rat) ≤ x.magnitude + 1 / 2 := by
      rw [Int.cast_natCast]
      linarith
    have hround := le_roundNearest_up hle
    show w ≤ (if x.negative then 0 else saturate (roundNearest .up x.magnitude).toNat)
    rw [hx, if_neg Bool.false_ne_true, UInt32.le_iff_toNat_le, toNat_saturate]
    omega

/-- Below half a unit above a word, a number is taken to that word or a lesser one. -/
theorem AtMost.toWord_le {w : UInt32} (hs : s.AtMost u) (hw : u < w.toNat + 1 / 2) :
    s.toWord ≤ w := by
  obtain ⟨x, rfl, hx, hu⟩ := hs.cases
  have hlt : x.magnitude < ((w.toNat : Int) : Rat) + 1 / 2 := by
    rw [Int.cast_natCast]
    linarith
  have hround := roundNearest_le_of_lt .up hlt
  show (if x.negative then 0 else saturate (roundNearest .up x.magnitude).toNat) ≤ w
  rw [hx, if_neg Bool.false_ne_true, UInt32.le_iff_toNat_le, toNat_saturate]
  omega

/-- A number is taken to a word that is at most half a unit below it. -/
theorem AtLeast.le_toWord_add_half (hs : s.AtLeast u) (hu : u ≤ 0xffffffff) :
    u ≤ s.toWord.toNat + 1 / 2 := by
  rcases hs.cases with rfl | ⟨x, rfl, hx, hle⟩
  · have hword : (toWord (.infinity false)).toNat = 0xffffffff := rfl
    rw [hword]
    norm_num
    linarith
  · have hround := (roundNearest_bounds .up x.magnitude).2
    have hcount : (roundNearest .up x.magnitude : Rat) ≤ (roundNearest .up x.magnitude).toNat := by
      exact_mod_cast Int.self_le_toNat _
    show u ≤ (if x.negative then 0 else saturate (roundNearest .up x.magnitude).toNat).toNat + 1 / 2
    rw [hx, if_neg Bool.false_ne_true, toNat_saturate, Nat.cast_min]
    rcases min_choice ((roundNearest .up x.magnitude).toNat : Rat) ((0xffffffff : Nat) : Rat) with
      heq | heq
    · rw [heq]
      linarith
    · rw [heq]
      norm_num
      linarith

/-- A number is taken to a word that is at most half a unit above it. -/
theorem AtMost.toWord_le_add_half (hs : s.AtMost u) : (s.toWord.toNat : Rat) ≤ u + 1 / 2 := by
  obtain ⟨x, rfl, hx, hle⟩ := hs.cases
  have hround := (roundNearest_bounds .up x.magnitude).1
  have hnonneg : 0 ≤ roundNearest .up x.magnitude := by
    apply le_roundNearest
    rw [Int.cast_zero]
    exact x.magnitude_nonneg
  have hcount : ((roundNearest .up x.magnitude).toNat : Rat) = roundNearest .up x.magnitude := by
    exact_mod_cast Int.toNat_of_nonneg hnonneg
  show ((if x.negative then 0 else saturate (roundNearest .up x.magnitude).toNat).toNat : Rat) ≤ _
  rw [hx, if_neg Bool.false_ne_true, toNat_saturate, Nat.cast_min]
  exact (min_le_left _ _).trans (by linarith)

end Single

end GasWatch
