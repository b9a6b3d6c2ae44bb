import GasWatch.Single.Basic
import Mathlib.Algebra.Order.Field.Power
import Mathlib.Algebra.Order.Field.Rat
import Mathlib.Tactic.Linarith
import Mathlib.Tactic.NormNum
import Mathlib.Tactic.Ring

/-!
# The nearest number of the format

`Single.nearest` is what rounding does to a magnitude, with no greatest exponent: the multiple of
the last place that is nearest to it.  It keeps the order (`nearest_mono`) and every number of the
format (`nearest_of_representable`), so it never crosses one, and it is off by at most a part in
`2 ^ 24`, or by half of the finest place (`nearest_bounds`, `nearest_bounds_of_normal`).
`round_of_lt` and `round_of_ge` tie it to `Single.round`, which gives an infinity where the nearest
number would be `2 ^ 128` or more: from `Single.overflow` on (`isFinite_round_iff`).
-/

namespace GasWatch

/-! ## Nearest integers -/

theorem roundNearest_le {x : Rat} {n : Int} (tie : Tie) (h : x ≤ n) : roundNearest tie x ≤ n := by
  have := roundNearest_mono tie h
  rwa [roundNearest_intCast] at this

theorem le_roundNearest {x : Rat} {n : Int} (tie : Tie) (h : (n : Rat) ≤ x) :
    n ≤ roundNearest tie x := by
  have := roundNearest_mono tie h
  rwa [roundNearest_intCast] at this

/-- A number within half a unit above an integer is not rounded beyond it. -/
theorem roundNearest_le_of_lt {x : Rat} {n : Int} (tie : Tie) (h : x < n + 1 / 2) :
    roundNearest tie x ≤ n := by
  have hclose := (roundNearest_bounds tie x).1
  have hlt : (roundNearest tie x : Rat) < (n : Rat) + 1 := by linarith
  have hlt : roundNearest tie x < n + 1 := by exact_mod_cast hlt
  omega

/-- When halves go up, a number from half a unit below an integer on is rounded to it or beyond. -/
theorem le_roundNearest_up {x : Rat} {n : Int} (h : (n : Rat) ≤ x + 1 / 2) :
    n ≤ roundNearest .up x := by
  have hfloor := Rat.lt_floor_add_one x
  rw [Rat.intCast_add, Rat.intCast_one] at hfloor
  have habove : x + 1 / 2 < (roundNearest .up x : Rat) + 1 := by
    unfold roundNearest
    dsimp only
    by_cases hless : x - x.floor < 1 / 2
    · rw [if_pos hless]
      linarith
    · rw [if_neg hless, ite_self]
      push_cast
      linarith
  have hlt : n < roundNearest .up x + 1 := by exact_mod_cast h.trans_lt habove
  omega

/-! ## Powers of two -/

theorem two_zpow_pos (place : Int) : (0 : Rat) < 2 ^ place := zpow_pos (by norm_num) place

theorem two_zpow_le_two_zpow {low high : Int} (h : low ≤ high) : (2 : Rat) ^ low ≤ 2 ^ high :=
  zpow_le_zpow_right₀ (by norm_num) h

theorem le_of_two_zpow_lt {low high : Int} (h : (2 : Rat) ^ low < 2 ^ high) : low < high :=
  (zpow_lt_zpow_iff_right₀ (by norm_num)).mp h

theorem two_zpow_add (place more : Int) : (2 : Rat) ^ (place + more) = 2 ^ more * 2 ^ place := by
  rw [add_comm, zpow_add₀ (by norm_num)]

/-- A count of at most 24 bits stays below the power of two 24 places up. -/
theorem natCast_mul_two_zpow_lt {n : Nat} (hn : n < 0x1000000) (place : Int) :
    (n : Rat) * (2 : Rat) ^ place < (2 : Rat) ^ (place + 24) := by
  have hbits : (n : Rat) < (2 : Rat) ^ (24 : Int) := by
    norm_num
    exact_mod_cast hn
  rw [two_zpow_add]
  exact mul_lt_mul_of_pos_right hbits (two_zpow_pos place)

/-- A count of 24 bits or more reaches the power of two 23 places up. -/
theorem le_natCast_mul_two_zpow {n : Nat} (hn : 0x800000 ≤ n) (place : Int) :
    (2 : Rat) ^ (place + 23) ≤ (n : Rat) * (2 : Rat) ^ place := by
  have hbits : (2 : Rat) ^ (23 : Int) ≤ (n : Rat) := by
    norm_num
    exact_mod_cast hn
  rw [two_zpow_add]
  exact mul_le_mul_of_nonneg_right hbits (two_zpow_pos place).le

theorem two_zpow_log2_bounds {n : Nat} (hn : n ≠ 0) :
    (2 : Rat) ^ (n.log2 : Int) ≤ n ∧ (n : Rat) < (2 : Rat) ^ ((n.log2 : Int) + 1) := by
  constructor
  · rw [zpow_natCast]
    exact_mod_cast Nat.log2_self_le hn
  · exact_mod_cast Nat.lt_log2_self (n := n)

/-- A positive number lies between the powers of two at its binary order and at the next one. -/
theorem binaryOrder_spec {x : Rat} (hx : 0 < x) :
    (2 : Rat) ^ binaryOrder x ≤ x ∧ x < (2 : Rat) ^ (binaryOrder x + 1) := by
  have hnum : 0 < x.num := Rat.num_pos.mpr hx
  have hden : (0 : Rat) < x.den := by exact_mod_cast x.den_pos
  have hratio : (x.num.toNat : Rat) = x * x.den := by
    rw [Rat.mul_den_eq_num, ← Int.cast_natCast, Int.toNat_of_nonneg hnum.le]
  obtain ⟨hnumLow, hnumHigh⟩ := two_zpow_log2_bounds (by omega : x.num.toNat ≠ 0)
  obtain ⟨hdenLow, hdenHigh⟩ := two_zpow_log2_bounds x.den_nz
  rw [hratio] at hnumLow hnumHigh
  -- The order is the difference of the two, or one less.
  set a := (x.num.toNat.log2 : Int)
  set b := (x.den.log2 : Int)
  have hlow : (2 : Rat) ^ (a - b - 1) < x := by
    apply lt_of_mul_lt_mul_right _ hden.le
    calc (2 : Rat) ^ (a - b - 1) * x.den < (2 : Rat) ^ (a - b - 1) * (2 : Rat) ^ (b + 1) :=
          mul_lt_mul_of_pos_left hdenHigh (two_zpow_pos _)
      _ = (2 : Rat) ^ a := by rw [← two_zpow_add, show b + 1 + (a - b - 1) = a by omega]
      _ ≤ x * x.den := hnumLow
  have hhigh : x < (2 : Rat) ^ (a - b + 1) := by
    apply lt_of_mul_lt_mul_right _ hden.le
    calc x * x.den < (2 : Rat) ^ (a + 1) := hnumHigh
      _ = (2 : Rat) ^ (a - b + 1) * (2 : Rat) ^ b := by
          rw [← two_zpow_add, show b + (a - b + 1) = a + 1 by omega]
      _ ≤ (2 : Rat) ^ (a - b + 1) * x.den :=
          mul_le_mul_of_nonneg_left hdenLow (two_zpow_pos _).le
  show (2 : Rat) ^ (if x < (2 : Rat) ^ (a - b) then a - b - 1 else a - b) ≤ x ∧
    x < (2 : Rat) ^ ((if x < (2 : Rat) ^ (a - b) then a - b - 1 else a - b) + 1)
  by_cases hless : x < (2 : Rat) ^ (a - b)
  · rw [if_pos hless, sub_add_cancel]
    exact ⟨hlow.le, hless⟩
  · rw [if_neg hless]
    exact ⟨not_lt.mp hless, hhigh⟩

namespace Single

/-! ## Last place -/

/-- The last place of a magnitude leaves no more than 24 bits of it, and all 24 unless it is the
finest place. -/
theorem lastPlace_spec (x : Rat) :
    -149 ≤ lastPlace x ∧ x < (2 : Rat) ^ (lastPlace x + 24) ∧
      (lastPlace x = -149 ∨ (2 : Rat) ^ (lastPlace x + 23) ≤ x) := by
  unfold lastPlace
  by_cases hsmall : x < (2 : Rat) ^ (-126 : Int)
  · rw [if_pos hsmall]
    refine ⟨by omega, ?_, Or.inl rfl⟩
    exact hsmall.trans_le (two_zpow_le_two_zpow (by omega))
  · rw [if_neg hsmall]
    have hnormal := not_lt.mp hsmall
    obtain ⟨hlow, hhigh⟩ := binaryOrder_spec ((two_zpow_pos _).trans_le hnormal)
    have horder : -126 < binaryOrder x + 1 := le_of_two_zpow_lt (hnormal.trans_lt hhigh)
    refine ⟨by omega, ?_, Or.inr ?_⟩
    · rw [show binaryOrder x - 23 + 24 = binaryOrder x + 1 by omega]
      exact hhigh
    · rw [show binaryOrder x - 23 + 23 = binaryOrder x by omega]
      exact hlow

theorem lastPlace_mono {x y : Rat} (hxy : x ≤ y) : lastPlace x ≤ lastPlace y := by
  obtain ⟨-, -, hxplace⟩ := lastPlace_spec x
  obtain ⟨hylow, hyhigh, -⟩ := lastPlace_spec y
  rcases hxplace with heq | hfull
  · omega
  · have := le_of_two_zpow_lt (hfull.trans_lt (hxy.trans_lt hyhigh))
    omega

/-! ## The nearest multiple of the last place -/

/-- How many last places the nearest number has. -/
def nearestSignificand (x : Rat) : Int := roundNearest .even (x / (2 : Rat) ^ lastPlace x)

/-- The number nearest to a magnitude, halves to the even significand, as if there were no greatest
exponent. -/
def nearest (x : Rat) : Rat := (nearestSignificand x : Rat) * (2 : Rat) ^ lastPlace x

/-- A magnitude that the format has, or would have with greater exponents. -/
def Representable (x : Rat) : Prop :=
  ∃ (significand : Nat) (exponent : Int),
    significand < 0x1000000 ∧ -149 ≤ exponent ∧ x = (significand : Rat) * (2 : Rat) ^ exponent

/-- A significand has at most 24 bits, or is the first one of 25, and has all 24 unless it counts
the finest places. -/
theorem nearestSignificand_spec (x : Rat) :
    nearestSignificand x ≤ 0x1000000 ∧
      (lastPlace x = -149 ∨ 0x800000 ≤ nearestSignificand x) := by
  obtain ⟨-, hhigh, hplace⟩ := lastPlace_spec x
  have hpos := two_zpow_pos (lastPlace x)
  refine ⟨?_, hplace.imp_right fun hlow => ?_⟩
  · apply roundNearest_le
    rw [div_le_iff₀ hpos]
    rw [two_zpow_add] at hhigh
    norm_num at hhigh ⊢
    exact hhigh.le
  · apply le_roundNearest
    rw [le_div_iff₀ hpos]
    rw [two_zpow_add] at hlow
    norm_num at hlow ⊢
    exact hlow

theorem nearestSignificand_nonneg {x : Rat} (hx : 0 ≤ x) : 0 ≤ nearestSignificand x := by
  apply le_roundNearest
  rw [Int.cast_zero]
  exact div_nonneg hx (two_zpow_pos _).le

theorem nearest_nonneg {x : Rat} (hx : 0 ≤ x) : 0 ≤ nearest x := by
  have hsignificand : (0 : Rat) ≤ nearestSignificand x := by
    exact_mod_cast nearestSignificand_nonneg hx
  exact mul_nonneg hsignificand (two_zpow_pos _).le

/-- The nearest number stays in the binade, or is the first one of the next. -/
theorem nearest_le_two_zpow (x : Rat) : nearest x ≤ (2 : Rat) ^ (lastPlace x + 24) := by
  have hbits : (nearestSignificand x : Rat) ≤ (2 : Rat) ^ (24 : Int) := by
    norm_num
    exact_mod_cast (nearestSignificand_spec x).1
  rw [two_zpow_add]
  exact mul_le_mul_of_nonneg_right hbits (two_zpow_pos _).le

theorem two_zpow_le_nearest {x : Rat} (hplace : lastPlace x ≠ -149) :
    (2 : Rat) ^ (lastPlace x + 23) ≤ nearest x := by
  have hbits : (2 : Rat) ^ (23 : Int) ≤ (nearestSignificand x : Rat) := by
    norm_num
    exact_mod_cast (nearestSignificand_spec x).2.resolve_left hplace
  rw [two_zpow_add]
  exact mul_le_mul_of_nonneg_right hbits (two_zpow_pos _).le

/-- The nearest number is at most half of a last place away. -/
theorem nearest_within_place (x : Rat) :
    nearest x ≤ x + (2 : Rat) ^ lastPlace x / 2 ∧ x ≤ nearest x + (2 : Rat) ^ lastPlace x / 2 := by
  have hpos := two_zpow_pos (lastPlace x)
  obtain ⟨hhigh, hlow⟩ := roundNearest_bounds .even (x / (2 : Rat) ^ lastPlace x)
  have hscaled : x / (2 : Rat) ^ lastPlace x * (2 : Rat) ^ lastPlace x = x :=
    div_mul_cancel₀ x hpos.ne'
  have hhigh := mul_le_mul_of_nonneg_right hhigh hpos.le
  have hlow := mul_le_mul_of_nonneg_right hlow hpos.le
  rw [add_mul, hscaled] at hhigh
  rw [add_mul, hscaled] at hlow
  show (nearestSignificand x : Rat) * _ ≤ _ ∧ _ ≤ (nearestSignificand x : Rat) * _ + _
  unfold nearestSignificand
  constructor <;> linarith

/-- Rounding keeps the order. -/
theorem nearest_mono {x y : Rat} (hxy : x ≤ y) : nearest x ≤ nearest y := by
  have hplaces := lastPlace_mono hxy
  rcases hplaces.eq_or_lt with heq | hlt
  · have hpos := two_zpow_pos (lastPlace y)
    have hsignificands : nearestSignificand x ≤ nearestSignificand y := by
      unfold nearestSignificand
      rw [heq]
      exact roundNearest_mono .even (div_le_div_of_nonneg_right hxy hpos.le)
    unfold nearest
    rw [heq]
    exact mul_le_mul_of_nonneg_right (by exact_mod_cast hsignificands) hpos.le
  · -- The first number of the greater binade lies between the two.
    have hfinest := (lastPlace_spec x).1
    calc nearest x ≤ (2 : Rat) ^ (lastPlace x + 24) := nearest_le_two_zpow x
      _ ≤ (2 : Rat) ^ (lastPlace y + 23) := two_zpow_le_two_zpow (by omega)
      _ ≤ nearest y := two_zpow_le_nearest (by omega)

/-- A number of the format is its own nearest number. -/
theorem nearest_of_representable {x : Rat} (hx : Representable x) : nearest x = x := by
  obtain ⟨significand, exponent, hsignificand, hexponent, rfl⟩ := hx
  set x := (significand : Rat) * (2 : Rat) ^ exponent with hxdef
  have hxhigh : x < (2 : Rat) ^ (exponent + 24) := natCast_mul_two_zpow_lt hsignificand exponent
  have hplace : lastPlace x ≤ exponent := by
    obtain ⟨-, -, hplace⟩ := lastPlace_spec x
    rcases hplace with heq | hfull
    · omega
    · have := le_of_two_zpow_lt (hfull.trans_lt hxhigh)
      omega
  obtain ⟨finer, hfiner⟩ : ∃ finer : Nat, exponent = lastPlace x + finer :=
    ⟨(exponent - lastPlace x).toNat, by omega⟩
  have hwhole : x / (2 : Rat) ^ lastPlace x = ((significand * 2 ^ finer : Nat) : Int) := by
    have hpos := two_zpow_pos (lastPlace x)
    rw [div_eq_iff hpos.ne']
    calc x = (significand : Rat) * (2 : Rat) ^ (lastPlace x + finer) := by rw [hxdef, ← hfiner]
      _ = _ := by
        rw [two_zpow_add, zpow_natCast]
        push_cast
        ring
  unfold nearest nearestSignificand
  rw [hwhole, roundNearest_intCast, ← hwhole, div_mul_cancel₀ x (two_zpow_pos _).ne']

/-- Rounding does not cross a number of the format from below. -/
theorem nearest_le {x bound : Rat} (hbound : Representable bound) (h : x ≤ bound) :
    nearest x ≤ bound := by
  have := nearest_mono h
  rwa [nearest_of_representable hbound] at this

/-- Rounding does not cross a number of the format from above. -/
theorem le_nearest {x bound : Rat} (hbound : Representable bound) (h : bound ≤ x) :
    bound ≤ nearest x := by
  have := nearest_mono h
  rwa [nearest_of_representable hbound] at this

/-! ## How far away it is -/

/-- The last place is a small part of a magnitude, or the finest place. -/
theorem two_zpow_lastPlace_le {x : Rat} (hx : 0 ≤ x) :
    (2 : Rat) ^ lastPlace x ≤ x / 0x800000 + (2 : Rat) ^ (-149 : Int) := by
  have hfinest := two_zpow_pos (-149)
  obtain ⟨-, -, hplace⟩ := lastPlace_spec x
  rcases hplace with heq | hfull
  · rw [heq]
    linarith [div_nonneg hx (by norm_num : (0 : Rat) ≤ 0x800000)]
  · rw [two_zpow_add] at hfull
    norm_num at hfull ⊢
    linarith

/-- The nearest number is off by a part in `2 ^ 24` or by half of the finest place, or less. -/
theorem nearest_bounds {x : Rat} (hx : 0 ≤ x) :
    nearest x ≤ x + x / 0x1000000 + (2 : Rat) ^ (-150 : Int) ∧
      x ≤ nearest x + x / 0x1000000 + (2 : Rat) ^ (-150 : Int) := by
  obtain ⟨hhigh, hlow⟩ := nearest_within_place x
  have hplace := two_zpow_lastPlace_le hx
  rw [show (-149 : Int) = -150 + 1 by omega, two_zpow_add, zpow_one] at hplace
  constructor <;> linarith

/-- From the first magnitude with all 24 bits on, it is off by a part in `2 ^ 24` at most. -/
theorem nearest_bounds_of_normal {x : Rat} (hnormal : (2 : Rat) ^ (-126 : Int) ≤ x) :
    nearest x ≤ x + x / 0x1000000 ∧ x ≤ nearest x + x / 0x1000000 := by
  obtain ⟨hhigh, hlow⟩ := nearest_within_place x
  have hplace : (2 : Rat) ^ lastPlace x ≤ x / 0x800000 := by
    obtain ⟨-, -, hplace⟩ := lastPlace_spec x
    rw [le_div_iff₀ (by norm_num)]
    have hbits : (0x800000 : Rat) = 2 ^ (23 : Int) := by norm_num
    rw [hbits, mul_comm, ← two_zpow_add]
    rcases hplace with heq | hfull
    · rw [heq]
      exact hnormal
    · exact hfull
  constructor <;> linarith

/-! ## Rounding -/

/-- Rounding comes to the parts of the nearest number, whose significand may have to be brought
down to 24 bits, and to an infinity if they are not parts of a number. -/
theorem round_parts (negative : Bool) {x : Rat} (hx : 0 ≤ x) :
    ∃ (significand : Nat) (place : Int),
      round negative x = ofParts negative significand place ∧ significand < 0x1000000 ∧
        -149 ≤ place ∧ (place = -149 ∨ 0x800000 ≤ significand) ∧
        nearest x = (significand : Rat) * (2 : Rat) ^ place := by
  have hnonneg := nearestSignificand_nonneg hx
  obtain ⟨hbits, hfull⟩ := nearestSignificand_spec x
  have hfinest := (lastPlace_spec x).1
  have hround : round negative x =
      if (nearestSignificand x).toNat = 0x1000000 then
        ofParts negative 0x800000 (lastPlace x + 1)
      else ofParts negative (nearestSignificand x).toNat (lastPlace x) := rfl
  have hcast : ((nearestSignificand x).toNat : Rat) = nearestSignificand x := by
    exact_mod_cast Int.toNat_of_nonneg hnonneg
  by_cases hcarry : (nearestSignificand x).toNat = 0x1000000
  · refine ⟨0x800000, lastPlace x + 1, ?_, by omega, by omega, Or.inr (Nat.le_refl _), ?_⟩
    · rw [hround, if_pos hcarry]
    · rw [nearest, ← hcast, hcarry, two_zpow_add]
      norm_num
      ring
  · refine ⟨(nearestSignificand x).toNat, lastPlace x, ?_, by omega, hfinest, by omega, ?_⟩
    · rw [hround, if_neg hcarry]
    · rw [nearest, hcast]

/-- Below `2 ^ 128` rounding gives the nearest number. -/
theorem round_of_lt (negative : Bool) {x : Rat} (hx : 0 ≤ x)
    (hlt : nearest x < (2 : Rat) ^ (128 : Int)) :
    ∃ y : Finite, round negative x = .finite y ∧ y.negative = negative ∧
      y.magnitude = nearest x := by
  obtain ⟨significand, place, hround, hfew, hfinest, hfull, hnearest⟩ := round_parts negative hx
  have hplace : place ≤ 104 := by
    rcases hfull with heq | hfull
    · omega
    · have hle := le_natCast_mul_two_zpow hfull place
      rw [← hnearest] at hle
      have := le_of_two_zpow_lt (hle.trans_lt hlt)
      omega
  have hcanonical : Canonical significand place := ⟨hfew, hfinest, hplace, hfull⟩
  refine ⟨⟨negative, significand, place, hcanonical⟩, ?_, rfl, hnearest.symm⟩
  rw [hround, ofParts_of_canonical hcanonical]

/-- From `2 ^ 128` on it gives an infinity. -/
theorem round_of_ge (negative : Bool) {x : Rat} (hx : 0 ≤ x)
    (hge : (2 : Rat) ^ (128 : Int) ≤ nearest x) : round negative x = .infinity negative := by
  obtain ⟨significand, place, hround, hfew, -, -, hnearest⟩ := round_parts negative hx
  have hplace : 104 < place := by
    have hlt := natCast_mul_two_zpow_lt hfew place
    rw [← hnearest] at hlt
    have := le_of_two_zpow_lt (hge.trans_lt hlt)
    omega
  rw [hround, ofParts, dif_neg fun hcanonical => absurd hcanonical.2.2.1 (by omega)]

/-! ## Overflow -/

/-- The least magnitude that overflows, as near to the greatest number as to `2 ^ 128`, whose
significand is the even one of the two. -/
def overflow : Rat := (2 : Rat) ^ (128 : Int) - (2 : Rat) ^ (103 : Int)

theorem nearest_lt_iff {x : Rat} : nearest x < (2 : Rat) ^ (128 : Int) ↔ x < overflow := by
  constructor
  · intro hlt
    by_contra hnot
    have htie : (2 : Rat) ^ (128 : Int) ≤ nearest overflow := by decide +kernel
    exact absurd (htie.trans (nearest_mono (not_lt.mp hnot))) (not_le.mpr hlt)
  · intro hlt
    unfold overflow at hlt
    have hplace : lastPlace x ≤ 104 := by
      rcases (lastPlace_spec x).2.2 with heq | hfull
      · omega
      · have hbelow : x < (2 : Rat) ^ (128 : Int) := by linarith [two_zpow_pos 103]
        have := le_of_two_zpow_lt (hfull.trans_lt hbelow)
        omega
    have hhalf : (2 : Rat) ^ lastPlace x / 2 ≤ (2 : Rat) ^ (103 : Int) := by
      have hlast := two_zpow_le_two_zpow hplace
      rw [show (104 : Int) = 103 + 1 by omega, two_zpow_add, zpow_one] at hlast
      linarith
    linarith [(nearest_within_place x).1]

/-- Rounding stays finite exactly below the least magnitude that overflows. -/
theorem isFinite_round_iff (negative : Bool) {x : Rat} (hx : 0 ≤ x) :
    (round negative x).isFinite ↔ x < overflow := by
  rw [← nearest_lt_iff]
  constructor
  · intro hfinite
    by_contra hnot
    rw [round_of_ge negative hx (not_lt.mp hnot)] at hfinite
    cases hfinite
  · intro hlt
    obtain ⟨y, hround, -⟩ := round_of_lt negative hx hlt
    rw [hround]
    rfl

/-- No number reaches it. -/
theorem Finite.magnitude_lt_overflow (x : Finite) : x.magnitude < overflow := by
  obtain ⟨hfew, hfinest, hgreatest, -⟩ := x.canonical
  have hrepresentable : Representable x.magnitude := ⟨x.significand, x.exponent, hfew, hfinest, rfl⟩
  rw [← nearest_lt_iff, nearest_of_representable hrepresentable]
  exact (natCast_mul_two_zpow_lt hfew x.exponent).trans_le (two_zpow_le_two_zpow (by omega))

end Single

end GasWatch
