/-!
# Rounding exact numbers

Every inexact step of the library is a rational number rounded once: to an integer
(`roundNearest`), or to a number of a binary format whose last place `binaryOrder` finds.
`saturate` brings a count into a 32-bit word.

`roundNearest` is at most half a unit off (`roundNearest_bounds`), keeps integers as they are
(`roundNearest_intCast`) and keeps the order (`roundNearest_mono`), wherever it sends ties.
-/

namespace GasWatch

/-! ## Integers next to a rational -/

/-- Where a number halfway between two integers goes. -/
inductive Tie where
  /-- To the even one of the two. -/
  | even
  /-- To the greater one; on magnitudes this is away from zero. -/
  | up
  deriving DecidableEq

/-- The integer nearest to `x`; a number halfway between two goes where `tie` says. -/
def roundNearest (tie : Tie) (x : Rat) : Int :=
  let below := x.floor
  let part := x - below
  if part < 1 / 2 then below
  else if 1 / 2 < part then below + 1
  else
    match tie with
    | .even => if below % 2 = 0 then below else below + 1
    | .up => below + 1

/-- An integer is its own nearest integer. -/
@[simp] theorem roundNearest_intCast (tie : Tie) (n : Int) : roundNearest tie (n : Rat) = n := by
  have hpart : (n : Rat) - (n : Rat) < 1 / 2 := by grind
  simp only [roundNearest, Rat.floor_intCast, if_pos hpart]

/-- The nearest integer is one of the two next to the number, and not the farther one. -/
theorem roundNearest_cases (tie : Tie) (x : Rat) :
    roundNearest tie x = x.floor ∧ x - x.floor ≤ 1 / 2 ∨
      roundNearest tie x = x.floor + 1 ∧ 1 / 2 ≤ x - x.floor := by
  simp only [roundNearest]
  cases tie <;> grind

/-- The nearest integer is at most half a unit away. -/
theorem roundNearest_bounds (tie : Tie) (x : Rat) :
    (roundNearest tie x : Rat) ≤ x + 1 / 2 ∧ x ≤ (roundNearest tie x : Rat) + 1 / 2 := by
  have hlow := Rat.floor_le x
  have hhigh := Rat.lt_floor_add_one x
  simp only [Rat.intCast_add, Rat.intCast_one] at hhigh
  rcases roundNearest_cases tie x with ⟨h, hpart⟩ | ⟨h, hpart⟩
  · rw [h]; grind
  · rw [h, Rat.intCast_add, Rat.intCast_one]; grind

/-- Rounding keeps the order. -/
theorem roundNearest_mono (tie : Tie) {x y : Rat} (h : x ≤ y) :
    roundNearest tie x ≤ roundNearest tie y := by
  have hfloor : x.floor ≤ y.floor := Rat.floor_monotone h
  by_cases heq : x.floor = y.floor
  · simp only [roundNearest, heq]
    cases tie <;> grind
  · rcases roundNearest_cases tie x with ⟨hx, _⟩ | ⟨hx, _⟩ <;>
      rcases roundNearest_cases tie y with ⟨hy, _⟩ | ⟨hy, _⟩ <;> omega

/-! ## Binary order of magnitude -/

/-- The exponent of the greatest power of two that is at most `x`, for positive `x`. -/
def binaryOrder (x : Rat) : Int :=
  let order : Int := (x.num.toNat.log2 : Int) - (x.den.log2 : Int)
  if x < (2 : Rat) ^ order then order - 1 else order

/-! ## Counts in a word -/

/-- The word nearest to a count: the count itself, or the greatest word when it does not fit. -/
def saturate (n : Nat) : UInt32 := (min n 0xffffffff).toUInt32

theorem toNat_saturate (n : Nat) : (saturate n).toNat = min n 0xffffffff := by
  have h : min n 0xffffffff < UInt32.size := by simp only [UInt32.size]; omega
  exact UInt32.toNat_ofNat_of_lt h

/-- A word that fits is kept. -/
@[simp] theorem saturate_toNat (w : UInt32) : saturate w.toNat = w := by
  apply UInt32.toNat_inj.mp
  have h := w.toNat_lt
  rw [toNat_saturate]
  omega

/-- The sum of two words, held at the greatest word instead of wrapping. -/
def saturatingAdd (x y : UInt32) : UInt32 := saturate (x.toNat + y.toNat)

theorem toNat_saturatingAdd (x y : UInt32) :
    (saturatingAdd x y).toNat = min (x.toNat + y.toNat) 0xffffffff :=
  toNat_saturate _

end GasWatch
