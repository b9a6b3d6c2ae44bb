import GasWatch.Rounding

/-!
# Single-precision numbers

A number is a NaN, an infinity, or a signed multiple `significand * 2 ^ exponent` in the one form
that `Single.Canonical` allows, so equal finite numbers are equal data except for the two zeros.
`Single.Finite.value` reads a finite number as a rational.  `Single.round` is the only rounding of
the format: it takes an exact magnitude to the nearest number, halves to the even significand, and
to an infinity beyond the greatest one.
-/

namespace GasWatch

namespace Single

/-- A significand of 24 bits over a last place between `2 ^ -149` and `2 ^ 104`.  All 24 bits are
in use unless the last place is the finest one. -/
def Canonical (significand : Nat) (exponent : Int) : Prop :=
  significand < 0x1000000 ∧ -149 ≤ exponent ∧ exponent ≤ 104 ∧
    (exponent = -149 ∨ 0x800000 ≤ significand)

instance (significand : Nat) (exponent : Int) : Decidable (Canonical significand exponent) :=
  inferInstanceAs (Decidable (_ ∧ _ ∧ _ ∧ _))

/-- A finite number of the format, with the sign kept apart so that there are two zeros. -/
structure Finite where
  negative : Bool
  significand : Nat
  exponent : Int
  canonical : Canonical significand exponent
  deriving DecidableEq

end Single

/-- A single-precision number.  There is one NaN: its sign and payload carry no meaning here. -/
inductive Single where
  | nan
  | infinity (negative : Bool)
  | finite (x : Single.Finite)
  deriving DecidableEq

namespace Single

/-! ## Exact values -/

namespace Finite

/-- The absolute value, exactly. -/
def magnitude (x : Finite) : Rat := (x.significand : Rat) * (2 : Rat) ^ x.exponent

/-- The value, exactly; both zeros have value `0`. -/
def value (x : Finite) : Rat := if x.negative then -x.magnitude else x.magnitude

end Finite

/-- The zero of the given sign. -/
def zero (negative : Bool) : Single :=
  .finite ⟨negative, 0, -149, by decide⟩

/-- The number with these parts when the format has it, and otherwise the infinity that stands
for everything too large. -/
def ofParts (negative : Bool) (significand : Nat) (exponent : Int) : Single :=
  if h : Canonical significand exponent then .finite ⟨negative, significand, exponent, h⟩
  else .infinity negative

theorem ofParts_of_canonical {negative : Bool} {significand : Nat} {exponent : Int}
    (hcanonical : Canonical significand exponent) :
    ofParts negative significand exponent =
      .finite ⟨negative, significand, exponent, hcanonical⟩ := by
  simp [ofParts, hcanonical]

/-! ## Rounding -/

/-- The exponent of the last place of the numbers around a magnitude: 24 bits below the leading
one, but never finer than `2 ^ -149`. -/
def lastPlace (magnitude : Rat) : Int :=
  if magnitude < (2 : Rat) ^ (-126 : Int) then -149 else binaryOrder magnitude - 23

/-- The number nearest to a magnitude with the given sign.  A significand that rounds up to 25
bits is the first one of the next binade. -/
def round (negative : Bool) (magnitude : Rat) : Single :=
  let place := lastPlace magnitude
  let significand := (roundNearest .even (magnitude / (2 : Rat) ^ place)).toNat
  if significand = 0x1000000 then ofParts negative 0x800000 (place + 1)
  else ofParts negative significand place

/-- The number nearest to a natural number. -/
def ofNat (n : Nat) : Single := round false (n : Rat)

instance (n : Nat) : OfNat Single n := ⟨ofNat n⟩

/-- The number nearest to a word. -/
def ofWord (w : UInt32) : Single := ofNat w.toNat

/-! ## Order

A NaN is neither below nor above anything, and the two zeros are equal. -/

/-- Whether `x` is below `y`. -/
def isBelow : Single → Single → Bool
  | .nan, _ | _, .nan => false
  | .infinity s, .infinity t => s && !t
  | .infinity s, .finite _ => s
  | .finite _, .infinity t => !t
  | .finite x, .finite y => decide (x.value < y.value)

/-- Whether `x` is at most `y`. -/
def isAtMost : Single → Single → Bool
  | .nan, _ | _, .nan => false
  | .infinity s, .infinity t => s || !t
  | .infinity s, .finite _ => s
  | .finite _, .infinity t => !t
  | .finite x, .finite y => decide (x.value ≤ y.value)

instance : LT Single := ⟨fun x y => x.isBelow y = true⟩
instance : LE Single := ⟨fun x y => x.isAtMost y = true⟩

instance (x y : Single) : Decidable (x < y) := inferInstanceAs (Decidable (x.isBelow y = true))
instance (x y : Single) : Decidable (x ≤ y) := inferInstanceAs (Decidable (x.isAtMost y = true))

/-- Whether the number is neither a NaN nor an infinity. -/
def isFinite : Single → Bool
  | .finite _ => true
  | _ => false

/-- Whether the sign is negative; a NaN has none. -/
def isNegative : Single → Bool
  | .nan => false
  | .infinity s => s
  | .finite x => x.negative

/-- The greater of two numbers.  A NaN gives way to the other operand, and of two zeros of
different sign the positive one is taken. -/
def greater (x y : Single) : Single :=
  match x, y with
  | .nan, y => y
  | x, .nan => x
  | x, y => if x < y ∨ (x ≤ y ∧ x.isNegative) then y else x

/-! ## Words -/

/-- The word nearest to a number, halves away from zero.  Numbers beyond either end give that
end, and a NaN gives `0`. -/
def toWord : Single → UInt32
  | .nan => 0
  | .infinity s => if s then 0 else 0xffffffff
  | .finite x => if x.negative then 0 else saturate (roundNearest .up x.magnitude).toNat

end Single

end GasWatch
