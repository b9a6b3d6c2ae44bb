import GasWatch.Single.Basic

/-!
# Decimal text of single-precision numbers

Two ways to write a number in decimal, both positional at every magnitude:

* `shortestText` writes the fewest digits that read back as the number: the rational numbers that
  round to it form an interval, and the coarsest grid of powers of ten with a point in the
  interval gives the digits;
* `fixedText` rounds the exact value to a number of places, halves to the even digit.

Both keep the sign of a zero and share the words for the numbers without digits.
-/

namespace GasWatch

/-! ## Decimal numerals -/

/-- The number `coefficient * 10 ^ exponent`. -/
structure Decimal where
  coefficient : Nat
  exponent : Int
  deriving DecidableEq

namespace Decimal

/-- The digits of `n / 10 ^ places`, with exactly `places` of them behind the point. -/
def placesText (n places : Nat) : String :=
  if places = 0 then n.repr
  else
    let unit := Nat.pow 10 places
    let fraction := (n % unit).repr
    (n / unit).repr ++ "." ++ "".pushn '0' (places - fraction.length) ++ fraction

/-- The digits of a numeral, without an exponent. -/
def text (d : Decimal) : String :=
  match d.exponent with
  | .ofNat zeros => placesText (d.coefficient * Nat.pow 10 zeros) 0
  | .negSucc places => placesText d.coefficient (places + 1)

end Decimal

/-! ## Shortest digits -/

/-- The numbers between two ends, with or without the ends themselves. -/
structure Interval where
  lower : Rat
  upper : Rat
  closed : Bool

namespace Interval

/-- Whether a number lies in the interval. -/
def contains (i : Interval) (x : Rat) : Bool :=
  if i.closed then decide (i.lower ≤ x ∧ x ≤ i.upper) else decide (i.lower < x ∧ x < i.upper)

end Interval

namespace Single

namespace Finite

/-- The magnitudes that round to that of `x`.  They reach half a place to either side, a quarter
below the first significand of a binade, and include the ends when the significand is even. -/
def roundingInterval (x : Finite) : Interval :=
  let place := (2 : Rat) ^ x.exponent
  let below : Rat := if x.significand = 0x800000 then 1 / 4 else 1 / 2
  { lower := ((x.significand : Rat) - below) * place
    upper := ((x.significand : Rat) + 1 / 2) * place
    closed := x.significand % 2 = 0 }

/-- The multiple of `10 ^ grid` that reads back as the magnitude of `x`, if one of the two next to
it does; the nearer one when both do, and the greater one when both are equally near. -/
def coefficientOn (x : Finite) (grid : Int) : Option Nat :=
  let unit := (10 : Rat) ^ grid
  let scaled := x.magnitude / unit
  let below := scaled.floor.toNat
  let readsBack := fun (n : Nat) => x.roundingInterval.contains ((n : Rat) * unit)
  match readsBack below, readsBack (below + 1) with
  | true, true => some (roundNearest .up scaled).toNat
  | true, false => some below
  | false, true => some (below + 1)
  | false, false => none

/-- Searches the grid `10 ^ grid` and `finer` finer ones for the first that `x` has a coefficient
on; the last one is taken as it comes. -/
def shortestFrom (x : Finite) : Nat → Int → Decimal
  | 0, grid => ⟨(roundNearest .up (x.magnitude / (10 : Rat) ^ grid)).toNat, grid⟩
  | finer + 1, grid =>
    match x.coefficientOn grid with
    | some n => ⟨n, grid⟩
    | none => x.shortestFrom finer (grid - 1)

/-- The numeral with the fewest digits that reads back as the magnitude of `x`.  The greatest
number lies below `10 ^ 39`, and steps of `10 ^ -54` are finer than any place. -/
def shortest (x : Finite) : Decimal := x.shortestFrom 92 38

end Finite

/-! ## Text -/

/-- The text of a number, given how the magnitude of a finite one is written. -/
def textBy (digits : Finite → String) : Single → String
  | .nan => "NaN"
  | .infinity s => if s then "-inf" else "inf"
  | .finite x => (if x.negative then "-" else "") ++ digits x

/-- The fewest digits that read back as the number. -/
def shortestText : Single → String := textBy fun x => x.shortest.text

/-- The number rounded to a fixed number of places behind the point. -/
def fixedText (places : Nat) : Single → String :=
  textBy fun x =>
    Decimal.placesText (roundNearest .even (x.magnitude * (10 : Rat) ^ (places : Int))).toNat places

end Single

end GasWatch
