import GasWatch.Single.Basic

/-!
# Single-precision arithmetic

Each operation on finite numbers takes the exact result and rounds it once.  Infinities absorb
finite operands, and a form without a value (`∞ - ∞`, `0 * ∞`, `0 / 0`, `∞ / ∞`) is a NaN.
-/

namespace GasWatch.Single

/-- The sum.  A sum of zero is negative only if both operands are. -/
def add : Single → Single → Single
  | .nan, _ | _, .nan => .nan
  | .infinity s, .infinity t => if s = t then .infinity s else .nan
  | .infinity s, .finite _ => .infinity s
  | .finite _, .infinity t => .infinity t
  | .finite x, .finite y =>
    let sum := x.value + y.value
    if sum = 0 then zero (x.negative && y.negative)
    else if sum < 0 then round true (-sum)
    else round false sum

/-- The product; its sign is that of the operands' signs together, also for a zero. -/
def mul : Single → Single → Single
  | .nan, _ | _, .nan => .nan
  | .infinity s, .infinity t => .infinity (s ^^ t)
  | .infinity s, .finite y => if y.significand = 0 then .nan else .infinity (s ^^ y.negative)
  | .finite x, .infinity t => if x.significand = 0 then .nan else .infinity (x.negative ^^ t)
  | .finite x, .finite y => round (x.negative ^^ y.negative) (x.magnitude * y.magnitude)

/-- The quotient; a number other than zero over zero is infinite. -/
def div : Single → Single → Single
  | .nan, _ | _, .nan => .nan
  | .infinity _, .infinity _ => .nan
  | .infinity s, .finite y => .infinity (s ^^ y.negative)
  | .finite x, .infinity t => zero (x.negative ^^ t)
  | .finite x, .finite y =>
    if y.significand = 0 then
      if x.significand = 0 then .nan else .infinity (x.negative ^^ y.negative)
    else round (x.negative ^^ y.negative) (x.magnitude / y.magnitude)

instance : Add Single := ⟨add⟩
instance : Mul Single := ⟨mul⟩
instance : Div Single := ⟨div⟩

end GasWatch.Single
