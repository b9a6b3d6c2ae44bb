import GasWatch.Proofs.LineOrder

/-!
# Steps that can fail along the line

A difference of words wraps below zero, a quotient by zero is a number of no use, and a word cannot
be held between bounds that are out of order.  `Calibration.ppmOf` and `Calibration.rawOf` make these
steps without a look at their operands, behind the checks of the line that come first.

`ppmOfByStep` and `rawOfByStep` are the same two ways with steps that fail (`StepFailure`).  No step fails,
on any line, and the results are those of the ways without a look (`ppmOfByStep_eq`,
`rawOfByStep_eq`).
-/

namespace GasWatch

/-! ## Steps -/

/-- Why a step fails. -/
inductive StepFailure where
  /-- A difference of words is below zero. -/
  | underflow
  /-- A number is divided by zero. -/
  | zeroDivisor
  /-- The lower one of two bounds is the greater. -/
  | boundsCrossed
  deriving DecidableEq

namespace Step

/-- The difference of two words, if the first is no less. -/
def difference (x y : UInt32) : Except StepFailure UInt32 :=
  if x < y then .error .underflow else .ok (x - y)

/-- The quotient of two numbers, if the second is neither of the two zeros. -/
def quotient (x y : Single) : Except StepFailure Single :=
  if 0 ≤ y ∧ y ≤ 0 then .error .zeroDivisor else .ok (x / y)

/-- The word held between two bounds, if they are in order. -/
def held (low high w : UInt32) : Except StepFailure UInt32 :=
  if high < low then .error .boundsCrossed else .ok (Calibration.clamp low high w)

theorem difference_of_le {x y : UInt32} (h : y ≤ x) : difference x y = .ok (x - y) :=
  if_neg (UInt32.not_lt.mpr h)

theorem quotient_of_pos {x y : Single} (hy : 0 < y) : quotient x y = .ok (x / y) :=
  if_neg fun hzero => Single.not_le_zero hy hzero.2

theorem held_of_le {low high w : UInt32} (hbounds : low ≤ high) :
    held low high w = .ok (Calibration.clamp low high w) :=
  if_neg (UInt32.not_lt.mpr hbounds)

end Step

namespace Calibration

open Step

/-! ## Both ways step by step -/

/-- The concentration at a raw reading, by steps that can fail. -/
def ppmOfByStep (c : Calibration) (raw : UInt32) : Except StepFailure Single :=
  if raw ≤ c.zero ∨ c.span ≤ c.zero then .ok 0
  else do
    let range ← difference c.span c.zero
    let counts ← difference raw c.zero
    let part ← quotient (.ofWord counts) (.ofWord range)
    return (part * c.spanPpm).greater 0

/-- The raw reading at a concentration, by steps that can fail. -/
def rawOfByStep (c : Calibration) (ppm : Single) : Except StepFailure UInt32 :=
  if ¬ c.Usable ∨ ¬ ppm.isFinite then .ok Board.fullScale
  else if ppm ≤ 0 then .ok c.zero
  else do
    let range ← difference c.span c.zero
    let part ← quotient ppm c.spanPpm
    held c.zero Board.fullScale (.ofWord c.zero + part * .ofWord range : Single).toWord

/-- Behind the checks for clean air and for a line that rises, no step to a concentration fails. -/
theorem ppmOfByStep_eq (c : Calibration) (raw : UInt32) :
    c.ppmOfByStep raw = .ok (c.ppmOf raw) := by
  unfold ppmOfByStep
  by_cases hclean : raw ≤ c.zero ∨ c.span ≤ c.zero
  · rw [if_pos hclean, ppmOf_of_clean hclean]
  · obtain ⟨hrises, hraw⟩ := (c.clean_or_above raw).resolve_left hclean
    rw [if_neg hclean, ppmOf_of_gt hrises hraw, difference_of_le (UInt32.le_of_lt hrises),
      difference_of_le (UInt32.le_of_lt hraw)]
    show (do
      let part ← quotient (.ofWord (raw - c.zero)) c.range
      return (part * c.spanPpm).greater 0) = _
    rw [quotient_of_pos (range_pos hrises)]
    rfl

/-- On a usable line no step to a count fails, whatever the concentration is. -/
theorem rawOfByStep_eq (c : Calibration) (ppm : Single) :
    c.rawOfByStep ppm = .ok (c.rawOf ppm) := by
  unfold rawOfByStep rawOf
  by_cases hunfit : ¬ c.Usable ∨ ¬ ppm.isFinite
  · rw [if_pos hunfit, if_pos hunfit]
  · obtain ⟨hline, -⟩ := not_or.mp hunfit
    have hline := not_not.mp hline
    rw [if_neg hunfit, if_neg hunfit]
    by_cases hppm : ppm ≤ 0
    · rw [if_pos hppm, if_pos hppm]
    · rw [if_neg hppm, if_neg hppm, difference_of_le (UInt32.le_of_lt hline.1),
        quotient_of_pos hline.2.2]
      exact held_of_le hline.2.1

/-- Without the check of the zero point the bounds of the last step would be crossed. -/
example :
    let c : Calibration := { zero := 5000, span := 6000, spanPpm := 50 }
    held c.zero Board.fullScale 5100 = .error .boundsCrossed ∧ c.rawOfByStep 10 = .ok 4095 := by
  decide +kernel

/-! ## Range of the results -/

/-- The count of a concentration is never below the zero point, or full scale if that is lower. -/
theorem min_le_rawOf (c : Calibration) (ppm : Single) :
    min c.zero.toNat 4095 ≤ (c.rawOf ppm).toNat := by
  by_cases hline : c.Usable
  · have hzero := UInt32.le_iff_toNat_le.mp (zero_le_rawOf hline ppm)
    omega
  · rw [rawOf_of_not_usable hline]
    exact Nat.min_le_right _ _

/-- On every line, whatever its two points are, both ways are gone without a step that fails.  A
concentration, also a NaN or an infinity, is brought to a count between the zero point and full
scale, and a reading shows a concentration that is not negative and not a NaN. -/
theorem conversions_are_safe (c : Calibration) :
    (∀ ppm : Single, c.rawOfByStep ppm = .ok (c.rawOf ppm) ∧
        min c.zero.toNat 4095 ≤ (c.rawOf ppm).toNat ∧ (c.rawOf ppm).toNat ≤ 4095) ∧
      ∀ raw : UInt32, c.ppmOfByStep raw = .ok (c.ppmOf raw) ∧ c.ppmOf raw ≠ .nan ∧
        0 ≤ c.ppmOf raw := by
  constructor
  · intro ppm
    exact ⟨rawOfByStep_eq c ppm, min_le_rawOf c ppm,
      UInt32.le_iff_toNat_le.mp (rawOf_le_fullScale c ppm)⟩
  · intro raw
    have hbound := ppmOf_atLeast_zero c raw
    exact ⟨ppmOfByStep_eq c raw, hbound.ne_nan, hbound.zero_le⟩

end Calibration

end GasWatch
