import GasWatch.Board
import GasWatch.Single.Arithmetic

/-!
# Calibration

The sensor is taken to be linear between clean air (`zero`) and a known concentration (`span`, at
`spanPpm`).  `ppmOf` reads a concentration off that line and `rawOf` finds the reading for a
concentration.  Both are total: a line that cannot be followed reads clean air, and asks for a
reading that only a saturated sensor gives.
-/

namespace GasWatch

/-- Two points of the sensor's line: the raw reading in clean air, and the raw reading `span` at
the concentration `spanPpm`. -/
structure Calibration where
  zero : UInt32
  span : UInt32
  spanPpm : Single
  deriving DecidableEq

namespace Calibration

/-- The calibration of an untrimmed sensor. -/
def standard : Calibration := { zero := 200, span := 2000, spanPpm := 50 }

/-- The raw counts between the two points, as a number. -/
def range (c : Calibration) : Single := .ofWord (c.span - c.zero)

/-- The concentration at a raw reading.  Readings up to the zero point are clean air, and so is
every reading of a line without extent. -/
def ppmOf (c : Calibration) (raw : UInt32) : Single :=
  if raw ≤ c.zero ∨ c.span ≤ c.zero then 0
  else (.ofWord (raw - c.zero) / c.range * c.spanPpm : Single).greater 0

/-- Whether the line gives a threshold that a reading can be compared with: it rises, starts
within the range of the converter, and measures a positive concentration. -/
def Usable (c : Calibration) : Prop :=
  c.zero < c.span ∧ c.zero ≤ Board.fullScale ∧ 0 < c.spanPpm

instance (c : Calibration) : Decidable c.Usable := inferInstanceAs (Decidable (_ ∧ _ ∧ _))

/-- The word held between two bounds. -/
def clamp (low high w : UInt32) : UInt32 := if w < low then low else if high < w then high else w

/-- The raw reading at a concentration, between the zero point and full scale.  Without a usable
line or a finite concentration it is full scale, which a reading can only just reach. -/
def rawOf (c : Calibration) (ppm : Single) : UInt32 :=
  if ¬ c.Usable ∨ ¬ ppm.isFinite then Board.fullScale
  else if ppm ≤ 0 then c.zero
  else clamp c.zero Board.fullScale (.ofWord c.zero + ppm / c.spanPpm * c.range : Single).toWord

/-- The reading that stands for a concentration, and the concentration that this reading shows. -/
def roundTrip (c : Calibration) (ppm : Single) : UInt32 × Single :=
  (c.rawOf ppm, c.ppmOf (c.rawOf ppm))

/-- Clean air reads zero. -/
theorem ppmOf_of_le_zero {c : Calibration} {raw : UInt32} (hraw : raw ≤ c.zero) :
    c.ppmOf raw = 0 := by
  simp [ppmOf, hraw]

/-- A line that cannot be followed asks for full scale. -/
theorem rawOf_of_not_usable {c : Calibration} (hline : ¬ c.Usable) (ppm : Single) :
    c.rawOf ppm = Board.fullScale := by
  simp [rawOf, hline]

/-- An infinite concentration asks for full scale. -/
theorem rawOf_infinity (c : Calibration) (negative : Bool) :
    c.rawOf (.infinity negative) = Board.fullScale := by
  simp [rawOf, Single.isFinite]

/-- On a usable line a concentration of zero or less stands at the zero point. -/
theorem rawOf_of_le_zero {c : Calibration} {ppm : Single} (hline : c.Usable)
    (hfinite : ppm.isFinite) (hppm : ppm ≤ 0) : c.rawOf ppm = c.zero := by
  simp [rawOf, hline, hfinite, hppm]

theorem toNat_clamp {low high : UInt32} (hbounds : low ≤ high) (w : UInt32) :
    (clamp low high w).toNat = max low.toNat (min w.toNat high.toNat) := by
  have hbounds := UInt32.le_iff_toNat_le.mp hbounds
  unfold clamp
  split
  · next hlow =>
    have hlow := UInt32.lt_iff_toNat_lt.mp hlow
    omega
  · next hlow =>
    have hlow := UInt32.le_iff_toNat_le.mp (UInt32.not_lt.mp hlow)
    split
    · next hhigh =>
      have hhigh := UInt32.lt_iff_toNat_lt.mp hhigh
      omega
    · next hhigh =>
      have hhigh := UInt32.le_iff_toNat_le.mp (UInt32.not_lt.mp hhigh)
      omega

theorem clamp_le {low high : UInt32} (hbounds : low ≤ high) (w : UInt32) :
    clamp low high w ≤ high := by
  unfold clamp
  split
  · exact hbounds
  · split
    · exact UInt32.le_refl high
    · next hnot => exact UInt32.not_lt.mp hnot

theorem lt_clamp {low high w : UInt32} (hbounds : low < high) (hw : low < w) :
    low < clamp low high w := by
  unfold clamp
  rw [if_neg (UInt32.not_lt.mpr (UInt32.le_of_lt hw))]
  split
  · exact hbounds
  · exact hw

theorem clamp_of_le {low high w : UInt32} (hbounds : low ≤ high) (hw : w ≤ low) :
    clamp low high w = low := by
  unfold clamp
  split
  · rfl
  · next hnot =>
    have heq : w = low := UInt32.le_antisymm hw (UInt32.not_lt.mp hnot)
    rw [heq, if_neg (UInt32.not_lt.mpr hbounds)]

theorem le_clamp {low high : UInt32} (hbounds : low ≤ high) (w : UInt32) :
    low ≤ clamp low high w := by
  rw [UInt32.le_iff_toNat_le, toNat_clamp hbounds]
  exact Nat.le_max_left _ _

/-- On a usable line no concentration asks for a reading below the zero point. -/
theorem zero_le_rawOf {c : Calibration} (hline : c.Usable) (ppm : Single) :
    c.zero ≤ c.rawOf ppm := by
  unfold rawOf
  split
  · exact hline.2.1
  · split
    · exact UInt32.le_refl _
    · exact le_clamp hline.2.1 _

/-- No concentration asks for a reading beyond the range of the converter. -/
theorem rawOf_le_fullScale (c : Calibration) (ppm : Single) : c.rawOf ppm ≤ Board.fullScale := by
  unfold rawOf
  split
  · exact UInt32.le_refl _
  · next hnot =>
    have hline : c.Usable := Decidable.not_not.mp (not_or.mp hnot).1
    split
    · exact hline.2.1
    · exact clamp_le hline.2.1 _

end Calibration

end GasWatch
