import GasWatch.Calibration
import GasWatch.Single.Decimal

/-!
# Monitor configuration

What the main processor hands to the coprocessor before it sleeps.  `validate` says why a
configuration cannot be used, the first reason first, and accepts exactly the `Valid` ones
(`validate_eq_ok_iff`).  `samplesCovering` turns a time window into a number of samples.
-/

namespace GasWatch

/-- The concentration that raises the alarm, how many readings in a row confirm it, the pause
between readings, and the sensor's line. -/
structure Config where
  thresholdPpm : Single
  confirmCount : UInt32
  sampleIntervalMs : UInt32
  calibration : Calibration
  deriving DecidableEq

namespace Config

/-- The configuration in use until another one is armed. -/
def standard : Config :=
  { thresholdPpm := Board.defaultThresholdPpm
    confirmCount := Board.defaultConfirmCount
    sampleIntervalMs := Board.sampleIntervalMs
    calibration := .standard }

/-- The raw reading at which the alarm is raised. -/
def threshold (c : Config) : UInt32 := c.calibration.rawOf c.thresholdPpm

/-! ## Confirmation window -/

/-- The number of samples, one every `intervalMs`, that span a window: rounded up, at least one,
and held at the greatest word.  Without an interval one sample has to do. -/
def samplesCovering (windowSecs intervalMs : UInt32) : UInt32 :=
  if intervalMs = 0 then 1
  else
    saturate (max 1 ((windowSecs.toNat * 1000 + (intervalMs.toNat - 1)) / intervalMs.toNat))

/-- The standard configuration with a confirm count that covers a window. -/
def ofConfirmWindow (windowSecs : UInt32) : Config :=
  { standard with confirmCount := samplesCovering windowSecs standard.sampleIntervalMs }

/-! ## Validation -/

/-- Why a configuration is refused. -/
inductive Rejection where
  | noConfirmation
  | noInterval
  | spanBelowZero (span zero : UInt32)
  | spanBeyondScale (span : UInt32)
  | spanPpmNotPositive
  | thresholdInvalid (ppm : Single)
  deriving DecidableEq

/-- The reason in words. -/
def Rejection.message : Rejection → String
  | .noConfirmation => "confirm count must be at least 1"
  | .noInterval => "sample interval must be nonzero"
  | .spanBelowZero span zero =>
    s!"calibration span ({span.toNat.repr}) must exceed zero point ({zero.toNat.repr})"
  | .spanBeyondScale span =>
    s!"calibration span ({span.toNat.repr}) exceeds the ADC range " ++
      s!"(0..={Board.fullScale.toNat.repr})"
  | .spanPpmNotPositive => "calibration span ppm must be positive"
  | .thresholdInvalid ppm => s!"threshold {ppm.shortestText} ppm is not a valid concentration"

/-- Accepts a configuration or gives the first reason against it. -/
def validate (c : Config) : Except Rejection Unit :=
  if c.confirmCount = 0 then .error .noConfirmation
  else if c.sampleIntervalMs = 0 then .error .noInterval
  else if c.calibration.span ≤ c.calibration.zero then
    .error (.spanBelowZero c.calibration.span c.calibration.zero)
  else if Board.fullScale < c.calibration.span then
    .error (.spanBeyondScale c.calibration.span)
  else if ¬ 0 < c.calibration.spanPpm then .error .spanPpmNotPositive
  else if ¬ c.thresholdPpm.isFinite ∨ c.thresholdPpm < 0 then
    .error (.thresholdInvalid c.thresholdPpm)
  else .ok ()

/-- A configuration that can be armed: it takes samples and needs some, its line rises within the
range of the converter, and its threshold is a concentration. -/
structure Valid (c : Config) : Prop where
  confirms : c.confirmCount ≠ 0
  pauses : c.sampleIntervalMs ≠ 0
  rises : c.calibration.zero < c.calibration.span
  within : c.calibration.span ≤ Board.fullScale
  measures : 0 < c.calibration.spanPpm
  finite : c.thresholdPpm.isFinite
  nonnegative : ¬ c.thresholdPpm < 0

/-- Exactly the valid configurations are accepted. -/
theorem validate_eq_ok_iff {c : Config} : c.validate = .ok () ↔ c.Valid := by
  constructor
  · intro h
    simp only [validate] at h
    repeat' split at h
    all_goals try contradiction
    all_goals constructor <;> grind
  · intro ⟨hconfirms, hpauses, hrises, hwithin, hmeasures, hfinite, hnonnegative⟩
    simp [validate, hconfirms, hpauses, UInt32.not_le.mpr hrises, UInt32.not_lt.mpr hwithin,
      hmeasures, hfinite, hnonnegative]

/-- A valid configuration has a usable line. -/
theorem Valid.usable {c : Config} (h : c.Valid) : c.calibration.Usable := by
  refine ⟨h.rises, ?_, h.measures⟩
  exact UInt32.le_trans (UInt32.le_of_lt h.rises) h.within

/-- The standard configuration can be armed. -/
theorem valid_standard : standard.Valid := by constructor <;> decide +kernel

/-- The standard alarm, a fifth of the span above clean air, stands at reading 560. -/
theorem threshold_standard : standard.threshold = 560 := by decide +kernel

end Config

end GasWatch
