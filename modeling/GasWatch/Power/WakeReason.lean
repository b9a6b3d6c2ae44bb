/-!
# Wake reasons

Why the main processor is running, read off the cause that the sleep controller reports.
-/

namespace GasWatch

/-- Why the main processor is running. -/
inductive WakeReason where
  /-- It was switched on or reset. -/
  | powerOn
  /-- The coprocessor confirmed an alarm. -/
  | coprocessor
  | timer
  | gpio
  /-- A cause that has no meaning here. -/
  | other (cause : UInt32)
  deriving DecidableEq

namespace WakeReason

/-- The reason behind a cause of the sleep controller.  The coprocessor and the pins have several
causes each. -/
def ofCause (cause : UInt32) : WakeReason :=
  match cause.toNat with
  | 0 => powerOn
  | 6 | 10 => coprocessor
  | 4 => timer
  | 2 | 3 | 7 => gpio
  | _ => other cause

/-- The reason as it is reported. -/
def text : WakeReason → String
  | powerOn => "PowerOn"
  | coprocessor => "UlpWake"
  | timer => "Timer"
  | gpio => "Gpio"
  | other cause => s!"Other({cause.toNat.repr})"

end WakeReason

end GasWatch
