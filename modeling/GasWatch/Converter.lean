/-!
# Converters

Anything that turns the sensor's voltage into raw readings, one conversion at a time.  A converter
is a state with a single operation, so a script, a hardware unit and an arbitrary stream of
conversions are driven alike.
-/

namespace GasWatch

/-- Why a conversion gave no reading. -/
inductive Fault where
  /-- The script asks for a failure here. -/
  | scripted
  /-- The script is used up. -/
  | exhausted
  /-- The converter unit answered with an error code. -/
  | device (code : Int32)
  deriving DecidableEq

/-- The fault as it appears in log records. -/
def Fault.text : Fault → String
  | .scripted => "Scripted"
  | .exhausted => "Exhausted"
  | .device code => s!"EspError({code.toInt.repr})"

/-- What one conversion yields. -/
inductive Conversion where
  | reading (raw : UInt32)
  | failed (fault : Fault)
  deriving DecidableEq

/-- A state that can be asked for conversions, one after the other. -/
class Converter (σ : Type) where
  /-- Makes the next conversion. -/
  convert : σ → Conversion × σ

end GasWatch
