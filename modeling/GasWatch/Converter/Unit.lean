import GasWatch.Board
import GasWatch.Converter
import GasWatch.Record

/-!
# The converter unit of the chip

Claiming the unit, reading its channel once per conversion, and releasing it.  The hardware answers
each request with a code, zero for success, and keeps a record of the requests, so that the order
in which a unit is used can be stated.
-/

namespace GasWatch

/-! ## Hardware -/

/-- A reference to a unit. -/
inductive UnitHandle where
  /-- No unit. -/
  | null
  /-- The unit that was claimed. -/
  | unit
  deriving DecidableEq

/-- A request to the hardware. -/
inductive UnitCall where
  | newUnit (unitId coprocessorMode : Nat)
  | configChannel (handle : UnitHandle) (channel : UInt32) (attenuation bitWidth : Nat)
  | read (handle : UnitHandle) (channel : UInt32)
  | deleteUnit (handle : UnitHandle)
  deriving DecidableEq

/-- The handle as it appears in a listing of requests. -/
def UnitHandle.text : UnitHandle → String
  | null => "null"
  | unit => "unit"

/-- A request as a line. -/
def UnitCall.text : UnitCall → String
  | newUnit unitId coprocessorMode =>
    s!"new_unit unit_id={unitId.repr} ulp_mode={coprocessorMode.repr}"
  | configChannel handle channel attenuation bitWidth =>
    s!"config_channel {handle.text} channel={channel.toNat.repr} " ++
      s!"atten={attenuation.repr} bitwidth={bitWidth.repr}"
  | read handle channel => s!"read {handle.text} channel={channel.toNat.repr}"
  | deleteUnit handle => s!"del_unit {handle.text}"

/-- What a raw conversion yields: a signed count, or a code that is not zero. -/
inductive RawConversion where
  | value (raw : Int32)
  | failure (code : Int32)
  deriving DecidableEq

/-- The converter hardware: the codes it will answer with, the conversions it will make, and the
requests it has had. -/
structure Hardware where
  newUnitCode : Int32 := 0
  configChannelCode : Int32 := 0
  conversions : List RawConversion := []
  calls : Array UnitCall := #[]

namespace Hardware

/-- The code of a conversion for which the hardware has no answer left: a timeout. -/
def timeout : Int32 := 263

/-- Notes a request. -/
def request (h : Hardware) (call : UnitCall) : Hardware := { h with calls := h.calls.push call }

/-- The next raw conversion. -/
def nextConversion (h : Hardware) : RawConversion := h.conversions.headD (.failure timeout)

end Hardware

/-! ## A claimed unit -/

/-- A unit that was claimed and configured for one channel. -/
structure UnitConverter where
  hardware : Hardware
  handle : UnitHandle
  channel : UInt32

namespace UnitConverter

/-- The number of the first unit. -/
def firstUnit : Nat := 0

/-- The mode in which the coprocessor keeps off the unit. -/
def coprocessorDisabled : Nat := 0

/-- The attenuation under which 3.3 V is full scale. -/
def fullAttenuation : Nat := 3

/-- The resolution of a conversion. -/
def bitWidth : Nat := 12

/-- Claims the first unit and configures the sensor's channel, or gives the code of the first
request that failed and the hardware as it was left.  A unit that cannot be configured is released
again. -/
def claim (h : Hardware) : Except (Int32 × Hardware) UnitConverter :=
  let created := h.request (.newUnit firstUnit coprocessorDisabled)
  if h.newUnitCode ≠ 0 then .error (h.newUnitCode, created)
  else
    let channel := Board.sensorChannel
    let configured := created.request (.configChannel .unit channel fullAttenuation bitWidth)
    if h.configChannelCode ≠ 0 then
      .error (h.configChannelCode, configured.request (.deleteUnit .unit))
    else .ok { hardware := configured, handle := .unit, channel }

/-- A signed count held to the range of the converter. -/
def clampRaw (raw : Int32) : UInt32 :=
  (min raw.toInt Board.fullScale.toNat).toNat.toUInt32

/-- What the monitor makes of a raw conversion. -/
def conversionOf : RawConversion → Conversion
  | .value raw => .reading (clampRaw raw)
  | .failure code => .failed (.device code)

/-- Reads the channel once. -/
def next (u : UnitConverter) : Conversion × UnitConverter :=
  let asked := u.hardware.request (.read u.handle u.channel)
  (conversionOf u.hardware.nextConversion,
    { u with hardware := { asked with conversions := u.hardware.conversions.tail } })

instance : Converter UnitConverter := ⟨next⟩

/-- Releases the unit. -/
def release (u : UnitConverter) : Hardware := u.hardware.request (.deleteUnit u.handle)

/-- Reads the channel a number of times. -/
def readMany : Nat → UnitConverter → List Conversion × UnitConverter
  | 0, u => ([], u)
  | count + 1, u =>
    let rest := readMany count u.next.2
    (u.next.1 :: rest.1, rest.2)

theorem toNat_clampRaw (raw : Int32) :
    (clampRaw raw).toNat = (min raw.toInt Board.fullScale.toNat).toNat := by
  have hscale : Board.fullScale.toNat = 4095 := rfl
  have hlt : (min raw.toInt (Board.fullScale.toNat : Int)).toNat < UInt32.size := by
    simp only [hscale, UInt32.size]
    omega
  exact UInt32.toNat_ofNat_of_lt' hlt

/-- A reading never exceeds full scale. -/
theorem clampRaw_le (raw : Int32) : clampRaw raw ≤ Board.fullScale := by
  rw [UInt32.le_iff_toNat_le, toNat_clampRaw]
  omega

end UnitConverter

end GasWatch
