import GasWatch.Converter
import GasWatch.Single.Decimal
import GasWatch.Board

/-!
# Log records

Every event that the monitor and the power manager log, with the values it carries.  `level` and
`text` give its line in the log.
-/

namespace GasWatch

/-- How serious a record is. -/
inductive Level where
  | error | warn | info | debug | trace
  deriving DecidableEq

/-- An event of the log. -/
inductive Record where
  /-- A conversion gave no reading. -/
  | readFailed (fault : Fault)
  /-- A reading stayed below the threshold. -/
  | below (cycle reading threshold : UInt32)
  /-- A reading reached the threshold and is the `count`-th in a row to do so. -/
  | above (cycle reading threshold count : UInt32)
  /-- The row is long enough, and the host is woken. -/
  | confirmed (reading threshold count : UInt32)
  /-- The monitor obeys the stop flag. -/
  | halted
  /-- The converter unit can be read. -/
  | converterReady
  /-- A configuration was handed to the coprocessor. -/
  | armed (ppm : Single) (threshold confirmCount intervalMs : UInt32)
  /-- The coprocessor samples. -/
  | running
  /-- The main processor asks the monitor to halt. -/
  | stopRequested
  /-- The coprocessor could not be made a wake source. -/
  | wakeupNotArmed (reason : String)
  /-- The main processor goes to sleep. -/
  | sleeping
  deriving DecidableEq

namespace Record

/-- How serious a record is: failed conversions warn, single samples are for those who look
closer, and only a wake source that is missing is an error. -/
def level : Record → Level
  | readFailed _ => .warn
  | below .. => .trace
  | above .. => .debug
  | wakeupNotArmed _ => .error
  | confirmed .. | halted | converterReady | armed .. | running | stopRequested | sleeping => .info

/-- The line of a record. -/
def text : Record → String
  | readFailed fault => s!"NH3 ADC read failed: {fault.text}"
  | below cycle reading threshold =>
    s!"cycle {cycle.toNat.repr}: {reading.toNat.repr} < {threshold.toNat.repr}"
  | above cycle reading threshold count =>
    s!"cycle {cycle.toNat.repr}: {reading.toNat.repr} >= {threshold.toNat.repr} " ++
      s!"({count.toNat.repr} in a row)"
  | confirmed reading threshold count =>
    s!"NH3 confirmed: {reading.toNat.repr} >= {threshold.toNat.repr} " ++
      s!"for {count.toNat.repr} samples — waking host"
  | halted => "Stop flag set — monitor halting"
  | converterReady =>
    s!"ADC1_CH{Board.sensorChannel.toNat.repr} ready for NH3 (GPIO{Board.sensorPin.toNat.repr})"
  | armed ppm threshold confirmCount intervalMs =>
    s!"ULP armed: {ppm.fixedText 1} ppm -> ADC {threshold.toNat.repr}, " ++
      s!"confirm {confirmCount.toNat.repr} x {intervalMs.toNat.repr} ms"
  | running => "ULP monitor running"
  | stopRequested => "ULP monitor stop requested"
  | wakeupNotArmed reason => s!"ULP wakeup source not armed ({reason}), sleeping anyway"
  | sleeping => "Entering deep sleep — wake on NH3 (ULP)"

end Record

end GasWatch
