import GasWatch.Single.Basic

/-!
# The board

Where the ammonia sensor is wired, how far its converter reads, and the limits and the pace that
hold until somebody sets others.
-/

namespace GasWatch.Board

/-- The GPIO pin of the sensor's analog output. -/
def sensorPin : UInt32 := 5

/-- The channel of the first converter unit behind that pin. -/
def sensorChannel : UInt32 := 4

/-- The greatest reading of a 12-bit conversion. -/
def fullScale : UInt32 := 4095

/-- Milliseconds between samples while the main processor sleeps. -/
def sampleIntervalMs : UInt32 := 200

/-- The raw threshold of a freshly loaded coprocessor image. -/
def defaultThreshold : UInt32 := 1500

/-- How many readings in a row confirm an alarm, by default. -/
def defaultConfirmCount : UInt32 := 3

/-- The concentration that raises the alarm, by default. -/
def defaultThresholdPpm : Single := 10

end GasWatch.Board
