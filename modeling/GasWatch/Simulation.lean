import GasWatch.Converter.Scripted
import GasWatch.Monitor.Run
import GasWatch.Power.Manager
import GasWatch.Snapshot

/-!
# A simulated boot

The boot sequence of the device against simulated hardware: load and start the coprocessor, let
clean air drift into the alarm band, report what the monitor saw, and sleep.
-/

namespace GasWatch

namespace Simulation

/-- What a boot prints, and the code it exits with. -/
structure Transcript where
  lines : List String
  exitCode : UInt32
  deriving DecidableEq

/-- Sixty-four readings that climb from clean air into the alarm band, 40 counts per sample. -/
def drift : ScriptedConverter := .ramp 300 40 64

/-- The lines that report a watch. -/
def reportLines (config : Config) (report : Report ScriptedConverter) : List String :=
  let snapshot := report.block.snapshot
  let converter := report.monitor.converter
  let ms := report.monitor.elapsedNs / 1000000
  let ppm := config.calibration.ppmOf snapshot.lastReading
  [ s!"{report.exit.text} after {converter.reads.repr} reads ({ms.repr} ms simulated), " ++
      s!"{report.monitor.wakes.repr} wake signal(s): {snapshot.text}"
  , s!"confirmed: {snapshot.confirmed}"
  , s!"last reading {ppm.fixedText 1} ppm, threshold {config.thresholdPpm.fixedText 1} ppm" ]

/-- Boots with a configuration.  A coprocessor that cannot be loaded or started ends the boot;
otherwise the watch is called off when the script is used up. -/
def boot (config : Config) : Transcript :=
  let manager : Manager SimulatedCoprocessor := { control := {}, config }
  let reason := s!"boot: {(Control.wakeReason manager.control).text}"
  let loaded := manager.load .fresh
  match loaded.result with
  | .error _ => { lines := [reason], exitCode := 1 }
  | .ok () =>
    let started := loaded.manager.start loaded.block
    match started.result with
    | .error _ => { lines := [reason], exitCode := 1 }
    | .ok () =>
      let monitor : Monitor ScriptedConverter :=
        { converter := drift, intervalMs := config.sampleIntervalMs }
      let report := monitor.run started.block .quiet drift.remaining.length
      let stopped := started.manager.requestStop report.block
      let asleep := stopped.manager.sleep stopped.block
      { lines :=
          reason :: reportLines config report ++
            [s!"deep sleep (ULP running: {asleep.manager.control.running})"]
        exitCode := 0 }

end Simulation

end GasWatch
