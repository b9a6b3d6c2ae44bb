import GasWatch.Converter.Scripted
import GasWatch.Monitor.Run
import GasWatch.Power.Manager
import GasWatch.Snapshot

/-!
# Sessions

One block, one power manager and one monitor, driven through a list of operations.  Everything that
can be done to them is an `Operation`; `perform` carries one out and says what it answers, which
requests it made to the platform and what it logged.
-/

namespace GasWatch

/-- The power manager, the block it shares with the monitor, and the monitor. -/
structure Session where
  manager : Manager ScriptedControl
  block : Block
  monitor : Monitor ScriptedConverter

namespace Session

/-- Something done to a session. -/
inductive Operation where
  /-- Replaces the monitor; the block stays. -/
  | newMonitor (converter : ScriptedConverter) (intervalMs : UInt32)
  /-- Takes one sample. -/
  | step
  /-- Runs the monitor while the host writes, and stops it from a delay on. -/
  | run (host : List (Nat × List Block.Write)) (last : Nat)
  /-- Reads a word. -/
  | load (word : Word)
  /-- Writes a word. -/
  | store (write : Block.Write)
  /-- Asks whether the stop flag is raised. -/
  | stopRequested
  /-- Raises or clears the stop flag. -/
  | setStop (stop : Bool)
  /-- Gives the monitor's wake signal. -/
  | wakeHost
  /-- Lets the monitor's clock run. -/
  | pause (ms : UInt32)
  /-- Changes how the platform behaves. -/
  | setControl (change : ScriptedControl.Change)
  /-- Lets the power manager act. -/
  | power (operation : Manager.Operation)
  /-- Asks for the configuration of the power manager. -/
  | config
  /-- Asks for the concentration of the last reading. -/
  | lastPpm

/-- What an operation answers. -/
inductive Answer where
  | done
  | word (value : UInt32)
  | flag (value : Bool)
  | verdict (verdict : Verdict)
  | ended (exit : Exit) (delays : Nat)
  | result (result : Except Manager.Failure Unit)
  | state (snapshot : Snapshot)
  | reason (reason : WakeReason)
  | config (config : Config)
  | ppm (value : Single)
  | asleep

/-- What an operation leaves behind. -/
structure Response where
  session : Session
  answer : Answer
  calls : List ControlCall := []
  log : List Record := []

/-- What an operation of the power manager answers. -/
def powerAnswer (outcome : Manager.Outcome ScriptedControl) : Manager.Operation → Answer
  | .readState => .state outcome.block.snapshot
  | .wakeReason => .reason (Control.wakeReason outcome.manager.control)
  | .sleep => .asleep
  | .arm _ | .load | .start | .resume | .requestStop => .result outcome.result

/-- Carries out an operation. -/
def perform (s : Session) : Operation → Response
  | .newMonitor converter intervalMs =>
    { session := { s with monitor := { converter, intervalMs } }, answer := .done }
  | .step =>
    let sampled := s.monitor.sample s.block
    { session := { s with monitor := sampled.1, block := sampled.2.block }
      answer := .verdict sampled.2.verdict
      log := [sampled.2.record] }
  | .run host last =>
    let report := s.monitor.run s.block (.ofEntries host) last
    { session := { s with monitor := report.monitor, block := report.block }
      answer := .ended report.exit report.delays
      log := report.log }
  | .load word => { session := s, answer := .word (s.block.load word) }
  | .store write =>
    { session := { s with block := s.block.store write.word write.value }, answer := .done }
  | .stopRequested => { session := s, answer := .flag s.block.stopRequested }
  | .setStop stop => { session := { s with block := s.block.setStop stop }, answer := .done }
  | .wakeHost => { session := { s with monitor := s.monitor.wakeHost }, answer := .done }
  | .pause ms => { session := { s with monitor := s.monitor.pause ms }, answer := .done }
  | .setControl change =>
    { session := { s with manager := { s.manager with control := s.manager.control.change change } }
      answer := .done }
  | .power operation =>
    let outcome := s.manager.perform s.block operation
    { session := { s with manager := outcome.manager, block := outcome.block }
      answer := powerAnswer outcome operation
      calls := outcome.calls
      log := outcome.log }
  | .config => { session := s, answer := .config s.manager.config }
  | .lastPpm =>
    { session := s, answer := .ppm (s.manager.config.calibration.ppmOf s.block.lastReading) }

/-- Carries out operations in order, with all that they left behind. -/
def performAll (s : Session) : List Operation → List Response
  | [] => []
  | operation :: rest =>
    let response := s.perform operation
    response :: performAll response.session rest

end Session

end GasWatch
