import GasWatch.Config
import GasWatch.Power.Control
import GasWatch.Record

/-!
# The power manager

The main processor's side: arm the monitor with a configuration, load, start, resume and stop the
coprocessor, and go to sleep.  Each operation gives an `Outcome`: the manager and the block
afterwards, whether it succeeded, the requests it made to the platform and the records it logged,
all in order.  `perform` names the operations, so that histories of them are lists.
-/

namespace GasWatch

/-- A platform, and the configuration that was armed last. -/
structure Manager (κ : Type) where
  control : κ
  config : Config

namespace Manager

/-- Why an operation failed. -/
inductive Failure where
  /-- The configuration cannot be armed. -/
  | rejected (reason : Config.Rejection)
  /-- The platform failed. -/
  | platform (text : String)
  deriving DecidableEq

/-- The failure in words. -/
def Failure.message : Failure → String
  | rejected reason => reason.message
  | platform text => text

/-- What an operation leaves behind. -/
structure Outcome (κ : Type) where
  manager : Manager κ
  block : Block
  result : Except Failure Unit := .ok ()
  calls : List ControlCall := []
  log : List Record := []

variable {κ : Type}

/-! ## Arming -/

/-- The block armed with a configuration: its limits, no readings counted and no request to halt.
The cycle count goes on. -/
def armedBlock (c : Config) (b : Block) : Block :=
  { b.restarted with threshold := c.threshold, confirmCount := c.confirmCount }

/-- Takes over a configuration and hands its limits to the monitor. -/
def arm (m : Manager κ) (b : Block) (c : Config) : Outcome κ :=
  match c.validate with
  | .error reason => { manager := m, block := b, result := .error (.rejected reason) }
  | .ok () =>
    { manager := { m with config := c }
      block := armedBlock c b
      log := [.armed c.thresholdPpm c.threshold c.confirmCount c.sampleIntervalMs] }

/-- A valid configuration is armed. -/
theorem arm_of_valid (m : Manager κ) (b : Block) {c : Config} (hvalid : c.Valid) :
    m.arm b c =
      { manager := { m with config := c }
        block := armedBlock c b
        log := [.armed c.thresholdPpm c.threshold c.confirmCount c.sampleIntervalMs] } := by
  simp [arm, Config.validate_eq_ok_iff.mpr hvalid]

/-- A configuration that is refused changes nothing. -/
theorem arm_of_error (m : Manager κ) (b : Block) {c : Config} {reason : Config.Rejection}
    (hreason : c.validate = .error reason) :
    m.arm b c = { manager := m, block := b, result := .error (.rejected reason) } := by
  simp [arm, hreason]

/-- Arming leaves the last reading and the cycle count alone. -/
theorem load_armedBlock (c : Config) (b : Block) {word : Word}
    (hword : word = .lastReading ∨ word = .cycleCount) :
    (armedBlock c b).load word = b.load word := by
  rcases hword with rfl | rfl <;> rfl

/-! ## Loading -/

variable [Control κ]

/-- Loads a fresh image and arms it with the configuration at hand, which is looked at first. -/
def load (m : Manager κ) (b : Block) : Outcome κ :=
  match m.config.validate with
  | .error reason => { manager := m, block := b, result := .error (.rejected reason) }
  | .ok () =>
    match Control.load m.control b with
    | (.error text, control, left) =>
      { manager := { m with control }
        block := left
        result := .error (.platform text)
        calls := [.load] }
    | (.ok (), control, left) =>
      let armed := arm { m with control } left m.config
      { armed with calls := .load :: armed.calls }

/-! ## Starting and stopping -/

/-- Starts the coprocessor and makes it a wake source. -/
def start (m : Manager κ) (b : Block) : Outcome κ :=
  match Control.start m.control with
  | (.error text, control) =>
    { manager := { m with control }
      block := b
      result := .error (.platform text)
      calls := [.start] }
  | (.ok (), control) =>
    match Control.enableWakeup control with
    | (.error text, control) =>
      { manager := { m with control }
        block := b
        result := .error (.platform text)
        calls := [.start, .enableWakeup] }
    | (.ok (), control) =>
      { manager := { m with control }
        block := b
        calls := [.start, .enableWakeup]
        log := [.running] }

/-- Forgets the readings counted and any request to halt, and starts again. -/
def resume (m : Manager κ) (b : Block) : Outcome κ := m.start b.restarted

/-- Asks the monitor to halt at its next sample. -/
def requestStop (m : Manager κ) (b : Block) : Outcome κ :=
  { manager := m, block := b.setStop true, log := [.stopRequested] }

/-- Goes to sleep with the coprocessor as wake source.  Without a wake source the main processor
sleeps as well, but says so. -/
def sleep (m : Manager κ) (b : Block) : Outcome κ :=
  let (armed, control) := Control.enableWakeup m.control
  { manager := { m with control }
    block := b
    calls := [.enableWakeup, .deepSleep]
    log :=
      match armed with
      | .error text => [.wakeupNotArmed text, .sleeping]
      | .ok () => [.sleeping] }

/-! ## Operations -/

/-- An operation of the manager. -/
inductive Operation where
  | arm (config : Config)
  | load
  | start
  | resume
  | requestStop
  /-- Reads the block and changes nothing. -/
  | readState
  /-- Asks the platform why the main processor runs. -/
  | wakeReason
  | sleep
  deriving DecidableEq

/-- Carries out an operation. -/
def perform (m : Manager κ) (b : Block) : Operation → Outcome κ
  | .arm config => m.arm b config
  | .load => m.load b
  | .start => m.start b
  | .resume => m.resume b
  | .requestStop => m.requestStop b
  | .readState => { manager := m, block := b }
  | .wakeReason => { manager := m, block := b, calls := [.wakeReason] }
  | .sleep => m.sleep b

end Manager

end GasWatch
