import GasWatch.Block
import GasWatch.Power.WakeReason

/-!
# Control of the coprocessor

What the platform can be asked to do: load the coprocessor image, start it, make it a wake source,
tell why the main processor runs, and sleep.  `ScriptedControl` does what it is told to;
`SimulatedCoprocessor` only remembers whether it runs.
-/

namespace GasWatch

/-- A platform.  Loading an image may rewrite the shared words; a failure comes with its text. -/
class Control (κ : Type) where
  /-- Copies the monitor image to where the coprocessor runs it. -/
  load : κ → Block → Except String Unit × κ × Block
  /-- Lets the coprocessor run. -/
  start : κ → Except String Unit × κ
  /-- Makes the coprocessor a source of wakes. -/
  enableWakeup : κ → Except String Unit × κ
  /-- Tells why the main processor runs. -/
  wakeReason : κ → WakeReason

/-- A request to the platform. -/
inductive ControlCall where
  | load
  | start
  | enableWakeup
  | wakeReason
  | deepSleep
  deriving DecidableEq

/-! ## Scripted control -/

/-- A platform that fails where it is told to, and may reset the shared words on a load. -/
structure ScriptedControl where
  cause : UInt32 := 0
  resetsOnLoad : Bool := false
  loadFailure : Option String := none
  startFailure : Option String := none
  wakeupFailure : Option String := none
  deriving DecidableEq

namespace ScriptedControl

/-- Fails with the text given, if one is. -/
def outcome : Option String → Except String Unit
  | none => .ok ()
  | some text => .error text

instance : Control ScriptedControl where
  load c b :=
    match c.loadFailure with
    | none => (.ok (), c, if c.resetsOnLoad then .fresh else b)
    | some text => (.error text, c, b)
  start c := (outcome c.startFailure, c)
  enableWakeup c := (outcome c.wakeupFailure, c)
  wakeReason c := .ofCause c.cause

/-- New settings for a scripted control, for those that are given. -/
structure Change where
  cause : Option UInt32 := none
  resetsOnLoad : Option Bool := none
  loadFailure : Option (Option String) := none
  startFailure : Option (Option String) := none
  wakeupFailure : Option (Option String) := none

/-- The control with the settings that a change gives. -/
def change (c : ScriptedControl) (new : Change) : ScriptedControl :=
  { cause := new.cause.getD c.cause
    resetsOnLoad := new.resetsOnLoad.getD c.resetsOnLoad
    loadFailure := new.loadFailure.getD c.loadFailure
    startFailure := new.startFailure.getD c.startFailure
    wakeupFailure := new.wakeupFailure.getD c.wakeupFailure }

end ScriptedControl

/-! ## Simulated coprocessor -/

/-- A coprocessor of which only the fact is simulated that it runs. -/
structure SimulatedCoprocessor where
  running : Bool := false

instance : Control SimulatedCoprocessor where
  load _ b := (.ok (), { running := false }, b)
  start _ := (.ok (), { running := true })
  enableWakeup c := (.ok (), c)
  wakeReason _ := .powerOn

end GasWatch
