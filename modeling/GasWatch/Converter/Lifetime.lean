import GasWatch.Converter.Unit
import GasWatch.Monitor.Run

/-!
# The lifetime of a converter unit

When the coprocessor cannot sample, the main processor does: it claims the converter unit, may read
it and run the monitor over it, and releases it at the end, however the monitor ended.
-/

namespace GasWatch.Lifetime

/-- A monitor run over the unit: the block it starts on, the pause between samples, what the host
writes meanwhile, and the delay from which on the host stops it. -/
structure Watch where
  block : Block
  intervalMs : UInt32 := Board.sampleIntervalMs
  host : Schedule := .quiet
  last : Nat

/-- What is done with a unit between claim and release. -/
structure Plan where
  reads : Nat := 0
  watch : Option Watch := none

/-- What came of a plan: whether the unit could be claimed, the readings, the end of the watch, the
requests that the hardware had, and the log. -/
structure Outcome where
  claimed : Except Int32 Unit
  readings : List Conversion := []
  report : Option (Report UnitConverter) := none
  calls : List UnitCall
  log : List Record := []

/-- Runs the monitor over a unit. -/
def Watch.run (w : Watch) (unit : UnitConverter) : Report UnitConverter :=
  let monitor : Monitor UnitConverter := { converter := unit, intervalMs := w.intervalMs }
  monitor.run w.block w.host w.last

/-- Claims a unit, follows the plan and releases the unit.  A unit that cannot be claimed is not
used at all. -/
def Plan.follow (plan : Plan) (hardware : Hardware) : Outcome :=
  match UnitConverter.claim hardware with
  | .error (code, left) => { claimed := .error code, calls := left.calls.toList }
  | .ok unit =>
    let read := unit.readMany plan.reads
    match plan.watch with
    | none =>
      { claimed := .ok ()
        readings := read.1
        calls := read.2.release.calls.toList
        log := [.converterReady] }
    | some watch =>
      let report := watch.run read.2
      { claimed := .ok ()
        readings := read.1
        report := some report
        calls := report.monitor.converter.release.calls.toList
        log := .converterReady :: report.log }

end GasWatch.Lifetime
