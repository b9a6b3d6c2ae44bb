import GasWatch.Block

/-!
# Snapshots

A copy of the shared words as the main processor reads them, and its verdict on them.
-/

namespace GasWatch

/-- A copy of the words as the main processor reads them, the stop flag as a yes or no. -/
structure Snapshot where
  threshold : UInt32 := 0
  lastReading : UInt32 := 0
  aboveCount : UInt32 := 0
  confirmCount : UInt32 := 0
  cycleCount : UInt32 := 0
  stopFlag : Bool := false
  deriving DecidableEq

/-- Copies the words. -/
def Block.snapshot (b : Block) : Snapshot :=
  { threshold := b.threshold
    lastReading := b.lastReading
    aboveCount := b.aboveCount
    confirmCount := b.confirmCount
    cycleCount := b.cycleCount
    stopFlag := b.stopRequested }

/-- Whether the readings counted confirm an alarm.  No reading never does. -/
def Snapshot.confirmed (s : Snapshot) : Bool :=
  decide (0 < s.aboveCount) && decide (s.confirmCount ≤ s.aboveCount)

/-- The words of a snapshot on one line. -/
def Snapshot.text (s : Snapshot) : String :=
  "MonitorSnapshot \x7b " ++
    s!"threshold_adc: {s.threshold.toNat.repr}, last_reading: {s.lastReading.toNat.repr}, " ++
    s!"above_count: {s.aboveCount.toNat.repr}, confirm_count: {s.confirmCount.toNat.repr}, " ++
    s!"cycle_count: {s.cycleCount.toNat.repr}, stop_flag: {s.stopFlag} \x7d"

end GasWatch
