import GasWatch.Block
import GasWatch.Record
import GasWatch.Rounding

/-!
# The threshold monitor

One sample at a time: `Block.observe` says what a conversion does to the shared words, and
`Monitor.sample` asks a converter for it.  A reading below the threshold ends the row of readings
above it, a reading at or above the threshold extends the row, and a failed conversion does
neither.  Threshold and confirm count are those in the block at the sample.
-/

namespace GasWatch

/-! ## What a conversion does to the block -/

/-- What a sample showed. -/
inductive Verdict where
  /-- There was no reading, and nothing was recorded. -/
  | readFailed
  /-- The reading is below the threshold. -/
  | below (reading : UInt32)
  /-- The reading is at or above the threshold, the `count`-th in a row, and more are needed. -/
  | above (reading count : UInt32)
  /-- The reading completes the row. -/
  | confirmed (reading count : UInt32)
  deriving DecidableEq

/-- A sample's verdict, the block after it, and its log record. -/
structure Observation where
  verdict : Verdict
  block : Block
  record : Record

namespace Block

/-- Records a reading: it becomes the last one and adds a cycle, which wraps, and the row above
the threshold grows, held at the greatest word, or ends. -/
def record (b : Block) (reading : UInt32) : Block :=
  { b with
    lastReading := reading
    cycleCount := b.cycleCount + 1
    aboveCount := if reading < b.threshold then 0 else saturatingAdd b.aboveCount 1 }

/-- What a conversion does to the block. -/
def observe (b : Block) : Conversion → Observation
  | .failed fault => { verdict := .readFailed, block := b, record := .readFailed fault }
  | .reading reading =>
    let after := b.record reading
    if reading < b.threshold then
      { verdict := .below reading
        block := after
        record := .below after.cycleCount reading b.threshold }
    else
      { verdict :=
          if b.confirmCount ≤ after.aboveCount then .confirmed reading after.aboveCount
          else .above reading after.aboveCount
        block := after
        record := .above after.cycleCount reading b.threshold after.aboveCount }

/-- A failed conversion leaves the block alone. -/
@[simp] theorem block_observe_failed (b : Block) (fault : Fault) :
    (b.observe (.failed fault)).block = b := rfl

/-- A reading is recorded whatever its verdict. -/
@[simp] theorem block_observe_reading (b : Block) (reading : UInt32) :
    (b.observe (.reading reading)).block = b.record reading := by
  simp only [observe]; split <;> rfl

/-- A sample leaves the words alone that the host may write. -/
theorem load_observe_of_hostWritable (b : Block) (conversion : Conversion) {word : Word}
    (hword : word.hostWritable) : (b.observe conversion).block.load word = b.load word := by
  cases conversion with
  | failed fault => rfl
  | reading reading =>
    rw [block_observe_reading]
    cases word <;> simp_all [Word.hostWritable] <;> rfl

end Block

/-! ## A monitor at work -/

/-- A converter, the pause between samples, the time spent in pauses, and how often the host was
woken. -/
structure Monitor (σ : Type) where
  converter : σ
  intervalMs : UInt32
  elapsedNs : Nat := 0
  wakes : Nat := 0

namespace Monitor

variable {σ : Type} [Converter σ]

/-- Makes one conversion and records it. -/
def sample (m : Monitor σ) (b : Block) : Monitor σ × Observation :=
  let made := Converter.convert m.converter
  ({ m with converter := made.2 }, b.observe made.1)

/-- Lets a number of milliseconds pass. -/
def pause (m : Monitor σ) (ms : UInt32) : Monitor σ :=
  { m with elapsedNs := m.elapsedNs + ms.toNat * 1000000 }

/-- Wakes the host. -/
def wakeHost (m : Monitor σ) : Monitor σ := { m with wakes := m.wakes + 1 }

end Monitor

end GasWatch
