import GasWatch.Block.Word

/-!
# The shared block

Six 32-bit words that survive deep sleep.  The coprocessor owns them; the main processor reads
all of them and writes the threshold, the confirm count and the stop flag.  `load_store` says
that a store is seen by loads of the same word and by no other.
-/

namespace GasWatch

/-- The contents of the six words. -/
structure Block where
  threshold : UInt32
  lastReading : UInt32
  aboveCount : UInt32
  confirmCount : UInt32
  cycleCount : UInt32
  stopFlag : UInt32
  deriving DecidableEq

namespace Block

/-! ## Access by word -/

/-- The value of a word. -/
def load (b : Block) : Word → UInt32
  | .threshold => b.threshold
  | .lastReading => b.lastReading
  | .aboveCount => b.aboveCount
  | .confirmCount => b.confirmCount
  | .cycleCount => b.cycleCount
  | .stopFlag => b.stopFlag

/-- The block with one word replaced. -/
def store (b : Block) (word : Word) (value : UInt32) : Block :=
  match word with
  | .threshold => { b with threshold := value }
  | .lastReading => { b with lastReading := value }
  | .aboveCount => { b with aboveCount := value }
  | .confirmCount => { b with confirmCount := value }
  | .cycleCount => { b with cycleCount := value }
  | .stopFlag => { b with stopFlag := value }

/-- The values of the words in memory order. -/
def values (b : Block) : List UInt32 := Word.all.map b.load

/-- A load returns what was stored in the same word, and what was there before in any other. -/
theorem load_store (b : Block) (word : Word) (value : UInt32) (other : Word) :
    (b.store word value).load other = if other = word then value else b.load other := by
  cases word <;> cases other <;> rfl

/-- Blocks with equal words are equal. -/
theorem ext_load {a b : Block} (h : ∀ word, a.load word = b.load word) : a = b := by
  have hthreshold := h .threshold
  have hlastReading := h .lastReading
  have haboveCount := h .aboveCount
  have hconfirmCount := h .confirmCount
  have hcycleCount := h .cycleCount
  have hstopFlag := h .stopFlag
  cases a; cases b
  simp_all [load]

/-! ## Fresh blocks -/

/-- A block that has seen nothing yet, with the given limits. -/
def withLimits (threshold confirmCount : UInt32) : Block :=
  { threshold, confirmCount, lastReading := 0, aboveCount := 0, cycleCount := 0, stopFlag := 0 }

/-- The block of a freshly loaded image. -/
def fresh : Block := withLimits Board.defaultThreshold Board.defaultConfirmCount

/-- Every word of a fresh block has its initial value. -/
theorem load_fresh (word : Word) : fresh.load word = word.initialValue := by
  cases word <;> rfl

/-! ## The stop flag -/

/-- Whether the monitor is asked to halt: any value but zero does. -/
def stopRequested (b : Block) : Bool := b.stopFlag != 0

/-- Raises or clears the stop flag. -/
def setStop (b : Block) (stop : Bool) : Block := { b with stopFlag := if stop then 1 else 0 }

@[simp] theorem stopRequested_setStop (b : Block) (stop : Bool) :
    (b.setStop stop).stopRequested = stop := by
  cases stop <;> rfl

/-- Forgets the readings counted so far and any request to halt, as before a new watch. -/
def restarted (b : Block) : Block := { b with aboveCount := 0, stopFlag := 0 }

/-! ## Writes by the host -/

/-- A value for a word. -/
structure Write where
  word : Word
  value : UInt32
  deriving DecidableEq

/-- Makes writes in order. -/
def apply (b : Block) (writes : List Write) : Block :=
  writes.foldl (fun b write => b.store write.word write.value) b

@[simp] theorem apply_nil (b : Block) : b.apply [] = b := rfl

@[simp] theorem apply_cons (b : Block) (write : Write) (writes : List Write) :
    b.apply (write :: writes) = (b.store write.word write.value).apply writes := rfl

@[simp] theorem apply_append (b : Block) (first second : List Write) :
    b.apply (first ++ second) = (b.apply first).apply second := by
  simp [apply]

end Block

end GasWatch
