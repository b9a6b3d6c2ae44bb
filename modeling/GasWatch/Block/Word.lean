import GasWatch.Board

/-!
# The six shared words

Their order, their symbols in the coprocessor image, their first values, and which of them the
main processor may write.
-/

namespace GasWatch

/-- One of the words that the coprocessor and the main processor share. -/
inductive Word where
  /-- The raw reading at which a sample counts towards an alarm. -/
  | threshold
  /-- The last successful reading. -/
  | lastReading
  /-- How many readings in a row were at or above the threshold. -/
  | aboveCount
  /-- How many such readings confirm an alarm. -/
  | confirmCount
  /-- How many readings succeeded, counted across wakes. -/
  | cycleCount
  /-- Any value but zero asks the monitor to halt. -/
  | stopFlag
  deriving DecidableEq

namespace Word

/-- The words in the order in which they lie in memory. -/
def all : List Word := [threshold, lastReading, aboveCount, confirmCount, cycleCount, stopFlag]

/-- The name of a word in the coprocessor image. -/
def symbol : Word → String
  | threshold => "ulp_nh3_threshold_adc"
  | lastReading => "ulp_nh3_last_reading"
  | aboveCount => "ulp_nh3_above_count"
  | confirmCount => "ulp_nh3_confirm_count"
  | cycleCount => "ulp_cycle_count"
  | stopFlag => "ulp_stop_flag"

/-- The word with a given name. -/
def ofSymbol? (name : String) : Option Word := all.find? fun word => word.symbol == name

/-- Whether the main processor may write the word while the monitor runs. -/
def hostWritable : Word → Bool
  | threshold | confirmCount | stopFlag => true
  | lastReading | aboveCount | cycleCount => false

/-- The value of a word in a freshly loaded image. -/
def initialValue : Word → UInt32
  | threshold => Board.defaultThreshold
  | confirmCount => Board.defaultConfirmCount
  | lastReading | aboveCount | cycleCount | stopFlag => 0

theorem mem_all (word : Word) : word ∈ all := by cases word <;> decide

/-- A word is found under its own symbol. -/
theorem ofSymbol?_symbol (word : Word) : ofSymbol? word.symbol = some word := by
  cases word <;> decide

end Word

end GasWatch
