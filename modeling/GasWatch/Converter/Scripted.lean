import GasWatch.Converter
import GasWatch.Rounding

/-!
# Scripted converter

Plays back a list of readings and failures, and counts the conversions asked of it, also those
beyond the end of the list.
-/

namespace GasWatch

/-- The entries still to be played, `none` for a failure, and the number of conversions so far. -/
structure ScriptedConverter where
  remaining : List (Option UInt32)
  reads : Nat := 0
  deriving DecidableEq

namespace ScriptedConverter

/-- The readings `start`, `start + step`, and so on, held at the greatest word. -/
def rampReadings (start step : UInt32) : Nat → List UInt32
  | 0 => []
  | length + 1 => start :: rampReadings (saturatingAdd start step) step length

/-- A script of readings that climb by `step`. -/
def ramp (start step : UInt32) (length : Nat) : ScriptedConverter :=
  { remaining := (rampReadings start step length).map some }

/-- Plays the next entry. -/
def next (s : ScriptedConverter) : Conversion × ScriptedConverter :=
  match s.remaining with
  | [] => (.failed .exhausted, { s with reads := s.reads + 1 })
  | none :: rest => (.failed .scripted, { remaining := rest, reads := s.reads + 1 })
  | some raw :: rest => (.reading raw, { remaining := rest, reads := s.reads + 1 })

instance : Converter ScriptedConverter := ⟨next⟩

/-- Every conversion is counted, whatever it yields. -/
@[simp] theorem reads_next (s : ScriptedConverter) : s.next.2.reads = s.reads + 1 := by
  unfold next; split <;> rfl

/-- A ramp has the length asked for. -/
@[simp] theorem length_rampReadings (start step : UInt32) (length : Nat) :
    (rampReadings start step length).length = length := by
  induction length generalizing start with
  | zero => rfl
  | succ length ih => simp [rampReadings, ih]

/-- Asks for a number of conversions in turn, each with the count after it. -/
def play : Nat → ScriptedConverter → List (Conversion × Nat)
  | 0, _ => []
  | count + 1, s => (s.next.1, s.next.2.reads) :: play count s.next.2

end ScriptedConverter

end GasWatch
