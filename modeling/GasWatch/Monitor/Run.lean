import GasWatch.Monitor

/-!
# Runs of the monitor

A run samples until an alarm is confirmed or the host raises the stop flag.  The flag is looked at
before each sample, the confirming sample is followed by no delay, and every other sample by one,
in which the host may write to the shared words.

`Run.advance` is one turn of the loop and `Run.after` a number of turns.  A run need not end of its
own accord, but it does when the host keeps raising the flag from some delay on
(`exit_isSome_of_stopping`), and `Monitor.run` is the report of such a run.
-/

namespace GasWatch

/-! ## What the host does meanwhile -/

/-- The writes that the host makes during each delay; delays are counted from one. -/
abbrev Schedule := Nat → List Block.Write

namespace Schedule

/-- A host that writes nothing. -/
def quiet : Schedule := fun _ => []

/-- The writes listed for a delay, in the order of the list. -/
def ofEntries (entries : List (Nat × List Block.Write)) : Schedule :=
  fun delay => entries.flatMap fun entry => if entry.1 = delay then entry.2 else []

/-- The same host, which also raises the stop flag at the end of every delay from the
`last`-th on. -/
def stoppingFrom (host : Schedule) (last : Nat) : Schedule :=
  fun delay => host delay ++ if last ≤ delay then [⟨.stopFlag, 1⟩] else []

/-- From the last delay on the host leaves the flag raised. -/
theorem stopRequested_apply_stoppingFrom (host : Schedule) {last delay : Nat}
    (hlast : last ≤ delay) (b : Block) :
    (b.apply (host.stoppingFrom last delay)).stopRequested := by
  simp [stoppingFrom, hlast, Block.store, Block.stopRequested]

end Schedule

/-! ## Turns of the loop -/

/-- How a run ends. -/
inductive Exit where
  /-- The host was woken after a confirmed alarm. -/
  | wakeSignalled
  /-- The stop flag was raised. -/
  | stopped
  deriving DecidableEq

/-- The exit as it is reported. -/
def Exit.text : Exit → String
  | wakeSignalled => "WakeSignalled"
  | stopped => "Stopped"

/-- A run so far: the monitor, the block, the delays made, the records in order, and how it ended,
if it has. -/
structure Run (σ : Type) where
  monitor : Monitor σ
  block : Block
  delays : Nat := 0
  log : Array Record := #[]
  exit : Option Exit := none

namespace Run

variable {σ : Type} [Converter σ]

/-- One turn of the loop of a run that has not ended. -/
def advance (host : Schedule) (r : Run σ) : Run σ :=
  if r.block.stopRequested then { r with log := r.log.push .halted, exit := some .stopped }
  else
    let sampled := r.monitor.sample r.block
    let monitor := sampled.1
    let seen := sampled.2
    match seen.verdict with
    | .confirmed reading count =>
      { r with
        monitor := monitor.wakeHost
        block := seen.block
        log := (r.log.push seen.record).push (.confirmed reading seen.block.threshold count)
        exit := some .wakeSignalled }
    | _ =>
      { r with
        monitor := monitor.pause monitor.intervalMs
        block := seen.block.apply (host (r.delays + 1))
        delays := r.delays + 1
        log := r.log.push seen.record }

/-- The run after a number of turns, or as it ended before that. -/
def after (host : Schedule) : Nat → Run σ → Run σ
  | 0, r => r
  | turns + 1, r => if r.exit.isSome then r else after host turns (r.advance host)

/-! ## Ends -/

/-- A run that has ended stays as it is. -/
theorem after_of_exit (host : Schedule) (turns : Nat) {r : Run σ} (hexit : r.exit.isSome) :
    r.after host turns = r := by
  cases turns <;> simp [after, hexit]

/-- A raised stop flag ends the run at the next turn. -/
theorem exit_isSome_of_stopRequested (host : Schedule) {turns : Nat} (hturns : 1 ≤ turns)
    {r : Run σ} (hstop : r.block.stopRequested) : (r.after host turns).exit.isSome := by
  obtain ⟨turns, rfl⟩ : ∃ n, turns = n + 1 := ⟨turns - 1, by omega⟩
  simp only [after]
  split
  · assumption
  · have h : (r.advance host).exit.isSome := by simp [advance, hstop]
    rw [after_of_exit host turns h]
    exact h

/-- A turn ends the run or makes one delay, after which the host has written. -/
theorem advance_cases (host : Schedule) (r : Run σ) :
    (r.advance host).exit.isSome ∨
      (r.advance host).delays = r.delays + 1 ∧
        ∃ b : Block, (r.advance host).block = b.apply (host (r.delays + 1)) := by
  simp only [advance]
  split
  · exact Or.inl rfl
  · split
    · exact Or.inl rfl
    · exact Or.inr ⟨rfl, _, rfl⟩

/-- A host that keeps the stop flag raised from the `last`-th delay on ends the run within that
many delays, and within one when `last` is zero. -/
theorem exit_isSome_of_stopping (host : Schedule) (last : Nat) {turns : Nat} {r : Run σ}
    (hturns : max 1 (last - r.delays) + 1 ≤ turns) :
    (r.after (host.stoppingFrom last) turns).exit.isSome := by
  induction turns generalizing r with
  | zero => omega
  | succ turns ih =>
    simp only [after]
    split
    · assumption
    · rcases advance_cases (host.stoppingFrom last) r with hexit | ⟨hdelays, b, hblock⟩
      · rw [after_of_exit _ turns hexit]
        exact hexit
      · by_cases hlast : last ≤ r.delays + 1
        · apply exit_isSome_of_stopRequested _ (by omega)
          rw [hblock]
          exact host.stopRequested_apply_stoppingFrom hlast b
        · apply ih
          omega

end Run

/-! ## Reports -/

/-- A run that has ended. -/
structure Report (σ : Type) where
  exit : Exit
  monitor : Monitor σ
  block : Block
  delays : Nat
  log : List Record

/-- The report of a run that has ended. -/
def Run.report {σ : Type} (r : Run σ) (hexit : r.exit.isSome) : Report σ :=
  { exit := r.exit.get hexit
    monitor := r.monitor
    block := r.block
    delays := r.delays
    log := r.log.toList }

/-- Runs the monitor while the host follows its schedule and raises the stop flag at every delay
from the `last`-th on. -/
def Monitor.run {σ : Type} [Converter σ] (m : Monitor σ) (b : Block) (host : Schedule)
    (last : Nat) : Report σ :=
  let start : Run σ := { monitor := m, block := b }
  (start.after (host.stoppingFrom last) (max 1 last + 1)).report
    (Run.exit_isSome_of_stopping host last (Nat.le_refl _))

end GasWatch
