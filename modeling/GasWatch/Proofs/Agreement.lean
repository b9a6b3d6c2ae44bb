import GasWatch.Monitor.Run

/-!
# Agreement of blocks

Two blocks agree on a set of words when they hold the same values there.  Two sets matter.  The
host-writable words are the limits and the stop flag: no sample changes them
(`agree_observe`), so at every sample they are what the host made of them
(`Schedule.inForce`).  The words that only the monitor writes are the last reading and the cycle
count: no host write changes them (`load_apply_of_not_hostWritable`).  The above count belongs to
neither set.

Hosts are told apart by what they write: `Schedule.Permitted` ones keep to the host-writable words,
and `Schedule.OnlyStops` ones do no more than raise the stop flag.
-/

namespace GasWatch

/-- Whether only a sample writes the word.  The above count is not among these words, since the
main processor clears it when it arms or resumes. -/
def Word.monitorOnly : Word → Bool
  | lastReading | cycleCount => true
  | threshold | aboveCount | confirmCount | stopFlag => false

theorem Word.monitorOnly_eq_false {word : Word} (hword : word.hostWritable) :
    word.monitorOnly = false := by
  cases word with
  | threshold | confirmCount | stopFlag | aboveCount => rfl
  | lastReading | cycleCount => exact absurd hword Bool.false_ne_true

namespace Block

/-- The blocks hold the same values in the words of a set. -/
def Agree (words : Word → Bool) (a b : Block) : Prop :=
  ∀ word, words word → a.load word = b.load word

/-! ## An equivalence that stores keep -/

namespace Agree

variable {words : Word → Bool} {a b c : Block}

theorem refl (words : Word → Bool) (a : Block) : a.Agree words a := by
  intro word _
  rfl

theorem symm (h : a.Agree words b) : b.Agree words a := by
  intro word hword
  exact (h word hword).symm

theorem trans (hab : a.Agree words b) (hbc : b.Agree words c) : a.Agree words c := by
  intro word hword
  exact (hab word hword).trans (hbc word hword)

/-- The same store on both sides keeps agreement. -/
theorem store (h : a.Agree words b) (word : Word) (value : UInt32) :
    (a.store word value).Agree words (b.store word value) := by
  intro other hother
  rw [load_store, load_store, h other hother]

/-- The same writes on both sides keep agreement. -/
theorem apply (h : a.Agree words b) (writes : List Write) :
    (a.apply writes).Agree words (b.apply writes) := by
  induction writes generalizing a b with
  | nil => exact h
  | cons write writes ih => exact ih (h.store write.word write.value)

end Agree

/-- A store to a word outside the set is not seen in it. -/
theorem agree_store {words : Word → Bool} {word : Word} (hword : words word = false)
    (b : Block) (value : UInt32) : (b.store word value).Agree words b := by
  intro other hother
  have hne : other ≠ word := by
    intro heq
    rw [heq, hword] at hother
    exact Bool.false_ne_true hother
  rw [load_store, if_neg hne]

/-- Agreement on the host-writable words, word by word. -/
theorem agree_hostWritable_iff {a b : Block} :
    a.Agree Word.hostWritable b ↔
      a.threshold = b.threshold ∧ a.confirmCount = b.confirmCount ∧ a.stopFlag = b.stopFlag := by
  constructor
  · intro h
    exact ⟨h .threshold rfl, h .confirmCount rfl, h .stopFlag rfl⟩
  · intro h word hword
    obtain ⟨hthreshold, hconfirmCount, hstopFlag⟩ := h
    cases word with
    | threshold => exact hthreshold
    | confirmCount => exact hconfirmCount
    | stopFlag => exact hstopFlag
    | lastReading | aboveCount | cycleCount => simp [Word.hostWritable] at hword

/-- Agreement on the words of the monitor, word by word. -/
theorem agree_monitorOnly_iff {a b : Block} :
    a.Agree Word.monitorOnly b ↔
      a.lastReading = b.lastReading ∧ a.cycleCount = b.cycleCount := by
  constructor
  · intro h
    exact ⟨h .lastReading rfl, h .cycleCount rfl⟩
  · intro h word hword
    obtain ⟨hlastReading, hcycleCount⟩ := h
    cases word with
    | lastReading => exact hlastReading
    | cycleCount => exact hcycleCount
    | threshold | aboveCount | confirmCount | stopFlag => simp [Word.monitorOnly] at hword

/-- Blocks with the same stop flag answer alike whether the monitor is asked to halt. -/
theorem Agree.stopRequested_eq {a b : Block} (h : a.Agree Word.hostWritable b) :
    a.stopRequested = b.stopRequested := by
  rw [stopRequested, stopRequested, (agree_hostWritable_iff.mp h).2.2]

theorem stopRequested_of_stopFlag {b : Block} (hflag : b.stopFlag = 0) :
    b.stopRequested = false := by
  rw [stopRequested, hflag]
  rfl

/-! ## Who writes what -/

/-- A sample leaves the host-writable words alone. -/
theorem agree_observe (b : Block) (conversion : Conversion) :
    (b.observe conversion).block.Agree Word.hostWritable b := by
  intro word hword
  exact load_observe_of_hostWritable b conversion hword

theorem stopFlag_observe (b : Block) (conversion : Conversion) :
    (b.observe conversion).block.stopFlag = b.stopFlag :=
  agree_observe b conversion .stopFlag rfl

/-- The same conversion leaves the words of the monitor alike, whatever the limits are. -/
theorem Agree.observe {a b : Block} (h : a.Agree Word.monitorOnly b) (conversion : Conversion) :
    (a.observe conversion).block.Agree Word.monitorOnly (b.observe conversion).block := by
  cases conversion with
  | failed fault => exact h
  | reading reading =>
    rw [block_observe_reading, block_observe_reading]
    refine agree_monitorOnly_iff.mpr ⟨rfl, ?_⟩
    simp only [record, (agree_monitorOnly_iff.mp h).2]

/-- Writes to other words are not seen in a word. -/
theorem load_apply_of_forall_ne {writes : List Write} {word : Word}
    (hwrites : ∀ write ∈ writes, write.word ≠ word) (b : Block) :
    (b.apply writes).load word = b.load word := by
  induction writes generalizing b with
  | nil => rfl
  | cons write writes ih =>
    obtain ⟨hfirst, hrest⟩ := List.forall_mem_cons.mp hwrites
    rw [apply_cons, ih hrest, load_store, if_neg hfirst.symm]

/-- Writes to host-writable words are not seen in a word that the host may not write. -/
theorem load_apply_of_not_hostWritable {writes : List Write}
    (hwrites : ∀ write ∈ writes, write.word.hostWritable) {word : Word}
    (hword : word.hostWritable = false) (b : Block) :
    (b.apply writes).load word = b.load word := by
  refine load_apply_of_forall_ne (fun write hmem heq => ?_) b
  have hwrite := hwrites write hmem
  rw [heq, hword] at hwrite
  exact Bool.false_ne_true hwrite

end Block

/-! ## Limits in force -/

namespace Schedule

/-- The host writes nothing but the threshold, the confirm count and the stop flag. -/
def Permitted (host : Schedule) : Prop :=
  ∀ delay, ∀ write ∈ host delay, write.word.hostWritable

theorem permitted_quiet : quiet.Permitted :=
  fun _ _ hmem => absurd hmem List.not_mem_nil

theorem forall_mem_ofEntries {entries : List (Nat × List Block.Write)} {P : Block.Write → Prop}
    (hentries : ∀ entry ∈ entries, ∀ write ∈ entry.2, P write) (delay : Nat) :
    ∀ write ∈ ofEntries entries delay, P write := by
  intro write hwrite
  obtain ⟨entry, hentry, hmem⟩ := List.mem_flatMap.mp hwrite
  by_cases hdelay : entry.1 = delay
  · rw [if_pos hdelay] at hmem
    exact hentries entry hentry write hmem
  · rw [if_neg hdelay] at hmem
    exact absurd hmem List.not_mem_nil

theorem Permitted.stoppingFrom {host : Schedule} (h : host.Permitted) (last : Nat) :
    (host.stoppingFrom last).Permitted := by
  intro delay write hwrite
  rcases List.mem_append.mp hwrite with hmem | hmem
  · exact h delay write hmem
  · by_cases hlast : last ≤ delay
    · rw [if_pos hlast] at hmem
      rw [List.mem_singleton.mp hmem]
      rfl
    · rw [if_neg hlast] at hmem
      exact absurd hmem List.not_mem_nil

/-- The block after a number of delays if nobody but the host wrote to it.  Its threshold, its
confirm count and its stop flag are those in force at the sample that follows these delays. -/
def inForce (host : Schedule) (b : Block) : Nat → Block
  | 0 => b
  | delays + 1 => (host.inForce b delays).apply (host (delays + 1))

/-! ## A host that only stops -/

/-- The host does nothing but raise the stop flag in some of the delays. -/
def OnlyStops (host : Schedule) : Prop :=
  ∀ delay, host delay = [] ∨ host delay = [⟨.stopFlag, 1⟩]

theorem onlyStops_quiet : quiet.OnlyStops := fun _ => Or.inl rfl

theorem onlyStops_stoppingFrom (last : Nat) : (quiet.stoppingFrom last).OnlyStops := by
  intro delay
  by_cases hlast : last ≤ delay
  · exact Or.inr (by simp [stoppingFrom, quiet, hlast])
  · exact Or.inl (by simp [stoppingFrom, quiet, hlast])

/-- What such a host does to a block in a delay. -/
theorem OnlyStops.apply_eq {host : Schedule} (h : host.OnlyStops) (b : Block) (delay : Nat) :
    b.apply (host delay) = b ∨ host delay ≠ [] ∧ b.apply (host delay) = b.setStop true := by
  rcases h delay with hnil | hstop
  · exact Or.inl (by rw [hnil, Block.apply_nil])
  · exact Or.inr ⟨by rw [hstop]; exact List.cons_ne_nil _ _, by rw [hstop]; rfl⟩

theorem OnlyStops.permitted {host : Schedule} (h : host.OnlyStops) : host.Permitted := by
  intro delay write hwrite
  rcases h delay with hnil | hstop
  · rw [hnil] at hwrite
    exact absurd hwrite List.not_mem_nil
  · rw [hstop] at hwrite
    rw [List.mem_singleton.mp hwrite]
    rfl

/-- Such a host leaves the limits as they are at the start. -/
theorem OnlyStops.limits_inForce {host : Schedule} (h : host.OnlyStops) (b : Block)
    (delays : Nat) :
    (host.inForce b delays).threshold = b.threshold ∧
      (host.inForce b delays).confirmCount = b.confirmCount := by
  induction delays with
  | zero => exact ⟨rfl, rfl⟩
  | succ delays ih =>
    rw [inForce]
    rcases h.apply_eq (host.inForce b delays) (delays + 1) with heq | ⟨-, heq⟩
    · rw [heq]
      exact ih
    · rw [heq]
      exact ih

end Schedule

end GasWatch
