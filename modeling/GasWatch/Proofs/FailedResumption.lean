import GasWatch.Proofs.Arming

/-!
# Resumptions that fail

A resumption clears the above count and the stop flag and asks the platform to start the coprocessor
afterwards, since a monitor that finds the flag raised halts at once.  So the words are cleared
whether the platform starts the coprocessor or not.  `resume_fails_iff` says when it does not, and
`failed_resumption_clears` what a resumption that fails leaves behind: the two words cleared, and
everything else as it was.  `failed_resumption_loses_stop` is a request to halt that gets lost.
-/

namespace GasWatch

namespace Block

theorem load_restarted (b : Block) (word : Word) :
    b.restarted.load word = if word = .aboveCount ∨ word = .stopFlag then 0 else b.load word := by
  cases word <;> rfl

/-- Clearing the two words is seen unless they are clear already. -/
theorem restarted_eq_self_iff {b : Block} :
    b.restarted = b ↔ b.aboveCount = 0 ∧ b.stopFlag = 0 := by
  constructor
  · intro h
    have haboveCount := congrArg aboveCount h
    have hstopFlag := congrArg stopFlag h
    exact ⟨haboveCount.symm, hstopFlag.symm⟩
  · intro ⟨haboveCount, hstopFlag⟩
    apply ext_load
    intro word
    rw [load_restarted]
    split
    · next hcleared =>
      rcases hcleared with rfl | rfl
      · exact haboveCount.symm
      · exact hstopFlag.symm
    · rfl

end Block

namespace Manager

variable {κ : Type} [Control κ]

/-- A resumption fails with the text of the first of its two requests that fails. -/
theorem resume_fails_iff {m : Manager κ} {b : Block} {failure : Failure} :
    (m.resume b).result = .error failure ↔
      ∃ text, failure = .platform text ∧
        ((Control.start m.control).1 = .error text ∨
          (Control.start m.control).1 = .ok () ∧
            (Control.enableWakeup (Control.start m.control).2).1 = .error text) := by
  unfold resume
  rcases start_cases m b.restarted with ⟨text, control, hstart, h⟩ |
    ⟨started, hstart, ⟨text, control, hwakeup, h⟩ | ⟨control, hwakeup, h⟩⟩
  · rw [h, hstart]
    simp [eq_comm]
  · rw [h, hstart, hwakeup]
    simp [eq_comm]
  · rw [h, hstart, hwakeup]
    simp

theorem block_resume (m : Manager κ) (b : Block) : (m.resume b).block = b.restarted :=
  block_start m b.restarted

/-- A resumption that fails, because the coprocessor does not start or does not become a wake source,
has cleared the above count and the stop flag and no other word, and keeps the configuration.  So all
six words are as they were exactly if these two were clear. -/
theorem failed_resumption_clears (m : Manager κ) (b : Block) (failure : Failure)
    (hfailed : (m.resume b).result = .error failure) :
    (∃ text, failure = .platform text ∧
        ((Control.start m.control).1 = .error text ∨
          (Control.start m.control).1 = .ok () ∧
            (Control.enableWakeup (Control.start m.control).2).1 = .error text)) ∧
      (∀ word, (m.resume b).block.load word =
        if word = .aboveCount ∨ word = .stopFlag then 0 else b.load word) ∧
      ((m.resume b).block = b ↔ b.load .aboveCount = 0 ∧ b.load .stopFlag = 0) ∧
      (m.resume b).manager.config = m.config := by
  rw [block_resume]
  exact ⟨resume_fails_iff.mp hfailed, b.load_restarted, Block.restarted_eq_self_iff,
    config_start m b.restarted⟩

/-- The coprocessor starts but does not become a wake source, and the row of two readings and the
request to halt are gone, while the cycle count stays. -/
theorem failed_resumption_clears_row :
    let control : ScriptedControl := { wakeupFailure := some "no wake source" }
    let m : Manager ScriptedControl := { control, config := .standard }
    let b : Block := { Block.withLimits 900 5 with aboveCount := 2, cycleCount := 41, stopFlag := 7 }
    (m.resume b).result = .error (.platform "no wake source") ∧
      (m.resume b).block.load .aboveCount = 0 ∧ (m.resume b).block.load .stopFlag = 0 ∧
      (m.resume b).block.load .cycleCount = 41 ∧ (m.resume b).block.load .threshold = 900 ∧
      (m.resume b).block ≠ b := by
  intro control m b
  have hfailed : (m.resume b).result = .error (.platform "no wake source") := rfl
  obtain ⟨-, hwords, hsame, -⟩ := failed_resumption_clears m b _ hfailed
  refine ⟨hfailed, hwords .aboveCount, hwords .stopFlag, hwords .cycleCount, hwords .threshold, ?_⟩
  intro heq
  exact absurd (hsame.mp heq).1 (by decide)

/-- The coprocessor does not start, and the words are not what they were before: the monitor is no
longer asked to halt, and the readings counted are gone. -/
theorem failed_resumption_loses_stop :
    let control : ScriptedControl := { startFailure := some "no coprocessor" }
    let m : Manager ScriptedControl := { control, config := .standard }
    let b : Block := { Block.fresh with aboveCount := 2, stopFlag := 1 }
    (m.resume b).result = .error (.platform "no coprocessor") ∧ b.stopRequested = true ∧
      (m.resume b).block ≠ b ∧ (m.resume b).block.stopRequested = false ∧
      (m.resume b).block.aboveCount = 0 := by
  intro control m b
  exact ⟨rfl, rfl, by decide +kernel, rfl, rfl⟩

end Manager

end GasWatch
