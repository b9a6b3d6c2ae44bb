import GasWatch.Power.Manager

/-!
# Arming is all or nothing

Arming checks a configuration before it writes anything, and loading checks the configuration at
hand before it calls the platform and again, inside of arming, after that.  `arm_cases` and
`load_cases` say everything that either can come to, and `start_cases` does so for a start.  The
second check of a load looks at the configuration that passed the first one, so an image that the
platform has loaded is always armed.

`ArmSpec` and `LoadSpec` list what a caller can rely on, for a failure and for a success, and
`arm_load_all_or_nothing` gives both.  What either does to the words is `ArmedWith`.  For loads the
result needs a platform that leaves the words alone when it fails (`Control.FailsCleanly`).
-/

namespace GasWatch

/-- A load that fails leaves the shared words as they were. -/
def Control.FailsCleanly {κ : Type} [Control κ] (control : κ) : Prop :=
  ∀ b text next left, Control.load control b = (.error text, next, left) → left = b

namespace Manager

variable {κ : Type}

/-! ## What arming comes to -/

/-- Arming refuses the configuration and does nothing, or takes it over. -/
theorem arm_cases (m : Manager κ) (b : Block) (c : Config) :
    (∃ reason, c.validate = .error reason ∧
        m.arm b c = { manager := m, block := b, result := .error (.rejected reason) }) ∨
      c.validate = .ok () ∧
        m.arm b c =
          { manager := { m with config := c }
            block := armedBlock c b
            log := [.armed c.thresholdPpm c.threshold c.confirmCount c.sampleIntervalMs] } := by
  cases hvalidate : c.validate with
  | error reason => exact Or.inl ⟨reason, rfl, arm_of_error m b hvalidate⟩
  | ok _ => exact Or.inr ⟨rfl, arm_of_valid m b (Config.validate_eq_ok_iff.mp hvalidate)⟩

/-- Arming succeeds for the valid configurations. -/
theorem arm_ok_iff_valid {m : Manager κ} {b : Block} {c : Config} :
    (m.arm b c).result = .ok () ↔ c.Valid := by
  rw [← Config.validate_eq_ok_iff]
  rcases arm_cases m b c with ⟨reason, hvalidate, h⟩ | ⟨hvalidate, h⟩
  · rw [h, hvalidate]
    constructor <;> intro hresult <;> cases hresult
  · rw [h]
    exact iff_of_true rfl hvalidate

/-- A configuration that was armed with success is in the words. -/
theorem block_arm_of_ok {m : Manager κ} {b : Block} {c : Config}
    (hresult : (m.arm b c).result = .ok ()) : (m.arm b c).block = armedBlock c b := by
  rcases arm_cases m b c with ⟨reason, -, h⟩ | ⟨-, h⟩
  · rw [h] at hresult
    cases hresult
  · rw [h]

/-! ## What loading comes to -/

variable [Control κ]

/-- Loading refuses the configuration before it calls the platform, or the platform fails, or the
image is loaded and armed. -/
theorem load_cases (m : Manager κ) (b : Block) :
    (∃ reason, m.config.validate = .error reason ∧
        m.load b = { manager := m, block := b, result := .error (.rejected reason) }) ∨
      (m.config.validate = .ok () ∧ ∃ text control left,
        Control.load m.control b = (.error text, control, left) ∧
          m.load b =
            { manager := { m with control }
              block := left
              result := .error (.platform text)
              calls := [.load] }) ∨
      m.config.validate = .ok () ∧ ∃ control left,
        Control.load m.control b = (.ok (), control, left) ∧
          m.load b =
            { manager := { m with control }
              block := armedBlock m.config left
              calls := [.load]
              log := [.armed m.config.thresholdPpm m.config.threshold m.config.confirmCount
                m.config.sampleIntervalMs] } := by
  cases hvalidate : m.config.validate with
  | error reason =>
    refine Or.inl ⟨reason, rfl, ?_⟩
    simp only [load, hvalidate]
  | ok _ =>
    have hvalid := Config.validate_eq_ok_iff.mp hvalidate
    rcases hload : Control.load m.control b with ⟨loaded, control, left⟩
    cases loaded with
    | error text =>
      refine Or.inr (Or.inl ⟨rfl, text, control, left, rfl, ?_⟩)
      simp only [load, hvalidate, hload]
    | ok _ =>
      refine Or.inr (Or.inr ⟨rfl, control, left, rfl, ?_⟩)
      -- The configuration armed here is the one that was found valid above.
      simp only [load, hvalidate, hload, arm_of_valid _ left hvalid]

/-- After a load with success the words are what the platform left, armed. -/
theorem block_load_of_ok {m : Manager κ} {b : Block} (hresult : (m.load b).result = .ok ()) :
    (m.load b).block = armedBlock m.config (Control.load m.control b).2.2 := by
  rcases load_cases m b with ⟨reason, -, h⟩ | ⟨-, text, control, left, -, h⟩ |
    ⟨-, control, left, hload, h⟩
  · rw [h] at hresult
    cases hresult
  · rw [h] at hresult
    cases hresult
  · rw [h, hload]

/-! ## What starting comes to -/

/-- Starting fails at the first request, or at the second, or at none of the two. -/
theorem start_cases (m : Manager κ) (b : Block) :
    (∃ text control, Control.start m.control = (.error text, control) ∧
        m.start b =
          { manager := { m with control }
            block := b
            result := .error (.platform text)
            calls := [.start] }) ∨
      ∃ started, Control.start m.control = (.ok (), started) ∧
        ((∃ text control, Control.enableWakeup started = (.error text, control) ∧
            m.start b =
              { manager := { m with control }
                block := b
                result := .error (.platform text)
                calls := [.start, .enableWakeup] }) ∨
          ∃ control, Control.enableWakeup started = (.ok (), control) ∧
            m.start b =
              { manager := { m with control }
                block := b
                calls := [.start, .enableWakeup]
                log := [.running] }) := by
  rcases hstart : Control.start m.control with ⟨_ | _, control⟩
  · refine Or.inl ⟨_, control, rfl, ?_⟩
    simp only [start, hstart]
  · rcases hwakeup : Control.enableWakeup control with ⟨_ | _, next⟩
    · refine Or.inr ⟨control, rfl, Or.inl ⟨_, next, hwakeup, ?_⟩⟩
      simp only [start, hstart, hwakeup]
    · refine Or.inr ⟨control, rfl, Or.inr ⟨next, hwakeup, ?_⟩⟩
      simp only [start, hstart, hwakeup]

/-- Starting the coprocessor does not touch the words. -/
theorem block_start (m : Manager κ) (b : Block) : (m.start b).block = b := by
  rcases start_cases m b with ⟨_, _, -, h⟩ | ⟨_, -, ⟨_, _, -, h⟩ | ⟨_, -, h⟩⟩ <;> rw [h]

theorem config_start (m : Manager κ) (b : Block) : (m.start b).manager.config = m.config := by
  rcases start_cases m b with ⟨_, _, -, h⟩ | ⟨_, -, ⟨_, _, -, h⟩ | ⟨_, -, h⟩⟩ <;> rw [h]

/-! ## What callers can rely on -/

/-- The words after an arming hold the limits of the configuration, no readings counted and no
request to halt.  The last reading and the cycle count are those from before. -/
structure ArmedWith (c : Config) (before after : Block) : Prop where
  threshold : after.threshold = c.threshold
  confirmCount : after.confirmCount = c.confirmCount
  aboveCount : after.aboveCount = 0
  stopFlag : after.stopFlag = 0
  lastReading : after.lastReading = before.lastReading
  cycleCount : after.cycleCount = before.cycleCount

/-- Arming fails for the reason that speaks against the configuration and for no other, and then
nothing has happened.  Otherwise the configuration is taken over, the words are armed with it, and
the log says so.  The platform is left alone in any case. -/
structure ArmSpec (m : Manager κ) (b : Block) (c : Config) : Prop where
  fails_iff : ∀ failure, (m.arm b c).result = .error failure ↔
    ∃ reason, c.validate = .error reason ∧ failure = .rejected reason
  unchanged : ∀ failure, (m.arm b c).result = .error failure →
    (m.arm b c).block = b ∧ (m.arm b c).manager = m ∧ (m.arm b c).calls = [] ∧
      (m.arm b c).log = []
  succeeds_iff : (m.arm b c).result = .ok () ↔ c.validate = .ok ()
  armed : (m.arm b c).result = .ok () →
    ArmedWith c b (m.arm b c).block ∧ (m.arm b c).manager = { m with config := c } ∧
      (m.arm b c).calls = [] ∧
      (m.arm b c).log = [.armed c.thresholdPpm c.threshold c.confirmCount c.sampleIntervalMs]

/-- Loading fails for the reason that speaks against the configuration at hand, before the platform
is called, or with the failure of the platform, and then the words stay and nothing is logged.
Otherwise the image is loaded and armed.  The platform is asked to load exactly if the configuration
passes its check, and nothing else is asked of it.  The configuration stays in any case. -/
structure LoadSpec (m : Manager κ) (b : Block) : Prop where
  fails_iff : ∀ failure, (m.load b).result = .error failure ↔
    (∃ reason, m.config.validate = .error reason ∧ failure = .rejected reason) ∨
      m.config.validate = .ok () ∧
        ∃ text, (Control.load m.control b).1 = .error text ∧ failure = .platform text
  calls_of_rejected : ∀ reason, m.config.validate = .error reason → (m.load b).calls = []
  control_of_rejected : ∀ reason, m.config.validate = .error reason →
    (m.load b).manager.control = m.control
  asked : m.config.validate = .ok () →
    (m.load b).calls = [.load] ∧ (m.load b).manager.control = (Control.load m.control b).2.1
  config : (m.load b).manager.config = m.config
  unchanged : ∀ failure, (m.load b).result = .error failure →
    (m.load b).block = b ∧ (m.load b).log = []
  succeeds_iff : (m.load b).result = .ok () ↔
    m.config.validate = .ok () ∧ (Control.load m.control b).1 = .ok ()
  armed : (m.load b).result = .ok () →
    ArmedWith m.config (Control.load m.control b).2.2 (m.load b).block ∧
      (m.load b).log = [.armed m.config.thresholdPpm m.config.threshold m.config.confirmCount
        m.config.sampleIntervalMs]

theorem armedWith_armedBlock (c : Config) (b : Block) : ArmedWith c b (armedBlock c b) where
  threshold := rfl
  confirmCount := rfl
  aboveCount := rfl
  stopFlag := rfl
  lastReading := load_armedBlock c b (Or.inl rfl)
  cycleCount := load_armedBlock c b (Or.inr rfl)

omit [Control κ] in
theorem arm_fails_iff (m : Manager κ) (b : Block) (c : Config) (failure : Failure) :
    (m.arm b c).result = .error failure ↔
      ∃ reason, c.validate = .error reason ∧ failure = .rejected reason := by
  rcases arm_cases m b c with ⟨reason, hvalidate, h⟩ | ⟨hvalidate, h⟩
  · simp [h, hvalidate, eq_comm]
  · simp [h, hvalidate]

omit [Control κ] in
theorem armSpec (m : Manager κ) (b : Block) (c : Config) : ArmSpec m b c where
  fails_iff := arm_fails_iff m b c
  unchanged := by
    intro failure hfailure
    rcases arm_cases m b c with ⟨reason, -, h⟩ | ⟨-, h⟩
    · simp [h]
    · simp [h] at hfailure
  succeeds_iff := by rw [arm_ok_iff_valid, Config.validate_eq_ok_iff]
  armed := by
    intro hresult
    rcases arm_cases m b c with ⟨reason, -, h⟩ | ⟨-, h⟩
    · simp [h] at hresult
    · rw [h]
      exact ⟨armedWith_armedBlock c b, rfl, rfl, rfl⟩

/-- The second check of a load sees the configuration that passed the first one. -/
theorem load_succeeds_iff (m : Manager κ) (b : Block) :
    (m.load b).result = .ok () ↔
      m.config.validate = .ok () ∧ (Control.load m.control b).1 = .ok () := by
  rcases load_cases m b with ⟨reason, hvalidate, h⟩ | ⟨hvalidate, text, control, left, hload, h⟩ |
    ⟨hvalidate, control, left, hload, h⟩
  · simp [h, hvalidate]
  · simp [h, hload]
  · simp [h, hvalidate, hload]

theorem load_fails_iff (m : Manager κ) (b : Block) (failure : Failure) :
    (m.load b).result = .error failure ↔
      (∃ reason, m.config.validate = .error reason ∧ failure = .rejected reason) ∨
        m.config.validate = .ok () ∧
          ∃ text, (Control.load m.control b).1 = .error text ∧ failure = .platform text := by
  rcases load_cases m b with ⟨reason, hvalidate, h⟩ | ⟨hvalidate, text, control, left, hload, h⟩ |
    ⟨hvalidate, control, left, hload, h⟩
  · simp [h, hvalidate, eq_comm]
  · simp [h, hvalidate, hload, eq_comm]
  · simp [h, hvalidate, hload]

/-- A configuration that passes its check has the platform asked once. -/
theorem load_asks {m : Manager κ} (hvalidate : m.config.validate = .ok ()) (b : Block) :
    (m.load b).calls = [.load] ∧ (m.load b).manager.control = (Control.load m.control b).2.1 := by
  rcases load_cases m b with ⟨reason, hreason, -⟩ | ⟨-, text, control, left, hload, h⟩ |
    ⟨-, control, left, hload, h⟩
  · rw [hvalidate] at hreason
    cases hreason
  · simp [h, hload]
  · simp [h, hload]

theorem loadSpec {m : Manager κ} (hclean : Control.FailsCleanly m.control) (b : Block) :
    LoadSpec m b where
  fails_iff := load_fails_iff m b
  calls_of_rejected := by
    intro reason hreason
    simp only [load, hreason]
  control_of_rejected := by
    intro reason hreason
    simp only [load, hreason]
  asked := fun hvalidate => load_asks hvalidate b
  config := by
    rcases load_cases m b with ⟨_, -, h⟩ | ⟨-, _, _, _, -, h⟩ | ⟨-, _, _, -, h⟩ <;> rw [h]
  unchanged := by
    intro failure hfailure
    rcases load_cases m b with ⟨_, -, h⟩ | ⟨-, text, control, left, hload, h⟩ | ⟨-, _, _, -, h⟩
    · simp [h]
    · simp [h, hclean b text control left hload]
    · simp [h] at hfailure
  succeeds_iff := load_succeeds_iff m b
  armed := by
    intro hresult
    rcases load_cases m b with ⟨_, -, h⟩ | ⟨-, _, _, _, -, h⟩ | ⟨-, control, left, hload, h⟩
    · simp [h] at hresult
    · simp [h] at hresult
    · rw [h, hload]
      exact ⟨armedWith_armedBlock m.config left, rfl⟩

/-- Arming does all or nothing, and so does loading on a platform that fails cleanly. -/
theorem arm_load_all_or_nothing (m : Manager κ) (hclean : Control.FailsCleanly m.control)
    (b : Block) : (∀ c, ArmSpec m b c) ∧ LoadSpec m b :=
  ⟨armSpec m b, loadSpec hclean b⟩

/-- A platform that resets the words on a load fails to load, and the words stay. -/
theorem load_without_image :
    let control : ScriptedControl := { resetsOnLoad := true, loadFailure := some "no image" }
    let m : Manager ScriptedControl := { control, config := .standard }
    let b : Block := { Block.withLimits 900 5 with aboveCount := 2, stopFlag := 7 }
    Control.FailsCleanly control ∧ (m.load b).result = .error (.platform "no image") ∧
      (m.load b).block = b := by
  intro control m b
  have hclean : Control.FailsCleanly control := by
    intro b text next left hload
    cases hload
    rfl
  have h := (arm_load_all_or_nothing m hclean b).2
  have hvalid : m.config.validate = .ok () := Config.validate_eq_ok_iff.mpr Config.valid_standard
  have hresult := (h.fails_iff (.platform "no image")).mpr (Or.inr ⟨hvalid, "no image", rfl, rfl⟩)
  exact ⟨hclean, hresult, (h.unchanged _ hresult).1⟩

end Manager

end GasWatch
