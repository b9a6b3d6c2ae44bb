import GasWatch.Proofs.Arming

/-!
# The order of the requests to the platform

A power manager is in use for a long time, and the platform may fail at any request.
`Manager.trace` lists the requests of a whole history with their answers.  What one operation hands
on to the next is the configuration; what has become of the platform and of the words in between is
left open (`Occasion`).

`Transcript` lists the ways that an operation can go, request by request, and `transcript_perform`
says that there are no others.  From it follows what may stand before and after a request, for one
operation (`inPlace_of_events`) and then, by induction, for a history (`inPlace_of_trace`).  What a
caller can rely on at each operation is in `RequestSpec`.
-/

namespace GasWatch

/-! ## Answers of the platform -/

namespace Control

variable {κ : Type} [Control κ]

/-- What the platform answers to a request, and what becomes of it and of the words.  The question
why the main processor runs and the request to sleep do not fail. -/
def answer (control : κ) (b : Block) : ControlCall → Except String Unit × κ × Block
  | .load => load control b
  | .start => ((start control).1, (start control).2, b)
  | .enableWakeup => ((enableWakeup control).1, (enableWakeup control).2, b)
  | .wakeReason | .deepSleep => (.ok (), control, b)

/-- Requests made one after the other, each with its answer. -/
def answers (control : κ) (b : Block) :
    List ControlCall → List (ControlCall × Except String Unit)
  | [] => []
  | call :: rest =>
    let answered := answer control b call
    (call, answered.1) :: answers answered.2.1 answered.2.2 rest

/-- The platform after requests made one after the other. -/
def after (control : κ) (b : Block) : List ControlCall → κ
  | [] => control
  | call :: rest =>
    let answered := answer control b call
    after answered.2.1 answered.2.2 rest

/-- The text of the first failure among answers. -/
def firstFailure? : List (ControlCall × Except String Unit) → Option String
  | [] => none
  | (_, .error text) :: _ => some text
  | (_, .ok ()) :: rest => firstFailure? rest

end Control

namespace Manager

variable {κ : Type} [Control κ]

/-! ## What an operation asks of the platform -/

/-- Whether the operation starts the coprocessor. -/
def Operation.starts : Operation → Bool
  | start | resume => true
  | arm _ | load | requestStop | readState | wakeReason | sleep => false

/-- Whether the operation does without the platform. -/
def Operation.isSilent : Operation → Bool
  | arm _ | requestStop | readState => true
  | load | start | resume | wakeReason | sleep => false

/-- The requests of an operation with their answers. -/
def answered (m : Manager κ) (b : Block) (operation : Operation) :
    List (ControlCall × Except String Unit) :=
  Control.answers m.control b (m.perform b operation).calls

/-- The ways that an operation can go under the configuration that the manager holds: what it asks of
the platform, with the answers, and what it returns. -/
inductive Transcript (config : Config) :
    Operation → List (ControlCall × Except String Unit) → Except Failure Unit → Prop where
  /-- The platform has no part in the operation. -/
  | silent {operation : Operation} (hsilent : operation.isSilent) (result : Except Failure Unit) :
    Transcript config operation [] result
  /-- The configuration is refused before the platform is asked. -/
  | refused {reason : Config.Rejection} (hvalidate : config.validate = .error reason) :
    Transcript config .load [] (.error (.rejected reason))
  /-- The platform is asked to load an image. -/
  | loaded (hvalidate : config.validate = .ok ()) (outcome : Except String Unit) :
    Transcript config .load [(.load, outcome)] (outcome.mapError .platform)
  /-- The coprocessor does not start. -/
  | notStarted {operation : Operation} (hstarts : operation.starts) (text : String) :
    Transcript config operation [(.start, .error text)] (.error (.platform text))
  /-- The coprocessor starts and is to be a wake source. -/
  | started {operation : Operation} (hstarts : operation.starts) (outcome : Except String Unit) :
    Transcript config operation [(.start, .ok ()), (.enableWakeup, outcome)]
      (outcome.mapError .platform)
  /-- The platform is asked why the main processor runs. -/
  | asked : Transcript config .wakeReason [(.wakeReason, .ok ())] (.ok ())
  /-- The coprocessor is to be a wake source, and the main processor sleeps. -/
  | asleep (outcome : Except String Unit) :
    Transcript config .sleep [(.enableWakeup, outcome), (.deepSleep, .ok ())] (.ok ())

/-- The words have no part in a start, so it does not matter that a resumption clears some of them
first. -/
theorem transcript_of_start {m : Manager κ} {operation : Operation} (hstarts : operation.starts)
    (b left : Block) :
    Transcript m.config operation (Control.answers m.control b (m.start left).calls)
      (m.start left).result := by
  rcases start_cases m left with ⟨text, control, hstart, h⟩ | ⟨started, hstart, hrest⟩
  · rw [h]
    simp only [Control.answers, Control.answer, hstart]
    exact .notStarted hstarts text
  · rcases hrest with ⟨text, control, hwakeup, h⟩ | ⟨control, hwakeup, h⟩
    · rw [h]
      simp only [Control.answers, Control.answer, hstart, hwakeup]
      exact .started hstarts (.error text)
    · rw [h]
      simp only [Control.answers, Control.answer, hstart, hwakeup]
      exact .started hstarts (.ok ())

/-- Every operation goes one of these ways. -/
theorem transcript_perform (m : Manager κ) (b : Block) (operation : Operation) :
    Transcript m.config operation (m.answered b operation) (m.perform b operation).result := by
  cases operation with
  | arm c =>
    have hcalls : (m.arm b c).calls = [] := by
      rcases arm_cases m b c with ⟨_, -, h⟩ | ⟨-, h⟩ <;> rw [h]
    rw [answered, perform, hcalls]
    exact .silent rfl _
  | load =>
    rcases load_cases m b with ⟨reason, hvalidate, h⟩ | ⟨hvalidate, text, _, _, hload, h⟩ |
      ⟨hvalidate, _, _, hload, h⟩
    · rw [answered, perform, h]
      exact .refused hvalidate
    · rw [answered, perform, h]
      simp only [Control.answers, Control.answer, hload]
      exact .loaded hvalidate (.error text)
    · rw [answered, perform, h]
      simp only [Control.answers, Control.answer, hload]
      exact .loaded hvalidate (.ok ())
  | start => exact transcript_of_start rfl b b
  | resume => exact transcript_of_start rfl b b.restarted
  | requestStop | readState => exact .silent rfl _
  | wakeReason => exact .asked
  | sleep => exact .asleep _

/-! ## The order of the requests -/

/-- A request in a history, with its answer: the turn of the operation that made it, and the
configuration that the manager held. -/
structure Event where
  turn : Nat
  config : Config
  call : ControlCall
  outcome : Except String Unit

/-- The requests of one operation as part of a history. -/
def events (m : Manager κ) (b : Block) (turn : Nat) (operation : Operation) : List Event :=
  (m.answered b operation).map fun made =>
    { turn, config := m.config, call := made.1, outcome := made.2 }

namespace Event

variable {before after more : List Event} {e : Event}

/-- The request stands where it may, after the requests `before` and in front of `after`:

* an image is loaded only under a configuration that passes its check;
* a coprocessor that has started is made a wake source next, and after a failed start the operation
  makes no more requests;
* the main processor sleeps right after the coprocessor was to become a wake source. -/
structure InPlace (before : List Event) (e : Event) (after : List Event) : Prop where
  load : e.call = .load → e.config.validate = .ok ()
  started : e.call = .start → e.outcome = .ok () →
    ∃ next, after.head? = some next ∧ next.call = .enableWakeup ∧ next.turn = e.turn
  notStarted : e.call = .start → ∀ text, e.outcome = .error text →
    ∀ later ∈ after, later.turn ≠ e.turn
  asleep : e.call = .deepSleep →
    ∃ last, before.getLast? = some last ∧ last.call = .enableWakeup ∧ last.turn = e.turn

/-- Requests of other operations that come later do not matter. -/
theorem InPlace.append_right (h : InPlace before e after)
    (hmore : ∀ later ∈ more, later.turn ≠ e.turn) : InPlace before e (after ++ more) := by
  refine { h with started := ?_, notStarted := ?_ }
  · intro hcall houtcome
    obtain ⟨next, hhead, hnext⟩ := h.started hcall houtcome
    exact ⟨next, by rw [List.head?_append, hhead]; rfl, hnext⟩
  · intro hcall text houtcome later hlater
    rcases List.mem_append.mp hlater with hlater | hlater
    · exact h.notStarted hcall text houtcome later hlater
    · exact hmore later hlater

/-- Requests that come earlier do not matter. -/
theorem InPlace.append_left (h : InPlace before e after) : InPlace (more ++ before) e after := by
  refine { h with asleep := ?_ }
  intro hcall
  obtain ⟨last, hlast, hwakeup⟩ := h.asleep hcall
  exact ⟨last, by rw [List.getLast?_append, hlast]; rfl, hwakeup⟩

theorem eq_of_singleton_eq {a : Event} (h : [a] = before ++ e :: after) :
    before = [] ∧ e = a ∧ after = [] := by
  cases before with
  | nil =>
    obtain ⟨rfl, rfl⟩ := List.cons.inj h
    exact ⟨rfl, rfl, rfl⟩
  | cons first before => simp at h

theorem cases_of_pair_eq {a b : Event} (h : [a, b] = before ++ e :: after) :
    before = [] ∧ e = a ∧ after = [b] ∨ before = [a] ∧ e = b ∧ after = [] := by
  cases before with
  | nil =>
    obtain ⟨rfl, rfl⟩ := List.cons.inj h
    exact Or.inl ⟨rfl, rfl, rfl⟩
  | cons first before =>
    obtain ⟨rfl, hrest⟩ := List.cons.inj h
    obtain ⟨rfl, rfl, rfl⟩ := eq_of_singleton_eq hrest
    exact Or.inr ⟨rfl, rfl, rfl⟩

end Event

open Event

theorem turn_of_mem_events {m : Manager κ} {b : Block} {turn : Nat} {operation : Operation}
    {e : Event} (he : e ∈ m.events b turn operation) : e.turn = turn := by
  obtain ⟨made, -, rfl⟩ := List.mem_map.mp he
  rfl

/-- The requests of one operation stand where they may. -/
theorem inPlace_of_events {m : Manager κ} {b : Block} {turn : Nat} {operation : Operation}
    {before after : List Event} {e : Event}
    (h : m.events b turn operation = before ++ e :: after) : InPlace before e after := by
  have htranscript := transcript_perform m b operation
  unfold events at h
  generalize m.answered b operation = made at h htranscript
  generalize (m.perform b operation).result = result at htranscript
  cases htranscript with
  | silent | refused => simp at h
  | loaded hvalidate outcome =>
    obtain ⟨rfl, rfl, rfl⟩ := eq_of_singleton_eq h
    exact ⟨fun _ => hvalidate, nofun, nofun, nofun⟩
  | notStarted hstarts text =>
    obtain ⟨rfl, rfl, rfl⟩ := eq_of_singleton_eq h
    exact ⟨nofun, nofun, fun _ _ _ later hlater => absurd hlater List.not_mem_nil, nofun⟩
  | started hstarts outcome =>
    rcases cases_of_pair_eq h with ⟨rfl, rfl, rfl⟩ | ⟨rfl, rfl, rfl⟩
    · exact ⟨nofun, fun _ _ => ⟨_, rfl, rfl, rfl⟩, nofun, nofun⟩
    · exact ⟨nofun, nofun, nofun, nofun⟩
  | asked =>
    obtain ⟨rfl, rfl, rfl⟩ := eq_of_singleton_eq h
    exact ⟨nofun, nofun, nofun, nofun⟩
  | asleep outcome =>
    rcases cases_of_pair_eq h with ⟨rfl, rfl, rfl⟩ | ⟨rfl, rfl, rfl⟩
    · exact ⟨nofun, nofun, nofun, nofun⟩
    · exact ⟨nofun, nofun, nofun, fun _ => ⟨_, rfl, rfl, rfl⟩⟩

/-! ## Histories -/

/-- An operation, and the platform and the words as it finds them. -/
structure Occasion (κ : Type) where
  operation : Operation
  control : κ
  block : Block

/-- The requests of a history that begins with a configuration, its turns counted from `turn` on. -/
def trace (config : Config) (turn : Nat) : List (Occasion κ) → List Event
  | [] => []
  | occasion :: rest =>
    let m : Manager κ := { control := occasion.control, config }
    m.events occasion.block turn occasion.operation ++
      trace (m.perform occasion.block occasion.operation).manager.config (turn + 1) rest

theorem le_turn_of_mem_trace {history : List (Occasion κ)} {config : Config} {turn : Nat}
    {e : Event} (he : e ∈ trace config turn history) : turn ≤ e.turn := by
  induction history generalizing config turn with
  | nil => cases he
  | cons occasion rest ih =>
    rcases List.mem_append.mp he with he | he
    · exact Nat.le_of_eq (turn_of_mem_events he).symm
    · exact Nat.le_of_succ_le (ih he)

/-- Every request of a history stands where it may. -/
theorem inPlace_of_trace {history : List (Occasion κ)} {config : Config} {turn : Nat}
    {before after : List Event} {e : Event}
    (h : trace config turn history = before ++ e :: after) : InPlace before e after := by
  induction history generalizing config turn before with
  | nil => simp [trace] at h
  | cons occasion rest ih =>
    -- The request is one of the rest of the history, or one of the first operation, and then the
    -- requests of the rest come at later turns.
    rcases List.append_eq_append_iff.mp h with ⟨between, rfl, hrest⟩ | ⟨between, hfirst, hrest⟩
    · exact (ih hrest).append_left
    · cases between with
      | nil =>
        have hplace : InPlace [] e after := ih hrest.symm
        have hplace : InPlace (before ++ []) e after := hplace.append_left
        rwa [List.append_nil] at hplace
      | cons first between =>
        obtain ⟨rfl, rfl⟩ := List.cons.inj hrest
        refine (inPlace_of_events hfirst).append_right fun later hlater => ?_
        have hmem : e ∈ before ++ e :: between := List.mem_append_right before List.mem_cons_self
        rw [← hfirst] at hmem
        have hturn := turn_of_mem_events hmem
        have hlate := le_turn_of_mem_trace hlater
        omega

/-- The coprocessor does not start, and the main processor sleeps without a wake source. -/
example :
    let history : List (Occasion ScriptedControl) :=
      [{ operation := .start, control := { startFailure := some "busy" }, block := .fresh },
        { operation := .sleep, control := { wakeupFailure := some "busy" }, block := .fresh }]
    (trace .standard 0 history).map (fun e => (e.turn, e.call)) =
      [(0, .start), (1, .enableWakeup), (1, .deepSleep)] := rfl

/-! ## What callers can rely on -/

/-- What an operation does with the platform.

* The requests listed are those that the platform has seen, and an operation that makes one keeps
  the configuration.  Arming, a request to halt and reading the state make none.
* A start or a resumption succeeds if both of its requests do, and returns the first failure
  otherwise.
* Going to sleep touches no word and comes to the request to sleep, whatever the answer to the
  request before it is. -/
structure RequestSpec (m : Manager κ) (b : Block) : Prop where
  seen : ∀ operation, (m.perform b operation).manager.control =
    Control.after m.control b (m.perform b operation).calls
  config : ∀ operation, (m.perform b operation).calls ≠ [] →
    (m.perform b operation).manager.config = m.config
  silent : ∀ operation, operation.isSilent → (m.perform b operation).calls = []
  starts_iff : ∀ operation, operation.starts →
    ((m.perform b operation).result = .ok () ↔
      m.answered b operation = [(.start, .ok ()), (.enableWakeup, .ok ())])
  startFails_iff : ∀ operation, operation.starts → ∀ failure,
    ((m.perform b operation).result = .error failure ↔
      ∃ text, Control.firstFailure? (m.answered b operation) = some text ∧
        failure = .platform text)
  sleepWords : (m.perform b .sleep).block = b
  sleepCalls : (m.perform b .sleep).calls = [.enableWakeup, .deepSleep]

theorem control_start (m : Manager κ) (b left : Block) :
    (m.start left).manager.control = Control.after m.control b (m.start left).calls := by
  rcases start_cases m left with ⟨_, _, hstart, h⟩ | ⟨_, hstart, ⟨_, _, hwakeup, h⟩ |
    ⟨_, hwakeup, h⟩⟩
  · rw [h]
    simp only [Control.after, Control.answer, hstart]
  · rw [h]
    simp only [Control.after, Control.answer, hstart, hwakeup]
  · rw [h]
    simp only [Control.after, Control.answer, hstart, hwakeup]

/-- The platform is left as the requests listed leave it. -/
theorem control_perform_eq_after (m : Manager κ) (b : Block) (operation : Operation) :
    (m.perform b operation).manager.control =
      Control.after m.control b (m.perform b operation).calls := by
  cases operation with
  | arm c => rcases arm_cases m b c with ⟨_, -, h⟩ | ⟨-, h⟩ <;> rw [perform, h] <;> rfl
  | load =>
    rcases load_cases m b with ⟨_, -, h⟩ | ⟨-, _, _, _, hload, h⟩ | ⟨-, _, _, hload, h⟩
    · rw [perform, h]
      rfl
    · rw [perform, h]
      simp only [Control.after, Control.answer, hload]
    · rw [perform, h]
      simp only [Control.after, Control.answer, hload]
  | start => exact control_start m b b
  | resume => exact control_start m b b.restarted
  | requestStop | readState | wakeReason | sleep => rfl

theorem calls_of_isSilent {operation : Operation} (hsilent : operation.isSilent) (m : Manager κ)
    (b : Block) : (m.perform b operation).calls = [] := by
  cases operation with
  | arm c => rcases arm_cases m b c with ⟨_, -, h⟩ | ⟨-, h⟩ <;> rw [perform, h]
  | requestStop | readState => rfl
  | load | start | resume | wakeReason | sleep => cases hsilent

/-- Only arming takes over a configuration, and it makes no request. -/
theorem config_perform_of_calls {m : Manager κ} {b : Block} {operation : Operation}
    (hcalls : (m.perform b operation).calls ≠ []) :
    (m.perform b operation).manager.config = m.config := by
  cases operation with
  | arm c => exact absurd (calls_of_isSilent rfl m b) hcalls
  | load =>
    rcases load_cases m b with ⟨_, -, h⟩ | ⟨-, _, _, _, -, h⟩ | ⟨-, _, _, -, h⟩ <;> rw [perform, h]
  | start => exact config_start m b
  | resume => exact config_start m b.restarted
  | requestStop | readState | wakeReason | sleep => rfl

/-- A start returns what its requests come to. -/
theorem result_of_starts {operation : Operation} (hstarts : operation.starts) (m : Manager κ)
    (b : Block) :
    ((m.perform b operation).result = .ok () ∧
        m.answered b operation = [(.start, .ok ()), (.enableWakeup, .ok ())]) ∨
      ∃ text, (m.perform b operation).result = .error (.platform text) ∧
        Control.firstFailure? (m.answered b operation) = some text := by
  have htranscript := transcript_perform m b operation
  generalize m.answered b operation = made at htranscript
  generalize (m.perform b operation).result = result at htranscript
  cases htranscript with
  | silent hsilent =>
    cases operation with
    | arm _ | requestStop | readState => cases hstarts
    | load | start | resume | wakeReason | sleep => cases hsilent
  | refused | loaded | asked | asleep => cases hstarts
  | notStarted _ text => exact Or.inr ⟨text, rfl, rfl⟩
  | started _ outcome =>
    cases outcome with
    | error text => exact Or.inr ⟨text, rfl, rfl⟩
    | ok _ => exact Or.inl ⟨rfl, rfl⟩

theorem requestSpec (m : Manager κ) (b : Block) : RequestSpec m b := by
  refine ⟨control_perform_eq_after m b, fun _ => config_perform_of_calls,
    fun _ hsilent => calls_of_isSilent hsilent m b, ?_, ?_, rfl, rfl⟩
  · intro operation hstarts
    rcases result_of_starts hstarts m b with ⟨hresult, hmade⟩ | ⟨text, hresult, hfirst⟩
    · exact iff_of_true hresult hmade
    · refine iff_of_false (fun hok => ?_) (fun hmade => ?_)
      · rw [hresult] at hok
        cases hok
      · rw [hmade] at hfirst
        cases hfirst
  · intro operation hstarts failure
    rcases result_of_starts hstarts m b with ⟨hresult, hmade⟩ | ⟨text, hresult, hfirst⟩
    · rw [hresult, hmade]
      refine iff_of_false nofun fun ⟨text, hfirst, _⟩ => ?_
      cases hfirst
    · rw [hresult, hfirst]
      constructor
      · intro hfailure
        cases hfailure
        exact ⟨text, rfl, rfl⟩
      · rintro ⟨_, htext, rfl⟩
        cases htext
        rfl

/-- Whatever configuration the manager begins with and whenever the platform fails, each request of a
history stands where it may, and each operation does with the platform what a caller can rely on. -/
theorem requests_in_order (config : Config) (history : List (Occasion κ)) :
    (∀ before e after, trace config 0 history = before ++ e :: after →
        InPlace before e after) ∧
      ∀ (m : Manager κ) (b : Block), RequestSpec m b :=
  ⟨fun _ _ _ h => inPlace_of_trace h, requestSpec⟩

end Manager

end GasWatch
