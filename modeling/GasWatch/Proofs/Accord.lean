import GasWatch.Proofs.Agreement
import GasWatch.Proofs.Arming
import GasWatch.Proofs.Interleaving
import GasWatch.Proofs.Turns

/-!
# Configuration and words in accord

The limits exist twice, in the configuration that the power manager holds and in the words that the
monitor reads.  `Manager.Accord` says that both tell the same and that the configuration can be
used.  It does not hold of a fresh session, whose words and configuration may be anything, but the
first arming or loading with success brings it about (`accord_of_arm`, `accord_of_load`).

From then on nothing breaks it.  Operations of the power manager keep it whether they succeed or
not (`Accord.perform`): the only ones that change a limit in the words are those that arm, also when
the platform has reset the words before.  Samples do not write the limits, and a host that does no
more than stop a run does not either (`Accord.after`).  `accord_from_arming` puts this together for
sessions.
-/

namespace GasWatch

namespace Manager

variable {κ : Type}

/-- The configuration at hand passes its check and is the one in the words, and the stop flag is
plainly raised or cleared. -/
structure Accord (m : Manager κ) (b : Block) : Prop where
  accepted : m.config.validate = .ok ()
  threshold : b.threshold = m.config.threshold
  inRange : b.threshold ≤ Board.fullScale
  confirmCount : b.confirmCount = m.config.confirmCount
  confirms : 1 ≤ b.confirmCount
  stopFlag : b.stopFlag = 0 ∨ b.stopFlag = 1

/-! ## How accord comes about -/

theorem accord_armedBlock {m : Manager κ} (hvalidate : m.config.validate = .ok ()) (b : Block) :
    m.Accord (armedBlock m.config b) := by
  have hvalid := Config.validate_eq_ok_iff.mp hvalidate
  have hconfirms := hvalid.confirms
  refine ⟨hvalidate, rfl, Calibration.rawOf_le_fullScale _ _, rfl, ?_, Or.inl rfl⟩
  show 1 ≤ m.config.confirmCount
  rw [UInt32.le_iff_toNat_le]
  rw [Ne, ← UInt32.toNat_inj] at hconfirms
  show 1 ≤ m.config.confirmCount.toNat
  exact Nat.one_le_iff_ne_zero.mpr hconfirms

theorem accord_of_arm {m : Manager κ} {b : Block} {c : Config}
    (hresult : (m.arm b c).result = .ok ()) : (m.arm b c).manager.Accord (m.arm b c).block := by
  rcases arm_cases m b c with ⟨reason, -, h⟩ | ⟨hvalidate, h⟩
  · rw [h] at hresult
    cases hresult
  · rw [h]
    exact accord_armedBlock (m := { m with config := c }) hvalidate b

theorem accord_of_load [Control κ] {m : Manager κ} {b : Block}
    (hresult : (m.load b).result = .ok ()) : (m.load b).manager.Accord (m.load b).block := by
  rcases load_cases m b with ⟨reason, -, h⟩ | ⟨-, text, control, left, -, h⟩ |
    ⟨hvalidate, control, left, -, h⟩
  · rw [h] at hresult
    cases hresult
  · rw [h] at hresult
    cases hresult
  · rw [h]
    exact accord_armedBlock (m := { m with control }) hvalidate left

/-! ## What keeps it -/

namespace Accord

variable {m : Manager κ} {b : Block}

/-- Accord is about the configuration and the host-writable words alone. -/
theorem congr (h : m.Accord b) {m' : Manager κ} {b' : Block} (hconfig : m'.config = m.config)
    (hwords : b'.Agree Word.hostWritable b) : m'.Accord b' := by
  obtain ⟨hthreshold, hconfirmCount, hstopFlag⟩ := Block.agree_hostWritable_iff.mp hwords
  constructor
  · rw [hconfig, h.accepted]
  · rw [hthreshold, hconfig, h.threshold]
  · rw [hthreshold]
    exact h.inRange
  · rw [hconfirmCount, hconfig, h.confirmCount]
  · rw [hconfirmCount]
    exact h.confirms
  · rw [hstopFlag]
    exact h.stopFlag

theorem setStop (h : m.Accord b) (stop : Bool) : m.Accord (b.setStop stop) := by
  refine { h with stopFlag := ?_ }
  cases stop with
  | true => exact Or.inr rfl
  | false => exact Or.inl rfl

theorem start [Control κ] (h : m.Accord b) : (m.start b).manager.Accord (m.start b).block := by
  rw [block_start]
  exact h.congr (config_start m b) (Block.Agree.refl _ _)

/-- Whatever the power manager does, and whether it succeeds or not, accord stays. -/
theorem perform [Control κ] (h : m.Accord b) (hclean : Control.FailsCleanly m.control)
    (operation : Operation) :
    (m.perform b operation).manager.Accord (m.perform b operation).block := by
  cases operation with
  | arm c =>
    cases hresult : (m.arm b c).result with
    | ok _ => exact accord_of_arm hresult
    | error failure =>
      obtain ⟨hblock, hmanager, -⟩ := (armSpec m b c).unchanged failure hresult
      simp only [Manager.perform, hblock, hmanager]
      exact h
  | load =>
    cases hresult : (m.load b).result with
    | ok _ => exact accord_of_load hresult
    | error failure =>
      have hspec := loadSpec hclean b
      simp only [Manager.perform, hspec.unchanged failure hresult]
      exact h.congr hspec.config (Block.Agree.refl _ _)
  | start => exact h.start
  | resume =>
    -- The words are cleared before the platform is asked, so this holds of a failed start too.
    have hrestarted : m.Accord b.restarted :=
      (h.setStop false).congr rfl (Block.agree_hostWritable_iff.mpr ⟨rfl, rfl, rfl⟩)
    exact hrestarted.start
  | requestStop => exact h.setStop true
  | readState | wakeReason => exact h
  | sleep => exact h.congr rfl (Block.Agree.refl _ _)

theorem observe (h : m.Accord b) (conversion : Conversion) :
    m.Accord (b.observe conversion).block :=
  h.congr rfl (Block.agree_observe b conversion)

/-- A run that the host does no more than stop keeps accord at each of its turns. -/
theorem after {σ : Type} [Converter σ] (h : m.Accord b) (monitor : Monitor σ) {host : Schedule}
    (hhost : host.OnlyStops) (turns : Nat) :
    m.Accord ((monitor.start b).after host turns).block := by
  refine Run.block_after_of_kept (fun _ conversion hb => hb.observe conversion) ?_ h turns
  intro c delay hc
  rcases hhost.apply_eq c delay with heq | ⟨-, heq⟩
  · rw [heq]
    exact hc
  · rw [heq]
    exact hc.setStop true

end Accord

end Manager

/-! ## Sessions -/

theorem ScriptedControl.failsCleanly (control : ScriptedControl) :
    Control.FailsCleanly control := by
  intro b text next left hload
  cases hfailure : control.loadFailure with
  | none => simp [Control.load, hfailure] at hload
  | some reason =>
    simp only [Control.load, hfailure, Prod.mk.injEq] at hload
    exact hload.2.2.symm

namespace Session

/-- The host writes no word on its own during the operation, other than the stop flag as a yes or
no.  What the power manager and the monitor write is not meant. -/
def Operation.leavesLimits : Operation → Bool
  | store _ => false
  | run host _ => host.isEmpty
  | newMonitor .. | step | load _ | stopRequested | setStop _ | wakeHost | pause _ | setControl _
  | power _ | config | lastPpm => true

/-- The operation arms a configuration or loads an image, and succeeds. -/
def Arms (s : Session) (operation : Operation) : Prop :=
  ((∃ c, operation = .power (.arm c)) ∨ operation = .power .load) ∧
    (s.perform operation).answer = .result (.ok ())

/-- The manager and the block of the session are in accord. -/
def Accord (s : Session) : Prop := s.manager.Accord s.block

variable {s : Session}

theorem Arms.accord {operation : Operation} (h : s.Arms operation) :
    (s.perform operation).session.Accord := by
  obtain ⟨⟨c, rfl⟩ | rfl, hanswer⟩ := h
  · exact Manager.accord_of_arm (Answer.result.inj hanswer)
  · exact Manager.accord_of_load (Answer.result.inj hanswer)

theorem Accord.withMonitor (h : s.Accord) (monitor : Monitor ScriptedConverter) :
    Accord { s with monitor } := h

theorem Accord.perform (h : s.Accord) {operation : Operation} (hleaves : operation.leavesLimits) :
    (s.perform operation).session.Accord := by
  cases operation with
  | power operation => exact Manager.Accord.perform h (ScriptedControl.failsCleanly _) operation
  | step => exact Manager.Accord.observe h _
  | run host last =>
    have hnil : host = [] := List.isEmpty_iff.mp hleaves
    subst hnil
    exact Manager.Accord.after h s.monitor (Schedule.onlyStops_stoppingFrom last) _
  | setStop stop => exact Manager.Accord.setStop h stop
  | store write => exact absurd hleaves Bool.false_ne_true
  -- Not `exact h`: that would have the clocks of the two monitors compared.
  | newMonitor | wakeHost | pause => exact h.withMonitor _
  | setControl change => exact Manager.Accord.congr h rfl (Block.Agree.refl _ _)
  | load | stopRequested | config | lastPpm => exact h

theorem Accord.afterAll (h : s.Accord) {operations : List Operation}
    (hleaves : ∀ operation ∈ operations, operation.leavesLimits) :
    (s.afterAll operations).Accord := by
  induction operations generalizing s with
  | nil => exact h
  | cons operation operations ih =>
    obtain ⟨hfirst, hrest⟩ := List.forall_mem_cons.mp hleaves
    exact ih (h.perform hfirst) hrest

theorem afterAll_append (s : Session) (first second : List Operation) :
    s.afterAll (first ++ second) = (s.afterAll first).afterAll second :=
  List.foldl_append

/-- Once a session has armed or loaded with success, configuration and words are in accord after
every further list of operations in which the host leaves the limits alone, and at every turn of a
run begun there that the host does no more than stop. -/
theorem accord_from_arming (s : Session) (before : List Operation) (operation : Operation)
    (harms : (s.afterAll before).Arms operation) (later : List Operation)
    (hlater : ∀ operation ∈ later, operation.leavesLimits) :
    let now := s.afterAll (before ++ operation :: later)
    now.Accord ∧
      ∀ host : Schedule, host.OnlyStops → ∀ turns,
        now.manager.Accord ((now.monitor.start now.block).after host turns).block := by
  intro now
  have hnow : now.Accord := by
    show (s.afterAll (before ++ operation :: later)).Accord
    rw [afterAll_append]
    exact harms.accord.afterAll hlater
  exact ⟨hnow, fun host hhost turns => Manager.Accord.after hnow now.monitor hhost turns⟩

/-- A session with a configuration that is refused and words of no meaning is in accord after its
first arming, and stays so when a load resets the words, an arming and a resumption fail and a run
is stopped. -/
theorem accord_after_reset_and_failures :
    let refused : Config := { Config.standard with confirmCount := 0 }
    let s : Session :=
      { manager := { control := { resetsOnLoad := true }, config := refused }
        block := { Block.withLimits 5000 0 with aboveCount := 9, stopFlag := 7 }
        monitor := { converter := { remaining := [some 1200, none] }, intervalMs := 200 } }
    let before : List Operation := [.power .load, .step]
    let arming : Operation := .power (.arm .standard)
    let later : List Operation :=
      [.power .load, .step, .power (.arm refused),
        .setControl { startFailure := some (some "busy") }, .power .resume, .run [] 2]
    (s.afterAll before).Arms arming ∧ (∀ operation ∈ later, operation.leavesLimits) ∧
      (s.afterAll (before ++ arming :: later)).Accord := by
  intro refused s before arming later
  have harms : (s.afterAll before).Arms arming := by
    refine ⟨Or.inl ⟨_, rfl⟩, ?_⟩
    have harm := Manager.arm_of_valid (s.afterAll before).manager (s.afterAll before).block
      Config.valid_standard
    exact congrArg (fun outcome => Answer.result (Manager.Outcome.result outcome)) harm
  have hlater : ∀ operation ∈ later, operation.leavesLimits := by decide
  exact ⟨harms, hlater, (accord_from_arming s before arming harms later hlater).1⟩

end Session

end GasWatch
