import GasWatch.Proofs.Accord
import GasWatch.Proofs.Accounting

/-!
# The cycle count over a session

The cycle count goes on across wakes.  Only a reading raises it, by one and around the end of the
word, and only a load that resets the words puts it back to zero.  What the readings of a session
are is told by its converters: `ScriptedConverter.readingsTo` counts the entries of a script that
were played and are readings, whatever the monitor made of them.

`cycleCount_perform` says what one operation does to the count, and `cycleCount_afterAll` what a
list of them does that resets nothing.  A resetting load is only a new start
(`cycleCount_of_resetsWords`), so `cycleCount_counts_readings` follows for any list.
-/

namespace GasWatch

/-! ## Readings of a script -/

namespace ScriptedConverter

/-- The number of readings among the conversions that lead from one state of a script to a later
one. -/
def readingsTo (s t : ScriptedConverter) : Nat :=
  (s.remaining.take (t.reads - s.reads)).countP Option.isSome

theorem readingsTo_self (s : ScriptedConverter) : s.readingsTo s = 0 := by
  simp [readingsTo]

theorem remaining_next (s : ScriptedConverter) : s.next.2.remaining = s.remaining.tail := by
  cases hremaining : s.remaining with
  | nil => simp [next, hremaining]
  | cons entry rest => cases entry <;> simp [next, hremaining]

theorem remaining_skip (s : ScriptedConverter) (count : Nat) :
    (Converter.skip s count).remaining = s.remaining.drop count := by
  induction count with
  | zero => rfl
  | succ count ih =>
    show (Converter.skip s count).next.2.remaining = s.remaining.drop (count + 1)
    rw [remaining_next, ih, List.tail_drop]

/-- A conversion yields what its entry of the script says, if there is one. -/
theorem outcome_eq (s : ScriptedConverter) (index : Nat) :
    Converter.outcome s index =
      match s.remaining[index]? with
      | some (some raw) => .reading raw
      | some none => .failed .scripted
      | none => .failed .exhausted := by
  show (Converter.skip s index).next.1 = _
  rw [← List.head?_drop, ← remaining_skip]
  cases hremaining : (Converter.skip s index).remaining with
  | nil => simp [next, hremaining]
  | cons entry rest => cases entry <;> simp [next, hremaining]

/-- The readings of a script are those that a run over it sees. -/
theorem readingsTo_skip (m : Monitor ScriptedConverter) (b : Block) (host : Schedule)
    (count : Nat) :
    m.converter.readingsTo (Converter.skip m.converter count) =
      (m.sightings b host count).length := by
  rw [readingsTo, meters_reads.reads_skip, Nat.add_sub_cancel_left]
  refine (Monitor.length_sightings_of_entries (fun index => ?_) count).symm
  rw [Monitor.sighting?, outcome_eq]
  cases m.converter.remaining[index]? with
  | none => rfl
  | some entry => cases entry <;> rfl

end ScriptedConverter

/-! ## What the power manager does to the count -/

namespace Manager

variable {κ : Type} [Control κ]

theorem load_not_mem_calls_start (m : Manager κ) (b : Block) :
    ControlCall.load ∉ (m.start b).calls := by
  rcases start_cases m b with ⟨_, _, -, h⟩ | ⟨_, -, ⟨_, _, -, h⟩ | ⟨_, -, h⟩⟩ <;> simp [h]

/-- The power manager leaves the cycle count to the platform, and the platform may write it when it
is asked to load an image. -/
theorem cycleCount_perform (m : Manager κ) (b : Block) (operation : Operation) :
    (m.perform b operation).block.cycleCount =
      if ControlCall.load ∈ (m.perform b operation).calls
      then (Control.load m.control b).2.2.cycleCount else b.cycleCount := by
  cases operation with
  | arm c => rcases arm_cases m b c with ⟨_, -, h⟩ | ⟨-, h⟩ <;> rw [perform, h] <;> rfl
  | load =>
    rcases load_cases m b with ⟨_, -, h⟩ | ⟨-, _, _, _, hload, h⟩ | ⟨-, _, _, hload, h⟩
    · rw [perform, h]
      rfl
    · rw [perform, h, hload]
      rfl
    · rw [perform, h, hload]
      rfl
  | start => rw [perform, block_start, if_neg (load_not_mem_calls_start m b)]
  | resume =>
    rw [perform, resume, block_start, if_neg (load_not_mem_calls_start m b.restarted)]
    rfl
  | requestStop | readState | wakeReason | sleep => rfl

end Manager

theorem ScriptedControl.cycleCount_load (control : ScriptedControl) (b : Block) :
    (Control.load control b).2.2.cycleCount =
      if control.loadFailure.isNone && control.resetsOnLoad then 0 else b.cycleCount := by
  simp only [Control.load]
  cases control.loadFailure with
  | some text => rfl
  | none =>
    cases control.resetsOnLoad with
    | true => exact Block.load_fresh .cycleCount
    | false => rfl

/-! ## What an operation does to the count -/

/-- A pause makes no conversion. -/
theorem Monitor.converter_pause {σ : Type} (m : Monitor σ) (ms : UInt32) :
    (m.pause ms).converter = m.converter := by
  -- Not `rfl` alone: that would have the clocks of the two monitors compared.
  unfold pause
  rfl

namespace Session

/-- The host writes no word on its own that would change the cycle count, and during a run none but
the host-writable ones. -/
def Operation.sparesCycles : Operation → Bool
  | store write => write.word != .cycleCount
  | run host _ => host.all fun entry => entry.2.all fun write => write.word.hostWritable
  | newMonitor .. | step | load _ | stopRequested | setStop _ | wakeHost | pause _ | setControl _
  | power _ | config | lastPpm => true

/-- The platform is asked to load an image during the operation, and the load resets the words. -/
def resetsWords (s : Session) (operation : Operation) : Bool :=
  (s.perform operation).calls.contains .load &&
    (s.manager.control.loadFailure.isNone && s.manager.control.resetsOnLoad)

/-- The number of conversions that yield a reading during the operation.  A new monitor comes with
a converter of its own, which has made none. -/
def readings (s : Session) : Operation → Nat
  | .newMonitor .. => 0
  | operation => s.monitor.converter.readingsTo (s.perform operation).session.monitor.converter

variable {s : Session} {operation : Operation}

theorem permitted_of_sparesCycles {host : List (Nat × List Block.Write)} {last : Nat}
    (hspares : (Operation.run host last).sparesCycles) :
    ((Schedule.ofEntries host).stoppingFrom last).Permitted := by
  refine Schedule.Permitted.stoppingFrom (Schedule.forall_mem_ofEntries ?_) last
  intro entry hentry write hwrite
  exact List.all_eq_true.mp (List.all_eq_true.mp hspares entry hentry) write hwrite

/-- A run begun in a session has added its readings to the count at each of its turns. -/
theorem cycleCount_after_turns (s : Session) {host : Schedule} (hhost : host.Permitted)
    (turns : Nat) :
    let r := (s.monitor.start s.block).after host turns
    r.block.cycleCount =
      s.block.cycleCount + .ofNat (s.monitor.converter.readingsTo r.monitor.converter) := by
  intro r
  obtain ⟨made, h⟩ := s.monitor.exists_tallied s.block host turns
  rw [(h.words hhost).cycleCount, h.converter,
    ScriptedConverter.readingsTo_skip s.monitor s.block host]

/-- An operation that does not have the words reset adds its readings to the count. -/
theorem cycleCount_perform (hspares : operation.sparesCycles)
    (hkeeps : s.resetsWords operation = false) :
    (s.perform operation).session.block.cycleCount =
      s.block.cycleCount + .ofNat (s.readings operation) := by
  have hmonitor (monitor : Monitor ScriptedConverter)
      (hconverter : monitor.converter = s.monitor.converter) :
      { s with monitor }.block.cycleCount = s.block.cycleCount +
        .ofNat (s.monitor.converter.readingsTo { s with monitor }.monitor.converter) := by
    -- Stated for any monitor, so that nothing of it but its converter is looked at.
    rw [hconverter, ScriptedConverter.readingsTo_self]
    exact (UInt32.add_zero _).symm
  have hnothing := hmonitor s.monitor rfl
  cases operation with
  | step =>
    have hword := ((Run.Tallied.start s.monitor s.block .quiet).remembers_observation rfl
      Schedule.permitted_quiet).cycleCount
    rw [← ScriptedConverter.readingsTo_skip] at hword
    exact hword
  | run host last =>
    obtain ⟨made, h⟩ := (s.monitor.run_ends s.block (.ofEntries host) last).exists_tallied
    have hword := (h.words (permitted_of_sparesCycles hspares)).cycleCount
    rw [← ScriptedConverter.readingsTo_skip, ← h.converter] at hword
    exact hword
  | power operation =>
    refine Eq.trans ?_ hnothing
    show (s.manager.perform s.block operation).block.cycleCount = s.block.cycleCount
    rw [Manager.cycleCount_perform, ScriptedControl.cycleCount_load]
    split
    · next hload =>
      have hasked : (s.perform (.power operation)).calls.contains .load :=
        List.contains_iff_mem.mpr hload
      rw [resetsWords, hasked, Bool.true_and] at hkeeps
      rw [hkeeps]
      rfl
    · rfl
  | store write =>
    refine Eq.trans ?_ hnothing
    show (s.block.store write.word write.value).load .cycleCount = s.block.cycleCount
    have hne : Word.cycleCount ≠ write.word := by
      intro heq
      simp [Operation.sparesCycles, ← heq] at hspares
    rw [Block.load_store, if_neg hne]
    rfl
  -- The converter of the new monitor is another one, so that their scripts do not compare.
  | newMonitor => exact (UInt32.add_zero _).symm
  | pause ms => exact hmonitor _ (s.monitor.converter_pause ms)
  | setStop | load | stopRequested | wakeHost | setControl | config | lastPpm => exact hnothing

/-- After a load that resets the words the count is at zero. -/
theorem cycleCount_of_resetsWords (hresets : s.resetsWords operation) :
    (s.perform operation).session.block.cycleCount = 0 := by
  simp only [resetsWords, Bool.and_eq_true, List.contains_eq_mem, decide_eq_true_eq] at hresets
  obtain ⟨hload, hfailure, hreset⟩ := hresets
  cases operation with
  | power operation =>
    have hmem : ControlCall.load ∈ (s.manager.perform s.block operation).calls := hload
    show (s.manager.perform s.block operation).block.cycleCount = 0
    rw [Manager.cycleCount_perform, if_pos hmem, ScriptedControl.cycleCount_load, hfailure, hreset]
    rfl
  | newMonitor | step | run | load | store | stopRequested | setStop | wakeHost | pause | setControl
  | config | lastPpm => exact absurd hload List.not_mem_nil

/-! ## Lists of operations -/

/-- Whether some operation of a list has the words reset. -/
def resetsWithin (s : Session) : List Operation → Bool
  | [] => false
  | operation :: rest =>
    s.resetsWords operation || (s.perform operation).session.resetsWithin rest

/-- The number of readings during a list of operations. -/
def readingsWithin (s : Session) : List Operation → Nat
  | [] => 0
  | operation :: rest =>
    s.readings operation + (s.perform operation).session.readingsWithin rest

/-- Operations that reset nothing add their readings to the count. -/
theorem cycleCount_afterAll {operations : List Operation}
    (hspares : ∀ operation ∈ operations, operation.sparesCycles)
    (hkeeps : s.resetsWithin operations = false) :
    (s.afterAll operations).block.cycleCount =
      s.block.cycleCount + .ofNat (s.readingsWithin operations) := by
  induction operations generalizing s with
  | nil => exact (UInt32.add_zero _).symm
  | cons operation rest ih =>
    obtain ⟨hfirst, hrest⟩ := List.forall_mem_cons.mp hspares
    obtain ⟨hkeepsFirst, hkeepsRest⟩ := Bool.or_eq_false_iff.mp hkeeps
    show ((s.perform operation).session.afterAll rest).block.cycleCount = _
    rw [ih hrest hkeepsRest, cycleCount_perform hfirst hkeepsFirst, readingsWithin,
      UInt32.ofNat_add, UInt32.add_assoc]

/-- In a session in which nobody writes the cycle count directly it is, as far as a word goes, the
number of readings since the last load that reset the words, or since the start on top of the count
found there.  This holds after every list of operations and at every turn of a run begun then.  No
operation of the power manager but such a load changes the count, and neither does a conversion that
fails. -/
theorem cycleCount_counts_readings (s : Session) (operations : List Operation)
    (hspares : ∀ operation ∈ operations, operation.sparesCycles) :
    let now := s.afterAll operations
    (s.resetsWithin operations = false →
        now.block.cycleCount = s.block.cycleCount + .ofNat (s.readingsWithin operations)) ∧
      (∀ before load later, operations = before ++ load :: later →
        (s.afterAll before).resetsWords load →
        ((s.afterAll before).perform load).session.resetsWithin later = false →
          now.block.cycleCount =
            .ofNat (((s.afterAll before).perform load).session.readingsWithin later)) ∧
      (∀ host : Schedule, host.Permitted → ∀ turns,
        let r := (now.monitor.start now.block).after host turns
        r.block.cycleCount = now.block.cycleCount +
          .ofNat (now.monitor.converter.readingsTo r.monitor.converter)) ∧
      (∀ operation, now.resetsWords (.power operation) = false →
        (now.perform (.power operation)).session.block.cycleCount = now.block.cycleCount) ∧
      ∀ fault, (Converter.convert now.monitor.converter).1 = .failed fault →
        (now.perform .step).session.block.cycleCount = now.block.cycleCount := by
  intro now
  refine ⟨cycleCount_afterAll hspares, ?_, fun host hhost => now.cycleCount_after_turns hhost,
    ?_, ?_⟩
  · intro before load later heq hresets hkeeps
    have hlater : ∀ operation ∈ later, operation.sparesCycles := by
      intro operation hmem
      exact hspares operation (heq ▸ List.mem_append_right _ (List.mem_cons_of_mem _ hmem))
    show (s.afterAll operations).block.cycleCount = _
    rw [heq, afterAll_append]
    show (((s.afterAll before).perform load).session.afterAll later).block.cycleCount = _
    rw [cycleCount_afterAll hlater hkeeps, cycleCount_of_resetsWords hresets, UInt32.zero_add]
  · intro operation hkeeps
    rw [cycleCount_perform rfl hkeeps]
    show _ + UInt32.ofNat (now.monitor.converter.readingsTo now.monitor.converter) = _
    rw [ScriptedConverter.readingsTo_self]
    exact UInt32.add_zero _
  · intro fault hfailed
    show (now.block.observe (Converter.convert now.monitor.converter).1).block.cycleCount = _
    rw [hfailed]
    rfl

/-- A count two short of a full turn passes zero over a step, a failing conversion and a run in
which the host writes, and is left alone by a new monitor, a load that fails and a resumption.  A
load then resets it, and from there on it counts the readings of the second monitor. -/
theorem cycleCount_across_reset :
    let s : Session :=
      { manager :=
          { control := { resetsOnLoad := true, loadFailure := some "busy" }, config := .standard }
        block := { Block.withLimits 560 3 with cycleCount := 4294967294 }
        monitor :=
          { converter := { remaining := [some 100, none, some 600, some 700] }
            intervalMs := 200 } }
    let before : List Operation :=
      [.step, .step, .run [(1, [⟨.confirmCount, 9⟩])] 2,
        .newMonitor { remaining := [some 5, none, some 4000] } 10, .power .load, .power .resume,
        .setControl { loadFailure := some none }]
    let later : List Operation := [.step, .power (.arm .standard), .step, .step]
    let loaded := ((s.afterAll before).perform (.power .load)).session
    (s.resetsWithin before = false ∧ (s.afterAll before).block.cycleCount = 1) ∧
      (s.afterAll before).resetsWords (.power .load) ∧ loaded.resetsWithin later = false ∧
      (s.afterAll (before ++ .power .load :: later)).block.cycleCount = 2 := by
  intro s before later loaded
  have hspares : ∀ operation ∈ before ++ .power .load :: later, operation.sparesCycles := by decide
  have hbefore : ∀ operation ∈ before, operation.sparesCycles := by decide
  have hkeeps : s.resetsWithin before = false := by decide +kernel
  have hresets : (s.afterAll before).resetsWords (.power .load) := by decide +kernel
  have hlater : loaded.resetsWithin later = false := by decide +kernel
  have hfirst := (cycleCount_counts_readings s before hbefore).1 hkeeps
  have hsecond := (cycleCount_counts_readings s _ hspares).2.1 before _ later rfl hresets hlater
  have hreadings : s.readingsWithin before = 3 := by decide +kernel
  have hreadingsLater : loaded.readingsWithin later = 2 := by decide +kernel
  refine ⟨⟨hkeeps, ?_⟩, hresets, hlater, ?_⟩
  · rw [hfirst, hreadings]
    decide
  · rw [hsecond, hreadingsLater]
    decide

end Session

end GasWatch
