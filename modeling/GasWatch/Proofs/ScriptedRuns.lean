import GasWatch.Converter.Scripted
import GasWatch.Proofs.Agreement
import GasWatch.Proofs.Rearming
import GasWatch.Proofs.Turns

/-!
# Runs over a script

While the host does no more than raise the stop flag, what a run comes to is decided by its script,
and `Block.watch` reads it off by recursion on the script alone.  A run goes along the script turn
by turn (`Run.exists_along`) until an entry completes a row, the script is used up, or the flag is
raised before that.  In the second case it only waits for the flag from there on (`Run.Spent`).
`Ends.follows` says the same of reports, for runs that are not cut short (`PlaysOut`).

A failed conversion leaves the block as it is, so deleting the failures from a script changes
nothing in what watching it comes to but the number of entries played (`watch_withoutFailures`).
`failures_are_transparent` says this of samples one by one and of runs.
-/

namespace GasWatch

/-! ## Watching a script -/

/-- What an entry of a script yields. -/
def Conversion.ofEntry : Option UInt32 → Conversion
  | some raw => .reading raw
  | none => .failed .scripted

/-- The block at the end, how many entries were played, and whether the last of them completed a
row. -/
structure Watched where
  block : Block
  played : Nat
  confirmed : Bool

/-- The same, one entry later. -/
def Watched.shifted (w : Watched) : Watched := { w with played := w.played + 1 }

/-- Plays a script up to the entry that completes a row. -/
def Block.watch (b : Block) : List (Option UInt32) → Watched
  | [] => { block := b, played := 0, confirmed := false }
  | entry :: rest =>
    let seen := b.observe (.ofEntry entry)
    if seen.verdict.isConfirmed then { block := seen.block, played := 1, confirmed := true }
    else (seen.block.watch rest).shifted

namespace Block

variable {b : Block} {entry : Option UInt32}

theorem watch_of_confirmed (hconfirmed : (b.observe (.ofEntry entry)).verdict.isConfirmed)
    (rest : List (Option UInt32)) :
    b.watch (entry :: rest) =
      { block := (b.observe (.ofEntry entry)).block, played := 1, confirmed := true } := by
  rw [watch, if_pos hconfirmed]

theorem watch_of_unconfirmed
    (hconfirmed : (b.observe (.ofEntry entry)).verdict.isConfirmed = false)
    (rest : List (Option UInt32)) :
    b.watch (entry :: rest) = ((b.observe (.ofEntry entry)).block.watch rest).shifted := by
  rw [watch, hconfirmed]
  rfl

theorem stopFlag_watch (b : Block) (script : List (Option UInt32)) :
    (b.watch script).block.stopFlag = b.stopFlag := by
  induction script generalizing b with
  | nil => rfl
  | cons entry rest ih =>
    have hseen := b.stopFlag_observe (.ofEntry entry)
    cases hconfirmed : (b.observe (.ofEntry entry)).verdict.isConfirmed with
    | true => rw [watch_of_confirmed hconfirmed, ← hseen]
    | false =>
      rw [watch_of_unconfirmed hconfirmed, ← hseen]
      exact ih _

/-- Without its failures a script comes to the same, in as many entries less as it fails on the
way. -/
theorem watch_withoutFailures (b : Block) (script : List (Option UInt32)) :
    let w := b.watch script
    let plain := b.watch (script.filter Option.isSome)
    plain.block = w.block ∧ plain.confirmed = w.confirmed ∧
      w.played = plain.played + (script.take w.played).countP Option.isNone := by
  induction script generalizing b with
  | nil => exact ⟨rfl, rfl, rfl⟩
  | cons entry rest ih =>
    cases entry with
    | none =>
      obtain ⟨hblock, hconfirmed, hplayed⟩ := ih b
      have hwatch : b.watch (none :: rest) = (b.watch rest).shifted :=
        watch_of_unconfirmed rfl rest
      rw [hwatch]
      refine ⟨hblock, hconfirmed, ?_⟩
      show (b.watch rest).played + 1 = (b.watch (rest.filter Option.isSome)).played +
        (none :: rest.take (b.watch rest).played).countP Option.isNone
      rw [List.countP_cons_of_pos rfl]
      omega
    | some raw =>
      have hfilter : (some raw :: rest).filter Option.isSome =
          some raw :: rest.filter Option.isSome := rfl
      rw [hfilter]
      cases hverdict : (b.observe (.ofEntry (some raw))).verdict.isConfirmed with
      | true =>
        rw [watch_of_confirmed hverdict, watch_of_confirmed hverdict]
        exact ⟨rfl, rfl, rfl⟩
      | false =>
        obtain ⟨hblock, hconfirmed, hplayed⟩ := ih (b.observe (.ofEntry (some raw))).block
        rw [watch_of_unconfirmed hverdict, watch_of_unconfirmed hverdict]
        refine ⟨hblock, hconfirmed, ?_⟩
        show _ + 1 = _ + 1 + (some raw :: rest.take _).countP Option.isNone
        rw [List.countP_cons_of_neg Bool.false_ne_true]
        omega

end Block

/-! ## What a run makes of it -/

namespace Monitor

variable {m : Monitor ScriptedConverter}

theorem sample_of_remaining {entry : Option UInt32} {rest : List (Option UInt32)}
    (hremaining : m.converter.remaining = entry :: rest) (b : Block) :
    m.sample b =
      ({ m with converter := { remaining := rest, reads := m.converter.reads + 1 } },
        b.observe (.ofEntry entry)) := by
  cases entry <;> simp [sample, Converter.convert, ScriptedConverter.next, hremaining,
    Conversion.ofEntry]

theorem sample_of_exhausted (hremaining : m.converter.remaining = []) (b : Block) :
    m.sample b =
      ({ m with converter := { m.converter with reads := m.converter.reads + 1 } },
        b.observe (.failed .exhausted)) := by
  simp [sample, Converter.convert, ScriptedConverter.next, hremaining]

end Monitor

theorem Block.verdict_observe_reading_ne (b : Block) (reading : UInt32) :
    (b.observe (.reading reading)).verdict ≠ .readFailed := by
  refine verdict_ne_of_ofReading ?_
  simp only [observe]
  split <;> rfl

namespace Run

/-- The script is used up, and the run has nothing to do but to find the stop flag raised. -/
structure Spent (base : Block) (wakes reads : Nat) (r : Run ScriptedConverter) : Prop where
  remaining : r.monitor.converter.remaining = []
  wakes : r.monitor.wakes = wakes
  reads : reads ≤ r.monitor.converter.reads
  standing : r.exit = none ∧ (r.block = base ∨ r.block = base.setStop true) ∨
    r.exit = some .stopped ∧ r.block = base.setStop true

/-- The run has gone on from another one to wake the host with the last entry played. -/
structure WokenBy (w : Watched) (r q : Run ScriptedConverter) : Prop where
  exit : q.exit = some .wakeSignalled
  block : q.block = w.block
  wakes : q.monitor.wakes = r.monitor.wakes + 1
  delays : q.delays + 1 = r.delays + w.played
  reads : q.monitor.converter.reads = r.monitor.converter.reads + w.played

/-- The run has gone on from another one to be stopped with entries of the script left. -/
structure CutShort (host : Schedule) (entries : Nat) (r q : Run ScriptedConverter) : Prop where
  exit : q.exit = some .stopped
  raised : host q.delays ≠ []
  delays : q.delays < r.delays + entries
  reads : q.monitor.converter.reads < r.monitor.converter.reads + entries

/-- The run has gone on from another one by an entry of the script that completes no row, and by the
delay after it. -/
structure Passes (host : Schedule) (entry : Option UInt32) (rest : List (Option UInt32))
    (r q : Run ScriptedConverter) : Prop where
  exit : q.exit = none
  remaining : q.monitor.converter.remaining = rest
  block : q.block = (r.block.observe (.ofEntry entry)).block.apply (host (r.delays + 1))
  wakes : q.monitor.wakes = r.monitor.wakes
  delays : q.delays = r.delays + 1
  reads : q.monitor.converter.reads = r.monitor.converter.reads + 1

/-- The run has gone on from another one along a script, and it is plain how it ends. -/
inductive Along (host : Schedule) (base : Block) (script : List (Option UInt32))
    (r q : Run ScriptedConverter) : Prop where
  | woken (hconfirmed : (base.watch script).confirmed) (h : WokenBy (base.watch script) r q)
  | spent (hconfirmed : (base.watch script).confirmed = false)
    (h : q.Spent (base.watch script).block r.monitor.wakes
      (r.monitor.converter.reads + script.length))
  | cutShort (h : CutShort host script.length r q)

variable {host : Schedule} {base : Block} {wakes reads : Nat} {r next q : Run ScriptedConverter}
  {entry : Option UInt32} {rest : List (Option UInt32)}

/-! ### After the script -/

theorem Spent.turn (h : r.Spent base wakes reads) (hflag : base.stopFlag = 0)
    (hhost : host.OnlyStops) : (r.turn host).Spent base wakes reads := by
  have hsample := Monitor.sample_of_exhausted h.remaining r.block
  have hobservation : r.observation = r.block.observe (.failed .exhausted) :=
    congrArg Prod.snd hsample
  have hmonitor : r.sampledMonitor.converter.remaining = [] ∧ r.sampledMonitor.wakes = wakes ∧
      reads ≤ r.sampledMonitor.converter.reads := by
    rw [sampledMonitor, hsample]
    exact ⟨h.remaining, h.wakes, Nat.le_succ_of_le h.reads⟩
  rcases turn_cases host r with ⟨-, hturn⟩ | ⟨hexit, hstop, hturn⟩ |
    ⟨-, -, _, _, hverdict, -⟩ | ⟨hexit, hstop, -, hturn⟩
  · rw [hturn]
    exact h
  · rw [hturn]
    refine ⟨h.remaining, h.wakes, h.reads, Or.inr ⟨rfl, ?_⟩⟩
    rcases h.standing with ⟨-, hblock | hblock⟩ | ⟨-, hblock⟩
    · rw [hblock, Block.stopRequested_of_stopFlag hflag] at hstop
      exact absurd hstop Bool.false_ne_true
    · exact hblock
    · exact hblock
  · rw [hobservation] at hverdict
    cases hverdict
  · rw [hturn]
    refine ⟨hmonitor.1, hmonitor.2.1, hmonitor.2.2, Or.inl ⟨hexit, ?_⟩⟩
    show r.observation.block.apply _ = base ∨ r.observation.block.apply _ = base.setStop true
    rw [hobservation, Block.block_observe_failed]
    rcases h.standing with ⟨-, hblock | hblock⟩ | ⟨hsome, -⟩
    · rw [hblock]
      exact (hhost.apply_eq base _).imp_right And.right
    · rw [hblock, Block.stopRequested_setStop] at hstop
      exact absurd hstop.symm Bool.false_ne_true
    · rw [hexit] at hsome
      cases hsome

theorem Spent.after (h : r.Spent base wakes reads) (hflag : base.stopFlag = 0)
    (hhost : host.OnlyStops) (turns : Nat) : (r.after host turns).Spent base wakes reads := by
  induction turns with
  | zero => exact h
  | succ turns ih =>
    rw [after_succ]
    exact ih.turn hflag hhost

/-! ### One entry -/

theorem wokenBy_turn (hexit : r.exit = none) (hstop : r.block.stopRequested = false)
    (hremaining : r.monitor.converter.remaining = entry :: rest)
    (hconfirmed : (r.block.observe (.ofEntry entry)).verdict.isConfirmed) :
    WokenBy { block := (r.block.observe (.ofEntry entry)).block, played := 1, confirmed := true } r
      (r.turn host) := by
  have hsample := Monitor.sample_of_remaining hremaining r.block
  have hobservation : r.observation = r.block.observe (.ofEntry entry) := congrArg Prod.snd hsample
  rw [← hobservation] at hconfirmed ⊢
  obtain ⟨reading, count, hverdict⟩ := Verdict.exists_of_isConfirmed hconfirmed
  rw [turn_of_ongoing host hexit, advance_of_confirmed host hstop hverdict, sampledMonitor, hsample]
  exact ⟨rfl, rfl, rfl, rfl, rfl⟩

theorem passes_turn (hexit : r.exit = none) (hstop : r.block.stopRequested = false)
    (hremaining : r.monitor.converter.remaining = entry :: rest)
    (hconfirmed : (r.block.observe (.ofEntry entry)).verdict.isConfirmed = false) :
    Passes host entry rest r (r.turn host) := by
  have hsample := Monitor.sample_of_remaining hremaining r.block
  have hobservation : r.observation = r.block.observe (.ofEntry entry) := congrArg Prod.snd hsample
  rw [← hobservation] at hconfirmed
  rw [turn_of_ongoing host hexit, advance_of_unconfirmed host hstop hconfirmed, sampledMonitor,
    hsample, hobservation]
  exact ⟨hexit, rfl, rfl, rfl, rfl, rfl⟩

theorem cutShort_turn (hexit : r.exit = none) (hstop : r.block.stopRequested)
    (hraised : host r.delays ≠ []) {entries : Nat} (hpos : 0 < entries) :
    CutShort host entries r (r.turn host) := by
  rw [turn_of_ongoing host hexit, advance_of_stopRequested host hstop]
  exact ⟨rfl, hraised, Nat.lt_add_of_pos_right hpos, Nat.lt_add_of_pos_right hpos⟩

/-- What the rest of the script comes to, the script does. -/
theorem Along.cons (h : Along host (r.block.observe (.ofEntry entry)).block rest next q)
    (hnext : Passes host entry rest r next)
    (hconfirmed : (r.block.observe (.ofEntry entry)).verdict.isConfirmed = false) :
    Along host r.block (entry :: rest) r q := by
  have hwatch := Block.watch_of_unconfirmed hconfirmed rest
  have hdelays := hnext.delays
  have hreads := hnext.reads
  cases h with
  | woken hw h =>
    have hlast := h.delays
    have hread := h.reads
    refine .woken (by rw [hwatch]; exact hw) ?_
    rw [hwatch]
    refine ⟨h.exit, h.block, by rw [h.wakes, hnext.wakes], ?_, ?_⟩
    · show q.delays + 1 = r.delays + (_ + 1)
      omega
    · show q.monitor.converter.reads = r.monitor.converter.reads + (_ + 1)
      omega
  | spent hw h =>
    have hread := h.reads
    refine .spent (by rw [hwatch]; exact hw) ?_
    rw [hwatch, List.length_cons]
    exact ⟨h.remaining, by rw [h.wakes, hnext.wakes], by omega, h.standing⟩
  | cutShort h =>
    have hlast := h.delays
    have hread := h.reads
    refine .cutShort ?_
    rw [List.length_cons]
    exact ⟨h.exit, h.raised, by omega, by omega⟩

/-- A run goes along its script until it is plain how it ends.  The host may have raised the stop
flag in the delay before the script. -/
theorem exists_along {script : List (Option UInt32)} (hflag : base.stopFlag = 0)
    (hexit : r.exit = none) (hremaining : r.monitor.converter.remaining = script)
    (hhost : host.OnlyStops)
    (hblock : r.block = base ∨ host r.delays ≠ [] ∧ r.block = base.setStop true) :
    ∃ turns, Along host base script r (r.after host turns) := by
  induction script generalizing r base with
  | nil =>
    refine ⟨0, .spent rfl ⟨hremaining, rfl, Nat.le_refl _, Or.inl ⟨hexit, ?_⟩⟩⟩
    exact hblock.imp_right And.right
  | cons entry rest ih =>
    have hone : r.after host 1 = r.turn host := after_succ host 0 r
    rcases hblock with rfl | ⟨hraised, hblock⟩
    · have hstop := Block.stopRequested_of_stopFlag hflag
      cases hconfirmed : (r.block.observe (.ofEntry entry)).verdict.isConfirmed with
      | true =>
        have hwatch := Block.watch_of_confirmed hconfirmed rest
        refine ⟨1, .woken (by rw [hwatch]) ?_⟩
        rw [hwatch, hone]
        exact wokenBy_turn hexit hstop hremaining hconfirmed
      | false =>
        have hnext : Passes host entry rest r (r.turn host) :=
          passes_turn hexit hstop hremaining hconfirmed
        obtain ⟨turns, halong⟩ := ih ((r.block.stopFlag_observe _).trans hflag) hnext.exit
          hnext.remaining (by rw [hnext.block, hnext.delays]; exact hhost.apply_eq _ _)
        refine ⟨turns + 1, ?_⟩
        rw [after_succ_start]
        exact halong.cons hnext hconfirmed
    · have hstop : r.block.stopRequested := by rw [hblock, Block.stopRequested_setStop]
      refine ⟨1, .cutShort ?_⟩
      rw [hone]
      exact cutShort_turn hexit hstop hraised (Nat.succ_pos _)

end Run

/-! ## Reports -/

/-- The report of a run whose script comes to `w`. -/
structure Report.Follows (m : Monitor ScriptedConverter) (w : Watched)
    (report : Report ScriptedConverter) : Prop where
  exit : report.exit = if w.confirmed then .wakeSignalled else .stopped
  block : report.block = if w.confirmed then w.block else w.block.setStop true
  wakes : report.monitor.wakes = if w.confirmed then m.wakes + 1 else m.wakes
  delays : w.confirmed → report.delays + 1 = w.played
  reads : w.confirmed → report.monitor.converter.reads = m.converter.reads + w.played
  spent : w.confirmed = false →
    m.converter.reads + m.converter.remaining.length ≤ report.monitor.converter.reads

/-- The report of a run that is stopped with entries of its script left. -/
structure Report.CutShort (m : Monitor ScriptedConverter) (host : Schedule)
    (report : Report ScriptedConverter) : Prop where
  exit : report.exit = .stopped
  raised : host report.delays ≠ []
  delays : report.delays < m.converter.remaining.length
  reads : report.monitor.converter.reads < m.converter.reads + m.converter.remaining.length

namespace Report

variable {m : Monitor ScriptedConverter} {b : Block} {w : Watched} {host : Schedule}
  {q : Run ScriptedConverter}

theorem Follows.confirmed {report : Report ScriptedConverter} (h : report.Follows m w)
    (hwake : report.exit = .wakeSignalled) : w.confirmed := by
  cases hconfirmed : w.confirmed with
  | true => rfl
  | false =>
    rw [h.exit, hconfirmed] at hwake
    cases hwake

theorem follows_of_wokenBy (h : Run.WokenBy w (m.start b) q) (hconfirmed : w.confirmed)
    (hended : q.exit.isSome) : (q.report hended).Follows m w := by
  have hstart : (m.start b).delays = 0 := rfl
  have hdelays := h.delays
  rw [hstart, Nat.zero_add] at hdelays
  constructor
  · simp [Run.report, h.exit, hconfirmed]
  · rw [if_pos hconfirmed]
    exact h.block
  · rw [if_pos hconfirmed]
    exact h.wakes
  · exact fun _ => hdelays
  · exact fun _ => h.reads
  · simp [hconfirmed]

theorem follows_of_spent
    (h : q.Spent w.block m.wakes (m.converter.reads + m.converter.remaining.length))
    (hconfirmed : w.confirmed = false) (hended : q.exit.isSome) :
    (q.report hended).Follows m w := by
  rcases h.standing with ⟨hexit, -⟩ | ⟨hexit, hblock⟩
  · rw [hexit] at hended
    cases hended
  · constructor
    · simp [Run.report, hexit, hconfirmed]
    · rw [hconfirmed]
      exact hblock
    · rw [hconfirmed]
      exact h.wakes
    · simp [hconfirmed]
    · simp [hconfirmed]
    · exact fun _ => h.reads

theorem cutShort_of_run (h : Run.CutShort host m.converter.remaining.length (m.start b) q)
    (hended : q.exit.isSome) : (q.report hended).CutShort m host := by
  have hstart : (m.start b).delays = 0 := rfl
  have hdelays := h.delays
  rw [hstart, Nat.zero_add] at hdelays
  exact ⟨Run.exit_report h.exit hended, h.raised, hdelays, h.reads⟩

end Report

namespace Monitor

/-- If the host stops a run at all, the script has been played by then. -/
def PlaysOut (m : Monitor ScriptedConverter) (b : Block) (host : Schedule) : Prop :=
  ∀ report, m.Ends b host report → report.exit = .stopped →
    m.converter.reads + m.converter.remaining.length ≤ report.monitor.converter.reads

variable {m : Monitor ScriptedConverter} {b : Block} {host : Schedule}
  {report : Report ScriptedConverter}

theorem exists_along (hflag : b.stopFlag = 0) (hhost : host.OnlyStops) :
    ∃ turns, Run.Along host b m.converter.remaining (m.start b)
      ((m.start b).after host turns) :=
  Run.exists_along hflag rfl rfl hhost (Or.inl rfl)

/-- Unless it is cut short, a run comes to what its script does. -/
theorem Ends.follows_or_cutShort (hreport : m.Ends b host report) (hflag : b.stopFlag = 0)
    (hhost : host.OnlyStops) :
    report.Follows m (b.watch m.converter.remaining) ∨ report.CutShort m host := by
  obtain ⟨turns, halong⟩ := exists_along (m := m) hflag hhost
  cases halong with
  | woken hconfirmed h =>
    have hended : ((m.start b).after host turns).exit.isSome := by
      rw [h.exit]
      rfl
    rw [hreport.unique (Ends.of_after rfl hended)]
    exact Or.inl (Report.follows_of_wokenBy h hconfirmed hended)
  | spent hconfirmed h =>
    -- From here on only the stop flag can end the run.
    obtain ⟨more, hended, rfl⟩ := hreport
    have hlast := h.after ((Block.stopFlag_watch b _).trans hflag) hhost more
    rw [← Run.after_add, Run.after_eq_of_le host hended (Nat.le_add_left more turns)] at hlast
    exact Or.inl (Report.follows_of_spent hlast hconfirmed hended)
  | cutShort h =>
    have hended : ((m.start b).after host turns).exit.isSome := by
      rw [h.exit]
      rfl
    rw [hreport.unique (Ends.of_after rfl hended)]
    exact Or.inr (Report.cutShort_of_run h hended)

theorem Ends.follows (hreport : m.Ends b host report) (hflag : b.stopFlag = 0)
    (hhost : host.OnlyStops) (hout : m.PlaysOut b host) :
    report.Follows m (b.watch m.converter.remaining) := by
  rcases hreport.follows_or_cutShort hflag hhost with h | h
  · exact h
  · exact absurd h.reads (Nat.not_lt.mpr (hout report hreport h.exit))

/-- A host that does nothing in fewer delays than the script has entries does not cut the run
short. -/
theorem playsOut_of_forall_nil (hflag : b.stopFlag = 0) (hhost : host.OnlyStops)
    (hquiet : ∀ delay < m.converter.remaining.length, host delay = []) : m.PlaysOut b host := by
  intro report hreport hstopped
  rcases hreport.follows_or_cutShort hflag hhost with h | h
  · cases hconfirmed : (b.watch m.converter.remaining).confirmed with
    | true =>
      rw [h.exit, if_pos hconfirmed] at hstopped
      cases hstopped
    | false => exact h.spent hconfirmed
  · exact absurd (hquiet _ h.delays) h.raised

/-- A run that is not cut short wakes the host exactly if its script completes a row. -/
theorem wakeSignalled_iff_watch (hflag : b.stopFlag = 0) (hhost : host.OnlyStops)
    (hout : m.PlaysOut b host) :
    (∃ report, m.Ends b host report ∧ report.exit = .wakeSignalled) ↔
      (b.watch m.converter.remaining).confirmed := by
  constructor
  · intro hwakes
    obtain ⟨report, hreport, hwake⟩ := hwakes
    exact (hreport.follows hflag hhost hout).confirmed hwake
  · intro hconfirmed
    -- A run over a script that completes a row ends, and so it is followed to its end.
    obtain ⟨turns, halong⟩ := exists_along (m := m) hflag hhost
    have hended : ((m.start b).after host turns).exit.isSome := by
      cases halong with
      | woken _ h =>
        rw [h.exit]
        rfl
      | spent hnot =>
        rw [hnot] at hconfirmed
        cases hconfirmed
      | cutShort h =>
        rw [h.exit]
        rfl
    have hreport : m.Ends b host _ := Ends.of_after rfl hended
    refine ⟨_, hreport, ?_⟩
    rw [(hreport.follows hflag hhost hout).exit, if_pos hconfirmed]

end Monitor

/-! ## Failures left out -/

/-- The monitor with the failures deleted from its script. -/
def Monitor.withoutFailures (m : Monitor ScriptedConverter) : Monitor ScriptedConverter :=
  { m with
    converter :=
      { m.converter with remaining := m.converter.remaining.filter Option.isSome } }

/-- A monitor on a block, and as many samples as its script has entries. -/
def Monitor.sampleScript (m : Monitor ScriptedConverter) (b : Block) : Course ScriptedConverter :=
  Course.follow { monitor := m, block := b }
    (List.replicate m.converter.remaining.length .sample)

namespace Course

variable {c d : Course ScriptedConverter}

theorem next_sample_of_remaining {entry : Option UInt32} {rest : List (Option UInt32)}
    (hremaining : c.monitor.converter.remaining = entry :: rest) :
    (c.next .sample).monitor.converter.remaining = rest ∧
      (c.next .sample).block = (c.block.observe (.ofEntry entry)).block ∧
      (c.next .sample).verdicts = c.verdicts ++ [(c.block.observe (.ofEntry entry)).verdict] := by
  simp only [next, Monitor.sample_of_remaining hremaining]
  exact ⟨trivial, trivial, trivial⟩

theorem follow_withoutFailures (hblock : c.block = d.block)
    (hverdicts : c.verdicts.filter (· ≠ .readFailed) = d.verdicts)
    (hremaining : d.monitor.converter.remaining =
      c.monitor.converter.remaining.filter Option.isSome) :
    let all := c.follow (List.replicate c.monitor.converter.remaining.length .sample)
    let good := d.follow (List.replicate d.monitor.converter.remaining.length .sample)
    all.verdicts.filter (· ≠ .readFailed) = good.verdicts ∧ all.block = good.block := by
  generalize hscript : c.monitor.converter.remaining = script at hremaining ⊢
  induction script generalizing c d with
  | nil =>
    rw [hremaining]
    exact ⟨hverdicts, hblock⟩
  | cons entry rest ih =>
    obtain ⟨hc, hcblock, hcverdicts⟩ := next_sample_of_remaining hscript
    cases entry with
    | none =>
      -- The sample fails on the one side and is not taken on the other.
      have hfailed : (c.next .sample).verdicts.filter (· ≠ .readFailed) = d.verdicts := by
        rw [hcverdicts, List.filter_append, hverdicts]
        exact List.append_nil _
      exact ih (hcblock.trans hblock) hfailed hc hremaining
    | some raw =>
      have hplain : d.monitor.converter.remaining =
          some raw :: rest.filter Option.isSome := hremaining
      obtain ⟨hd, hdblock, hdverdicts⟩ := next_sample_of_remaining hplain
      rw [← hblock] at hdblock hdverdicts
      have hread : (c.block.observe (.ofEntry (some raw))).verdict ≠ .readFailed :=
        c.block.verdict_observe_reading_ne raw
      have hrecorded : (c.next .sample).verdicts.filter (· ≠ .readFailed) =
          (d.next .sample).verdicts := by
        rw [hcverdicts, hdverdicts, List.filter_append, hverdicts]
        simp [hread]
      have hrest := ih (hcblock.trans hdblock.symm) hrecorded hc hd
      rw [hd] at hrest
      rw [hplain]
      exact hrest

end Course

/-- Failed conversions change nothing in what samples see and do.  With the failures deleted from
its script a monitor gives the same verdicts otherwise and leaves the same words.  A run of it wakes
the host exactly if the other does, if neither is stopped before the end of its script, and comes to
the same words and wakes.  It saves as many conversions and delays as it leaves out failures before
the wake. -/
theorem failures_are_transparent (m : Monitor ScriptedConverter) (b : Block)
    (hflag : b.stopFlag = 0) (host guest : Schedule)
    (hhost : host.OnlyStops) (hout : m.PlaysOut b host)
    (hguest : guest.OnlyStops) (hplain : m.withoutFailures.PlaysOut b guest) :
    ((m.sampleScript b).verdicts.filter (· ≠ .readFailed) =
          (m.withoutFailures.sampleScript b).verdicts ∧
        (m.sampleScript b).block = (m.withoutFailures.sampleScript b).block) ∧
      ((∃ report, m.Ends b host report ∧ report.exit = .wakeSignalled) ↔
        ∃ report, m.withoutFailures.Ends b guest report ∧ report.exit = .wakeSignalled) ∧
      ∀ report other, m.Ends b host report → m.withoutFailures.Ends b guest other →
        let failures := (m.converter.remaining.take
          (report.monitor.converter.reads - m.converter.reads)).countP Option.isNone
        report.exit = other.exit ∧ report.block = other.block ∧
          report.monitor.wakes = other.monitor.wakes ∧
          (report.exit = .wakeSignalled →
            report.monitor.converter.reads = other.monitor.converter.reads + failures ∧
              report.delays = other.delays + failures) := by
  obtain ⟨hblock, hconfirmed, hplayed⟩ := b.watch_withoutFailures m.converter.remaining
  have hscript : m.withoutFailures.converter.remaining =
      m.converter.remaining.filter Option.isSome := rfl
  refine ⟨?_, ?_, fun report other hreport hother => ?_⟩
  · exact Course.follow_withoutFailures rfl rfl rfl
  · rw [Monitor.wakeSignalled_iff_watch hflag hhost hout,
      Monitor.wakeSignalled_iff_watch hflag hguest hplain, hscript, hconfirmed]
  · have h := hreport.follows hflag hhost hout
    have h' := hother.follows hflag hguest hplain
    rw [hscript] at h'
    refine ⟨?_, ?_, ?_, fun hwake => ?_⟩
    · rw [h.exit, h'.exit, hconfirmed]
    · rw [h.block, h'.block, hconfirmed, hblock]
    · rw [h.wakes, h'.wakes, hconfirmed]
      rfl
    · have hrow := h.confirmed hwake
      have hreads := h'.reads (hconfirmed.trans hrow)
      have hdelays := h'.delays (hconfirmed.trans hrow)
      have hsaved : m.withoutFailures.converter.reads = m.converter.reads := rfl
      have hlast := h.delays hrow
      rw [h.reads hrow, Nat.add_sub_cancel_left]
      omega

/-- Failures before, within and right before the end of a row, and one that is not reached.  The
host would stop the one run after the last entry of its script, and the other one not at all. -/
theorem failures_within_a_row :
    let m : Monitor ScriptedConverter :=
      { converter := { remaining := [none, some 1200, none, none, some 1300, none, some 900] }
        intervalMs := 200 }
    let b := Block.withLimits 1000 2
    let host := Schedule.quiet.stoppingFrom 7
    let report := m.run b .quiet 7
    (b.stopFlag = 0 ∧ host.OnlyStops ∧ m.PlaysOut b host ∧
        Schedule.quiet.OnlyStops ∧ m.withoutFailures.PlaysOut b .quiet ∧
        m.Ends b host report ∧ report.exit = .wakeSignalled) ∧
      ∃ other, m.withoutFailures.Ends b .quiet other ∧ other.exit = .wakeSignalled ∧
        report.block = other.block ∧
        report.monitor.converter.reads = other.monitor.converter.reads + 3 ∧
        report.delays = other.delays + 3 := by
  intro m b host report
  have hhost : host.OnlyStops := Schedule.onlyStops_stoppingFrom 7
  have hout : m.PlaysOut b host := Monitor.playsOut_of_forall_nil rfl hhost (by decide)
  have hplain : m.withoutFailures.PlaysOut b .quiet :=
    Monitor.playsOut_of_forall_nil rfl Schedule.onlyStops_quiet fun _ _ => rfl
  have hreport : m.Ends b host report := m.run_ends b .quiet 7
  have hexit : report.exit = .wakeSignalled := by decide
  obtain ⟨-, hwakes, hreports⟩ :=
    failures_are_transparent m b rfl host .quiet hhost hout Schedule.onlyStops_quiet hplain
  obtain ⟨other, hother, hwake⟩ := hwakes.mp ⟨report, hreport, hexit⟩
  obtain ⟨-, hblock, -, hcounts⟩ := hreports report other hreport hother
  obtain ⟨hreads, hdelays⟩ := hcounts hexit
  have hfailures : (m.converter.remaining.take
      (report.monitor.converter.reads - m.converter.reads)).countP Option.isNone = 3 := by decide
  rw [hfailures] at hreads hdelays
  exact ⟨⟨rfl, hhost, hout, Schedule.onlyStops_quiet, hplain, hreport, hexit⟩,
    other, hother, hwake, hblock, hreads, hdelays⟩

end GasWatch
