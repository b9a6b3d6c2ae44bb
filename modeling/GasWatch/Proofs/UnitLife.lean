import GasWatch.Converter.Lifetime
import GasWatch.Proofs.Accounting

/-!
# The life of a converter unit

The requests that the hardware has had tell how a unit was used.  `UnitCall.life` lists those of a
whole life: the unit is created, its channel is configured, it is read a number of times, and it is
released.  Between claim and release a unit can only be asked for conversions, and each of them is
one request (`calls_skip`).  So whoever uses it, and for how long, its requests are those of a life
(`calls_release_skip`).

`UnitStage.next` is the other side: what the hardware can be asked for at a stage of the life.  A
request that names no unit, one that was not created, or one that was released has no next stage.
`unit_lifecycle` says that the requests of a plan are those of a life or of the beginning of one,
and that none of them is out of place.
-/

namespace GasWatch

/-! ## Stages of a life -/

/-- How far a unit has come in its life. -/
inductive UnitStage where
  /-- No unit was created. -/
  | absent
  /-- The unit cannot be read yet. -/
  | created
  /-- A channel of the unit can be read. -/
  | configured (channel : UInt32)
  | released
  deriving DecidableEq

namespace UnitStage

/-- The stage after a request, which the hardware grants or refuses as its codes say.  There is none
after a request that is out of place. -/
def next (h : Hardware) : UnitStage → UnitCall → Option UnitStage
  | absent, .newUnit .. => some (if h.newUnitCode = 0 then created else absent)
  | created, .configChannel .unit channel .. =>
    some (if h.configChannelCode = 0 then configured channel else created)
  | configured channel, .read .unit other =>
    if other = channel then some (configured channel) else none
  | created, .deleteUnit .unit | configured _, .deleteUnit .unit => some released
  | _, _ => none

@[simp] theorem next_newUnit (h : Hardware) (unit mode : Nat) :
    absent.next h (.newUnit unit mode) =
      some (if h.newUnitCode = 0 then created else absent) := rfl

@[simp] theorem next_configChannel (h : Hardware) (channel : UInt32) (attenuation width : Nat) :
    created.next h (.configChannel .unit channel attenuation width) =
      some (if h.configChannelCode = 0 then configured channel else created) := rfl

@[simp] theorem next_read (h : Hardware) (channel : UInt32) :
    (configured channel).next h (.read .unit channel) = some (configured channel) :=
  if_pos rfl

@[simp] theorem next_deleteUnit (h : Hardware) :
    created.next h (.deleteUnit .unit) = some released := rfl

/-- The stage after requests in order. -/
def follow (h : Hardware) (stage : UnitStage) (calls : List UnitCall) : Option UnitStage :=
  calls.foldlM (next h) stage

theorem follow_cons (h : Hardware) (stage : UnitStage) (call : UnitCall) (calls : List UnitCall) :
    stage.follow h (call :: calls) = (stage.next h call).bind fun after => after.follow h calls :=
  List.foldlM_cons

/-- A configured channel can be read any number of times. -/
theorem follow_reads (h : Hardware) (channel : UInt32) (count : Nat) (calls : List UnitCall) :
    (configured channel).follow h (List.replicate count (.read .unit channel) ++ calls) =
      (configured channel).follow h calls := by
  induction count with
  | zero => rfl
  | succ count ih =>
    rw [List.replicate_succ, List.cons_append, follow_cons, next_read, Option.bind_some]
    exact ih

end UnitStage

/-! ## Requests of a life -/

namespace UnitCall

/-- The request that creates the unit. -/
def create : UnitCall := .newUnit UnitConverter.firstUnit UnitConverter.coprocessorDisabled

/-- The request that configures the channel of the sensor. -/
def configure : UnitCall :=
  .configChannel .unit Board.sensorChannel UnitConverter.fullAttenuation UnitConverter.bitWidth

/-- The requests of a unit that is read a number of times. -/
def life (reads : Nat) : List UnitCall :=
  create :: configure ::
    (List.replicate reads (.read .unit Board.sensorChannel) ++ [.deleteUnit .unit])

/-- No request of a life is out of place, and at its end the unit is released. -/
theorem follow_life {h : Hardware} (hnew : h.newUnitCode = 0) (hconfig : h.configChannelCode = 0)
    (reads : Nat) : UnitStage.absent.follow h (life reads) = some .released := by
  rw [life, UnitStage.follow_cons, create, UnitStage.next_newUnit, if_pos hnew, Option.bind_some,
    UnitStage.follow_cons, configure, UnitStage.next_configChannel, if_pos hconfig,
    Option.bind_some, UnitStage.follow_reads]
  rfl

/-- A unit that was released is out of place in a read, and in a second release. -/
example :
    UnitStage.absent.follow {} (life 1 ++ [.read .unit Board.sensorChannel]) = none ∧
      UnitStage.absent.follow {} (life 1 ++ [.deleteUnit .unit]) = none := by
  decide

end UnitCall

/-! ## Conversions are requests -/

namespace UnitConverter

/-- A unit that was asked for conversions is the same unit, with one request for each of them. -/
theorem calls_skip (u : UnitConverter) (count : Nat) :
    (Converter.skip u count).handle = u.handle ∧ (Converter.skip u count).channel = u.channel ∧
      (Converter.skip u count).hardware.calls.toList =
        u.hardware.calls.toList ++ List.replicate count (.read u.handle u.channel) := by
  induction count with
  | zero => exact ⟨rfl, rfl, (List.append_nil _).symm⟩
  | succ count ih =>
    obtain ⟨hhandle, hchannel, hcalls⟩ := ih
    refine ⟨hhandle, hchannel, ?_⟩
    show ((Converter.skip u count).hardware.calls.push _).toList = _
    rw [Array.toList_push, hcalls, hhandle, hchannel, List.replicate_succ', List.append_assoc]

/-- Reading the channel many times is asking for as many conversions. -/
theorem readMany_eq (count : Nat) (u : UnitConverter) :
    (readMany count u).1.length = count ∧ (readMany count u).2 = Converter.skip u count := by
  induction count generalizing u with
  | zero => exact ⟨rfl, rfl⟩
  | succ count ih =>
    obtain ⟨hlength, hunit⟩ := ih u.next.2
    refine ⟨congrArg (· + 1) hlength, ?_⟩
    rw [readMany, hunit]
    exact (Converter.skip_skip u 1 count).trans (congrArg _ (Nat.add_comm 1 count))

/-! ## Claiming a unit -/

/-- The unit that hardware hands out which grants both requests. -/
def granted (h : Hardware) : UnitConverter :=
  { hardware := (h.request .create).request .configure
    handle := .unit
    channel := Board.sensorChannel }

theorem claim_of_newUnit_failed {h : Hardware} (hnew : h.newUnitCode ≠ 0) :
    claim h = .error (h.newUnitCode, h.request .create) := by
  simp only [claim, if_pos hnew]
  rfl

theorem claim_of_config_failed {h : Hardware} (hnew : h.newUnitCode = 0)
    (hconfig : h.configChannelCode ≠ 0) :
    claim h =
      .error (h.configChannelCode,
        ((h.request .create).request .configure).request (.deleteUnit .unit)) := by
  simp only [claim, hnew, ne_eq, not_true_eq_false, if_false, if_pos hconfig]
  rfl

theorem claim_of_granted {h : Hardware} (hnew : h.newUnitCode = 0)
    (hconfig : h.configChannelCode = 0) : claim h = .ok (granted h) := by
  simp only [claim, hnew, hconfig, ne_eq, not_true_eq_false, if_false]
  rfl

/-- However many conversions a unit was asked for, its requests are those of a life. -/
theorem calls_release_skip {h : Hardware} (hcalls : h.calls = #[]) (count : Nat) :
    (Converter.skip (granted h) count).release.calls.toList = UnitCall.life count := by
  obtain ⟨hhandle, -, hskip⟩ := calls_skip (granted h) count
  show ((Converter.skip (granted h) count).hardware.calls.push _).toList = _
  rw [Array.toList_push, hskip, hhandle]
  simp [granted, Hardware.request, hcalls, UnitCall.life]

end UnitConverter

/-! ## Plans -/

namespace Lifetime

variable {h : Hardware}

theorem Plan.follow_of_error (plan : Plan) {code : Int32} {left : Hardware}
    (hclaim : UnitConverter.claim h = .error (code, left)) :
    plan.follow h = { claimed := .error code, calls := left.calls.toList } := by
  rw [follow, hclaim]

theorem Plan.follow_of_newUnit_failed (plan : Plan) (hcalls : h.calls = #[])
    (hnew : h.newUnitCode ≠ 0) :
    plan.follow h = { claimed := .error h.newUnitCode, calls := [.create] } := by
  rw [plan.follow_of_error (UnitConverter.claim_of_newUnit_failed hnew)]
  simp [Hardware.request, hcalls]

theorem Plan.follow_of_config_failed (plan : Plan) (hcalls : h.calls = #[])
    (hnew : h.newUnitCode = 0) (hconfig : h.configChannelCode ≠ 0) :
    plan.follow h =
      { claimed := .error h.configChannelCode
        calls := [.create, .configure, .deleteUnit .unit] } := by
  rw [plan.follow_of_error (UnitConverter.claim_of_config_failed hnew hconfig)]
  simp [Hardware.request, hcalls]

/-- A watch asks the unit for as many conversions as a run makes. -/
theorem Watch.exists_made (w : Watch) (u : UnitConverter) :
    ∃ made, (w.run u).monitor.converter = Converter.skip u made ∧
      ((w.run u).exit = .wakeSignalled → made = (w.run u).delays + 1) ∧
      ((w.run u).exit = .stopped → made = (w.run u).delays) := by
  obtain ⟨made, h⟩ := (Monitor.run_ends
    { converter := u, intervalMs := w.intervalMs } w.block w.host w.last).exists_tallied
  exact ⟨made, h.converter, fun hexit => (h.woken hexit).1, fun hexit => (h.stopped hexit).1⟩

/-- What a plan comes to on a unit that was claimed, when its watch makes `made` conversions. -/
structure Plan.Lived (plan : Plan) (unit : UnitConverter) (outcome : Outcome) (made : Nat) :
    Prop where
  claimed : outcome.claimed = .ok ()
  readings : outcome.readings.length = plan.reads
  calls : outcome.calls = UnitCall.life (plan.reads + made)
  watched : outcome.report.isSome = plan.watch.isSome
  unwatched : outcome.report = none → made = 0
  converter : ∀ report, outcome.report = some report →
    report.monitor.converter = Converter.skip (Converter.skip unit plan.reads) made
  woken : ∀ report, outcome.report = some report → report.exit = .wakeSignalled →
    made = report.delays + 1
  stopped : ∀ report, outcome.report = some report → report.exit = .stopped →
    made = report.delays

theorem Plan.exists_lived (plan : Plan) (hcalls : h.calls = #[]) (hnew : h.newUnitCode = 0)
    (hconfig : h.configChannelCode = 0) :
    ∃ made, plan.Lived (.granted h) (plan.follow h) made := by
  obtain ⟨hlength, hread⟩ := UnitConverter.readMany_eq plan.reads (.granted h)
  have hclaim := UnitConverter.claim_of_granted hnew hconfig
  obtain ⟨reads, watch⟩ := plan
  cases watch with
  | none =>
    refine ⟨0, ?_⟩
    simp only [follow, hclaim, hread]
    exact
      { claimed := rfl
        readings := hlength
        calls := UnitConverter.calls_release_skip hcalls reads
        watched := rfl
        unwatched := fun _ => rfl
        converter := fun _ hreport => nomatch hreport
        woken := fun _ hreport => nomatch hreport
        stopped := fun _ hreport => nomatch hreport }
  | some watch =>
    obtain ⟨made, hconverter, hwoken, hstopped⟩ :=
      watch.exists_made (Converter.skip (.granted h) reads)
    have hcallsAfter : (watch.run (Converter.skip (.granted h)
        reads)).monitor.converter.release.calls.toList = UnitCall.life (reads + made) := by
      rw [hconverter, Converter.skip_skip]
      exact UnitConverter.calls_release_skip hcalls (reads + made)
    refine ⟨made, ?_⟩
    simp only [follow, hclaim, hread]
    exact
      { claimed := rfl
        readings := hlength
        calls := hcallsAfter
        watched := rfl
        unwatched := fun hreport => nomatch hreport
        converter := fun _ hreport => Option.some.inj hreport ▸ hconverter
        woken := fun _ hreport => Option.some.inj hreport ▸ hwoken
        stopped := fun _ hreport => Option.some.inj hreport ▸ hstopped }

/-- No request of a plan is out of place, and a unit that was created ends up released. -/
theorem Plan.follow_calls (plan : Plan) (hcalls : h.calls = #[]) :
    UnitStage.absent.follow h (plan.follow h).calls =
      some (if h.newUnitCode = 0 then .released else .absent) := by
  by_cases hnew : h.newUnitCode = 0
  · rw [if_pos hnew]
    by_cases hconfig : h.configChannelCode = 0
    · obtain ⟨made, hlived⟩ := plan.exists_lived hcalls hnew hconfig
      rw [hlived.calls]
      exact UnitCall.follow_life hnew hconfig _
    · rw [plan.follow_of_config_failed hcalls hnew hconfig]
      simp [UnitStage.follow, UnitCall.create, UnitCall.configure, hnew, hconfig]
  · rw [if_neg hnew, plan.follow_of_newUnit_failed hcalls hnew]
    simp [UnitStage.follow, UnitCall.create, hnew]

/-- Whatever the hardware answers and whatever a plan does with the unit, the requests are those of
a life or of one that ended early.  A unit that cannot be created is not mentioned again, and one
that cannot be configured is released at once.  The code that is reported is the first that is not
zero.  Otherwise every conversion, whether it fails or not, is one request, and the unit is released
at the end.  This holds of any other use of the unit too, since a run has at no turn done more with
it than ask for conversions.  No request is out of place, and a unit that was created ends up
released. -/
theorem unit_lifecycle (newUnitCode configChannelCode : Int32) (conversions : List RawConversion)
    (plan : Plan) :
    let hardware : Hardware := { newUnitCode, configChannelCode, conversions }
    let outcome := plan.follow hardware
    (newUnitCode ≠ 0 → outcome = { claimed := .error newUnitCode, calls := [.create] }) ∧
      (newUnitCode = 0 → configChannelCode ≠ 0 →
        outcome =
          { claimed := .error configChannelCode
            calls := [.create, .configure, .deleteUnit .unit] }) ∧
      (newUnitCode = 0 → configChannelCode = 0 →
        ∃ unit, UnitConverter.claim hardware = .ok unit ∧ (∃ made, plan.Lived unit outcome made) ∧
          ∀ count, (Converter.skip unit count).release.calls.toList = UnitCall.life count ∧
            ∀ m : Monitor UnitConverter, m.converter = Converter.skip unit count →
              ∀ b host turns, ∃ made,
                ((m.start b).after host turns).monitor.converter =
                  Converter.skip unit (count + made)) ∧
      UnitStage.absent.follow hardware outcome.calls =
        some (if newUnitCode = 0 then .released else .absent) := by
  intro hardware outcome
  refine ⟨fun hnew => plan.follow_of_newUnit_failed rfl hnew,
    fun hnew hconfig => plan.follow_of_config_failed rfl hnew hconfig,
    fun hnew hconfig => ⟨.granted hardware, UnitConverter.claim_of_granted hnew hconfig,
      plan.exists_lived rfl hnew hconfig, fun count => ⟨?_, ?_⟩⟩,
    plan.follow_calls rfl⟩
  · exact UnitConverter.calls_release_skip rfl count
  · intro m hm b host turns
    obtain ⟨made, h⟩ := m.exists_tallied b host turns
    exact ⟨made, by rw [h.converter, hm, Converter.skip_skip]⟩

end Lifetime

end GasWatch
