import Phantora.Netsim.AppGroupLog

/-!
# A group of applications in the simulator

In a run the simulator has what the group has in flight and armed. So what it
tells the group is meant for one of the applications, and the group finishes
with the last of them.
-/

namespace Phantora.Netsim

open Outcome

namespace AppGroup

variable {α T : Type}

def timerKey (timer : OnceTimer) : Option Token × Option TimerId :=
  (timer.token, timer.timerId)

def alarmId (alarm : Alarm) : Option Token × Option TimerId :=
  (some alarm.app, some alarm.timerId)

/-- The timers that some events register. -/
def registrations (events : List Event) : List (Option Token × Option TimerId) :=
  (events.flatMap registration).map (Prod.map id some)

/-- A timer does not fire before the start of its application, and the start itself in time. -/
def Due (group : AppGroup α T) (alarm : Alarm) (alert : Timestamp) : Prop :=
  group.startOf alarm.app ≤ alert ∧
    (alarm.requestor = .adapter → alert = group.startOf alarm.app)

/-- The timers that the events register will be due, even after a rollback: the flows that arrive
do not start before `bound`, or a rollback would take back a completion. -/
structure Sheltered (group : AppGroup α T) (sim : Simulator) (events : List Event)
    (bound : Timestamp) : Prop where
  le : bound ≤ sim.ts
  flows : (∀ record ∈ arrivalsOf events, bound ≤ record.ts) ∨
    ∃ ref ∈ sim.state.retiredFlows, (sim.state.arena ref).endTs = sim.ts
  timers : ∀ after token timerId, .adapterRegisterTimer after token timerId ∈ events →
    ∀ alarm ∈ group.armed, alarm.timerId = timerId →
      group.startOf alarm.app ≤ bound + after ∧ (alarm.requestor = .adapter →
        sim.ts + after = group.startOf alarm.app ∧ arrivalsOf events = [])

/-- The simulator has what the group has in flight and armed. -/
structure Carried (group : AppGroup α T) (playing : Playing (Except Panic (AppGroup α T))) :
    Prop where
  disciplined : Disciplined group.calls
  sound : playing.Sound
  prompt : playing.Prompt
  keyed : playing.sim.state.Keyed playing.injected
  begun : playing.sim.state.Begun playing.sim.ts
  arrives : playing.injected ++ arrivalsOf playing.events =
    (emitted group.calls).map fun flow => marked flow.1 (group.startOf flow.1) flow.2
  timers : (playing.sim.timers.map timerKey ++ registrations playing.events).Perm
    (group.armed.map alarmId)
  due : ∀ timer ∈ playing.sim.timers, ∀ alarm ∈ group.armed,
    timer.timerId = some alarm.timerId → group.Due alarm timer.nextAlert
  proxied : ∀ event ∈ playing.events, IsProxied event
  sheltered : ∃ bound, group.Sheltered playing.sim playing.events bound

/-- What the simulator has reported is delivered, on the clocks of the applications. -/
def Reported (group : AppGroup α T) (playing : Playing (Except Panic (AppGroup α T))) : Prop :=
  (group.calls.flatMap fun call => call.event.event.completions.map
    (marked call.app (group.startOf call.app))).Perm playing.reports

namespace Forwards

variable {group group' : AppGroup α T} {calls : List Call} {events : List Event}

/-- A timer that the events register is one of an application that has been called. -/
theorem exists_call (forwards : Forwards group group' calls events) {after : Duration}
    {token : Option Token} {timerId : TimerId}
    (mem : .adapterRegisterTimer after token timerId ∈ events) {alarm : Alarm}
    (armed : alarm ∈ group'.armed) (own : alarm.timerId = timerId) :
    (∃ call ∈ calls, call.app = alarm.app) ∧ alarm.requestor ≠ .adapter := by
  rcases forwards.passes.alarms with ⟨alarms, split, requestors, registered⟩
  have listed : (token, timerId) ∈ events.flatMap registration :=
    List.mem_flatMap.mpr ⟨_, mem, List.mem_singleton_self _⟩
  rw [registered] at listed
  rcases List.mem_map.mp listed with ⟨new, isNew, same⟩
  have isArmed : new ∈ group'.armed := split ▸ List.mem_append_right _ isNew
  have equal : alarm = new := List.inj_on_of_nodup_map forwards.passes.stored.alone armed isArmed
    (own.trans (congrArg Prod.snd same).symm)
  have among : (alarm.app, alarm.requestor) ∈
      alarms.map fun alarm => (alarm.app, alarm.requestor) := equal ▸ List.mem_map_of_mem isNew
  rw [requestors] at among
  rcases List.mem_flatMap.mp among with ⟨piece, isAnswer, isTimer⟩
  rcases List.mem_map.mp isTimer with ⟨userToken, _, user⟩
  rcases List.mem_flatMap.mp isAnswer with ⟨call, inCalls, inAnswer⟩
  rcases List.mem_map.mp inAnswer with ⟨_, _, rfl⟩
  refine ⟨⟨call, inCalls, congrArg Prod.fst user⟩, fun isStart => ?_⟩
  have requestor : TimerRequestor.userApp userToken = alarm.requestor := congrArg Prod.snd user
  rw [isStart] at requestor
  cases requestor

/-- A flow that arrives does not start before the application that has emitted it. -/
theorem exists_emitter (forwards : Forwards group group' calls events) {record : TraceRecord}
    (mem : record ∈ arrivalsOf events) : ∃ call ∈ calls, group.startOf call.app ≤ record.ts := by
  rw [forwards.passes.arrivals] at mem
  rcases List.mem_flatMap.mp mem with ⟨piece, isAnswer, own⟩
  rcases List.mem_flatMap.mp isAnswer with ⟨call, inCalls, inAnswer⟩
  rcases List.mem_map.mp inAnswer with ⟨_, _, rfl⟩
  rcases List.mem_map.mp own with ⟨_, _, rfl⟩
  exact ⟨call, inCalls, Nat.le_add_left _ _⟩

theorem arrivals_eq (forwards : Forwards group group' calls events) : arrivalsOf events =
    (emitted calls).map fun flow => marked flow.1 (group.startOf flow.1) flow.2 := by
  rw [forwards.passes.arrivals, emitted_eq, List.map_flatMap]
  simp only [List.map_map, Function.comp_def]

theorem registrations_eq (forwards : Forwards group group' calls events) :
    ∃ alarms, group'.armed = group.armed ++ alarms ∧
      registrations events = alarms.map alarmId := by
  rcases forwards.passes.alarms with ⟨alarms, split, _, registered⟩
  refine ⟨alarms, split, ?_⟩
  rw [registrations, registered, List.map_map]
  rfl

end Forwards

section Step

variable {platform : Platform} {members : List (Timestamp × Member α T)}
  {group group' : AppGroup α T} {playing playing' : Playing (Except Panic (AppGroup α T))}

theorem key_marked (app : ℕ) (start : Timestamp) (record : TraceRecord) :
    (marked app start record).key = (record.key.1 + start, record.key.2.1, some app) :=
  rfl

theorem Carried.distinct (carried : group.Carried playing) :
    ((playing.injected ++ arrivalsOf playing.events).map fun record => record.flow.id).Nodup := by
  rw [carried.arrives, List.map_map]
  exact carried.disciplined.distinct

theorem registrations_cons (event : Event) (events : List Event) :
    registrations (event :: events) =
      (registration event).map (Prod.map id some) ++ registrations events := by
  simp only [registrations, List.flatMap_cons, List.map_append]

theorem registrations_of_arrive (recs : List TraceRecord) (events : List Event) :
    registrations (.flowArrive recs :: events) = registrations events :=
  registrations_cons _ _

/-- The simulator registers a timer of the group. -/
theorem Carried.register (carried : group.Carried playing) {after : Duration}
    {token : Option Token} {timerId : TimerId} {events : List Event}
    (pending : playing.events = .adapterRegisterTimer after token timerId :: events)
    (sound : playing'.Sound) (prompt : playing'.Prompt)
    (same : playing' = { playing with
      sim := playing.sim.registerOnce (playing.sim.ts + after) token (some timerId)
      events := events
      injected := playing.injected ++ [] }) : group.Carried playing' := by
  subst same
  rcases carried.sheltered with ⟨bound, sheltered⟩
  have inPending : ∀ event ∈ events, event ∈ playing.events :=
    fun event mem => pending ▸ List.mem_cons_of_mem _ mem
  have arrivals : arrivalsOf playing.events = arrivalsOf events := by
    rw [pending, arrivalsOf_cons]
    rfl
  refine ⟨carried.disciplined, sound, prompt, ?_, carried.begun, ?_, ?_, ?_,
    fun event mem => carried.proxied event (inPending event mem), bound, sheltered.le, ?_, ?_⟩
  · rw [List.append_nil]
    exact carried.keyed
  · rw [List.append_nil, ← arrivals]
    exact carried.arrives
  · have timers := carried.timers
    rw [pending, registrations_cons, ← List.append_assoc] at timers
    simp only [Simulator.registerOnce, List.map_append]
    exact timers
  · intro timer mem alarm armed own
    rcases List.mem_append.mp mem with old | new
    · exact carried.due timer old alarm armed own
    · rw [List.mem_singleton.mp new] at own ⊢
      have isAlarm : alarm.timerId = timerId := (Option.some.inj own).symm
      have registered := sheltered.timers after token timerId
        (pending ▸ List.mem_cons_self ..) alarm armed isAlarm
      have le := sheltered.le
      exact ⟨registered.1.trans (Nat.add_le_add_right le after),
        fun isStart => (registered.2 isStart).1⟩
  · exact arrivals ▸ sheltered.flows
  · intro after token timerId mem alarm armed own
    exact arrivals ▸ sheltered.timers after token timerId (inPending _ mem) alarm armed own

/-- Flows of the group arrive in the simulator. -/
theorem Carried.arrive (carried : group.Carried playing) {recs : List TraceRecord}
    {events : List Event} (pending : playing.events = .flowArrive recs :: events)
    (gentle : ¬playing.TakesBack) {sim : Simulator} {result : OnEventResult}
    (handled : playing.sim.flowArrive recs = .ok (sim, result))
    (sound : playing'.Sound) (prompt : playing'.Prompt)
    (same : playing' = { playing with
      sim := sim
      events := events
      injected := playing.injected ++ recs }) : group.Carried playing' := by
  subst same
  rcases carried.sheltered with ⟨bound, sheltered⟩
  have inPending : ∀ event ∈ events, event ∈ playing.events :=
    fun event mem => pending ▸ List.mem_cons_of_mem _ mem
  have arrivals : arrivalsOf playing.events = recs ++ arrivalsOf events := by
    rw [pending, arrivalsOf_cons]
    rfl
  have distinct : ((playing.injected ++ recs).map fun record => record.flow.id).Nodup := by
    have whole := carried.distinct
    rw [arrivals, ← List.append_assoc, List.map_append] at whole
    exact (List.nodup_append.mp whole).1
  have nonempty : recs ≠ [] := by
    simp only [Simulator.flowArrive, bind_eq_ok, assert_eq_ok] at handled
    exact handled.choose_spec.1
  have takesBack : ¬playing.sim.TakesBack recs := by
    simpa [Playing.TakesBack, pending] using gentle
  rcases Simulator.flowArrive_keyed carried.sound.represented carried.sound.holds distinct
    carried.keyed carried.begun handled with ⟨keyed, begun, timers, moved⟩
  rcases Simulator.flowArrive_arrives carried.sound.represented carried.sound.holds distinct
    handled with ⟨revived, arrives⟩
  have none : revived = [] := not_not.mp (mt arrives.takesBack.mp takesBack)
  have retired : playing.sim.state.retiredFlows = sim.state.retiredFlows := by
    have split := arrives.retired
    rwa [none, List.nil_append] at split
  refine ⟨carried.disciplined, sound, prompt, keyed, begun, ?_, ?_, ?_,
    fun event mem => carried.proxied event (inPending event mem), bound, ?_, ?_, ?_⟩
  · rw [List.append_assoc, ← arrivals]
    exact carried.arrives
  · have before := carried.timers
    rw [pending, registrations_of_arrive] at before
    rw [timers]
    exact before
  · rw [timers]
    exact carried.due
  · rcases moved with stays | ⟨record, mem, back, early⟩
    · exact stays.symm ▸ sheltered.le
    · rcases sheltered.flows with late | ⟨ref, isRetired, now⟩
      · rw [back]
        exact late record (arrivals ▸ List.mem_append_left _ mem)
      · exact absurd ⟨record, mem, ref, isRetired, now.symm ▸ early⟩ takesBack
  · rcases sheltered.flows with late | ⟨ref, isRetired, now⟩
    · exact Or.inl fun record mem => late record (arrivals ▸ List.mem_append_right _ mem)
    · refine Or.inr ⟨ref, retired ▸ isRetired, ?_⟩
      rw [arrives.stays ref (retired ▸ isRetired), now]
      rcases moved with stays | ⟨record, mem, back, early⟩
      · exact stays.symm
      · exact absurd ⟨record, mem, ref, isRetired, now.symm ▸ early⟩ takesBack
  · intro after token timerId mem alarm armed own
    have before := sheltered.timers after token timerId (inPending _ mem) alarm armed own
    refine ⟨before.1, fun isStart => ?_⟩
    have empty := (before.2 isStart).2
    rw [arrivals, List.append_eq_nil_iff] at empty
    exact absurd empty.1 nonempty

/-- The next event is handled by the simulator. -/
theorem Carried.event (carried : group.Carried playing)
    (taken : Playing.Next platform application playing playing') {event : Event}
    {events : List Event} (pending : playing.events = event :: events)
    (gentle : ¬playing.TakesBack) : group.Carried playing' ∧ playing'.app = playing.app ∧
      playing'.told = playing.told ∧ playing'.finished = playing.finished := by
  rcases Playing.next_eq_ok taken.2 with ⟨event', events', sim, result, pending', handled, same⟩ |
    ⟨_, _, none, _, _⟩
  · rw [pending, List.cons.injEq] at pending'
    rcases pending' with ⟨rfl, rfl⟩
    have distinct : playing'.Distinct := by
      have whole := carried.distinct
      rw [pending, arrivalsOf_cons, ← List.append_assoc, List.map_append] at whole
      rw [same]
      exact (List.nodup_append.mp whole).1
    have sound := taken.sound carried.sound distinct
    have prompt := taken.prompt carried.sound distinct gentle carried.prompt
    have here := carried.proxied event (pending ▸ List.mem_cons_self ..)
    cases event with
    | appFinish => cases here
    | userRegisterTimer after token => cases here
    | adapterRegisterTimer after token timerId =>
        simp only [Simulator.onEvent, Except.ok.injEq, Prod.mk.injEq] at handled
        rcases handled with ⟨rfl, rfl⟩
        simp only [reduceCtorEq, decide_false, Bool.or_false] at same
        exact ⟨carried.register pending sound prompt same, by rw [same], by rw [same],
          by rw [same]⟩
    | flowArrive recs =>
        have unfinished : result ≠ .simulationFinished :=
          fun finished => by cases (finished_iff handled).mp finished
        simp only [unfinished, decide_false, Bool.or_false] at same
        exact ⟨carried.arrive pending gentle handled sound prompt same, by rw [same],
          by rw [same], by rw [same]⟩
  · rw [pending] at none
    cases none

/-- A flow that the simulator has not reported is in flight. -/
theorem Carried.inFlight (carried : group.Carried playing) (consistent : group.Consistent members)
    (reported : group.Reported playing) (pending : playing.events = []) {ref : FlowRef}
    (lt : ref < playing.sim.state.nextRef) (active : ref ∉ playing.sim.state.retiredFlows) :
    ∃ flow ∈ group.inFlight, flow.1 < group.apps.length ∧
      (playing.sim.state.arena ref).key = (marked flow.1 (group.startOf flow.1) flow.2).key := by
  have arrives := carried.arrives
  rw [pending] at arrives
  have held : (playing.sim.state.arena ref).key ∈ playing.injected.map TraceRecord.key := by
    rw [← carried.keyed]
    exact List.mem_map_of_mem (List.mem_range.mpr lt)
  rw [← List.append_nil playing.injected] at held
  change _ ∈ (playing.injected ++ arrivalsOf []).map TraceRecord.key at held
  rw [arrives, List.map_map] at held
  rcases List.mem_map.mp held with ⟨flow, isEmitted, key⟩
  rcases List.mem_flatMap.mp isEmitted with ⟨call, inCalls, own⟩
  rcases List.mem_map.mp own with ⟨record, _, rfl⟩
  have inRange := (consistent.clock call inCalls).1
  have accounted := consistent.flows.mem_iff.mpr (List.mem_map_of_mem (f := flightKey) isEmitted)
  rcases List.mem_append.mp accounted with told | flying
  · rcases List.mem_flatMap.mp told with ⟨other, inCalls', completed⟩
    rcases List.mem_map.mp completed with ⟨report, isReport, same⟩
    have known : marked other.app (group.startOf other.app) report ∈ playing.reports :=
      reported.mem_iff.mp (List.mem_flatMap.mpr ⟨other, inCalls', List.mem_map_of_mem isReport⟩)
    rw [carried.prompt] at known
    rcases List.mem_map.mp known with ⟨old, isOld, equal⟩
    have retired := List.mem_reverse.mp isOld
    have ledger := carried.sound.represented.kept.ledger
    have oldId : (playing.sim.state.arena old).flow.id = report.flow.id :=
      congrArg (fun record => record.flow.id) equal
    have recordId : report.flow.id = record.flow.id := congrArg (fun key => key.2.2.1) same
    have ownId : record.flow.id = (playing.sim.state.arena ref).flow.id :=
      congrArg (fun key => key.2.1) key
    have isRef : old = ref := ledger.ids (ledger.retired_lt retired) lt
      (oldId.trans (recordId.trans ownId))
    exact absurd (isRef ▸ retired) active
  · rcases List.mem_map.mp flying with ⟨flow, inFlight, same⟩
    have app : flow.1 = call.app := congrArg Prod.fst same
    have equal : flow.2.key = record.key := congrArg Prod.snd same
    refine ⟨flow, inFlight, app.symm ▸ inRange, key.symm.trans ?_⟩
    simp only [Function.comp_apply, key_marked, app, equal]

/-- A timer of the simulator is armed and not late. -/
theorem Carried.armed (carried : group.Carried playing) (pending : playing.events = [])
    {timer : OnceTimer} (mem : timer ∈ playing.sim.timers) :
    ∃ alarm ∈ group.armed, timerKey timer = alarmId alarm ∧ group.Due alarm timer.nextAlert := by
  have timers := carried.timers
  rw [pending] at timers
  have among := timers.mem_iff.mp (List.mem_append_left _ (List.mem_map_of_mem (f := timerKey) mem))
  rcases List.mem_map.mp among with ⟨alarm, armed, same⟩
  exact ⟨alarm, armed, same.symm, carried.due timer mem alarm armed (congrArg Prod.snd same).symm⟩

/-- A step of the simulator has told the group something that it can deliver. -/
structure Tells (group : AppGroup α T) (before sim : Simulator) (event : AppEvent) : Prop where
  deliverable : group.Deliverable event
  now : event.ts = sim.ts
  timers : (sim.timers.map timerKey).Perm ((group.received event).armed.map alarmId)
  still : ∀ timer ∈ sim.timers, timer ∈ before.timers
  ended : event.event.completions ≠ [] →
    ∃ ref ∈ sim.state.retiredFlows, (sim.state.arena ref).endTs = sim.ts

/-- What a step reports was in flight, and has started. -/
theorem Carried.completed (carried : group.Carried playing)
    (consistent : group.Consistent members) (reported : group.Reported playing)
    (pending : playing.events = []) {sim : Simulator} {event : AppEvent}
    (stepped : playing.sim.runOneStep platform none = .ok (sim, event))
    (represented : sim.Represented) :
    (event.event.completions.map fun record => record.flow.id).Nodup ∧
      (∀ record ∈ event.event.completions, group.IsInFlight record ∧ record.ts ≤ sim.ts) ∧
      (event.event.completions ≠ [] →
        ∃ ref ∈ sim.state.retiredFlows, (sim.state.arena ref).endTs = sim.ts) := by
  rcases Simulator.runOneStep_completes carried.sound.represented stepped with
    ⟨done, completes, report⟩
  have ends := Simulator.runOneStep_ends carried.sound.represented carried.begun stepped
  have ledger := represented.kept.ledger
  have nodup : sim.state.retiredFlows.Nodup := (List.nodup_append.mp ledger.nodup).2.1
  rw [completes.retired, List.nodup_append] at nodup
  have new : ∀ ref ∈ done, ref ∈ sim.state.retiredFlows ∧
      ref ∉ playing.sim.state.retiredFlows := by
    intro ref mem
    have reversed := List.mem_reverse.mpr mem
    exact ⟨completes.retired ▸ List.mem_append_left _ reversed,
      fun old => nodup.2.2 ref reversed ref old rfl⟩
  rw [report]
  refine ⟨?_, ?_, ?_⟩
  · rw [List.map_map]
    refine List.Nodup.map_on ?_ (List.nodup_reverse.mp nodup.1)
    intro left leftMem right rightMem same
    exact ledger.ids (ledger.retired_lt (new left leftMem).1)
      (ledger.retired_lt (new right rightMem).1) same
  · intro record mem
    rcases List.mem_map.mp mem with ⟨ref, isDone, rfl⟩
    rcases new ref isDone with ⟨retired, active⟩
    have lt : ref < playing.sim.state.nextRef :=
      completes.same.nextRef ▸ ledger.retired_lt retired
    rcases carried.inFlight consistent reported pending lt active with ⟨flow, flying, inApps, key⟩
    have same : (sim.completionOf ref).key = (playing.sim.state.arena ref).key :=
      FlowState.key_of_fresh (completes.same.fresh ref)
    exact ⟨⟨flow, flying, inApps, same.trans key⟩, (ends.ends ref retired active).2⟩
  · intro nonempty
    rcases List.exists_mem_of_ne_nil _ nonempty with ⟨record, mem⟩
    rcases List.mem_map.mp mem with ⟨ref, isDone, _⟩
    rcases new ref isDone with ⟨retired, active⟩
    exact ⟨ref, retired, (ends.ends ref retired active).1⟩

/-- What the simulator tells the group is meant for an application. -/
theorem Carried.tells (carried : group.Carried playing)
    (consistent : group.Consistent members) (reported : group.Reported playing)
    (pending : playing.events = []) {sim : Simulator} {event : AppEvent}
    (stepped : playing.sim.runOneStep platform none = .ok (sim, event))
    (represented : sim.Represented) : group.Tells playing.sim sim event := by
  rcases carried.completed consistent reported pending stepped represented with
    ⟨distinct, inFlight, ended⟩
  have timers := carried.timers
  rw [pending] at timers
  replace timers : (playing.sim.timers.map timerKey).Perm (group.armed.map alarmId) :=
    (List.Perm.of_eq (List.append_nil _).symm).trans timers
  simp only [Simulator.runOneStep, bind_eq_ok, pure_eq_ok, Prod.exists, Prod.mk.injEq] at stepped
  rcases stepped with ⟨moved, kind, run, rfl, rfl⟩
  rcases (carried.sound.represented.lossless run).alerts with ⟨same, recs, rfl⟩ |
    ⟨timer, fired, now, rfl⟩
  · exact ⟨.flows distinct inFlight, rfl, same ▸ timers, fun timer mem => same ▸ mem, ended⟩
  · rcases carried.armed pending (fired.mem_iff.mpr (List.mem_cons_self ..)) with
      ⟨alarm, armed, key, due⟩
    have told : Simulator.notification timer =
        .adapterNotification (some alarm.app) alarm.timerId := by
      have token : timer.token = some alarm.app := congrArg Prod.fst key
      have timerId : timer.timerId = some alarm.timerId := congrArg Prod.snd key
      simp only [Simulator.notification, timerId, token]
    rw [now] at due
    rw [told] at ended ⊢
    refine ⟨.timer armed (consistent.alarm_lt armed) due.1 due.2, rfl, ?_, ?_, ended⟩
    · have left := ((fired.map timerKey).symm.trans timers).trans
        ((armed_perm consistent.stored armed).map alarmId).symm
      rw [List.map_cons, List.map_cons, key] at left
      exact left.cons_inv
    · exact fun other mem => fired.mem_iff.mpr (List.mem_cons_of_mem _ mem)

theorem received_startOf (group : AppGroup α T) (event : AppEvent) :
    (group.received event).startOf = group.startOf := by
  funext app
  rw [startOf, startOf, (received_frame group event).1]

theorem received_armed (group : AppGroup α T) (event : AppEvent) :
    (group.received event).armed.Sublist group.armed := by
  unfold received
  split
  · exact .refl _
  · exact List.filter_sublist ..
  · exact .refl _

/-- What the applications answer to an event is sheltered. -/
theorem Tells.sheltered {before sim : Simulator} {event : AppEvent} {events : List Event}
    (tells : group.Tells before sim event) (consistent : group.Consistent members)
    (forwards : Forwards (group.received event) group' (group.callsFor event) events) :
    ∃ bound, group'.Sheltered sim events bound := by
  have start : group'.startOf = group.startOf :=
    forwards.startOf_eq.trans (received_startOf group event)
  have started : ∀ call ∈ group.callsFor event, group.startOf call.app ≤ sim.ts := by
    intro call mem
    rcases exists_of_mem_callsFor mem with ⟨app, member, kind, _, _, rfl⟩
    have clock := (consistent.mem_callsFor tells.deliverable mem).2.1
    rw [← tells.now]
    exact (Nat.le_add_left _ _).trans clock.ge
  by_cases silent : event.event.completions = []
  · cases tells.deliverable with
    | @flows ts recs distinct inFlight =>
        have none : ∀ call, call ∉ group.callsFor ⟨ts, .flowComplete recs⟩ := by
          intro call mem
          rcases exists_of_mem_callsFor mem with ⟨app, member, kind, _, heard, rfl⟩
          have empty : recs = [] := silent
          subst empty
          cases heard
        refine ⟨0, Nat.zero_le _, Or.inl fun _ _ => Nat.zero_le _, ?_⟩
        intro after token timerId mem alarm armed own
        rcases (forwards.exists_call mem armed own).1 with ⟨call, inCalls, _⟩
        exact absurd inCalls (none call)
    | @timer ts alarm mem inApps due punctual =>
        have owner : ∀ call ∈ group.callsFor
            ⟨ts, .adapterNotification (some alarm.app) alarm.timerId⟩, call.app = alarm.app := by
          rcases exists_app inApps with ⟨member, at_app⟩
          rw [callsFor_timer consistent.stored mem at_app]
          intro call isCall
          rw [List.mem_singleton.mp isCall]
          rfl
        refine ⟨group.startOf alarm.app, due.trans tells.now.le, Or.inl ?_, ?_⟩
        · intro record isArrival
          rcases forwards.exists_emitter isArrival with ⟨call, inCalls, le⟩
          rw [received_startOf, owner call inCalls] at le
          exact le
        · intro after token timerId isEvent other armed own
          rcases forwards.exists_call isEvent armed own with ⟨⟨call, inCalls, same⟩, user⟩
          rw [start, ← same, owner call inCalls]
          exact ⟨Nat.le_add_right _ _, fun isStart => absurd isStart user⟩
  · refine ⟨sim.ts, Nat.le_refl _, Or.inr (tells.ended silent), ?_⟩
    intro after token timerId mem alarm armed own
    rcases forwards.exists_call mem armed own with ⟨⟨call, inCalls, same⟩, user⟩
    rw [start, ← same]
    exact ⟨(started call inCalls).trans (Nat.le_add_right _ _), fun isStart => absurd isStart user⟩

/-- The simulator has what the applications have answered. -/
theorem Carried.answered (carried : group.Carried playing) (consistent : group.Consistent members)
    (pending : playing.events = []) {event : AppEvent} {events : List Event}
    (tells : group.Tells playing.sim playing'.sim event)
    (disciplined : Disciplined (group.calls ++ group.callsFor event))
    (forwards : Forwards (group.received event) group' (group.callsFor event) events)
    (sound : playing'.Sound) (prompt : playing'.Prompt)
    (keyed : playing'.sim.state.Keyed playing.injected)
    (begun : playing'.sim.state.Begun playing'.sim.ts)
    (injected : playing'.injected = playing.injected) (isEvents : playing'.events = events) :
    group'.Carried playing' := by
  rcases received_frame group event with ⟨apps, calls, output⟩
  have start : group'.startOf = group.startOf :=
    forwards.startOf_eq.trans (received_startOf group event)
  have made : group'.calls = group.calls ++ group.callsFor event := by
    rw [forwards.calls, calls]
  rcases forwards.registrations_eq with ⟨alarms, armed, registered⟩
  have timers : (playing'.sim.timers.map timerKey ++ registrations playing'.events).Perm
      (group'.armed.map alarmId) := by
    rw [isEvents, registered, armed, List.map_append]
    exact tells.timers.append_right _
  refine ⟨made ▸ disciplined, sound, prompt, injected ▸ keyed, begun, ?_, timers, ?_, ?_, ?_⟩
  · have arrives := carried.arrives
    rw [pending] at arrives
    rw [injected, isEvents, forwards.arrivals_eq, made, emitted_append, List.map_append, start,
      received_startOf, ← arrives]
    congr 1
    exact (List.append_nil _).symm
  · intro timer mem alarm isArmed own
    have key := tells.timers.mem_iff.mp (List.mem_map_of_mem mem)
    rcases List.mem_map.mp key with ⟨before, old, same⟩
    have timerId : before.timerId = alarm.timerId := by
      have equal : some before.timerId = timer.timerId := congrArg Prod.snd same
      exact Option.some.inj (equal.trans own)
    have isBefore : before = alarm := List.inj_on_of_nodup_map forwards.passes.stored.alone
      (armed ▸ List.mem_append_left _ old) isArmed timerId
    have due := carried.due timer (tells.still timer mem) alarm
      (isBefore ▸ (received_armed group event).subset old) own
    rw [Due, start]
    exact due
  · rw [isEvents]
    exact forwards.passes.proxied
  · rw [isEvents]
    exact tells.sheltered consistent forwards

/-- Some events have been passed to the simulator. -/
def gave (group : AppGroup α T) (events : List Event) : AppGroup α T :=
  { group with passed := group.passed ++ events }

theorem Stored.gave (stored : group.Stored) (events : List Event) : (group.gave events).Stored :=
  ⟨stored.1, stored.2, stored.3, stored.4, stored.5, stored.6⟩

theorem Consistent.gave (consistent : group.Consistent members) (events : List Event) :
    (group.gave events).Consistent members where
  starts := consistent.starts
  logged := consistent.logged
  stored := consistent.stored.gave events
  clock := consistent.clock
  flows := consistent.flows
  alarms := consistent.alarms
  opened := consistent.opened
  atZero := consistent.atZero
  output := consistent.output

theorem Carried.gave (carried : group.Carried playing) (events : List Event) :
    (group.gave events).Carried playing where
  disciplined := carried.disciplined
  sound := carried.sound
  prompt := carried.prompt
  keyed := carried.keyed
  begun := carried.begun
  arrives := carried.arrives
  timers := carried.timers
  due := carried.due
  proxied := carried.proxied
  sheltered := by
    rcases carried.sheltered with ⟨bound, sheltered⟩
    exact ⟨bound, sheltered.le, sheltered.flows, sheltered.timers⟩

/-- The group and the simulator between two iterations of the loop. -/
structure Proxies (members : List (Timestamp × Member α T))
    (playing : Playing (Except Panic (AppGroup α T))) (group : AppGroup α T) : Prop where
  consistent : group.Consistent members
  disciplined : Disciplined group.calls
  running : playing.app = .ok group
  reported : group.Reported playing
  times : ∀ call ∈ group.calls, call.now ∈ playing.told.map AppEvent.ts
  passed : group.passed.count .appFinish =
    if group.output.length = group.apps.length then 1 else 0
  continues : group.output.length ≠ group.apps.length →
    group.Carried playing ∧ playing.finished = false
  ended : group.output.length = group.apps.length →
    playing.events = [.appFinish] ∨ (playing.events = [] ∧ playing.finished = true)

theorem onEvent_eq {event : AppEvent} {events : List Event}
    (unfinished : group.output.length ≠ group.apps.length)
    (handled : group.handleEvent event = .ok (group', events)) :
    application.onEvent (.ok group) event =
      if group'.output.length = group'.apps.length then
        (.ok (group'.gave [.appFinish]), [.appFinish])
      else (.ok (group'.gave events), events) := by
  by_cases finished : group'.output.length = group'.apps.length
  · simp only [application, Except.bind, onEvent, if_neg unfinished, handled, ok_bind,
      if_pos finished]
    rfl
  · simp only [application, Except.bind, onEvent, if_neg unfinished, handled, ok_bind,
      if_neg finished]
    rfl

theorem count_finish_of_proxied {events : List Event}
    (proxied : ∀ event ∈ events, IsProxied event) : events.count .appFinish = 0 :=
  List.count_eq_zero.mpr fun mem => proxied _ mem

/-- The simulator takes no completion back in the next iteration, and what it is about to tell
finds the applications disciplined. -/
def DisciplinedStep (platform : Platform) (playing : Playing (Except Panic (AppGroup α T))) :
    Prop :=
  ¬playing.TakesBack ∧ ∀ event ∈ playing.nextEvent platform, ∀ group ∈ playing.app.toOption,
    Disciplined (group.calls ++ group.callsFor event)

/-- The group is told an event of the simulator, and passes on what its applications answer. -/
theorem Proxies.told (proxies : Proxies members playing group)
    (unfinished : group.output.length ≠ group.apps.length) (pending : playing.events = [])
    {sim : Simulator} {event : AppEvent}
    (stepped : playing.sim.runOneStep platform none = .ok (sim, event))
    (taken : Playing.Next platform application playing playing')
    (disciplined : Disciplined (group.calls ++ group.callsFor event))
    (same : playing' = { playing with
      app := (application.onEvent playing.app event).1
      sim := sim
      events := (application.onEvent playing.app event).2
      told := playing.told ++ [event] }) :
    ∃ group', Proxies members playing' group' := by
  rcases proxies.continues unfinished with ⟨carried, continues⟩
  have consistent := proxies.consistent
  have injected : playing'.injected = playing.injected := by rw [same]
  have distinct : playing'.Distinct := by
    have whole := carried.distinct
    rw [List.map_append] at whole
    rw [Playing.Distinct, injected]
    exact (List.nodup_append.mp whole).1
  have gentle : ¬playing.TakesBack := by simp [Playing.TakesBack, pending]
  have sound := taken.sound carried.sound distinct
  have prompt := taken.prompt carried.sound distinct gentle carried.prompt
  have isSim : playing'.sim = sim := by rw [same]
  have tells := carried.tells consistent proxies.reported pending stepped
    (isSim ▸ sound.represented)
  rcases handleEvent_forwards consistent.stored tells.deliverable
    (fun call mem => disciplined.allowed call (List.mem_append_right _ mem))
    (consistent.fresh disciplined) with ⟨group', events, handled, forwards⟩
  have consistent' := consistent.forward tells.deliverable forwards
  rcases received_frame group event with ⟨apps, calls, output⟩
  have start : group'.startOf = group.startOf :=
    forwards.startOf_eq.trans (received_startOf group event)
  have made : group'.calls = group.calls ++ group.callsFor event := by
    rw [forwards.calls, calls]
  have answer := onEvent_eq unfinished handled
  rw [← proxies.running] at answer
  have reports : playing'.reports = playing.reports ++ event.event.completions := by
    rw [same]
    simp [Playing.reports]
  have reported : (group'.calls.flatMap fun call => call.event.event.completions.map
      (marked call.app (group'.startOf call.app))).Perm playing'.reports := by
    rw [made, start, List.flatMap_append, reports]
    exact proxies.reported.append (consistent.reports_callsFor tells.deliverable)
  have times : ∀ call ∈ group'.calls, call.now ∈ playing'.told.map AppEvent.ts := by
    have told : playing'.told = playing.told ++ [event] := by rw [same]
    intro call mem
    rw [made] at mem
    rw [told, List.map_append]
    rcases List.mem_append.mp mem with before | new
    · exact List.mem_append_left _ (proxies.times call before)
    · rcases exists_of_mem_callsFor new with ⟨app, member, kind, _, _, rfl⟩
      exact List.mem_append_right _ (List.mem_singleton_self _)
  have unpassed : group'.passed.count .appFinish = 0 := by
    rw [forwards.passed, received_passed, proxies.passed, if_neg unfinished]
  have isAnswer : playing'.app = (application.onEvent playing.app event).1 ∧
      playing'.events = (application.onEvent playing.app event).2 ∧
      playing'.finished = playing.finished := by
    rw [same]
    exact ⟨rfl, rfl, rfl⟩
  rw [answer] at isAnswer
  by_cases finished : group'.output.length = group'.apps.length
  · rw [if_pos finished] at isAnswer
    refine ⟨group'.gave [.appFinish], consistent'.gave _, made ▸ disciplined, isAnswer.1, reported,
      times, ?_, fun goesOn => absurd finished goesOn, fun _ => Or.inl isAnswer.2.1⟩
    rw [gave, List.count_append, unpassed]
    exact (if_pos finished).symm
  · rw [if_neg finished] at isAnswer
    have completes := Simulator.runOneStep_completes carried.sound.represented stepped
    have ends := Simulator.runOneStep_ends carried.sound.represented carried.begun stepped
    rcases completes with ⟨done, completes, _⟩
    have carried' := carried.answered consistent pending (isSim.symm ▸ tells) disciplined forwards
      sound prompt (isSim.symm ▸ carried.keyed.congr completes.same) (isSim.symm ▸ ends.begun)
      injected isAnswer.2.1
    refine ⟨group'.gave events, consistent'.gave _, made ▸ disciplined, isAnswer.1, reported,
      times, ?_, fun _ => ⟨carried'.gave _, isAnswer.2.2.trans continues⟩,
      fun ended => absurd ended finished⟩
    rw [gave, List.count_append, unpassed, count_finish_of_proxied forwards.passes.proxied]
    exact (if_neg finished).symm

/-- An iteration of the loop whose event finds the applications disciplined. -/
theorem Proxies.next (proxies : Proxies members playing group)
    (taken : Playing.Next platform application playing playing')
    (disciplined : DisciplinedStep platform playing) :
    ∃ group', Proxies members playing' group' := by
  by_cases finished : group.output.length = group.apps.length
  · rcases proxies.ended finished with last | ⟨none, isFinished⟩
    · rcases Playing.next_eq_ok taken.2 with ⟨event, events, sim, result, pending, handled, rfl⟩ |
        ⟨_, _, none, _, _⟩
      · rw [last, List.cons.injEq] at pending
        rcases pending with ⟨rfl, rfl⟩
        simp only [Simulator.onEvent, Except.ok.injEq, Prod.mk.injEq] at handled
        rcases handled with ⟨rfl, rfl⟩
        exact ⟨group, proxies.consistent, proxies.disciplined, proxies.running, proxies.reported,
          proxies.times, proxies.passed, fun goesOn => absurd finished goesOn,
          fun _ => Or.inr ⟨rfl, by simp⟩⟩
      · rw [last] at none
        cases none
    · have goesOn := taken.1
      simp [Playing.isOver, none, isFinished] at goesOn
  · rcases pending : playing.events with _ | ⟨event, events⟩
    · rcases Playing.next_eq_ok taken.2 with ⟨_, _, _, _, some_event, _, _⟩ |
        ⟨sim, event, _, stepped, same⟩
      · rw [pending] at some_event
        cases some_event
      · exact proxies.told finished pending stepped taken (disciplined.2 event
          (Playing.nextEvent_eq pending stepped) group (by rw [proxies.running]; rfl)) same
    · rcases proxies.continues finished with ⟨carried, continues⟩
      rcases carried.event taken pending disciplined.1 with ⟨carried', app, told, isFinished⟩
      have reports : playing'.reports = playing.reports := by
        rw [Playing.reports, told]
        rfl
      refine ⟨group, proxies.consistent, proxies.disciplined, app.trans proxies.running, ?_,
        told ▸ proxies.times, proxies.passed, fun _ => ⟨carried', isFinished.trans continues⟩,
        fun ended => absurd ended finished⟩
      rw [Reported, reports]
      exact proxies.reported

theorem disciplined_nil : Disciplined [] where
  allowed _ mem := absurd mem List.not_mem_nil
  distinct := List.nodup_nil
  finishesOnce := List.nodup_nil

theorem startEvents_proxied (group : AppGroup α T) :
    ∀ event ∈ group.armed.map group.startEvent, IsProxied event := by
  intro event mem
  rcases List.mem_map.mp mem with ⟨alarm, _, rfl⟩
  trivial

/-- The starts of the applications are registered, and nothing else has happened. -/
theorem Started.carried {sim : Simulator} {playing : Playing (Except Panic (AppGroup α T))}
    (started : Started members group (List.range members.length))
    (initial : Simulator.Initial sim) (sound : playing.Sound) (prompt : playing.Prompt)
    (isSim : playing.sim = sim) (injected : playing.injected = [])
    (isEvents : playing.events = group.armed.map group.startEvent) : group.Carried playing := by
  have arrivals : arrivalsOf (group.armed.map group.startEvent) = [] := by
    refine List.flatMap_eq_nil_iff.mpr fun event mem => ?_
    rcases List.mem_map.mp mem with ⟨alarm, _, rfl⟩
    rfl
  rcases initial with ⟨cluster, setting, hostMapping, rfl⟩
  refine ⟨started.calls ▸ disciplined_nil, sound, prompt, ?_, ?_, ?_, ?_, ?_, ?_, 0,
    Nat.zero_le _, ?_, ?_⟩
  · rw [isSim, injected]
    rfl
  · rw [isSim]
    intro ref mem
    cases mem
  · rw [injected, isEvents, arrivals, started.calls]
    rfl
  · rw [isSim, isEvents, registrations, List.flatMap_map, List.map_flatMap]
    refine .of_eq ?_
    simp only [Simulator.build, startEvent, registration, List.map_nil, List.nil_append,
      List.map_cons, Prod.map_apply, id_eq]
    exact List.map_eq_flatMap.symm
  · rw [isSim]
    intro timer mem
    cases mem
  · exact isEvents ▸ startEvents_proxied group
  · exact Or.inl fun _ _ => Nat.zero_le _
  · rw [isEvents, isSim]
    intro after token timerId mem alarm armed own
    rcases List.mem_map.mp mem with ⟨registered, isArmed, same⟩
    simp only [startEvent, Event.adapterRegisterTimer.injEq] at same
    rcases same with ⟨rfl, rfl, same⟩
    have equal : alarm = registered :=
      List.inj_on_of_nodup_map started.stored.alone armed isArmed (own.trans same.symm)
    rw [equal]
    exact ⟨Nat.le_add_left _ _, fun _ => ⟨Nat.zero_add _, arrivals⟩⟩

theorem proxies_start {sim : Simulator} (members : List (Timestamp × Member α T))
    (firstTimerId : TimerId) (initial : Simulator.Initial sim) :
    ∃ group, Proxies members (.start application (.ok (new members firstTimerId)) sim) group := by
  have now : sim.ts = 0 := by
    rcases initial with ⟨_, _, _, rfl⟩
    rfl
  by_cases empty : members = []
  · subst empty
    have none : Started ([] : List (Timestamp × Member α T)) (new [] firstTimerId) [] :=
      ⟨rfl, rfl, rfl, rfl, rfl, stored_new [] firstTimerId, rfl⟩
    refine ⟨(new [] firstTimerId).gave [.appFinish], none.consistent.gave _, disciplined_nil, ?_,
      .refl _, ?_, rfl, fun goesOn => absurd rfl goesOn, fun _ => Or.inl ?_⟩
    · rfl
    · intro call mem
      cases mem
    · rfl
  · rcases registerStarts_eq members firstTimerId with ⟨group, handled, started⟩
    have unfinished : ∀ group : AppGroup α T, group.apps = members → group.output = [] →
        group.output.length ≠ group.apps.length := by
      intro group apps output
      rw [apps, output]
      exact fun none => empty (List.length_eq_zero_iff.mp none.symm)
    have answer := onEvent_eq (unfinished _ rfl rfl) handled
    have goesOn := unfinished group started.apps started.output
    rw [if_neg goesOn, ← now] at answer
    have sound : (Playing.start application (.ok (new members firstTimerId)) sim).Sound :=
      Playing.sound_start initial
    have prompt : (Playing.start application (.ok (new members firstTimerId)) sim).Prompt := by
      rcases initial with ⟨_, _, _, rfl⟩
      rfl
    have carried := started.carried initial sound prompt rfl rfl (congrArg Prod.snd answer)
    refine ⟨group.gave (group.armed.map group.startEvent), started.consistent.gave _,
      carried.disciplined, congrArg Prod.fst answer, ?_, ?_, ?_,
      fun _ => ⟨carried.gave _, rfl⟩, fun ended => absurd ended goesOn⟩
    · have none : (group.gave (group.armed.map group.startEvent)).calls = [] := started.calls
      rw [Reported, none]
      exact .refl _
    · intro call mem
      have inCalls : call ∈ group.calls := mem
      rw [started.calls] at inCalls
      cases inCalls
    · rw [gave, started.passed, List.nil_append,
        count_finish_of_proxied (startEvents_proxied group)]
      exact (if_neg goesOn).symm

/-- Distinct numbers below a bound are as many as the bound when they are all of them. -/
theorem length_eq_iff {apps : List ℕ} {bound : ℕ} (nodup : apps.Nodup)
    (lt : ∀ app ∈ apps, app < bound) : apps.length = bound ↔ ∀ app < bound, app ∈ apps := by
  have sub : apps.Subperm (List.range bound) :=
    nodup.subperm fun app mem => List.mem_range.mpr (lt app mem)
  constructor
  · intro length app below
    have perm := sub.perm_of_length_le (by rw [List.length_range, length])
    exact perm.mem_iff.mpr (List.mem_range.mpr below)
  · intro all
    have range : (List.range bound).Nodup := List.nodup_range
    have whole := range.subperm fun app mem => all app (List.mem_range.mp mem)
    refine Nat.le_antisymm (sub.length_le.trans_eq List.length_range) ?_
    exact List.length_range.ge.trans whole.length_le

/-- The group has finished when each of its applications has. -/
theorem Proxies.finished_iff (proxies : Proxies members playing group) :
    group.output.length = group.apps.length ↔
      ∀ app < members.length, app ∈ finishes group.calls := by
  have consistent := proxies.consistent
  have length : group.apps.length = members.length := by
    simpa using congrArg List.length consistent.starts
  have outputs : group.output.length = (finishes group.calls).length := by
    rw [← consistent.output, List.length_map]
  rw [outputs, length]
  refine length_eq_iff proxies.disciplined.finishesOnce fun app mem => ?_
  rcases List.mem_flatMap.mp mem with ⟨piece, isAnswer, isFinish⟩
  rcases List.mem_flatMap.mp isAnswer with ⟨call, inCalls, own⟩
  rcases List.mem_map.mp own with ⟨event, _, rfl⟩
  split at isFinish
  · rw [List.mem_singleton.mp isFinish]
    exact length ▸ (consistent.clock call inCalls).1
  · cases isFinish

/-- Every application works as if it were alone with the simulator, on a clock of its own. -/
structure Transparent (members : List (Timestamp × Member α T))
    (playing : Playing (Except Panic (AppGroup α T))) (group : AppGroup α T) : Prop where
  /-- The group has not failed. -/
  running : playing.app = .ok group
  starts : group.apps.map Prod.fst = members.map Prod.fst
  /-- What the applications answer is what they answer to what they are told. -/
  logged : Logged (members.map Prod.snd) (group.apps.map Prod.snd) group.calls
  /-- Each call is made when the simulator tells an event, on the clock of the application. -/
  clock : ∀ call ∈ group.calls, call.app < members.length ∧
    call.now ∈ playing.told.map AppEvent.ts ∧
    call.now = call.event.ts + group.startOf call.app
  startsFirst : ∀ app, ∀ call ∈ (callsOf group.calls app).head?, call.event = ⟨0, .appStart⟩
  startsOnce : ∀ app, ((callsOf group.calls app).countP fun call =>
    call.event.event = .appStart) = if callsOf group.calls app = [] then 0 else 1
  /-- Each report of the simulator goes to one application, on its clock. -/
  reported : group.Reported playing
  /-- Each flow of an application is in flight or has been reported to the application, once, with
  its own token and start. -/
  flows : (delivered group.calls ++ group.inFlight.map flightKey).Perm
    ((emitted group.calls).map flightKey)
  flowsOnce : ((emitted group.calls).map flightKey).Nodup
  /-- Each timer of an application, and its start, is armed or has been told to the application. -/
  timers : (heardAlarms group.calls ++ group.armed.map alarmKey).Perm
    ((List.range members.length).map (fun app => (app, .adapter)) ++ setAlarms group.calls)
  /-- The simulator has what is in flight and what is armed, as long as the group goes on. -/
  outstanding : (∃ app < members.length, app ∉ finishes group.calls) →
    playing.injected ++ arrivalsOf playing.events =
      (emitted group.calls).map (fun flow => marked flow.1 (group.startOf flow.1) flow.2) ∧
    (playing.sim.timers.map timerKey ++ registrations playing.events).Perm
      (group.armed.map alarmId)
  /-- The group finishes with the last of its applications. -/
  finish : group.passed.count .appFinish =
    if ∀ app < members.length, app ∈ finishes group.calls then 1 else 0
  ends : playing.finished = true ∨ .appFinish ∈ playing.events ↔
    ∀ app < members.length, app ∈ finishes group.calls

theorem Proxies.transparent (proxies : Proxies members playing group) :
    Transparent members playing group := by
  have consistent := proxies.consistent
  have length : group.apps.length = members.length := by
    simpa using congrArg List.length consistent.starts
  refine ⟨proxies.running, consistent.starts, consistent.logged, ?_, ?_, consistent.startsOnce,
    proxies.reported, consistent.flows, ?_, length ▸ consistent.alarms, ?_, ?_, ?_⟩
  · intro call mem
    rcases consistent.clock call mem with ⟨inRange, clock⟩
    exact ⟨length ▸ inRange, proxies.times call mem, clock⟩
  · intro app call mem
    have kind := consistent.opened app call mem
    have inCalls := (mem_callsOf.mp (List.mem_of_mem_head? mem)).1
    have ts := consistent.atZero call inCalls kind
    rcases call with ⟨_, _, ⟨_, _⟩, _⟩
    simp only at kind ts
    rw [kind, ts]
  · refine List.Nodup.of_map (fun key => key.2.2.1) ?_
    rw [List.map_map]
    exact proxies.disciplined.distinct
  · rintro ⟨app, below, absent⟩
    have unfinished : group.output.length ≠ group.apps.length :=
      fun finished => absent (proxies.finished_iff.mp finished app below)
    have carried := (proxies.continues unfinished).1
    exact ⟨carried.arrives, carried.timers⟩
  · rw [proxies.passed]
    simp only [proxies.finished_iff]
  · rw [← proxies.finished_iff]
    constructor
    · intro isEnd
      refine not_not.mp fun unfinished => ?_
      rcases proxies.continues unfinished with ⟨carried, continues⟩
      rcases isEnd with finished | pending
      · rw [continues] at finished
        cases finished
      · exact carried.proxied _ pending
    · intro finished
      rcases proxies.ended finished with last | ⟨_, isFinished⟩
      · exact Or.inr (last ▸ List.mem_singleton_self _)
      · exact Or.inl isFinished

/-- As long as the simulator takes nothing back and the applications are disciplined, the group is
transparent to them. -/
theorem transparent_of_reached (platform : Platform) (members : List (Timestamp × Member α T))
    (firstTimerId : TimerId) (sim : Simulator) (initial : Simulator.Initial sim)
    (reached : Relation.ReflTransGen (fun playing playing' =>
      Playing.Next platform application playing playing' ∧ DisciplinedStep platform playing)
      (.start application (.ok (new members firstTimerId)) sim) playing) :
    ∃ group, Transparent members playing group := by
  have invariant : ∃ group, Proxies members playing group := by
    induction reached with
    | refl => exact proxies_start members firstTimerId initial
    | tail _ taken ih =>
        rcases ih with ⟨group, proxies⟩
        exact proxies.next taken.1 taken.2
  rcases invariant with ⟨group, proxies⟩
  exact ⟨group, proxies.transparent⟩

end Step

instance (sim : Simulator) (recs : List TraceRecord) : Decidable (sim.TakesBack recs) :=
  inferInstanceAs (Decidable (∃ record ∈ recs, ∃ ref ∈ sim.state.retiredFlows,
    record.ts < (sim.state.arena ref).endTs / 1000 * 1000))

theorem takesBack_iff (playing : Playing α) : playing.TakesBack ↔
    ∃ event ∈ playing.events.head?, playing.sim.TakesBack
      (Simulator.Input.onEvent event).records := by
  rcases pending : playing.events with _ | ⟨event, events⟩
  · simp [Playing.TakesBack, pending]
  · cases event <;>
      simp [Playing.TakesBack, pending, Simulator.Input.records, Simulator.TakesBack]

instance (playing : Playing α) : Decidable playing.TakesBack :=
  decidable_of_iff' _ (takesBack_iff playing)

instance (platform : Platform) (playing : Playing (Except Panic (AppGroup α T))) :
    Decidable (DisciplinedStep platform playing) :=
  inferInstanceAs (Decidable (_ ∧ _))

/-- An application that sends one flow and finishes with it. -/
def transfers (id : ℕ) : Member Unit Unit where
  app.onEvent _ event :=
    match event.event with
    | .appStart => ((), [.flowArrive [Playing.transfer id 2000]])
    | .flowComplete _ => ((), [.appFinish])
    | _ => ((), [])
  state := ()
  answer _ := ()

/-- An application that waits for a timer and finishes when it fires, and maybe before. -/
def timed (after : Duration) (early : List Event) : Member Unit Unit where
  app.onEvent _ event :=
    match event.event with
    | .appStart => ((), .userRegisterTimer after none :: early)
    | .userNotification _ => ((), [.appFinish])
    | _ => ((), [])
  state := ()
  answer _ := ()

/-- Two applications send flows while a third one waits, each from a start of its own. -/
theorem transparent_of_reached_timed : ∃ playing group,
    playing.told.map AppEvent.ts = [0, 0, 100, 105, 500, 3500, 4000] ∧
    group.calls.map (fun call => (call.app, call.event.ts)) =
      [(0, 0), (2, 0), (2, 5), (1, 0), (0, 3500), (1, 3500)] ∧ playing.isOver = true ∧
    Transparent [(0, transfers 0), (500, transfers 1), (100, timed 5 [])] playing group := by
  have read : (Playing.steps (DisciplinedStep (.inOrder 20)) (.inOrder 20) application 40
      (.start application (.ok (new [(0, transfers 0), (500, transfers 1), (100, timed 5 [])] 0))
        (Simulator.build .pair {} none))).toOption.map (fun playing =>
          (playing.told.map AppEvent.ts, playing.app.toOption.map (fun group =>
            group.calls.map fun call => (call.app, call.event.ts)), playing.isOver)) =
      some ([0, 0, 100, 105, 500, 3500, 4000],
        some [(0, 0), (2, 0), (2, 5), (1, 0), (0, 3500), (1, 3500)], true) := by
    decide +kernel
  rcases exists_ok_of_reading read with ⟨playing, run, reading⟩
  simp only [Prod.mk.injEq] at reading
  rcases transparent_of_reached (.inOrder 20)
    [(0, transfers 0), (500, transfers 1), (100, timed 5 [])] 0 (Simulator.build .pair {} none)
    ⟨_, _, _, rfl⟩ (Playing.reached_of_steps run) with ⟨group, transparent⟩
  refine ⟨playing, group, reading.1, ?_, reading.2.2, transparent⟩
  have calls := reading.2.1
  rw [transparent.running] at calls
  exact Option.some.inj calls

/-- The first application answers `AppFinish` when it starts and again when its timer fires: the
group finishes, and the second application never does. -/
theorem not_transparent_timed : ¬∀ (members : List (Timestamp × Member Unit Unit))
    (playing : Playing (Except Panic (AppGroup Unit Unit))),
    Relation.ReflTransGen (fun playing playing' =>
      Playing.Next (.inOrder 20) application playing playing' ∧ ¬playing.TakesBack)
      (.start application (.ok (new members 0)) (Simulator.build .pair {} none)) playing →
    ∃ group, Transparent members playing group := by
  intro claimed
  have read : (Playing.steps (fun playing => ¬playing.TakesBack) (.inOrder 20) application 20
      (.start application (.ok (new [(0, timed 1 [.appFinish]), (0, timed 5 [])] 0))
        (Simulator.build .pair {} none))).toOption.map (fun playing =>
          (playing.told.map AppEvent.ts, playing.app.toOption.map fun group =>
            (group.passed.count .appFinish, finishes group.calls))) =
      some ([0, 0, 0, 1], some (1, [0, 0])) := by
    decide +kernel
  rcases exists_ok_of_reading read with ⟨playing, run, reading⟩
  simp only [Prod.mk.injEq] at reading
  rcases claimed [(0, timed 1 [.appFinish]), (0, timed 5 [])] playing
    (Playing.reached_of_steps run) with ⟨group, transparent⟩
  have finished := reading.2
  rw [transparent.running] at finished
  simp only [Except.toOption, Option.map_some, Option.some.injEq, Prod.mk.injEq] at finished
  have finish := transparent.finish
  rw [finished.1, finished.2] at finish
  exact absurd finish (by decide)

end AppGroup

end Phantora.Netsim
