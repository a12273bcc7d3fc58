import Phantora.Netsim.Keys

/-!
# Applications side by side

`AppGroup` stands between its applications and the simulator. It marks the
flows and the timers of an application with the number of the application, and
keeps the token that the application has given them in two maps. The state
also lists what the maps stand for: the flows in flight and the armed timers.
-/

namespace Phantora.Netsim

open Outcome

/-- Who has registered a timer; an application with a token of its own. -/
inductive TimerRequestor where
  | adapter
  | userApp (token : Option Token)
deriving DecidableEq, Repr

/-- A timer of an application that has not fired. -/
structure Alarm where
  app : ℕ
  timerId : TimerId
  requestor : TimerRequestor
deriving DecidableEq, Repr

/-- The applications with their start times, and the tokens taken from their flows and timers. -/
structure AppGroup (α T : Type) where
  apps : List (Timestamp × Member α T)
  output : List (ℕ × T) := []
  storedFlowToken : ℕ → Option (Option Token) := fun _ => none
  storedTimerToken : TimerId → Option TimerRequestor := fun _ => none
  /-- The counter behind `TimerId::new`. -/
  nextTimerId : TimerId := 0
  /-- The calls of the applications, in their order. -/
  calls : List Call := []
  /-- The flows that have not completed, with the application that has emitted each. -/
  inFlight : List (ℕ × TraceRecord) := []
  armed : List Alarm := []
  /-- What has been passed to the simulator. -/
  passed : List Event := []

namespace AppGroup

variable {α T : Type}

/-- A new timer is registered on behalf of an application. -/
def registerTimer (group : AppGroup α T) (appId : ℕ) (after : Duration)
    (requestor : TimerRequestor) : Except Panic (AppGroup α T × Event) := do
  let newTimerId := group.nextTimerId
  assert (group.storedTimerToken newTimerId = none) Panic.timerStored
  return ({ group with
    storedTimerToken := Function.update group.storedTimerToken newTimerId (some requestor)
    nextTimerId := newTimerId + 1
    armed := group.armed ++ [⟨appId, newTimerId, requestor⟩] },
    .adapterRegisterTimer after (some appId) newTimerId)

/-- The token of a flow is stored and replaced by the number of its application. -/
def markFlow (appId : ℕ) (startOff : Timestamp) (acc : AppGroup α T × List TraceRecord)
    (r : TraceRecord) : Except Panic (AppGroup α T × List TraceRecord) := do
  let (group, recs) := acc
  assert (group.storedFlowToken r.flow.id = none) Panic.flowTokenStored
  return ({ group with
    storedFlowToken := Function.update group.storedFlowToken r.flow.id (some r.flow.token)
    inFlight := group.inFlight ++ [(appId, r)] },
    recs ++ [{ r with ts := r.ts + startOff, flow := { r.flow with token := some appId } }])

/-- One event of an application is passed on. -/
def passEvent (appId : ℕ) (startOff : Timestamp) (acc : AppGroup α T × List Event)
    (event : Event) : Except Panic (AppGroup α T × List Event) := do
  let (group, events) := acc
  match event with
  | .flowArrive recs =>
      let (group, recs) ← recs.foldlM (markFlow appId startOff) (group, [])
      return (group, events ++ [.flowArrive recs])
  | .appFinish =>
      let (_, member) ← unwrap group.apps[appId]? Panic.appOutOfRange
      return ({ group with output := group.output ++ [(appId, member.output)] }, events)
  | .adapterRegisterTimer _ _ _ => throw Panic.adapterTimer
  | .userRegisterTimer dura token =>
      let (group, event) ← group.registerTimer appId dura (.userApp token)
      return (group, events ++ [event])

def forward (group : AppGroup α T) (appId : ℕ) (ts : Timestamp) (kind : AppEventKind) :
    Except Panic (AppGroup α T × List Event) := do
  let (startOff, member) ← unwrap group.apps[appId]? Panic.appOutOfRange
  let relative ← subTs ts startOff
  let (member, answer) := member.onEvent ⟨relative, kind⟩
  let group := { group with
    apps := group.apps.set appId (startOff, member)
    calls := group.calls ++ [⟨appId, ts, ⟨relative, kind⟩, answer⟩] }
  answer.foldlM (passEvent appId startOff) (group, [])

/-- A timer is registered for the start of an application. -/
def registerStart (acc : AppGroup α T × List Event) (appId : ℕ) :
    Except Panic (AppGroup α T × List Event) := do
  let (group, events) := acc
  let (startOff, _) ← unwrap group.apps[appId]? Panic.appOutOfRange
  let (group, event) ← group.registerTimer appId startOff .adapter
  return (group, events ++ [event])

/-- A completed flow gets its token back and goes to its application. -/
def returnFlow (acc : AppGroup α T × (ℕ → List TraceRecord)) (r : TraceRecord) :
    Except Panic (AppGroup α T × (ℕ → List TraceRecord)) := do
  let (group, flows) := acc
  let appId ← unwrap r.flow.token Panic.tokenUnmarked
  assert (appId < group.apps.length) Panic.appOutOfRange
  let (startOff, _) ← unwrap group.apps[appId]? Panic.appOutOfRange
  let ts ← subTs r.ts startOff
  let token ← unwrap (group.storedFlowToken r.flow.id) Panic.flowTokenMissing
  return ({ group with
    storedFlowToken := Function.update group.storedFlowToken r.flow.id none
    inFlight := group.inFlight.filter fun flow => flow.2.flow.id ≠ r.flow.id },
    Function.update flows appId
      (flows appId ++ [{ r with ts := ts, flow := { r.flow with token := token } }]))

/-- An application is told its completed flows, if there are any. -/
def forwardFlows (ts : Timestamp) (flows : ℕ → List TraceRecord)
    (acc : AppGroup α T × List Event) (appId : ℕ) : Except Panic (AppGroup α T × List Event) := do
  let (group, events) := acc
  if flows appId = [] then return (group, events)
  else
    let (group, answer) ← group.forward appId ts (.flowComplete (flows appId))
    return (group, events ++ answer)

/-- What an event leads to as long as some application has not finished. -/
def handleEvent (group : AppGroup α T) (event : AppEvent) :
    Except Panic (AppGroup α T × List Event) := do
  match event.event with
  | .appStart => (List.range group.apps.length).foldlM registerStart (group, [])
  | .flowComplete recs =>
      let (group, flows) ← recs.foldlM returnFlow (group, fun _ => [])
      (List.range group.apps.length).foldlM (forwardFlows event.ts flows) (group, [])
  | .adapterNotification token timerId =>
      let requestor ← unwrap (group.storedTimerToken timerId) Panic.timerMissing
      let appId ← unwrap token Panic.tokenUnmarked
      let group := { group with
        armed := group.armed.filter fun alarm => alarm.timerId ≠ timerId }
      match requestor with
      | .adapter => group.forward appId event.ts .appStart
      | .userApp userToken =>
          let group := { group with
            storedTimerToken := Function.update group.storedTimerToken timerId none }
          group.forward appId event.ts (.userNotification userToken)
  | .userNotification _ => throw Panic.userNotification

def onEvent (group : AppGroup α T) (event : AppEvent) :
    Except Panic (AppGroup α T × List Event) := do
  if group.output.length = group.apps.length then
    return ({ group with passed := group.passed ++ [.appFinish] }, [.appFinish])
  else
    let (group, events) ← group.handleEvent event
    let events := if group.output.length = group.apps.length then [.appFinish] else events
    return ({ group with passed := group.passed ++ events }, events)

/-- The group is an application until it fails. -/
def application : Application (Except Panic (AppGroup α T)) where
  onEvent state event :=
    match state.bind fun group => group.onEvent event with
    | .ok (group, events) => (.ok group, events)
    | .error failure => (.error failure, [])

/-- A group to which nothing has happened; timers may have been numbered before. -/
def new (apps : List (Timestamp × Member α T)) (firstTimerId : TimerId) : AppGroup α T where
  apps := apps
  nextTimerId := firstTimerId

/-- The start time of an application. -/
def startOf (group : AppGroup α T) (app : ℕ) : Timestamp :=
  (group.apps.map Prod.fst).getD app 0

/-- The maps hold the tokens of the flows in flight and of the armed timers. -/
structure Stored (group : AppGroup α T) : Prop where
  distinct : (group.inFlight.map fun flow => flow.2.flow.id).Nodup
  flow : ∀ flow ∈ group.inFlight,
    group.storedFlowToken flow.2.flow.id = some flow.2.flow.token
  noFlow : ∀ id, id ∉ group.inFlight.map (fun flow => flow.2.flow.id) →
    group.storedFlowToken id = none
  alone : (group.armed.map Alarm.timerId).Nodup
  timer : ∀ alarm ∈ group.armed, alarm.timerId < group.nextTimerId ∧
    group.storedTimerToken alarm.timerId = some alarm.requestor
  noTimer : ∀ timerId, group.nextTimerId ≤ timerId → group.storedTimerToken timerId = none

theorem stored_new (apps : List (Timestamp × Member α T)) (firstTimerId : TimerId) :
    (new apps firstTimerId).Stored where
  distinct := List.nodup_nil
  flow _ mem := absurd mem List.not_mem_nil
  noFlow _ _ := rfl
  alone := List.nodup_nil
  timer _ mem := absurd mem List.not_mem_nil
  noTimer _ _ := rfl

/-- A record on the clock of the simulator, marked with its application. -/
def marked (app : ℕ) (start : Timestamp) (record : TraceRecord) : TraceRecord :=
  { record with ts := record.ts + start, flow := { record.flow with token := some app } }

/-- The tokens of the timers that an event of an application registers. -/
def userTimer : Event → List (Option Token)
  | .userRegisterTimer _ token => [token]
  | _ => []

/-- The timers that an event of the group registers. -/
def registration : Event → List (Option Token × TimerId)
  | .adapterRegisterTimer _ token timerId => [(token, timerId)]
  | _ => []

/-- The group passes flows and timers of its own. -/
def IsProxied : Event → Prop
  | .flowArrive _ => True
  | .adapterRegisterTimer _ _ _ => True
  | _ => False

/-- The applications have emitted `done`, which the group has passed on as `events`. -/
structure Passes (starts : ℕ → Timestamp) (group group' : AppGroup α T)
    (done : List (ℕ × Event)) (events : List Event) : Prop where
  stored : group'.Stored
  flights : group'.inFlight = group.inFlight ++ done.flatMap fun piece =>
    (Simulator.Input.onEvent piece.2).records.map (Prod.mk piece.1)
  arrivals : arrivalsOf events = done.flatMap fun piece =>
    (Simulator.Input.onEvent piece.2).records.map (marked piece.1 (starts piece.1))
  alarms : ∃ alarms, group'.armed = group.armed ++ alarms ∧
    (alarms.map fun alarm => (alarm.app, alarm.requestor)) = (done.flatMap fun piece =>
      (userTimer piece.2).map fun token => (piece.1, .userApp token)) ∧
    events.flatMap registration = alarms.map fun alarm => (some alarm.app, alarm.timerId)
  output : group'.output.map Prod.fst = group.output.map Prod.fst ++ done.flatMap fun piece =>
    if piece.2 = .appFinish then [piece.1] else []
  proxied : ∀ event ∈ events, IsProxied event

namespace Passes

variable {starts : ℕ → Timestamp} {group group' group'' : AppGroup α T}
  {done done' : List (ℕ × Event)} {events events' : List Event}

theorem refl (stored : group.Stored) : Passes starts group group [] [] where
  stored := stored
  flights := (List.append_nil _).symm
  arrivals := rfl
  alarms := ⟨[], (List.append_nil _).symm, rfl, rfl⟩
  output := (List.append_nil _).symm
  proxied _ mem := absurd mem List.not_mem_nil

theorem trans (first : Passes starts group group' done events)
    (second : Passes starts group' group'' done' events') :
    Passes starts group group'' (done ++ done') (events ++ events') where
  stored := second.stored
  flights := by rw [second.flights, first.flights, List.append_assoc, List.flatMap_append]
  arrivals := by rw [arrivalsOf_append, first.arrivals, second.arrivals, List.flatMap_append]
  alarms := by
    rcases first.alarms with ⟨alarms, armed, requestors, registered⟩
    rcases second.alarms with ⟨alarms', armed', requestors', registered'⟩
    refine ⟨alarms ++ alarms', by rw [armed', armed, List.append_assoc], ?_, ?_⟩
    · rw [List.map_append, requestors, requestors', List.flatMap_append]
    · rw [List.flatMap_append, registered, registered', List.map_append]
  output := by rw [second.output, first.output, List.append_assoc, List.flatMap_append]
  proxied event mem := (List.mem_append.mp mem).elim (first.proxied event) (second.proxied event)

/-- What has been passed on depends on the tokens, the flows, the timers and the outputs. -/
theorem of_same (passes : Passes starts group group' done events) (other : AppGroup α T)
    (inFlight : other.inFlight = group.inFlight) (armed : other.armed = group.armed)
    (output : other.output = group.output) : Passes starts other group' done events :=
  ⟨passes.stored, inFlight ▸ passes.flights, passes.arrivals, armed ▸ passes.alarms,
    output ▸ passes.output, passes.proxied⟩

end Passes

/-- A timer of an application is armed. -/
def arm (group : AppGroup α T) (app : ℕ) (requestor : TimerRequestor) : AppGroup α T :=
  { group with
    storedTimerToken := Function.update group.storedTimerToken group.nextTimerId (some requestor)
    nextTimerId := group.nextTimerId + 1
    armed := group.armed ++ [⟨app, group.nextTimerId, requestor⟩] }

/-- A flow of an application is in flight. -/
def launch (app : ℕ) (group : AppGroup α T) (record : TraceRecord) : AppGroup α T :=
  { group with
    storedFlowToken :=
      Function.update group.storedFlowToken record.flow.id (some record.flow.token)
    inFlight := group.inFlight ++ [(app, record)] }

theorem Stored.arm {group : AppGroup α T} (stored : group.Stored) (app : ℕ)
    (requestor : TimerRequestor) : (group.arm app requestor).Stored where
  distinct := stored.distinct
  flow := stored.flow
  noFlow := stored.noFlow
  alone := by
    refine List.map_append ▸ List.nodup_append.mpr ⟨stored.alone, List.nodup_singleton _, ?_⟩
    intro timerId mem new new_mem same
    rcases List.mem_map.mp mem with ⟨alarm, armed, rfl⟩
    have old := (stored.timer alarm armed).1
    rw [same, List.mem_singleton.mp new_mem] at old
    exact Nat.lt_irrefl _ old
  timer alarm mem := by
    rcases List.mem_append.mp mem with old | new
    · rcases stored.timer alarm old with ⟨lt, token⟩
      exact ⟨Nat.lt_succ_of_lt lt, (Function.update_of_ne (Nat.ne_of_lt lt) _ _).trans token⟩
    · rw [List.mem_singleton.mp new]
      exact ⟨Nat.lt_succ_self _, Function.update_self ..⟩
  noTimer timerId le := by
    have ne : timerId ≠ group.nextTimerId := Nat.ne_of_gt le
    exact (Function.update_of_ne ne _ _).trans (stored.noTimer timerId (Nat.le_of_succ_le le))

theorem registerTimer_eq {group : AppGroup α T} (stored : group.Stored) (app : ℕ) (after : Duration)
    (requestor : TimerRequestor) : group.registerTimer app after requestor =
      .ok (group.arm app requestor, .adapterRegisterTimer after (some app) group.nextTimerId) := by
  have unused := stored.noTimer group.nextTimerId (Nat.le_refl _)
  simp only [registerTimer, bind_eq_ok, assert_eq_ok, pure_eq_ok]
  exact ⟨⟨⟩, unused, rfl⟩

theorem Stored.launch {group : AppGroup α T} (stored : group.Stored) (app : ℕ)
    {record : TraceRecord}
    (fresh : record.flow.id ∉ group.inFlight.map fun flow => flow.2.flow.id) :
    (group.launch app record).Stored where
  distinct := by
    refine List.map_append ▸ List.nodup_append.mpr ⟨stored.distinct, List.nodup_singleton _, ?_⟩
    intro id mem new new_mem same
    rw [same, List.mem_singleton.mp new_mem] at mem
    exact fresh mem
  flow flow mem := by
    rcases List.mem_append.mp mem with old | new
    · have ne : flow.2.flow.id ≠ record.flow.id :=
        fun same => fresh (same ▸ List.mem_map_of_mem (f := fun flow => flow.2.flow.id) old)
      exact (Function.update_of_ne ne _ _).trans (stored.flow flow old)
    · rw [List.mem_singleton.mp new]
      exact Function.update_self ..
  noFlow id absent := by
    simp only [AppGroup.launch, List.map_append, List.mem_append, not_or, List.map_singleton,
      List.mem_singleton] at absent
    exact (Function.update_of_ne absent.2 _ _).trans (stored.noFlow id absent.1)
  alone := stored.alone
  timer := stored.timer
  noTimer := stored.noTimer

theorem markFlow_eq {group : AppGroup α T} (stored : group.Stored) {app : ℕ} {start : Timestamp}
    {recs : List TraceRecord} {record : TraceRecord}
    (fresh : record.flow.id ∉ group.inFlight.map fun flow => flow.2.flow.id) :
    markFlow app start (group, recs) record =
      .ok (group.launch app record, recs ++ [marked app start record]) := by
  have unused := stored.noFlow record.flow.id fresh
  simp only [markFlow, bind_eq_ok, assert_eq_ok, pure_eq_ok]
  exact ⟨⟨⟩, unused, rfl⟩

/-- The flows of an arrival are put in flight one after the other. -/
theorem markFlows_eq {group : AppGroup α T} (stored : group.Stored) (app : ℕ) (start : Timestamp)
    (done flows : List TraceRecord)
    (fresh : (group.inFlight.map (fun flow => flow.2.flow.id) ++
      flows.map fun record => record.flow.id).Nodup) :
    flows.foldlM (markFlow app start) (group, done) =
        .ok (flows.foldl (launch app) group, done ++ flows.map (marked app start)) ∧
      (flows.foldl (launch app) group).Stored ∧
      (flows.foldl (launch app) group).inFlight = group.inFlight ++ flows.map (Prod.mk app) := by
  induction flows generalizing group done with
  | nil => exact ⟨by simp [pure, Except.pure], stored, by simp⟩
  | cons record flows ih =>
      rw [List.map_cons, List.nodup_append] at fresh
      have new : record.flow.id ∉ group.inFlight.map fun flow => flow.2.flow.id :=
        fun mem => fresh.2.2 _ mem _ (List.mem_cons_self ..) rfl
      have rest : ((group.launch app record).inFlight.map (fun flow => flow.2.flow.id) ++
          flows.map fun record => record.flow.id).Nodup := by
        simp only [launch, List.map_append, List.append_assoc, List.map_singleton,
          List.singleton_append]
        exact List.nodup_append.mpr fresh
      rcases ih (stored.launch app new) (done ++ [marked app start record]) rest with
        ⟨run, isStored, inFlight⟩
      refine ⟨?_, isStored, ?_⟩
      · rw [List.foldlM_cons, markFlow_eq stored new, ok_bind, run, List.append_assoc]
        rfl
      · rw [List.foldl_cons, inFlight, launch, List.append_assoc]
        rfl

/-- Flows that are put in flight change nothing else. -/
theorem launches_frame (app : ℕ) (group : AppGroup α T) (flows : List TraceRecord) :
    (flows.foldl (launch app) group).apps = group.apps ∧
      (flows.foldl (launch app) group).calls = group.calls ∧
      (flows.foldl (launch app) group).passed = group.passed ∧
      (flows.foldl (launch app) group).output = group.output ∧
      (flows.foldl (launch app) group).armed = group.armed := by
  induction flows generalizing group with
  | nil => exact ⟨rfl, rfl, rfl, rfl, rfl⟩
  | cons record flows ih => exact ih (group.launch app record)

/-- The group has the same applications, which have not been called since. -/
structure Idles (group group' : AppGroup α T) : Prop where
  apps : group'.apps = group.apps
  calls : group'.calls = group.calls
  passed : group'.passed = group.passed

theorem Idles.refl (group : AppGroup α T) : group.Idles group :=
  ⟨rfl, rfl, rfl⟩

theorem Idles.trans {group group' group'' : AppGroup α T} (first : group.Idles group')
    (second : group'.Idles group'') : group.Idles group'' :=
  ⟨second.apps.trans first.apps, second.calls.trans first.calls,
    second.passed.trans first.passed⟩

section Answers

variable {starts : ℕ → Timestamp} {group : AppGroup α T} {app : ℕ} {event : Event}
  {answer : List Event}

/-- An event of an application is passed on. -/
theorem passEvent_passes (stored : group.Stored)
    (at_app : ∃ member, group.apps[app]? = some (starts app, member))
    (allowed : event.ofAdapter = false)
    (fresh : (group.inFlight.map (fun flow => flow.2.flow.id) ++
      (arrivalsOf [event]).map fun record => record.flow.id).Nodup) (events : List Event) :
    ∃ group' passed, passEvent app (starts app) (group, events) event =
        .ok (group', events ++ passed) ∧ group.Idles group' ∧
      Passes starts group group' [(app, event)] passed := by
  cases event with
  | flowArrive flows =>
      simp only [arrivalsOf, List.flatMap_singleton] at fresh
      rcases markFlows_eq stored app (starts app) [] flows fresh with ⟨run, isStored, inFlight⟩
      rcases launches_frame app group flows with ⟨apps, calls, passed, output, armed⟩
      refine ⟨_, [.flowArrive (flows.map (marked app (starts app)))], ?_, ⟨apps, calls, passed⟩,
        { stored := isStored, flights := ?_, arrivals := ?_, alarms := ?_, output := ?_,
          proxied := ?_ }⟩
      · simp only [passEvent, run, ok_bind, List.nil_append]
        rfl
      · simpa [Simulator.Input.records] using inFlight
      · simp [arrivalsOf, Simulator.Input.records]
      · exact ⟨[], by rw [armed, List.append_nil], rfl, rfl⟩
      · rw [output]
        simp
      · intro event mem
        rw [List.mem_singleton.mp mem]
        trivial
  | appFinish =>
      rcases at_app with ⟨member, at_app⟩
      refine ⟨{ group with output := group.output ++ [(app, member.output)] }, [], ?_,
        ⟨rfl, rfl, rfl⟩, { stored := ⟨stored.1, stored.2, stored.3, stored.4, stored.5, stored.6⟩
                           flights := ?_, arrivals := ?_, alarms := ?_, output := ?_,
                           proxied := ?_ }⟩
      · simp only [passEvent, at_app, unwrap, ok_bind, List.append_nil]
        rfl
      · simp [Simulator.Input.records]
      · simp [arrivalsOf, Simulator.Input.records]
      · exact ⟨[], (List.append_nil _).symm, rfl, rfl⟩
      · simp
      · intro event mem
        cases mem
  | adapterRegisterTimer after token timerId => cases allowed
  | userRegisterTimer after token =>
      refine ⟨group.arm app (.userApp token),
        [.adapterRegisterTimer after (some app) group.nextTimerId], ?_, ⟨rfl, rfl, rfl⟩,
        { stored := stored.arm app (.userApp token), flights := ?_, arrivals := ?_, alarms := ?_,
          output := ?_, proxied := ?_ }⟩
      · simp only [passEvent, registerTimer_eq stored, ok_bind]
        rfl
      · simp [arm, Simulator.Input.records]
      · simp [arrivalsOf, Simulator.Input.records]
      · exact ⟨[⟨app, group.nextTimerId, .userApp token⟩], rfl, rfl, rfl⟩
      · simp [arm]
      · intro event mem
        rw [List.mem_singleton.mp mem]
        trivial

/-- An answer is passed on. -/
theorem passEvents_passes (stored : group.Stored)
    (at_app : ∃ member, group.apps[app]? = some (starts app, member))
    (allowed : ∀ event ∈ answer, event.ofAdapter = false)
    (fresh : (group.inFlight.map (fun flow => flow.2.flow.id) ++
      (arrivalsOf answer).map fun record => record.flow.id).Nodup) (events : List Event) :
    ∃ group' passed, answer.foldlM (passEvent app (starts app)) (group, events) =
        .ok (group', events ++ passed) ∧ group.Idles group' ∧
      Passes starts group group' (answer.map (Prod.mk app)) passed := by
  induction answer generalizing group events with
  | nil =>
      refine ⟨group, [], ?_, .refl group, .refl stored⟩
      rw [List.foldlM_nil, List.append_nil]
      rfl
  | cons event answer ih =>
      rw [arrivalsOf_cons, List.map_append, ← List.append_assoc] at fresh
      have one := (List.nodup_append.mp fresh).1
      have single : arrivalsOf [event] = (Simulator.Input.onEvent event).records :=
        List.flatMap_singleton ..
      rcases passEvent_passes stored at_app (allowed event (List.mem_cons_self ..))
        (single.symm ▸ one) events with ⟨middle, passed, run, idles, passes⟩
      have flights : middle.inFlight = group.inFlight ++
          (Simulator.Input.onEvent event).records.map (Prod.mk app) := by
        simpa using passes.flights
      rcases ih passes.stored (idles.apps.symm ▸ at_app)
        (fun event mem => allowed event (List.mem_cons_of_mem _ mem))
        (by simpa [flights, Function.comp_def] using fresh) (events ++ passed) with
        ⟨group', passed', run', idles', passes'⟩
      refine ⟨group', passed ++ passed', ?_, idles.trans idles', passes.trans passes'⟩
      rw [List.foldlM_cons, run, ok_bind, run', List.append_assoc]

end Answers

end AppGroup

end Phantora.Netsim
