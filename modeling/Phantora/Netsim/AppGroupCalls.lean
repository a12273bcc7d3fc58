import Phantora.Lib.Grouping
import Phantora.Netsim.AppGroup

/-!
# What a group forwards

The group tells each of its applications what is meant for it. Which calls an
event leads to can be said beforehand, from the tokens that are stored and from
the states of the applications; the group makes these calls and no others, if
the applications bring no flow whose identifier is in flight.
-/

namespace Phantora.Netsim

open Outcome

namespace AppGroup

variable {α T : Type}

theorem startOf_eq {group : AppGroup α T} {app : ℕ} {start : Timestamp} {member : Member α T}
    (at_app : group.apps[app]? = some (start, member)) : group.startOf app = start := by
  simp only [startOf, List.getD_eq_getElem?_getD, List.getElem?_map, at_app, Option.map_some,
    Option.getD_some]

theorem exists_app {group : AppGroup α T} {app : ℕ} (lt : app < group.apps.length) :
    ∃ member, group.apps[app]? = some (group.startOf app, member) := by
  rcases hd : group.apps[app] with ⟨start, member⟩
  have at_app : group.apps[app]? = some (start, member) := hd ▸ List.getElem?_eq_getElem lt
  exact ⟨member, (startOf_eq at_app).symm ▸ at_app⟩

/-- The call in which an application is told something. -/
def callOf (app : ℕ) (start : Timestamp) (member : Member α T) (now : Timestamp)
    (kind : AppEventKind) : Call :=
  ⟨app, now, ⟨now - start, kind⟩, (member.onEvent ⟨now - start, kind⟩).2⟩

/-- The flows that the applications emit in some calls, each with its application. -/
def emitted (calls : List Call) : List (ℕ × TraceRecord) :=
  calls.flatMap fun call => (arrivalsOf call.answer).map (Prod.mk call.app)

/-- What the applications answer in some calls. -/
def answers (calls : List Call) : List (ℕ × Event) :=
  calls.flatMap fun call => call.answer.map (Prod.mk call.app)

theorem emitted_append (calls later : List Call) :
    emitted (calls ++ later) = emitted calls ++ emitted later :=
  List.flatMap_append

theorem emitted_eq (calls : List Call) : emitted calls = (answers calls).flatMap fun piece =>
    (Simulator.Input.onEvent piece.2).records.map (Prod.mk piece.1) := by
  simp only [emitted, answers, arrivalsOf, List.map_flatMap, List.flatMap_assoc, List.flatMap_map]

/-- The calls have been made, and what the applications have answered is passed on. -/
structure Forwards (group group' : AppGroup α T) (made : List Call) (events : List Event) :
    Prop where
  calls : group'.calls = group.calls ++ made
  passed : group'.passed = group.passed
  starts : group'.apps.map Prod.fst = group.apps.map Prod.fst
  others : ∀ app ∉ made.map Call.app, group'.apps[app]? = group.apps[app]?
  logged : ∀ members, Logged members (group.apps.map Prod.snd) group.calls →
    Logged members (group'.apps.map Prod.snd) group'.calls
  passes : Passes group.startOf group group' (answers made) events

namespace Forwards

variable {group group' group'' : AppGroup α T} {calls calls' : List Call}
  {events events' : List Event}

theorem refl (stored : group.Stored) : Forwards group group [] [] where
  calls := (List.append_nil _).symm
  passed := rfl
  starts := rfl
  others _ _ := rfl
  logged _ logged := logged
  passes := .refl stored

theorem startOf_eq (forwards : Forwards group group' calls events) :
    group'.startOf = group.startOf := by
  funext app
  simp only [startOf, forwards.starts]

theorem length_eq (forwards : Forwards group group' calls events) :
    group'.apps.length = group.apps.length := by
  simpa using congrArg List.length forwards.starts

theorem inFlight_eq (forwards : Forwards group group' calls events) :
    group'.inFlight = group.inFlight ++ emitted calls := by
  rw [forwards.passes.flights, emitted_eq]

theorem trans (first : Forwards group group' calls events)
    (second : Forwards group' group'' calls' events') :
    Forwards group group'' (calls ++ calls') (events ++ events') where
  calls := by rw [second.calls, first.calls, List.append_assoc]
  passed := second.passed.trans first.passed
  starts := second.starts.trans first.starts
  others app absent := by
    rw [List.map_append, List.mem_append, not_or] at absent
    exact (second.others app absent.2).trans (first.others app absent.1)
  logged members logged := second.logged members (first.logged members logged)
  passes := by
    have later := second.passes
    rw [first.startOf_eq] at later
    rw [answers, List.flatMap_append]
    exact first.passes.trans later

end Forwards

/-- An application is told something that is not older than its start. -/
theorem forward_forwards {group : AppGroup α T} {app : ℕ} {start now : Timestamp}
    {member : Member α T} {kind : AppEventKind} (stored : group.Stored)
    (at_app : group.apps[app]? = some (start, member)) (le : start ≤ now)
    (allowed : ∀ event ∈ (callOf app start member now kind).answer, event.ofAdapter = false)
    (fresh : (group.inFlight.map (fun flow => flow.2.flow.id) ++
      (emitted [callOf app start member now kind]).map fun flow => flow.2.flow.id).Nodup) :
    ∃ group' events, group.forward app now kind = .ok (group', events) ∧
      Forwards group group' [callOf app start member now kind] events := by
  let event : AppEvent := ⟨now - start, kind⟩
  let called : AppGroup α T := { group with
    apps := group.apps.set app (start, (member.onEvent event).1)
    calls := group.calls ++ [⟨app, now, event, (member.onEvent event).2⟩] }
  have lt := (List.getElem?_eq_some_iff.mp at_app).1
  have isStart : group.startOf app = start := AppGroup.startOf_eq at_app
  have isStored : called.Stored := ⟨stored.1, stored.2, stored.3, stored.4, stored.5, stored.6⟩
  have starts : called.apps.map Prod.fst = group.apps.map Prod.fst := by
    refine List.map_set ▸ List.ext_getElem? fun other => ?_
    by_cases same : app = other
    · subst same
      rw [List.getElem?_set_self (by simpa using lt), List.getElem?_map, at_app]
      rfl
    · rw [List.getElem?_set_ne same]
  have still : called.apps[app]? = some (group.startOf app, (member.onEvent event).1) := by
    rw [isStart]
    exact List.getElem?_set_self lt
  have ids : (called.inFlight.map (fun flow => flow.2.flow.id) ++
      (arrivalsOf (member.onEvent event).2).map fun record => record.flow.id).Nodup := by
    simpa [emitted, callOf, Function.comp_def] using fresh
  rcases passEvents_passes isStored ⟨_, still⟩ allowed ids [] with
    ⟨group', events, run, idles, passes⟩
  rw [isStart] at run
  refine ⟨group', events, ?_, ⟨idles.calls, idles.passed, ?_, ?_, ?_, ?_⟩⟩
  · simp only [forward, at_app, unwrap, subTs_eq le, ok_bind]
    rw [List.nil_append] at run
    exact run
  · rw [idles.apps, starts]
  · intro other absent
    rw [idles.apps]
    refine List.getElem?_set_ne ?_
    rintro rfl
    exact absent (List.mem_singleton_self _)
  · intro members logged
    have at_member : (group.apps.map Prod.snd)[app]? = some member := by
      rw [List.getElem?_map, at_app, Option.map_some]
    rw [idles.apps, idles.calls, List.map_set]
    exact logged.call at_member now event
  · have own : answers [callOf app start member now kind] =
        (member.onEvent event).2.map (Prod.mk app) := List.flatMap_singleton ..
    rw [own]
    exact passes.of_same group rfl rfl rfl

/-- The call of an application, if it hears something. -/
def callAt (group : AppGroup α T) (now : Timestamp) (heard : ℕ → Option AppEventKind) (app : ℕ) :
    Option Call :=
  match group.apps[app]?, heard app with
  | some (start, member), some kind => some (callOf app start member now kind)
  | _, _ => none

/-- What the applications hear of completed flows. -/
def heardFlows (flows : ℕ → List TraceRecord) (app : ℕ) : Option AppEventKind :=
  if flows app = [] then none else some (.flowComplete (flows app))

theorem forwardFlows_forwards {group origin : AppGroup α T} {now : Timestamp}
    {flows : ℕ → List TraceRecord} {todo : List ℕ} (stored : group.Stored) (nodup : todo.Nodup)
    (same : ∀ app ∈ todo, group.apps[app]? = origin.apps[app]?)
    (inApps : ∀ app ∈ todo, app < origin.apps.length)
    (le : ∀ app ∈ todo, flows app ≠ [] → group.startOf app ≤ now)
    (allowed : ∀ call ∈ todo.filterMap (origin.callAt now (heardFlows flows)),
      ∀ event ∈ call.answer, event.ofAdapter = false)
    (fresh : (group.inFlight.map (fun flow => flow.2.flow.id) ++
      (emitted (todo.filterMap (origin.callAt now (heardFlows flows)))).map
        fun flow => flow.2.flow.id).Nodup) (events : List Event) :
    ∃ group' passed,
      todo.foldlM (forwardFlows now flows) (group, events) = .ok (group', events ++ passed) ∧
      Forwards group group' (todo.filterMap (origin.callAt now (heardFlows flows))) passed := by
  induction todo generalizing group events with
  | nil =>
      refine ⟨group, [], ?_, .refl stored⟩
      rw [List.foldlM_nil, List.append_nil]
      rfl
  | cons app todo ih =>
      rw [List.nodup_cons] at nodup
      have rest : ∀ other ∈ todo, other ∈ app :: todo := fun _ mem => List.mem_cons_of_mem _ mem
      have at_head := same app (List.mem_cons_self ..)
      by_cases silent : flows app = []
      · have none : origin.callAt now (heardFlows flows) app = none := by
          unfold callAt heardFlows
          simp [silent]
        rw [List.filterMap_cons_none none] at allowed fresh ⊢
        have skip : forwardFlows now flows (group, events) app = .ok (group, events) := by
          simp only [forwardFlows, silent, if_true]
          rfl
        rw [List.foldlM_cons, skip, ok_bind]
        exact ih stored nodup.2 (fun other mem => same other (rest other mem))
          (fun other mem => inApps other (rest other mem))
          (fun other mem => le other (rest other mem)) allowed fresh events
      · rcases exists_app (inApps app (List.mem_cons_self ..)) with ⟨member, at_app⟩
        have isCall : origin.callAt now (heardFlows flows) app = some (callOf app
            (origin.startOf app) member now (.flowComplete (flows app))) := by
          unfold callAt heardFlows
          simp [at_app, silent]
        rw [List.filterMap_cons_some isCall] at allowed fresh ⊢
        have own : group.apps[app]? = some (origin.startOf app, member) := at_head.trans at_app
        have due : origin.startOf app ≤ now := by
          have bound := le app (List.mem_cons_self ..) silent
          rwa [AppGroup.startOf_eq own] at bound
        rw [← List.singleton_append, emitted_append, List.map_append, ← List.append_assoc] at fresh
        rcases forward_forwards stored own due (allowed _ (List.mem_cons_self ..))
          (List.nodup_append.mp fresh).1 with ⟨middle, passed, run, forwards⟩
        have unchanged : ∀ other ∈ todo, middle.apps[other]? = group.apps[other]? := by
          intro other mem
          refine forwards.others other fun among => nodup.1 ?_
          have equal : other = app := List.mem_singleton.mp among
          exact equal ▸ mem
        rcases ih forwards.passes.stored nodup.2
          (fun other mem => (unchanged other mem).trans (same other (rest other mem)))
          (fun other mem => inApps other (rest other mem))
          (fun other mem nonempty => forwards.startOf_eq ▸ le other (rest other mem) nonempty)
          (fun call mem => allowed call (List.mem_cons_of_mem _ mem))
          (by rw [forwards.inFlight_eq, List.map_append]; exact fresh) (events ++ passed) with
          ⟨group', passed', run', forwards'⟩
        refine ⟨group', passed ++ passed', ?_, forwards.trans forwards'⟩
        have step : forwardFlows now flows (group, events) app =
            .ok (middle, events ++ passed) := by
          simp only [forwardFlows, silent, if_false, run, ok_bind]
          rfl
        rw [List.foldlM_cons, step, ok_bind, run', List.append_assoc]

/-- A completed flow on the clock of its application, with the token it was emitted with. -/
def restored (group : AppGroup α T) (start : Timestamp) (record : TraceRecord) : TraceRecord :=
  { record with
    ts := record.ts - start
    flow := { record.flow with
      token := (group.storedFlowToken record.flow.id).getD none } }

/-- The completed flows of an application. -/
def flowsFor (group : AppGroup α T) (recs : List TraceRecord) (app : ℕ) : List TraceRecord :=
  (recs.filter fun record => record.flow.token = some app).map
    (group.restored (group.startOf app))

/-- What an application hears of an event. -/
def heardBy (group : AppGroup α T) (event : AppEvent) : ℕ → Option AppEventKind :=
  match event.event with
  | .flowComplete recs => heardFlows (group.flowsFor recs)
  | .adapterNotification token timerId => fun app =>
      if token = some app then
        match group.storedTimerToken timerId with
        | some .adapter => some .appStart
        | some (.userApp userToken) => some (.userNotification userToken)
        | none => none
      else none
  | _ => fun _ => none

/-- The calls that an event leads to. -/
def callsFor (group : AppGroup α T) (event : AppEvent) : List Call :=
  (List.range group.apps.length).filterMap (group.callAt event.ts (group.heardBy event))

/-- Completed flows are no longer in flight. -/
def land (group : AppGroup α T) (recs : List TraceRecord) : AppGroup α T :=
  { group with
    storedFlowToken := fun id =>
      if id ∈ recs.map (fun record => record.flow.id) then none else group.storedFlowToken id
    inFlight := group.inFlight.filter fun flow =>
      flow.2.flow.id ∉ recs.map fun record => record.flow.id }

/-- A timer that has fired is no longer armed; the token of the adapter stays. -/
def disarm (group : AppGroup α T) (timerId : TimerId) : AppGroup α T :=
  { group with
    storedTimerToken :=
      if group.storedTimerToken timerId = some .adapter then group.storedTimerToken
      else Function.update group.storedTimerToken timerId none
    armed := group.armed.filter fun alarm => alarm.timerId ≠ timerId }

/-- The group as it is when the applications are told the event. -/
def received (group : AppGroup α T) (event : AppEvent) : AppGroup α T :=
  match event.event with
  | .flowComplete recs => group.land recs
  | .adapterNotification _ timerId => group.disarm timerId
  | _ => group

/-- A completed flow is one of those in flight, with the mark of its application. -/
def IsInFlight (group : AppGroup α T) (record : TraceRecord) : Prop :=
  ∃ flow ∈ group.inFlight, flow.1 < group.apps.length ∧
    record.key = (marked flow.1 (group.startOf flow.1) flow.2).key

/-- Events for the applications: flows in flight have completed, or an armed timer is due. -/
inductive Deliverable (group : AppGroup α T) : AppEvent → Prop
  | flows {ts : Timestamp} {recs : List TraceRecord}
      (distinct : (recs.map fun record => record.flow.id).Nodup)
      (inFlight : ∀ record ∈ recs, group.IsInFlight record ∧ record.ts ≤ ts) :
      Deliverable group ⟨ts, .flowComplete recs⟩
  | timer {ts : Timestamp} {alarm : Alarm} (mem : alarm ∈ group.armed)
      (inApps : alarm.app < group.apps.length) (due : group.startOf alarm.app ≤ ts)
      (punctual : alarm.requestor = .adapter → ts = group.startOf alarm.app) :
      Deliverable group ⟨ts, .adapterNotification (some alarm.app) alarm.timerId⟩

theorem key_restored {group : AppGroup α T} (stored : group.Stored) {record : TraceRecord}
    {flow : ℕ × TraceRecord} (mem : flow ∈ group.inFlight)
    (same : record.key = (marked flow.1 (group.startOf flow.1) flow.2).key) :
    record.flow.token = some flow.1 ∧ group.startOf flow.1 ≤ record.ts ∧
      (group.storedFlowToken record.flow.id) = some flow.2.flow.token ∧
      (group.restored (group.startOf flow.1) record).key = flow.2.key := by
  simp only [TraceRecord.key, marked, Prod.mk.injEq] at same
  rcases same with ⟨ts, id, token⟩
  have isStored := stored.flow flow mem
  rw [← id] at isStored
  refine ⟨token, ?_, isStored, ?_⟩
  · rw [ts]
    exact Nat.le_add_left _ _
  · simp only [restored, TraceRecord.key, isStored, Option.getD_some]
    rw [ts, id, Nat.add_sub_cancel]

theorem marked_restored {group : AppGroup α T} {record : TraceRecord} {app : ℕ}
    {start : Timestamp} (token : record.flow.token = some app) (le : start ≤ record.ts) :
    marked app start (group.restored start record) = record := by
  rcases record with ⟨ts, flow, dura⟩
  rcases flow with ⟨id, bytes, src, dst, tenant, token', vsrc, vdst⟩
  simp only [marked, restored] at token le ⊢
  rw [Nat.sub_add_cancel le, token]

theorem Stored.land {group : AppGroup α T} (stored : group.Stored) (recs : List TraceRecord) :
    (group.land recs).Stored where
  distinct := stored.distinct.sublist ((List.filter_sublist ..).map _)
  flow flow mem := by
    rcases List.mem_filter.mp mem with ⟨inFlight, absent⟩
    exact (if_neg (by simpa using absent)).trans (stored.flow flow inFlight)
  noFlow id absent := by
    by_cases landed : id ∈ recs.map fun record => record.flow.id
    · exact if_pos landed
    · refine (if_neg landed).trans (stored.noFlow id fun mem => absent ?_)
      rcases List.mem_map.mp mem with ⟨flow, inFlight, rfl⟩
      have stays : flow ∈ (group.land recs).inFlight :=
        List.mem_filter.mpr ⟨inFlight, decide_eq_true landed⟩
      exact List.mem_map_of_mem (f := fun flow => flow.2.flow.id) stays
  alone := stored.alone
  timer := stored.timer
  noTimer := stored.noTimer

theorem Stored.disarm {group : AppGroup α T} (stored : group.Stored) {timerId : TimerId}
    (lt : timerId < group.nextTimerId) : (group.disarm timerId).Stored where
  distinct := stored.distinct
  flow := stored.flow
  noFlow := stored.noFlow
  alone := stored.alone.sublist ((List.filter_sublist ..).map _)
  timer alarm mem := by
    rcases List.mem_filter.mp mem with ⟨armed, other⟩
    rcases stored.timer alarm armed with ⟨lt, token⟩
    refine ⟨lt, ?_⟩
    have ne : alarm.timerId ≠ timerId := by simpa using other
    unfold AppGroup.disarm
    dsimp only
    split
    · exact token
    · exact (Function.update_of_ne ne _ _).trans token
  noTimer other le := by
    have none := stored.noTimer other le
    have ne : other ≠ timerId := Nat.ne_of_gt (Nat.lt_of_lt_of_le lt le)
    unfold AppGroup.disarm
    dsimp only
    split
    · exact none
    · exact (Function.update_of_ne ne _ _).trans none

theorem land_nil (group : AppGroup α T) : group.land [] = group := by
  simp [land]

theorem land_snoc (group : AppGroup α T) (recs : List TraceRecord) (record : TraceRecord) :
    group.land (recs ++ [record]) = { group.land recs with
      storedFlowToken := Function.update (group.land recs).storedFlowToken record.flow.id none
      inFlight := (group.land recs).inFlight.filter fun flow =>
        flow.2.flow.id ≠ record.flow.id } := by
  have tokens : (group.land (recs ++ [record])).storedFlowToken =
      Function.update (group.land recs).storedFlowToken record.flow.id none := by
    funext id
    by_cases last : id = record.flow.id
    · subst last
      simp [land]
    · simp [land, last]
  have flights : (group.land (recs ++ [record])).inFlight =
      (group.land recs).inFlight.filter fun flow => flow.2.flow.id ≠ record.flow.id := by
    simp only [land, List.filter_filter, List.map_append, List.mem_append, List.map_singleton,
      List.mem_singleton, not_or, Bool.decide_and, Bool.and_comm]
  rw [← tokens, ← flights]
  rfl

theorem flowsFor_snoc (group : AppGroup α T) (recs : List TraceRecord) {record : TraceRecord}
    {app : ℕ} (token : record.flow.token = some app) :
    group.flowsFor (recs ++ [record]) = Function.update (group.flowsFor recs) app
      (group.flowsFor recs app ++ [group.restored (group.startOf app) record]) := by
  funext other
  by_cases same : other = app
  · subst same
    simp [flowsFor, token]
  · have ne : ¬app = other := fun equal => same equal.symm
    simp [flowsFor, token, same, ne]

/-- A completed flow gets its token back. -/
theorem returnFlow_eq {group : AppGroup α T} (stored : group.Stored) {done : List TraceRecord}
    {record : TraceRecord} (inFlight : group.IsInFlight record)
    (absent : record.flow.id ∉ done.map fun record => record.flow.id) :
    returnFlow (group.land done, group.flowsFor done) record =
      .ok (group.land (done ++ [record]), group.flowsFor (done ++ [record])) := by
  rcases inFlight with ⟨flow, flying, inApps, key⟩
  rcases key_restored stored flying key with ⟨token, le, isStored, _⟩
  rcases exists_app inApps with ⟨member, found⟩
  have at_app : (group.land done).apps[flow.1]? = some (group.startOf flow.1, member) := found
  have still : (group.land done).storedFlowToken record.flow.id = some flow.2.flow.token :=
    (if_neg absent).trans isStored
  have own : group.restored (group.startOf flow.1) record = { record with
      ts := record.ts - group.startOf flow.1
      flow := { record.flow with token := flow.2.flow.token } } := by
    rw [restored, isStored, Option.getD_some]
  rw [land_snoc, flowsFor_snoc group done token, own]
  simp only [returnFlow, token, unwrap, ok_bind, at_app, subTs_eq le, still, bind_eq_ok,
    assert_eq_ok]
  exact ⟨⟨⟩, inApps, rfl⟩

/-- The completed flows get their tokens back and are sorted by application. -/
theorem returnFlows_eq {group : AppGroup α T} (stored : group.Stored) {recs : List TraceRecord}
    (distinct : (recs.map fun record => record.flow.id).Nodup)
    (inFlight : ∀ record ∈ recs, group.IsInFlight record) :
    recs.foldlM returnFlow (group, fun _ => []) = .ok (group.land recs, group.flowsFor recs) := by
  have start : (group, fun _ : ℕ => ([] : List TraceRecord)) =
      (group.land [], group.flowsFor []) := by
    rw [land_nil]
    rfl
  have total := @foldlM_total _ _ _ returnFlow (fun done acc =>
    acc = (group.land done, group.flowsFor done)) recs ?_ _ start
  · rcases total with ⟨_, run, rfl⟩
    exact run
  · rintro done record rest _ rfl whole
    refine ⟨_, returnFlow_eq stored (inFlight record ?_) ?_, rfl⟩
    · rw [← whole]
      exact List.mem_append_right _ (List.mem_cons_self ..)
    · rw [← whole, List.map_append, List.map_cons] at distinct
      intro before
      exact (List.nodup_append.mp distinct).2.2 _ before _ (List.mem_cons_self ..) rfl

/-- What the owner of a timer hears when it fires. -/
def heardOf : TimerRequestor → AppEventKind
  | .adapter => .appStart
  | .userApp token => .userNotification token

theorem filterMap_single {f : ℕ → Option Call} {apps : List ℕ} (nodup : apps.Nodup) {app : ℕ}
    (mem : app ∈ apps) {call : Call} (own : f app = some call)
    (others : ∀ other ∈ apps, other ≠ app → f other = none) : apps.filterMap f = [call] := by
  rcases List.append_of_mem mem with ⟨before, later, rfl⟩
  rw [List.nodup_append, List.nodup_cons] at nodup
  have first : before.filterMap f = [] := by
    refine List.filterMap_eq_nil_iff.mpr fun other among => ?_
    refine others other (List.mem_append_left _ among) fun same => ?_
    exact nodup.2.2 other among app (List.mem_cons_self ..) same
  have last : later.filterMap f = [] := by
    refine List.filterMap_eq_nil_iff.mpr fun other among => ?_
    refine others other (List.mem_append_right _ (List.mem_cons_of_mem _ among)) fun same => ?_
    exact nodup.2.1.1 (same ▸ among)
  rw [List.filterMap_append, first, List.filterMap_cons_some own, last, List.nil_append]

/-- When a timer fires its owner is called. -/
theorem callsFor_timer {group : AppGroup α T} (stored : group.Stored) {ts : Timestamp}
    {alarm : Alarm} (mem : alarm ∈ group.armed) {start : Timestamp} {member : Member α T}
    (at_app : group.apps[alarm.app]? = some (start, member)) :
    group.callsFor ⟨ts, .adapterNotification (some alarm.app) alarm.timerId⟩ =
      [callOf alarm.app start member ts (heardOf alarm.requestor)] := by
  have token := (stored.timer alarm mem).2
  refine filterMap_single List.nodup_range (List.mem_range.mpr
    (List.getElem?_eq_some_iff.mp at_app).1) ?_ ?_
  · unfold callAt heardBy
    simp only [at_app, token, if_true]
    cases alarm.requestor <;> rfl
  · intro other _ ne
    have differs : ¬some alarm.app = some other := fun same => ne (Option.some.inj same).symm
    unfold callAt heardBy
    simp only [if_neg differs]
    split
    · rename_i heard
      cases heard
    · rfl

theorem handleTimer_eq {group : AppGroup α T} (stored : group.Stored) {ts : Timestamp}
    {alarm : Alarm} (mem : alarm ∈ group.armed) :
    group.handleEvent ⟨ts, .adapterNotification (some alarm.app) alarm.timerId⟩ =
      (group.disarm alarm.timerId).forward alarm.app ts (heardOf alarm.requestor) := by
  have token := (stored.timer alarm mem).2
  rcases alarm with ⟨app, timerId, requestor⟩
  cases requestor with
  | adapter =>
      simp only [handleEvent, token, unwrap, ok_bind, disarm, if_true]
      rfl
  | userApp userToken =>
      have user : ¬some (TimerRequestor.userApp userToken) = some .adapter := by simp
      simp only [handleEvent, token, unwrap, ok_bind, disarm, if_neg user]
      rfl

/-- An event for the applications leads to the calls that it should. -/
theorem handleEvent_forwards {group : AppGroup α T} {event : AppEvent} (stored : group.Stored)
    (deliverable : group.Deliverable event)
    (allowed : ∀ call ∈ group.callsFor event, ∀ own ∈ call.answer, own.ofAdapter = false)
    (fresh : ((group.received event).inFlight.map (fun flow => flow.2.flow.id) ++
      (emitted (group.callsFor event)).map fun flow => flow.2.flow.id).Nodup) :
    ∃ group' events, group.handleEvent event = .ok (group', events) ∧
      Forwards (group.received event) group' (group.callsFor event) events := by
  cases deliverable with
  | @flows ts recs distinct inFlight =>
      have le : ∀ app ∈ List.range group.apps.length, group.flowsFor recs app ≠ [] →
          (group.land recs).startOf app ≤ ts := by
        intro app _ nonempty
        have some_record : recs.filter (fun record => record.flow.token = some app) ≠ [] :=
          fun empty => nonempty (by rw [flowsFor, empty, List.map_nil])
        rcases List.exists_mem_of_ne_nil _ some_record with ⟨record, among⟩
        rcases List.mem_filter.mp among with ⟨mem, own⟩
        rcases inFlight record mem with ⟨⟨flow, flying, _, key⟩, early⟩
        rcases key_restored stored flying key with ⟨token, started, _, _⟩
        rw [decide_eq_true_iff, token, Option.some.injEq] at own
        exact own ▸ started.trans early
      rcases forwardFlows_forwards (stored.land recs) List.nodup_range (fun _ _ => rfl)
        (fun app mem => List.mem_range.mp mem) le allowed fresh [] with
        ⟨group', events, run, forwards⟩
      refine ⟨group', events, ?_, forwards⟩
      simp only [handleEvent, returnFlows_eq stored distinct fun record mem =>
        (inFlight record mem).1, ok_bind]
      exact run
  | @timer ts alarm mem inApps due _ =>
      rcases exists_app inApps with ⟨member, at_app⟩
      rw [callsFor_timer stored mem at_app] at allowed fresh ⊢
      rw [handleTimer_eq stored mem]
      exact forward_forwards (stored.disarm (stored.timer alarm mem).1) at_app due
        (allowed _ (List.mem_singleton_self _)) fresh

end AppGroup

end Phantora.Netsim
