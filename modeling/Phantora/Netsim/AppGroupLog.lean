import Phantora.Netsim.AppGroupCalls

/-!
# What the log of a group accounts for

Every flow that an application has emitted is in flight or has been delivered
to the application, with its own token and on its own clock, and every timer
that an application has registered is armed or has been delivered to it. So is
the start of each application. An event keeps the accounts, as long as what it
completes is in flight, or armed and due.
-/

namespace Phantora.Netsim

open Outcome

namespace AppGroup

variable {α T : Type}

/-- The flows that the applications have been told of. -/
def delivered (calls : List Call) : List (ℕ × Timestamp × ℕ × Option Token) :=
  calls.flatMap fun call => call.event.event.completions.map fun record => (call.app, record.key)

/-- The timers of which an event tells an application. -/
def alarmHeard : AppEventKind → List TimerRequestor
  | .appStart => [.adapter]
  | .userNotification token => [.userApp token]
  | _ => []

/-- The timers that the applications have been told of; a start is the timer of the adapter. -/
def heardAlarms (calls : List Call) : List (ℕ × TimerRequestor) :=
  calls.flatMap fun call => (alarmHeard call.event.event).map (Prod.mk call.app)

/-- The timers that the applications have registered. -/
def setAlarms (calls : List Call) : List (ℕ × TimerRequestor) :=
  (answers calls).flatMap fun piece =>
    (userTimer piece.2).map fun token => (piece.1, .userApp token)

/-- The applications that have answered `AppFinish`, each as often as it has. -/
def finishes (calls : List Call) : List ℕ :=
  (answers calls).flatMap fun piece => if piece.2 = .appFinish then [piece.1] else []

def flightKey (flow : ℕ × TraceRecord) : ℕ × Timestamp × ℕ × Option Token :=
  (flow.1, flow.2.key)

def alarmKey (alarm : Alarm) : ℕ × TimerRequestor :=
  (alarm.app, alarm.requestor)

/-- No application registers a timer as an adapter, no two flows of the applications share an
identifier, and no application answers `AppFinish` twice. -/
structure Disciplined (calls : List Call) : Prop where
  allowed : ∀ call ∈ calls, ∀ event ∈ call.answer, event.ofAdapter = false
  distinct : ((emitted calls).map fun flow => flow.2.flow.id).Nodup
  finishesOnce : (finishes calls).Nodup

theorem disciplined_iff (calls : List Call) : Disciplined calls ↔
    (∀ call ∈ calls, ∀ event ∈ call.answer, event.ofAdapter = false) ∧
    ((emitted calls).map fun flow => flow.2.flow.id).Nodup ∧ (finishes calls).Nodup :=
  ⟨fun disciplined => ⟨disciplined.1, disciplined.2, disciplined.3⟩,
    fun ⟨allowed, distinct, finishesOnce⟩ => ⟨allowed, distinct, finishesOnce⟩⟩

instance (calls : List Call) : Decidable (Disciplined calls) :=
  decidable_of_iff' _ (disciplined_iff calls)

/-- The log of a group that has registered the starts of its applications. -/
structure Consistent (members : List (Timestamp × Member α T)) (group : AppGroup α T) : Prop where
  starts : group.apps.map Prod.fst = members.map Prod.fst
  /-- What the applications answer is what they answer to what they are told. -/
  logged : Logged (members.map Prod.snd) (group.apps.map Prod.snd) group.calls
  stored : group.Stored
  clock : ∀ call ∈ group.calls, call.app < group.apps.length ∧
    call.now = call.event.ts + group.startOf call.app
  flows : (delivered group.calls ++ group.inFlight.map flightKey).Perm
    ((emitted group.calls).map flightKey)
  alarms : (heardAlarms group.calls ++ group.armed.map alarmKey).Perm
    ((List.range group.apps.length).map (fun app => (app, .adapter)) ++ setAlarms group.calls)
  /-- The first call of an application tells it that it starts. -/
  opened : ∀ app, ∀ call ∈ (callsOf group.calls app).head?, call.event.event = .appStart
  atZero : ∀ call ∈ group.calls, call.event.event = .appStart → call.event.ts = 0
  output : group.output.map Prod.fst = finishes group.calls

/-- The completions in the calls that completed flows lead to. -/
theorem flatMap_completions {β : Type} (group : AppGroup α T) (now : Timestamp)
    (flows : ℕ → List TraceRecord) (g : ℕ → TraceRecord → β) {apps : List ℕ}
    (inApps : ∀ app ∈ apps, app < group.apps.length) :
    (apps.filterMap (group.callAt now (heardFlows flows))).flatMap
        (fun call => call.event.event.completions.map (g call.app)) =
      apps.flatMap fun app => (flows app).map (g app) := by
  induction apps with
  | nil => rfl
  | cons app apps ih =>
      have rest := ih fun other mem => inApps other (List.mem_cons_of_mem _ mem)
      rcases exists_app (inApps app (List.mem_cons_self ..)) with ⟨member, at_app⟩
      rw [List.flatMap_cons, ← rest]
      by_cases silent : flows app = []
      · have none : group.callAt now (heardFlows flows) app = none := by
          unfold callAt heardFlows
          simp [silent]
        rw [List.filterMap_cons_none none, silent, List.map_nil, List.nil_append]
      · have isCall : group.callAt now (heardFlows flows) app = some (callOf app
            (group.startOf app) member now (.flowComplete (flows app))) := by
          unfold callAt heardFlows
          simp [at_app, silent]
        rw [List.filterMap_cons_some isCall, List.flatMap_cons]
        rfl

/-- Every completed flow is in one of the calls. -/
theorem completions_perm {β : Type} {group : AppGroup α T} {ts : Timestamp}
    {recs : List TraceRecord} (g : ℕ → TraceRecord → β) (h : TraceRecord → β)
    (owned : ∀ record ∈ recs, ∃ app < group.apps.length, record.flow.token = some app ∧
      g app (group.restored (group.startOf app) record) = h record) :
    ((group.callsFor ⟨ts, .flowComplete recs⟩).flatMap
      fun call => call.event.event.completions.map (g call.app)).Perm (recs.map h) := by
  have inRange : ∀ app ∈ List.range group.apps.length, app < group.apps.length :=
    fun app mem => List.mem_range.mp mem
  have calls := flatMap_completions group ts (group.flowsFor recs) g inRange
  have each : ∀ app, (group.flowsFor recs app).map (g app) =
      (recs.filter fun record => record.flow.token = some app).map h := by
    intro app
    rw [flowsFor, List.map_map]
    apply List.map_congr_left
    intro record mem
    rcases List.mem_filter.mp mem with ⟨inRecs, own⟩
    rcases owned record inRecs with ⟨other, _, token, same⟩
    rw [decide_eq_true_iff, token, Option.some.injEq] at own
    exact own ▸ same
  refine (List.Perm.of_eq calls).trans ?_
  simp only [each, ← List.map_flatMap]
  refine List.Perm.map h ?_
  have nodup : ((List.range group.apps.length).map some).Nodup :=
    List.nodup_range.map (Option.some_injective ℕ)
  refine (List.Perm.of_eq (List.flatMap_map ..).symm).trans
    (Grouping.flatMap_filter_perm (fun record : TraceRecord => record.flow.token) nodup ?_)
  intro record mem
  rcases owned record mem with ⟨app, lt, token, _⟩
  exact token ▸ List.mem_map_of_mem (List.mem_range.mpr lt)

theorem IsInFlight.owned {group : AppGroup α T} (stored : group.Stored) {record : TraceRecord}
    (inFlight : group.IsInFlight record) : ∃ app < group.apps.length,
      record.flow.token = some app ∧ group.startOf app ≤ record.ts ∧
      ∃ flow ∈ group.inFlight, flow.2.flow.id = record.flow.id ∧
        (app, (group.restored (group.startOf app) record).key) = flightKey flow := by
  rcases inFlight with ⟨flow, flying, lt, key⟩
  rcases key_restored stored flying key with ⟨token, le, _, same⟩
  refine ⟨flow.1, lt, token, le, flow, flying, ?_, congrArg (Prod.mk flow.1) same⟩
  exact (congrArg (fun key => key.2.1) key).symm

/-- The completed flows are taken from those in flight and delivered. -/
theorem delivered_perm {group : AppGroup α T} (stored : group.Stored) {ts : Timestamp}
    {recs : List TraceRecord} (distinct : (recs.map fun record => record.flow.id).Nodup)
    (inFlight : ∀ record ∈ recs, group.IsInFlight record) :
    (delivered (group.callsFor ⟨ts, .flowComplete recs⟩) ++
      (group.land recs).inFlight.map flightKey).Perm (group.inFlight.map flightKey) := by
  let key : TraceRecord → ℕ × Timestamp × ℕ × Option Token := fun record =>
    (record.flow.token.getD 0,
      (group.restored (group.startOf (record.flow.token.getD 0)) record).key)
  have told : (delivered (group.callsFor ⟨ts, .flowComplete recs⟩)).Perm (recs.map key) := by
    refine completions_perm (fun app record => (app, record.key)) key fun record mem => ?_
    rcases (inFlight record mem).owned stored with ⟨app, lt, token, _⟩
    refine ⟨app, lt, token, ?_⟩
    simp only [key, token, Option.getD_some]
  have ids : (recs.map key).map (fun key => key.2.2.1) = recs.map fun record => record.flow.id :=
    List.map_map ..
  have flightIds : ((group.inFlight.filter fun flow =>
      flow.2.flow.id ∈ recs.map fun record => record.flow.id).map flightKey).map
        (fun key => key.2.2.1) = (group.inFlight.filter fun flow =>
      flow.2.flow.id ∈ recs.map fun record => record.flow.id).map fun flow => flow.2.flow.id :=
    List.map_map ..
  have taken : (recs.map key).Perm ((group.inFlight.filter fun flow =>
      flow.2.flow.id ∈ recs.map fun record => record.flow.id).map flightKey) := by
    refine (List.perm_ext_iff_of_nodup (List.Nodup.of_map _ (ids ▸ distinct)) ?_).mpr ?_
    · refine List.Nodup.of_map (fun key => key.2.2.1) (flightIds ▸ ?_)
      exact stored.distinct.sublist ((List.filter_sublist ..).map _)
    · intro entry
      constructor
      · intro mem
        rcases List.mem_map.mp mem with ⟨record, inRecs, rfl⟩
        rcases (inFlight record inRecs).owned stored with ⟨app, _, token, _, flow, flying, id, same⟩
        refine List.mem_map.mpr ⟨flow, List.mem_filter.mpr ⟨flying, ?_⟩, ?_⟩
        · exact decide_eq_true (id ▸ List.mem_map_of_mem (f := fun record => record.flow.id) inRecs)
        · simp only [key, token, Option.getD_some, same]
      · intro mem
        rcases List.mem_map.mp mem with ⟨flow, among, rfl⟩
        rcases List.mem_filter.mp among with ⟨flying, landed⟩
        rcases List.mem_map.mp (of_decide_eq_true landed) with ⟨record, inRecs, id⟩
        rcases (inFlight record inRecs).owned stored with
          ⟨app, _, token, _, other, flying', id', same⟩
        have equal : other = flow :=
          List.inj_on_of_nodup_map stored.distinct flying' flying (id'.trans id)
        refine List.mem_map.mpr ⟨record, inRecs, ?_⟩
        simp only [key, token, Option.getD_some, same, equal]
  have whole := List.filter_append_perm (fun flow : ℕ × TraceRecord =>
    decide (flow.2.flow.id ∈ recs.map fun record => record.flow.id)) group.inFlight
  refine ((told.trans taken).append_right _).trans ?_
  rw [← List.map_append]
  refine List.Perm.map flightKey (List.Perm.trans (.of_eq ?_) whole)
  simp only [land, decide_not]

/-- The reports of the simulator are delivered. -/
theorem reports_perm {group : AppGroup α T} (stored : group.Stored) {ts : Timestamp}
    {recs : List TraceRecord} (inFlight : ∀ record ∈ recs, group.IsInFlight record) :
    ((group.callsFor ⟨ts, .flowComplete recs⟩).flatMap fun call =>
      call.event.event.completions.map (marked call.app (group.startOf call.app))).Perm recs := by
  refine (completions_perm (fun app => marked app (group.startOf app)) id
    fun record mem => ?_).trans (.of_eq (List.map_id recs))
  rcases (inFlight record mem).owned stored with ⟨app, lt, token, le, _⟩
  exact ⟨app, lt, token, marked_restored token le⟩

/-- The timer that has fired is taken from the armed ones. -/
theorem armed_perm {group : AppGroup α T} (stored : group.Stored) {alarm : Alarm}
    (mem : alarm ∈ group.armed) :
    (alarm :: (group.disarm alarm.timerId).armed).Perm group.armed := by
  have nodup := List.Nodup.of_map _ stored.alone
  refine (List.perm_ext_iff_of_nodup ?_ nodup).mpr fun other => ?_
  · refine List.nodup_cons.mpr ⟨fun among => ?_, nodup.filter _⟩
    simpa using (List.mem_filter.mp among).2
  · simp only [disarm, List.mem_cons, List.mem_filter, decide_eq_true_iff]
    constructor
    · rintro (rfl | ⟨among, _⟩)
      · exact mem
      · exact among
    · intro among
      by_cases same : other.timerId = alarm.timerId
      · exact Or.inl (List.inj_on_of_nodup_map stored.alone among mem same)
      · exact Or.inr ⟨among, same⟩

/-- A call that an event leads to. -/
theorem exists_of_mem_callsFor {group : AppGroup α T} {event : AppEvent} {call : Call}
    (mem : call ∈ group.callsFor event) : ∃ (app : ℕ) (member : Member α T) (kind : AppEventKind),
      app < group.apps.length ∧ group.heardBy event app = some kind ∧
      call = callOf app (group.startOf app) member event.ts kind := by
  rcases List.mem_filterMap.mp mem with ⟨app, inApps, isCall⟩
  unfold callAt at isCall
  split at isCall
  · rename_i start member kind at_app heard
    refine ⟨app, member, kind, List.mem_range.mp inApps, heard, ?_⟩
    rw [startOf_eq at_app]
    exact (Option.some.inj isCall).symm
  · cases isCall

/-- An application that hears of a flow has emitted one. -/
theorem exists_flow_of_heard {group : AppGroup α T} (stored : group.Stored) {ts : Timestamp}
    {recs : List TraceRecord}
    (inFlight : ∀ record ∈ recs, group.IsInFlight record ∧ record.ts ≤ ts) {app : ℕ}
    {kind : AppEventKind} (heard : heardFlows (group.flowsFor recs) app = some kind) :
    kind = .flowComplete (group.flowsFor recs app) ∧ group.startOf app ≤ ts ∧
      ∃ flow ∈ group.inFlight, flow.1 = app := by
  unfold heardFlows at heard
  split at heard
  · cases heard
  · rename_i nonempty
    have some_record : recs.filter (fun record => record.flow.token = some app) ≠ [] :=
      fun empty => nonempty (by rw [flowsFor, empty, List.map_nil])
    rcases List.exists_mem_of_ne_nil _ some_record with ⟨record, among⟩
    rcases List.mem_filter.mp among with ⟨mem, own⟩
    rcases inFlight record mem with ⟨isInFlight, early⟩
    rcases isInFlight.owned stored with ⟨other, _, token, le, flow, flying, _, same⟩
    rw [decide_eq_true_iff, token, Option.some.injEq] at own
    subst own
    refine ⟨(Option.some.inj heard).symm, le.trans early, flow, flying, ?_⟩
    exact (congrArg Prod.fst same).symm

theorem answers_append (calls later : List Call) :
    answers (calls ++ later) = answers calls ++ answers later :=
  List.flatMap_append

theorem delivered_append (calls later : List Call) :
    delivered (calls ++ later) = delivered calls ++ delivered later :=
  List.flatMap_append

theorem heardAlarms_append (calls later : List Call) :
    heardAlarms (calls ++ later) = heardAlarms calls ++ heardAlarms later :=
  List.flatMap_append

theorem setAlarms_append (calls later : List Call) :
    setAlarms (calls ++ later) = setAlarms calls ++ setAlarms later := by
  rw [setAlarms, answers_append, List.flatMap_append]
  rfl

theorem finishes_append (calls later : List Call) :
    finishes (calls ++ later) = finishes calls ++ finishes later := by
  rw [finishes, answers_append, List.flatMap_append]
  rfl

/-- What was outstanding is accounted for or still outstanding, and so is what is new. -/
theorem account_perm {β : Type} {settled outstanding all told left : List β} (new : List β)
    (before : (settled ++ outstanding).Perm all) (taken : (told ++ left).Perm outstanding) :
    ((settled ++ told) ++ (left ++ new)).Perm (all ++ new) := by
  calc ((settled ++ told) ++ (left ++ new))
      = settled ++ (told ++ left) ++ new := by simp only [List.append_assoc]
    List.Perm _ ((settled ++ outstanding) ++ new) := (taken.append_left settled).append_right new
    List.Perm _ (all ++ new) := before.append_right new

theorem received_frame (group : AppGroup α T) (event : AppEvent) :
    (group.received event).apps = group.apps ∧ (group.received event).calls = group.calls ∧
      (group.received event).output = group.output := by
  unfold received
  split <;> exact ⟨rfl, rfl, rfl⟩

theorem received_passed (group : AppGroup α T) (event : AppEvent) :
    (group.received event).passed = group.passed := by
  unfold received
  split <;> rfl

theorem received_inFlight (group : AppGroup α T) (event : AppEvent) :
    (group.received event).inFlight.Sublist group.inFlight := by
  unfold received
  split
  · exact List.filter_sublist ..
  · exact .refl _
  · exact .refl _

namespace Consistent

variable {members : List (Timestamp × Member α T)} {group group' : AppGroup α T}
  {event : AppEvent} {events : List Event}

/-- An application with a flow in flight has been called. -/
theorem called_of_flow (consistent : group.Consistent members) {flow : ℕ × TraceRecord}
    (mem : flow ∈ group.inFlight) : ∃ call ∈ group.calls, call.app = flow.1 := by
  have among : flightKey flow ∈ (emitted group.calls).map flightKey :=
    consistent.flows.mem_iff.mp (List.mem_append_right _ (List.mem_map_of_mem mem))
  rcases List.mem_map.mp among with ⟨other, isEmitted, same⟩
  rcases List.mem_flatMap.mp isEmitted with ⟨call, inCalls, own⟩
  rcases List.mem_map.mp own with ⟨record, _, rfl⟩
  exact ⟨call, inCalls, congrArg Prod.fst same⟩

/-- An application with an armed timer of its own has been called. -/
theorem called_of_alarm (consistent : group.Consistent members) {alarm : Alarm}
    (mem : alarm ∈ group.armed) {token : Option Token} (isUser : alarm.requestor = .userApp token) :
    ∃ call ∈ group.calls, call.app = alarm.app := by
  have among := consistent.alarms.mem_iff.mp
    (List.mem_append_right _ (List.mem_map_of_mem (f := alarmKey) mem))
  rcases List.mem_append.mp among with start | own
  · rcases List.mem_map.mp start with ⟨app, _, same⟩
    have equal : TimerRequestor.adapter = alarm.requestor := congrArg Prod.snd same
    rw [isUser] at equal
    cases equal
  · rcases List.mem_flatMap.mp own with ⟨piece, inAnswers, isTimer⟩
    rcases List.mem_map.mp isTimer with ⟨_, _, same⟩
    rcases List.mem_flatMap.mp inAnswers with ⟨call, inCalls, isAnswer⟩
    rcases List.mem_map.mp isAnswer with ⟨_, _, rfl⟩
    exact ⟨call, inCalls, congrArg Prod.fst same⟩

/-- The calls for an event come after the start of their applications, whose first call is the one
that tells them so. -/
theorem mem_callsFor (consistent : group.Consistent members) (deliverable : group.Deliverable event)
    {call : Call} (mem : call ∈ group.callsFor event) : call.app < group.apps.length ∧
      call.now = call.event.ts + group.startOf call.app ∧
      (call.event.event = .appStart ∨ ∃ before ∈ group.calls, before.app = call.app) ∧
      (call.event.event = .appStart → call.event.ts = 0) := by
  rcases exists_of_mem_callsFor mem with ⟨app, member, kind, lt, heard, rfl⟩
  cases deliverable with
  | @flows ts recs distinct inFlight =>
      rcases exists_flow_of_heard consistent.stored inFlight heard with
        ⟨rfl, le, flow, flying, rfl⟩
      refine ⟨lt, (Nat.sub_add_cancel le).symm, Or.inr (consistent.called_of_flow flying), ?_⟩
      intro isStart
      cases isStart
  | @timer ts alarm armed inApps due punctual =>
      have token := (consistent.stored.timer alarm armed).2
      unfold heardBy at heard
      dsimp only at heard
      split at heard
      · rename_i same
        have own : alarm.app = app := Option.some.inj same
        subst own
        rw [token] at heard
        refine ⟨lt, (Nat.sub_add_cancel due).symm, ?_, ?_⟩
        · rcases requestor : alarm.requestor with _ | user
          · rw [requestor] at heard
            exact Or.inl (Option.some.inj heard).symm
          · exact Or.inr (consistent.called_of_alarm armed requestor)
        · intro isStart
          rcases requestor : alarm.requestor with _ | user
          · exact Nat.sub_eq_zero_of_le (punctual requestor).le
          · rw [requestor] at heard
            have isUser := (Option.some.inj heard).trans isStart
            cases isUser
      · cases heard

/-- What an event takes from the flows in flight is delivered. -/
theorem delivered_callsFor (consistent : group.Consistent members)
    (deliverable : group.Deliverable event) :
    (delivered (group.callsFor event) ++ (group.received event).inFlight.map flightKey).Perm
      (group.inFlight.map flightKey) := by
  cases deliverable with
  | @flows ts recs distinct inFlight =>
      exact delivered_perm consistent.stored distinct fun record mem => (inFlight record mem).1
  | @timer ts alarm mem inApps due punctual =>
      rcases exists_app inApps with ⟨member, at_app⟩
      rw [callsFor_timer consistent.stored mem at_app]
      cases alarm.requestor <;> exact .refl _

/-- What an event takes from the armed timers is delivered. -/
theorem heardAlarms_callsFor (consistent : group.Consistent members)
    (deliverable : group.Deliverable event) :
    (heardAlarms (group.callsFor event) ++ (group.received event).armed.map alarmKey).Perm
      (group.armed.map alarmKey) := by
  cases deliverable with
  | @flows ts recs distinct inFlight =>
      have none : heardAlarms (group.callsFor ⟨ts, .flowComplete recs⟩) = [] := by
        refine List.flatMap_eq_nil_iff.mpr fun call mem => ?_
        rcases exists_of_mem_callsFor mem with ⟨app, member, kind, _, heard, rfl⟩
        rw [(exists_flow_of_heard consistent.stored inFlight heard).1]
        rfl
      rw [none]
      exact .refl _
  | @timer ts alarm mem inApps due punctual =>
      rcases exists_app inApps with ⟨member, at_app⟩
      rw [callsFor_timer consistent.stored mem at_app]
      have told : heardAlarms [callOf alarm.app (group.startOf alarm.app) member ts
          (heardOf alarm.requestor)] = [alarmKey alarm] := by
        rcases alarm with ⟨app, timerId, requestor⟩
        cases requestor <;> rfl
      rw [told]
      exact (armed_perm consistent.stored mem).map alarmKey

theorem fresh (consistent : group.Consistent members)
    (disciplined : Disciplined (group.calls ++ group.callsFor event)) :
    ((group.received event).inFlight.map (fun flow => flow.2.flow.id) ++
      (emitted (group.callsFor event)).map fun flow => flow.2.flow.id).Nodup := by
  have ids := (consistent.flows.map fun key => key.2.2.1).append_right
    ((emitted (group.callsFor event)).map fun flow => flow.2.flow.id)
  have whole := disciplined.distinct
  rw [emitted, List.flatMap_append, List.map_append] at whole
  have own : ∀ flows : List (ℕ × TraceRecord), (flows.map flightKey).map (fun key => key.2.2.1) =
      flows.map fun flow => flow.2.flow.id := fun _ => List.map_map ..
  rw [own] at ids
  have nodup := ids.nodup_iff.mpr whole
  rw [List.map_append, own, List.append_assoc] at nodup
  refine (List.nodup_append.mp nodup).2.1.sublist (List.Sublist.append_right ?_ _)
  exact (received_inFlight group event).map _

/-- What the event leads to keeps the log consistent. -/
theorem forward (consistent : group.Consistent members) (deliverable : group.Deliverable event)
    (forwards : Forwards (group.received event) group' (group.callsFor event) events) :
    group'.Consistent members := by
  rcases received_frame group event with ⟨apps, calls, output⟩
  have length : group'.apps.length = group.apps.length := forwards.length_eq.trans (by rw [apps])
  have start : group'.startOf = group.startOf := by
    rw [forwards.startOf_eq]
    funext app
    rw [startOf, startOf, apps]
  have made : group'.calls = group.calls ++ group.callsFor event := by
    rw [forwards.calls, calls]
  have called : ∀ call ∈ group.callsFor event, _ :=
    fun call mem => consistent.mem_callsFor deliverable mem
  refine ⟨?_, ?_, forwards.passes.stored, ?_, ?_, ?_, ?_, ?_, ?_⟩
  · rw [forwards.starts, apps]
    exact consistent.starts
  · apply forwards.logged
    rw [apps, calls]
    exact consistent.logged
  · intro call mem
    rw [made] at mem
    rw [length, start]
    rcases List.mem_append.mp mem with before | new
    · exact consistent.clock call before
    · exact ⟨(called call new).1, (called call new).2.1⟩
  · rw [made, forwards.inFlight_eq, delivered_append, emitted_append, List.map_append,
      List.map_append]
    exact account_perm _ consistent.flows (consistent.delivered_callsFor deliverable)
  · rcases forwards.passes.alarms with ⟨alarms, armed, requestors, _⟩
    have new : alarms.map alarmKey = setAlarms (group.callsFor event) := requestors
    rw [made, armed, heardAlarms_append, setAlarms_append, List.map_append, new, length]
    rw [← List.append_assoc (List.map _ (List.range _))]
    exact account_perm _ consistent.alarms (consistent.heardAlarms_callsFor deliverable)
  · intro app call mem
    rw [made, callsOf_append, List.head?_append] at mem
    rcases first : (callsOf group.calls app).head? with _ | head
    · rw [first, Option.none_or] at mem
      rcases mem_callsOf.mp (List.mem_of_mem_head? mem) with ⟨new, own⟩
      refine (called call new).2.2.1.resolve_right ?_
      rintro ⟨before, inCalls, same⟩
      have none := List.head?_eq_none_iff.mp first
      have among : before ∈ callsOf group.calls app := mem_callsOf.mpr ⟨inCalls, same.trans own⟩
      rw [none] at among
      cases among
    · rw [first, Option.some_or] at mem
      exact consistent.opened app call (first ▸ mem)
  · intro call mem
    rw [made] at mem
    rcases List.mem_append.mp mem with before | new
    · exact consistent.atZero call before
    · exact (called call new).2.2.2
  · rw [forwards.passes.output, output, made, finishes_append, consistent.output]
    rfl

/-- What the simulator reports is delivered, on the clocks of the applications. -/
theorem reports_callsFor (consistent : group.Consistent members)
    (deliverable : group.Deliverable event) :
    ((group.callsFor event).flatMap fun call => call.event.event.completions.map
      (marked call.app (group.startOf call.app))).Perm event.event.completions := by
  cases deliverable with
  | @flows ts recs distinct inFlight =>
      exact reports_perm consistent.stored fun record mem => (inFlight record mem).1
  | @timer ts alarm mem inApps due punctual =>
      rcases exists_app inApps with ⟨member, at_app⟩
      rw [callsFor_timer consistent.stored mem at_app]
      cases alarm.requestor <;> exact .refl _

theorem alarm_lt (consistent : group.Consistent members) {alarm : Alarm}
    (mem : alarm ∈ group.armed) : alarm.app < group.apps.length := by
  rcases requestor : alarm.requestor with _ | token
  · have among := consistent.alarms.mem_iff.mp
      (List.mem_append_right _ (List.mem_map_of_mem (f := alarmKey) mem))
    rcases List.mem_append.mp among with start | own
    · rcases List.mem_map.mp start with ⟨app, inApps, same⟩
      have equal : app = alarm.app := congrArg Prod.fst same
      exact equal ▸ List.mem_range.mp inApps
    · rcases List.mem_flatMap.mp own with ⟨piece, _, isTimer⟩
      rcases List.mem_map.mp isTimer with ⟨token, _, same⟩
      have equal : TimerRequestor.userApp token = alarm.requestor := congrArg Prod.snd same
      rw [requestor] at equal
      cases equal
  · rcases consistent.called_of_alarm mem requestor with ⟨call, inCalls, own⟩
    exact own ▸ (consistent.clock call inCalls).1

end Consistent

/-- The timer for the start of an application is registered with the simulator. -/
def startEvent (group : AppGroup α T) (alarm : Alarm) : Event :=
  .adapterRegisterTimer (group.startOf alarm.app) (some alarm.app) alarm.timerId

/-- A group that has registered the starts of its applications, and has done nothing else. -/
structure Started (members : List (Timestamp × Member α T)) (group : AppGroup α T)
    (done : List ℕ) : Prop where
  apps : group.apps = members
  calls : group.calls = []
  inFlight : group.inFlight = []
  output : group.output = []
  passed : group.passed = []
  stored : group.Stored
  armed : group.armed.map alarmKey = done.map fun app => (app, .adapter)

theorem registerStarts_eq (members : List (Timestamp × Member α T)) (firstTimerId : TimerId) :
    ∃ group, (new members firstTimerId).handleEvent ⟨0, .appStart⟩ =
        .ok (group, group.armed.map group.startEvent) ∧
      Started members group (List.range members.length) := by
  have total := @foldlM_total _ _ _ (@registerStart α T) (fun done acc =>
    acc.2 = acc.1.armed.map acc.1.startEvent ∧ Started members acc.1 done)
    (List.range members.length) ?_ (new members firstTimerId, [])
    ⟨rfl, rfl, rfl, rfl, rfl, rfl, stored_new members firstTimerId, rfl⟩
  · rcases total with ⟨⟨group, events⟩, run, same, started⟩
    have isEvents : events = group.armed.map group.startEvent := same
    exact ⟨group, isEvents ▸ run, started⟩
  · rintro done app rest ⟨group, events⟩ ⟨same, started⟩ whole
    have isEvents : events = group.armed.map group.startEvent := same
    subst isEvents
    replace started : Started members group done := started
    have lt : app < group.apps.length := by
      have mem : app ∈ List.range members.length := by
        rw [← whole]
        exact List.mem_append_right _ (List.mem_cons_self ..)
      exact started.apps.symm ▸ List.mem_range.mp mem
    rcases exists_app lt with ⟨member, at_app⟩
    refine ⟨(group.arm app .adapter, group.armed.map group.startEvent ++
      [.adapterRegisterTimer (group.startOf app) (some app) group.nextTimerId]), ?_, ?_, ?_⟩
    · simp only [registerStart, at_app, unwrap, ok_bind, registerTimer_eq started.stored]
      rfl
    · simp only [arm, List.map_append]
      rfl
    · refine ⟨started.apps, started.calls, started.inFlight, started.output, started.passed,
        started.stored.arm app .adapter, ?_⟩
      simp only [arm, List.map_append, started.armed]
      rfl

theorem Started.consistent {members : List (Timestamp × Member α T)} {group : AppGroup α T}
    (started : Started members group (List.range members.length)) : group.Consistent members where
  starts := by rw [started.apps]
  logged := by
    rw [started.apps, started.calls]
    exact .nil _
  stored := started.stored
  clock call mem := by
    rw [started.calls] at mem
    cases mem
  flows := by
    rw [started.calls, started.inFlight]
    exact .refl _
  alarms := by
    rw [started.calls, started.armed, started.apps]
    exact .of_eq (List.append_nil _).symm
  opened app call mem := by
    rw [started.calls] at mem
    cases mem
  atZero call mem := by
    rw [started.calls] at mem
    cases mem
  output := by
    rw [started.calls, started.output]
    rfl

theorem count_heardAlarms (calls : List Call) (app : ℕ) :
    (heardAlarms calls).count (app, .adapter) =
      (callsOf calls app).countP fun call => call.event.event = .appStart := by
  induction calls with
  | nil => rfl
  | cons call calls ih =>
      have single : heardAlarms (call :: calls) =
          (alarmHeard call.event.event).map (Prod.mk call.app) ++ heardAlarms calls := rfl
      rw [single, List.count_append, ih]
      by_cases own : call.app = app
      · have cons : callsOf (call :: calls) app = call :: callsOf calls app :=
          List.filter_cons_of_pos (by simpa using own)
        rw [cons, List.countP_cons, own]
        cases kind : call.event.event with
        | appStart => simp [alarmHeard, Nat.add_comm]
        | _ => simp [alarmHeard]
      · have none : ((alarmHeard call.event.event).map (Prod.mk call.app)).count
            (app, .adapter) = 0 := by
          refine List.count_eq_zero.mpr fun mem => ?_
          rcases List.mem_map.mp mem with ⟨_, _, same⟩
          exact own (congrArg Prod.fst same)
        simp [own, none, callsOf]

/-- An application is told once that it starts, in its first call. -/
theorem Consistent.startsOnce {members : List (Timestamp × Member α T)} {group : AppGroup α T}
    (consistent : group.Consistent members) (app : ℕ) :
    ((callsOf group.calls app).countP fun call => call.event.event = .appStart) =
      if callsOf group.calls app = [] then 0 else 1 := by
  have balance := consistent.alarms.count_eq (app, .adapter)
  have noUser : (setAlarms group.calls).count (app, .adapter) = 0 := by
    refine List.count_eq_zero.mpr fun mem => ?_
    rcases List.mem_flatMap.mp mem with ⟨_, _, isTimer⟩
    rcases List.mem_map.mp isTimer with ⟨_, _, same⟩
    cases congrArg Prod.snd same
  have once : ((List.range group.apps.length).map
      fun app => (app, TimerRequestor.adapter)).count (app, .adapter) ≤ 1 := by
    refine List.nodup_iff_count_le_one.mp (List.nodup_range.map fun _ _ same => ?_) _
    exact congrArg Prod.fst same
  rw [List.count_append, List.count_append, count_heardAlarms, noUser] at balance
  rcases first : callsOf group.calls app with _ | ⟨head, later⟩
  · simp
  · have isStart := consistent.opened app head (by rw [first]; rfl)
    rw [first, List.countP_cons_of_pos (by simpa using isStart)] at balance
    rw [List.countP_cons_of_pos (by simpa using isStart), if_neg (List.cons_ne_nil head later)]
    omega

end AppGroup

end Phantora.Netsim
