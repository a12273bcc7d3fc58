import Phantora.Netsim.Reports

/-!
# Applications inside an application

An application may be made of others. The members of one share a type of
states, a sum of their own. What the combined application asks of its members
is logged call by call, and the log determines the states of the members.
Times are shifted between the clock of the simulator and the clock of a member.
-/

namespace Phantora.Netsim

open Outcome

/-- An application with its state and with what it answers at the end. -/
structure Member (α T : Type) where
  app : Application α
  state : α
  answer : α → T

namespace Member

variable {α T : Type}

def onEvent (member : Member α T) (event : AppEvent) : Member α T × List Event :=
  ({ member with state := (member.app.onEvent member.state event).1 },
    (member.app.onEvent member.state event).2)

def output (member : Member α T) : T :=
  member.answer member.state

/-- The member is told events, one after the other. -/
def tell (member : Member α T) : List AppEvent → Member α T × List (List Event)
  | [] => (member, [])
  | event :: events =>
      let (told, answer) := member.onEvent event
      let (told, answers) := told.tell events
      (told, answer :: answers)

theorem tell_snoc (member : Member α T) (events : List AppEvent) (event : AppEvent) :
    member.tell (events ++ [event]) =
      (((member.tell events).1.onEvent event).1,
        (member.tell events).2 ++ [((member.tell events).1.onEvent event).2]) := by
  induction events generalizing member with
  | nil => rfl
  | cons first events ih => simp only [List.cons_append, tell, ih]

end Member

/-- A call of a member: when it is made, what the member is told and what it answers. -/
structure Call where
  app : ℕ
  /-- The time of the simulator. -/
  now : Timestamp
  event : AppEvent
  answer : List Event

/-- The calls of one member. -/
def callsOf (calls : List Call) (app : ℕ) : List Call :=
  calls.filter fun call => call.app = app

theorem callsOf_append (calls later : List Call) (app : ℕ) :
    callsOf (calls ++ later) app = callsOf calls app ++ callsOf later app :=
  List.filter_append ..

theorem mem_callsOf {calls : List Call} {app : ℕ} {call : Call} :
    call ∈ callsOf calls app ↔ call ∈ calls ∧ call.app = app := by
  simp [callsOf]

/-- The states of the members and the answers they have given are those of the calls. -/
structure Logged {α T : Type} (members apps : List (Member α T)) (calls : List Call) : Prop where
  length : apps.length = members.length
  states : ∀ (app : ℕ) (member : Member α T), members[app]? = some member →
    apps[app]? = some (member.tell ((callsOf calls app).map Call.event)).1
  answers : ∀ (app : ℕ) (member : Member α T), members[app]? = some member →
    (callsOf calls app).map Call.answer = (member.tell ((callsOf calls app).map Call.event)).2

namespace Logged

variable {α T : Type} {members apps : List (Member α T)} {calls : List Call}

theorem nil (members : List (Member α T)) : Logged members members [] where
  length := rfl
  states _ _ at_app := at_app
  answers _ _ _ := rfl

/-- A member is called. -/
theorem call (logged : Logged members apps calls) {app : ℕ} {member : Member α T}
    (at_app : apps[app]? = some member) (now : Timestamp) (event : AppEvent) :
    Logged members (apps.set app (member.onEvent event).1)
      (calls ++ [⟨app, now, event, (member.onEvent event).2⟩]) := by
  have told : ∀ initial, members[app]? = some initial →
      (initial.tell ((callsOf calls app).map Call.event)).1 = member := by
    intro initial at_initial
    have state := logged.states app initial at_initial
    rw [at_app, Option.some.injEq] at state
    exact state.symm
  have own : ∀ answer, callsOf [⟨app, now, event, answer⟩] app = [⟨app, now, event, answer⟩] := by
    simp [callsOf]
  have others : ∀ answer other, other ≠ app → callsOf [⟨app, now, event, answer⟩] other = [] := by
    intro answer other ne
    simp [callsOf, Ne.symm ne]
  refine ⟨by rw [List.length_set, logged.length], ?_, ?_⟩
  · intro other initial at_other
    rw [callsOf_append, List.map_append]
    by_cases same : other = app
    · subst same
      have lt : other < apps.length := (List.getElem?_eq_some_iff.mp at_app).1
      rw [own, List.map_singleton, Member.tell_snoc, told initial at_other,
        List.getElem?_set_self lt]
    · rw [others _ other same, List.map_nil, List.append_nil, List.getElem?_set_ne (Ne.symm same)]
      exact logged.states other initial at_other
  · intro other initial at_other
    rw [callsOf_append, List.map_append, List.map_append]
    by_cases same : other = app
    · subst same
      rw [own, List.map_singleton, List.map_singleton, Member.tell_snoc, told initial at_other,
        logged.answers other initial at_other]
    · rw [others _ other same, List.map_nil, List.map_nil, List.append_nil, List.append_nil]
      exact logged.answers other initial at_other

end Logged

/-- A subtraction of times. -/
def subTs (ts offset : Timestamp) : Except Panic Timestamp := do
  assert (offset ≤ ts) Panic.timestampUnderflow
  return ts - offset

theorem subTs_eq {ts offset : Timestamp} (le : offset ≤ ts) :
    subTs ts offset = .ok (ts - offset) := by
  simp only [subTs, bind_eq_ok, assert_eq_ok, pure_eq_ok]
  exact ⟨⟨⟩, le, trivial⟩

/-- A record is put on the clock that starts at `offset`. -/
def TraceRecord.shift (offset : Timestamp) (record : TraceRecord) : Except Panic TraceRecord := do
  let ts ← subTs record.ts offset
  return { record with ts := ts }

/-- A record on the clock that is `offset` behind. -/
def TraceRecord.later (offset : Timestamp) (record : TraceRecord) : TraceRecord :=
  { record with ts := record.ts + offset }

/-- A record on the clock that starts at `offset`. -/
def TraceRecord.since (offset : Timestamp) (record : TraceRecord) : TraceRecord :=
  { record with ts := record.ts - offset }

theorem TraceRecord.shift_eq {offset : Timestamp} {record : TraceRecord}
    (le : offset ≤ record.ts) : record.shift offset = .ok (record.since offset) := by
  simp only [shift, subTs_eq le, since, bind, Except.bind, pure, Except.pure]

theorem mapM_shift_eq {offset : Timestamp} {records : List TraceRecord}
    (le : ∀ record ∈ records, offset ≤ record.ts) :
    records.mapM (TraceRecord.shift offset) = .ok (records.map (TraceRecord.since offset)) := by
  induction records with
  | nil => rfl
  | cons record records ih =>
      rw [List.mapM_cons, TraceRecord.shift_eq (le record (List.mem_cons_self ..)),
        ih fun other mem => le other (List.mem_cons_of_mem _ mem)]
      rfl

def AppEventKind.mapRecords (f : TraceRecord → TraceRecord) : AppEventKind → AppEventKind
  | .flowComplete flows => .flowComplete (flows.map f)
  | kind => kind

/-- An event on the clock that is `offset` behind. -/
def AppEvent.later (offset : Timestamp) (event : AppEvent) : AppEvent :=
  ⟨event.ts + offset, event.event.mapRecords (TraceRecord.later offset)⟩

/-- An event on the clock that starts at `offset`. -/
def AppEvent.since (offset : Timestamp) (event : AppEvent) : AppEvent :=
  ⟨event.ts - offset, event.event.mapRecords (TraceRecord.since offset)⟩

/-- Neither the event nor a record in it is older than `offset`. -/
def AppEvent.NotBefore (offset : Timestamp) (event : AppEvent) : Prop :=
  offset ≤ event.ts ∧ ∀ record ∈ event.event.completions, offset ≤ record.ts

instance (offset : Timestamp) (event : AppEvent) : Decidable (event.NotBefore offset) :=
  inferInstanceAs (Decidable (_ ∧ _))

theorem TraceRecord.later_since {offset : Timestamp} {record : TraceRecord}
    (notBefore : offset ≤ record.ts) : (record.since offset).later offset = record := by
  cases record
  simp only [TraceRecord.since, TraceRecord.later, Nat.sub_add_cancel notBefore]

/-- Nothing is lost on the clock of a member. -/
theorem AppEvent.later_since {offset : Timestamp} {event : AppEvent}
    (notBefore : event.NotBefore offset) : (event.since offset).later offset = event := by
  rcases event with ⟨ts, kind⟩
  rcases notBefore with ⟨notBefore, records⟩
  cases kind with
  | flowComplete flows =>
      have same : flows.map (TraceRecord.later offset ∘ TraceRecord.since offset) = flows := by
        refine (List.map_congr_left fun record mem => ?_).trans (List.map_id flows)
        exact TraceRecord.later_since (records record mem)
      simp [AppEvent.since, AppEvent.later, AppEventKind.mapRecords, Nat.sub_add_cancel notBefore,
        same]
  | _ =>
      simp [AppEvent.since, AppEvent.later, AppEventKind.mapRecords, Nat.sub_add_cancel notBefore]

/-- The events of a member on the clock that is `offset` behind. -/
def Event.later (offset : Timestamp) : Event → Event
  | .flowArrive flows => .flowArrive (flows.map (TraceRecord.later offset))
  | event => event

/-- Whether an event registers a timer that only an adapter may register. -/
def Event.ofAdapter : Event → Bool
  | .adapterRegisterTimer _ _ _ => true
  | _ => false

/-- A step of the simulator starts no application. -/
theorem runOneStep_ne_appStart {platform : Platform} {limit : Option Timestamp}
    {sim sim' : Simulator} {appEvent : AppEvent}
    (run : sim.runOneStep platform limit = .ok (sim', appEvent)) : appEvent.event ≠ .appStart := by
  simp only [Simulator.runOneStep, bind_eq_ok, pure_eq_ok, Prod.exists, Prod.mk.injEq] at run
  rcases run with ⟨last, kind, stepped, rfl, rfl⟩
  rcases Simulator.exists_turns_of_run stepped with ⟨_, _, halt⟩
  cases halt with
  | fired _ _ _ _ _ _ =>
      unfold Simulator.notification
      split <;> simp
  | _ => simp

/-- Only `AppFinish` finishes the simulation. -/
theorem finished_iff {sim sim' : Simulator} {event : Event} {result : OnEventResult}
    (handled : sim.onEvent event = .ok (sim', result)) :
    result = .simulationFinished ↔ .appFinish = event := by
  cases event with
  | flowArrive recs =>
      simp only [Simulator.onEvent, Simulator.flowArrive, bind_eq_ok] at handled
      rcases handled with ⟨_, _, state, _, moved⟩
      split at moved
      · simp only [bind_eq_ok, pure_eq_ok, Prod.mk.injEq] at moved
        rcases moved with ⟨_, _, _, rfl⟩
        simp
      · simp only [pure_eq_ok, Prod.mk.injEq] at moved
        simp [← moved.2]
  | _ =>
      simp only [Simulator.onEvent, Except.ok.injEq, Prod.mk.injEq] at handled
      simp [← handled.2]

/-- The flows that arrive with some events. -/
def arrivalsOf (events : List Event) : List TraceRecord :=
  events.flatMap fun event => (Simulator.Input.onEvent event).records

theorem arrivalsOf_append (events later : List Event) :
    arrivalsOf (events ++ later) = arrivalsOf events ++ arrivalsOf later :=
  List.flatMap_append

theorem arrivalsOf_cons (event : Event) (events : List Event) :
    arrivalsOf (event :: events) = (Simulator.Input.onEvent event).records ++ arrivalsOf events :=
  List.flatMap_cons

theorem arrivalsOf_later (offset : Timestamp) (events : List Event) :
    arrivalsOf (events.map (Event.later offset)) =
      (arrivalsOf events).map (TraceRecord.later offset) := by
  induction events with
  | nil => rfl
  | cons event events ih =>
      rw [List.map_cons, arrivalsOf_cons, arrivalsOf_cons, List.map_append, ih]
      cases event <;> rfl

end Phantora.Netsim
