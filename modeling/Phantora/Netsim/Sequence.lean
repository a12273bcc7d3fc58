import Phantora.Netsim.Members

/-!
# Applications one after the other

`Sequence` starts each of its applications when the one before has finished,
on a clock of its own.
-/

namespace Phantora.Netsim

open Outcome

/-- The applications, their outputs and the times at which they have started. -/
structure Sequence (α T : Type) where
  apps : List (Member α T)
  output : List T := []
  curApp : ℕ := 0
  startTime : List Timestamp := [0]
  /-- The calls of the applications, in their order. -/
  calls : List Call := []
  /-- What has been passed to the simulator. -/
  passed : List Event := []

namespace Sequence

variable {α T : Type}

/-- The current application is told an event. -/
def call (seq : Sequence α T) (now : Timestamp) (event : AppEvent) :
    Except Panic (Sequence α T × List Event) := do
  let member ← unwrap seq.apps[seq.curApp]? Panic.appOutOfRange
  return ({ seq with
    apps := seq.apps.set seq.curApp (member.onEvent event).1
    calls := seq.calls ++ [⟨seq.curApp, now, event, (member.onEvent event).2⟩] },
    (member.onEvent event).2)

/-- One event of an application is passed on, or the next application starts. -/
def passEvent (appStartTime now : Timestamp) (acc : Sequence α T × List Event)
    (simEvent : Event) : Except Panic (Sequence α T × List Event) := do
  let (seq, events) := acc
  match simEvent with
  | .appFinish =>
      let member ← unwrap seq.apps[seq.curApp]? Panic.appOutOfRange
      let seq := { seq with output := seq.output ++ [member.output], curApp := seq.curApp + 1 }
      if seq.curApp < seq.apps.length then
        let seq := { seq with startTime := seq.startTime ++ [now] }
        let (seq, answer) ← seq.call now ⟨0, .appStart⟩
        return (seq, events ++ answer)
      else
        return (seq, events ++ [.appFinish])
  | .flowArrive flows =>
      return (seq, events ++ [.flowArrive (flows.map (TraceRecord.later appStartTime))])
  | .userRegisterTimer after token => return (seq, events ++ [.userRegisterTimer after token])
  | .adapterRegisterTimer _ _ _ => throw Panic.adapterTimer

/-- The records of a completion on the clock of the application. -/
def shiftEvent (appStartTime : Timestamp) (event : AppEvent) : Except Panic AppEvent := do
  match event.event with
  | .flowComplete flows =>
      let flows ← flows.mapM (TraceRecord.shift appStartTime)
      let ts ← subTs event.ts appStartTime
      return ⟨ts, .flowComplete flows⟩
  | kind =>
      let ts ← subTs event.ts appStartTime
      return ⟨ts, kind⟩

def onEvent (seq : Sequence α T) (event : AppEvent) :
    Except Panic (Sequence α T × List Event) := do
  let appStartTime ← unwrap seq.startTime[seq.curApp]? Panic.appOutOfRange
  let newEvent ← shiftEvent appStartTime event
  let (seq, answer) ← seq.call event.ts newEvent
  let (seq, events) ← answer.foldlM (passEvent appStartTime event.ts) (seq, [])
  return ({ seq with passed := seq.passed ++ events }, events)

/-- The sequence is an application until it fails. -/
def application : Application (Except Panic (Sequence α T)) where
  onEvent state event :=
    match state.bind fun seq => seq.onEvent event with
    | .ok (seq, events) => (.ok seq, events)
    | .error failure => (.error failure, [])

/-- The start of an application that has started. -/
def startOf (seq : Sequence α T) (app : ℕ) : Timestamp :=
  seq.startTime.getD app 0

/-- What the current application answers to an event on its clock. -/
def answerTo (seq : Sequence α T) (event : AppEvent) : List Event :=
  match seq.apps[seq.curApp]? with
  | some member => (member.onEvent (event.since (seq.startOf seq.curApp))).2
  | none => []

/-- No event dates from before the start of the current application, and the application answers
it with at most one `AppFinish` and without a timer of an adapter. An application that starts
then does not finish at once, and lets no flow arrive, unless it starts at time zero. -/
structure Orderly (seq : Sequence α T) (event : AppEvent) : Prop where
  notBefore : event.NotBefore (seq.startOf seq.curApp)
  noAdapterTimer : ∀ own ∈ seq.answerTo event, own.ofAdapter = false
  finishesOnce : (seq.answerTo event).count .appFinish ≤ 1
  quietStart : .appFinish ∈ seq.answerTo event →
    ∀ next ∈ seq.apps[seq.curApp + 1]?, .appFinish ∉ (next.onEvent ⟨0, .appStart⟩).2 ∧
      (event.ts = 0 ∨ arrivalsOf (next.onEvent ⟨0, .appStart⟩).2 = [])

theorem orderly_iff (seq : Sequence α T) (event : AppEvent) : seq.Orderly event ↔
    event.NotBefore (seq.startOf seq.curApp) ∧
    (∀ own ∈ seq.answerTo event, own.ofAdapter = false) ∧
    (seq.answerTo event).count .appFinish ≤ 1 ∧
    (.appFinish ∈ seq.answerTo event →
      ∀ next ∈ seq.apps[seq.curApp + 1]?, .appFinish ∉ (next.onEvent ⟨0, .appStart⟩).2 ∧
        (event.ts = 0 ∨ arrivalsOf (next.onEvent ⟨0, .appStart⟩).2 = [])) :=
  ⟨fun orderly => ⟨orderly.1, orderly.2, orderly.3, orderly.4⟩,
    fun ⟨notBefore, noAdapterTimer, finishesOnce, quietStart⟩ =>
      ⟨notBefore, noAdapterTimer, finishesOnce, quietStart⟩⟩

instance (seq : Sequence α T) (event : AppEvent) : Decidable (seq.Orderly event) :=
  decidable_of_iff' _ (orderly_iff seq event)

theorem shiftEvent_eq {appStartTime : Timestamp} {event : AppEvent}
    (notBefore : event.NotBefore appStartTime) :
    shiftEvent appStartTime event = .ok (event.since appStartTime) := by
  rcases event with ⟨ts, kind⟩
  rcases notBefore with ⟨notBefore, records⟩
  cases kind with
  | flowComplete flows =>
      have all : flows.mapM (TraceRecord.shift appStartTime) =
          .ok (flows.map (TraceRecord.since appStartTime)) := mapM_shift_eq records
      simp only [shiftEvent, all, subTs_eq notBefore, bind, Except.bind]
      rfl
  | _ =>
      simp only [shiftEvent, subTs_eq notBefore, bind, Except.bind]
      rfl

/-- Events other than `AppFinish` are passed on, their flows later by the start. -/
theorem passEvents_eq {appStartTime now : Timestamp} {answer : List Event} (seq : Sequence α T)
    (events : List Event) (continues : .appFinish ∉ answer)
    (noAdapterTimer : ∀ own ∈ answer, own.ofAdapter = false) :
    answer.foldlM (passEvent appStartTime now) (seq, events) =
      .ok (seq, events ++ answer.map (Event.later appStartTime)) := by
  induction answer generalizing events with
  | nil => simp [pure, Except.pure]
  | cons event answer ih =>
      have one : passEvent appStartTime now (seq, events) event =
          .ok (seq, events ++ [event.later appStartTime]) := by
        cases event with
        | appFinish => exact absurd (List.mem_cons_self ..) continues
        | adapterRegisterTimer after token timerId =>
            cases noAdapterTimer _ (List.mem_cons_self ..)
        | flowArrive flows => rfl
        | userRegisterTimer after token => rfl
      rw [List.foldlM_cons, one]
      simp only [bind, Except.bind]
      rw [ih _ (fun mem => continues (List.mem_cons_of_mem _ mem))
        fun own mem => noAdapterTimer own (List.mem_cons_of_mem _ mem)]
      rw [List.append_assoc, List.map_cons, List.singleton_append]

/-- The current application has been called. -/
def called (seq : Sequence α T) (member : Member α T) (event : AppEvent) : Sequence α T :=
  { seq with
    apps := seq.apps.set seq.curApp (member.onEvent (event.since (seq.startOf seq.curApp))).1
    calls := seq.calls ++ [⟨seq.curApp, event.ts, event.since (seq.startOf seq.curApp),
      seq.answerTo event⟩] }

/-- The current application has finished. -/
def finished (seq : Sequence α T) (member : Member α T) : Sequence α T :=
  { seq with output := seq.output ++ [member.output], curApp := seq.curApp + 1 }

/-- The next application has started. -/
def begun (seq : Sequence α T) (now : Timestamp) (member : Member α T) : Sequence α T :=
  { seq with
    apps := seq.apps.set seq.curApp (member.onEvent ⟨0, .appStart⟩).1
    startTime := seq.startTime ++ [now]
    calls := seq.calls ++ [⟨seq.curApp, now, ⟨0, .appStart⟩,
      (member.onEvent ⟨0, .appStart⟩).2⟩] }

/-- Some events have been passed to the simulator. -/
def gave (seq : Sequence α T) (events : List Event) : Sequence α T :=
  { seq with passed := seq.passed ++ events }

/-- The current application has been called and has finished. -/
def ended (seq : Sequence α T) (event : AppEvent) (member : Member α T) : Sequence α T :=
  (seq.called member event).finished
    (member.onEvent (event.since (seq.startOf seq.curApp))).1

/-- The next application has started after that. -/
def switched (seq : Sequence α T) (event : AppEvent) (member next : Member α T) : Sequence α T :=
  (seq.ended event member).begun event.ts next

/-- The current application is told the event and goes on, or it finishes and the next one
starts, or it finishes and is the last one. -/
inductive Turn (seq : Sequence α T) (event : AppEvent) (member : Member α T) :
    Sequence α T → List Event → Prop where
  | goesOn (noFinish : .appFinish ∉ seq.answerTo event) :
      Turn seq event member
        ((seq.called member event).gave
          ((seq.answerTo event).map (Event.later (seq.startOf seq.curApp))))
        ((seq.answerTo event).map (Event.later (seq.startOf seq.curApp)))
  | switches (next : Member α T) (pre post : List Event)
      (split : seq.answerTo event = pre ++ .appFinish :: post)
      (at_next : seq.apps[seq.curApp + 1]? = some next) :
      Turn seq event member
        ((seq.switched event member next).gave (pre.map (Event.later (seq.startOf seq.curApp)) ++
            (next.onEvent ⟨0, .appStart⟩).2 ++ post.map (Event.later (seq.startOf seq.curApp))))
        (pre.map (Event.later (seq.startOf seq.curApp)) ++
          (next.onEvent ⟨0, .appStart⟩).2 ++ post.map (Event.later (seq.startOf seq.curApp)))
  | ends (pre post : List Event) (split : seq.answerTo event = pre ++ .appFinish :: post)
      (last : seq.apps.length = seq.curApp + 1) :
      Turn seq event member
        ((seq.ended event member).gave (pre.map (Event.later (seq.startOf seq.curApp)) ++
          .appFinish :: post.map (Event.later (seq.startOf seq.curApp))))
        (pre.map (Event.later (seq.startOf seq.curApp)) ++ .appFinish ::
          post.map (Event.later (seq.startOf seq.curApp)))

theorem call_eq {seq : Sequence α T} {event : AppEvent} {member : Member α T}
    (at_app : seq.apps[seq.curApp]? = some member) :
    seq.call event.ts (event.since (seq.startOf seq.curApp)) =
      .ok (seq.called member event, seq.answerTo event) := by
  simp only [call, called, answerTo, at_app, unwrap, bind, Except.bind, pure, Except.pure]

/-- After an application has finished the next one starts. -/
theorem passEvent_switch {seq : Sequence α T} {appStartTime now : Timestamp} {events : List Event}
    {member next : Member α T} (at_app : seq.apps[seq.curApp]? = some member)
    (at_next : seq.apps[seq.curApp + 1]? = some next) :
    passEvent appStartTime now (seq, events) .appFinish =
      .ok ((seq.finished member).begun now next,
        events ++ (next.onEvent ⟨0, .appStart⟩).2) := by
  have lt := (List.getElem?_eq_some_iff.mp at_next).1
  simp only [passEvent, at_app, unwrap, call, lt, at_next, finished, begun, bind, Except.bind, pure,
    Except.pure, if_true]

/-- After the last application has finished the sequence has. -/
theorem passEvent_end {seq : Sequence α T} {appStartTime now : Timestamp} {events : List Event}
    {member : Member α T} (at_app : seq.apps[seq.curApp]? = some member)
    (last : seq.apps.length = seq.curApp + 1) :
    passEvent appStartTime now (seq, events) .appFinish =
      .ok (seq.finished member, events ++ [.appFinish]) := by
  have not_lt : ¬seq.curApp + 1 < seq.apps.length := by omega
  simp only [passEvent, at_app, unwrap, not_lt, finished, bind, Except.bind, pure, Except.pure,
    if_false]

theorem Orderly.turn {seq : Sequence α T} {event : AppEvent} (orderly : seq.Orderly event)
    {member : Member α T} (at_app : seq.apps[seq.curApp]? = some member)
    (started : seq.curApp < seq.startTime.length) :
    ∃ seq' events, seq.onEvent event = .ok (seq', events) ∧ seq.Turn event member seq' events := by
  have start : seq.startTime[seq.curApp]? = some (seq.startOf seq.curApp) := by
    rw [startOf, List.getD_eq_getElem?_getD, List.getElem?_eq_getElem started, Option.getD_some]
  have opening : seq.onEvent event = (do
      let (seq', events) ← (seq.answerTo event).foldlM
        (passEvent (seq.startOf seq.curApp) event.ts) (seq.called member event, [])
      return ({ seq' with passed := seq'.passed ++ events }, events)) := by
    simp only [onEvent, start, unwrap, shiftEvent_eq orderly.notBefore, call_eq at_app, bind,
      Except.bind]
  by_cases finishes : .appFinish ∈ seq.answerTo event
  · rcases List.append_of_mem finishes with ⟨pre, post, split⟩
    have once := orderly.finishesOnce
    rw [split, List.count_append, List.count_cons_self] at once
    have noPre : .appFinish ∉ pre := List.count_eq_zero.mp (by omega)
    have noPost : .appFinish ∉ post := List.count_eq_zero.mp (by omega)
    have allowed := orderly.noAdapterTimer
    rw [split] at allowed
    have allowedPre : ∀ own ∈ pre, own.ofAdapter = false :=
      fun own mem => allowed own (List.mem_append_left _ mem)
    have allowedPost : ∀ own ∈ post, own.ofAdapter = false :=
      fun own mem => allowed own (List.mem_append_right _ (List.mem_cons_of_mem _ mem))
    have lt := (List.getElem?_eq_some_iff.mp at_app).1
    have own : (seq.called member event).apps[(seq.called member event).curApp]? =
        some (member.onEvent (event.since (seq.startOf seq.curApp))).1 :=
      List.getElem?_set_self lt
    cases at_next : seq.apps[seq.curApp + 1]? with
    | some next =>
        have nextLt := (List.getElem?_eq_some_iff.mp at_next).1
        refine ⟨_, _, ?_, .switches next pre post split at_next⟩
        have still : (seq.called member event).apps[seq.curApp + 1]? = some next :=
          (List.getElem?_set_ne (by omega)).trans at_next
        rw [opening, split, List.foldlM_append, passEvents_eq _ _ noPre allowedPre, ok_bind,
          List.foldlM_cons, passEvent_switch own still, ok_bind,
          passEvents_eq _ _ noPost allowedPost, ok_bind, List.nil_append]
        rfl
    | none =>
        have last : seq.apps.length = seq.curApp + 1 := by
          have le := List.getElem?_eq_none_iff.mp at_next
          omega
        refine ⟨_, _, ?_, .ends pre post split last⟩
        rw [opening, split, List.foldlM_append, passEvents_eq _ _ noPre allowedPre, ok_bind,
          List.foldlM_cons, passEvent_end own ((List.length_set ..).trans last), ok_bind,
          passEvents_eq _ _ noPost allowedPost, ok_bind, List.nil_append, List.append_assoc]
        rfl
  · refine ⟨_, _, ?_, .goesOn finishes⟩
    rw [opening, passEvents_eq _ _ finishes orderly.noAdapterTimer]
    rfl

/-- How often the application has answered `AppFinish`. -/
def finishesOf (seq : Sequence α T) (app : ℕ) : ℕ :=
  ((callsOf seq.calls app).flatMap Call.answer).count .appFinish

/-- The flows that an application emits in a call, on the clock of the simulator. -/
def emitted (seq : Sequence α T) (call : Call) : List TraceRecord :=
  (arrivalsOf call.answer).map (TraceRecord.later (seq.startOf call.app))

/-- The applications run one after the other, each on the clock that starts when the one before
finishes. -/
structure Scheduled (members : List (Member α T)) (seq : Sequence α T) : Prop where
  /-- What the applications answer is what they answer to what they are told. -/
  logged : Logged members seq.apps seq.calls
  le : seq.curApp ≤ members.length
  inTurn : (seq.calls.map Call.app).Pairwise (· ≤ ·)
  called : ∀ call ∈ seq.calls, call.app ≤ seq.curApp ∧ call.app < members.length
  /-- An application has started when the one before has finished. -/
  started : seq.startTime.length = min (seq.curApp + 1) members.length
  first : seq.startTime[0]? = some 0
  follows : ∀ (app : ℕ) (start : Timestamp), seq.startTime[app + 1]? = some start →
    ∃ call ∈ seq.calls, call.app = app ∧ call.now = start ∧ .appFinish ∈ call.answer
  /-- The first call of an application tells it that it starts. -/
  greeted : ∀ (app : ℕ) (start : Timestamp), seq.startTime[app + 1]? = some start →
    ∃ answer, (callsOf seq.calls (app + 1)).head? =
      some ⟨app + 1, start, ⟨0, .appStart⟩, answer⟩
  clock : ∀ call ∈ seq.calls, call.now = call.event.ts + seq.startOf call.app
  outputs : seq.output = (seq.apps.take seq.curApp).map Member.output

/-- Each application finishes once, the sequence does with the last one, and every flow is passed
on once, on the clock of the simulator. -/
structure InOrder (members : List (Member α T)) (seq : Sequence α T) : Prop
    extends Scheduled members seq where
  finishes : ∀ app, seq.finishesOf app = if app < seq.curApp then 1 else 0
  entered : (arrivalsOf seq.passed).Perm (seq.calls.flatMap seq.emitted)
  finish : seq.passed.count .appFinish = if seq.curApp = members.length then 1 else 0

/-- A sequence to which nothing has happened. -/
def new (members : List (Member α T)) : Sequence α T where
  apps := members

theorem inOrder_new {members : List (Member α T)} (nonempty : members ≠ []) :
    (new members).InOrder members where
  logged := .nil members
  le := Nat.zero_le _
  inTurn := .nil
  started := by
    have pos := List.length_pos_of_ne_nil nonempty
    simp only [new, List.length_singleton]
    omega
  called _ mem := absurd mem List.not_mem_nil
  first := rfl
  follows _ _ at_app := by simp [new] at at_app
  greeted _ _ at_app := by simp [new] at at_app
  clock _ mem := absurd mem List.not_mem_nil
  finishes _ := rfl
  outputs := rfl
  entered := .refl _
  finish := by
    have pos := List.length_pos_of_ne_nil nonempty
    exact (if_neg (Nat.ne_of_lt pos)).symm

theorem startOf_begun {seq : Sequence α T} {now : Timestamp} {member : Member α T} {app : ℕ}
    (lt : app < seq.startTime.length) : (seq.begun now member).startOf app = seq.startOf app := by
  simp only [startOf, begun, List.getD_eq_getElem?_getD, List.getElem?_append_left lt]

theorem startOf_begun_self {seq : Sequence α T} {now : Timestamp} {member : Member α T}
    (length : seq.startTime.length = seq.curApp) :
    (seq.begun now member).startOf seq.curApp = now := by
  simp [startOf, begun, ← length]

/-- The calls of the applications that have started. -/
theorem Scheduled.lt_started {members : List (Member α T)} {seq : Sequence α T}
    (scheduled : seq.Scheduled members) {call : Call} (mem : call ∈ seq.calls) :
    call.app < seq.startTime.length := by
  have called := scheduled.called call mem
  have started := scheduled.started
  omega

theorem emitted_begun {seq : Sequence α T}
    (lt : ∀ call ∈ seq.calls, call.app < seq.startTime.length) (now : Timestamp)
    (member : Member α T) :
    seq.calls.flatMap (seq.begun now member).emitted = seq.calls.flatMap seq.emitted := by
  apply List.flatMap_congr
  intro call mem
  simp only [emitted, startOf_begun (lt call mem)]

theorem pairwise_snoc {calls : List Call} {call : Call}
    (inTurn : (calls.map Call.app).Pairwise (· ≤ ·)) (le : ∀ other ∈ calls, other.app ≤ call.app) :
    ((calls ++ [call]).map Call.app).Pairwise (· ≤ ·) := by
  rw [List.map_append, List.pairwise_append]
  refine ⟨inTurn, List.pairwise_singleton _ _, ?_⟩
  intro app mem other other_mem
  rcases List.mem_map.mp mem with ⟨before, before_mem, rfl⟩
  simp only [List.map_singleton, List.mem_singleton] at other_mem
  exact other_mem ▸ le before before_mem

theorem head?_callsOf_snoc {calls : List Call} {call : Call} {app : ℕ} {head : Call}
    (at_head : (callsOf calls app).head? = some head) :
    (callsOf (calls ++ [call]) app).head? = some head := by
  rw [callsOf_append, List.head?_append, at_head, Option.some_or]

theorem callsOf_eq_nil {calls : List Call} {app : ℕ} (lt : ∀ call ∈ calls, call.app < app) :
    callsOf calls app = [] := by
  refine List.filter_eq_nil_iff.mpr fun call mem => ?_
  simpa using Nat.ne_of_lt (lt call mem)

theorem count_finish_snoc (calls : List Call) (call : Call) (app : ℕ) :
    ((callsOf (calls ++ [call]) app).flatMap Call.answer).count .appFinish =
      ((callsOf calls app).flatMap Call.answer).count .appFinish +
        if call.app = app then call.answer.count .appFinish else 0 := by
  rw [callsOf_append, List.flatMap_append, List.count_append]
  by_cases own : call.app = app
  · simp [callsOf, own]
  · simp [callsOf, own]

section Turn

variable {members : List (Member α T)} {seq seq' : Sequence α T} {event : AppEvent}
  {member next : Member α T} {events : List Event}

theorem answerTo_eq (at_app : seq.apps[seq.curApp]? = some member) :
    seq.answerTo event = (member.onEvent (event.since (seq.startOf seq.curApp))).2 := by
  simp only [answerTo, at_app]

/-- The current application is called. -/
theorem Scheduled.call (scheduled : seq.Scheduled members)
    (at_app : seq.apps[seq.curApp]? = some member) (le : seq.startOf seq.curApp ≤ event.ts) :
    (seq.called member event).Scheduled members where
  logged := by
    simp only [Sequence.called, answerTo_eq at_app]
    exact scheduled.logged.call at_app event.ts _
  le := scheduled.le
  inTurn := pairwise_snoc scheduled.inTurn fun other mem => (scheduled.called other mem).1
  called call mem := by
    rcases List.mem_append.mp mem with before | last
    · exact scheduled.called call before
    · have lt := (List.getElem?_eq_some_iff.mp at_app).1
      rw [List.mem_singleton.mp last]
      exact ⟨Nat.le_refl _, scheduled.logged.length ▸ lt⟩
  started := scheduled.started
  first := scheduled.first
  follows app start at_start := by
    rcases scheduled.follows app start at_start with ⟨call, mem, rest⟩
    exact ⟨call, List.mem_append_left _ mem, rest⟩
  greeted app start at_start := by
    rcases scheduled.greeted app start at_start with ⟨answer, at_head⟩
    exact ⟨answer, head?_callsOf_snoc at_head⟩
  clock call mem := by
    rcases List.mem_append.mp mem with before | last
    · exact scheduled.clock call before
    · rw [List.mem_singleton.mp last]
      exact (Nat.sub_add_cancel le).symm
  outputs := by
    have same : (seq.called member event).apps.take seq.curApp = seq.apps.take seq.curApp :=
      List.take_set_of_le (Nat.le_refl _)
    exact (congrArg (List.map Member.output) same).symm ▸ scheduled.outputs

theorem take_succ_map (scheduled : seq.Scheduled members)
    (at_app : seq.apps[seq.curApp]? = some member) :
    seq.output ++ [member.output] = (seq.apps.take (seq.curApp + 1)).map Member.output := by
  rw [List.take_add_one, at_app, scheduled.outputs, List.map_append]
  rfl

/-- The last application finishes. -/
theorem Scheduled.end (scheduled : seq.Scheduled members)
    (at_app : seq.apps[seq.curApp]? = some member) (last : seq.apps.length = seq.curApp + 1) :
    (seq.finished member).Scheduled members := by
  have length : members.length = seq.curApp + 1 := scheduled.logged.length ▸ last
  have started := scheduled.started
  refine { scheduled with le := ?_, called := ?_, started := ?_, outputs := ?_ }
  · exact Nat.le_of_eq length.symm
  · intro call mem
    have called := scheduled.called call mem
    exact ⟨Nat.le_succ_of_le called.1, called.2⟩
  · simp only [finished]
    omega
  · exact take_succ_map scheduled at_app

/-- An application finishes in a call, and the next one starts. -/
theorem Scheduled.switch (scheduled : seq.Scheduled members)
    (at_app : seq.apps[seq.curApp]? = some member)
    (at_next : seq.apps[seq.curApp + 1]? = some next) {call : Call} (mem : call ∈ seq.calls)
    (own : call.app = seq.curApp) (finishes : .appFinish ∈ call.answer) :
    ((seq.finished member).begun call.now next).Scheduled members := by
  have nextLt := scheduled.logged.length ▸ (List.getElem?_eq_some_iff.mp at_next).1
  have length : seq.startTime.length = seq.curApp + 1 := by
    have started := scheduled.started
    omega
  have lt : ∀ call ∈ seq.calls, call.app < seq.startTime.length :=
    fun _ mem => scheduled.lt_started mem
  have at_last : ∀ {app start}, (seq.startTime ++ [call.now])[app + 1]? = some start →
      seq.startTime[app + 1]? = some start ∨ app = seq.curApp ∧ call.now = start := by
    intro app start at_start
    rcases Nat.lt_or_ge (app + 1) seq.startTime.length with before | after
    · rw [List.getElem?_append_left before] at at_start
      exact Or.inl at_start
    · rw [List.getElem?_append_right after, List.getElem?_singleton] at at_start
      split at at_start
      · exact Or.inr ⟨by omega, Option.some.inj at_start⟩
      · cases at_start
  constructor
  · exact scheduled.logged.call at_next call.now ⟨0, .appStart⟩
  · exact Nat.le_of_lt nextLt
  · exact pairwise_snoc scheduled.inTurn fun other mem =>
      Nat.le_succ_of_le (scheduled.called other mem).1
  · intro other other_mem
    rcases List.mem_append.mp other_mem with before | new
    · have called := scheduled.called other before
      exact ⟨Nat.le_succ_of_le called.1, called.2⟩
    · rw [List.mem_singleton.mp new]
      exact ⟨Nat.le_refl _, nextLt⟩
  · simp only [begun, finished, List.length_append, List.length_singleton]
    omega
  · simp only [begun, finished]
    rw [List.getElem?_append_left (by omega)]
    exact scheduled.first
  · intro app start at_start
    rcases at_last at_start with old | ⟨same, now⟩
    · rcases scheduled.follows app start old with ⟨other, other_mem, rest⟩
      exact ⟨other, List.mem_append_left _ other_mem, rest⟩
    · exact ⟨call, List.mem_append_left _ mem, own.trans same.symm, now, finishes⟩
  · intro app start at_start
    rcases at_last at_start with old | ⟨same, now⟩
    · rcases scheduled.greeted app start old with ⟨answer, at_head⟩
      exact ⟨answer, head?_callsOf_snoc at_head⟩
    · subst same now
      refine ⟨(next.onEvent ⟨0, .appStart⟩).2, ?_⟩
      have none : callsOf seq.calls (seq.curApp + 1) = [] :=
        callsOf_eq_nil fun other mem => Nat.lt_succ_of_le (scheduled.called other mem).1
      simp only [begun, finished, callsOf_append, none, List.nil_append]
      simp [callsOf]
  · intro other other_mem
    rcases List.mem_append.mp other_mem with before | new
    · have same : ((seq.finished member).begun call.now next).startOf other.app =
          (seq.finished member).startOf other.app := startOf_begun (lt other before)
      rw [same]
      exact scheduled.clock other before
    · rw [List.mem_singleton.mp new]
      have self : ((seq.finished member).begun call.now next).startOf (seq.curApp + 1) = call.now :=
        startOf_begun_self length
      exact self.symm.trans (Nat.zero_add _).symm
  · have same : (seq.apps.set (seq.curApp + 1) (next.onEvent ⟨0, .appStart⟩).1).take
        (seq.curApp + 1) = seq.apps.take (seq.curApp + 1) := List.take_set_of_le (Nat.le_refl _)
    exact (congrArg (List.map Member.output) same).symm ▸ take_succ_map scheduled at_app

theorem finishesOf_called (seq : Sequence α T) (event : AppEvent) (member : Member α T) (app : ℕ) :
    (seq.called member event).finishesOf app = seq.finishesOf app +
      if app = seq.curApp then (seq.answerTo event).count .appFinish else 0 := by
  simp only [finishesOf, Sequence.called, count_finish_snoc, eq_comm]

theorem count_finish_later (offset : Timestamp) (events : List Event) :
    (events.map (Event.later offset)).count .appFinish = events.count .appFinish := by
  rw [List.count_eq_countP, List.countP_map, List.count_eq_countP]
  apply List.countP_congr
  intro event _
  cases event <;> simp [Event.later]

/-- An application that finishes in a call has finished once more. -/
theorem finishesOf_finished (inOrder : seq.InOrder members) (member : Member α T)
    (once : (seq.answerTo event).count .appFinish = 1) (app : ℕ) :
    (seq.called member event).finishesOf app = if app < seq.curApp + 1 then 1 else 0 := by
  rw [finishesOf_called, inOrder.finishes, once]
  split_ifs <;> omega

/-- Nothing else finishes the sequence in a turn in which an application finishes. -/
theorem count_finish_split (pre post : List Event)
    (split : seq.answerTo event = pre ++ .appFinish :: post)
    (once : (seq.answerTo event).count .appFinish = 1) :
    pre.count .appFinish = 0 ∧ post.count .appFinish = 0 := by
  rw [split, List.count_append, List.count_cons_self] at once
  omega

theorem arrivalsOf_split (pre post : List Event)
    (split : seq.answerTo event = pre ++ .appFinish :: post) :
    arrivalsOf (seq.answerTo event) = arrivalsOf pre ++ arrivalsOf post := by
  rw [split, arrivalsOf_append, arrivalsOf_cons]
  rfl

theorem later_zero (records : List TraceRecord) : records.map (TraceRecord.later 0) = records :=
  List.map_id records

theorem flatMap_emitted_called :
    (seq.called member event).calls.flatMap (seq.called member event).emitted =
      seq.calls.flatMap seq.emitted ++
        (arrivalsOf (seq.answerTo event)).map (TraceRecord.later (seq.startOf seq.curApp)) := by
  have same : (seq.called member event).emitted = seq.emitted := rfl
  rw [same, Sequence.called, List.flatMap_append, List.flatMap_singleton]
  rfl

/-- A turn in order keeps the order. -/
theorem InOrder.turn (inOrder : seq.InOrder members) (orderly : seq.Orderly event)
    (at_app : seq.apps[seq.curApp]? = some member) (turn : seq.Turn event member seq' events) :
    seq'.InOrder members := by
  have told := inOrder.toScheduled.call at_app orderly.notBefore.1
  have lt := inOrder.logged.length ▸ (List.getElem?_eq_some_iff.mp at_app).1
  have unfinished : seq.passed.count .appFinish = 0 := by
    rw [inOrder.finish, if_neg (Nat.ne_of_lt lt)]
  have own : (seq.called member event).apps[(seq.called member event).curApp]? =
      some (member.onEvent (event.since (seq.startOf seq.curApp))).1 :=
    List.getElem?_set_self (List.getElem?_eq_some_iff.mp at_app).1
  cases turn with
  | goesOn noFinish =>
      have none := List.count_eq_zero.mpr noFinish
      refine ⟨{ told with }, ?_, ?_, ?_⟩
      · intro app
        refine (finishesOf_called seq event member app).trans ?_
        rw [none, ite_self, Nat.add_zero]
        exact inOrder.finishes app
      · simp only [gave, arrivalsOf_append, arrivalsOf_later]
        refine (inOrder.entered.append (.refl _)).trans ?_
        exact .of_eq flatMap_emitted_called.symm
      · refine List.count_append.trans ?_
        rw [count_finish_later, none]
        exact inOrder.finish
  | switches next pre post split at_next =>
      have mem : .appFinish ∈ seq.answerTo event := split ▸ List.mem_append_cons_self
      have once : (seq.answerTo event).count .appFinish = 1 :=
        Nat.le_antisymm orderly.finishesOnce (List.count_pos_iff.mpr mem)
      have nextLt := inOrder.logged.length ▸ (List.getElem?_eq_some_iff.mp at_next).1
      have still : (seq.called member event).apps[seq.curApp + 1]? = some next :=
        (List.getElem?_set_ne (by omega)).trans at_next
      have quiet := orderly.quietStart mem next at_next
      have switched := told.switch own still (List.mem_append_right _ (List.mem_singleton_self _))
        rfl mem
      rcases count_finish_split pre post split once with ⟨noPre, noPost⟩
      refine ⟨{ switched with }, ?_, ?_, ?_⟩
      · intro app
        refine (count_finish_snoc _ _ app).trans ?_
        rw [List.count_eq_zero.mpr quiet.1, ite_self, Nat.add_zero]
        exact finishesOf_finished inOrder member once app
      · have unshifted : (arrivalsOf (next.onEvent ⟨0, .appStart⟩).2).map
            (TraceRecord.later event.ts) = arrivalsOf (next.onEvent ⟨0, .appStart⟩).2 := by
          rcases quiet.2 with zero | empty
          · rw [zero, later_zero]
          · rw [empty, List.map_nil]
        have length : seq.startTime.length = seq.curApp + 1 := by
          have started := inOrder.started
          omega
        have before : (seq.called member event).calls.flatMap
              (seq.switched event member next).emitted =
            (seq.called member event).calls.flatMap (seq.called member event).emitted :=
          emitted_begun (fun _ mem => told.lt_started mem) event.ts next
        have start : (seq.switched event member next).startOf (seq.curApp + 1) = event.ts :=
          startOf_begun_self length
        change (arrivalsOf (seq.passed ++ _)).Perm (((seq.called member event).calls ++
          [Call.mk (seq.curApp + 1) event.ts ⟨0, .appStart⟩
            (next.onEvent ⟨0, .appStart⟩).2]).flatMap (seq.switched event member next).emitted)
        rw [List.flatMap_append, before, List.flatMap_singleton, emitted, start, unshifted,
          flatMap_emitted_called, arrivalsOf_split pre post split, arrivalsOf_append,
          arrivalsOf_append, arrivalsOf_append, arrivalsOf_later, arrivalsOf_later,
          List.map_append, List.append_assoc, List.append_assoc]
        refine inOrder.entered.append ?_
        rw [List.append_assoc]
        exact (List.Perm.refl _).append List.perm_append_comm
      · change (seq.passed ++ _).count .appFinish = if seq.curApp + 1 = _ then 1 else 0
        rw [List.count_append, List.count_append, List.count_append, count_finish_later,
          count_finish_later, noPre, noPost, List.count_eq_zero.mpr quiet.1, unfinished, if_neg]
        exact Nat.ne_of_lt nextLt
  | ends pre post split last =>
      have mem : .appFinish ∈ seq.answerTo event := split ▸ List.mem_append_cons_self
      have once : (seq.answerTo event).count .appFinish = 1 :=
        Nat.le_antisymm orderly.finishesOnce (List.count_pos_iff.mpr mem)
      have ended := told.end own ((List.length_set ..).trans last)
      rcases count_finish_split pre post split once with ⟨noPre, noPost⟩
      refine ⟨{ ended with }, fun app => finishesOf_finished inOrder member once app, ?_, ?_⟩
      · change (arrivalsOf (seq.passed ++ _)).Perm
          ((seq.called member event).calls.flatMap (seq.called member event).emitted)
        rw [flatMap_emitted_called, arrivalsOf_split pre post split, arrivalsOf_append,
          arrivalsOf_append, arrivalsOf_cons, arrivalsOf_later, arrivalsOf_later, List.map_append]
        exact inOrder.entered.append (.refl _)
      · change (seq.passed ++ _).count .appFinish = if seq.curApp + 1 = _ then 1 else 0
        rw [List.count_append, List.count_append, List.count_cons_self, count_finish_later,
          count_finish_later, noPre, noPost, unfinished, if_pos]
        exact last.symm.trans inOrder.logged.length

/-- A call in which the simulator tells an application; the sequence itself tells the others
after the first one that they start. -/
def IsDelivery (call : Call) : Prop :=
  call.app = 0 ∨ call.event.event ≠ .appStart

instance (call : Call) : Decidable (IsDelivery call) :=
  inferInstanceAs (Decidable (_ ∨ _))

/-- What the applications have been told, on the clock of the simulator. -/
def delivered (seq : Sequence α T) : List AppEvent :=
  (seq.calls.filter IsDelivery).map fun call => call.event.later (seq.startOf call.app)

theorem delivered_called (member : Member α T)
    (notBefore : event.NotBefore (seq.startOf seq.curApp))
    (isDelivery : seq.curApp = 0 ∨ event.event ≠ .appStart) :
    (seq.called member event).delivered = seq.delivered ++ [event] := by
  have counts : IsDelivery ⟨seq.curApp, event.ts, event.since (seq.startOf seq.curApp),
      seq.answerTo event⟩ := by
    refine isDelivery.imp_right fun ne same => ne ?_
    rcases event with ⟨ts, kind⟩
    cases kind with
    | flowComplete flows => cases same
    | _ => exact same
  have shifted := AppEvent.later_since notBefore
  simp only [delivered, Sequence.called, List.filter_append, List.map_append]
  rw [List.filter_singleton, decide_eq_true counts, cond_true, List.map_singleton]
  exact congrArg (seq.delivered ++ [·]) shifted

/-- In a turn the applications are told one event of the simulator. -/
theorem Turn.delivered_eq (turn : seq.Turn event member seq' events)
    (inOrder : seq.InOrder members) (at_app : seq.apps[seq.curApp]? = some member)
    (notBefore : event.NotBefore (seq.startOf seq.curApp))
    (isDelivery : seq.curApp = 0 ∨ event.event ≠ .appStart) :
    seq'.delivered = seq.delivered ++ [event] := by
  have told := inOrder.toScheduled.call at_app notBefore.1
  cases turn with
  | goesOn _ => exact delivered_called member notBefore isDelivery
  | switches next pre post _ _ =>
      refine Eq.trans ?_ (delivered_called member notBefore isDelivery)
      have own : ¬IsDelivery ⟨seq.curApp + 1, event.ts, ⟨0, .appStart⟩,
          (next.onEvent ⟨0, .appStart⟩).2⟩ := by
        simp [IsDelivery]
      change (((seq.called member event).calls ++ [Call.mk (seq.curApp + 1) event.ts ⟨0, .appStart⟩
        (next.onEvent ⟨0, .appStart⟩).2]).filter IsDelivery).map _ = _
      rw [List.filter_append, List.filter_singleton, decide_eq_false own, cond_false,
        List.append_nil]
      apply List.map_congr_left
      intro call mem
      have same : (seq.switched event member next).startOf call.app = seq.startOf call.app :=
        startOf_begun (told.lt_started (List.mem_of_mem_filter mem))
      exact congrArg (AppEvent.later · call.event) same
  | ends _ _ _ _ => exact delivered_called member notBefore isDelivery

theorem Turn.passed_eq (turn : seq.Turn event member seq' events) :
    seq'.passed = seq.passed ++ events := by
  cases turn <;> rfl

end Turn

/-- The applications of a sequence run one after the other, as the simulator sees them. -/
structure Composed (members : List (Member α T)) (playing : Playing (Except Panic (Sequence α T)))
    (seq : Sequence α T) : Prop extends InOrder members seq where
  /-- The sequence has not failed. -/
  running : playing.app = .ok seq
  /-- Every event of the simulator has been told to one application, on its clock. -/
  told : playing.told = seq.delivered
  /-- What the sequence has passed on arrives. -/
  arrives : playing.injected ++ arrivalsOf playing.events = arrivalsOf seq.passed
  ends : playing.finished = true ∨ .appFinish ∈ playing.events ↔ seq.curApp = members.length

/-- What the simulator is about to tell is in order. -/
def OrderlyStep (platform : Platform) (playing : Playing (Except Panic (Sequence α T))) : Prop :=
  ∀ event ∈ playing.nextEvent platform, ∀ seq ∈ playing.app.toOption, seq.Orderly event

instance (platform : Platform) (playing : Playing (Except Panic (Sequence α T))) :
    Decidable (OrderlyStep platform playing) :=
  inferInstanceAs (Decidable (∀ event ∈ playing.nextEvent platform,
    ∀ seq ∈ playing.app.toOption, seq.Orderly event))

section Playing

variable {platform : Platform} {members : List (Member α T)}
  {playing playing' : Playing (Except Panic (Sequence α T))} {seq : Sequence α T}

/-- The sequence is told an event of the simulator, and has passed everything on before. -/
theorem InOrder.told (inOrder : seq.InOrder members) (unfinished : seq.curApp < members.length)
    {event : AppEvent} (orderly : seq.Orderly event)
    (isDelivery : seq.curApp = 0 ∨ event.event ≠ .appStart) :
    ∃ seq' events, application.onEvent (.ok seq) event = (.ok seq', events) ∧
      seq'.InOrder members ∧ seq'.delivered = seq.delivered ++ [event] ∧
      seq'.passed = seq.passed ++ events ∧
      (.appFinish ∈ events ↔ seq'.curApp = members.length) := by
  have lt : seq.curApp < seq.apps.length := inOrder.logged.length.symm ▸ unfinished
  have at_app := List.getElem?_eq_getElem lt
  have started := inOrder.started
  rcases orderly.turn at_app (by omega) with ⟨seq', events, run, turn⟩
  have after := inOrder.turn orderly at_app turn
  refine ⟨seq', events, ?_, after, turn.delivered_eq inOrder at_app orderly.notBefore isDelivery,
    turn.passed_eq, ?_⟩
  · simp only [application, Except.bind, run]
  · have finish := after.finish
    rw [turn.passed_eq, List.count_append, inOrder.finish, if_neg (Nat.ne_of_lt unfinished),
      Nat.zero_add] at finish
    rw [← List.count_pos_iff, finish]
    split_ifs with isEnd <;> simp [isEnd]

theorem composed_start {sim : Simulator} (nonempty : members ≠ [])
    (orderly : (new members).Orderly ⟨sim.ts, .appStart⟩) :
    ∃ seq, Composed members (.start application (.ok (new members)) sim) seq := by
  have pos := List.length_pos_of_ne_nil nonempty
  rcases (inOrder_new nonempty).told pos orderly (Or.inl rfl) with
    ⟨seq, events, run, inOrder, delivered, passed, finish⟩
  refine ⟨seq, { inOrder with running := ?_, told := ?_, arrives := ?_, ends := ?_ }⟩
  · simp only [Playing.start, run]
  · rw [delivered]
    rfl
  · simp only [Playing.start, run, passed]
    rfl
  · simpa [Playing.start, run] using finish

/-- An iteration of the loop whose event is in order keeps the order. -/
theorem Composed.next (composed : Composed members playing seq)
    (taken : Playing.Next platform application playing playing')
    (orderly : OrderlyStep platform playing) : ∃ seq', Composed members playing' seq' := by
  rcases Playing.next_eq_ok taken.2 with ⟨event, rest, sim, result, pending, handled, rfl⟩ |
    ⟨sim, event, pending, stepped, rfl⟩
  · refine ⟨seq, { composed with arrives := ?_, ends := ?_ }⟩
    · have arrives := composed.arrives
      rw [pending, arrivalsOf_cons] at arrives
      rw [← arrives, List.append_assoc]
    · have ends := composed.ends
      have isFinish := finished_iff handled
      rw [pending, List.mem_cons] at ends
      simp only [Bool.or_eq_true, decide_eq_true_iff]
      rw [← ends, isFinish, or_assoc]
  · have unfinished : playing.finished = false := by
      have continues := taken.1
      simpa [Playing.isOver, pending] using continues
    have notLast : seq.curApp ≠ members.length := by
      intro last
      rcases composed.ends.mpr last with done | passed
      · rw [unfinished] at done
        cases done
      · rw [pending] at passed
        cases passed
    have isOrderly := orderly event (Playing.nextEvent_eq pending stepped) seq
      (by rw [composed.running]; rfl)
    rcases composed.toInOrder.told (Nat.lt_of_le_of_ne composed.le notLast) isOrderly
      (Or.inr (runOneStep_ne_appStart stepped)) with
      ⟨seq', events, run, inOrder, delivered, passed, finish⟩
    refine ⟨seq', { inOrder with running := ?_, told := ?_, arrives := ?_, ends := ?_ }⟩
    · simp only [composed.running, run]
    · rw [delivered, composed.told]
    · have arrives := composed.arrives
      rw [pending] at arrives
      simp only [composed.running, run]
      rw [passed, arrivalsOf_append, ← arrives]
      simp [arrivalsOf]
    · simp only [composed.running, run, unfinished]
      simpa using finish

/-- As long as every event is in order, the applications run one after the other. -/
theorem composed_of_reached (platform : Platform) (members : List (Member α T)) (sim : Simulator)
    (nonempty : members ≠ []) (orderly : (new members).Orderly ⟨sim.ts, .appStart⟩)
    (reached : Relation.ReflTransGen (fun playing playing' =>
      Playing.Next platform application playing playing' ∧ OrderlyStep platform playing)
      (.start application (.ok (new members)) sim) playing) :
    ∃ seq, Composed members playing seq := by
  induction reached with
  | refl => exact composed_start nonempty orderly
  | tail _ taken ih =>
      rcases ih with ⟨seq, composed⟩
      exact composed.next taken.1 taken.2

end Playing

/-- An application that waits for a timer and finishes when it fires. -/
def waits (after : Duration) : Member Unit Unit where
  app.onEvent _ event :=
    match event.event with
    | .appStart => ((), [.userRegisterTimer after none])
    | .userNotification _ => ((), [.appFinish])
    | _ => ((), [])
  state := ()
  answer := id

/-- An application that starts with a flow and finishes with it. -/
def sends : Member Unit Unit where
  app.onEvent _ event :=
    match event.event with
    | .appStart => ((), [.flowArrive [Playing.transfer 0 2000]])
    | .flowComplete _ => ((), [.appFinish])
    | _ => ((), [])
  state := ()
  answer := id

/-- A flow and then a timer, which the second application starts at its start. -/
theorem composed_of_reached_sends : ∃ playing seq,
    playing.app.toOption.map Sequence.startTime = some [0, 2000] ∧
    playing.told.map AppEvent.ts = [0, 2000, 2005] ∧ playing.isOver = true ∧
    Composed [sends, waits 5] playing seq := by
  have read : (Playing.steps (OrderlyStep (.inOrder 20)) (.inOrder 20) application 20
      (.start application (.ok (new [sends, waits 5]))
        (Simulator.build .pair {} none))).toOption.map (fun playing =>
          (playing.app.toOption.map Sequence.startTime, playing.told.map AppEvent.ts,
            playing.isOver)) = some (some [0, 2000], [0, 2000, 2005], true) := by
    decide +kernel
  rcases exists_ok_of_reading read with ⟨playing, run, reading⟩
  simp only [Prod.mk.injEq] at reading
  rcases composed_of_reached (.inOrder 20) [sends, waits 5] (Simulator.build .pair {} none)
    (by decide) (by decide +kernel) (Playing.reached_of_steps run) with ⟨seq, composed⟩
  exact ⟨playing, seq, reading.1, reading.2.1, reading.2.2, composed⟩

/-- The flow of the second application enters at time zero, five nanoseconds before its start. -/
theorem not_composed_waits : ¬∀ (members : List (Member Unit Unit))
    (playing : Playing (Except Panic (Sequence Unit Unit))), members ≠ [] →
    Relation.ReflTransGen (Playing.Next (.inOrder 20) application)
      (.start application (.ok (new members)) (Simulator.build .pair {} none)) playing →
    ∃ seq, Composed members playing seq := by
  intro claimed
  have read : (Playing.steps (fun _ => True) (.inOrder 20) application 2
      (.start application (.ok (new [waits 5, sends]))
        (Simulator.build .pair {} none))).toOption.map (fun playing =>
          ((arrivalsOf playing.events).map TraceRecord.ts, playing.app.toOption.map fun seq =>
            ((arrivalsOf seq.passed).map TraceRecord.ts,
              (seq.calls.flatMap seq.emitted).map TraceRecord.ts))) =
      some ([0], some ([0], [5])) := by
    decide +kernel
  rcases exists_ok_of_reading read with ⟨playing, run, reading⟩
  simp only [Prod.mk.injEq] at reading
  have reached := Relation.ReflTransGen.mono (fun _ _ taken => taken.1) _ _
    (Playing.reached_of_steps run)
  rcases claimed [waits 5, sends] playing (by decide) reached with ⟨seq, composed⟩
  have entered := composed.entered.map TraceRecord.ts
  have times := reading.2
  simp only [composed.running, Except.toOption, Option.map_some, Option.some.injEq,
    Prod.mk.injEq] at times
  rw [times.1, times.2] at entered
  exact absurd entered (by decide)

end Sequence

end Phantora.Netsim
