import Mathlib.Logic.Relation
import Phantora.EventQueue.Inversion

/-!
# The steps inside a call

A call of the event queue is a sequence of small steps on the queue and on an
agenda of what remains to be done: events to release, to launch, to finish and
completed flows to handle. What every small step preserves, every call
preserves, whatever rollbacks happen inside it.
-/

namespace Phantora

open Outcome

namespace EventQueue

/-- What remains to be done inside a call. -/
inductive Task where
  /-- A pending event that waits for nothing more is to be pushed. -/
  | release (e : EventId)
  /-- An event is being pushed. -/
  | launch (e : EventId) (action : Option Action) (time : ℤ)
  /-- The flow of an event has arrived, the start of the event is not queued. -/
  | board (e : EventId) (flow : Netsim.Flow) (info : CommMeta) (time : ℤ)
  /-- A flow has completed. -/
  | complete (r : Netsim.TraceRecord) (appEventTs : ℕ)
  /-- The end of an event is to be recorded. -/
  | finish (e : EventId) (startTime endTime : ℤ)

abbrev Agenda := List Task

/-- The task may wait while the network runs. -/
def Task.Deferred : Task → Prop
  | .launch _ _ _ => False
  | .finish _ _ _ => False
  | _ => True

/-- Every task of the agenda may wait. -/
def Agenda.Deferred (agenda : Agenda) : Prop :=
  ∀ task ∈ agenda, task.Deferred

theorem Agenda.Deferred.cons {agenda : Agenda} {task : Task} (deferred : agenda.Deferred)
    (head : task.Deferred) : Agenda.Deferred (task :: agenda) := by
  intro other mem
  rcases List.mem_cons.mp mem with rfl | mem
  · exact head
  · exact deferred other mem

theorem Agenda.Deferred.map {α : Type} {agenda : Agenda} (deferred : agenda.Deferred)
    (f : α → Task) (each : ∀ item, (f item).Deferred) (items : List α) :
    Agenda.Deferred (items.map f ++ agenda) := by
  intro task mem
  rcases List.mem_append.mp mem with mem | mem
  · rcases List.mem_map.mp mem with ⟨item, _, rfl⟩
    exact each item
  · exact deferred task mem

theorem Agenda.deferred_nil : Agenda.Deferred [] := by
  intro task mem
  cases mem

/-- The end of an event is recorded. -/
def finished (queue : EventQueue) (e : EventId) (startTime endTime : ℤ) : EventQueue :=
  { queue with
    ended := Function.update queue.ended e (some (startTime, endTime)) }.recordTimelineSpan
      e startTime endTime

/-- What the end of an event does to the pending ones, and which of them it releases. -/
structure Noted (queue : EventQueue) (e : EventId) (endTime : ℤ)
    (pending : EventId → Option Pending) (released : List EventId) : Prop where
  pending : ∀ other, pending other = if other ∈ queue.revDependencies e then
    (queue.pending other).map (Pending.noted e endTime) else queue.pending other
  nodup : released.Nodup
  released : ∀ other, other ∈ released ↔ other ∈ queue.revDependencies e ∧
    ∃ p, queue.pending other = some p ∧ some e ∈ p.dependencies ∧
      p.dependencies.erase (some e) = ∅

/-- A pending event stays pending, perhaps without one dependency. -/
theorem Noted.eq_some {queue : EventQueue} {e : EventId} {endTime : ℤ}
    {pending : EventId → Option Pending} {released : List EventId}
    (noted : Noted queue e endTime pending released) {other : EventId} {p' : Pending}
    (known : pending other = some p') : ∃ p, queue.pending other = some p ∧
      (p' = p ∨ (other ∈ queue.revDependencies e ∧ p' = p.noted e endTime)) := by
  rw [noted.pending] at known
  split at known
  · rename_i mem
    rcases Option.map_eq_some_iff.mp known with ⟨p, old, rfl⟩
    exact ⟨p, old, Or.inr ⟨mem, rfl⟩⟩
  · exact ⟨p', known, Or.inl rfl⟩

theorem Noted.eq_none_iff {queue : EventQueue} {e : EventId} {endTime : ℤ}
    {pending : EventId → Option Pending} {released : List EventId}
    (noted : Noted queue e endTime pending released) (other : EventId) :
    pending other = none ↔ queue.pending other = none := by
  rw [noted.pending]
  split <;> simp

/-- A new event with its registered dependencies. -/
structure Registered (queue : EventQueue) (dependsOn : List (Option EventId)) (time : ℤ)
    (rev : EventId → List EventId) (depends : Finset (Option EventId)) (arriveTime : ℤ) : Prop where
  rev : ∀ {d e}, e ∈ rev d ↔
    e ∈ queue.revDependencies d ∨ (e = queue.eventCounter ∧ some d ∈ dependsOn)
  later : time ≤ arriveTime
  ended : ∀ {d}, some d ∈ dependsOn → queue.ended d = none ∨ queue.EndedBy d arriveTime
  depends : ∀ dep, dep ∈ depends ↔ dep ∈ dependsOn ∧ ∀ d, dep = some d → queue.ended d = none
  latest : arriveTime = time ∨ ∃ d startTime, some d ∈ dependsOn ∧
    queue.ended d = some (startTime, arriveTime)

/-- The call names events that exist, and the flow it brings is new. -/
def Call.Valid (queue : EventQueue) : Call → Prop
  | .addActionOrPoint dependsOn action _ => (∀ d, some d ∈ dependsOn → d < queue.eventCounter) ∧
      ∀ flow e known, flowOf action = some flow → queue.eventToFlow e = some known →
        known.id ≠ flow.id
  | .addDependency id dep => id < queue.eventCounter ∧ ∀ d, dep = some d → d < queue.eventCounter
  | _ => True

/-- One small step inside a call. -/
inductive Small (platform : Platform) : Agenda × EventQueue → Agenda × EventQueue → Prop where
  | note {agenda : Agenda} {queue : EventQueue} (entries : List LogEntry) (counter : ℕ) :
      entries.filterMap LogEntry.created? = [] → entries.filterMap LogEntry.action? = [] →
      entries.filterMap LogEntry.span? = [] →
      Small platform (agenda, queue)
        (agenda, { queue with log := entries ++ queue.log, queueCounter := counter })
  | release {agenda : Agenda} {queue : EventQueue} {e : EventId} {p : Pending} :
      queue.pending e = some p →
      Small platform (.release e :: agenda, queue)
        (.launch e p.action (max p.depEndTime p.arriveTime) :: agenda,
          { queue with pending := Function.update queue.pending e none })
  | point {agenda : Agenda} {queue : EventQueue} {e : EventId} {time : ℤ} (counter : ℕ) :
      Small platform (.launch e none time :: agenda, queue)
        (agenda, queue.pushEntry (.pointOf e) time counter)
  | compute {agenda : Agenda} {queue : EventQueue} {e : EventId} {node : HostId}
      {duration time : ℤ} {info : ComputeMeta} (counter : ℕ) :
      Small platform (.launch e (some (.computation node duration info)) time :: agenda, queue)
        (agenda, (queue.pushStart e (.computation node duration info) time
          counter).recordTimelineAction e (.computation node duration info))
  | arrive {agenda : Agenda} {queue : EventQueue} {e : EventId} {flow : Netsim.Flow}
      {info : CommMeta} {time : ℤ} {netsim : Netsim.Simulator} {result : Netsim.OnEventResult} :
      0 ≤ time → queue.netsim.onEvent (.flowArrive [flowRecord e flow time]) =
        .ok (netsim, result) →
      Small platform (.launch e (some (.communication flow info)) time :: agenda, queue)
        (.board e { flow with token := some e } info time :: agenda,
          { queue with netsim := netsim }.recordTimelineAction e
            (.communication { flow with token := some e } info))
  | board {agenda : Agenda} {queue : EventQueue} {e : EventId} {flow : Netsim.Flow}
      {info : CommMeta} {time : ℤ} (counter : ℕ) :
      Small platform (.board e flow info time :: agenda, queue)
        (agenda, queue.pushStart e (.communication flow info) time counter)
  | landed {agenda : Agenda} {queue : EventQueue} {e : EventId} {flow : Netsim.Flow}
      {info : CommMeta} {time : ℤ} :
      Small platform (.board e flow info time :: agenda, queue) (agenda, queue)
  | move {agenda : Agenda} {queue : EventQueue} {netsim : Netsim.Simulator} {appEventTs : ℕ}
      {flows : List Netsim.TraceRecord} :
      agenda.Deferred →
      queue.netsim.runOneStep platform none =
        .ok (netsim, ⟨appEventTs, .flowComplete flows⟩) →
      Small platform (agenda, queue)
        (flows.map (.complete · appEventTs) ++ agenda, { queue with netsim := netsim })
  | complete {agenda : Agenda} {queue : EventQueue} {r : Netsim.TraceRecord} {appEventTs : ℕ}
      {e : EventId} {started : EventId → Option ℤ} (counter : ℕ) :
      r.flow.token = some e → (∀ other, other ≠ e → started other = queue.started other) →
      Small platform (.complete r appEventTs :: agenda, queue)
        (agenda, { queue with started := started }.pushEntry (.endOf e)
          (appEventTs / 1000 : ℕ) counter)
  | arrived {agenda : Agenda} {queue : EventQueue} {r : Netsim.TraceRecord} {appEventTs : ℕ}
      {e other : EventId} {flow : Netsim.Flow} {info : CommMeta} {time : ℤ} :
      r.flow.token = some other → r.flow.id = flow.id → Task.board e flow info time ∈ agenda →
      Small platform (.complete r appEventTs :: agenda, queue)
        (.finish e time (appEventTs / 1000 : ℕ) :: agenda, queue)
  | reach {queue : EventQueue} {e : EventId} {time : ℤ} {counter : ℕ} :
      (QueueEvent.pointOf e, toLex (time, counter)) ∈ queue.eventQueue →
      Small platform ([], queue)
        ([.finish e time time],
          { queue with eventQueue := queue.eventQueue.erase (.pointOf e) })
  | stop {queue : EventQueue} {e : EventId} {time startTime : ℤ}
      {counter : ℕ} :
      (QueueEvent.endOf e, toLex (time, counter)) ∈ queue.eventQueue →
      queue.started e = some startTime →
      Small platform ([], queue)
        ([.finish e startTime time],
          { queue with
            eventQueue := queue.eventQueue.erase (.endOf e)
            started := Function.update queue.started e none })
  | startComputation {queue : EventQueue} {e : EventId} {time : ℤ}
      {counter : ℕ} {node : HostId} {duration : ℤ} {info : ComputeMeta} (counter' : ℕ) :
      (QueueEvent.startOf e, toLex (time, counter)) ∈ queue.eventQueue →
      queue.inQueueNotStarted e = some (.computation node duration info) →
      Small platform ([], queue)
        ([], { queue with
          eventQueue := (queue.eventQueue.erase (.startOf e)).push (.endOf e)
            (toLex (time + duration, counter'))
          inQueueNotStarted := Function.update queue.inQueueNotStarted e none
          started := Function.update queue.started e (some time) })
  | startFlow {queue : EventQueue} {e : EventId} {time : ℤ}
      {counter : ℕ} {flow : Netsim.Flow} {info : CommMeta} :
      (QueueEvent.startOf e, toLex (time, counter)) ∈ queue.eventQueue →
      queue.inQueueNotStarted e = some (.communication flow info) →
      Small platform ([], queue)
        ([], { queue with
          eventQueue := queue.eventQueue.erase (.startOf e)
          inQueueNotStarted := Function.update queue.inQueueNotStarted e none
          started := Function.update queue.started e (some time) })
  | finish {agenda : Agenda} {queue : EventQueue} {e : EventId} {startTime endTime : ℤ}
      {pending : EventId → Option Pending} {released : List EventId} :
      Noted queue e endTime pending released →
      Small platform (.finish e startTime endTime :: agenda, queue)
        (released.map .release ++ agenda,
          { queue.finished e startTime endTime with pending := pending })
  | add {queue : EventQueue} {dependsOn : List (Option EventId)}
      {action : Option Action} {time : ℤ} {rev : EventId → List EventId}
      {depends : Finset (Option EventId)} {arriveTime : ℤ} :
      Call.Valid queue (.addActionOrPoint dependsOn action time) →
      Registered queue dependsOn time rev depends arriveTime → depends = ∅ →
      Small platform ([], queue)
        ([.launch queue.eventCounter action arriveTime],
          { queue.issue dependsOn action time with revDependencies := rev })
  | wait {queue : EventQueue} {dependsOn : List (Option EventId)}
      {action : Option Action} {time : ℤ} {rev : EventId → List EventId}
      {depends : Finset (Option EventId)} {arriveTime : ℤ} :
      Call.Valid queue (.addActionOrPoint dependsOn action time) →
      Registered queue dependsOn time rev depends arriveTime → depends ≠ ∅ →
      Small platform ([], queue)
        ([], { queue.issue dependsOn action time with
          revDependencies := rev
          pending := Function.update queue.pending queue.eventCounter
            (some ⟨depends, arriveTime, 0, action⟩) })
  | register {queue : EventQueue} {e d : EventId} :
      Call.Valid queue (.addDependency e (some d)) → queue.ended d ≠ none →
      Small platform ([], queue) ([], queue.addRevDependency d e)
  | depend {queue : EventQueue} {e d : EventId} {p : Pending} :
      Call.Valid queue (.addDependency e (some d)) →
      queue.ended d = none → queue.pending e = some p →
      Small platform ([], queue)
        ([], { queue.addRevDependency d e with
          pending := Function.update queue.pending e
            (some { p with dependencies := insert (some d) p.dependencies }) })
  | block {queue : EventQueue} {e : EventId} {p : Pending} :
      queue.pending e = some p →
      Small platform ([], queue)
        ([], { queue with
          pending := Function.update queue.pending e
            (some { p with dependencies := insert none p.dependencies }) })
  | unblock {queue : EventQueue} {e : EventId} {p : Pending} :
      queue.pending e = some p →
      Small platform ([], queue)
        (if p.dependencies.erase none = ∅ then [.release e] else [],
          { queue with
            pending := Function.update queue.pending e
              (some { p with dependencies := p.dependencies.erase none }) })

/-- Small steps lead from one agenda and queue to another. -/
def Works (platform : Platform) : Agenda × EventQueue → Agenda × EventQueue → Prop :=
  Relation.ReflTransGen (Small platform)

/-- An invariant of the small steps holds after any number of them. -/
theorem Works.invariant {platform : Platform} {before after : Agenda × EventQueue}
    (P : Agenda × EventQueue → Prop)
    (preserved : ∀ {first second}, P first → Small platform first second → P second)
    (start : P before) (works : Works platform before after) : P after := by
  induction works with
  | refl => exact start
  | tail _ last ih => exact preserved ih last

section Push

variable {platform : Platform} {push : EventQueue → PushEvent → ℤ → Except Panic EventQueue}
  {queue queue' : EventQueue}

/-- A push made of small steps. -/
structure Pushes (platform : Platform)
    (push : EventQueue → PushEvent → ℤ → Except Panic EventQueue) : Prop where
  launches : ∀ {queue e action time queue'}, push queue (pushOf e action) time = .ok queue' →
    ∀ agenda : Agenda, agenda.Deferred →
      Works platform (.launch e action time :: agenda, queue) (agenda, queue')
  ends : ∀ {queue e time queue'}, push queue (.endOf e) time = .ok queue' →
    queue' = { queue with queueCounter := queue.queueCounter + 1 }.pushEntry (.endOf e) time
      queue.queueCounter

/-- Only the insertion counter changes. -/
theorem small_count (platform : Platform) (agenda : Agenda) (queue : EventQueue) (counter : ℕ) :
    Small platform (agenda, queue) (agenda, { queue with queueCounter := counter }) :=
  .note [] counter rfl rfl rfl

theorem works_releases (pushes : Pushes platform push) {events : List EventId}
    (run : events.foldlM (release push) queue = .ok queue') {agenda : Agenda}
    (deferred : agenda.Deferred) :
    Works platform (events.map .release ++ agenda, queue) (agenda, queue') := by
  induction events generalizing queue with
  | nil =>
      simp only [List.foldlM_nil, pure_eq_ok] at run
      exact run ▸ .refl
  | cons e events ih =>
      simp only [List.foldlM_cons, bind_eq_ok] at run
      rcases run with ⟨middle, first, rest⟩
      rcases release_eq_ok first with ⟨p, known, pushed⟩
      exact (Relation.ReflTransGen.single (.release known)).trans
        ((pushes.launches pushed _ (deferred.map .release (fun _ => trivial) events)).trans
          (ih rest))

theorem works_endEventWith (pushes : Pushes platform push) {e : EventId} {startTime endTime : ℤ}
    (run : endEventWith platform push queue e startTime endTime = .ok queue') {agenda : Agenda}
    (deferred : agenda.Deferred) :
    Works platform (.finish e startTime endTime :: agenda, queue) (agenda, queue') := by
  simp only [endEventWith] at run
  rcases noteEndeds_eq e endTime (platform.order (queue.finished e startTime endTime).log.length
    ((queue.finished e startTime endTime).revDependencies e))
    (queue.finished e startTime endTime) []
    with ⟨pending, released, folded, changed, nodup, members⟩
  rw [finished] at folded
  rw [folded, List.nil_append] at run
  have noted : Noted queue e endTime pending released := by
    refine ⟨fun other => ?_, nodup, fun other => ?_⟩
    · rw [changed]
      simp only [Platform.mem_order]
      rfl
    · rw [members]
      simp only [Platform.mem_order]
      rfl
  exact (Relation.ReflTransGen.single (.finish noted)).trans (works_releases pushes run deferred)

theorem works_rollbackRecord (pushes : Pushes platform push) {e : EventId} {flow : Netsim.Flow}
    {info : CommMeta} {time : ℤ} {appEventTs : ℕ} {loop loop' : RollbackLoop}
    {r : Netsim.TraceRecord} {agenda : Agenda} (deferred : agenda.Deferred)
    (boards : Task.board e flow info time ∈ agenda)
    (run : rollbackRecord platform push e time flow appEventTs loop r = .ok loop') :
    Works platform (.complete r appEventTs :: agenda, loop.queue) (agenda, loop'.queue) := by
  rcases rollbackRecord_eq_ok run with ⟨event, token, new | old⟩
  · rcases new with ⟨same, final, ended, rfl⟩
    exact (Relation.ReflTransGen.single (.arrived token same boards)).trans
      (works_endEventWith pushes ended deferred)
  · rcases old with ⟨_, final, pushed, rfl⟩
    have completes : ∀ other, other ≠ event →
        Function.update loop.queue.started event (some ((r.ts / 1000 : ℕ) : ℤ)) other =
          loop.queue.started other := fun other differs => Function.update_of_ne differs _ _
    rw [pushes.ends pushed]
    exact (Relation.ReflTransGen.single (small_count platform _ _ _)).tail
      (.complete _ token completes)

theorem works_rollbackRecords (pushes : Pushes platform push) {e : EventId} {flow : Netsim.Flow}
    {info : CommMeta} {time : ℤ} {appEventTs : ℕ} {loop loop' : RollbackLoop}
    {flows : List Netsim.TraceRecord} {agenda : Agenda} (deferred : agenda.Deferred)
    (boards : Task.board e flow info time ∈ agenda)
    (run : flows.foldlM (rollbackRecord platform push e time flow appEventTs) loop = .ok loop') :
    Works platform (flows.map (.complete · appEventTs) ++ agenda, loop.queue)
      (agenda, loop'.queue) := by
  induction flows generalizing loop with
  | nil =>
      simp only [List.foldlM_nil, pure_eq_ok] at run
      exact run ▸ .refl
  | cons r flows ih =>
      simp only [List.foldlM_cons, bind_eq_ok] at run
      rcases run with ⟨middle, first, rest⟩
      have waiting := deferred.map (.complete · appEventTs) (fun _ => trivial) flows
      exact (works_rollbackRecord pushes waiting (List.mem_append_right _ boards) first).trans
        (ih rest)

theorem works_rollbackLoop (pushes : Pushes platform push) {e : EventId} {flow : Netsim.Flow}
    {info : CommMeta} {time : ℤ} {fuel : ℕ} {loop loop' : RollbackLoop} {agenda : Agenda}
    (deferred : agenda.Deferred) (boards : Task.board e flow info time ∈ agenda)
    (run : rollbackLoop platform push e time flow fuel loop = .ok loop') :
    Works platform (agenda, loop.queue) (agenda, loop'.queue) := by
  induction fuel generalizing loop with
  | zero => simp [rollbackLoop] at run
  | succ fuel ih =>
      simp only [rollbackLoop] at run
      split at run
      · simp only [Except.ok.injEq] at run
        exact run ▸ .refl
      · simp only [bind_eq_ok, Prod.exists] at run
        rcases run with ⟨queue, appEventTs, flows, stepped, middle, handled, rest⟩
        rcases netsimRunOneStep_eq_ok stepped with ⟨netsim, moved, rfl⟩
        have records := works_rollbackRecords pushes deferred boards handled
        exact (Relation.ReflTransGen.single (.move deferred moved)).trans (records.trans (ih rest))

theorem pushes_pushEvent (platform : Platform) (fuel : ℕ) :
    Pushes platform (pushEvent platform fuel) := by
  induction fuel with
  | zero => exact ⟨fun run => by simp [pushEvent] at run, fun run => by simp [pushEvent] at run⟩
  | succ fuel ih =>
      refine ⟨?_, ?_⟩
      · intro queue e action time queue' run agenda deferred
        have counted := small_count platform (.launch e action time :: agenda) queue
          (queue.queueCounter + 1)
        rcases action with _ | ⟨node, duration, info⟩ | ⟨flow, info⟩
        · simp only [pushEvent, pushOf, Except.ok.injEq] at run
          subst run
          exact (Relation.ReflTransGen.single counted).tail (.point _)
        · simp only [pushEvent, pushOf, Except.ok.injEq] at run
          subst run
          exact (Relation.ReflTransGen.single counted).tail (.compute queue.queueCounter)
        · rcases pushFlow_eq_ok run with ⟨nonneg, netsim, result, arrival, rest⟩
          have arrived := (Relation.ReflTransGen.single counted).tail (.arrive nonneg arrival)
          rcases rest with ⟨_, rfl⟩ | ⟨flows, loop, fuel', same, rolled, looped, rfl⟩
          · exact arrived.tail (.board _)
          · rw [Nat.succ_inj] at same
            subst same
            have rollbacked := arrived.tail
              (.note [.rollbacked flows] (queue.queueCounter + 1) rfl rfl rfl)
            have waiting : Agenda.Deferred
                (.board e { flow with token := some e } info time :: agenda) :=
              deferred.cons trivial
            have loops := rollbacked.trans
              (works_rollbackLoop ih waiting List.mem_cons_self looped)
            split
            · exact loops.tail .landed
            · exact loops.tail (.board _)
      · intro queue e time queue' run
        simp only [pushEvent, Except.ok.injEq] at run
        exact run.symm

end Push

section Calls

variable {platform : Platform} {queue queue' : EventQueue}

theorem works_tryProceedNetsim {proceeded : Bool}
    (run : queue.tryProceedNetsim platform = .ok (queue', proceeded)) :
    Works platform ([], queue) ([], queue') := by
  simp only [tryProceedNetsim, bind_eq_ok, Prod.exists] at run
  rcases run with ⟨middle, appEventTs, flows, stepped, run⟩
  rcases netsimRunOneStep_eq_ok stepped with ⟨netsim, moved, rfl⟩
  have moves : Small platform ([], queue)
      (flows.map (.complete · appEventTs) ++ [], { queue with netsim := netsim }) :=
    .move Agenda.deferred_nil moved
  split at run
  · rename_i nothing
    simp only [pure_eq_ok, Prod.mk.injEq] at run
    rcases run with ⟨rfl, _⟩
    rw [nothing] at moves
    exact .single moves
  · simp only [bind_eq_ok, pure_eq_ok, Prod.mk.injEq] at run
    rcases run with ⟨final, folded, rfl, _⟩
    refine (Relation.ReflTransGen.single moves).trans ?_
    have queues : ∀ (flows : List Netsim.TraceRecord) (queue final : EventQueue),
        flows.foldlM (queueFlowEnd platform appEventTs) queue = .ok final →
        Works platform (flows.map (.complete · appEventTs) ++ [], queue) ([], final) := by
      intro flows
      induction flows with
      | nil =>
          intro queue final run
          simp only [List.foldlM_nil, pure_eq_ok] at run
          exact run ▸ .refl
      | cons r flows ih =>
          intro queue final run
          simp only [List.foldlM_cons, bind_eq_ok] at run
          rcases run with ⟨middle, first, rest⟩
          simp only [queueFlowEnd, bind_eq_ok, unwrap_eq_ok, assert_eq_ok] at first
          rcases first with ⟨event, token, _, _, _, _, pushed⟩
          refine Relation.ReflTransGen.trans ?_ (ih middle final rest)
          rw [(pushes_pushEvent platform platform.fuel).ends pushed]
          refine .tail (.single (small_count platform _ queue (queue.queueCounter + 1))) ?_
          exact Small.complete queue.queueCounter token fun _ _ => rfl
    exact queues flows _ _ folded

theorem works_peekNextTime {time : Option ℤ}
    (run : queue.peekNextTime platform = .ok (queue', time)) :
    Works platform ([], queue) ([], queue') := by
  have general : ∀ fuel queue, peekNextTimeLoop platform fuel queue = .ok (queue', time) →
      Works platform ([], queue) ([], queue') := by
    intro fuel
    induction fuel with
    | zero =>
        intro queue run
        simp [peekNextTimeLoop] at run
    | succ fuel ih =>
        intro queue run
        simp only [peekNextTimeLoop] at run
        split at run
        · simp only [Except.ok.injEq, Prod.mk.injEq] at run
          exact run.1 ▸ .refl
        · simp only [bind_eq_ok, Prod.exists] at run
          rcases run with ⟨middle, proceeded, tried, run⟩
          refine (works_tryProceedNetsim tried).trans ?_
          split at run
          · exact ih middle run
          · simp only [pure_eq_ok, Prod.mk.injEq] at run
            exact run.1 ▸ .refl
  exact general _ _ run

theorem works_executeEvent {event : QueueEvent} {time : ℤ} {counter : ℕ} {step : QueueStep}
    (mem : (event, toLex (time, counter)) ∈ queue.eventQueue)
    (run : { queue with eventQueue := queue.eventQueue.erase event }.executeEvent platform event
      time = .ok (queue', step)) : Works platform ([], queue) ([], queue') := by
  have pushes := pushes_pushEvent platform platform.fuel
  cases event with
  | pointOf id =>
      simp only [executeEvent, bind_eq_ok, pure_eq_ok, Prod.mk.injEq] at run
      rcases run with ⟨final, ended, rfl, _⟩
      exact (Relation.ReflTransGen.single (.reach mem)).trans
        (works_endEventWith pushes ended Agenda.deferred_nil)
  | endOf id =>
      simp only [executeEvent, bind_eq_ok, unwrap_eq_ok, pure_eq_ok, Prod.mk.injEq] at run
      rcases run with ⟨startTime, known, final, ended, rfl, _⟩
      exact (Relation.ReflTransGen.single (.stop mem known)).trans
        (works_endEventWith pushes ended Agenda.deferred_nil)
  | startOf id =>
      simp only [executeEvent, bind_eq_ok, unwrap_eq_ok, pure_eq_ok, Prod.mk.injEq] at run
      rcases run with ⟨action, known, middle, scheduled, rfl, _⟩
      cases action with
      | computation node duration info =>
          have pushed := pushes.ends scheduled
          subst pushed
          refine .tail (.single (small_count platform [] queue (queue.queueCounter + 1))) ?_
          exact Small.startComputation queue.queueCounter mem known
      | communication flow info =>
          simp only [scheduleEnd, Except.ok.injEq] at scheduled
          exact scheduled ▸ .single (.startFlow mem known)

theorem works_execute {step : QueueStep} (run : queue.execute platform = .ok (queue', step)) :
    Works platform ([], queue) ([], queue') := by
  have general : ∀ fuel queue, executeLoop platform fuel queue = .ok (queue', step) →
      Works platform ([], queue) ([], queue') := by
    intro fuel
    induction fuel with
    | zero =>
        intro queue run
        simp [executeLoop] at run
    | succ fuel ih =>
        intro queue run
        simp only [executeLoop] at run
        split at run
        · simp only [bind_eq_ok, Prod.exists] at run
          rcases run with ⟨middle, proceeded, tried, run⟩
          refine (works_tryProceedNetsim tried).trans ?_
          split at run
          · exact ih middle run
          · simp only [pure_eq_ok, Prod.mk.injEq] at run
            exact run.1 ▸ .refl
        · rename_i event time popped first
          rcases popEvent_eq_some first with ⟨⟨counter, mem⟩, rfl⟩
          exact works_executeEvent mem run
  exact general _ _ run

theorem works_addActionOrPoint {dependsOn : List (Option EventId)} {action : Option Action}
    {time : ℤ} {id : EventId}
    (valid : Call.Valid queue (.addActionOrPoint dependsOn action time))
    (run : queue.addActionOrPoint platform dependsOn action time = .ok (queue', id)) :
    Works platform ([], queue) ([], queue') := by
  simp only [addActionOrPoint] at run
  rcases registerDependencies_eq queue.eventCounter dependsOn (queue.issue dependsOn action time)
    ∅ time with ⟨rev, depends, time', registered, revs, later, ends, members, latest⟩
  rw [registered] at run
  have known : Registered queue dependsOn time rev depends time' :=
    ⟨revs, later, ends, fun dep => (members dep).trans (by simp [issue]), latest⟩
  dsimp only at run
  split at run
  · rename_i empty
    simp only [bind_eq_ok, pure_eq_ok, Prod.mk.injEq] at run
    rcases run with ⟨final, pushed, rfl, _⟩
    exact (Relation.ReflTransGen.single (.add valid known empty)).trans
      ((pushes_pushEvent platform platform.fuel).launches pushed [] Agenda.deferred_nil)
  · rename_i nonempty
    simp only [pure_eq_ok, Prod.mk.injEq] at run
    rcases run with ⟨rfl, _⟩
    exact .single (.wait valid known nonempty)

theorem works_addDependency {id : EventId} {dep : Option EventId}
    (valid : Call.Valid queue (.addDependency id dep))
    (run : queue.addDependency id dep = .ok queue') : Works platform ([], queue) ([], queue') := by
  cases dep with
  | none =>
      simp only [addDependency, Option.any_none, Bool.false_eq_true, if_false, bind_eq_ok,
        unwrap_eq_ok, pure_eq_ok] at run
      rcases run with ⟨p, known, rfl⟩
      exact .single (.block known)
  | some d =>
      simp only [addDependency, Option.any_some] at run
      split at run
      · rename_i ended
        simp only [pure_eq_ok] at run
        subst run
        exact .single (.register valid (Option.isSome_iff_ne_none.mp ended))
      · rename_i unended
        simp only [bind_eq_ok, unwrap_eq_ok, pure_eq_ok] at run
        rcases run with ⟨p, known, rfl⟩
        exact .single (.depend valid (Option.not_isSome_iff_eq_none.mp unended) known)

theorem works_removeNoneDependency {id : EventId}
    (run : queue.removeNoneDependency platform id = .ok queue') :
    Works platform ([], queue) ([], queue') := by
  unfold removeNoneDependency at run
  split at run
  · simp only [Except.ok.injEq] at run
    exact run ▸ .refl
  · rename_i p known
    dsimp only at run
    have unblocked : Small platform ([], queue) _ := .unblock known
    split at run
    · rename_i empty
      rw [if_pos empty] at unblocked
      rcases release_eq_ok run with ⟨p', known', pushed⟩
      exact ((Relation.ReflTransGen.single unblocked).tail (.release known')).trans
        ((pushes_pushEvent platform platform.fuel).launches pushed [] Agenda.deferred_nil)
    · rename_i nonempty
      rw [if_neg nonempty] at unblocked
      simp only [Except.ok.injEq] at run
      exact run ▸ .single unblocked

/-- Every valid call is made of small steps. -/
theorem Step.works {call : Call} (valid : call.Valid queue)
    (step : Step platform queue call queue') :
    Works platform ([], queue) ([], queue') := by
  rcases step with ⟨answer, run⟩
  cases call with
  | addActionOrPoint =>
      simp only [perform, bind_eq_ok, pure_eq_ok, Prod.exists, Prod.mk.injEq] at run
      rcases run with ⟨_, _, added, rfl, _⟩
      exact works_addActionOrPoint valid added
  | addDependency =>
      simp only [perform, bind_eq_ok, pure_eq_ok, Prod.mk.injEq] at run
      rcases run with ⟨_, added, rfl, _⟩
      exact works_addDependency valid added
  | removeNoneDependency =>
      simp only [perform, bind_eq_ok, pure_eq_ok, Prod.mk.injEq] at run
      rcases run with ⟨_, removed, rfl, _⟩
      exact works_removeNoneDependency removed
  | peekNextTime =>
      simp only [perform, bind_eq_ok, pure_eq_ok, Prod.exists, Prod.mk.injEq] at run
      rcases run with ⟨_, _, peeked, rfl, _⟩
      exact works_peekNextTime peeked
  | execute =>
      simp only [perform, bind_eq_ok, pure_eq_ok, Prod.exists, Prod.mk.injEq] at run
      rcases run with ⟨_, _, executed, rfl, _⟩
      exact works_execute executed

end Calls

end EventQueue

end Phantora
