import Phantora.EventQueue.Model
import Phantora.Lib.Runs

/-!
# Calls of the event queue

The calls that the simulator makes, the runs made of them, and the log, which
every operation only extends.
-/

namespace Phantora

open Outcome

/-- What the log says about an event that is added. -/
def LogEntry.created? : LogEntry → Option (EventId × List (Option EventId) × Option Action × ℤ)
  | .added id dependsOn what time => some (id, dependsOn, what, time)
  | _ => none

/-- The action that the log records for the timeline. -/
def LogEntry.action? : LogEntry → Option (EventId × Action)
  | .action id what => some (id, what)
  | _ => none

/-- The span that the log records for the timeline. -/
def LogEntry.span? : LogEntry → Option (EventId × ℤ × ℤ)
  | .span id startTime endTime => some (id, startTime, endTime)
  | _ => none

namespace EventQueue

/-- The flow of an action. -/
def flowOf : Option Action → Option Netsim.Flow
  | some (.communication flow _) => some flow
  | _ => none

/-- A call of the event queue. -/
inductive Call where
  | addActionOrPoint (dependsOn : List (Option EventId)) (action : Option Action) (currentTime : ℤ)
  | addDependency (id : EventId) (dep : Option EventId)
  | removeNoneDependency (id : EventId)
  | peekNextTime
  | execute

/-- The identifier of the flow that a call brings. -/
def Call.flowId : Call → Option ℕ
  | .addActionOrPoint _ action _ => (flowOf action).map Netsim.Flow.id
  | _ => none

/-- What a call returns. -/
inductive Answer where
  | created (id : EventId)
  | done
  | next (time : Option ℤ)
  | step (result : QueueStep)
deriving DecidableEq, Repr

def perform (platform : Platform) (queue : EventQueue) :
    Call → Except Panic (EventQueue × Answer)
  | .addActionOrPoint dependsOn action currentTime => do
      let (queue, id) ← queue.addActionOrPoint platform dependsOn action currentTime
      return (queue, .created id)
  | .addDependency id dep => do
      let queue ← queue.addDependency id dep
      return (queue, .done)
  | .removeNoneDependency id => do
      let queue ← queue.removeNoneDependency platform id
      return (queue, .done)
  | .peekNextTime => do
      let (queue, time) ← queue.peekNextTime platform
      return (queue, .next time)
  | .execute => do
      let (queue, result) ← queue.execute platform
      return (queue, .step result)

/-- The queue of a simulator that has just been built. -/
def Initial (queue : EventQueue) : Prop :=
  ∃ cluster setting hostMapping,
    queue = new (Netsim.Simulator.build cluster setting hostMapping)

/-- A successful call. -/
def Step (platform : Platform) (queue : EventQueue) (call : Call) (queue' : EventQueue) : Prop :=
  ∃ answer, queue.perform platform call = .ok (queue', answer)

/-- The events added so far, the last one first. -/
def created (queue : EventQueue) :
    List (EventId × List (Option EventId) × Option Action × ℤ) :=
  queue.log.filterMap LogEntry.created?

/-- The actions recorded so far, the last one first. -/
def actions (queue : EventQueue) : List (EventId × Action) :=
  queue.log.filterMap LogEntry.action?

/-- The spans recorded so far, the last one first. -/
def spans (queue : EventQueue) : List (EventId × ℤ × ℤ) :=
  queue.log.filterMap LogEntry.span?

/-- Between calls that build the graph the log grows and the graph stays. -/
structure Grows (queue queue' : EventQueue) : Prop where
  log : queue.log <:+ queue'.log
  created : queue'.created = queue.created
  eventCounter : queue'.eventCounter = queue.eventCounter
  eventToFlow : queue'.eventToFlow = queue.eventToFlow
  revDependencies : queue'.revDependencies = queue.revDependencies

namespace Grows

theorem refl (queue : EventQueue) : Grows queue queue :=
  ⟨List.suffix_refl _, rfl, rfl, rfl, rfl⟩

theorem trans {first second third : EventQueue} (left : Grows first second)
    (right : Grows second third) : Grows first third :=
  ⟨List.IsSuffix.trans left.log right.log, right.created.trans left.created,
    right.eventCounter.trans left.eventCounter, right.eventToFlow.trans left.eventToFlow,
    right.revDependencies.trans left.revDependencies⟩

/-- The log and the graph of a queue. -/
def record (queue : EventQueue) :
    List LogEntry × ℕ × (EventId → Option Netsim.Flow) × (EventId → List EventId) :=
  (queue.log, queue.eventCounter, queue.eventToFlow, queue.revDependencies)

theorem of_eq {queue queue' : EventQueue} (same : record queue' = record queue) :
    Grows queue queue' := by
  simp only [record, Prod.mk.injEq] at same
  refine ⟨?_, ?_, same.2.1, same.2.2.1, same.2.2.2⟩
  · rw [same.1]
  · rw [EventQueue.created, same.1, EventQueue.created]

/-- New log entries that add no event. -/
theorem of_append {queue queue' : EventQueue} (entries : List LogEntry)
    (notAdded : entries.filterMap LogEntry.created? = [])
    (same : record queue' = (entries ++ queue.log, (record queue).2)) : Grows queue queue' := by
  simp only [record, Prod.mk.injEq] at same
  refine ⟨?_, ?_, same.2.1, same.2.2.1, same.2.2.2⟩
  · rw [same.1]
    exact List.suffix_append _ _
  · rw [EventQueue.created, same.1, List.filterMap_append, notAdded, EventQueue.created,
      List.nil_append]

theorem foldlM {α : Type} {f : EventQueue → α → Except Panic EventQueue} {items : List α}
    (step : ∀ {queue a queue'}, f queue a = .ok queue' → Grows queue queue')
    {queue queue' : EventQueue} (run : items.foldlM f queue = .ok queue') : Grows queue queue' :=
  foldlM_invariant (fun other => Grows queue other)
    (fun _ grows taken => grows.trans (step taken)) (refl queue) run

end Grows

theorem updateFlowStart_grows {queue queue' : EventQueue} {id : EventId} {time : ℤ}
    (run : queue.updateFlowStart id time = .ok queue') : Grows queue queue' := by
  unfold updateFlowStart at run
  split at run
  · simp only [bind_eq_ok, pure_eq_ok] at run
    rcases run with ⟨netsim, _, rfl⟩
    exact .of_eq rfl
  · simp only [Except.ok.injEq] at run
    exact run ▸ .refl queue

theorem changeStartTimeNotless_grows {platform : Platform} {fuel : ℕ} {queue queue' : EventQueue}
    {id : EventId} {time : ℤ}
    (run : changeStartTimeNotless platform fuel queue id time = .ok queue') :
    Grows queue queue' := by
  induction fuel generalizing queue queue' id time with
  | zero => simp [changeStartTimeNotless] at run
  | succ fuel ih =>
      simp only [changeStartTimeNotless] at run
      split at run
      · simp only [Except.ok.injEq] at run
        exact .of_eq (run ▸ rfl)
      · simp only [bind_eq_ok] at run
        rcases run with ⟨middle, updated, run⟩
        refine (updateFlowStart_grows updated).trans ?_
        split at run
        · simp only [pure_eq_ok] at run
          exact .of_eq (run ▸ rfl)
        · split at run
          · split at run
            · simp only [bind_eq_ok, assert_eq_ok, pure_eq_ok] at run
              rcases run with ⟨_, _, rfl⟩
              exact .of_eq rfl
            · simp only [pure_eq_ok] at run
              exact .of_eq (run ▸ rfl)
          · split at run
            · split at run
              · refine Grows.trans ?_ (Grows.foldlM (fun step => ih step) run)
                exact .of_append [.span _ _ _] rfl rfl
              · simp only [pure_eq_ok] at run
                exact .of_eq (run ▸ rfl)
            · simp only [pure_eq_ok] at run
              exact .of_eq (run ▸ rfl)

theorem addEndTimeTo_grows {platform : Platform} {queue queue' : EventQueue} {id : EventId}
    {time : ℤ} (run : addEndTimeTo platform queue id time = .ok queue') : Grows queue queue' := by
  simp only [addEndTimeTo] at run
  split at run
  · simp only [pure_eq_ok] at run
    exact .of_eq (run ▸ rfl)
  · split at run
    · refine Grows.trans ?_ (Grows.foldlM (fun step => changeStartTimeNotless_grows step) run)
      exact .of_append [.span _ _ _] rfl rfl
    · refine Grows.trans ?_ (Grows.foldlM (fun step => changeStartTimeNotless_grows step) run)
      exact .of_eq rfl

theorem noteEnded_grows (id : EventId) (endTime : ℤ) (acc : EventQueue × List EventId)
    (e : EventId) : Grows acc.1 (noteEnded id endTime acc e).1 := by
  simp only [noteEnded]
  split
  · exact .refl _
  · split
    · exact .of_eq rfl
    · exact .refl _

theorem noteEndeds_grows (id : EventId) (endTime : ℤ) (events : List EventId)
    (acc : EventQueue × List EventId) :
    Grows acc.1 (events.foldl (noteEnded id endTime) acc).1 := by
  induction events generalizing acc with
  | nil => exact .refl _
  | cons e events ih =>
      rw [List.foldl_cons]
      exact (noteEnded_grows id endTime acc e).trans (ih _)

section Push

variable {platform : Platform} {push : EventQueue → PushEvent → ℤ → Except Panic EventQueue}

theorem release_grows
    (pushes : ∀ {queue event time queue'}, push queue event time = .ok queue' → Grows queue queue')
    {queue queue' : EventQueue} {id : EventId} (run : release push queue id = .ok queue') :
    Grows queue queue' := by
  simp only [release, bind_eq_ok] at run
  rcases run with ⟨pending, _, run⟩
  refine Grows.trans ?_ (pushes run)
  exact .of_eq rfl

theorem endEventWith_grows
    (pushes : ∀ {queue event time queue'}, push queue event time = .ok queue' → Grows queue queue')
    {queue queue' : EventQueue} {id : EventId} {startTime endTime : ℤ}
    (run : endEventWith platform push queue id startTime endTime = .ok queue') :
    Grows queue queue' := by
  simp only [endEventWith] at run
  refine Grows.trans ?_ (Grows.foldlM (fun step => release_grows pushes step) run)
  refine Grows.trans ?_ (noteEndeds_grows ..)
  exact .of_append [.span id startTime endTime] rfl rfl

theorem rollbackRecord_grows
    (pushes : ∀ {queue event time queue'}, push queue event time = .ok queue' → Grows queue queue')
    {id : EventId} {time : ℤ} {flow : Netsim.Flow} {appEventTs : ℕ} {loop loop' : RollbackLoop}
    {r : Netsim.TraceRecord}
    (run : rollbackRecord platform push id time flow appEventTs loop r = .ok loop') :
    Grows loop.queue loop'.queue := by
  simp only [rollbackRecord, bind_eq_ok] at run
  rcases run with ⟨event, _, run⟩
  split at run
  · simp only [bind_eq_ok, pure_eq_ok] at run
    rcases run with ⟨queue, ended, rfl⟩
    exact endEventWith_grows pushes ended
  · split at run
    · simp only [bind_eq_ok, pure_eq_ok] at run
      rcases run with ⟨queue, amended, rfl⟩
      exact addEndTimeTo_grows amended
    · simp only [bind_eq_ok, assert_eq_ok, pure_eq_ok] at run
      rcases run with ⟨dura, _, _, _, _, _, queue, pushed, rfl⟩
      refine Grows.trans ?_ (pushes pushed)
      exact .of_eq rfl

theorem rollbackRecords_grows
    (pushes : ∀ {queue event time queue'}, push queue event time = .ok queue' → Grows queue queue')
    {id : EventId} {time : ℤ} {flow : Netsim.Flow} {appEventTs : ℕ} {loop loop' : RollbackLoop}
    {flows : List Netsim.TraceRecord}
    (run : flows.foldlM (rollbackRecord platform push id time flow appEventTs) loop = .ok loop') :
    Grows loop.queue loop'.queue :=
  foldlM_invariant (fun other : RollbackLoop => Grows loop.queue other.queue)
    (fun _ grows taken => grows.trans (rollbackRecord_grows pushes taken))
    (Grows.refl loop.queue) run

theorem netsimRunOneStep_eq_ok {queue queue' : EventQueue} {limit : Option ℤ} {appEventTs : ℕ}
    {flows : List Netsim.TraceRecord}
    (run : queue.netsimRunOneStep platform limit = .ok (queue', appEventTs, flows)) :
    ∃ netsim, queue.netsim.runOneStep platform (limit.map asNanos) =
        .ok (netsim, ⟨appEventTs, .flowComplete flows⟩) ∧
      queue' = { queue with netsim := netsim } := by
  simp only [netsimRunOneStep, bind_eq_ok, Prod.exists] at run
  rcases run with ⟨netsim, appEvent, stepped, run⟩
  split at run
  · rename_i kind
    simp only [pure_eq_ok, Prod.mk.injEq] at run
    rcases run with ⟨rfl, rfl, rfl⟩
    refine ⟨netsim, ?_, rfl⟩
    rw [stepped, ← kind]
  · simp at run

theorem netsimRunOneStep_grows {queue queue' : EventQueue} {limit : Option ℤ} {appEventTs : ℕ}
    {flows : List Netsim.TraceRecord}
    (run : queue.netsimRunOneStep platform limit = .ok (queue', appEventTs, flows)) :
    Grows queue queue' := by
  rcases netsimRunOneStep_eq_ok run with ⟨netsim, _, rfl⟩
  exact .of_eq rfl

theorem rollbackLoop_grows
    (pushes : ∀ {queue event time queue'}, push queue event time = .ok queue' → Grows queue queue')
    {id : EventId} {time : ℤ} {flow : Netsim.Flow} {fuel : ℕ} {loop loop' : RollbackLoop}
    (run : rollbackLoop platform push id time flow fuel loop = .ok loop') :
    Grows loop.queue loop'.queue := by
  induction fuel generalizing loop with
  | zero => simp [rollbackLoop] at run
  | succ fuel ih =>
      simp only [rollbackLoop] at run
      split at run
      · simp only [Except.ok.injEq] at run
        exact run ▸ Grows.refl _
      · simp only [bind_eq_ok, Prod.exists] at run
        rcases run with ⟨queue, appEventTs, flows, stepped, middle, handled, rest⟩
        have records : Grows queue middle.queue := rollbackRecords_grows pushes handled
        exact ((netsimRunOneStep_grows stepped).trans records).trans (ih rest)

end Push

section Call

variable {platform : Platform}

theorem pushEvent_grows {fuel : ℕ} {queue queue' : EventQueue} {event : PushEvent} {time : ℤ}
    (run : pushEvent platform fuel queue event time = .ok queue') : Grows queue queue' := by
  induction fuel generalizing queue queue' event time with
  | zero => simp [pushEvent] at run
  | succ fuel ih =>
      simp only [pushEvent] at run
      split at run
      · simp only [Except.ok.injEq] at run
        exact .of_eq (run ▸ rfl)
      · simp only [Except.ok.injEq] at run
        exact .of_eq (run ▸ rfl)
      · simp only [Except.ok.injEq] at run
        subst run
        exact .of_append [.action _ _] rfl rfl
      · simp only [bind_eq_ok, assert_eq_ok, Prod.exists] at run
        rcases run with ⟨_, _, _, _, netsim, result, _, run⟩
        split at run
        · simp only [pure_eq_ok] at run
          subst run
          exact .of_append [.action _ _] rfl rfl
        · simp only [pure_eq_ok] at run
          subst run
          exact .of_append [.action _ _] rfl rfl
        · simp only [bind_eq_ok] at run
          rcases run with ⟨loop, looped, run⟩
          have logged := rollbackLoop_grows (fun step => ih step) looped
          refine Grows.trans ?_ (Grows.trans logged ?_)
          · exact .of_append [.rollbacked _, .action _ _] rfl rfl
          · split at run
            · simp only [pure_eq_ok] at run
              exact .of_eq (run ▸ rfl)
            · simp only [pure_eq_ok] at run
              exact .of_eq (run ▸ rfl)

theorem push_grows {queue queue' : EventQueue} {event : PushEvent} {time : ℤ}
    (run : queue.push platform event time = .ok queue') : Grows queue queue' :=
  pushEvent_grows run

theorem endEvent_grows {queue queue' : EventQueue} {id : EventId} {startTime endTime : ℤ}
    (run : queue.endEvent platform id startTime endTime = .ok queue') : Grows queue queue' :=
  endEventWith_grows (fun step => push_grows step) run

theorem tryProceedNetsim_grows {queue queue' : EventQueue} {proceeded : Bool}
    (run : queue.tryProceedNetsim platform = .ok (queue', proceeded)) : Grows queue queue' := by
  simp only [tryProceedNetsim, bind_eq_ok, Prod.exists] at run
  rcases run with ⟨middle, appEventTs, flows, stepped, run⟩
  refine (netsimRunOneStep_grows stepped).trans ?_
  split at run
  · simp only [pure_eq_ok, Prod.mk.injEq] at run
    exact run.1 ▸ .refl middle
  · simp only [bind_eq_ok, pure_eq_ok, Prod.mk.injEq] at run
    rcases run with ⟨final, pushed, rfl, _⟩
    refine Grows.foldlM (fun {queue r queue'} step => ?_) pushed
    simp only [queueFlowEnd, bind_eq_ok, assert_eq_ok] at step
    rcases step with ⟨_, _, _, _, _, _, step⟩
    exact push_grows step

theorem peekNextTimeLoop_grows {fuel : ℕ} {queue queue' : EventQueue} {time : Option ℤ}
    (run : peekNextTimeLoop platform fuel queue = .ok (queue', time)) : Grows queue queue' := by
  induction fuel generalizing queue with
  | zero => simp [peekNextTimeLoop] at run
  | succ fuel ih =>
      simp only [peekNextTimeLoop] at run
      split at run
      · simp only [Except.ok.injEq, Prod.mk.injEq] at run
        exact run.1 ▸ .refl queue
      · simp only [bind_eq_ok, Prod.exists] at run
        rcases run with ⟨middle, proceeded, tried, run⟩
        refine (tryProceedNetsim_grows tried).trans ?_
        split at run
        · exact ih run
        · simp only [pure_eq_ok, Prod.mk.injEq] at run
          exact run.1 ▸ .refl middle

theorem executeEvent_grows {queue queue' : EventQueue} {event : QueueEvent} {time : ℤ}
    {step : QueueStep} (run : queue.executeEvent platform event time = .ok (queue', step)) :
    Grows queue queue' := by
  cases event with
  | pointOf id =>
      simp only [executeEvent, bind_eq_ok, pure_eq_ok, Prod.mk.injEq] at run
      rcases run with ⟨final, ended, rfl, _⟩
      exact endEvent_grows ended
  | endOf id =>
      simp only [executeEvent, bind_eq_ok, pure_eq_ok, Prod.mk.injEq] at run
      rcases run with ⟨_, _, final, ended, rfl, _⟩
      refine Grows.trans ?_ (endEvent_grows ended)
      exact .of_eq rfl
  | startOf id =>
      simp only [executeEvent, bind_eq_ok, pure_eq_ok, Prod.mk.injEq] at run
      rcases run with ⟨action, _, middle, scheduled, rfl, _⟩
      have scheduled' : Grows queue middle := by
        cases action with
        | computation node duration info =>
            refine Grows.trans ?_ (push_grows scheduled)
            exact .of_eq rfl
        | communication flow info =>
            simp only [scheduleEnd, Except.ok.injEq] at scheduled
            exact scheduled ▸ .of_eq rfl
      refine scheduled'.trans ?_
      exact .of_eq rfl

theorem popEvent_eq_some {queue queue' : EventQueue} {event : QueueEvent} {time : ℤ}
    (popped : queue.popEvent platform = some (event, time, queue')) :
    (∃ counter, (event, toLex (time, counter)) ∈ queue.eventQueue) ∧
      queue' = { queue with eventQueue := queue.eventQueue.erase event } := by
  simp only [popEvent, PriorityQueue.pop, Option.map_map, Option.map_eq_some_iff,
    Function.comp_apply, Prod.mk.injEq] at popped
  rcases popped with ⟨⟨entry, priority⟩, first, rfl, rfl, rfl⟩
  exact ⟨⟨(ofLex priority).2, PriorityQueue.mem_of_peek (platform.order_perm 0 _) first⟩, rfl⟩

theorem executeLoop_grows {fuel : ℕ} {queue queue' : EventQueue} {step : QueueStep}
    (run : executeLoop platform fuel queue = .ok (queue', step)) : Grows queue queue' := by
  induction fuel generalizing queue with
  | zero => simp [executeLoop] at run
  | succ fuel ih =>
      simp only [executeLoop] at run
      split at run
      · simp only [bind_eq_ok, Prod.exists] at run
        rcases run with ⟨middle, proceeded, tried, run⟩
        refine (tryProceedNetsim_grows tried).trans ?_
        split at run
        · exact ih run
        · simp only [pure_eq_ok, Prod.mk.injEq] at run
          exact run.1 ▸ .refl middle
      · rename_i event time popped first
        rcases popEvent_eq_some first with ⟨_, rfl⟩
        refine Grows.trans ?_ (executeEvent_grows run)
        exact .of_eq rfl

theorem removeNoneDependency_grows {queue queue' : EventQueue} {id : EventId}
    (run : queue.removeNoneDependency platform id = .ok queue') : Grows queue queue' := by
  unfold removeNoneDependency at run
  split at run
  · simp only [Except.ok.injEq] at run
    exact run ▸ .refl queue
  · dsimp only at run
    split at run
    · refine Grows.trans ?_ (release_grows (fun step => push_grows step) run)
      exact .of_eq rfl
    · simp only [Except.ok.injEq] at run
      exact run ▸ .of_eq rfl

end Call

section Build

variable {platform : Platform} {queue queue' : EventQueue} {id : EventId}

/-- The event has ended, no later than a given time. -/
def EndedBy (queue : EventQueue) (d : EventId) (time : ℤ) : Prop :=
  ∃ startTime endTime, queue.ended d = some (startTime, endTime) ∧ endTime ≤ time

theorem mem_addRevDependency {dep d e : EventId} :
    e ∈ (queue.addRevDependency dep id).revDependencies d ↔
      e ∈ queue.revDependencies d ∨ (d = dep ∧ e = id) := by
  unfold addRevDependency
  by_cases same : d = dep
  · subst d
    by_cases present : id ∈ queue.revDependencies dep
    · simp only [present, if_true, Function.update_self, true_and]
      exact ⟨Or.inl, fun mem => mem.elim (fun mem => mem) (fun equal => equal ▸ present)⟩
    · simp [present]
  · simp [same]

/-- Registering the dependencies of a new event. -/
theorem registerDependencies_eq (id : EventId) (dependsOn : List (Option EventId))
    (queue : EventQueue) (depends : Finset (Option EventId)) (time : ℤ) :
    ∃ rev depends' time',
      dependsOn.foldl (registerDependency id) (queue, depends, time) =
        ({ queue with revDependencies := rev }, depends', time') ∧
      (∀ {d e}, e ∈ rev d ↔ e ∈ queue.revDependencies d ∨ (e = id ∧ some d ∈ dependsOn)) ∧
      time ≤ time' ∧
      (∀ {d}, some d ∈ dependsOn → queue.ended d = none ∨ queue.EndedBy d time') ∧
      (∀ dep, dep ∈ depends' ↔ dep ∈ depends ∨
        (dep ∈ dependsOn ∧ ∀ d, dep = some d → queue.ended d = none)) ∧
      (time' = time ∨ ∃ d startTime, some d ∈ dependsOn ∧
        queue.ended d = some (startTime, time')) := by
  induction dependsOn generalizing queue depends time with
  | nil => exact ⟨queue.revDependencies, depends, time, by simp⟩
  | cons dep dependsOn ih =>
      rw [List.foldl_cons]
      cases dep with
      | none =>
          rcases ih queue (insert none depends) time with
            ⟨rev, depends', time', run, revs, later, ends, members, latest⟩
          refine ⟨rev, depends', time', run, ?_, later, ?_, ?_, ?_⟩
          · intro d e
            rw [revs]
            simp
          · intro d mem
            exact ends (by simpa using mem)
          · intro dep
            rw [members]
            cases dep with
            | none => simp
            | some d => simp
          · refine latest.imp_right ?_
            rintro ⟨d, startTime, mem, known⟩
            exact ⟨d, startTime, List.mem_cons_of_mem _ mem, known⟩
      | some dep =>
          cases known : queue.ended dep with
          | none =>
              have step : registerDependency id (queue, depends, time) (some dep) =
                  (queue.addRevDependency dep id, insert (some dep) depends, time) := by
                simp [registerDependency, known]
              rw [step]
              rcases ih (queue.addRevDependency dep id) (insert (some dep) depends) time with
                ⟨rev, depends', time', run, revs, later, ends, members, latest⟩
              refine ⟨rev, depends', time', run, ?_, later, ?_, ?_, ?_⟩
              · intro d e
                rw [revs, mem_addRevDependency]
                simp only [List.mem_cons, Option.some.injEq]
                tauto
              · intro d mem
                rcases List.mem_cons.mp mem with same | rest
                · rw [Option.some.inj same]
                  exact Or.inl known
                · exact ends rest
              · intro other
                rw [members]
                by_cases same : other = some dep
                · subst other
                  simp [known]
                · simp [same, addRevDependency]
              · refine latest.imp_right ?_
                rintro ⟨d, startTime, mem, ended⟩
                exact ⟨d, startTime, List.mem_cons_of_mem _ mem, ended⟩
          | some record =>
              have step : registerDependency id (queue, depends, time) (some dep) =
                  (queue.addRevDependency dep id, depends, max time record.2) := by
                simp [registerDependency, known]
              rw [step]
              rcases ih (queue.addRevDependency dep id) depends (max time record.2) with
                ⟨rev, depends', time', run, revs, later, ends, members, latest⟩
              refine ⟨rev, depends', time', run, ?_, (le_max_left _ _).trans later, ?_, ?_, ?_⟩
              · intro d e
                rw [revs, mem_addRevDependency]
                simp only [List.mem_cons, Option.some.injEq]
                tauto
              · intro d mem
                rcases List.mem_cons.mp mem with same | rest
                · rw [Option.some.inj same]
                  exact Or.inr ⟨record.1, record.2, known, (le_max_right _ _).trans later⟩
                · exact ends rest
              · intro other
                rw [members]
                by_cases same : other = some dep
                · subst other
                  simp [addRevDependency, known]
                · simp [same, addRevDependency]
              · rcases latest with last | ⟨d, startTime, mem, ended⟩
                · rcases max_choice time record.2 with first | second
                  · exact Or.inl (last.trans first)
                  · refine Or.inr ⟨dep, record.1, List.mem_cons_self, known.trans ?_⟩
                    rw [last, second]
                · exact Or.inr ⟨d, startTime, List.mem_cons_of_mem _ mem, ended⟩

theorem issue_eventToFlow (dependsOn : List (Option EventId)) (action : Option Action) (time : ℤ)
    (noFlow : queue.eventToFlow queue.eventCounter = none) (e : EventId) :
    (queue.issue dependsOn action time).eventToFlow e =
      if e = queue.eventCounter then flowOf action else queue.eventToFlow e := by
  rcases action with _ | _ | ⟨flow, info⟩
  · by_cases same : e = queue.eventCounter <;> simp [issue, flowOf, same, noFlow]
  · by_cases same : e = queue.eventCounter <;> simp [issue, flowOf, same, noFlow]
  · by_cases same : e = queue.eventCounter <;> simp [issue, flowOf, same]

/-- A new event gets the next identifier and is registered with its dependencies. -/
theorem addActionOrPoint_graph {dependsOn : List (Option EventId)} {action : Option Action}
    {time : ℤ} (run : queue.addActionOrPoint platform dependsOn action time = .ok (queue', id)) :
    id = queue.eventCounter ∧ queue'.eventCounter = queue.eventCounter + 1 ∧
      queue'.created = (id, dependsOn, action, time) :: queue.created ∧
      queue'.eventToFlow = (queue.issue dependsOn action time).eventToFlow ∧
      ∀ {d e}, e ∈ queue'.revDependencies d ↔
        e ∈ queue.revDependencies d ∨ (e = id ∧ some d ∈ dependsOn) := by
  simp only [addActionOrPoint] at run
  rcases registerDependencies_eq queue.eventCounter dependsOn
    (queue.issue dependsOn action time) ∅ time with
    ⟨rev, depends, time', registered, revs, _⟩
  rw [registered] at run
  dsimp only at run
  split at run
  · simp only [bind_eq_ok, pure_eq_ok, Prod.mk.injEq] at run
    rcases run with ⟨final, pushed, rfl, rfl⟩
    have grows := push_grows pushed
    refine ⟨rfl, grows.eventCounter, ?_, grows.eventToFlow, ?_⟩
    · rw [grows.created]
      rfl
    · intro d e
      rw [grows.revDependencies]
      exact revs
  · simp only [pure_eq_ok, Prod.mk.injEq] at run
    rcases run with ⟨rfl, rfl⟩
    exact ⟨rfl, rfl, rfl, rfl, revs⟩

/-- A new dependency is registered; nothing else of the graph changes. -/
theorem addDependency_graph {dep : Option EventId}
    (run : queue.addDependency id dep = .ok queue') :
    queue'.eventCounter = queue.eventCounter ∧ queue'.created = queue.created ∧
      queue'.eventToFlow = queue.eventToFlow ∧
      ∀ {d e}, e ∈ queue'.revDependencies d ↔
        e ∈ queue.revDependencies d ∨ (some d = dep ∧ e = id) := by
  cases dep with
  | none =>
      simp only [addDependency, Option.any_none, Bool.false_eq_true, if_false, bind_eq_ok,
        pure_eq_ok] at run
      rcases run with ⟨p, _, rfl⟩
      exact ⟨rfl, rfl, rfl, by simp⟩
  | some dep =>
      simp only [addDependency, Option.any_some] at run
      split at run
      · simp only [pure_eq_ok] at run
        subst run
        exact ⟨rfl, rfl, rfl, by simp [mem_addRevDependency]⟩
      · simp only [bind_eq_ok, pure_eq_ok] at run
        rcases run with ⟨p, _, rfl⟩
        refine ⟨rfl, rfl, rfl, fun {d e} => ?_⟩
        simp only [Option.some.injEq]
        exact mem_addRevDependency

end Build

end EventQueue

end Phantora
