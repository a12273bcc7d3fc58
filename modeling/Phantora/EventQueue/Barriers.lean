import Phantora.EventQueue.Agenda
import Phantora.EventQueue.Graph

/-!
# Barriers of the queue

A pending event that still has the dependency `None` cannot be released. Only the call
that adds an event sets up such a barrier, and only the call that removes it takes it
down; the queue itself, whatever it runs, leaves all barriers alone.
-/

namespace Phantora

open Outcome

namespace EventQueue

variable {platform : Platform} {queue queue' : EventQueue} {id e : EventId}

/-- The event waits behind a barrier. -/
def Barred (queue : EventQueue) (e : EventId) : Prop :=
  ∃ p, queue.pending e = some p ∧ none ∈ p.dependencies

/-- The same events wait behind barriers, and no event becomes pending. -/
structure SameBarriers (queue queue' : EventQueue) : Prop where
  barred : ∀ e, queue'.Barred e ↔ queue.Barred e
  absent : ∀ e, queue.pending e = none → queue'.pending e = none

theorem barred_iff {p : Pending} (known : queue.pending e = some p) :
    queue.Barred e ↔ none ∈ p.dependencies := by
  simp [Barred, known]

namespace SameBarriers

theorem refl (queue : EventQueue) : SameBarriers queue queue :=
  ⟨fun _ => Iff.rfl, fun _ absent => absent⟩

theorem trans {first second third : EventQueue} (left : SameBarriers first second)
    (right : SameBarriers second third) : SameBarriers first third :=
  ⟨fun e => (right.barred e).trans (left.barred e),
    fun e absent => right.absent e (left.absent e absent)⟩

/-- Nothing about pending events changes. -/
theorem of_pending (pending : queue'.pending = queue.pending) : SameBarriers queue queue' := by
  refine ⟨fun e => ?_, fun e absent => ?_⟩
  · rw [Barred, Barred, pending]
  · rw [pending, absent]

/-- One pending event changes, and it is barred if and only if it has been. -/
theorem of_update {p : Pending} {changed : Option Pending} (known : queue.pending id = some p)
    (pending : queue'.pending = Function.update queue.pending id changed)
    (same : (∃ p', changed = some p' ∧ none ∈ p'.dependencies) ↔ none ∈ p.dependencies) :
    SameBarriers queue queue' := by
  refine ⟨fun e => ?_, fun e absent => ?_⟩
  · by_cases isChanged : e = id
    · subst isChanged
      rw [barred_iff known, Barred, pending, Function.update_self]
      exact same
    · rw [Barred, pending, Function.update_of_ne isChanged]
      exact Iff.rfl
  · have differs : e ≠ id := by
      rintro rfl
      exact absurd (known.symm.trans absent) (Option.some_ne_none _)
    rw [pending, Function.update_of_ne differs, absent]

theorem foldlM {α : Type} {f : EventQueue → α → Except Panic EventQueue} {items : List α}
    (step : ∀ {queue a queue'}, f queue a = .ok queue' → SameBarriers queue queue')
    (run : items.foldlM f queue = .ok queue') : SameBarriers queue queue' :=
  foldlM_invariant (fun other => SameBarriers queue other)
    (fun _ same taken => same.trans (step taken)) (refl queue) run

end SameBarriers

theorem changeStartTimeNotless_barred {fuel : ℕ} {time : ℤ}
    (run : changeStartTimeNotless platform fuel queue id time = .ok queue') :
    SameBarriers queue queue' := by
  induction fuel generalizing queue queue' id time with
  | zero => simp [changeStartTimeNotless] at run
  | succ fuel ih =>
      simp only [changeStartTimeNotless] at run
      split at run
      · rename_i p known
        simp only [Except.ok.injEq] at run
        subst run
        exact .of_update known rfl (by simp)
      · simp only [bind_eq_ok] at run
        rcases run with ⟨middle, updated, run⟩
        have moved : SameBarriers queue middle := by
          unfold updateFlowStart at updated
          split at updated
          · simp only [bind_eq_ok, pure_eq_ok] at updated
            rcases updated with ⟨netsim, _, rfl⟩
            exact .of_pending rfl
          · simp only [Except.ok.injEq] at updated
            exact updated ▸ .refl queue
        refine moved.trans ?_
        split at run
        · simp only [pure_eq_ok] at run
          exact .of_pending (run ▸ rfl)
        · split at run
          · split at run
            · simp only [bind_eq_ok, assert_eq_ok, pure_eq_ok] at run
              rcases run with ⟨_, _, rfl⟩
              exact .of_pending rfl
            · simp only [pure_eq_ok] at run
              exact .of_pending (run ▸ rfl)
          · split at run
            · split at run
              · refine SameBarriers.trans ?_ (SameBarriers.foldlM (fun step => ih step) run)
                exact .of_pending rfl
              · simp only [pure_eq_ok] at run
                exact .of_pending (run ▸ rfl)
            · simp only [pure_eq_ok] at run
              exact .of_pending (run ▸ rfl)

theorem addEndTimeTo_barred {time : ℤ} (run : addEndTimeTo platform queue id time = .ok queue') :
    SameBarriers queue queue' := by
  simp only [addEndTimeTo] at run
  split at run
  · simp only [pure_eq_ok] at run
    exact .of_pending (run ▸ rfl)
  · split at run
    · refine SameBarriers.trans ?_
        (SameBarriers.foldlM (fun step => changeStartTimeNotless_barred step) run)
      exact .of_pending rfl
    · refine SameBarriers.trans ?_
        (SameBarriers.foldlM (fun step => changeStartTimeNotless_barred step) run)
      exact .of_pending rfl

/-- The end of an event is struck out, and what is collected is not barred. -/
theorem noteEnded_barred {endTime : ℤ} {acc : EventQueue × List EventId}
    (open_ : ∀ other ∈ acc.2, ¬acc.1.Barred other) :
    SameBarriers acc.1 (noteEnded id endTime acc e).1 ∧
      ∀ other ∈ (noteEnded id endTime acc e).2, ¬(noteEnded id endTime acc e).1.Barred other := by
  simp only [noteEnded]
  split
  · exact ⟨.refl _, open_⟩
  · rename_i p known
    split
    · rename_i mem
      have same : SameBarriers acc.1 { acc.1 with
          pending := Function.update acc.1.pending e (some { p with
            dependencies := p.dependencies.erase (some id)
            depEndTime := max p.depEndTime endTime }) } :=
        .of_update known rfl (by simp)
      refine ⟨same, ?_⟩
      intro other collected
      rw [same.barred other]
      split at collected
      · rename_i empty
        rcases List.mem_append.mp collected with old | new
        · exact open_ other old
        · rw [List.mem_singleton.mp new, barred_iff known]
          intro barrier
          have left : none ∈ p.dependencies.erase (some id) :=
            Finset.mem_erase.mpr ⟨by simp, barrier⟩
          rw [empty] at left
          exact absurd left (Finset.notMem_empty _)
      · exact open_ other collected
    · exact ⟨.refl _, open_⟩

theorem noteEndeds_barred (id : EventId) (endTime : ℤ) (events : List EventId)
    (acc : EventQueue × List EventId) (open_ : ∀ other ∈ acc.2, ¬acc.1.Barred other) :
    SameBarriers acc.1 (events.foldl (noteEnded id endTime) acc).1 ∧
      ∀ other ∈ (events.foldl (noteEnded id endTime) acc).2,
        ¬(events.foldl (noteEnded id endTime) acc).1.Barred other := by
  induction events generalizing acc with
  | nil => exact ⟨.refl _, open_⟩
  | cons e events ih =>
      rw [List.foldl_cons]
      rcases noteEnded_barred open_ with ⟨same, stillOpen⟩
      rcases ih _ stillOpen with ⟨rest, finallyOpen⟩
      exact ⟨same.trans rest, finallyOpen⟩

section Push

variable {push : EventQueue → PushEvent → ℤ → Except Panic EventQueue}

/-- An event that is not barred is released. -/
theorem release_barred
    (pushes : ∀ {queue event time queue'}, push queue event time = .ok queue' →
      SameBarriers queue queue')
    (open_ : ¬queue.Barred id) (run : release push queue id = .ok queue') :
    SameBarriers queue queue' := by
  simp only [release, bind_eq_ok, unwrap_eq_ok] at run
  rcases run with ⟨p, known, run⟩
  refine SameBarriers.trans ?_ (pushes run)
  rw [barred_iff known] at open_
  exact .of_update known rfl (by simpa using open_)

theorem releases_barred
    (pushes : ∀ {queue event time queue'}, push queue event time = .ok queue' →
      SameBarriers queue queue')
    {events : List EventId} (open_ : ∀ other ∈ events, ¬queue.Barred other)
    (run : events.foldlM (release push) queue = .ok queue') : SameBarriers queue queue' := by
  induction events generalizing queue with
  | nil =>
      simp only [List.foldlM_nil, pure_eq_ok] at run
      exact run ▸ .refl queue
  | cons e events ih =>
      simp only [List.foldlM_cons, bind_eq_ok] at run
      rcases run with ⟨middle, released, rest⟩
      have first := release_barred pushes (open_ e List.mem_cons_self) released
      refine first.trans (ih ?_ rest)
      intro other mem
      rw [first.barred other]
      exact open_ other (List.mem_cons_of_mem _ mem)

theorem endEventWith_barred
    (pushes : ∀ {queue event time queue'}, push queue event time = .ok queue' →
      SameBarriers queue queue')
    {startTime endTime : ℤ}
    (run : endEventWith platform push queue id startTime endTime = .ok queue') :
    SameBarriers queue queue' := by
  simp only [endEventWith] at run
  have noted := noteEndeds_barred id endTime
    (platform.order (queue.finished id startTime endTime).log.length
      ((queue.finished id startTime endTime).revDependencies id))
    (queue.finished id startTime endTime, [])
    (fun other collected => absurd collected List.not_mem_nil)
  rw [finished] at noted
  refine SameBarriers.trans ?_ (noted.1.trans (releases_barred pushes noted.2 run))
  exact .of_pending rfl

theorem rollbackRecord_barred
    (pushes : ∀ {queue event time queue'}, push queue event time = .ok queue' →
      SameBarriers queue queue')
    {time : ℤ} {flow : Netsim.Flow} {appEventTs : ℕ} {loop loop' : RollbackLoop}
    {r : Netsim.TraceRecord}
    (run : rollbackRecord platform push id time flow appEventTs loop r = .ok loop') :
    SameBarriers loop.queue loop'.queue := by
  simp only [rollbackRecord, bind_eq_ok] at run
  rcases run with ⟨event, _, run⟩
  split at run
  · simp only [bind_eq_ok, pure_eq_ok] at run
    rcases run with ⟨queue, ended, rfl⟩
    exact endEventWith_barred pushes ended
  · split at run
    · simp only [bind_eq_ok, pure_eq_ok] at run
      rcases run with ⟨queue, amended, rfl⟩
      exact addEndTimeTo_barred amended
    · simp only [bind_eq_ok, assert_eq_ok, pure_eq_ok] at run
      rcases run with ⟨dura, _, _, _, _, _, queue, pushed, rfl⟩
      refine SameBarriers.trans ?_ (pushes pushed)
      exact .of_pending rfl

theorem netsimRunOneStep_barred {limit : Option ℤ} {appEventTs : ℕ}
    {flows : List Netsim.TraceRecord}
    (run : queue.netsimRunOneStep platform limit = .ok (queue', appEventTs, flows)) :
    SameBarriers queue queue' := by
  rcases netsimRunOneStep_eq_ok run with ⟨netsim, _, rfl⟩
  exact .of_pending rfl

theorem rollbackLoop_barred
    (pushes : ∀ {queue event time queue'}, push queue event time = .ok queue' →
      SameBarriers queue queue')
    {time : ℤ} {flow : Netsim.Flow} {fuel : ℕ} {loop loop' : RollbackLoop}
    (run : rollbackLoop platform push id time flow fuel loop = .ok loop') :
    SameBarriers loop.queue loop'.queue := by
  induction fuel generalizing loop with
  | zero => simp [rollbackLoop] at run
  | succ fuel ih =>
      simp only [rollbackLoop] at run
      split at run
      · simp only [Except.ok.injEq] at run
        exact run ▸ SameBarriers.refl _
      · simp only [bind_eq_ok, Prod.exists] at run
        rcases run with ⟨queue, appEventTs, flows, stepped, middle, handled, rest⟩
        have records : SameBarriers queue middle.queue :=
          foldlM_invariant (fun other : RollbackLoop => SameBarriers queue other.queue)
            (fun _ same taken => same.trans (rollbackRecord_barred pushes taken))
            (SameBarriers.refl queue) handled
        exact ((netsimRunOneStep_barred stepped).trans records).trans (ih rest)

end Push

theorem pushEvent_barred {fuel : ℕ} {event : PushEvent} {time : ℤ}
    (run : pushEvent platform fuel queue event time = .ok queue') : SameBarriers queue queue' := by
  induction fuel generalizing queue queue' event time with
  | zero => simp [pushEvent] at run
  | succ fuel ih =>
      simp only [pushEvent] at run
      split at run
      · simp only [Except.ok.injEq] at run
        exact .of_pending (run ▸ rfl)
      · simp only [Except.ok.injEq] at run
        exact .of_pending (run ▸ rfl)
      · simp only [Except.ok.injEq] at run
        exact .of_pending (run ▸ rfl)
      · simp only [bind_eq_ok, assert_eq_ok, Prod.exists] at run
        rcases run with ⟨_, _, _, _, netsim, result, _, run⟩
        split at run
        · simp only [pure_eq_ok] at run
          exact .of_pending (run ▸ rfl)
        · simp only [pure_eq_ok] at run
          exact .of_pending (run ▸ rfl)
        · simp only [bind_eq_ok] at run
          rcases run with ⟨loop, looped, run⟩
          refine SameBarriers.trans ?_
            ((rollbackLoop_barred (fun step => ih step) looped).trans ?_)
          · exact .of_pending rfl
          · split at run
            · simp only [pure_eq_ok] at run
              exact run ▸ .refl _
            · simp only [pure_eq_ok] at run
              exact .of_pending (run ▸ rfl)

theorem push_barred {event : PushEvent} {time : ℤ}
    (run : queue.push platform event time = .ok queue') : SameBarriers queue queue' :=
  pushEvent_barred run

theorem endEvent_barred {startTime endTime : ℤ}
    (run : queue.endEvent platform id startTime endTime = .ok queue') :
    SameBarriers queue queue' :=
  endEventWith_barred (fun step => push_barred step) run

theorem tryProceedNetsim_barred {proceeded : Bool}
    (run : queue.tryProceedNetsim platform = .ok (queue', proceeded)) :
    SameBarriers queue queue' := by
  simp only [tryProceedNetsim, bind_eq_ok, Prod.exists] at run
  rcases run with ⟨middle, appEventTs, flows, stepped, run⟩
  refine (netsimRunOneStep_barred stepped).trans ?_
  split at run
  · simp only [pure_eq_ok, Prod.mk.injEq] at run
    exact run.1 ▸ .refl middle
  · simp only [bind_eq_ok, pure_eq_ok, Prod.mk.injEq] at run
    rcases run with ⟨final, pushed, rfl, _⟩
    refine SameBarriers.foldlM (fun {queue r queue'} step => ?_) pushed
    simp only [queueFlowEnd, bind_eq_ok, assert_eq_ok] at step
    rcases step with ⟨_, _, _, _, _, _, step⟩
    exact push_barred step

theorem peekNextTime_barred {time : Option ℤ}
    (run : queue.peekNextTime platform = .ok (queue', time)) : SameBarriers queue queue' := by
  have general : ∀ fuel (queue : EventQueue),
      peekNextTimeLoop platform fuel queue = .ok (queue', time) → SameBarriers queue queue' := by
    intro fuel
    induction fuel with
    | zero =>
        intro queue run
        simp [peekNextTimeLoop] at run
    | succ fuel ih =>
        intro queue run
        simp only [peekNextTimeLoop] at run
        split at run
        · simp only [Except.ok.injEq, Prod.mk.injEq] at run
          exact run.1 ▸ .refl queue
        · simp only [bind_eq_ok, Prod.exists] at run
          rcases run with ⟨middle, proceeded, tried, run⟩
          refine (tryProceedNetsim_barred tried).trans ?_
          split at run
          · exact ih middle run
          · simp only [pure_eq_ok, Prod.mk.injEq] at run
            exact run.1 ▸ .refl middle
  exact general _ _ run

theorem executeEvent_barred {event : QueueEvent} {time : ℤ} {step : QueueStep}
    (run : queue.executeEvent platform event time = .ok (queue', step)) :
    SameBarriers queue queue' := by
  cases event with
  | pointOf id =>
      simp only [executeEvent, bind_eq_ok, pure_eq_ok, Prod.mk.injEq] at run
      rcases run with ⟨final, ended, rfl, _⟩
      exact endEvent_barred ended
  | endOf id =>
      simp only [executeEvent, bind_eq_ok, pure_eq_ok, Prod.mk.injEq] at run
      rcases run with ⟨_, _, final, ended, rfl, _⟩
      refine SameBarriers.trans ?_ (endEvent_barred ended)
      exact .of_pending rfl
  | startOf id =>
      simp only [executeEvent, bind_eq_ok, pure_eq_ok, Prod.mk.injEq] at run
      rcases run with ⟨action, _, middle, scheduled, rfl, _⟩
      have scheduled' : SameBarriers queue middle := by
        cases action with
        | computation node duration info =>
            refine SameBarriers.trans ?_ (push_barred scheduled)
            exact .of_pending rfl
        | communication flow info =>
            simp only [scheduleEnd, Except.ok.injEq] at scheduled
            exact .of_pending (scheduled ▸ rfl)
      refine scheduled'.trans ?_
      exact .of_pending rfl

theorem execute_barred {step : QueueStep}
    (run : queue.execute platform = .ok (queue', step)) : SameBarriers queue queue' := by
  have general : ∀ fuel (queue : EventQueue),
      executeLoop platform fuel queue = .ok (queue', step) → SameBarriers queue queue' := by
    intro fuel
    induction fuel with
    | zero =>
        intro queue run
        simp [executeLoop] at run
    | succ fuel ih =>
        intro queue run
        simp only [executeLoop] at run
        split at run
        · simp only [bind_eq_ok, Prod.exists] at run
          rcases run with ⟨middle, proceeded, tried, run⟩
          refine (tryProceedNetsim_barred tried).trans ?_
          split at run
          · exact ih middle run
          · simp only [pure_eq_ok, Prod.mk.injEq] at run
            exact run.1 ▸ .refl middle
        · rename_i event time popped first
          rcases popEvent_eq_some first with ⟨_, rfl⟩
          refine SameBarriers.trans ?_ (executeEvent_barred run)
          exact .of_pending rfl
  exact general _ _ run

/-- Only events that exist are pending. -/
def Fresh (queue : EventQueue) : Prop :=
  ∀ e, queue.eventCounter ≤ e → queue.pending e = none

theorem Fresh.keep (fresh : Fresh queue) (same : SameBarriers queue queue')
    (counter : queue.eventCounter ≤ queue'.eventCounter) : Fresh queue' :=
  fun e new => same.absent e (fresh e (counter.trans new))

/-- A new event is barred if it is added with a barrier. -/
theorem addActionOrPoint_barred {dependsOn : List (Option EventId)} {action : Option Action}
    {time : ℤ} (fresh : Fresh queue)
    (run : queue.addActionOrPoint platform dependsOn action time = .ok (queue', id)) :
    Fresh queue' ∧ ∀ e, queue'.Barred e ↔ queue.Barred e ∨ (e = id ∧ none ∈ dependsOn) := by
  have absent := fresh queue.eventCounter le_rfl
  simp only [addActionOrPoint] at run
  rcases registerDependencies_eq queue.eventCounter dependsOn
    (queue.issue dependsOn action time) ∅ time with
    ⟨rev, depends, time', registered, _, _, _, members, _⟩
  have barrier : none ∈ depends ↔ none ∈ dependsOn := by simp [members]
  rw [registered] at run
  dsimp only at run
  split at run
  · rename_i empty
    simp only [bind_eq_ok, pure_eq_ok, Prod.mk.injEq] at run
    rcases run with ⟨final, pushed, rfl, rfl⟩
    have same := push_barred pushed
    have grows := push_grows pushed
    have unblocked : none ∉ dependsOn := by
      rw [← barrier, empty]
      exact Finset.notMem_empty _
    refine ⟨fun e new => same.absent e (fresh e ?_), fun e => ?_⟩
    · rw [grows.eventCounter] at new
      exact (Nat.le_succ _).trans new
    · rw [same.barred e]
      simp only [unblocked, and_false, or_false]
      exact Iff.rfl
  · simp only [pure_eq_ok, Prod.mk.injEq] at run
    rcases run with ⟨rfl, rfl⟩
    refine ⟨fun e new => ?_, fun e => ?_⟩
    · have later : queue.eventCounter < e := new
      rw [← fresh e later.le]
      exact Function.update_of_ne later.ne' _ _
    · by_cases isNew : e = queue.eventCounter
      · subst isNew
        rw [barred_iff (Function.update_self ..), barrier]
        simp [Barred, absent]
      · simp only [Barred, Function.update_of_ne isNew, isNew, false_and, or_false]
        exact Iff.rfl

/-- A further event to wait for is no barrier. -/
theorem addDependency_barred {dep : EventId}
    (run : queue.addDependency id (some dep) = .ok queue') : SameBarriers queue queue' := by
  simp only [addDependency, Option.any_some] at run
  split at run
  · simp only [pure_eq_ok] at run
    exact .of_pending (run ▸ rfl)
  · simp only [bind_eq_ok, unwrap_eq_ok, pure_eq_ok] at run
    rcases run with ⟨p, known, rfl⟩
    have known : queue.pending id = some p := known
    exact .of_update known rfl (by simp)

/-- The barrier of an event is taken down. -/
theorem removeNoneDependency_barred
    (run : queue.removeNoneDependency platform id = .ok queue') :
    (∀ e, queue.pending e = none → queue'.pending e = none) ∧
      ∀ e, queue'.Barred e ↔ queue.Barred e ∧ e ≠ id := by
  unfold removeNoneDependency at run
  split at run
  · rename_i absent
    simp only [Except.ok.injEq] at run
    subst run
    refine ⟨fun _ unchanged => unchanged, fun e => ⟨fun barred => ⟨barred, ?_⟩, And.left⟩⟩
    rintro rfl
    simp [Barred, absent] at barred
  · rename_i p known
    dsimp only at run
    have gone : ∀ e, queue.pending e = none → Function.update queue.pending id
        (some { p with dependencies := p.dependencies.erase none }) e = none := by
      intro e absent
      have differs : e ≠ id := by
        rintro rfl
        exact absurd (known.symm.trans absent) (Option.some_ne_none _)
      rw [Function.update_of_ne differs, absent]
    have removed : ∀ e, Barred { queue with
          pending := Function.update queue.pending id
            (some { p with dependencies := p.dependencies.erase none }) } e ↔
        queue.Barred e ∧ e ≠ id := by
      intro e
      by_cases same : e = id
      · subst same
        rw [barred_iff (Function.update_self ..)]
        simp
      · simp only [Barred, Function.update_of_ne same, ne_eq, same, not_false_eq_true, and_true]
    split at run
    · have same := release_barred (fun step => push_barred step) (by simp [removed]) run
      exact ⟨fun e absent => same.absent e (gone e absent),
        fun e => (same.barred e).trans (removed e)⟩
    · simp only [Except.ok.injEq] at run
      subst run
      exact ⟨gone, removed⟩

/-- Running the simulation leaves all barriers alone. -/
theorem Evolves.barred (evolves : Evolves platform Call.Executes queue queue') :
    SameBarriers queue queue' := by
  induction evolves with
  | refl => exact .refl queue
  | tail _ last ih =>
      rcases last with ⟨call, executes, answer, run⟩
      refine ih.trans ?_
      cases call with
      | addActionOrPoint => exact absurd executes id
      | addDependency => exact absurd executes id
      | removeNoneDependency => exact absurd executes id
      | peekNextTime =>
          simp only [perform, bind_eq_ok, pure_eq_ok, Prod.exists, Prod.mk.injEq] at run
          rcases run with ⟨_, _, peeked, rfl, _⟩
          exact peekNextTime_barred peeked
      | execute =>
          simp only [perform, bind_eq_ok, pure_eq_ok, Prod.exists, Prod.mk.injEq] at run
          rcases run with ⟨_, _, executed, rfl, _⟩
          exact execute_barred executed

end EventQueue

end Phantora
