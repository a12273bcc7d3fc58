import Phantora.EventQueue.Completions

/-!
# No end goes unreported

The queue ends an event only where it reports it. The exception is a flow that completes
while it arrives in the network, so that an event without a flow ends where it is reported.
-/

namespace Phantora

open Outcome

/-- The push starts no flow of the event. -/
def PushEvent.Spares (e : EventId) : PushEvent → Prop
  | .startOf id (.communication _ _) => id ≠ e
  | _ => True

theorem PushEvent.spares_endOf (id e : EventId) : (PushEvent.endOf id).Spares e :=
  trivial

namespace EventQueue

variable {platform : Platform} {queue queue' : EventQueue} {id e : EventId}

/-- The event has not ended, and it does not wait with a flow. -/
structure Unended (queue : EventQueue) (e : EventId) : Prop where
  ended : queue.ended e = none
  flowless : ∀ p, queue.pending e = some p → flowOf p.action = none

theorem spares_pushOf {action : Option Action} (spared : id = e → flowOf action = none) :
    (pushOf id action).Spares e := by
  rcases action with _ | _ | ⟨flow, info⟩
  · trivial
  · trivial
  · exact fun same => absurd (spared same) (Option.some_ne_none _)

namespace Unended

/-- Nothing about pending events and ends changes. -/
theorem keep (unended : Unended queue e) (pending : queue'.pending = queue.pending)
    (ended : queue'.ended = queue.ended) : Unended queue' e := by
  refine ⟨?_, fun p known => ?_⟩
  · rw [ended]
    exact unended.ended
  · rw [pending] at known
    exact unended.flowless p known

/-- One pending event changes, but not its action. -/
theorem update (unended : Unended queue e) {p : Pending} {changed : Option Pending}
    (known : queue.pending id = some p)
    (pending : queue'.pending = Function.update queue.pending id changed)
    (action : ∀ p' ∈ changed, p'.action = p.action) (ended : queue'.ended = queue.ended) :
    Unended queue' e := by
  refine ⟨?_, fun p' known' => ?_⟩
  · rw [ended]
    exact unended.ended
  · rw [pending] at known'
    by_cases same : e = id
    · subst same
      rw [Function.update_self] at known'
      rw [action p' known']
      exact unended.flowless p known
    · rw [Function.update_of_ne same] at known'
      exact unended.flowless p' known'

/-- The end of an event that has ended changes. -/
theorem amend (unended : Unended queue e) {span : ℤ × ℤ} {other : Option (ℤ × ℤ)}
    (ended : queue.ended id = some span) (pending : queue'.pending = queue.pending)
    (amended : queue'.ended = Function.update queue.ended id other) : Unended queue' e := by
  have differs : e ≠ id := by
    rintro rfl
    exact absurd (unended.ended.symm.trans ended).symm (Option.some_ne_none _)
  refine ⟨?_, fun p known => ?_⟩
  · rw [amended, Function.update_of_ne differs]
    exact unended.ended
  · rw [pending] at known
    exact unended.flowless p known

end Unended

theorem changeStartTimeNotless_unended {fuel : ℕ} {time : ℤ} (unended : Unended queue e)
    (run : changeStartTimeNotless platform fuel queue id time = .ok queue') :
    Unended queue' e := by
  induction fuel generalizing queue queue' id time with
  | zero => simp [changeStartTimeNotless] at run
  | succ fuel ih =>
      simp only [changeStartTimeNotless] at run
      split at run
      · rename_i p known
        simp only [Except.ok.injEq] at run
        subst run
        exact unended.update known rfl (by simp) rfl
      · simp only [bind_eq_ok] at run
        rcases run with ⟨middle, updated, run⟩
        have moved : Unended middle e := by
          unfold updateFlowStart at updated
          split at updated
          · simp only [bind_eq_ok, pure_eq_ok] at updated
            rcases updated with ⟨netsim, _, rfl⟩
            exact unended.keep rfl rfl
          · simp only [Except.ok.injEq] at updated
            exact updated ▸ unended
        split at run
        · simp only [pure_eq_ok] at run
          exact moved.keep (run ▸ rfl) (run ▸ rfl)
        · split at run
          · split at run
            · simp only [bind_eq_ok, assert_eq_ok, pure_eq_ok] at run
              rcases run with ⟨_, _, rfl⟩
              exact moved.keep rfl rfl
            · simp only [pure_eq_ok] at run
              exact moved.keep (run ▸ rfl) (run ▸ rfl)
          · split at run
            · rename_i startTime endTime known
              split at run
              · refine foldlM_invariant (fun other => Unended other e)
                  (fun _ unended step => ih unended step) ?_ run
                exact moved.amend known rfl rfl
              · simp only [pure_eq_ok] at run
                exact moved.keep (run ▸ rfl) (run ▸ rfl)
            · simp only [pure_eq_ok] at run
              exact moved.keep (run ▸ rfl) (run ▸ rfl)

theorem addEndTimeTo_unended {time : ℤ} (unended : Unended queue e)
    (run : addEndTimeTo platform queue id time = .ok queue') : Unended queue' e := by
  simp only [addEndTimeTo] at run
  split at run
  · simp only [pure_eq_ok] at run
    exact unended.keep (run ▸ rfl) (run ▸ rfl)
  · refine foldlM_invariant (fun other => Unended other e)
      (fun _ unended step => changeStartTimeNotless_unended unended step) ?_ run
    split
    · rename_i startTime endTime known
      exact unended.amend known rfl rfl
    · exact unended.keep rfl rfl

section Push

variable {push : EventQueue → PushEvent → ℤ → Except Panic EventQueue}

theorem release_unended
    (pushes : ∀ {queue event time queue'}, event.Spares e → Unended queue e →
      push queue event time = .ok queue' → Unended queue' e)
    (unended : Unended queue e) (run : release push queue id = .ok queue') : Unended queue' e := by
  simp only [release, bind_eq_ok, unwrap_eq_ok] at run
  rcases run with ⟨p, known, run⟩
  refine pushes (spares_pushOf ?_) ?_ run
  · rintro rfl
    exact unended.flowless p known
  · exact unended.update known rfl (by simp) rfl

/-- The end of another event is recorded. -/
theorem endEventWith_unended
    (pushes : ∀ {queue event time queue'}, event.Spares e → Unended queue e →
      push queue event time = .ok queue' → Unended queue' e)
    {startTime endTime : ℤ} (unended : Unended queue e) (differs : id ≠ e)
    (run : endEventWith platform push queue id startTime endTime = .ok queue') :
    Unended queue' e := by
  simp only [endEventWith] at run
  rcases noteEndeds_eq id endTime (platform.order (queue.finished id startTime endTime).log.length
    ((queue.finished id startTime endTime).revDependencies id))
    (queue.finished id startTime endTime) [] with ⟨pending, released, folded, changed, _⟩
  rw [finished] at folded changed
  rw [folded] at run
  refine foldlM_invariant (fun other => Unended other e)
    (fun _ unended step => release_unended pushes unended step) ⟨?_, fun p known => ?_⟩ run
  · exact (Function.update_of_ne differs.symm _ _).trans unended.ended
  · dsimp only at known
    rw [changed] at known
    split at known
    · rcases Option.map_eq_some_iff.mp known with ⟨p, old, rfl⟩
      rw [Pending.action_noted]
      exact unended.flowless p old
    · exact unended.flowless p known

theorem rollbackRecord_unended
    (pushes : ∀ {queue event time queue'}, event.Spares e → Unended queue e →
      push queue event time = .ok queue' → Unended queue' e)
    {time : ℤ} {flow : Netsim.Flow} {appEventTs : ℕ} {loop loop' : RollbackLoop}
    {r : Netsim.TraceRecord} (unended : Unended loop.queue e) (differs : id ≠ e)
    (run : rollbackRecord platform push id time flow appEventTs loop r = .ok loop') :
    Unended loop'.queue e := by
  simp only [rollbackRecord, bind_eq_ok] at run
  rcases run with ⟨event, _, run⟩
  split at run
  · simp only [bind_eq_ok, pure_eq_ok] at run
    rcases run with ⟨queue, ended, rfl⟩
    exact endEventWith_unended pushes unended differs ended
  · split at run
    · simp only [bind_eq_ok, pure_eq_ok] at run
      rcases run with ⟨queue, amended, rfl⟩
      exact addEndTimeTo_unended unended amended
    · simp only [bind_eq_ok, assert_eq_ok, pure_eq_ok] at run
      rcases run with ⟨dura, _, _, _, _, _, queue, pushed, rfl⟩
      refine pushes (PushEvent.spares_endOf _ e) ?_ pushed
      exact unended.keep rfl rfl

theorem rollbackLoop_unended
    (pushes : ∀ {queue event time queue'}, event.Spares e → Unended queue e →
      push queue event time = .ok queue' → Unended queue' e)
    {time : ℤ} {flow : Netsim.Flow} {fuel : ℕ} {loop loop' : RollbackLoop}
    (unended : Unended loop.queue e) (differs : id ≠ e)
    (run : rollbackLoop platform push id time flow fuel loop = .ok loop') :
    Unended loop'.queue e := by
  induction fuel generalizing loop with
  | zero => simp [rollbackLoop] at run
  | succ fuel ih =>
      simp only [rollbackLoop] at run
      split at run
      · simp only [Except.ok.injEq] at run
        exact run ▸ unended
      · simp only [bind_eq_ok, Prod.exists] at run
        rcases run with ⟨queue, appEventTs, flows, stepped, middle, handled, rest⟩
        rcases netsimRunOneStep_eq_ok stepped with ⟨netsim, _, rfl⟩
        refine ih (foldlM_invariant (fun other : RollbackLoop => Unended other.queue e)
          (fun _ unended step => rollbackRecord_unended pushes unended differs step) ?_
            handled) rest
        exact unended.keep rfl rfl

end Push

theorem pushEvent_unended {fuel : ℕ} {event : PushEvent} {time : ℤ} (spares : event.Spares e)
    (unended : Unended queue e) (run : pushEvent platform fuel queue event time = .ok queue') :
    Unended queue' e := by
  induction fuel generalizing queue queue' event time with
  | zero => simp [pushEvent] at run
  | succ fuel ih =>
      simp only [pushEvent] at run
      split at run
      · simp only [Except.ok.injEq] at run
        exact unended.keep (run ▸ rfl) (run ▸ rfl)
      · simp only [Except.ok.injEq] at run
        exact unended.keep (run ▸ rfl) (run ▸ rfl)
      · simp only [Except.ok.injEq] at run
        exact unended.keep (run ▸ rfl) (run ▸ rfl)
      · simp only [bind_eq_ok, assert_eq_ok, Prod.exists] at run
        rcases run with ⟨_, _, _, _, netsim, result, _, run⟩
        split at run
        · simp only [pure_eq_ok] at run
          exact unended.keep (run ▸ rfl) (run ▸ rfl)
        · simp only [pure_eq_ok] at run
          exact unended.keep (run ▸ rfl) (run ▸ rfl)
        · simp only [bind_eq_ok] at run
          rcases run with ⟨loop, looped, run⟩
          have rolled : Unended loop.queue e := by
            refine rollbackLoop_unended (fun spares unended step => ih spares unended step) ?_
              spares looped
            exact unended.keep rfl rfl
          split at run
          · simp only [pure_eq_ok] at run
            exact run ▸ rolled
          · simp only [pure_eq_ok] at run
            exact rolled.keep (run ▸ rfl) (run ▸ rfl)

theorem push_unended {event : PushEvent} {time : ℤ} (spares : event.Spares e)
    (unended : Unended queue e) (run : queue.push platform event time = .ok queue') :
    Unended queue' e :=
  pushEvent_unended spares unended run

theorem endEvent_unended {startTime endTime : ℤ} (unended : Unended queue e) (differs : id ≠ e)
    (run : queue.endEvent platform id startTime endTime = .ok queue') : Unended queue' e :=
  endEventWith_unended (fun spares unended step => push_unended spares unended step) unended
    differs run

theorem tryProceedNetsim_unended {proceeded : Bool} (unended : Unended queue e)
    (run : queue.tryProceedNetsim platform = .ok (queue', proceeded)) : Unended queue' e := by
  simp only [tryProceedNetsim, bind_eq_ok, Prod.exists] at run
  rcases run with ⟨middle, appEventTs, flows, stepped, run⟩
  rcases netsimRunOneStep_eq_ok stepped with ⟨netsim, _, rfl⟩
  split at run
  · simp only [pure_eq_ok, Prod.mk.injEq] at run
    exact run.1 ▸ unended.keep rfl rfl
  · simp only [bind_eq_ok, pure_eq_ok, Prod.mk.injEq] at run
    rcases run with ⟨final, pushed, rfl, _⟩
    refine foldlM_invariant (fun other => Unended other e) ?_ ?_ pushed
    · intro queue r queue' _ unended step
      simp only [queueFlowEnd, bind_eq_ok, assert_eq_ok] at step
      rcases step with ⟨_, _, _, _, _, _, step⟩
      exact push_unended (PushEvent.spares_endOf _ e) unended step
    · exact unended.keep rfl rfl

theorem executeEvent_unended {event : QueueEvent} {time : ℤ} {step : QueueStep}
    (unended : Unended queue e) (other : (Answer.step step).reported? ≠ some e)
    (run : queue.executeEvent platform event time = .ok (queue', step)) : Unended queue' e := by
  cases event with
  | pointOf id =>
      simp only [executeEvent, bind_eq_ok, pure_eq_ok, Prod.mk.injEq] at run
      rcases run with ⟨final, ended, rfl, rfl⟩
      exact endEvent_unended unended (fun same => other (congrArg some same)) ended
  | endOf id =>
      simp only [executeEvent, bind_eq_ok, pure_eq_ok, Prod.mk.injEq] at run
      rcases run with ⟨_, _, final, ended, rfl, rfl⟩
      refine endEvent_unended ?_ (fun same => other (congrArg some same)) ended
      exact unended.keep rfl rfl
  | startOf id =>
      simp only [executeEvent, bind_eq_ok, pure_eq_ok, Prod.mk.injEq] at run
      rcases run with ⟨action, _, middle, scheduled, rfl, _⟩
      have schedules : Unended middle e := by
        cases action with
        | computation node duration info =>
            refine push_unended (PushEvent.spares_endOf _ e) ?_ scheduled
            exact unended.keep rfl rfl
        | communication flow info =>
            simp only [scheduleEnd, Except.ok.injEq] at scheduled
            exact scheduled ▸ unended.keep rfl rfl
      exact schedules.keep rfl rfl

/-- An event without a flow ends only where it is reported. -/
theorem execute_unended {step : QueueStep} (unended : Unended queue e)
    (other : (Answer.step step).reported? ≠ some e)
    (run : queue.execute platform = .ok (queue', step)) : Unended queue' e := by
  have general : ∀ fuel (queue : EventQueue), Unended queue e →
      executeLoop platform fuel queue = .ok (queue', step) → Unended queue' e := by
    intro fuel
    induction fuel with
    | zero =>
        intro queue _ run
        simp [executeLoop] at run
    | succ fuel ih =>
        intro queue unended run
        simp only [executeLoop] at run
        split at run
        · simp only [bind_eq_ok, Prod.exists] at run
          rcases run with ⟨middle, proceeded, tried, run⟩
          have proceeds := tryProceedNetsim_unended unended tried
          split at run
          · exact ih middle proceeds run
          · simp only [pure_eq_ok, Prod.mk.injEq] at run
            exact run.1 ▸ proceeds
        · rename_i event eventTime popped first
          rcases popEvent_eq_some first with ⟨_, rfl⟩
          refine executeEvent_unended ?_ other run
          exact unended.keep rfl rfl
  exact general _ _ unended run

/-- A new event without a flow has not ended. -/
theorem addActionOrPoint_unended {dependsOn : List (Option EventId)} {action : Option Action}
    {time : ℤ} (tracked : Tracked queue) (noFlow : flowOf action = none)
    (run : queue.addActionOrPoint platform dependsOn action time = .ok (queue', id)) :
    Unended queue' id := by
  have fresh : queue.pending queue.eventCounter = none := (tracked.flows.issued le_rfl).1
  have unended : queue.ended queue.eventCounter = none := by
    by_contra ended
    have here : Spotted [] queue queue.eventCounter .ended := ended
    exact Nat.lt_irrefl _ (tracked.spots.issued here)
  simp only [addActionOrPoint] at run
  rcases registerDependencies_eq queue.eventCounter dependsOn
    (queue.issue dependsOn action time) ∅ time with ⟨rev, depends, time', registered, _⟩
  rw [registered] at run
  dsimp only at run
  split at run
  · simp only [bind_eq_ok, pure_eq_ok, Prod.mk.injEq] at run
    rcases run with ⟨final, pushed, rfl, rfl⟩
    apply push_unended (spares_pushOf fun _ => noFlow) _ pushed
    refine ⟨unended, fun p known => ?_⟩
    exact absurd (fresh.symm.trans known) (Option.some_ne_none p).symm
  · simp only [pure_eq_ok, Prod.mk.injEq] at run
    rcases run with ⟨rfl, rfl⟩
    refine ⟨unended, fun p known => ?_⟩
    dsimp only at known
    rw [Function.update_self, Option.some.injEq] at known
    exact known ▸ noFlow

end EventQueue

end Phantora
