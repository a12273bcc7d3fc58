import Phantora.EventQueue.Wakeups

/-!
# Every event ends once

No call forgets that an event has ended, and an event that has ended is nowhere
else. So `execute` reports the end of an event once, unless the flow of the
event is rolled back after its end has been recorded: then the flow completes
again, its end is queued again, and it is reported a second time.
-/

namespace Phantora

open Outcome

namespace EventQueue

variable {platform : Platform} {paced : Prop} {queue queue' : EventQueue}

/-- The end of the event is recorded or about to be. -/
def Closing (e : EventId) (config : Agenda × EventQueue) : Prop :=
  config.2.ended e ≠ none ∨ ∃ startTime endTime, .finish e startTime endTime ∈ config.1

/-- Small steps forget no end. -/
theorem closing_small {e : EventId} {before after : Agenda × EventQueue}
    (closing : Closing e before) (small : Small platform before after) : Closing e after := by
  cases small with
  | @finish agenda queue other startTime endTime pending released noted =>
      by_cases same : e = other
      · subst same
        exact .inl (by simp [finished, recordTimelineSpan])
      · rcases closing with ended | ⟨first, last, mem⟩
        · refine .inl ?_
          simpa [finished, recordTimelineSpan, same] using ended
        · refine .inr ⟨first, last, ?_⟩
          have mem : Task.finish e first last ∈ agenda := by simpa [same] using mem
          exact List.mem_append_right _ mem
  | move =>
      rcases closing with ended | ⟨first, last, mem⟩
      · exact .inl ended
      · exact .inr ⟨first, last, List.mem_append_right _ mem⟩
  | _ =>
      rcases closing with ended | ⟨first, last, mem⟩
      · exact .inl ended
      · refine .inr ⟨first, last, ?_⟩
        first
        | exact (List.mem_cons.mp mem).resolve_left (by simp)
        | exact List.mem_cons_of_mem _ ((List.mem_cons.mp mem).resolve_left (by simp))
        | exact absurd mem List.not_mem_nil
        | exact mem

/-- No call forgets an end. -/
theorem Works.ended {e : EventId} (works : Works platform ([], queue) ([], queue'))
    (closing : queue.ended e ≠ none) : queue'.ended e ≠ none := by
  have closed : Closing e ([], queue') :=
    works.invariant (Closing e) (fun closing small => closing_small closing small) (.inl closing)
  rcases closed with ended | ⟨_, _, mem⟩
  · exact ended
  · cases mem

theorem endEvent_ended {e : EventId} {startTime endTime : ℤ}
    (run : queue.endEvent platform e startTime endTime = .ok queue') : queue'.ended e ≠ none := by
  have works := works_endEventWith (pushes_pushEvent platform platform.fuel) run Agenda.deferred_nil
  have closed : Closing e ([], queue') := works.invariant (Closing e)
    (fun closing small => closing_small closing small) (.inr ⟨_, _, List.mem_cons_self⟩)
  rcases closed with ended | ⟨_, _, mem⟩
  · exact ended
  · cases mem

/-- The event whose end an answer reports. -/
def Answer.reported? : Answer → Option EventId
  | .step (.eventEnded id _) => some id
  | .step (.reachedPoint id _) => some id
  | _ => none

/-- The end that `execute` reports is recorded. -/
theorem execute_ended {step : QueueStep} {e : EventId}
    (run : queue.execute platform = .ok (queue', step))
    (reports : (Answer.step step).reported? = some e) : queue'.ended e ≠ none := by
  have general : ∀ fuel queue, executeLoop platform fuel queue = .ok (queue', step) →
      queue'.ended e ≠ none := by
    intro fuel
    induction fuel with
    | zero =>
        intro queue run
        simp [executeLoop] at run
    | succ fuel ih =>
        intro queue run
        simp only [executeLoop] at run
        split at run
        · simp only [bind_eq_ok, Prod.exists] at run
          rcases run with ⟨middle, proceeded, _, run⟩
          split at run
          · exact ih middle run
          · simp only [pure_eq_ok, Prod.mk.injEq] at run
            rcases run with ⟨_, rfl⟩
            cases reports
        · rename_i event eventTime popped _
          cases event with
          | pointOf id =>
              simp only [executeEvent, bind_eq_ok, pure_eq_ok, Prod.mk.injEq] at run
              rcases run with ⟨final, ended, rfl, rfl⟩
              exact Option.some.inj reports ▸ endEvent_ended ended
          | endOf id =>
              simp only [executeEvent, bind_eq_ok, unwrap_eq_ok, pure_eq_ok, Prod.mk.injEq] at run
              rcases run with ⟨_, _, final, ended, rfl, rfl⟩
              exact Option.some.inj reports ▸ endEvent_ended ended
          | startOf id =>
              simp only [executeEvent, bind_eq_ok, unwrap_eq_ok, pure_eq_ok, Prod.mk.injEq] at run
              rcases run with ⟨_, _, final, _, rfl, rfl⟩
              cases reports
  exact general _ _ run

/-- An event that has ended has no end queued and is not in the network. -/
theorem Causal.settled_of_ended {e : EventId} (causal : Causal paced ∅ queue)
    (ended : queue.ended e ≠ none) :
    ¬queue.Moving e ∧ ¬queue.Queued (.endOf e) ∧ ¬queue.Queued (.pointOf e) := by
  have isEnded : queue.At e .ended := ended
  have notMoving : ¬queue.Moving e := by
    intro moving
    have isMoving : queue.At e .moving := moving
    exact absurd (causal.unique isMoving isEnded) (by simp)
  refine ⟨notMoving, ?_, ?_⟩
  · intro queued
    have isEnding : queue.At e .ending := ⟨queued, notMoving⟩
    exact absurd (causal.unique isEnding isEnded) (by simp)
  · intro queued
    have isPoint : queue.At e .point := queued
    exact absurd (causal.unique isPoint isEnded) (by simp)

/-- An event whose end `execute` reports had not ended before. -/
theorem execute_fresh {step : QueueStep} {e : EventId}
    (run : queue.execute platform = .ok (queue', step)) (causal : Causal paced ∅ queue)
    (reports : (Answer.step step).reported? = some e) : queue.ended e = none := by
  have general : ∀ fuel queue, executeLoop platform fuel queue = .ok (queue', step) →
      Causal paced ∅ queue → queue.ended e = none := by
    intro fuel
    induction fuel with
    | zero =>
        intro queue run
        simp [executeLoop] at run
    | succ fuel ih =>
        intro queue run causal
        simp only [executeLoop] at run
        split at run
        · simp only [bind_eq_ok, Prod.exists] at run
          rcases run with ⟨middle, proceeded, tried, run⟩
          split at run
          · have unended := ih middle run (tryProceedNetsim_causal tried causal)
            by_contra ended
            exact (works_tryProceedNetsim tried).ended ended unended
          · simp only [pure_eq_ok, Prod.mk.injEq] at run
            rcases run with ⟨_, rfl⟩
            cases reports
        · rename_i event time popped first
          rcases popEvent_eq_some first with ⟨⟨counter, mem⟩, rfl⟩
          have queued : queue.Queued event := ⟨_, mem⟩
          by_contra ended
          have settled : ∀ id, id = e → ¬queue.Queued (.endOf id) ∧ ¬queue.Queued (.pointOf id) :=
            fun id same => same ▸ (causal.settled_of_ended ended).2
          cases event with
          | pointOf id =>
              simp only [executeEvent, bind_eq_ok, pure_eq_ok, Prod.mk.injEq] at run
              rcases run with ⟨final, _, rfl, rfl⟩
              exact (settled id (Option.some.inj reports)).2 queued
          | endOf id =>
              simp only [executeEvent, bind_eq_ok, unwrap_eq_ok, pure_eq_ok, Prod.mk.injEq] at run
              rcases run with ⟨_, _, final, _, rfl, rfl⟩
              exact (settled id (Option.some.inj reports)).1 queued
          | startOf id =>
              simp only [executeEvent, bind_eq_ok, unwrap_eq_ok, pure_eq_ok, Prod.mk.injEq] at run
              rcases run with ⟨_, _, final, _, rfl, rfl⟩
              cases reports
  exact general _ _ run causal

/-- A queue and the events whose end it has reported, the last one first. -/
structure Reporting where
  queue : EventQueue
  reported : List EventId := []

namespace Reporting

variable {reporting reporting' : Reporting}

def perform (platform : Platform) (reporting : Reporting) (call : Call) :
    Except Panic Reporting := do
  let (queue, answer) ← reporting.queue.perform platform call
  return ⟨queue, answer.reported?.toList ++ reporting.reported⟩

/-- A queue that has just been built has reported nothing. -/
def Initial (reporting : Reporting) : Prop :=
  EventQueue.Initial reporting.queue ∧ reporting.reported = []

/-- A successful call that names only events that exist. -/
def Step (platform : Platform) (reporting : Reporting) (call : Call) (reporting' : Reporting) :
    Prop :=
  reporting.perform platform call = .ok reporting' ∧ call.NamesIssued reporting.queue

/-- A call that rolls back no flow whose end has been recorded. -/
def CleanStep (platform : Platform) (reporting : Reporting) (call : Call)
    (reporting' : Reporting) : Prop :=
  Step platform reporting call reporting' ∧ Undisturbed reporting'.queue.log

/-- What holds of the reports after calls whose flows are distinct. -/
structure Once (calls : List Call) (reporting : Reporting) : Prop where
  after : CausalAfter False calls reporting.queue
  nodup : reporting.reported.Nodup
  ended : ∀ e ∈ reporting.reported, reporting.queue.ended e ≠ none

theorem Initial.once (initial : Initial reporting) : Once [] reporting := by
  rcases initial with ⟨isNew, nothing⟩
  refine ⟨isNew.causalAfter, nothing ▸ List.nodup_nil, ?_⟩
  intro e mem
  rw [nothing] at mem
  cases mem

/-- What a call reports has ended by then and had not ended before. -/
theorem perform_reported {call : Call} {answer : Answer} {e : EventId}
    (run : queue.perform platform call = .ok (queue', answer)) (causal : Causal paced ∅ queue)
    (reports : answer.reported? = some e) : queue.ended e = none ∧ queue'.ended e ≠ none := by
  cases call with
  | execute =>
      simp only [EventQueue.perform, bind_eq_ok, pure_eq_ok, Prod.exists, Prod.mk.injEq] at run
      rcases run with ⟨final, step, executed, rfl, rfl⟩
      exact ⟨execute_fresh executed causal reports, execute_ended executed reports⟩
  | _ =>
      simp only [EventQueue.perform, bind_eq_ok, pure_eq_ok, Prod.exists, Prod.mk.injEq] at run
      rcases run with ⟨_, _, _, _, rfl⟩
      cases reports

theorem Once.step {calls : List Call} {call : Call} (once : Once calls reporting)
    (distinct : DistinctFlows (calls ++ [call]))
    (clean : CleanStep platform reporting call reporting') :
    Once (calls ++ [call]) reporting' := by
  rcases clean with ⟨⟨run, issued⟩, undisturbed⟩
  simp only [perform, bind_eq_ok, pure_eq_ok, Prod.exists] at run
  rcases run with ⟨queue', answer, performed, rfl⟩
  have step : EventQueue.Step platform reporting.queue call queue' := ⟨answer, performed⟩
  have works : Works platform ([], reporting.queue) ([], queue') :=
    step.works (issued.valid (once.after.newFlow distinct))
  have ended : ∀ e ∈ reporting.reported, queue'.ended e ≠ none :=
    fun e mem => works.ended (once.ended e mem)
  refine ⟨once.after.step distinct step False.elim undisturbed, ?_, ?_⟩
  · cases reports : answer.reported? with
    | none => exact once.nodup
    | some e =>
        have unended := (perform_reported performed once.after.causal reports).1
        exact List.nodup_cons.mpr ⟨fun mem => once.ended e mem unended, once.nodup⟩
  · intro e mem
    rcases List.mem_append.mp mem with new | old
    · exact (perform_reported performed once.after.causal (Option.mem_toList.mp new)).2
    · exact ended e old

end Reporting

/-- In a run in which no flow is rolled back after its end has been recorded every event is
reported once, and it completes in the network no second time. -/
theorem reported_once {calls : List Call} {reporting : Reporting}
    (reached : Runs.Reached Reporting.Initial (Reporting.CleanStep platform) calls reporting)
    (distinct : DistinctFlows calls) :
    reporting.reported.Nodup ∧ ∀ e ∈ reporting.reported, reporting.queue.ended e ≠ none ∧
      ¬reporting.queue.Moving e ∧ ¬reporting.queue.Queued (.endOf e) ∧
        ¬reporting.queue.Queued (.pointOf e) := by
  have once : Reporting.Once calls reporting := by
    refine reached.invariant
      (fun calls reporting => DistinctFlows calls → Reporting.Once calls reporting)
      (fun initial _ => initial.once) ?_ distinct
    intro calls reporting call reporting' before clean distinct
    exact (before distinct.of_append).step distinct clean
  refine ⟨once.nodup, ?_⟩
  intro e mem
  exact ⟨once.ended e mem, once.after.causal.settled_of_ended (once.ended e mem)⟩

namespace Reporting

/-- A call that names only events that exist. -/
def performIssued (platform : Platform) (reporting : Reporting) (call : Call) :
    Except Panic Reporting := do
  assert (call.NamesIssued reporting.queue) Panic.dependencyOfReleased
  reporting.perform platform call

theorem step_of_performIssued {reporting reporting' : Reporting} {call : Call}
    (run : performIssued platform reporting call = .ok reporting') :
    Step platform reporting call reporting' := by
  simp only [performIssued, bind_eq_ok, assert_eq_ok] at run
  rcases run with ⟨_, issued, run⟩
  exact ⟨run, issued⟩

/-- A call that also rolls back no flow whose end has been recorded. -/
def performCleanly (platform : Platform) (reporting : Reporting) (call : Call) :
    Except Panic Reporting := do
  let reporting' ← performIssued platform reporting call
  assert (Undisturbed reporting'.queue.log) Panic.dependencyOfReleased
  return reporting'

theorem cleanStep_of_performCleanly {reporting reporting' : Reporting} {call : Call}
    (run : performCleanly platform reporting call = .ok reporting') :
    CleanStep platform reporting call reporting' := by
  simp only [performCleanly, bind_eq_ok, assert_eq_ok, pure_eq_ok] at run
  rcases run with ⟨final, step, _, undisturbed, rfl⟩
  exact ⟨step_of_performIssued step, undisturbed⟩

theorem initial_pair : Initial ⟨pairQueue, []⟩ :=
  ⟨initial_pairQueue, rfl⟩

end Reporting

/-- A flow and the point that waits for it are reported one after the other. -/
theorem reported_once_flowThenPoint :
    ∃ reporting, Runs.Reached Reporting.Initial (Reporting.CleanStep (.inOrder 20)) flowThenPoint
        reporting ∧ reporting.reported = [1, 0] ∧ reporting.reported.Nodup := by
  have read : (flowThenPoint.foldlM (Reporting.performCleanly (.inOrder 20))
      ⟨pairQueue, []⟩).toOption.map Reporting.reported = some [1, 0] := by decide +kernel
  rcases exists_ok_of_reading read with ⟨reporting, run, reported⟩
  have reached : Runs.Reached Reporting.Initial (Reporting.CleanStep (.inOrder 20)) flowThenPoint
      reporting :=
    Runs.reached_of_foldlM Reporting.cleanStep_of_performCleanly Reporting.initial_pair run
  exact ⟨reporting, reached, reported, (reported_once reached (by decide)).1⟩

/-- The flow that is rolled back after its end has been recorded is reported a second time. -/
theorem not_reported_once_lateFlow :
    ∃ reporting, Runs.Reached Reporting.Initial (Reporting.Step (.inOrder 20)) lateFlow
        reporting ∧ DistinctFlows lateFlow ∧ reporting.reported = [0, 1, 0] ∧
      ¬reporting.reported.Nodup := by
  have read : (lateFlow.foldlM (Reporting.performIssued (.inOrder 20))
      ⟨pairQueue, []⟩).toOption.map Reporting.reported = some [0, 1, 0] := by decide +kernel
  rcases exists_ok_of_reading read with ⟨reporting, run, reported⟩
  have reached : Runs.Reached Reporting.Initial (Reporting.Step (.inOrder 20)) lateFlow reporting :=
    Runs.reached_of_foldlM Reporting.step_of_performIssued Reporting.initial_pair run
  refine ⟨reporting, reached, by decide, reported, ?_⟩
  rw [reported]
  decide

end EventQueue

end Phantora
