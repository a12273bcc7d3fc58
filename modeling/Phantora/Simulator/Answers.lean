import Phantora.EventQueue.Ends
import Phantora.Simulator.Deadlock

/-!
# Whoever synchronizes is answered

When communication is well ordered and all peers have made their calls, a request that waits
for a device, a stream or a recorded event is answered before the next message is handled.
-/

namespace Phantora

open Outcome

namespace Simulator

variable {env : Environment} {sim sim' : Simulator} {host : ResponseId} {time : ℤ} {event : EventId}
  {round : ℕ → ℕ} {messages : List Message} {size : NcclId → ℕ}

/-- The thread begins to wait for an event, and is told its end. -/
def Answered (host : ResponseId) (time : ℤ) (sim sim' : Simulator) : Prop :=
  ∃ event endTime news, sim'.history = news ++ sim.history ∧
    Occurrence.awaits host event time ∈ news ∧ Occurrence.synced host endTime (some event) ∈ news

/-- The thread is told the end of the event. -/
def Told (host : ResponseId) (event : EventId) (sim sim' : Simulator) : Prop :=
  ∃ endTime news, sim'.history = news ++ sim.history ∧
    Occurrence.synced host endTime (some event) ∈ news

theorem Told.after {middle : Simulator} (told : Told host event middle sim')
    (earlier : sim.history <:+ middle.history) : Told host event sim sim' := by
  rcases told with ⟨endTime, news, history, told⟩
  rcases earlier with ⟨old, grown⟩
  refine ⟨endTime, news ++ old, ?_, List.mem_append_left _ told⟩
  rw [history, ← grown, List.append_assoc]

/-- Nothing is left to execute, and the event has not ended. -/
structure Stuck (event : EventId) (queue : EventQueue) : Prop where
  issued : event < queue.eventCounter
  unended : queue.ended event = none
  unqueued : ∀ entry, ¬queue.Queued entry
  idle : ∀ e, ¬queue.Moving e

/-- The thread begins to wait for an event, and the server gets stuck before its end. -/
def Unanswered (host : ResponseId) (time : ℤ) (sim sim' : Simulator) : Prop :=
  ∃ event news, sim'.history = news ++ sim.history ∧
    Occurrence.awaits host event time ∈ news ∧ Stuck event sim'.queue

/-- The end of another event is reported. -/
theorem reportEnd_other (sim : Simulator) {id : EventId} (time : ℤ) (differs : event ≠ id) :
    (sim.reportEnd id time).queue = sim.queue ∧
      (sim.reportEnd id time).syncing event = sim.syncing event ∧
      sim.history <:+ (sim.reportEnd id time).history := by
  simp only [reportEnd]
  split
  · refine ⟨rfl, Function.update_of_ne differs _ _, ?_⟩
    exact (List.suffix_cons _ _).trans (List.suffix_cons _ _)
  · exact ⟨rfl, rfl, List.suffix_cons _ _⟩

/-- The request that waits for an event is told its end. -/
theorem reportEnd_waiting (sim : Simulator) (time : ℤ) (waits : sim.syncing event = some host) :
    (sim.reportEnd event time).history =
      [.synced host time (some event), .reported event time] ++ sim.history := by
  simp only [reportEnd, note, waits]
  rfl

/-- The request that waits for an event is told its end, unless there is nothing to execute. -/
theorem executeToEvent_answers {fuel : ℕ} {reached : Bool}
    (waits : sim.syncing event = some host) (issued : event < sim.queue.eventCounter)
    (tracked : EventQueue.Tracked sim.queue) (unended : EventQueue.Unended sim.queue event)
    (run : executeToEvent env event fuel sim = .ok (sim', reached)) :
    Told host event sim sim' ∨ Stuck event sim'.queue := by
  induction fuel generalizing sim with
  | zero => simp [executeToEvent] at run
  | succ fuel ih =>
      simp only [executeToEvent, bind_eq_ok, Prod.exists] at run
      rcases run with ⟨queue, step, executed, run⟩
      have tracks : EventQueue.Tracked queue :=
        (EventQueue.execute_step executed).tracked trivial tracked
      have issued' : event < queue.eventCounter :=
        (EventQueue.executeLoop_grows executed).eventCounter ▸ issued
      have ends : ∀ {id time}, (EventQueue.Answer.step step).reported? = some id →
          (if id = event then Except.ok (({ sim with queue := queue }).reportEnd id time, true)
            else executeToEvent env event fuel
              (({ sim with queue := queue }).reportEnd id time)) = .ok (sim', reached) →
          Told host event sim sim' ∨ Stuck event sim'.queue := by
        intro id time reports run
        by_cases isEvent : id = event
        · subst isEvent
          simp only [if_true, Except.ok.injEq, Prod.mk.injEq] at run
          left
          refine ⟨time, [.synced host time (some id), .reported id time], ?_, List.mem_cons_self⟩
          exact run.1 ▸ reportEnd_waiting { sim with queue := queue } time waits
        · rw [if_neg isEvent] at run
          have other : (EventQueue.Answer.step step).reported? ≠ some event := by
            rw [reports]
            exact fun same => isEvent (Option.some.inj same)
          rcases reportEnd_other { sim with queue := queue } time (Ne.symm isEvent) with
            ⟨sameQueue, sameSyncing, grown⟩
          have still := EventQueue.execute_unended unended other executed
          have later := ih (sameSyncing.trans waits) (sameQueue ▸ issued') (sameQueue ▸ tracks)
            (sameQueue ▸ still) run
          exact later.imp_left fun told => told.after grown
      cases step with
      | emptyQueue =>
          simp only [pure_eq_ok, Prod.mk.injEq] at run
          rcases EventQueue.execute_emptyQueue tracked executed with ⟨unqueued, idle⟩
          have still := EventQueue.execute_unended unended (fun answer => by cases answer) executed
          exact Or.inr (run.1 ▸ ⟨issued', still.ended, unqueued, idle⟩)
      | eventStarted id time =>
          have still := EventQueue.execute_unended unended (fun answer => by cases answer) executed
          have run : executeToEvent env event fuel { sim with queue := queue } =
              .ok (sim', reached) := run
          apply ih _ _ _ _ run
          · exact waits
          · exact issued'
          · exact tracks
          · exact still
      | eventEnded id time => exact ends rfl run
      | reachedPoint id time => exact ends rfl run

/-- The server lets a thread wait for an event, and executes to it. -/
theorem awaitEvent_answers {fuel : ℕ} {reached : Bool} (issued : event < sim.queue.eventCounter)
    (tracked : EventQueue.Tracked sim.queue) (unended : EventQueue.Unended sim.queue event)
    (run : executeToEvent env event fuel
      ((sim.note (.awaits host event time)).awaitEvent host event) = .ok (sim', reached)) :
    Answered host time sim sim' ∨ Unanswered host time sim sim' := by
  rcases executeToEvent_onlyExecutes run with ⟨_, _, _, _, _, _, ⟨later, grown⟩, changed⟩
  have waits : ((sim.note (.awaits host event time)).awaitEvent host event).syncing event =
      some host := Function.update_self ..
  have asked : ∀ news, .awaits host event time ∈ news ++ [Occurrence.awaits host event time] :=
    fun news => List.mem_append_right _ (List.mem_singleton_self _)
  rcases executeToEvent_answers waits issued tracked unended run with
    ⟨endTime, news, history, told⟩ | stuck
  · refine Or.inl ⟨event, endTime, news ++ [.awaits host event time], ?_, asked news, ?_⟩
    · rw [history, List.append_assoc]
      rfl
    · exact List.mem_append_left _ told
  · refine Or.inr ⟨event, later ++ [.awaits host event time], ?_, asked later, stuck⟩
    rw [changed, ← grown, List.append_assoc]
    rfl

/-- What a request comes to when the server has done something else before. -/
theorem answers_after {middle : Simulator} (earlier : sim.history <:+ middle.history)
    (answers : Answered host time middle sim' ∨ Unanswered host time middle sim') :
    Answered host time sim sim' ∨ Unanswered host time sim sim' := by
  rcases earlier with ⟨old, grown⟩
  rcases answers with ⟨event, endTime, news, history, asked, told⟩ |
    ⟨event, news, history, asked, stuck⟩
  · refine Or.inl ⟨event, endTime, news ++ old, ?_, ?_, ?_⟩
    · rw [history, ← grown, List.append_assoc]
    · exact List.mem_append_left _ asked
    · exact List.mem_append_left _ told
  · refine Or.inr ⟨event, news ++ old, ?_, List.mem_append_left _ asked, stuck⟩
    rw [history, ← grown, List.append_assoc]

theorem Advances.onTime {asks : ResponseId → Option ResponseId → Prop}
    (advances : Advances env asks sim sim') (onTime : OnTime sim) : OnTime sim' :=
  advances.acts.invariant OnTime (fun onTime act => act.onTime onTime) onTime

theorem addActionOrPoint_unended {dependsOn : List (Option EventId)} (onTime : OnTime sim)
    (run : sim.addActionOrPoint env dependsOn none time = .ok (sim', event)) :
    EventQueue.Unended sim'.queue event := by
  rcases addActionOrPoint_eq_ok run with ⟨queue, added, rfl⟩
  exact EventQueue.addActionOrPoint_unended onTime.inTime.tracked rfl added

theorem addEvent_unended {stream : HostStream} {dependsOn : List (Option EventId)}
    (named : Named sim) (onTime : OnTime sim)
    (run : sim.addEvent env stream dependsOn none time = .ok (sim', event)) :
    EventQueue.Unended sim'.queue event := by
  simp only [addEvent, submit, bind_eq_ok, pure_eq_ok, Prod.exists, Prod.mk.injEq] at run
  rcases run with ⟨flushed, cleared, added, id, submitted, rfl, rfl⟩
  have clears := clearComputeBufferOn_advances named cleared
  have unended := addActionOrPoint_unended (clears.onTime onTime) submitted
  exact unended.keep rfl rfl

theorem cudaStreamSynchronize_answers {stream : CudaStream} (named : Named sim)
    (onTime : OnTime sim)
    (run : sim.cudaStreamSynchronize env host time stream = .ok sim') :
    Answered host time sim sim' ∨ Unanswered host time sim sim' := by
  simp only [cudaStreamSynchronize, bind_eq_ok, pure_eq_ok, Prod.exists] at run
  rcases run with ⟨middle, event, added, final, _, executed, rfl⟩
  have unended := addEvent_unended named onTime added
  rcases addEvent_advances named (fun _ mem => by cases mem) rfl added with ⟨advances, issued⟩
  rcases addEvent_onlySubmits added with ⟨_, _, _, rfl⟩
  have tracked := (advances.onTime onTime).inTime.tracked
  have answers := awaitEvent_answers issued tracked unended executed
  exact answers_after (List.suffix_refl _) answers

theorem cudaDeviceSynchronize_answers {device : ℤ} (named : Named sim) (onTime : OnTime sim)
    (run : sim.cudaDeviceSynchronize env host time device = .ok sim') :
    Answered host time sim sim' ∨ Unanswered host time sim sim' := by
  simp only [cudaDeviceSynchronize, bind_eq_ok, pure_eq_ok, Prod.exists] at run
  rcases run with ⟨middle, dependsOn, collected, added, event, submitted, final, _, executed, rfl⟩
  rcases collectLasts_advances named collected with ⟨collects, issued⟩
  have submits := (addActionOrPoint_advances collects.named issued rfl submitted).1
  have unended := addActionOrPoint_unended (collects.onTime onTime) submitted
  have tracked := ((collects.trans submits).onTime onTime).inTime.tracked
  have answers := awaitEvent_answers (addActionOrPoint_pointAt submitted).1 tracked unended executed
  have submitsOnly := (collectLasts_onlySubmits collected).trans
    (addActionOrPoint_onlySubmits submitted)
  rcases submitsOnly with ⟨_, _, _, rfl⟩
  exact answers_after (List.suffix_refl _) answers

/-- A point that has not ended is still to be reported. -/
theorem OnTime.unended (onTime : OnTime sim) {pointTime : ℤ} (pointAt : PointAt sim event pointTime)
    (left : sim.queue.ended event = none) : EventQueue.Unended sim.queue event := by
  rcases pointAt with ⟨_, dependsOn, record⟩
  refine ⟨left, fun p known => ?_⟩
  rw [((onTime.inTime.dated event dependsOn pointTime record).waiting known).1]
  rfl

/-- A recorded event that has ended is answered at once. -/
theorem cudaEventSynchronize_answers {recorded : CudaEvent} (named : Named sim)
    (onTime : OnTime sim)
    (points : ∀ {key id}, sim.idOfCuda key = some id → ∃ pointTime, PointAt sim id pointTime)
    (run : sim.cudaEventSynchronize env host time recorded = .ok sim') :
    Answered host time sim sim' ∨ Unanswered host time sim sim' := by
  simp only [cudaEventSynchronize, bind_eq_ok, unwrap_eq_ok, Prod.exists] at run
  rcases run with ⟨middle, _, executed, event, known, run⟩
  have executes := executeToTime_advances named executed
  have later := executes.onTime onTime
  rcases executeToTime_onlyExecutes executed with ⟨queue, _, _, _, _, _, grown, same⟩
  have unchanged : middle.idOfCuda = sim.idOfCuda := by rw [same]
  rcases points (unchanged ▸ known) with ⟨pointTime, pointAt⟩
  have pointAt := pointAt.mono executes.acts.enlarges
  have earlier : sim.history <:+ middle.history := by rwa [same]
  refine answers_after earlier ?_
  split at run
  · rename_i endTime _
    simp only [pure_eq_ok] at run
    subst run
    exact Or.inl ⟨event, endTime, [.synced host endTime (some event), .awaits host event time], rfl,
      List.mem_cons_of_mem _ List.mem_cons_self, List.mem_cons_self⟩
  · rename_i unknown
    simp only [bind_eq_ok, pure_eq_ok, Prod.exists] at run
    rcases run with ⟨final, _, awaited, rfl⟩
    have left : middle.queue.ended event = none := Option.map_eq_none_iff.mp unknown
    exact awaitEvent_answers pointAt.1 later.inTime.tracked (later.unended pointAt left) awaited

/-- The event that a key names is a point. -/
theorem recorded_pointAt (reached : Reached env messages sim) {key : HostId × CudaEvent}
    (known : sim.idOfCuda key = some event) : ∃ pointTime, PointAt sim event pointTime := by
  induction reached generalizing key event with
  | start initial =>
      rcases initial with ⟨_, _, _, rfl⟩
      cases known
  | @step messages sim sim' message reached step ih =>
      have enlarges := handle_enlarges (onTime_of_reached reached).1 step
      cases recorded : message.recorded with
      | none =>
          rw [EventSystem.idOfCuda_of_unrecorded reached recorded step] at known
          rcases ih known with ⟨pointTime, pointAt⟩
          exact ⟨pointTime, pointAt.mono enlarges⟩
      | some named =>
          rcases message with ⟨host, time, call⟩ | _ | _
          · cases call with
            | cudaEventRecord cudaEvent =>
                rcases handle_cuda_eq_ok step with ⟨final, handled, rfl⟩
                have handled : (sim.updateHostCurr host.host time).cudaEventRecord env host time
                  cudaEvent = .ok final := handled
                simp only [cudaEventRecord, bind_eq_ok, pure_eq_ok, Prod.exists] at handled
                rcases handled with ⟨middle, point, added, rfl⟩
                have same : middle.idOfCuda = sim.idOfCuda := by
                  rcases addEvent_onlySubmits added with ⟨_, _, _, rfl⟩
                  rfl
                simp only [same, Function.update_apply] at known
                split at known
                · cases known
                  have pointAt := addEvent_pointAt added
                  exact ⟨time, pointAt⟩
                · rcases ih known with ⟨pointTime, pointAt⟩
                  exact ⟨pointTime, pointAt.mono enlarges⟩
            | _ => cases recorded
          · cases recorded
          · cases recorded

/-- A thread that blocks until an event ends is told its end, unless the server gets stuck. -/
theorem handle_answers {call : CudaCall} (reached : Reached env messages sim) (blocks : call.Blocks)
    (run : sim.handle env (.cuda ⟨host, time, call⟩) = .ok sim') :
    Answered host time sim sim' ∨ Unanswered host time sim sim' := by
  rcases onTime_of_reached reached with ⟨named, onTime⟩
  have updates : Advances env nobody sim (sim.updateHostCurr host.host time) :=
    updateHostCurr_advances named host.host time
  have later := updates.onTime onTime
  rcases handle_cuda_eq_ok run with ⟨final, handled, rfl⟩
  cases call with
  | cudaDeviceSynchronize device =>
      have answers := cudaDeviceSynchronize_answers updates.named later handled
      exact answers
  | cudaStreamSynchronize stream =>
      have answers := cudaStreamSynchronize_answers updates.named later handled
      exact answers
  | cudaEventSynchronize recorded =>
      have points : ∀ {key id}, (sim.updateHostCurr host.host time).idOfCuda key = some id →
          ∃ pointTime, PointAt (sim.updateHostCurr host.host time) id pointTime := by
        intro key id known
        rcases recorded_pointAt reached known with ⟨pointTime, pointAt⟩
        exact ⟨pointTime, pointAt.mono updates.acts.enlarges⟩
      have answers := cudaEventSynchronize_answers updates.named later points handled
      exact answers
  | _ => cases blocks

theorem quiet_of_blocks {call : CudaCall} (host : ResponseId) (time : ℤ) (blocks : call.Blocks) :
    (Message.cuda ⟨host, time, call⟩).collective = none ∧
      ¬(Message.cuda ⟨host, time, call⟩).Transfers := by
  cases call with
  | cudaDeviceSynchronize device => exact ⟨rfl, id⟩
  | cudaStreamSynchronize stream => exact ⟨rfl, id⟩
  | cudaEventSynchronize recorded => exact ⟨rfl, id⟩
  | _ => cases blocks

/-- The thread begins to wait for an event that has not ended and that comes after a barrier which
is still held. -/
def Blocked (host : ResponseId) (time : ℤ) (sim sim' : Simulator) : Prop :=
  ∃ event news, sim'.history = news ++ sim.history ∧
    Occurrence.awaits host event time ∈ news ∧ sim'.queue.ended event = none ∧
      ∃ holder, ∃ barrier ∈ sim'.barriers holder, barrier = event ∨ sim'.queue.Before barrier event

/-- When the graph has no cycle, the server gets stuck only behind a barrier. -/
theorem Unanswered.blocked (reached : Reached env messages sim')
    (acyclic : ∀ e, ¬sim'.queue.Before e e) (unanswered : Unanswered host time sim sim') :
    Blocked host time sim sim' := by
  rcases unanswered with ⟨event, news, history, asked, stuck⟩
  have tracked := (onTime_of_reached reached).2.inTime.tracked
  rcases tracked.behind_barrier stuck.unqueued stuck.idle acyclic stuck.issued stuck.unended with
    ⟨barrier, barred, after⟩
  rw [(linked_of_reached reached).1.barred] at barred
  rcases barred with none | ⟨holder, held⟩
  · cases none
  · exact ⟨event, news, history, asked, stuck.unended, holder, barrier, held, after⟩

/-- When communication is well ordered, a thread that blocks until an event ends is told its end
before the next message is handled, unless the event comes after a barrier that is still held. When
all peers have made their calls, it always is. -/
theorem synchronize_answers {call : CudaCall} (several : ∀ id, 2 ≤ size id)
    (reached : Runs.Reached Initial (SizedStep env size) messages sim)
    (ordered : WellOrdered round messages) (blocks : call.Blocks)
    (run : sim.handle env (.cuda ⟨host, time, call⟩) = .ok sim') :
    (Answered host time sim sim' ∨ Blocked host time sim sim') ∧
      (Settled size messages → Answered host time sim sim') := by
  rcases quiet_of_blocks host time blocks with ⟨notCollective, notTransfers⟩
  have next : Runs.Reached Initial (SizedStep env size)
      (messages ++ [.cuda ⟨host, time, call⟩]) sim' := by
    refine reached.step ⟨run, fun called isCalled => ?_⟩
    rw [notCollective] at isCalled
    cases isCalled
  have plain := next.mono fun step => step.1
  rcases charted_of_reached several next (ordered.concat_quiet notCollective notTransfers) with
    ⟨level, charted⟩
  have answers := handle_answers (reached.mono fun step => step.1) blocks run
  refine ⟨answers.imp_right (Unanswered.blocked plain charted.heights.levelled.acyclic), ?_⟩
  intro settled
  rcases answers with answered | unanswered
  · exact answered
  · rcases unanswered.blocked plain charted.heights.levelled.acyclic with
      ⟨_, _, _, _, _, holder, barrier, held, _⟩
    rw [(settled.concat_quiet notCollective notTransfers).barriers_eq_nil several next] at held
    cases held

/-- When both ranks have gathered and the transfer has both ends, the left thread is told when its
stream has gathered. -/
theorem synchronize_answers_inStep : ∃ sim sim' : Simulator,
    Runs.Reached Initial (SizedStep (.plain 20) fun _ => 2) inStep sim ∧
      sim.handle (.plain 20) (.cuda ⟨leftThread 0, 4, .cudaStreamSynchronize ⟨0, 0⟩⟩) = .ok sim' ∧
      sim.queue.eventCounter = 16 ∧ Settled (fun _ => 2) inStep ∧
        Answered (leftThread 0) 4 sim sim' := by
  have read : (do
      let sim ← inStep.foldlM (handleSized (.plain 20) fun _ => 2) pair
      let sim' ← sim.handle (.plain 20) (.cuda ⟨leftThread 0, 4, .cudaStreamSynchronize ⟨0, 0⟩⟩)
      return (sim, sim')).toOption.map
        (fun states : Simulator × Simulator => states.1.queue.eventCounter) = some 16 := by
    decide +kernel
  rcases exists_ok_of_reading read with ⟨_, run, counter⟩
  simp only [bind_eq_ok, pure_eq_ok] at run
  rcases run with ⟨sim, run, sim', handled, rfl⟩
  have reached := Runs.reached_of_foldlM sizedStep_of_handleSized initial_pair run
  have ordered : WellOrdered inStepRound inStep := by decide +kernel
  have settled : Settled (fun _ => 2) inStep := by decide +kernel
  exact ⟨sim, sim', reached, handled, counter, settled,
    (synchronize_answers (fun _ => le_rfl) reached ordered rfl handled).2 settled⟩

end Simulator

end Phantora
