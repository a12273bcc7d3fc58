import Phantora.Simulator.Timelines

/-!
# Runs of the machines

Executing the queue answers the requests that are due, and each message has the
effect on the server that it has on the machine of its host. So the order in which
the messages of different hosts arrive decides nothing: neither the span of an
operation nor the response to a blocking call.
-/

namespace Phantora

open Outcome EventQueue

namespace Simulator

variable {env : Environment} {sequences : Set (List TorchCallInfo)} {machines : HostId → Machine}
  {added added' : List Addition} {waiting waiting' : EventId → Option ResponseId}
  {sim sim' : Simulator} {host : HostId} {stream : CudaStream}

/-- Nobody waits for an event. -/
def nobodyWaits : EventId → Option ResponseId := fun _ => none

@[simp]
theorem queue_reportEnd (sim : Simulator) (id : EventId) (time : ℤ) :
    (sim.reportEnd id time).queue = sim.queue := by
  simp only [Simulator.reportEnd]
  split <;> rfl

/-- One request waits for one event. -/
def waitsFor (event : EventId) (asker : ResponseId) : EventId → Option ResponseId :=
  Function.update nobodyWaits event (some asker)

namespace Tracks

/-- A machine owes what the server sends. -/
theorem reply (tracks : Tracks env sequences machines added waiting sim) (asker : ResponseId)
    (due : Due) (response : Response) (meets : due.Meets response)
    (sent : sim'.sent = (asker, response) :: sim.sent)
    (queue : sim'.queue = sim.queue) (syncing : sim'.syncing = waiting')
    (streamInfo : sim'.streamInfo = sim.streamInfo) (idOfCuda : sim'.idOfCuda = sim.idOfCuda)
    (cuda : sim'.cudaEstimator = sim.cudaEstimator)
    (torch : sim'.torchEstimator = sim.torchEstimator) :
    Tracks env sequences (Function.update machines asker.host
      ((machines asker.host).owe asker due)) added waiting' sim' := by
  have same : ∀ host, ∃ dues, Function.update machines asker.host
      ((machines asker.host).owe asker due) host = { machines host with dues := dues } := by
    intro host
    by_cases sameHost : host = asker.host
    · subst sameHost
      rw [Function.update_self]
      exact ⟨_, rfl⟩
    · rw [Function.update_of_ne sameHost]
      exact ⟨_, rfl⟩
  refine ⟨queue ▸ tracks.foreseen, tracks.durations, syncing, ?_, ?_, ?_, ?_, ?_, ?_⟩
  · intro host stream
    rcases same host with ⟨dues, unchanged⟩
    rw [unchanged, streamInfo]
    exact tracks.keys host stream
  · intro host stream
    rcases same host with ⟨dues, unchanged⟩
    rw [unchanged, streamInfo]
    exact tracks.lanes host stream
  · intro host event
    rcases same host with ⟨dues, unchanged⟩
    rw [unchanged, idOfCuda]
    exact tracks.marks host event
  · rw [idOfCuda]
    exact tracks.marked
  · rw [cuda, torch]
    exact tracks.estimates
  · intro host
    rw [sentTo, sent, List.reverse_cons, List.filter_append]
    by_cases sameHost : host = asker.host
    · subst sameHost
      rw [Function.update_self, List.filter_singleton, decide_eq_true rfl]
      exact List.rel_append (tracks.dues asker.host) (.cons ⟨rfl, meets⟩ .nil)
    · rw [Function.update_of_ne sameHost, List.filter_singleton,
        decide_eq_false fun same => sameHost same.symm]
      simpa [sentTo] using tracks.dues host

/-- The end of an event that nobody waits for. -/
theorem reportEnd (tracks : Tracks env sequences machines added waiting sim) {id : EventId}
    {time : ℤ} (unawaited : waiting id = none) :
    Tracks env sequences machines added waiting (sim.reportEnd id time) := by
  have nobody : sim.syncing id = none := by rw [tracks.syncing, unawaited]
  simp only [Simulator.reportEnd, note, nobody]
  exact tracks.congr rfl rfl rfl rfl rfl rfl rfl

/-- The end of the event that a request waits for. -/
theorem reportEnd_awaited {event : EventId} {asker : ResponseId} {time : ℤ}
    (tracks : Tracks env sequences machines added (waitsFor event asker) sim) :
    Tracks env sequences (Function.update machines asker.host
      ((machines asker.host).owe asker (.returns time))) added nobodyWaits
        (sim.reportEnd event time) := by
  have awaited : sim.syncing event = some asker := by
    rw [tracks.syncing, waitsFor, Function.update_self]
  simp only [Simulator.reportEnd, note, awaited]
  refine tracks.reply asker (.returns time) (.sync time) rfl rfl rfl ?_ rfl rfl rfl rfl
  simp only [sendSyncResponseTo, sendResponseTo, note, updateHostSync]
  rw [tracks.syncing, waitsFor, Function.update_idem]
  exact Function.update_eq_self event nobodyWaits

/-- The queue does a step. -/
theorem execute (tracks : Tracks env sequences machines added waiting sim) {queue : EventQueue}
    {step : QueueStep} (run : sim.queue.execute env.toPlatform = .ok (queue, step)) :
    Tracks env sequences machines added waiting { sim with queue := queue } :=
  { tracks with foreseen := (tracks.foreseen.execute run).1 }

/-- A request that waits for an event is answered with the planned end of the event. -/
theorem executeToEvent {event : EventId} {asker : ResponseId} {fuel : ℕ} {found : Bool}
    (tracks : Tracks env sequences machines added (waitsFor event asker) sim)
    (issued : event < added.length) (unended : sim.queue.ended event = none)
    (run : Simulator.executeToEvent env event fuel sim = .ok (sim', found)) :
    ∃ time, plannedEnd added event = some time ∧
      Tracks env sequences (Function.update machines asker.host
        ((machines asker.host).owe asker (.returns time))) added nobodyWaits sim' := by
  induction fuel generalizing sim with
  | zero => simp [Simulator.executeToEvent] at run
  | succ fuel ih =>
      simp only [Simulator.executeToEvent, bind_eq_ok, Prod.exists] at run
      rcases run with ⟨queue, step, executed, run⟩
      have next := tracks.execute executed
      rcases tracks.foreseen.execute executed with ⟨foreseen, records⟩
      -- the end of the event is answered, and that of another one is only noted
      have ends : ∀ {id time start},
          queue.ended = Function.update sim.queue.ended id (some (start, time)) →
          (if id = event then Except.ok (({ sim with queue := queue }).reportEnd id time, true)
            else Simulator.executeToEvent env event fuel
              (({ sim with queue := queue }).reportEnd id time)) = .ok (sim', found) →
          ∃ time, plannedEnd added event = some time ∧
            Tracks env sequences (Function.update machines asker.host
              ((machines asker.host).owe asker (.returns time))) added nobodyWaits sim' := by
        intro id time start ended run
        by_cases isEvent : id = event
        · subst isEvent
          simp only [if_true, Except.ok.injEq, Prod.mk.injEq] at run
          refine ⟨time, ?_, run.1 ▸ next.reportEnd_awaited⟩
          have known : queue.ended id = some (start, time) := by rw [ended, Function.update_self]
          rw [plannedEnd, foreseen.ended known]
          rfl
        · rw [if_neg isEvent] at run
          refine ih (next.reportEnd (Function.update_of_ne isEvent ..)) ?_ run
          rw [queue_reportEnd, ended, Function.update_of_ne fun same => isEvent same.symm]
          exact unended
      cases step with
      | emptyQueue =>
          refine absurd unended ?_
          rw [← show queue.ended = sim.queue.ended from records]
          exact tracks.foreseen.execute_emptyQueue executed issued
      | eventStarted id time =>
          refine ih next ?_ run
          rw [show queue.ended = sim.queue.ended from records]
          exact unended
      | eventEnded id time =>
          rcases records with ⟨start, ended⟩
          exact ends ended run
      | reachedPoint id time =>
          rcases records with ⟨start, ended⟩
          exact ends ended run

/-- What is over before a time has ended when the queue has been executed to that time. -/
theorem executeToTime {bound : ℤ} {fuel : ℕ} {stopped : Bool}
    (tracks : Tracks env sequences machines added nobodyWaits sim)
    (run : Simulator.executeToTime env bound fuel sim = .ok (sim', stopped)) :
    Tracks env sequences machines added nobodyWaits sim' ∧
      ∀ {e time}, plannedEnd added e = some time → sim'.queue.ended e = none → bound ≤ time := by
  have isAdded : ∀ {e time}, plannedEnd added e = some time → e < added.length := by
    intro e time plan
    rcases Option.map_eq_some_iff.mp plan with ⟨span, known, _⟩
    rw [← length_planned]
    exact (List.getElem?_eq_some_iff.mp known).1
  induction fuel generalizing sim with
  | zero => simp [Simulator.executeToTime] at run
  | succ fuel ih =>
      simp only [Simulator.executeToTime, bind_eq_ok, Prod.exists] at run
      rcases run with ⟨peeked, next, peek, run⟩
      have looked : Tracks env sequences machines added nobodyWaits { sim with queue := peeked } :=
        { tracks with foreseen := (tracks.foreseen.peek peek).1 }
      cases next with
      | none =>
          simp only [pure_eq_ok, Prod.mk.injEq] at run
          refine run.1 ▸ ⟨looked, fun plan unended => absurd unended ?_⟩
          exact tracks.foreseen.peek_none peek (isAdded plan)
      | some nextTime =>
          dsimp only at run
          split at run
          · rename_i reached
            simp only [pure_eq_ok, Prod.mk.injEq] at run
            refine run.1 ▸ ⟨looked, fun plan unended => reached.trans ?_⟩
            rcases Option.map_eq_some_iff.mp plan with ⟨span, known, rfl⟩
            exact tracks.foreseen.due tracks.durations peek known unended
          · simp only [bind_eq_ok, Prod.exists] at run
            rcases run with ⟨queue, step, executed, run⟩
            have next := looked.execute executed
            cases step with
            | emptyQueue =>
                simp only [pure_eq_ok, Prod.mk.injEq] at run
                refine run.1 ▸ ⟨next, fun plan unended => absurd unended ?_⟩
                exact looked.foreseen.execute_emptyQueue executed (isAdded plan)
            | eventStarted id time => exact ih next run
            | eventEnded id time => exact ih (next.reportEnd rfl) run
            | reachedPoint id time => exact ih (next.reportEnd rfl) run

/-- A request waits for an event. -/
theorem await (tracks : Tracks env sequences machines added nobodyWaits sim) (asker : ResponseId)
    (event : EventId) (occurrence : Occurrence) :
    Tracks env sequences machines added (waitsFor event asker)
      ((sim.note occurrence).awaitEvent asker event) :=
  { tracks with
    syncing := by
      simp only [awaitEvent, note, tracks.syncing]
      rfl }

variable (steady : env.profiler.Steady) (apart : Set.InjOn env.profiler.hashSequence sequences)

include steady apart in
/-- An operation that waits for nothing but its stream. -/
theorem addWork (tracks : Tracks env sequences machines added waiting sim)
    (action : Option Action) {time : ℤ} {id : EventId}
    (within : ((machines host).use stream fun lane =>
      lane.work env.profiler [] (durationOf action) time).Within sequences)
    (noFlow : flowOf action = none) (lasting : 0 ≤ durationOf action) (nonneg : 0 ≤ time)
    (run : sim.addEvent env (host, stream) [] action time = .ok (sim', id)) :
    ∃ more, Tracks env sequences (Function.update machines host ((machines host).use stream
        fun lane => lane.work env.profiler [] (durationOf action) time)) (added ++ more) waiting
          sim' ∧ id < (added ++ more).length ∧ sim'.queue.ended id = none ∧
      plannedEnd (added ++ more) id =
        (((machines host).lanes stream).work env.profiler [] (durationOf action) time).finish := by
  rcases tracks.addEvent steady apart within.of_worked noFlow lasting nonneg List.not_mem_nil
    (fun _ _ => ⟨fun _ mem => absurd mem List.not_mem_nil, rfl⟩) run with
    ⟨more, worked, issued, unended, last⟩
  refine ⟨more, worked, issued, unended, ?_⟩
  have finish := (worked.lanes host stream).finish
  rw [Function.update_self, Machine.lanes_use_self] at finish
  rw [← finish]
  rw [lastEvent] at last
  rw [last]
  rfl

include steady apart in
theorem addComputation (tracks : Tracks env sequences machines added waiting sim)
    {duration time : ℤ} {call : CudaCall}
    (within : ((machines host).use stream fun lane =>
      lane.work env.profiler [] duration time).Within sequences)
    (lasting : 0 ≤ duration) (nonneg : 0 ≤ time)
    (run : sim.addComputation env host time stream duration call = .ok sim') :
    ∃ more, Tracks env sequences (Function.update machines host ((machines host).use stream
      fun lane => lane.work env.profiler [] duration time)) (added ++ more) waiting sim' := by
  simp only [Simulator.addComputation, bind_eq_ok, pure_eq_ok, Prod.exists] at run
  rcases run with ⟨final, id, worked, rfl⟩
  rcases tracks.addWork steady apart (some (.computation host duration (.cuda call))) within rfl
    lasting nonneg worked with ⟨more, tracks, _⟩
  exact ⟨more, tracks⟩

include steady apart in
theorem cudaStreamSynchronize (tracks : Tracks env sequences machines added nobodyWaits sim)
    {asker : ResponseId} {time : ℤ} (nonneg : 0 ≤ time)
    (within : ((machines asker.host).call env.profiler asker time
      (.cudaStreamSynchronize stream)).Within sequences)
    (run : sim.cudaStreamSynchronize env asker time stream = .ok sim') :
    ∃ more, Tracks env sequences (Function.update machines asker.host
      ((machines asker.host).call env.profiler asker time (.cudaStreamSynchronize stream)))
        (added ++ more) nobodyWaits sim' := by
  simp only [Simulator.cudaStreamSynchronize, bind_eq_ok, pure_eq_ok, Prod.exists] at run
  rcases run with ⟨middle, event, issuing, final, found, executed, rfl⟩
  have working : ((machines asker.host).use stream fun lane =>
    lane.work env.profiler [] (durationOf none) time).Within sequences := within
  rcases tracks.addWork steady apart none working rfl le_rfl nonneg issuing with
    ⟨more, worked, issued, unended, plan⟩
  rcases (worked.await asker event _).executeToEvent issued unended executed with
    ⟨endTime, known, answered⟩
  rw [Function.update_self, Function.update_idem] at answered
  refine ⟨more, ?_⟩
  simp only [Machine.call, Machine.lanes_use_self]
  rw [show ((machines asker.host).lanes stream).work env.profiler [] 0 time =
    ((machines asker.host).lanes stream).work env.profiler [] (durationOf none) time from rfl,
    ← plan, known]
  exact answered

include steady apart in
theorem cudaEventRecord (tracks : Tracks env sequences machines added waiting sim)
    {asker : ResponseId} {time : ℤ} {event : CudaEvent} (nonneg : 0 ≤ time)
    (within : ((machines asker.host).call env.profiler asker time
      (.cudaEventRecord event)).Within sequences)
    (run : sim.cudaEventRecord env asker time event = .ok sim') :
    ∃ more, Tracks env sequences (Function.update machines asker.host
      ((machines asker.host).call env.profiler asker time (.cudaEventRecord event)))
        (added ++ more) waiting sim' := by
  simp only [Simulator.cudaEventRecord, bind_eq_ok, pure_eq_ok, Prod.exists] at run
  rcases run with ⟨middle, id, issuing, rfl⟩
  have working : ((machines asker.host).use ⟨event.device, event.stream⟩ fun lane =>
    lane.work env.profiler [] (durationOf none) time).Within sequences := within
  rcases tracks.addWork steady apart none working rfl le_rfl nonneg issuing with
    ⟨more, worked, issued, _, plan⟩
  refine ⟨more, ?_⟩
  have same : ∀ host, ∃ marks, Function.update machines asker.host
      ((machines asker.host).call env.profiler asker time (.cudaEventRecord event)) host =
        { Function.update machines asker.host ((machines asker.host).use
            ⟨event.device, event.stream⟩ fun lane =>
              lane.work env.profiler [] (durationOf none) time) host with marks := marks } := by
    intro host
    by_cases sameHost : host = asker.host
    · subst sameHost
      rw [Function.update_self, Function.update_self]
      exact ⟨_, rfl⟩
    · rw [Function.update_of_ne sameHost, Function.update_of_ne sameHost]
      exact ⟨_, rfl⟩
  refine ⟨worked.foreseen, worked.durations, worked.syncing, ?_, ?_, ?_, ?_, worked.estimates, ?_⟩
  · intro host stream
    rcases same host with ⟨marks, unchanged⟩
    rw [unchanged]
    exact worked.keys host stream
  · intro host stream
    rcases same host with ⟨marks, unchanged⟩
    rw [unchanged]
    exact worked.lanes host stream
  · intro host other
    dsimp only
    by_cases isEvent : (host, other) = (asker.host, event)
    · rw [Prod.mk.injEq] at isEvent
      rcases isEvent with ⟨rfl, rfl⟩
      rw [Function.update_self, Function.update_self, Option.bind_some, plan]
      simp only [Machine.call, Function.update_self, Machine.lanes_use_self]
      rfl
    · rw [Function.update_of_ne isEvent, ← worked.marks]
      by_cases sameHost : host = asker.host
      · subst sameHost
        rw [Function.update_self, Function.update_self, Machine.call]
        exact Function.update_of_ne (fun sameEvent => isEvent (by rw [sameEvent])) ..
      · rw [Function.update_of_ne sameHost, Function.update_of_ne sameHost]
  · intro key e known
    dsimp only at known
    by_cases isEvent : key = (asker.host, event)
    · subst isEvent
      rw [Function.update_self, Option.some.injEq] at known
      exact known ▸ issued
    · rw [Function.update_of_ne isEvent] at known
      exact worked.marked known
  · intro host
    rcases same host with ⟨marks, unchanged⟩
    rw [unchanged]
    exact worked.dues host

include steady apart in
theorem cudaStreamWaitEvent (tracks : Tracks env sequences machines added waiting sim)
    {asker : ResponseId} {time : ℤ} {event : CudaEvent} (nonneg : 0 ≤ time)
    (within : ((machines asker.host).call env.profiler asker time
      (.cudaStreamWaitEvent stream event)).Within sequences)
    (run : sim.cudaStreamWaitEvent env asker time stream event = .ok sim') :
    ∃ more, Tracks env sequences (Function.update machines asker.host
      ((machines asker.host).call env.profiler asker time (.cudaStreamWaitEvent stream event)))
        (added ++ more) waiting sim' := by
  simp only [Simulator.cudaStreamWaitEvent, bind_eq_ok, pure_eq_ok, unwrap_eq_ok,
    Prod.exists] at run
  rcases run with ⟨e, known, middle, id, issuing, rfl⟩
  have working : ((machines asker.host).use stream fun lane =>
    lane.work env.profiler ((machines asker.host).marks event).toList (durationOf none)
      time).Within sequences := within
  have depends : ∀ {added' : List Addition} {middle : Simulator},
      Tracks env sequences (Function.update machines asker.host ((machines asker.host).use stream
        (Lane.flush env.profiler))) added' waiting middle → OnlySubmits sim middle →
          (∀ d, some d ∈ [some e] → d < added'.length) ∧
            Forward.endsAt (planned added') [some e].reduceOption =
              ((machines asker.host).marks event).toList := by
    intro added' middle flushed submits
    have recorded : middle.idOfCuda (asker.host, event) = some e := by
      rcases submits with ⟨_, _, _, rfl⟩
      exact known
    refine ⟨?_, ?_⟩
    · intro d mem
      rw [List.mem_singleton, Option.some.injEq] at mem
      exact mem ▸ flushed.marked recorded
    · have marks := flushed.marks asker.host event
      rw [Function.update_self, recorded, Option.bind_some] at marks
      rw [endsAt_singleton, ← marks]
      rfl
  rcases tracks.addEvent steady apart working.of_worked rfl le_rfl nonneg (by simp) depends
    issuing with ⟨more, worked, _⟩
  exact ⟨more, worked⟩

theorem cudaEventSynchronize (tracks : Tracks env sequences machines added nobodyWaits sim)
    {asker : ResponseId} {time : ℤ} {event : CudaEvent}
    (run : sim.cudaEventSynchronize env asker time event = .ok sim') :
    Tracks env sequences (Function.update machines asker.host
      ((machines asker.host).call env.profiler asker time (.cudaEventSynchronize event)))
        added nobodyWaits sim' := by
  simp only [Simulator.cudaEventSynchronize, bind_eq_ok, unwrap_eq_ok, Prod.exists] at run
  rcases run with ⟨middle, stopped, executed, e, known, run⟩
  have reached := (tracks.executeToTime executed).1
  have marks := reached.marks asker.host event
  rw [known, Option.bind_some] at marks
  rw [Machine.call, marks]
  split at run
  · rename_i endTime ended
    simp only [pure_eq_ok] at run
    rw [reached.foreseen.query ended, Option.getD_some]
    subst run
    exact reached.reply asker (.returns endTime) (.sync endTime) rfl rfl rfl reached.syncing rfl rfl
      rfl rfl
  · rename_i unended
    simp only [bind_eq_ok, pure_eq_ok, Prod.exists] at run
    rcases run with ⟨final, found, executed, rfl⟩
    rcases (reached.await asker e _).executeToEvent (reached.marked known)
      (Option.map_eq_none_iff.mp unended) executed with ⟨endTime, plan, answered⟩
    rw [plan, Option.getD_some]
    exact answered

/-- A poll of an event finds it over if it is over before the time of the poll. -/
theorem poll (tracks : Tracks env sequences machines added nobodyWaits sim) {asker : ResponseId}
    {time : ℤ} {e : EventId} (issued : e < added.length)
    (past : ∀ {e finish}, plannedEnd added e = some finish → sim.queue.ended e = none →
      time ≤ finish) :
    ∃ finish, plannedEnd added e = some finish ∧
      Tracks env sequences (Function.update machines asker.host
        ((machines asker.host).owe asker (.poll time finish))) added nobodyWaits
          (sim.replyToPoll asker time (some e)
            ((sim.queue.query e).map fun time => (time, some e))) := by
  have short : e < (planned added).length := by rwa [length_planned]
  have plan : plannedEnd added e = some (planned added)[e].2 := by
    rw [plannedEnd, List.getElem?_eq_getElem short]
    rfl
  refine ⟨_, plan, ?_⟩
  cases found : sim.queue.query e with
  | some endTime =>
      have same := (tracks.foreseen.query found).symm.trans plan
      exact tracks.reply asker _ (.query (some endTime)) (.inl same) rfl rfl tracks.syncing rfl rfl
        rfl rfl
  | none =>
      have late := past plan (Option.map_eq_none_iff.mp found)
      exact tracks.reply asker _ (.query none) (.inr ⟨rfl, late⟩) rfl rfl tracks.syncing rfl rfl
        rfl rfl

theorem cudaEventQuery (tracks : Tracks env sequences machines added nobodyWaits sim)
    {asker : ResponseId} {time : ℤ} {event : CudaEvent}
    (run : sim.cudaEventQuery env asker time event = .ok sim') :
    Tracks env sequences (Function.update machines asker.host
      ((machines asker.host).call env.profiler asker time (.cudaEventQuery event)))
        added nobodyWaits sim' := by
  simp only [Simulator.cudaEventQuery, bind_eq_ok, pure_eq_ok, unwrap_eq_ok, Prod.exists] at run
  rcases run with ⟨middle, stopped, executed, e, known, rfl⟩
  rcases tracks.executeToTime executed with ⟨reached, past⟩
  have marks := reached.marks asker.host event
  rw [known, Option.bind_some] at marks
  rcases reached.poll (reached.marked known) past with ⟨finish, plan, polled⟩
  rw [Machine.call, marks, plan, Option.getD_some]
  exact polled

include steady apart in
theorem cudaStreamQuery (tracks : Tracks env sequences machines added nobodyWaits sim)
    {asker : ResponseId} {time : ℤ}
    (within : ((machines asker.host).call env.profiler asker time
      (.cudaStreamQuery stream)).Within sequences)
    (run : sim.cudaStreamQuery env asker time stream = .ok sim') :
    ∃ more, Tracks env sequences (Function.update machines asker.host
      ((machines asker.host).call env.profiler asker time (.cudaStreamQuery stream)))
        (added ++ more) nobodyWaits sim' := by
  simp only [Simulator.cudaStreamQuery, bind_eq_ok, Prod.exists] at run
  rcases run with ⟨middle, clearing, final, stopped, executed, run⟩
  have cleared : ∃ more, Tracks env sequences (Function.update machines asker.host
      (if stream ∈ (machines asker.host).streams then
        (machines asker.host).onLane stream (Lane.flush env.profiler) else machines asker.host))
          (added ++ more) nobodyWaits middle := by
    split at clearing
    · rename_i isKey
      have used := (tracks.keys _ _).mp isKey
      rw [if_pos used]
      have flushing : (if stream ∈ (machines asker.host).streams then
          (machines asker.host).onLane stream (Lane.flush env.profiler)
            else machines asker.host).Within sequences := within
      rw [if_pos used] at flushing
      rw [← Machine.use_of_mem _ _ used]
      refine tracks.clearComputeBufferOn steady apart (fun infos mem => ?_) clearing
      apply flushing stream
      rw [Machine.lanes_onLane_self]
      exact mem
    · rename_i isKey
      rw [if_neg fun used => isKey ((tracks.keys _ _).mpr used), Function.update_eq_self]
      rw [Except.ok.injEq] at clearing
      exact ⟨[], by rw [List.append_nil]; exact clearing ▸ tracks⟩
  rcases cleared with ⟨more, flushed⟩
  refine ⟨more, ?_⟩
  rcases flushed.executeToTime executed with ⟨reached, past⟩
  have finish := (flushed.lanes asker.host stream).finish
  rw [Function.update_self] at finish
  simp only [Machine.call]
  rw [← finish]
  cases last : (middle.streamInfo.info (asker.host, stream)).events.getLast? with
  | some e =>
      simp only [lastEvent, last, pure_eq_ok] at run
      have issued := (flushed.lanes asker.host stream).lt (List.mem_of_getLast? last)
      rcases reached.poll issued past with ⟨finish, plan, polled⟩
      rw [Option.bind_some, plan]
      rw [Function.update_self, Function.update_idem] at polled
      exact run ▸ polled
  | none =>
      simp only [lastEvent, last, pure_eq_ok] at run
      subst run
      have sent : (final.replyToPoll asker time none (some (time, none))).sent =
        (asker, .query (some time)) :: final.sent := rfl
      have replied := reached.reply asker (.ready time) (.query (some time)) rfl sent rfl
        reached.syncing rfl rfl rfl rfl
      rw [Function.update_self, Function.update_idem] at replied
      exact replied

/-- An event of no stream. -/
theorem addPoint (tracks : Tracks env sequences machines added waiting sim)
    {dependsOn : List (Option EventId)} {time : ℤ} {id : EventId} (nonneg : 0 ≤ time)
    (free : none ∉ dependsOn) (issued : ∀ d, some d ∈ dependsOn → d < added.length)
    (run : sim.addActionOrPoint env dependsOn none time = .ok (sim', id)) :
    Tracks env sequences machines (added ++ [(dependsOn, none, time)]) waiting sim' ∧
      id < (added ++ [(dependsOn, none, time)]).length ∧ sim'.queue.ended id = none ∧
      plannedEnd (added ++ [(dependsOn, none, time)]) id =
        some (Forward.latest time (Forward.endsAt (planned added) dependsOn.reduceOption)) := by
  rcases addActionOrPoint_eq_ok run with ⟨queue, submitted, rfl⟩
  rcases tracks.foreseen.add rfl free issued nonneg submitted with ⟨foreseen, rfl, ended⟩
  have same : ∀ e < added.length,
      (planned (added ++ [(dependsOn, none, time)]))[e]? = (planned added)[e]? :=
    fun e old => planned_append added [_] old
  refine ⟨⟨foreseen, ?_, tracks.syncing, tracks.keys, ?_, ?_, ?_, tracks.estimates, tracks.dues⟩,
    by simp, ?_, ?_⟩
  · intro addition mem
    rcases List.mem_append.mp mem with mem | mem
    · exact tracks.durations addition mem
    · rw [List.mem_singleton.mp mem]
      exact le_rfl
  · exact fun host stream => (tracks.lanes host stream).mono same
  · intro host event
    rw [tracks.marks]
    cases known : sim.idOfCuda (host, event) with
    | none => rfl
    | some e => simp only [Option.bind_some, plannedEnd, same e (tracks.marked known)]
  · intro key e known
    rw [List.length_append]
    exact Nat.lt_add_right _ (tracks.marked known)
  · rw [ended]
    by_contra past
    exact Nat.lt_irrefl _ (tracks.foreseen.lt_of_ended past)
  · rw [plannedEnd, planned_concat, ← length_planned added, List.getElem?_concat_length]
    simp [Forward.Job.span, jobOf, durationOf]

include steady apart in
/-- The streams of a device are flushed and their last events collected. -/
theorem collectLasts (tracks : Tracks env sequences machines added waiting sim)
    {keys : List HostStream} {lasts : List (Option EventId)}
    (ofHost : ∀ key ∈ keys, key.1 = host ∧ key.2 ∈ (machines host).streams)
    (within : ((machines host).flushAll env.profiler (keys.map Prod.snd)).Within sequences)
    (run : keys.foldlM (collectLast env) (sim, []) = .ok (sim', lasts)) :
    ∃ more, Tracks env sequences (Function.update machines host
        ((machines host).flushAll env.profiler (keys.map Prod.snd))) (added ++ more) waiting sim' ∧
      none ∉ lasts ∧ (∀ e, some e ∈ lasts → e < (added ++ more).length) ∧
      ∀ time, time ∈ Forward.endsAt (planned (added ++ more)) lasts.reduceOption ↔
        ∃ key ∈ keys, (((machines host).lanes key.2).flush env.profiler).finish = some time := by
  induction keys using List.reverseRecOn generalizing sim' lasts with
  | nil =>
      simp only [List.foldlM_nil, pure_eq_ok, Prod.mk.injEq] at run
      rcases run with ⟨rfl, rfl⟩
      refine ⟨[], ?_, List.not_mem_nil, fun _ mem => absurd mem List.not_mem_nil, ?_⟩
      · rw [List.append_nil, List.map_nil, Machine.flushAll_nil, Function.update_eq_self]
        exact tracks
      · simp [Forward.endsAt]
  | append_singleton keys key ih =>
      simp only [List.foldlM_append, List.foldlM_cons, List.foldlM_nil, bind_eq_ok, pure_eq_ok,
        Prod.exists] at run
      rcases run with ⟨middle, before, earlier, final, all, collected, same⟩
      rw [Prod.mk.injEq] at same
      rcases same with ⟨rfl, rfl⟩
      rcases key with ⟨owner, stream⟩
      rcases ofHost _ (List.mem_append_right _ (List.mem_singleton_self _)) with ⟨same, used⟩
      simp only at same used
      subst same
      rw [List.map_append, List.map_singleton] at within ⊢
      have flushing := Machine.Within.of_flushAll_append within
      rcases ih (fun other mem => ofHost other (List.mem_append_left _ mem)) flushing earlier with
        ⟨early, flushed, free, issued, ends⟩
      simp only [collectLast, bind_eq_ok, pure_eq_ok, Prod.mk.injEq] at collected
      rcases collected with ⟨_, cleared, rfl, rfl⟩
      have asked : ∀ infos ∈ (((Function.update machines owner ((machines owner).flushAll
          env.profiler (keys.map Prod.snd)) owner).lanes stream).flush env.profiler).sequences,
          infos ∈ sequences := by
        intro infos mem
        apply within stream
        rw [Function.update_self] at mem
        rw [← Machine.use_flushAll _ _ used, Machine.lanes_use_self]
        exact mem
      rcases flushed.clearComputeBufferOn steady apart asked cleared with ⟨late, all⟩
      rw [Function.update_self, Function.update_idem, Machine.use_flushAll _ _ used,
        List.append_assoc] at all
      have lane := all.lanes owner stream
      have last := lane.endsAt_last
      rw [Function.update_self, Machine.lanes_flushAll_of_mem _
        (List.mem_append_right _ (List.mem_singleton_self _))] at last
      refine ⟨early ++ late, all, ?_, ?_, ?_⟩
      · intro mem
        rcases List.mem_append.mp mem with mem | mem
        · exact free mem
        · simp at mem
      · intro e mem
        rcases List.mem_append.mp mem with mem | mem
        · rw [← List.append_assoc, List.length_append]
          exact Nat.lt_add_right _ (issued e mem)
        · simp only [Option.mem_toList, Option.map_eq_some_iff, Option.some.injEq,
            exists_eq_right] at mem
          exact lane.lt (List.mem_of_getLast? mem)
      · intro time
        have old : Forward.endsAt (planned (added ++ (early ++ late))) before.reduceOption =
            Forward.endsAt (planned (added ++ early)) before.reduceOption := by
          refine Forward.endsAt_congr fun e mem => ?_
          rw [← List.append_assoc]
          exact planned_append _ late (issued e (List.reduceOption_mem_iff.mp mem))
        rw [List.reduceOption_append, Forward.endsAt_append, List.mem_append, old, ends,
          lastEvent, last]
        simp only [Option.mem_toList, List.mem_append, List.mem_singleton, or_and_right, exists_or,
          exists_eq_left]

include steady apart in
theorem cudaDeviceSynchronize (tracks : Tracks env sequences machines added nobodyWaits sim)
    {asker : ResponseId} {time device : ℤ} (nonneg : 0 ≤ time)
    (within : ((machines asker.host).call env.profiler asker time
      (.cudaDeviceSynchronize device)).Within sequences)
    (run : sim.cudaDeviceSynchronize env asker time device = .ok sim') :
    ∃ more, Tracks env sequences (Function.update machines asker.host
      ((machines asker.host).call env.profiler asker time (.cudaDeviceSynchronize device)))
        (added ++ more) nobodyWaits sim' := by
  simp only [Simulator.cudaDeviceSynchronize, bind_eq_ok, pure_eq_ok, Prod.exists] at run
  rcases run with ⟨middle, lasts, collected, later, event, submitted, final, found, executed, rfl⟩
  generalize isKeys : (env.order sim.handled sim.streamInfo.keys).filter (fun stream =>
    decide (stream.1 = asker.host ∧ stream.2.device = device)) = keys at collected
  have mem_keys : ∀ key, key ∈ keys ↔
      key.1 = asker.host ∧ key.2 ∈ (machines asker.host).onDevice device := by
    rintro ⟨host, stream⟩
    rw [← isKeys, List.mem_filter, (env.order_perm _ _).mem_iff, decide_eq_true_iff, tracks.keys,
      Machine.onDevice, List.mem_filter, decide_eq_true_iff]
    constructor
    · rintro ⟨used, rfl, isDevice⟩
      exact ⟨rfl, used, isDevice⟩
    · rintro ⟨rfl, used, isDevice⟩
      exact ⟨used, rfl, isDevice⟩
  have streams : ∀ stream, stream ∈ keys.map Prod.snd ↔
      stream ∈ (machines asker.host).onDevice device := by
    intro stream
    rw [List.mem_map]
    constructor
    · rintro ⟨key, mem, rfl⟩
      exact ((mem_keys key).mp mem).2
    · exact fun mem => ⟨(asker.host, stream), (mem_keys _).mpr ⟨rfl, mem⟩, rfl⟩
  have same := Machine.flushAll_congr env.profiler (machines asker.host) streams
  have flushing : ((machines asker.host).flushAll env.profiler
    ((machines asker.host).onDevice device)).Within sequences := within
  rcases tracks.collectLasts steady apart
    (fun key mem => ⟨((mem_keys key).mp mem).1, List.mem_of_mem_filter ((mem_keys key).mp mem).2⟩)
    (same ▸ flushing) collected with ⟨more, flushed, free, issued, ends⟩
  rcases flushed.addPoint nonneg free issued submitted with ⟨all, isIssued, unended, plan⟩
  rcases (all.await asker event _).executeToEvent isIssued unended executed with
    ⟨endTime, known, answered⟩
  rw [plan, Option.some.injEq] at known
  rw [Function.update_self, Function.update_idem, same, List.append_assoc] at answered
  refine ⟨more ++ [(lasts, none, time)], ?_⟩
  have finish : ((machines asker.host).flushAll env.profiler
      ((machines asker.host).onDevice device)).finishDevice device time = endTime := by
    rw [← known, Machine.finishDevice, Machine.onDevice_flushAll]
    refine Forward.latest_congr time fun other => ?_
    rw [ends, List.mem_filterMap]
    constructor
    · rintro ⟨stream, mem, isLast⟩
      refine ⟨(asker.host, stream), (mem_keys _).mpr ⟨rfl, mem⟩, ?_⟩
      rwa [Machine.lanes_flushAll_of_mem _ mem] at isLast
    · rintro ⟨key, mem, isLast⟩
      have mem := ((mem_keys key).mp mem).2
      refine ⟨key.2, mem, ?_⟩
      rwa [Machine.lanes_flushAll_of_mem _ mem]
  rw [Machine.call, finish]
  exact answered

include steady in
theorem handleTorchCall (tracks : Tracks env sequences machines added waiting sim)
    {call : TorchCall} (nonneg : 0 ≤ call.time) :
    Tracks env sequences (Function.update machines call.id.host
      ((machines call.id.host).torch env.profiler call)) added waiting
        (sim.handleTorchCall env call) := by
  rcases tracks.estimates.ofTorch steady call.info with ⟨duration, estimates⟩
  have lane := tracks.lanes call.id.host call.stream
  have later : Tracks env sequences machines added waiting
      (sim.updateHostCurr call.id.host call.time) := tracks.congr rfl rfl rfl rfl rfl rfl rfl
  refine later.change call.id.host call.stream later.foreseen later.durations le_rfl
    (fun _ _ => rfl) estimates ⟨lane.spans, ?_, ?_⟩
  · rw [← lane.buffered, ← duration]
    rfl
  · intro entry mem
    rcases List.mem_append.mp mem with mem | mem
    · exact lane.timely entry mem
    · rw [List.mem_singleton.mp mem]
      exact nonneg

include steady apart in
theorem handleCudaCall (tracks : Tracks env sequences machines added nobodyWaits sim)
    {msg : CudaCallMsg} (solo : (Message.cuda msg).Solo)
    (within : ((machines msg.id.host).obey env.profiler (.cuda msg)).Within sequences)
    (run : sim.handleCudaCall env msg = .ok sim') :
    ∃ more, Tracks env sequences (Function.update machines msg.id.host
      ((machines msg.id.host).obey env.profiler (.cuda msg))) (added ++ more) nobodyWaits sim' := by
  rcases msg with ⟨id, time, call⟩
  rcases solo with ⟨nonneg, solo⟩
  have later : Tracks env sequences machines added nobodyWaits (sim.updateHostCurr id.host time) :=
    tracks.congr rfl rfl rfl rfl rfl rfl rfl
  cases call with
  | cudaMemcpyAsync size kind stream =>
      rcases later.estimates.ofMemcpy steady kind size with ⟨duration, estimates⟩
      have estimated : Tracks env sequences machines added nobodyWaits
          { sim.updateHostCurr id.host time with
            cudaEstimator := (sim.cudaEstimator.memcpy env.profiler kind size).1 } :=
        { later with estimates := estimates }
      simp only [Simulator.handleCudaCall, Simulator.cudaMemcpyAsync, duration] at run
      exact estimated.addComputation steady apart within (Int.natCast_nonneg _) nonneg run
  | cudaAddLatency stream latency => exact later.addComputation steady apart within solo nonneg run
  | flashAttnCall stream isFwd isBf16 batchSize seqlenQ seqlenK numHeads numHeadsK headSize
      windowSizeLeft windowSizeRight isCausal =>
      rcases later.estimates.ofFlashAttn steady (.flashAttnCall stream isFwd isBf16 batchSize
        seqlenQ seqlenK numHeads numHeadsK headSize windowSizeLeft windowSizeRight isCausal) with
        ⟨duration, estimates⟩
      have estimated : Tracks env sequences machines added nobodyWaits
          { sim.updateHostCurr id.host time with
            cudaEstimator := (sim.cudaEstimator.flashAttn env.profiler (.flashAttnCall stream isFwd
              isBf16 batchSize seqlenQ seqlenK numHeads numHeadsK headSize windowSizeLeft
              windowSizeRight isCausal)).1 } :=
        { later with estimates := estimates }
      simp only [Simulator.handleCudaCall, Simulator.flashAttnCall, duration] at run
      exact estimated.addComputation steady apart within (Int.natCast_nonneg _) nonneg run
  | cudaDeviceSynchronize device =>
      exact later.cudaDeviceSynchronize steady apart nonneg within run
  | cudaStreamSynchronize stream =>
      exact later.cudaStreamSynchronize steady apart nonneg within run
  | cudaStreamWaitEvent stream event =>
      exact later.cudaStreamWaitEvent steady apart nonneg within run
  | cudaStreamQuery stream => exact later.cudaStreamQuery steady apart within run
  | cudaEventRecord event => exact later.cudaEventRecord steady apart nonneg within run
  | cudaEventSynchronize event =>
      exact ⟨[], by rw [List.append_nil]; exact later.cudaEventSynchronize run⟩
  | cudaEventQuery event => exact ⟨[], by rw [List.append_nil]; exact later.cudaEventQuery run⟩
  | readTimer =>
      refine ⟨[], ?_⟩
      rw [List.append_nil]
      simp only [Simulator.handleCudaCall, Except.ok.injEq] at run
      rw [show (machines id.host).obey env.profiler (.cuda ⟨id, time, .readTimer _⟩) =
        machines id.host from rfl, Function.update_eq_self]
      exact run ▸ later.congr rfl rfl rfl rfl rfl rfl rfl
  | _ => exact solo.elim

include steady apart in
/-- A message has the effect that it has on the machine of its host. -/
theorem handle (tracks : Tracks env sequences machines added nobodyWaits sim) {message : Message}
    (solo : message.Solo)
    (within : ((machines message.sender.host).obey env.profiler message).Within sequences)
    (run : sim.handle env message = .ok sim') :
    ∃ more, Tracks env sequences (Function.update machines message.sender.host
      ((machines message.sender.host).obey env.profiler message)) (added ++ more) nobodyWaits
        sim' := by
  simp only [Simulator.handle, bind_eq_ok, pure_eq_ok] at run
  rcases run with ⟨middle, dispatched, rfl⟩
  have obeyed : ∃ more, Tracks env sequences (Function.update machines message.sender.host
      ((machines message.sender.host).obey env.profiler message)) (added ++ more) nobodyWaits
        middle := by
    rcases message with msg | call | ⟨host, time⟩
    · exact tracks.handleCudaCall steady apart solo within dispatched
    · simp only [dispatch, Except.ok.injEq] at dispatched
      exact ⟨[], by rw [List.append_nil]; exact dispatched ▸ tracks.handleTorchCall steady solo⟩
    · simp only [dispatch, Except.ok.injEq] at dispatched
      refine ⟨[], ?_⟩
      rw [List.append_nil, Machine.obey, Function.update_eq_self]
      exact dispatched ▸ tracks.congr rfl rfl rfl rfl rfl rfl rfl
  rcases obeyed with ⟨more, obeyed⟩
  exact ⟨more, obeyed.congr rfl rfl rfl rfl rfl rfl rfl⟩

end Tracks

/-- A message reaches the machine of its host only. -/
theorem after_append (profiler : Profiler) (messages : List Message) (message : Message) :
    Machine.after profiler (messages ++ [message]) =
      Function.update (Machine.after profiler messages) message.sender.host
        ((Machine.after profiler messages message.sender.host).obey profiler message) := by
  funext host
  by_cases same : host = message.sender.host
  · subst same
    rw [Function.update_self]
    simp [Machine.after]
  · rw [Function.update_of_ne same]
    have other : message.sender.host ≠ host := fun sender => same sender.symm
    simp [Machine.after, other]

theorem Tracks.start (initial : Initial sim) :
    Tracks env sequences (fun _ => {}) [] nobodyWaits sim := by
  rcases initial with ⟨cluster, setting, hostMapping, rfl⟩
  refine ⟨.start ⟨_, _, _, rfl⟩, ?_, rfl, ?_, ?_, fun _ _ => rfl, ?_, ⟨?_, ?_, ?_⟩,
    fun _ => .nil⟩
  · exact fun _ mem => absurd mem List.not_mem_nil
  · exact fun _ _ => iff_of_false List.not_mem_nil List.not_mem_nil
  · exact fun _ _ => ⟨rfl, rfl, fun _ mem => absurd mem List.not_mem_nil⟩
  · exact fun known => absurd known.symm (Option.some_ne_none _)
  · exact fun known => absurd known.symm (Option.some_ne_none _)
  · exact fun known => absurd known.symm (Option.some_ne_none _)
  · exact fun known => absurd known.symm (Option.some_ne_none _)

/-- The server is where the machines are. -/
theorem tracks_of_reached {messages : List Message} (steady : env.profiler.Steady)
    (apart : Set.InjOn env.profiler.hashSequence sequences)
    (solo : ∀ message ∈ messages, message.Solo)
    (within : ∀ host, (Machine.after env.profiler messages host).Within sequences)
    (reached : Reached env messages sim) :
    ∃ added, Tracks env sequences (Machine.after env.profiler messages) added nobodyWaits sim := by
  refine reached.invariant (fun messages sim => (∀ message ∈ messages, message.Solo) →
    (∀ host, (Machine.after env.profiler messages host).Within sequences) →
      ∃ added, Tracks env sequences (Machine.after env.profiler messages) added nobodyWaits sim)
    ?_ ?_ solo within
  · exact fun initial _ _ => ⟨[], .start initial⟩
  · intro messages sim message sim' before step solo within
    rw [after_append] at within ⊢
    have obeyed := within message.sender.host
    rw [Function.update_self] at obeyed
    have earlier : ∀ host, (Machine.after env.profiler messages host).Within sequences := by
      intro host
      by_cases same : host = message.sender.host
      · exact same ▸ obeyed.of_obey
      · have unchanged := within host
        rwa [Function.update_of_ne same] at unchanged
    rcases before (fun other mem => solo other (List.mem_append_left _ mem)) earlier with
      ⟨added, tracks⟩
    rcases tracks.handle steady apart
      (solo message (List.mem_append_right _ (List.mem_singleton_self _))) obeyed step with
      ⟨more, tracks⟩
    exact ⟨_, tracks⟩

/-- The sequences that the machines ask the durations of. -/
def measuredSequences (profiler : Profiler) (messages : List Message) : Set (List TorchCallInfo) :=
  {infos | ∃ host stream,
    infos ∈ ((Machine.after profiler messages host).lanes stream).sequences}

/-- The event has the span if it has ended. -/
def HasSpan (sim : Simulator) (e : EventId) (span : ℤ × ℤ) : Prop :=
  ∀ found, sim.queue.ended e = some found → found = span

theorem Tracks.hasSpans (tracks : Tracks env sequences machines added waiting sim) (host : HostId)
    (stream : CudaStream) :
    List.Forall₂ sim.HasSpan (sim.streamInfo.info (host, stream)).events
      ((machines host).lanes stream).spans := by
  have spans := (tracks.lanes host stream).spans
  rw [← List.forall₂_eq_eq_eq, List.forall₂_map_left_iff, List.forall₂_map_right_iff] at spans
  refine spans.imp fun e span plan found ended => ?_
  rw [tracks.foreseen.ended ended, Option.some.injEq] at plan
  exact plan

/-- Two responses to the same request agree. -/
def Agree (first second : ResponseId × Response) : Prop :=
  first.1 = second.1 ∧ first.2.Agrees second.2

theorem Owes.agree {owed : ResponseId × Due} {first second : ResponseId × Response}
    (owes : Owes owed first) (owes' : Owes owed second) : Agree first second :=
  ⟨owes.1.symm.trans owes'.1, Due.Meets.agrees owes.2 owes'.2⟩

/-- What two runs have in common with the same machines they have in common. -/
theorem forall₂_common {α β γ : Type} {R : α → β → Prop} {S : α → γ → Prop} {T : β → γ → Prop}
    (common : ∀ a b c, R a b → S a c → T b c) {as : List α} {bs : List β} {cs : List γ}
    (left : List.Forall₂ R as bs) (right : List.Forall₂ S as cs) : List.Forall₂ T bs cs := by
  induction left generalizing cs with
  | nil =>
      cases right
      exact .nil
  | cons first _ ih =>
      cases right with
      | cons second rest => exact .cons (common _ _ _ first second) (ih rest)

/-- What the machines make of the messages is what the server does: the requests of a host have been
answered as is due to them, in order, and the events of a stream that have ended have the spans of
its operations. -/
theorem follows_machines {messages : List Message} (steady : env.profiler.Steady)
    (solo : ∀ message ∈ messages, message.Solo)
    (apart : Set.InjOn env.profiler.hashSequence (measuredSequences env.profiler messages))
    (reached : Reached env messages sim) (host : HostId) :
    List.Forall₂ Owes (Machine.after env.profiler messages host).dues (sim.sentTo host) ∧
      ∀ stream, List.Forall₂ sim.HasSpan (sim.streamInfo.info (host, stream)).events
        ((Machine.after env.profiler messages host).lanes stream).spans := by
  rcases tracks_of_reached steady apart solo (fun host stream infos mem => ⟨host, stream, mem⟩)
    reached with ⟨added, tracks⟩
  exact ⟨tracks.dues host, tracks.hasSpans host⟩

/-- The order in which the messages of different hosts arrive makes no difference: the requests of a
host get responses that agree, blocking ones the same, and events have the same spans. -/
theorem interleaving_irrelevant {env' : Environment} {messages messages' : List Message}
    (measured : env'.profiler = env.profiler) (steady : env.profiler.Steady)
    (solo : ∀ message ∈ messages, message.Solo)
    (apart : Set.InjOn env.profiler.hashSequence (measuredSequences env.profiler messages))
    (perHost : ∀ host, (messages.filter fun message => message.sender.host = host) =
      messages'.filter fun message => message.sender.host = host)
    (reached : Reached env messages sim) (reached' : Reached env' messages' sim') (host : HostId) :
    List.Forall₂ Agree (sim.sentTo host) (sim'.sentTo host) ∧
      ∀ stream, List.Forall₂ (fun e e' => ∀ span span', sim.queue.ended e = some span →
        sim'.queue.ended e' = some span' → span = span')
          (sim.streamInfo.info (host, stream)).events
          (sim'.streamInfo.info (host, stream)).events := by
  have machines : Machine.after env.profiler messages = Machine.after env.profiler messages' := by
    funext host
    rw [Machine.after, Machine.after, perHost]
  have solo' : ∀ message ∈ messages', message.Solo := by
    intro message mem
    have own : message ∈ messages'.filter fun other => other.sender.host = message.sender.host :=
      List.mem_filter.mpr ⟨mem, decide_eq_true rfl⟩
    rw [← perHost] at own
    exact solo message (List.mem_of_mem_filter own)
  have apart' : Set.InjOn env'.profiler.hashSequence
      (measuredSequences env'.profiler messages') := by
    rw [measured, measuredSequences, ← machines]
    exact apart
  rcases tracks_of_reached steady apart solo (fun host stream infos mem => ⟨host, stream, mem⟩)
    reached with ⟨added, tracks⟩
  rcases tracks_of_reached (measured ▸ steady) apart' solo'
    (fun host stream infos mem => ⟨host, stream, mem⟩) reached' with ⟨added', tracks'⟩
  rw [measured, ← machines] at tracks'
  refine ⟨forall₂_common (R := Owes) (S := Owes) (fun _ _ _ => Owes.agree) (tracks.dues host)
    (tracks'.dues host), fun stream => ?_⟩
  refine forall₂_common ?_ (tracks.hasSpans host stream).flip (tracks'.hasSpans host stream).flip
  intro span e e' same same' found found' ended ended'
  exact (same found ended).trans (same' found' ended').symm

/-- On the left, a thread waits for an event behind a sequence of torch calls. -/
def leftWork : List Message :=
  [.torch ⟨leftThread 1, 0, ⟨0, 0⟩, 4⟩,
    .torch ⟨leftThread 1, 1, ⟨0, 0⟩, 5⟩,
    .cuda ⟨leftThread 1, 2, .cudaEventRecord ⟨0, 0, 7⟩⟩,
    .cuda ⟨leftThread 1, 2, .cudaStreamWaitEvent ⟨0, 1⟩ ⟨0, 0, 7⟩⟩,
    .cuda ⟨leftThread 2, 3, .cudaEventSynchronize ⟨0, 0, 7⟩⟩,
    .cuda ⟨leftThread 1, 3, .cudaDeviceSynchronize 0⟩]

/-- On the right, a copy is issued. -/
def rightCopy : List Message :=
  [.cuda ⟨rightThread 1, 1, .cudaMemcpyAsync 8 .hostToDevice ⟨0, 0⟩⟩]

/-- The copy is polled twice. -/
def rightPolls : List Message :=
  [.cuda ⟨rightThread 1, 1, .cudaStreamQuery ⟨0, 0⟩⟩,
    .cuda ⟨rightThread 1, 5, .cudaStreamQuery ⟨0, 0⟩⟩]

/-- What has been sent to the threads on the left and on the right. -/
def sentToBoth (sim : Simulator) :
    List (ResponseId × Response) × List (ResponseId × Response) :=
  (sim.sentTo (leftThread 0).host, sim.sentTo (rightThread 0).host)

/-- The messages, with those of the left first. -/
def apartWork : List Message :=
  leftWork ++ (rightCopy ++ rightPolls)

/-- The copy is issued first, and polled last. -/
def wovenWork : List Message :=
  rightCopy ++ (leftWork ++ rightPolls)

theorem solo_apartWork : ∀ message ∈ apartWork, message.Solo := by
  intro message mem
  simp only [apartWork, leftWork, rightCopy, rightPolls, List.cons_append, List.nil_append,
    List.mem_cons, List.not_mem_nil, or_false] at mem
  rcases mem with rfl | rfl | rfl | rfl | rfl | rfl | rfl | rfl | rfl <;>
    simp [Message.Solo, CudaCall.Solo]

theorem steady_plain (fuel : ℕ) : (Environment.plain fuel).profiler.Steady :=
  ⟨fun _ _ _ => rfl, fun _ _ => rfl, fun _ _ _ => rfl⟩

/-- There is one sequence only. -/
theorem injOn_apartWork : Set.InjOn (Environment.plain 20).profiler.hashSequence
    (measuredSequences (Environment.plain 20).profiler apartWork) := by
  have one : ∀ infos ∈ measuredSequences (Environment.plain 20).profiler apartWork,
      infos = [4, 5] := by
    rintro infos ⟨host, stream, mem⟩
    by_cases left : host = ⟨"left", 0⟩
    · subst left
      by_cases first : stream = ⟨0, 0⟩
      · subst first
        revert infos
        decide +kernel
      · by_cases second : stream = ⟨0, 1⟩
        · subst second
          revert infos
          decide +kernel
        · simp [apartWork, leftWork, rightCopy, rightPolls, Machine.after, Message.sender,
            leftThread, rightThread, Machine.obey, Machine.call, Machine.torch, Machine.use,
            Machine.onLane, Machine.flushAll, Machine.owe, Machine.onDevice, first, second] at mem
    · by_cases right : host = ⟨"right", 0⟩
      · subst right
        by_cases first : stream = ⟨0, 0⟩
        · subst first
          revert infos
          decide +kernel
        · simp [apartWork, leftWork, rightCopy, rightPolls, Machine.after, Message.sender,
            leftThread, rightThread, Machine.obey, Machine.call, Machine.use, Machine.onLane,
            Machine.owe, first] at mem
      · simp [apartWork, leftWork, rightCopy, rightPolls, Machine.after, Message.sender,
          leftThread, rightThread, Ne.symm left, Ne.symm right] at mem
  exact fun infos mem other mem' _ => (one infos mem).trans (one other mem').symm

/-- The server follows the machines when the messages of the left come first. -/
theorem follows_machines_apart : ∃ sim : Simulator,
    (sim.sentToBoth = ([(leftThread 2, .sync 2), (leftThread 1, .sync 3)],
      [(rightThread 1, .query none), (rightThread 1, .query (some 2))])) ∧
    List.Forall₂ Owes
      (Machine.after (Environment.plain 20).profiler apartWork (rightThread 1).host).dues
      (sim.sentTo (rightThread 1).host) := by
  have read : (apartWork.foldlM (handle (.plain 20)) pair).toOption.map sentToBoth =
      some ([(leftThread 2, .sync 2), (leftThread 1, .sync 3)],
        [(rightThread 1, .query none), (rightThread 1, .query (some 2))]) := by
    decide +kernel
  rcases exists_ok_of_reading read with ⟨sim, run, reading⟩
  exact ⟨sim, reading, (follows_machines (steady_plain 20) solo_apartWork injOn_apartWork
    (reached_of_foldlM initial_pair run) _).1⟩

/-- The left gets the same responses whether or not the right comes first, and what the right finds
over is over at the same time. -/
theorem interleaving_irrelevant_woven : ∃ sim sim' : Simulator,
    (sim.sentToBoth = ([(leftThread 2, .sync 2), (leftThread 1, .sync 3)],
      [(rightThread 1, .query none), (rightThread 1, .query (some 2))])) ∧
    (sim'.sentToBoth = ([(leftThread 2, .sync 2), (leftThread 1, .sync 3)],
      [(rightThread 1, .query (some 2)), (rightThread 1, .query (some 2))])) ∧
    List.Forall₂ Agree (sim.sentTo (rightThread 1).host) (sim'.sentTo (rightThread 1).host) := by
  have read : (apartWork.foldlM (handle (.plain 20)) pair).toOption.map sentToBoth =
      some ([(leftThread 2, .sync 2), (leftThread 1, .sync 3)],
        [(rightThread 1, .query none), (rightThread 1, .query (some 2))]) := by
    decide +kernel
  have read' : (wovenWork.foldlM (handle (.plain 20)) pair).toOption.map sentToBoth =
      some ([(leftThread 2, .sync 2), (leftThread 1, .sync 3)],
        [(rightThread 1, .query (some 2)), (rightThread 1, .query (some 2))]) := by
    decide +kernel
  rcases exists_ok_of_reading read with ⟨sim, run, reading⟩
  rcases exists_ok_of_reading read' with ⟨sim', run', reading'⟩
  refine ⟨sim, sim', reading, reading', ?_⟩
  refine (interleaving_irrelevant rfl (steady_plain 20) solo_apartWork injOn_apartWork ?_
    (reached_of_foldlM initial_pair run) (reached_of_foldlM initial_pair run') _).1
  intro host
  by_cases left : host = ⟨"left", 0⟩
  · subst left
    rfl
  · have nothing : (leftWork.filter fun message => message.sender.host = host) = [] := by
      simp [leftWork, Message.sender, leftThread, Ne.symm left]
    simp only [apartWork, wovenWork, List.filter_append, nothing, List.nil_append]

end Simulator

end Phantora
