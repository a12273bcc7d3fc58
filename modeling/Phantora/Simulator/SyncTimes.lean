import Phantora.EventQueue.Dates
import Phantora.Simulator.Replies
import Phantora.Simulator.StreamRuns

/-!
# Synchronizing takes no thread back

Whoever waits for a point is never told a time before that of the call that added the
point, in whatever order the messages of the others arrive and whatever they make the
network take back.
-/

namespace Phantora

open Outcome

namespace Simulator

variable {env : Environment} {asks : ResponseId → Option ResponseId → Prop} {sim sim' : Simulator}

/-- Nobody has been told about a point a time before that of its call. -/
structure OnTime (sim : Simulator) : Prop where
  inTime : sim.queue.InTime
  replies : ∀ {host endTime e}, .synced host endTime (some e) ∈ sim.history →
    e < sim.queue.eventCounter ∧
      ∀ {dependsOn time}, sim.queue.recordOf e = some (dependsOn, none, time) → time ≤ endTime

theorem Initial.onTime (initial : Initial sim) : OnTime sim := by
  rcases initial with ⟨cluster, setting, hostMapping, rfl⟩
  refine ⟨EventQueue.Initial.inTime ⟨cluster, setting, hostMapping, rfl⟩, ?_⟩
  intro host endTime e mem
  exact absurd mem List.not_mem_nil

namespace OnTime

/-- The queue goes on, and what is told anew is not before its time. -/
theorem of_news (onTime : OnTime sim) (inTime : sim'.queue.InTime)
    (enlarges : EventQueue.Enlarges sim.queue sim'.queue) (news : List Occurrence)
    (history : sim'.history = news ++ sim.history)
    (told : ∀ {host endTime e}, .synced host endTime (some e) ∈ news →
      e < sim'.queue.eventCounter ∧
        ∀ {dependsOn time}, sim'.queue.recordOf e = some (dependsOn, none, time) →
          time ≤ endTime) : OnTime sim' := by
  refine ⟨inTime, fun {host endTime e} mem => ?_⟩
  rw [history] at mem
  rcases List.mem_append.mp mem with new | old
  · exact told new
  · rcases onTime.replies old with ⟨issued, late⟩
    refine ⟨issued.trans_le enlarges.eventCounter, fun {dependsOn time} record => ?_⟩
    rw [enlarges.recordOf issued] at record
    exact late record

/-- Nobody is told about an event. -/
theorem of_silence (onTime : OnTime sim) (inTime : sim'.queue.InTime)
    (enlarges : EventQueue.Enlarges sim.queue sim'.queue) (news : List Occurrence)
    (history : sim'.history = news ++ sim.history)
    (silent : ∀ host endTime e, .synced host endTime (some e) ∉ news) : OnTime sim' :=
  onTime.of_news inTime enlarges news history fun mem => absurd mem (silent _ _ _)

/-- A call of the queue, without news. -/
theorem of_step (onTime : OnTime sim) {call : EventQueue.Call} {queue : EventQueue}
    (step : EventQueue.Step env.toPlatform sim.queue call queue) (valid : call.Valid sim.queue)
    (enlarges : EventQueue.Enlarges sim.queue queue) : OnTime { sim with queue := queue } :=
  onTime.of_silence (step.inTime valid onTime.inTime) enlarges [] rfl
    fun _ _ _ => List.not_mem_nil

/-- The end that the queue answers is reported. -/
theorem reportEnd (onTime : OnTime sim) {id : EventId} {endTime : ℤ}
    (issued : id < sim.queue.eventCounter)
    (late : ∀ {dependsOn time}, sim.queue.recordOf id = some (dependsOn, none, time) →
      time ≤ endTime) : OnTime (sim.reportEnd id endTime) := by
  simp only [Simulator.reportEnd]
  split
  · rename_i host waits
    refine onTime.of_news onTime.inTime (.refl _)
      [.synced host endTime (some id), .reported id endTime] rfl ?_
    intro host' endTime' e mem
    simp only [List.mem_cons, Occurrence.synced.injEq, Option.some.injEq, reduceCtorEq,
      List.not_mem_nil, or_false] at mem
    rcases mem with ⟨_, rfl, rfl⟩
    exact ⟨issued, late⟩
  · exact onTime.of_silence onTime.inTime (.refl _) [.reported id endTime] rfl (by simp)

theorem observe (onTime : OnTime sim) {queue : EventQueue} {step : QueueStep}
    (executed : sim.queue.execute env.toPlatform = .ok (queue, step)) :
    OnTime (sim.observe queue step) := by
  have grows := EventQueue.executeLoop_grows executed
  have goesOn : OnTime { sim with queue := queue } :=
    onTime.of_step (EventQueue.execute_step executed) trivial grows.enlarges
  have reports : ∀ id endTime, step.report? = some (id, endTime) → queue.ended id ≠ none →
      OnTime ({ sim with queue := queue }.reportEnd id endTime) := by
    intro id endTime answer ended
    apply goesOn.reportEnd
    · exact goesOn.inTime.tracked.spots.issued
        (show EventQueue.Spotted [] queue id .ended from ended)
    · intro dependsOn time record
      apply onTime.inTime.execute executed answer
      rw [← record]
      simp only [EventQueue.recordOf, grows.created]
  cases step with
  | emptyQueue => exact goesOn
  | eventStarted id time => exact goesOn
  | eventEnded id time => exact reports id time rfl (EventQueue.execute_ended executed rfl)
  | reachedPoint id time => exact reports id time rfl (EventQueue.execute_ended executed rfl)

end OnTime

/-- An act tells nobody too early a time. -/
theorem Act.onTime (act : Act env asks sim sim') (onTime : OnTime sim) : OnTime sim' := by
  cases id act with
  | book books =>
      rcases books.history with ⟨news, history, quiet⟩
      refine onTime.of_silence (books.queue ▸ onTime.inTime) act.enlarges news history ?_
      exact fun host endTime e mem => quiet _ mem
  | @add dependsOn action time queue id valid _ added =>
      have stepped : EventQueue.Step env.toPlatform sim.queue
          (.addActionOrPoint dependsOn action time) queue :=
        ⟨.created id, by simp [EventQueue.perform, added]⟩
      exact onTime.of_step stepped valid act.enlarges
  | @depend id dep queue valid added =>
      have stepped : EventQueue.Step env.toPlatform sim.queue (.addDependency id dep) queue :=
        ⟨.done, by simp [EventQueue.perform, added]⟩
      exact onTime.of_step stepped valid act.enlarges
  | @free id queue removed =>
      have stepped : EventQueue.Step env.toPlatform sim.queue (.removeNoneDependency id) queue :=
        ⟨.done, by simp [EventQueue.perform, removed]⟩
      exact onTime.of_step stepped trivial act.enlarges
  | peek peeked =>
      exact onTime.of_step (EventQueue.peekNextTime_step peeked) trivial act.enlarges
  | execute executed => exact onTime.observe executed
  | @await host dependsOn time queue event _ valid added =>
      have stepped : EventQueue.Step env.toPlatform sim.queue
          (.addActionOrPoint dependsOn none time) queue :=
        ⟨.created event, by simp [EventQueue.perform, added]⟩
      have goesOn := onTime.of_step stepped valid act.enlarges
      exact goesOn.of_silence goesOn.inTime (.refl _) [.awaits host event time] rfl (by simp)
  | @park host event time =>
      exact onTime.of_silence onTime.inTime (.refl _) [.awaits host event time] rfl (by simp)
  | @answer host event time endTime _ issued answers =>
      refine onTime.of_news onTime.inTime (.refl _)
        [.synced host endTime (some event), .awaits host event time] rfl ?_
      intro host' endTime' e mem
      simp only [List.mem_cons, Occurrence.synced.injEq, Option.some.injEq, reduceCtorEq,
        List.not_mem_nil, or_false] at mem
      rcases mem with ⟨_, rfl, rfl⟩
      refine ⟨issued, fun {dependsOn time'} record => ?_⟩
      have answers : sim.queue.query e = some endTime' := answers
      simp only [EventQueue.query, Option.map_eq_some_iff, Prod.exists] at answers
      rcases answers with ⟨startTime, _, ended, rfl⟩
      exact (onTime.inTime.dated e dependsOn time' record).ended ended
  | @poll host time event ready =>
      cases ready <;>
        exact onTime.of_silence onTime.inTime (.refl _) [.polled host time event _] rfl (by simp)

theorem OnlyManages.onTime (manages : OnlyManages sim sim') (onTime : OnTime sim) :
    OnTime sim' := by
  rcases manages with ⟨_, _, replies, _, _, _, _, eventless, rfl⟩
  refine onTime.of_silence onTime.inTime (.refl _) replies rfl ?_
  intro host endTime e mem
  rcases eventless _ mem with ⟨_, _, same⟩
  cases same

/-- A message tells nobody too early a time. -/
theorem handle_onTime {message : Message} (named : Named sim) (onTime : OnTime sim)
    (run : sim.handle env message = .ok sim') : OnTime sim' := by
  by_cases manages : message.Manages
  · rcases handle_manages_acts manages run with ⟨first, second, acts, changes, _, rfl⟩
    have earlier := acts.invariant OnTime (fun onTime act => act.onTime onTime) onTime
    have later := changes.onTime earlier
    exact ⟨later.inTime, later.replies⟩
  · exact (handle_advances named manages run).acts.invariant OnTime
      (fun onTime act => act.onTime onTime) onTime

theorem handle_enlarges {message : Message} (named : Named sim)
    (run : sim.handle env message = .ok sim') :
    EventQueue.Enlarges sim.queue sim'.queue := by
  by_cases manages : message.Manages
  · rcases handle_manages_acts manages run with ⟨first, second, acts, changes, _, rfl⟩
    rcases changes with ⟨_, _, _, _, _, _, _, _, rfl⟩
    exact acts.enlarges
  · exact (handle_advances named manages run).acts.enlarges

theorem onTime_of_reached {messages : List Message} (reached : Reached env messages sim) :
    Named sim ∧ OnTime sim := by
  refine reached.invariant (fun _ sim => Named sim ∧ OnTime sim) ?_ ?_
  · exact fun initial => ⟨named_initial initial, initial.onTime⟩
  · rintro messages sim message sim' ⟨named, onTime⟩ step
    exact ⟨handle_named named step, handle_onTime named onTime step⟩

/-- Whatever is handled from now on, nobody is told about the event a time before this one. -/
def NeverBefore (env : Environment) (sim : Simulator) (event : EventId) (time : ℤ) : Prop :=
  ∀ (later : List Message) (sim' : Simulator), later.foldlM (handle env) sim = .ok sim' →
    ∀ host endTime, .synced host endTime (some event) ∈ sim'.history → time ≤ endTime

/-- The event is a point that a call added at a time. -/
def PointAt (sim : Simulator) (event : EventId) (time : ℤ) : Prop :=
  event < sim.queue.eventCounter ∧ ∃ dependsOn, sim.queue.recordOf event =
    some (dependsOn, none, time)

theorem PointAt.mono {event : EventId} {time : ℤ} (point : PointAt sim event time)
    (enlarges : EventQueue.Enlarges sim.queue sim'.queue) : PointAt sim' event time := by
  rcases point with ⟨issued, dependsOn, record⟩
  exact ⟨issued.trans_le enlarges.eventCounter, dependsOn,
    (enlarges.recordOf issued).trans record⟩

theorem PointAt.neverBefore {event : EventId} {time : ℤ} (point : PointAt sim event time)
    (named : Named sim) (onTime : OnTime sim) : NeverBefore env sim event time := by
  intro later sim' run
  have kept : Named sim' ∧ OnTime sim' ∧ PointAt sim' event time := by
    refine foldlM_invariant (fun sim => Named sim ∧ OnTime sim ∧ PointAt sim event time) ?_
      ⟨named, onTime, point⟩ run
    rintro first message second _ ⟨named, onTime, point⟩ step
    exact ⟨handle_named named step, handle_onTime named onTime step,
      point.mono (handle_enlarges named step)⟩
  rcases kept with ⟨_, onTime, _, dependsOn, record⟩
  intro host endTime told
  exact (onTime.replies told).2 record

theorem addActionOrPoint_pointAt {dependsOn : List (Option EventId)} {time : ℤ} {id : EventId}
    (run : sim.addActionOrPoint env dependsOn none time = .ok (sim', id)) :
    PointAt sim' id time := by
  rcases addActionOrPoint_eq_ok run with ⟨queue, added, rfl⟩
  rcases EventQueue.addActionOrPoint_enlarges added with ⟨_, _, counter, record, _⟩
  have counter : queue.eventCounter = id + 1 := counter
  refine ⟨?_, _, record⟩
  show id < queue.eventCounter
  rw [counter]
  exact Nat.lt_succ_self id

theorem addEvent_pointAt {stream : HostStream} {dependsOn : List (Option EventId)} {time : ℤ}
    {id : EventId} (run : sim.addEvent env stream dependsOn none time = .ok (sim', id)) :
    PointAt sim' id time := by
  simp only [addEvent, submit, bind_eq_ok, pure_eq_ok, Prod.exists, Prod.mk.injEq] at run
  rcases run with ⟨_, _, _, _, added, rfl, rfl⟩
  have pointAt := addActionOrPoint_pointAt added
  exact pointAt

theorem cudaDeviceSynchronize_pointAt {host : ResponseId} {time device : ℤ} (inOrder : InOrder sim)
    (run : sim.cudaDeviceSynchronize env host time device = .ok sim') :
    ∃ point, sim.queue.eventCounter ≤ point ∧ Occurrence.awaits host point time ∈ sim'.history ∧
      PointAt sim' point time := by
  simp only [cudaDeviceSynchronize, bind_eq_ok, pure_eq_ok, Prod.exists] at run
  rcases run with ⟨flushed, dependsOn, folded, added, point, submitted, final, _, executed, rfl⟩
  have collected := (collectLasts_collected inOrder folded).extended
  rcases addActionOrPoint_extended collected.inOrder submitted with ⟨_, new, _⟩
  have pointAt := (addActionOrPoint_pointAt submitted).mono (executeToEvent_acts executed).enlarges
  rcases executeToEvent_onlyExecutes executed with ⟨_, _, _, _, _, _, grown, rfl⟩
  exact ⟨point, collected.enlarges.eventCounter.trans new, grown.subset List.mem_cons_self,
    pointAt⟩

theorem cudaStreamSynchronize_pointAt {host : ResponseId} {time : ℤ} {stream : CudaStream}
    (inOrder : InOrder sim)
    (run : sim.cudaStreamSynchronize env host time stream = .ok sim') :
    ∃ point, sim.queue.eventCounter ≤ point ∧ Occurrence.awaits host point time ∈ sim'.history ∧
      PointAt sim' point time := by
  simp only [cudaStreamSynchronize, bind_eq_ok, pure_eq_ok, Prod.exists] at run
  rcases run with ⟨added, point, submitted, final, _, executed, rfl⟩
  rcases addEvent_extended inOrder submitted with ⟨_, _, _, new, _⟩
  have pointAt := (addEvent_pointAt submitted).mono (executeToEvent_acts executed).enlarges
  rcases executeToEvent_onlyExecutes executed with ⟨_, _, _, _, _, _, grown, rfl⟩
  exact ⟨point, new, grown.subset List.mem_cons_self, pointAt⟩

/-- In every run, a stream or device synchronize is never answered with a time before its
request, and nobody who waits for a recorded event is told a time before its record. -/
theorem synchronizes_onTime {messages : List Message} (reached : Reached env messages sim)
    (host : ResponseId) (time : ℤ) :
    (∀ stream sim', sim.handle env (.cuda ⟨host, time, .cudaStreamSynchronize stream⟩) = .ok sim' →
      ∃ point, sim.queue.eventCounter ≤ point ∧
        Occurrence.awaits host point time ∈ sim'.history ∧ NeverBefore env sim' point time) ∧
    (∀ device sim', sim.handle env (.cuda ⟨host, time, .cudaDeviceSynchronize device⟩) = .ok sim' →
      ∃ point, sim.queue.eventCounter ≤ point ∧
        Occurrence.awaits host point time ∈ sim'.history ∧ NeverBefore env sim' point time) ∧
    ∀ event sim', sim.handle env (.cuda ⟨host, time, .cudaEventRecord event⟩) = .ok sim' →
      ∃ point, sim.queue.eventCounter ≤ point ∧ sim'.idOfCuda (host.host, event) = some point ∧
        NeverBefore env sim' point time := by
  rcases onTime_of_reached reached with ⟨named, onTime⟩
  have updated := ((updateHostCurr_onlyExecutes env.toPlatform sim host.host time).extended
    (ordered_of_reached reached).inOrder).inOrder
  have neverBefore : ∀ {call : CudaCall} {sim' : Simulator} {point : EventId},
      sim.handle env (.cuda ⟨host, time, call⟩) = .ok sim' → PointAt sim' point time →
        NeverBefore env sim' point time := fun run pointAt =>
    pointAt.neverBefore (handle_named named run) (handle_onTime named onTime run)
  refine ⟨fun stream sim' run => ?_, fun device sim' run => ?_, fun event sim' run => ?_⟩
  · rcases handle_cuda_eq_ok run with ⟨final, handled, rfl⟩
    rcases cudaStreamSynchronize_pointAt updated handled with ⟨point, new, awaits, pointAt⟩
    exact ⟨point, new, awaits, neverBefore run pointAt⟩
  · rcases handle_cuda_eq_ok run with ⟨final, handled, rfl⟩
    rcases cudaDeviceSynchronize_pointAt updated handled with ⟨point, new, awaits, pointAt⟩
    exact ⟨point, new, awaits, neverBefore run pointAt⟩
  · rcases handle_cuda_eq_ok run with ⟨final, handled, rfl⟩
    have handled : (sim.updateHostCurr host.host time).cudaEventRecord env host time event =
        .ok final := handled
    simp only [cudaEventRecord, bind_eq_ok, pure_eq_ok, Prod.exists] at handled
    rcases handled with ⟨middle, point, added, rfl⟩
    rcases addEvent_extended updated added with ⟨_, _, _, new, _⟩
    have pointAt := addEvent_pointAt added
    exact ⟨point, new, Function.update_self .., neverBefore run pointAt⟩

/-- The left has joined an all-reduce that the right has not. -/
def halfReduced : List Message :=
  [.cuda ⟨leftThread 0, 0, .ncclCommInitRank 0 0 2 firstId⟩,
    .cuda ⟨rightThread 0, 0, .ncclCommInitRank 0 1 2 firstId⟩,
    .cuda ⟨leftThread 0, 0, .ncclAllReduce 8 .u8 .sum ⟨0, firstId⟩ ⟨0, 0⟩⟩]

/-- The right joins at an earlier time than that at which the left waits. -/
def rightReduces : List Message :=
  [.cuda ⟨rightThread 0, 2, .ncclAllReduce 8 .u8 .sum ⟨1, firstId⟩ ⟨0, 0⟩⟩,
    .cuda ⟨rightThread 0, 6, .cudaStreamSynchronize ⟨0, 0⟩⟩]

/-- The left waits for the stream from time 5 on. -/
def leftWaits : Message :=
  .cuda ⟨leftThread 0, 5, .cudaStreamSynchronize ⟨0, 0⟩⟩

/-- The left waits for an all-reduce that is over before it asks, and is told its own time. -/
theorem synchronizes_onTime_halfReduced : ∃ sim sim' later : Simulator,
    Reached (.plain 30) halfReduced sim ∧ sim.handle (.plain 30) leftWaits = .ok sim' ∧
      rightReduces.foldlM (handle (.plain 30)) sim' = .ok later ∧
      .synced (leftThread 0) 5 (some 5) ∈ later.history ∧
      ∃ point, sim.queue.eventCounter ≤ point ∧
        Occurrence.awaits (leftThread 0) point 5 ∈ sim'.history ∧
          NeverBefore (.plain 30) sim' point 5 := by
  have read : ((halfReduced ++ [leftWaits] ++ rightReduces).foldlM (handle (.plain 30))
      pair).toOption.map (fun sim => decide (.synced (leftThread 0) 5 (some 5) ∈ sim.history)) =
        some true := by
    decide +kernel
  rcases exists_ok_of_reading read with ⟨later, run, told⟩
  simp only [List.foldlM_append, List.foldlM_cons, List.foldlM_nil, bind_eq_ok,
    pure_eq_ok] at run
  rcases run with ⟨sim', ⟨sim, run, _, handled, rfl⟩, rest⟩
  have reached := reached_of_foldlM initial_pair run
  exact ⟨sim, _, later, reached, handled, rest, of_decide_eq_true told,
    (synchronizes_onTime reached (leftThread 0) 5).1 _ _ handled⟩

end Simulator

end Phantora
