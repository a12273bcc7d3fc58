import Phantora.Simulator.Named

/-!
# What is left of NCCL calls

The waiting maps, the entries of the history that are about NCCL calls and the
events with a flow. Work on streams, the execution of the queue and the
management of communicators leave all of them alone.
-/

namespace Phantora

open Outcome

namespace EventQueue

/-- An event with a flow, and the call that the flow was made from. -/
abbrev FlowRecord := EventId × Netsim.Flow × CommMeta

def flowRecord? : EventId × List (Option EventId) × Option Action × ℤ → Option FlowRecord
  | (id, _, some (.communication flow info), _) => some (id, flow, info)
  | _ => none

/-- The events with a flow, in the order in which they were added. -/
def flowRecords (queue : EventQueue) : List FlowRecord :=
  queue.created.reverse.filterMap flowRecord?

variable {platform : Platform} {queue queue' : EventQueue}

theorem flowRecord?_eq_none {id : EventId} {dependsOn : List (Option EventId)}
    {action : Option Action} {time : ℤ} (noFlow : flowOf action = none) :
    flowRecord? (id, dependsOn, action, time) = none := by
  rcases action with _ | _ | _
  · rfl
  · rfl
  · cases noFlow

theorem addActionOrPoint_flowRecords {dependsOn : List (Option EventId)} {action : Option Action}
    {time : ℤ} {id : EventId}
    (run : queue.addActionOrPoint platform dependsOn action time = .ok (queue', id)) :
    queue'.flowRecords =
      queue.flowRecords ++ (flowRecord? (id, dependsOn, action, time)).toList := by
  rcases addActionOrPoint_graph run with ⟨_, _, created, _⟩
  rw [flowRecords, created, List.reverse_cons, List.filterMap_append, flowRecords]
  cases known : flowRecord? (id, dependsOn, action, time) with
  | none => simp [known]
  | some record => simp [known]

theorem addDependency_flowRecords {id : EventId} {dep : Option EventId}
    (run : queue.addDependency id dep = .ok queue') : queue'.flowRecords = queue.flowRecords := by
  rw [flowRecords, (addDependency_graph run).2.1, flowRecords]

theorem Grows.flowRecords (grows : Grows queue queue') :
    queue'.flowRecords = queue.flowRecords := by
  rw [EventQueue.flowRecords, grows.created, EventQueue.flowRecords]

end EventQueue

namespace Simulator

variable {env : Environment} {sim sim' : Simulator}

/-- The server has added to the graph and to the history: events with some flows, but nothing else
that is about NCCL calls. -/
structure Adds (records : List EventQueue.FlowRecord) (sim sim' : Simulator) : Prop where
  enlarges : EventQueue.Enlarges sim.queue sim'.queue
  flowRecords : sim'.queue.flowRecords = sim.queue.flowRecords ++ records
  history : ∃ news, sim'.history = news ++ sim.history ∧ ∀ occurrence ∈ news, ¬occurrence.Quiet
  ccWaiting : sim'.ccWaiting = sim.ccWaiting
  sendWaiting : sim'.sendWaiting = sim.sendWaiting
  recvWaiting : sim'.recvWaiting = sim.recvWaiting
  handled : sim'.handled = sim.handled

/-- The server has added nothing that is about NCCL calls. -/
abbrev Aside : Simulator → Simulator → Prop :=
  Adds []

namespace Adds

theorem trans {first second third : Simulator} {records records' : List EventQueue.FlowRecord}
    (left : Adds records first second) (right : Adds records' second third) :
    Adds (records ++ records') first third := by
  rcases left.history with ⟨earlier, old, early⟩
  rcases right.history with ⟨later, new, late⟩
  refine ⟨left.enlarges.trans right.enlarges, ?_, ?_, right.ccWaiting.trans left.ccWaiting,
    right.sendWaiting.trans left.sendWaiting, right.recvWaiting.trans left.recvWaiting,
    right.handled.trans left.handled⟩
  · rw [right.flowRecords, left.flowRecords, List.append_assoc]
  · refine ⟨later ++ earlier, by rw [new, old, List.append_assoc], ?_⟩
    intro occurrence mem
    rcases List.mem_append.mp mem with mem | mem
    · exact late occurrence mem
    · exact early occurrence mem

/-- A projection of the history to NCCL calls stays. -/
theorem filterMap_history {records : List EventQueue.FlowRecord} {α : Type}
    {f : Occurrence → Option α} (adds : Adds records sim sim')
    (quiet : ∀ occurrence, ¬occurrence.Quiet → f occurrence = none) :
    sim'.history.reverse.filterMap f = sim.history.reverse.filterMap f := by
  rcases adds.history with ⟨news, history, others⟩
  have nothing : news.reverse.filterMap f = [] := by
    refine List.filterMap_eq_nil_iff.mpr fun occurrence mem => ?_
    exact quiet occurrence (others occurrence (List.mem_reverse.mp mem))
  rw [history, List.reverse_append, List.filterMap_append, nothing, List.append_nil]

end Adds

namespace Aside

theorem of_queue {queue : EventQueue} (enlarges : EventQueue.Enlarges sim.queue queue)
    (flowRecords : queue.flowRecords = sim.queue.flowRecords) :
    Aside sim { sim with queue := queue } :=
  ⟨enlarges, by simpa using flowRecords, ⟨[], rfl, by simp⟩, rfl, rfl, rfl, rfl⟩

theorem of_grows {queue : EventQueue} (grows : EventQueue.Grows sim.queue queue) :
    Aside sim { sim with queue := queue } :=
  .of_queue grows.enlarges grows.flowRecords

theorem of_silent (queue : sim'.queue = sim.queue) (history : sim'.history = sim.history)
    (ccWaiting : sim'.ccWaiting = sim.ccWaiting) (sendWaiting : sim'.sendWaiting = sim.sendWaiting)
    (recvWaiting : sim'.recvWaiting = sim.recvWaiting) (handled : sim'.handled = sim.handled) :
    Aside sim sim' :=
  ⟨queue ▸ .refl _, by rw [queue, List.append_nil], ⟨[], by simpa, by simp⟩, ccWaiting, sendWaiting,
    recvWaiting, handled⟩

theorem refl (sim : Simulator) : Aside sim sim :=
  .of_silent rfl rfl rfl rfl rfl rfl

theorem trans {first second third : Simulator} (left : Aside first second)
    (right : Aside second third) : Aside first third :=
  Adds.trans left right

theorem note (sim : Simulator) {occurrence : Occurrence} (other : ¬occurrence.Quiet) :
    Aside sim (sim.note occurrence) :=
  ⟨.refl _, (List.append_nil _).symm, ⟨[occurrence], rfl, by simpa using other⟩, rfl, rfl, rfl,
    rfl⟩

end Aside

section Submit

variable {stream : HostStream} {dependsOn : List (Option EventId)} {action : Option Action}
  {time : ℤ} {id : EventId}

/-- A new event without a flow. -/
theorem addActionOrPoint_aside (noFlow : EventQueue.flowOf action = none)
    (run : sim.addActionOrPoint env dependsOn action time = .ok (sim', id)) :
    Aside sim sim' ∧ id = sim.queue.eventCounter ∧ sim'.queue.eventCounter = id + 1 ∧
      ∀ {d}, some d ∈ dependsOn → sim'.queue.Precedes d id := by
  rcases addActionOrPoint_eq_ok run with ⟨queue, added, rfl⟩
  rcases EventQueue.addActionOrPoint_enlarges added with ⟨enlarges, new, counter, _, edges⟩
  refine ⟨.of_queue enlarges ?_, new, counter, edges⟩
  rw [EventQueue.addActionOrPoint_flowRecords added, EventQueue.flowRecord?_eq_none noFlow,
    Option.toList_none, List.append_nil]

/-- A new event with a flow. -/
theorem addActionOrPoint_adds {flow : Netsim.Flow} {info : CommMeta}
    (run : sim.addActionOrPoint env dependsOn (some (.communication flow info)) time =
      .ok (sim', id)) :
    Adds [(id, flow, info)] sim sim' ∧ id = sim.queue.eventCounter ∧
      sim'.queue.eventCounter = id + 1 ∧ ∀ {d}, some d ∈ dependsOn → sim'.queue.Precedes d id := by
  rcases addActionOrPoint_eq_ok run with ⟨queue, added, rfl⟩
  rcases EventQueue.addActionOrPoint_enlarges added with ⟨enlarges, new, counter, _, edges⟩
  exact ⟨⟨enlarges, EventQueue.addActionOrPoint_flowRecords added, ⟨[], rfl, by simp⟩, rfl, rfl,
    rfl, rfl⟩, new, counter, edges⟩

theorem addDependency_aside {dep : EventId} (run : sim.addDependency id (some dep) = .ok sim') :
    Aside sim sim' ∧ sim'.queue.eventCounter = sim.queue.eventCounter ∧
      sim'.queue.Precedes dep id := by
  rcases addDependency_eq_ok run with ⟨queue, added, rfl⟩
  rcases EventQueue.addDependency_enlarges added with ⟨enlarges, edges⟩
  exact ⟨.of_queue enlarges (EventQueue.addDependency_flowRecords added),
    (EventQueue.addDependency_graph added).1, edges dep rfl⟩

theorem removeNoneDependency_aside (run : sim.removeNoneDependency env id = .ok sim') :
    Aside sim sim' := by
  rcases removeNoneDependency_eq_ok run with ⟨queue, removed, rfl⟩
  exact .of_grows (EventQueue.removeNoneDependency_grows removed)

theorem submit_aside (noFlow : EventQueue.flowOf action = none)
    (run : sim.submit env stream dependsOn action time = .ok (sim', id)) :
    Aside sim sim' ∧ id = sim.queue.eventCounter ∧ sim'.queue.eventCounter = id + 1 ∧
      ∀ {d}, some d ∈ dependsOn → sim'.queue.Precedes d id := by
  simp only [submit, bind_eq_ok, pure_eq_ok, Prod.exists, Prod.mk.injEq] at run
  rcases run with ⟨middle, _, submitted, rfl, rfl⟩
  rcases addActionOrPoint_aside noFlow submitted with ⟨aside, new, counter, edges⟩
  refine ⟨aside.trans (.of_silent rfl rfl rfl rfl rfl rfl), new, counter, fun mem => ?_⟩
  exact edges (List.mem_append_left _ mem)

theorem submitCalls_aside {calls : List TorchCall} {durs : List ℕ}
    (run : submitCalls env stream calls durs sim = .ok sim') : Aside sim sim' := by
  induction calls generalizing sim durs with
  | nil =>
      simp only [submitCalls, Except.ok.injEq] at run
      exact run ▸ .refl sim
  | cons call calls ih =>
      simp only [submitCalls, bind_eq_ok, Prod.exists] at run
      rcases run with ⟨_, _, middle, _, submitted, rest⟩
      exact (submit_aside rfl submitted).1.trans (ih rest)

theorem submitSeq_aside {seq : TorchCallSeq} (run : submitSeq env stream sim seq = .ok sim') :
    Aside sim sim' := by
  cases seq with
  | single call duration => exact submitCalls_aside run
  | seq calls =>
      refine Aside.trans ?_ (submitCalls_aside run)
      exact .of_silent rfl rfl rfl rfl rfl rfl

theorem clearComputeBufferOn_aside (run : sim.clearComputeBufferOn env stream = .ok sim') :
    Aside sim sim' := by
  refine foldlM_invariant (Aside sim) ?_ ?_ run
  · intro _ _ _ _ earlier step
    exact earlier.trans (submitSeq_aside step)
  · exact .of_silent rfl rfl rfl rfl rfl rfl

/-- A new event of a stream, without a flow. -/
theorem addEvent_aside (noFlow : EventQueue.flowOf action = none)
    (run : sim.addEvent env stream dependsOn action time = .ok (sim', id)) :
    Aside sim sim' ∧ sim.queue.eventCounter ≤ id ∧ sim'.queue.eventCounter = id + 1 ∧
      ∀ {d}, some d ∈ dependsOn → sim'.queue.Precedes d id := by
  simp only [addEvent, bind_eq_ok] at run
  rcases run with ⟨middle, cleared, submitted⟩
  have flushed := clearComputeBufferOn_aside cleared
  rcases submit_aside noFlow submitted with ⟨aside, new, counter, edges⟩
  exact ⟨flushed.trans aside, new ▸ flushed.enlarges.eventCounter, counter, edges⟩

end Submit

theorem sendSyncResponseTo_aside (sim : Simulator) (host : ResponseId) (time : ℤ)
    (event : Option EventId) : Aside sim (sim.sendSyncResponseTo host time event) :=
  ⟨.refl _, (List.append_nil _).symm, ⟨[.synced host time event], rfl, by simp [Occurrence.Quiet]⟩,
    rfl, rfl, rfl, rfl⟩

theorem reportEnd_aside (sim : Simulator) (id : EventId) (time : ℤ) :
    Aside sim (sim.reportEnd id time) := by
  have noted := @Aside.note sim (.reported id time) (by simp [Occurrence.Quiet])
  simp only [reportEnd]
  split
  · refine (noted.trans ?_).trans (sendSyncResponseTo_aside _ _ _ _)
    exact .of_silent rfl rfl rfl rfl rfl rfl
  · exact noted

theorem observe_aside {platform : Platform} {queue : EventQueue} {step : QueueStep}
    (executed : sim.queue.execute platform = .ok (queue, step)) :
    Aside sim (sim.observe queue step) := by
  have stepped := Aside.of_grows (EventQueue.executeLoop_grows executed)
  cases step with
  | emptyQueue => exact stepped
  | eventStarted id time => exact stepped
  | eventEnded id time => exact stepped.trans (reportEnd_aside _ id time)
  | reachedPoint id time => exact stepped.trans (reportEnd_aside _ id time)

theorem executeToEvent_aside {until_ : EventId} {fuel : ℕ} {reached : Bool}
    (run : executeToEvent env until_ fuel sim = .ok (sim', reached)) : Aside sim sim' := by
  refine executeToEvent_invariant (Aside sim) ?_ (.refl sim) run
  intro middle queue step earlier executed
  exact earlier.trans (observe_aside executed)

theorem executeToTime_aside {until_ : ℤ} {fuel : ℕ} {stopped : Bool}
    (run : executeToTime env until_ fuel sim = .ok (sim', stopped)) : Aside sim sim' := by
  refine executeToTime_invariant (Aside sim) ?_ ?_ (.refl sim) run
  · intro middle queue time earlier peeked
    exact earlier.trans (.of_grows (EventQueue.peekNextTimeLoop_grows peeked))
  · intro middle queue step earlier executed
    exact earlier.trans (observe_aside executed)

theorem replyToPoll_aside (sim : Simulator) (host : ResponseId) (time : ℤ)
    (event : Option EventId) (ready : Option (ℤ × Option EventId)) :
    Aside sim (sim.replyToPoll host time event ready) := by
  have noted := @Aside.note sim (.polled host time event (ready.map Prod.fst))
    (by simp [Occurrence.Quiet])
  cases ready with
  | none => exact noted.trans (.of_silent rfl rfl rfl rfl rfl rfl)
  | some reply => exact noted.trans (.of_silent rfl rfl rfl rfl rfl rfl)

theorem OnlyManages.aside (manages : OnlyManages sim sim') : Aside sim sim' := by
  rcases manages with ⟨_, _, replies, _, _, _, _, synced, rfl⟩
  refine ⟨.refl _, (List.append_nil _).symm, ⟨replies, rfl, ?_⟩, rfl, rfl, rfl, rfl⟩
  intro occurrence mem
  rcases synced occurrence mem with ⟨host, time, rfl⟩
  simp [Occurrence.Quiet]

section Calls

variable {host : ResponseId} {time : ℤ} {stream : CudaStream} {event : CudaEvent}

theorem addComputation_aside {node : HostId} {duration : ℤ} {call : CudaCall}
    (run : sim.addComputation env node time stream duration call = .ok sim') : Aside sim sim' := by
  simp only [addComputation, bind_eq_ok, pure_eq_ok, Prod.exists] at run
  rcases run with ⟨middle, id, added, rfl⟩
  exact (addEvent_aside rfl added).1

theorem addEstimated_aside {node : HostId} {estimator : CudaEstimator} {duration : ℤ}
    {call : CudaCall}
    (run : { sim with cudaEstimator := estimator }.addComputation env node time stream duration
      call = .ok sim') : Aside sim sim' := by
  refine Aside.trans ?_ (addComputation_aside run)
  exact .of_silent rfl rfl rfl rfl rfl rfl

theorem awaitEvent_aside (sim : Simulator) (host : ResponseId) (event : EventId) (time : ℤ) :
    Aside sim ((sim.note (.awaits host event time)).awaitEvent host event) := by
  have noted := @Aside.note sim (.awaits host event time) (by simp [Occurrence.Quiet])
  exact noted.trans (.of_silent rfl rfl rfl rfl rfl rfl)

theorem cudaDeviceSynchronize_aside {device : ℤ}
    (run : sim.cudaDeviceSynchronize env host time device = .ok sim') : Aside sim sim' := by
  simp only [cudaDeviceSynchronize, bind_eq_ok, pure_eq_ok, Prod.exists] at run
  rcases run with ⟨flushed, deps, collected, added, id, point, last, reached, executed, rfl⟩
  have flushes : Aside sim flushed := by
    refine foldlM_invariant (fun acc : Simulator × List (Option EventId) => Aside sim acc.1) ?_
      (.refl sim) collected
    intro acc stream acc' _ earlier step
    simp only [collectLast, bind_eq_ok, pure_eq_ok] at step
    rcases step with ⟨middle, cleared, rfl⟩
    exact earlier.trans (clearComputeBufferOn_aside cleared)
  exact ((flushes.trans (addActionOrPoint_aside rfl point).1).trans
    (awaitEvent_aside _ host id time)).trans (executeToEvent_aside executed)

theorem cudaStreamSynchronize_aside
    (run : sim.cudaStreamSynchronize env host time stream = .ok sim') : Aside sim sim' := by
  simp only [cudaStreamSynchronize, bind_eq_ok, pure_eq_ok, Prod.exists] at run
  rcases run with ⟨added, id, point, last, reached, executed, rfl⟩
  exact ((addEvent_aside rfl point).1.trans (awaitEvent_aside _ host id time)).trans
    (executeToEvent_aside executed)

theorem cudaStreamWaitEvent_aside
    (run : sim.cudaStreamWaitEvent env host time stream event = .ok sim') : Aside sim sim' := by
  simp only [cudaStreamWaitEvent, bind_eq_ok, pure_eq_ok, Prod.exists] at run
  rcases run with ⟨waited, _, added, id, point, rfl⟩
  exact (addEvent_aside rfl point).1

theorem cudaStreamQuery_aside (run : sim.cudaStreamQuery env host time stream = .ok sim') :
    Aside sim sim' := by
  simp only [cudaStreamQuery, bind_eq_ok, Prod.exists] at run
  rcases run with ⟨flushed, flush, executed, stopped, ran, answered⟩
  have flushes : Aside sim flushed := by
    split at flush
    · exact clearComputeBufferOn_aside flush
    · exact Except.ok.inj flush ▸ .refl sim
  refine (flushes.trans (executeToTime_aside ran)).trans ?_
  split at answered
  · exact Except.ok.inj answered ▸ replyToPoll_aside _ _ _ _ _
  · exact Except.ok.inj answered ▸ replyToPoll_aside _ _ _ _ _

theorem cudaEventRecord_aside (run : sim.cudaEventRecord env host time event = .ok sim') :
    Aside sim sim' := by
  simp only [cudaEventRecord, bind_eq_ok, pure_eq_ok, Prod.exists] at run
  rcases run with ⟨added, id, point, rfl⟩
  exact (addEvent_aside rfl point).1.trans (.of_silent rfl rfl rfl rfl rfl rfl)

theorem cudaEventSynchronize_aside
    (run : sim.cudaEventSynchronize env host time event = .ok sim') : Aside sim sim' := by
  simp only [cudaEventSynchronize, bind_eq_ok, Prod.exists] at run
  rcases run with ⟨executed, stopped, ran, id, _, answered⟩
  refine (executeToTime_aside ran).trans ?_
  split at answered
  · have noted := @Aside.note executed (.awaits host id time) (by simp [Occurrence.Quiet])
    exact noted.trans (Except.ok.inj answered ▸ sendSyncResponseTo_aside _ _ _ _)
  · simp only [bind_eq_ok, pure_eq_ok, Prod.exists] at answered
    rcases answered with ⟨last, reached, waited, rfl⟩
    exact (awaitEvent_aside _ host id time).trans (executeToEvent_aside waited)

theorem cudaEventQuery_aside (run : sim.cudaEventQuery env host time event = .ok sim') :
    Aside sim sim' := by
  simp only [cudaEventQuery, bind_eq_ok, pure_eq_ok, Prod.exists] at run
  rcases run with ⟨executed, stopped, ran, id, _, rfl⟩
  exact (executeToTime_aside ran).trans (replyToPoll_aside _ _ _ _ _)

theorem aside_of_manages
    (handled : ∃ middle stopped, executeToTime env time env.fuel sim = .ok (middle, stopped) ∧
      OnlyManages middle sim') : Aside sim sim' := by
  rcases handled with ⟨middle, _, executed, manages⟩
  exact (executeToTime_aside executed).trans manages.aside

end Calls

end Simulator

/-- The collective operation that a call joins, and the communicator. -/
def CudaCall.collective : CudaCall → Option (Collective × NcclComm)
  | .ncclBcast _ _ _ comm _ => some (.bcast, comm)
  | .ncclAllReduce _ _ _ comm _ => some (.allreduce, comm)
  | .ncclAllGather _ _ comm _ => some (.allgather, comm)
  | .ncclReduceScatter _ _ _ comm _ => some (.reduceScatter, comm)
  | _ => none

def Message.collective : Message → Option (Collective × NcclComm)
  | .cuda msg => msg.call.collective
  | _ => none

/-- The call is a send, a receive or a group of them. -/
def CudaCall.Transfers : CudaCall → Prop
  | .ncclSend _ _ _ _ _ => True
  | .ncclRecv _ _ _ _ _ => True
  | .ncclP2pGroup _ => True
  | _ => False

/-- The message is a send, a receive or a group of them. -/
def Message.Transfers : Message → Prop
  | .cuda msg => msg.call.Transfers
  | _ => False

namespace Simulator

variable {env : Environment} {sim sim' : Simulator}

theorem handleCudaCall_aside {msg : CudaCallMsg} (notCollective : msg.call.collective = none)
    (notTransfer : ¬msg.call.Transfers) (run : sim.handleCudaCall env msg = .ok sim') :
    Aside sim sim' := by
  rcases msg with ⟨host, time, call⟩
  have updated : Aside sim (sim.updateHostCurr host.host time) :=
    .of_silent rfl rfl rfl rfl rfl rfl
  refine updated.trans ?_
  cases call with
  | cudaMemcpyAsync size kind stream => exact addEstimated_aside run
  | cudaDeviceSynchronize device => exact cudaDeviceSynchronize_aside run
  | cudaStreamSynchronize stream => exact cudaStreamSynchronize_aside run
  | cudaStreamWaitEvent stream event => exact cudaStreamWaitEvent_aside run
  | cudaStreamQuery stream => exact cudaStreamQuery_aside run
  | cudaEventRecord event => exact cudaEventRecord_aside run
  | cudaEventSynchronize event => exact cudaEventSynchronize_aside run
  | cudaEventQuery event => exact cudaEventQuery_aside run
  | cudaAddLatency stream latency => exact addComputation_aside run
  | flashAttnCall stream => exact addEstimated_aside run
  | ncclGetUniqueId =>
      simp only [handleCudaCall, Except.ok.injEq] at run
      exact run ▸ .of_silent rfl rfl rfl rfl rfl rfl
  | ncclCommInitRank device rank nranks id => exact aside_of_manages (ncclCommInitRank_eq_ok run)
  | ncclCommSplit comm color key => exact aside_of_manages (ncclCommSplit_eq_ok run)
  | ncclBcast => cases notCollective
  | ncclAllReduce => cases notCollective
  | ncclAllGather => cases notCollective
  | ncclReduceScatter => cases notCollective
  | ncclSend => exact absurd trivial notTransfer
  | ncclRecv => exact absurd trivial notTransfer
  | ncclP2pGroup => exact absurd trivial notTransfer
  | readTimer stream =>
      simp only [handleCudaCall, readTimer, Except.ok.injEq] at run
      exact run ▸ .of_silent rfl rfl rfl rfl rfl rfl

/-- Messages that are neither collective nor point-to-point calls leave these alone. -/
theorem dispatch_aside {message : Message} (notCollective : message.collective = none)
    (notTransfer : ¬message.Transfers) (run : sim.dispatch env message = .ok sim') :
    Aside sim sim' := by
  cases message with
  | cuda msg => exact handleCudaCall_aside notCollective notTransfer run
  | torch call => exact Except.ok.inj run ▸ .of_silent rfl rfl rfl rfl rfl rfl
  | exit host time => exact Except.ok.inj run ▸ .of_silent rfl rfl rfl rfl rfl rfl

end Simulator

end Phantora
