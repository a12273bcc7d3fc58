import Phantora.Simulator.StreamOrder

/-!
# The order of the streams over runs

Every handler issues to the streams what its message asks for. In every state
reached the streams hold what the messages issued, in order, and synchronizing
calls wait for all of it.
-/

namespace Phantora

open Outcome

namespace Simulator

variable {env : Environment} {sim sim' : Simulator}

theorem cudaStreamWaitEvent_extended {host : ResponseId} {time : ℤ} {stream : CudaStream}
    {event : CudaEvent} (inOrder : InOrder sim)
    (run : sim.cudaStreamWaitEvent env host time stream event = .ok sim') :
    Extended sim (onStream (host.host, stream) [.point time]) sim' ∧
      ∃ recorded point, sim.idOfCuda (host.host, event) = some recorded ∧
        sim'.lastEvent (host.host, stream) = some point ∧
        sim.queue.eventCounter ≤ point ∧ sim'.queue.Precedes recorded point := by
  simp only [cudaStreamWaitEvent, bind_eq_ok, unwrap_eq_ok, pure_eq_ok, Prod.exists] at run
  rcases run with ⟨recorded, known, _, point, added, rfl⟩
  rcases addEvent_extended inOrder added with ⟨extended, _, last, new, edges⟩
  exact ⟨extended, recorded, point, known, last, new, edges List.mem_cons_self⟩

theorem cudaStreamQuery_extended {host : ResponseId} {time : ℤ} {stream : CudaStream}
    (inOrder : InOrder sim) (run : sim.cudaStreamQuery env host time stream = .ok sim') :
    Extended sim (fun _ => []) sim' := by
  simp only [cudaStreamQuery, bind_eq_ok, Prod.exists] at run
  rcases run with ⟨flushed, cleared, middle, _, executed, run⟩
  have flushes : Extended sim (fun _ => []) flushed := by
    split at cleared
    · exact (clearComputeBufferOn_extended inOrder cleared).1
    · simp only [Except.ok.injEq] at cleared
      exact .of_same inOrder (cleared ▸ rfl) (cleared ▸ rfl) (cleared ▸ rfl)
  have executes := (executeToTime_onlyExecutes executed).extended flushes.inOrder
  refine (flushes.then_nothing executes).then_nothing ?_
  split at run
  · simp only [pure_eq_ok] at run
    exact run ▸ (replyToPoll_onlyExecutes env.toPlatform _ _ _ _ _).extended executes.inOrder
  · simp only [pure_eq_ok] at run
    exact run ▸ (replyToPoll_onlyExecutes env.toPlatform _ _ _ _ _).extended executes.inOrder

/-- A record marks the new last event of the stream. -/
theorem cudaEventRecord_extended {host : ResponseId} {time : ℤ} {event : CudaEvent}
    (inOrder : InOrder sim) (run : sim.cudaEventRecord env host time event = .ok sim') :
    ∃ middle point,
      Extended sim (onStream (host.host, ⟨event.device, event.stream⟩) [.point time]) middle ∧
        (middle.streamInfo.info (host.host, ⟨event.device, event.stream⟩)).buffered = [] ∧
        middle.lastEvent (host.host, ⟨event.device, event.stream⟩) = some point ∧
        sim' = { middle with
          idOfCuda := Function.update sim.idOfCuda (host.host, event) (some point) } := by
  simp only [cudaEventRecord, bind_eq_ok, pure_eq_ok, Prod.exists] at run
  rcases run with ⟨middle, point, added, rfl⟩
  rcases addEvent_extended inOrder added with ⟨extended, flushed, last, _⟩
  exact ⟨middle, point, extended, flushed, last, by rw [extended.idOfCuda]⟩

theorem cudaEventSynchronize_onlyExecutes {host : ResponseId} {time : ℤ} {event : CudaEvent}
    (run : sim.cudaEventSynchronize env host time event = .ok sim') :
    OnlyExecutes env.toPlatform sim sim' := by
  simp only [cudaEventSynchronize, bind_eq_ok, Prod.exists] at run
  rcases run with ⟨middle, _, executed, id, _, run⟩
  refine (executeToTime_onlyExecutes executed).trans ?_
  have noted : OnlyExecutes env.toPlatform middle (middle.note (.awaits host id time)) :=
    ⟨_, _, _, _, _, .refl, List.suffix_cons _ _, rfl⟩
  refine noted.trans ?_
  split at run
  · simp only [pure_eq_ok] at run
    exact run ▸ sendSyncResponseTo_onlyExecutes _ _ _ _ _
  · simp only [bind_eq_ok, pure_eq_ok, Prod.exists] at run
    rcases run with ⟨final, _, executed, rfl⟩
    refine OnlyExecutes.trans ?_ (executeToEvent_onlyExecutes executed)
    exact ⟨_, _, _, _, _, .refl, List.suffix_refl _, rfl⟩

theorem cudaEventQuery_onlyExecutes {host : ResponseId} {time : ℤ} {event : CudaEvent}
    (run : sim.cudaEventQuery env host time event = .ok sim') :
    OnlyExecutes env.toPlatform sim sim' := by
  simp only [cudaEventQuery, bind_eq_ok, pure_eq_ok, Prod.exists] at run
  rcases run with ⟨middle, _, executed, id, _, rfl⟩
  exact (executeToTime_onlyExecutes executed).trans (replyToPoll_onlyExecutes _ _ _ _ _ _)

theorem scheduleP2PFlow_extended {send recv : P2PFlowEndpoint} {key : P2PKey}
    (inOrder : InOrder sim) (run : sim.scheduleP2PFlow env send recv key = .ok sim') :
    Extended sim (fun _ => []) sim' := by
  simp only [scheduleP2PFlow, bind_eq_ok, pure_eq_ok, Prod.exists] at run
  rcases run with ⟨added, flow, addedFlow, first, firstWait, second, secondWait, third,
    firstRelease, fourth, secondRelease, rfl⟩
  have counted : Extended sim (fun _ => []) { sim with nextFlowId := sim.nextFlowId + 1 } :=
    .of_same inOrder rfl rfl rfl
  have adds := counted.then_nothing (addActionOrPoint_extended counted.inOrder addedFlow).1
  have waits := adds.then_nothing (addDependency_extended adds.inOrder firstWait)
  have waits' := waits.then_nothing (addDependency_extended waits.inOrder secondWait)
  have frees := waits'.then_nothing (removeNoneDependency_extended waits'.inOrder firstRelease)
  have frees' := frees.then_nothing (removeNoneDependency_extended frees.inOrder secondRelease)
  exact frees'.then_nothing (.of_same frees'.inOrder rfl rfl rfl)

theorem setWaiting_extended (inOrder : InOrder sim) (kind : P2PCallKind) (key : P2PKey)
    (queue : Option (List P2PFlowEndpoint)) :
    Extended sim (fun _ => []) (sim.setWaiting kind key queue) := by
  cases kind with
  | send => exact .of_same inOrder rfl rfl rfl
  | recv => exact .of_same inOrder rfl rfl rfl

theorem popP2PEndpoint_extended (inOrder : InOrder sim) (kind : P2PCallKind) (key : P2PKey) :
    Extended sim (fun _ => []) (sim.popP2PEndpoint kind key).2 := by
  simp only [popP2PEndpoint]
  split
  · exact .of_same inOrder rfl rfl rfl
  · exact setWaiting_extended inOrder _ _ _

theorem matchOrEnqueueP2PEndpoint_extended {kind : P2PCallKind} {key : P2PKey}
    {endpoint : P2PFlowEndpoint} (inOrder : InOrder sim)
    (run : sim.matchOrEnqueueP2PEndpoint env kind key endpoint = .ok sim') :
    Extended sim (fun _ => []) sim' := by
  simp only [matchOrEnqueueP2PEndpoint] at run
  have noted : Extended sim (fun _ => []) (sim.note (.offered kind key endpoint.tag)) :=
    .of_same inOrder rfl rfl rfl
  have popped := noted.then_nothing (popP2PEndpoint_extended noted.inOrder kind.peer key)
  split at run
  · rename_i peerEndpoint middle result
    rw [result] at popped
    refine popped.then_nothing ?_
    cases kind with
    | send => exact scheduleP2PFlow_extended popped.inOrder run
    | recv => exact scheduleP2PFlow_extended popped.inOrder run
  · rename_i middle result
    rw [result] at popped
    simp only [Except.ok.injEq] at run
    exact popped.then_nothing (run ▸ setWaiting_extended popped.inOrder _ _ _)

/-- An ungrouped call occupies its stream between two points. -/
theorem ncclUngroupedP2P_extended {kind : P2PCallKind} {host : HostId} {time : ℤ} {count : ℕ}
    {dtype : NcclDatatype} {peer : ℤ} {comm : NcclComm} {stream : CudaStream}
    (inOrder : InOrder sim)
    (run : sim.ncclUngroupedP2P env kind host time count dtype peer comm stream = .ok sim') :
    Extended sim (onStream (host, stream) [.point time, .point time]) sim' := by
  simp only [ncclUngroupedP2P, createUngroupedP2PEndpoint, bind_eq_ok, pure_eq_ok, Prod.exists,
    Prod.mk.injEq] at run
  rcases run with ⟨first, barrier, addedBarrier, _, endpoint, ⟨second, _, start, third, _, finish,
    rfl, _⟩, matched⟩
  have blocks := (addActionOrPoint_extended inOrder addedBarrier).1
  have starts := (addEvent_extended blocks.inOrder start).1
  have ends := (addEvent_extended starts.inOrder finish).1
  have matches_ := matchOrEnqueueP2PEndpoint_extended ends.inOrder matched
  refine (blocks.after_nothing ((starts.trans ends).then_nothing matches_)).congr fun other => ?_
  by_cases same : other = (host, stream)
  · simp [onStream, same, streamOp]
  · simp [onStream, same]

theorem setupFlow_extended {time : ℤ} {groupStart : EventId} {acc acc' : Simulator × List FlowSetup}
    {call : P2PCallInfo} (inOrder : InOrder acc.1)
    (run : setupFlow env time groupStart acc call = .ok acc') :
    Extended acc.1 (fun _ => []) acc'.1 := by
  simp only [setupFlow, bind_eq_ok, pure_eq_ok, Prod.exists] at run
  rcases run with ⟨first, _, barrier, second, _, start, third, _, finish, rfl⟩
  have blocks := (addActionOrPoint_extended inOrder barrier).1
  have starts := (addActionOrPoint_extended blocks.inOrder start).1
  have ends := (addActionOrPoint_extended starts.inOrder finish).1
  exact (blocks.then_nothing starts).then_nothing ends

/-- The calls of a group on one stream occupy it between two points. -/
theorem streamGroup_extended {host : HostId} {time : ℤ} {group : CudaStream × List P2PCallInfo}
    (inOrder : InOrder sim) (run : streamGroup env host time sim group = .ok sim') :
    Extended sim (onStream (host, group.1) [.point time, .point time]) sim' := by
  simp only [streamGroup, bind_eq_ok, Prod.exists] at run
  rcases run with ⟨first, _, barrier, second, groupStart, start, third, setups, folded, fourth, _,
    finish, fifth, offered, release⟩
  have blocks := (addActionOrPoint_extended inOrder barrier).1
  have starts := (addEvent_extended blocks.inOrder start).1
  have sets : Extended second (fun _ => []) third :=
    Extended.foldlM Prod.fst (fun _ order step => setupFlow_extended order step)
      starts.inOrder folded
  have ends := (addEvent_extended sets.inOrder finish).1
  have offers : Extended fourth (fun _ => []) fifth :=
    Extended.foldlM (fun sim => sim)
      (fun _ order step => matchOrEnqueueP2PEndpoint_extended order step) ends.inOrder offered
  have frees := removeNoneDependency_extended offers.inOrder release
  have whole := (starts.then_nothing sets).trans ((ends.then_nothing offers).then_nothing frees)
  refine (blocks.after_nothing whole).congr fun other => ?_
  by_cases same : other = (host, group.1)
  · simp [onStream, same, streamOp]
  · simp [onStream, same]

/-- The streams of a group are those of its calls. -/
theorem mem_streams_p2pCallInfos (message : ℕ) (calls : List CudaCall) (stream : CudaStream) :
    stream ∈ (p2pCallInfos message calls).map P2PCallInfo.stream ↔
      stream ∈ calls.filterMap p2pStream := by
  have each : ∀ tag call, (p2pCallInfo tag call).map P2PCallInfo.stream = p2pStream call := by
    intro tag call
    cases call <;> rfl
  have general : ∀ (calls : List CudaCall) (n : ℕ),
      ((calls.zipIdx n).filterMap fun indexed =>
        p2pCallInfo ⟨message, indexed.2⟩ indexed.1).map P2PCallInfo.stream =
        calls.filterMap p2pStream := by
    intro calls
    induction calls with
    | nil => simp
    | cons call calls ih =>
        intro n
        have head := each ⟨message, n⟩ call
        rw [List.zipIdx_cons, List.filterMap_cons, List.filterMap_cons, ← head]
        cases known : p2pCallInfo ⟨message, n⟩ call with
        | none => simpa [known] using ih (n + 1)
        | some info => simpa [known] using ih (n + 1)
  exact iff_of_eq (congrArg (stream ∈ ·) (general calls 0))

theorem ncclGroupedP2P_extended {host : HostId} {time : ℤ} {calls : List CudaCall}
    (inOrder : InOrder sim) (run : sim.ncclGroupedP2P env host time calls = .ok sim') :
    Extended sim (issuedBy host time (.ncclP2pGroup calls)) sim' := by
  simp only [ncclGroupedP2P] at run
  rcases Grouping.group_spec P2PCallInfo.stream (p2pCallInfos sim.handled calls) with
    ⟨nodup, keys, _⟩
  have permuted := env.order_perm sim.handled
    (Grouping.group P2PCallInfo.stream (p2pCallInfos sim.handled calls))
  rw [← (permuted.map Prod.fst).nodup_iff] at nodup
  have whole : Extended sim (fun stream => if stream.1 = host ∧ stream.2 ∈
      (env.order sim.handled (Grouping.group P2PCallInfo.stream
        (p2pCallInfos sim.handled calls))).map Prod.fst then [.point time, .point time] else [])
      sim' := by
    refine foldlM_prefix (fun done middle => Extended sim (fun stream =>
      if stream.1 = host ∧ stream.2 ∈ done.map Prod.fst then [.point time, .point time] else [])
      middle) ?_ ?_ run
    · intro done group rest first second earlier step split
      rw [← split, List.map_append, List.map_cons, List.nodup_append] at nodup
      have fresh : group.1 ∉ done.map Prod.fst := fun mem =>
        nodup.2.2 group.1 mem group.1 List.mem_cons_self rfl
      refine (earlier.trans (streamGroup_extended earlier.inOrder step)).congr fun stream => ?_
      rcases stream with ⟨other, stream⟩
      by_cases sameHost : other = host
      · by_cases sameStream : stream = group.1
        · subst other stream
          simp [onStream, fresh]
        · simp only [List.map_append, List.mem_append, List.map_cons, List.map_nil,
            List.mem_singleton, sameStream, or_false, onStream, Prod.mk.injEq, and_false,
            if_false, List.append_nil]
      · simp [onStream, sameHost]
    · exact (Extended.of_same inOrder rfl rfl rfl).congr (by simp)
  refine whole.congr fun stream => ?_
  simp only [issuedBy, ← mem_streams_p2pCallInfos sim.handled calls, ← keys,
    (permuted.map Prod.fst).mem_iff]

theorem setCCWaiting_extended {ops : HostStream → List StreamOp} (extended : Extended sim ops sim')
    (op : Collective) (id : NcclId) (waitings : List CCWaiting) :
    Extended sim ops (sim'.setCCWaiting op id waitings) :=
  extended.then_nothing (.of_same extended.inOrder rfl rfl rfl)

theorem newCCWaiting_extended {op : Collective} {ranks : Ranks} {host : HostId} {time : ℤ}
    {trace : Trace} {comm : NcclComm} {stream : CudaStream} {waiting : CCWaiting}
    (inOrder : InOrder sim)
    (run : sim.newCCWaiting env op ranks host time trace comm stream = .ok (sim', waiting)) :
    Extended sim (onStream (host, stream) [.point time, .point time]) sim' := by
  simp only [newCCWaiting, bind_eq_ok, pure_eq_ok, Prod.exists, Prod.mk.injEq] at run
  rcases run with ⟨first, _, barrier, second, _, start, third, _, startMeta, fourth, _, endMeta,
    fifth, _, finish, rfl, _⟩
  have blocks := (addActionOrPoint_extended inOrder barrier).1
  have starts := (addEvent_extended blocks.inOrder start).1
  have metas := (addActionOrPoint_extended starts.inOrder startMeta).1
  have metas' := metas.then_nothing (addActionOrPoint_extended metas.inOrder endMeta).1
  have ends := (addEvent_extended metas'.inOrder finish).1
  refine ((blocks.after_nothing ((starts.then_nothing metas').trans ends)).noted _).congr ?_
  intro other
  by_cases same : other = (host, stream)
  · simp [onStream, same, streamOp]
  · simp [onStream, same]

theorem joinStream_extended {op : Collective} {host : HostId} {time : ℤ} {comm : NcclComm}
    {stream : CudaStream} {waiting : CCWaiting} (inOrder : InOrder sim)
    (run : sim.joinStream env op host time comm stream waiting = .ok sim') :
    Extended sim (onStream (host, stream) [.point time, .point time]) sim' := by
  simp only [joinStream, bind_eq_ok, pure_eq_ok, Prod.exists] at run
  rcases run with ⟨first, _, start, second, wait, third, _, finish, rfl⟩
  have starts := (addEvent_extended inOrder start).1
  have waits := addDependency_extended starts.inOrder wait
  have ends := (addEvent_extended waits.inOrder finish).1
  refine (((starts.then_nothing waits).trans ends).noted _).congr fun other => ?_
  by_cases same : other = (host, stream)
  · simp [onStream, same, streamOp]
  · simp [onStream, same]

theorem completeCC_extended {op : Collective} {time : ℤ} {comm : NcclComm} {call : CudaCall}
    {waiting : CCWaiting} (inOrder : InOrder sim)
    (run : sim.completeCC env op time comm call waiting = .ok sim') :
    Extended sim (fun _ => []) sim' := by
  simp only [completeCC, bind_eq_ok, pure_eq_ok, Prod.exists] at run
  rcases run with ⟨first, flows, created, second, waited, third, released, rfl⟩
  have creates : Extended sim (fun _ => []) first := by
    refine Extended.foldlM Prod.fst ?_ inOrder created
    intro acc flow acc' _ order step
    simp only [addCommEvent, bind_eq_ok, pure_eq_ok, Prod.exists] at step
    rcases step with ⟨_, _, added, rfl⟩
    exact (addActionOrPoint_extended order added).1
  have waits := creates.then_nothing (Extended.foldlM (fun sim => sim)
    (fun _ order step => addDependency_extended order step) creates.inOrder waited)
  have frees := waits.then_nothing (removeNoneDependency_extended waits.inOrder released)
  exact frees.then_nothing (.of_same frees.inOrder rfl rfl rfl)

/-- A collective call occupies its stream between two points. -/
theorem handleNcclOp_extended {op : Collective} {host : ResponseId} {time : ℤ} {comm : NcclComm}
    {stream : CudaStream} {call : CudaCall} {trace : Ranks → ℕ → Except Panic Trace}
    (inOrder : InOrder sim)
    (run : sim.handleNcclOp env op host time comm stream call trace = .ok sim') :
    Extended sim (onStream (host.host, stream) [.point time, .point time]) sim' := by
  simp only [handleNcclOp, bind_eq_ok] at run
  rcases run with ⟨ranks, _, flows, _, run⟩
  have counted : Extended sim (fun _ => [])
      { sim with nextFlowId := sim.nextFlowId + flows.length } := .of_same inOrder rfl rfl rfl
  refine counted.after_nothing ?_
  simp only [ncclCall] at run
  split at run
  · simp only [bind_eq_ok, pure_eq_ok, Prod.exists] at run
    rcases run with ⟨middle, waiting, created, rfl⟩
    have creates := newCCWaiting_extended counted.inOrder created
    exact creates.then_nothing (.of_same creates.inOrder rfl rfl rfl)
  · simp only [bind_eq_ok, unwrap_eq_ok] at run
    rcases run with ⟨waiting, _, middle, joined, run⟩
    have joins := joinStream_extended counted.inOrder joined
    split at run
    · exact (setCCWaiting_extended joins op comm.id _).then_nothing
        (completeCC_extended (setCCWaiting_extended joins op comm.id _).inOrder run)
    · simp only [pure_eq_ok] at run
      exact run ▸ setCCWaiting_extended joins op comm.id _

theorem OnlyManages.extended (inOrder : InOrder sim) (manages : OnlyManages sim sim') :
    Extended sim (fun _ => []) sim' := by
  rcases manages with ⟨_, _, _, _, _, _, _, _, rfl⟩
  exact .of_same inOrder rfl rfl rfl

/-- A handler that runs the simulation and then forms communicators issues nothing. -/
theorem extended_of_manages {time : ℤ} (inOrder : InOrder sim)
    (handled : ∃ middle stopped, executeToTime env time env.fuel sim = .ok (middle, stopped) ∧
      OnlyManages middle sim') :
    Extended sim (fun _ => []) sim' := by
  rcases handled with ⟨middle, _, executed, manages⟩
  have runs := (executeToTime_onlyExecutes executed).extended inOrder
  exact runs.then_nothing (manages.extended runs.inOrder)

/-- A record marks the last event of its stream, all of whose calls are events. -/
def Recorded (sim : Simulator) (message : Message) (middle : Simulator)
    (idOfCuda : HostId × CudaEvent → Option EventId) : Prop :=
  match message.recorded with
  | none => idOfCuda = sim.idOfCuda
  | some (host, event) =>
      (middle.streamInfo.info (host, ⟨event.device, event.stream⟩)).buffered = [] ∧
      ∃ point, middle.lastEvent (host, ⟨event.device, event.stream⟩) = some point ∧
        idOfCuda = Function.update sim.idOfCuda (host, event) (some point)

/-- A call other than a record issues what it asks for. -/
theorem handleCudaCall_extended {msg : CudaCallMsg} (inOrder : InOrder sim)
    (run : sim.handleCudaCall env msg = .ok sim') :
    ∃ middle idOfCuda, Extended sim (Message.issued (.cuda msg)) middle ∧
      Recorded sim (.cuda msg) middle idOfCuda ∧ sim' = { middle with idOfCuda := idOfCuda } := by
  rcases msg with ⟨host, time, call⟩
  have updated := (updateHostCurr_onlyExecutes env.toPlatform sim host.host time).extended inOrder
  have order := updated.inOrder
  have plain : ∀ {ops}, Extended (sim.updateHostCurr host.host time) ops sim' →
      (∀ stream, Message.issued (.cuda ⟨host, time, call⟩) stream = ops stream) →
      Message.recorded (.cuda ⟨host, time, call⟩) = none →
      ∃ middle idOfCuda, Extended sim (Message.issued (.cuda ⟨host, time, call⟩)) middle ∧
        Recorded sim (.cuda ⟨host, time, call⟩) middle idOfCuda ∧
        sim' = { middle with idOfCuda := idOfCuda } := by
    intro ops extended same unrecorded
    have whole := updated.after_nothing extended
    refine ⟨sim', sim'.idOfCuda, whole.congr same, ?_, rfl⟩
    rw [Recorded, unrecorded]
    exact whole.idOfCuda
  cases call with
  | cudaMemcpyAsync size kind stream =>
      exact plain (cudaMemcpyAsync_extended order run) (fun _ => rfl) rfl
  | cudaDeviceSynchronize device =>
      exact plain (cudaDeviceSynchronize_extended order run).1 (fun _ => rfl) rfl
  | cudaStreamSynchronize stream =>
      exact plain (cudaStreamSynchronize_extended order run).1 (fun _ => rfl) rfl
  | cudaStreamWaitEvent stream event =>
      exact plain (cudaStreamWaitEvent_extended order run).1 (fun _ => rfl) rfl
  | cudaStreamQuery stream =>
      exact plain (cudaStreamQuery_extended order run) (fun _ => rfl) rfl
  | cudaEventRecord event =>
      rcases cudaEventRecord_extended order run with
        ⟨middle, point, extended, flushed, last, rfl⟩
      refine ⟨middle, _, updated.after_nothing extended, ?_, rfl⟩
      exact ⟨flushed, point, last, rfl⟩
  | cudaEventSynchronize event =>
      exact plain ((cudaEventSynchronize_onlyExecutes run).extended order) (fun _ => rfl) rfl
  | cudaEventQuery event =>
      exact plain ((cudaEventQuery_onlyExecutes run).extended order) (fun _ => rfl) rfl
  | cudaAddLatency stream latency =>
      exact plain (addComputation_extended order run) (fun _ => rfl) rfl
  | flashAttnCall stream =>
      exact plain (flashAttnCall_extended order run) (fun _ => rfl) rfl
  | ncclGetUniqueId =>
      simp only [handleCudaCall, Except.ok.injEq] at run
      subst run
      exact plain (.of_same order rfl rfl rfl) (fun _ => rfl) rfl
  | ncclCommInitRank device rank nranks id =>
      exact plain (extended_of_manages order (ncclCommInitRank_eq_ok run)) (fun _ => rfl) rfl
  | ncclCommSplit comm color key =>
      exact plain (extended_of_manages order (ncclCommSplit_eq_ok run)) (fun _ => rfl) rfl
  | ncclBcast count dtype root comm stream =>
      exact plain (handleNcclOp_extended order run) (fun _ => rfl) rfl
  | ncclAllReduce count dtype op comm stream =>
      exact plain (handleNcclOp_extended order run) (fun _ => rfl) rfl
  | ncclAllGather count dtype comm stream =>
      exact plain (handleNcclOp_extended order run) (fun _ => rfl) rfl
  | ncclReduceScatter count dtype op comm stream =>
      exact plain (handleNcclOp_extended order run) (fun _ => rfl) rfl
  | ncclSend count dtype peer comm stream =>
      exact plain (ncclUngroupedP2P_extended order run) (fun _ => rfl) rfl
  | ncclRecv count dtype peer comm stream =>
      exact plain (ncclUngroupedP2P_extended order run) (fun _ => rfl) rfl
  | ncclP2pGroup calls => exact plain (ncclGroupedP2P_extended order run) (fun _ => rfl) rfl
  | readTimer stream =>
      simp only [handleCudaCall, readTimer, Except.ok.injEq] at run
      subst run
      exact plain (.of_same order rfl rfl rfl) (fun _ => rfl) rfl

theorem handleTorchCall_extended (inOrder : InOrder sim) (call : TorchCall) :
    Extended sim (Message.issued (.torch call)) (sim.handleTorchCall env call) := by
  have info : ∀ stream, (sim.handleTorchCall env call).streamInfo.info stream =
      if stream = (call.id.host, call.stream) then
        { sim.streamInfo.info stream with
          buffered := (sim.streamInfo.info stream).buffered ++
            [(call, (sim.torchEstimator.estimate env.profiler call.info).2)] }
      else sim.streamInfo.info stream := by
    intro stream
    simp only [handleTorchCall]
    rw [info_modify]
    split
    · rename_i same
      rw [same]
      rfl
    · rfl
  have events : ∀ stream, ((sim.handleTorchCall env call).streamInfo.info stream).events =
      (sim.streamInfo.info stream).events := by
    intro stream
    rw [info]
    split <;> rfl
  refine ⟨.refl _, ?_, ?_, ?_, rfl, ?_, ?_, ?_, ?_⟩
  · intro stream
    rw [events]
  · intro stream
    rw [opsOn, opsOn, events, info]
    by_cases same : stream = (call.id.host, call.stream)
    · simp only [same, if_true, Message.issued, onStream, List.map_append, List.map_cons,
        List.map_nil, List.append_assoc]
      rfl
    · simp only [same, if_false, Message.issued, onStream, List.map_nil, List.append_nil]
      rfl
  · exact fun mem => mem_keys_modify.mpr (Or.inl mem)
  · intro stream e mem
    rw [events] at mem
    exact inOrder.created mem
  · intro stream
    rw [events]
    exact inOrder.ascending stream
  · intro stream
    rw [events]
    exact inOrder.chained stream
  · intro stream absent
    have absent' := mt mem_keys_modify.mpr absent
    rw [not_or] at absent'
    rw [info, if_neg absent'.2]
    exact inOrder.listed absent'.1

/-- Every message issues what it asks for. -/
theorem handle_extended {message : Message} (inOrder : InOrder sim)
    (run : sim.handle env message = .ok sim') :
    ∃ middle idOfCuda, Extended sim message.issued middle ∧ Recorded sim message middle idOfCuda ∧
      sim' = { middle with
        idOfCuda := idOfCuda
        handled := middle.handled + 1 } := by
  simp only [handle, bind_eq_ok, pure_eq_ok] at run
  rcases run with ⟨final, dispatched, rfl⟩
  cases message with
  | cuda msg =>
      rcases handleCudaCall_extended inOrder dispatched with
        ⟨middle, idOfCuda, extended, recorded, rfl⟩
      exact ⟨middle, idOfCuda, extended, recorded, rfl⟩
  | torch call =>
      simp only [dispatch, Except.ok.injEq] at dispatched
      subst dispatched
      exact ⟨_, _, handleTorchCall_extended inOrder call, rfl, rfl⟩
  | exit host time =>
      simp only [dispatch, Except.ok.injEq] at dispatched
      subst dispatched
      exact ⟨sim.handleExit host time, sim.idOfCuda, .of_same inOrder rfl rfl rfl, rfl, rfl⟩

/-- What messages issue to a stream. -/
def issuedTo (stream : HostStream) (inputs : List Message) : List StreamOp :=
  inputs.flatMap fun message => message.issued stream

/-- Operations on a stream have become its first events, and an event depends on them all. -/
def Covers (sim : Simulator) (stream : HostStream) (ops : List StreamOp) (point : EventId) :
    Prop :=
  ∃ earlier, earlier <+: (sim.streamInfo.info stream).events ∧
    earlier.map sim.opOf = ops.map some ∧ ∀ e ∈ earlier, sim.queue.Before e point

/-- The operations up to a record are the events up to the recorded one. -/
def Marks (sim : Simulator) (stream : HostStream) (ops : List StreamOp) (point : EventId) : Prop :=
  ∃ earlier, earlier <+: (sim.streamInfo.info stream).events ∧
    earlier.map sim.opOf = ops.map some ∧ earlier.getLast? = some point

/-- What holds of the streams after some messages. -/
structure Ordered (inputs : List Message) (sim : Simulator) : Prop where
  inOrder : InOrder sim
  ops : ∀ stream, sim.opsOn stream = (issuedTo stream inputs).map some
  marks : ∀ {before message between host event}, inputs = before ++ message :: between →
    message.recorded = some (host, event) →
    (∀ later ∈ between, later.recorded ≠ some (host, event)) →
    ∃ point, sim.idOfCuda (host, event) = some point ∧
      Marks sim (host, ⟨event.device, event.stream⟩)
        (issuedTo (host, ⟨event.device, event.stream⟩) (before ++ [message])) point

theorem Extended.prefix_ops {ops : HostStream → List StreamOp} (extended : Extended sim ops sim')
    (inOrder : InOrder sim) {stream : HostStream} {earlier : List EventId}
    (before : earlier <+: (sim.streamInfo.info stream).events) :
    earlier <+: (sim'.streamInfo.info stream).events ∧
      earlier.map sim'.opOf = earlier.map sim.opOf := by
  refine ⟨before.trans (extended.events stream), ?_⟩
  refine List.map_congr_left fun e mem => ?_
  have known := inOrder.created (before.subset mem)
  rw [opOf, opOf, extended.enlarges.recordOf known]

theorem Extended.marks {issued : HostStream → List StreamOp}
    (extended : Extended sim issued sim') (inOrder : InOrder sim) {stream : HostStream}
    {earlier : List StreamOp} {point : EventId}
    (marks : Marks sim stream earlier point) : Marks sim' stream earlier point := by
  rcases marks with ⟨events, before, same, last⟩
  rcases extended.prefix_ops inOrder before with ⟨before', same'⟩
  exact ⟨events, before', same'.trans same, last⟩

/-- A marked event of a stream that another depends on covers what came before it. -/
theorem Marks.covers {stream : HostStream} {ops : List StreamOp} {point later : EventId}
    (inOrder : InOrder sim) (marks : Marks sim stream ops point)
    (edge : sim.queue.Precedes point later) : Covers sim stream ops later := by
  rcases marks with ⟨earlier, before, same, last⟩
  refine ⟨earlier, before, same, ?_⟩
  intro e mem
  have ordered := (inOrder.before stream).sublist before.sublist
  rcases List.getLast?_eq_some_iff.mp last with ⟨front, split⟩
  rw [split] at mem ordered
  rcases List.mem_append.mp mem with old | new
  · have path := (List.pairwise_append.mp ordered).2.2 e old point (List.mem_singleton_self point)
    exact path.tail edge
  · exact List.mem_singleton.mp new ▸ .single edge

theorem ordered_initial (initial : Initial sim) : Ordered [] sim := by
  rcases initial with ⟨cluster, setting, hostMapping, rfl⟩
  refine ⟨⟨?_, ?_, ?_, ?_⟩, ?_, ?_⟩
  · intro stream e mem
    exact absurd mem List.not_mem_nil
  · exact fun _ => List.Pairwise.nil
  · exact fun _ => .nil
  · exact fun _ => rfl
  · exact fun _ => rfl
  · intro before message between host event split
    simp at split

theorem Ordered.step {inputs : List Message} {message : Message} (ordered : Ordered inputs sim)
    (run : sim.handle env message = .ok sim') : Ordered (inputs ++ [message]) sim' := by
  rcases handle_extended ordered.inOrder run with ⟨middle, idOfCuda, extended, recorded, rfl⟩
  have ops : ∀ stream, middle.opsOn stream = (issuedTo stream (inputs ++ [message])).map some := by
    intro stream
    rw [extended.ops, ordered.ops]
    simp [issuedTo]
  refine ⟨⟨extended.inOrder.created, extended.inOrder.ascending, extended.inOrder.chained,
    extended.inOrder.listed⟩, ops, ?_⟩
  intro before marked between host event split marks unmarked
  rcases between.eq_nil_or_concat with rfl | ⟨between, last, rfl⟩
  · rcases List.append_inj' split rfl with ⟨rfl, same⟩
    rcases List.cons_eq_cons.mp same with ⟨rfl, _⟩
    simp only [Recorded, marks] at recorded
    rcases recorded with ⟨flushed, point, last, rfl⟩
    refine ⟨point, Function.update_self _ _ _, _, List.prefix_refl _, ?_, last⟩
    have whole := ops (host, ⟨event.device, event.stream⟩)
    rw [opsOn, flushed, List.map_nil, List.append_nil] at whole
    exact whole
  · rw [List.concat_eq_append] at split unmarked
    have split' : inputs ++ [message] = (before ++ marked :: between) ++ [last] := by
      simpa using split
    rcases List.append_inj' split' rfl with ⟨rfl, same⟩
    rcases List.cons_eq_cons.mp same with ⟨rfl, _⟩
    rcases ordered.marks rfl marks fun later mem => unmarked later (List.mem_append_left _ mem)
      with ⟨point, known, marked'⟩
    have kept : idOfCuda (host, event) = sim.idOfCuda (host, event) := by
      have other := unmarked message (List.mem_append_right _ (List.mem_singleton_self message))
      simp only [Recorded] at recorded
      split at recorded
      · rw [recorded]
      · rename_i host' event' equal
        rcases recorded with ⟨_, point', _, rfl⟩
        refine Function.update_of_ne ?_ _ _
        intro equal'
        exact other (equal' ▸ equal)
    exact ⟨point, kept.trans known, extended.marks ordered.inOrder marked'⟩

theorem ordered_of_reached {inputs : List Message} (reached : Reached env inputs sim) :
    Ordered inputs sim :=
  reached.invariant Ordered ordered_initial fun ordered taken => ordered.step taken

theorem handle_cuda_eq_ok {msg : CudaCallMsg} (run : sim.handle env (.cuda msg) = .ok sim') :
    ∃ final, sim.handleCudaCall env msg = .ok final ∧
      sim' = { final with handled := final.handled + 1 } := by
  simp only [handle, bind_eq_ok, pure_eq_ok] at run
  rcases run with ⟨final, dispatched, rfl⟩
  exact ⟨final, dispatched, rfl⟩

/-- The point of a stream synchronize covers what was issued to the stream. -/
theorem Ordered.streamSynchronize {inputs : List Message} (ordered : Ordered inputs sim)
    {host : ResponseId} {time : ℤ} {stream : CudaStream}
    (run : sim.handle env (.cuda ⟨host, time, .cudaStreamSynchronize stream⟩) = .ok sim') :
    ∃ point, Occurrence.awaits host point time ∈ sim'.history ∧
      sim.queue.eventCounter ≤ point ∧
      Covers sim' (host.host, stream) (issuedTo (host.host, stream) inputs) point := by
  rcases handle_cuda_eq_ok run with ⟨final, handled, rfl⟩
  have updated := (updateHostCurr_onlyExecutes env.toPlatform sim host.host time).extended
    ordered.inOrder
  rcases cudaStreamSynchronize_extended updated.inOrder handled with
    ⟨extended, point, awaits, new, flushed, last⟩
  refine ⟨point, awaits, new, ?_⟩
  have ops := (updated.after_nothing extended).ops (host.host, stream)
  rcases List.getLast?_eq_some_iff.mp last with ⟨earlier, split⟩
  rw [ordered.ops, opsOn, flushed, split] at ops
  simp only [onStream, if_true, List.map_append, List.map_nil, List.append_nil] at ops
  rcases List.append_inj' ops rfl with ⟨same, _⟩
  refine ⟨earlier, split ▸ List.prefix_append _ _, same, ?_⟩
  intro e mem
  have chain := extended.inOrder.before (host.host, stream)
  rw [split] at chain
  exact (List.pairwise_append.mp chain).2.2 e mem point (List.mem_singleton_self point)

/-- The point of a device synchronize covers what was issued to the streams of the device. -/
theorem Ordered.deviceSynchronize {inputs : List Message} (ordered : Ordered inputs sim)
    {host : ResponseId} {time device : ℤ}
    (run : sim.handle env (.cuda ⟨host, time, .cudaDeviceSynchronize device⟩) = .ok sim') :
    ∃ point, Occurrence.awaits host point time ∈ sim'.history ∧
      sim.queue.eventCounter ≤ point ∧
      ∀ stream : HostStream, stream.1 = host.host → stream.2.device = device →
        Covers sim' stream (issuedTo stream inputs) point := by
  rcases handle_cuda_eq_ok run with ⟨final, handled, rfl⟩
  have updated := (updateHostCurr_onlyExecutes env.toPlatform sim host.host time).extended
    ordered.inOrder
  rcases cudaDeviceSynchronize_extended updated.inOrder handled with
    ⟨extended, point, awaits, new, covered⟩
  refine ⟨point, awaits, new, ?_⟩
  intro stream sameHost sameDevice
  rcases covered stream sameHost sameDevice with ⟨flushed, before⟩
  have ops := (updated.after_nothing extended).ops stream
  rw [ordered.ops, opsOn, flushed, List.map_nil, List.append_nil, List.map_nil,
    List.append_nil] at ops
  exact ⟨_, List.prefix_refl _, ops, before⟩

/-- A stream wait covers what was issued up to the last record of its event. -/
theorem Ordered.streamWaitEvent {before between : List Message} {record : Message}
    (ordered : Ordered (before ++ record :: between) sim) {host : ResponseId} {time : ℤ}
    {stream : CudaStream} {event : CudaEvent}
    (records : record.recorded = some (host.host, event))
    (last : ∀ later ∈ between, later.recorded ≠ some (host.host, event))
    (run : sim.handle env (.cuda ⟨host, time, .cudaStreamWaitEvent stream event⟩) = .ok sim') :
    ∃ point, sim'.lastEvent (host.host, stream) = some point ∧
      sim.queue.eventCounter ≤ point ∧
      Covers sim' (host.host, ⟨event.device, event.stream⟩)
        (issuedTo (host.host, ⟨event.device, event.stream⟩) (before ++ [record])) point := by
  rcases handle_cuda_eq_ok run with ⟨final, handled, rfl⟩
  have updated := (updateHostCurr_onlyExecutes env.toPlatform sim host.host time).extended
    ordered.inOrder
  rcases cudaStreamWaitEvent_extended updated.inOrder handled with
    ⟨extended, marked, point, known, ends, new, edge⟩
  rcases ordered.marks rfl records last with ⟨point', known', marks⟩
  rw [updated.idOfCuda, known', Option.some.injEq] at known
  subst known
  have marks' := (updated.after_nothing extended).marks ordered.inOrder marks
  have covers := marks'.covers extended.inOrder edge
  exact ⟨point, ends, new, covers⟩

/-- In every state reached, the streams hold what the messages issued, each event
after its predecessor; stream and device synchronize and stream wait cover it. -/
theorem streams_in_order {inputs : List Message} (reached : Reached env inputs sim) :
    sim.InOrder ∧ (∀ stream, sim.opsOn stream = (issuedTo stream inputs).map some) ∧
      (∀ host time stream sim',
        sim.handle env (.cuda ⟨host, time, .cudaStreamSynchronize stream⟩) = .ok sim' →
        ∃ point, Occurrence.awaits host point time ∈ sim'.history ∧
          sim.queue.eventCounter ≤ point ∧
          Covers sim' (host.host, stream) (issuedTo (host.host, stream) inputs) point) ∧
      (∀ host time device sim',
        sim.handle env (.cuda ⟨host, time, .cudaDeviceSynchronize device⟩) = .ok sim' →
        ∃ point, Occurrence.awaits host point time ∈ sim'.history ∧
          sim.queue.eventCounter ≤ point ∧
          ∀ stream : HostStream, stream.1 = host.host → stream.2.device = device →
            Covers sim' stream (issuedTo stream inputs) point) ∧
      ∀ before record between host time stream event sim',
        inputs = before ++ record :: between → record.recorded = some (host.host, event) →
        (∀ later ∈ between, later.recorded ≠ some (host.host, event)) →
        sim.handle env (.cuda ⟨host, time, .cudaStreamWaitEvent stream event⟩) = .ok sim' →
        ∃ point, sim'.lastEvent (host.host, stream) = some point ∧
          sim.queue.eventCounter ≤ point ∧
          Covers sim' (host.host, ⟨event.device, event.stream⟩)
            (issuedTo (host.host, ⟨event.device, event.stream⟩) (before ++ [record])) point := by
  have ordered := ordered_of_reached reached
  refine ⟨ordered.inOrder, ordered.ops, ?_, ?_, ?_⟩
  · intro host time stream sim' run
    exact ordered.streamSynchronize run
  · intro host time device sim' run
    exact ordered.deviceSynchronize run
  · intro before record between host time stream event sim' split records last run
    subst split
    exact ordered.streamWaitEvent records last run

/-- A torch call that is buffered, a copy, a record and a synchronize of one stream. -/
def copyAndSynchronize : List Message :=
  [.torch ⟨leftThread 0, 0, ⟨0, 0⟩, 0⟩,
    .cuda ⟨leftThread 0, 0, .cudaMemcpyAsync 8 .hostToDevice ⟨0, 0⟩⟩,
    .cuda ⟨leftThread 0, 0, .cudaEventRecord ⟨0, 0, 0⟩⟩,
    .cuda ⟨leftThread 0, 0, .cudaStreamSynchronize ⟨0, 0⟩⟩]

theorem streams_in_order_copyAndSynchronize :
    ∃ sim, Reached (.plain 20) copyAndSynchronize sim ∧
      (sim.streamInfo.info ((leftThread 0).host, ⟨0, 0⟩)).events = [0, 1, 2, 3] ∧
      sim.opsOn ((leftThread 0).host, ⟨0, 0⟩) =
        [some (.torch ⟨leftThread 0, 0, ⟨0, 0⟩, 0⟩),
          some (.cuda (.cudaMemcpyAsync 8 .hostToDevice ⟨0, 0⟩)), some (.point 0),
          some (.point 0)] := by
  have read : (copyAndSynchronize.foldlM (handle (.plain 20)) pair).toOption.map (fun sim =>
      (sim.streamInfo.info ((leftThread 0).host, ⟨0, 0⟩)).events) = some [0, 1, 2, 3] := by
    decide +kernel
  rcases exists_ok_of_reading read with ⟨sim, run, reading⟩
  have reached := reached_of_foldlM initial_pair run
  exact ⟨sim, reached, reading, (streams_in_order reached).2.1 _⟩

end Simulator

end Phantora
