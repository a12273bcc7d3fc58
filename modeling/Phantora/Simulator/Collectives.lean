import Phantora.Simulator.NcclSteps

/-!
# Collective calls of one communicator

The calls of one collective on one communicator, the instances that they have
joined and the flows of these. A message that makes no such call leaves all of
them alone.
-/

namespace Phantora

open Outcome

/-- A rank that has joined an instance of a collective, between two points of its stream. -/
structure Join where
  barrier : EventId
  rank : ℤ
  streamStart : EventId
  streamEnd : EventId

/-- An instance that all ranks have joined, with the events of its flows. -/
structure Completion where
  barrier : EventId
  flows : List EventId

def Occurrence.join? (op : Collective) (id : NcclId) : Occurrence → Option Join
  | .joined op' id' barrier rank streamStart streamEnd =>
      if op' = op ∧ id' = id then some ⟨barrier, rank, streamStart, streamEnd⟩ else none
  | _ => none

def Occurrence.completion? (op : Collective) (id : NcclId) : Occurrence → Option Completion
  | .completed op' id' barrier flows =>
      if op' = op ∧ id' = id then some ⟨barrier, flows⟩ else none
  | _ => none

/-- The rank that a call makes join the collective on the communicator. -/
def CudaCall.caller? (op : Collective) (id : NcclId) (call : CudaCall) : Option ℤ :=
  call.collective.bind fun called =>
    if called.1 = op ∧ called.2.id = id then some called.2.rank else none

def Message.caller? (op : Collective) (id : NcclId) : Message → Option ℤ
  | .cuda msg => msg.call.caller? op id
  | _ => none

theorem Message.caller?_eq_some {op : Collective} {id : NcclId} {message : Message} {rank : ℤ}
    (caller : message.caller? op id = some rank) :
    ∃ comm, message.collective = some (op, comm) ∧ comm.id = id ∧ comm.rank = rank := by
  rcases message with msg | _ | _
  · simp only [Message.caller?, CudaCall.caller?, Option.bind_eq_some_iff] at caller
    rcases caller with ⟨⟨op', comm⟩, collective, isCaller⟩
    split at isCaller
    · rename_i same
      exact ⟨comm, same.1 ▸ collective, same.2, Option.some.inj isCaller⟩
    · cases isCaller
  · cases caller
  · cases caller

/-- The ranks that the messages make join the collective on the communicator, in order. -/
def callers (op : Collective) (id : NcclId) (messages : List Message) : List ℤ :=
  messages.filterMap (Message.caller? op id)

/-- The flows of a collective call. -/
def CudaCall.traceOf (ranks : Ranks) (nextFlowId : ℕ) : CudaCall → Except Panic Trace
  | .ncclBcast count dtype root _ _ => SimpleRing.bcast root ranks count dtype nextFlowId
  | .ncclAllReduce count dtype _ _ _ => SimpleRing.allreduce ranks count dtype nextFlowId
  | .ncclAllGather count dtype _ _ => SimpleRing.allgather ranks count dtype nextFlowId
  | .ncclReduceScatter count dtype _ _ _ => SimpleRing.reduceScatter ranks count dtype nextFlowId
  | _ => .ok []

/-- The stream of a collective call. -/
def CudaCall.collectiveStream : CudaCall → Option CudaStream
  | .ncclBcast _ _ _ _ stream => some stream
  | .ncclAllReduce _ _ _ _ stream => some stream
  | .ncclAllGather _ _ _ stream => some stream
  | .ncclReduceScatter _ _ _ _ stream => some stream
  | _ => none

/-- The events with a flow of the collective on the communicator, in order. -/
def EventQueue.collectiveFlows (queue : EventQueue) (op : Collective) (id : NcclId) :
    List EventQueue.FlowRecord :=
  queue.flowRecords.filter fun record => (record.2.2.caller? op id).isSome

namespace Simulator

def joins (sim : Simulator) (op : Collective) (id : NcclId) : List Join :=
  sim.history.reverse.filterMap (Occurrence.join? op id)

def completions (sim : Simulator) (op : Collective) (id : NcclId) : List Completion :=
  sim.history.reverse.filterMap (Occurrence.completion? op id)

/-- The barriers of the instances: of those that are complete, then of those that wait. -/
def instances (sim : Simulator) (op : Collective) (id : NcclId) : List EventId :=
  (sim.completions op id).map Completion.barrier ++ (sim.waitings op id).map CCWaiting.commBarrier

variable {env : Environment} {sim sim' : Simulator} {op : Collective} {id : NcclId}

@[simp]
theorem joins_note (sim : Simulator) (occurrence : Occurrence) :
    (sim.note occurrence).joins op id = sim.joins op id ++ (occurrence.join? op id).toList := by
  simp only [joins, note, List.reverse_cons, List.filterMap_append]
  cases known : occurrence.join? op id <;> simp [known]

@[simp]
theorem completions_note (sim : Simulator) (occurrence : Occurrence) :
    (sim.note occurrence).completions op id =
      sim.completions op id ++ (occurrence.completion? op id).toList := by
  simp only [completions, note, List.reverse_cons, List.filterMap_append]
  cases known : occurrence.completion? op id <;> simp [known]

@[simp]
theorem joins_setCCWaiting (sim : Simulator) (op' : Collective) (id' : NcclId)
    (waitings : List CCWaiting) : (sim.setCCWaiting op' id' waitings).joins op id =
      sim.joins op id := rfl

@[simp]
theorem completions_setCCWaiting (sim : Simulator) (op' : Collective) (id' : NcclId)
    (waitings : List CCWaiting) : (sim.setCCWaiting op' id' waitings).completions op id =
      sim.completions op id := rfl

theorem join?_eq_none {occurrence : Occurrence} (other : ¬occurrence.Collects) :
    occurrence.join? op id = none := by
  cases occurrence <;> first | rfl | exact absurd trivial other

theorem completion?_eq_none {occurrence : Occurrence} (other : ¬occurrence.Collects) :
    occurrence.completion? op id = none := by
  cases occurrence <;> first | rfl | exact absurd trivial other

theorem joins_of_adds {records : List EventQueue.FlowRecord} (adds : Adds records sim sim') :
    sim'.joins op id = sim.joins op id :=
  adds.filterMap_history fun _ other =>
    join?_eq_none fun collects => other (Occurrence.quiet_of_collects collects)

theorem completions_of_adds {records : List EventQueue.FlowRecord} (adds : Adds records sim sim') :
    sim'.completions op id = sim.completions op id :=
  adds.filterMap_history fun _ other =>
    completion?_eq_none fun collects => other (Occurrence.quiet_of_collects collects)

/-- What is left of the collective on the communicator stays. -/
structure Apart (op : Collective) (id : NcclId) (sim sim' : Simulator) : Prop where
  logs : Logs (fun info => info.caller? op id = none)
    (fun occurrence => occurrence.join? op id = none ∧ occurrence.completion? op id = none) sim sim'
  waitings : sim'.waitings op id = sim.waitings op id

namespace Apart

theorem trans {first second third : Simulator} (left : Apart op id first second)
    (right : Apart op id second third) : Apart op id first third :=
  ⟨left.logs.trans right.logs, right.waitings.trans left.waitings⟩

theorem of_adds {records : List EventQueue.FlowRecord} (adds : Adds records sim sim')
    (infos : ∀ record ∈ records, record.2.2.caller? op id = none) : Apart op id sim sim' := by
  refine ⟨adds.logs infos fun occurrence other => ?_, ?_⟩
  · have notCollects : ¬occurrence.Collects :=
      fun collects => other (Occurrence.quiet_of_collects collects)
    exact ⟨join?_eq_none notCollects, completion?_eq_none notCollects⟩
  · rw [Simulator.waitings, adds.ccWaiting, Simulator.waitings]

theorem of_aside (aside : Aside sim sim') : Apart op id sim sim' :=
  of_adds aside (by simp)

theorem of_keeps (keeps : KeepsCollectives sim sim') : Apart op id sim sim' := by
  rcases keeps.logs.flowRecords with ⟨records, flows, infos⟩
  rcases keeps.logs.history with ⟨news, history, others⟩
  refine ⟨⟨keeps.logs.enlarges, ⟨records, flows, ?_⟩, ⟨news, history, ?_⟩, keeps.logs.handled⟩, ?_⟩
  · intro record mem
    rw [CudaCall.caller?, infos record mem, Option.bind_none]
  · exact fun occurrence mem =>
      ⟨join?_eq_none (others occurrence mem), completion?_eq_none (others occurrence mem)⟩
  · rw [Simulator.waitings, keeps.ccWaiting, Simulator.waitings]

theorem note {occurrence : Occurrence} (apart : Apart op id sim sim')
    (join : occurrence.join? op id = none) (completion : occurrence.completion? op id = none) :
    Apart op id sim (sim'.note occurrence) :=
  ⟨apart.logs.note ⟨join, completion⟩, apart.waitings⟩

theorem setCCWaiting (apart : Apart op id sim sim') {op' : Collective} {id' : NcclId}
    (differs : ¬(op' = op ∧ id' = id)) (waitings : List CCWaiting) :
    Apart op id sim (sim'.setCCWaiting op' id' waitings) := by
  refine apart.trans ⟨.of_silent rfl rfl rfl, ?_⟩
  rw [waitings_setCCWaiting, if_neg]
  rintro ⟨rfl, rfl⟩
  exact differs ⟨rfl, rfl⟩

theorem joins (apart : Apart op id sim sim') : sim'.joins op id = sim.joins op id :=
  apart.logs.filterMap_history fun _ other => other.1

theorem completions (apart : Apart op id sim sim') :
    sim'.completions op id = sim.completions op id :=
  apart.logs.filterMap_history fun _ other => other.2

theorem instances (apart : Apart op id sim sim') : sim'.instances op id = sim.instances op id := by
  rw [Simulator.instances, apart.completions, apart.waitings, Simulator.instances]

theorem collectiveFlows (apart : Apart op id sim sim') :
    sim'.queue.collectiveFlows op id = sim.queue.collectiveFlows op id :=
  apart.logs.filter_flowRecords fun record other => by simp [other]

end Apart

/-- A collective call, once its host's time is recorded and its flows are computed. -/
theorem dispatch_collective {message : Message} {comm : NcclComm}
    (collective : message.collective = some (op, comm))
    (run : sim.dispatch env message = .ok sim') :
    ∃ middle host time call stream ranks trace, message = .cuda ⟨host, time, call⟩ ∧
      call.collective = some (op, comm) ∧ call.collectiveStream = some stream ∧
      (sim.commGroups comm.id = some ranks ∧ call.traceOf ranks sim.nextFlowId = .ok trace) ∧
      (middle.queue = sim.queue ∧ middle.streamInfo = sim.streamInfo ∧ Aside sim middle) ∧
      middle.ncclCall env op ranks host.host time trace comm stream call = .ok sim' := by
  rcases message with ⟨host, time, call⟩ | _ | _
  · have general : ∀ {stream : CudaStream},
        (sim.updateHostCurr host.host time).handleNcclOp env op host time comm stream call
          (fun ranks nextFlowId => call.traceOf ranks nextFlowId) = .ok sim' →
        call.collectiveStream = some stream →
        ∃ middle host' time' call' stream ranks trace,
          Message.cuda ⟨host, time, call⟩ = .cuda ⟨host', time', call'⟩ ∧
          call'.collective = some (op, comm) ∧ call'.collectiveStream = some stream ∧
          (sim.commGroups comm.id = some ranks ∧
            call'.traceOf ranks sim.nextFlowId = .ok trace) ∧
          (middle.queue = sim.queue ∧ middle.streamInfo = sim.streamInfo ∧ Aside sim middle) ∧
          middle.ncclCall env op ranks host'.host time' trace comm stream call' = .ok sim' := by
      intro stream run isStream
      simp only [handleNcclOp, bind_eq_ok, unwrap_eq_ok] at run
      rcases run with ⟨ranks, known, trace, computed, called⟩
      refine ⟨_, host, time, call, stream, ranks, trace, rfl, collective, isStream,
        ⟨known, computed⟩, ⟨?_, ?_, ?_⟩, called⟩
      · rfl
      · rfl
      · exact .of_silent rfl rfl rfl rfl rfl rfl
    cases call with
    | ncclBcast count dtype root comm' stream =>
        cases collective
        exact general run rfl
    | ncclAllReduce count dtype reduce comm' stream =>
        cases collective
        exact general run rfl
    | ncclAllGather count dtype comm' stream =>
        cases collective
        exact general run rfl
    | ncclReduceScatter count dtype reduce comm' stream =>
        cases collective
        exact general run rfl
    | _ => cases collective
  · cases collective
  · cases collective

theorem ncclCall_apart {op' : Collective} {ranks : Ranks} {host : HostId} {time : ℤ}
    {trace : Trace} {comm : NcclComm} {stream : CudaStream} {call : CudaCall}
    (differs : ¬(op' = op ∧ comm.id = id)) (other : call.caller? op id = none)
    (run : sim.ncclCall env op' ranks host time trace comm stream call = .ok sim') :
    Apart op id sim sim' := by
  have noted : ∀ {before after : Simulator} {barrier : EventId} {streamStart streamEnd : EventId},
      Aside before after → Apart op id before
        (after.note (.joined op' comm.id barrier comm.rank streamStart streamEnd)) :=
    fun aside => (Apart.of_aside aside).note (if_neg differs) rfl
  rcases ncclCall_cases run with ⟨middle, waiting, _, created, rfl⟩ |
    ⟨idx, waiting, middle, _, _, joined, rest⟩
  · rcases newCCWaiting_eq_ok created with ⟨_, _, _, aside, rfl, _⟩
    exact (noted aside).setCCWaiting differs _
  · rcases joinStream_eq_ok joined with ⟨_, _, _, aside, rfl, _⟩
    rcases rest with ⟨_, rfl⟩ | ⟨_, completed⟩
    · exact (noted aside).setCCWaiting differs _
    · rcases completeCC_eq_ok completed with ⟨_, flows, adds, _, _, _, rfl⟩
      refine ((noted aside).setCCWaiting differs _).trans (Apart.note (.of_adds adds ?_) rfl ?_)
      · intro record mem
        rcases List.mem_map.mp mem with ⟨_, _, rfl⟩
        exact other
      · exact if_neg differs

/-- A message that joins another collective or another communicator, or is no collective. -/
theorem dispatch_apart {message : Message} (other : message.caller? op id = none)
    (run : sim.dispatch env message = .ok sim') : Apart op id sim sim' := by
  cases collective : message.collective with
  | none => exact .of_keeps (dispatch_keepsCollectives collective run)
  | some called =>
      rcases called with ⟨op', comm⟩
      rcases dispatch_collective collective run with
        ⟨middle, host, time, call, stream, ranks, trace, rfl, isCollective, _, _, ⟨_, _, aside⟩,
          called⟩
      have differs : ¬(op' = op ∧ comm.id = id) := by
        intro same
        simp [Message.caller?, CudaCall.caller?, isCollective, same] at other
      exact (Apart.of_aside aside).trans (ncclCall_apart differs other called)

end Simulator

end Phantora
