import Mathlib.Data.List.Chain
import Phantora.Simulator.Frame

/-!
# The order of the streams

What the messages ask of a stream is, in order, what the events of the stream
do, followed by the torch calls that are still buffered, and each event of the
stream depends on the one before it.
-/

namespace Phantora

open Outcome

/-- An operation on a stream. -/
inductive StreamOp where
  | torch (call : TorchCall)
  | cuda (call : CudaCall)
  | flow (call : CudaCall)
  | point (time : ℤ)

/-- The operation of an event. -/
def streamOp (action : Option Action) (time : ℤ) : StreamOp :=
  match action with
  | some (.computation _ _ (.torch call)) => .torch call
  | some (.computation _ _ (.cuda call)) => .cuda call
  | some (.communication _ call) => .flow call
  | none => .point time

/-- Operations on one stream. -/
def onStream (stream : HostStream) (ops : List StreamOp) : HostStream → List StreamOp :=
  fun other => if other = stream then ops else []

/-- The stream of a call of a point-to-point group. -/
def p2pStream : CudaCall → Option CudaStream
  | .ncclSend _ _ _ _ stream => some stream
  | .ncclRecv _ _ _ _ stream => some stream
  | _ => none

/-- The operations that a call issues: a collective, a point-to-point call and a
group occupy a stream between two points. -/
def issuedBy (host : HostId) (time : ℤ) (call : CudaCall) : HostStream → List StreamOp :=
  match call with
  | .cudaMemcpyAsync _ _ stream => onStream (host, stream) [.cuda call]
  | .cudaAddLatency stream _ => onStream (host, stream) [.cuda call]
  | .flashAttnCall stream _ _ _ _ _ _ _ _ _ _ _ => onStream (host, stream) [.cuda call]
  | .cudaStreamSynchronize stream => onStream (host, stream) [.point time]
  | .cudaStreamWaitEvent stream _ => onStream (host, stream) [.point time]
  | .cudaEventRecord event => onStream (host, ⟨event.device, event.stream⟩) [.point time]
  | .ncclBcast _ _ _ _ stream => onStream (host, stream) [.point time, .point time]
  | .ncclAllReduce _ _ _ _ stream => onStream (host, stream) [.point time, .point time]
  | .ncclAllGather _ _ _ stream => onStream (host, stream) [.point time, .point time]
  | .ncclReduceScatter _ _ _ _ stream => onStream (host, stream) [.point time, .point time]
  | .ncclSend _ _ _ _ stream => onStream (host, stream) [.point time, .point time]
  | .ncclRecv _ _ _ _ stream => onStream (host, stream) [.point time, .point time]
  | .ncclP2pGroup calls => fun stream =>
      if stream.1 = host ∧ stream.2 ∈ calls.filterMap p2pStream then [.point time, .point time]
      else []
  | _ => fun _ => []

/-- The operations that a message issues. -/
def Message.issued : Message → HostStream → List StreamOp
  | .cuda msg => issuedBy msg.id.host msg.currTime msg.call
  | .torch call => onStream (call.id.host, call.stream) [.torch call]
  | .exit _ _ => fun _ => []

/-- The event that a message records. -/
def Message.recorded : Message → Option (HostId × CudaEvent)
  | .cuda ⟨id, _, .cudaEventRecord event⟩ => some (id.host, event)
  | _ => none

/-- The calls of a sequence. -/
def TorchCallSeq.calls : TorchCallSeq → List TorchCall
  | .single call _ => [call]
  | .seq calls => calls

namespace TorchCallSeq

@[simp]
theorem calls_new (entries : List (TorchCall × ℕ)) :
    (TorchCallSeq.new entries).calls = entries.map Prod.fst := by
  rcases entries with _ | ⟨⟨call, duration⟩, _ | ⟨second, rest⟩⟩ <;> rfl

end TorchCallSeq

/-- Splitting drops no call and keeps their order. -/
theorem splitSequences_calls (profiler : Profiler) (entries : List (TorchCall × ℕ)) :
    (splitSequences profiler entries).flatMap TorchCallSeq.calls = entries.map Prod.fst := by
  have folded : ∀ (rest : List (TorchCall × ℕ)) (state : SplitState),
      (rest.foldl splitStep state).seqs.flatMap TorchCallSeq.calls ++
          (rest.foldl splitStep state).lastSeq.map Prod.fst =
        state.seqs.flatMap TorchCallSeq.calls ++ state.lastSeq.map Prod.fst ++
          rest.map Prod.fst := by
    intro rest
    induction rest with
    | nil => simp
    | cons entry rest ih =>
        intro state
        rw [List.foldl_cons, ih]
        unfold splitStep
        split
        · simp
        · simp
  cases entries with
  | nil => rfl
  | cons first rest =>
      simp only [splitSequences]
      split
      · rw [List.flatMap_map, List.map_eq_flatMap]
        rfl
      · simpa using folded (first :: rest) ⟨[], [], first.1.time⟩

namespace Simulator

/-- The operation of a created event. -/
def opOf (sim : Simulator) (id : EventId) : Option StreamOp :=
  (sim.queue.recordOf id).map fun record => streamOp record.2.1 record.2.2

/-- The operations of a stream: those of its events, then the buffered ones. -/
def opsOn (sim : Simulator) (stream : HostStream) : List (Option StreamOp) :=
  (sim.streamInfo.info stream).events.map sim.opOf ++
    (sim.streamInfo.info stream).buffered.map fun entry => some (.torch entry.1)

/-- The events of every stream exist, ascend and form a chain of dependencies. -/
structure InOrder (sim : Simulator) : Prop where
  created : ∀ {stream e}, e ∈ (sim.streamInfo.info stream).events → e < sim.queue.eventCounter
  ascending : ∀ stream, (sim.streamInfo.info stream).events.Pairwise (· < ·)
  chained : ∀ stream, (sim.streamInfo.info stream).events.IsChain sim.queue.Precedes
  listed : ∀ {stream}, stream ∉ sim.streamInfo.keys → sim.streamInfo.info stream = {}

/-- Operations are appended to the streams. -/
structure Extended (sim : Simulator) (ops : HostStream → List StreamOp) (sim' : Simulator) :
    Prop where
  enlarges : EventQueue.Enlarges sim.queue sim'.queue
  events : ∀ stream,
    (sim.streamInfo.info stream).events <+: (sim'.streamInfo.info stream).events
  ops : ∀ stream, sim'.opsOn stream = sim.opsOn stream ++ (ops stream).map some
  keys : ∀ {stream}, stream ∈ sim.streamInfo.keys → stream ∈ sim'.streamInfo.keys
  idOfCuda : sim'.idOfCuda = sim.idOfCuda
  inOrder : InOrder sim'

variable {env : Environment} {sim sim' : Simulator}

theorem opOf_enlarged {queue : EventQueue} (enlarges : EventQueue.Enlarges sim.queue queue)
    {id : EventId} (known : id < sim.queue.eventCounter) :
    opOf { sim with queue := queue } id = sim.opOf id := by
  rw [opOf, opOf, enlarges.recordOf known]

/-- Each event of a stream comes before the later ones. -/
theorem InOrder.before (inOrder : InOrder sim) (stream : HostStream) :
    (sim.streamInfo.info stream).events.Pairwise sim.queue.Before := by
  have chain : (sim.streamInfo.info stream).events.IsChain sim.queue.Before :=
    (inOrder.chained stream).imp fun _ _ edge => .single edge
  exact List.isChain_iff_pairwise.mp chain

/-- An event of a stream is the last one or comes before it. -/
theorem InOrder.before_last (inOrder : InOrder sim) {stream : HostStream} {e last : EventId}
    (mem : e ∈ (sim.streamInfo.info stream).events)
    (ends : (sim.streamInfo.info stream).events.getLast? = some last) :
    e = last ∨ sim.queue.Before e last := by
  have ordered := inOrder.before stream
  rcases List.getLast?_eq_some_iff.mp ends with ⟨earlier, split⟩
  rw [split] at mem ordered
  rcases List.mem_append.mp mem with old | new
  · exact Or.inr ((List.pairwise_append.mp ordered).2.2 e old last (List.mem_singleton_self last))
  · exact Or.inl (List.mem_singleton.mp new)

namespace Extended

theorem trans {first second third : Simulator} {ops ops' : HostStream → List StreamOp}
    (left : Extended first ops second) (right : Extended second ops' third) :
    Extended first (fun stream => ops stream ++ ops' stream) third := by
  refine ⟨left.enlarges.trans right.enlarges, ?_, ?_, ?_, ?_, right.inOrder⟩
  · exact fun stream => (left.events stream).trans (right.events stream)
  · intro stream
    rw [right.ops, left.ops, List.map_append, List.append_assoc]
  · exact fun mem => right.keys (left.keys mem)
  · rw [right.idOfCuda, left.idOfCuda]

/-- The operations are stated in another way. -/
theorem congr {ops ops' : HostStream → List StreamOp} (extended : Extended sim ops sim')
    (same : ∀ stream, ops' stream = ops stream) : Extended sim ops' sim' := by
  have equal : ops' = ops := funext same
  exact equal ▸ extended

theorem then_nothing {middle : Simulator} {ops : HostStream → List StreamOp}
    (left : Extended sim ops middle) (right : Extended middle (fun _ => []) sim') :
    Extended sim ops sim' :=
  (left.trans right).congr fun _ => (List.append_nil _).symm

theorem after_nothing {middle : Simulator} {ops : HostStream → List StreamOp}
    (left : Extended sim (fun _ => []) middle) (right : Extended middle ops sim') :
    Extended sim ops sim' :=
  (left.trans right).congr fun _ => (List.nil_append _).symm

/-- A stream that is issued nothing and flushed of nothing keeps its events. -/
theorem events_eq {ops : HostStream → List StreamOp} (extended : Extended sim ops sim')
    {stream : HostStream} (nothing : ops stream = [])
    (kept : (sim'.streamInfo.info stream).buffered = (sim.streamInfo.info stream).buffered) :
    (sim'.streamInfo.info stream).events = (sim.streamInfo.info stream).events := by
  have lengths := congrArg List.length (extended.ops stream)
  simp only [opsOn, nothing, kept, List.length_append, List.length_map, List.length_nil] at lengths
  exact ((extended.events stream).eq_of_length (by omega)).symm

/-- The streams stay and the graph grows. -/
theorem of_enlarges (inOrder : InOrder sim)
    (enlarges : EventQueue.Enlarges sim.queue sim'.queue)
    (streams : sim'.streamInfo = sim.streamInfo) (recorded : sim'.idOfCuda = sim.idOfCuda) :
    Extended sim (fun _ => []) sim' := by
  refine ⟨enlarges, ?_, ?_, ?_, recorded, ?_, ?_, ?_, ?_⟩
  · intro stream
    rw [streams]
  · intro stream
    rw [List.map_nil, List.append_nil, opsOn, opsOn, streams]
    congr 1
    exact List.map_congr_left fun e mem => opOf_enlarged enlarges (inOrder.created mem)
  · intro stream mem
    rwa [streams]
  · intro stream e mem
    rw [streams] at mem
    exact (inOrder.created mem).trans_le enlarges.eventCounter
  · intro stream
    rw [streams]
    exact inOrder.ascending stream
  · intro stream
    rw [streams]
    exact (inOrder.chained stream).imp fun _ _ edge => enlarges.precedes edge
  · intro stream absent
    rw [streams] at absent ⊢
    exact inOrder.listed absent

end Extended

theorem info_modify (table : StreamTable) (key stream : HostStream)
    (f : StreamInfo → StreamInfo) :
    (table.modify key f).info stream = if stream = key then f (table.info key)
      else table.info stream := by
  by_cases same : stream = key
  · subst stream
    simp [StreamTable.modify]
  · simp [StreamTable.modify, same]

theorem mem_keys_modify {table : StreamTable} {key stream : HostStream}
    {f : StreamInfo → StreamInfo} :
    stream ∈ (table.modify key f).keys ↔ stream ∈ table.keys ∨ stream = key := by
  by_cases present : key ∈ table.keys
  · simp only [StreamTable.modify, present, if_true, iff_self_or]
    exact fun same => same ▸ present
  · simp [StreamTable.modify, present]

theorem lastEvent_eq_some {stream : HostStream} {e : EventId} :
    sim.lastEvent stream = some e ↔ e ∈ (sim.streamInfo.info stream).events.getLast? :=
  Iff.rfl

/-- A new event of a stream follows the last one. -/
theorem submit_extended (inOrder : InOrder sim) {stream : HostStream}
    (flushed : (sim.streamInfo.info stream).buffered = []) {dependsOn : List (Option EventId)}
    {action : Option Action} {time : ℤ} {id : EventId}
    (run : sim.submit env stream dependsOn action time = .ok (sim', id)) :
    Extended sim (onStream stream [streamOp action time]) sim' ∧
      (∀ other, (sim'.streamInfo.info other).buffered = (sim.streamInfo.info other).buffered) ∧
      sim'.lastEvent stream = some id ∧ stream ∈ sim'.streamInfo.keys ∧
      sim.queue.eventCounter ≤ id ∧ ∀ {d}, some d ∈ dependsOn → sim'.queue.Precedes d id := by
  rcases submit_eq_ok run with ⟨queue, added, rfl⟩
  rcases EventQueue.addActionOrPoint_enlarges added with ⟨enlarges, rfl, counter, record, edges⟩
  have follows : ∀ e ∈ (sim.streamInfo.info stream).events.getLast?,
      queue.Precedes e sim.queue.eventCounter := by
    intro e last
    exact edges (List.mem_append_right _ (by simp [lastEvent_eq_some.mpr last]))
  have info : ∀ other, (sim.streamInfo.modify stream fun sinfo =>
      { sinfo with events := sinfo.events ++ [sim.queue.eventCounter] }).info other =
        if other = stream then
          { sim.streamInfo.info stream with
            events := (sim.streamInfo.info stream).events ++ [sim.queue.eventCounter] }
        else sim.streamInfo.info other := fun other => info_modify _ _ _ _
  have known : ∀ {other e}, e ∈ (sim.streamInfo.info other).events →
      (opOf { sim with queue := queue } e) = sim.opOf e := fun mem =>
    opOf_enlarged enlarges (inOrder.created mem)
  refine ⟨⟨enlarges, ?_, ?_, ?_, rfl, ?_, ?_, ?_, ?_⟩, ?_, ?_, ?_, Nat.le_refl _, ?_⟩
  · intro other
    rw [info]
    split
    · rename_i same
      exact same ▸ List.prefix_append _ _
    · exact List.prefix_refl _
  · intro other
    have old : (sim.streamInfo.info other).events.map (opOf { sim with queue := queue }) =
        (sim.streamInfo.info other).events.map sim.opOf :=
      List.map_congr_left fun e mem => known mem
    have new : opOf { sim with queue := queue } sim.queue.eventCounter =
        some (streamOp action time) := by
      simp only [opOf, record, Option.map_some]
    by_cases same : other = stream
    · subst other
      simp only [opsOn, info, if_true, flushed, onStream, List.map_append, List.map_cons,
        List.map_nil, List.append_nil]
      exact congrArg₂ _ old (congrArg (fun op => [op]) new)
    · simp only [opsOn, info, same, if_false, onStream, List.map_nil, List.append_nil]
      exact congrArg (· ++ _) old
  · exact fun mem => mem_keys_modify.mpr (Or.inl mem)
  · intro other e mem
    rw [info] at mem
    rw [counter]
    split at mem
    · rcases List.mem_append.mp mem with old | new
      · exact (inOrder.created old).trans (Nat.lt_succ_self _)
      · rw [List.mem_singleton.mp new]
        exact Nat.lt_succ_self _
    · exact (inOrder.created mem).trans (Nat.lt_succ_self _)
  · intro other
    rw [info]
    split
    · rw [List.pairwise_append]
      refine ⟨inOrder.ascending stream, List.pairwise_singleton _ _, ?_⟩
      intro e mem new last
      rw [List.mem_singleton.mp last]
      exact inOrder.created mem
    · exact inOrder.ascending other
  · intro other
    rw [info]
    split
    · refine List.IsChain.append ?_ (List.isChain_singleton _) ?_
      · exact (inOrder.chained stream).imp fun _ _ edge => enlarges.precedes edge
      · intro e last new first
        rw [List.head?_cons, Option.mem_some_iff] at first
        exact first ▸ follows e last
    · exact (inOrder.chained other).imp fun _ _ edge => enlarges.precedes edge
  · intro other absent
    rw [mem_keys_modify, not_or] at absent
    rw [info, if_neg absent.2]
    exact inOrder.listed absent.1
  · intro other
    rw [info]
    split
    · rename_i same
      rw [same]
    · rfl
  · simp [lastEvent, info]
  · exact mem_keys_modify.mpr (Or.inr rfl)
  · intro d mem
    exact edges (List.mem_append_left _ mem)

/-- The calls of a sequence become events of the stream. -/
theorem submitCalls_extended {stream : HostStream} {calls : List TorchCall} {durs : List ℕ}
    (inOrder : InOrder sim) (flushed : (sim.streamInfo.info stream).buffered = [])
    (run : submitCalls env stream calls durs sim = .ok sim') :
    Extended sim (onStream stream (calls.map .torch)) sim' ∧
      ∀ other, (sim'.streamInfo.info other).buffered = (sim.streamInfo.info other).buffered := by
  induction calls generalizing sim durs with
  | nil =>
      simp only [submitCalls, Except.ok.injEq] at run
      subst run
      refine ⟨?_, fun _ => rfl⟩
      refine (Extended.of_enlarges inOrder (.refl _) rfl rfl).congr fun other => ?_
      simp [onStream]
  | cons call calls ih =>
      simp only [submitCalls, bind_eq_ok, Prod.exists] at run
      rcases run with ⟨duration, _, middle, id, submitted, rest⟩
      rcases submit_extended inOrder flushed submitted with ⟨first, kept, _⟩
      rcases ih first.inOrder (by rw [kept, flushed]) rest with ⟨later, kept'⟩
      refine ⟨(first.trans later).congr fun other => ?_, fun other =>
        (kept' other).trans (kept other)⟩
      by_cases same : other = stream
      · simp [onStream, same, streamOp]
      · simp [onStream, same]

theorem submitSeq_extended {stream : HostStream} {seq : TorchCallSeq} (inOrder : InOrder sim)
    (flushed : (sim.streamInfo.info stream).buffered = [])
    (run : submitSeq env stream sim seq = .ok sim') :
    Extended sim (onStream stream (seq.calls.map .torch)) sim' ∧
      ∀ other, (sim'.streamInfo.info other).buffered = (sim.streamInfo.info other).buffered := by
  cases seq with
  | single call duration => exact submitCalls_extended inOrder flushed run
  | seq calls =>
      have cached : InOrder { sim with
          torchEstimator := (sim.torchEstimator.estimateSequence env.profiler calls).1 } :=
        ⟨inOrder.created, inOrder.ascending, inOrder.chained, inOrder.listed⟩
      rcases submitCalls_extended cached flushed run with ⟨extended, kept⟩
      exact ⟨⟨extended.enlarges, extended.events, extended.ops, extended.keys, extended.idOfCuda,
        extended.inOrder⟩, kept⟩

/-- The buffered calls of a stream are taken out. -/
def takeBuffer (sim : Simulator) (stream : HostStream) : Simulator :=
  { sim with
    streamInfo := sim.streamInfo.modify stream fun sinfo => { sinfo with buffered := [] } }

theorem takeBuffer_info (sim : Simulator) (stream other : HostStream) :
    ((sim.takeBuffer stream).streamInfo.info other).events =
        (sim.streamInfo.info other).events ∧
      ((sim.takeBuffer stream).streamInfo.info other).buffered =
        if other = stream then [] else (sim.streamInfo.info other).buffered := by
  unfold takeBuffer
  dsimp only
  rw [info_modify]
  split
  · rename_i same
    exact same ▸ ⟨rfl, rfl⟩
  · exact ⟨rfl, rfl⟩

theorem InOrder.takeBuffer (inOrder : InOrder sim) (stream : HostStream) :
    InOrder (sim.takeBuffer stream) := by
  refine ⟨?_, ?_, ?_, ?_⟩
  · intro other e mem
    rw [(takeBuffer_info sim stream other).1] at mem
    exact inOrder.created mem
  · intro other
    rw [(takeBuffer_info sim stream other).1]
    exact inOrder.ascending other
  · intro other
    rw [(takeBuffer_info sim stream other).1]
    exact inOrder.chained other
  · intro other absent
    unfold Simulator.takeBuffer at absent ⊢
    rw [mem_keys_modify, not_or] at absent
    dsimp only
    rw [info_modify, if_neg absent.2]
    exact inOrder.listed absent.1

/-- Flushing turns the buffered calls into events, in their order. -/
theorem clearComputeBufferOn_extended {stream : HostStream} (inOrder : InOrder sim)
    (run : sim.clearComputeBufferOn env stream = .ok sim') :
    Extended sim (fun _ => []) sim' ∧ ∀ other, (sim'.streamInfo.info other).buffered =
      if other = stream then [] else (sim.streamInfo.info other).buffered := by
  let entries := (sim.streamInfo.info stream).buffered
  have submitted : Extended (sim.takeBuffer stream)
        (onStream stream (((splitSequences env.profiler entries).flatMap
          TorchCallSeq.calls).map .torch)) sim' ∧
      ∀ other, (sim'.streamInfo.info other).buffered =
        ((sim.takeBuffer stream).streamInfo.info other).buffered := by
    refine foldlM_prefix (fun done middle => Extended (sim.takeBuffer stream)
        (onStream stream ((done.flatMap TorchCallSeq.calls).map .torch)) middle ∧
      ∀ other, (middle.streamInfo.info other).buffered =
        ((sim.takeBuffer stream).streamInfo.info other).buffered) ?_ ?_ run
    · intro done seq rest first second earlier step _
      have flushed : (first.streamInfo.info stream).buffered = [] := by
        rw [earlier.2, (takeBuffer_info sim stream stream).2, if_pos rfl]
      rcases submitSeq_extended earlier.1.inOrder flushed step with ⟨later, kept⟩
      refine ⟨(earlier.1.trans later).congr fun other => ?_, ?_⟩
      · by_cases same : other = stream
        · simp [onStream, same]
        · simp [onStream, same]
      · exact fun other => (kept other).trans (earlier.2 other)
    · refine ⟨?_, fun _ => rfl⟩
      refine (Extended.of_enlarges (inOrder.takeBuffer stream) (.refl _) rfl rfl).congr ?_
      intro other
      simp [onStream]
  rw [splitSequences_calls] at submitted
  rcases submitted with ⟨extended, kept⟩
  refine ⟨⟨extended.enlarges, ?_, ?_, ?_, extended.idOfCuda, extended.inOrder⟩, ?_⟩
  · intro other
    rw [← (takeBuffer_info sim stream other).1]
    exact extended.events other
  · intro other
    rw [extended.ops other]
    by_cases same : other = stream
    · subst other
      simp only [opsOn, (takeBuffer_info sim stream stream).1,
        (takeBuffer_info sim stream stream).2, onStream, if_true, List.map_nil, List.append_nil,
        List.map_map]
      rfl
    · simp only [opsOn, (takeBuffer_info sim stream other).1,
        (takeBuffer_info sim stream other).2, onStream, same, if_false, List.map_nil,
        List.append_nil]
      rfl
  · exact fun mem => extended.keys (mem_keys_modify.mpr (Or.inl mem))
  · intro other
    rw [kept, (takeBuffer_info sim stream other).2]

/-- An operation is issued to a stream: the buffered calls come first. -/
theorem addEvent_extended {stream : HostStream} {dependsOn : List (Option EventId)}
    {action : Option Action} {time : ℤ} {id : EventId} (inOrder : InOrder sim)
    (run : sim.addEvent env stream dependsOn action time = .ok (sim', id)) :
    Extended sim (onStream stream [streamOp action time]) sim' ∧
      (sim'.streamInfo.info stream).buffered = [] ∧ sim'.lastEvent stream = some id ∧
      sim.queue.eventCounter ≤ id ∧ ∀ {d}, some d ∈ dependsOn → sim'.queue.Precedes d id := by
  simp only [addEvent, bind_eq_ok] at run
  rcases run with ⟨middle, cleared, submitted⟩
  rcases clearComputeBufferOn_extended inOrder cleared with ⟨first, emptied⟩
  rcases submit_extended first.inOrder (by rw [emptied, if_pos rfl]) submitted with
    ⟨later, kept, last, _, new, edges⟩
  refine ⟨first.after_nothing later, ?_, last, ?_, edges⟩
  · rw [kept, emptied, if_pos rfl]
  · exact first.enlarges.eventCounter.trans new

theorem addActionOrPoint_extended {dependsOn : List (Option EventId)} {action : Option Action}
    {time : ℤ} {id : EventId} (inOrder : InOrder sim)
    (run : sim.addActionOrPoint env dependsOn action time = .ok (sim', id)) :
    Extended sim (fun _ => []) sim' ∧ sim.queue.eventCounter ≤ id ∧
      ∀ {d}, some d ∈ dependsOn → sim'.queue.Precedes d id := by
  rcases addActionOrPoint_eq_ok run with ⟨queue, added, rfl⟩
  rcases EventQueue.addActionOrPoint_enlarges added with ⟨enlarges, rfl, _, _, edges⟩
  exact ⟨.of_enlarges inOrder enlarges rfl rfl, Nat.le_refl _, edges⟩

theorem addDependency_extended {id : EventId} {dep : Option EventId} (inOrder : InOrder sim)
    (run : sim.addDependency id dep = .ok sim') : Extended sim (fun _ => []) sim' := by
  rcases addDependency_eq_ok run with ⟨queue, added, rfl⟩
  exact .of_enlarges inOrder (EventQueue.addDependency_enlarges added).1 rfl rfl

theorem removeNoneDependency_extended {id : EventId} (inOrder : InOrder sim)
    (run : sim.removeNoneDependency env id = .ok sim') : Extended sim (fun _ => []) sim' := by
  rcases removeNoneDependency_eq_ok run with ⟨queue, removed, rfl⟩
  exact .of_enlarges inOrder (EventQueue.removeNoneDependency_enlarges removed) rfl rfl

theorem OnlyExecutes.extended {platform : Platform} (inOrder : InOrder sim)
    (executes : OnlyExecutes platform sim sim') : Extended sim (fun _ => []) sim' := by
  rcases executes with ⟨queue, _, _, _, _, evolves, _, rfl⟩
  exact .of_enlarges inOrder evolves.grows.enlarges rfl rfl

/-- Nothing but records that the streams do not depend on differs. -/
theorem Extended.of_same (inOrder : InOrder sim) (queue : sim'.queue = sim.queue)
    (streams : sim'.streamInfo = sim.streamInfo) (recorded : sim'.idOfCuda = sim.idOfCuda) :
    Extended sim (fun _ => []) sim' :=
  .of_enlarges inOrder (queue ▸ .refl _) streams recorded

theorem Extended.noted {ops : HostStream → List StreamOp} (extended : Extended sim ops sim')
    (occurrence : Occurrence) : Extended sim ops (sim'.note occurrence) :=
  extended.then_nothing (.of_same extended.inOrder rfl rfl rfl)

/-- Steps that issue nothing issue nothing together. -/
theorem Extended.foldlM {α σ : Type} {f : σ → α → Except Panic σ} {items : List α}
    (simOf : σ → Simulator)
    (step : ∀ {state item state'}, item ∈ items → InOrder (simOf state) →
      f state item = .ok state' → Extended (simOf state) (fun _ => []) (simOf state'))
    {state state' : σ} (inOrder : InOrder (simOf state)) (run : items.foldlM f state = .ok state') :
    Extended (simOf state) (fun _ => []) (simOf state') := by
  refine foldlM_invariant
    (fun middle => Extended (simOf state) (fun _ => []) (simOf middle)) ?_ ?_ run
  · intro first item second mem earlier taken
    exact earlier.then_nothing (step mem earlier.inOrder taken)
  · exact .of_same inOrder rfl rfl rfl

theorem addComputation_extended {host : HostId} {time duration : ℤ} {stream : CudaStream}
    {call : CudaCall} (inOrder : InOrder sim)
    (run : sim.addComputation env host time stream duration call = .ok sim') :
    Extended sim (onStream (host, stream) [.cuda call]) sim' := by
  simp only [addComputation, bind_eq_ok, pure_eq_ok, Prod.exists] at run
  rcases run with ⟨_, _, added, rfl⟩
  exact (addEvent_extended inOrder added).1

theorem cudaMemcpyAsync_extended {host : ResponseId} {time : ℤ} {size : ℕ}
    {kind : CudaMemcpyKind} {stream : CudaStream} {call : CudaCall} (inOrder : InOrder sim)
    (run : sim.cudaMemcpyAsync env host time size kind stream call = .ok sim') :
    Extended sim (onStream (host.host, stream) [.cuda call]) sim' := by
  have cached : Extended sim (fun _ => []) { sim with
      cudaEstimator := (sim.cudaEstimator.memcpy env.profiler kind size).1 } :=
    .of_same inOrder rfl rfl rfl
  exact cached.after_nothing (addComputation_extended cached.inOrder run)

theorem flashAttnCall_extended {host : ResponseId} {time : ℤ} {stream : CudaStream}
    {call : CudaCall} (inOrder : InOrder sim)
    (run : sim.flashAttnCall env host time stream call = .ok sim') :
    Extended sim (onStream (host.host, stream) [.cuda call]) sim' := by
  have counted : Extended sim (fun _ => []) { sim with
      cudaEstimator := (sim.cudaEstimator.flashAttn env.profiler call).1 } :=
    .of_same inOrder rfl rfl rfl
  exact counted.after_nothing (addComputation_extended counted.inOrder run)

/-- The streams visited so far are flushed and their last events collected, the
others are as they were. -/
structure Collected (sim : Simulator) (done : List HostStream)
    (acc : Simulator × List (Option EventId)) : Prop where
  extended : Extended sim (fun _ => []) acc.1
  visited : ∀ stream ∈ done, (acc.1.streamInfo.info stream).buffered = [] ∧
    ∀ last, acc.1.lastEvent stream = some last → some last ∈ acc.2
  others : ∀ stream ∉ done,
    (acc.1.streamInfo.info stream).events = (sim.streamInfo.info stream).events ∧
      (acc.1.streamInfo.info stream).buffered = (sim.streamInfo.info stream).buffered

theorem collectLast_collected {stream : HostStream} {done : List HostStream}
    {acc acc' : Simulator × List (Option EventId)} (collected : Collected sim done acc)
    (run : collectLast env acc stream = .ok acc') : Collected sim (done ++ [stream]) acc' := by
  simp only [collectLast, bind_eq_ok, pure_eq_ok] at run
  rcases run with ⟨flushed, cleared, rfl⟩
  rcases clearComputeBufferOn_extended collected.extended.inOrder cleared with ⟨later, buffers⟩
  have events : ∀ other, other ≠ stream → (flushed.streamInfo.info other).events =
      (acc.1.streamInfo.info other).events := by
    intro other differs
    exact later.events_eq rfl (by rw [buffers, if_neg differs])
  refine ⟨collected.extended.then_nothing later, ?_, ?_⟩
  · intro other mem
    by_cases same : other = stream
    · subst other
      refine ⟨by rw [buffers, if_pos rfl], ?_⟩
      intro last ends
      exact List.mem_append_right _ (by simp [ends])
    · have earlier := collected.visited other (by simpa [same] using mem)
      refine ⟨by rw [buffers, if_neg same, earlier.1], ?_⟩
      intro last ends
      refine List.mem_append_left _ (earlier.2 last ?_)
      rw [← ends, lastEvent, lastEvent, events other same]
  · intro other absent
    simp only [List.mem_append, List.mem_singleton, not_or] at absent
    have earlier := collected.others other absent.1
    refine ⟨(events other absent.2).trans earlier.1, ?_⟩
    rw [buffers, if_neg absent.2, earlier.2]

theorem collectLasts_collected {streams : List HostStream}
    {acc : Simulator × List (Option EventId)} (inOrder : InOrder sim)
    (run : streams.foldlM (collectLast env) (sim, []) = .ok acc) : Collected sim streams acc := by
  refine foldlM_prefix (Collected sim) ?_ ?_ run
  · intro done stream rest acc acc' earlier step _
    exact collectLast_collected earlier step
  · exact ⟨.of_same inOrder rfl rfl rfl, by simp, fun _ _ => ⟨rfl, rfl⟩⟩

/-- A device synchronize flushes the streams of the device and waits for their last events. -/
theorem cudaDeviceSynchronize_extended {host : ResponseId} {time device : ℤ}
    (inOrder : InOrder sim)
    (run : sim.cudaDeviceSynchronize env host time device = .ok sim') :
    Extended sim (fun _ => []) sim' ∧
      ∃ point, Occurrence.awaits host point time ∈ sim'.history ∧
        sim.queue.eventCounter ≤ point ∧
        ∀ stream : HostStream, stream.1 = host.host → stream.2.device = device →
          (sim'.streamInfo.info stream).buffered = [] ∧
          ∀ e ∈ (sim'.streamInfo.info stream).events, sim'.queue.Before e point := by
  simp only [cudaDeviceSynchronize, bind_eq_ok, pure_eq_ok, Prod.exists] at run
  rcases run with ⟨flushed, dependsOn, folded, added, point, submitted, final, _, executed, rfl⟩
  have collected := collectLasts_collected inOrder folded
  rcases addActionOrPoint_extended collected.extended.inOrder submitted with ⟨adds, new, edges⟩
  have executes := executeToEvent_onlyExecutes executed
  have waits : Extended added (fun _ => [])
      ((added.note (.awaits host point time)).awaitEvent host point) :=
    .of_same adds.inOrder rfl rfl rfl
  have runs := waits.then_nothing (executes.extended waits.inOrder)
  refine ⟨(collected.extended.then_nothing adds).then_nothing runs, point, ?_⟩
  rcases addActionOrPoint_eq_ok submitted with ⟨queue, _, rfl⟩
  rcases executes with ⟨queue', _, _, _, history, _, grown, rfl⟩
  refine ⟨grown.subset List.mem_cons_self, ?_, ?_⟩
  · exact collected.extended.enlarges.eventCounter.trans new
  · intro stream sameHost sameDevice
    by_cases listed : stream ∈ sim.streamInfo.keys
    · rcases collected.visited stream (by simp [listed, sameHost, sameDevice]) with
        ⟨emptied, lasts⟩
      refine ⟨emptied, ?_⟩
      intro e (mem : e ∈ (flushed.streamInfo.info stream).events)
      cases ends : (flushed.streamInfo.info stream).events.getLast? with
      | none =>
          rw [List.getLast?_eq_none_iff] at ends
          rw [ends] at mem
          exact absurd mem List.not_mem_nil
      | some last =>
          have edge := runs.enlarges.precedes (edges (lasts last ends))
          rcases collected.extended.inOrder.before_last mem ends with same | path
          · exact same ▸ .single edge
          · exact ((adds.then_nothing runs).enlarges.before path).tail edge
    · have blank := inOrder.listed listed
      rcases collected.others stream (by simp [listed]) with ⟨events, buffered⟩
      rw [blank] at events buffered
      refine ⟨buffered, ?_⟩
      intro e (mem : e ∈ (flushed.streamInfo.info stream).events)
      rw [events] at mem
      exact absurd mem List.not_mem_nil

theorem cudaStreamSynchronize_extended {host : ResponseId} {time : ℤ} {stream : CudaStream}
    (inOrder : InOrder sim)
    (run : sim.cudaStreamSynchronize env host time stream = .ok sim') :
    Extended sim (onStream (host.host, stream) [.point time]) sim' ∧
      ∃ point, Occurrence.awaits host point time ∈ sim'.history ∧
        sim.queue.eventCounter ≤ point ∧
        (sim'.streamInfo.info (host.host, stream)).buffered = [] ∧
        sim'.lastEvent (host.host, stream) = some point := by
  simp only [cudaStreamSynchronize, bind_eq_ok, pure_eq_ok, Prod.exists] at run
  rcases run with ⟨added, point, submitted, final, _, executed, rfl⟩
  rcases addEvent_extended inOrder submitted with ⟨first, flushed, last, new, _⟩
  have executes := executeToEvent_onlyExecutes executed
  have waits : Extended added (fun _ => [])
      ((added.note (.awaits host point time)).awaitEvent host point) :=
    .of_same first.inOrder rfl rfl rfl
  refine ⟨first.then_nothing (waits.then_nothing (executes.extended waits.inOrder)), point, ?_⟩
  rcases executes with ⟨queue, _, _, _, history, _, grown, rfl⟩
  exact ⟨grown.subset List.mem_cons_self, new, flushed, last⟩

end Simulator

end Phantora
