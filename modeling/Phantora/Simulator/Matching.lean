import Phantora.Simulator.CollectiveRuns
import Phantora.Simulator.StreamRuns

/-!
# Calls, instances and streams

Each collective call leaves two points on the stream that it names, one right
after the other, behind all that was asked of the stream before. The flows of an
instance are those that its first call computed from the ranks that the server
had for the communicator at that moment.
-/

namespace Phantora

open Outcome

namespace Simulator

variable {env : Environment} {sim sim' : Simulator} {op : Collective} {id : NcclId}
  {messages : List Message} {message : Message}

/-- The points of a rank are events of the stream, one right after the other, and close the
operations on the stream. -/
def Inserted (sim : Simulator) (stream : HostStream) (ops : List StreamOp) (join : Join) : Prop :=
  ∃ earlier, earlier ++ [join.streamStart, join.streamEnd] <+: (sim.streamInfo.info stream).events ∧
    (earlier ++ [join.streamStart, join.streamEnd]).map sim.opOf = ops.map some

/-- The first call that joins an instance, in the state in which it is handled, computes the flows
of the instance from the ranks of the communicator. -/
def Opens (env : Environment) (op : Collective) (id : NcclId) (messages : List Message)
    (sim : Simulator) (barrier : EventId) (trace : Trace) : Prop :=
  ∃ before host time call after state ranks,
    messages = before ++ .cuda ⟨host, time, call⟩ :: after ∧ Reached env before state ∧
      (.cuda ⟨host, time, call⟩ :: after).foldlM (handle env) state = .ok sim ∧
      (call.caller? op id).isSome ∧
      (sim.joins op id).findIdx? (fun join => join.barrier = barrier) =
        some (callers op id before).length ∧
      state.commGroups id = some ranks ∧ call.traceOf ranks state.nextFlowId = .ok trace

section Streams

variable {host : HostId} {time : ℤ} {comm : NcclComm} {stream : CudaStream} {waiting : CCWaiting}

/-- The last events of the stream are the points of a rank, and no call is buffered. -/
def Closes (sim : Simulator) (stream : HostStream) (join : Join) : Prop :=
  (∃ earlier, (sim.streamInfo.info stream).events =
      earlier ++ [join.streamStart, join.streamEnd]) ∧
    (sim.streamInfo.info stream).buffered = []

theorem Inserted.mono {ops : HostStream → List StreamOp} {asked : List StreamOp} {join : Join}
    {key : HostStream} (inserted : Inserted sim key asked join) (inOrder : InOrder sim)
    (extended : Extended sim ops sim') : Inserted sim' key asked join := by
  rcases inserted with ⟨earlier, isPrefix, same⟩
  rcases extended.prefix_ops inOrder isPrefix with ⟨isPrefix', same'⟩
  exact ⟨earlier, isPrefix', same'.trans same⟩

theorem Closes.inserted {join : Join} {key : HostStream} {ops : List StreamOp}
    (closes : Closes sim key join) (asked : sim.opsOn key = ops.map some) :
    Inserted sim key ops join := by
  rcases closes with ⟨⟨earlier, events⟩, flushed⟩
  refine ⟨earlier, events ▸ List.prefix_rfl, ?_⟩
  rw [opsOn, flushed, List.map_nil, List.append_nil] at asked
  rw [← events]
  exact asked

/-- Two points that are put on a stream with nothing between them. -/
theorem addEvent_pair {key : HostStream} {middle final : Simulator} {first second : EventId}
    {dependsOn dependsOn' : List (Option EventId)} {after : Simulator} (inOrder : InOrder sim)
    (start : sim.addEvent env key dependsOn none time = .ok (middle, first))
    (streams : after.streamInfo = middle.streamInfo) (inOrder' : InOrder after)
    (finish : after.addEvent env key dependsOn' none time = .ok (final, second)) :
    (∃ earlier, (final.streamInfo.info key).events = earlier ++ [first, second]) ∧
      (final.streamInfo.info key).buffered = [] := by
  rcases addEvent_extended inOrder start with ⟨_, flushed, last, _⟩
  rcases addEvent_extended inOrder' finish with ⟨later, flushed', last', _⟩
  rw [lastEvent, ← streams] at last
  rw [← streams] at flushed
  rcases List.getLast?_eq_some_iff.mp last with ⟨earlier, events⟩
  rcases List.getLast?_eq_some_iff.mp last' with ⟨all, events'⟩
  have lengths := congrArg List.length (later.ops key)
  simp only [opsOn, flushed, flushed', events, events', onStream, if_true, List.map_nil,
    List.append_nil, List.length_append, List.length_map, List.length_singleton] at lengths
  have isPrefix : earlier ++ [first] <+: all := by
    have grown := later.events key
    rw [events, events'] at grown
    rcases List.prefix_concat_iff.mp grown with same | shorter
    · have equal := congrArg List.length same
      simp only [List.length_append, List.length_singleton] at equal
      omega
    · exact shorter
  have whole : earlier ++ [first] = all :=
    isPrefix.eq_of_length (by rw [List.length_append, List.length_singleton]; omega)
  refine ⟨⟨earlier, ?_⟩, flushed'⟩
  rw [events', ← whole, List.append_assoc]
  rfl

/-- The first rank of an instance puts its points on its stream. -/
theorem newCCWaiting_closes {ranks : Ranks} {trace : Trace} (inOrder : InOrder sim)
    (run : sim.newCCWaiting env op ranks host time trace comm stream = .ok (sim', waiting)) :
    ∃ join, join.barrier = waiting.commBarrier ∧ join.rank = comm.rank ∧
      sim'.joins op comm.id = sim.joins op comm.id ++ [join] ∧
      Closes sim' (host, stream) join := by
  simp only [newCCWaiting, bind_eq_ok, pure_eq_ok, Prod.exists, Prod.mk.injEq] at run
  rcases run with ⟨first, barrier, addBarrier, second, streamStart, addStart, third, startMeta,
    addStartMeta, fourth, endMeta, addEndMeta, fifth, streamEnd, addEnd, rfl, rfl⟩
  have blocks := (addActionOrPoint_extended inOrder addBarrier).1
  have starts := (addEvent_extended blocks.inOrder addStart).1
  have metas := (addActionOrPoint_extended starts.inOrder addStartMeta).1
  have metas' := (addActionOrPoint_extended metas.inOrder addEndMeta).1
  have streams : fourth.streamInfo = second.streamInfo := by
    rcases addActionOrPoint_eq_ok addStartMeta with ⟨_, _, rfl⟩
    rcases addActionOrPoint_eq_ok addEndMeta with ⟨_, _, rfl⟩
    rfl
  have aside := ((((addActionOrPoint_aside rfl addBarrier).1.trans
    (addEvent_aside rfl addStart).1).trans (addActionOrPoint_aside rfl addStartMeta).1).trans
      (addActionOrPoint_aside rfl addEndMeta).1).trans (addEvent_aside rfl addEnd).1
  refine ⟨⟨barrier, comm.rank, streamStart, streamEnd⟩, rfl, rfl, ?_, ?_⟩
  · rw [joins_note, joins_of_adds aside]
    simp [Occurrence.join?]
  · have closes := addEvent_pair blocks.inOrder addStart streams metas'.inOrder addEnd
    exact closes

/-- A later rank of an instance puts its points on its stream. -/
theorem joinStream_closes (inOrder : InOrder sim)
    (run : sim.joinStream env op host time comm stream waiting = .ok sim') :
    ∃ join, join.barrier = waiting.commBarrier ∧ join.rank = comm.rank ∧
      sim'.joins op comm.id = sim.joins op comm.id ++ [join] ∧
      Closes sim' (host, stream) join := by
  simp only [joinStream, bind_eq_ok, pure_eq_ok, Prod.exists] at run
  rcases run with ⟨first, streamStart, addStart, second, wait, third, streamEnd, addEnd, rfl⟩
  have starts := (addEvent_extended inOrder addStart).1
  have waits := addDependency_extended starts.inOrder wait
  have streams : second.streamInfo = first.streamInfo := by
    rcases addDependency_eq_ok wait with ⟨_, _, rfl⟩
    rfl
  have aside := ((addEvent_aside rfl addStart).1.trans (addDependency_aside wait).1).trans
    (addEvent_aside rfl addEnd).1
  refine ⟨⟨waiting.commBarrier, comm.rank, streamStart, streamEnd⟩, rfl, rfl, ?_, ?_⟩
  · rw [joins_note, joins_of_adds aside]
    simp [Occurrence.join?]
  · have closes := addEvent_pair inOrder addStart streams waits.inOrder addEnd
    exact closes

/-- A collective call puts its points on its stream and joins with them. -/
theorem ncclCall_joins {ranks : Ranks} {trace : Trace} {call : CudaCall} (inOrder : InOrder sim)
    (run : sim.ncclCall env op ranks host time trace comm stream call = .ok sim') :
    ∃ join joined, join.rank = comm.rank ∧
      sim'.joins op comm.id = sim.joins op comm.id ++ [join] ∧
      Extended sim (onStream (host, stream) [.point time, .point time]) joined ∧
      Closes joined (host, stream) join ∧ Extended joined (fun _ => []) sim' := by
  rcases ncclCall_cases run with ⟨middle, waiting, _, created, rfl⟩ |
    ⟨idx, waiting, middle, _, _, joined, rest⟩
  · have creates := newCCWaiting_extended inOrder created
    rcases newCCWaiting_closes inOrder created with ⟨join, _, rank, joins, closes⟩
    exact ⟨join, middle, rank, joins, creates, closes, .of_same creates.inOrder rfl rfl rfl⟩
  · have grows := joinStream_extended inOrder joined
    rcases joinStream_closes inOrder joined with ⟨join, _, rank, joins, closes⟩
    rcases rest with ⟨_, rfl⟩ | ⟨_, completed⟩
    · exact ⟨join, middle, rank, joins, grows, closes, .of_same grows.inOrder rfl rfl rfl⟩
    · have sets : Extended middle (fun _ => [])
          (middle.setCCWaiting op comm.id ((sim.waitings op comm.id).eraseIdx idx)) :=
        .of_same grows.inOrder rfl rfl rfl
      have completes := completeCC_extended sets.inOrder completed
      refine ⟨join, middle, rank, ?_, grows, closes, sets.then_nothing completes⟩
      rcases completeCC_eq_ok completed with ⟨_, _, adds, _, _, _, rfl⟩
      rw [joins_note, joins_of_adds adds]
      simpa [Occurrence.join?] using joins

end Streams

theorem issued_of_collectiveStream {host : ResponseId} {time : ℤ} {call : CudaCall}
    {stream : CudaStream} (isStream : call.collectiveStream = some stream) :
    (Message.cuda ⟨host, time, call⟩).issued =
      onStream (host.host, stream) [.point time, .point time] := by
  cases call <;> cases isStream <;> rfl

/-- Each call of the collective has joined with two points on its stream. -/
def PointsInserted (op : Collective) (id : NcclId) (messages : List Message) (sim : Simulator) :
    Prop :=
  ∀ before host time call after rank stream,
    messages = before ++ .cuda ⟨host, time, call⟩ :: after → call.caller? op id = some rank →
      call.collectiveStream = some stream →
      ∃ join, (sim.joins op id)[(callers op id before).length]? = some join ∧ join.rank = rank ∧
        Inserted sim (host.host, stream)
          (issuedTo (host.host, stream) (before ++ [.cuda ⟨host, time, call⟩])) join

/-- The flows of every instance, complete or not, are those of its first call. -/
structure Traced (env : Environment) (op : Collective) (id : NcclId) (messages : List Message)
    (sim : Simulator) : Prop where
  waiting : ∀ w ∈ sim.waitings op id, Opens env op id messages sim w.commBarrier w.trace
  complete : ∀ completion ∈ sim.completions op id, ∃ trace info,
    Opens env op id messages sim completion.barrier trace ∧
      completion.flows.length = trace.length ∧
      ∀ record ∈ instanceRecords info completion.flows trace, record ∈ sim.queue.flowRecords

theorem Opens.mono {barrier : EventId} {trace : Trace}
    (opens : Opens env op id messages sim barrier trace) (run : sim.handle env message = .ok sim')
    (joins : sim.joins op id <+: sim'.joins op id) :
    Opens env op id (messages ++ [message]) sim' barrier trace := by
  rcases opens with ⟨before, host, time, call, after, state, ranks, split, reached, ran, caller,
    first, known⟩
  refine ⟨before, host, time, call, after ++ [message], state, ranks, ?_, reached, ?_, caller, ?_,
    known⟩
  · rw [split, List.append_assoc]
    rfl
  · rw [← List.cons_append, List.foldlM_append, ran]
    simpa using run
  · rcases joins with ⟨rest, same⟩
    rw [← same, List.findIdx?_append, first]
    rfl

/-- The call that is handled opens an instance that no rank has joined. -/
theorem opens_now {n : ℕ} {host : ResponseId} {time : ℤ} {call : CudaCall} {join : Join}
    {ranks : Ranks} {trace : Trace} (conducted : Conducted op id n messages sim)
    (reached : Reached env messages sim)
    (run : sim.handle env (.cuda ⟨host, time, call⟩) = .ok sim')
    (caller : (call.caller? op id).isSome) (joins : sim'.joins op id = sim.joins op id ++ [join])
    (new : sim.queue.eventCounter ≤ join.barrier) (known : sim.commGroups id = some ranks)
    (computed : call.traceOf ranks sim.nextFlowId = .ok trace) :
    Opens env op id (messages ++ [.cuda ⟨host, time, call⟩]) sim' join.barrier trace := by
  refine ⟨messages, host, time, call, [], sim, ranks, rfl, reached, ?_, caller, ?_, known, computed⟩
  · simpa using run
  · have fresh : (sim.joins op id).findIdx? (fun other => other.barrier = join.barrier) = none := by
      refine List.findIdx?_eq_none_iff.mpr fun other mem => ?_
      have old := conducted.issued _ (conducted.mem_instances mem)
      simpa using (old.trans_le new).ne
    have length := congrArg List.length conducted.joined
    rw [List.length_map] at length
    rw [joins, List.findIdx?_append, fresh, ← length]
    simp

/-- What a collective call makes of the instances: those that wait have waited with the same flows
or are opened with those of the call, and what completes has waited and gets its flows. -/
theorem ncclCall_instances {ranks : Ranks} {host : HostId} {time : ℤ} {trace : Trace}
    {comm : NcclComm} {stream : CudaStream} {call : CudaCall}
    (run : sim.ncclCall env op ranks host time trace comm stream call = .ok sim') :
    ∃ join, sim'.joins op comm.id = sim.joins op comm.id ++ [join] ∧
      sim.queue.flowRecords ⊆ sim'.queue.flowRecords ∧
      (∀ w ∈ sim'.waitings op comm.id,
        (∃ v ∈ sim.waitings op comm.id, v.commBarrier = w.commBarrier ∧ v.trace = w.trace) ∨
          w.commBarrier = join.barrier ∧ w.trace = trace ∧
            sim.queue.eventCounter ≤ join.barrier) ∧
      ∀ completion ∈ sim'.completions op comm.id, completion ∈ sim.completions op comm.id ∨
        ∃ v ∈ sim.waitings op comm.id, v.commBarrier = completion.barrier ∧
          completion.flows.length = v.trace.length ∧
          instanceRecords call completion.flows v.trace ⊆ sim'.queue.flowRecords := by
  rcases ncclCall_cases run with ⟨middle, waiting, _, created, rfl⟩ |
    ⟨idx, waiting, middle, _, here, joined, rest⟩
  · rcases newCCWaiting_eq_ok created with ⟨before, streamStart, streamEnd, aside, rfl, ⟨new, _⟩, _,
      isTrace, _⟩
    refine ⟨⟨waiting.commBarrier, comm.rank, streamStart, streamEnd⟩, ?_, ?_, ?_, ?_⟩
    · rw [joins_setCCWaiting, joins_note, joins_of_adds aside]
      simp [Occurrence.join?]
    · exact fun record mem => aside.flowRecords ▸ List.mem_append_left _ mem
    · intro w mem
      rw [waitings_setCCWaiting, if_pos ⟨rfl, rfl⟩] at mem
      rcases List.mem_append.mp mem with old | isNew
      · exact .inl ⟨w, old, rfl, rfl⟩
      · rcases List.mem_singleton.mp isNew
        exact .inr ⟨rfl, isTrace, new⟩
    · intro completion mem
      rw [completions_setCCWaiting, completions_note, completions_of_adds aside] at mem
      exact .inl (by simpa [Occurrence.completion?] using mem)
  · rcases joinStream_eq_ok joined with ⟨before, streamStart, streamEnd, aside, rfl, _⟩
    have waits : waiting ∈ sim.waitings op comm.id := List.mem_of_getElem? here
    have flows : sim.queue.flowRecords ⊆ before.queue.flowRecords :=
      fun record mem => aside.flowRecords ▸ List.mem_append_left _ mem
    rcases rest with ⟨_, rfl⟩ | ⟨_, completed⟩
    · refine ⟨⟨waiting.commBarrier, comm.rank, streamStart, streamEnd⟩, ?_, flows, ?_, ?_⟩
      · rw [joins_setCCWaiting, joins_note, joins_of_adds aside]
        simp [Occurrence.join?]
      · intro w mem
        rw [waitings_setCCWaiting, if_pos ⟨rfl, rfl⟩] at mem
        rcases List.mem_or_eq_of_mem_set mem with old | rfl
        · exact .inl ⟨w, old, rfl, rfl⟩
        · exact .inl ⟨waiting, waits, rfl, rfl⟩
      · intro completion mem
        rw [completions_setCCWaiting, completions_note, completions_of_adds aside] at mem
        exact .inl (by simpa [Occurrence.completion?] using mem)
    · rcases completeCC_eq_ok completed with ⟨after, created, adds, length, _, _, rfl⟩
      refine ⟨⟨waiting.commBarrier, comm.rank, streamStart, streamEnd⟩, ?_, ?_, ?_, ?_⟩
      · rw [joins_note, joins_of_adds adds, joins_setCCWaiting, joins_note, joins_of_adds aside]
        simp [Occurrence.join?]
      · exact fun record mem => adds.flowRecords ▸ List.mem_append_left _ (flows mem)
      · intro w mem
        rw [Simulator.waitings, note, adds.ccWaiting] at mem
        have mem : w ∈ ((before.note _).setCCWaiting op comm.id _).waitings op comm.id := mem
        rw [waitings_setCCWaiting, if_pos ⟨rfl, rfl⟩] at mem
        exact .inl ⟨w, List.mem_of_mem_eraseIdx mem, rfl, rfl⟩
      · intro completion mem
        rw [completions_note, completions_of_adds adds, completions_setCCWaiting, completions_note,
          completions_of_adds aside] at mem
        have cases : completion ∈ sim.completions op comm.id ∨
            completion = ⟨waiting.commBarrier, created⟩ := by
          simpa [Occurrence.completion?] using mem
        rcases cases with old | rfl
        · exact .inl old
        · exact .inr ⟨waiting, waits, rfl, length,
            fun record mem => adds.flowRecords ▸ List.mem_append_right _ mem⟩

/-- No rank leaves an instance. -/
theorem joins_isPrefix (run : sim.handle env message = .ok sim') :
    sim.joins op id <+: sim'.joins op id := by
  simp only [handle, bind_eq_ok, pure_eq_ok] at run
  rcases run with ⟨final, dispatched, rfl⟩
  cases caller : message.caller? op id with
  | none =>
      have apart := dispatch_apart caller dispatched
      exact apart.joins ▸ List.prefix_rfl
  | some rank =>
      rcases Message.caller?_eq_some caller with ⟨comm, collective, rfl, rfl⟩
      rcases dispatch_collective collective dispatched with
        ⟨middle, _, _, _, _, _, _, rfl, _, _, _, ⟨_, _, aside⟩, called⟩
      rcases ncclCall_instances called with ⟨join, joins, _⟩
      rw [joins_of_adds aside] at joins
      exact joins ▸ List.prefix_append _ _

namespace Traced

theorem start (initial : Initial sim) : Traced env op id [] sim := by
  rcases initial with ⟨cluster, setting, hostMapping, rfl⟩
  exact ⟨fun _ mem => absurd mem List.not_mem_nil, fun _ mem => absurd mem List.not_mem_nil⟩

theorem step {n : ℕ} (traced : Traced env op id messages sim)
    (conducted : Conducted op id n messages sim) (reached : Reached env messages sim)
    (run : sim.handle env message = .ok sim') :
    Traced env op id (messages ++ [message]) sim' := by
  have taken := run
  simp only [handle, bind_eq_ok, pure_eq_ok] at taken
  rcases taken with ⟨final, dispatched, rfl⟩
  cases caller : message.caller? op id with
  | none =>
      have apart := dispatch_apart caller dispatched
      rcases apart.logs.flowRecords with ⟨records, flows, _⟩
      refine ⟨fun w mem => ?_, fun completion mem => ?_⟩
      · have mem : w ∈ final.waitings op id := mem
        rw [apart.waitings] at mem
        exact (traced.waiting w mem).mono run (joins_isPrefix run)
      · have mem : completion ∈ final.completions op id := mem
        rw [apart.completions] at mem
        rcases traced.complete completion mem with ⟨trace, info, opens, length, recorded⟩
        refine ⟨trace, info, opens.mono run (joins_isPrefix run), length,
          fun record inRecords => ?_⟩
        have grown : record ∈ final.queue.flowRecords :=
          flows ▸ List.mem_append_left _ (recorded record inRecords)
        exact grown
  | some rank =>
      rcases Message.caller?_eq_some caller with ⟨comm, collective, rfl, rfl⟩
      rcases dispatch_collective collective dispatched with
        ⟨middle, host, time, call, stream, ranks, trace, rfl, _, _, ⟨known, computed⟩,
          ⟨queue, _, aside⟩, called⟩
      have apart : Apart op comm.id sim middle := .of_aside aside
      rcases ncclCall_instances called with ⟨join, joins, flows, waitings, completions⟩
      rw [apart.joins] at joins
      rw [queue] at flows
      rw [apart.waitings, queue] at waitings
      rw [apart.completions, apart.waitings] at completions
      refine ⟨fun w mem => ?_, fun completion mem => ?_⟩
      · rcases waitings w mem with ⟨v, old, barrier, same⟩ | ⟨barrier, isTrace, new⟩
        · exact barrier ▸ same ▸ (traced.waiting v old).mono run (joins_isPrefix run)
        · rw [barrier, isTrace]
          exact opens_now conducted reached run (Option.isSome_iff_exists.mpr ⟨_, caller⟩) joins new
            known computed
      · rcases completions completion mem with old | ⟨v, waits, barrier, length, recorded⟩
        · rcases traced.complete completion old with ⟨trace, info, opens, length, recorded⟩
          exact ⟨trace, info, opens.mono run (joins_isPrefix run), length,
            fun record inRecords => flows (recorded record inRecords)⟩
        · have opens := (traced.waiting v waits).mono run (joins_isPrefix run)
          exact ⟨v.trace, call, barrier ▸ opens, length, fun record inRecords => recorded inRecords⟩

end Traced

namespace PointsInserted

theorem start (op : Collective) (id : NcclId) (sim : Simulator) : PointsInserted op id [] sim := by
  intro before host time call after rank stream split
  simp at split

/-- The points of the call that is handled. -/
theorem now {n : ℕ} {host : ResponseId} {time : ℤ} {call : CudaCall} {rank : ℤ}
    {stream : CudaStream} (conducted : Conducted op id n messages sim)
    (ordered : Ordered messages sim) (run : sim.handle env (.cuda ⟨host, time, call⟩) = .ok sim')
    (caller : call.caller? op id = some rank) (isStream : call.collectiveStream = some stream) :
    ∃ join, (sim'.joins op id)[(callers op id messages).length]? = some join ∧ join.rank = rank ∧
      Inserted sim' (host.host, stream)
        (issuedTo (host.host, stream) (messages ++ [.cuda ⟨host, time, call⟩])) join := by
  have length : (sim.joins op id).length = (callers op id messages).length := by
    rw [← conducted.joined, List.length_map]
  simp only [handle, bind_eq_ok, pure_eq_ok] at run
  rcases run with ⟨final, dispatched, rfl⟩
  have calls : (Message.cuda ⟨host, time, call⟩).caller? op id = some rank := caller
  rcases Message.caller?_eq_some calls with ⟨comm, collective, rfl, rfl⟩
  rcases dispatch_collective collective dispatched with ⟨middle, host', time', call', stream', _, _,
    same, _, isStream', _, ⟨queue, streams, aside⟩, called⟩
  cases same
  cases isStream.symm.trans isStream'
  have inOrder : InOrder middle := by
    refine ⟨?_, ?_, ?_, ?_⟩
    · rw [queue, streams]
      exact ordered.inOrder.created
    · rw [streams]
      exact ordered.inOrder.ascending
    · rw [queue, streams]
      exact ordered.inOrder.chained
    · rw [streams]
      exact ordered.inOrder.listed
  have asked : middle.opsOn (host.host, stream) =
      (issuedTo (host.host, stream) messages).map some := by
    rw [← ordered.ops]
    unfold opsOn opOf
    rw [queue, streams]
  rcases ncclCall_joins inOrder called with ⟨join, joined, rank, joins, points, closes, rest⟩
  rw [joins_of_adds aside] at joins
  refine ⟨join, ?_, rank, ?_⟩
  · have here : (final.joins op comm.id)[(callers op comm.id messages).length]? = some join := by
      rw [joins, ← length, List.getElem?_concat_length]
    exact here
  · have whole : joined.opsOn (host.host, stream) = (issuedTo (host.host, stream)
        (messages ++ [.cuda ⟨host, time, call⟩])).map some := by
      rw [points.ops, asked, issuedTo, issuedTo, List.flatMap_append, List.flatMap_singleton,
        issued_of_collectiveStream isStream, List.map_append]
    have inserted := (closes.inserted whole).mono points.inOrder rest
    exact inserted

theorem step {n : ℕ} (inserted : PointsInserted op id messages sim)
    (conducted : Conducted op id n messages sim) (ordered : Ordered messages sim)
    (run : sim.handle env message = .ok sim') :
    PointsInserted op id (messages ++ [message]) sim' := by
  intro before host time call after rank stream split caller isStream
  rcases after.eq_nil_or_concat with rfl | ⟨after, last, rfl⟩
  · rcases List.append_inj' split rfl with ⟨rfl, same⟩
    cases same
    exact now conducted ordered run caller isStream
  · have split' : messages ++ [message] =
        (before ++ .cuda ⟨host, time, call⟩ :: after) ++ [last] := by
      simpa using split
    rcases List.append_inj' split' rfl with ⟨rfl, _⟩
    rcases inserted before host time call after rank stream rfl caller isStream with
      ⟨join, here, isRank, points⟩
    have stays : (sim'.joins op id)[(callers op id before).length]? = some join := by
      rcases joins_isPrefix run with ⟨rest, same⟩
      rw [← same, List.getElem?_append_left (List.getElem?_eq_some_iff.mp here).1]
      exact here
    rcases handle_extended ordered.inOrder run with ⟨middle, idOfCuda, grows, _, rfl⟩
    have kept := points.mono ordered.inOrder grows
    exact ⟨join, stays, isRank, kept⟩

end PointsInserted

/-- What each rank calls as its `k`-th collective is the instance `k`. -/
structure Matched (env : Environment) (op : Collective) (id : NcclId) (n : ℕ)
    (messages : List Message) (sim : Simulator) : Prop where
  /-- Every call joins an instance. -/
  joined : (sim.joins op id).map Join.rank = callers op id messages
  distinct : (sim.instances op id).Nodup
  /-- The `k`-th call of each rank joins the instance `k`. -/
  inOrder : ∀ rank, ((sim.joins op id).filter fun join => join.rank = rank).map Join.barrier =
    (sim.instances op id).take ((callers op id messages).count rank)
  /-- An instance is complete once all ranks have joined it. -/
  complete_iff : ∀ k, k < (sim.completions op id).length ↔
    ∀ rank ∈ allRanks n, k < (callers op id messages).count rank
  inTurn : (sim.completions op id).map Completion.barrier <+: sim.instances op id
  /-- The flows are those of the complete instances, and each is created once. -/
  created : (sim.queue.collectiveFlows op id).map Prod.fst =
    (sim.completions op id).flatMap Completion.flows
  once : ((sim.queue.collectiveFlows op id).map Prod.fst).Nodup
  /-- They are the flows that the first call of the instance computed. -/
  realized : ∀ completion ∈ sim.completions op id, ∃ trace info,
    Opens env op id messages sim completion.barrier trace ∧
      completion.flows.length = trace.length ∧
      ∀ record ∈ instanceRecords info completion.flows trace, record ∈ sim.queue.flowRecords
  /-- The points of each call are on its stream. -/
  inserted : PointsInserted op id messages sim
  /-- Each flow is between the points of each rank. -/
  wired : ∀ completion ∈ sim.completions op id, ∀ join ∈ sim.joins op id,
    join.barrier = completion.barrier → ∀ flow ∈ completion.flows,
      sim.queue.Before join.streamStart flow ∧ sim.queue.Before flow join.streamEnd

/-- In every state reached, the flows of the instances and the points of the calls are known. -/
theorem traced_of_reached {n : ℕ} (several : 2 ≤ n)
    (reached : Runs.Reached Initial (RankedStep env op id n) messages sim) :
    Traced env op id messages sim ∧ PointsInserted op id messages sim := by
  induction reached with
  | start initial => exact ⟨.start initial, .start op id _⟩
  | step before taken ih =>
      have conducted := conducted_of_reached several before
      have reached : Reached env _ _ := before.mono And.left
      exact ⟨ih.1.step conducted reached taken.1,
        ih.2.step conducted (ordered_of_reached reached) taken.1⟩

/-- In every state reached, the collective calls of the ranks are matched. -/
theorem collectives_match {n : ℕ} {messages : List Message} (several : 2 ≤ n)
    (reached : Runs.Reached Initial (RankedStep env op id n) messages sim) :
    Matched env op id n messages sim := by
  have conducted := conducted_of_reached several reached
  rcases traced_of_reached several reached with ⟨traced, inserted⟩
  refine ⟨conducted.joined, conducted.ascending.imp Nat.ne_of_lt, conducted.inOrder, ?_,
    List.prefix_append _ _, conducted.created, ?_, traced.complete, inserted, conducted.wired⟩
  · intro k
    rw [← conducted.progress.complete_iff, Finset.ext_iff]
    simp only [Rounds.mem_members, and_iff_left_iff_imp]
  · rw [conducted.created]
    exact conducted.flowOrder.imp Nat.ne_of_lt

/-- Handle a message of the ranks of a communicator. -/
def handleRanked (env : Environment) (op : Collective) (id : NcclId) (n : ℕ) (sim : Simulator)
    (message : Message) : Except Panic Simulator := do
  assert (∀ rank ∈ message.caller? op id, rank ∈ allRanks n) .missingRank
  assert (∀ ranks ∈ sim.commGroups id, ranks.length = n) .missingRank
  sim.handle env message

/-- The left rank reduces twice before the right rank does so once. -/
def leftAhead : List Message :=
  [.cuda ⟨leftThread 0, 0, .ncclCommInitRank 0 0 2 firstId⟩,
    .cuda ⟨rightThread 0, 0, .ncclCommInitRank 0 1 2 firstId⟩,
    .cuda ⟨leftThread 0, 0, .ncclAllReduce 8 .u8 .sum ⟨0, firstId⟩ ⟨0, 0⟩⟩,
    .cuda ⟨leftThread 0, 0, .ncclAllReduce 8 .u8 .sum ⟨0, firstId⟩ ⟨0, 0⟩⟩,
    .cuda ⟨rightThread 0, 0, .ncclAllReduce 8 .u8 .sum ⟨1, firstId⟩ ⟨0, 0⟩⟩]

theorem collectives_match_leftAhead : ∃ sim,
    (sim.joins .allreduce firstId).map (fun join => (join.rank, join.barrier)) =
        [(0, 0), (0, 5), (1, 0)] ∧
      (sim.completions .allreduce firstId).map Completion.flows = [[12, 13]] ∧
      Matched (.plain 20) .allreduce firstId 2 leftAhead sim := by
  have read : (leftAhead.foldlM (handleRanked (.plain 20) .allreduce firstId 2) pair).toOption.map
      (fun sim => ((sim.joins .allreduce firstId).map fun join => (join.rank, join.barrier),
        (sim.completions .allreduce firstId).map Completion.flows)) =
      some ([(0, 0), (0, 5), (1, 0)], [[12, 13]]) := by
    decide +kernel
  rcases exists_ok_of_reading read with ⟨sim, run, reading⟩
  have reached :
      Runs.Reached Initial (RankedStep (.plain 20) .allreduce firstId 2) leftAhead sim := by
    refine Runs.reached_of_foldlM (fun taken => ?_) initial_pair run
    simp only [handleRanked, bind_eq_ok, assert_eq_ok] at taken
    rcases taken with ⟨_, ranked, _, sized, handled⟩
    exact ⟨handled, ranked, sized⟩
  rw [Prod.mk.injEq] at reading
  exact ⟨sim, reading.1, reading.2, collectives_match le_rfl reached⟩

end Simulator

end Phantora
