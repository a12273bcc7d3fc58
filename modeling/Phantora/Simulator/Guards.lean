import Phantora.Simulator.CollectiveRuns
import Phantora.Simulator.Gates
import Phantora.Simulator.PointToPoint
import Phantora.Simulator.SyncTimes

/-!
# Nothing that waits for its peers is released

The points of a collective that lacks ranks and those of an unmatched call come after its
barrier. As long as the barrier is held they are pending, and more may be added to what
they wait for.
-/

namespace Phantora

open Outcome

namespace EventQueue

variable {queue queue' : EventQueue} {d e : EventId}

/-- What comes after a pending event is pending. -/
theorem Tracked.pending_of_precedes (tracked : Tracked queue) (waiting : queue.pending d ≠ none)
    (edge : queue.Precedes d e) : queue.pending e ≠ none := by
  rcases tracked.waits.waits edge (tracked.pending_only waiting).2.2 with ⟨p, known, _⟩
  rw [known]
  exact Option.some_ne_none p

theorem Barred.pending (barred : queue.Barred e) : queue.pending e ≠ none := by
  rcases barred with ⟨p, known, _⟩
  rw [known]
  exact Option.some_ne_none p

/-- A dependency can be added to a pending event. -/
theorem addDependency_of_pending (waiting : queue.pending e ≠ none) (dep : Option EventId) :
    ∃ queue', queue.addDependency e dep = .ok queue' := by
  rcases Option.ne_none_iff_exists'.mp waiting with ⟨p, known⟩
  cases dep with
  | none =>
      simp only [addDependency, Option.any_none, Bool.false_eq_true, if_false, known, unwrap]
      exact ⟨_, rfl⟩
  | some d =>
      have known : (queue.addRevDependency d e).pending e = some p := known
      simp only [addDependency, Option.any_some, known, unwrap]
      split
      · exact ⟨_, rfl⟩
      · exact ⟨_, rfl⟩

end EventQueue

/-- The points of an instance come after its barrier. -/
structure CCWaiting.Linked (waiting : CCWaiting) (queue : EventQueue) : Prop where
  starts : ∃ streamStart, queue.Precedes waiting.commBarrier streamStart ∧
    queue.Precedes streamStart waiting.commStartMeta
  ends : queue.Precedes waiting.commStartMeta waiting.commEndMeta

/-- The points of a call come after its barrier. -/
structure P2PFlowEndpoint.Linked (endpoint : P2PFlowEndpoint) (queue : EventQueue) : Prop where
  starts : queue.Precedes endpoint.unmatchedBarrier endpoint.flowStart
  ends : queue.Precedes endpoint.flowStart endpoint.flowEnd

theorem CCWaiting.Linked.mono {waiting : CCWaiting} {queue queue' : EventQueue}
    (linked : waiting.Linked queue) (enlarges : EventQueue.Enlarges queue queue') :
    waiting.Linked queue' := by
  rcases linked.starts with ⟨streamStart, first, second⟩
  exact ⟨⟨streamStart, enlarges.precedes first, enlarges.precedes second⟩,
    enlarges.precedes linked.ends⟩

theorem P2PFlowEndpoint.Linked.mono {endpoint : P2PFlowEndpoint} {queue queue' : EventQueue}
    (linked : endpoint.Linked queue) (enlarges : EventQueue.Enlarges queue queue') :
    endpoint.Linked queue' :=
  ⟨enlarges.precedes linked.starts, enlarges.precedes linked.ends⟩

namespace Simulator

variable {env : Environment} {sim sim' : Simulator}

/-- The points of all that waits for its peers come after its barrier. -/
structure Linked (sim : Simulator) : Prop where
  instances : ∀ op id, ∀ waiting ∈ sim.waitings op id, waiting.Linked sim.queue
  calls : ∀ kind key, ∀ endpoint ∈ sim.unmatched kind key, endpoint.Linked sim.queue

namespace Linked

/-- Nothing begins to wait. -/
theorem keep (linked : Linked sim) (enlarges : EventQueue.Enlarges sim.queue sim'.queue)
    (waitings : ∀ op id, ∀ waiting ∈ sim'.waitings op id, waiting ∈ sim.waitings op id)
    (unmatched : ∀ kind key, ∀ endpoint ∈ sim'.unmatched kind key,
      endpoint ∈ sim.unmatched kind key) : Linked sim' := by
  refine ⟨fun op id waiting mem => ?_, fun kind key endpoint mem => ?_⟩
  · exact (linked.instances op id waiting (waitings op id waiting mem)).mono enlarges
  · exact (linked.calls kind key endpoint (unmatched kind key endpoint mem)).mono enlarges

theorem adds {records : List EventQueue.FlowRecord} (linked : Linked sim)
    (adds : Adds records sim sim') : Linked sim' := by
  refine linked.keep adds.enlarges (fun op id waiting mem => ?_) fun kind key endpoint mem => ?_
  · rwa [waitings, adds.ccWaiting] at mem
  · cases kind with
    | send =>
        rw [unmatched, waitingMap, adds.sendWaiting] at mem
        exact mem
    | recv =>
        rw [unmatched, waitingMap, adds.recvWaiting] at mem
        exact mem

/-- Nothing about the queue and what waits changes. -/
theorem silent (linked : Linked sim) (queue : sim'.queue = sim.queue)
    (ccWaiting : sim'.ccWaiting = sim.ccWaiting) (waitingMap : sim'.waitingMap = sim.waitingMap) :
    Linked sim' := by
  refine linked.keep (queue ▸ .refl _) (fun op id waiting mem => ?_) fun kind key endpoint mem => ?_
  · rwa [waitings, ccWaiting] at mem
  · rwa [unmatched, waitingMap] at mem

section Transfers

variable {kind : P2PCallKind} {key : P2PKey} {endpoint : P2PFlowEndpoint} {time : ℤ}

theorem setWaiting (linked : Linked sim) (kind : P2PCallKind) (key : P2PKey)
    {queue : Option (List P2PFlowEndpoint)}
    (links : ∀ endpoint ∈ queue.getD [], endpoint.Linked sim.queue) :
    Linked (sim.setWaiting kind key queue) := by
  refine ⟨fun op id waiting mem => ?_, fun kind' key' endpoint mem => ?_⟩
  · cases kind <;> exact linked.instances op id waiting mem
  · rw [unmatched, waitingMap_setWaiting] at mem
    rw [queue_setWaiting]
    split at mem
    · exact links endpoint mem
    · exact linked.calls kind' key' endpoint mem

theorem popP2PEndpoint (linked : Linked sim) (kind : P2PCallKind) (key : P2PKey) :
    Linked (sim.popP2PEndpoint kind key).2 := by
  simp only [Simulator.popP2PEndpoint]
  split
  · exact linked
  · rename_i queue waits
    refine linked.setWaiting kind key fun endpoint mem => ?_
    split at mem
    · cases mem
    · refine linked.calls kind key endpoint ?_
      rw [unmatched, waits]
      exact List.mem_of_mem_tail mem

theorem matchOrEnqueueP2PEndpoint (linked : Linked sim) (links : endpoint.Linked sim.queue)
    (run : sim.matchOrEnqueueP2PEndpoint env kind key endpoint = .ok sim') : Linked sim' := by
  simp only [Simulator.matchOrEnqueueP2PEndpoint] at run
  have noted : Linked (sim.note (.offered kind key endpoint.tag)) := linked.silent rfl rfl rfl
  have popped := noted.popP2PEndpoint kind.peer key
  have queue : ((sim.note (.offered kind key endpoint.tag)).popP2PEndpoint kind.peer
      key).2.queue = sim.queue := by
    simp only [Simulator.popP2PEndpoint]
    split
    · rfl
    · exact queue_setWaiting _ _ _ _
  split at run
  · rename_i peerEndpoint middle result
    rw [result] at popped
    rcases scheduleMatchedP2PFlow_eq_ok run with ⟨after, _, _, _, adds, _, _, _, _, _, rfl⟩
    exact (popped.adds adds).silent rfl rfl rfl
  · rename_i middle result
    rw [result] at popped queue
    simp only [Except.ok.injEq] at run
    subst run
    refine popped.setWaiting kind key fun other mem => ?_
    rw [Option.getD_some, List.mem_append, List.mem_singleton] at mem
    rcases mem with old | rfl
    · exact popped.calls kind key other old
    · exact queue ▸ links

theorem ncclUngroupedP2P {host : HostId} {count : ℕ} {dtype : NcclDatatype} {peer : ℤ}
    {comm : NcclComm} {stream : CudaStream} (linked : Linked sim)
    (run : sim.ncclUngroupedP2P env kind host time count dtype peer comm stream = .ok sim') :
    Linked sim' := by
  simp only [Simulator.ncclUngroupedP2P, createUngroupedP2PEndpoint, bind_eq_ok, pure_eq_ok,
    Prod.exists, Prod.mk.injEq] at run
  rcases run with ⟨first, barrier, addedBarrier, _, endpoint, ⟨second, start, addedStart, third,
    finish, addedFinish, rfl, rfl⟩, matched⟩
  have blocks := (addActionOrPoint_aside rfl addedBarrier).1
  rcases addEvent_aside rfl addedStart with ⟨starts, _, _, started⟩
  rcases addEvent_aside rfl addedFinish with ⟨ends, _, _, ended⟩
  refine (linked.adds ((blocks.trans starts).trans ends)).matchOrEnqueueP2PEndpoint ?_ matched
  exact ⟨ends.enlarges.precedes (started List.mem_cons_self), ended List.mem_cons_self⟩

/-- The points of the calls of a group that have been set up. -/
def SetupsLinked (acc : Simulator × List FlowSetup) : Prop :=
  ∀ setup ∈ acc.2, ∀ host time, (setup.endpoint host time).Linked acc.1.queue

theorem setupFlow_linked {groupStart : EventId} {acc acc' : Simulator × List FlowSetup}
    {call : P2PCallInfo} (links : SetupsLinked acc)
    (run : setupFlow env time groupStart acc call = .ok acc') :
    Aside acc.1 acc'.1 ∧ SetupsLinked acc' := by
  simp only [setupFlow, bind_eq_ok, pure_eq_ok, Prod.exists] at run
  rcases run with ⟨first, barrier, addedBarrier, second, start, addedStart, third, finish,
    addedFinish, rfl⟩
  have blocks := (addActionOrPoint_aside rfl addedBarrier).1
  rcases addActionOrPoint_aside rfl addedStart with ⟨starts, _, _, started⟩
  rcases addActionOrPoint_aside rfl addedFinish with ⟨ends, _, _, ended⟩
  have whole := (blocks.trans starts).trans ends
  refine ⟨whole, fun setup mem host time' => ?_⟩
  rcases List.mem_append.mp mem with old | new
  · exact (links setup old host time').mono whole.enlarges
  · rw [List.mem_singleton.mp new]
    have edge : second.queue.Precedes barrier start := started (by simp)
    exact ⟨ends.enlarges.precedes edge, ended List.mem_cons_self⟩

theorem streamGroup {host : HostId} {group : CudaStream × List P2PCallInfo} (linked : Linked sim)
    (run : Simulator.streamGroup env host time sim group = .ok sim') : Linked sim' := by
  simp only [Simulator.streamGroup, bind_eq_ok, Prod.exists] at run
  rcases run with ⟨first, barrier, addedBarrier, second, groupStart, addedStart, third, setups,
    folded, fourth, _, addedFinish, fifth, offered, release⟩
  have starts := (addActionOrPoint_aside rfl addedBarrier).1.trans (addEvent_aside rfl addedStart).1
  have sets : Aside second third ∧ SetupsLinked (third, setups) := by
    refine foldlM_invariant (fun acc : Simulator × List FlowSetup =>
      Aside second acc.1 ∧ SetupsLinked acc) ?_ ⟨.refl second, fun _ mem => by cases mem⟩ folded
    rintro acc call acc' _ ⟨earlier, links⟩ step
    rcases setupFlow_linked links step with ⟨later, links'⟩
    exact ⟨earlier.trans later, links'⟩
  have ends := (addEvent_aside rfl addedFinish).1
  have offers : Linked fifth ∧ EventQueue.Enlarges fourth.queue fifth.queue := by
    refine foldlM_invariant (fun middle => Linked middle ∧
      EventQueue.Enlarges fourth.queue middle.queue) ?_
      ⟨linked.adds ((starts.trans sets.1).trans ends), .refl _⟩ offered
    rintro acc setup acc' mem ⟨linked, enlarges⟩ step
    have links := ((sets.2 setup mem host time).mono ends.enlarges).mono enlarges
    exact ⟨linked.matchOrEnqueueP2PEndpoint links step,
      enlarges.trans (matchOrEnqueueP2PEndpoint_keepsCollectives step).logs.enlarges⟩
  exact offers.1.adds (removeNoneDependency_aside release)

end Transfers

section Collectives

variable {op : Collective} {host : HostId} {time : ℤ} {comm : NcclComm} {stream : CudaStream}
  {waiting : CCWaiting}

theorem setCCWaiting (linked : Linked sim) (op : Collective) (id : NcclId)
    {list : List CCWaiting} (links : ∀ waiting ∈ list, waiting.Linked sim.queue) :
    Linked (sim.setCCWaiting op id list) := by
  refine ⟨fun op' id' waiting mem => ?_, fun kind key endpoint mem => ?_⟩
  · rw [waitings_setCCWaiting] at mem
    split at mem
    · exact links waiting mem
    · exact linked.instances op' id' waiting mem
  · cases kind with
    | send => exact linked.calls .send key endpoint mem
    | recv => exact linked.calls .recv key endpoint mem

theorem newCCWaiting_linked {ranks : Ranks} {trace : Trace}
    (run : sim.newCCWaiting env op ranks host time trace comm stream = .ok (sim', waiting)) :
    waiting.Linked sim'.queue := by
  simp only [newCCWaiting, bind_eq_ok, pure_eq_ok, Prod.exists, Prod.mk.injEq] at run
  rcases run with ⟨first, barrier, addedBarrier, second, start, addedStart, third, startMeta,
    addedStartMeta, fourth, endMeta, addedEndMeta, fifth, finish, addedFinish, rfl, rfl⟩
  rcases addEvent_aside rfl addedStart with ⟨_, _, _, started⟩
  rcases addActionOrPoint_aside rfl addedStartMeta with ⟨metas, _, _, begun⟩
  rcases addActionOrPoint_aside rfl addedEndMeta with ⟨metas', _, _, ended⟩
  have ends := (addEvent_aside rfl addedFinish).1
  have later := metas'.trans ends
  exact ⟨⟨start, (metas.trans later).enlarges.precedes (started List.mem_cons_self),
    later.enlarges.precedes (begun List.mem_cons_self)⟩,
    ends.enlarges.precedes (ended List.mem_cons_self)⟩

theorem ncclCall {ranks : Ranks} {trace : Trace} {call : CudaCall} (linked : Linked sim)
    (run : sim.ncclCall env op ranks host time trace comm stream call = .ok sim') :
    Linked sim' := by
  have noted : ∀ {before : Simulator} {occurrence : Occurrence}, Aside sim before →
      Linked (before.note occurrence) := by
    intro before occurrence aside
    exact (linked.adds aside).silent rfl rfl rfl
  rcases ncclCall_cases run with ⟨middle, waiting, _, created, rfl⟩ |
    ⟨idx, waiting, middle, _, here, joined, rest⟩
  · have links := newCCWaiting_linked created
    rcases newCCWaiting_eq_ok created with ⟨before, _, _, aside, rfl, _⟩
    refine (noted aside).setCCWaiting op comm.id fun other mem => ?_
    rcases List.mem_append.mp mem with old | new
    · exact (linked.instances op comm.id other old).mono aside.enlarges
    · exact List.mem_singleton.mp new ▸ links
  · rcases joinStream_eq_ok joined with ⟨before, _, _, aside, rfl, _⟩
    have links : ∀ other ∈ sim.waitings op comm.id, other.Linked before.queue :=
      fun other mem => (linked.instances op comm.id other mem).mono aside.enlarges
    rcases rest with ⟨_, rfl⟩ | ⟨_, completed⟩
    · refine (noted aside).setCCWaiting op comm.id fun other mem => ?_
      rcases List.mem_or_eq_of_mem_set mem with old | rfl
      · exact links other old
      · have joins := links waiting (List.mem_of_getElem? here)
        exact ⟨joins.starts, joins.ends⟩
    · rcases completeCC_eq_ok completed with ⟨after, _, adds, _, _, _, rfl⟩
      refine Linked.silent (Linked.adds ?_ adds) rfl rfl rfl
      refine (noted aside).setCCWaiting op comm.id fun other mem => ?_
      exact links other (List.mem_of_mem_eraseIdx mem)

end Collectives

theorem dispatch {message : Message} (linked : Linked sim)
    (run : sim.dispatch env message = .ok sim') : Linked sim' := by
  cases collective : message.collective with
  | none =>
      by_cases transfers : message.Transfers
      · rcases message with ⟨host, time, call⟩ | _ | _
        · have updated : Linked (sim.updateHostCurr host.host time) := linked.silent rfl rfl rfl
          cases call with
          | ncclSend count dtype peer comm stream => exact updated.ncclUngroupedP2P run
          | ncclRecv count dtype peer comm stream => exact updated.ncclUngroupedP2P run
          | ncclP2pGroup calls =>
              refine foldlM_invariant Linked ?_ updated run
              exact fun _ earlier step => earlier.streamGroup step
          | _ => exact absurd transfers id
        · exact absurd transfers id
        · exact absurd transfers id
      · exact linked.adds (dispatch_aside collective transfers run)
  | some called =>
      rcases dispatch_collective collective run with
        ⟨middle, _, _, _, _, _, _, _, _, _, _, ⟨_, _, aside⟩, joined⟩
      exact (linked.adds aside).ncclCall joined

theorem start (initial : Initial sim) : Linked sim := by
  rcases initial with ⟨cluster, setting, hostMapping, rfl⟩
  refine ⟨fun op id waiting mem => absurd mem List.not_mem_nil, fun kind key endpoint mem => ?_⟩
  cases kind <;> exact absurd mem List.not_mem_nil

end Linked

/-- The events behind a barrier are those whose barriers are held, each by one holder, and
whatever waits for its peers is pending and may be given more to wait for. -/
structure Guarded (sim : Simulator) : Prop where
  held : ∀ e, sim.queue.Barred e ↔ ∃ holder, e ∈ sim.barriers holder
  once : ∀ holder, (sim.barriers holder).Nodup
  apart : ∀ holder other e, e ∈ sim.barriers holder → e ∈ sim.barriers other → holder = other
  instances : ∀ op id, ∀ waiting ∈ sim.waitings op id,
    ∀ point ∈ [waiting.commBarrier, waiting.commStartMeta, waiting.commEndMeta], ∀ dep,
      sim.queue.pending point ≠ none ∧ ∃ queue, sim.queue.addDependency point dep = .ok queue
  calls : ∀ kind key, ∀ endpoint ∈ sim.unmatched kind key,
    ∀ point ∈ [endpoint.unmatchedBarrier, endpoint.flowStart, endpoint.flowEnd], ∀ dep,
      sim.queue.pending point ≠ none ∧ ∃ queue, sim.queue.addDependency point dep = .ok queue

theorem Gated.guarded (gated : Gated ∅ sim) (linked : Linked sim)
    (tracked : EventQueue.Tracked sim.queue) : Guarded sim := by
  have held : ∀ e, sim.queue.Barred e ↔ ∃ holder, e ∈ sim.barriers holder := by
    intro e
    rw [gated.barred]
    simp
  have pending : ∀ holder, ∀ e ∈ sim.barriers holder, sim.queue.pending e ≠ none :=
    fun holder e mem => ((held e).mpr ⟨holder, mem⟩).pending
  refine ⟨held, gated.nodup, fun _ _ _ => gated.apart, ?_, ?_⟩
  · intro op id waiting mem point isPoint dep
    have links := linked.instances op id waiting mem
    have barrier : sim.queue.pending waiting.commBarrier ≠ none :=
      pending (.instances op id) _ (List.mem_map_of_mem mem)
    rcases links.starts with ⟨streamStart, first, second⟩
    have started := tracked.pending_of_precedes (tracked.pending_of_precedes barrier first) second
    have ended := tracked.pending_of_precedes started links.ends
    simp only [List.mem_cons, List.not_mem_nil, or_false] at isPoint
    rcases isPoint with rfl | rfl | rfl
    · exact ⟨barrier, EventQueue.addDependency_of_pending barrier dep⟩
    · exact ⟨started, EventQueue.addDependency_of_pending started dep⟩
    · exact ⟨ended, EventQueue.addDependency_of_pending ended dep⟩
  · intro kind key endpoint mem point isPoint dep
    have links := linked.calls kind key endpoint mem
    have barrier : sim.queue.pending endpoint.unmatchedBarrier ≠ none :=
      pending (.calls kind key) _ (List.mem_map_of_mem mem)
    have started := tracked.pending_of_precedes barrier links.starts
    have ended := tracked.pending_of_precedes started links.ends
    simp only [List.mem_cons, List.not_mem_nil, or_false] at isPoint
    rcases isPoint with rfl | rfl | rfl
    · exact ⟨barrier, EventQueue.addDependency_of_pending barrier dep⟩
    · exact ⟨started, EventQueue.addDependency_of_pending started dep⟩
    · exact ⟨ended, EventQueue.addDependency_of_pending ended dep⟩

theorem linked_of_reached {messages : List Message} (reached : Reached env messages sim) :
    Gated ∅ sim ∧ Linked sim := by
  refine reached.invariant (fun _ sim => Gated ∅ sim ∧ Linked sim) ?_ ?_
  · exact fun initial => ⟨.start initial, .start initial⟩
  · rintro messages sim message sim' ⟨gated, linked⟩ step
    refine ⟨gated.handle step, ?_⟩
    rcases handle_eq_ok step with ⟨middle, dispatched, rfl⟩
    exact (linked.dispatch dispatched).silent rfl rfl rfl

/-- In every state reached the barriers are those of the instances that wait and of the
unmatched calls, and none of their points has been released. -/
theorem guarded_of_reached {messages : List Message} (reached : Reached env messages sim) :
    Guarded sim := by
  rcases linked_of_reached reached with ⟨gated, linked⟩
  exact gated.guarded linked (onTime_of_reached reached).2.inTime.tracked

/-- The left rank is alone in a collective and has sent to the right one. -/
def aloneOnTheLeft : List Message :=
  [.cuda ⟨leftThread 0, 0, .ncclCommInitRank 0 0 2 firstId⟩,
    .cuda ⟨rightThread 0, 0, .ncclCommInitRank 0 1 2 firstId⟩,
    .cuda ⟨leftThread 0, 0, .ncclAllGather 8 .u8 ⟨0, firstId⟩ ⟨0, 0⟩⟩,
    .cuda ⟨leftThread 0, 0, .ncclSend 8 .u8 1 ⟨0, firstId⟩ ⟨0, 0⟩⟩,
    .cuda ⟨leftThread 0, 5, .cudaStreamQuery ⟨0, 0⟩⟩]

theorem guarded_of_aloneOnTheLeft : ∃ sim, Reached (.plain 20) aloneOnTheLeft sim ∧
    sim.barriers (.instances .allgather firstId) = [0] ∧
      sim.barriers (.calls .send (firstId, 0, 1)) = [5] ∧ Guarded sim := by
  have read : (aloneOnTheLeft.foldlM (handle (.plain 20)) pair).toOption.map (fun sim =>
      (sim.barriers (.instances .allgather firstId),
        sim.barriers (.calls .send (firstId, 0, 1)))) = some ([0], [5]) := by
    decide +kernel
  rcases exists_ok_of_reading read with ⟨sim, run, barriers⟩
  have reached := reached_of_foldlM initial_pair run
  rw [Prod.mk.injEq] at barriers
  exact ⟨sim, reached, barriers.1, barriers.2, guarded_of_reached reached⟩

end Simulator

end Phantora
