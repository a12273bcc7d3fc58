import Phantora.Simulator.Gates
import Phantora.Simulator.Heights
import Phantora.Simulator.PointToPoint

/-!
# Levels of communication

Communication is in rounds. The events of a round are on three levels: the points at which
streams arrive, the flows, and the points from which streams go on.
-/

namespace Phantora

open Outcome

open EventQueue (OnLevel NotAbove SameLevels)

/-- The points of an instance are on the levels of a round. -/
structure CCWaiting.At (waiting : CCWaiting) (now : ℕ) (level : EventId → ℕ) (queue : EventQueue) :
    Prop where
  barrier : OnLevel level queue waiting.commBarrier (3 * now)
  starts : OnLevel level queue waiting.commStartMeta (3 * now + 1)
  ends : OnLevel level queue waiting.commEndMeta (3 * now + 2)

/-- The points of a call are on the levels of a round. -/
structure P2PFlowEndpoint.At (endpoint : P2PFlowEndpoint) (now : ℕ) (level : EventId → ℕ)
    (queue : EventQueue) : Prop where
  starts : OnLevel level queue endpoint.flowStart (3 * now)
  ends : OnLevel level queue endpoint.flowEnd (3 * now + 2)

theorem CCWaiting.At.mono {waiting : CCWaiting} {now : ℕ} {level level' : EventId → ℕ}
    {queue queue' : EventQueue} (here : waiting.At now level queue)
    (same : SameLevels level level' queue queue') : waiting.At now level' queue' :=
  ⟨same.onLevel here.barrier, same.onLevel here.starts, same.onLevel here.ends⟩

theorem P2PFlowEndpoint.At.mono {endpoint : P2PFlowEndpoint} {now : ℕ} {level level' : EventId → ℕ}
    {queue queue' : EventQueue} (here : endpoint.At now level queue)
    (same : SameLevels level level' queue queue') : endpoint.At now level' queue' :=
  ⟨same.onLevel here.starts, same.onLevel here.ends⟩

namespace Simulator

variable {env : Environment} {sim sim' : Simulator} {cap : HostStream → ℕ} {round : ℕ → ℕ}
  {level : EventId → ℕ} {host : HostId} {time : ℤ} {now : ℕ}

namespace Heights

section Collectives

variable {op : Collective} {comm : NcclComm} {stream : CudaStream} {waiting : CCWaiting}

theorem newCCWaiting {ranks : Ranks} {trace : Trace} (heights : Heights cap level sim)
    (low : cap (host, stream) ≤ 3 * now)
    (run : sim.newCCWaiting env op ranks host time trace comm stream = .ok (sim', waiting)) :
    ∃ level', Heights (Function.update cap (host, stream) (3 * now + 2)) level' sim' ∧
      SameLevels level level' sim.queue sim'.queue ∧ waiting.At now level' sim'.queue := by
  simp only [Simulator.newCCWaiting, bind_eq_ok, pure_eq_ok, Prod.exists, Prod.mk.injEq] at run
  rcases run with ⟨first, barrier, addBarrier, second, streamStart, addStart, third, startMeta,
    addStartMeta, fourth, endMeta, addEndMeta, fifth, streamEnd, addEnd, rfl, rfl⟩
  rcases heights.addActionOrPoint (EventQueue.notAbove_barrier level sim.queue (3 * now))
    addBarrier with ⟨level₁, blocked, same₁, onBarrier⟩
  rcases blocked.addEvent low (onBarrier.notAbove le_rfl).only addStart with
    ⟨level₂, started, same₂, onStart⟩
  rcases started.addActionOrPoint (onStart.notAbove (Nat.le_succ _)).only addStartMeta with
    ⟨level₃, begun, same₃, onStartMeta⟩
  rcases begun.addActionOrPoint (onStartMeta.notAbove (Nat.le_succ _)).only addEndMeta with
    ⟨level₄, finished, same₄, onEndMeta⟩
  have high : Function.update cap (host, stream) (3 * now) (host, stream) ≤ 3 * now + 2 := by
    rw [Function.update_self]
    exact Nat.le_add_right _ 2
  rcases finished.addEvent high (onEndMeta.notAbove le_rfl).only addEnd with
    ⟨level₅, ended, same₅, _⟩
  rw [Function.update_idem] at ended
  have later := same₄.trans same₅
  refine ⟨level₅, ended.silent rfl rfl, ((same₁.trans same₂).trans same₃).trans later, ?_⟩
  exact ⟨((same₂.trans same₃).trans later).onLevel onBarrier, later.onLevel onStartMeta,
    same₅.onLevel onEndMeta⟩

theorem joinStream (heights : Heights cap level sim) (here : waiting.At now level sim.queue)
    (low : cap (host, stream) ≤ 3 * now)
    (run : sim.joinStream env op host time comm stream waiting = .ok sim') :
    ∃ level', Heights (Function.update cap (host, stream) (3 * now + 2)) level' sim' ∧
      SameLevels level level' sim.queue sim'.queue := by
  simp only [Simulator.joinStream, bind_eq_ok, pure_eq_ok, Prod.exists] at run
  rcases run with ⟨first, streamStart, addStart, second, wait, third, streamEnd, addEnd, rfl⟩
  rcases heights.addEvent low (here.barrier.notAbove le_rfl).only addStart with
    ⟨level₁, started, same₁, onStart⟩
  have here₁ := here.mono same₁
  have climbs : level₁ streamStart < level₁ waiting.commStartMeta := by
    rw [onStart.2, here₁.starts.2]
    exact Nat.lt_succ_self _
  rcases started.addDependency onStart.1 here₁.starts.1 climbs wait with ⟨waits, same₂⟩
  have here₂ := here₁.mono same₂
  have high : Function.update cap (host, stream) (3 * now) (host, stream) ≤ 3 * now + 2 := by
    rw [Function.update_self]
    exact Nat.le_add_right _ 2
  rcases waits.addEvent high (here₂.ends.notAbove le_rfl).only addEnd with
    ⟨level₃, ended, same₃, _⟩
  rw [Function.update_idem] at ended
  exact ⟨level₃, ended.silent rfl rfl, (same₁.trans same₂).trans same₃⟩

/-- The flows of an instance are on the level between its points. -/
theorem completeCC {call : CudaCall} (heights : Heights cap level sim)
    (here : waiting.At now level sim.queue)
    (run : sim.completeCC env op time comm call waiting = .ok sim') :
    ∃ level', Heights cap level' sim' ∧ SameLevels level level' sim.queue sim'.queue := by
  simp only [Simulator.completeCC, bind_eq_ok, pure_eq_ok, Prod.exists] at run
  rcases run with ⟨first, flows, created, second, waited, third, released, rfl⟩
  have creates : ∃ level', Heights cap level' first ∧
      SameLevels level level' sim.queue first.queue ∧
        ∀ flow ∈ flows, OnLevel level' first.queue flow (3 * now + 1) := by
    refine foldlM_invariant (fun acc : Simulator × List EventId => ∃ level',
      Heights cap level' acc.1 ∧ SameLevels level level' sim.queue acc.1.queue ∧
        ∀ flow ∈ acc.2, OnLevel level' acc.1.queue flow (3 * now + 1)) ?_
      ⟨level, heights, .refl _ _, fun _ mem => absurd mem List.not_mem_nil⟩ created
    rintro acc flow acc' _ ⟨level', heights', same, onLevels⟩ step
    simp only [addCommEvent, bind_eq_ok, pure_eq_ok, Prod.exists] at step
    rcases step with ⟨middle, event, added, rfl⟩
    rcases heights'.addActionOrPoint ((here.mono same).starts.notAbove le_rfl).only added with
      ⟨level'', raised, same', new⟩
    refine ⟨level'', raised, same.trans same', fun other mem => ?_⟩
    rcases List.mem_append.mp mem with old | last
    · exact same'.onLevel (onLevels other old)
    · exact List.mem_singleton.mp last ▸ new
  rcases creates with ⟨level', raised, same, onLevels⟩
  have waits : Heights cap level' second ∧ SameLevels level' level' first.queue second.queue := by
    refine foldlM_invariant (fun middle => Heights cap level' middle ∧
      SameLevels level' level' first.queue middle.queue) ?_ ⟨raised, .refl _ _⟩ waited
    rintro middle flow middle' mem ⟨heights', same'⟩ step
    have source := same'.onLevel (onLevels flow mem)
    have target := (here.mono (same.trans same')).ends
    have climbs : level' flow < level' waiting.commEndMeta := by
      rw [source.2, target.2]
      exact Nat.lt_succ_self _
    rcases heights'.addDependency source.1 target.1 climbs step with ⟨waits, same''⟩
    exact ⟨waits, same'.trans same''⟩
  rcases waits.1.removeNoneDependency released with ⟨frees, same'⟩
  exact ⟨level', frees.silent rfl rfl, (same.trans waits.2).trans same'⟩

end Collectives

end Heights

/-- The unmatched calls are on the levels of their rounds. -/
def Placed (round : ℕ → ℕ) (level : EventId → ℕ) (sim : Simulator) : Prop :=
  ∀ kind key, ∀ endpoint ∈ sim.unmatched kind key,
    endpoint.At (round endpoint.tag.message) level sim.queue

/-- Calls that have been matched are in one round. -/
def Agreed (round : ℕ → ℕ) (sim : Simulator) : Prop :=
  ∀ key, ∀ transfer ∈ sim.transfers key, round transfer.send.message = round transfer.recv.message

theorem Placed.mono {level' : EventId → ℕ} (placed : Placed round level sim)
    (same : SameLevels level level' sim.queue sim'.queue)
    (unmatched : ∀ kind key, ∀ endpoint ∈ sim'.unmatched kind key,
      endpoint ∈ sim.unmatched kind key) : Placed round level' sim' :=
  fun kind key endpoint mem =>
    (placed kind key endpoint (unmatched kind key endpoint mem)).mono same

theorem Placed.adds {level' : EventId → ℕ} {records : List EventQueue.FlowRecord}
    (placed : Placed round level sim) (same : SameLevels level level' sim.queue sim'.queue)
    (adds : Adds records sim sim') : Placed round level' sim' := by
  refine placed.mono same fun kind key endpoint mem => ?_
  rwa [unmatched, waitingMap_of_adds adds] at mem

/-- What has been matched stays so. -/
theorem Agreed.earlier (agreed : Agreed round sim') (keeps : KeepsCollectives sim sim') :
    Agreed round sim := by
  rcases keeps.logs.history with ⟨news, history, _⟩
  intro key transfer mem
  refine agreed key transfer ?_
  rw [transfers, history, List.reverse_append, List.filterMap_append]
  exact List.mem_append_left _ mem

section Transfers

variable {kind : P2PCallKind} {key : P2PKey} {endpoint : P2PFlowEndpoint}

theorem Placed.setWaiting (placed : Placed round level sim) (kind : P2PCallKind) (key : P2PKey)
    {queue : Option (List P2PFlowEndpoint)}
    (places : ∀ endpoint ∈ queue.getD [],
      endpoint.At (round endpoint.tag.message) level sim.queue) :
    Placed round level (sim.setWaiting kind key queue) := by
  intro kind' key' endpoint mem
  rw [unmatched, waitingMap_setWaiting] at mem
  rw [queue_setWaiting]
  split at mem
  · exact places endpoint mem
  · exact placed kind' key' endpoint mem

/-- The call that is taken out is on the levels of its round too. -/
theorem Placed.popP2PEndpoint (placed : Placed round level sim) (kind : P2PCallKind)
    (key : P2PKey) :
    Placed round level (sim.popP2PEndpoint kind key).2 ∧
      ∀ endpoint ∈ (sim.popP2PEndpoint kind key).1,
        endpoint.At (round endpoint.tag.message) level sim.queue := by
  simp only [Simulator.popP2PEndpoint]
  split
  · exact ⟨placed, fun _ mem => by cases mem⟩
  · rename_i queue waits
    have places : ∀ endpoint ∈ queue, endpoint.At (round endpoint.tag.message) level sim.queue := by
      intro endpoint mem
      refine placed kind key endpoint ?_
      rw [unmatched, waits]
      exact mem
    refine ⟨placed.setWaiting kind key fun endpoint mem => ?_, fun endpoint isHead => ?_⟩
    · split at mem
      · cases mem
      · exact places endpoint (List.mem_of_mem_tail mem)
    · exact places endpoint (List.mem_of_head? isHead)

namespace Heights

/-- The flow of a pair is on the level between its points. -/
theorem scheduleP2PFlow {send recv : P2PFlowEndpoint} (heights : Heights cap level sim)
    (sender : send.At now level sim.queue) (receiver : recv.At now level sim.queue)
    (run : sim.scheduleP2PFlow env send recv key = .ok sim') :
    ∃ level', Heights cap level' sim' ∧ SameLevels level level' sim.queue sim'.queue := by
  simp only [Simulator.scheduleP2PFlow, bind_eq_ok, pure_eq_ok, Prod.exists] at run
  rcases run with ⟨first, event, added, second, sendWait, third, recvWait, fourth, sendFree, fifth,
    recvFree, rfl⟩
  have counted : Heights cap level { sim with nextFlowId := sim.nextFlowId + 1 } :=
    heights.silent rfl rfl
  have low : ∀ d, some d ∈ [some send.flowStart, some recv.flowStart] →
      NotAbove level sim.queue d (3 * now + 1) := by
    intro d mem
    simp only [List.mem_cons, Option.some.injEq, List.not_mem_nil, or_false] at mem
    rcases mem with rfl | rfl
    · exact sender.starts.notAbove (Nat.le_succ _)
    · exact receiver.starts.notAbove (Nat.le_succ _)
  rcases counted.addActionOrPoint low added with ⟨level', raised, same, onFlow⟩
  have sent := (sender.mono same).ends
  have sends : level' event < level' send.flowEnd := by
    rw [onFlow.2, sent.2]
    exact Nat.lt_succ_self _
  rcases raised.addDependency onFlow.1 sent.1 sends sendWait with ⟨raised', same'⟩
  have received := (receiver.mono (same.trans same')).ends
  have receives : level' event < level' recv.flowEnd := by
    rw [onFlow.2, received.2]
    exact Nat.lt_succ_self _
  rcases raised'.addDependency (same'.onLevel onFlow).1 received.1 receives recvWait with
    ⟨raised'', same''⟩
  rcases raised''.removeNoneDependency sendFree with ⟨sendFreed, later⟩
  rcases sendFreed.removeNoneDependency recvFree with ⟨recvFreed, later'⟩
  exact ⟨level', recvFreed.silent rfl rfl,
    ((same.trans same').trans same'').trans (later.trans later')⟩

theorem scheduleMatchedP2PFlow {peerEndpoint : P2PFlowEndpoint} (heights : Heights cap level sim)
    (own : endpoint.At now level sim.queue) (peer : peerEndpoint.At now level sim.queue)
    (run : sim.scheduleMatchedP2PFlow env kind endpoint peerEndpoint key = .ok sim') :
    ∃ level', Heights cap level' sim' ∧ SameLevels level level' sim.queue sim'.queue := by
  cases kind with
  | send => exact heights.scheduleP2PFlow own peer run
  | recv => exact heights.scheduleP2PFlow peer own run

/-- A call is matched with one of its round, or waits. -/
theorem matchOrEnqueueP2PEndpoint (heights : Heights cap level sim)
    (placed : Placed round level sim)
    (here : endpoint.At (round endpoint.tag.message) level sim.queue) (agreed : Agreed round sim')
    (run : sim.matchOrEnqueueP2PEndpoint env kind key endpoint = .ok sim') :
    ∃ level', Heights cap level' sim' ∧ SameLevels level level' sim.queue sim'.queue ∧
      Placed round level' sim' := by
  simp only [Simulator.matchOrEnqueueP2PEndpoint] at run
  have noted : Placed round level (sim.note (.offered kind key endpoint.tag)) :=
    placed.mono (.refl _ _) fun kind' key' endpoint' mem => by
      rwa [unmatched, waitingMap_note] at mem
  have popped := noted.popP2PEndpoint kind.peer key
  have queue : ((sim.note (.offered kind key endpoint.tag)).popP2PEndpoint kind.peer
      key).2.queue = sim.queue := by
    simp only [Simulator.popP2PEndpoint]
    split
    · rfl
    · exact queue_setWaiting _ _ _ _
  have streamInfo : ((sim.note (.offered kind key endpoint.tag)).popP2PEndpoint kind.peer
      key).2.streamInfo = sim.streamInfo := by
    simp only [Simulator.popP2PEndpoint]
    split
    · rfl
    · cases kind <;> rfl
  split at run
  · rename_i peerEndpoint middle result
    rw [result] at popped queue streamInfo
    have matched : round endpoint.tag.message = round peerEndpoint.tag.message := by
      rcases scheduleMatchedP2PFlow_eq_ok run with
        ⟨after, transfer, flow, info, adds, _, own, other, _, _, rfl⟩
      have agrees := agreed key transfer (by simp [Occurrence.transfer?])
      cases kind with
      | send => rwa [← own, ← other]
      | recv =>
          rw [← own, ← other]
          exact agrees.symm
    have peer : peerEndpoint.At (round endpoint.tag.message) level middle.queue := by
      rw [matched, queue]
      exact popped.2 peerEndpoint rfl
    rcases (heights.silent queue streamInfo).scheduleMatchedP2PFlow (queue ▸ here) peer run with
      ⟨level', raised, same⟩
    rcases scheduleMatchedP2PFlow_eq_ok run with ⟨after, transfer, _, _, adds, _, _, _, _, _, rfl⟩
    refine ⟨level', raised, queue ▸ same, ?_⟩
    have placed' : Placed round level' after := Placed.adds popped.1 same adds
    exact placed'.mono (.refl _ _) fun kind' key' endpoint' mem => by
      rwa [unmatched, waitingMap_note] at mem
  · rename_i middle result
    rw [result] at popped queue streamInfo
    simp only [Except.ok.injEq] at run
    subst run
    refine ⟨level, ?_, ?_, popped.1.setWaiting kind key fun other mem => ?_⟩
    · refine heights.silent ?_ ?_
      · exact (queue_setWaiting _ _ _ _).trans queue
      · refine Eq.trans ?_ streamInfo
        cases kind <;> rfl
    · rw [enqueueUnmatchedP2PEndpoint, queue_setWaiting, queue]
      exact .refl _ _
    · rw [Option.getD_some, List.mem_append, List.mem_singleton] at mem
      rcases mem with old | rfl
      · exact popped.1 kind key other old
      · exact queue ▸ here

/-- A send or a receive outside of a group. -/
theorem ncclUngroupedP2P {count : ℕ} {dtype : NcclDatatype} {peer : ℤ} {comm : NcclComm}
    {stream : CudaStream} (heights : Heights cap level sim) (placed : Placed round level sim)
    (low : cap (host, stream) ≤ 3 * round sim.handled) (agreed : Agreed round sim')
    (run : sim.ncclUngroupedP2P env kind host time count dtype peer comm stream = .ok sim') :
    ∃ level', Heights (Function.update cap (host, stream) (3 * round sim.handled + 2)) level' sim' ∧
      SameLevels level level' sim.queue sim'.queue ∧ Placed round level' sim' := by
  simp only [Simulator.ncclUngroupedP2P, createUngroupedP2PEndpoint, bind_eq_ok, pure_eq_ok,
    Prod.exists, Prod.mk.injEq] at run
  rcases run with ⟨first, barrier, addedBarrier, _, endpoint, ⟨second, start, addedStart, third,
    finish, addedFinish, rfl, rfl⟩, matched⟩
  rcases heights.addActionOrPoint
    (EventQueue.notAbove_barrier level sim.queue (3 * round sim.handled)) addedBarrier with
    ⟨level₁, blocked, same₁, onBarrier⟩
  rcases blocked.addEvent low (onBarrier.notAbove le_rfl).only addedStart with
    ⟨level₂, started, same₂, onStart⟩
  have high : Function.update cap (host, stream) (3 * round sim.handled) (host, stream) ≤
      3 * round sim.handled + 2 := by
    rw [Function.update_self]
    exact Nat.le_add_right _ 2
  rcases started.addEvent high (onStart.notAbove (Nat.le_add_right _ 2)).only addedFinish with
    ⟨level₃, ended, same₃, onFinish⟩
  rw [Function.update_idem] at ended
  have blocks := (addActionOrPoint_aside rfl addedBarrier).1
  have points := (blocks.trans (addEvent_aside rfl addedStart).1).trans
    (addEvent_aside rfl addedFinish).1
  have same := (same₁.trans same₂).trans same₃
  have here : P2PFlowEndpoint.At
      ⟨host, stream, time, count, dtype, start, finish, barrier, ⟨first.handled, 0⟩⟩
      (round first.handled) level₃ third.queue := by
    rw [blocks.handled]
    exact ⟨same₃.onLevel onStart, onFinish⟩
  rcases ended.matchOrEnqueueP2PEndpoint (placed.adds same points) here agreed matched with
    ⟨level₄, raised, same₄, placed'⟩
  exact ⟨level₄, raised, same.trans same₄, placed'⟩

/-- The points of the calls of a group that have been set up are on the levels of a round. -/
def SetupsAt (now : ℕ) (level : EventId → ℕ) (acc : Simulator × List FlowSetup) : Prop :=
  ∀ setup ∈ acc.2, ∀ host time, (setup.endpoint host time).At now level acc.1.queue

theorem setupFlows {groupStart : EventId} {calls : List P2PCallInfo} {setups : List FlowSetup}
    (heights : Heights cap level sim) (onStart : OnLevel level sim.queue groupStart (3 * now))
    (run : calls.foldlM (setupFlow env time groupStart) (sim, []) = .ok (sim', setups)) :
    ∃ level', Heights cap level' sim' ∧ SameLevels level level' sim.queue sim'.queue ∧
      SetupsAt now level' (sim', setups) := by
  refine foldlM_invariant (fun acc : Simulator × List FlowSetup => ∃ level',
    Heights cap level' acc.1 ∧ SameLevels level level' sim.queue acc.1.queue ∧
      SetupsAt now level' acc) ?_ ⟨level, heights, .refl _ _, fun _ mem => by cases mem⟩ run
  rintro acc call acc' _ ⟨level', heights', same', sets⟩ step
  simp only [setupFlow, bind_eq_ok, pure_eq_ok, Prod.exists] at step
  rcases step with ⟨first, barrier, addedBarrier, second, start, addedStart, third, finish,
    addedFinish, rfl⟩
  rcases heights'.addActionOrPoint (EventQueue.notAbove_barrier level' acc.1.queue (3 * now))
    addedBarrier with ⟨level₁, blocked, same₁, onBarrier⟩
  have low : ∀ d, some d ∈ [some groupStart, some barrier] →
      NotAbove level₁ first.queue d (3 * now) := by
    intro d mem
    simp only [List.mem_cons, Option.some.injEq, List.not_mem_nil, or_false] at mem
    rcases mem with rfl | rfl
    · exact ((same'.trans same₁).onLevel onStart).notAbove le_rfl
    · exact onBarrier.notAbove le_rfl
  rcases blocked.addActionOrPoint low addedStart with ⟨level₂, started, same₂, onFlowStart⟩
  rcases started.addActionOrPoint (onFlowStart.notAbove (Nat.le_add_right _ 2)).only
    addedFinish with ⟨level₃, ended, same₃, onFlowEnd⟩
  have whole := (same₁.trans same₂).trans same₃
  refine ⟨level₃, ended, same'.trans whole, fun setup mem host time => ?_⟩
  rcases List.mem_append.mp mem with old | new
  · exact (sets setup old host time).mono whole
  · rw [List.mem_singleton.mp new]
    exact ⟨same₃.onLevel onFlowStart, onFlowEnd⟩

/-- The calls of a group are matched one after another. -/
theorem offerSetups {setups : List FlowSetup} (heights : Heights cap level sim)
    (placed : Placed round level sim) (sets : SetupsAt now level (sim, setups))
    (rounds : ∀ setup ∈ setups, round setup.call.tag.message = now) (agreed : Agreed round sim')
    (run : setups.foldlM (offerSetup env host time) sim = .ok sim') :
    ∃ level', Heights cap level' sim' ∧ SameLevels level level' sim.queue sim'.queue ∧
      Placed round level' sim' := by
  induction setups generalizing sim level with
  | nil =>
      simp only [List.foldlM_nil, pure_eq_ok] at run
      subst run
      exact ⟨level, heights, .refl _ _, placed⟩
  | cons setup setups ih =>
      simp only [List.foldlM_cons, bind_eq_ok] at run
      rcases run with ⟨middle, offered, rest⟩
      have keeps : KeepsCollectives middle sim' := KeepsCollectives.foldlM (fun sim => sim)
        (fun step => matchOrEnqueueP2PEndpoint_keepsCollectives step) rest
      have here : (setup.endpoint host time).At
          (round (setup.endpoint host time).tag.message) level sim.queue := by
        have isNow := rounds setup List.mem_cons_self
        exact isNow ▸ sets setup List.mem_cons_self host time
      rcases heights.matchOrEnqueueP2PEndpoint placed here (agreed.earlier keeps) offered with
        ⟨level₁, raised, same₁, placed₁⟩
      rcases ih raised placed₁
        (fun other mem host time => (sets other (List.mem_cons_of_mem _ mem) host time).mono same₁)
        (fun other mem => rounds other (List.mem_cons_of_mem _ mem)) rest with
        ⟨level₂, raised', same₂, placed₂⟩
      exact ⟨level₂, raised', same₁.trans same₂, placed₂⟩

/-- The calls of a group on one stream. -/
theorem streamGroup {group : CudaStream × List P2PCallInfo} (heights : Heights cap level sim)
    (placed : Placed round level sim) (low : cap (host, group.1) ≤ 3 * now)
    (rounds : ∀ info ∈ group.2, round info.tag.message = now) (agreed : Agreed round sim')
    (run : Simulator.streamGroup env host time sim group = .ok sim') :
    ∃ level', Heights (Function.update cap (host, group.1) (3 * now + 2)) level' sim' ∧
      SameLevels level level' sim.queue sim'.queue ∧ Placed round level' sim' := by
  simp only [Simulator.streamGroup, bind_eq_ok, Prod.exists] at run
  rcases run with ⟨first, barrier, addedBarrier, second, groupStart, addedStart, third, setups,
    folded, fourth, groupEnd, addedFinish, fifth, offered, release⟩
  rcases heights.addActionOrPoint (EventQueue.notAbove_barrier level sim.queue (3 * now))
    addedBarrier with ⟨level₁, blocked, same₁, onBarrier⟩
  rcases blocked.addEvent low (onBarrier.notAbove le_rfl).only addedStart with
    ⟨level₂, started, same₂, onStart⟩
  rcases started.setupFlows onStart folded with ⟨level₃, set, same₃, sets⟩
  have high : Function.update cap (host, group.1) (3 * now) (host, group.1) ≤ 3 * now + 2 := by
    rw [Function.update_self]
    exact Nat.le_add_right _ 2
  have ends : ∀ d, some d ∈ some groupStart :: setups.map (fun setup => some setup.flowEnd) →
      NotAbove level₃ third.queue d (3 * now + 2) := by
    intro d mem
    rcases List.mem_cons.mp mem with isStart | mem
    · rw [Option.some.inj isStart]
      exact (same₃.onLevel onStart).notAbove (Nat.le_add_right _ 2)
    · rcases List.mem_map.mp mem with ⟨setup, mem, isEnd⟩
      rw [← Option.some.inj isEnd]
      exact (sets setup mem host time).ends.notAbove le_rfl
  rcases set.addEvent high ends addedFinish with ⟨level₄, ended, same₄, _⟩
  rw [Function.update_idem] at ended
  have same := ((same₁.trans same₂).trans same₃).trans same₄
  have blocks := (addActionOrPoint_aside rfl addedBarrier).1
  rcases setupFlows_eq_ok folded with ⟨sides, calls⟩
  have points := ((blocks.trans (addEvent_aside rfl addedStart).1).trans sides).trans
    (addEvent_aside rfl addedFinish).1
  have isNow : ∀ setup ∈ setups, round setup.call.tag.message = now := by
    intro setup mem
    exact rounds setup.call (calls ▸ List.mem_map_of_mem mem)
  have frees := removeNoneDependency_aside release
  rcases ended.offerSetups (placed.adds same points)
    (fun setup mem host time => (sets setup mem host time).mono same₄) isNow
    (agreed.earlier (.of_aside frees)) offered with ⟨level₅, raised, same₅, placed₅⟩
  rcases raised.removeNoneDependency release with ⟨freed, same₆⟩
  exact ⟨level₅, freed, (same.trans same₅).trans same₆, placed₅.adds same₆ frees⟩

/-- The calls of a group, which goes past the round on each of its streams. -/
theorem streamGroups {groups : List (CudaStream × List P2PCallInfo)}
    (heights : Heights cap level sim)
    (placed : Placed round level sim) (nodup : (groups.map Prod.fst).Nodup)
    (low : ∀ group ∈ groups, cap (host, group.1) ≤ 3 * now)
    (rounds : ∀ group ∈ groups, ∀ info ∈ group.2, round info.tag.message = now)
    (agreed : Agreed round sim')
    (run : groups.foldlM (Simulator.streamGroup env host time) sim = .ok sim') :
    ∃ level', Heights (fun stream => if stream ∈ groups.map (fun group => (host, group.1))
        then 3 * now + 2 else cap stream) level' sim' ∧
      SameLevels level level' sim.queue sim'.queue ∧ Placed round level' sim' := by
  induction groups generalizing sim level cap with
  | nil =>
      simp only [List.foldlM_nil, pure_eq_ok] at run
      subst run
      exact ⟨level, by simpa using heights, .refl _ _, placed⟩
  | cons group groups ih =>
      simp only [List.foldlM_cons, bind_eq_ok] at run
      rcases run with ⟨middle, grouped, rest⟩
      rw [List.map_cons, List.nodup_cons] at nodup
      have keeps : KeepsCollectives middle sim' := KeepsCollectives.foldlM (fun sim => sim)
        (fun step => streamGroup_keepsCollectives step) rest
      rcases heights.streamGroup placed (low group List.mem_cons_self)
        (rounds group List.mem_cons_self) (agreed.earlier keeps) grouped with
        ⟨level₁, raised, same₁, placed₁⟩
      have lower : ∀ other ∈ groups, Function.update cap (host, group.1) (3 * now + 2)
          (host, other.1) ≤ 3 * now := by
        intro other mem
        have differs : (host, other.1) ≠ (host, group.1) := by
          rintro same
          exact nodup.1 (List.mem_map.mpr ⟨other, mem, (Prod.mk.inj same).2⟩)
        rw [Function.update_of_ne differs]
        exact low other (List.mem_cons_of_mem _ mem)
      rcases ih raised placed₁ nodup.2 lower
        (fun other mem => rounds other (List.mem_cons_of_mem _ mem)) rest with
        ⟨level₂, raised', same₂, placed₂⟩
      refine ⟨level₂, raised'.mono fun stream => ?_, same₁.trans same₂, placed₂⟩
      by_cases isFirst : stream = (host, group.1)
      · subst isFirst
        simp only [List.map_cons, List.mem_cons, true_or, if_true, Function.update_self, ite_self,
          le_refl]
      · simp only [List.map_cons, List.mem_cons, isFirst, false_or,
          Function.update_of_ne isFirst, le_refl]

end Heights

end Transfers

end Simulator

end Phantora
