import Mathlib.Data.Set.Insert
import Phantora.EventQueue.Barriers
import Phantora.Simulator.NcclSteps

/-!
# Who holds the barriers

An instance of a collective holds its barrier until all ranks have joined it, and an
unmatched call holds one until its peer arrives. The events that wait behind a barrier
are these, so that none waits for nothing and none is released before its time.
-/

namespace Phantora

open Outcome

/-- What holds barriers: the waiting instances of a collective, or the unmatched calls of a kind. -/
inductive Holder where
  | instances (op : Collective) (id : NcclId)
  | calls (kind : P2PCallKind) (key : P2PKey)
deriving DecidableEq

namespace Simulator

variable {env : Environment} {sim sim' : Simulator}

/-- The unmatched calls of a kind between two ranks. -/
def unmatched (sim : Simulator) (kind : P2PCallKind) (key : P2PKey) : List P2PFlowEndpoint :=
  (sim.waitingMap kind key).getD []

/-- The barriers that are held. -/
def barriers (sim : Simulator) : Holder → List EventId
  | .instances op id => (sim.waitings op id).map CCWaiting.commBarrier
  | .calls kind key => (sim.unmatched kind key).map P2PFlowEndpoint.unmatchedBarrier

/-- The events behind a barrier are those whose barriers are held, each in one place, and some
that the message has just set up. -/
structure Gated (loose : Set EventId) (sim : Simulator) : Prop where
  fresh : sim.queue.Fresh
  barred : ∀ e, sim.queue.Barred e ↔ e ∈ loose ∨ ∃ holder, e ∈ sim.barriers holder
  nodup : ∀ holder, (sim.barriers holder).Nodup
  apart : ∀ {holder other e}, e ∈ sim.barriers holder → e ∈ sim.barriers other → holder = other
  free : ∀ {holder e}, e ∈ sim.barriers holder → e ∉ loose

theorem barriers_of_same (ccWaiting : sim'.ccWaiting = sim.ccWaiting)
    (sendWaiting : sim'.sendWaiting = sim.sendWaiting)
    (recvWaiting : sim'.recvWaiting = sim.recvWaiting) : sim'.barriers = sim.barriers := by
  funext holder
  rcases holder with ⟨op, id⟩ | ⟨kind, key⟩
  · simp only [barriers, waitings, ccWaiting]
  · cases kind <;> simp only [barriers, unmatched, waitingMap, sendWaiting, recvWaiting]

theorem barriers_setCCWaiting (op : Collective) (id : NcclId) (list : List CCWaiting)
    (holder : Holder) : (sim.setCCWaiting op id list).barriers holder =
      if holder = .instances op id then list.map CCWaiting.commBarrier
      else sim.barriers holder := by
  rcases holder with ⟨op', id'⟩ | ⟨kind, key⟩
  · simp only [barriers, waitings_setCCWaiting, Holder.instances.injEq]
    split <;> rfl
  · cases kind <;> simp [barriers, unmatched, waitingMap, setCCWaiting]

theorem barriers_setWaiting (kind : P2PCallKind) (key : P2PKey)
    (queue : Option (List P2PFlowEndpoint)) (holder : Holder) :
    (sim.setWaiting kind key queue).barriers holder =
      if holder = .calls kind key then (queue.getD []).map P2PFlowEndpoint.unmatchedBarrier
      else sim.barriers holder := by
  rcases holder with ⟨op', id'⟩ | ⟨kind', key'⟩
  · cases kind <;> simp [barriers, waitings, setWaiting]
  · simp only [barriers, unmatched, waitingMap_setWaiting, Holder.calls.injEq]
    split <;> rfl

namespace Gated

variable {loose : Set EventId} {e : EventId}

/-- An event behind a barrier exists. -/
theorem lt (gated : Gated loose sim) (held : e ∈ loose ∨ ∃ holder, e ∈ sim.barriers holder) :
    e < sim.queue.eventCounter := by
  by_contra later
  rcases (gated.barred e).mpr held with ⟨p, known, _⟩
  rw [gated.fresh e (Nat.le_of_not_lt later)] at known
  cases known

/-- The barriers stay, in the queue and with their holders. -/
theorem keep (gated : Gated loose sim) (fresh : sim'.queue.Fresh)
    (barred : ∀ e, sim'.queue.Barred e ↔ sim.queue.Barred e)
    (barriers : sim'.barriers = sim.barriers) : Gated loose sim' := by
  refine ⟨fresh, fun e => ?_, ?_, ?_, ?_⟩
  · rw [barred, gated.barred, barriers]
  · rw [barriers]
    exact gated.nodup
  · rw [barriers]
    exact gated.apart
  · rw [barriers]
    exact gated.free

/-- The queue goes on, and nothing about its barriers changes. -/
theorem queue {queue : EventQueue} (gated : Gated loose sim)
    (same : EventQueue.SameBarriers sim.queue queue)
    (counter : sim.queue.eventCounter ≤ queue.eventCounter) :
    Gated loose { sim with queue := queue } :=
  gated.keep (gated.fresh.keep same counter) same.barred rfl

/-- Nothing about the queue and the holders changes. -/
theorem silent (gated : Gated loose sim) (queue : sim'.queue = sim.queue)
    (barriers : sim'.barriers = sim.barriers) : Gated loose sim' :=
  gated.keep (queue ▸ gated.fresh) (fun _ => by rw [queue]) barriers

theorem executes (gated : Gated loose sim) (executes : OnlyExecutes env.toPlatform sim sim') :
    Gated loose sim' := by
  rcases executes with ⟨queue, _, _, _, _, evolves, _, rfl⟩
  exact (gated.queue evolves.barred evolves.grows.eventCounter.ge).silent rfl rfl

/-- An event is added without a barrier. -/
theorem add {dependsOn : List (Option EventId)} {action : Option Action} {time : ℤ} {id : EventId}
    (gated : Gated loose sim) (unblocked : none ∉ dependsOn)
    (run : sim.addActionOrPoint env dependsOn action time = .ok (sim', id)) :
    Gated loose sim' := by
  rcases addActionOrPoint_eq_ok run with ⟨queue, added, rfl⟩
  rcases EventQueue.addActionOrPoint_barred gated.fresh added with ⟨fresh, barred⟩
  exact gated.keep fresh (fun e => (barred e).trans (by simp [unblocked])) rfl

theorem depend {id dep : EventId} (gated : Gated loose sim)
    (run : sim.addDependency id (some dep) = .ok sim') : Gated loose sim' := by
  rcases addDependency_eq_ok run with ⟨queue, added, rfl⟩
  exact gated.queue (EventQueue.addDependency_barred added)
    (EventQueue.addDependency_graph added).1.ge

/-- A barrier is set up. -/
theorem block {time : ℤ} {id : EventId} (gated : Gated loose sim)
    (run : sim.addActionOrPoint env [none] none time = .ok (sim', id)) :
    Gated (insert id loose) sim' ∧ id ∉ loose ∧ id = sim.queue.eventCounter ∧
      sim'.queue.eventCounter = id + 1 := by
  rcases addActionOrPoint_eq_ok run with ⟨queue, added, rfl⟩
  rcases EventQueue.addActionOrPoint_graph added with ⟨rfl, counter, _⟩
  rcases EventQueue.addActionOrPoint_barred gated.fresh added with ⟨fresh, barred⟩
  refine ⟨⟨fresh, fun e => ?_, gated.nodup, gated.apart, fun {holder e} mem => ?_⟩, ?_, rfl,
    counter⟩
  · rw [barred, gated.barred, Set.mem_insert_iff]
    simp only [List.mem_singleton, and_true]
    exact or_right_comm.trans (or_congr_left or_comm)
  · rintro (rfl | old)
    · exact absurd (gated.lt (Or.inr ⟨holder, mem⟩)) (Nat.lt_irrefl _)
    · exact gated.free mem old
  · intro old
    exact absurd (gated.lt (Or.inl old)) (Nat.lt_irrefl _)

/-- A barrier that nothing holds is taken down. -/
theorem unblock {id : EventId} (gated : Gated (insert id loose) sim) (new : id ∉ loose)
    (run : sim.removeNoneDependency env id = .ok sim') : Gated loose sim' := by
  rcases removeNoneDependency_eq_ok run with ⟨queue, removed, rfl⟩
  rcases EventQueue.removeNoneDependency_barred removed with ⟨absent, barred⟩
  have counter := (EventQueue.removeNoneDependency_grows removed).eventCounter
  refine ⟨fun e known => absent e (gated.fresh e (counter ▸ known)), fun e => ?_, gated.nodup,
    gated.apart, fun mem old => gated.free mem (Set.mem_insert_of_mem id old)⟩
  rw [barred, gated.barred, Set.mem_insert_iff]
  constructor
  · rintro ⟨(rfl | old) | held, differs⟩
    · exact absurd rfl differs
    · exact Or.inl old
    · exact Or.inr held
  · rintro (old | ⟨holder, held⟩)
    · refine ⟨Or.inl (Or.inr old), ?_⟩
      rintro rfl
      exact new old
    · refine ⟨Or.inr ⟨holder, held⟩, ?_⟩
      rintro rfl
      exact gated.free held (Set.mem_insert e loose)

/-- A barrier is held from now on. -/
theorem hold (holder : Holder) (gated : Gated (insert e loose) sim) (new : e ∉ loose)
    (queue : sim'.queue = sim.queue) (here : sim'.barriers holder = sim.barriers holder ++ [e])
    (others : ∀ other, other ≠ holder → sim'.barriers other = sim.barriers other) :
    Gated loose sim' := by
  have mem : ∀ other d, d ∈ sim'.barriers other ↔
      d ∈ sim.barriers other ∨ (other = holder ∧ d = e) := by
    intro other d
    by_cases same : other = holder
    · subst same
      simp [here]
    · simp [others other same, same]
  have unheld : ∀ other, e ∉ sim.barriers other :=
    fun other held => gated.free held (Set.mem_insert e loose)
  refine ⟨queue ▸ gated.fresh, fun d => ?_, fun other => ?_, ?_, ?_⟩
  · rw [queue, gated.barred, Set.mem_insert_iff]
    simp only [mem]
    constructor
    · rintro ((rfl | old) | ⟨other, held⟩)
      · exact Or.inr ⟨holder, Or.inr ⟨rfl, rfl⟩⟩
      · exact Or.inl old
      · exact Or.inr ⟨other, Or.inl held⟩
    · rintro (old | ⟨other, held | ⟨_, rfl⟩⟩)
      · exact Or.inl (Or.inr old)
      · exact Or.inr ⟨other, held⟩
      · exact Or.inl (Or.inl rfl)
  · by_cases same : other = holder
    · subst same
      rw [here]
      refine List.nodup_append.mpr ⟨gated.nodup other, List.nodup_singleton e, ?_⟩
      rintro d held _ isNew rfl
      exact unheld other (List.mem_singleton.mp isNew ▸ held)
    · rw [others other same]
      exact gated.nodup other
  · intro first second d inFirst inSecond
    rcases (mem first d).mp inFirst with left | ⟨isHolder, rfl⟩
    · rcases (mem second d).mp inSecond with right | ⟨_, rfl⟩
      · exact gated.apart left right
      · exact absurd left (unheld first)
    · rcases (mem second d).mp inSecond with right | ⟨alsoHolder, _⟩
      · exact absurd right (unheld second)
      · rw [isHolder, alsoHolder]
  · intro other d held old
    rcases (mem other d).mp held with held | ⟨_, rfl⟩
    · exact gated.free held (Set.mem_insert_of_mem e old)
    · exact new old

/-- A barrier is held no longer. -/
theorem drop (holder : Holder) {before after : List EventId} (gated : Gated loose sim)
    (queue : sim'.queue = sim.queue) (held : sim.barriers holder = before ++ e :: after)
    (here : sim'.barriers holder = before ++ after)
    (others : ∀ other, other ≠ holder → sim'.barriers other = sim.barriers other) :
    Gated (insert e loose) sim' ∧ e ∉ loose := by
  have isHeld : e ∈ sim.barriers holder := by simp [held]
  have nodup := gated.nodup holder
  rw [held, List.nodup_middle, List.nodup_cons] at nodup
  have mem : ∀ other d, d ∈ sim.barriers other ↔
      d ∈ sim'.barriers other ∨ (other = holder ∧ d = e) := by
    intro other d
    by_cases same : other = holder
    · subst same
      simp only [held, here, List.mem_append, List.mem_cons, true_and]
      tauto
    · simp [others other same, same]
  have unheld : ∀ other, e ∉ sim'.barriers other := by
    intro other still
    have same := gated.apart ((mem other e).mpr (Or.inl still)) isHeld
    subst same
    rw [here] at still
    exact nodup.1 still
  refine ⟨⟨queue ▸ gated.fresh, fun d => ?_, fun other => ?_, ?_, ?_⟩, gated.free isHeld⟩
  · rw [queue, gated.barred, Set.mem_insert_iff]
    simp only [mem]
    constructor
    · rintro (old | ⟨other, still | ⟨_, rfl⟩⟩)
      · exact Or.inl (Or.inr old)
      · exact Or.inr ⟨other, still⟩
      · exact Or.inl (Or.inl rfl)
    · rintro ((rfl | old) | ⟨other, still⟩)
      · exact Or.inr ⟨holder, Or.inr ⟨rfl, rfl⟩⟩
      · exact Or.inl old
      · exact Or.inr ⟨other, Or.inl still⟩
  · by_cases same : other = holder
    · subst same
      rw [here]
      exact nodup.2
    · rw [others other same]
      exact gated.nodup other
  · intro first second d inFirst inSecond
    exact gated.apart ((mem first d).mpr (Or.inl inFirst)) ((mem second d).mpr (Or.inl inSecond))
  · intro other d still
    rw [Set.mem_insert_iff, not_or]
    refine ⟨?_, gated.free ((mem other d).mpr (Or.inl still))⟩
    rintro rfl
    exact unheld other still

section Submit

variable {stream : HostStream} {dependsOn : List (Option EventId)} {action : Option Action}
  {time : ℤ} {id : EventId}

theorem submit (gated : Gated loose sim) (unblocked : none ∉ dependsOn)
    (run : sim.submit env stream dependsOn action time = .ok (sim', id)) :
    Gated loose sim' := by
  simp only [Simulator.submit, bind_eq_ok, pure_eq_ok, Prod.exists, Prod.mk.injEq] at run
  rcases run with ⟨middle, _, added, rfl, rfl⟩
  refine (gated.add ?_ added).silent rfl rfl
  rw [List.mem_append]
  rintro (mem | mem)
  · exact unblocked mem
  · simp at mem

theorem submitCalls {calls : List TorchCall} {durs : List ℕ} (gated : Gated loose sim)
    (run : submitCalls env stream calls durs sim = .ok sim') : Gated loose sim' := by
  induction calls generalizing sim durs with
  | nil =>
      simp only [Simulator.submitCalls, Except.ok.injEq] at run
      exact run ▸ gated
  | cons call calls ih =>
      simp only [Simulator.submitCalls, bind_eq_ok, Prod.exists] at run
      rcases run with ⟨_, _, middle, _, submitted, rest⟩
      exact ih (gated.submit List.not_mem_nil submitted) rest

theorem clearComputeBufferOn (gated : Gated loose sim)
    (run : sim.clearComputeBufferOn env stream = .ok sim') : Gated loose sim' := by
  refine foldlM_invariant (Gated loose) ?_ ?_ run
  · intro first seq second _ earlier step
    cases seq with
    | single call duration => exact earlier.submitCalls step
    | seq calls =>
        have estimated : Gated loose { first with
            torchEstimator := (first.torchEstimator.estimateSequence env.profiler calls).1 } :=
          earlier.silent rfl rfl
        exact estimated.submitCalls step
  · exact gated.silent rfl rfl

theorem addEvent (gated : Gated loose sim) (unblocked : none ∉ dependsOn)
    (run : sim.addEvent env stream dependsOn action time = .ok (sim', id)) :
    Gated loose sim' := by
  simp only [Simulator.addEvent, bind_eq_ok] at run
  rcases run with ⟨middle, cleared, submitted⟩
  exact (gated.clearComputeBufferOn cleared).submit unblocked submitted

theorem addComputation {node : HostId} {stream : CudaStream} {duration : ℤ} {call : CudaCall}
    (gated : Gated loose sim)
    (run : sim.addComputation env node time stream duration call = .ok sim') :
    Gated loose sim' := by
  simp only [Simulator.addComputation, bind_eq_ok, pure_eq_ok, Prod.exists] at run
  rcases run with ⟨middle, _, added, rfl⟩
  exact gated.addEvent List.not_mem_nil added

end Submit

section Transfers

variable {kind : P2PCallKind} {key : P2PKey} {endpoint : P2PFlowEndpoint} {time : ℤ}

/-- An unmatched call that is taken out leaves its barrier. -/
theorem popP2PEndpoint (gated : Gated loose sim) (kind : P2PCallKind) (key : P2PKey) :
    ((sim.popP2PEndpoint kind key).1 = none → Gated loose (sim.popP2PEndpoint kind key).2) ∧
      ∀ endpoint, (sim.popP2PEndpoint kind key).1 = some endpoint →
        Gated (insert endpoint.unmatchedBarrier loose) (sim.popP2PEndpoint kind key).2 ∧
          endpoint.unmatchedBarrier ∉ loose := by
  simp only [Simulator.popP2PEndpoint]
  split
  · exact ⟨fun _ => gated, fun _ known => by cases known⟩
  · rename_i queue waits
    have held : sim.barriers (.calls kind key) =
        queue.map P2PFlowEndpoint.unmatchedBarrier := by
      simp [barriers, unmatched, waits]
    have left : ∀ holder, (sim.setWaiting kind key
        (if queue.tail = [] then none else some queue.tail)).barriers holder =
          if holder = .calls kind key then queue.tail.map P2PFlowEndpoint.unmatchedBarrier
          else sim.barriers holder := by
      intro holder
      rw [barriers_setWaiting]
      by_cases empty : queue.tail = [] <;> simp [empty]
    refine ⟨fun alone => ?_, fun endpoint first => ?_⟩
    · refine gated.silent (by cases kind <;> rfl) (funext fun holder => ?_)
      rw [List.head?_eq_none_iff] at alone
      rw [left]
      split
      · rename_i same
        rw [same, held, alone]
        rfl
      · rfl
    · rcases List.head?_eq_some_iff.mp first with ⟨rest, rfl⟩
      have first : sim.barriers (.calls kind key) =
          [] ++ endpoint.unmatchedBarrier :: rest.map P2PFlowEndpoint.unmatchedBarrier := held
      refine gated.drop (.calls kind key) (by cases kind <;> rfl) first ?_ fun other differs => ?_
      · rw [left, if_pos rfl]
        rfl
      · rw [left, if_neg differs]

theorem scheduleP2PFlow {send recv : P2PFlowEndpoint}
    (gated : Gated (insert send.unmatchedBarrier (insert recv.unmatchedBarrier loose)) sim)
    (differs : send.unmatchedBarrier ≠ recv.unmatchedBarrier)
    (sendNew : send.unmatchedBarrier ∉ loose) (recvNew : recv.unmatchedBarrier ∉ loose)
    (run : sim.scheduleP2PFlow env send recv key = .ok sim') : Gated loose sim' := by
  simp only [Simulator.scheduleP2PFlow, bind_eq_ok, pure_eq_ok, Prod.exists] at run
  rcases run with ⟨added, flow, addedFlow, first, firstWait, second, secondWait, third,
    firstRelease, fourth, secondRelease, rfl⟩
  have counted : Gated (insert send.unmatchedBarrier (insert recv.unmatchedBarrier loose))
      { sim with nextFlowId := sim.nextFlowId + 1 } := gated.silent rfl rfl
  have waits := ((counted.add (by simp) addedFlow).depend firstWait).depend secondWait
  have freed := waits.unblock (by simp [differs, sendNew]) firstRelease
  exact (freed.unblock recvNew secondRelease).silent rfl rfl

/-- A call whose barrier has been set up is matched, or holds it. -/
theorem matchOrEnqueueP2PEndpoint (gated : Gated (insert endpoint.unmatchedBarrier loose) sim)
    (new : endpoint.unmatchedBarrier ∉ loose)
    (run : sim.matchOrEnqueueP2PEndpoint env kind key endpoint = .ok sim') :
    Gated loose sim' := by
  simp only [Simulator.matchOrEnqueueP2PEndpoint] at run
  have noted : Gated (insert endpoint.unmatchedBarrier loose)
      (sim.note (.offered kind key endpoint.tag)) := gated.silent rfl rfl
  have popped := noted.popP2PEndpoint kind.peer key
  split at run
  · rename_i peerEndpoint middle result
    rw [result] at popped
    rcases popped.2 peerEndpoint rfl with ⟨taken, peerNew⟩
    rw [Set.mem_insert_iff, not_or] at peerNew
    cases kind with
    | send =>
        rw [Set.insert_comm] at taken
        exact taken.scheduleP2PFlow (Ne.symm peerNew.1) new peerNew.2 run
    | recv => exact taken.scheduleP2PFlow peerNew.1 peerNew.2 new run
  · rename_i middle result
    rw [result] at popped
    have alone := popped.1 rfl
    simp only [Except.ok.injEq] at run
    subst run
    refine alone.hold (.calls kind key) new (by cases kind <;> rfl) ?_ ?_
    · rw [enqueueUnmatchedP2PEndpoint, barriers_setWaiting, if_pos rfl]
      simp [barriers, unmatched]
    · intro other differs
      rw [enqueueUnmatchedP2PEndpoint, barriers_setWaiting, if_neg differs]

theorem ncclUngroupedP2P {host : HostId} {count : ℕ} {dtype : NcclDatatype} {peer : ℤ}
    {comm : NcclComm} {stream : CudaStream} (gated : Gated ∅ sim)
    (run : sim.ncclUngroupedP2P env kind host time count dtype peer comm stream = .ok sim') :
    Gated ∅ sim' := by
  simp only [Simulator.ncclUngroupedP2P, createUngroupedP2PEndpoint, bind_eq_ok, pure_eq_ok,
    Prod.exists, Prod.mk.injEq] at run
  rcases run with ⟨first, barrier, addedBarrier, _, endpoint, ⟨second, start, addedStart, third,
    finish, addedFinish, rfl, rfl⟩, matched⟩
  rcases gated.block addedBarrier with ⟨blocked, new, _⟩
  have points := (blocked.addEvent (by simp) addedStart).addEvent (by simp) addedFinish
  exact points.matchOrEnqueueP2PEndpoint new matched

/-- The barriers of the calls of a group that have been set up. -/
def setupBarriers (setups : List FlowSetup) : Set EventId :=
  {e | e ∈ setups.map FlowSetup.unmatchedBarrier}

theorem setupBarriers_cons (setup : FlowSetup) (setups : List FlowSetup) :
    setupBarriers (setup :: setups) = insert setup.unmatchedBarrier (setupBarriers setups) := by
  ext e
  simp [setupBarriers]

theorem setupFlow {groupStart : EventId} {acc acc' : Simulator × List FlowSetup}
    {call : P2PCallInfo} (gated : Gated (setupBarriers acc.2 ∪ loose) acc.1)
    (nodup : (acc.2.map FlowSetup.unmatchedBarrier).Nodup)
    (apart : ∀ e ∈ setupBarriers acc.2, e ∉ loose)
    (run : Simulator.setupFlow env time groupStart acc call = .ok acc') :
    Gated (setupBarriers acc'.2 ∪ loose) acc'.1 ∧
      (acc'.2.map FlowSetup.unmatchedBarrier).Nodup ∧ ∀ e ∈ setupBarriers acc'.2, e ∉ loose := by
  simp only [Simulator.setupFlow, bind_eq_ok, pure_eq_ok, Prod.exists] at run
  rcases run with ⟨first, barrier, addedBarrier, second, start, addedStart, third, finish,
    addedFinish, rfl⟩
  rcases gated.block addedBarrier with ⟨blocked, new, _⟩
  rw [Set.mem_union, not_or] at new
  have points := (blocked.add (by simp) addedStart).add (by simp) addedFinish
  have grown : setupBarriers (acc.2 ++ [⟨call, barrier, start, finish⟩]) =
      insert barrier (setupBarriers acc.2) := by
    ext e
    simp [setupBarriers, or_comm]
  refine ⟨?_, ?_, ?_⟩
  · dsimp only
    rw [grown, Set.insert_union]
    exact points
  · rw [List.map_append, List.nodup_append]
    refine ⟨nodup, List.nodup_singleton _, ?_⟩
    rintro e old _ isNew rfl
    rw [List.map_singleton, List.mem_singleton] at isNew
    subst isNew
    exact new.1 old
  · dsimp only
    rw [grown]
    rintro e (rfl | old)
    · exact new.2
    · exact apart e old

/-- The calls of a group are matched one after another. -/
theorem offerSetups {host : HostId} {setups : List FlowSetup}
    (gated : Gated (setupBarriers setups ∪ loose) sim)
    (nodup : (setups.map FlowSetup.unmatchedBarrier).Nodup)
    (apart : ∀ e ∈ setupBarriers setups, e ∉ loose)
    (run : setups.foldlM (offerSetup env host time) sim = .ok sim') : Gated loose sim' := by
  induction setups generalizing sim with
  | nil =>
      simp only [List.foldlM_nil, pure_eq_ok] at run
      subst run
      have none : setupBarriers [] ∪ loose = loose := by
        ext e
        simp [setupBarriers]
      exact none ▸ gated
  | cons setup setups ih =>
      simp only [List.foldlM_cons, bind_eq_ok] at run
      rcases run with ⟨middle, offered, rest⟩
      rw [setupBarriers_cons] at gated apart
      rw [List.map_cons, List.nodup_cons] at nodup
      rw [Set.insert_union] at gated
      have new : setup.unmatchedBarrier ∉ setupBarriers setups ∪ loose := by
        rintro (later | old)
        · exact nodup.1 later
        · exact apart _ (Set.mem_insert _ _) old
      have set : Gated (insert (setup.endpoint host time).unmatchedBarrier
          (setupBarriers setups ∪ loose)) sim := gated
      have matched := set.matchOrEnqueueP2PEndpoint new offered
      exact ih matched nodup.2 (fun e mem => apart e (Set.mem_insert_of_mem _ mem)) rest

theorem streamGroup {host : HostId} {group : CudaStream × List P2PCallInfo} (gated : Gated ∅ sim)
    (run : Simulator.streamGroup env host time sim group = .ok sim') : Gated ∅ sim' := by
  simp only [Simulator.streamGroup, bind_eq_ok, Prod.exists] at run
  rcases run with ⟨first, barrier, addedBarrier, second, groupStart, addedStart, third, setups,
    folded, fourth, _, addedFinish, fifth, offered, release⟩
  rcases gated.block addedBarrier with ⟨blocked, new, _⟩
  have started := blocked.addEvent (by simp) addedStart
  have empty : setupBarriers [] ∪ insert barrier ∅ = insert barrier ∅ := by
    ext e
    simp [setupBarriers]
  have sets : Gated (setupBarriers setups ∪ insert barrier ∅) third ∧
      (setups.map FlowSetup.unmatchedBarrier).Nodup ∧
        ∀ e ∈ setupBarriers setups, e ∉ (insert barrier ∅ : Set EventId) := by
    refine foldlM_invariant (fun acc : Simulator × List FlowSetup =>
      Gated (setupBarriers acc.2 ∪ insert barrier ∅) acc.1 ∧
        (acc.2.map FlowSetup.unmatchedBarrier).Nodup ∧
          ∀ e ∈ setupBarriers acc.2, e ∉ (insert barrier ∅ : Set EventId)) ?_ ?_ folded
    · rintro acc call acc' _ ⟨gated, nodup, apart⟩ step
      exact gated.setupFlow nodup apart step
    · refine ⟨?_, List.nodup_nil, fun e mem => absurd mem List.not_mem_nil⟩
      rw [empty]
      exact started
  rcases sets with ⟨set, nodup, apart⟩
  have finished := set.addEvent (by simp) addedFinish
  exact (finished.offerSetups nodup apart offered).unblock new release

end Transfers

section Collectives

variable {op : Collective} {host : HostId} {time : ℤ} {comm : NcclComm} {stream : CudaStream}
  {waiting : CCWaiting}

theorem newCCWaiting {ranks : Ranks} {trace : Trace} (gated : Gated ∅ sim)
    (run : sim.newCCWaiting env op ranks host time trace comm stream = .ok (sim', waiting)) :
    Gated (insert waiting.commBarrier ∅) sim' := by
  simp only [Simulator.newCCWaiting, bind_eq_ok, pure_eq_ok, Prod.exists, Prod.mk.injEq] at run
  rcases run with ⟨first, barrier, addedBarrier, second, start, addedStart, third, startMeta,
    addedStartMeta, fourth, endMeta, addedEndMeta, fifth, finish, addedFinish, rfl, rfl⟩
  have started := (gated.block addedBarrier).1.addEvent (by simp) addedStart
  have metas := (started.add (by simp) addedStartMeta).add (by simp) addedEndMeta
  exact (metas.addEvent (by simp) addedFinish).silent rfl rfl

theorem joinStream (gated : Gated loose sim)
    (run : sim.joinStream env op host time comm stream waiting = .ok sim') :
    Gated loose sim' := by
  simp only [Simulator.joinStream, bind_eq_ok, pure_eq_ok, Prod.exists] at run
  rcases run with ⟨first, start, addedStart, second, wait, third, finish, addedFinish, rfl⟩
  have started := (gated.addEvent (by simp) addedStart).depend wait
  exact (started.addEvent (by simp) addedFinish).silent rfl rfl

theorem completeCC {call : CudaCall} (gated : Gated (insert waiting.commBarrier loose) sim)
    (new : waiting.commBarrier ∉ loose)
    (run : sim.completeCC env op time comm call waiting = .ok sim') : Gated loose sim' := by
  simp only [Simulator.completeCC, bind_eq_ok, pure_eq_ok, Prod.exists] at run
  rcases run with ⟨first, flows, created, second, waited, third, released, rfl⟩
  have creates : Gated (insert waiting.commBarrier loose) first := by
    refine foldlM_invariant (fun acc : Simulator × List EventId =>
      Gated (insert waiting.commBarrier loose) acc.1) ?_ gated created
    intro acc flow acc' _ earlier step
    simp only [addCommEvent, bind_eq_ok, pure_eq_ok, Prod.exists] at step
    rcases step with ⟨after, event, added, rfl⟩
    exact earlier.add (by simp) added
  have waits : Gated (insert waiting.commBarrier loose) second := by
    refine foldlM_invariant (Gated (insert waiting.commBarrier loose)) ?_ creates waited
    exact fun _ earlier step => earlier.depend step
  exact (waits.unblock new released).silent rfl rfl

theorem ncclCall {ranks : Ranks} {trace : Trace} {call : CudaCall} (gated : Gated ∅ sim)
    (run : sim.ncclCall env op ranks host time trace comm stream call = .ok sim') :
    Gated ∅ sim' := by
  have others : ∀ {middle : Simulator} {list : List CCWaiting} (other : Holder),
      other ≠ .instances op comm.id →
      (middle.setCCWaiting op comm.id list).barriers other = middle.barriers other := by
    intro middle list other differs
    rw [barriers_setCCWaiting, if_neg differs]
  rcases ncclCall_cases run with ⟨middle, waiting, _, created, rfl⟩ |
    ⟨idx, waiting, middle, _, here, joined, rest⟩
  · rcases newCCWaiting_eq_ok created with ⟨before, _, _, aside, rfl, _⟩
    refine (gated.newCCWaiting created).hold (.instances op comm.id) (Set.notMem_empty _) rfl ?_
      others
    rw [barriers_setCCWaiting, if_pos rfl]
    simp [barriers, waitings, note, aside.ccWaiting]
  · have joins := gated.joinStream joined
    have same : middle.barriers = sim.barriers := by
      rcases joinStream_eq_ok joined with ⟨before, _, _, aside, rfl, _⟩
      exact barriers_of_same aside.ccWaiting aside.sendWaiting aside.recvWaiting
    rcases split_waitings here with ⟨earlier, later, whole, erased, replaced⟩
    have held : middle.barriers (.instances op comm.id) = earlier.map CCWaiting.commBarrier ++
        waiting.commBarrier :: later.map CCWaiting.commBarrier := by
      rw [same, barriers, whole, List.map_append, List.map_cons]
    rcases rest with ⟨_, rfl⟩ | ⟨_, completed⟩
    · refine joins.silent rfl (funext fun holder => ?_)
      rw [barriers_setCCWaiting]
      split
      · rename_i isHolder
        rw [isHolder, held, replaced, List.map_append, List.map_cons]
        rfl
      · rfl
    · have dropped : Gated (insert (waiting.join comm.rank).commBarrier ∅)
          (middle.setCCWaiting op comm.id ((sim.waitings op comm.id).eraseIdx idx)) ∧
            waiting.commBarrier ∉ (∅ : Set EventId) := by
        refine joins.drop (.instances op comm.id) rfl held ?_ others
        rw [barriers_setCCWaiting, if_pos rfl, erased, List.map_append]
      exact dropped.1.completeCC dropped.2 completed

theorem handleNcclOp {host : ResponseId} {call : CudaCall}
    {traceOf : Ranks → ℕ → Except Panic Trace} (gated : Gated ∅ sim)
    (run : sim.handleNcclOp env op host time comm stream call traceOf = .ok sim') :
    Gated ∅ sim' := by
  simp only [Simulator.handleNcclOp, bind_eq_ok] at run
  rcases run with ⟨ranks, _, flows, _, run⟩
  have counted : Gated ∅ { sim with nextFlowId := sim.nextFlowId + flows.length } :=
    gated.silent rfl rfl
  exact counted.ncclCall run

end Collectives

section Messages

variable {host : ResponseId} {time : ℤ}

theorem awaitPoint {event : EventId} {middle : Simulator} {fuel : ℕ} {reached : Bool}
    (gated : Gated loose middle)
    (run : executeToEvent env event fuel
      ((middle.note (.awaits host event time)).awaitEvent host event) = .ok (sim', reached)) :
    Gated loose sim' := by
  have awaits : Gated loose ((middle.note (.awaits host event time)).awaitEvent host event) :=
    gated.silent rfl rfl
  exact awaits.executes (executeToEvent_onlyExecutes run)

theorem cudaDeviceSynchronize {device : ℤ} (gated : Gated loose sim)
    (run : sim.cudaDeviceSynchronize env host time device = .ok sim') : Gated loose sim' := by
  simp only [Simulator.cudaDeviceSynchronize, bind_eq_ok, pure_eq_ok, Prod.exists] at run
  rcases run with ⟨flushed, deps, collected, added, id, point, last, reached, executed, rfl⟩
  have flushes : Gated loose flushed ∧ none ∉ deps := by
    refine foldlM_invariant (fun acc : Simulator × List (Option EventId) =>
      Gated loose acc.1 ∧ none ∉ acc.2) ?_ ⟨gated, List.not_mem_nil⟩ collected
    rintro acc stream acc' _ ⟨earlier, unblocked⟩ step
    simp only [collectLast, bind_eq_ok, pure_eq_ok] at step
    rcases step with ⟨middle, cleared, rfl⟩
    refine ⟨earlier.clearComputeBufferOn cleared, ?_⟩
    rw [List.mem_append]
    rintro (mem | mem)
    · exact unblocked mem
    · simp at mem
  exact (flushes.1.add flushes.2 point).awaitPoint executed

theorem cudaStreamSynchronize {stream : CudaStream} (gated : Gated loose sim)
    (run : sim.cudaStreamSynchronize env host time stream = .ok sim') : Gated loose sim' := by
  simp only [Simulator.cudaStreamSynchronize, bind_eq_ok, pure_eq_ok, Prod.exists] at run
  rcases run with ⟨added, id, point, last, reached, executed, rfl⟩
  exact (gated.addEvent List.not_mem_nil point).awaitPoint executed

theorem cudaStreamQuery {stream : CudaStream} (gated : Gated loose sim)
    (run : sim.cudaStreamQuery env host time stream = .ok sim') : Gated loose sim' := by
  simp only [Simulator.cudaStreamQuery, bind_eq_ok, Prod.exists] at run
  rcases run with ⟨flushed, flush, executed, stopped, ran, answered⟩
  have flushes : Gated loose flushed := by
    split at flush
    · exact gated.clearComputeBufferOn flush
    · exact Except.ok.inj flush ▸ gated
  have executes := flushes.executes (executeToTime_onlyExecutes ran)
  split at answered
  · exact Except.ok.inj answered ▸ executes.executes (replyToPoll_onlyExecutes env.toPlatform ..)
  · exact Except.ok.inj answered ▸ executes.executes (replyToPoll_onlyExecutes env.toPlatform ..)

theorem cudaEventSynchronize {event : CudaEvent} (gated : Gated loose sim)
    (run : sim.cudaEventSynchronize env host time event = .ok sim') : Gated loose sim' := by
  simp only [Simulator.cudaEventSynchronize, bind_eq_ok, Prod.exists] at run
  rcases run with ⟨executed, stopped, ran, id, _, answered⟩
  have executes := gated.executes (executeToTime_onlyExecutes ran)
  split at answered
  · exact Except.ok.inj answered ▸ executes.silent rfl rfl
  · simp only [bind_eq_ok, pure_eq_ok, Prod.exists] at answered
    rcases answered with ⟨last, reached, waited, rfl⟩
    exact executes.awaitPoint waited

theorem manages (gated : Gated loose sim) (manages : OnlyManages sim sim') : Gated loose sim' := by
  rcases manages with ⟨_, _, _, _, _, _, _, _, rfl⟩
  exact gated.silent rfl rfl

theorem handleCudaCall {msg : CudaCallMsg} (gated : Gated ∅ sim)
    (run : sim.handleCudaCall env msg = .ok sim') : Gated ∅ sim' := by
  rcases msg with ⟨host, time, call⟩
  have updated : Gated ∅ (sim.updateHostCurr host.host time) := gated.silent rfl rfl
  simp only [Simulator.handleCudaCall] at run
  cases call with
  | cudaMemcpyAsync size kind stream =>
      have estimated : Gated ∅ { sim.updateHostCurr host.host time with
        cudaEstimator := (sim.cudaEstimator.memcpy env.profiler kind size).1 } :=
        updated.silent rfl rfl
      exact estimated.addComputation run
  | cudaDeviceSynchronize device => exact updated.cudaDeviceSynchronize run
  | cudaStreamSynchronize stream => exact updated.cudaStreamSynchronize run
  | cudaStreamWaitEvent stream event =>
      simp only [Simulator.cudaStreamWaitEvent, bind_eq_ok, pure_eq_ok, Prod.exists] at run
      rcases run with ⟨waited, _, added, id, point, rfl⟩
      exact updated.addEvent (by simp) point
  | cudaStreamQuery stream => exact updated.cudaStreamQuery run
  | cudaEventRecord event =>
      simp only [Simulator.cudaEventRecord, bind_eq_ok, pure_eq_ok, Prod.exists] at run
      rcases run with ⟨added, id, point, rfl⟩
      exact (updated.addEvent List.not_mem_nil point).silent rfl rfl
  | cudaEventSynchronize event => exact updated.cudaEventSynchronize run
  | cudaEventQuery event =>
      simp only [Simulator.cudaEventQuery, bind_eq_ok, pure_eq_ok, Prod.exists] at run
      rcases run with ⟨executed, stopped, ran, id, _, rfl⟩
      exact (updated.executes (executeToTime_onlyExecutes ran)).executes
        (replyToPoll_onlyExecutes env.toPlatform ..)
  | cudaAddLatency stream latency => exact updated.addComputation run
  | flashAttnCall stream =>
      have estimated : ∀ estimator : CudaEstimator, Gated ∅ { sim.updateHostCurr host.host time with
        cudaEstimator := estimator } := fun _ => updated.silent rfl rfl
      exact (estimated _).addComputation run
  | ncclGetUniqueId =>
      simp only [Except.ok.injEq] at run
      exact run ▸ updated.silent rfl rfl
  | ncclCommInitRank device rank nranks id =>
      rcases ncclCommInitRank_eq_ok run with ⟨middle, _, executed, manages⟩
      exact (updated.executes (executeToTime_onlyExecutes executed)).manages manages
  | ncclCommSplit comm color key =>
      rcases ncclCommSplit_eq_ok run with ⟨middle, _, executed, manages⟩
      exact (updated.executes (executeToTime_onlyExecutes executed)).manages manages
  | ncclBcast count dtype root comm stream => exact updated.handleNcclOp run
  | ncclAllReduce count dtype op comm stream => exact updated.handleNcclOp run
  | ncclAllGather count dtype comm stream => exact updated.handleNcclOp run
  | ncclReduceScatter count dtype op comm stream => exact updated.handleNcclOp run
  | ncclSend count dtype peer comm stream => exact updated.ncclUngroupedP2P run
  | ncclRecv count dtype peer comm stream => exact updated.ncclUngroupedP2P run
  | ncclP2pGroup calls =>
      refine foldlM_invariant (Gated ∅) ?_ updated run
      exact fun _ earlier step => earlier.streamGroup step
  | readTimer stream =>
      simp only [readTimer, Except.ok.injEq] at run
      exact run ▸ updated.silent rfl rfl

theorem handle {message : Message} (gated : Gated ∅ sim)
    (run : sim.handle env message = .ok sim') : Gated ∅ sim' := by
  rcases handle_eq_ok run with ⟨middle, dispatched, rfl⟩
  have handled : Gated ∅ middle := by
    cases message with
    | cuda msg => exact gated.handleCudaCall dispatched
    | torch call => exact Except.ok.inj dispatched ▸ gated.silent rfl rfl
    | exit host time => exact Except.ok.inj dispatched ▸ gated.silent rfl rfl
  exact handled.silent rfl rfl

theorem start (initial : Initial sim) : Gated ∅ sim := by
  rcases initial with ⟨cluster, setting, hostMapping, rfl⟩
  have nothing : ∀ holder, (new (Netsim.Simulator.build cluster setting hostMapping)).barriers
      holder = [] := by
    intro holder
    rcases holder with ⟨op, id⟩ | ⟨kind, key⟩
    · rfl
    · cases kind <;> rfl
  refine ⟨fun _ _ => rfl, fun e => ?_, ?_, ?_, ?_⟩
  · simp only [nothing, List.not_mem_nil, exists_false, Set.mem_empty_iff_false, or_self, iff_false]
    rintro ⟨p, known, _⟩
    exact absurd known.symm (Option.some_ne_none _)
  · simp [nothing]
  · simp [nothing]
  · simp [nothing]

end Messages

end Gated

end Simulator

end Phantora
