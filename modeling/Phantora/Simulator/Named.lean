import Phantora.Simulator.Acts
import Phantora.Simulator.StreamOrder

/-!
# The names that the server stores

The server stores identifiers of events that exist, and the flows of the
collectives that wait are not used yet. Therefore every message is handled by
acts, and the event queue receives valid calls only.
-/

namespace Phantora

open Outcome

/-- The points of an endpoint exist. -/
structure P2PFlowEndpoint.Issued (endpoint : P2PFlowEndpoint) (counter : ℕ) : Prop where
  flowStart : endpoint.flowStart < counter
  flowEnd : endpoint.flowEnd < counter
  unmatchedBarrier : endpoint.unmatchedBarrier < counter

/-- The points of an instance exist. -/
structure CCWaiting.Issued (waiting : CCWaiting) (counter : ℕ) : Prop where
  commStartMeta : waiting.commStartMeta < counter
  commEndMeta : waiting.commEndMeta < counter
  commBarrier : waiting.commBarrier < counter

/-- The identifiers of the flows that an instance will create. -/
def CCWaiting.flowIds (waiting : CCWaiting) : List ℕ :=
  waiting.trace.map Netsim.Flow.id

theorem P2PFlowEndpoint.Issued.mono {endpoint : P2PFlowEndpoint} {counter counter' : ℕ}
    (issued : endpoint.Issued counter) (le : counter ≤ counter') : endpoint.Issued counter' :=
  ⟨issued.flowStart.trans_le le, issued.flowEnd.trans_le le, issued.unmatchedBarrier.trans_le le⟩

theorem CCWaiting.Issued.mono {waiting : CCWaiting} {counter counter' : ℕ}
    (issued : waiting.Issued counter) (le : counter ≤ counter') : waiting.Issued counter' :=
  ⟨issued.commStartMeta.trans_le le, issued.commEndMeta.trans_le le, issued.commBarrier.trans_le le⟩

theorem CCWaiting.Issued.join {waiting : CCWaiting} {counter : ℕ} (issued : waiting.Issued counter)
    (rank : ℤ) : (waiting.join rank).Issued counter :=
  ⟨issued.commStartMeta, issued.commEndMeta, issued.commBarrier⟩

namespace Simulator

variable {env : Environment} {asks : ResponseId → Option ResponseId → Prop} {sim sim' : Simulator}

/-- The instances of a collective that not all ranks have joined. -/
def waitings (sim : Simulator) (op : Collective) (id : NcclId) : List CCWaiting :=
  (sim.ccWaiting op id).getD []

/-- The identifiers of the flows that the waiting instances of a collective will create. -/
def flowIds (sim : Simulator) (op : Collective) (id : NcclId) : List ℕ :=
  (sim.waitings op id).flatMap CCWaiting.flowIds

/-- The flow has no event and no instance will create it. -/
structure FlowFree (sim : Simulator) (flow : ℕ) : Prop where
  counted : flow < sim.nextFlowId
  unused : ∀ {e known}, sim.queue.eventToFlow e = some known → known.id ≠ flow
  unplanned : ∀ op id, flow ∉ sim.flowIds op id

/-- What the server stores exists, and the flows of the waiting instances are distinct and new. -/
structure Named (sim : Simulator) : Prop where
  flows : ∀ {e flow}, sim.queue.eventToFlow e = some flow → flow.id < sim.nextFlowId
  streams : ∀ {stream e}, e ∈ (sim.streamInfo.info stream).events → e < sim.queue.eventCounter
  recorded : ∀ {key e}, sim.idOfCuda key = some e → e < sim.queue.eventCounter
  endpoints : ∀ kind key, ∀ endpoint ∈ (sim.waitingMap kind key).getD [],
    endpoint.Issued sim.queue.eventCounter
  instances : ∀ op id, ∀ waiting ∈ sim.waitings op id, waiting.Issued sim.queue.eventCounter
  distinct : ∀ op id, (sim.flowIds op id).Nodup
  apart : ∀ {op id op' id' flow}, flow ∈ sim.flowIds op id → flow ∈ sim.flowIds op' id' →
    op = op' ∧ id = id'
  planned : ∀ {op id flow}, flow ∈ sim.flowIds op id → flow < sim.nextFlowId ∧
    ∀ {e known}, sim.queue.eventToFlow e = some known → known.id ≠ flow

namespace Named

/-- Nothing that is stored changes. -/
theorem of_same (named : Named sim) (queue : sim'.queue = sim.queue)
    (streams : ∀ stream, (sim'.streamInfo.info stream).events = (sim.streamInfo.info stream).events)
    (idOfCuda : sim'.idOfCuda = sim.idOfCuda) (nextFlowId : sim'.nextFlowId = sim.nextFlowId)
    (ccWaiting : sim'.ccWaiting = sim.ccWaiting) (waitingMap : sim'.waitingMap = sim.waitingMap) :
    Named sim' := by
  have waitings : sim'.waitings = sim.waitings := by
    funext op id
    rw [Simulator.waitings, Simulator.waitings, ccWaiting]
  have flowIds : sim'.flowIds = sim.flowIds := by
    funext op id
    rw [Simulator.flowIds, Simulator.flowIds, waitings]
  constructor
  · rw [queue, nextFlowId]
    exact named.flows
  · intro stream e
    rw [queue, streams]
    exact named.streams
  · rw [queue, idOfCuda]
    exact named.recorded
  · rw [queue, waitingMap]
    exact named.endpoints
  · rw [queue, waitings]
    exact named.instances
  · rw [flowIds]
    exact named.distinct
  · rw [flowIds]
    exact named.apart
  · rw [flowIds, queue, nextFlowId]
    exact named.planned

/-- The queue has new events, but no new flows. -/
theorem of_queue (named : Named sim) {queue : EventQueue}
    (counter : sim.queue.eventCounter ≤ queue.eventCounter)
    (flows : ∀ {e flow}, queue.eventToFlow e = some flow → sim.queue.eventToFlow e = some flow) :
    Named { sim with queue := queue } := by
  constructor
  · exact fun known => named.flows (flows known)
  · exact fun mem => (named.streams mem).trans_le counter
  · exact fun known => (named.recorded known).trans_le counter
  · exact fun kind key endpoint mem => (named.endpoints kind key endpoint mem).mono counter
  · exact fun op id waiting mem => (named.instances op id waiting mem).mono counter
  · exact named.distinct
  · exact named.apart
  · exact fun mem => ⟨(named.planned mem).1, fun known => (named.planned mem).2 (flows known)⟩

theorem of_grows (named : Named sim) {queue : EventQueue}
    (grows : EventQueue.Grows sim.queue queue) : Named { sim with queue := queue } :=
  named.of_queue grows.eventCounter.ge (fun known => grows.eventToFlow ▸ known)

end Named

/-- Acts lead to another state that stores what exists. -/
structure Advances (env : Environment) (asks : ResponseId → Option ResponseId → Prop)
    (sim sim' : Simulator) : Prop where
  acts : Acts env asks sim sim'
  named : Named sim'

namespace Advances

theorem refl (named : Named sim) : Advances env asks sim sim :=
  ⟨.refl, named⟩

theorem trans {first second third : Simulator} (left : Advances env asks first second)
    (right : Advances env asks second third) : Advances env asks first third :=
  ⟨left.acts.trans right.acts, right.named⟩

theorem asked (advances : Advances env nobody sim sim') : Advances env asks sim sim' :=
  ⟨advances.acts.asked, advances.named⟩

theorem counter (advances : Advances env asks sim sim') :
    sim.queue.eventCounter ≤ sim'.queue.eventCounter :=
  advances.acts.enlarges.eventCounter

/-- Only the books change. -/
theorem of_books (books : Books sim sim') (named : Named sim') : Advances env asks sim sim' :=
  ⟨.single (.book books), named⟩

theorem foldlM {σ α : Type} (state : σ → Simulator) {f : σ → α → Except Panic σ} {items : List α}
    (step : ∀ {first a second}, a ∈ items → Advances env asks sim (state first) →
      f first a = .ok second → Advances env asks (state first) (state second))
    {first last : σ} (start : Advances env asks sim (state first))
    (run : items.foldlM f first = .ok last) : Advances env asks sim (state last) :=
  foldlM_invariant (fun middle => Advances env asks sim (state middle))
    (fun mem earlier taken => earlier.trans (step mem earlier taken)) start run

end Advances

section Submit

variable {dependsOn : List (Option EventId)} {action : Option Action} {time : ℤ} {id : EventId}

/-- All dependencies are events that exist. -/
def Issued (sim : Simulator) (dependsOn : List (Option EventId)) : Prop :=
  ∀ d, some d ∈ dependsOn → d < sim.queue.eventCounter

theorem Issued.mono (issued : Issued sim dependsOn)
    (counter : sim.queue.eventCounter ≤ sim'.queue.eventCounter) : Issued sim' dependsOn :=
  fun d mem => (issued d mem).trans_le counter

theorem addActionOrPoint_advances (named : Named sim) (issued : Issued sim dependsOn)
    (noFlow : EventQueue.flowOf action = none)
    (run : sim.addActionOrPoint env dependsOn action time = .ok (sim', id)) :
    Advances env nobody sim sim' ∧ id = sim.queue.eventCounter ∧
      sim'.queue.eventCounter = id + 1 := by
  rcases addActionOrPoint_eq_ok run with ⟨queue, added, rfl⟩
  rcases EventQueue.addActionOrPoint_graph added with ⟨rfl, counter, _, flows, _⟩
  refine ⟨⟨.single (.add ⟨issued, ?_⟩ ?_ added), ?_⟩, rfl, counter⟩
  · intro flow e known isFlow
    exact absurd (isFlow.symm.trans noFlow) (Option.some_ne_none _)
  · rintro flow info rfl
    exact absurd noFlow (Option.some_ne_none _)
  · refine named.of_queue (counter ▸ Nat.le_succ _) ?_
    intro e flow known
    rw [flows] at known
    rcases action with _ | _ | ⟨flow', info⟩
    · exact known
    · exact known
    · exact absurd noFlow (Option.some_ne_none _)

/-- A flow that is free gets its event. -/
theorem addFlow_advances {flow : Netsim.Flow} {info : CommMeta} (named : Named sim)
    (issued : Issued sim dependsOn) (free : FlowFree sim flow.id)
    (run : sim.addActionOrPoint env dependsOn (some (.communication flow info)) time =
      .ok (sim', id)) (communicates : info.Communicates) :
    Advances env nobody sim sim' ∧ id = sim.queue.eventCounter ∧
      sim'.queue.eventCounter = id + 1 ∧
      ∀ e known, sim'.queue.eventToFlow e = some known →
        known.id = flow.id ∨ sim.queue.eventToFlow e = some known := by
  rcases addActionOrPoint_eq_ok run with ⟨queue, added, rfl⟩
  rcases EventQueue.addActionOrPoint_graph added with ⟨rfl, counter, _, flows, _⟩
  have old : ∀ e known, queue.eventToFlow e = some known →
      known.id = flow.id ∨ sim.queue.eventToFlow e = some known := by
    intro e known isFlow
    rw [flows] at isFlow
    simp only [EventQueue.issue] at isFlow
    by_cases same : e = sim.queue.eventCounter
    · subst e
      rw [Function.update_self, Option.some.injEq] at isFlow
      exact Or.inl (isFlow ▸ rfl)
    · rw [Function.update_of_ne same] at isFlow
      exact Or.inr isFlow
  have le : sim.queue.eventCounter ≤ queue.eventCounter := counter ▸ Nat.le_succ _
  refine ⟨⟨.single (.add ⟨issued, ?_⟩ ?_ added), ?_⟩, rfl, counter, old⟩
  · intro flow' e known isFlow isKnown
    cases isFlow
    exact free.unused isKnown
  · intro flow' info' same
    cases same
    exact communicates
  · constructor
    · intro e known isFlow
      rcases old e known isFlow with same | before
      · exact same ▸ free.counted
      · exact named.flows before
    · exact fun mem => (named.streams mem).trans_le le
    · exact fun known => (named.recorded known).trans_le le
    · exact fun kind key endpoint mem => (named.endpoints kind key endpoint mem).mono le
    · exact fun op id waiting mem => (named.instances op id waiting mem).mono le
    · exact named.distinct
    · exact named.apart
    · intro op id other mem
      refine ⟨(named.planned mem).1, ?_⟩
      intro e known isFlow
      rcases old e known isFlow with same | before
      · rintro rfl
        exact free.unplanned op id (same ▸ mem)
      · exact (named.planned mem).2 before

theorem addDependency_advances {dep : EventId} (named : Named sim)
    (known : id < sim.queue.eventCounter) (depKnown : dep < sim.queue.eventCounter)
    (run : sim.addDependency id (some dep) = .ok sim') : Advances env nobody sim sim' := by
  rcases addDependency_eq_ok run with ⟨queue, added, rfl⟩
  rcases EventQueue.addDependency_graph added with ⟨counter, _, flows, _⟩
  refine ⟨.single (.depend ⟨known, ?_⟩ added), named.of_queue counter.ge ?_⟩
  · intro d same
    exact Option.some.inj same ▸ depKnown
  · exact fun isFlow => flows ▸ isFlow

theorem removeNoneDependency_advances (named : Named sim)
    (run : sim.removeNoneDependency env id = .ok sim') : Advances env nobody sim sim' := by
  rcases removeNoneDependency_eq_ok run with ⟨queue, removed, rfl⟩
  exact ⟨.single (.free removed), named.of_grows (EventQueue.removeNoneDependency_grows removed)⟩

theorem lastEvent_lt (named : Named sim) {stream : HostStream} {last : EventId}
    (isLast : sim.lastEvent stream = some last) : last < sim.queue.eventCounter :=
  named.streams (List.mem_of_getLast? isLast)

theorem submit_advances {stream : HostStream} (named : Named sim) (issued : Issued sim dependsOn)
    (noFlow : EventQueue.flowOf action = none)
    (run : sim.submit env stream dependsOn action time = .ok (sim', id)) :
    Advances env nobody sim sim' ∧ id < sim'.queue.eventCounter := by
  simp only [submit, bind_eq_ok, pure_eq_ok, Prod.exists, Prod.mk.injEq] at run
  rcases run with ⟨middle, _, added, rfl, rfl⟩
  have deps : Issued sim (dependsOn ++ ((sim.lastEvent stream).map some).toList) := by
    intro d mem
    rcases List.mem_append.mp mem with mem | mem
    · exact issued d mem
    · rw [Option.mem_toList, Option.map_eq_some_iff] at mem
      rcases mem with ⟨last, isLast, same⟩
      exact Option.some.inj same ▸ lastEvent_lt named isLast
  rcases addActionOrPoint_advances named deps noFlow added with ⟨advances, rfl, counter⟩
  have new : sim.queue.eventCounter < middle.queue.eventCounter := counter ▸ Nat.lt_succ_self _
  refine ⟨advances.trans (.of_books (.of_silent rfl rfl rfl rfl rfl rfl rfl rfl) ?_), new⟩
  have base := advances.named
  refine ⟨base.flows, ?_, base.recorded, base.endpoints, base.instances, base.distinct, base.apart,
    base.planned⟩
  intro other e mem
  rw [info_modify] at mem
  split at mem
  · rename_i same
    subst other
    rcases List.mem_append.mp mem with mem | mem
    · exact base.streams mem
    · exact List.mem_singleton.mp mem ▸ new
  · exact base.streams mem

end Submit

section Streams

variable {stream : HostStream}

theorem submitCalls_advances {calls : List TorchCall} {durs : List ℕ} (named : Named sim)
    (run : submitCalls env stream calls durs sim = .ok sim') : Advances env nobody sim sim' := by
  induction calls generalizing sim durs with
  | nil =>
      simp only [submitCalls, Except.ok.injEq] at run
      exact run ▸ .refl named
  | cons call calls ih =>
      simp only [submitCalls, bind_eq_ok, Prod.exists] at run
      rcases run with ⟨_, _, middle, _, submitted, rest⟩
      have first := (submit_advances named (fun _ mem => by cases mem) rfl submitted).1
      exact first.trans (ih first.named rest)

theorem submitSeq_advances {seq : TorchCallSeq} (named : Named sim)
    (run : submitSeq env stream sim seq = .ok sim') : Advances env nobody sim sim' := by
  cases seq with
  | single call duration => exact submitCalls_advances named run
  | seq calls =>
      have estimated : Named { sim with
          torchEstimator := (sim.torchEstimator.estimateSequence env.profiler calls).1 } :=
        named.of_same rfl (fun _ => rfl) rfl rfl rfl rfl
      have books : Advances env nobody sim { sim with
          torchEstimator := (sim.torchEstimator.estimateSequence env.profiler calls).1 } :=
        .of_books (.of_silent rfl rfl rfl rfl rfl rfl rfl rfl) estimated
      exact books.trans (submitCalls_advances estimated run)

theorem clearComputeBufferOn_advances (named : Named sim)
    (run : sim.clearComputeBufferOn env stream = .ok sim') : Advances env nobody sim sim' := by
  refine Advances.foldlM (fun sim => sim) ?_ ?_ run
  · intro first seq second _ earlier step
    exact submitSeq_advances earlier.named step
  · refine .of_books (.of_silent rfl rfl rfl rfl rfl rfl rfl rfl) ?_
    refine named.of_same rfl ?_ rfl rfl rfl rfl
    intro other
    dsimp only
    rw [info_modify]
    split
    · rename_i same
      rw [same]
    · rfl

variable {dependsOn : List (Option EventId)} {action : Option Action} {time : ℤ} {id : EventId}

theorem addEvent_advances (named : Named sim) (issued : Issued sim dependsOn)
    (noFlow : EventQueue.flowOf action = none)
    (run : sim.addEvent env stream dependsOn action time = .ok (sim', id)) :
    Advances env nobody sim sim' ∧ id < sim'.queue.eventCounter := by
  simp only [addEvent, bind_eq_ok] at run
  rcases run with ⟨middle, cleared, submitted⟩
  have clears := clearComputeBufferOn_advances named cleared
  rcases submit_advances clears.named (issued.mono clears.counter) noFlow submitted with
    ⟨submits, new⟩
  exact ⟨clears.trans submits, new⟩

end Streams

section Flowless

variable {stream : HostStream} {dependsOn : List (Option EventId)} {action : Option Action}
  {time : ℤ} {id : EventId}

theorem addActionOrPoint_flows (noFlow : EventQueue.flowOf action = none)
    (run : sim.addActionOrPoint env dependsOn action time = .ok (sim', id)) :
    sim'.queue.eventToFlow = sim.queue.eventToFlow := by
  rcases addActionOrPoint_eq_ok run with ⟨queue, added, rfl⟩
  rcases EventQueue.addActionOrPoint_graph added with ⟨_, _, _, flows, _⟩
  rcases action with _ | _ | ⟨flow, info⟩
  · exact flows
  · exact flows
  · exact absurd noFlow (Option.some_ne_none _)

theorem submit_flows (noFlow : EventQueue.flowOf action = none)
    (run : sim.submit env stream dependsOn action time = .ok (sim', id)) :
    sim'.queue.eventToFlow = sim.queue.eventToFlow := by
  simp only [submit, bind_eq_ok, pure_eq_ok, Prod.exists, Prod.mk.injEq] at run
  rcases run with ⟨middle, _, added, rfl, rfl⟩
  have flows := addActionOrPoint_flows noFlow added
  exact flows

theorem submitCalls_flows {calls : List TorchCall} {durs : List ℕ}
    (run : submitCalls env stream calls durs sim = .ok sim') :
    sim'.queue.eventToFlow = sim.queue.eventToFlow := by
  induction calls generalizing sim durs with
  | nil =>
      simp only [submitCalls, Except.ok.injEq] at run
      exact run ▸ rfl
  | cons call calls ih =>
      simp only [submitCalls, bind_eq_ok, Prod.exists] at run
      rcases run with ⟨_, _, middle, _, submitted, rest⟩
      exact (ih rest).trans (submit_flows rfl submitted)

theorem addEvent_flows (noFlow : EventQueue.flowOf action = none)
    (run : sim.addEvent env stream dependsOn action time = .ok (sim', id)) :
    sim'.queue.eventToFlow = sim.queue.eventToFlow := by
  simp only [addEvent, bind_eq_ok] at run
  rcases run with ⟨middle, cleared, submitted⟩
  have clears : middle.queue.eventToFlow = sim.queue.eventToFlow := by
    simp only [clearComputeBufferOn] at cleared
    refine foldlM_invariant (fun other : Simulator =>
      other.queue.eventToFlow = sim.queue.eventToFlow) ?_ ?_ cleared
    · intro first seq second _ earlier step
      refine Eq.trans ?_ earlier
      cases seq with
      | single call duration => exact submitCalls_flows step
      | seq calls =>
          simp only [submitSeq] at step
          have later := submitCalls_flows step
          exact later
    · rfl
  exact (submit_flows noFlow submitted).trans clears

end Flowless

theorem OnlyExecutes.named (named : Named sim) (executes : OnlyExecutes env.toPlatform sim sim') :
    Named sim' := by
  rcases executes with ⟨queue, _, _, _, _, evolves, _, rfl⟩
  exact (named.of_grows evolves.grows).of_same rfl (fun _ => rfl) rfl rfl rfl rfl

theorem executeToEvent_advances {until_ : EventId} {fuel : ℕ} {reached : Bool} (named : Named sim)
    (run : executeToEvent env until_ fuel sim = .ok (sim', reached)) :
    Advances env nobody sim sim' :=
  ⟨executeToEvent_acts run, (executeToEvent_onlyExecutes run).named named⟩

theorem executeToTime_advances {until_ : ℤ} {fuel : ℕ} {stopped : Bool} (named : Named sim)
    (run : executeToTime env until_ fuel sim = .ok (sim', stopped)) :
    Advances env nobody sim sim' :=
  ⟨executeToTime_acts run, (executeToTime_onlyExecutes run).named named⟩

theorem replyToPoll_advances (named : Named sim) {host : ResponseId} (asked : asks host none)
    (time : ℤ) (event : Option EventId) (ready : Option (ℤ × Option EventId)) :
    Advances env asks sim (sim.replyToPoll host time event ready) :=
  ⟨.single (.poll asked),
    (replyToPoll_onlyExecutes env.toPlatform sim host time event ready).named named⟩

section Cuda

variable {host : ResponseId} {time : ℤ}

theorem addComputation_advances {node : HostId} {stream : CudaStream} {duration : ℤ}
    {call : CudaCall} (named : Named sim)
    (run : sim.addComputation env node time stream duration call = .ok sim') :
    Advances env nobody sim sim' := by
  simp only [addComputation, bind_eq_ok, pure_eq_ok, Prod.exists] at run
  rcases run with ⟨middle, _, added, rfl⟩
  exact (addEvent_advances named (fun _ mem => by cases mem) rfl added).1

/-- A computation whose duration has just been estimated. -/
theorem addEstimated_advances {node : HostId} {stream : CudaStream} {duration : ℤ}
    {call : CudaCall} {estimator : CudaEstimator} (named : Named sim)
    (run : { sim with cudaEstimator := estimator }.addComputation env node time stream
      duration call =
      .ok sim') : Advances env nobody sim sim' := by
  have estimated : Advances env nobody sim { sim with cudaEstimator := estimator } :=
    .of_books (.of_silent rfl rfl rfl rfl rfl rfl rfl rfl)
      (named.of_same rfl (fun _ => rfl) rfl rfl rfl rfl)
  exact estimated.trans (addComputation_advances estimated.named run)

/-- The server adds a point and lets a request wait for it. -/
theorem awaitPoint_advances {dependsOn : List (Option EventId)} {event : EventId}
    {middle : Simulator} (named : Named sim) (asked : asks host none)
    (issued : Issued sim dependsOn)
    (added : sim.addActionOrPoint env dependsOn none time = .ok (middle, event)) :
    Advances env asks sim ((middle.note (.awaits host event time)).awaitEvent host event) := by
  have advances := (addActionOrPoint_advances named issued rfl added).1
  rcases addActionOrPoint_eq_ok added with ⟨queue, run, rfl⟩
  refine ⟨.single (.await asked ⟨issued, ?_⟩ run), ?_⟩
  · intro flow e known isFlow
    exact absurd isFlow.symm (Option.some_ne_none _)
  · exact advances.named.of_same rfl (fun _ => rfl) rfl rfl rfl rfl

theorem collectLasts_advances {streams : List HostStream}
    {acc : Simulator × List (Option EventId)} (named : Named sim)
    (run : streams.foldlM (collectLast env) (sim, []) = .ok acc) :
    Advances env nobody sim acc.1 ∧ Issued acc.1 acc.2 := by
  refine foldlM_invariant (fun acc : Simulator × List (Option EventId) =>
    Advances env nobody sim acc.1 ∧ Issued acc.1 acc.2) ?_ ⟨.refl named, fun _ mem => by cases mem⟩
    run
  rintro ⟨first, before⟩ stream ⟨second, after⟩ _ ⟨earlier, issued⟩ step
  simp only [collectLast, bind_eq_ok, pure_eq_ok, Prod.mk.injEq] at step
  rcases step with ⟨_, cleared, rfl, rfl⟩
  have clears := clearComputeBufferOn_advances earlier.named cleared
  refine ⟨earlier.trans clears, ?_⟩
  intro d mem
  rcases List.mem_append.mp mem with mem | mem
  · exact issued.mono clears.counter d mem
  · rw [Option.mem_toList, Option.map_eq_some_iff] at mem
    rcases mem with ⟨last, isLast, same⟩
    exact Option.some.inj same ▸ lastEvent_lt clears.named isLast

theorem cudaDeviceSynchronize_advances {device : ℤ} (named : Named sim) (asked : asks host none)
    (run : sim.cudaDeviceSynchronize env host time device = .ok sim') :
    Advances env asks sim sim' := by
  simp only [cudaDeviceSynchronize, bind_eq_ok, pure_eq_ok, Prod.exists] at run
  rcases run with ⟨middle, dependsOn, collected, added, event, point, final, _, executed, rfl⟩
  rcases collectLasts_advances named collected with ⟨collects, issued⟩
  have awaits : Advances env asks middle
    ((added.note (.awaits host event time)).awaitEvent host event) :=
    awaitPoint_advances collects.named asked issued point
  exact (collects.asked.trans awaits).trans (executeToEvent_advances awaits.named executed).asked

/-- The point is appended to the stream as well; the order of these updates does not matter. -/
theorem cudaStreamSynchronize_advances {stream : CudaStream} (named : Named sim)
    (asked : asks host none)
    (run : sim.cudaStreamSynchronize env host time stream = .ok sim') :
    Advances env asks sim sim' := by
  simp only [cudaStreamSynchronize, addEvent, bind_eq_ok, pure_eq_ok, Prod.exists] at run
  rcases run with ⟨middle, event, ⟨flushed, cleared, submitted⟩, final, _, executed, rfl⟩
  have clears := clearComputeBufferOn_advances named cleared
  have submits := (submit_advances clears.named (fun _ mem => by cases mem) rfl submitted).1
  simp only [submit, bind_eq_ok, pure_eq_ok, Prod.exists, Prod.mk.injEq] at submitted
  rcases submitted with ⟨added, id, point, rfl, rfl⟩
  have issued : Issued flushed
    ([] ++ ((flushed.lastEvent (host.host, stream)).map some).toList) := by
    intro d mem
    rw [List.nil_append, Option.mem_toList, Option.map_eq_some_iff] at mem
    rcases mem with ⟨last, isLast, same⟩
    exact Option.some.inj same ▸ lastEvent_lt clears.named isLast
  have awaits : Advances env asks flushed
    ((added.note (.awaits host id time)).awaitEvent host id) :=
    awaitPoint_advances clears.named asked issued point
  have books : Advances env asks ((added.note (.awaits host id time)).awaitEvent host id)
      (({ added with
        streamInfo := added.streamInfo.modify (host.host, stream) fun sinfo =>
          { sinfo with events := sinfo.events ++ [id] } }.note
            (.awaits host id time)).awaitEvent host id) :=
    .of_books (.of_silent rfl rfl rfl rfl rfl rfl rfl rfl)
      (submits.named.of_same rfl (fun _ => rfl) rfl rfl rfl rfl)
  exact ((clears.asked.trans awaits).trans books).trans
    (executeToEvent_advances books.named executed).asked

theorem cudaStreamWaitEvent_advances {stream : CudaStream} {event : CudaEvent} (named : Named sim)
    (run : sim.cudaStreamWaitEvent env host time stream event = .ok sim') :
    Advances env nobody sim sim' := by
  simp only [cudaStreamWaitEvent, bind_eq_ok, unwrap_eq_ok, pure_eq_ok, Prod.exists] at run
  rcases run with ⟨recorded, known, _, point, added, rfl⟩
  refine (addEvent_advances named ?_ rfl added).1
  intro d mem
  exact Option.some.inj (List.mem_singleton.mp mem) ▸ named.recorded known

theorem cudaStreamQuery_advances {stream : CudaStream} (named : Named sim) (asked : asks host none)
    (run : sim.cudaStreamQuery env host time stream = .ok sim') : Advances env asks sim sim' := by
  simp only [cudaStreamQuery, bind_eq_ok, Prod.exists] at run
  rcases run with ⟨flushed, cleared, middle, _, executed, run⟩
  have flushes : Advances env asks sim flushed := by
    split at cleared
    · exact (clearComputeBufferOn_advances named cleared).asked
    · simp only [Except.ok.injEq] at cleared
      exact cleared ▸ .refl named
  have executes := executeToTime_advances flushes.named executed
  refine (flushes.trans executes.asked).trans ?_
  split at run
  · simp only [pure_eq_ok] at run
    exact run ▸ replyToPoll_advances executes.named asked _ _ _
  · simp only [pure_eq_ok] at run
    exact run ▸ replyToPoll_advances executes.named asked _ _ _

theorem cudaEventRecord_advances {event : CudaEvent} (named : Named sim)
    (run : sim.cudaEventRecord env host time event = .ok sim') : Advances env nobody sim sim' := by
  simp only [cudaEventRecord, bind_eq_ok, pure_eq_ok, Prod.exists] at run
  rcases run with ⟨middle, point, added, rfl⟩
  rcases addEvent_advances named (fun _ mem => by cases mem) rfl added with ⟨advances, new⟩
  have base := advances.named
  refine advances.trans (.of_books (.of_silent rfl rfl rfl rfl rfl rfl rfl rfl) ?_)
  refine ⟨base.flows, base.streams, ?_, base.endpoints, base.instances, base.distinct, base.apart,
    base.planned⟩
  intro key e known
  by_cases same : key = (host.host, event)
  · rw [same] at known
    exact Option.some.inj ((Function.update_self _ _ middle.idOfCuda).symm.trans known) ▸ new
  · exact base.recorded ((Function.update_of_ne same _ _).symm.trans known)

theorem cudaEventSynchronize_advances {event : CudaEvent} (named : Named sim)
    (asked : asks host none)
    (parks : ∀ {middle stopped id}, executeToTime env time env.fuel sim = .ok (middle, stopped) →
      middle.idOfCuda (host.host, event) = some id → middle.queue.query id = none →
        asks host (middle.syncing id))
    (run : sim.cudaEventSynchronize env host time event = .ok sim') :
    Advances env asks sim sim' := by
  simp only [cudaEventSynchronize, bind_eq_ok, unwrap_eq_ok, Prod.exists] at run
  rcases run with ⟨middle, _, executed, id, known, run⟩
  have executes := executeToTime_advances named executed
  have issued := executes.named.recorded known
  split at run
  · rename_i endTime past
    simp only [pure_eq_ok] at run
    subst run
    refine executes.asked.trans ⟨.single (.answer asked issued past), ?_⟩
    exact executes.named.of_same rfl (fun _ => rfl) rfl rfl rfl rfl
  · rename_i unended
    simp only [bind_eq_ok, pure_eq_ok, Prod.exists] at run
    rcases run with ⟨final, _, executed', rfl⟩
    have parked : Advances env asks middle
      ((middle.note (.awaits host id time)).awaitEvent host id) := by
      refine ⟨.single (.park (parks executed known unended) issued
        (Option.map_eq_none_iff.mp unended)), ?_⟩
      exact executes.named.of_same rfl (fun _ => rfl) rfl rfl rfl rfl
    exact (executes.asked.trans parked).trans
      (executeToEvent_advances parked.named executed').asked

theorem cudaEventQuery_advances {event : CudaEvent} (named : Named sim) (asked : asks host none)
    (run : sim.cudaEventQuery env host time event = .ok sim') : Advances env asks sim sim' := by
  simp only [cudaEventQuery, bind_eq_ok, pure_eq_ok, Prod.exists] at run
  rcases run with ⟨middle, _, executed, id, _, rfl⟩
  have executes := executeToTime_advances named executed
  exact executes.asked.trans (replyToPoll_advances executes.named asked _ _ _)

end Cuda

theorem waitingMap_setWaiting (sim : Simulator) (kind : P2PCallKind) (key : P2PKey)
    (queue : Option (List P2PFlowEndpoint)) (kind' : P2PCallKind) (key' : P2PKey) :
    (sim.setWaiting kind key queue).waitingMap kind' key' =
      if kind' = kind ∧ key' = key then queue else sim.waitingMap kind' key' := by
  cases kind <;> cases kind' <;> by_cases same : key' = key <;> simp [setWaiting, waitingMap, same]

theorem setWaiting_advances (named : Named sim) (kind : P2PCallKind) (key : P2PKey)
    {queue : Option (List P2PFlowEndpoint)}
    (issued : ∀ endpoint ∈ queue.getD [], endpoint.Issued sim.queue.eventCounter) :
    Advances env nobody sim (sim.setWaiting kind key queue) := by
  have endpoints : ∀ kind' key',
      ∀ endpoint ∈ ((sim.setWaiting kind key queue).waitingMap kind' key').getD [],
        endpoint.Issued sim.queue.eventCounter := by
    intro kind' key' endpoint mem
    rw [waitingMap_setWaiting] at mem
    split at mem
    · exact issued endpoint mem
    · exact named.endpoints kind' key' endpoint mem
  cases kind with
  | send =>
      exact .of_books (.of_silent rfl rfl rfl rfl rfl rfl rfl rfl)
        ⟨named.flows, named.streams, named.recorded, endpoints, named.instances, named.distinct,
          named.apart, named.planned⟩
  | recv =>
      exact .of_books (.of_silent rfl rfl rfl rfl rfl rfl rfl rfl)
        ⟨named.flows, named.streams, named.recorded, endpoints, named.instances, named.distinct,
          named.apart, named.planned⟩

theorem popP2PEndpoint_advances (named : Named sim) (kind : P2PCallKind) (key : P2PKey) :
    Advances env nobody sim (sim.popP2PEndpoint kind key).2 ∧
      ∀ endpoint, (sim.popP2PEndpoint kind key).1 = some endpoint →
        endpoint.Issued sim.queue.eventCounter := by
  simp only [popP2PEndpoint]
  split
  · exact ⟨.refl named, fun _ known => by cases known⟩
  · rename_i queue known
    have issued : ∀ endpoint ∈ queue, endpoint.Issued sim.queue.eventCounter := by
      intro endpoint mem
      exact named.endpoints kind key endpoint (by simpa [known] using mem)
    refine ⟨setWaiting_advances named kind key ?_, ?_⟩
    · intro endpoint mem
      split at mem
      · cases mem
      · exact issued endpoint (List.mem_of_mem_tail mem)
    · intro endpoint first
      exact issued endpoint (List.mem_of_head? first)

theorem scheduleP2PFlow_advances {send recv : P2PFlowEndpoint} {key : P2PKey} (named : Named sim)
    (sendIssued : send.Issued sim.queue.eventCounter)
    (recvIssued : recv.Issued sim.queue.eventCounter)
    (run : sim.scheduleP2PFlow env send recv key = .ok sim') : Advances env nobody sim sim' := by
  simp only [scheduleP2PFlow, bind_eq_ok, pure_eq_ok, Prod.exists] at run
  rcases run with ⟨added, flow, addedFlow, first, firstWait, second, secondWait, third,
    firstRelease, fourth, secondRelease, rfl⟩
  have counted : Advances env nobody sim { sim with nextFlowId := sim.nextFlowId + 1 } := by
    refine .of_books (.of_silent rfl rfl rfl rfl rfl rfl rfl rfl) ?_
    refine ⟨fun known => (named.flows known).trans (Nat.lt_succ_self _), named.streams,
      named.recorded, named.endpoints, named.instances, named.distinct, named.apart, ?_⟩
    intro op id flow mem
    exact ⟨(named.planned mem).1.trans (Nat.lt_succ_self _), (named.planned mem).2⟩
  have free : FlowFree { sim with nextFlowId := sim.nextFlowId + 1 } sim.nextFlowId := by
    refine ⟨Nat.lt_succ_self _, fun known => (named.flows known).ne, ?_⟩
    intro op id mem
    exact Nat.lt_irrefl _ (named.planned mem).1
  have starts : Issued { sim with nextFlowId := sim.nextFlowId + 1 }
      [some send.flowStart, some recv.flowStart] := by
    intro d mem
    simp only [List.mem_cons, Option.some.injEq, List.not_mem_nil, or_false] at mem
    rcases mem with rfl | rfl
    · exact sendIssued.flowStart
    · exact recvIssued.flowStart
  rcases addFlow_advances counted.named starts free addedFlow trivial with ⟨adds, _, counter, _⟩
  have new : flow < added.queue.eventCounter := counter ▸ Nat.lt_succ_self _
  have waits : Advances env nobody added first :=
    addDependency_advances adds.named (sendIssued.flowEnd.trans_le adds.counter) new firstWait
  have waits' : Advances env nobody first second := addDependency_advances waits.named
    (recvIssued.flowEnd.trans_le (adds.trans waits).counter) (new.trans_le waits.counter) secondWait
  have frees := removeNoneDependency_advances waits'.named firstRelease
  have frees' := removeNoneDependency_advances frees.named secondRelease
  refine ((((counted.trans adds).trans waits).trans waits').trans (frees.trans frees')).trans ?_
  exact .of_books (.note _ trivial) (frees'.named.of_same rfl (fun _ => rfl) rfl rfl rfl rfl)

theorem matchOrEnqueueP2PEndpoint_advances {kind : P2PCallKind} {key : P2PKey}
    {endpoint : P2PFlowEndpoint} (named : Named sim)
    (issued : endpoint.Issued sim.queue.eventCounter)
    (run : sim.matchOrEnqueueP2PEndpoint env kind key endpoint = .ok sim') :
    Advances env nobody sim sim' := by
  simp only [matchOrEnqueueP2PEndpoint] at run
  have noted : Advances env nobody sim (sim.note (.offered kind key endpoint.tag)) :=
    .of_books (.note _ trivial) (named.of_same rfl (fun _ => rfl) rfl rfl rfl rfl)
  have pops : Advances env nobody _ _ ∧ _ := popP2PEndpoint_advances noted.named kind.peer key
  split at run
  · rename_i peerEndpoint middle result
    rw [result] at pops
    rcases pops with ⟨popped, peers⟩
    have peerIssued := (peers peerEndpoint rfl).mono popped.counter
    have issued' := issued.mono (noted.trans popped).counter
    refine (noted.trans popped).trans ?_
    cases kind with
    | send => exact scheduleP2PFlow_advances popped.named issued' peerIssued run
    | recv => exact scheduleP2PFlow_advances popped.named peerIssued issued' run
  · rename_i middle result
    rw [result] at pops
    simp only [Except.ok.injEq] at run
    have popped := pops.1
    refine (noted.trans popped).trans ?_
    subst run
    refine setWaiting_advances popped.named _ _ ?_
    intro other mem
    rw [Option.getD_some, List.mem_append, List.mem_singleton] at mem
    rcases mem with mem | rfl
    · exact popped.named.endpoints _ _ other mem
    · exact issued.mono (noted.trans popped).counter

theorem ncclUngroupedP2P_advances {kind : P2PCallKind} {host : HostId} {time : ℤ} {count : ℕ}
    {dtype : NcclDatatype} {peer : ℤ} {comm : NcclComm} {stream : CudaStream} (named : Named sim)
    (run : sim.ncclUngroupedP2P env kind host time count dtype peer comm stream = .ok sim') :
    Advances env nobody sim sim' := by
  simp only [ncclUngroupedP2P, createUngroupedP2PEndpoint, bind_eq_ok, pure_eq_ok, Prod.exists,
    Prod.mk.injEq] at run
  rcases run with ⟨first, barrier, addedBarrier, _, endpoint, ⟨second, start, addedStart, third,
    finish, addedFinish, rfl, rfl⟩, matched⟩
  have one : ∀ {sim : Simulator} {d : EventId}, d < sim.queue.eventCounter →
      Issued sim [some d] := by
    intro sim d lt other mem
    exact Option.some.inj (List.mem_singleton.mp mem) ▸ lt
  rcases addActionOrPoint_advances named (fun _ mem => by simp at mem) rfl addedBarrier with
    ⟨blocks, _, counter⟩
  have barrierNew : barrier < first.queue.eventCounter := counter ▸ Nat.lt_succ_self _
  rcases addEvent_advances blocks.named (one barrierNew) rfl addedStart with ⟨starts, startNew⟩
  rcases addEvent_advances starts.named (one startNew) rfl addedFinish with ⟨ends, endNew⟩
  refine ((blocks.trans starts).trans ends).trans ?_
  exact matchOrEnqueueP2PEndpoint_advances ends.named ⟨startNew.trans_le ends.counter, endNew,
    barrierNew.trans_le (starts.trans ends).counter⟩ matched

theorem issued_singleton {d : EventId} (lt : d < sim.queue.eventCounter) : Issued sim [some d] := by
  intro other mem
  exact Option.some.inj (List.mem_singleton.mp mem) ▸ lt

theorem issued_barrier (sim : Simulator) : Issued sim [none] := by
  intro d mem
  simp at mem

/-- The points of every call set up so far exist. -/
def SetupsIssued (acc : Simulator × List FlowSetup) : Prop :=
  ∀ setup ∈ acc.2, ∀ host time, (setup.endpoint host time).Issued acc.1.queue.eventCounter

theorem setupFlow_advances {time : ℤ} {groupStart : EventId}
    {acc acc' : Simulator × List FlowSetup} {call : P2PCallInfo} (named : Named acc.1)
    (started : groupStart < acc.1.queue.eventCounter) (issued : SetupsIssued acc)
    (run : setupFlow env time groupStart acc call = .ok acc') :
    Advances env nobody acc.1 acc'.1 ∧ SetupsIssued acc' := by
  simp only [setupFlow, bind_eq_ok, pure_eq_ok, Prod.exists] at run
  rcases run with ⟨first, barrier, addedBarrier, second, start, addedStart, third, finish,
    addedFinish, rfl⟩
  rcases addActionOrPoint_advances named (issued_barrier _) rfl addedBarrier with
    ⟨blocks, _, counter⟩
  have barrierNew : barrier < first.queue.eventCounter := counter ▸ Nat.lt_succ_self _
  have both : Issued first [some groupStart, some barrier] := by
    intro d mem
    simp only [List.mem_cons, Option.some.injEq, List.not_mem_nil, or_false] at mem
    rcases mem with rfl | rfl
    · exact started.trans_le blocks.counter
    · exact barrierNew
  rcases addActionOrPoint_advances blocks.named both rfl addedStart with ⟨starts, _, counter⟩
  have startNew : start < second.queue.eventCounter := counter ▸ Nat.lt_succ_self _
  rcases addActionOrPoint_advances starts.named (issued_singleton startNew) rfl addedFinish with
    ⟨ends, _, counter⟩
  have endNew : finish < third.queue.eventCounter := counter ▸ Nat.lt_succ_self _
  have whole := (blocks.trans starts).trans ends
  refine ⟨whole, ?_⟩
  intro setup mem host time'
  rcases List.mem_append.mp mem with mem | mem
  · exact (issued setup mem host time').mono whole.counter
  · cases List.mem_singleton.mp mem
    exact ⟨startNew.trans_le ends.counter, endNew, barrierNew.trans_le (starts.trans ends).counter⟩

theorem streamGroup_advances {host : HostId} {time : ℤ} {group : CudaStream × List P2PCallInfo}
    (named : Named sim) (run : streamGroup env host time sim group = .ok sim') :
    Advances env nobody sim sim' := by
  simp only [streamGroup, bind_eq_ok, Prod.exists] at run
  rcases run with ⟨first, barrier, addedBarrier, second, groupStart, addedStart, third, setups,
    folded, fourth, _, addedFinish, fifth, offered, release⟩
  rcases addActionOrPoint_advances named (issued_barrier _) rfl addedBarrier with
    ⟨blocks, _, counter⟩
  have barrierNew : barrier < first.queue.eventCounter := counter ▸ Nat.lt_succ_self _
  rcases addEvent_advances blocks.named (issued_singleton barrierNew) rfl addedStart with
    ⟨starts, startNew⟩
  have sets : Advances env nobody second third ∧ SetupsIssued (third, setups) := by
    refine foldlM_invariant (fun acc => Advances env nobody second acc.1 ∧ SetupsIssued acc) ?_
      ⟨.refl starts.named, fun _ mem => by cases mem⟩ folded
    rintro acc call acc' _ ⟨earlier, issued⟩ step
    rcases setupFlow_advances earlier.named (startNew.trans_le earlier.counter) issued step with
      ⟨later, issued'⟩
    exact ⟨earlier.trans later, issued'⟩
  have deps : Issued third (some groupStart :: setups.map fun setup => some setup.flowEnd) := by
    intro d mem
    rcases List.mem_cons.mp mem with same | mem
    · exact Option.some.inj same ▸ startNew.trans_le sets.1.counter
    · rcases List.mem_map.mp mem with ⟨setup, mem, same⟩
      exact Option.some.inj same ▸ (sets.2 setup mem host time).flowEnd
  rcases addEvent_advances sets.1.named deps rfl addedFinish with ⟨ends, _⟩
  have offers : Advances env nobody fourth fifth := by
    refine Advances.foldlM (fun sim => sim) ?_ (.refl ends.named) offered
    intro acc setup acc' mem earlier step
    exact matchOrEnqueueP2PEndpoint_advances earlier.named
      ((sets.2 setup mem host time).mono (ends.trans earlier).counter) step
  have frees := removeNoneDependency_advances offers.named release
  exact (((blocks.trans starts).trans sets.1).trans ends).trans (offers.trans frees)

theorem ncclGroupedP2P_advances {host : HostId} {time : ℤ} {calls : List CudaCall}
    (named : Named sim) (run : sim.ncclGroupedP2P env host time calls = .ok sim') :
    Advances env nobody sim sim' := by
  refine Advances.foldlM (fun sim => sim) ?_ (.refl named) run
  intro first group second _ earlier step
  exact streamGroup_advances earlier.named step

theorem flowIds_flows {ranks : Ranks} {size next : ℕ} {pairs : List (ℕ × ℕ)} {trace : Trace}
    (run : SimpleRing.flows ranks size next pairs = .ok trace) :
    trace.map Netsim.Flow.id = List.range' next trace.length := by
  induction pairs generalizing next trace with
  | nil =>
      simp only [SimpleRing.flows, Except.ok.injEq] at run
      exact run ▸ rfl
  | cons pair pairs ih =>
      simp only [SimpleRing.flows, SimpleRing.flowBetween, bind_eq_ok, pure_eq_ok] at run
      rcases run with ⟨flow, ⟨_, _, _, _, rfl⟩, rest, later, rfl⟩
      simp [ih later, List.range'_succ]

/-- A collective takes the next flow identifiers. -/
def TakesNext (trace : Ranks → ℕ → Except Panic Trace) : Prop :=
  ∀ {ranks next flows}, trace ranks next = .ok flows →
    flows.map Netsim.Flow.id = List.range' next flows.length

theorem takesNext_bcast (root : ℤ) (count : ℕ) (dtype : NcclDatatype) :
    TakesNext fun ranks next => SimpleRing.bcast root ranks count dtype next :=
  fun run => flowIds_flows run

theorem takesNext_allreduce (count : ℕ) (dtype : NcclDatatype) :
    TakesNext fun ranks next => SimpleRing.allreduce ranks count dtype next := by
  intro ranks next flows run
  simp only [SimpleRing.allreduce, bind_eq_ok] at run
  rcases run with ⟨_, _, run⟩
  exact flowIds_flows run

theorem takesNext_allgather (count : ℕ) (dtype : NcclDatatype) :
    TakesNext fun ranks next => SimpleRing.allgather ranks count dtype next := by
  intro ranks next flows run
  simp only [SimpleRing.allgather, bind_eq_ok] at run
  rcases run with ⟨_, _, run⟩
  exact flowIds_flows run

theorem takesNext_reduceScatter (count : ℕ) (dtype : NcclDatatype) :
    TakesNext fun ranks next => SimpleRing.reduceScatter ranks count dtype next := by
  intro ranks next flows run
  simp only [SimpleRing.reduceScatter, bind_eq_ok] at run
  rcases run with ⟨_, _, run⟩
  exact flowIds_flows run

/-- The flows of an instance that is about to wait or to complete are free. -/
def TraceFree (sim : Simulator) (trace : Trace) : Prop :=
  (trace.map Netsim.Flow.id).Nodup ∧ ∀ flow ∈ trace, FlowFree sim flow.id

/-- What is free stays free while no flow is added. -/
theorem FlowFree.keep {flow : ℕ} (free : FlowFree sim flow)
    (nextFlowId : sim'.nextFlowId = sim.nextFlowId)
    (flows : sim'.queue.eventToFlow = sim.queue.eventToFlow)
    (ccWaiting : sim'.ccWaiting = sim.ccWaiting) : FlowFree sim' flow := by
  refine ⟨nextFlowId ▸ free.counted, ?_, ?_⟩
  · rw [flows]
    exact free.unused
  · intro op id
    rw [flowIds, waitings, ccWaiting]
    exact free.unplanned op id

theorem waitings_setCCWaiting (sim : Simulator) (op : Collective) (id : NcclId)
    (list : List CCWaiting) (op' : Collective) (id' : NcclId) :
    (sim.setCCWaiting op id list).waitings op' id' =
      if op' = op ∧ id' = id then list else sim.waitings op' id' := by
  by_cases sameOp : op' = op <;> by_cases sameId : id' = id <;>
    simp [waitings, setCCWaiting, sameOp, sameId]

/-- A deque of instances is replaced by one that plans no flow of another deque. -/
theorem setCCWaiting_advances {op : Collective} {id : NcclId} {list : List CCWaiting}
    (named : Named sim) (issued : ∀ waiting ∈ list, waiting.Issued sim.queue.eventCounter)
    (distinct : (list.flatMap CCWaiting.flowIds).Nodup)
    (free : ∀ flow ∈ list.flatMap CCWaiting.flowIds, flow ∈ sim.flowIds op id ∨ FlowFree sim flow) :
    Advances env nobody sim (sim.setCCWaiting op id list) := by
  have flowIds_set : ∀ op' id', (sim.setCCWaiting op id list).flowIds op' id' =
      if op' = op ∧ id' = id then list.flatMap CCWaiting.flowIds else sim.flowIds op' id' := by
    intro op' id'
    rw [flowIds, waitings_setCCWaiting]
    split
    · rfl
    · rfl
  have planned : ∀ flow ∈ list.flatMap CCWaiting.flowIds, flow < sim.nextFlowId ∧
      ∀ {e known}, sim.queue.eventToFlow e = some known → known.id ≠ flow := by
    intro flow mem
    rcases free flow mem with old | free
    · exact named.planned old
    · exact ⟨free.counted, free.unused⟩
  have others : ∀ {op' id' flow}, flow ∈ list.flatMap CCWaiting.flowIds →
      flow ∈ sim.flowIds op' id' → op' = op ∧ id' = id := by
    intro op' id' flow mem mem'
    rcases free flow mem with old | free
    · exact named.apart mem' old
    · exact absurd mem' (free.unplanned op' id')
  refine .of_books (.of_silent rfl rfl rfl rfl rfl rfl rfl rfl) ?_
  refine ⟨named.flows, named.streams, named.recorded, named.endpoints, ?_, ?_, ?_, ?_⟩
  · intro op' id' waiting mem
    rw [waitings_setCCWaiting] at mem
    split at mem
    · exact issued waiting mem
    · exact named.instances op' id' waiting mem
  · intro op' id'
    rw [flowIds_set]
    split
    · exact distinct
    · exact named.distinct op' id'
  · intro op₁ id₁ op₂ id₂ flow mem mem'
    rw [flowIds_set] at mem mem'
    split at mem
    · rename_i here
      rcases here with ⟨rfl, rfl⟩
      split at mem'
      · rename_i here
        exact ⟨here.1.symm, here.2.symm⟩
      · rcases others mem mem' with ⟨rfl, rfl⟩
        exact ⟨rfl, rfl⟩
    · split at mem'
      · rename_i here
        rcases here with ⟨rfl, rfl⟩
        exact others mem' mem
      · exact named.apart mem mem'
  · intro op' id' flow mem
    rw [flowIds_set] at mem
    split at mem
    · exact planned flow mem
    · exact named.planned mem

section Collective

variable {op : Collective} {time : ℤ} {comm : NcclComm} {stream : CudaStream} {call : CudaCall}
  {waiting : CCWaiting} {trace : Trace}

/-- A new instance with the points of its first rank. -/
theorem newCCWaiting_advances {ranks : Ranks} {host : HostId} (named : Named sim)
    (run : sim.newCCWaiting env op ranks host time trace comm stream = .ok (sim', waiting)) :
    Advances env nobody sim sim' ∧ waiting.Issued sim'.queue.eventCounter ∧ waiting.trace = trace ∧
      sim'.queue.eventToFlow = sim.queue.eventToFlow ∧ sim'.nextFlowId = sim.nextFlowId ∧
      sim'.ccWaiting = sim.ccWaiting := by
  simp only [newCCWaiting, bind_eq_ok, pure_eq_ok, Prod.exists, Prod.mk.injEq] at run
  rcases run with ⟨first, barrier, addedBarrier, second, start, addedStart, third, startMeta,
    addedStartMeta, fourth, endMeta, addedEndMeta, fifth, finish, addedFinish, rfl, rfl⟩
  rcases addActionOrPoint_advances named (issued_barrier _) rfl addedBarrier with
    ⟨blocks, _, counter⟩
  have barrierNew : barrier < first.queue.eventCounter := counter ▸ Nat.lt_succ_self _
  rcases addEvent_advances blocks.named (issued_singleton barrierNew) rfl addedStart with
    ⟨starts, startNew⟩
  rcases addActionOrPoint_advances starts.named (issued_singleton startNew) rfl addedStartMeta with
    ⟨metas, _, counter⟩
  have startMetaNew : startMeta < third.queue.eventCounter := counter ▸ Nat.lt_succ_self _
  rcases addActionOrPoint_advances metas.named (issued_singleton startMetaNew) rfl addedEndMeta with
    ⟨metas', _, counter⟩
  have endMetaNew : endMeta < fourth.queue.eventCounter := counter ▸ Nat.lt_succ_self _
  rcases addEvent_advances metas'.named (issued_singleton endMetaNew) rfl addedFinish with ⟨ends, _⟩
  have noted : Advances env nobody fifth
    (fifth.note (.joined op comm.id barrier comm.rank start finish)) :=
    .of_books (.note _ trivial) (ends.named.of_same rfl (fun _ => rfl) rfl rfl rfl rfl)
  have issued : CCWaiting.Issued ⟨trace, startMeta, endMeta, barrier, {comm.rank},
      otherRanks ranks.length comm.rank⟩ fifth.queue.eventCounter :=
    ⟨startMetaNew.trans_le (metas'.trans ends).counter, endMetaNew.trans_le ends.counter,
      barrierNew.trans_le (((starts.trans metas).trans metas').trans ends).counter⟩
  have flows : fifth.queue.eventToFlow = sim.queue.eventToFlow := by
    rw [addEvent_flows rfl addedFinish, addActionOrPoint_flows rfl addedEndMeta,
      addActionOrPoint_flows rfl addedStartMeta, addEvent_flows rfl addedStart,
      addActionOrPoint_flows rfl addedBarrier]
  have frame : OnlySubmits sim fifth :=
    ((((addActionOrPoint_onlySubmits addedBarrier).trans (addEvent_onlySubmits addedStart)).trans
      (addActionOrPoint_onlySubmits addedStartMeta)).trans
        (addActionOrPoint_onlySubmits addedEndMeta)).trans (addEvent_onlySubmits addedFinish)
  rcases frame with ⟨_, _, _, rfl⟩
  exact ⟨((((blocks.trans starts).trans metas).trans metas').trans ends).trans noted, issued, rfl,
    flows, rfl, rfl⟩

theorem joinStream_advances {host : HostId} (named : Named sim)
    (issued : waiting.Issued sim.queue.eventCounter)
    (run : sim.joinStream env op host time comm stream waiting = .ok sim') :
    Advances env nobody sim sim' ∧ sim'.ccWaiting = sim.ccWaiting := by
  simp only [joinStream, bind_eq_ok, pure_eq_ok, Prod.exists] at run
  rcases run with ⟨first, start, addedStart, second, wait, third, finish, addedFinish, rfl⟩
  rcases addEvent_advances named (issued_singleton issued.commBarrier) rfl addedStart with
    ⟨starts, startNew⟩
  have waits : Advances env nobody first second :=
    addDependency_advances starts.named (issued.commStartMeta.trans_le starts.counter) startNew wait
  have endMeta : waiting.commEndMeta < second.queue.eventCounter :=
    issued.commEndMeta.trans_le (starts.trans waits).counter
  rcases addEvent_advances waits.named (issued_singleton endMeta) rfl addedFinish with ⟨ends, _⟩
  refine ⟨((starts.trans waits).trans ends).trans (.of_books (.note _ trivial)
    (ends.named.of_same rfl (fun _ => rfl) rfl rfl rfl rfl)), ?_⟩
  rcases addEvent_onlySubmits addedStart with ⟨_, _, _, rfl⟩
  rcases addDependency_eq_ok wait with ⟨_, _, rfl⟩
  rcases addEvent_onlySubmits addedFinish with ⟨_, _, _, rfl⟩
  rfl

/-- The flows of a complete instance are created one after another. -/
theorem completeCC_advances (named : Named sim) (issued : waiting.Issued sim.queue.eventCounter)
    (free : TraceFree sim waiting.trace) (communicates : call.Communicates)
    (run : sim.completeCC env op time comm call waiting = .ok sim') :
    Advances env nobody sim sim' := by
  simp only [completeCC, bind_eq_ok, pure_eq_ok, Prod.exists] at run
  rcases run with ⟨first, flows, created, second, waited, third, released, rfl⟩
  have creates : Advances env nobody sim first ∧ (∀ flow ∈ flows, flow < first.queue.eventCounter) ∧
      ∀ rest, waiting.trace ++ rest = waiting.trace → ∀ flow ∈ rest, FlowFree first flow.id := by
    refine foldlM_prefix (fun done acc => Advances env nobody sim acc.1 ∧
      (∀ flow ∈ acc.2, flow < acc.1.queue.eventCounter) ∧
      ∀ rest, done ++ rest = waiting.trace → ∀ flow ∈ rest, FlowFree acc.1 flow.id) ?_ ?_ created
    · rintro done flow rest ⟨middle, events⟩ acc' ⟨earlier, known, left⟩ step split
      simp only [addCommEvent, bind_eq_ok, pure_eq_ok, Prod.exists] at step
      rcases step with ⟨final, event, added, rfl⟩
      have frees := left (flow :: rest) split
      have startMeta := issued_singleton (issued.commStartMeta.trans_le earlier.counter)
      rcases addFlow_advances earlier.named startMeta (frees flow List.mem_cons_self) added
        communicates with ⟨adds, _, counter, news⟩
      refine ⟨earlier.trans adds, ?_, ?_⟩
      · intro other mem
        rcases List.mem_append.mp mem with mem | mem
        · exact (known other mem).trans_le adds.counter
        · rw [List.mem_singleton.mp mem, counter]
          exact Nat.lt_succ_self _
      · intro rest' split' other mem
        have same : rest' = rest := by
          rw [← split, List.append_assoc, List.append_cancel_left_eq] at split'
          simpa using split'
        subst same
        have free' := frees other (List.mem_cons_of_mem _ mem)
        rcases addActionOrPoint_onlySubmits added with ⟨queue, _, _, rfl⟩
        refine ⟨free'.counted, ?_, free'.unplanned⟩
        intro e isFlow old
        rcases news e isFlow old with same | before
        · intro clash
          have nodup := free.1
          rw [← split, List.map_append, List.map_cons, List.nodup_append] at nodup
          refine (List.nodup_cons.mp nodup.2.1).1 ?_
          rw [← same, clash]
          exact List.mem_map_of_mem mem
        · exact free'.unused before
    · refine ⟨.refl named, fun _ mem => (by cases mem), ?_⟩
      intro rest same flow mem
      rw [List.nil_append] at same
      exact free.2 flow (same ▸ mem)
  have endMeta := issued.commEndMeta.trans_le creates.1.counter
  have waits : Advances env nobody first second := by
    refine Advances.foldlM (fun sim => sim) ?_ (.refl creates.1.named) waited
    intro acc flow acc' mem earlier step
    exact addDependency_advances earlier.named (endMeta.trans_le earlier.counter)
      ((creates.2.1 flow mem).trans_le earlier.counter) step
  have frees := removeNoneDependency_advances waits.named released
  refine ((creates.1.trans waits).trans frees).trans (.of_books (.note _ trivial) ?_)
  exact frees.named.of_same rfl (fun _ => rfl) rfl rfl rfl rfl

/-- The instances of a deque around one of them. -/
theorem split_waitings {id : NcclId} {idx : ℕ}
    (known : (sim.waitings op id)[idx]? = some waiting) :
    ∃ before after, sim.waitings op id = before ++ waiting :: after ∧
      (sim.waitings op id).eraseIdx idx = before ++ after ∧
      ∀ other, (sim.waitings op id).set idx other = before ++ other :: after := by
  rcases List.getElem?_eq_some_iff.mp known with ⟨lt, here⟩
  refine ⟨(sim.waitings op id).take idx, (sim.waitings op id).drop (idx + 1), ?_, ?_, ?_⟩
  · rw [← here, ← List.drop_eq_getElem_cons, List.take_append_drop]
  · exact List.eraseIdx_eq_take_drop_succ _ _
  · intro other
    exact List.set_eq_take_append_cons_drop.trans (if_pos lt)

/-- An instance that is taken out of its deque is free. -/
theorem traceFree_erased {id : NcclId} {idx : ℕ} (named : Named sim)
    (known : (sim.waitings op id)[idx]? = some waiting) :
    TraceFree (sim.setCCWaiting op id ((sim.waitings op id).eraseIdx idx)) waiting.trace := by
  rcases split_waitings known with ⟨before, after, whole, erased, _⟩
  have nodup := named.distinct op id
  rw [flowIds, whole, List.flatMap_append, List.flatMap_cons, List.nodup_append] at nodup
  rcases nodup with ⟨_, nodup, beforeApart⟩
  rw [List.nodup_append] at nodup
  rcases nodup with ⟨distinct, _, afterApart⟩
  refine ⟨distinct, ?_⟩
  intro flow mem
  have here : flow.id ∈ waiting.flowIds := List.mem_map_of_mem mem
  have planned : flow.id ∈ sim.flowIds op id := by
    rw [flowIds, List.mem_flatMap]
    exact ⟨waiting, whole ▸ List.mem_append_right _ List.mem_cons_self, here⟩
  refine ⟨(named.planned planned).1, (named.planned planned).2, ?_⟩
  intro op' id' mem'
  rw [flowIds, waitings_setCCWaiting] at mem'
  split at mem'
  · rw [erased, List.flatMap_append, List.mem_append] at mem'
    rcases mem' with mem' | mem'
    · exact beforeApart _ mem' _ (List.mem_append_left _ here) rfl
    · exact afterApart _ here _ mem' rfl
  · rename_i differs
    rcases named.apart planned mem' with ⟨rfl, rfl⟩
    exact differs ⟨rfl, rfl⟩

theorem ncclCall_advances {ranks : Ranks} {host : HostId} (named : Named sim)
    (free : TraceFree sim trace) (communicates : call.Communicates)
    (run : sim.ncclCall env op ranks host time trace comm stream call = .ok sim') :
    Advances env nobody sim sim' := by
  simp only [ncclCall] at run
  split at run
  · simp only [bind_eq_ok, pure_eq_ok, Prod.exists] at run
    rcases run with ⟨middle, waiting, created, rfl⟩
    rcases newCCWaiting_advances named created with ⟨advances, issued, same, flows, next, waits⟩
    have waitings_eq : middle.waitings op comm.id = sim.waitings op comm.id := by
      rw [waitings, waitings, waits]
    have ids : waiting.flowIds = trace.map Netsim.Flow.id := by rw [CCWaiting.flowIds, same]
    have frees : ∀ flow ∈ waiting.flowIds, FlowFree middle flow := by
      intro flow mem
      rw [ids] at mem
      rcases List.mem_map.mp mem with ⟨taken, among, rfl⟩
      exact (free.2 taken among).keep next flows waits
    have flat : ((sim.ccWaiting op comm.id).getD [] ++ [waiting]).flatMap CCWaiting.flowIds =
        middle.flowIds op comm.id ++ waiting.flowIds := by
      rw [flowIds, waitings_eq, List.flatMap_append, List.flatMap_singleton]
      rfl
    refine advances.trans (setCCWaiting_advances advances.named ?_ ?_ ?_)
    · intro other mem
      rcases List.mem_append.mp mem with mem | mem
      · exact advances.named.instances op comm.id other (waitings_eq ▸ mem)
      · exact List.mem_singleton.mp mem ▸ issued
    · rw [flat, List.nodup_append]
      refine ⟨advances.named.distinct op comm.id, ids ▸ free.1, ?_⟩
      rintro flow mem _ mem' rfl
      exact (frees flow mem').unplanned op comm.id mem
    · intro flow mem
      rw [flat] at mem
      exact (List.mem_append.mp mem).imp_right (frees flow)
  · rename_i idx _
    simp only [bind_eq_ok, unwrap_eq_ok] at run
    rcases run with ⟨waiting, known, middle, joined, run⟩
    have known : (sim.waitings op comm.id)[idx]? = some waiting := known
    have issued : waiting.Issued sim.queue.eventCounter := named.instances op comm.id waiting
      (List.mem_of_getElem? known)
    rcases joinStream_advances named issued joined with ⟨joins, waits⟩
    have waitings_eq : middle.waitings op comm.id = sim.waitings op comm.id := by
      rw [waitings, waitings, waits]
    rw [← waitings_eq] at known
    rcases split_waitings known with ⟨before, after, whole, erased, replaced⟩
    have same : (sim.ccWaiting op comm.id).getD [] = middle.waitings op comm.id := waitings_eq.symm
    have issued' := joins.named.instances op comm.id
    split at run
    · rw [same] at run
      have removes : Advances env nobody middle
          (middle.setCCWaiting op comm.id ((middle.waitings op comm.id).eraseIdx idx)) := by
        have sublist : (((middle.waitings op comm.id).eraseIdx idx).flatMap
            CCWaiting.flowIds).Sublist (middle.flowIds op comm.id) :=
          (List.eraseIdx_sublist ..).flatMap _
        refine setCCWaiting_advances joins.named ?_ ?_ ?_
        · exact fun other mem => issued' other (List.mem_of_mem_eraseIdx mem)
        · exact sublist.nodup (joins.named.distinct op comm.id)
        · exact fun flow mem => Or.inl (sublist.subset mem)
      have frees := traceFree_erased joins.named known
      have joinedIssued : (waiting.join comm.rank).Issued middle.queue.eventCounter :=
        (issued.mono joins.counter).join comm.rank
      exact (joins.trans removes).trans
        (completeCC_advances removes.named joinedIssued frees communicates run)
    · simp only [pure_eq_ok] at run
      subst run
      rw [same]
      have flat : (((middle.waitings op comm.id).set idx (waiting.join comm.rank)).flatMap
          CCWaiting.flowIds) = middle.flowIds op comm.id := by
        rw [replaced, flowIds, whole, List.flatMap_append, List.flatMap_append, List.flatMap_cons,
          List.flatMap_cons]
        rfl
      refine joins.trans (setCCWaiting_advances joins.named ?_ ?_ ?_)
      · intro other mem
        rcases List.mem_or_eq_of_mem_set mem with mem | rfl
        · exact issued' other mem
        · exact (issued.mono joins.counter).join comm.rank
      · exact flat ▸ joins.named.distinct op comm.id
      · exact fun flow mem => Or.inl (flat ▸ mem)

/-- The trace of a collective takes identifiers that are free. -/
theorem handleNcclOp_advances {host : ResponseId}
    {traceOf : Ranks → ℕ → Except Panic Trace} (named : Named sim) (takes : TakesNext traceOf)
    (run : sim.handleNcclOp env op host time comm stream call traceOf = .ok sim')
    (communicates : call.Communicates) : Advances env nobody sim sim' := by
  simp only [handleNcclOp, bind_eq_ok] at run
  rcases run with ⟨ranks, _, flows, made, run⟩
  have ids := takes made
  have counted : Advances env nobody sim
    { sim with nextFlowId := sim.nextFlowId + flows.length } := by
    refine .of_books (.of_silent rfl rfl rfl rfl rfl rfl rfl rfl) ?_
    refine ⟨fun known => (named.flows known).trans_le (Nat.le_add_right _ _), named.streams,
      named.recorded, named.endpoints, named.instances, named.distinct, named.apart, ?_⟩
    intro op id flow mem
    exact ⟨(named.planned mem).1.trans_le (Nat.le_add_right _ _), (named.planned mem).2⟩
  refine counted.trans (ncclCall_advances counted.named ⟨?_, ?_⟩ communicates run)
  · rw [ids]
    exact List.nodup_range'
  · intro flow mem
    have range : flow.id ∈ List.range' sim.nextFlowId flows.length := ids ▸ List.mem_map_of_mem mem
    rw [List.mem_range'_1] at range
    refine ⟨range.2, ?_, ?_⟩
    · exact fun known => ((named.flows known).trans_le range.1).ne
    · exact fun op id mem => Nat.lt_irrefl _ ((named.planned mem).1.trans_le range.1)

end Collective

theorem OnlyManages.named (named : Named sim) (manages : OnlyManages sim sim') : Named sim' := by
  rcases manages with ⟨_, _, _, _, _, _, _, _, rfl⟩
  exact named.of_same rfl (fun _ => rfl) rfl rfl rfl rfl

theorem updateHostCurr_advances (named : Named sim) (host : HostId) (time : ℤ) :
    Advances env nobody sim (sim.updateHostCurr host time) :=
  .of_books (.of_silent rfl rfl rfl rfl rfl rfl rfl rfl)
    (named.of_same rfl (fun _ => rfl) rfl rfl rfl rfl)

theorem handleTorchCall_advances (named : Named sim) (call : TorchCall) :
    Advances env nobody sim (sim.handleTorchCall env call) := by
  refine .of_books (.of_silent rfl rfl rfl rfl rfl rfl rfl rfl) ?_
  refine named.of_same rfl ?_ rfl rfl rfl rfl
  intro stream
  simp only [handleTorchCall]
  rw [info_modify]
  split
  · rename_i same
    rw [same]
    rfl
  · rfl

end Simulator

/-- The call names, forms or splits communicators. -/
def CudaCall.Manages : CudaCall → Prop
  | .ncclGetUniqueId => True
  | .ncclCommInitRank _ _ _ _ => True
  | .ncclCommSplit _ _ _ => True
  | _ => False

/-- The message names, forms or splits communicators. -/
def Message.Manages : Message → Prop
  | .cuda msg => msg.call.Manages
  | _ => False

/-- The call waits for an event or asks after one. -/
def CudaCall.Asks : CudaCall → Prop
  | .cudaDeviceSynchronize _ => True
  | .cudaStreamSynchronize _ => True
  | .cudaStreamQuery _ => True
  | .cudaEventSynchronize _ => True
  | .cudaEventQuery _ => True
  | _ => False

/-- The thread waits for an event or asks after one. -/
def Message.AskedBy : Message → ResponseId → Prop
  | .cuda msg, host => msg.call.Asks ∧ host = msg.id
  | _, _ => False

/-- The request that an event synchronize finds waiting, when its event has not ended. -/
def Message.Finds (env : Environment) (sim : Simulator) : Message → Option ResponseId → Prop
  | .cuda ⟨host, time, .cudaEventSynchronize event⟩, found =>
      ∃ middle stopped id,
        Simulator.executeToTime env time env.fuel (sim.updateHostCurr host.host time) =
          .ok (middle, stopped) ∧
        middle.idOfCuda (host.host, event) = some id ∧ middle.queue.query id = none ∧
        middle.syncing id = found
  | _, _ => False

/-- The thread asks, and takes the place of no request but one that it finds. -/
def Message.Parks (env : Environment) (sim : Simulator) (message : Message) (host : ResponseId)
    (found : Option ResponseId) : Prop :=
  message.AskedBy host ∧ (found = none ∨ message.Finds env sim found)

namespace Simulator

variable {env : Environment} {asks : ResponseId → Option ResponseId → Prop} {sim sim' : Simulator}

theorem handleCudaCall_advances {msg : CudaCallMsg} (named : Named sim)
    (operates : ¬msg.call.Manages) (run : sim.handleCudaCall env msg = .ok sim') :
    Advances env ((Message.cuda msg).Parks env sim) sim sim' := by
  rcases msg with ⟨host, time, call⟩
  have updated : Advances env ((Message.cuda ⟨host, time, call⟩).Parks env sim) sim
    (sim.updateHostCurr host.host time) :=
    (updateHostCurr_advances named host.host time).asked
  refine updated.trans ?_
  have base := updated.named
  cases call with
  | cudaMemcpyAsync size kind stream => exact (addEstimated_advances base run).asked
  | cudaDeviceSynchronize device =>
      exact cudaDeviceSynchronize_advances base ⟨⟨trivial, rfl⟩, .inl rfl⟩ run
  | cudaStreamSynchronize stream =>
      exact cudaStreamSynchronize_advances base ⟨⟨trivial, rfl⟩, .inl rfl⟩ run
  | cudaStreamWaitEvent stream event => exact (cudaStreamWaitEvent_advances base run).asked
  | cudaStreamQuery stream => exact cudaStreamQuery_advances base ⟨⟨trivial, rfl⟩, .inl rfl⟩ run
  | cudaEventRecord event => exact (cudaEventRecord_advances base run).asked
  | cudaEventSynchronize event =>
      refine cudaEventSynchronize_advances base ⟨⟨trivial, rfl⟩, .inl rfl⟩ ?_ run
      exact fun executed known unended =>
        ⟨⟨trivial, rfl⟩, .inr ⟨_, _, _, executed, known, unended, rfl⟩⟩
  | cudaEventQuery event => exact cudaEventQuery_advances base ⟨⟨trivial, rfl⟩, .inl rfl⟩ run
  | cudaAddLatency stream latency => exact (addComputation_advances base run).asked
  | flashAttnCall stream => exact (addEstimated_advances base run).asked
  | ncclGetUniqueId => exact absurd trivial operates
  | ncclCommInitRank device rank nranks id => exact absurd trivial operates
  | ncclCommSplit comm color key => exact absurd trivial operates
  | ncclBcast count dtype root comm stream =>
      exact (handleNcclOp_advances base (takesNext_bcast root count dtype) run trivial).asked
  | ncclAllReduce count dtype op comm stream =>
      exact (handleNcclOp_advances base (takesNext_allreduce count dtype) run trivial).asked
  | ncclAllGather count dtype comm stream =>
      exact (handleNcclOp_advances base (takesNext_allgather count dtype) run trivial).asked
  | ncclReduceScatter count dtype op comm stream =>
      exact (handleNcclOp_advances base (takesNext_reduceScatter count dtype) run trivial).asked
  | ncclSend count dtype peer comm stream => exact (ncclUngroupedP2P_advances base run).asked
  | ncclRecv count dtype peer comm stream => exact (ncclUngroupedP2P_advances base run).asked
  | ncclP2pGroup calls => exact (ncclGroupedP2P_advances base run).asked
  | readTimer stream =>
      simp only [handleCudaCall, readTimer, Except.ok.injEq] at run
      exact run ▸ (updateHostCurr_advances base _ _).asked

theorem handle_eq_ok {message : Message} (run : sim.handle env message = .ok sim') :
    ∃ middle, sim.dispatch env message = .ok middle ∧
      sim' = { middle with handled := middle.handled + 1 } := by
  simp only [handle, bind_eq_ok, pure_eq_ok] at run
  rcases run with ⟨middle, dispatched, rfl⟩
  exact ⟨middle, dispatched, rfl⟩

/-- A message that manages no communicator is handled by acts. -/
theorem handle_advances {message : Message} (named : Named sim) (operates : ¬message.Manages)
    (run : sim.handle env message = .ok sim') : Advances env (message.Parks env sim) sim sim' := by
  rcases handle_eq_ok run with ⟨middle, dispatched, rfl⟩
  have advances : Advances env (message.Parks env sim) sim middle := by
    cases message with
    | cuda msg => exact handleCudaCall_advances named operates dispatched
    | torch call =>
        simp only [dispatch, Except.ok.injEq] at dispatched
        exact dispatched ▸ (handleTorchCall_advances named call).asked
    | exit host time =>
        simp only [dispatch, Except.ok.injEq] at dispatched
        subst dispatched
        exact .of_books (.of_silent rfl rfl rfl rfl rfl rfl rfl rfl)
          (named.of_same rfl (fun _ => rfl) rfl rfl rfl rfl)
  exact advances.trans (.of_books (.of_silent rfl rfl rfl rfl rfl rfl rfl rfl)
    (advances.named.of_same rfl (fun _ => rfl) rfl rfl rfl rfl))

/-- A message that manages communicators runs the queue and changes their tables. -/
theorem handle_manages {message : Message} (manages : message.Manages)
    (run : sim.handle env message = .ok sim') :
    ∃ first second, OnlyExecutes env.toPlatform sim first ∧ OnlyManages first second ∧
      sim' = { second with handled := second.handled + 1 } := by
  rcases handle_eq_ok run with ⟨final, dispatched, rfl⟩
  cases message with
  | torch call => exact absurd manages id
  | exit host time => exact absurd manages id
  | cuda msg =>
      rcases msg with ⟨host, time, call⟩
      have updated := updateHostCurr_onlyExecutes env.toPlatform sim host.host time
      simp only [dispatch, handleCudaCall] at dispatched
      cases call with
      | ncclGetUniqueId =>
          simp only [Except.ok.injEq] at dispatched
          exact ⟨_, final, updated, dispatched ▸ .of_unnoted, rfl⟩
      | ncclCommInitRank device rank nranks id =>
          rcases ncclCommInitRank_eq_ok dispatched with ⟨middle, _, executed, manages⟩
          exact ⟨middle, final, updated.trans (executeToTime_onlyExecutes executed), manages, rfl⟩
      | ncclCommSplit comm color key =>
          rcases ncclCommSplit_eq_ok dispatched with ⟨middle, _, executed, manages⟩
          exact ⟨middle, final, updated.trans (executeToTime_onlyExecutes executed), manages, rfl⟩
      | _ => exact absurd manages id

theorem handle_named {message : Message} (named : Named sim)
    (run : sim.handle env message = .ok sim') : Named sim' := by
  by_cases manages : message.Manages
  · rcases handle_manages manages run with ⟨first, second, executes, changes, rfl⟩
    exact (changes.named (executes.named named)).of_same rfl (fun _ => rfl) rfl rfl rfl rfl
  · exact (handle_advances named manages run).named

theorem named_initial (initial : Initial sim) : Named sim := by
  rcases initial with ⟨cluster, setting, hostMapping, rfl⟩
  refine ⟨?_, ?_, ?_, ?_, ?_, ?_, ?_, ?_⟩
  · exact fun known => absurd known.symm (Option.some_ne_none _)
  · exact fun mem => absurd mem List.not_mem_nil
  · exact fun known => absurd known.symm (Option.some_ne_none _)
  · intro kind key endpoint mem
    cases kind <;> exact absurd mem List.not_mem_nil
  · exact fun _ _ _ mem => absurd mem List.not_mem_nil
  · exact fun _ _ => List.nodup_nil
  · exact fun mem => absurd mem List.not_mem_nil
  · exact fun mem => absurd mem List.not_mem_nil

/-- In every state reached the server stores what exists. -/
theorem named_of_reached {messages : List Message} (reached : Reached env messages sim) :
    Named sim :=
  reached.invariant (fun _ sim => Named sim) named_initial fun named step => handle_named named step

end Simulator

end Phantora
