import Phantora.Lib.Levels
import Phantora.Simulator.NcclSteps
import Phantora.Simulator.StreamRuns

/-!
# Levels of the events

The events of the graph are put on levels as they are added. An event is on no lower
level than what it is added with as its dependencies, and a dependency that is added
later leads to a higher level. The events of a stream are on no higher level than its cap.
-/

namespace Phantora

open Outcome

namespace EventQueue

variable {queue queue' : EventQueue} {level level' : EventId → ℕ} {height : ℕ} {e : EventId}

/-- The event exists and is on the level. -/
def OnLevel (level : EventId → ℕ) (queue : EventQueue) (e : EventId) (height : ℕ) : Prop :=
  e < queue.eventCounter ∧ level e = height

/-- The event exists and is not above the level. -/
def NotAbove (level : EventId → ℕ) (queue : EventQueue) (e : EventId) (height : ℕ) : Prop :=
  e < queue.eventCounter ∧ level e ≤ height

/-- The events that were there are still on their levels. -/
structure SameLevels (level level' : EventId → ℕ) (queue queue' : EventQueue) : Prop where
  counter : queue.eventCounter ≤ queue'.eventCounter
  same : ∀ {e}, e < queue.eventCounter → level' e = level e

theorem OnLevel.notAbove (onLevel : OnLevel level queue e height) {top : ℕ} (le : height ≤ top) :
    NotAbove level queue e top :=
  ⟨onLevel.1, onLevel.2.trans_le le⟩

theorem NotAbove.mono (notAbove : NotAbove level queue e height) {top : ℕ} (le : height ≤ top) :
    NotAbove level queue e top :=
  ⟨notAbove.1, notAbove.2.trans le⟩

/-- An event with one dependency. -/
theorem NotAbove.only (notAbove : NotAbove level queue e height) :
    ∀ d, some d ∈ [some e] → NotAbove level queue d height := by
  intro d mem
  simp only [List.mem_singleton, Option.some.injEq] at mem
  exact mem ▸ notAbove

/-- An event behind a barrier. -/
theorem notAbove_barrier (level : EventId → ℕ) (queue : EventQueue) (height : ℕ) :
    ∀ d, some d ∈ [none] → NotAbove level queue d height := by
  intro d mem
  simp only [List.mem_singleton, reduceCtorEq] at mem

namespace SameLevels

theorem refl (level : EventId → ℕ) (queue : EventQueue) : SameLevels level level queue queue :=
  ⟨le_rfl, fun _ => rfl⟩

theorem trans {first second third : EventQueue} {early middle late : EventId → ℕ}
    (left : SameLevels early middle first second) (right : SameLevels middle late second third) :
    SameLevels early late first third := by
  refine ⟨left.counter.trans right.counter, fun known => ?_⟩
  rw [right.same (known.trans_le left.counter), left.same known]

theorem of_counter (counter : queue'.eventCounter = queue.eventCounter) :
    SameLevels level level queue queue' :=
  ⟨counter.ge, fun _ => rfl⟩

theorem onLevel (same : SameLevels level level' queue queue')
    (onLevel : OnLevel level queue e height) : OnLevel level' queue' e height :=
  ⟨onLevel.1.trans_le same.counter, (same.same onLevel.1).trans onLevel.2⟩

theorem notAbove (same : SameLevels level level' queue queue')
    (notAbove : NotAbove level queue e height) : NotAbove level' queue' e height :=
  ⟨notAbove.1.trans_le same.counter, (same.same notAbove.1).trans_le notAbove.2⟩

end SameLevels

end EventQueue

namespace Simulator

open EventQueue (OnLevel NotAbove SameLevels)

variable {env : Environment} {sim sim' : Simulator} {cap cap' : HostStream → ℕ}
  {level level' : EventId → ℕ} {stream : HostStream} {height : ℕ} {e : EventId}

/-- The graph goes up the levels, and the streams are not above their caps. -/
structure Heights (cap : HostStream → ℕ) (level : EventId → ℕ) (sim : Simulator) : Prop where
  levelled : Levels.Levelled sim.queue.Precedes sim.queue.eventCounter level
  streams : ∀ stream, ∀ e ∈ (sim.streamInfo.info stream).events,
    NotAbove level sim.queue e (cap stream)

namespace Heights

/-- The graph and the streams stay. -/
theorem keep (heights : Heights cap level sim)
    (counter : sim'.queue.eventCounter = sim.queue.eventCounter)
    (precedes : ∀ {d e}, sim'.queue.Precedes d e → sim.queue.Precedes d e)
    (events : ∀ stream,
      (sim'.streamInfo.info stream).events = (sim.streamInfo.info stream).events) :
    Heights cap level sim' ∧ SameLevels level level sim.queue sim'.queue := by
  refine ⟨⟨?_, fun stream e mem => ?_⟩, .of_counter counter⟩
  · rw [counter]
    exact heights.levelled.mono precedes
  · rw [events] at mem
    exact (SameLevels.of_counter counter).notAbove (heights.streams stream e mem)

theorem grows (heights : Heights cap level sim)
    (grows : EventQueue.Grows sim.queue sim'.queue)
    (streamInfo : sim'.streamInfo = sim.streamInfo) :
    Heights cap level sim' ∧ SameLevels level level sim.queue sim'.queue := by
  refine heights.keep grows.eventCounter (fun edge => ?_) fun stream => by rw [streamInfo]
  rwa [EventQueue.Precedes, grows.revDependencies] at edge

theorem silent (heights : Heights cap level sim) (queue : sim'.queue = sim.queue)
    (streamInfo : sim'.streamInfo = sim.streamInfo) : Heights cap level sim' :=
  (heights.grows (queue ▸ .refl _) streamInfo).1

theorem executes (heights : Heights cap level sim)
    (executes : OnlyExecutes env.toPlatform sim sim') :
    Heights cap level sim' ∧ SameLevels level level sim.queue sim'.queue := by
  rcases executes with ⟨queue, _, _, _, _, evolves, _, rfl⟩
  exact heights.grows evolves.grows rfl

theorem mono (heights : Heights cap level sim) (le : ∀ stream, cap stream ≤ cap' stream) :
    Heights cap' level sim :=
  ⟨heights.levelled, fun stream e mem => (heights.streams stream e mem).mono (le stream)⟩

/-- A dependency is added that is below the event. -/
theorem addDependency (heights : Heights cap level sim) {d : EventId}
    (source : d < sim.queue.eventCounter) (target : e < sim.queue.eventCounter)
    (climbs : level d < level e) (run : sim.addDependency e (some d) = .ok sim') :
    Heights cap level sim' ∧ SameLevels level level sim.queue sim'.queue := by
  rcases addDependency_eq_ok run with ⟨queue, added, rfl⟩
  rcases EventQueue.addDependency_graph added with ⟨counter, _, _, edges⟩
  have same : SameLevels level level sim.queue queue := .of_counter counter
  refine ⟨⟨?_, fun stream e mem => same.notAbove (heights.streams stream e mem)⟩, same⟩
  rw [counter]
  refine heights.levelled.insert source target (Or.inl climbs) fun {a b} edge => ?_
  exact (edges.mp edge).imp_right fun ⟨same, isTarget⟩ => ⟨Option.some.inj same, isTarget⟩

theorem removeNoneDependency (heights : Heights cap level sim)
    (run : sim.removeNoneDependency env e = .ok sim') :
    Heights cap level sim' ∧ SameLevels level level sim.queue sim'.queue := by
  rcases removeNoneDependency_eq_ok run with ⟨queue, removed, rfl⟩
  exact heights.grows (EventQueue.removeNoneDependency_grows removed) rfl

section Add

variable {dependsOn : List (Option EventId)} {action : Option Action} {time : ℤ} {id : EventId}

/-- A new event is put on a level that is not below those of its dependencies. -/
theorem ofQueue (heights : Heights cap level sim) {queue : EventQueue}
    (low : ∀ d, some d ∈ dependsOn → NotAbove level sim.queue d height)
    (run : sim.queue.addActionOrPoint env.toPlatform dependsOn action time = .ok (queue, id)) :
    Heights cap (Function.update level id height) { sim with queue := queue } ∧
      SameLevels level (Function.update level id height) sim.queue queue ∧
      OnLevel (Function.update level id height) queue id height := by
  rcases EventQueue.addActionOrPoint_graph run with ⟨rfl, counter, _, _, edges⟩
  have same : SameLevels level (Function.update level sim.queue.eventCounter height) sim.queue
      queue := by
    refine ⟨counter ▸ Nat.le_succ _, fun known => ?_⟩
    exact Function.update_of_ne (Nat.ne_of_lt known) _ _
  refine ⟨⟨?_, fun stream e mem => same.notAbove (heights.streams stream e mem)⟩, same, ?_, ?_⟩
  · rw [counter]
    refine heights.levelled.append fun {d e} edge => (edges.mp edge).imp_right ?_
    rintro ⟨new, source⟩
    exact ⟨new, low d source⟩
  · exact counter ▸ Nat.lt_succ_self _
  · exact Function.update_self _ _ _

theorem addActionOrPoint (heights : Heights cap level sim)
    (low : ∀ d, some d ∈ dependsOn → NotAbove level sim.queue d height)
    (run : sim.addActionOrPoint env dependsOn action time = .ok (sim', id)) :
    ∃ level', Heights cap level' sim' ∧ SameLevels level level' sim.queue sim'.queue ∧
      OnLevel level' sim'.queue id height := by
  rcases addActionOrPoint_eq_ok run with ⟨queue, added, rfl⟩
  exact ⟨_, heights.ofQueue low added⟩

theorem submit (heights : Heights cap level sim) (high : cap stream ≤ height)
    (low : ∀ d, some d ∈ dependsOn → NotAbove level sim.queue d height)
    (run : sim.submit env stream dependsOn action time = .ok (sim', id)) :
    ∃ level', Heights (Function.update cap stream height) level' sim' ∧
      SameLevels level level' sim.queue sim'.queue ∧ OnLevel level' sim'.queue id height := by
  rcases submit_eq_ok run with ⟨queue, added, rfl⟩
  have lows : ∀ d, some d ∈ dependsOn ++ ((sim.lastEvent stream).map some).toList →
      NotAbove level sim.queue d height := by
    intro d mem
    rcases List.mem_append.mp mem with mem | mem
    · exact low d mem
    · rw [Option.mem_toList, Option.map_eq_some_iff] at mem
      rcases mem with ⟨last, isLast, same⟩
      have last := Option.some.inj same ▸ List.mem_of_getLast? isLast
      exact (heights.streams stream d last).mono high
  rcases heights.ofQueue lows added with ⟨raised, same, new⟩
  refine ⟨_, ⟨raised.levelled, fun other e mem => ?_⟩, same, new⟩
  rw [info_modify] at mem
  split at mem
  · rename_i isStream
    rw [isStream, Function.update_self]
    rcases List.mem_append.mp mem with old | last
    · exact same.notAbove ((heights.streams stream e old).mono high)
    · exact List.mem_singleton.mp last ▸ new.notAbove le_rfl
  · rename_i differs
    rw [Function.update_of_ne differs]
    exact raised.streams other e mem

theorem submitCalls {calls : List TorchCall} {durs : List ℕ} (heights : Heights cap level sim)
    (run : submitCalls env stream calls durs sim = .ok sim') :
    ∃ level', Heights cap level' sim' ∧ SameLevels level level' sim.queue sim'.queue := by
  induction calls generalizing sim durs level with
  | nil =>
      simp only [Simulator.submitCalls, Except.ok.injEq] at run
      subst run
      exact ⟨level, heights, .refl level sim.queue⟩
  | cons call calls ih =>
      simp only [Simulator.submitCalls, bind_eq_ok, Prod.exists] at run
      rcases run with ⟨_, _, middle, _, submitted, rest⟩
      rcases heights.submit le_rfl (fun _ mem => absurd mem List.not_mem_nil) submitted with
        ⟨level', raised, same, _⟩
      rw [Function.update_eq_self] at raised
      rcases ih raised rest with ⟨level'', raised', same'⟩
      exact ⟨level'', raised', same.trans same'⟩

theorem submitSeq {seq : TorchCallSeq} (heights : Heights cap level sim)
    (run : submitSeq env stream sim seq = .ok sim') :
    ∃ level', Heights cap level' sim' ∧ SameLevels level level' sim.queue sim'.queue := by
  cases seq with
  | single call duration => exact heights.submitCalls run
  | seq calls =>
      have estimated : Heights cap level { sim with
          torchEstimator := (sim.torchEstimator.estimateSequence env.profiler calls).1 } :=
        heights.silent rfl rfl
      exact estimated.submitCalls run

theorem clearComputeBufferOn (heights : Heights cap level sim)
    (run : sim.clearComputeBufferOn env stream = .ok sim') :
    ∃ level', Heights cap level' sim' ∧ SameLevels level level' sim.queue sim'.queue := by
  refine foldlM_invariant (fun middle => ∃ level', Heights cap level' middle ∧
    SameLevels level level' sim.queue middle.queue) ?_ ⟨level, ?_⟩ run
  · rintro first seq second _ ⟨level', raised, same⟩ step
    rcases raised.submitSeq step with ⟨level'', raised', same'⟩
    exact ⟨level'', raised', same.trans same'⟩
  · exact heights.keep rfl id fun other => (takeBuffer_info sim stream other).1

/-- The next event of a stream is put on a level that is not below the cap of the stream. -/
theorem addEvent (heights : Heights cap level sim) (high : cap stream ≤ height)
    (low : ∀ d, some d ∈ dependsOn → NotAbove level sim.queue d height)
    (run : sim.addEvent env stream dependsOn action time = .ok (sim', id)) :
    ∃ level', Heights (Function.update cap stream height) level' sim' ∧
      SameLevels level level' sim.queue sim'.queue ∧ OnLevel level' sim'.queue id height := by
  simp only [Simulator.addEvent, bind_eq_ok] at run
  rcases run with ⟨middle, cleared, submitted⟩
  rcases heights.clearComputeBufferOn cleared with ⟨level', raised, same⟩
  rcases raised.submit high (fun d mem => same.notAbove (low d mem)) submitted with
    ⟨level'', raised', same', new⟩
  exact ⟨level'', raised', same.trans same', new⟩

/-- An event of a stream that depends on nothing else. -/
theorem addAlone (heights : Heights cap level sim)
    (run : sim.addEvent env stream [] action time = .ok (sim', id)) :
    ∃ level', Heights cap level' sim' ∧ SameLevels level level' sim.queue sim'.queue ∧
      OnLevel level' sim'.queue id (cap stream) := by
  rcases heights.addEvent le_rfl (fun _ mem => absurd mem List.not_mem_nil) run with
    ⟨level', raised, same, new⟩
  rw [Function.update_eq_self] at raised
  exact ⟨level', raised, same, new⟩

end Add

section Calls

variable {host : ResponseId} {time : ℤ}

theorem awaitPoint {event : EventId} {fuel : ℕ} {reached : Bool} (heights : Heights cap level sim)
    (run : executeToEvent env event fuel
      ((sim.note (.awaits host event time)).awaitEvent host event) = .ok (sim', reached)) :
    Heights cap level sim' ∧ SameLevels level level sim.queue sim'.queue := by
  have awaits : Heights cap level ((sim.note (.awaits host event time)).awaitEvent host event) :=
    heights.silent rfl rfl
  exact awaits.executes (executeToEvent_onlyExecutes run)

theorem addComputation {node : HostId} {stream : CudaStream} {duration : ℤ} {call : CudaCall}
    (heights : Heights cap level sim)
    (run : sim.addComputation env node time stream duration call = .ok sim') :
    ∃ level', Heights cap level' sim' ∧ SameLevels level level' sim.queue sim'.queue := by
  simp only [Simulator.addComputation, bind_eq_ok, pure_eq_ok, Prod.exists] at run
  rcases run with ⟨middle, id, added, rfl⟩
  rcases heights.addAlone added with ⟨level', raised, same, _⟩
  exact ⟨level', raised, same⟩

/-- The last events of streams are on some levels. -/
theorem collectLasts {streams : List HostStream} {deps : List (Option EventId)}
    (heights : Heights cap level sim)
    (run : streams.foldlM (collectLast env) (sim, []) = .ok (sim', deps)) :
    ∃ level' height, Heights cap level' sim' ∧ SameLevels level level' sim.queue sim'.queue ∧
      ∀ d, some d ∈ deps → NotAbove level' sim'.queue d height := by
  refine foldlM_invariant (fun acc : Simulator × List (Option EventId) => ∃ level' height,
    Heights cap level' acc.1 ∧ SameLevels level level' sim.queue acc.1.queue ∧
      ∀ d, some d ∈ acc.2 → NotAbove level' acc.1.queue d height) ?_
    ⟨level, 0, heights, .refl _ _, fun _ mem => absurd mem List.not_mem_nil⟩ run
  rintro acc stream acc' _ ⟨level', height, heights', same, low⟩ step
  simp only [collectLast, bind_eq_ok, pure_eq_ok] at step
  rcases step with ⟨middle, cleared, rfl⟩
  rcases heights'.clearComputeBufferOn cleared with ⟨level'', raised, same'⟩
  refine ⟨level'', max height (cap stream), raised, same.trans same', fun d mem => ?_⟩
  rcases List.mem_append.mp mem with old | last
  · exact (same'.notAbove (low d old)).mono (le_max_left _ _)
  · rw [Option.mem_toList, Option.map_eq_some_iff] at last
    rcases last with ⟨event, isLast, isEvent⟩
    have inStream := Option.some.inj isEvent ▸ List.mem_of_getLast? isLast
    exact (raised.streams stream d inStream).mono (le_max_right _ _)

theorem cudaDeviceSynchronize {device : ℤ} (heights : Heights cap level sim)
    (run : sim.cudaDeviceSynchronize env host time device = .ok sim') :
    ∃ level', Heights cap level' sim' ∧ SameLevels level level' sim.queue sim'.queue := by
  simp only [Simulator.cudaDeviceSynchronize, bind_eq_ok, pure_eq_ok, Prod.exists] at run
  rcases run with ⟨flushed, deps, collected, added, id, point, last, reached, executed, rfl⟩
  rcases heights.collectLasts collected with ⟨level₁, height, flushes, same₁, low⟩
  rcases flushes.addActionOrPoint low point with ⟨level₂, raised, same₂, _⟩
  rcases raised.awaitPoint executed with ⟨waits, same₃⟩
  exact ⟨level₂, waits, (same₁.trans same₂).trans same₃⟩

theorem cudaStreamSynchronize {stream : CudaStream} (heights : Heights cap level sim)
    (run : sim.cudaStreamSynchronize env host time stream = .ok sim') :
    ∃ level', Heights cap level' sim' ∧ SameLevels level level' sim.queue sim'.queue := by
  simp only [Simulator.cudaStreamSynchronize, bind_eq_ok, pure_eq_ok, Prod.exists] at run
  rcases run with ⟨added, id, point, last, reached, executed, rfl⟩
  rcases heights.addAlone point with ⟨level', raised, same, _⟩
  rcases raised.awaitPoint executed with ⟨waits, same'⟩
  exact ⟨level', waits, same.trans same'⟩

theorem cudaStreamQuery {stream : CudaStream} (heights : Heights cap level sim)
    (run : sim.cudaStreamQuery env host time stream = .ok sim') :
    ∃ level', Heights cap level' sim' ∧ SameLevels level level' sim.queue sim'.queue := by
  simp only [Simulator.cudaStreamQuery, bind_eq_ok, Prod.exists] at run
  rcases run with ⟨flushed, flush, executed, stopped, ran, answered⟩
  have flushes : ∃ level', Heights cap level' flushed ∧
      SameLevels level level' sim.queue flushed.queue := by
    split at flush
    · exact heights.clearComputeBufferOn flush
    · exact Except.ok.inj flush ▸ ⟨level, heights, .refl _ _⟩
  rcases flushes with ⟨level', raised, same⟩
  have replies : OnlyExecutes env.toPlatform executed sim' := by
    split at answered
    · exact Except.ok.inj answered ▸ replyToPoll_onlyExecutes ..
    · exact Except.ok.inj answered ▸ replyToPoll_onlyExecutes ..
  rcases raised.executes ((executeToTime_onlyExecutes ran).trans replies) with ⟨waits, same'⟩
  exact ⟨level', waits, same.trans same'⟩

/-- An event of a stream that waits for a recorded one. -/
theorem cudaStreamWaitEvent {stream : CudaStream} {event : CudaEvent} {recorded : ℕ}
    (heights : Heights cap level sim)
    (low : ∀ e, sim.idOfCuda (host.host, event) = some e → NotAbove level sim.queue e recorded)
    (run : sim.cudaStreamWaitEvent env host time stream event = .ok sim') :
    ∃ level', Heights (Function.update cap (host.host, stream)
        (max (cap (host.host, stream)) recorded)) level' sim' ∧
      SameLevels level level' sim.queue sim'.queue := by
  simp only [Simulator.cudaStreamWaitEvent, bind_eq_ok, pure_eq_ok, unwrap_eq_ok,
    Prod.exists] at run
  rcases run with ⟨waited, known, added, id, point, rfl⟩
  rcases heights.addEvent (le_max_left _ recorded)
    ((low waited known).mono (le_max_right _ _)).only point with ⟨level', raised, same, _⟩
  exact ⟨level', raised, same⟩

theorem cudaEventRecord {event : CudaEvent} (heights : Heights cap level sim)
    (run : sim.cudaEventRecord env host time event = .ok sim') :
    ∃ level' id, Heights cap level' sim' ∧ SameLevels level level' sim.queue sim'.queue ∧
      sim'.idOfCuda = Function.update sim.idOfCuda (host.host, event) (some id) ∧
      NotAbove level' sim'.queue id (cap (host.host, ⟨event.device, event.stream⟩)) := by
  simp only [Simulator.cudaEventRecord, bind_eq_ok, pure_eq_ok, Prod.exists] at run
  rcases run with ⟨added, id, point, rfl⟩
  rcases heights.addAlone point with ⟨level', raised, same, new⟩
  rcases addEvent_onlySubmits point with ⟨_, _, _, rfl⟩
  exact ⟨level', id, raised.silent rfl rfl, same, rfl, new.notAbove le_rfl⟩

theorem manages (heights : Heights cap level sim) (manages : OnlyManages sim sim') :
    Heights cap level sim' ∧ SameLevels level level sim.queue sim'.queue := by
  rcases manages with ⟨_, _, _, _, _, _, _, _, rfl⟩
  exact ⟨heights.silent rfl rfl, .refl _ _⟩

/-- A message that neither communicates nor lets a stream wait for a recorded event. -/
theorem dispatch {message : Message} (heights : Heights cap level sim)
    (notCollective : message.collective = none) (notTransfers : ¬message.Transfers)
    (notWait : ∀ host time stream event,
      message ≠ .cuda ⟨host, time, .cudaStreamWaitEvent stream event⟩)
    (run : sim.dispatch env message = .ok sim') :
    ∃ level', Heights cap level' sim' ∧ SameLevels level level' sim.queue sim'.queue := by
  rcases message with ⟨host, time, call⟩ | call | ⟨host, time⟩
  · have updated : Heights cap level (sim.updateHostCurr host.host time) := heights.silent rfl rfl
    cases call with
    | cudaMemcpyAsync size kind stream =>
        have estimated : Heights cap level { sim.updateHostCurr host.host time with
          cudaEstimator := (sim.cudaEstimator.memcpy env.profiler kind size).1 } :=
          updated.silent rfl rfl
        exact estimated.addComputation run
    | cudaDeviceSynchronize device => exact updated.cudaDeviceSynchronize run
    | cudaStreamSynchronize stream => exact updated.cudaStreamSynchronize run
    | cudaStreamWaitEvent stream event => exact absurd rfl (notWait host time stream event)
    | cudaStreamQuery stream => exact updated.cudaStreamQuery run
    | cudaEventRecord event =>
        rcases updated.cudaEventRecord run with ⟨level', _, raised, same, _⟩
        exact ⟨level', raised, same⟩
    | cudaEventSynchronize event =>
        exact ⟨level, updated.executes (cudaEventSynchronize_onlyExecutes run)⟩
    | cudaEventQuery event =>
        exact ⟨level, updated.executes (cudaEventQuery_onlyExecutes run)⟩
    | cudaAddLatency stream latency => exact updated.addComputation run
    | flashAttnCall stream =>
        have estimated : ∀ estimator : CudaEstimator, Heights cap level
            { sim.updateHostCurr host.host time with cudaEstimator := estimator } :=
          fun _ => updated.silent rfl rfl
        exact (estimated _).addComputation run
    | ncclGetUniqueId =>
        simp only [Simulator.dispatch, handleCudaCall, Except.ok.injEq] at run
        subst run
        exact ⟨level, updated.silent rfl rfl, .refl _ _⟩
    | ncclCommInitRank device rank nranks id =>
        rcases ncclCommInitRank_eq_ok run with ⟨middle, _, executed, managed⟩
        rcases updated.executes (executeToTime_onlyExecutes executed) with ⟨ran, same⟩
        rcases ran.manages managed with ⟨formed, same'⟩
        exact ⟨level, formed, same.trans same'⟩
    | ncclCommSplit comm color key =>
        rcases ncclCommSplit_eq_ok run with ⟨middle, _, executed, managed⟩
        rcases updated.executes (executeToTime_onlyExecutes executed) with ⟨ran, same⟩
        rcases ran.manages managed with ⟨formed, same'⟩
        exact ⟨level, formed, same.trans same'⟩
    | readTimer stream =>
        simp only [Simulator.dispatch, handleCudaCall, readTimer, Except.ok.injEq] at run
        subst run
        exact ⟨level, updated.silent rfl rfl, .refl _ _⟩
    | ncclBcast => cases notCollective
    | ncclAllReduce => cases notCollective
    | ncclAllGather => cases notCollective
    | ncclReduceScatter => cases notCollective
    | ncclSend => exact absurd trivial notTransfers
    | ncclRecv => exact absurd trivial notTransfers
    | ncclP2pGroup => exact absurd trivial notTransfers
  · simp only [Simulator.dispatch, Except.ok.injEq] at run
    subst run
    refine ⟨level, heights.keep rfl id fun stream => ?_⟩
    simp only [handleTorchCall]
    rw [info_modify]
    split
    · rename_i isStream
      rw [isStream]
      rfl
    · rfl
  · simp only [Simulator.dispatch, Except.ok.injEq] at run
    subst run
    exact ⟨level, heights.silent rfl rfl, .refl _ _⟩

end Calls

end Heights

end Simulator

end Phantora
