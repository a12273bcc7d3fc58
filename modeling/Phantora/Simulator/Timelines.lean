import Phantora.EventQueue.Plan
import Phantora.Simulator.Machine
import Phantora.Simulator.StreamOrder

/-!
# The server follows the machines

In a run without communicators the events of each stream are the operations of the
machine of its host, with the spans that the machine gives them. What the server has
executed so far, and for whom, makes no difference to them.
-/

namespace Phantora

open Outcome EventQueue

section Estimates

variable {profiler : Profiler} {sequences : Set (List TorchCallInfo)} {cuda : CudaEstimator}
  {torch : TorchEstimator}

/-- What the estimators have cached has been measured for what it is cached for. -/
structure Estimates (profiler : Profiler) (sequences : Set (List TorchCallInfo))
    (cuda : CudaEstimator) (torch : TorchEstimator) : Prop where
  memcpy : ∀ {kind size duration}, cuda.memcpyCache kind size = some duration →
    duration = profiler.memcpy 0 kind size
  compute : ∀ {info duration}, torch.computeCache info = some duration →
    duration = profiler.torch 0 2 info
  sequence : ∀ {digest durations}, torch.sequenceCache digest = some durations →
    ∃ infos ∈ sequences, profiler.hashSequence infos = digest ∧
      durations = infos.map (profiler.torch 0 1)

namespace Estimates

theorem ofMemcpy (estimates : Estimates profiler sequences cuda torch) (steady : profiler.Steady)
    (kind : CudaMemcpyKind) (size : ℕ) :
    (cuda.memcpy profiler kind size).2 = profiler.memcpy 0 kind size ∧
      Estimates profiler sequences (cuda.memcpy profiler kind size).1 torch := by
  simp only [CudaEstimator.memcpy]
  split
  · rename_i duration hit
    exact ⟨estimates.memcpy hit, estimates⟩
  · have measured := steady.memcpy cuda.measured kind size
    refine ⟨measured, ⟨?_, estimates.compute, estimates.sequence⟩⟩
    intro kind' size' duration hit
    dsimp only at hit
    by_cases sameKind : kind' = kind
    · subst sameKind
      rw [Function.update_self] at hit
      by_cases sameSize : size' = size
      · subst sameSize
        rw [Function.update_self, Option.some.injEq] at hit
        exact hit.symm.trans measured
      · rw [Function.update_of_ne sameSize] at hit
        exact estimates.memcpy hit
    · rw [Function.update_of_ne sameKind] at hit
      exact estimates.memcpy hit

theorem ofFlashAttn (estimates : Estimates profiler sequences cuda torch)
    (steady : profiler.Steady) (call : CudaCall) :
    (cuda.flashAttn profiler call).2 = profiler.flashAttn 0 call ∧
      Estimates profiler sequences (cuda.flashAttn profiler call).1 torch :=
  ⟨steady.flashAttn _ _, estimates.memcpy, estimates.compute, estimates.sequence⟩

theorem ofTorch (estimates : Estimates profiler sequences cuda torch) (steady : profiler.Steady)
    (info : TorchCallInfo) :
    (torch.estimate profiler info).2 = profiler.torch 0 2 info ∧
      Estimates profiler sequences cuda (torch.estimate profiler info).1 := by
  simp only [TorchEstimator.estimate]
  split
  · rename_i duration hit
    exact ⟨estimates.compute hit, estimates⟩
  · have measured := steady.torch torch.measured 2 info
    refine ⟨measured, ⟨estimates.memcpy, ?_, estimates.sequence⟩⟩
    intro info' duration hit
    dsimp only [TorchEstimator.run] at hit
    by_cases same : info' = info
    · subst same
      rw [Function.update_self, Option.some.injEq] at hit
      exact hit.symm.trans measured
    · rw [Function.update_of_ne same] at hit
      exact estimates.compute hit

theorem measuredFrom_steady (steady : profiler.Steady) (first : ℕ) (infos : List TorchCallInfo) :
    measuredFrom profiler first infos = infos.map (profiler.torch 0 1) := by
  refine List.ext_getElem (by simp) fun i lt lt' => ?_
  simp [measuredFrom, steady.torch]

theorem runAll_computeCache (profiler : Profiler) (estimator : TorchEstimator)
    (calls : List TorchCall) :
    (estimator.runAll profiler calls).1.computeCache = estimator.computeCache := by
  induction calls generalizing estimator with
  | nil => rfl
  | cons call calls ih => exact ih _

/-- A sequence that no other one collides with has the durations of its calls. -/
theorem ofSequence (estimates : Estimates profiler sequences cuda torch) (steady : profiler.Steady)
    (apart : Set.InjOn profiler.hashSequence sequences) {calls : List TorchCall}
    (mem : calls.map TorchCall.info ∈ sequences) :
    (torch.estimateSequence profiler calls).2 =
        calls.map (fun call => profiler.torch 0 1 call.info) ∧
      Estimates profiler sequences cuda (torch.estimateSequence profiler calls).1 := by
  have durations : (calls.map TorchCall.info).map (profiler.torch 0 1) =
      calls.map fun call => profiler.torch 0 1 call.info := List.map_map ..
  cases cached : torch.sequenceCache (profiler.hashSequence (calls.map TorchCall.info)) with
  | some hit =>
      rcases estimates.sequence cached with ⟨infos, mem', same, rfl⟩
      rw [estimateSequence_hit cached, apart mem' mem same]
      exact ⟨durations, estimates⟩
  | none =>
      rcases estimateSequence_miss cached with ⟨answer, cache⟩
      rw [measuredFrom_steady steady] at answer cache
      refine ⟨answer.trans durations, ⟨estimates.memcpy, ?_, ?_⟩⟩
      · have same : (torch.estimateSequence profiler calls).1.computeCache =
          torch.computeCache := by
          simp only [TorchEstimator.estimateSequence, cached]
          exact runAll_computeCache profiler torch calls
        intro info duration hit
        rw [same] at hit
        exact estimates.compute hit
      · intro digest durations hit
        rw [cache] at hit
        by_cases same : digest = profiler.hashSequence (calls.map TorchCall.info)
        · subst same
          rw [Function.update_self, Option.some.injEq] at hit
          exact ⟨_, mem, rfl, hit.symm⟩
        · rw [Function.update_of_ne same] at hit
          exact estimates.sequence hit

end Estimates

end Estimates

/-- The events of the stream are the operations of the lane. -/
structure LaneOf (added : List Addition) (info : StreamInfo) (lane : Lane) : Prop where
  spans : info.events.map (fun e => (planned added)[e]?) = lane.spans.map some
  buffered : info.buffered = lane.buffered
  timely : ∀ entry ∈ lane.buffered, 0 ≤ entry.1.time

namespace LaneOf

variable {added added' : List Addition} {info : StreamInfo} {lane : Lane}

theorem lt (laneOf : LaneOf added info lane) {e : EventId} (mem : e ∈ info.events) :
    e < added.length := by
  have mapped := List.mem_map_of_mem (f := fun e => (planned added)[e]?) mem
  rw [laneOf.spans] at mapped
  rcases List.mem_map.mp mapped with ⟨span, _, known⟩
  have lt := (List.getElem?_eq_some_iff.mp known.symm).1
  rwa [length_planned] at lt

/-- What is added later does not matter. -/
theorem mono (laneOf : LaneOf added info lane)
    (same : ∀ e < added.length, (planned added')[e]? = (planned added)[e]?) :
    LaneOf added' info lane := by
  refine ⟨?_, laneOf.buffered, laneOf.timely⟩
  rw [← laneOf.spans]
  exact List.map_congr_left fun e mem => same e (laneOf.lt mem)

/-- The last event ends when the lane finishes. -/
theorem finish (laneOf : LaneOf added info lane) :
    info.events.getLast?.bind (plannedEnd added) = lane.finish := by
  have last := congrArg List.getLast? laneOf.spans
  rw [List.getLast?_map, List.getLast?_map] at last
  cases known : info.events.getLast? with
  | none =>
      rw [known, Option.map_none, eq_comm, Option.map_eq_none_iff] at last
      rw [Lane.finish, last]
      rfl
  | some e =>
      rw [known, Option.map_some] at last
      rcases Option.map_eq_some_iff.mp last.symm with ⟨span, lastSpan, plan⟩
      rw [Lane.finish, lastSpan, Option.bind_some, plannedEnd, ← plan]

theorem endsAt_last (laneOf : LaneOf added info lane) :
    Forward.endsAt (planned added) (info.events.getLast?.map some).toList.reduceOption =
      lane.finish.toList := by
  rw [← laneOf.finish]
  cases info.events.getLast? with
  | none => rfl
  | some e => exact endsAt_singleton added e

/-- An event that follows the last one, and others. -/
theorem issue (laneOf : LaneOf added info lane) {dependsOn : List (Option EventId)}
    {action : Option Action} {time : ℤ} {waits : List ℤ}
    (ends : Forward.endsAt (planned added) dependsOn.reduceOption = waits) :
    LaneOf (added ++ [(dependsOn ++ (info.events.getLast?.map some).toList, action, time)])
      { info with events := info.events ++ [added.length] }
      (lane.issue waits (durationOf action) time) := by
  have last := laneOf.endsAt_last
  refine ⟨?_, laneOf.buffered, laneOf.timely⟩
  have old : ∀ e ∈ info.events, (planned (added ++
      [(dependsOn ++ (info.events.getLast?.map some).toList, action, time)]))[e]? =
        (planned added)[e]? := by
    intro e mem
    rw [planned_concat, List.getElem?_append_left]
    rw [length_planned]
    exact laneOf.lt mem
  rw [List.map_append, List.map_congr_left old, laneOf.spans, Lane.issue, List.map_append]
  congr 1
  have new : (planned added).length = added.length := length_planned added
  rw [List.map_singleton, List.map_singleton, planned_concat, ← new, List.getElem?_concat_length,
    Forward.Job.span]
  simp only [jobOf, List.reduceOption_append, Forward.endsAt_append, ends, last]

end LaneOf

/-- The response to a thread is what is due to it. -/
def Owes (owed : ResponseId × Due) (response : ResponseId × Response) : Prop :=
  owed.1 = response.1 ∧ owed.2.Meets response.2

namespace Simulator

/-- What has been sent to the threads of a host, in order. -/
def sentTo (sim : Simulator) (host : HostId) : List (ResponseId × Response) :=
  sim.sent.reverse.filter fun response => response.1.host = host

/-- The server is where the machines are, with the events that have been added. -/
structure Tracks (env : Environment) (sequences : Set (List TorchCallInfo))
    (machines : HostId → Machine) (added : List Addition) (waiting : EventId → Option ResponseId)
    (sim : Simulator) : Prop where
  foreseen : Foreseen env.toPlatform added sim.queue
  durations : ∀ addition ∈ added, 0 ≤ durationOf addition.2.1
  syncing : sim.syncing = waiting
  keys : ∀ host stream, (host, stream) ∈ sim.streamInfo.keys ↔ stream ∈ (machines host).streams
  lanes : ∀ host stream,
    LaneOf added (sim.streamInfo.info (host, stream)) ((machines host).lanes stream)
  marks : ∀ host event,
    (machines host).marks event = (sim.idOfCuda (host, event)).bind (plannedEnd added)
  marked : ∀ {key e}, sim.idOfCuda key = some e → e < added.length
  estimates : Estimates env.profiler sequences sim.cudaEstimator sim.torchEstimator
  dues : ∀ host, List.Forall₂ Owes (machines host).dues (sim.sentTo host)

variable {env : Environment} {sequences : Set (List TorchCallInfo)} {machines : HostId → Machine}
  {added added' : List Addition} {waiting : EventId → Option ResponseId} {sim sim' : Simulator}
  {host : HostId} {stream : CudaStream}

namespace Tracks

/-- What is added later changes no plan. -/
theorem planned_append (added more : List Addition) {e : EventId} (old : e < added.length) :
    (planned (added ++ more))[e]? = (planned added)[e]? := by
  induction more using List.reverseRecOn with
  | nil => rw [List.append_nil]
  | append_singleton more addition ih =>
      have short : e < (planned (added ++ more)).length := by
        rw [length_planned, List.length_append]
        exact Nat.lt_add_right _ old
      rw [← List.append_assoc, planned_concat, List.getElem?_append_left short, ih]

/-- Nothing changes but what nobody asks about. -/
theorem congr (tracks : Tracks env sequences machines added waiting sim)
    (queue : sim'.queue = sim.queue) (syncing : sim'.syncing = sim.syncing)
    (streamInfo : sim'.streamInfo = sim.streamInfo) (idOfCuda : sim'.idOfCuda = sim.idOfCuda)
    (cuda : sim'.cudaEstimator = sim.cudaEstimator)
    (torch : sim'.torchEstimator = sim.torchEstimator) (sent : sim'.sent = sim.sent) :
    Tracks env sequences machines added waiting sim' where
  foreseen := queue ▸ tracks.foreseen
  durations := tracks.durations
  syncing := syncing.trans tracks.syncing
  keys := streamInfo ▸ tracks.keys
  lanes := streamInfo ▸ tracks.lanes
  marks := idOfCuda ▸ tracks.marks
  marked := idOfCuda ▸ tracks.marked
  estimates := cuda ▸ torch ▸ tracks.estimates
  dues host := by
    rw [sentTo, sent]
    exact tracks.dues host

/-- A stream changes as the lane does. -/
theorem change (tracks : Tracks env sequences machines added waiting sim) (host : HostId)
    (stream : CudaStream) {queue : EventQueue} {torch : TorchEstimator}
    {g : StreamInfo → StreamInfo} {f : Lane → Lane}
    (foreseen : Foreseen env.toPlatform added' queue)
    (durations : ∀ addition ∈ added', 0 ≤ durationOf addition.2.1)
    (longer : added.length ≤ added'.length)
    (same : ∀ e < added.length, (planned added')[e]? = (planned added)[e]?)
    (estimates : Estimates env.profiler sequences sim.cudaEstimator torch)
    (lane : LaneOf added' (g (sim.streamInfo.info (host, stream)))
      (f ((machines host).lanes stream))) :
    Tracks env sequences (Function.update machines host ((machines host).use stream f)) added'
      waiting { sim with
        queue := queue
        torchEstimator := torch
        streamInfo := sim.streamInfo.modify (host, stream) g } where
  foreseen := foreseen
  durations := durations
  syncing := tracks.syncing
  keys other stream' := by
    rw [mem_keys_modify, tracks.keys]
    by_cases sameHost : other = host
    · subst sameHost
      rw [Function.update_self, Machine.mem_streams_use]
      simp
    · rw [Function.update_of_ne sameHost]
      simp [sameHost]
  lanes other stream' := by
    dsimp only
    rw [info_modify]
    by_cases sameHost : other = host
    · subst sameHost
      rw [Function.update_self]
      by_cases sameStream : stream' = stream
      · subst sameStream
        rw [if_pos rfl, Machine.lanes_use_self]
        exact lane
      · rw [if_neg (by simp [sameStream]), Machine.lanes_use_of_ne _ _ sameStream]
        exact (tracks.lanes other stream').mono same
    · rw [if_neg (by simp [sameHost]), Function.update_of_ne sameHost]
      exact (tracks.lanes other stream').mono same
  marks other event := by
    have marks : (Function.update machines host ((machines host).use stream f) other).marks event =
        (machines other).marks event := by
      by_cases sameHost : other = host
      · subst sameHost
        rw [Function.update_self]
        rfl
      · rw [Function.update_of_ne sameHost]
    rw [marks, tracks.marks]
    dsimp only
    cases known : sim.idOfCuda (other, event) with
    | none => rfl
    | some e => simp only [Option.bind_some, plannedEnd, same e (tracks.marked known)]
  marked known := (tracks.marked known).trans_le longer
  estimates := estimates
  dues other := by
    by_cases sameHost : other = host
    · subst sameHost
      rw [Function.update_self]
      exact tracks.dues other
    · rw [Function.update_of_ne sameHost]
      exact tracks.dues other

/-- An event that is submitted is the next operation of its stream. -/
theorem submit (tracks : Tracks env sequences machines added waiting sim)
    {dependsOn : List (Option EventId)} {action : Option Action} {time : ℤ} {id : EventId}
    {waits : List ℤ} (noFlow : flowOf action = none) (lasting : 0 ≤ durationOf action)
    (nonneg : 0 ≤ time) (free : none ∉ dependsOn)
    (issued : ∀ d, some d ∈ dependsOn → d < added.length)
    (ends : Forward.endsAt (planned added) dependsOn.reduceOption = waits)
    (run : sim.submit env (host, stream) dependsOn action time = .ok (sim', id)) :
    ∃ addition, Tracks env sequences (Function.update machines host ((machines host).use stream
        fun lane => lane.issue waits (durationOf action) time)) (added ++ [addition]) waiting sim' ∧
      id = added.length ∧ sim'.queue.ended = sim.queue.ended ∧
      sim'.lastEvent (host, stream) = some id := by
  rcases submit_eq_ok run with ⟨queue, submitted, rfl⟩
  have lane := tracks.lanes host stream
  have freeLast : none ∉ dependsOn ++ ((sim.lastEvent (host, stream)).map some).toList := by
    intro mem
    rcases List.mem_append.mp mem with mem | mem
    · exact free mem
    · simp at mem
  have issuedLast : ∀ d, some d ∈ dependsOn ++ ((sim.lastEvent (host, stream)).map some).toList →
      d < added.length := by
    intro d mem
    rcases List.mem_append.mp mem with mem | mem
    · exact issued d mem
    · simp only [Option.mem_toList, Option.map_eq_some_iff, Option.some.injEq,
        exists_eq_right] at mem
      exact lane.lt (List.mem_of_getLast? mem)
  rcases tracks.foreseen.add noFlow freeLast issuedLast nonneg submitted with
    ⟨foreseen, rfl, ended⟩
  refine ⟨(dependsOn ++ ((sim.lastEvent (host, stream)).map some).toList, action, time), ?_, rfl,
    ended, ?_⟩
  · refine tracks.change host stream foreseen ?_ (by simp)
      (fun e old => planned_append added [_] old)
      tracks.estimates ?_
    · intro addition mem
      rcases List.mem_append.mp mem with mem | mem
      · exact tracks.durations addition mem
      · rw [List.mem_singleton.mp mem]
        exact lasting
    · exact lane.issue ends
  · simp [lastEvent, info_modify]

/-- A lane is read differently, and the server does nothing. -/
theorem reread (tracks : Tracks env sequences machines added waiting sim) (host : HostId)
    (stream : CudaStream) {f : Lane → Lane}
    (lane : LaneOf added (sim.streamInfo.info (host, stream)) (f ((machines host).lanes stream))) :
    Tracks env sequences (Function.update machines host ((machines host).onLane stream f)) added
      waiting sim where
  foreseen := tracks.foreseen
  durations := tracks.durations
  syncing := tracks.syncing
  keys other stream' := by
    rw [tracks.keys]
    by_cases sameHost : other = host
    · subst sameHost
      rw [Function.update_self]
      rfl
    · rw [Function.update_of_ne sameHost]
  lanes other stream' := by
    by_cases sameHost : other = host
    · subst sameHost
      rw [Function.update_self]
      by_cases sameStream : stream' = stream
      · subst sameStream
        rw [Machine.lanes_onLane_self]
        exact lane
      · rw [Machine.lanes_onLane_of_ne _ _ sameStream]
        exact tracks.lanes other stream'
    · rw [Function.update_of_ne sameHost]
      exact tracks.lanes other stream'
  marks other event := by
    rw [← tracks.marks]
    by_cases sameHost : other = host
    · subst sameHost
      rw [Function.update_self]
      rfl
    · rw [Function.update_of_ne sameHost]
  marked := tracks.marked
  estimates := tracks.estimates
  dues other := by
    by_cases sameHost : other = host
    · subst sameHost
      rw [Function.update_self]
      exact tracks.dues other
    · rw [Function.update_of_ne sameHost]
      exact tracks.dues other

/-- The calls of a sequence become operations of the durations that are given for them. -/
theorem submitCalls (tracks : Tracks env sequences machines added waiting sim)
    (used : stream ∈ (machines host).streams) {calls : List TorchCall}
    (nonneg : ∀ call ∈ calls, 0 ≤ call.time) (duration : TorchCall → ℕ)
    (run : Simulator.submitCalls env (host, stream) calls (calls.map duration) sim = .ok sim') :
    ∃ more, Tracks env sequences (Function.update machines host ((machines host).onLane stream
      fun lane => calls.foldl (fun lane call =>
        lane.issue [] (asMicros (duration call)) call.time) lane)) (added ++ more)
          waiting sim' := by
  induction calls generalizing machines added sim with
  | nil =>
      simp only [Simulator.submitCalls, Except.ok.injEq] at run
      refine ⟨[], ?_⟩
      simp only [List.foldl_nil, Machine.onLane_id, Function.update_eq_self, List.append_nil]
      exact run ▸ tracks
  | cons call calls ih =>
      simp only [Simulator.submitCalls, List.map_cons, List.head?_cons, List.tail_cons, bind_eq_ok,
        unwrap_eq_ok, Option.some.injEq, Prod.exists] at run
      rcases run with ⟨_, rfl, middle, id, submitted, rest⟩
      rcases tracks.submit rfl (Int.natCast_nonneg _) (nonneg call List.mem_cons_self)
        List.not_mem_nil (fun _ mem => absurd mem List.not_mem_nil) rfl submitted with
        ⟨addition, issued, _⟩
      rw [Machine.use_of_mem _ _ used] at issued
      rcases ih issued (by rw [Function.update_self]; exact used)
        (fun other mem => nonneg other (List.mem_cons_of_mem _ mem)) rest with ⟨more, all⟩
      rw [Function.update_self, Function.update_idem, Machine.onLane_onLane,
        List.append_assoc] at all
      exact ⟨[addition] ++ more, all⟩

variable (steady : env.profiler.Steady) (apart : Set.InjOn env.profiler.hashSequence sequences)

include steady apart in
theorem submitSeq (tracks : Tracks env sequences machines added waiting sim)
    (used : stream ∈ (machines host).streams) {seq : TorchCallSeq}
    (nonneg : ∀ call ∈ seq.calls, 0 ≤ call.time)
    (within : ∀ infos ∈ (((machines host).lanes stream).issueSeq env.profiler seq).sequences,
      infos ∈ sequences)
    (run : Simulator.submitSeq env (host, stream) sim seq = .ok sim') :
    ∃ more, Tracks env sequences (Function.update machines host ((machines host).onLane stream
      fun lane => lane.issueSeq env.profiler seq)) (added ++ more) waiting sim' := by
  cases seq with
  | single call duration =>
      have one : ∀ other ∈ [call], 0 ≤ other.time := nonneg
      exact tracks.submitCalls used one (fun _ => duration) run
  | seq calls =>
      have mem : calls.map TorchCall.info ∈ sequences := by
        apply within
        rw [Lane.issueSeq, Lane.sequences_issueTorchs]
        exact List.mem_cons_self
      rcases tracks.estimates.ofSequence steady apart mem with ⟨durations, estimates⟩
      simp only [Simulator.submitSeq] at run
      rw [durations] at run
      have measured : Tracks env sequences machines added waiting { sim with
          torchEstimator := (sim.torchEstimator.estimateSequence env.profiler calls).1 } :=
        { tracks with estimates := estimates }
      have lane := tracks.lanes host stream
      have asked := measured.reread host stream (f := fun lane =>
        { lane with sequences := calls.map TorchCall.info :: lane.sequences })
        ⟨lane.spans, lane.buffered, lane.timely⟩
      rcases asked.submitCalls (by rw [Function.update_self]; exact used) nonneg _ run with
        ⟨more, issued⟩
      rw [Function.update_self, Function.update_idem, Machine.onLane_onLane] at issued
      exact ⟨more, issued⟩

include steady apart in
theorem submitSeqs (tracks : Tracks env sequences machines added waiting sim)
    (used : stream ∈ (machines host).streams) {seqs : List TorchCallSeq}
    (nonneg : ∀ seq ∈ seqs, ∀ call ∈ seq.calls, 0 ≤ call.time)
    (within : ∀ infos ∈ (seqs.foldl (Lane.issueSeq env.profiler)
      ((machines host).lanes stream)).sequences, infos ∈ sequences)
    (run : seqs.foldlM (Simulator.submitSeq env (host, stream)) sim = .ok sim') :
    ∃ more, Tracks env sequences (Function.update machines host ((machines host).onLane stream
      fun lane => seqs.foldl (Lane.issueSeq env.profiler) lane)) (added ++ more) waiting sim' := by
  induction seqs generalizing machines added sim with
  | nil =>
      simp only [List.foldlM_nil, pure_eq_ok] at run
      refine ⟨[], ?_⟩
      simp only [List.foldl_nil, Machine.onLane_id, Function.update_eq_self, List.append_nil]
      exact run ▸ tracks
  | cons seq seqs ih =>
      simp only [List.foldlM_cons, bind_eq_ok] at run
      rcases run with ⟨middle, first, rest⟩
      rcases tracks.submitSeq steady apart used (nonneg seq List.mem_cons_self)
        (fun infos mem => within infos (Lane.sequences_issueSeqs _ seqs mem)) first with
        ⟨some, issued⟩
      rcases ih issued (by rw [Function.update_self]; exact used)
        (fun other mem => nonneg other (List.mem_cons_of_mem _ mem))
        (by rw [Function.update_self, Machine.lanes_onLane_self]; exact within) rest with
        ⟨more, all⟩
      rw [Function.update_self, Function.update_idem, Machine.onLane_onLane,
        List.append_assoc] at all
      exact ⟨some ++ more, all⟩

include steady apart in
/-- The buffered torch calls become operations. -/
theorem clearComputeBufferOn (tracks : Tracks env sequences machines added waiting sim)
    (within : ∀ infos ∈ (((machines host).lanes stream).flush env.profiler).sequences,
      infos ∈ sequences)
    (run : sim.clearComputeBufferOn env (host, stream) = .ok sim') :
    ∃ more, Tracks env sequences (Function.update machines host ((machines host).use stream
      (Lane.flush env.profiler))) (added ++ more) waiting sim' := by
  have lane := tracks.lanes host stream
  have taken := tracks.change host stream
    (g := fun sinfo => { sinfo with buffered := [] })
    (f := fun lane => { lane with buffered := [] })
    tracks.foreseen tracks.durations le_rfl (fun _ _ => rfl) tracks.estimates
    ⟨lane.spans, rfl, fun _ mem => absurd mem List.not_mem_nil⟩
  have nonneg : ∀ seq ∈ splitSequences env.profiler ((machines host).lanes stream).buffered,
      ∀ call ∈ seq.calls, 0 ≤ call.time := by
    intro seq mem call among
    have isCall := List.mem_flatMap.mpr ⟨seq, mem, among⟩
    rw [splitSequences_calls] at isCall
    rcases List.mem_map.mp isCall with ⟨entry, mem, rfl⟩
    exact lane.timely entry mem
  simp only [Simulator.clearComputeBufferOn] at run
  rw [lane.buffered] at run
  rcases taken.submitSeqs steady apart
    (by rw [Function.update_self]; exact (Machine.mem_streams_use _ _).mpr (.inr rfl)) nonneg
    (by rw [Function.update_self, Machine.lanes_use_self]; exact within) run with ⟨more, issued⟩
  rw [Function.update_self, Function.update_idem, Machine.onLane_use] at issued
  exact ⟨more, issued⟩

include steady apart in
/-- An event that is added is the next operation behind the buffered torch calls. -/
theorem addEvent (tracks : Tracks env sequences machines added waiting sim)
    {dependsOn : List (Option EventId)} {action : Option Action} {time : ℤ} {id : EventId}
    {waits : List ℤ}
    (within : ∀ infos ∈ (((machines host).lanes stream).flush env.profiler).sequences,
      infos ∈ sequences)
    (noFlow : flowOf action = none) (lasting : 0 ≤ durationOf action) (nonneg : 0 ≤ time)
    (free : none ∉ dependsOn)
    (depends : ∀ {added' : List Addition} {middle : Simulator},
      Tracks env sequences (Function.update machines host ((machines host).use stream
        (Lane.flush env.profiler))) added' waiting middle → OnlySubmits sim middle →
          (∀ d, some d ∈ dependsOn → d < added'.length) ∧
            Forward.endsAt (planned added') dependsOn.reduceOption = waits)
    (run : sim.addEvent env (host, stream) dependsOn action time = .ok (sim', id)) :
    ∃ more, Tracks env sequences (Function.update machines host ((machines host).use stream
        fun lane => lane.work env.profiler waits (durationOf action) time)) (added ++ more) waiting
          sim' ∧ id < (added ++ more).length ∧ sim'.queue.ended id = none ∧
      sim'.lastEvent (host, stream) = some id := by
  simp only [Simulator.addEvent, bind_eq_ok] at run
  rcases run with ⟨middle, cleared, submitted⟩
  rcases tracks.clearComputeBufferOn steady apart within cleared with ⟨some, flushed⟩
  rcases depends flushed (clearComputeBufferOn_onlySubmits cleared) with ⟨issued, ends⟩
  rcases flushed.submit noFlow lasting nonneg free issued ends submitted with
    ⟨addition, all, rfl, ended, last⟩
  rw [Function.update_self, Function.update_idem,
    Machine.use_of_mem _ _ ((Machine.mem_streams_use _ _).mpr (.inr rfl)),
    Machine.onLane_use, List.append_assoc] at all
  refine ⟨some ++ [addition], all, by simp, ?_, last⟩
  rw [ended]
  by_contra past
  exact Nat.lt_irrefl _ (flushed.foreseen.lt_of_ended past)

end Tracks

end Simulator

end Phantora
