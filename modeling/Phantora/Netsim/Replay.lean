import Phantora.Netsim.Steps

/-!
# Replaying a trace

A trace starts as a whole, so no flow arrives late and nothing is rolled back.
Every turn of the simulator completes a running flow or starts a buffered one,
and every step that the replayer waits for completes some, until all have
completed, in the order of time.
-/

namespace Phantora.Netsim

open Outcome

namespace NetState

/-- The times of the flows: the running ones keep pace, the buffered ones are untouched, and the
retired ones are listed in the order in which they ended. -/
structure Timed (state : NetState) (ts : Timestamp) : Prop where
  running : ∀ ref ∈ state.runningFlows, (state.arena ref).Paced ts
  buffered : ∀ ref ∈ state.buffered, (state.arena ref).bytesSent = 0
  started : ∀ ref ∈ state.retiredFlows, (state.arena ref).ts ≤ (state.arena ref).endTs
  past : ∀ ref ∈ state.retiredFlows, (state.arena ref).endTs ≤ ts
  quick : ∀ ref ∈ state.retiredFlows,
    (state.arena ref).endTs - (state.arena ref).ts ≤ 8000000000 * (state.arena ref).flow.bytes
  sorted : state.retiredFlows.Pairwise fun later earlier =>
    (state.arena earlier).endTs ≤ (state.arena later).endTs

/-- New rates change no times. -/
theorem Timed.of_core {state : NetState} {ts : Timestamp} {arena : Arena} (timed : state.Timed ts)
    (core : ∀ ref, (arena ref).core = (state.arena ref).core) :
    Timed { state with arena := arena } ts := by
  have start : ∀ ref, (arena ref).ts = (state.arena ref).ts :=
    fun ref => by simpa using congrArg FlowState.ts (core ref)
  have flow : ∀ ref, (arena ref).flow = (state.arena ref).flow :=
    fun ref => by simpa using congrArg FlowState.flow (core ref)
  have sent : ∀ ref, (arena ref).bytesSent = (state.arena ref).bytesSent :=
    fun ref => by simpa using congrArg FlowState.bytesSent (core ref)
  have ended : ∀ ref, (arena ref).endTs = (state.arena ref).endTs := by
    intro ref
    have history : (arena ref).speedHistory = (state.arena ref).speedHistory := by
      simpa using congrArg FlowState.speedHistory (core ref)
    simp only [FlowState.endTs, history]
  refine ⟨fun ref mem => ?_, fun ref mem => ?_, fun ref mem => ?_, fun ref mem => ?_,
    fun ref mem => ?_, ?_⟩
  · rcases timed.running ref mem with ⟨started, moved, left⟩
    exact ⟨start ref ▸ started, by simpa only [start ref, sent ref] using moved,
      by simpa only [sent ref, flow ref] using left⟩
  · exact (sent ref).trans (timed.buffered ref mem)
  · simpa only [start ref, ended ref] using timed.started ref mem
  · simpa only [ended ref] using timed.past ref mem
  · simpa only [start ref, ended ref, flow ref] using timed.quick ref mem
  · simpa only [ended] using timed.sorted

/-- Moving on to a time before which no flow completes. -/
theorem completeFlows_timed {state state' : NetState} {simTs : Timestamp} {tsInc : Duration}
    {compFlows : List TraceRecord} (kept : state.Kept simTs) (timed : state.Timed simTs)
    (moves : ∀ ref ∈ state.runningFlows, 1 ≤ (state.arena ref).speed)
    (soon : ∀ ref ∈ state.runningFlows, tsInc ≤ (state.arena ref).remainingTime)
    (run : state.completeFlows simTs tsInc = .ok (state', compFlows)) :
    state'.Timed (simTs + tsInc) := by
  have nodup := kept.ledger.nodup
  rw [refs, List.append_assoc] at nodup
  rcases (completeFlows_eq_ok kept.ledger.running_nodup run).1 with ⟨_, _, rfl⟩
  have ended : ∀ ref ∈ (state.completing simTs tsInc).reverse, ref ∈ state.runningFlows ∧
      (stepFlow simTs tsInc (state.arena ref)).endTs = simTs + tsInc := by
    intro ref mem
    rcases List.mem_filter.mp (List.mem_reverse.mp mem) with ⟨isRunning, completes⟩
    exact ⟨isRunning, Simulator.endTs_stepFlow completes⟩
  have start : ∀ f : FlowState, (stepFlow simTs tsInc f).ts = f.ts := by
    intro f
    have same := congrArg FlowState.ts (fresh_stepFlow simTs tsInc f)
    exact same
  have flow : ∀ f : FlowState, (stepFlow simTs tsInc f).flow = f.flow := by
    intro f
    have same := congrArg FlowState.flow (fresh_stepFlow simTs tsInc f)
    exact same
  have still : ∀ ref ∈ state.retiredFlows, ref ∉ state.runningFlows :=
    fun ref mem => kept.not_running mem
  refine ⟨fun ref mem => ?_, fun ref mem => ?_, fun ref mem => ?_, fun ref mem => ?_,
    fun ref mem => ?_, ?_⟩
  · rcases List.mem_filter.mp mem with ⟨isRunning, goesOn⟩
    have incomplete : completesIn simTs tsInc (state.arena ref) = false := by simpa using goesOn
    dsimp only
    unfold completesIn at incomplete
    rw [if_pos isRunning, stepFlow, if_neg (by simp [incomplete])]
    exact (timed.running ref isRunning).advance (moves ref isRunning) incomplete
  · have idle : ref ∉ state.runningFlows := by
      intro isRunning
      exact (List.nodup_append.mp nodup).2.2 ref mem ref (List.mem_append_left _ isRunning) rfl
    simpa [idle] using timed.buffered ref mem
  · dsimp only at mem ⊢
    rcases List.mem_append.mp mem with new | old
    · rw [if_pos (ended ref new).1, (ended ref new).2, start]
      exact (timed.running ref (ended ref new).1).started.trans (Nat.le_add_right _ _)
    · rw [if_neg (still ref old)]
      exact timed.started ref old
  · dsimp only at mem ⊢
    rcases List.mem_append.mp mem with new | old
    · rw [if_pos (ended ref new).1, (ended ref new).2]
    · rw [if_neg (still ref old)]
      exact (timed.past ref old).trans (Nat.le_add_right _ _)
  · dsimp only at mem ⊢
    rcases List.mem_append.mp mem with new | old
    · have isRunning := (ended ref new).1
      have paced := timed.running ref isRunning
      rw [if_pos isRunning, (ended ref new).2, start, flow, Nat.sub_add_comm paced.started]
      exact paced.bound (moves ref isRunning) (soon ref isRunning)
    · rw [if_neg (still ref old)]
      exact timed.quick ref old
  · dsimp only
    rw [List.pairwise_append]
    refine ⟨?_, ?_, ?_⟩
    · refine List.pairwise_of_forall_mem_list fun left leftMem right rightMem => ?_
      rw [if_pos (ended left leftMem).1, if_pos (ended right rightMem).1, (ended left leftMem).2,
        (ended right rightMem).2]
    · refine timed.sorted.imp_of_mem fun leftMem rightMem sorted => ?_
      rw [if_neg (still _ leftMem), if_neg (still _ rightMem)]
      exact sorted
    · intro left leftMem right rightMem
      rw [if_pos (ended left leftMem).1, (ended left leftMem).2, if_neg (still right rightMem)]
      exact (timed.past right rightMem).trans (Nat.le_add_right _ _)

/-- The flows that become ready start now. -/
theorem emitReadyFlows_timed {platform : Platform} {simTs : Timestamp} {fuel : ℕ}
    {state state' : NetState} (timed : state.Timed simTs)
    (run : emitReadyFlows platform simTs fuel state = .ok state') : state'.Timed simTs := by
  rcases emitReadyFlows_starts run with ⟨started, _⟩
  rcases emitReadyFlows_refs run with ⟨_, retired, arena, _, bufs⟩
  refine ⟨fun ref mem => ?_, fun ref mem => ?_, ?_, ?_, ?_, ?_⟩
  · rw [arena]
    rcases started ref mem with old | ⟨wasBuffered, now⟩
    · exact timed.running ref old
    · have unsent := timed.buffered ref wasBuffered
      refine ⟨Nat.le_of_eq now, ?_, ?_⟩
      · simp [now, unsent]
      · simp [unsent]
  · rw [arena]
    rcases List.mem_map.mp mem with ⟨entry, entryMem, rfl⟩
    have old : entry ∈ state.flowBufs := bufs entryMem
    exact timed.buffered entry.2 (List.mem_map_of_mem old)
  · rw [retired, arena]
    exact timed.started
  · rw [retired, arena]
    exact timed.past
  · rw [retired, arena]
    exact timed.quick
  · rw [retired, arena]
    exact timed.sorted

/-- What the flow states keep of the flows that have arrived, with the links they were given. -/
def Carries (state : NetState) (paths : TraceRecord → List LinkIx) (records : List TraceRecord) :
    Prop :=
  (List.range state.nextRef).map (fun ref => ((state.arena ref).ts, (state.arena ref).flow.id,
      (state.arena ref).flow.bytes, (state.arena ref).route.path)) =
    records.map fun record => (record.ts, record.flow.id, record.flow.bytes, paths record)

theorem Carries.congr {state state' : NetState} {paths : TraceRecord → List LinkIx}
    {records : List TraceRecord} (carries : state.Carries paths records)
    (same : SameFlows state state') : state'.Carries paths records := by
  unfold Carries at carries ⊢
  rw [same.nextRef, ← carries]
  apply List.map_congr_left
  intro ref _
  rw [same.ts_eq, same.flow_eq, same.route_eq]

end NetState

namespace Simulator

/-- The route that a flow gets when it arrives. -/
def routeOf (sim : Simulator) (record : TraceRecord) : Except Panic Route := do
  let src ← NetState.mapHostname sim.hostMapping record.flow.src
  let dst ← NetState.mapHostname sim.hostMapping record.flow.dst
  sim.cluster.resolveRoute src dst record.flow.vsrc record.flow.vdst

/-- The links of the route of a flow. -/
def pathOf (sim : Simulator) (record : TraceRecord) : List LinkIx :=
  ((sim.routeOf record).toOption.map Route.path).getD []

theorem pathOf_of_ok {sim : Simulator} {record : TraceRecord} {route : Route}
    (routed : sim.routeOf record = .ok route) : sim.pathOf record = route.path := by
  rw [pathOf, routed]
  rfl

/-- A simulator that has not run yet, and a trace that it can replay: the flows have identifiers of
their own and routes, each link has a bit a second for every time that a route names it, and
loopback flows move. -/
structure Replayable (sim : Simulator) (trace : List TraceRecord) : Prop where
  initial : Initial sim
  perFlow : sim.setting.fairness = .perFlowMaxMin
  nonempty : trace ≠ []
  distinct : (trace.map fun record => record.flow.id).Nodup
  routed : ∀ record ∈ trace, ∃ route, sim.routeOf record = .ok route
  bandwidth : ∀ link, sim.cluster.bandwidth link ≤ u64Max
  ample : ∀ link,
    (trace.map fun record => (sim.pathOf record).count link).sum ≤ sim.cluster.bandwidth link
  loopbackSpeed : sim.setting.loopbackSpeed ≤ u64Max
  loopback : ∀ record ∈ trace, sim.pathOf record = [] → 0 < sim.setting.loopbackSpeed

/-- A simulator in which the flows of a trace have arrived. -/
structure Replaying (origin : Simulator) (trace : List TraceRecord) (sim : Simulator) : Prop where
  represented : sim.Represented
  holds : sim.state.Holds trace
  carries : sim.state.Carries origin.pathOf trace
  timed : sim.state.Timed sim.ts
  cluster : sim.cluster = origin.cluster
  setting : sim.setting = origin.setting
  noTimers : sim.timers = []

/-- The next flow arrives at the time at which the simulator starts. -/
theorem addFlow_loaded {origin : Simulator} {record : TraceRecord} {done : List TraceRecord}
    {state state' : NetState} {simTs : Timestamp} (kept : state.Kept simTs)
    (timed : state.Timed simTs) (carries : state.Carries origin.pathOf done)
    (newId : ∀ ref < state.nextRef, (state.arena ref).flow.id ≠ record.flow.id)
    (start : simTs = 0)
    (run : state.addFlow record origin.cluster simTs origin.hostMapping = .ok state') :
    state'.Timed simTs ∧ state'.Carries origin.pathOf (done ++ [record]) := by
  rcases NetState.addFlow_refs kept.ledger newId run with ⟨_, nextRef, retired, old, _⟩
  rcases NetState.addFlow_eq_ok run with ⟨src, dst, route, isSrc, isDst, resolved, pushed⟩
  have routed : origin.routeOf record = .ok route := by
    simp only [routeOf, bind_eq_ok]
    exact ⟨src, isSrc, dst, isDst, resolved⟩
  have arena := NetState.pushFlow_arena pushed
  have new : state'.arena state.nextRef =
      { ts := record.ts, flow := { record.flow with src := src, dst := dst },
        maxRate := u64Max, route := route } := by
    rw [arena]
    exact Function.update_self ..
  have runningOld : ∀ ref ∈ state.runningFlows, state'.arena ref = state.arena ref :=
    fun ref mem => old ref (kept.ledger.running_lt mem)
  have retiredOld : ∀ ref ∈ state.retiredFlows, state'.arena ref = state.arena ref :=
    fun ref mem => old ref (kept.ledger.retired_lt mem)
  have bufferedOld : ∀ ref ∈ state.buffered, (state'.arena ref).bytesSent = 0 := by
    intro ref mem
    rw [old ref (kept.ledger.buffered_lt mem)]
    exact timed.buffered ref mem
  constructor
  · refine ⟨fun ref mem => ?_, fun ref mem => ?_, fun ref mem => ?_, fun ref mem => ?_,
      fun ref mem => ?_, ?_⟩
    · rcases NetState.pushFlow_eq_ok pushed with ⟨_, rfl⟩ | ⟨due, emitted⟩
      · rw [runningOld ref mem]
        exact timed.running ref mem
      · rcases NetState.emitFlow_eq_ok emitted with ⟨_, _, _, whole⟩
        rw [whole] at mem
        rcases List.mem_append.mp mem with before | last
        · rw [runningOld ref before]
          exact timed.running ref before
        · rw [List.mem_singleton.mp last, new]
          have now : record.ts ≤ simTs := by simpa using due
          exact ⟨now, by simp [start], by simp⟩
    · rcases NetState.pushFlow_eq_ok pushed with ⟨_, whole⟩ | ⟨_, emitted⟩
      · rw [whole] at mem
        rcases List.mem_map.mp mem with ⟨entry, entryMem, rfl⟩
        rcases PriorityQueue.mem_push.mp entryMem with ⟨_, isNew⟩ | ⟨_, before⟩
        · rw [isNew, new]
        · exact bufferedOld entry.2 (List.mem_map_of_mem before)
      · rcases NetState.emitFlow_eq_ok emitted with ⟨_, _, _, whole⟩
        rw [whole] at mem
        exact bufferedOld ref mem
    · rw [retired] at mem
      rw [retiredOld ref mem]
      exact timed.started ref mem
    · rw [retired] at mem
      rw [retiredOld ref mem]
      exact timed.past ref mem
    · rw [retired] at mem
      rw [retiredOld ref mem]
      exact timed.quick ref mem
    · rw [retired]
      refine timed.sorted.imp_of_mem fun leftMem rightMem sorted => ?_
      rw [retiredOld _ leftMem, retiredOld _ rightMem]
      exact sorted
  · unfold NetState.Carries at carries ⊢
    rw [nextRef, List.range_succ, List.map_append, List.map_append, ← carries]
    congr 1
    · apply List.map_congr_left
      intro ref mem
      rw [old ref (List.mem_range.mp mem)]
    · simp [new, pathOf_of_ok routed]

/-- A trace that can be replayed arrives. -/
theorem Replayable.arrive {origin : Simulator} {trace : List TraceRecord}
    (replayable : origin.Replayable trace) : ∃ sim, origin.flowArrive trace = .ok (sim, .ok) ∧
      Replaying origin trace sim ∧ sim.state.retiredFlows = [] := by
  have start : origin.ts = 0 ∧ origin.timers = [] ∧ origin.state = {} ∧ origin.Represented := by
    rcases replayable.initial with ⟨cluster, setting, hostMapping, rfl⟩
    exact ⟨rfl, rfl, rfl, represented_build cluster setting hostMapping⟩
  rcases start with ⟨startTs, noTimers, empty, represented⟩
  have added : ∃ state, trace.foldlM (fun state record =>
        state.addFlow record origin.cluster origin.ts origin.hostMapping) origin.state = .ok state ∧
      state.Kept origin.ts ∧ state.Holds trace ∧ state.Timed origin.ts ∧
      state.Carries origin.pathOf trace ∧ state.retiredFlows = [] := by
    refine foldlM_total (fun done (state : NetState) => state.Kept origin.ts ∧ state.Holds done ∧
      state.Timed origin.ts ∧ state.Carries origin.pathOf done ∧ state.retiredFlows = []) ?_ ?_
    · rintro done record rest state ⟨kept, holds, timed, carries, retired⟩ whole
      have newId : ∀ ref < state.nextRef, (state.arena ref).flow.id ≠ record.flow.id := by
        apply holds.newId
        rw [whole]
        exact replayable.distinct
      rcases replayable.routed record (by simp [← whole]) with ⟨route, routed⟩
      simp only [routeOf, bind_eq_ok] at routed
      rcases routed with ⟨src, isSrc, dst, isDst, resolved⟩
      have run : ∃ state',
          state.addFlow record origin.cluster origin.ts origin.hostMapping = .ok state' :=
        NetState.addFlow_total kept.indexed (fun ref mem => kept.ledger.running_lt mem) isSrc isDst
          resolved
      rcases run with ⟨state', run⟩
      rcases addFlow_loaded kept timed carries newId startTs run with ⟨timed', carries'⟩
      rcases NetState.addFlow_refs kept.ledger newId run with ⟨_, _, retired', _⟩
      exact ⟨state', run, NetState.addFlow_kept kept newId run,
        NetState.addFlow_holds kept.ledger holds newId run, timed', carries',
          retired'.trans retired⟩
    · refine ⟨represented.kept, ?_, ?_, ?_, ?_⟩
      all_goals rw [empty]
      · exact ⟨rfl, fun _ lt => absurd lt (Nat.not_lt_zero _)⟩
      · exact ⟨fun _ mem => absurd mem List.not_mem_nil, fun _ mem => absurd mem List.not_mem_nil,
          fun _ mem => absurd mem List.not_mem_nil, fun _ mem => absurd mem List.not_mem_nil,
          fun _ mem => absurd mem List.not_mem_nil, List.Pairwise.nil⟩
      · rfl
  rcases added with ⟨state, run, kept, holds, timed, carries, retired⟩
  refine ⟨{ origin with state := state }, ?_,
    ⟨⟨kept, represented.timers⟩, holds, carries, timed, rfl, rfl, noTimers⟩, retired⟩
  simp only [flowArrive, bind_eq_ok, assert_eq_ok]
  refine ⟨⟨⟩, replayable.nonempty, state, run, ?_⟩
  rw [startTs, if_neg (by simp)]
  rfl

section Turn

variable {platform : Platform} {origin sim : Simulator} {trace : List TraceRecord}

theorem Replaying.nextRef_eq (replaying : Replaying origin trace sim) :
    sim.state.nextRef = trace.length := by
  simpa using congrArg List.length replaying.carries

theorem Replaying.lengths (replaying : Replaying origin trace sim) :
    sim.state.flowBufs.entries.length + sim.state.runningFlows.length +
      sim.state.retiredFlows.length = trace.length := by
  have total := replaying.represented.kept.ledger.perm.length_eq
  simpa [NetState.refs, NetState.buffered, replaying.nextRef_eq, Nat.add_assoc] using total

/-- The record of a flow. -/
theorem Replaying.exists_record (replaying : Replaying origin trace sim) {ref : FlowRef}
    (lt : ref < sim.state.nextRef) : ∃ record ∈ trace,
      origin.pathOf record = (sim.state.arena ref).route.path := by
  have mem := List.mem_map_of_mem (f := fun ref => ((sim.state.arena ref).ts,
    (sim.state.arena ref).flow.id, (sim.state.arena ref).flow.bytes,
    (sim.state.arena ref).route.path)) (List.mem_range.mpr lt)
  rw [replaying.carries] at mem
  rcases List.mem_map.mp mem with ⟨record, among, same⟩
  simp only [Prod.mk.injEq] at same
  exact ⟨record, among, same.2.2.2⟩

/-- A simulator in which a trace that can be replayed has arrived can take a step. -/
theorem Replaying.serviceable (replayable : origin.Replayable trace)
    (replaying : Replaying origin trace sim) : sim.Serviceable := by
  have represented := replaying.represented
  have arrived : ∀ ref ∈ sim.pending, ref < sim.state.nextRef :=
    fun ref mem => (represented.mem_pending.mp mem).1
  refine ⟨represented, ?_, replaying.holds.maxRate, ?_, ?_, ?_, ?_⟩
  · rw [replaying.setting]
    exact replayable.perFlow
  · rw [replaying.cluster]
    exact replayable.bandwidth
  · intro link
    have perFlow : (List.range sim.state.nextRef).map
          (fun ref => (sim.state.arena ref).route.path.count link) =
        trace.map fun record => (origin.pathOf record).count link := by
      have counted := congrArg (List.map fun flow : ℕ × ℕ × ℕ × List LinkIx =>
        flow.2.2.2.count link) replaying.carries
      simpa [Function.comp_def] using counted
    rw [replaying.cluster]
    refine le_trans ?_ (replayable.ample link)
    rw [← perFlow]
    apply sum_le_sum_of_subset represented.pending_nodup
    exact fun ref mem => List.mem_range.mpr (arrived ref mem)
  · rw [replaying.setting]
    exact replayable.loopbackSpeed
  · intro ref mem empty
    rcases replaying.exists_record (arrived ref mem) with ⟨record, among, path⟩
    rw [replaying.setting]
    exact replayable.loopback record among (path.trans empty)

theorem Replaying.noTimer (replaying : Replaying origin trace sim) :
    sim.peekTimer platform = none := by
  unfold peekTimer
  rw [List.argmin_eq_none, replaying.noTimers]
  exact List.perm_nil.mp (platform.order_perm 1 [])

/-- Moving on to the next time. -/
theorem Replaying.proceed (replaying : Replaying origin trace sim) (paced : sim.Paced)
    {times : List Timestamp} {next : Timestamp} {moved : Simulator} {comps : List TraceRecord}
    (candidates : sim.nextTimes platform none = .ok times) (first : times.min? = some next)
    (soon : ∀ ref ∈ sim.state.runningFlows, next ≤ (sim.state.arena ref).remainingTime + sim.ts)
    (run : sim.proceed platform (next - sim.ts) = .ok (moved, comps)) :
    Replaying origin trace moved := by
  have unlimited : ¬(none : Option Timestamp).any (· ≤ sim.ts) = true := by simp
  rcases replaying.represented.proceed_next unlimited candidates first run with ⟨isMoved, same⟩
  simp only [Simulator.proceed, bind_eq_ok, pure_eq_ok, Prod.exists, Prod.mk.injEq] at run
  rcases run with ⟨middle, _, completed, final, emitted, rfl, rfl⟩
  have timed := NetState.completeFlows_timed replaying.represented.kept replaying.timed paced.moves
    (fun ref mem => Nat.sub_le_iff_le_add.mpr (soon ref mem)) completed
  exact ⟨isMoved, replaying.holds.congr same, replaying.carries.congr same,
    NetState.emitReadyFlows_timed timed emitted, replaying.cluster, replaying.setting,
    replaying.noTimers⟩

/-- A step of a replay that is not complete comes to an end, and completes flows. -/
theorem Replaying.step (replayable : origin.Replayable trace)
    (replaying : Replaying origin trace sim) (enough : trace.length < platform.fuel) {fuel : ℕ}
    (turns : sim.state.flowBufs.entries.length < fuel)
    (unfinished : sim.state.retiredFlows.length < trace.length) :
    ∃ moved comps, maxMinFairness platform none fuel sim = .ok (moved, .flowComplete comps) ∧
      comps ≠ [] ∧ Replaying origin trace moved := by
  induction fuel generalizing sim with
  | zero => omega
  | succ fuel ih =>
      have lengths := replaying.lengths
      have unlimited : ¬(none : Option Timestamp).any (· ≤ sim.ts) = true := by simp
      have busy : sim.idle = false := by
        rw [Bool.eq_false_iff]
        intro idle
        simp only [Simulator.idle, Bool.and_eq_true, List.isEmpty_iff] at idle
        rw [idle.1.1, idle.1.2, List.length_nil, List.length_nil, Nat.zero_add] at lengths
        omega
      have serviceable := replaying.serviceable replayable
      have few : sim.state.runningFlows.length < platform.fuel := by omega
      rcases serviceable.converge few with ⟨arena, converge, core, filled, paced⟩
      have same := sameFlows_of_core core
      have isFilled : Replaying origin trace
          { sim with state := { sim.state with arena := arena } } :=
        ⟨filled.represented, replaying.holds.congr same, replaying.carries.congr same,
          replaying.timed.of_core core, replaying.cluster, replaying.setting, replaying.noTimers⟩
      rcases paced.nextTime platform none busy with ⟨times, next, candidates, first, isNext⟩
      rcases filled.proceed paced unlimited candidates first (by dsimp only; omega) with
        ⟨moved, comps, proceeded, _, turn⟩
      have isMoved := isFilled.proceed paced candidates first isNext.soon proceeded
      have unfold : maxMinFairness platform none (fuel + 1) sim =
          if comps = [] then maxMinFairness platform none fuel moved
          else .ok (moved, .flowComplete comps) := by
        simp [maxMinFairness, busy, converge, candidates, first, unwrap,
          isFilled.noTimer, proceeded,
          bind, Except.bind, pure, Except.pure]
      rw [unfold]
      by_cases nothing : comps = []
      · rw [if_pos nothing]
        rcases turn nothing with ⟨unended, _, shrinks⟩
        have retired : moved.state.retiredFlows = sim.state.retiredFlows := by
          rcases proceed_completes isFilled.represented proceeded with ⟨done, completes, report⟩
          rw [nothing] at report
          rw [List.map_eq_nil_iff.mp report.symm] at completes
          exact completes.retired
        have fewer : moved.state.flowBufs.entries.length < sim.state.flowBufs.entries.length := by
          rcases isNext.chosen with ⟨ref, mem, ends⟩ | ⟨entry, mem, starts⟩ |
            ⟨timer, isFirst, _⟩ | isLimit
          · exact absurd ends (unended ref mem)
          · exact shrinks entry mem starts
          · rw [isFilled.noTimer] at isFirst
            cases isFirst
          · cases isLimit
        exact ih isMoved (by omega) (by rw [retired]; exact unfinished)
      · rw [if_neg nothing]
        exact ⟨moved, comps, rfl, nothing, isMoved⟩

end Turn

end Simulator

namespace Playing

open Simulator

variable {platform : Platform} {origin : Simulator} {trace : List TraceRecord}
  {playing : Playing Replayer}

/-- The replayer waits for completions: it has all those that there were, and they are not all. -/
structure Awaits (origin : Simulator) (trace : List TraceRecord) (playing : Playing Replayer) :
    Prop where
  replaying : Replaying origin trace playing.sim
  numFlows : playing.app.numFlows = trace.length
  completed : playing.app.completed =
    playing.sim.state.retiredFlows.reverse.map playing.sim.completionOf
  waiting : playing.events = []
  unfinished : playing.finished = false
  missing : playing.sim.state.retiredFlows.length < trace.length

/-- The replay is over: the replayer has all completions. -/
structure Ended (origin : Simulator) (trace : List TraceRecord) (playing : Playing Replayer) :
    Prop where
  replaying : Replaying origin trace playing.sim
  completed : playing.app.completed =
    playing.sim.state.retiredFlows.reverse.map playing.sim.completionOf
  all : playing.sim.state.retiredFlows.length = trace.length

/-- A loop that waits comes to its end. -/
theorem Awaits.ends (replayable : origin.Replayable trace) (awaits : Awaits origin trace playing)
    (enough : trace.length < platform.fuel) {fuel : ℕ}
    (turns : trace.length + 2 ≤ fuel + playing.sim.state.retiredFlows.length) :
    ∃ playing', loop platform Replayer.application fuel playing = .ok playing' ∧
      Ended origin trace playing' := by
  induction fuel generalizing playing with
  | zero =>
      have missing := awaits.missing
      omega
  | succ fuel ih =>
      have missing := awaits.missing
      have few : playing.sim.state.flowBufs.entries.length < platform.fuel := by
        have lengths := awaits.replaying.lengths
        omega
      rcases awaits.replaying.step replayable enough few awaits.missing with
        ⟨moved, comps, stepped, some, isMoved⟩
      rcases maxMinFairness_completes awaits.replaying.represented stepped with
        ⟨done, completes, report⟩
      have isReport : comps = done.map moved.completionOf := report
      have completed : playing.app.completed ++ comps =
          moved.state.retiredFlows.reverse.map moved.completionOf := by
        rw [awaits.completed, isReport, completes.retired, List.reverse_append,
          List.reverse_reverse, List.map_append]
        congr 1
        apply List.map_congr_left
        intro ref mem
        exact (completes.completionOf_eq (List.mem_reverse.mp mem)).symm
      have total : (playing.app.completed ++ comps).length = moved.state.retiredFlows.length := by
        rw [completed, List.length_map, List.length_reverse]
      have more : playing.sim.state.retiredFlows.length < moved.state.retiredFlows.length := by
        have nonempty : done ≠ [] := by
          rintro rfl
          exact some isReport
        rw [completes.retired, List.length_append, List.length_reverse]
        exact Nat.lt_add_of_pos_left (List.length_pos_iff.mpr nonempty)
      have notOver : playing.isOver = false := by simp [isOver, awaits.unfinished]
      have answer : playing.next platform Replayer.application = .ok { playing with
          app := { playing.app with completed := playing.app.completed ++ comps }
          sim := moved
          events := if moved.state.retiredFlows.length = trace.length then [.appFinish] else []
          told := playing.told ++ [⟨moved.ts, .flowComplete comps⟩] } := by
        simp only [next, awaits.waiting, runOneStep, stepped, bind, Except.bind, pure, Except.pure,
          Replayer.application, total, awaits.numFlows]
        split <;> rfl
      have unfold : loop platform Replayer.application (fuel + 1) playing =
          loop platform Replayer.application fuel { playing with
            app := { playing.app with completed := playing.app.completed ++ comps }
            sim := moved
            events := if moved.state.retiredFlows.length = trace.length then [.appFinish] else []
            told := playing.told ++ [⟨moved.ts, .flowComplete comps⟩] } := by
        simp only [loop, notOver, answer, bind, Except.bind, Bool.false_eq_true, if_false]
      rw [unfold]
      have lengths := isMoved.lengths
      by_cases all : moved.state.retiredFlows.length = trace.length
      · -- the last completion makes the replayer finish the simulation
        rcases fuel with _ | _ | fuel
        · omega
        · omega
        · simp only [if_pos all, loop, isOver, next, onEvent, bind, Except.bind, pure, Except.pure,
            List.isEmpty_cons, List.isEmpty_nil, Bool.false_and, Bool.false_eq_true, if_false,
            Bool.true_and, decide_true, Bool.or_true, if_true]
          refine ⟨_, rfl, ?_⟩
          exact ⟨isMoved, completed, all⟩
      · simp only [if_neg all]
        exact ih ⟨isMoved, awaits.numFlows, completed, rfl, awaits.unfinished, by dsimp only; omega⟩
          (by dsimp only; omega)

end Playing

/-- The output is the trace: each of its flows completes once, within eight seconds for each byte,
and the completions are listed in the order of time. -/
structure Replayed (trace out : List TraceRecord) : Prop where
  once : (out.map fun report => (report.ts, report.flow.id, report.flow.bytes)).Perm
    (trace.map fun record => (record.ts, record.flow.id, record.flow.bytes))
  completed : ∀ report ∈ out, ∃ dura ≤ 8000000000 * report.flow.bytes, report.dura = some dura
  ordered : out.Pairwise fun earlier later =>
    earlier.ts + earlier.dura.getD 0 ≤ later.ts + later.dura.getD 0

theorem Playing.Ended.replayed {origin : Simulator} {trace : List TraceRecord}
    {playing : Playing Replayer} (ended : playing.Ended origin trace) :
    Replayed trace playing.app.completed := by
  have ledger := ended.replaying.represented.kept.ledger
  have timed := ended.replaying.timed
  have lengths := ended.replaying.lengths
  have noBuffered : playing.sim.state.flowBufs.entries = [] := by
    apply List.eq_nil_of_length_eq_zero
    have all := ended.all
    omega
  have noRunning : playing.sim.state.runningFlows = [] := by
    apply List.eq_nil_of_length_eq_zero
    have all := ended.all
    omega
  have retired : playing.sim.state.retiredFlows.Perm (List.range playing.sim.state.nextRef) := by
    simpa [NetState.refs, NetState.buffered, noBuffered, noRunning] using ledger.perm
  rw [ended.completed]
  refine ⟨?_, ?_, ?_⟩
  · have flows := congrArg (List.map fun flow : ℕ × ℕ × ℕ × List LinkIx =>
      (flow.1, flow.2.1, flow.2.2.1)) ended.replaying.carries
    simp only [List.map_map, Function.comp_def] at flows
    rw [← flows]
    simp only [List.map_map, Function.comp_def, Simulator.completionOf, NetState.completionRecord]
    exact ((List.reverse_perm _).trans retired).map _
  · intro report mem
    rcases List.mem_map.mp mem with ⟨ref, isRetired, rfl⟩
    exact ⟨_, timed.quick ref (List.mem_reverse.mp isRetired), rfl⟩
  · rw [List.pairwise_map, List.pairwise_reverse]
    refine timed.sorted.imp_of_mem fun laterMem earlierMem sorted => ?_
    have later := timed.started _ laterMem
    have earlier := timed.started _ earlierMem
    simp only [Simulator.completionOf, NetState.completionRecord, Option.getD_some]
    rw [Nat.add_sub_cancel' later, Nat.add_sub_cancel' earlier]
    exact sorted

namespace Simulator

/-- A trace whose flows have routes on links that are fast enough is replayed. -/
theorem runWithTrace_replayed (sim : Simulator) (trace : List TraceRecord)
    (replayable : sim.Replayable trace) (platform : Platform)
    (enough : trace.length + 3 ≤ platform.fuel) :
    ∃ out, sim.runWithTrace platform trace = .ok out ∧ Replayed trace out := by
  rcases replayable.arrive with ⟨arrived, run, replaying, retired⟩
  have begins : (Playing.start Replayer.application (Replayer.new trace) sim).next platform
      Replayer.application = .ok {
        app := Replayer.new trace
        sim := arrived
        events := []
        told := [⟨sim.ts, .appStart⟩]
        injected := trace } := by
    simp only [Playing.next, Playing.start, Replayer.application, onEvent, Replayer.new, run, bind,
      Except.bind, pure, Except.pure]
    rfl
  have awaits : Playing.Awaits sim trace {
      app := Replayer.new trace
      sim := arrived
      events := []
      told := [⟨sim.ts, .appStart⟩]
      injected := trace } := by
    refine ⟨replaying, rfl, ?_, rfl, rfl, ?_⟩
    · dsimp only
      rw [retired]
      rfl
    · dsimp only
      rw [retired]
      exact List.length_pos_iff.mpr replayable.nonempty
  have few : trace.length < platform.fuel := by omega
  have turns : trace.length + 2 ≤ platform.fuel - 1 + arrived.state.retiredFlows.length := by
    rw [retired, List.length_nil]
    omega
  rcases awaits.ends replayable few turns with ⟨playing, rest, ended⟩
  refine ⟨playing.app.completed, ?_, ended.replayed⟩
  have fuel : platform.fuel = platform.fuel - 1 + 1 := by omega
  simp only [runWithTrace, runWithApplication, bind_eq_ok, pure_eq_ok]
  refine ⟨playing, ?_, rfl⟩
  rw [fuel]
  simp only [Playing.loop, begins, bind, Except.bind]
  exact rest

/-- A host starts a second flow while its first one is under way. -/
def overlapping : List TraceRecord :=
  [⟨0, { id := 0, bytes := 4000, src := "left", dst := "right" }, none⟩,
    ⟨2000, { id := 1, bytes := 4000, src := "left", dst := "right" }, none⟩]

theorem replayable_overlapping : (build .pair {} none).Replayable overlapping where
  initial := ⟨_, _, _, rfl⟩
  perFlow := rfl
  nonempty := by decide
  distinct := by decide
  routed := by
    have routes : overlapping.all fun record =>
        ((build .pair {} none).routeOf record).toOption.isSome := by decide +kernel
    intro record mem
    have routed := List.all_eq_true.mp routes record mem
    cases result : (build .pair {} none).routeOf record with
    | ok route => exact ⟨route, rfl⟩
    | error failure =>
        rw [result] at routed
        cases routed
  bandwidth link := (Nat.le_of_lt (bandwidth_lt_of_pair rfl link)).trans (by decide)
  ample link := by
    rcases link with _ | _ | _ | _ | link
    · decide +kernel
    · decide +kernel
    · decide +kernel
    · decide +kernel
    · have paths : (overlapping.map fun record => (build .pair {} none).pathOf record) =
          [[0, 3], [0, 3]] := by decide +kernel
      have counts := congrArg (List.map fun path : List LinkIx => path.count (link + 4)) paths
      simp only [List.map_map, Function.comp_def] at counts
      rw [counts]
      simp
  loopbackSpeed := by decide
  loopback _ _ _ := by decide

theorem runWithTrace_replayed_overlapping : ∃ out,
    (build .pair {} none).runWithTrace (.inOrder 20) overlapping = .ok out ∧
      Replayed overlapping out :=
  runWithTrace_replayed _ _ replayable_overlapping _ (by decide)

/-- A flow between a host and itself. -/
def standing : List TraceRecord :=
  [⟨0, { id := 0, bytes := 500, src := "left", dst := "left" }, none⟩]

/-- Where the loopback speed is set to zero, a flow that uses no link stops the replay. -/
theorem not_runWithTrace_standing : ¬∀ (sim : Simulator) (trace : List TraceRecord), Initial sim →
    sim.setting.fairness = .perFlowMaxMin → trace ≠ [] →
    (trace.map fun record => record.flow.id).Nodup →
    (∀ record ∈ trace, ∃ route, sim.routeOf record = .ok route) →
    (∀ link ∈ sim.cluster.links, trace.length ≤ link.bandwidth) →
    ∃ fuel, ∀ platform : Platform, fuel ≤ platform.fuel →
      ∃ out, sim.runWithTrace platform trace = .ok out := by
  intro claimed
  have links : ∀ link ∈ Cluster.pair.links, standing.length ≤ link.bandwidth := by decide
  have routed : ∀ record ∈ standing, ∃ route,
      (build .pair { loopbackSpeed := 0 } none).routeOf record = .ok route := by
    intro record mem
    rw [List.mem_singleton.mp mem]
    exact ⟨_, rfl⟩
  rcases claimed (build .pair { loopbackSpeed := 0 } none) standing ⟨_, _, _, rfl⟩ rfl (by decide)
    (by decide) routed links with ⟨fuel, succeeds⟩
  rcases succeeds (.inOrder (fuel + 2)) (Nat.le_add_right _ _) with ⟨out, run⟩
  have fails : (build .pair { loopbackSpeed := 0 } none).runWithTrace (.inOrder (fuel + 2))
      standing = .error .speedNotPositive := rfl
  rw [fails] at run
  cases run

end Simulator

end Phantora.Netsim
