import Phantora.Netsim.Representation

/-!
# The representation invariant over whole runs

A run of the simulator takes events and steps in any order. Inside a step the
loop takes turns; the invariant also holds before each of them, which is what
the subtraction and the assertion of a turn rely on.
-/

namespace Phantora.Netsim

open Outcome

namespace Filling

theorem calcDelta_ne_late {fairness : FairnessModel} {bandwidth : ℕ} {flows : FlowSet}
    {arena : Arena} : calcDelta fairness bandwidth flows arena ≠ .error .lateReadyFlow := by
  have groups : ∀ groups, calcDeltaOnGroup bandwidth groups arena ≠ .error .lateReadyFlow := by
    intro groups
    simp [calcDeltaOnGroup]
  have groupped : calcDeltaGroupped bandwidth flows arena ≠ .error .lateReadyFlow := by
    cases flows with
    | flat _ => simp [calcDeltaGroupped]
    | groupByVmPair entries => exact groups _
    | groupByTenant entries => exact groups _
  cases fairness with
  | perFlowMaxMin => simp [calcDelta, calcDeltaPerFlow]
  | perVmPairMaxMin => exact groupped
  | tenantFlowMaxMin => exact groupped

theorem fillRound_ne_late {cluster : Cluster} {fairness : FairnessModel} {running : List FlowRef}
    {linkFlows : List (LinkIx × FlowSet)} {arena : Arena} :
    fillRound cluster fairness running linkFlows arena ≠ .error .lateReadyFlow := by
  have deltas : linkFlows.foldlM (linkDeltas cluster fairness) ([], arena) ≠
      .error .lateReadyFlow := by
    refine foldlM_ne_error (fun acc entry _ => ?_) _
    simp only [linkDeltas]
    split
    · simp [calcDelta_ne_late]
    · simp
  simp [fillRound, deltas]

theorem fillLoop_ne_late {cluster : Cluster} {fairness : FairnessModel} {running : List FlowRef}
    {linkFlows : List (LinkIx × FlowSet)} {fuel : ℕ} {arena : Arena} :
    fillLoop cluster fairness running linkFlows fuel arena ≠ .error .lateReadyFlow := by
  induction fuel generalizing arena with
  | zero => simp [fillLoop]
  | succ fuel ih =>
      simp only [fillLoop]
      split
      · simp [fillRound_ne_late, ih]
      · simp

end Filling

theorem FlowState.completed_ne_late {f : FlowState} : f.completed ≠ .error .lateReadyFlow := by
  unfold completed
  split
  · simp
  · simp [timeToComplete]

theorem retainM_ne_error {keep : FlowRef → Except Panic Bool} {failure : Panic}
    (each : ∀ ref, keep ref ≠ .error failure) (refs : List FlowRef) :
    retainM keep refs ≠ .error failure := by
  induction refs with
  | nil => simp [retainM]
  | cons ref refs ih => simp [retainM, each, ih]

namespace NetState

theorem retainLinks_ne_error {keep : FlowRef → Except Panic Bool} {failure : Panic}
    (each : ∀ ref, keep ref ≠ .error failure) {linkFlows : List (LinkIx × FlowSet)}
    (filed : Filed linkFlows) : retainLinks keep linkFlows ≠ .error failure := by
  have mapped : (linkFlows.mapM fun entry => do
      let set ← entry.2.retain keep
      return (entry.1, set)) ≠ .error failure := by
    refine mapM_ne_error fun entry mem => ?_
    rcases filed.flat entry mem with ⟨flows, flat, _⟩
    simp [flat, FlowSet.retain, retainM_ne_error each flows]
  simpa [retainLinks] using mapped

theorem pushLink_flat {arena : Arena} {ref : FlowRef} {link : LinkIx}
    {linkFlows : List (LinkIx × FlowSet)}
    (flat : ∀ entry ∈ linkFlows, ∃ flows, entry.2 = .flat flows ∧ flows ≠ []) :
    ∃ linkFlows', pushLink .perFlowMaxMin arena ref link linkFlows = .ok linkFlows' := by
  induction linkFlows with
  | nil => exact ⟨_, rfl⟩
  | cons entry rest ih =>
      rcases entry with ⟨other, set⟩
      rcases flat _ List.mem_cons_self with ⟨flows, setEq, _⟩
      dsimp only at setEq
      subst setEq
      rcases ih fun entry mem => flat entry (List.mem_cons_of_mem _ mem) with ⟨rest', pushed⟩
      by_cases same : other = link
      · exact ⟨_, by simp only [pushLink, if_pos same, FlowSet.push]; rfl⟩
      · exact ⟨_, by simp only [pushLink, if_neg same, pushed]; rfl⟩

/-- Under per-flow fairness a flow can always be started. -/
theorem emitFlow_total {state : NetState} (indexed : state.Indexed) (ref : FlowRef) :
    ∃ state', state.emitFlow ref = .ok state' := by
  have pushed : ∀ (path : List LinkIx) (linkFlows : List (LinkIx × FlowSet)), Filed linkFlows →
      ∃ linkFlows', path.foldlM (fun linkFlows link =>
        pushLink .perFlowMaxMin state.arena ref link linkFlows) linkFlows = .ok linkFlows' := by
    intro path
    induction path with
    | nil => exact fun linkFlows _ => ⟨linkFlows, rfl⟩
    | cons link path ih =>
        intro linkFlows filed
        have first : ∃ middle, pushLink .perFlowMaxMin state.arena ref link linkFlows =
          .ok middle :=
          pushLink_flat filed.flat
        rcases first with ⟨middle, first⟩
        rcases ih middle (pushLink_eq_ok filed first).1 with ⟨linkFlows', rest⟩
        exact ⟨linkFlows', by rw [List.foldlM_cons, first]; exact rest⟩
  rcases pushed (state.arena ref).route.path state.linkFlows indexed.filed with ⟨linkFlows, run⟩
  simp only [emitFlow, indexed.perFlow, run]
  exact ⟨_, rfl⟩

/-- The flows that become ready start at the present time. -/
theorem emitReadyFlows_ne_late {platform : Platform} {simTs : Timestamp} {fuel : ℕ}
    {state : NetState} (indexed : state.Indexed) (nodup : state.refs.Nodup)
    (ready : ∀ entry ∈ state.flowBufs, simTs ≤ (state.arena entry.2).ts) :
    emitReadyFlows platform simTs fuel state ≠ .error .lateReadyFlow := by
  induction fuel generalizing state with
  | zero => simp [emitReadyFlows]
  | succ fuel ih =>
      simp only [emitReadyFlows]
      split
      · simp
      · rename_i id ref first
        have mem := PriorityQueue.mem_of_peek (platform.order_perm 0 _) first
        split
        · simp
        · rename_i due
          have now : simTs = (state.arena ref).ts := Nat.le_antisymm (ready _ mem) (not_lt.mp due)
          intro failed
          simp only [bind_eq_error, assert_eq_error] at failed
          rcases failed with ⟨wrong, _⟩ | ⟨_, _, failed | ⟨middle, emitted, failed⟩⟩
          · exact wrong now
          · have taken : Indexed { state with flowBufs := state.flowBufs.erase id } :=
              indexed.congr rfl rfl rfl rfl fun _ _ => rfl
            rcases emitFlow_total taken ref with ⟨middle, emitted⟩
            rw [emitted] at failed
            cases failed
          · rcases emitReady_indexed indexed nodup mem emitted with ⟨indexed', nodup'⟩
            refine ih indexed' nodup' (fun entry entryMem => ?_) failed
            rcases emitFlow_eq_ok emitted with ⟨_, _, _, rfl⟩
            exact ready entry (PriorityQueue.mem_erase.mp entryMem).2

/-- The flows are those that have arrived, and none has a limit of its own. -/
structure Holds (state : NetState) (records : List TraceRecord) : Prop where
  flows : (List.range state.nextRef).map
      (fun ref => ((state.arena ref).ts, (state.arena ref).flow.id)) =
    records.map fun record => (record.ts, record.flow.id)
  maxRate : ∀ ref < state.nextRef, (state.arena ref).maxRate = u64Max

theorem Holds.congr {state state' : NetState} {records : List TraceRecord}
    (holds : state.Holds records) (same : SameFlows state state') : state'.Holds records where
  flows := by
    rw [same.nextRef, ← holds.flows]
    apply List.map_congr_left
    intro ref _
    rw [same.ts_eq, same.flow_eq]
  maxRate ref lt := by
    have rate : (state'.arena ref).maxRate = (state.arena ref).maxRate := by
      simpa using congrArg FlowState.maxRate (same.fresh ref)
    rw [rate]
    exact holds.maxRate ref (same.nextRef ▸ lt)

theorem Holds.newId {state : NetState} {records later : List TraceRecord} {record : TraceRecord}
    (holds : state.Holds records)
    (distinct : ((records ++ record :: later).map (·.flow.id)).Nodup) :
    ∀ ref < state.nextRef, (state.arena ref).flow.id ≠ record.flow.id := by
  intro ref lt same
  have held : ((state.arena ref).ts, (state.arena ref).flow.id) ∈
      records.map fun record => (record.ts, record.flow.id) := by
    rw [← holds.flows]
    exact List.mem_map_of_mem (List.mem_range.mpr lt)
  rcases List.mem_map.mp held with ⟨old, mem, equal⟩
  rw [List.map_append, List.nodup_append] at distinct
  refine distinct.2.2 old.flow.id (List.mem_map_of_mem mem) record.flow.id (by simp) ?_
  rw [← same]
  exact congrArg Prod.snd equal

theorem addFlow_holds {state state' : NetState} {record : TraceRecord} {cluster : Cluster}
    {simTs : Timestamp} {hostMapping : Option (String → Option String)}
    {records : List TraceRecord} (ledger : state.Ledger) (holds : state.Holds records)
    (newId : ∀ ref < state.nextRef, (state.arena ref).flow.id ≠ record.flow.id)
    (run : state.addFlow record cluster simTs hostMapping = .ok state') :
    state'.Holds (records ++ [record]) := by
  rcases addFlow_refs ledger newId run with ⟨_, nextRef, _, old, ts, id, _⟩
  refine ⟨?_, ?_⟩
  · rw [nextRef, List.range_succ, List.map_append, List.map_append, ← holds.flows]
    congr 1
    · apply List.map_congr_left
      intro ref mem
      rw [old ref (List.mem_range.mp mem)]
    · simp [ts, id]
  · intro ref lt
    rw [nextRef] at lt
    rcases Nat.lt_succ_iff_lt_or_eq.mp lt with before | rfl
    · rw [old ref before]
      exact holds.maxRate ref before
    · rcases addFlow_eq_ok run with ⟨src, dst, route, _, _, _, pushed⟩
      rw [pushFlow_arena pushed]
      simp

end NetState

namespace Simulator

theorem maxMinFairnessConverge_ne_late {platform : Platform} {sim : Simulator} :
    sim.maxMinFairnessConverge platform ≠ .error .lateReadyFlow := by
  simp [maxMinFairnessConverge, Filling.fillLoop_ne_late]

theorem nextTimes_ne_late {platform : Platform} {sim : Simulator} {limit : Option Timestamp} :
    sim.nextTimes platform limit ≠ .error .lateReadyFlow := by
  have completions : sim.state.runningFlows.mapM
      (fun ref => (sim.state.arena ref).timeToComplete) ≠ .error .lateReadyFlow := by
    apply mapM_ne_error
    intro ref _
    simp [FlowState.timeToComplete]
  simp [nextTimes, completions]

theorem completeFlows_ne_late {state : NetState} {simTs : Timestamp} {tsInc : Duration}
    (kept : state.Kept simTs) : state.completeFlows simTs tsInc ≠ .error .lateReadyFlow := by
  have advanced : state.runningFlows.foldlM (NetState.advanceFlow simTs tsInc) (state, []) ≠
      .error .lateReadyFlow := by
    apply foldlM_ne_error
    intro acc ref _
    simp only [NetState.advanceFlow, Ne, bind_eq_error, assert_eq_error, reduceCtorEq, and_false,
      FlowState.completed_ne_late, false_or, not_exists, not_and]
    intro _ _ complete _ failed
    split at failed <;> cases failed
  intro failed
  simp only [NetState.completeFlows, bind_eq_error, pure_eq_error, and_false, exists_false,
    or_false, advanced, false_or, Prod.exists] at failed
  rcases failed with ⟨middle, comp, advanced, failed⟩
  rcases NetState.advanceFlows_eq_ok kept.ledger.running_nodup advanced with ⟨rfl, _⟩
  have unfinished : ∀ (arena : Arena) (ref : FlowRef), (do
      let complete ← (arena ref).completed
      return !complete : Except Panic Bool) ≠ .error .lateReadyFlow := by
    intro arena ref
    simp [FlowState.completed_ne_late]
  rcases failed with failed | ⟨_, _, failed | ⟨_, _, failed⟩⟩
  · exact retainM_ne_error (unfinished _) _ failed
  · exact NetState.retainLinks_ne_error (unfinished _) kept.indexed.filed failed
  · exact retainM_ne_error (unfinished _) _ failed

theorem proceed_ne_late {platform : Platform} {sim : Simulator} {tsInc : Duration}
    (represented : sim.Represented)
    (ready : ∀ entry ∈ sim.state.flowBufs, sim.ts + tsInc ≤ (sim.state.arena entry.2).ts) :
    sim.proceed platform tsInc ≠ .error .lateReadyFlow := by
  have kept := represented.kept
  intro failed
  simp only [proceed, bind_eq_error, pure_eq_error, and_false, exists_false, or_false,
    completeFlows_ne_late kept, false_or, Prod.exists] at failed
  rcases failed with ⟨middle, comp, completed, failed⟩
  rcases NetState.completeFlows_refs kept.ledger.running_nodup completed with ⟨perm, same, bufs⟩
  refine NetState.emitReadyFlows_ne_late ?_ (perm.nodup_iff.mpr kept.ledger.nodup) ?_ failed
  · exact NetState.completeFlows_indexed kept.indexed kept.ledger.running_nodup completed
  · intro entry mem
    rw [same.ts_eq]
    exact ready entry (bufs ▸ mem)

/-- One turn of the loop of a step, in which no flow completes. -/
inductive Turn (platform : Platform) (limit : Option Timestamp) (sim sim' : Simulator) : Prop where
  | turn {filled : Simulator} {times : List Timestamp} {next : Timestamp} :
      ¬limit.any (· ≤ sim.ts) = true → sim.maxMinFairnessConverge platform = .ok filled →
      filled.nextTimes platform limit = .ok times → times.min? = some next →
      filled.proceed platform (next - filled.ts) = .ok (sim', []) → Turn platform limit sim sim'

/-- What a timer tells the application. -/
def notification (timer : OnceTimer) : AppEventKind :=
  match timer.timerId with
  | some timerId => .adapterNotification timer.token timerId
  | none => .userNotification timer.token

/-- How the loop of a step ends: at the limit, with nothing left, with a timer or with completed
flows. -/
inductive Halt (platform : Platform) (limit : Option Timestamp) (sim : Simulator) :
    Simulator → AppEventKind → Prop
  | limited : limit.any (· ≤ sim.ts) = true → Halt platform limit sim sim (.flowComplete [])
  | idle : sim.idle = true → Halt platform limit sim sim (.flowComplete [])
  | fired {filled : Simulator} {times : List Timestamp} {next : Timestamp} {timer : OnceTimer} :
      ¬limit.any (· ≤ sim.ts) = true → sim.maxMinFairnessConverge platform = .ok filled →
      filled.nextTimes platform limit = .ok times → times.min? = some next →
      filled.peekTimer platform = some timer → timer.nextAlert = filled.ts →
      Halt platform limit sim { filled with timers := filled.timers.erase timer }
        (notification timer)
  | completed {filled moved : Simulator} {times : List Timestamp} {next : Timestamp}
      {compFlows : List TraceRecord} :
      ¬limit.any (· ≤ sim.ts) = true → sim.maxMinFairnessConverge platform = .ok filled →
      filled.nextTimes platform limit = .ok times → times.min? = some next →
      filled.proceed platform (next - filled.ts) = .ok (moved, compFlows) → compFlows ≠ [] →
      Halt platform limit sim moved (.flowComplete compFlows)

/-- The time of the next turn does not lie in the past, and no ready flow is late. -/
structure TurnSafe (platform : Platform) (limit : Option Timestamp) (sim : Simulator) : Prop where
  ahead : ¬limit.any (· ≤ sim.ts) = true → ∀ filled times,
    sim.maxMinFairnessConverge platform = .ok filled →
    filled.nextTimes platform limit = .ok times → ∀ time ∈ times, filled.ts ≤ time
  notLate : sim.runOneStep platform limit ≠ .error .lateReadyFlow

section Turns

variable {platform : Platform} {limit : Option Timestamp} {sim sim' filled : Simulator}
  {times : List Timestamp} {next : Timestamp}

theorem Represented.converged (represented : sim.Represented)
    (run : sim.maxMinFairnessConverge platform = .ok filled) :
    filled.Represented ∧ filled.ts = sim.ts ∧ filled.timers = sim.timers ∧
      NetState.SameFlows sim.state filled.state := by
  rcases maxMinFairnessConverge_eq_ok run with ⟨arena, rfl, core⟩
  exact ⟨represented.of_core core, rfl, rfl, sameFlows_of_core core⟩

/-- The next time lies neither in the past nor after a start or a timer. -/
theorem Represented.nextTime (represented : sim.Represented)
    (unlimited : ¬limit.any (· ≤ sim.ts) = true)
    (candidates : sim.nextTimes platform limit = .ok times) (first : times.min? = some next) :
    sim.ts ≤ next ∧ (∀ entry ∈ sim.state.flowBufs, next ≤ (sim.state.arena entry.2).ts) ∧
      ∀ timer ∈ sim.timers, next ≤ timer.nextAlert := by
  rcases nextTimes_eq_ok represented unlimited candidates with ⟨later, starts, alerts⟩
  rw [List.min?_eq_some_iff] at first
  refine ⟨later next first.1, ?_, ?_⟩
  · intro entry mem
    rcases starts entry mem with ⟨time, inTimes, le⟩
    exact (first.2 time inTimes).trans le
  · intro timer mem
    rcases alerts timer mem with ⟨time, inTimes, le⟩
    exact (first.2 time inTimes).trans le

/-- Moving on to the next time. -/
theorem Represented.proceed_next {compFlows : List TraceRecord} (represented : sim.Represented)
    (unlimited : ¬limit.any (· ≤ sim.ts) = true)
    (candidates : sim.nextTimes platform limit = .ok times) (first : times.min? = some next)
    (run : sim.proceed platform (next - sim.ts) = .ok (sim', compFlows)) :
    sim'.Represented ∧ NetState.SameFlows sim.state sim'.state := by
  rcases represented.nextTime unlimited candidates first with ⟨later, _, alerts⟩
  apply proceed_represented represented _ run
  intro timer mem
  exact (Nat.add_sub_cancel' later).symm ▸ alerts timer mem

theorem Represented.turn (represented : sim.Represented) (turn : Turn platform limit sim sim') :
    sim'.Represented ∧ NetState.SameFlows sim.state sim'.state := by
  cases turn with
  | turn unlimited converge candidates first run =>
      rcases represented.converged converge with ⟨filled, ts, _, same⟩
      rcases filled.proceed_next (ts ▸ unlimited) candidates first run with ⟨moved, same'⟩
      exact ⟨moved, same.trans same'⟩

theorem Represented.turns (represented : sim.Represented)
    (turns : Relation.ReflTransGen (Turn platform limit) sim sim') :
    sim'.Represented ∧ NetState.SameFlows sim.state sim'.state := by
  induction turns with
  | refl => exact ⟨represented, .refl _⟩
  | tail _ last ih =>
      rcases ih.1.turn last with ⟨moved, same⟩
      exact ⟨moved, ih.2.trans same⟩

/-- A step takes turns until its loop ends. -/
theorem exists_turns_of_run {fuel : ℕ} {kind : AppEventKind}
    (run : maxMinFairness platform limit fuel sim = .ok (sim', kind)) :
    ∃ last, Relation.ReflTransGen (Turn platform limit) sim last ∧
      Halt platform limit last sim' kind := by
  induction fuel generalizing sim with
  | zero => simp [maxMinFairness] at run
  | succ fuel ih =>
      simp only [maxMinFairness] at run
      split at run
      · rename_i limited
        simp only [Except.ok.injEq, Prod.mk.injEq] at run
        rcases run with ⟨rfl, rfl⟩
        exact ⟨sim, .refl, .limited limited⟩
      · rename_i unlimited
        split at run
        · rename_i idle
          simp only [Except.ok.injEq, Prod.mk.injEq] at run
          rcases run with ⟨rfl, rfl⟩
          exact ⟨sim, .refl, .idle idle⟩
        · simp only [bind_eq_ok, unwrap_eq_ok] at run
          rcases run with ⟨filled, converge, times, candidates, next, first, run⟩
          have proceeds : ∀ {moved comp},
              filled.proceed platform (next - filled.ts) = .ok (moved, comp) →
              (if comp = [] then maxMinFairness platform limit fuel moved
                else return (moved, .flowComplete comp)) = .ok (sim', kind) →
              ∃ last, Relation.ReflTransGen (Turn platform limit) sim last ∧
                Halt platform limit last sim' kind := by
            intro moved comp proceeded rest
            split at rest
            · rename_i nothing
              rcases ih rest with ⟨last, turns, halt⟩
              exact ⟨last, .head (.turn unlimited converge candidates first (nothing ▸ proceeded))
                turns, halt⟩
            · rename_i something
              simp only [pure_eq_ok, Prod.mk.injEq] at rest
              rcases rest with ⟨rfl, rfl⟩
              exact ⟨sim, .refl, .completed unlimited converge candidates first proceeded something⟩
          split at run
          · rename_i timer isFirst
            split at run
            · rename_i due
              have halt := Halt.fired unlimited converge candidates first isFirst due.2
              refine ⟨sim, .refl, ?_⟩
              unfold notification at halt
              split at run
              all_goals
                rename_i isId
                simp only [isId] at halt
                simp only [pure_eq_ok, Prod.mk.injEq] at run
                rcases run with ⟨rfl, rfl⟩
                exact halt
            · simp only [bind_eq_ok, Prod.exists] at run
              rcases run with ⟨moved, comp, proceeded, rest⟩
              exact proceeds proceeded rest
          · simp only [bind_eq_ok, Prod.exists] at run
            rcases run with ⟨moved, comp, proceeded, rest⟩
            exact proceeds proceeded rest

theorem Represented.halt {kind : AppEventKind} (represented : sim.Represented)
    (halt : Halt platform limit sim sim' kind) :
    sim'.Represented ∧ NetState.SameFlows sim.state sim'.state := by
  cases halt with
  | limited _ => exact ⟨represented, .refl _⟩
  | idle _ => exact ⟨represented, .refl _⟩
  | fired _ converge _ _ _ _ =>
      rcases represented.converged converge with ⟨isFilled, _, _, same⟩
      exact ⟨⟨isFilled.kept, fun other mem => isFilled.timers other (List.mem_of_mem_erase mem)⟩,
        same⟩
  | completed unlimited converge candidates first proceeded _ =>
      rcases represented.converged converge with ⟨isFilled, ts, _, same⟩
      rcases isFilled.proceed_next (ts ▸ unlimited) candidates first proceeded with ⟨moved, same'⟩
      exact ⟨moved, same.trans same'⟩

theorem maxMinFairness_represented {fuel : ℕ} {kind : AppEventKind}
    (represented : sim.Represented)
    (run : maxMinFairness platform limit fuel sim = .ok (sim', kind)) :
    sim'.Represented ∧ NetState.SameFlows sim.state sim'.state := by
  rcases exists_turns_of_run run with ⟨last, turns, halt⟩
  rcases represented.turns turns with ⟨isLast, same⟩
  rcases isLast.halt halt with ⟨isEnd, same'⟩
  exact ⟨isEnd, same.trans same'⟩

theorem maxMinFairness_ne_late {fuel : ℕ} (represented : sim.Represented) :
    maxMinFairness platform limit fuel sim ≠ .error .lateReadyFlow := by
  induction fuel generalizing sim with
  | zero => simp [maxMinFairness]
  | succ fuel ih =>
      intro failed
      simp only [maxMinFairness] at failed
      split at failed
      · cases failed
      · rename_i unlimited
        split at failed
        · cases failed
        · simp only [bind_eq_error, maxMinFairnessConverge_ne_late, nextTimes_ne_late, false_or,
            unwrap_eq_error, reduceCtorEq, and_false, unwrap_eq_ok] at failed
          rcases failed with ⟨filled, converge, times, candidates, next, first, failed⟩
          rcases represented.converged converge with ⟨isFilled, ts, _, _⟩
          rcases isFilled.nextTime (ts ▸ unlimited) candidates first with ⟨later, starts, _⟩
          have safe : filled.proceed platform (next - filled.ts) ≠ .error .lateReadyFlow := by
            apply proceed_ne_late isFilled
            intro entry mem
            exact (Nat.add_sub_cancel' later).symm ▸ starts entry mem
          have proceeds : ((filled.proceed platform (next - filled.ts)) >>= fun result =>
              if result.2 = [] then maxMinFairness platform limit fuel result.1
              else return (result.1, .flowComplete result.2)) ≠ .error .lateReadyFlow := by
            intro failed
            simp only [bind_eq_error, safe, false_or, Prod.exists] at failed
            rcases failed with ⟨moved, comp, proceeded, failed⟩
            split at failed
            · exact ih (isFilled.proceed_next (ts ▸ unlimited) candidates first proceeded).1 failed
            · cases failed
          split at failed
          · split at failed
            · split at failed <;> cases failed
            · exact proceeds failed
          · exact proceeds failed

theorem Represented.turnSafe (represented : sim.Represented) : sim.TurnSafe platform limit where
  ahead := by
    intro unlimited filled times converge candidates
    rcases represented.converged converge with ⟨isFilled, ts, _, _⟩
    exact (nextTimes_eq_ok isFilled (ts ▸ unlimited) candidates).1
  notLate := by
    simp [runOneStep, maxMinFairness_ne_late represented]

end Turns

theorem represented_build (cluster : Cluster) (setting : SimulatorSetting)
    (hostMapping : Option (String → Option String)) :
    (build cluster setting hostMapping).Represented where
  kept := {
    ledger := (sound_build cluster setting hostMapping).ledger
    indexed := ⟨rfl, ⟨List.nodup_nil, fun _ mem => absurd mem List.not_mem_nil⟩,
      fun _ _ => rfl, rfl⟩
    ahead := fun entry mem => absurd mem (PriorityQueue.not_mem_empty entry)
    ordered := ⟨fun _ mem => absurd mem List.not_mem_nil, List.Pairwise.nil,
      fun _ mem => absurd mem List.not_mem_nil⟩ }
  timers _ mem := absurd mem List.not_mem_nil

/-- Arrivals, in time or late. -/
theorem flowArrive_represented {sim sim' : Simulator} {records recs : List TraceRecord}
    {result : OnEventResult} (represented : sim.Represented) (holds : sim.state.Holds records)
    (distinct : ((records ++ recs).map (·.flow.id)).Nodup)
    (run : sim.flowArrive recs = .ok (sim', result)) :
    sim'.Represented ∧ sim'.state.Holds (records ++ recs) := by
  simp only [flowArrive, bind_eq_ok, assert_eq_ok] at run
  rcases run with ⟨_, _, state, added, run⟩
  have arrived := foldlM_prefix
    (P := fun done (state : NetState) => state.Kept sim.ts ∧ state.Holds (records ++ done))
    ?step ⟨represented.kept, by simpa using holds⟩ added
  case step =>
    rintro done record rest middle state' ⟨kept, holds⟩ add whole
    have newId : ∀ ref < middle.nextRef, (middle.arena ref).flow.id ≠ record.flow.id := by
      apply holds.newId
      rw [List.append_assoc, whole]
      exact distinct
    refine ⟨NetState.addFlow_kept kept newId add, ?_⟩
    rw [← List.append_assoc]
    exact NetState.addFlow_holds kept.ledger holds newId add
  split at run
  · rename_i late
    simp only [bind_eq_ok, pure_eq_ok, Prod.exists, Prod.mk.injEq] at run
    rcases run with ⟨state', revived, rolled, rfl, _⟩
    have earlier : ((recs.map TraceRecord.ts).min?).getD sim.ts < sim.ts :=
      Nat.lt_of_lt_of_le late (Nat.div_mul_le_self _ _)
    refine ⟨⟨NetState.rollbackTo_kept arrived.1 (Nat.le_of_lt earlier) rolled, ?_⟩, ?_⟩
    · intro timer mem
      exact (Nat.le_of_lt earlier).trans (represented.timers timer mem)
    · exact arrived.2.congr (NetState.rollbackTo_eq_ok arrived.1.ledger rolled).2.1
  · simp only [pure_eq_ok, Prod.mk.injEq] at run
    exact run.1 ▸ ⟨⟨arrived.1, represented.timers⟩, arrived.2⟩

/-- What the application asks of the simulator. -/
inductive Input where
  | onEvent (event : Event)
  | runOneStep (limit : Option Timestamp)

/-- The records that an input brings. -/
def Input.records : Input → List TraceRecord
  | .onEvent (.flowArrive recs) => recs
  | _ => []

/-- The records of the flows that arrive in a run. -/
def arrivals (inputs : List Input) : List TraceRecord :=
  inputs.flatMap Input.records

/-- The simulator answers an input. -/
def perform (platform : Platform) (sim : Simulator) : Input → Except Panic Simulator
  | .onEvent event => Prod.fst <$> sim.onEvent event
  | .runOneStep limit => Prod.fst <$> sim.runOneStep platform limit

/-- A simulator to which nothing has happened. -/
def Initial (sim : Simulator) : Prop :=
  ∃ cluster setting hostMapping, sim = build cluster setting hostMapping

def Step (platform : Platform) (sim : Simulator) (input : Input) (sim' : Simulator) : Prop :=
  sim.perform platform input = .ok sim'

theorem Represented.registerOnce {sim : Simulator} (represented : sim.Represented)
    (after : Duration) (token : Option Token) (timerId : Option TimerId) :
    (sim.registerOnce (sim.ts + after) token timerId).Represented := by
  refine ⟨represented.kept, ?_⟩
  intro timer mem
  rcases List.mem_append.mp mem with old | new
  · exact represented.timers timer old
  · rw [List.mem_singleton] at new
    exact new ▸ Nat.le_add_right _ _

theorem Step.represented {platform : Platform} {sim sim' : Simulator} {input : Input}
    {records : List TraceRecord} (step : Step platform sim input sim')
    (represented : sim.Represented) (holds : sim.state.Holds records)
    (distinct : ((records ++ input.records).map (·.flow.id)).Nodup) :
    sim'.Represented ∧ sim'.state.Holds (records ++ input.records) := by
  cases input with
  | onEvent event =>
      cases event with
      | flowArrive recs =>
          simp only [Step, perform, onEvent, map_eq_ok] at step
          rcases step with ⟨⟨moved, result⟩, run, rfl⟩
          exact flowArrive_represented represented holds distinct run
      | appFinish =>
          simp only [Step, perform, onEvent, Except.map_ok, Except.ok.injEq] at step
          simpa [Input.records, ← step] using ⟨represented, holds⟩
      | adapterRegisterTimer after token timerId =>
          simp only [Step, perform, onEvent, Except.map_ok, Except.ok.injEq] at step
          rw [← step]
          exact ⟨represented.registerOnce after token _, (List.append_nil records).symm ▸ holds⟩
      | userRegisterTimer after token =>
          simp only [Step, perform, onEvent, Except.map_ok, Except.ok.injEq] at step
          rw [← step]
          exact ⟨represented.registerOnce after token none, (List.append_nil records).symm ▸ holds⟩
  | runOneStep limit =>
      simp only [Step, perform, runOneStep, map_eq_ok, bind_eq_ok, pure_eq_ok] at step
      rcases step with ⟨_, ⟨⟨moved, kind⟩, run, rfl⟩, rfl⟩
      rcases maxMinFairness_represented represented run with ⟨moved, same⟩
      exact ⟨moved, by simpa [Input.records] using holds.congr same⟩

theorem represented_of_reached {platform : Platform} {inputs : List Input} {sim : Simulator}
    (reached : Runs.Reached Initial (Step platform) inputs sim)
    (distinct : ((arrivals inputs).map (·.flow.id)).Nodup) :
    sim.Represented ∧ sim.state.Holds (arrivals inputs) := by
  refine reached.invariant (fun inputs sim => ((arrivals inputs).map (·.flow.id)).Nodup →
    sim.Represented ∧ sim.state.Holds (arrivals inputs)) ?_ ?_ distinct
  · rintro sim ⟨cluster, setting, hostMapping, rfl⟩ _
    exact ⟨represented_build cluster setting hostMapping, rfl,
      fun _ lt => absurd lt (Nat.not_lt_zero _)⟩
  · intro inputs sim input sim' ih step distinct
    simp only [arrivals, List.flatMap_append, List.flatMap_cons, List.flatMap_nil,
      List.append_nil] at distinct ih ⊢
    have before : ((inputs.flatMap Input.records).map (·.flow.id)).Nodup := by
      rw [List.map_append] at distinct
      exact (List.nodup_append.mp distinct).1
    rcases ih before with ⟨represented, holds⟩
    exact step.represented represented holds distinct

/-- The network state represents the flows of `records`. -/
structure Represents (sim : Simulator) (records : List TraceRecord) : Prop where
  /-- Each flow is buffered, running or retired, once. -/
  placed : (sim.state.refs.map fun ref =>
    ((sim.state.arena ref).ts, (sim.state.arena ref).flow.id)).Perm
      (records.map fun record => (record.ts, record.flow.id))
  /-- No link is filed twice. -/
  keys : (sim.state.linkFlows.map Prod.fst).Nodup
  /-- A link holds each running flow as often as the route of the flow names the link. -/
  linked : ∀ link set, (link, set) ∈ sim.state.linkFlows → set.isEmpty = false ∧
    ∀ ref, set.iter.count ref = if ref ∈ sim.state.runningFlows then
      (sim.state.arena ref).route.path.count link else 0
  /-- Every link of a running flow is filed. -/
  covered : ∀ ref ∈ sim.state.runningFlows, ∀ link ∈ (sim.state.arena ref).route.path,
    ∃ set, (link, set) ∈ sim.state.linkFlows
  loopbacks : sim.state.loopbackFlows =
    sim.state.runningFlows.filter fun ref => (sim.state.arena ref).route.path = []
  ahead : ∀ entry ∈ sim.state.flowBufs, sim.ts < (sim.state.arena entry.2).ts
  timers : ∀ timer ∈ sim.timers, sim.ts ≤ timer.nextAlert
  /-- The speed history of a retired flow ends when the flow did. -/
  stopped : ∀ ref ∈ sim.state.retiredFlows,
    (sim.state.arena ref).speedHistory.head? = some ⟨(sim.state.arena ref).endTs, 0⟩
  /-- The flow retired last comes first. -/
  sorted : sim.state.retiredFlows.Pairwise fun later earlier =>
    (sim.state.arena earlier).endTs / 1000 * 1000 ≤ (sim.state.arena later).endTs / 1000 * 1000

theorem Represented.represents {sim : Simulator} {records : List TraceRecord}
    (represented : sim.Represented) (holds : sim.state.Holds records) : sim.Represents records where
  placed := by
    rw [← holds.flows]
    exact represented.kept.ledger.perm.map _
  keys := represented.kept.indexed.filed.keys
  linked link set mem := by
    have indexed := represented.kept.indexed
    refine ⟨?_, ?_⟩
    · rcases indexed.filed.flat _ mem with ⟨flows, flat, nonempty⟩
      dsimp only at flat
      simpa [flat, FlowSet.isEmpty] using nonempty
    · intro ref
      rw [← indexed.filed.flowsOn_eq mem]
      exact indexed.counts link ref
  covered ref running link mem := by
    have filed := represented.kept.indexed.mem_flowsOn.mpr ⟨running, mem⟩
    rcases NetState.exists_of_mem_flowsOn filed with ⟨set, inIndex, _⟩
    exact ⟨set, inIndex⟩
  loopbacks := by
    rw [represented.kept.indexed.loopbacks]
    apply List.filter_congr
    intro ref _
    cases path : (sim.state.arena ref).route.path <;> simp [FlowState.isLoopback, path]
  ahead := represented.kept.ahead
  timers := represented.timers
  stopped := represented.kept.ordered.stopped
  sorted := represented.kept.ordered.sorted.imp fun le => Nat.mul_le_mul_right 1000 le

/-- A flow completes after two microseconds, then one arrives that should have started with it. -/
def lateArrival : List Input :=
  [.onEvent (.flowArrive [⟨0, { id := 0, bytes := 2000, src := "left", dst := "right" }, none⟩]),
    .runOneStep none,
    .onEvent (.flowArrive [⟨0, { id := 1, bytes := 2000, src := "left", dst := "right" }, none⟩])]

end Simulator

end Phantora.Netsim
