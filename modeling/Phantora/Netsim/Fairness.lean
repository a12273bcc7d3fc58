import Phantora.Netsim.RepresentationRuns

/-!
# The fairness model in use

The fairness model is kept twice. The builder sets the one that filling reads;
the one that emission reads keeps its default, so that all flow sets are flat.
-/

namespace Phantora.Netsim

open Outcome

/-- The flow set is of the kind that filling needs under the fairness model. -/
def FlowSet.Suits : FairnessModel → FlowSet → Prop
  | .perFlowMaxMin, .flat _ => True
  | .perVmPairMaxMin, .groupByVmPair _ => True
  | .tenantFlowMaxMin, .groupByTenant _ => True
  | _, _ => False

namespace NetState

/-- New flow sets are flat, and so are the ones of the index. -/
structure AllFlat (state : NetState) : Prop where
  perFlow : state.fairness = .perFlowMaxMin
  filed : Filed state.linkFlows

variable {state state' : NetState}

theorem AllFlat.congr (flat : state.AllFlat) (fairness : state'.fairness = state.fairness)
    (links : state'.linkFlows = state.linkFlows) : state'.AllFlat :=
  ⟨fairness.trans flat.perFlow, links ▸ flat.filed⟩

theorem AllFlat.emitFlow {ref : FlowRef} (flat : state.AllFlat)
    (run : state.emitFlow ref = .ok state') : state'.AllFlat := by
  rcases emitFlow_eq_ok run with ⟨linkFlows, loopbackFlows, links, rfl⟩
  rw [flat.perFlow] at links
  exact ⟨flat.perFlow, (pushLinks_eq_ok flat.filed links).1⟩

theorem AllFlat.pushFlow {ref : FlowRef} {simTs : Timestamp} (flat : state.AllFlat)
    (run : state.pushFlow ref simTs = .ok state') : state'.AllFlat := by
  rcases pushFlow_eq_ok run with ⟨_, rfl⟩ | ⟨_, emitted⟩
  · exact flat.congr rfl rfl
  · exact flat.emitFlow emitted

theorem AllFlat.addFlow {record : TraceRecord} {cluster : Cluster} {simTs : Timestamp}
    {hostMapping : Option (String → Option String)} (flat : state.AllFlat)
    (run : state.addFlow record cluster simTs hostMapping = .ok state') : state'.AllFlat := by
  rcases addFlow_eq_ok run with ⟨_, _, _, _, _, _, pushed⟩
  refine AllFlat.pushFlow ?_ pushed
  exact flat.congr rfl rfl

theorem AllFlat.retainLinks {keep : FlowRef → Except Panic Bool}
    {linkFlows linkFlows' : List (LinkIx × FlowSet)} (filed : Filed linkFlows)
    (run : retainLinks keep linkFlows = .ok linkFlows') : Filed linkFlows' := by
  have answers : ∀ link, ∀ ref ∈ flowsOn linkFlows link, ∀ b, keep ref = .ok b →
      b = (keep ref).toOption.getD false := by
    intro link ref _ b answer
    rw [answer]
    rfl
  exact (retainLinks_eq_ok filed answers run).1

theorem AllFlat.emitReadyFlows {platform : Platform} {simTs : Timestamp} {fuel : ℕ}
    (flat : state.AllFlat) (run : emitReadyFlows platform simTs fuel state = .ok state') :
    state'.AllFlat := by
  induction fuel generalizing state with
  | zero => cases run
  | succ fuel ih =>
      simp only [NetState.emitReadyFlows] at run
      split at run
      · simp only [Except.ok.injEq] at run
        exact run ▸ flat
      · split at run
        · simp only [Except.ok.injEq] at run
          exact run ▸ flat
        · simp only [bind_eq_ok, assert_eq_ok] at run
          rcases run with ⟨_, _, middle, emitted, rest⟩
          refine ih (AllFlat.emitFlow ?_ emitted) rest
          exact flat.congr rfl rfl

theorem AllFlat.completeFlows {simTs : Timestamp} {tsInc : Duration}
    {compFlows : List TraceRecord} (flat : state.AllFlat)
    (run : state.completeFlows simTs tsInc = .ok (state', compFlows)) : state'.AllFlat := by
  simp only [NetState.completeFlows, bind_eq_ok, pure_eq_ok, Prod.exists, Prod.mk.injEq] at run
  rcases run with ⟨middle, comp, advanced, _, _, linkFlows, links, _, _, rfl, _⟩
  have moved : middle.AllFlat := by
    refine foldlM_invariant (fun acc : NetState × List TraceRecord => acc.1.AllFlat) ?_ flat
      advanced
    rintro ⟨before, done⟩ ref ⟨after, done'⟩ _ holds step
    simp only [advanceFlow, bind_eq_ok, assert_eq_ok] at step
    rcases step with ⟨_, _, complete, _, step⟩
    split at step
    · simp only [pure_eq_ok, Prod.mk.injEq] at step
      exact step.1 ▸ holds.congr rfl rfl
    · simp only [pure_eq_ok, Prod.mk.injEq] at step
      exact step.1 ▸ holds.congr rfl rfl
  exact ⟨moved.perFlow, AllFlat.retainLinks moved.filed links⟩

theorem AllFlat.rollbackTo {simTs pastTs : Timestamp} {revived : List FlowRef}
    (flat : state.AllFlat) (run : state.rollbackTo simTs pastTs = .ok (state', revived)) :
    state'.AllFlat := by
  simp only [NetState.rollbackTo, bind_eq_ok, pure_eq_ok, Prod.exists, Prod.mk.injEq] at run
  rcases run with ⟨toRunning, retired, revive, middle, emitted, arena, reverted, linkFlows, links,
    final, pushed, rfl, rfl⟩
  have started : middle.AllFlat := by
    refine foldlM_invariant AllFlat ?_ ?_ emitted
    · intro _ _ _ _ holds step
      exact holds.emitFlow step
    · exact flat.congr rfl rfl
  refine foldlM_invariant AllFlat ?_ ?_ pushed
  · intro _ _ _ _ holds step
    exact holds.pushFlow step
  · exact ⟨started.perFlow, AllFlat.retainLinks started.filed links⟩

end NetState

namespace Filling

theorem calcDelta_ne_notGrouped {bandwidth : ℕ} {flows : FlowSet} {arena : Arena} :
    calcDelta .perFlowMaxMin bandwidth flows arena ≠ .error .flowsNotGrouped := by
  simp [calcDelta, calcDeltaPerFlow]

theorem fillRound_ne_notGrouped {cluster : Cluster} {fairness : FairnessModel}
    {running : List FlowRef} {linkFlows : List (LinkIx × FlowSet)} {arena : Arena}
    (harmless : fairness = .perFlowMaxMin ∨ linkFlows = []) :
    fillRound cluster fairness running linkFlows arena ≠ .error .flowsNotGrouped := by
  have deltas : linkFlows.foldlM (linkDeltas cluster fairness) ([], arena) ≠
      .error .flowsNotGrouped := by
    apply foldlM_ne_error
    intro acc entry mem
    rcases harmless with rfl | rfl
    · simp only [linkDeltas]
      split
      · simp [calcDelta_ne_notGrouped]
      · simp
    · cases mem
  simp [fillRound, deltas]

theorem fillLoop_ne_notGrouped {cluster : Cluster} {fairness : FairnessModel}
    {running : List FlowRef} {linkFlows : List (LinkIx × FlowSet)} {fuel : ℕ} {arena : Arena}
    (harmless : fairness = .perFlowMaxMin ∨ linkFlows = []) :
    fillLoop cluster fairness running linkFlows fuel arena ≠ .error .flowsNotGrouped := by
  induction fuel generalizing arena with
  | zero => simp [fillLoop]
  | succ fuel ih =>
      simp only [fillLoop]
      split
      · simp [fillRound_ne_notGrouped harmless, ih]
      · simp

end Filling

namespace Simulator

variable {platform : Platform} {cluster : Cluster} {setting : SimulatorSetting}
  {hostMapping : Option (String → Option String)} {sim sim' : Simulator}

/-- What the owner of the simulator does: an input, or a later start for a buffered flow. -/
inductive Access where
  | input (input : Input)
  | updateFlowStart (flow : Flow) (newTs : Timestamp)

def access (platform : Platform) (sim : Simulator) : Access → Except Panic Simulator
  | .input input => sim.perform platform input
  | .updateFlowStart flow newTs => sim.updateFlowStartTs flow newTs

/-- What does not change of the setting, and the index with it. -/
structure Configured (setting : SimulatorSetting) (sim : Simulator) : Prop where
  setting : sim.setting = setting
  flat : sim.state.AllFlat

theorem Configured.converged (configured : sim.Configured setting)
    (run : sim.maxMinFairnessConverge platform = .ok sim') : sim'.Configured setting := by
  rcases maxMinFairnessConverge_eq_ok run with ⟨arena, rfl, _⟩
  exact ⟨configured.setting, configured.flat.congr rfl rfl⟩

theorem Configured.proceed {tsInc : Duration} {compFlows : List TraceRecord}
    (configured : sim.Configured setting)
    (run : sim.proceed platform tsInc = .ok (sim', compFlows)) : sim'.Configured setting := by
  simp only [Simulator.proceed, bind_eq_ok, pure_eq_ok, Prod.exists, Prod.mk.injEq] at run
  rcases run with ⟨middle, comp, completed, final, emitted, rfl, _⟩
  exact ⟨configured.setting, (configured.flat.completeFlows completed).emitReadyFlows emitted⟩

theorem Configured.maxMinFairness {limit : Option Timestamp} {fuel : ℕ} {kind : AppEventKind}
    (configured : sim.Configured setting)
    (run : Simulator.maxMinFairness platform limit fuel sim = .ok (sim', kind)) :
    sim'.Configured setting := by
  induction fuel generalizing sim with
  | zero => cases run
  | succ fuel ih =>
      simp only [Simulator.maxMinFairness] at run
      split at run
      · simp only [Except.ok.injEq, Prod.mk.injEq] at run
        exact run.1 ▸ configured
      · split at run
        · simp only [Except.ok.injEq, Prod.mk.injEq] at run
          exact run.1 ▸ configured
        · simp only [bind_eq_ok, unwrap_eq_ok] at run
          rcases run with ⟨filled, converge, times, _, next, _, run⟩
          have isFilled := configured.converged converge
          have proceeds : ∀ {moved comp},
              filled.proceed platform (next - filled.ts) = .ok (moved, comp) →
              (if comp = [] then Simulator.maxMinFairness platform limit fuel moved
                else return (moved, .flowComplete comp)) = .ok (sim', kind) →
              sim'.Configured setting := by
            intro moved comp proceeded rest
            split at rest
            · exact ih (isFilled.proceed proceeded) rest
            · simp only [pure_eq_ok, Prod.mk.injEq] at rest
              exact rest.1 ▸ isFilled.proceed proceeded
          split at run
          · split at run
            · have fired : ∀ timers, Configured setting { filled with timers := timers } :=
                fun _ => ⟨isFilled.setting, isFilled.flat⟩
              split at run
              · simp only [pure_eq_ok, Prod.mk.injEq] at run
                exact run.1 ▸ fired _
              · simp only [pure_eq_ok, Prod.mk.injEq] at run
                exact run.1 ▸ fired _
            · simp only [bind_eq_ok, Prod.exists] at run
              rcases run with ⟨moved, comp, proceeded, rest⟩
              exact proceeds proceeded rest
          · simp only [bind_eq_ok, Prod.exists] at run
            rcases run with ⟨moved, comp, proceeded, rest⟩
            exact proceeds proceeded rest

theorem Configured.flowArrive {recs : List TraceRecord} {result : OnEventResult}
    (configured : sim.Configured setting) (run : sim.flowArrive recs = .ok (sim', result)) :
    sim'.Configured setting := by
  simp only [Simulator.flowArrive, bind_eq_ok, assert_eq_ok] at run
  rcases run with ⟨_, _, state, added, run⟩
  have arrived : state.AllFlat := by
    refine foldlM_invariant NetState.AllFlat ?_ configured.flat added
    intro _ _ _ _ flat step
    exact flat.addFlow step
  split at run
  · simp only [bind_eq_ok, pure_eq_ok, Prod.exists, Prod.mk.injEq] at run
    rcases run with ⟨rolled, revived, rollback, rfl, _⟩
    exact ⟨configured.setting, arrived.rollbackTo rollback⟩
  · simp only [pure_eq_ok, Prod.mk.injEq] at run
    exact run.1 ▸ ⟨configured.setting, arrived⟩

theorem Configured.access (configured : sim.Configured setting) {call : Access}
    (run : sim.access platform call = .ok sim') : sim'.Configured setting := by
  cases call with
  | input input =>
      cases input with
      | onEvent event =>
          cases event with
          | flowArrive recs =>
              simp only [Simulator.access, perform, onEvent, map_eq_ok] at run
              rcases run with ⟨⟨moved, result⟩, run, rfl⟩
              exact configured.flowArrive run
          | appFinish => cases run; exact configured
          | adapterRegisterTimer after token timerId =>
              cases run
              exact ⟨configured.setting, configured.flat⟩
          | userRegisterTimer after token =>
              cases run
              exact ⟨configured.setting, configured.flat⟩
      | runOneStep limit =>
          simp only [Simulator.access, perform, runOneStep, map_eq_ok, bind_eq_ok,
            pure_eq_ok] at run
          rcases run with ⟨_, ⟨⟨moved, kind⟩, run, rfl⟩, rfl⟩
          exact configured.maxMinFairness run
  | updateFlowStart flow newTs =>
      simp only [Simulator.access, Simulator.updateFlowStartTs, NetState.updateFlowStartTs,
        bind_eq_ok, pure_eq_ok, Prod.exists] at run
      rcases run with ⟨_, ⟨_, _, _, rfl⟩, rfl⟩
      exact ⟨configured.setting, configured.flat.congr rfl rfl⟩

/-- The flow sets suit the configured fairness model, and the panic about flows that are not
grouped is not reached, exactly under per-flow fairness or while no link is used. -/
theorem suits_iff (platform : Platform) (cluster : Cluster) (setting : SimulatorSetting)
    (hostMapping : Option (String → Option String)) (calls : List Access) (sim : Simulator)
    (reached : Runs.Reached (· = build cluster setting hostMapping)
      (fun sim call sim' => sim.access platform call = .ok sim') calls sim) :
    sim.setting = setting ∧
      (((∀ entry ∈ sim.state.linkFlows, entry.2.Suits setting.fairness) ∧
        sim.maxMinFairnessConverge platform ≠ .error .flowsNotGrouped) ↔
          setting.fairness = .perFlowMaxMin ∨ sim.state.linkFlows = []) := by
  have configured : sim.Configured setting := by
    refine reached.invariant (fun _ sim => sim.Configured setting) ?_ ?_
    · rintro sim rfl
      exact ⟨rfl, rfl, List.nodup_nil, fun _ mem => by cases mem⟩
    · intro _ _ _ _ configured step
      exact configured.access step
  refine ⟨configured.setting, ?_, ?_⟩
  · rintro ⟨suits, _⟩
    cases links : sim.state.linkFlows with
    | nil => exact .inr rfl
    | cons entry rest =>
        have mem : entry ∈ sim.state.linkFlows := links ▸ List.mem_cons_self
        have suit := suits entry mem
        rcases configured.flat.filed.flat entry mem with ⟨flows, isFlat, _⟩
        rw [isFlat] at suit
        cases fairness : setting.fairness with
        | perFlowMaxMin => exact .inl rfl
        | perVmPairMaxMin => exact (fairness ▸ suit).elim
        | tenantFlowMaxMin => exact (fairness ▸ suit).elim
  · intro harmless
    constructor
    · intro entry mem
      rcases configured.flat.filed.flat entry mem with ⟨flows, isFlat, _⟩
      rcases harmless with perFlow | empty
      · rw [isFlat, perFlow]
        trivial
      · rw [empty] at mem
        cases mem
    · rw [← configured.setting] at harmless
      simp [maxMinFairnessConverge, Filling.fillLoop_ne_notGrouped harmless]

/-- One flow between virtual machines whose names are labels of fairness by pairs. -/
def labelledFlow : TraceRecord :=
  ⟨0, ⟨0, 2000, "left", "right", none, none, some "host_0", some "host_1"⟩, none⟩

/-- The flow arrives. -/
def labelledArrival : Access :=
  .input (.onEvent (.flowArrive [labelledFlow]))

theorem reached_labelledArrival
    (run : (build cluster setting hostMapping).access platform labelledArrival = .ok sim) :
    Runs.Reached (· = build cluster setting hostMapping)
      (fun sim call sim' => sim.access platform call = .ok sim') [labelledArrival] sim := by
  have start : Runs.Reached (· = build cluster setting hostMapping)
      (fun sim call sim' => sim.access platform call = .ok sim') []
      (build cluster setting hostMapping) := .start rfl
  exact start.step run

/-- Under per-flow fairness the flow set of the one flow is flat, as needed. -/
theorem suits_iff_labelledFlow : ∃ sim : Simulator, sim.state.linkFlows ≠ [] ∧
    ((∀ entry ∈ sim.state.linkFlows, entry.2.Suits .perFlowMaxMin) ∧
      sim.maxMinFairnessConverge (.inOrder 20) ≠ .error .flowsNotGrouped ↔
        FairnessModel.perFlowMaxMin = .perFlowMaxMin ∨ sim.state.linkFlows = []) := by
  have read : ((build .pair {} none).access (.inOrder 20)
      labelledArrival).toOption.map (fun sim => sim.state.linkFlows.isEmpty) = some false := by
    decide +kernel
  rcases exists_ok_of_reading read with ⟨sim, run, used⟩
  refine ⟨sim, fun empty => by simp [empty] at used, ?_⟩
  exact (suits_iff (.inOrder 20) .pair {} none _ sim (reached_labelledArrival run)).2

/-- The builder is asked for fairness by pairs; the flow carries its labels, but filling panics. -/
theorem not_suits_perVmPair : ¬∀ (platform : Platform) (cluster : Cluster)
    (setting : SimulatorSetting) (hostMapping : Option (String → Option String))
    (calls : List Access) (sim : Simulator), Runs.Reached (· = build cluster setting hostMapping)
      (fun sim call sim' => sim.access platform call = .ok sim') calls sim →
    (∀ entry ∈ sim.state.linkFlows, entry.2.Suits setting.fairness) ∧
      sim.maxMinFairnessConverge platform ≠ .error .flowsNotGrouped := by
  intro claimed
  have read : ((build .pair { fairness := .perVmPairMaxMin } none).access (.inOrder 20)
      labelledArrival).toOption.map (fun sim => match sim.maxMinFairnessConverge (.inOrder 20) with
          | .ok _ => none
          | .error failure => some failure) = some (some Panic.flowsNotGrouped) := by
    decide +kernel
  rcases exists_ok_of_reading read with ⟨sim, run, failed⟩
  refine (claimed (.inOrder 20) .pair { fairness := .perVmPairMaxMin } none _ sim
    (reached_labelledArrival run)).2 ?_
  split at failed
  · cases failed
  · rename_i failure isFailure
    rw [isFailure, Option.some.inj failed]

end Simulator

end Phantora.Netsim
