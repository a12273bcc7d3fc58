import Phantora.Netsim.Application

/-!
# What an application hears of its flows

A step retires the flows that it reports, and an arrival in the past takes
flows out of the retired ones again. An application hears of each flow once, at
the time at which the flow completed, exactly when no arrival takes a flow back
that has been reported.
-/

namespace Phantora.Netsim

open Outcome

namespace Simulator

/-- The report of a flow that has completed. -/
def completionOf (sim : Simulator) (ref : FlowRef) : TraceRecord :=
  NetState.completionRecord (sim.state.arena ref).endTs (sim.state.arena ref)

/-- The flows of `done` have completed since, and those that had completed before have not moved. -/
structure Completes (sim sim' : Simulator) (done : List FlowRef) : Prop where
  same : NetState.SameFlows sim.state sim'.state
  retired : sim'.state.retiredFlows = done.reverse ++ sim.state.retiredFlows
  stays : ∀ ref ∈ sim.state.retiredFlows,
    (sim'.state.arena ref).endTs = (sim.state.arena ref).endTs

namespace Completes

variable {sim sim' sim'' : Simulator} {done : List FlowRef}

theorem refl (sim : Simulator) : Completes sim sim [] :=
  ⟨.refl _, rfl, fun _ _ => rfl⟩

/-- Turns in which nothing completes may come first. -/
theorem trans (first : Completes sim sim' []) (second : Completes sim' sim'' done) :
    Completes sim sim'' done := by
  have retired : sim'.state.retiredFlows = sim.state.retiredFlows := first.retired
  refine ⟨first.same.trans second.same, retired ▸ second.retired, fun ref mem => ?_⟩
  rw [second.stays ref (retired ▸ mem), first.stays ref mem]

theorem completionOf_eq (completes : Completes sim sim' done) {ref : FlowRef}
    (mem : ref ∈ sim.state.retiredFlows) : sim'.completionOf ref = sim.completionOf ref := by
  simp only [completionOf, NetState.completionRecord, completes.stays ref mem,
    completes.same.ts_eq, completes.same.flow_eq]

end Completes

theorem completes_of_core {sim : Simulator} {arena : Arena}
    (core : ∀ ref, (arena ref).core = (sim.state.arena ref).core) :
    Completes sim { sim with state := { sim.state with arena := arena } } [] := by
  refine ⟨sameFlows_of_core core, rfl, fun ref _ => ?_⟩
  have history : (arena ref).speedHistory = (sim.state.arena ref).speedHistory := by
    simpa using congrArg FlowState.speedHistory (core ref)
  simp only [FlowState.endTs, history]

theorem endTs_stepFlow {simTs : Timestamp} {tsInc : Duration} {f : FlowState}
    (completes : NetState.completesIn simTs tsInc f = true) :
    (NetState.stepFlow simTs tsInc f).endTs = simTs + tsInc := by
  unfold NetState.completesIn at completes
  simp [NetState.stepFlow, completes, FlowState.endTs, FlowState.retire]

/-- Moving on retires the flows that it reports. -/
theorem proceed_completes {platform : Platform} {sim sim' : Simulator} {tsInc : Duration}
    {compFlows : List TraceRecord} (represented : sim.Represented)
    (run : sim.proceed platform tsInc = .ok (sim', compFlows)) :
    ∃ done, Completes sim sim' done ∧ compFlows = done.map sim'.completionOf := by
  have kept := represented.kept
  simp only [proceed, bind_eq_ok, pure_eq_ok, Prod.exists, Prod.mk.injEq] at run
  rcases run with ⟨middle, comp, completed, final, emitted, rfl, rfl⟩
  rcases NetState.completeFlows_eq_ok kept.ledger.running_nodup completed with
    ⟨⟨linkFlows, loopbackFlows, whole⟩, compEq⟩
  rcases NetState.completeFlows_refs kept.ledger.running_nodup completed with ⟨_, same, _⟩
  rcases NetState.emitReadyFlows_refs emitted with ⟨_, retired, arena, nextRef, _⟩
  have sameFinal : NetState.SameFlows sim.state final :=
    same.trans ⟨nextRef, fun ref => by rw [arena]⟩
  refine ⟨sim.state.completing sim.ts tsInc, ⟨sameFinal, ?_, ?_⟩, ?_⟩
  · rw [retired, whole]
  · intro ref mem
    have idle : ref ∉ sim.state.runningFlows := kept.not_running mem
    simp [arena, whole, idle]
  · rw [compEq]
    apply List.map_congr_left
    intro ref mem
    rcases List.mem_filter.mp mem with ⟨running, completes⟩
    have ended : (final.arena ref).endTs = sim.ts + tsInc := by
      simp [arena, whole, running, endTs_stepFlow completes]
    simp only [completionOf, NetState.completionRecord, ended, sameFinal.ts_eq, sameFinal.flow_eq]

section Turns

variable {platform : Platform} {limit : Option Timestamp} {sim sim' filled : Simulator}

theorem converged_completes (run : sim.maxMinFairnessConverge platform = .ok filled) :
    Completes sim filled [] := by
  rcases maxMinFairnessConverge_eq_ok run with ⟨arena, rfl, core⟩
  exact completes_of_core core

/-- In a turn of the loop nothing completes. -/
theorem Turn.completes (represented : sim.Represented) (turn : Turn platform limit sim sim') :
    Completes sim sim' [] := by
  cases turn with
  | turn _ converge _ _ proceeded =>
      rcases proceed_completes (represented.converged converge).1 proceeded with
        ⟨done, completes, report⟩
      rw [List.map_eq_nil_iff.mp report.symm] at completes
      exact (converged_completes converge).trans completes

theorem turns_completes (represented : sim.Represented)
    (turns : Relation.ReflTransGen (Turn platform limit) sim sim') : Completes sim sim' [] := by
  induction turns with
  | refl => exact .refl sim
  | tail before last ih => exact ih.trans (last.completes (represented.turns before).1)

theorem Halt.completes {kind : AppEventKind} (represented : sim.Represented)
    (halt : Halt platform limit sim sim' kind) :
    ∃ done, Completes sim sim' done ∧ kind.completions = done.map sim'.completionOf := by
  cases halt with
  | limited _ => exact ⟨[], .refl sim, rfl⟩
  | idle _ => exact ⟨[], .refl sim, rfl⟩
  | fired _ converge _ _ _ _ =>
      have filling := converged_completes converge
      refine ⟨[], ⟨filling.same, filling.retired, filling.stays⟩, ?_⟩
      unfold notification
      split <;> rfl
  | completed _ converge _ _ proceeded _ =>
      rcases proceed_completes (represented.converged converge).1 proceeded with
        ⟨done, completes, report⟩
      exact ⟨done, (converged_completes converge).trans completes, report⟩

theorem maxMinFairness_completes {fuel : ℕ} {kind : AppEventKind} (represented : sim.Represented)
    (run : maxMinFairness platform limit fuel sim = .ok (sim', kind)) :
    ∃ done, Completes sim sim' done ∧ kind.completions = done.map sim'.completionOf := by
  rcases exists_turns_of_run run with ⟨last, turns, halt⟩
  rcases halt.completes (represented.turns turns).1 with ⟨done, completes, report⟩
  exact ⟨done, (turns_completes represented turns).trans completes, report⟩

end Turns

/-- A step retires the flows that it reports. -/
theorem runOneStep_completes {platform : Platform} {limit : Option Timestamp}
    {sim sim' : Simulator} {appEvent : AppEvent} (represented : sim.Represented)
    (run : sim.runOneStep platform limit = .ok (sim', appEvent)) :
    ∃ done, Completes sim sim' done ∧
      appEvent.event.completions = done.map sim'.completionOf := by
  simp only [runOneStep, bind_eq_ok, pure_eq_ok, Prod.exists, Prod.mk.injEq] at run
  rcases run with ⟨moved, kind, stepped, rfl, rfl⟩
  exact maxMinFairness_completes represented stepped

/-- A flow arrives that should have started before the microsecond in which one completed. -/
def TakesBack (sim : Simulator) (recs : List TraceRecord) : Prop :=
  ∃ record ∈ recs, ∃ ref ∈ sim.state.retiredFlows,
    record.ts < (sim.state.arena ref).endTs / 1000 * 1000

/-- Flows have arrived, and those of `revived` run again. -/
structure Arrives (sim sim' : Simulator) (recs : List TraceRecord) (revived : List FlowRef) :
    Prop where
  retired : sim.state.retiredFlows = revived ++ sim'.state.retiredFlows
  nextRef : sim.state.nextRef ≤ sim'.state.nextRef
  fresh : ∀ ref < sim.state.nextRef, (sim'.state.arena ref).fresh = (sim.state.arena ref).fresh
  stays : ∀ ref ∈ sim'.state.retiredFlows,
    (sim'.state.arena ref).endTs = (sim.state.arena ref).endTs
  takesBack : revived ≠ [] ↔ sim.TakesBack recs

theorem Arrives.completionOf_eq {sim sim' : Simulator} {recs : List TraceRecord}
    {revived : List FlowRef} (arrives : Arrives sim sim' recs revived) {ref : FlowRef}
    (lt : ref < sim.state.nextRef) (mem : ref ∈ sim'.state.retiredFlows) :
    sim'.completionOf ref = sim.completionOf ref := by
  have ts : (sim'.state.arena ref).ts = (sim.state.arena ref).ts := by
    simpa using congrArg FlowState.ts (arrives.fresh ref lt)
  have flow : (sim'.state.arena ref).flow = (sim.state.arena ref).flow := by
    simpa using congrArg FlowState.flow (arrives.fresh ref lt)
  simp only [completionOf, NetState.completionRecord, arrives.stays ref mem, ts, flow]

/-- What ended in the microsecond of an arrival or before is not taken back by a later arrival. -/
theorem not_late {first start ended : ℕ} (early : ended / 1000 ≤ first / 1000)
    (le : first ≤ start) : ¬start < ended / 1000 * 1000 := by
  omega

/-- The flows that are revived ended in a later microsecond. -/
theorem lt_of_revived {arena : Arena} {pastTs : Timestamp} {retired revived kept : List FlowRef}
    (run : NetState.reviveRetired arena pastTs retired = .ok (revived, kept)) :
    ∀ ref ∈ revived, pastTs < (arena ref).endTs / 1000 * 1000 := by
  induction retired generalizing revived kept with
  | nil =>
      simp only [NetState.reviveRetired, Except.ok.injEq, Prod.mk.injEq] at run
      simp [← run.1]
  | cons first rest ih =>
      simp only [NetState.reviveRetired, bind_eq_ok, assert_eq_ok, unwrap_eq_ok] at run
      rcases run with ⟨last, isLast, _, _, result⟩
      split at result
      · rename_i late
        simp only [bind_eq_ok, pure_eq_ok, Prod.exists, Prod.mk.injEq] at result
        rcases result with ⟨revived', kept', later, rfl, rfl⟩
        intro ref mem
        rcases List.mem_cons.mp mem with rfl | inRest
        · simpa [FlowState.endTs, isLast] using late
        · exact ih later ref inRest
      · simp only [pure_eq_ok, Prod.mk.injEq] at result
        simp [← result.1]

theorem revived_ne_nil {sim : Simulator} {recs : List TraceRecord} {pastTs : Timestamp}
    {revived kept : List FlowRef} (ordered : sim.state.Ordered sim.ts)
    (isMin : (recs.map TraceRecord.ts).min? = some pastTs)
    (run : NetState.reviveRetired sim.state.arena pastTs sim.state.retiredFlows =
      .ok (revived, kept)) : revived ≠ [] ↔ sim.TakesBack recs := by
  rw [List.min?_eq_some_iff] at isMin
  have split := NetState.reviveRetired_eq_ok run
  constructor
  · intro nonempty
    rcases List.exists_mem_of_ne_nil revived nonempty with ⟨ref, mem⟩
    rcases List.mem_map.mp isMin.1 with ⟨record, among, rfl⟩
    exact ⟨record, among, ref, split ▸ List.mem_append_left _ mem, lt_of_revived run ref mem⟩
  · rintro ⟨record, among, ref, mem, late⟩ none
    rw [none, List.nil_append] at split
    have early := NetState.reviveRetired_kept ordered.sorted run ref (split ▸ mem)
    exact not_late early (isMin.2 record.ts (List.mem_map_of_mem among)) late

theorem flowArrive_arrives {sim sim' : Simulator} {records recs : List TraceRecord}
    {result : OnEventResult} (represented : sim.Represented) (holds : sim.state.Holds records)
    (distinct : ((records ++ recs).map (·.flow.id)).Nodup)
    (run : sim.flowArrive recs = .ok (sim', result)) : ∃ revived,
    Arrives sim sim' recs revived := by
  simp only [flowArrive, bind_eq_ok, assert_eq_ok] at run
  rcases run with ⟨_, nonempty, state, added, run⟩
  have arrived := foldlM_prefix
    (P := fun done (state : NetState) => state.Kept sim.ts ∧ state.Holds (records ++ done) ∧
      state.retiredFlows = sim.state.retiredFlows ∧ sim.state.nextRef ≤ state.nextRef ∧
      ∀ ref < sim.state.nextRef, state.arena ref = sim.state.arena ref)
    ?step ⟨represented.kept, by simpa using holds, rfl, Nat.le_refl _, fun _ _ => rfl⟩ added
  case step =>
    rintro done record rest middle state' ⟨kept, holds, retired, nextRef, arena⟩ add whole
    have newId : ∀ ref < middle.nextRef, (middle.arena ref).flow.id ≠ record.flow.id := by
      apply holds.newId
      rw [List.append_assoc, whole]
      exact distinct
    rcases NetState.addFlow_refs kept.ledger newId add with ⟨_, nextRef', retired', old, _⟩
    refine ⟨NetState.addFlow_kept kept newId add, ?_, retired'.trans retired, ?_, ?_⟩
    · rw [← List.append_assoc]
      exact NetState.addFlow_holds kept.ledger holds newId add
    · rw [nextRef']
      exact Nat.le_succ_of_le nextRef
    · intro ref lt
      rw [old ref (Nat.lt_of_lt_of_le lt nextRef), arena ref lt]
  rcases arrived with ⟨kept, _, retired, nextRef, arena⟩
  have ends : ∀ ref ∈ sim.state.retiredFlows, state.arena ref = sim.state.arena ref :=
    fun ref mem => arena ref (represented.kept.ledger.retired_lt mem)
  have isMin : ∃ pastTs, (recs.map TraceRecord.ts).min? = some pastTs := by
    cases first : (recs.map TraceRecord.ts).min? with
    | none => exact absurd (List.map_eq_nil_iff.mp (List.min?_eq_none_iff.mp first)) nonempty
    | some pastTs => exact ⟨pastTs, rfl⟩
  rcases isMin with ⟨pastTs, isMin⟩
  have takesBack : ∀ revived kept', NetState.reviveRetired state.arena pastTs state.retiredFlows =
      .ok (revived, kept') → (revived ≠ [] ↔ sim.TakesBack recs) := by
    intro revived kept' revive
    have before : revived ≠ [] ↔ TakesBack { sim with state := state } recs :=
      revived_ne_nil kept.ordered isMin revive
    rw [before]
    simp only [TakesBack, retired]
    constructor
    · rintro ⟨record, among, ref, mem, late⟩
      exact ⟨record, among, ref, mem, ends ref mem ▸ late⟩
    · rintro ⟨record, among, ref, mem, late⟩
      exact ⟨record, among, ref, mem, (ends ref mem).symm ▸ late⟩
  rw [isMin, Option.getD_some] at run
  split at run
  · simp only [bind_eq_ok, pure_eq_ok, Prod.exists, Prod.mk.injEq] at run
    rcases run with ⟨state', revived, rolled, rfl, _⟩
    rcases NetState.rollbackTo_eq_ok kept.ledger rolled with ⟨_, same, split⟩
    rcases NetState.rollbackTo_retired kept.ledger rolled with ⟨revive, stays⟩
    refine ⟨revived, retired ▸ split, same.nextRef.symm ▸ nextRef, ?_, ?_, ?_⟩
    · intro ref lt
      rw [same.fresh, arena ref lt]
    · intro ref mem
      have old : ref ∈ sim.state.retiredFlows := by
        rw [← retired, split]
        exact List.mem_append_right _ mem
      rw [stays ref mem, ends ref old]
    · exact takesBack _ _ revive
  · rename_i inTime
    simp only [pure_eq_ok, Prod.mk.injEq] at run
    rcases run with ⟨rfl, rfl⟩
    refine ⟨[], retired.symm, nextRef, fun ref lt => by rw [arena ref lt], ?_, ?_⟩
    · intro ref mem
      rw [ends ref (retired ▸ mem)]
    · simp only [ne_eq, not_true_eq_false, false_iff]
      rintro ⟨record, among, ref, mem, late⟩
      have past := represented.kept.ordered.past ref mem
      have first := (List.min?_eq_some_iff.mp isMin).2 record.ts (List.mem_map_of_mem among)
      exact not_late (past.trans (micros_le inTime)) first late

end Simulator

namespace Playing

variable {α : Type} {platform : Platform} {app : Application α} {playing playing' : Playing α}

/-- All completions that the application has been told of. -/
def reports (playing : Playing α) : List TraceRecord :=
  playing.told.flatMap fun appEvent => appEvent.event.completions

/-- What the application has been told of one flow. -/
def reportsOf (playing : Playing α) (id : ℕ) : List TraceRecord :=
  playing.reports.filter fun report => report.flow.id = id

/-- The next event is an arrival that takes back a flow that has been reported. -/
def TakesBack (playing : Playing α) : Prop :=
  match playing.events with
  | .flowArrive recs :: _ => playing.sim.TakesBack recs
  | _ => False

/-- The network represents the flows that have arrived. -/
structure Sound (playing : Playing α) : Prop where
  represented : playing.sim.Represented
  holds : playing.sim.state.Holds playing.injected

/-- Identifiers that no two flows share. -/
def Distinct (playing : Playing α) : Prop :=
  (playing.injected.map fun record => record.flow.id).Nodup

theorem sound_start {state : α} {sim : Simulator} (initial : Simulator.Initial sim) :
    (start app state sim).Sound := by
  rcases initial with ⟨cluster, setting, hostMapping, rfl⟩
  exact ⟨Simulator.represented_build cluster setting hostMapping, rfl,
    fun _ lt => absurd lt (Nat.not_lt_zero _)⟩

theorem Next.distinct (taken : Next platform app playing playing') (distinct : playing'.Distinct) :
    playing.Distinct := by
  rcases next_eq_ok taken.2 with ⟨event, _, _, _, _, _, rfl⟩ | ⟨_, _, _, _, rfl⟩
  · rw [Distinct, List.map_append] at distinct
    exact (List.nodup_append.mp distinct).1
  · exact distinct

theorem Next.sound (taken : Next platform app playing playing') (sound : playing.Sound)
    (distinct : playing'.Distinct) : playing'.Sound := by
  rcases next_eq_ok taken.2 with ⟨event, _, sim, result, _, handled, rfl⟩ |
    ⟨sim, appEvent, _, stepped, rfl⟩
  · have step : Simulator.Step platform playing.sim (.onEvent event) sim := by
      simp [Simulator.Step, Simulator.perform, handled]
    rcases step.represented sound.represented sound.holds distinct with ⟨represented, holds⟩
    exact ⟨represented, holds⟩
  · have step : Simulator.Step platform playing.sim (.runOneStep none) sim := by
      simp [Simulator.Step, Simulator.perform, stepped]
    have same : playing.injected ++ (Simulator.Input.runOneStep none).records = playing.injected :=
      List.append_nil _
    rcases step.represented sound.represented sound.holds (same.symm ▸ distinct) with
      ⟨represented, holds⟩
    exact ⟨represented, same ▸ holds⟩

/-- An iteration tells of the flows that complete in it, or flows arrive in it. -/
theorem Next.moves (taken : Next platform app playing playing') (sound : playing.Sound)
    (distinct : playing'.Distinct) :
    (∃ recs revived, Simulator.Arrives playing.sim playing'.sim recs revived ∧
      (playing.TakesBack ↔ revived ≠ []) ∧ playing'.reports = playing.reports) ∨
    ∃ done, Simulator.Completes playing.sim playing'.sim done ∧ ¬playing.TakesBack ∧
      playing'.reports = playing.reports ++ done.map playing'.sim.completionOf := by
  rcases next_eq_ok taken.2 with ⟨event, events, sim, result, pending, handled, rfl⟩ |
    ⟨sim, appEvent, pending, stepped, rfl⟩
  · have nothing : ∀ {sim' : Simulator}, sim'.state = playing.sim.state →
        Simulator.Completes playing.sim sim' [] := by
      intro sim' same
      exact ⟨same ▸ .refl _, by rw [same]; rfl, fun ref _ => by rw [same]⟩
    cases event with
    | flowArrive recs =>
        left
        rcases Simulator.flowArrive_arrives sound.represented sound.holds distinct handled with
          ⟨revived, arrives⟩
        refine ⟨recs, revived, arrives, ?_, rfl⟩
        simp only [TakesBack, pending]
        exact arrives.takesBack.symm
    | appFinish =>
        right
        simp only [Simulator.onEvent, Except.ok.injEq, Prod.mk.injEq] at handled
        exact ⟨[], nothing (by rw [← handled.1]), by simp [TakesBack, pending], by simp [reports]⟩
    | adapterRegisterTimer after token timerId =>
        right
        simp only [Simulator.onEvent, Except.ok.injEq, Prod.mk.injEq] at handled
        refine ⟨[], nothing ?_, by simp [TakesBack, pending], by simp [reports]⟩
        rw [← handled.1]
        rfl
    | userRegisterTimer after token =>
        right
        simp only [Simulator.onEvent, Except.ok.injEq, Prod.mk.injEq] at handled
        refine ⟨[], nothing ?_, by simp [TakesBack, pending], by simp [reports]⟩
        rw [← handled.1]
        rfl
  · right
    rcases Simulator.runOneStep_completes sound.represented stepped with ⟨done, completes, report⟩
    refine ⟨done, completes, by simp [TakesBack, pending], ?_⟩
    simp [reports, report]

/-- The application has been told of the completed flows, in the order of their completion. -/
def Prompt (playing : Playing α) : Prop :=
  playing.reports = playing.sim.state.retiredFlows.reverse.map playing.sim.completionOf

/-- Of some flow the application has been told more often than the flow has completed. -/
def Overtold (playing : Playing α) : Prop :=
  ∃ ref < playing.sim.state.nextRef, playing.sim.state.retiredFlows.count ref <
    (playing.reportsOf (playing.sim.state.arena ref).flow.id).length

theorem count_le_reports (sim : Simulator) (ref : FlowRef) (done : List FlowRef) :
    done.count ref ≤ ((done.map sim.completionOf).filter fun report =>
      report.flow.id = (sim.state.arena ref).flow.id).length := by
  rw [← List.countP_eq_length_filter, List.countP_map, List.count_eq_countP]
  apply List.countP_mono_left
  intro other _ same
  have equal : other = ref := by simpa using same
  simp [equal, Simulator.completionOf, NetState.completionRecord]

/-- What has been told too often stays so. -/
theorem Next.overtold (taken : Next platform app playing playing') (sound : playing.Sound)
    (distinct : playing'.Distinct) (overtold : playing.Overtold) : playing'.Overtold := by
  rcases overtold with ⟨ref, lt, more⟩
  rcases taken.moves sound distinct with ⟨recs, revived, arrives, _, reports⟩ |
    ⟨done, completes, _, reports⟩
  · have flow : (playing'.sim.state.arena ref).flow = (playing.sim.state.arena ref).flow := by
      simpa using congrArg FlowState.flow (arrives.fresh ref lt)
    refine ⟨ref, Nat.lt_of_lt_of_le lt arrives.nextRef, ?_⟩
    rw [arrives.retired, List.count_append] at more
    rw [flow, reportsOf, reports]
    exact Nat.lt_of_le_of_lt (Nat.le_add_left _ _) more
  · refine ⟨ref, completes.same.nextRef.symm ▸ lt, ?_⟩
    have added := count_le_reports playing'.sim ref done
    rw [reportsOf, reports, List.filter_append, List.length_append, completes.retired,
      List.count_append, List.count_reverse, Nat.add_comm]
    rw [completes.same.flow_eq] at added ⊢
    exact Nat.add_lt_add_of_lt_of_le more added

/-- Without an arrival that takes back what has been reported, the reports stay prompt. -/
theorem Next.prompt (taken : Next platform app playing playing') (sound : playing.Sound)
    (distinct : playing'.Distinct) (gentle : ¬playing.TakesBack) (prompt : playing.Prompt) :
    playing'.Prompt := by
  have retired_lt : ∀ ref ∈ playing.sim.state.retiredFlows, ref < playing.sim.state.nextRef :=
    fun _ mem => sound.represented.kept.ledger.retired_lt mem
  unfold Prompt at prompt ⊢
  rcases taken.moves sound distinct with ⟨recs, revived, arrives, takesBack, reports⟩ |
    ⟨done, completes, _, reports⟩
  · have none : revived = [] := not_not.mp (mt takesBack.mpr gentle)
    have retired := arrives.retired
    rw [none, List.nil_append] at retired
    rw [reports, prompt, retired]
    apply List.map_congr_left
    intro ref mem
    have still := List.mem_reverse.mp mem
    exact (arrives.completionOf_eq (retired_lt ref (retired ▸ still)) still).symm
  · rw [reports, prompt, completes.retired, List.reverse_append, List.reverse_reverse,
      List.map_append]
    congr 1
    apply List.map_congr_left
    intro ref mem
    exact (completes.completionOf_eq (List.mem_reverse.mp mem)).symm

/-- An arrival that takes back what has been reported leaves a report too many. -/
theorem Next.overtold_of_takesBack (taken : Next platform app playing playing')
    (sound : playing.Sound) (distinct : playing'.Distinct) (takesBack : playing.TakesBack)
    (prompt : playing.Prompt) : playing'.Overtold := by
  rcases taken.moves sound distinct with ⟨recs, revived, arrives, revives, reports⟩ |
    ⟨_, _, gentle, _⟩
  · rcases List.exists_mem_of_ne_nil revived (revives.mp takesBack) with ⟨ref, mem⟩
    have ledger := sound.represented.kept.ledger
    have wasRetired : ref ∈ playing.sim.state.retiredFlows :=
      arrives.retired ▸ List.mem_append_left _ mem
    have lt := ledger.retired_lt wasRetired
    have flow : (playing'.sim.state.arena ref).flow = (playing.sim.state.arena ref).flow := by
      simpa using congrArg FlowState.flow (arrives.fresh ref lt)
    refine ⟨ref, Nat.lt_of_lt_of_le lt arrives.nextRef, ?_⟩
    have nodup : playing.sim.state.retiredFlows.Nodup := (List.nodup_append.mp ledger.nodup).2.1
    rw [arrives.retired, List.nodup_append] at nodup
    have gone : playing'.sim.state.retiredFlows.count ref = 0 :=
      List.count_eq_zero.mpr fun still => nodup.2.2 ref mem ref still rfl
    rw [gone, flow, reportsOf, reports, prompt]
    apply Nat.lt_of_lt_of_le _ (count_le_reports _ _ _)
    rw [List.count_reverse]
    exact List.count_pos_iff.mpr wasRetired
  · exact absurd takesBack gentle

/-- In a run without arrivals that take back what has been reported the reports are prompt. -/
theorem prompt_of_reached {state : α} {sim : Simulator} (initial : Simulator.Initial sim)
    (reached : Relation.ReflTransGen (fun playing playing' =>
      Next platform app playing playing' ∧ ¬playing.TakesBack) (start app state sim) playing)
    (distinct : playing.Distinct) : playing.Sound ∧ playing.Prompt := by
  induction reached with
  | refl =>
      refine ⟨sound_start initial, ?_⟩
      rcases initial with ⟨cluster, setting, hostMapping, rfl⟩
      rfl
  | tail _ taken ih =>
      rcases ih (taken.1.distinct distinct) with ⟨sound, prompt⟩
      exact ⟨taken.1.sound sound distinct, taken.1.prompt sound distinct taken.2 prompt⟩

/-- A run is without such arrivals, or it has left a report too many. -/
theorem gentle_or_overtold {state : α} {sim : Simulator} (initial : Simulator.Initial sim)
    (reached : Relation.ReflTransGen (Next platform app) (start app state sim) playing)
    (distinct : playing.Distinct) : playing.Sound ∧
      (Relation.ReflTransGen (fun playing playing' =>
        Next platform app playing playing' ∧ ¬playing.TakesBack) (start app state sim) playing ∨
      playing.Overtold) := by
  induction reached with
  | refl => exact ⟨sound_start initial, Or.inl .refl⟩
  | @tail middle last _ taken ih =>
      have before := taken.distinct distinct
      rcases ih before with ⟨sound, gentle | overtold⟩
      · refine ⟨taken.sound sound distinct, ?_⟩
        by_cases takesBack : middle.TakesBack
        · have prompt := (prompt_of_reached initial gentle before).2
          exact Or.inr (taken.overtold_of_takesBack sound distinct takesBack prompt)
        · exact Or.inl (gentle.tail ⟨taken, takesBack⟩)
      · exact ⟨taken.sound sound distinct, Or.inr (taken.overtold sound distinct overtold)⟩

/-- The reports of a flow are its completion if it has completed, and none as long as it has not;
when nothing is left to wait for, every flow has been reported. -/
structure HeardOnce (playing : Playing α) : Prop where
  once : ∀ record ∈ playing.injected, ∃ ref ∈ playing.sim.state.refs,
    ((playing.sim.state.arena ref).ts, (playing.sim.state.arena ref).flow.id) =
      (record.ts, record.flow.id) ∧
    playing.reportsOf record.flow.id =
      if ref ∈ playing.sim.state.retiredFlows then [playing.sim.completionOf ref] else []
  whole : playing.sim.idle = true → ∀ record ∈ playing.injected, ∃ dura,
    (playing.reportsOf record.flow.id).map (fun report => (report.ts, report.dura)) =
      [(record.ts, some dura)]

theorem Sound.exists_ref (sound : playing.Sound) {record : TraceRecord}
    (mem : record ∈ playing.injected) : ∃ ref < playing.sim.state.nextRef,
      ((playing.sim.state.arena ref).ts, (playing.sim.state.arena ref).flow.id) =
        (record.ts, record.flow.id) := by
  have held : (record.ts, record.flow.id) ∈
      playing.injected.map fun record => (record.ts, record.flow.id) :=
    List.mem_map_of_mem mem
  rw [← sound.holds.flows] at held
  rcases List.mem_map.mp held with ⟨ref, lt, same⟩
  exact ⟨ref, List.mem_range.mp lt, same⟩

theorem Sound.exists_record (sound : playing.Sound) {ref : FlowRef}
    (lt : ref < playing.sim.state.nextRef) : ∃ record ∈ playing.injected,
      (playing.sim.state.arena ref).flow.id = record.flow.id := by
  have held := List.mem_map_of_mem (f := fun ref =>
    ((playing.sim.state.arena ref).ts, (playing.sim.state.arena ref).flow.id))
    (List.mem_range.mpr lt)
  rw [sound.holds.flows] at held
  rcases List.mem_map.mp held with ⟨record, mem, same⟩
  exact ⟨record, mem, (congrArg Prod.snd same).symm⟩

theorem Prompt.reportsOf_eq (prompt : playing.Prompt) (sound : playing.Sound) {ref : FlowRef}
    (lt : ref < playing.sim.state.nextRef) :
    playing.reportsOf (playing.sim.state.arena ref).flow.id =
      if ref ∈ playing.sim.state.retiredFlows then [playing.sim.completionOf ref] else [] := by
  have ledger := sound.represented.kept.ledger
  have nodup : playing.sim.state.retiredFlows.Nodup := (List.nodup_append.mp ledger.nodup).2.1
  have alone : playing.sim.state.retiredFlows.reverse.filter (fun other =>
      decide ((playing.sim.completionOf other).flow.id = (playing.sim.state.arena ref).flow.id)) =
      playing.sim.state.retiredFlows.reverse.filter (· == ref) := by
    apply List.filter_congr
    intro other mem
    have otherLt := ledger.retired_lt (List.mem_reverse.mp mem)
    have same : (playing.sim.state.arena other).flow.id = (playing.sim.state.arena ref).flow.id ↔
        other = ref := ⟨ledger.ids otherLt lt, fun equal => by rw [equal]⟩
    simp only [Simulator.completionOf, NetState.completionRecord, same]
    rfl
  rw [reportsOf, prompt, List.filter_map]
  simp only [Function.comp_def, alone, List.filter_beq, List.count_reverse]
  split
  · rename_i mem
    rw [List.count_eq_one_of_mem nodup mem]
    rfl
  · rename_i absent
    rw [List.count_eq_zero.mpr absent]
    rfl

theorem Prompt.heardOnce (prompt : playing.Prompt) (sound : playing.Sound) :
    playing.HeardOnce := by
  have ledger := sound.represented.kept.ledger
  refine ⟨?_, ?_⟩
  · intro record mem
    rcases sound.exists_ref mem with ⟨ref, lt, same⟩
    have id : (playing.sim.state.arena ref).flow.id = record.flow.id := congrArg Prod.snd same
    refine ⟨ref, ledger.mem_refs.mpr lt, same, ?_⟩
    rw [← id]
    exact prompt.reportsOf_eq sound lt
  · intro idle record mem
    rcases sound.exists_ref mem with ⟨ref, lt, same⟩
    have retired : ref ∈ playing.sim.state.retiredFlows := by
      simp only [Simulator.idle, Bool.and_eq_true, List.isEmpty_iff] at idle
      have placed := ledger.mem_refs.mpr lt
      simpa [NetState.refs, NetState.buffered, idle.1.1, idle.1.2] using placed
    have id : (playing.sim.state.arena ref).flow.id = record.flow.id := congrArg Prod.snd same
    refine ⟨(playing.sim.state.arena ref).endTs - (playing.sim.state.arena ref).ts, ?_⟩
    rw [← id, prompt.reportsOf_eq sound lt, if_pos retired]
    simpa [Simulator.completionOf, NetState.completionRecord] using congrArg Prod.fst same

theorem Overtold.not_heardOnce (overtold : playing.Overtold) (sound : playing.Sound) :
    ¬playing.HeardOnce := by
  intro heard
  have ledger := sound.represented.kept.ledger
  rcases overtold with ⟨ref, lt, more⟩
  rcases sound.exists_record lt with ⟨record, mem, id⟩
  rcases heard.once record mem with ⟨other, placed, same, reports⟩
  have equal : other = ref :=
    ledger.ids (ledger.mem_refs.mp placed) lt ((congrArg Prod.snd same).trans id.symm)
  rw [id, reports, equal] at more
  split at more
  · rename_i retired
    exact absurd more (Nat.not_lt.mpr (List.count_pos_iff.mpr retired))
  · exact absurd more (Nat.not_lt_zero _)

/-- A transfer between the two hosts of the small cluster. -/
def transfer (id bytes : ℕ) : TraceRecord :=
  ⟨0, { id := id, bytes := bytes, src := "left", dst := "right" }, none⟩

/-- A timer makes a second flow start in the past, while the first one runs. -/
def timedReaction : Application ℕ where
  onEvent completed appEvent :=
    match appEvent.event with
    | .appStart => (completed, [.flowArrive [transfer 0 4000], .userRegisterTimer 2000 none])
    | .userNotification _ => (completed, [.flowArrive [transfer 1 2000]])
    | .flowComplete flows =>
        (completed + flows.length, if completed + flows.length = 2 then [.appFinish] else [])
    | .adapterNotification _ _ => (completed, [])

/-- The completion of a flow makes a second one start in the past. -/
def lateReaction : Application ℕ where
  onEvent completed appEvent :=
    match appEvent.event with
    | .appStart => (completed, [.flowArrive [transfer 0 2000]])
    | .flowComplete flows => (completed + flows.length,
        if completed + flows.length = 1 then [.flowArrive [transfer 1 2000]] else [.appFinish])
    | _ => (completed, [])

end Playing

end Phantora.Netsim
