import Phantora.Netsim.FluidArrivals

/-!
# Runs follow the fluid schedule

In every state that steps and arrivals lead to, in whatever order the flows
arrive and however often the network is rolled back, the network is where the
fluid schedule of all flows that have arrived is at that time. A rollback goes to
a whole microsecond, so that an arrival counts as timely when it does not fall
between the end of a flow and the microsecond in which the flow ended.
-/

namespace Phantora.Netsim

open Outcome Finset

namespace Simulator

variable {platform platform' : Platform} {base sim sim' : Simulator}
  {records recs : List TraceRecord} {ref : FlowRef} {record : TraceRecord}

/-- The earliest of the arrivals lies in the present, or in an earlier microsecond and not between
the end of a flow and the microsecond of that end. -/
def Timely (sim : Simulator) (recs : List TraceRecord) : Prop :=
  ∀ record ∈ recs, (∀ other ∈ recs, record.ts ≤ other.ts) → sim.ts ≤ record.ts ∨
    (record.ts < sim.ts / 1000 * 1000 ∧ ∀ ref ∈ sim.state.retiredFlows,
      (sim.state.arena ref).endTs / 1000 * 1000 ≤ record.ts →
        (sim.state.arena ref).endTs ≤ record.ts)

/-- Timely arrivals follow the load with the new flows. -/
theorem Flowing.arrive {result : OnEventResult} (flowing : base.Flowing sim records)
    (distinct : ((records ++ recs).map (·.flow.id)).Nodup) (timely : sim.Timely recs)
    (run : sim.flowArrive recs = .ok (sim', result)) : base.Flowing sim' (records ++ recs) := by
  have represented := flowArrive_represented flowing.represented flowing.holds distinct run
  have nodup : (records ++ recs).Nodup := List.Nodup.of_map _ distinct
  simp only [flowArrive, bind_eq_ok, assert_eq_ok] at run
  rcases run with ⟨_, nonempty, state, added, run⟩
  have arrived := foldlM_prefix
    (P := fun done (state : NetState) => state.Kept sim.ts ∧ state.Holds (records ++ done) ∧
      state.Begun sim.ts ∧ sim.Joins sim.state state done)
    ?step ⟨flowing.represented.kept, by simpa using flowing.holds, flowing.begun, .refl _ _⟩ added
  case step =>
    rintro done record rest middle state' ⟨kept, holds, begun, joins⟩ add whole
    have newId : ∀ ref < middle.nextRef, (middle.arena ref).flow.id ≠ record.flow.id := by
      apply holds.newId
      rw [List.append_assoc, whole]
      exact distinct
    refine ⟨NetState.addFlow_kept kept newId add, ?_,
      NetState.addFlow_begun kept.ledger begun add, joins.add add⟩
    rw [← List.append_assoc]
    exact NetState.addFlow_holds kept.ledger holds newId add
  rcases arrived with ⟨kept, _, begun, joins⟩
  have joined : base.Joined sim state records recs := ⟨kept, begun, joins⟩
  have carries := joined.carries flowing
  cases first : (recs.map TraceRecord.ts).min? with
  | none => exact absurd (List.map_eq_nil_iff.mp (List.min?_eq_none_iff.mp first)) nonempty
  | some minTs =>
      rcases List.min?_eq_some_iff.mp first with ⟨mem, least⟩
      rcases List.mem_map.mp mem with ⟨earliest, among, rfl⟩
      have later : ∀ record ∈ recs, earliest.ts ≤ record.ts :=
        fun record mem => least _ (List.mem_map_of_mem mem)
      rw [first, Option.getD_some] at run
      split at run
      · rename_i late
        simp only [bind_eq_ok, pure_eq_ok, Prod.exists, Prod.mk.injEq] at run
        rcases run with ⟨rolled, revived, rollback, rfl, _⟩
        have earlier : earliest.ts < sim.ts := late.trans_le (Nat.div_mul_le_self _ _)
        have inPast := (timely earliest among later).resolve_left (not_le.mpr earlier)
        have same := (NetState.rollbackTo_eq_ok kept.ledger rollback).2.1
        refine ⟨represented.1, NetState.rollbackTo_begun rollback, represented.2,
          carries.congr same ⟨rfl, rfl, rfl⟩, flowing.network.trans ⟨rfl, rfl, rfl⟩,
          flowing.timers, joined.late flowing nodup earlier later ?_ rollback⟩
        intro ref retired
        rw [joins.retired] at retired
        rw [joins.old ref (flowing.represented.kept.ledger.retired_lt retired)]
        intro early
        exact inPast.2 ref retired ((Nat.mul_le_mul_right 1000 early).trans
          (Nat.div_mul_le_self _ _))
      · rename_i onTime
        simp only [pure_eq_ok, Prod.mk.injEq] at run
        rcases run with ⟨rfl, _⟩
        have present : sim.ts ≤ earliest.ts := by
          rcases timely earliest among later with present | past
          · exact present
          · exact absurd past.1 onTime
        exact ⟨represented.1, begun, represented.2, carries, flowing.network.trans ⟨rfl, rfl, rfl⟩,
          flowing.timers, joined.inTime flowing nodup fun record mem =>
            present.trans (later record mem)⟩

/-- Steps, and arrivals that are timely. -/
inductive TimelyStep (platform : Platform) (sim : Simulator) : Input → Simulator → Prop where
  | arrive {recs : List TraceRecord} {sim' : Simulator} : sim.Timely recs →
      Step platform sim (.onEvent (.flowArrive recs)) sim' →
      TimelyStep platform sim (.onEvent (.flowArrive recs)) sim'
  | step {limit : Option Timestamp} {sim' : Simulator} :
      Step platform sim (.runOneStep limit) sim' → TimelyStep platform sim (.runOneStep limit) sim'

/-- A simulator to which nothing has happened follows the empty schedule. -/
theorem flowing_build (cluster : Cluster) (setting : SimulatorSetting)
    (hostMapping : Option (String → Option String)) :
    (build cluster setting hostMapping).Flowing (build cluster setting hostMapping) [] where
  represented := represented_build cluster setting hostMapping
  begun ref mem := absurd mem List.not_mem_nil
  holds := ⟨rfl, fun _ lt => absurd lt (Nat.not_lt_zero _)⟩
  carries := rfl
  network := .refl _
  timers := rfl
  follows := ⟨fun known => by simp at known, fun known => by simp at known,
    fun known => by simp at known, fun known => by simp at known⟩

theorem flowing_of_reached {cluster : Cluster} {setting : SimulatorSetting}
    {hostMapping : Option (String → Option String)} {inputs : List Input}
    (reached : Runs.Reached (· = build cluster setting hostMapping)
      (TimelyStep platform) inputs sim)
    (distinct : ((arrivals inputs).map (·.flow.id)).Nodup)
    (perFlow : setting.fairness = .perFlowMaxMin)
    (bandwidth : ∀ link, cluster.bandwidth link ≤ u64Max) :
    (build cluster setting hostMapping).Flowing sim (arrivals inputs) := by
  refine reached.invariant (fun inputs sim => ((arrivals inputs).map (·.flow.id)).Nodup →
    (build cluster setting hostMapping).Flowing sim (arrivals inputs)) ?_ ?_ distinct
  · rintro sim rfl _
    exact flowing_build cluster setting hostMapping
  · intro inputs sim input sim' ih step distinct
    simp only [arrivals, List.flatMap_append, List.flatMap_cons, List.flatMap_nil,
      List.append_nil] at distinct ih ⊢
    have before : ((inputs.flatMap Input.records).map (·.flow.id)).Nodup := by
      rw [List.map_append] at distinct
      exact (List.nodup_append.mp distinct).1
    have flowing := ih before
    cases step with
    | arrive timely step =>
        simp only [Step, perform, onEvent, map_eq_ok] at step
        rcases step with ⟨⟨moved, result⟩, run, rfl⟩
        exact flowing.arrive distinct timely run
    | step step =>
        simp only [Step, perform, runOneStep, map_eq_ok, bind_eq_ok, pure_eq_ok] at step
        rcases step with ⟨_, ⟨⟨moved, kind⟩, run, rfl⟩, rfl⟩
        have moved := flowing.maxMinFairness (List.Nodup.of_map _ before) perFlow bandwidth run
        exact (List.append_nil (inputs.flatMap Input.records)).symm ▸ moved

/-- The network is where the fluid schedule of the records is at the time of the simulator. -/
structure Realizes (base sim : Simulator) (records : List TraceRecord) : Prop where
  /-- Each flow that has arrived is buffered, running or retired, once. -/
  placed : sim.state.refs.Perm (List.range records.length)
  bears : ∀ {ref record}, records[ref]? = some record → sim.Bears (sim.state.arena ref) record
  buffered : ∀ {ref record}, records[ref]? = some record →
    (ref ∈ sim.state.buffered ↔ sim.ts < record.ts)
  /-- Only a flow without bytes may still run although it is complete, while it starts. -/
  retired : ∀ {ref record}, records[ref]? = some record →
    ¬(record.flow.bytes = 0 ∧ record.ts = sim.ts) → (ref ∈ sim.state.retiredFlows ↔
      ∃ time ≤ sim.ts, (base.fluid records).Finishes record time)
  ended : ∀ {ref record}, records[ref]? = some record → ref ∈ sim.state.retiredFlows →
    (base.fluid records).Finishes record (sim.state.arena ref).endTs
  /-- What a running flow has sent is the integral of its max-min rate. -/
  sent : ∀ {ref record}, records[ref]? = some record → ref ∈ sim.state.runningFlows →
    (sim.state.arena ref).bytesSent =
      ∑ t ∈ Ico record.ts sim.ts, (base.fluid records).rateAt t record

theorem Flowing.realizes (flowing : base.Flowing sim records) : base.Realizes sim records where
  placed := flowing.carries.count ▸ flowing.represented.kept.ledger.perm
  bears known := flowing.carries.bears known
  buffered known := flowing.buffered_iff known
  retired {ref record} known moves := by
    constructor
    · intro retired
      have ended := flowing.follows.rests known retired
      exact ⟨_, ended.2, ended.1⟩
    · rintro ⟨time, past, finishes⟩
      by_contra active
      rcases flowing.follows.runs known active (finishes.started.trans past) with lacks | stands
      · exact absurd (finishes.complete_of_le past) lacks.not_ge
      · exact moves stands
  ended known retired := (flowing.follows.rests known retired).1
  sent known running := by
    rw [(flowing.follows.sends known).sent]
    exact Fluid.Load.sent_eq_sum ((flowing.running_iff known).mp running).2

/-- Steps and timely arrivals, in whatever order, realize the fluid schedule of the flows that
have arrived. -/
theorem realizes_of_reached {cluster : Cluster} {setting : SimulatorSetting}
    {hostMapping : Option (String → Option String)} {inputs : List Input}
    (reached : Runs.Reached (· = build cluster setting hostMapping)
      (TimelyStep platform) inputs sim)
    (distinct : ((arrivals inputs).map (·.flow.id)).Nodup)
    (perFlow : setting.fairness = .perFlowMaxMin)
    (bandwidth : ∀ link, cluster.bandwidth link ≤ u64Max) :
    (build cluster setting hostMapping).Realizes sim (arrivals inputs) :=
  (flowing_of_reached reached distinct perFlow bandwidth).realizes

/-- The same records make the same load. -/
theorem fluid_eq_of_perm (base : Simulator) {records records' : List TraceRecord}
    (perm : records.Perm records') : base.fluid records' = base.fluid records := by
  rw [fluid, fluid, List.toFinset_eq_of_perm _ _ perm]

/-- The flow of the same record in two simulators at the same time. -/
structure Matches (sim sim' : Simulator) (record : TraceRecord) (ref ref' : FlowRef) : Prop where
  sent : (sim'.state.arena ref').bytesSent = (sim.state.arena ref).bytesSent
  buffered : ref' ∈ sim'.state.buffered ↔ ref ∈ sim.state.buffered
  retired : ¬(record.flow.bytes = 0 ∧ record.ts = sim.ts) →
    (ref' ∈ sim'.state.retiredFlows ↔ ref ∈ sim.state.retiredFlows)
  ended : ref ∈ sim.state.retiredFlows → ref' ∈ sim'.state.retiredFlows →
    (sim'.state.arena ref').endTs = (sim.state.arena ref).endTs

theorem Flowing.matches_ {records' : List TraceRecord} {ref' : FlowRef}
    (flowing : base.Flowing sim records) (flowing' : base.Flowing sim' records')
    (perm : records.Perm records') (now : sim'.ts = sim.ts) (known : records[ref]? = some record)
    (known' : records'[ref']? = some record) : Matches sim sim' record ref ref' := by
  have load := fluid_eq_of_perm base perm
  have realizes := flowing.realizes
  have realizes' := flowing'.realizes
  refine ⟨?_, ?_, fun moves => ?_, fun retired retired' => ?_⟩
  · rw [(flowing.follows.sends known).sent, (flowing'.follows.sends known').sent, load, now]
  · rw [realizes.buffered known, realizes'.buffered known', now]
  · rw [realizes.retired known moves, realizes'.retired known' (now.symm ▸ moves), load, now]
  · exact (load ▸ realizes'.ended known' retired').unique (realizes.ended known retired)

/-- Where the network is at a time depends neither on the order in which the same flows arrive nor
on the steps and rollbacks in between, nor on the order in which a platform keeps the flows. -/
theorem matches_of_reached {cluster : Cluster} {setting : SimulatorSetting}
    {hostMapping : Option (String → Option String)} {inputs inputs' : List Input} {ref' : FlowRef}
    (reached : Runs.Reached (· = build cluster setting hostMapping)
      (TimelyStep platform) inputs sim)
    (reached' : Runs.Reached (· = build cluster setting hostMapping) (TimelyStep platform')
      inputs' sim')
    (perm : (arrivals inputs).Perm (arrivals inputs')) (now : sim'.ts = sim.ts)
    (distinct : ((arrivals inputs).map (·.flow.id)).Nodup)
    (perFlow : setting.fairness = .perFlowMaxMin)
    (bandwidth : ∀ link, cluster.bandwidth link ≤ u64Max)
    (known : (arrivals inputs)[ref]? = some record)
    (known' : (arrivals inputs')[ref']? = some record) : Matches sim sim' record ref ref' := by
  have distinct' : ((arrivals inputs').map (·.flow.id)).Nodup :=
    (perm.map (·.flow.id)).nodup_iff.mp distinct
  exact (flowing_of_reached reached distinct perFlow bandwidth).matches_
    (flowing_of_reached reached' distinct' perFlow bandwidth) perm now known known'

theorem bandwidth_le_of_pair (link : LinkIx) : Cluster.pair.bandwidth link ≤ u64Max :=
  (Nat.le_of_lt (bandwidth_lt_of_pair rfl link)).trans (by decide)

/-- A late flow takes the completion of the first one back, and both complete together. -/
theorem reached_lateArrival : ∃ sim,
    Runs.Reached (· = build .pair {} none) (TimelyStep (.inOrder 20))
      (lateArrival ++ [.runOneStep none]) sim ∧
      (sim.ts, sim.state.retiredFlows) = (4000, [0, 1]) := by
  have read : (do
      let first ← perform (.inOrder 20) (build .pair {} none) lateArrival[0]
      let second ← perform (.inOrder 20) first lateArrival[1]
      let third ← perform (.inOrder 20) second lateArrival[2]
      let last ← perform (.inOrder 20) third (.runOneStep none)
      return (first, second, third, last)).toOption.map
        (fun sims : Simulator × Simulator × Simulator × Simulator =>
          (sims.2.1.ts, sims.2.1.state.retiredFlows.map fun ref =>
            (sims.2.1.state.arena ref).endTs, sims.2.2.2.ts, sims.2.2.2.state.retiredFlows)) =
        some (2000, [2000], 4000, [0, 1]) := by
    decide +kernel
  rcases exists_ok_of_reading read with ⟨result, run, reading⟩
  simp only [bind_eq_ok, pure_eq_ok] at run
  rcases run with ⟨first, arrive, second, step, third, late, last, step', rfl⟩
  simp only [Prod.mk.injEq] at reading
  rcases reading with ⟨ts, ends, now, retired⟩
  have timely : second.Timely
      [⟨0, { id := 1, bytes := 2000, src := "left", dst := "right" }, none⟩] := by
    intro record mem _
    rw [List.mem_singleton.mp mem]
    refine .inr ⟨by rw [ts]; decide, fun ref mem early => ?_⟩
    have isEnd := List.mem_map_of_mem (f := fun ref => (second.state.arena ref).endTs) mem
    rw [ends, List.mem_singleton] at isEnd
    rw [isEnd] at early
    exact absurd early (by decide)
  refine ⟨last, ?_, by rw [now, retired]⟩
  have begins : (build .pair {} none).Timely
      [⟨0, { id := 0, bytes := 2000, src := "left", dst := "right" }, none⟩] :=
    fun _ _ _ => .inl (Nat.zero_le _)
  have start : Runs.Reached (· = build .pair {} none) (TimelyStep (.inOrder 20)) [] _ := .start rfl
  have reached := (start.step (TimelyStep.arrive begins arrive)).step (TimelyStep.step step)
  exact (reached.step (TimelyStep.arrive timely late)).step (TimelyStep.step step')

theorem realizes_lateArrival : ∃ sim,
    sim.state.retiredFlows = [0, 1] ∧
      (build .pair {} none).Realizes sim (arrivals (lateArrival ++ [.runOneStep none])) := by
  rcases reached_lateArrival with ⟨sim, reached, reading⟩
  exact ⟨sim, congrArg Prod.snd reading,
    realizes_of_reached reached (by decide) rfl bandwidth_le_of_pair⟩

/-- The same flows, known from the start and in the other order. -/
def upFront : List Input :=
  [.onEvent (.flowArrive [⟨0, { id := 1, bytes := 2000, src := "left", dst := "right" }, none⟩,
    ⟨0, { id := 0, bytes := 2000, src := "left", dst := "right" }, none⟩]), .runOneStep none]

theorem matches_upFront : ∃ sim sim',
    sim.state.retiredFlows = [0, 1] ∧ sim'.state.retiredFlows = [1, 0] ∧
      Matches sim sim' ⟨0, { id := 0, bytes := 2000, src := "left", dst := "right" }, none⟩
        0 1 := by
  rcases reached_lateArrival with ⟨sim, reached, reading⟩
  have read : (upFront.foldlM (perform (.inOrder 20)) (build .pair {} none)).toOption.map
      (fun sim => (sim.ts, sim.state.retiredFlows)) = some (4000, [1, 0]) := by
    decide +kernel
  rcases exists_ok_of_reading read with ⟨sim', run, reading'⟩
  simp only [upFront, List.foldlM_cons, List.foldlM_nil, bind_eq_ok, pure_eq_ok] at run
  rcases run with ⟨arrived, arrive, moved, step, rfl⟩
  have begins : ∀ recs, (build .pair {} none).Timely recs := fun _ _ _ _ => .inl (Nat.zero_le _)
  have start : Runs.Reached (· = build .pair {} none) (TimelyStep (.inOrder 20)) [] _ := .start rfl
  have reached' := (start.step (TimelyStep.arrive (begins _) arrive)).step (TimelyStep.step step)
  have now := (congrArg Prod.fst reading').trans (congrArg Prod.fst reading).symm
  exact ⟨sim, _, congrArg Prod.snd reading, congrArg Prod.snd reading',
    matches_of_reached reached reached' (List.Perm.swap _ _ _) now (by decide) rfl
      bandwidth_le_of_pair rfl rfl⟩

end Simulator

end Phantora.Netsim
