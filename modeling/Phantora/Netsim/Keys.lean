import Phantora.Netsim.Members
import Phantora.Netsim.Steps

/-!
# What a completion says of its flow

A flow keeps its start time, its identifier and its token from its arrival to
its completion, which is reported when it has started, at the time at which it
ends.
-/

namespace Phantora.Netsim

open Outcome

/-- What the simulator changes in no record. -/
def TraceRecord.key (record : TraceRecord) : Timestamp × ℕ × Option Token :=
  (record.ts, record.flow.id, record.flow.token)

def FlowState.key (f : FlowState) : Timestamp × ℕ × Option Token :=
  (f.ts, f.flow.id, f.flow.token)

theorem FlowState.key_of_fresh {f g : FlowState} (same : f.fresh = g.fresh) : f.key = g.key := by
  have ts : f.ts = g.ts := by simpa using congrArg FlowState.ts same
  have flow : f.flow = g.flow := by simpa using congrArg FlowState.flow same
  simp only [FlowState.key, ts, flow]

namespace NetState

/-- The flows are those that have arrived, with their tokens. -/
def Keyed (state : NetState) (records : List TraceRecord) : Prop :=
  (List.range state.nextRef).map (fun ref => (state.arena ref).key) = records.map TraceRecord.key

theorem Keyed.congr {state state' : NetState} {records : List TraceRecord}
    (keyed : state.Keyed records) (same : SameFlows state state') : state'.Keyed records := by
  unfold Keyed at keyed ⊢
  rw [same.nextRef, ← keyed]
  exact List.map_congr_left fun ref _ => FlowState.key_of_fresh (same.fresh ref)

theorem addFlow_keyed {state state' : NetState} {record : TraceRecord} {cluster : Cluster}
    {simTs : Timestamp} {hostMapping : Option (String → Option String)}
    {records : List TraceRecord} (ledger : state.Ledger) (keyed : state.Keyed records)
    (newId : ∀ ref < state.nextRef, (state.arena ref).flow.id ≠ record.flow.id)
    (run : state.addFlow record cluster simTs hostMapping = .ok state') :
    state'.Keyed (records ++ [record]) := by
  rcases addFlow_refs ledger newId run with ⟨_, nextRef, _, old, ts, id, token⟩
  unfold Keyed at keyed ⊢
  rw [nextRef, List.range_succ, List.map_append, List.map_append, ← keyed]
  congr 1
  · apply List.map_congr_left
    intro ref mem
    rw [old ref (List.mem_range.mp mem)]
  · simp [FlowState.key, TraceRecord.key, ts, id, token]

/-- Every running flow has started. -/
def Begun (state : NetState) (ts : Timestamp) : Prop :=
  ∀ ref ∈ state.runningFlows, (state.arena ref).ts ≤ ts

theorem pushFlow_begun {state state' : NetState} {ref : FlowRef} {simTs : Timestamp}
    (begun : state.Begun simTs) (run : state.pushFlow ref simTs = .ok state') :
    state'.Begun simTs := by
  rcases pushFlow_eq_ok run with ⟨_, rfl⟩ | ⟨due, emitted⟩
  · exact begun
  · rcases emitFlow_eq_ok emitted with ⟨_, _, _, rfl⟩
    intro other mem
    rcases List.mem_append.mp mem with old | new
    · exact begun other old
    · exact List.mem_singleton.mp new ▸ due

theorem addFlow_begun {state state' : NetState} {record : TraceRecord} {cluster : Cluster}
    {simTs : Timestamp} {hostMapping : Option (String → Option String)} (ledger : state.Ledger)
    (begun : state.Begun simTs)
    (run : state.addFlow record cluster simTs hostMapping = .ok state') : state'.Begun simTs := by
  rcases addFlow_eq_ok run with ⟨_, _, _, _, _, _, pushed⟩
  refine pushFlow_begun ?_ pushed
  intro ref mem
  dsimp only
  rw [Function.update_of_ne (Nat.ne_of_lt (ledger.running_lt mem))]
  exact begun ref mem

/-- A rollback leaves those flows running that have started before. -/
theorem rollbackTo_begun {state state' : NetState} {simTs pastTs : Timestamp}
    {revived : List FlowRef} (run : state.rollbackTo simTs pastTs = .ok (state', revived)) :
    state'.Begun pastTs := by
  simp only [rollbackTo, bind_eq_ok, pure_eq_ok, Prod.exists, Prod.mk.injEq] at run
  rcases run with ⟨_, _, _, _, _, _, _, _, _, final, pushed, rfl, rfl⟩
  refine foldlM_invariant (fun state => state.Begun pastTs)
    (fun _ begun step => pushFlow_begun begun step) ?_ pushed
  intro ref mem
  exact Nat.le_of_lt (by simpa using (List.mem_filter.mp mem).2)

theorem emitReadyFlows_begun {platform : Platform} {simTs : Timestamp} {fuel : ℕ}
    {state state' : NetState} (begun : state.Begun simTs)
    (run : emitReadyFlows platform simTs fuel state = .ok state') : state'.Begun simTs := by
  rcases emitReadyFlows_refs run with ⟨_, _, arena, _, _⟩
  intro ref mem
  rw [arena]
  rcases (emitReadyFlows_starts run).1 ref mem with old | ⟨_, now⟩
  · exact begun ref old
  · exact Nat.le_of_eq now

end NetState

namespace Simulator

/-- The flows of `sim'` that have completed since `sim` end now, and have started. -/
structure Ends (sim sim' : Simulator) : Prop where
  begun : sim'.state.Begun sim'.ts
  ends : ∀ ref ∈ sim'.state.retiredFlows, ref ∉ sim.state.retiredFlows →
    (sim'.state.arena ref).endTs = sim'.ts ∧ (sim'.state.arena ref).ts ≤ sim'.ts

theorem proceed_ends {platform : Platform} {sim sim' : Simulator} {tsInc : Duration}
    {compFlows : List TraceRecord} (represented : sim.Represented)
    (begun : sim.state.Begun sim.ts)
    (run : sim.proceed platform tsInc = .ok (sim', compFlows)) : Ends sim sim' := by
  have kept := represented.kept
  simp only [proceed, bind_eq_ok, pure_eq_ok, Prod.exists, Prod.mk.injEq] at run
  rcases run with ⟨middle, comp, completed, final, emitted, rfl, rfl⟩
  rcases NetState.completeFlows_eq_ok kept.ledger.running_nodup completed with
    ⟨⟨linkFlows, loopbackFlows, whole⟩, _⟩
  rcases NetState.completeFlows_refs kept.ledger.running_nodup completed with ⟨_, same, _⟩
  rcases NetState.emitReadyFlows_refs emitted with ⟨_, retired, arena, _, _⟩
  have started : ∀ ref ∈ sim.state.runningFlows, (middle.arena ref).ts ≤ sim.ts + tsInc := by
    intro ref mem
    rw [same.ts_eq]
    exact (begun ref mem).trans (Nat.le_add_right _ _)
  refine ⟨NetState.emitReadyFlows_begun ?_ emitted, ?_⟩
  · intro ref mem
    rw [whole] at mem
    exact started ref (List.mem_of_mem_filter mem)
  · intro ref mem fresh
    dsimp only at mem ⊢
    rw [retired, whole, List.mem_append] at mem
    rcases List.mem_filter.mp (List.mem_reverse.mp (mem.resolve_right fresh)) with
      ⟨running, completes⟩
    rw [arena]
    refine ⟨?_, started ref running⟩
    simp [whole, running, endTs_stepFlow completes]

section Turns

variable {platform : Platform} {limit : Option Timestamp} {sim sim' filled : Simulator}

theorem converged_begun (begun : sim.state.Begun sim.ts)
    (run : sim.maxMinFairnessConverge platform = .ok filled) : filled.state.Begun filled.ts := by
  rcases maxMinFairnessConverge_eq_ok run with ⟨arena, rfl, core⟩
  intro ref mem
  have ts : (arena ref).ts = (sim.state.arena ref).ts := by
    simpa using congrArg FlowState.ts (core ref)
  dsimp only
  rw [ts]
  exact begun ref mem

theorem turns_begun (represented : sim.Represented) (begun : sim.state.Begun sim.ts)
    (turns : Relation.ReflTransGen (Turn platform limit) sim sim') :
    sim'.state.Begun sim'.ts := by
  induction turns with
  | refl => exact begun
  | tail before last ih =>
      have middle := (represented.turns before).1
      cases last with
      | turn _ converge _ _ proceeded =>
          exact (proceed_ends (middle.converged converge).1 (converged_begun ih converge)
            proceeded).begun

theorem Halt.ends {kind : AppEventKind} (represented : sim.Represented)
    (begun : sim.state.Begun sim.ts) (halt : Halt platform limit sim sim' kind) :
    Ends sim sim' := by
  cases halt with
  | limited _ => exact ⟨begun, fun _ mem fresh => absurd mem fresh⟩
  | idle _ => exact ⟨begun, fun _ mem fresh => absurd mem fresh⟩
  | @fired filled _ _ _ _ converge _ _ _ _ =>
      have retired : filled.state.retiredFlows = sim.state.retiredFlows :=
        (converged_completes converge).retired
      have isBegun : filled.state.Begun filled.ts := converged_begun begun converge
      exact ⟨isBegun, fun ref mem fresh => absurd (retired ▸ mem) fresh⟩
  | @completed filled _ _ _ _ _ converge _ _ proceeded _ =>
      have retired : filled.state.retiredFlows = sim.state.retiredFlows :=
        (converged_completes converge).retired
      have moved := proceed_ends (represented.converged converge).1
        (converged_begun begun converge) proceeded
      exact ⟨moved.begun, fun ref mem fresh => moved.ends ref mem (retired.symm ▸ fresh)⟩

end Turns

theorem runOneStep_ends {platform : Platform} {limit : Option Timestamp} {sim sim' : Simulator}
    {appEvent : AppEvent} (represented : sim.Represented) (begun : sim.state.Begun sim.ts)
    (run : sim.runOneStep platform limit = .ok (sim', appEvent)) : Ends sim sim' := by
  simp only [runOneStep, bind_eq_ok, pure_eq_ok, Prod.exists, Prod.mk.injEq] at run
  rcases run with ⟨moved, kind, stepped, rfl, rfl⟩
  rcases exists_turns_of_run stepped with ⟨last, turns, halt⟩
  have retired : last.state.retiredFlows = sim.state.retiredFlows :=
    (turns_completes represented turns).retired
  have ended := halt.ends (represented.turns turns).1 (turns_begun represented begun turns)
  exact ⟨ended.begun, fun ref mem fresh => ended.ends ref mem (retired.symm ▸ fresh)⟩

/-- Arrivals keep their tokens, and the time is that of one of them, or it stays. -/
theorem flowArrive_keyed {sim sim' : Simulator} {records recs : List TraceRecord}
    {result : OnEventResult} (represented : sim.Represented) (holds : sim.state.Holds records)
    (distinct : ((records ++ recs).map (·.flow.id)).Nodup) (keyed : sim.state.Keyed records)
    (begun : sim.state.Begun sim.ts) (run : sim.flowArrive recs = .ok (sim', result)) :
    sim'.state.Keyed (records ++ recs) ∧ sim'.state.Begun sim'.ts ∧ sim'.timers = sim.timers ∧
      (sim'.ts = sim.ts ∨
        ∃ record ∈ recs, sim'.ts = record.ts ∧ record.ts < sim.ts / 1000 * 1000) := by
  simp only [flowArrive, bind_eq_ok, assert_eq_ok] at run
  rcases run with ⟨_, nonempty, state, added, run⟩
  have arrived := foldlM_prefix
    (P := fun done (state : NetState) => state.Kept sim.ts ∧ state.Holds (records ++ done) ∧
      state.Keyed (records ++ done) ∧ state.Begun sim.ts)
    ?step ⟨represented.kept, by simpa using holds, by simpa using keyed, begun⟩ added
  case step =>
    rintro done record rest middle state' ⟨kept, holds, keyed, begun⟩ add whole
    have newId : ∀ ref < middle.nextRef, (middle.arena ref).flow.id ≠ record.flow.id := by
      apply holds.newId
      rw [List.append_assoc, whole]
      exact distinct
    refine ⟨NetState.addFlow_kept kept newId add, ?_, ?_,
      NetState.addFlow_begun kept.ledger begun add⟩
    · rw [← List.append_assoc]
      exact NetState.addFlow_holds kept.ledger holds newId add
    · rw [← List.append_assoc]
      exact NetState.addFlow_keyed kept.ledger keyed newId add
  rcases arrived with ⟨kept, _, keyed, begun⟩
  split at run
  · rename_i late
    simp only [bind_eq_ok, pure_eq_ok, Prod.exists, Prod.mk.injEq] at run
    rcases run with ⟨state', revived, rolled, rfl, _⟩
    refine ⟨keyed.congr (NetState.rollbackTo_eq_ok kept.ledger rolled).2.1,
      NetState.rollbackTo_begun rolled, rfl, Or.inr ?_⟩
    cases first : (recs.map TraceRecord.ts).min? with
    | none => exact absurd (List.map_eq_nil_iff.mp (List.min?_eq_none_iff.mp first)) nonempty
    | some pastTs =>
        rw [first, Option.getD_some] at late
        rcases List.mem_map.mp (List.min?_eq_some_iff.mp first).1 with ⟨record, mem, rfl⟩
        exact ⟨record, mem, rfl, late⟩
  · simp only [pure_eq_ok, Prod.mk.injEq] at run
    exact run.1 ▸ ⟨keyed, begun, rfl, Or.inl rfl⟩

end Simulator

end Phantora.Netsim
