import Phantora.Netsim.Ledger

/-!
# Arrivals and steps of the simulator

What the application sees of the simulator: an arrival adds one flow and may
take the last completions back, and one step adds completions. Both keep the
ledger and everything that the flows arrived with.
-/

namespace Phantora.Netsim

open Outcome

namespace NetState

/-- A flow with a new identifier is filed under the next reference. -/
theorem addFlow_refs {state state' : NetState} {record : TraceRecord} {cluster : Cluster}
    {simTs : Timestamp} {hostMapping : Option (String → Option String)} (ledger : state.Ledger)
    (newId : ∀ ref < state.nextRef, (state.arena ref).flow.id ≠ record.flow.id)
    (run : state.addFlow record cluster simTs hostMapping = .ok state') :
    state'.Ledger ∧ state'.nextRef = state.nextRef + 1 ∧
      state'.retiredFlows = state.retiredFlows ∧
      (∀ ref < state.nextRef, state'.arena ref = state.arena ref) ∧
      (state'.arena state.nextRef).ts = record.ts ∧
      (state'.arena state.nextRef).flow.id = record.flow.id ∧
      (state'.arena state.nextRef).flow.token = record.flow.token := by
  rcases addFlow_eq_ok run with ⟨src, dst, route, _, _, _, pushed⟩
  have old : ∀ ref < state.nextRef, ∀ f : FlowState,
      Function.update state.arena state.nextRef f ref = state.arena ref :=
    fun ref lt f => Function.update_of_ne (Nat.ne_of_lt lt) f state.arena
  have absent : ∀ other, (record.flow.id, other) ∉ state.flowBufs := by
    intro other mem
    have lt := ledger.buffered_lt (List.mem_map_of_mem (f := Prod.snd) mem)
    exact newId other lt (ledger.key mem)
  rcases pushFlow_refs (by simpa using absent) pushed with ⟨perm, retired, arena, nextRef, bufs⟩
  refine ⟨⟨?_, ?_, ?_⟩, nextRef, retired, ?_, by simp [arena], by simp [arena], by simp [arena]⟩
  · rw [nextRef, List.range_succ]
    exact perm.trans ((ledger.perm.cons _).trans (List.perm_append_singleton _ _).symm)
  · intro id ref mem
    rcases bufs mem with stays | ⟨rfl, rfl⟩
    · have lt := ledger.buffered_lt (List.mem_map_of_mem (f := Prod.snd) stays)
      rw [arena]
      exact (congrArg (fun f : FlowState => f.flow.id) (old ref lt _)).trans (ledger.key stays)
    · rw [arena]
  · intro left right leftLt rightLt equal
    rw [nextRef] at leftLt rightLt
    rw [arena] at equal
    dsimp only at leftLt rightLt equal
    rcases Nat.lt_succ_iff_lt_or_eq.mp leftLt with leftOld | rfl
    · rcases Nat.lt_succ_iff_lt_or_eq.mp rightLt with rightOld | rfl
      · rw [old left leftOld, old right rightOld] at equal
        exact ledger.ids leftOld rightOld equal
      · rw [old left leftOld, Function.update_self] at equal
        exact absurd equal (newId left leftOld)
    · rcases Nat.lt_succ_iff_lt_or_eq.mp rightLt with rightOld | rfl
      · rw [old right rightOld, Function.update_self] at equal
        exact absurd equal.symm (newId right rightOld)
      · rfl
  · intro ref lt
    rw [arena]
    exact old ref lt _

end NetState

namespace Simulator

/-- The simulator of an application that registers no timers. -/
structure Sound (sim : Simulator) : Prop where
  ledger : sim.state.Ledger
  noTimers : sim.timers = []

theorem sound_build (cluster : Cluster) (setting : SimulatorSetting)
    (hostMapping : Option (String → Option String)) :
    (build cluster setting hostMapping).Sound where
  ledger := {
    perm := List.Perm.refl _
    key := fun mem => absurd mem (PriorityQueue.not_mem_empty _)
    ids := fun lt => absurd lt (Nat.not_lt_zero _) }
  noTimers := rfl

/-- The flow of `record` has arrived under the next reference. -/
structure Arrived (sim sim' : Simulator) (record : TraceRecord) : Prop where
  sound : sim'.Sound
  nextRef : sim'.state.nextRef = sim.state.nextRef + 1
  fresh : ∀ ref < sim.state.nextRef,
    (sim'.state.arena ref).fresh = (sim.state.arena ref).fresh
  ts : (sim'.state.arena sim.state.nextRef).ts = record.ts
  id : (sim'.state.arena sim.state.nextRef).flow.id = record.flow.id
  token : (sim'.state.arena sim.state.nextRef).flow.token = record.flow.token

namespace Arrived

variable {sim sim' : Simulator} {record : TraceRecord}

theorem flow_eq (arrived : Arrived sim sim' record) {ref : FlowRef}
    (lt : ref < sim.state.nextRef) : (sim'.state.arena ref).flow = (sim.state.arena ref).flow := by
  simpa using congrArg FlowState.flow (arrived.fresh ref lt)

theorem ts_eq (arrived : Arrived sim sim' record) {ref : FlowRef}
    (lt : ref < sim.state.nextRef) : (sim'.state.arena ref).ts = (sim.state.arena ref).ts := by
  simpa using congrArg FlowState.ts (arrived.fresh ref lt)

end Arrived

/-- A report of a rolled-back flow. -/
def rollbackReport (sim : Simulator) (ref : FlowRef) : TraceRecord :=
  ⟨(sim.state.arena ref).ts, (sim.state.arena ref).flow, none⟩

/-- One flow arrives: in time, or late, which takes the last completions back. -/
theorem flowArrive_eq_ok {sim sim' : Simulator} {record : TraceRecord} {result : OnEventResult}
    (sound : sim.Sound)
    (newId : ∀ ref < sim.state.nextRef, (sim.state.arena ref).flow.id ≠ record.flow.id)
    (run : sim.onEvent (.flowArrive [record]) = .ok (sim', result)) :
    Arrived sim sim' record ∧
      ((sim.ts / 1000 * 1000 ≤ record.ts ∧ result = .ok ∧ sim'.ts = sim.ts ∧
        sim'.state.retiredFlows = sim.state.retiredFlows) ∨
      (record.ts < sim.ts / 1000 * 1000 ∧ sim'.ts = record.ts ∧ ∃ revived,
        sim.state.retiredFlows = revived ++ sim'.state.retiredFlows ∧
        result = .rollback (revived.map sim'.rollbackReport))) := by
  simp only [onEvent, flowArrive, bind_eq_ok, assert_eq_ok, List.foldlM_cons, List.foldlM_nil,
    pure_eq_ok, exists_eq_right] at run
  rcases run with ⟨_, _, state, added, result'⟩
  have minTs : (([record].map TraceRecord.ts).min?).getD sim.ts = record.ts := rfl
  rw [minTs] at result'
  rcases NetState.addFlow_refs sound.ledger newId added with
    ⟨ledger, nextRef, retired, arena, ts, id, token⟩
  split at result'
  · rename_i late
    simp only [bind_eq_ok, pure_eq_ok, Prod.exists, Prod.mk.injEq] at result'
    rcases result' with ⟨state', revived, rolled, rfl, rfl⟩
    rcases NetState.rollbackTo_eq_ok ledger rolled with ⟨ledger', same, split⟩
    refine ⟨⟨⟨ledger', sound.noTimers⟩, same.nextRef.trans nextRef, ?_, ?_, ?_, ?_⟩,
      Or.inr ⟨late, rfl, revived, ?_, rfl⟩⟩
    · intro ref lt
      rw [same.fresh, arena ref lt]
    · rw [same.ts_eq, ts]
    · rw [same.flow_eq, id]
    · rw [same.flow_eq, token]
    · rw [← retired, split]
  · rename_i inTime
    simp only [pure_eq_ok, Prod.mk.injEq] at result'
    rcases result' with ⟨rfl, rfl⟩
    refine ⟨⟨⟨ledger, sound.noTimers⟩, nextRef, fun ref lt => ?_, ts, id, token⟩,
      Or.inl ⟨not_lt.mp inTime, rfl, rfl, retired⟩⟩
    rw [arena ref lt]

/-- The simulator has moved on, and the flows of `done` have completed. -/
structure Moved (sim sim' : Simulator) (done : List FlowRef) : Prop where
  sound : sim'.Sound
  same : NetState.SameFlows sim.state sim'.state
  retired : sim'.state.retiredFlows = done.reverse ++ sim.state.retiredFlows

theorem maxMinFairnessConverge_eq_ok {platform : Platform} {sim sim' : Simulator}
    (run : sim.maxMinFairnessConverge platform = .ok sim') :
    ∃ arena : Arena, sim' = { sim with state := { sim.state with arena := arena } } ∧
      (∀ ref, (arena ref).core = (sim.state.arena ref).core) := by
  simp only [maxMinFairnessConverge, bind_eq_ok, pure_eq_ok] at run
  rcases run with ⟨arena, filled, rfl⟩
  refine ⟨arena, rfl, fun ref => ?_⟩
  rw [Filling.core_fillLoop filled]
  exact Arena.forEach_reading FlowState.core (Filling.core_resetFlow _) _ _ _

theorem sameFlows_of_core {state : NetState} {arena : Arena}
    (core : ∀ ref, (arena ref).core = (state.arena ref).core) :
    NetState.SameFlows state { state with arena := arena } :=
  ⟨rfl, fun ref => FlowState.fresh_eq_of_core_eq (core ref)⟩

theorem proceed_eq_ok {platform : Platform} {sim sim' : Simulator} {tsInc : Duration}
    {compFlows : List TraceRecord} (sound : sim.Sound)
    (run : sim.proceed platform tsInc = .ok (sim', compFlows)) :
    sim'.ts = sim.ts + tsInc ∧ ∃ done, Moved sim sim' done ∧
      compFlows = done.map fun ref => NetState.completionRecord sim'.ts (sim'.state.arena ref) := by
  simp only [proceed, bind_eq_ok, pure_eq_ok, Prod.exists, Prod.mk.injEq] at run
  rcases run with ⟨middle, comp, completed, final, emitted, rfl, rfl⟩
  rcases NetState.completeFlows_eq_ok sound.ledger.running_nodup completed with
    ⟨⟨linkFlows, loopbackFlows, middleEq⟩, compEq⟩
  rcases NetState.completeFlows_refs sound.ledger.running_nodup completed with ⟨perm, same, bufsEq⟩
  rcases NetState.emitReadyFlows_refs emitted with ⟨perm', retired, arena, nextRef, bufs⟩
  have sameFinal : NetState.SameFlows sim.state final :=
    same.trans ⟨nextRef, fun ref => by rw [arena]⟩
  refine ⟨rfl, sim.state.completing sim.ts tsInc, ⟨⟨?_, sound.noTimers⟩, sameFinal, ?_⟩, ?_⟩
  · refine sound.ledger.congr sameFinal (perm'.trans perm) fun mem => sound.ledger.key ?_
    rw [← bufsEq]
    exact bufs mem
  · rw [retired, middleEq]
  · rw [compEq]
    apply List.map_congr_left
    intro ref _
    simp only [NetState.completionRecord, sameFinal.ts_eq, sameFinal.flow_eq]

/-- One step of a simulator without timers reports the flows that it completes;
with nothing to report it has come to the limit or has nothing left to do. -/
theorem maxMinFairness_eq_ok {platform : Platform} {limit : Option Timestamp} {fuel : ℕ}
    {sim sim' : Simulator} {kind : AppEventKind} (sound : sim.Sound)
    (run : maxMinFairness platform limit fuel sim = .ok (sim', kind)) :
    ∃ done, Moved sim sim' done ∧ sim.ts ≤ sim'.ts ∧
      kind = .flowComplete (done.map fun ref =>
        NetState.completionRecord sim'.ts (sim'.state.arena ref)) ∧
      (done = [] → limit.any (· ≤ sim'.ts) = true ∨ sim'.idle = true) := by
  induction fuel generalizing sim with
  | zero => simp [maxMinFairness] at run
  | succ fuel ih =>
      have still : Moved sim sim [] := ⟨sound, NetState.SameFlows.refl _, rfl⟩
      simp only [maxMinFairness] at run
      split at run
      · rename_i limited
        simp only [Except.ok.injEq, Prod.mk.injEq] at run
        rcases run with ⟨rfl, rfl⟩
        exact ⟨[], still, le_refl _, rfl, fun _ => Or.inl limited⟩
      · split at run
        · rename_i idle
          simp only [Except.ok.injEq, Prod.mk.injEq] at run
          rcases run with ⟨rfl, rfl⟩
          exact ⟨[], still, le_refl _, rfl, fun _ => Or.inr idle⟩
        · simp only [bind_eq_ok] at run
          rcases run with ⟨filled, converge, times, _, next, _, run⟩
          rcases maxMinFairnessConverge_eq_ok converge with ⟨arena, rfl, core⟩
          have filledSame := sameFlows_of_core core
          have filledSound : Sound { sim with state := { sim.state with arena := arena } } :=
            ⟨sound.ledger.congr filledSame (List.Perm.refl _) sound.ledger.key, sound.noTimers⟩
          have noTimer : peekTimer platform
              { sim with state := { sim.state with arena := arena } } = none := by
            unfold peekTimer
            rw [List.argmin_eq_none]
            dsimp only
            rw [sound.noTimers]
            exact List.perm_nil.mp (platform.order_perm 1 [])
          rw [noTimer] at run
          simp only [bind_eq_ok, Prod.exists] at run
          rcases run with ⟨moved, comp, proceeded, run⟩
          rcases proceed_eq_ok filledSound proceeded with ⟨ts, done, step, compEq⟩
          have later : sim.ts ≤ moved.ts := ts ▸ Nat.le_add_right _ _
          split at run
          · rename_i nothing
            rcases ih step.sound run with ⟨done', step', after, kindEq, last⟩
            have noneDone : done = [] := by
              rw [nothing] at compEq
              exact List.map_eq_nil_iff.mp compEq.symm
            refine ⟨done', ⟨step'.sound, filledSame.trans (step.same.trans step'.same), ?_⟩,
              later.trans after, kindEq, last⟩
            rw [step'.retired, step.retired, noneDone]
            rfl
          · rename_i something
            simp only [pure_eq_ok, Prod.mk.injEq] at run
            rcases run with ⟨rfl, rfl⟩
            refine ⟨done, ⟨step.sound, filledSame.trans step.same, step.retired⟩, later,
              by rw [compEq], fun noneDone => ?_⟩
            rw [compEq, noneDone] at something
            exact absurd rfl something

theorem runOneStep_eq_ok {platform : Platform} {limit : Option Timestamp}
    {sim sim' : Simulator} {appEvent : AppEvent} (sound : sim.Sound)
    (run : sim.runOneStep platform limit = .ok (sim', appEvent)) :
    ∃ done, Moved sim sim' done ∧ sim.ts ≤ sim'.ts ∧
      appEvent = ⟨sim'.ts, .flowComplete (done.map fun ref =>
        NetState.completionRecord sim'.ts (sim'.state.arena ref))⟩ ∧
      (done = [] → limit.any (· ≤ sim'.ts) = true ∨ sim'.idle = true) := by
  simp only [runOneStep, bind_eq_ok, pure_eq_ok, Prod.exists, Prod.mk.injEq] at run
  rcases run with ⟨moved, kind, stepped, rfl, rfl⟩
  rcases maxMinFairness_eq_ok sound stepped with ⟨done, step, later, rfl, last⟩
  exact ⟨done, step, later, rfl, last⟩

/-- An idle simulator has retired every flow. -/
theorem Sound.retired_of_idle {sim : Simulator} (sound : sim.Sound) (idle : sim.idle = true)
    {ref : FlowRef} (lt : ref < sim.state.nextRef) : ref ∈ sim.state.retiredFlows := by
  simp only [Simulator.idle, Bool.and_eq_true, List.isEmpty_iff] at idle
  have mem := sound.ledger.mem_refs.mpr lt
  simpa [NetState.refs, NetState.buffered, idle.1.1, idle.1.2] using mem

end Simulator

end Phantora.Netsim
