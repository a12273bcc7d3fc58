import Phantora.Lib.Runs
import Phantora.Netsim.Index

/-!
# The representation invariant of the network state

In every state that arrivals, timers and steps lead to, each flow that has
arrived has one place, the index agrees with the running flows, what is
buffered lies in the future, and the retired flows are sorted by the
microsecond in which they ended.
-/

namespace Phantora.Netsim

open Outcome

/-- The time at which a flow ended: the last entry of its speed history says when it stopped. -/
def FlowState.endTs (f : FlowState) : Timestamp :=
  (f.speedHistory.head?.map SpeedHistoryEntry.start).getD 0

/-- What does not lie in a later microsecond. -/
theorem micros_le {left right : ℕ} (early : ¬right < left / 1000 * 1000) :
    left / 1000 ≤ right / 1000 := by
  omega

namespace NetState

/-- Every buffered flow starts later than `ts`. -/
def Ahead (state : NetState) (ts : Timestamp) : Prop :=
  ∀ entry ∈ state.flowBufs, ts < (state.arena entry.2).ts

/-- The retired flows have stopped, in the order in which they are listed. -/
structure Ordered (state : NetState) (ts : Timestamp) : Prop where
  stopped : ∀ ref ∈ state.retiredFlows,
    (state.arena ref).speedHistory.head? = some ⟨(state.arena ref).endTs, 0⟩
  sorted : state.retiredFlows.Pairwise fun later earlier =>
    (state.arena earlier).endTs / 1000 ≤ (state.arena later).endTs / 1000
  past : ∀ ref ∈ state.retiredFlows, (state.arena ref).endTs / 1000 ≤ ts / 1000

/-- The order depends on the speed histories of the retired flows. -/
theorem Ordered.congr {state state' : NetState} {ts : Timestamp} (ordered : state.Ordered ts)
    (retired : state'.retiredFlows = state.retiredFlows)
    (histories : ∀ ref ∈ state.retiredFlows,
      (state'.arena ref).speedHistory = (state.arena ref).speedHistory) :
    state'.Ordered ts := by
  have ends : ∀ ref ∈ state.retiredFlows, (state'.arena ref).endTs = (state.arena ref).endTs :=
    fun ref mem => by rw [FlowState.endTs, FlowState.endTs, histories ref mem]
  refine ⟨?_, ?_, ?_⟩
  · intro ref mem
    rw [retired] at mem
    rw [histories ref mem, ends ref mem]
    exact ordered.stopped ref mem
  · rw [retired]
    refine ordered.sorted.imp_of_mem ?_
    intro later earlier laterMem earlierMem sorted
    rw [ends _ laterMem, ends _ earlierMem]
    exact sorted
  · intro ref mem
    rw [retired] at mem
    rw [ends ref mem]
    exact ordered.past ref mem

theorem pushFlow_arena {state state' : NetState} {ref : FlowRef} {simTs : Timestamp}
    (run : state.pushFlow ref simTs = .ok state') : state'.arena = state.arena := by
  rcases pushFlow_eq_ok run with ⟨_, rfl⟩ | ⟨_, emitted⟩
  · rfl
  · rcases emitFlow_eq_ok emitted with ⟨_, _, _, rfl⟩
    rfl

theorem pushFlow_ahead {state state' : NetState} {ref : FlowRef} {simTs : Timestamp}
    (ahead : state.Ahead simTs) (run : state.pushFlow ref simTs = .ok state') :
    state'.Ahead simTs := by
  rintro ⟨id, other⟩ mem
  rw [pushFlow_arena run]
  rcases pushFlow_eq_ok run with ⟨later, rfl⟩ | ⟨_, emitted⟩
  · rcases PriorityQueue.mem_push.mp mem with ⟨_, rfl⟩ | ⟨_, old⟩
    · exact later
    · exact ahead _ old
  · rcases emitFlow_eq_ok emitted with ⟨_, _, _, rfl⟩
    exact ahead _ mem

/-- What the simulator relies on at the time `ts`. -/
structure Kept (state : NetState) (ts : Timestamp) : Prop where
  ledger : state.Ledger
  indexed : state.Indexed
  ahead : state.Ahead ts
  ordered : state.Ordered ts

theorem Kept.not_running {state : NetState} {ts : Timestamp} (kept : state.Kept ts) {ref : FlowRef}
    (retired : ref ∈ state.retiredFlows) : ref ∉ state.runningFlows := by
  have nodup := kept.ledger.nodup
  rw [refs, List.append_assoc] at nodup
  intro running
  exact (List.nodup_append.mp (List.nodup_append.mp nodup).2.1).2.2 ref running ref retired rfl

/-- New rates change nothing that the simulator relies on. -/
theorem Kept.of_core {state : NetState} {ts : Timestamp} {arena : Arena} (kept : state.Kept ts)
    (core : ∀ ref, (arena ref).core = (state.arena ref).core) :
    Kept { state with arena := arena } ts where
  ledger := kept.ledger.congr ⟨rfl, fun ref => FlowState.fresh_eq_of_core_eq (core ref)⟩
    (List.Perm.refl _) kept.ledger.key
  indexed := kept.indexed.congr rfl rfl rfl rfl
    fun ref _ => by simpa using congrArg FlowState.route (core ref)
  ahead := by
    rintro ⟨id, ref⟩ mem
    have same : (arena ref).ts = (state.arena ref).ts := by
      simpa using congrArg FlowState.ts (core ref)
    dsimp only
    rw [same]
    exact kept.ahead _ mem
  ordered := kept.ordered.congr rfl
    fun ref _ => by simpa using congrArg FlowState.speedHistory (core ref)

theorem addFlow_kept {state state' : NetState} {record : TraceRecord} {cluster : Cluster}
    {simTs : Timestamp} {hostMapping : Option (String → Option String)} (kept : state.Kept simTs)
    (newId : ∀ ref < state.nextRef, (state.arena ref).flow.id ≠ record.flow.id)
    (run : state.addFlow record cluster simTs hostMapping = .ok state') : state'.Kept simTs := by
  rcases addFlow_refs kept.ledger newId run with ⟨ledger, _, retired, arena, _⟩
  rcases addFlow_eq_ok run with ⟨src, dst, route, _, _, _, pushed⟩
  have old : ∀ ref < state.nextRef, ∀ f : FlowState,
      Function.update state.arena state.nextRef f ref = state.arena ref :=
    fun ref lt f => Function.update_of_ne (Nat.ne_of_lt lt) f state.arena
  refine ⟨ledger, ?_, ?_, ?_⟩
  · refine pushFlow_indexed ?_ ?_ pushed
    · refine kept.indexed.congr rfl rfl rfl rfl fun ref mem => ?_
      dsimp only
      rw [old ref (kept.ledger.running_lt mem)]
    · exact fun mem => Nat.lt_irrefl _ (kept.ledger.running_lt mem)
  · refine pushFlow_ahead ?_ pushed
    rintro ⟨id, ref⟩ mem
    have lt := kept.ledger.buffered_lt (List.mem_map_of_mem (f := Prod.snd) mem)
    dsimp only
    rw [old ref lt]
    exact kept.ahead _ mem
  · refine kept.ordered.congr retired fun ref mem => ?_
    rw [arena ref (kept.ledger.retired_lt mem)]

theorem revertFlows_of_not_mem {simTs pastTs : Timestamp} {running : List FlowRef}
    {arena arena' : Arena} (run : running.foldlM (fun arena ref => do
      let f ← revertFlow simTs pastTs (arena ref)
      return Function.update arena ref f) arena = .ok arena') {ref : FlowRef}
    (idle : ref ∉ running) : arena' ref = arena ref := by
  refine foldlM_invariant (fun arena' : Arena => arena' ref = arena ref) ?_ rfl run
  intro middle other arena'' mem same step
  simp only [bind_eq_ok, pure_eq_ok] at step
  rcases step with ⟨f, _, rfl⟩
  have differs : ref ≠ other := fun equal => idle (equal ▸ mem)
  rw [Function.update_of_ne differs, same]

/-- The retired flows that stay retired ended no later than the microsecond rolled back to. -/
theorem reviveRetired_kept {arena : Arena} {pastTs : Timestamp}
    {retired revived kept : List FlowRef}
    (sorted : retired.Pairwise fun later earlier =>
      (arena earlier).endTs / 1000 ≤ (arena later).endTs / 1000)
    (run : reviveRetired arena pastTs retired = .ok (revived, kept)) :
    ∀ ref ∈ kept, (arena ref).endTs / 1000 ≤ pastTs / 1000 := by
  induction retired generalizing revived kept with
  | nil =>
      simp only [reviveRetired, Except.ok.injEq, Prod.mk.injEq] at run
      simp [← run.2]
  | cons first rest ih =>
      rw [List.pairwise_cons] at sorted
      simp only [reviveRetired, bind_eq_ok, assert_eq_ok, unwrap_eq_ok] at run
      rcases run with ⟨last, isLast, _, _, result⟩
      have ended : (arena first).endTs = last.start := by simp [FlowState.endTs, isLast]
      split at result
      · simp only [bind_eq_ok, pure_eq_ok, Prod.exists, Prod.mk.injEq] at result
        rcases result with ⟨revived', kept', later, rfl, rfl⟩
        exact ih sorted.2 later
      · rename_i early
        simp only [pure_eq_ok, Prod.mk.injEq] at result
        rcases result with ⟨_, rfl⟩
        have firstEarly : (arena first).endTs / 1000 ≤ pastTs / 1000 := by
          rw [ended]
          exact micros_le early
        intro ref mem
        rcases List.mem_cons.mp mem with rfl | inRest
        · exact firstEarly
        · exact (sorted.1 ref inRest).trans firstEarly

/-- What stays retired is untouched. -/
theorem rollbackTo_retired {state state' : NetState} {simTs pastTs : Timestamp}
    {revived : List FlowRef} (ledger : state.Ledger)
    (run : state.rollbackTo simTs pastTs = .ok (state', revived)) :
    reviveRetired state.arena pastTs state.retiredFlows = .ok (revived, state'.retiredFlows) ∧
      ∀ ref ∈ state'.retiredFlows, state'.arena ref = state.arena ref := by
  simp only [rollbackTo, bind_eq_ok, pure_eq_ok, Prod.exists, Prod.mk.injEq] at run
  rcases run with ⟨toRunning, retired, revive, middle, emitted, arena, reverted, linkFlows, links,
    final, pushed, rfl, rfl⟩
  rcases emitFlows_eq_ok emitted with ⟨_, _, rfl⟩
  dsimp only at reverted pushed
  have unchanged : final.arena = arena ∧ final.retiredFlows = retired := by
    refine foldlM_invariant (fun state => state.arena = arena ∧ state.retiredFlows = retired)
      ?_ ⟨rfl, rfl⟩ pushed
    intro middle ref next _ same step
    rcases pushFlow_eq_ok step with ⟨_, rfl⟩ | ⟨_, emitted⟩
    · exact same
    · rcases emitFlow_eq_ok emitted with ⟨_, _, _, rfl⟩
      exact same
  have nodup := ledger.nodup
  rw [refs, reviveRetired_eq_ok revive, List.append_assoc] at nodup
  have distinct := (List.nodup_append.mp nodup).2.1
  rw [← List.append_assoc] at distinct
  refine ⟨unchanged.2.symm ▸ revive, fun ref mem => ?_⟩
  rw [unchanged.2] at mem
  rw [unchanged.1]
  refine revertFlows_of_not_mem reverted ?_
  intro running
  exact (List.nodup_append.mp distinct).2.2 ref running ref mem rfl

theorem rollbackTo_kept {state state' : NetState} {simTs pastTs : Timestamp}
    {revived : List FlowRef} (kept : state.Kept simTs) (earlier : pastTs ≤ simTs)
    (run : state.rollbackTo simTs pastTs = .ok (state', revived)) : state'.Kept pastTs := by
  refine ⟨(rollbackTo_eq_ok kept.ledger run).1,
    rollbackTo_indexed kept.indexed kept.ledger.nodup run, ?_, ?_⟩
  · simp only [rollbackTo, bind_eq_ok, pure_eq_ok, Prod.exists, Prod.mk.injEq] at run
    rcases run with ⟨toRunning, retired, revive, middle, emitted, arena, reverted, linkFlows, links,
      final, pushed, rfl, rfl⟩
    rcases emitFlows_eq_ok emitted with ⟨_, _, rfl⟩
    dsimp only at reverted pushed
    refine foldlM_invariant (fun state => state.Ahead pastTs)
      (fun _ ahead step => pushFlow_ahead ahead step) ?_ pushed
    rintro ⟨id, ref⟩ mem
    have same : (arena ref).ts = (state.arena ref).ts := by
      simpa using congrArg FlowState.ts (fresh_revertFlows reverted ref)
    dsimp only
    rw [same]
    exact Nat.lt_of_le_of_lt earlier (kept.ahead _ mem)
  · rcases rollbackTo_retired kept.ledger run with ⟨revive, stays⟩
    have split := reviveRetired_eq_ok revive
    have before : Ordered { state with retiredFlows := state'.retiredFlows } pastTs := by
      refine ⟨?_, ?_, ?_⟩
      · exact fun ref mem => kept.ordered.stopped ref (split ▸ List.mem_append_right _ mem)
      · have sorted := kept.ordered.sorted
        rw [split] at sorted
        exact (List.pairwise_append.mp sorted).2.1
      · exact reviveRetired_kept kept.ordered.sorted revive
    refine before.congr rfl fun ref mem => ?_
    exact congrArg FlowState.speedHistory (stays ref mem)

theorem emitReadyFlows_ahead {platform : Platform} {simTs : Timestamp} {fuel : ℕ}
    {state state' : NetState} (run : emitReadyFlows platform simTs fuel state = .ok state') :
    state'.Ahead simTs := by
  induction fuel generalizing state with
  | zero => simp [emitReadyFlows] at run
  | succ fuel ih =>
      simp only [emitReadyFlows] at run
      split at run
      · rename_i empty
        simp only [Except.ok.injEq] at run
        subst run
        rw [PriorityQueue.peek_eq_none (platform.order_perm 0 _)] at empty
        exact fun entry mem => absurd mem (empty entry)
      · rename_i id ref first
        split at run
        · rename_i later
          simp only [Except.ok.injEq] at run
          subst run
          intro entry mem
          exact Nat.lt_of_lt_of_le later
            (PriorityQueue.key_le_of_peek (platform.order_perm 0 _) first mem)
        · simp only [bind_eq_ok, assert_eq_ok] at run
          rcases run with ⟨_, _, middle, _, rest⟩
          exact ih rest

/-- A buffered flow is taken out and started. -/
theorem emitReady_indexed {state state' : NetState} {id : ℕ} {ref : FlowRef}
    (indexed : state.Indexed) (nodup : state.refs.Nodup) (mem : (id, ref) ∈ state.flowBufs)
    (emitted : ({ state with flowBufs := state.flowBufs.erase id } : NetState).emitFlow ref =
      .ok state') : state'.Indexed ∧ state'.refs.Nodup := by
  have taken := (PriorityQueue.entries_perm_erase mem).map Prod.snd
  rw [refs, buffered, List.append_assoc] at nodup
  have split := (taken.append_right (state.runningFlows ++ state.retiredFlows)).nodup_iff.mp nodup
  rw [List.map_cons, List.cons_append, List.nodup_cons] at split
  constructor
  · refine emitFlow_indexed ?_ ?_ emitted
    · exact indexed.congr rfl rfl rfl rfl fun _ _ => rfl
    · exact fun running => split.1 (by simp [running])
  · rcases emitFlow_eq_ok emitted with ⟨_, _, _, rfl⟩
    have moved : (((state.flowBufs.erase id).entries.map Prod.snd ++
        (state.runningFlows ++ [ref])) ++ state.retiredFlows).Perm
        (ref :: ((state.flowBufs.erase id).entries.map Prod.snd ++
          (state.runningFlows ++ state.retiredFlows))) := by
      simp only [List.append_assoc, List.singleton_append]
      rw [← List.append_assoc, ← List.append_assoc]
      exact List.perm_middle
    exact moved.nodup_iff.mpr (List.nodup_cons.mpr split)

theorem emitReadyFlows_indexed {platform : Platform} {simTs : Timestamp} {fuel : ℕ}
    {state state' : NetState} (indexed : state.Indexed) (nodup : state.refs.Nodup)
    (run : emitReadyFlows platform simTs fuel state = .ok state') : state'.Indexed := by
  induction fuel generalizing state with
  | zero => simp [emitReadyFlows] at run
  | succ fuel ih =>
      simp only [emitReadyFlows] at run
      split at run
      · simp only [Except.ok.injEq] at run
        exact run ▸ indexed
      · rename_i id ref first
        split at run
        · simp only [Except.ok.injEq] at run
          exact run ▸ indexed
        · simp only [bind_eq_ok, assert_eq_ok] at run
          rcases run with ⟨_, _, middle, emitted, rest⟩
          have mem := PriorityQueue.mem_of_peek (platform.order_perm 0 _) first
          rcases emitReady_indexed indexed nodup mem emitted with ⟨indexed', nodup'⟩
          exact ih indexed' nodup' rest

/-- Completing flows keeps the order, at the later time. -/
theorem completeFlows_ordered {simTs : Timestamp} {tsInc : Duration} {state state' : NetState}
    {compFlows : List TraceRecord} (kept : state.Kept simTs)
    (run : state.completeFlows simTs tsInc = .ok (state', compFlows)) :
    state'.Ordered (simTs + tsInc) := by
  have later : simTs / 1000 ≤ (simTs + tsInc) / 1000 := Nat.div_le_div_right (Nat.le_add_right _ _)
  rcases (completeFlows_eq_ok kept.ledger.running_nodup run).1 with ⟨_, _, whole⟩
  have retired : state'.retiredFlows =
      (state.completing simTs tsInc).reverse ++ state.retiredFlows := by rw [whole]
  have new : ∀ ref ∈ (state.completing simTs tsInc).reverse,
      (state'.arena ref).speedHistory.head? = some ⟨simTs + tsInc, 0⟩ := by
    intro ref mem
    rcases List.mem_filter.mp (List.mem_reverse.mp mem) with ⟨running, completes⟩
    have arena : state'.arena ref = stepFlow simTs tsInc (state.arena ref) := by
      rw [whole]
      exact if_pos running
    unfold completesIn at completes
    rw [arena, stepFlow, if_pos completes]
    rfl
  have newEnds : ∀ ref ∈ (state.completing simTs tsInc).reverse,
      (state'.arena ref).endTs = simTs + tsInc := by
    intro ref mem
    rw [FlowState.endTs, new ref mem]
    rfl
  have old : ∀ ref ∈ state.retiredFlows, state'.arena ref = state.arena ref := by
    intro ref mem
    rw [whole]
    exact if_neg (kept.not_running mem)
  refine ⟨?_, ?_, ?_⟩
  · intro ref mem
    rw [retired] at mem
    rcases List.mem_append.mp mem with isNew | isOld
    · rw [new ref isNew, newEnds ref isNew]
    · rw [old ref isOld]
      exact kept.ordered.stopped ref isOld
  · rw [retired, List.pairwise_append]
    refine ⟨?_, ?_, ?_⟩
    · refine List.pairwise_of_forall_mem_list ?_
      intro left leftMem right rightMem
      rw [newEnds left leftMem, newEnds right rightMem]
    · refine kept.ordered.sorted.imp_of_mem ?_
      intro left right leftMem rightMem sorted
      rw [old left leftMem, old right rightMem]
      exact sorted
    · intro left leftMem right rightMem
      rw [newEnds left leftMem, old right rightMem]
      exact (kept.ordered.past right rightMem).trans later
  · intro ref mem
    rw [retired] at mem
    rcases List.mem_append.mp mem with isNew | isOld
    · rw [newEnds ref isNew]
    · rw [old ref isOld]
      exact (kept.ordered.past ref isOld).trans later

end NetState

namespace Simulator

/-- The simulator as it is between two calls, and between two turns of its loop. -/
structure Represented (sim : Simulator) : Prop where
  kept : sim.state.Kept sim.ts
  timers : ∀ timer ∈ sim.timers, sim.ts ≤ timer.nextAlert

theorem Represented.of_core {sim : Simulator} {arena : Arena} (represented : sim.Represented)
    (core : ∀ ref, (arena ref).core = (sim.state.arena ref).core) :
    Represented { sim with state := { sim.state with arena := arena } } :=
  ⟨represented.kept.of_core core, represented.timers⟩

/-- Moving on to a time that no timer lies before. -/
theorem proceed_represented {platform : Platform} {sim sim' : Simulator} {tsInc : Duration}
    {compFlows : List TraceRecord} (represented : sim.Represented)
    (timers : ∀ timer ∈ sim.timers, sim.ts + tsInc ≤ timer.nextAlert)
    (run : sim.proceed platform tsInc = .ok (sim', compFlows)) :
    sim'.Represented ∧ NetState.SameFlows sim.state sim'.state := by
  have kept := represented.kept
  simp only [proceed, bind_eq_ok, pure_eq_ok, Prod.exists, Prod.mk.injEq] at run
  rcases run with ⟨middle, comp, completed, final, emitted, rfl, rfl⟩
  rcases NetState.completeFlows_refs kept.ledger.running_nodup completed with ⟨perm, same, bufs⟩
  rcases NetState.emitReadyFlows_refs emitted with ⟨perm', retired, arena, nextRef, bufs'⟩
  have whole : NetState.SameFlows sim.state final :=
    same.trans ⟨nextRef, fun ref => by rw [arena]⟩
  refine ⟨⟨⟨?_, ?_, ?_, ?_⟩, timers⟩, whole⟩
  · refine kept.ledger.congr whole (perm'.trans perm) fun mem => kept.ledger.key ?_
    rw [← bufs]
    exact bufs' mem
  · refine NetState.emitReadyFlows_indexed ?_ ?_ emitted
    · exact NetState.completeFlows_indexed kept.indexed kept.ledger.running_nodup completed
    · exact perm.nodup_iff.mpr kept.ledger.nodup
  · exact NetState.emitReadyFlows_ahead emitted
  · refine (NetState.completeFlows_ordered kept completed).congr retired fun ref _ => ?_
    rw [arena]

/-- The candidates for the next time: none lies in the past, and no start and no
timer lies before all of them. -/
theorem nextTimes_eq_ok {platform : Platform} {sim : Simulator} {limit : Option Timestamp}
    {times : List Timestamp} (represented : sim.Represented)
    (unlimited : ¬limit.any (· ≤ sim.ts) = true) (run : sim.nextTimes platform limit = .ok times) :
    (∀ time ∈ times, sim.ts ≤ time) ∧
      (∀ entry ∈ sim.state.flowBufs, ∃ time ∈ times, time ≤ (sim.state.arena entry.2).ts) ∧
      ∀ timer ∈ sim.timers, ∃ time ∈ times, time ≤ timer.nextAlert := by
  simp only [nextTimes, bind_eq_ok, pure_eq_ok] at run
  rcases run with ⟨completions, _, rfl⟩
  refine ⟨?_, ?_, ?_⟩
  · intro time mem
    simp only [List.mem_append, List.mem_map, Option.mem_toList, Option.map_eq_some_iff] at mem
    rcases mem with ((⟨dura, _, rfl⟩ | ⟨ref, first, rfl⟩) | ⟨timer, first, rfl⟩) | bound
    · exact Nat.le_add_left _ _
    · simp only [NetState.peekBuffered, Option.map_eq_some_iff] at first
      rcases first with ⟨entry, first, rfl⟩
      exact Nat.le_of_lt (represented.kept.ahead entry
        (PriorityQueue.mem_of_peek (platform.order_perm 0 _) first))
    · exact represented.timers timer
        ((platform.order_perm 1 _).subset (List.argmin_mem first))
    · simp only [bound, Option.any_some, decide_eq_true_eq] at unlimited
      exact Nat.le_of_not_le unlimited
  · intro entry mem
    cases first : sim.state.flowBufs.peek (platform.order 0)
        fun ref => (sim.state.arena ref).ts with
    | none =>
        rw [PriorityQueue.peek_eq_none (platform.order_perm 0 _)] at first
        exact absurd mem (first entry)
    | some head =>
        refine ⟨(sim.state.arena head.2).ts, ?_,
          PriorityQueue.key_le_of_peek (platform.order_perm 0 _) first mem⟩
        simp [NetState.peekBuffered, first]
  · intro timer mem
    cases first : sim.peekTimer platform with
    | none =>
        rw [peekTimer, List.argmin_eq_none] at first
        have present := (platform.order_perm 1 sim.timers).symm.subset mem
        rw [first] at present
        cases present
    | some head =>
        exact ⟨head.nextAlert, by simp, List.le_of_mem_argmin
          (f := OnceTimer.nextAlert) ((platform.order_perm 1 sim.timers).symm.subset mem) first⟩

end Simulator

end Phantora.Netsim
