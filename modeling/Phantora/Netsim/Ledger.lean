import Mathlib.Data.List.Range
import Phantora.Netsim.Frame

/-!
# The ledger of the network state

Every flow that has arrived is buffered, running or retired, and in that list
once. One lemma for each operation says what a successful call does to the
three lists and to the arena; later files use these and never unfold the
operations. At the end stand the two facts the event queue relies on: what an
arrival and what one step of the simulator do to the retired flows.
-/

namespace Phantora.Netsim

open Outcome

namespace NetState

/-- The references in the buffer. -/
def buffered (state : NetState) : List FlowRef :=
  state.flowBufs.entries.map Prod.snd

/-- All references, by the list that holds them. -/
def refs (state : NetState) : List FlowRef :=
  state.buffered ++ state.runningFlows ++ state.retiredFlows

/-- Every flow that has arrived is in exactly one of the three lists, and the
buffer knows each of its flows by the identifier of that flow. -/
structure Ledger (state : NetState) : Prop where
  perm : state.refs.Perm (List.range state.nextRef)
  key : ∀ {id ref}, (id, ref) ∈ state.flowBufs → (state.arena ref).flow.id = id
  ids : ∀ {left right}, left < state.nextRef → right < state.nextRef →
    (state.arena left).flow.id = (state.arena right).flow.id → left = right

/-- The flows that have arrived are the same, and so is what each arrived with. -/
structure SameFlows (state state' : NetState) : Prop where
  nextRef : state'.nextRef = state.nextRef
  fresh : ∀ ref, (state'.arena ref).fresh = (state.arena ref).fresh

namespace SameFlows

theorem refl (state : NetState) : SameFlows state state :=
  ⟨rfl, fun _ => rfl⟩

theorem trans {first second third : NetState} (left : SameFlows first second)
    (right : SameFlows second third) : SameFlows first third :=
  ⟨right.nextRef.trans left.nextRef, fun ref => (right.fresh ref).trans (left.fresh ref)⟩

theorem flow_eq {state state' : NetState} (same : SameFlows state state') (ref : FlowRef) :
    (state'.arena ref).flow = (state.arena ref).flow :=
  by simpa using congrArg FlowState.flow (same.fresh ref)

theorem ts_eq {state state' : NetState} (same : SameFlows state state') (ref : FlowRef) :
    (state'.arena ref).ts = (state.arena ref).ts :=
  by simpa using congrArg FlowState.ts (same.fresh ref)

theorem route_eq {state state' : NetState} (same : SameFlows state state') (ref : FlowRef) :
    (state'.arena ref).route = (state.arena ref).route :=
  by simpa using congrArg FlowState.route (same.fresh ref)

end SameFlows

namespace Ledger

theorem nodup {state : NetState} (ledger : state.Ledger) : state.refs.Nodup :=
  ledger.perm.nodup_iff.mpr List.nodup_range

theorem mem_refs {state : NetState} (ledger : state.Ledger) {ref : FlowRef} :
    ref ∈ state.refs ↔ ref < state.nextRef := by
  rw [ledger.perm.mem_iff, List.mem_range]

theorem running_nodup {state : NetState} (ledger : state.Ledger) : state.runningFlows.Nodup :=
  (List.nodup_append.mp (List.nodup_append.mp ledger.nodup).1).2.1

theorem running_lt {state : NetState} (ledger : state.Ledger) {ref : FlowRef}
    (mem : ref ∈ state.runningFlows) : ref < state.nextRef :=
  ledger.mem_refs.mp (by simp [refs, mem])

theorem retired_lt {state : NetState} (ledger : state.Ledger) {ref : FlowRef}
    (mem : ref ∈ state.retiredFlows) : ref < state.nextRef :=
  ledger.mem_refs.mp (by simp [refs, mem])

theorem buffered_lt {state : NetState} (ledger : state.Ledger) {ref : FlowRef}
    (mem : ref ∈ state.buffered) : ref < state.nextRef :=
  ledger.mem_refs.mp (by simp [refs, mem])

/-- The ledger depends on the lists and on what the flows arrived with. -/
theorem congr {state state' : NetState} (ledger : state.Ledger) (same : SameFlows state state')
    (perm : state'.refs.Perm state.refs)
    (key : ∀ {id ref}, (id, ref) ∈ state'.flowBufs → (state.arena ref).flow.id = id) :
    state'.Ledger where
  perm := same.nextRef ▸ perm.trans ledger.perm
  key mem := (congrArg Flow.id (same.flow_eq _)).trans (key mem)
  ids leftLt rightLt equal := by
    rw [same.flow_eq, same.flow_eq] at equal
    exact ledger.ids (same.nextRef ▸ leftLt) (same.nextRef ▸ rightLt) equal

end Ledger

theorem emitFlow_eq_ok {state state' : NetState} {ref : FlowRef}
    (run : state.emitFlow ref = .ok state') :
    ∃ linkFlows loopbackFlows,
      (state.arena ref).route.path.foldlM
        (fun linkFlows link => pushLink state.fairness state.arena ref link linkFlows)
        state.linkFlows = .ok linkFlows ∧
      state' = { state with
        runningFlows := state.runningFlows ++ [ref]
        linkFlows := linkFlows
        loopbackFlows := loopbackFlows } := by
  simp only [emitFlow, bind_eq_ok, pure_eq_ok] at run
  rcases run with ⟨linkFlows, links, rfl⟩
  exact ⟨linkFlows, _, links, rfl⟩

theorem pushFlow_eq_ok {state state' : NetState} {ref : FlowRef} {simTs : Timestamp}
    (run : state.pushFlow ref simTs = .ok state') :
    (simTs < (state.arena ref).ts ∧
      state' = { state with flowBufs := state.flowBufs.push (state.arena ref).flow.id ref }) ∨
    ((state.arena ref).ts ≤ simTs ∧ state.emitFlow ref = .ok state') := by
  unfold pushFlow at run
  by_cases later : (state.arena ref).ts > simTs
  · rw [if_pos later, Except.ok.injEq] at run
    exact Or.inl ⟨later, run.symm⟩
  · rw [if_neg later] at run
    exact Or.inr ⟨not_lt.mp later, run⟩

/-- Pushing a flow that the buffer does not hold adds it to the buffered or to
the running flows, and changes neither the retired flows nor the arena. -/
theorem pushFlow_refs {state state' : NetState} {ref : FlowRef} {simTs : Timestamp}
    (absent : ∀ old, ((state.arena ref).flow.id, old) ∉ state.flowBufs)
    (run : state.pushFlow ref simTs = .ok state') :
    state'.refs.Perm (ref :: state.refs) ∧ state'.retiredFlows = state.retiredFlows ∧
      state'.arena = state.arena ∧ state'.nextRef = state.nextRef ∧
      (∀ {id other}, (id, other) ∈ state'.flowBufs → (id, other) ∈ state.flowBufs ∨
        (id = (state.arena ref).flow.id ∧ other = ref)) := by
  rcases pushFlow_eq_ok run with ⟨_, rfl⟩ | ⟨_, emitted⟩
  · refine ⟨?_, rfl, rfl, rfl, ?_⟩
    · simp only [refs, buffered, PriorityQueue.entries_push_of_absent ref absent, List.map_append,
        List.map_cons, List.map_nil, List.append_assoc]
      exact List.perm_middle
    · intro id other mem
      rcases PriorityQueue.mem_push.mp mem with same | ⟨_, old⟩
      · exact Or.inr same
      · exact Or.inl old
  · rcases emitFlow_eq_ok emitted with ⟨_, _, _, rfl⟩
    refine ⟨?_, rfl, rfl, rfl, fun mem => Or.inl mem⟩
    simp only [refs, buffered, List.append_assoc, List.singleton_append]
    rw [← List.append_assoc, ← List.append_assoc]
    exact List.perm_middle

/-- Emitting ready flows moves them from the buffer to the running flows. -/
theorem emitReadyFlows_refs {platform : Platform} {simTs : Timestamp} {fuel : ℕ}
    {state state' : NetState} (run : emitReadyFlows platform simTs fuel state = .ok state') :
    state'.refs.Perm state.refs ∧ state'.retiredFlows = state.retiredFlows ∧
      state'.arena = state.arena ∧ state'.nextRef = state.nextRef ∧
      (∀ {id ref}, (id, ref) ∈ state'.flowBufs → (id, ref) ∈ state.flowBufs) := by
  induction fuel generalizing state with
  | zero => simp [emitReadyFlows] at run
  | succ fuel ih =>
      simp only [emitReadyFlows] at run
      split at run
      · simp only [Except.ok.injEq] at run
        subst run
        exact ⟨List.Perm.refl _, rfl, rfl, rfl, fun mem => mem⟩
      · rename_i id ref first
        split at run
        · simp only [Except.ok.injEq] at run
          subst run
          exact ⟨List.Perm.refl _, rfl, rfl, rfl, fun mem => mem⟩
        · simp only [bind_eq_ok, assert_eq_ok] at run
          rcases run with ⟨_, _, middle, emitted, rest⟩
          rcases emitFlow_eq_ok emitted with ⟨_, _, _, rfl⟩
          rcases ih rest with ⟨perm, retired, arena, nextRef, bufs⟩
          refine ⟨perm.trans ?_, retired, arena, nextRef, ?_⟩
          · have taken := (PriorityQueue.entries_perm_erase
              (PriorityQueue.mem_of_peek (platform.order_perm 0 _) first)).map Prod.snd
            simp only [refs, buffered, List.append_assoc, List.singleton_append]
            rw [← List.append_assoc]
            refine List.perm_middle.trans ?_
            rw [List.append_assoc]
            exact taken.symm.append_right _
          · intro id other mem
            exact (PriorityQueue.mem_erase.mp (bufs mem)).2

/-- What one running flow becomes when the network moves on by `tsInc`. -/
def stepFlow (simTs : Timestamp) (tsInc : Duration) (f : FlowState) : FlowState :=
  let f := f.advance simTs tsInc
  if f.isCompleted then f.retire (simTs + tsInc) else f

/-- Whether a flow completes when the network moves on by `tsInc`. -/
def completesIn (simTs : Timestamp) (tsInc : Duration) (f : FlowState) : Bool :=
  (f.advance simTs tsInc).isCompleted

/-- The report of a flow that completes. -/
def completionRecord (endTs : Timestamp) (f : FlowState) : TraceRecord :=
  ⟨f.ts, f.flow, some (endTs - f.ts)⟩

theorem isCompleted_stepFlow (simTs : Timestamp) (tsInc : Duration) (f : FlowState) :
    (stepFlow simTs tsInc f).isCompleted = completesIn simTs tsInc f := by
  unfold stepFlow completesIn
  dsimp only
  split <;> simp

@[simp]
theorem fresh_stepFlow (simTs : Timestamp) (tsInc : Duration) (f : FlowState) :
    (stepFlow simTs tsInc f).fresh = f.fresh := by
  unfold stepFlow
  dsimp only
  split <;> rfl

theorem advanceFlow_eq_ok {simTs : Timestamp} {tsInc : Duration}
    {state state' : NetState} {compFlows compFlows' : List TraceRecord} {ref : FlowRef}
    (run : advanceFlow simTs tsInc (state, compFlows) ref = .ok (state', compFlows')) :
    state' = { state with
        arena := Function.update state.arena ref (stepFlow simTs tsInc (state.arena ref))
        retiredFlows := if completesIn simTs tsInc (state.arena ref) then ref :: state.retiredFlows
          else state.retiredFlows } ∧
      compFlows' = (if completesIn simTs tsInc (state.arena ref) then
        compFlows ++ [completionRecord (simTs + tsInc) (state.arena ref)] else compFlows) ∧
      (completesIn simTs tsInc (state.arena ref) = false → 0 < (state.arena ref).speed) := by
  simp only [advanceFlow, bind_eq_ok, assert_eq_ok] at run
  rcases run with ⟨_, _, complete, answer, result⟩
  rcases FlowState.completed_eq_ok answer with ⟨rfl, moving⟩
  have completes : ((state.arena ref).advance simTs tsInc).isCompleted =
      completesIn simTs tsInc (state.arena ref) := rfl
  rw [completes] at result moving
  by_cases retires : completesIn simTs tsInc (state.arena ref) = true
  · simp only [retires, if_true, pure_eq_ok, Prod.mk.injEq] at result
    rcases result with ⟨rfl, rfl⟩
    refine ⟨?_, ?_, by simp [retires]⟩
    · simp [stepFlow, completes, retires]
    · simp [retires, completionRecord, FlowState.advance]
  · simp only [retires] at result
    rcases result with ⟨rfl, rfl⟩
    refine ⟨?_, by simp [retires], fun _ => moving (by simpa using retires)⟩
    simp [stepFlow, completes, retires]

/-- The flows that complete, in the order of the running flows. -/
def completing (state : NetState) (simTs : Timestamp) (tsInc : Duration) : List FlowRef :=
  state.runningFlows.filter fun ref => completesIn simTs tsInc (state.arena ref)

theorem advanceFlows_eq_ok {simTs : Timestamp} {tsInc : Duration} {state state' : NetState}
    {compFlows : List TraceRecord} (nodup : state.runningFlows.Nodup)
    (run : state.runningFlows.foldlM (advanceFlow simTs tsInc) (state, []) =
      .ok (state', compFlows)) :
    state' = { state with
        arena := fun ref => if ref ∈ state.runningFlows then stepFlow simTs tsInc (state.arena ref)
          else state.arena ref
        retiredFlows := (state.completing simTs tsInc).reverse ++ state.retiredFlows } ∧
      compFlows = (state.completing simTs tsInc).map
        fun ref => completionRecord (simTs + tsInc) (state.arena ref) := by
  have reached := foldlM_prefix
    (P := fun done (acc : NetState × List TraceRecord) =>
      acc.1 = { state with
        arena := fun ref => if ref ∈ done then stepFlow simTs tsInc (state.arena ref)
          else state.arena ref
        retiredFlows := (done.filter fun ref =>
          completesIn simTs tsInc (state.arena ref)).reverse ++ state.retiredFlows } ∧
      acc.2 = (done.filter fun ref => completesIn simTs tsInc (state.arena ref)).map
        fun ref => completionRecord (simTs + tsInc) (state.arena ref))
    ?step ?start run
  case start => simp
  case step =>
    rintro done ref rest ⟨middle, comp⟩ ⟨middle', comp'⟩ ⟨rfl, rfl⟩ step whole
    have notDone : ref ∉ done := by
      rw [← whole, List.nodup_append] at nodup
      exact fun mem => nodup.2.2 ref mem ref List.mem_cons_self rfl
    rcases advanceFlow_eq_ok step with ⟨rfl, rfl, _⟩
    simp only [notDone, if_false, List.filter_append, List.filter_cons, List.filter_nil]
    constructor
    · by_cases retires : completesIn simTs tsInc (state.arena ref) = true
      · simp only [retires, if_true, List.reverse_append, List.reverse_cons, List.reverse_nil,
          List.nil_append, List.cons_append, NetState.mk.injEq, true_and,
          and_true]
        funext other
        by_cases same : other = ref
        · subst other
          simp
        · simp [same]
      · simp only [retires, Bool.false_eq_true, if_false, List.append_nil, NetState.mk.injEq,
          true_and, and_true]
        funext other
        by_cases same : other = ref
        · subst other
          simp
        · simp [same]
    · by_cases retires : completesIn simTs tsInc (state.arena ref) = true <;> simp [retires]
  exact ⟨reached.1, reached.2⟩

theorem running_of_retain {state : NetState} {simTs : Timestamp} {tsInc : Duration}
    {arena : Arena} {out : List FlowRef}
    (advanced : ∀ ref ∈ state.runningFlows, arena ref = stepFlow simTs tsInc (state.arena ref))
    (run : retainM (fun ref => do
      let complete ← (arena ref).completed
      return !complete) state.runningFlows = .ok out) :
    out = state.runningFlows.filter fun ref => !completesIn simTs tsInc (state.arena ref) := by
  refine retainM_eq_ok ?_ run
  intro ref mem b answer
  simp only [bind_eq_ok, pure_eq_ok] at answer
  rcases answer with ⟨complete, answer, rfl⟩
  rw [(FlowState.completed_eq_ok answer).1, advanced ref mem, isCompleted_stepFlow]

/-- What a successful call of `completeFlows` does; `linkFlows` and `loopbackFlows`
are the retained ones. -/
theorem completeFlows_eq_ok {simTs : Timestamp} {tsInc : Duration} {state state' : NetState}
    {compFlows : List TraceRecord} (nodup : state.runningFlows.Nodup)
    (run : state.completeFlows simTs tsInc = .ok (state', compFlows)) :
    (∃ linkFlows loopbackFlows, state' = { state with
        arena := fun ref => if ref ∈ state.runningFlows then stepFlow simTs tsInc (state.arena ref)
          else state.arena ref
        runningFlows := state.runningFlows.filter fun ref =>
          !completesIn simTs tsInc (state.arena ref)
        retiredFlows := (state.completing simTs tsInc).reverse ++ state.retiredFlows
        linkFlows := linkFlows
        loopbackFlows := loopbackFlows }) ∧
      compFlows = (state.completing simTs tsInc).map
        fun ref => completionRecord (simTs + tsInc) (state.arena ref) := by
  simp only [completeFlows, bind_eq_ok, pure_eq_ok, Prod.exists, Prod.mk.injEq] at run
  rcases run with ⟨middle, comp, advanced, running, retain, linkFlows, _, loopbackFlows, _,
    rfl, rfl⟩
  rcases advanceFlows_eq_ok nodup advanced with ⟨rfl, rfl⟩
  refine ⟨⟨linkFlows, loopbackFlows, ?_⟩, rfl⟩
  rw [running_of_retain (fun ref mem => if_pos mem) retain]

theorem completeFlows_refs {simTs : Timestamp} {tsInc : Duration} {state state' : NetState}
    {compFlows : List TraceRecord} (nodup : state.runningFlows.Nodup)
    (run : state.completeFlows simTs tsInc = .ok (state', compFlows)) :
    state'.refs.Perm state.refs ∧ SameFlows state state' ∧ state'.flowBufs = state.flowBufs := by
  rcases (completeFlows_eq_ok nodup run).1 with ⟨_, _, rfl⟩
  refine ⟨?_, ⟨rfl, ?_⟩, rfl⟩
  · simp only [refs, buffered, List.append_assoc]
    refine List.Perm.append_left _ ?_
    rw [← List.append_assoc]
    refine List.Perm.append_right _ ?_
    have split := List.filter_append_perm
      (fun ref => !completesIn simTs tsInc (state.arena ref)) state.runningFlows
    simp only [Bool.not_not] at split
    exact (List.Perm.append_left _ (List.reverse_perm _)).trans split
  · intro ref
    dsimp only
    split
    · exact fresh_stepFlow _ _ _
    · rfl

/-- A new flow gets the next reference and is pushed. -/
theorem addFlow_eq_ok {state state' : NetState} {record : TraceRecord} {cluster : Cluster}
    {simTs : Timestamp} {hostMapping : Option (String → Option String)}
    (run : state.addFlow record cluster simTs hostMapping = .ok state') :
    ∃ src dst route,
      mapHostname hostMapping record.flow.src = .ok src ∧
      mapHostname hostMapping record.flow.dst = .ok dst ∧
      cluster.resolveRoute src dst record.flow.vsrc record.flow.vdst = .ok route ∧
      ({ state with
        arena := Function.update state.arena state.nextRef
          { ts := record.ts, flow := { record.flow with src := src, dst := dst },
            maxRate := u64Max, route := route }
        nextRef := state.nextRef + 1 } : NetState).pushFlow state.nextRef simTs = .ok state' := by
  simp only [addFlow, bind_eq_ok] at run
  rcases run with ⟨src, srcRun, dst, dstRun, route, routeRun, pushed⟩
  exact ⟨src, dst, route, srcRun, dstRun, routeRun, pushed⟩

theorem reviveRetired_eq_ok {arena : Arena} {pastTs : Timestamp}
    {retired revived kept : List FlowRef}
    (run : reviveRetired arena pastTs retired = .ok (revived, kept)) :
    retired = revived ++ kept := by
  induction retired generalizing revived kept with
  | nil =>
      simp only [reviveRetired, Except.ok.injEq, Prod.mk.injEq] at run
      simp [← run.1, ← run.2]
  | cons ref rest ih =>
      simp only [reviveRetired, bind_eq_ok, assert_eq_ok] at run
      rcases run with ⟨last, _, _, _, result⟩
      split at result
      · simp only [bind_eq_ok, pure_eq_ok, Prod.exists, Prod.mk.injEq] at result
        rcases result with ⟨revived, kept, later, rfl, rfl⟩
        rw [ih later, List.cons_append]
      · simp only [pure_eq_ok, Prod.mk.injEq] at result
        rw [← result.1, ← result.2, List.nil_append]

theorem emitFlows_eq_ok {state state' : NetState} {emitted : List FlowRef}
    (run : emitted.foldlM emitFlow state = .ok state') :
    ∃ linkFlows loopbackFlows, state' = { state with
      runningFlows := state.runningFlows ++ emitted
      linkFlows := linkFlows
      loopbackFlows := loopbackFlows } := by
  refine foldlM_prefix (P := fun done state' => ∃ linkFlows loopbackFlows, state' = { state with
      runningFlows := state.runningFlows ++ done
      linkFlows := linkFlows
      loopbackFlows := loopbackFlows }) ?_ ⟨state.linkFlows, state.loopbackFlows, by simp⟩ run
  rintro done ref rest middle state'' ⟨linkFlows, loopbackFlows, rfl⟩ step _
  rcases emitFlow_eq_ok step with ⟨linkFlows', loopbackFlows', _, rfl⟩
  exact ⟨linkFlows', loopbackFlows', by simp⟩

theorem fresh_revertFlow {simTs pastTs : Timestamp} {f f' : FlowState}
    (run : revertFlow simTs pastTs f = .ok f') : f'.fresh = f.fresh := by
  simp only [revertFlow, bind_eq_ok, assert_eq_ok] at run
  rcases run with ⟨_, _, result⟩
  split at result
  · simp only [bind_eq_ok, assert_eq_ok, pure_eq_ok] at result
    rcases result with ⟨_, _, _, _, rfl⟩
    rfl
  · simp only [pure_eq_ok] at result
    rw [← result]
    rfl

theorem fresh_revertFlows {simTs pastTs : Timestamp} {running : List FlowRef} {arena arena' : Arena}
    (run : running.foldlM (fun arena ref => do
      let f ← revertFlow simTs pastTs (arena ref)
      return Function.update arena ref f) arena = .ok arena') (ref : FlowRef) :
    (arena' ref).fresh = (arena ref).fresh := by
  refine foldlM_invariant (fun arena' : Arena => (arena' ref).fresh = (arena ref).fresh)
    ?_ rfl run
  intro middle other arena'' _ same step
  simp only [bind_eq_ok, pure_eq_ok] at step
  rcases step with ⟨f, reverted, rfl⟩
  by_cases equal : ref = other
  · subst other
    rw [Function.update_self, fresh_revertFlow reverted, same]
  · rw [Function.update_of_ne equal, same]

/-- Pushing flows that no list holds puts each of them into one. -/
theorem pushFlows_refs {state state' : NetState} {flows : List FlowRef} {simTs : Timestamp}
    (run : flows.foldlM (fun state ref => state.pushFlow ref simTs) state = .ok state')
    (nodup : (flows ++ state.refs).Nodup)
    (key : ∀ {id ref}, (id, ref) ∈ state.flowBufs → (state.arena ref).flow.id = id)
    (ids : ∀ left ∈ flows ++ state.refs, ∀ right ∈ flows ++ state.refs,
      (state.arena left).flow.id = (state.arena right).flow.id → left = right) :
    state'.refs.Perm (flows ++ state.refs) ∧ state'.retiredFlows = state.retiredFlows ∧
      state'.arena = state.arena ∧ state'.nextRef = state.nextRef ∧
      (∀ {id ref}, (id, ref) ∈ state'.flowBufs → (state.arena ref).flow.id = id) := by
  refine foldlM_prefix (P := fun done state' => state'.refs.Perm (done ++ state.refs) ∧
      state'.retiredFlows = state.retiredFlows ∧
      state'.arena = state.arena ∧ state'.nextRef = state.nextRef ∧
      (∀ {id ref}, (id, ref) ∈ state'.flowBufs → (state.arena ref).flow.id = id))
    ?_ ⟨List.Perm.refl _, rfl, rfl, rfl, key⟩ run
  rintro done ref rest middle state'' ⟨perm, retired, arena, nextRef, key⟩ step whole
  have split : flows ++ state.refs = done ++ ref :: (rest ++ state.refs) := by
    rw [← whole]
    simp
  have absent : ∀ old, ((middle.arena ref).flow.id, old) ∉ middle.flowBufs := by
    intro old mem
    rw [arena] at mem
    have oldMem : old ∈ middle.refs := by
      simp only [refs, buffered, List.mem_append]
      exact Or.inl (Or.inl (List.mem_map_of_mem (f := Prod.snd) mem))
    have oldPlaced := perm.mem_iff.mp oldMem
    have same : old = ref := by
      refine ids old ?_ ref (by rw [split]; simp) (key mem)
      rw [← whole]
      rcases List.mem_append.mp oldPlaced with inDone | inRefs
      · simp [inDone]
      · simp [inRefs]
    subst same
    rw [split, List.nodup_append] at nodup
    rcases List.mem_append.mp oldPlaced with inDone | inRefs
    · exact nodup.2.2 old inDone old List.mem_cons_self rfl
    · exact (List.nodup_cons.mp nodup.2.1).1 (List.mem_append_right _ inRefs)
  rcases pushFlow_refs absent step with ⟨perm', retired', arena', nextRef', bufs⟩
  refine ⟨?_, retired'.trans retired, arena'.trans arena, nextRef'.trans nextRef, ?_⟩
  · refine perm'.trans ((perm.cons ref).trans ?_)
    rw [List.append_assoc]
    exact List.perm_middle.symm
  · intro id other mem
    rcases bufs mem with old | ⟨rfl, rfl⟩
    · exact key old
    · rw [arena]

/-- Rolling back keeps the ledger and takes from the retired flows the last ones. -/
theorem rollbackTo_eq_ok {state state' : NetState} {simTs pastTs : Timestamp}
    {revived : List FlowRef} (ledger : state.Ledger)
    (run : state.rollbackTo simTs pastTs = .ok (state', revived)) :
    state'.Ledger ∧ SameFlows state state' ∧
      state.retiredFlows = revived ++ state'.retiredFlows := by
  simp only [rollbackTo, bind_eq_ok, pure_eq_ok, Prod.exists, Prod.mk.injEq] at run
  rcases run with ⟨toRunning, retired, revive, middle, emitted, arena, reverted, linkFlows, _,
    final, pushed, rfl, rfl⟩
  have split := reviveRetired_eq_ok revive
  rcases emitFlows_eq_ok emitted with ⟨linkFlows', loopbackFlows', rfl⟩
  dsimp only at reverted pushed
  have fresh : ∀ ref, (arena ref).fresh = (state.arena ref).fresh := fresh_revertFlows reverted
  have flowEq : ∀ ref, (arena ref).flow = (state.arena ref).flow :=
    fun ref => by simpa using congrArg FlowState.flow (fresh ref)
  have partition : ((state.runningFlows ++ toRunning).filter
        (fun ref => !decide (pastTs > (arena ref).ts)) ++
      (state.buffered ++ (state.runningFlows ++ toRunning).filter
        (fun ref => decide (pastTs > (arena ref).ts)) ++ retired)).Perm state.refs := by
    simp only [refs, split]
    have halves := List.filter_append_perm (fun ref => decide (pastTs > (arena ref).ts))
      (state.runningFlows ++ toRunning)
    refine List.perm_append_comm.trans ?_
    simp only [List.append_assoc]
    refine List.Perm.append_left _ ?_
    have swapped : (List.filter (fun ref => decide (pastTs > (arena ref).ts))
          (state.runningFlows ++ toRunning) ++ (retired ++
        List.filter (fun ref => !decide (pastTs > (arena ref).ts))
          (state.runningFlows ++ toRunning))).Perm
        ((List.filter (fun ref => decide (pastTs > (arena ref).ts))
          (state.runningFlows ++ toRunning) ++
        List.filter (fun ref => !decide (pastTs > (arena ref).ts))
          (state.runningFlows ++ toRunning)) ++ retired) := by
      rw [List.append_assoc]
      exact List.Perm.append_left _ List.perm_append_comm
    refine swapped.trans ((halves.append_right _).trans ?_)
    rw [List.append_assoc]
  have same : SameFlows state { state with arena := arena } := ⟨rfl, fresh⟩
  rcases pushFlows_refs pushed (partition.nodup_iff.mpr ledger.nodup)
      (fun mem => (congrArg Flow.id (flowEq _)).trans (ledger.key mem))
      (fun left leftMem right rightMem equal => by
        dsimp only at equal
        rw [flowEq, flowEq] at equal
        exact ledger.ids (ledger.mem_refs.mp (partition.mem_iff.mp leftMem))
          (ledger.mem_refs.mp (partition.mem_iff.mp rightMem)) equal) with
    ⟨perm, retiredEq, arenaEq, nextRef, key⟩
  have sameFinal : SameFlows state final := ⟨nextRef, fun ref => by rw [arenaEq]; exact fresh ref⟩
  refine ⟨ledger.congr sameFinal (perm.trans partition) fun mem => ?_, sameFinal, ?_⟩
  · exact (congrArg Flow.id (flowEq _)).symm.trans (key mem)
  · rw [retiredEq, split]

end NetState

end Phantora.Netsim
