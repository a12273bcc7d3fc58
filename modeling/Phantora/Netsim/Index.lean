import Mathlib.Data.List.Count
import Phantora.Netsim.Progress

/-!
# The link index

The index holds, for every link, the running flows whose route contains it,
and the loopback flows are the running flows with an empty route. Emission,
completion and rollback update the running flows and the index separately;
one lemma for each shows that they agree afterwards.
-/

namespace Phantora.Netsim

open Outcome

namespace NetState

/-- The flows filed under a link. -/
def flowsOn : List (LinkIx × FlowSet) → LinkIx → List FlowRef
  | [], _ => []
  | (other, set) :: rest, link =>
      if other = link then set.iter ++ flowsOn rest link else flowsOn rest link

/-- No link is filed twice, and every set is flat and not empty. -/
structure Filed (linkFlows : List (LinkIx × FlowSet)) : Prop where
  keys : (linkFlows.map Prod.fst).Nodup
  flat : ∀ entry ∈ linkFlows, ∃ flows, entry.2 = .flat flows ∧ flows ≠ []

theorem flowsOn_of_absent {linkFlows : List (LinkIx × FlowSet)} {link : LinkIx}
    (absent : link ∉ linkFlows.map Prod.fst) : flowsOn linkFlows link = [] := by
  induction linkFlows with
  | nil => rfl
  | cons entry rest ih =>
      rw [List.map_cons, List.mem_cons, not_or] at absent
      simp only [flowsOn, if_neg (Ne.symm absent.1)]
      exact ih absent.2

theorem flowsOn_eq {linkFlows : List (LinkIx × FlowSet)} (keys : (linkFlows.map Prod.fst).Nodup)
    {link : LinkIx} {set : FlowSet} (mem : (link, set) ∈ linkFlows) :
    flowsOn linkFlows link = set.iter := by
  induction linkFlows with
  | nil => cases mem
  | cons entry rest ih =>
      rw [List.map_cons, List.nodup_cons] at keys
      rcases List.mem_cons.mp mem with rfl | inRest
      · simp only [flowsOn, if_true]
        rw [flowsOn_of_absent keys.1, List.append_nil]
      · have differs : entry.1 ≠ link := fun same =>
          keys.1 (same ▸ List.mem_map_of_mem (f := Prod.fst) inRest)
        simp only [flowsOn, if_neg differs]
        exact ih keys.2 inRest

theorem Filed.flowsOn_eq {linkFlows : List (LinkIx × FlowSet)} (filed : Filed linkFlows)
    {link : LinkIx} {set : FlowSet} (mem : (link, set) ∈ linkFlows) :
    flowsOn linkFlows link = set.iter :=
  NetState.flowsOn_eq filed.keys mem

theorem exists_of_mem_flowsOn {linkFlows : List (LinkIx × FlowSet)} {link : LinkIx} {ref : FlowRef}
    (mem : ref ∈ flowsOn linkFlows link) : ∃ set, (link, set) ∈ linkFlows ∧ ref ∈ set.iter := by
  induction linkFlows with
  | nil => cases mem
  | cons entry rest ih =>
      rcases entry with ⟨other, set⟩
      simp only [flowsOn] at mem
      split at mem
      · rename_i same
        rcases List.mem_append.mp mem with here | later
        · exact ⟨set, same ▸ List.mem_cons_self, here⟩
        · rcases ih later with ⟨set', inRest, inSet⟩
          exact ⟨set', List.mem_cons_of_mem _ inRest, inSet⟩
      · rcases ih mem with ⟨set', inRest, inSet⟩
        exact ⟨set', List.mem_cons_of_mem _ inRest, inSet⟩

/-- Filing a flow under one link lengthens the list of that link. -/
theorem pushLink_eq_ok {arena : Arena} {ref : FlowRef} {link : LinkIx}
    {linkFlows linkFlows' : List (LinkIx × FlowSet)} (filed : Filed linkFlows)
    (run : pushLink .perFlowMaxMin arena ref link linkFlows = .ok linkFlows') :
    Filed linkFlows' ∧
      linkFlows'.map Prod.fst = (if link ∈ linkFlows.map Prod.fst then linkFlows.map Prod.fst
        else linkFlows.map Prod.fst ++ [link]) ∧
      ∀ other, flowsOn linkFlows' other =
        if other = link then flowsOn linkFlows other ++ [ref] else flowsOn linkFlows other := by
  rcases filed with ⟨keys, flat⟩
  induction linkFlows generalizing linkFlows' with
  | nil =>
      simp only [pushLink, FlowSet.new, FlowSet.push, bind_eq_ok, pure_eq_ok,
        Except.ok.injEq] at run
      rcases run with ⟨set, rfl, rfl⟩
      refine ⟨⟨List.nodup_singleton _, ?_⟩, by simp, ?_⟩
      · intro entry mem
        rw [List.mem_singleton] at mem
        subst mem
        exact ⟨_, rfl, by simp⟩
      · intro other
        simp only [flowsOn, FlowSet.iter, eq_comm, List.append_nil, List.nil_append]
  | cons entry rest ih =>
      rcases entry with ⟨first, set⟩
      rcases flat _ List.mem_cons_self with ⟨flows, setEq, nonempty⟩
      dsimp only at setEq
      subst setEq
      have flatRest : ∀ entry ∈ rest, ∃ flows, entry.2 = .flat flows ∧ flows ≠ [] :=
        fun entry mem => flat entry (List.mem_cons_of_mem _ mem)
      rw [List.map_cons, List.nodup_cons] at keys
      simp only [pushLink] at run
      split at run
      · rename_i same
        subst first
        simp only [FlowSet.push, bind_eq_ok, pure_eq_ok, Except.ok.injEq] at run
        rcases run with ⟨set, rfl, rfl⟩
        refine ⟨⟨by simpa using keys, ?_⟩, by simp, ?_⟩
        · intro entry mem
          rcases List.mem_cons.mp mem with rfl | inRest
          · exact ⟨_, rfl, by simp⟩
          · exact flatRest entry inRest
        · intro other
          simp only [flowsOn, FlowSet.iter]
          by_cases here : link = other
          · subst other
            simp only [if_true, flowsOn_of_absent keys.1, List.append_nil]
          · simp only [if_neg here, if_neg (Ne.symm here)]
      · rename_i differs
        simp only [bind_eq_ok, pure_eq_ok] at run
        rcases run with ⟨rest', pushed, rfl⟩
        rcases ih pushed keys.2 flatRest with ⟨filed', keys', lists⟩
        have ne : link ≠ first := fun same => differs same.symm
        refine ⟨⟨?_, ?_⟩, ?_, ?_⟩
        · rw [List.map_cons, List.nodup_cons]
          refine ⟨?_, filed'.keys⟩
          rw [keys']
          split
          · exact keys.1
          · simpa [differs] using keys.1
        · intro entry mem
          rcases List.mem_cons.mp mem with rfl | inRest
          · exact ⟨flows, rfl, nonempty⟩
          · exact filed'.flat entry inRest
        · simp only [List.map_cons, keys', List.mem_cons, ne, false_or]
          split <;> rfl
        · intro other
          simp only [flowsOn, lists]
          by_cases here : first = other
          · subst other
            simp [differs]
          · simp only [if_neg here]

/-- Filing a flow under the links of a path. -/
theorem pushLinks_eq_ok {arena : Arena} {ref : FlowRef} {path : List LinkIx}
    {linkFlows linkFlows' : List (LinkIx × FlowSet)} (filed : Filed linkFlows)
    (run : path.foldlM (fun linkFlows link => pushLink .perFlowMaxMin arena ref link linkFlows)
      linkFlows = .ok linkFlows') :
    Filed linkFlows' ∧ ∀ other, flowsOn linkFlows' other =
      flowsOn linkFlows other ++ List.replicate (path.count other) ref := by
  have reached := foldlM_prefix
    (P := fun done linkFlows' => Filed linkFlows' ∧ ∀ other, flowsOn linkFlows' other =
      flowsOn linkFlows other ++ List.replicate (done.count other) ref)
    ?step ⟨filed, by simp⟩ run
  case step =>
    rintro done link rest middle middle' ⟨filedMiddle, lists⟩ pushed _
    rcases pushLink_eq_ok filedMiddle pushed with ⟨filed', _, lists'⟩
    refine ⟨filed', fun other => ?_⟩
    rw [lists', lists]
    by_cases here : other = link
    · subst other
      simp [List.replicate_succ']
    · simp [here, Ne.symm here]
  exact reached

/-- Retaining the flows of an index filters the list of every link. -/
theorem retainLinks_eq_ok {keep : FlowRef → Except Panic Bool} {kept : FlowRef → Bool}
    {linkFlows linkFlows' : List (LinkIx × FlowSet)} (filed : Filed linkFlows)
    (answers : ∀ link, ∀ ref ∈ flowsOn linkFlows link, ∀ b, keep ref = .ok b → b = kept ref)
    (run : retainLinks keep linkFlows = .ok linkFlows') :
    Filed linkFlows' ∧ (linkFlows'.map Prod.fst).Sublist (linkFlows.map Prod.fst) ∧
      ∀ link, flowsOn linkFlows' link = (flowsOn linkFlows link).filter kept := by
  simp only [retainLinks, bind_eq_ok, pure_eq_ok] at run
  rcases run with ⟨retained, mapped, rfl⟩
  rcases filed with ⟨keys, flat⟩
  induction linkFlows generalizing retained with
  | nil =>
      simp only [List.mapM_nil, pure_eq_ok] at mapped
      subst mapped
      exact ⟨⟨List.nodup_nil, by simp⟩, List.Sublist.refl _, fun _ => rfl⟩
  | cons entry rest ih =>
      rcases entry with ⟨first, set⟩
      rcases flat _ List.mem_cons_self with ⟨flows, setEq, _⟩
      dsimp only at setEq
      subst setEq
      rw [List.map_cons, List.nodup_cons] at keys
      simp only [List.mapM_cons, bind_eq_ok, pure_eq_ok, FlowSet.retain] at mapped
      rcases mapped with ⟨_, ⟨set, retainSet, rfl⟩, later, mapRest, rfl⟩
      have here : flowsOn ((first, FlowSet.flat flows) :: rest) first = flows := by
        simp only [flowsOn, if_true, FlowSet.iter, flowsOn_of_absent keys.1, List.append_nil]
      have elsewhere : ∀ link, link ≠ first →
          flowsOn ((first, FlowSet.flat flows) :: rest) link = flowsOn rest link := by
        intro link differs
        simp only [flowsOn, if_neg (Ne.symm differs)]
      cases retainFlat : retainM keep flows with
      | error failure => simp [retainFlat] at retainSet
      | ok out =>
          simp only [retainFlat, Except.map_ok, Except.ok.injEq] at retainSet
          subst retainSet
          have filtered : out = flows.filter kept := by
            refine retainM_eq_ok (fun ref mem => answers first ref ?_) retainFlat
            rw [here]
            exact mem
          rcases ih (fun link ref mem => by
              have differs : link ≠ first := fun same => by
                rw [same, flowsOn_of_absent keys.1] at mem
                cases mem
              exact answers link ref (elsewhere link differs ▸ mem))
            later mapRest keys.2 (fun entry mem => flat entry (List.mem_cons_of_mem _ mem)) with
            ⟨filed', sub, lists⟩
          have absent : first ∉ (later.filter fun entry => !entry.2.isEmpty).map Prod.fst :=
            fun mem => keys.1 (sub.subset mem)
          by_cases empty : out = []
          · rw [List.filter_cons_of_neg (by simp [FlowSet.isEmpty, empty])]
            refine ⟨filed', sub.cons _, fun link => ?_⟩
            by_cases same : link = first
            · subst link
              rw [here, flowsOn_of_absent absent, ← filtered, empty]
            · rw [elsewhere link same, lists]
          · rw [List.filter_cons_of_pos (by simp [FlowSet.isEmpty, empty])]
            refine ⟨⟨?_, ?_⟩, sub.cons_cons _, fun link => ?_⟩
            · rw [List.map_cons, List.nodup_cons]
              exact ⟨absent, filed'.keys⟩
            · intro entry mem
              rcases List.mem_cons.mp mem with rfl | inRest
              · exact ⟨out, rfl, empty⟩
              · exact filed'.flat entry inRest
            · by_cases same : link = first
              · subst link
                rw [here]
                simp only [flowsOn, if_true, FlowSet.iter, flowsOn_of_absent absent,
                  List.append_nil, filtered]
              · rw [elsewhere link same, ← lists]
                simp only [flowsOn, if_neg (Ne.symm same)]

/-- The index and the loopback flows agree with the running flows. -/
structure Indexed (state : NetState) : Prop where
  perFlow : state.fairness = .perFlowMaxMin
  filed : Filed state.linkFlows
  counts : ∀ link ref, (flowsOn state.linkFlows link).count ref =
    if ref ∈ state.runningFlows then (state.arena ref).route.path.count link else 0
  loopbacks : state.loopbackFlows =
    state.runningFlows.filter fun ref => (state.arena ref).isLoopback

namespace Indexed

theorem mem_flowsOn {state : NetState} (indexed : state.Indexed) {link : LinkIx} {ref : FlowRef} :
    ref ∈ flowsOn state.linkFlows link ↔
      ref ∈ state.runningFlows ∧ link ∈ (state.arena ref).route.path := by
  rw [← List.count_pos_iff, indexed.counts]
  split
  · rename_i running
    simp only [running, true_and, List.count_pos_iff]
  · rename_i idle
    simp only [idle, false_and, Nat.lt_irrefl]

/-- The index depends on the running flows and their routes. -/
theorem congr {state state' : NetState} (indexed : state.Indexed)
    (perFlow : state'.fairness = state.fairness)
    (running : state'.runningFlows = state.runningFlows)
    (links : state'.linkFlows = state.linkFlows)
    (loopbacks : state'.loopbackFlows = state.loopbackFlows)
    (routes : ∀ ref ∈ state.runningFlows, (state'.arena ref).route = (state.arena ref).route) :
    state'.Indexed where
  perFlow := perFlow.trans indexed.perFlow
  filed := links ▸ indexed.filed
  counts link ref := by
    rw [links, running, indexed.counts]
    split
    · rename_i mem
      rw [routes ref mem]
    · rfl
  loopbacks := by
    rw [loopbacks, running, indexed.loopbacks]
    apply List.filter_congr
    intro ref mem
    simp only [FlowState.isLoopback, routes ref mem]

end Indexed

theorem emitFlow_indexed {state state' : NetState} {ref : FlowRef} (indexed : state.Indexed)
    (idle : ref ∉ state.runningFlows) (run : state.emitFlow ref = .ok state') :
    state'.Indexed := by
  simp only [emitFlow, bind_eq_ok, pure_eq_ok, indexed.perFlow] at run
  rcases run with ⟨linkFlows, links, rfl⟩
  rcases pushLinks_eq_ok indexed.filed links with ⟨filed, lists⟩
  refine ⟨rfl, filed, fun link other => ?_, ?_⟩
  · dsimp only
    rw [lists, List.count_append, indexed.counts, List.count_replicate]
    by_cases same : other = ref
    · subst other
      simp [idle]
    · simp [same, Ne.symm same]
  · dsimp only
    rw [List.filter_append, indexed.loopbacks]
    split
    · rename_i loopback
      simp [loopback]
    · rename_i linked
      simp [linked]

theorem pushFlow_indexed {state state' : NetState} {ref : FlowRef} {simTs : Timestamp}
    (indexed : state.Indexed) (idle : ref ∉ state.runningFlows)
    (run : state.pushFlow ref simTs = .ok state') : state'.Indexed := by
  rcases pushFlow_eq_ok run with ⟨_, rfl⟩ | ⟨_, emitted⟩
  · exact indexed.congr rfl rfl rfl rfl fun _ _ => rfl
  · exact emitFlow_indexed indexed idle emitted

/-- Flows that are not running, each named once, are started. -/
theorem emitFlows_indexed {state state' : NetState} {emitted : List FlowRef}
    (indexed : state.Indexed) (nodup : (state.runningFlows ++ emitted).Nodup)
    (run : emitted.foldlM emitFlow state = .ok state') : state'.Indexed := by
  have reached := foldlM_prefix (P := fun done state' =>
    state'.Indexed ∧ state'.runningFlows = state.runningFlows ++ done) ?step
    ⟨indexed, by simp⟩ run
  case step =>
    rintro done ref rest middle state'' ⟨indexedMiddle, running⟩ step whole
    rcases emitFlow_eq_ok step with ⟨_, _, _, runningEq⟩
    refine ⟨emitFlow_indexed indexedMiddle ?_ step, ?_⟩
    · rw [running]
      rw [← whole, ← List.append_assoc, List.nodup_append] at nodup
      exact fun mem => nodup.2.2 ref mem ref List.mem_cons_self rfl
    · rw [runningEq]
      dsimp only
      rw [running, List.append_assoc]
  exact reached.1

/-- Flows that are not running, each named once, are pushed. -/
theorem pushFlows_indexed {state state' : NetState} {flows : List FlowRef} {simTs : Timestamp}
    (indexed : state.Indexed) (nodup : (state.runningFlows ++ flows).Nodup)
    (run : flows.foldlM (fun state ref => state.pushFlow ref simTs) state = .ok state') :
    state'.Indexed := by
  have reached := foldlM_prefix (P := fun done state' =>
    state'.Indexed ∧ ∀ ref ∈ state'.runningFlows, ref ∈ state.runningFlows ++ done) ?step
    ⟨indexed, by simp⟩ run
  case step =>
    rintro done ref rest middle state'' ⟨indexedMiddle, running⟩ step whole
    refine ⟨pushFlow_indexed indexedMiddle ?_ step, ?_⟩
    · intro mem
      rw [← whole, ← List.append_assoc, List.nodup_append] at nodup
      exact nodup.2.2 ref (running ref mem) ref List.mem_cons_self rfl
    · intro other mem
      rw [← List.append_assoc]
      rcases pushFlow_eq_ok step with ⟨_, rfl⟩ | ⟨_, emitted⟩
      · exact List.mem_append_left _ (running other mem)
      · rcases emitFlow_eq_ok emitted with ⟨_, _, _, rfl⟩
        rcases List.mem_append.mp mem with old | new
        · exact List.mem_append_left _ (running other old)
        · exact List.mem_append_right _ new
  exact reached.1

/-- Restricting the running flows, the index and the loopback flows by one test. -/
theorem Indexed.filter {state : NetState} {keep : FlowRef → Except Panic Bool}
    {kept : FlowRef → Bool} {linkFlows : List (LinkIx × FlowSet)} (indexed : state.Indexed)
    (answers : ∀ ref ∈ state.runningFlows, ∀ b, keep ref = .ok b → b = kept ref)
    (links : retainLinks keep state.linkFlows = .ok linkFlows) :
    Indexed { state with
      runningFlows := state.runningFlows.filter kept
      linkFlows := linkFlows
      loopbackFlows := state.loopbackFlows.filter kept } := by
  rcases retainLinks_eq_ok indexed.filed
      (fun link ref mem => answers ref (indexed.mem_flowsOn.mp mem).1) links with
    ⟨filed, _, lists⟩
  refine ⟨indexed.perFlow, filed, fun link ref => ?_, ?_⟩
  · dsimp only
    rw [lists]
    by_cases stays : kept ref = true
    · rw [List.count_filter stays, indexed.counts]
      simp only [List.mem_filter, stays, and_true]
    · have gone : ref ∉ (flowsOn state.linkFlows link).filter kept :=
        fun mem => stays (List.mem_filter.mp mem).2
      rw [List.count_eq_zero_of_not_mem gone, if_neg]
      exact fun mem => stays (List.mem_filter.mp mem).2
  · dsimp only
    rw [indexed.loopbacks, List.filter_filter, List.filter_filter]
    apply List.filter_congr
    intro ref _
    exact Bool.and_comm _ _

theorem completeFlows_indexed {simTs : Timestamp} {tsInc : Duration} {state state' : NetState}
    {compFlows : List TraceRecord} (indexed : state.Indexed) (nodup : state.runningFlows.Nodup)
    (run : state.completeFlows simTs tsInc = .ok (state', compFlows)) : state'.Indexed := by
  simp only [completeFlows, bind_eq_ok, pure_eq_ok, Prod.exists, Prod.mk.injEq] at run
  rcases run with ⟨middle, comp, advanced, running, retain, linkFlows, links, loopbackFlows,
    loopbacks, rfl, rfl⟩
  rcases advanceFlows_eq_ok nodup advanced with ⟨rfl, rfl⟩
  dsimp only at retain links loopbacks ⊢
  have moved : Indexed { state with
      arena := fun ref => if ref ∈ state.runningFlows then stepFlow simTs tsInc (state.arena ref)
        else state.arena ref
      retiredFlows := (state.completing simTs tsInc).reverse ++ state.retiredFlows } := by
    refine indexed.congr rfl rfl rfl rfl fun ref mem => ?_
    have same := congrArg FlowState.route (fresh_stepFlow simTs tsInc (state.arena ref))
    dsimp only
    rw [if_pos mem]
    exact same
  have answers : ∀ ref ∈ state.runningFlows, ∀ b, (do
      let complete ← (if ref ∈ state.runningFlows then stepFlow simTs tsInc (state.arena ref)
        else state.arena ref).completed
      return !complete : Except Panic Bool) = .ok b →
      b = (fun ref => !completesIn simTs tsInc (state.arena ref)) ref := by
    intro ref mem b answer
    simp only [mem, if_true, bind_eq_ok, pure_eq_ok] at answer
    rcases answer with ⟨complete, answer, rfl⟩
    rw [(FlowState.completed_eq_ok answer).1, isCompleted_stepFlow]
  have loopbackEq : loopbackFlows =
      state.loopbackFlows.filter fun ref => !completesIn simTs tsInc (state.arena ref) := by
    refine retainM_eq_ok (fun ref mem => ?_) loopbacks
    rw [indexed.loopbacks] at mem
    exact answers ref (List.mem_of_mem_filter mem)
  rw [running_of_retain (fun ref mem => if_pos mem) retain, loopbackEq]
  exact moved.filter answers links

theorem rollbackTo_indexed {state state' : NetState} {simTs pastTs : Timestamp}
    {revived : List FlowRef} (indexed : state.Indexed) (nodup : state.refs.Nodup)
    (run : state.rollbackTo simTs pastTs = .ok (state', revived)) : state'.Indexed := by
  simp only [rollbackTo, bind_eq_ok, pure_eq_ok, Prod.exists, Prod.mk.injEq] at run
  rcases run with ⟨toRunning, retired, revive, middle, emitted, arena, reverted, linkFlows, links,
    final, pushed, rfl, rfl⟩
  have distinct : (state.runningFlows ++ toRunning).Nodup := by
    rw [refs, reviveRetired_eq_ok revive, List.append_assoc, ← List.append_assoc
      state.runningFlows] at nodup
    exact (List.nodup_append.mp (List.nodup_append.mp nodup).2.1).1
  have started : middle.Indexed := by
    refine emitFlows_indexed ?_ ?_ emitted
    · exact indexed.congr rfl rfl rfl rfl fun _ _ => rfl
    · exact distinct
  rcases emitFlows_eq_ok emitted with ⟨linkFlows', loopbackFlows', rfl⟩
  dsimp only at reverted links pushed started
  have moved : Indexed { state with
      arena := arena
      runningFlows := state.runningFlows ++ toRunning
      linkFlows := linkFlows'
      loopbackFlows := loopbackFlows'
      retiredFlows := retired } := by
    refine started.congr rfl rfl rfl rfl fun ref _ => ?_
    simpa using congrArg FlowState.route (fresh_revertFlows reverted ref)
  refine pushFlows_indexed (moved.filter (fun _ _ b answer => (Except.ok.inj answer).symm) links)
    ?_ pushed
  exact (List.filter_append_perm _ _).nodup_iff.mpr distinct

end NetState

end Phantora.Netsim
