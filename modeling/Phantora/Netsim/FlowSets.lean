import Phantora.Lib.Grouping
import Phantora.Netsim.Frame
import Phantora.Netsim.Grouped

/-!
# Enumerating flow sets

The iterators of a flow set go through its groups one after the other. They go
on to the next group at most once per call, so that they would stop at an empty
group; the groups of a flow set are never empty, and the iterators yield every
stored flow.
-/

namespace Phantora.Netsim

open Outcome

/-- `FlowSetIter` and `FlowSetIterMut`: what is left of the flows, or of the groups and of the group
at hand. -/
inductive FlowSetIter where
  | flatIter (iter : List FlowRef)
  | groupByVmPairIter (iter1 : List (List FlowRef)) (iter2 : Option (List FlowRef))
  | groupByTenantIter (iter1 : List (List FlowRef)) (iter2 : Option (List FlowRef))
deriving DecidableEq, Repr

namespace FlowSetIter

/-- `impl_groupped_iter!`: an item and what is left. -/
def grouppedNext (iter1 : List (List FlowRef)) :
    Option (List FlowRef) → Option FlowRef × List (List FlowRef) × Option (List FlowRef)
  | none => (none, iter1, none)
  | some (ref :: refs) => (some ref, iter1, some refs)
  | some [] =>
      match iter1 with
      | [] => (none, [], none)
      | group :: groups => (group.head?, groups, some group.tail)

def next : FlowSetIter → Option FlowRef × FlowSetIter
  | flatIter iter => (iter.head?, flatIter iter.tail)
  | groupByVmPairIter iter1 iter2 =>
      let (item, iter1, iter2) := grouppedNext iter1 iter2
      (item, groupByVmPairIter iter1 iter2)
  | groupByTenantIter iter1 iter2 =>
      let (item, iter1, iter2) := grouppedNext iter1 iter2
      (item, groupByTenantIter iter1 iter2)

/-- The number of flows that are left in groups. -/
def grouppedSize (iter1 : List (List FlowRef)) (iter2 : Option (List FlowRef)) : ℕ :=
  (iter2.getD []).length + iter1.flatten.length

/-- The number of flows that are left. -/
def size : FlowSetIter → ℕ
  | flatIter iter => iter.length
  | groupByVmPairIter iter1 iter2 => grouppedSize iter1 iter2
  | groupByTenantIter iter1 iter2 => grouppedSize iter1 iter2

theorem grouppedSize_next {iter1 iter1' : List (List FlowRef)}
    {iter2 iter2' : Option (List FlowRef)} {ref : FlowRef}
    (yields : grouppedNext iter1 iter2 = (some ref, iter1', iter2')) :
    grouppedSize iter1' iter2' < grouppedSize iter1 iter2 := by
  rcases iter2 with _ | _ | ⟨first, refs⟩
  · simp [grouppedNext] at yields
  · rcases iter1 with _ | ⟨group, groups⟩
    · simp [grouppedNext] at yields
    · rcases group with _ | ⟨first, refs⟩
      · simp [grouppedNext] at yields
      · simp only [grouppedNext, List.head?_cons, List.tail_cons, Prod.mk.injEq] at yields
        rcases yields with ⟨_, rfl, rfl⟩
        simp [grouppedSize]
  · simp only [grouppedNext, Prod.mk.injEq] at yields
    rcases yields with ⟨_, rfl, rfl⟩
    simp [grouppedSize]

theorem size_next {it it' : FlowSetIter} {ref : FlowRef} (yields : it.next = (some ref, it')) :
    it'.size < it.size := by
  cases it with
  | flatIter iter =>
      rcases iter with _ | ⟨first, refs⟩
      · simp [next] at yields
      · simp only [next, List.head?_cons, List.tail_cons, Prod.mk.injEq] at yields
        rcases yields with ⟨_, rfl⟩
        simp [size]
  | groupByVmPairIter iter1 iter2 =>
      simp only [next, Prod.mk.injEq] at yields
      rcases yields with ⟨item, rfl⟩
      exact grouppedSize_next (Prod.ext item rfl)
  | groupByTenantIter iter1 iter2 =>
      simp only [next, Prod.mk.injEq] at yields
      rcases yields with ⟨item, rfl⟩
      exact grouppedSize_next (Prod.ext item rfl)

/-- The items of a loop over the iterator, which ends at the first call without an item. -/
def collect (it : FlowSetIter) : List FlowRef :=
  match _yields : it.next with
  | (none, _) => []
  | (some ref, it') => ref :: it'.collect
termination_by it.size
decreasing_by exact size_next _yields

theorem collect_of_none {it it' : FlowSetIter} (ends : it.next = (none, it')) :
    it.collect = [] := by
  rw [collect]
  split
  · rfl
  · rename_i yields
    rw [ends] at yields
    cases yields

theorem collect_of_some {it it' : FlowSetIter} {ref : FlowRef}
    (yields : it.next = (some ref, it')) : it.collect = ref :: it'.collect := by
  rw [collect]
  split
  · rename_i ends
    rw [ends] at yields
    cases yields
  · rename_i same
    rw [yields] at same
    cases same
    rfl

@[simp]
theorem collect_flatIter (refs : List FlowRef) : (flatIter refs).collect = refs := by
  induction refs with
  | nil => exact collect_of_none rfl
  | cons ref refs ih =>
      have first : (flatIter (ref :: refs)).collect = ref :: (flatIter refs).collect :=
        collect_of_some rfl
      rw [first, ih]

/-- An iterator over groups yields the group at hand and the groups after it up to an empty one. -/
theorem collect_groupped {iterOf : List (List FlowRef) → Option (List FlowRef) → FlowSetIter}
    (nexts : ∀ iter1 iter2, (iterOf iter1 iter2).next =
      ((grouppedNext iter1 iter2).1,
        iterOf (grouppedNext iter1 iter2).2.1 (grouppedNext iter1 iter2).2.2))
    (groups : List (List FlowRef)) (refs : List FlowRef) :
    (iterOf groups (some refs)).collect =
      refs ++ (groups.takeWhile fun group => !group.isEmpty).flatten := by
  have atHand : ∀ groups refs, (iterOf groups (some refs)).collect =
      refs ++ (iterOf groups (some [])).collect := by
    intro groups refs
    induction refs with
    | nil => rfl
    | cons ref refs ih =>
        have first : (iterOf groups (some (ref :: refs))).collect =
            ref :: (iterOf groups (some refs)).collect := collect_of_some (nexts _ _)
        rw [first, ih, List.cons_append]
  rw [atHand]
  congr 1
  induction groups with
  | nil => exact collect_of_none (nexts _ _)
  | cons group groups ih =>
      rcases group with _ | ⟨ref, refs⟩
      · exact collect_of_none (nexts _ _)
      · have first : (iterOf ((ref :: refs) :: groups) (some [])).collect =
            ref :: (iterOf groups (some refs)).collect := collect_of_some (nexts _ _)
        rw [first, atHand, ih]
        rfl

/-- An iterator that starts at the first of some groups. -/
theorem collect_groups {iterOf : List (List FlowRef) → Option (List FlowRef) → FlowSetIter}
    (nexts : ∀ iter1 iter2, (iterOf iter1 iter2).next =
      ((grouppedNext iter1 iter2).1,
        iterOf (grouppedNext iter1 iter2).2.1 (grouppedNext iter1 iter2).2.2))
    (groups : List (List FlowRef)) :
    (iterOf groups.tail groups.head?).collect = FlowSet.groupedIter groups := by
  cases groups with
  | nil => exact collect_of_none (nexts _ _)
  | cons group groups => exact collect_groupped nexts groups group

end FlowSetIter

namespace FlowSet

/-- The iterator at its start, with the groups in the order of the hash map. -/
def toFlowSetIter (platform : Platform) (stamp : ℕ) : FlowSet → FlowSetIter
  | flat flows => .flatIter flows
  | groupByVmPair groups =>
      let values := platform.order stamp (groups.map Prod.snd)
      .groupByVmPairIter values.tail values.head?
  | groupByTenant groups =>
      let values := platform.order stamp (groups.map Prod.snd)
      .groupByTenantIter values.tail values.head?

/-- `iter_mut` differs from `iter` in what it lets its caller do. -/
def toFlowSetIterMut : Platform → ℕ → FlowSet → FlowSetIter :=
  toFlowSetIter

variable {set set' : FlowSet}

/-- The iterator yields what `iter` says when the groups are in their order. -/
theorem collect_toFlowSetIter_inOrder (set : FlowSet) (fuel stamp : ℕ) :
    (set.toFlowSetIter (.inOrder fuel) stamp).collect = set.iter := by
  cases set with
  | flat flows => exact FlowSetIter.collect_flatIter flows
  | groupByVmPair groups => exact FlowSetIter.collect_groups (fun _ _ => rfl) _
  | groupByTenant groups => exact FlowSetIter.collect_groups (fun _ _ => rfl) _

/-- The flows of a flow set, group by group. -/
def contents : FlowSet → List FlowRef
  | flat flows => flows
  | groupByVmPair groups => groups.flatMap Prod.snd
  | groupByTenant groups => groups.flatMap Prod.snd

/-- Without empty groups, the iterator yields the contents in some order. -/
theorem collect_toFlowSetIter (nonempty : ∀ group ∈ set.groups, group ≠ []) (platform : Platform)
    (stamp : ℕ) : (set.toFlowSetIter platform stamp).collect.Perm set.contents := by
  have all : ∀ groups : List (ℕ × List FlowRef), (∀ group ∈ groups.map Prod.snd, group ≠ []) →
      (groupedIter (platform.order stamp (groups.map Prod.snd))).Perm
        (groups.flatMap Prod.snd) := by
    intro groups nonempty
    have order := platform.order_perm stamp (groups.map Prod.snd)
    rw [groupedIter_eq_flatten fun group mem => nonempty group (order.mem_iff.mp mem),
      List.flatMap_def]
    exact order.flatten
  cases set with
  | flat flows =>
      rw [toFlowSetIter, FlowSetIter.collect_flatIter]
      exact List.Perm.refl _
  | groupByVmPair groups =>
      rw [toFlowSetIter, FlowSetIter.collect_groups fun _ _ => rfl]
      exact all groups nonempty
  | groupByTenant groups =>
      rw [toFlowSetIter, FlowSetIter.collect_groups fun _ _ => rfl]
      exact all groups nonempty

/-- Without empty groups, a flow set is empty when it has no flow. -/
theorem isEmpty_iff (nonempty : ∀ group ∈ set.groups, group ≠ []) :
    set.isEmpty = true ↔ set.contents = [] := by
  have all : ∀ groups : List (ℕ × List FlowRef), (∀ group ∈ groups.map Prod.snd, group ≠ []) →
      (groups.isEmpty = true ↔ groups.flatMap Prod.snd = []) := by
    intro groups nonempty
    cases groups with
    | nil => simp
    | cons group groups =>
        have first := nonempty group.2 List.mem_cons_self
        simp [first]
  cases set with
  | flat flows => exact List.isEmpty_iff
  | groupByVmPair groups => exact all groups nonempty
  | groupByTenant groups => exact all groups nonempty

theorem pushGroup_eq_insert (groups : List (ℕ × List FlowRef)) (key : ℕ) (ref : FlowRef) :
    pushGroup groups key ref = Grouping.insert key ref groups := by
  induction groups with
  | nil => rfl
  | cons group groups ih => simp only [pushGroup, Grouping.insert, ih]

theorem pushGroup_nonempty {groups : List (ℕ × List FlowRef)} {key : ℕ} {ref : FlowRef}
    (nonempty : ∀ group ∈ groups, group.2 ≠ []) :
    ∀ group ∈ pushGroup groups key ref, group.2 ≠ [] := by
  induction groups with
  | nil => simp [pushGroup]
  | cons first groups ih =>
      rw [List.forall_mem_cons] at nonempty
      simp only [pushGroup]
      split
      · simpa using nonempty.2
      · simpa using ⟨nonempty.1, fun key refs => ih nonempty.2 (key, refs)⟩

/-- What `retain` keeps of the groups. -/
theorem retainGroups_eq_ok {keep : FlowRef → Except Panic Bool}
    {groups kept : List (ℕ × List FlowRef)} (run : retainGroups keep groups = .ok kept) :
    kept = (groups.map fun group =>
      (group.1, group.2.filter fun ref => (keep ref).toOption.getD false)).filter
        fun group => !group.2.isEmpty := by
  simp only [retainGroups, bind_eq_ok, pure_eq_ok] at run
  rcases run with ⟨retained, each, rfl⟩
  congr 1
  induction groups generalizing retained with
  | nil =>
      simp only [List.mapM_nil, pure_eq_ok] at each
      exact each.symm
  | cons group groups ih =>
      simp only [List.mapM_cons, bind_eq_ok, pure_eq_ok] at each
      rcases each with ⟨_, ⟨refs, first, rfl⟩, rest, later, rfl⟩
      rw [List.map_cons, ih rest later, retainM_eq_ok ?_ first]
      intro ref _ answer known
      simp [known, Except.toOption]

/-- A call that changes a flow set, with what it reads: the states of the flows, or the test. -/
inductive Call where
  | push (arena : Arena) (ref : FlowRef)
  | retain (keep : FlowRef → Except Panic Bool)

def perform (set : FlowSet) : Call → Except Panic FlowSet
  | .push arena ref => set.push arena ref
  | .retain keep => set.retain keep

/-- What a call does to the flows that should be stored. -/
def Call.store (stored : List FlowRef) : Call → List FlowRef
  | .push _ ref => stored ++ [ref]
  | .retain keep => stored.filter fun ref => (keep ref).toOption.getD false

/-- The flows that are pushed and kept by all later calls. -/
def storedBy (calls : List Call) : List FlowRef :=
  calls.foldl Call.store []

/-- No group is empty, and the flow set holds the flows that should be stored. -/
structure Stores (stored : List FlowRef) (set : FlowSet) : Prop where
  nonempty : ∀ group ∈ set.groups, group ≠ []
  contents : set.contents.Perm stored

theorem stores_new (fairness : FairnessModel) : Stores [] (new fairness) := by
  cases fairness <;> exact ⟨fun _ mem => absurd mem List.not_mem_nil, List.Perm.refl _⟩

theorem Stores.push {stored : List FlowRef} {arena : Arena} {ref : FlowRef}
    (stores : Stores stored set) (run : set.push arena ref = .ok set') :
    Stores (stored ++ [ref]) set' := by
  have all : ∀ (groups : List (ℕ × List FlowRef)) (key : ℕ),
      (∀ group ∈ groups.map Prod.snd, group ≠ []) → (groups.flatMap Prod.snd).Perm stored →
      (∀ group ∈ (pushGroup groups key ref).map Prod.snd, group ≠ []) ∧
        ((pushGroup groups key ref).flatMap Prod.snd).Perm (stored ++ [ref]) := by
    intro groups key nonempty contents
    rw [List.forall_mem_map] at nonempty ⊢
    refine ⟨pushGroup_nonempty nonempty, ?_⟩
    rw [pushGroup_eq_insert]
    exact (Grouping.insert_perm key ref groups).trans (contents.append_right [ref])
  cases set with
  | flat flows =>
      simp only [FlowSet.push, Except.ok.injEq] at run
      subst run
      exact ⟨stores.nonempty, stores.contents.append_right [ref]⟩
  | groupByVmPair groups =>
      simp only [FlowSet.push, bind_eq_ok, pure_eq_ok] at run
      rcases run with ⟨key, _, rfl⟩
      rcases all groups key stores.nonempty stores.contents with ⟨nonempty, contents⟩
      exact ⟨nonempty, contents⟩
  | groupByTenant groups =>
      simp only [FlowSet.push, bind_eq_ok, pure_eq_ok] at run
      rcases run with ⟨key, _, rfl⟩
      rcases all groups key stores.nonempty stores.contents with ⟨nonempty, contents⟩
      exact ⟨nonempty, contents⟩

theorem Stores.retain {stored : List FlowRef} {keep : FlowRef → Except Panic Bool}
    (stores : Stores stored set) (run : set.retain keep = .ok set') :
    Stores (stored.filter fun ref => (keep ref).toOption.getD false) set' := by
  have all : ∀ groups kept : List (ℕ × List FlowRef), retainGroups keep groups = .ok kept →
      (groups.flatMap Prod.snd).Perm stored → (∀ group ∈ kept.map Prod.snd, group ≠ []) ∧
        (kept.flatMap Prod.snd).Perm
          (stored.filter fun ref => (keep ref).toOption.getD false) := by
    intro groups kept retained contents
    rw [retainGroups_eq_ok retained]
    refine ⟨?_, ?_⟩
    · simp
    · -- the groups that are dropped have no flow left
      have dropped : ∀ groups : List (ℕ × List FlowRef),
          (groups.filter fun group => !group.2.isEmpty).flatMap Prod.snd =
            groups.flatMap Prod.snd := by
        intro groups
        induction groups with
        | nil => rfl
        | cons group groups ih =>
            rcases group with ⟨key, _ | ⟨ref, refs⟩⟩
            · simpa using ih
            · simpa using ih
      rw [dropped, List.flatMap_map, ← List.filter_flatMap]
      exact contents.filter _
  cases set with
  | flat flows =>
      simp only [FlowSet.retain, map_eq_ok] at run
      rcases run with ⟨kept, retained, rfl⟩
      refine ⟨stores.nonempty, ?_⟩
      have same : kept = flows.filter fun ref => (keep ref).toOption.getD false := by
        refine retainM_eq_ok ?_ retained
        intro ref _ answer known
        simp [known, Except.toOption]
      rw [FlowSet.contents, same]
      exact stores.contents.filter _
  | groupByVmPair groups =>
      simp only [FlowSet.retain, map_eq_ok] at run
      rcases run with ⟨kept, retained, rfl⟩
      rcases all groups kept retained stores.contents with ⟨nonempty, contents⟩
      exact ⟨nonempty, contents⟩
  | groupByTenant groups =>
      simp only [FlowSet.retain, map_eq_ok] at run
      rcases run with ⟨kept, retained, rfl⟩
      rcases all groups kept retained stores.contents with ⟨nonempty, contents⟩
      exact ⟨nonempty, contents⟩

theorem stores_of_calls {fairness : FairnessModel} {calls : List Call}
    (run : calls.foldlM perform (new fairness) = .ok set) : Stores (storedBy calls) set := by
  refine foldlM_prefix (fun done set => Stores (storedBy done) set) ?_ (stores_new fairness) run
  intro done call rest middle set' stores taken _
  rw [storedBy, List.foldl_concat]
  cases call with
  | push arena ref => exact stores.push taken
  | retain keep => exact stores.retain taken

/-- After any calls no group is empty, a flow set is empty when no flow is stored, and both
iterators yield every stored flow once, in whatever order the groups are. -/
theorem enumerates_of_calls {fairness : FairnessModel} {calls : List Call}
    (run : calls.foldlM perform (new fairness) = .ok set) :
    (∀ group ∈ set.groups, group ≠ []) ∧ (set.isEmpty = true ↔ storedBy calls = []) ∧
      ∀ platform stamp,
        (set.toFlowSetIter platform stamp).collect.Perm (storedBy calls) ∧
          (set.toFlowSetIterMut platform stamp).collect.Perm (storedBy calls) := by
  have stores := stores_of_calls run
  refine ⟨stores.nonempty, ?_, fun platform stamp => ?_⟩
  · rw [isEmpty_iff stores.nonempty, ← List.perm_nil, ← List.perm_nil]
    exact stores.contents.congr_left []
  · have yields := (collect_toFlowSetIter stores.nonempty platform stamp).trans stores.contents
    exact ⟨yields, yields⟩

/-- Three flows of two tenants. -/
def tenantFlows : Arena :=
  fun ref => { (default : FlowState) with
    flow := { id := ref, bytes := 1, src := "a", dst := "b", tenantId := some (ref % 2) } }

/-- The flows of both tenants are stored, then the only flow of the second one is dropped. -/
def dropSecondTenant : List Call :=
  [.push tenantFlows 0, .push tenantFlows 1, .push tenantFlows 2, .retain fun ref => .ok (ref ≠ 1)]

theorem enumerates_of_calls_dropSecondTenant : ∃ set : FlowSet,
    (∀ group ∈ set.groups, group ≠ []) ∧ (set.isEmpty = true ↔ storedBy dropSecondTenant = []) ∧
      ∀ platform stamp,
        (set.toFlowSetIter platform stamp).collect.Perm (storedBy dropSecondTenant) ∧
          (set.toFlowSetIterMut platform stamp).collect.Perm (storedBy dropSecondTenant) := by
  have run : dropSecondTenant.foldlM perform (new .tenantFlowMaxMin) =
      .ok (groupByTenant [(0, [0, 2])]) := by decide
  exact ⟨_, enumerates_of_calls run⟩

end FlowSet

end Phantora.Netsim
