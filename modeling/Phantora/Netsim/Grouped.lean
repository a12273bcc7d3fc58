import Mathlib.Data.List.TakeWhile
import Phantora.Netsim.MaxMin

/-!
# Filling by groups

With flow sets that are grouped, a link divides what it has left among its
groups and the share of a group among the flows of the group. Every round stops
a flow, and no link is overbooked.
-/

namespace Phantora.Netsim

open Outcome

namespace FlowSet

/-- The groups of a flow set. -/
def groups : FlowSet → List (List FlowRef)
  | flat _ => []
  | groupByVmPair groups => groups.map Prod.snd
  | groupByTenant groups => groups.map Prod.snd

def isGrouped : FlowSet → Bool
  | flat _ => false
  | groupByVmPair _ => true
  | groupByTenant _ => true

theorem groupedIter_eq_flatten {groups : List (List FlowRef)}
    (nonempty : ∀ group ∈ groups, group ≠ []) : groupedIter groups = groups.flatten := by
  cases groups with
  | nil => rfl
  | cons group groups =>
      have all : groups.takeWhile (fun group => !group.isEmpty) = groups := by
        apply List.takeWhile_eq_self_iff.mpr
        intro other mem
        simpa using nonempty other (List.mem_cons_of_mem _ mem)
      rw [groupedIter, all, List.flatten_cons]

theorem iter_eq_flatten {set : FlowSet} (grouped : set.isGrouped = true)
    (nonempty : ∀ group ∈ set.groups, group ≠ []) : set.iter = set.groups.flatten := by
  cases set with
  | flat flows => cases grouped
  | groupByVmPair groups => exact groupedIter_eq_flatten nonempty
  | groupByTenant groups => exact groupedIter_eq_flatten nonempty

theorem not_isEmpty_of_mem {set : FlowSet} {group : List FlowRef} (mem : group ∈ set.groups) :
    ¬set.isEmpty = true := by
  cases set with
  | flat flows => cases mem
  | groupByVmPair groups =>
      intro empty
      rw [isEmpty, List.isEmpty_iff] at empty
      simp [FlowSet.groups, empty] at mem
  | groupByTenant groups =>
      intro empty
      rw [isEmpty, List.isEmpty_iff] at empty
      simp [FlowSet.groups, empty] at mem

end FlowSet

namespace Filling

/-- Each link is filed once, under a set of groups that are not empty. -/
structure GroupFiled (linkFlows : List (LinkIx × FlowSet)) : Prop where
  keys : (linkFlows.map Prod.fst).Nodup
  grouped : ∀ entry ∈ linkFlows, entry.2.isGrouped = true
  nonempty : ∀ entry ∈ linkFlows, ∀ group ∈ entry.2.groups, group ≠ []

theorem GroupFiled.crossing_eq {cluster : Cluster} {linkFlows : List (LinkIx × FlowSet)}
    (filed : GroupFiled linkFlows) {entry : LinkIx × FlowSet} (mem : entry ∈ linkFlows) :
    (network cluster linkFlows).crossing entry.1 = (entry.2.groups.flatten : Multiset FlowRef) := by
  have onLink := NetState.flowsOn_eq filed.keys mem
  rw [FlowSet.iter_eq_flatten (filed.grouped entry mem) (filed.nonempty entry mem)] at onLink
  exact congrArg _ onLink

theorem calcDelta_grouped {fairness : FairnessModel} {bandwidth : ℕ} {set : FlowSet} {arena : Arena}
    {result : ℕ × Arena} (grouping : fairness ≠ .perFlowMaxMin) (grouped : set.isGrouped = true)
    (run : calcDeltaOnGroup bandwidth set.groups arena = .ok result) :
    calcDelta fairness bandwidth set arena = .ok result := by
  have groupped : calcDeltaGroupped bandwidth set arena = .ok result := by
    cases set with
    | flat flows => cases grouped
    | groupByVmPair groups => exact run
    | groupByTenant groups => exact run
  cases fairness with
  | perFlowMaxMin => exact absurd rfl grouping
  | perVmPairMaxMin => exact groupped
  | tenantFlowMaxMin => exact groupped

/-- The increase that a link grants to each flow of a group. -/
def groupShare (net : WaterFilling.Network FlowRef LinkIx) (s : WaterFilling.State FlowRef)
    (entry : LinkIx × FlowSet) (group : List FlowRef) : ℕ :=
  (net.capacity entry.1 - WaterFilling.load net s entry.1) /
    WaterFilling.objects s entry.2.groups / WaterFilling.members s group

/-- The flows of the groups of `done` are capped at their part of the share of a group. -/
structure Granted (s : WaterFilling.State FlowRef) (share first : ℕ) (arena : Arena)
    (done : List (List FlowRef)) (acc : ℕ × Arena) : Prop where
  delta : ∀ x, x ≤ acc.1 ↔ x ≤ first ∧ ∀ group ∈ done, 0 < WaterFilling.members s group →
    x ≤ share / WaterFilling.members s group
  same : ∀ ref, acc.2 ref = { arena ref with speedBound := (acc.2 ref).speedBound }
  bound : ∀ ref x, (acc.2 ref).speedBound ≤ x ↔ (arena ref).speedBound ≤ x ∨
    ∃ group ∈ done, 0 < WaterFilling.members s group ∧ ref ∈ group ∧
      (arena ref).speed + (share / WaterFilling.members s group : ℕ) ≤ x

open WaterFilling in
theorem granted_boundGroups {s : WaterFilling.State FlowRef} {share first : ℕ} {arena : Arena}
    {groups : List (List FlowRef)} (small : share ≤ u64Max)
    (converged : ∀ ref ∈ groups.flatten, (arena ref).converged = s.frozen ref) :
    Granted s share first arena groups (groups.foldl (boundGroup share) (first, arena)) := by
  induction groups using List.reverseRecOn with
  | nil => exact ⟨by simp, fun ref => rfl, by simp⟩
  | append_singleton done group ih =>
      rw [List.foldl_append, List.foldl_cons, List.foldl_nil]
      have before := ih fun ref mem => converged ref (by simp_all)
      generalize done.foldl (boundGroup share) (first, arena) = acc at before
      have count : numActiveFlows acc.2 group = members s group := by
        apply List.countP_congr
        intro ref mem
        rw [before.same, converged ref (by simp [mem])]
        simp
      unfold boundGroup
      simp only [count]
      split
      · rename_i none
        have more : ∀ P : List FlowRef → Prop, (∃ other ∈ done ++ [group], 0 < members s other ∧
            P other) ↔ ∃ other ∈ done, 0 < members s other ∧ P other := by
          intro P
          simp [or_and_right, exists_or, none]
        refine ⟨fun x => ?_, before.same, fun ref x => ?_⟩
        · rw [before.delta]
          simp [none, or_imp, forall_and]
        · rw [before.bound, more]
      · rename_i some
        have positive : 0 < members s group := Nat.pos_of_ne_zero some
        have capped : ∀ ref, acc.2.forEach group (capFlow (share / members s group)) ref =
            if ref ∈ group then capFlow (share / members s group) (acc.2 ref) else acc.2 ref :=
          fun ref => acc.2.forEach_apply_of_idempotent (capFlow_idempotent _) ref
        rw [divBandwidth_natCast small positive]
        refine ⟨fun x => ?_, fun ref => ?_, fun ref x => ?_⟩
        · rw [Nat.le_min, before.delta]
          simp [positive, or_imp, forall_and, and_assoc]
        · dsimp only
          rw [capped]
          split
          · rw [capFlow, before.same]
          · exact before.same ref
        · have speed : (acc.2 ref).speed = (arena ref).speed := by rw [before.same]
          have split : (∃ other ∈ done ++ [group], 0 < members s other ∧ ref ∈ other ∧
              (arena ref).speed + (share / members s other : ℕ) ≤ x) ↔
              (∃ other ∈ done, 0 < members s other ∧ ref ∈ other ∧
                (arena ref).speed + (share / members s other : ℕ) ≤ x) ∨
              (ref ∈ group ∧ (arena ref).speed + (share / members s group : ℕ) ≤ x) := by
            simp [or_and_right, exists_or, positive]
          dsimp only
          rw [split, ← or_assoc, ← before.bound, capped]
          split
          · rename_i mem
            simp [capFlow, speed, mem]
          · rename_i absent
            simp [absent]

open WaterFilling in
/-- What one link grants to the flows of its groups. -/
theorem calcDeltaOnGroup_granted {net : Network FlowRef LinkIx} {s : WaterFilling.State FlowRef}
    {link : LinkIx} {groups : List (List FlowRef)} {arena : Arena}
    (crossing : net.crossing link = (groups.flatten : Multiset FlowRef))
    (speed : ∀ ref ∈ groups.flatten, (arena ref).speed = s.rate ref)
    (converged : ∀ ref ∈ groups.flatten, (arena ref).converged = s.frozen ref)
    (maxRate : ∀ ref ∈ groups.flatten, (arena ref).maxRate = u64Max)
    (bandwidth : net.capacity link ≤ u64Max) (feasible : load net s link ≤ net.capacity link)
    (isActive : 0 < active net s link) : ∃ first acc,
    calcDeltaOnGroup (net.capacity link) groups arena = .ok acc ∧
      (net.capacity link - load net s link) / objects s groups ≤ first ∧
      Granted s ((net.capacity link - load net s link) / objects s groups) first arena groups
        acc := by
  have u64 : u64Max = 2 ^ 64 - 1 := rfl
  have consumed := sum_speed crossing speed
  have slow : ∀ ref ∈ groups.flatten, s.rate ref ≤ load net s link := by
    intro ref mem
    have onLink : ref ∈ net.crossing link := crossing ▸ Multiset.mem_coe.mpr mem
    exact Multiset.le_sum_of_mem (Multiset.mem_map_of_mem s.rate onLink)
  have counts : ∀ group ∈ groups, numActiveFlows arena group = members s group := by
    intro group inGroups
    apply List.countP_congr
    intro ref mem
    rw [converged ref (List.mem_flatten_of_mem inGroups mem)]
    simp
  have numObjects : (groups.countP fun group => decide (0 < numActiveFlows arena group)) =
      objects s groups :=
    List.countP_congr fun group mem => by rw [counts group mem]
  have someObject : 0 < objects s groups := by
    rw [active_pos_iff, crossing] at isActive
    rcases isActive with ⟨f, mem, fills⟩
    rcases List.mem_flatten.mp (Multiset.mem_coe.mp mem) with ⟨group, inGroups, inGroup⟩
    exact objects_pos_iff.mpr ⟨group, inGroups, members_pos_iff.mpr ⟨f, inGroup, fills⟩⟩
  have notOver : ∀ ref ∈ groups.flatten.filter fun ref => !(arena ref).converged,
      (arena ref).speed < (arena ref).maxRate + 10 := by
    intro ref mem
    have inFlows := (List.mem_filter.mp mem).1
    have low := slow ref inFlows
    rw [speed ref inFlows, maxRate ref inFlows]
    have lt : s.rate ref < u64Max + 10 := by omega
    exact_mod_cast lt
  have shareLow : (net.capacity link - load net s link) / objects s groups ≤
      net.capacity link - load net s link := Nat.div_le_self _ _
  have inc : (if net.capacity link < asU64 (load net s link : ℚ) then 0
      else divBandwidth (net.capacity link - asU64 (load net s link : ℚ))
        (objects s groups : ℕ)) = (net.capacity link - load net s link) / objects s groups := by
    rw [asU64_natCast (by omega), if_neg (by omega), divBandwidth_natCast (by omega) someObject]
  -- the flows that still fill have room for the share of a whole group
  have room : (net.capacity link - load net s link) / objects s groups ≤
      asU64 (((groups.flatten.filter fun ref => !(arena ref).converged).map fun ref =>
        (arena ref).maxRate - (arena ref).speed).foldl min f64Max) := by
    apply le_asU64 (by omega)
    refine le_foldl_min_iff.mpr ⟨?_, ?_⟩
    · have le : (net.capacity link - load net s link) / objects s groups ≤ u64Max := by omega
      exact le_trans (by exact_mod_cast le) u64Max_le_f64Max
    · intro value mem
      rcases List.mem_map.mp mem with ⟨ref, inActive, rfl⟩
      have inFlows := (List.mem_filter.mp inActive).1
      have low := slow ref inFlows
      rw [speed ref inFlows, maxRate ref inFlows, le_sub_iff_add_le]
      have le : (net.capacity link - load net s link) / objects s groups + s.rate ref ≤ u64Max := by
        omega
      exact_mod_cast le
  refine ⟨_, _, ?_, le_min le_rfl room,
    granted_boundGroups (shareLow.trans ((Nat.sub_le _ _).trans bandwidth)) converged⟩
  have someObject' : objects s groups ≠ 0 := Nat.ne_of_gt someObject
  unfold calcDeltaOnGroup
  dsimp only
  rw [consumed, numObjects, inc]
  simp only [assert, if_pos notOver, if_pos someObject']
  rfl

/-- The flows of the groups of the links of `done` are capped, and `acc` has the increases. -/
structure GroupCapped (net : WaterFilling.Network FlowRef LinkIx) (s : WaterFilling.State FlowRef)
    (arena : Arena) (done : List (LinkIx × FlowSet)) (acc : List ℕ × Arena) : Prop where
  /-- No increase is larger than what a group grants its flows. -/
  least : ∀ entry ∈ done, ∀ group ∈ entry.2.groups, 0 < WaterFilling.members s group →
    ∃ delta ∈ acc.1, delta ≤ groupShare net s entry group
  granted : ∀ delta ∈ acc.1, ∃ entry ∈ done, ∃ group ∈ entry.2.groups,
    0 < WaterFilling.members s group ∧ groupShare net s entry group ≤ delta
  same : ∀ ref, acc.2 ref = { arena ref with speedBound := (acc.2 ref).speedBound }
  bound : ∀ entry ∈ done, ∀ group ∈ entry.2.groups, 0 < WaterFilling.members s group →
    ∀ ref ∈ group, (acc.2 ref).speedBound ≤ (arena ref).speed + groupShare net s entry group
  lower : ∀ ref, (acc.2 ref).speedBound ≤ (arena ref).speedBound

open WaterFilling in
/-- A link without active flows grants nothing. -/
theorem GroupCapped.skip {net : Network FlowRef LinkIx} {s : WaterFilling.State FlowRef}
    {arena : Arena} {done : List (LinkIx × FlowSet)} {acc : List ℕ × Arena}
    {entry : LinkIx × FlowSet} (capped : GroupCapped net s arena done acc)
    (idle : ∀ group ∈ entry.2.groups, ¬0 < members s group) :
    GroupCapped net s arena (done ++ [entry]) acc := by
  refine ⟨?_, ?_, capped.same, ?_, capped.lower⟩
  · intro other inDone group inGroups some
    rcases List.mem_append.mp inDone with old | new
    · exact capped.least other old group inGroups some
    · rw [List.mem_singleton] at new
      exact absurd some (idle group (new ▸ inGroups))
  · intro delta inDeltas
    rcases capped.granted delta inDeltas with ⟨other, inDone, rest⟩
    exact ⟨other, List.mem_append_left _ inDone, rest⟩
  · intro other inDone group inGroups some
    rcases List.mem_append.mp inDone with old | new
    · exact capped.bound other old group inGroups some
    · rw [List.mem_singleton] at new
      exact absurd some (idle group (new ▸ inGroups))

open WaterFilling in
theorem GroupCapped.cap {net : Network FlowRef LinkIx} {s : WaterFilling.State FlowRef}
    {arena : Arena} {done : List (LinkIx × FlowSet)} {acc : List ℕ × Arena}
    {entry : LinkIx × FlowSet} {first : ℕ} {result : ℕ × Arena}
    (capped : GroupCapped net s arena done acc)
    (enough : (net.capacity entry.1 - load net s entry.1) / objects s entry.2.groups ≤ first)
    (granted : Granted s ((net.capacity entry.1 - load net s entry.1) /
      objects s entry.2.groups) first acc.2 entry.2.groups result)
    (isActive : ∃ group ∈ entry.2.groups, 0 < members s group) :
    GroupCapped net s arena (done ++ [entry]) (acc.1 ++ [result.1], result.2) := by
  have reaches : ∃ group ∈ entry.2.groups, 0 < members s group ∧
      groupShare net s entry group ≤ result.1 := by
    by_contra short
    push Not at short
    have more : result.1 + 1 ≤ result.1 := by
      refine (granted.delta _).mpr ⟨?_, fun group inGroups some => short group inGroups some⟩
      rcases isActive with ⟨group, inGroups, some⟩
      exact (short group inGroups some).trans_le ((Nat.div_le_self _ _).trans enough)
    exact Nat.not_succ_le_self _ more
  have narrower : ∀ ref, (result.2 ref).speedBound ≤ (acc.2 ref).speedBound :=
    fun ref => (granted.bound ref _).mpr (Or.inl le_rfl)
  refine ⟨?_, ?_, ?_, ?_, fun ref => (narrower ref).trans (capped.lower ref)⟩
  · intro other inDone group inGroups some
    rcases List.mem_append.mp inDone with old | new
    · rcases capped.least other old group inGroups some with ⟨small, inDeltas, le⟩
      exact ⟨small, List.mem_append_left _ inDeltas, le⟩
    · rw [List.mem_singleton] at new
      subst new
      exact ⟨result.1, by simp, ((granted.delta _).mp le_rfl).2 group inGroups some⟩
  · intro delta inDeltas
    rcases List.mem_append.mp inDeltas with old | new
    · rcases capped.granted delta old with ⟨other, inDone, rest⟩
      exact ⟨other, List.mem_append_left _ inDone, rest⟩
    · rw [List.mem_singleton] at new
      exact ⟨entry, by simp, new ▸ reaches⟩
  · intro ref
    dsimp only
    rw [granted.same, capped.same]
  · intro other inDone group inGroups some ref inGroup
    rcases List.mem_append.mp inDone with old | new
    · exact (narrower ref).trans (capped.bound other old group inGroups some ref inGroup)
    · rw [List.mem_singleton] at new
      subst new
      have speed : (acc.2 ref).speed = (arena ref).speed := by rw [capped.same]
      rw [← speed]
      exact (granted.bound ref _).mpr (Or.inr ⟨group, inGroups, some, inGroup, le_rfl⟩)

open WaterFilling in
theorem linkDeltas_grouped {cluster : Cluster} {fairness : FairnessModel} {running : List FlowRef}
    {linkFlows : List (LinkIx × FlowSet)} {arena : Arena} {s : WaterFilling.State FlowRef}
    (grouping : fairness ≠ .perFlowMaxMin) (filed : GroupFiled linkFlows)
    (isRunning : ∀ link, ∀ ref ∈ NetState.flowsOn linkFlows link, ref ∈ running)
    (bandwidth : ∀ link, cluster.bandwidth link ≤ u64Max)
    (simulates : Simulates running arena s)
    (feasible : ∀ link, load (network cluster linkFlows) s link ≤ cluster.bandwidth link) :
    ∃ acc, linkFlows.foldlM (linkDeltas cluster fairness) ([], arena) = .ok acc ∧
      GroupCapped (network cluster linkFlows) s arena linkFlows acc := by
  refine foldlM_total (GroupCapped (network cluster linkFlows) s arena) ?_ ?_
  · rintro done ⟨link, set⟩ rest ⟨deltas, middle⟩ capped whole
    have mem : (link, set) ∈ linkFlows := by simp [← whole]
    have crossing : (network cluster linkFlows).crossing link =
        (set.groups.flatten : Multiset FlowRef) := filed.crossing_eq mem
    have isFlatten : set.iter = set.groups.flatten :=
      FlowSet.iter_eq_flatten (filed.grouped _ mem) (filed.nonempty _ mem)
    have inRunning : ∀ ref ∈ set.groups.flatten, ref ∈ running := by
      intro ref inSet
      rw [← isFlatten, ← NetState.flowsOn_eq filed.keys mem] at inSet
      exact isRunning link ref inSet
    have same : ∀ ref, middle ref = { arena ref with speedBound := (middle ref).speedBound } :=
      capped.same
    have converged : ∀ ref ∈ set.groups.flatten, (middle ref).converged = s.frozen ref := by
      intro ref inSet
      rw [same]
      exact simulates.converged ref (inRunning ref inSet)
    have speed : ∀ ref ∈ set.groups.flatten, (middle ref).speed = s.rate ref := by
      intro ref inSet
      rw [same]
      exact simulates.speed ref (inRunning ref inSet)
    have maxRate : ∀ ref ∈ set.groups.flatten, (middle ref).maxRate = u64Max := by
      intro ref inSet
      rw [same]
      exact simulates.maxRate ref (inRunning ref inSet)
    have anyActive : (set.iter.any fun ref => !(middle ref).converged) = true ↔
        ∃ group ∈ set.groups, 0 < members s group := by
      simp only [isFlatten, List.any_eq_true, List.mem_flatten, members_pos_iff]
      constructor
      · rintro ⟨ref, ⟨group, inGroups, inGroup⟩, fills⟩
        have inSet := List.mem_flatten_of_mem inGroups inGroup
        exact ⟨group, inGroups, ref, inGroup, by simpa [converged ref inSet] using fills⟩
      · rintro ⟨group, inGroups, ref, inGroup, fills⟩
        have inSet := List.mem_flatten_of_mem inGroups inGroup
        exact ⟨ref, ⟨group, inGroups, inGroup⟩, by simpa [converged ref inSet] using fills⟩
    simp only [linkDeltas]
    by_cases isActive : ∃ group ∈ set.groups, 0 < members s group
    · rw [if_pos (anyActive.mpr isActive)]
      have someActive : 0 < active (network cluster linkFlows) s link := by
        rcases isActive with ⟨group, inGroups, some⟩
        rcases members_pos_iff.mp some with ⟨ref, inGroup, fills⟩
        rw [active_pos_iff, crossing]
        exact ⟨ref, Multiset.mem_coe.mpr (List.mem_flatten_of_mem inGroups inGroup), fills⟩
      rcases calcDeltaOnGroup_granted crossing speed converged maxRate (bandwidth link)
        (feasible link) someActive with ⟨first, result, run, enough, granted⟩
      have next : GroupCapped (network cluster linkFlows) s arena (done ++ [(link, set)])
          (deltas ++ [result.1], result.2) := capped.cap enough granted isActive
      rcases isActive with ⟨group, inGroups, _⟩
      refine ⟨_, ?_, next⟩
      simp only [bind_eq_ok, assert_eq_ok, pure_eq_ok]
      exact ⟨⟨⟩, FlowSet.not_isEmpty_of_mem inGroups, result,
        calcDelta_grouped grouping (filed.grouped _ mem) run, rfl⟩
    · rw [if_neg (fun any => isActive (anyActive.mp any))]
      exact ⟨_, rfl, capped.skip fun group inGroups some => isActive ⟨group, inGroups, some⟩⟩
  · exact ⟨by simp, by simp, fun ref => rfl, by simp, fun ref => le_rfl⟩

theorem raiseFlow_of_converged {inc : ℚ} {f : FlowState} (converged : f.converged = true) :
    raiseFlow inc f = f :=
  if_pos converged

/-- What raising makes of a flow that still fills. -/
theorem raiseFlow_of_filling {inc : ℚ} {f : FlowState} (fills : f.converged = false) :
    (raiseFlow inc f).speed = f.speed + inc ∧ (raiseFlow inc f).maxRate = f.maxRate ∧
      (f.speedBound ≤ f.speed + inc → (raiseFlow inc f).converged = true) ∧
      ((raiseFlow inc f).converged = false → (raiseFlow inc f).speedBound = f.maxRate) := by
  have goes : ¬f.converged = true := by simp [fills]
  rw [raiseFlow, if_neg goes]
  split
  · exact ⟨rfl, rfl, fun _ => rfl, fun stays => by cases stays⟩
  · rename_i short
    refine ⟨rfl, rfl, fun reached => ?_, fun _ => rfl⟩
    exact absurd (reached.trans (le_add_of_nonneg_right (by norm_num))) short

/-- What the rounds preserve: the flows fill with whole rates, no link is overbooked, and a flow
that still fills is on a link. -/
def GroupFilling (cluster : Cluster) (running : List FlowRef)
    (linkFlows : List (LinkIx × FlowSet)) (arena : Arena) : Prop :=
  ∃ s, Simulates running arena s ∧
    (∀ link, WaterFilling.load (network cluster linkFlows) s link ≤ cluster.bandwidth link) ∧
    ∀ ref ∈ running, s.frozen ref = false → ∃ link, ref ∈ NetState.flowsOn linkFlows link

open WaterFilling in
/-- A round makes a flow converge and overbooks no link. -/
theorem GroupFilling.round {cluster : Cluster} {fairness : FairnessModel} {running : List FlowRef}
    {linkFlows : List (LinkIx × FlowSet)} {arena : Arena}
    (grouping : fairness ≠ .perFlowMaxMin) (filed : GroupFiled linkFlows) (nodup : running.Nodup)
    (isRunning : ∀ link, ∀ ref ∈ NetState.flowsOn linkFlows link, ref ∈ running)
    (bandwidth : ∀ link, cluster.bandwidth link ≤ u64Max)
    (filling : GroupFilling cluster running linkFlows arena)
    (fills : ∃ ref ∈ running, (arena ref).converged = false) :
    ∃ arena', fillRound cluster fairness running linkFlows arena = .ok arena' ∧
      GroupFilling cluster running linkFlows arena' ∧
      (∀ ref ∈ running, (arena ref).converged = true → (arena' ref).converged = true) ∧
      ∃ ref ∈ running, (arena ref).converged = false ∧ (arena' ref).converged = true := by
  rcases filling with ⟨s, simulates, feasible, onLink⟩
  rcases linkDeltas_grouped grouping filed isRunning bandwidth simulates feasible with
    ⟨acc, run, capped⟩
  -- a flow that fills is in a group of a link
  have grouped : ∀ ref ∈ running, s.frozen ref = false → ∃ entry ∈ linkFlows,
      ∃ group ∈ entry.2.groups, ref ∈ group ∧ 0 < members s group := by
    intro ref mem isFilling
    rcases onLink ref mem isFilling with ⟨link, onLink⟩
    rcases NetState.exists_of_mem_flowsOn onLink with ⟨set, inIndex, inSet⟩
    rw [FlowSet.iter_eq_flatten (filed.grouped _ inIndex) (filed.nonempty _ inIndex)] at inSet
    rcases List.mem_flatten.mp inSet with ⟨group, inGroups, inGroup⟩
    exact ⟨_, inIndex, group, inGroups, inGroup, members_pos_iff.mpr ⟨ref, inGroup, isFilling⟩⟩
  have someDelta : acc.1 ≠ [] := by
    rcases fills with ⟨ref, mem, isFilling⟩
    rcases grouped ref mem ((simulates.converged ref mem).symm.trans isFilling) with
      ⟨entry, inIndex, group, inGroups, _, some⟩
    rcases capped.least entry inIndex group inGroups some with ⟨delta, inDeltas, _⟩
    exact List.ne_nil_of_mem inDeltas
  rcases Option.isSome_iff_exists.mp (List.isSome_min?_of_ne_nil someDelta) with ⟨inc, isMin⟩
  rcases List.min?_eq_some_iff.mp isMin with ⟨isDelta, least⟩
  have raised : ∀ ref ∈ running,
      (acc.2.forEach running (raiseFlow inc)) ref = raiseFlow inc (acc.2 ref) := by
    intro ref mem
    rw [Arena.forEach_apply _ _ nodup, if_pos mem]
  have before : ∀ ref ∈ running, (acc.2 ref).converged = s.frozen ref ∧
      (acc.2 ref).speed = s.rate ref ∧ (acc.2 ref).maxRate = u64Max := by
    intro ref mem
    rw [capped.same]
    exact ⟨simulates.converged ref mem, simulates.speed ref mem, simulates.maxRate ref mem⟩
  let s' : WaterFilling.State FlowRef :=
    ⟨fun ref => if s.frozen ref then s.rate ref else s.rate ref + inc,
      fun ref => ((acc.2.forEach running (raiseFlow inc)) ref).converged⟩
  have keeps : ∀ ref ∈ running, s.frozen ref = true → s'.frozen ref = true := by
    intro ref mem frozen
    have converged : (acc.2 ref).converged = true := (before ref mem).1.trans frozen
    dsimp only [s']
    rw [raised ref mem, raiseFlow_of_converged converged]
    exact converged
  refine ⟨acc.2.forEach running (raiseFlow inc), ?_, ⟨s', ?_, ?_, ?_⟩, ?_, ?_⟩
  · simp only [fillRound, bind_eq_ok, unwrap_eq_ok, pure_eq_ok, Prod.exists]
    exact ⟨acc.1, acc.2, run, inc, isMin, rfl⟩
  · refine ⟨fun ref mem => ?_, fun _ _ => rfl, fun ref mem goesOn => ?_, fun ref mem => ?_⟩
    · rw [raised ref mem]
      dsimp only [s']
      cases frozen : s.frozen ref with
      | true =>
          rw [raiseFlow_of_converged ((before ref mem).1.trans frozen)]
          simpa using (before ref mem).2.1
      | false =>
          rw [(raiseFlow_of_filling ((before ref mem).1.trans frozen)).1, (before ref mem).2.1]
          simp
    · cases frozen : s.frozen ref with
      | true => rw [keeps ref mem frozen] at goesOn; cases goesOn
      | false =>
          have isFilling := (before ref mem).1.trans frozen
          dsimp only [s'] at goesOn
          rw [raised ref mem] at goesOn ⊢
          rw [(raiseFlow_of_filling isFilling).2.2.2 goesOn, (before ref mem).2.2]
    · rw [raised ref mem]
      have rate := congrArg FlowState.maxRate (core_raiseFlow inc (acc.2 ref))
      exact Eq.trans rate (before ref mem).2.2
  · intro link
    rw [load_raised fun ref _ => rfl]
    have fits := feasible link
    by_cases filedLink : ∃ set, (link, set) ∈ linkFlows
    · rcases filedLink with ⟨set, inIndex⟩
      have small : ∀ group ∈ set.groups, 0 < members s group →
          inc ≤ (cluster.bandwidth link - load (network cluster linkFlows) s link) /
            objects s set.groups / members s group := by
        intro group inGroups some
        rcases capped.least _ inIndex group inGroups some with ⟨delta, inDeltas, le⟩
        exact (least delta inDeltas).trans le
      have count : active (network cluster linkFlows) s link =
          set.groups.flatten.countP fun f => s.frozen f = false := by
        rw [active, filed.crossing_eq inIndex, Multiset.coe_countP]
      have used := (countP_flatten_mul_le small).trans (Nat.mul_div_le _ _)
      rw [count]
      omega
    · have unused : NetState.flowsOn linkFlows link = [] := by
        refine NetState.flowsOn_of_absent fun mem => filedLink ?_
        rcases List.mem_map.mp mem with ⟨⟨other, set⟩, inIndex, rfl⟩
        exact ⟨set, inIndex⟩
      have none : active (network cluster linkFlows) s link = 0 := by
        simp [active, network, unused]
      rw [none, Nat.zero_mul, Nat.add_zero]
      exact fits
  · intro ref mem goesOn
    apply onLink ref mem
    cases frozen : s.frozen ref with
    | true => rw [keeps ref mem frozen] at goesOn; cases goesOn
    | false => rfl
  · intro ref mem converged
    exact keeps ref mem ((simulates.converged ref mem).symm.trans converged)
  · -- the flows of a group that grants no more converge
    rcases capped.granted inc isDelta with ⟨entry, inIndex, group, inGroups, some, reached⟩
    rcases members_pos_iff.mp some with ⟨ref, inGroup, isFilling⟩
    have mem : ref ∈ running := by
      apply isRunning entry.1
      rw [NetState.flowsOn_eq filed.keys inIndex,
        FlowSet.iter_eq_flatten (filed.grouped _ inIndex) (filed.nonempty _ inIndex)]
      exact List.mem_flatten_of_mem inGroups inGroup
    refine ⟨ref, mem, (simulates.converged ref mem).trans isFilling, ?_⟩
    rw [raised ref mem]
    refine (raiseFlow_of_filling ((before ref mem).1.trans isFilling)).2.2.1 ?_
    have bound := capped.bound entry inIndex group inGroups some ref inGroup
    refine bound.trans ?_
    rw [capped.same]
    have le : (groupShare (network cluster linkFlows) s entry group : ℚ) ≤ inc := by
      exact_mod_cast reached
    exact add_le_add_right le _

end Filling

namespace Simulator

variable {platform : Platform} {sim : Simulator}

/-- The link index holds the running flows in groups that are not empty, each link those flows
whose routes name it, as often as they do. -/
structure GroupIndexed (sim : Simulator) : Prop where
  filed : Filling.GroupFiled sim.state.linkFlows
  counts : ∀ link ref, (NetState.flowsOn sim.state.linkFlows link).count ref =
    if ref ∈ sim.state.runningFlows then (sim.state.arena ref).route.path.count link else 0

/-- Filling by groups ends within one iteration for each running flow, and no link is
overbooked. -/
theorem maxMinFairnessConverge_grouped (sim : Simulator) (platform : Platform)
    (grouping : sim.setting.fairness ≠ .perFlowMaxMin) (indexed : sim.GroupIndexed)
    (nodup : sim.state.runningFlows.Nodup)
    (maxRate : ∀ ref ∈ sim.state.runningFlows, (sim.state.arena ref).maxRate = u64Max)
    (bandwidth : ∀ link, sim.cluster.bandwidth link ≤ u64Max)
    (enough : sim.state.runningFlows.length < platform.fuel) : ∃ arena : Arena,
    sim.maxMinFairnessConverge platform =
        .ok { sim with state := { sim.state with arena := arena } } ∧
      (∀ ref ∈ sim.state.runningFlows, (arena ref).converged = true) ∧
      ∀ link set, (link, set) ∈ sim.state.linkFlows →
        (set.groups.flatten.map fun ref => (arena ref).speed).sum ≤ sim.cluster.bandwidth link := by
  have mem_flowsOn : ∀ link ref, ref ∈ NetState.flowsOn sim.state.linkFlows link ↔
      ref ∈ sim.state.runningFlows ∧ link ∈ (sim.state.arena ref).route.path := by
    intro link ref
    rw [← List.count_pos_iff, indexed.counts]
    split
    · rename_i running
      simp only [running, true_and, List.count_pos_iff]
    · rename_i idle
      simp [idle]
  have isRunning : ∀ link, ∀ ref ∈ NetState.flowsOn sim.state.linkFlows link,
      ref ∈ sim.state.runningFlows := fun link ref mem => ((mem_flowsOn link ref).mp mem).1
  have start : Filling.GroupFilling sim.cluster sim.state.runningFlows sim.state.linkFlows
      (sim.state.arena.forEach sim.state.runningFlows
        (Filling.resetFlow sim.setting.loopbackSpeed)) := by
    refine ⟨_, Filling.simulates_reset nodup maxRate, fun link => ?_, ?_⟩
    · have none : WaterFilling.load (Filling.network sim.cluster sim.state.linkFlows)
          (Filling.atStart sim.setting.loopbackSpeed sim.state.arena) link = 0 := by
        apply Multiset.sum_eq_zero
        intro rate inRates
        rcases Multiset.mem_map.mp inRates with ⟨ref, crosses, rfl⟩
        have onPath := ((mem_flowsOn link ref).mp (Multiset.mem_coe.mp crosses)).2
        have crossing : (sim.state.arena ref).isLoopback = false := by
          simpa [FlowState.isLoopback] using List.ne_nil_of_mem onPath
        simp [Filling.atStart, crossing]
      rw [none]
      exact Nat.zero_le _
    · intro ref mem fills
      simp only [Filling.atStart, FlowState.isLoopback, List.isEmpty_eq_false_iff] at fills
      rcases List.exists_mem_of_ne_nil _ fills with ⟨link, onPath⟩
      exact ⟨link, (mem_flowsOn link ref).mpr ⟨mem, onPath⟩⟩
  rcases Filling.fillLoop_ends (fun arena filling fills =>
      Filling.GroupFilling.round grouping indexed.filed nodup isRunning bandwidth filling fills)
    start (lt_of_le_of_lt (List.length_filter_le _ _) enough) with
    ⟨arena, run, ⟨s, simulates, feasible, _⟩, done⟩
  refine ⟨arena, ?_, done, fun link set mem => ?_⟩
  · simp only [maxMinFairnessConverge, bind_eq_ok, pure_eq_ok]
    exact ⟨arena, run, rfl⟩
  · have crossing : (Filling.network sim.cluster sim.state.linkFlows).crossing link =
        (set.groups.flatten : Multiset FlowRef) := indexed.filed.crossing_eq mem
    have speed : ∀ ref ∈ set.groups.flatten, (arena ref).speed = s.rate ref := by
      intro ref inSet
      apply simulates.speed
      rw [← FlowSet.iter_eq_flatten (indexed.filed.grouped _ mem) (indexed.filed.nonempty _ mem),
        ← NetState.flowsOn_eq indexed.filed.keys mem] at inSet
      exact isRunning link ref inSet
    rw [Filling.sum_speed crossing speed]
    exact_mod_cast feasible link

/-- Three flows on one way: two of one tenant and one of another. -/
def twoTenants : Simulator where
  cluster := .pair
  setting := { fairness := .tenantFlowMaxMin }
  state := {
    fairness := .tenantFlowMaxMin
    arena := fun ref => {
      ts := 0
      flow := { id := ref, bytes := 2000, src := "left", dst := "right",
                tenantId := some (if ref = 2 then 1 else 0) }
      maxRate := u64Max
      route := ⟨1, 2, [0, 3]⟩ }
    nextRef := 3
    runningFlows := [0, 1, 2]
    linkFlows := [(0, .groupByTenant [(0, [0, 1]), (1, [2])]),
      (3, .groupByTenant [(0, [0, 1]), (1, [2])])] }

theorem groupIndexed_twoTenants : twoTenants.GroupIndexed where
  filed := ⟨by decide, by decide, by decide⟩
  counts link ref := by
    have running : ∀ ref, [0, 1, 2].count ref = if ref ∈ [0, 1, 2] then 1 else 0 := by
      intro ref
      split
      · rename_i mem
        exact List.count_eq_one_of_mem (by decide) mem
      · rename_i absent
        exact List.count_eq_zero_of_not_mem absent
    by_cases first : link = 0
    · subst first
      exact running ref
    · by_cases second : link = 3
      · subst second
        exact running ref
      · have unused : NetState.flowsOn twoTenants.state.linkFlows link = [] :=
          NetState.flowsOn_of_absent (by simp [twoTenants, first, second])
        have offPath : (twoTenants.state.arena ref).route.path.count link = 0 :=
          List.count_eq_zero_of_not_mem (by simp [twoTenants, first, second])
        rw [unused, offPath, ite_self]
        rfl

theorem maxMinFairnessConverge_grouped_twoTenants : ∃ arena : Arena,
    twoTenants.maxMinFairnessConverge (.inOrder 4) =
        .ok { twoTenants with state := { twoTenants.state with arena := arena } } ∧
      (∀ ref ∈ twoTenants.state.runningFlows, (arena ref).converged = true) ∧
      ∀ link set, (link, set) ∈ twoTenants.state.linkFlows →
        (set.groups.flatten.map fun ref => (arena ref).speed).sum ≤
          twoTenants.cluster.bandwidth link :=
  maxMinFairnessConverge_grouped twoTenants (.inOrder 4) (by decide) groupIndexed_twoTenants
    (by decide) (fun _ _ => rfl)
    (fun link => (bandwidth_lt_of_pair rfl link).le.trans (by decide)) (by decide)

end Simulator

end Phantora.Netsim
