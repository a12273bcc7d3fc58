import Mathlib.Data.List.Sort

/-!
# Ranking the members of groups

The members of every group are put in order, and each is told its position, the
size of its group and the name of its group. The notices determine the order of
a group once the other groups are known, so that items that tie must not be
told apart if the order of the input is to leave no trace.
-/

namespace Ranking

universe u v w

variable {κ : Type u} {α : Type v} {β : Type w}

section Sorting

variable {τ : Type*} [LinearOrder τ] (key : α → τ)

/-- Sort by a key; items with the same key keep their order. -/
def sortBy (items : List α) : List α :=
  items.insertionSort fun a b => key a ≤ key b

theorem sortBy_perm (items : List α) : (sortBy key items).Perm items :=
  List.perm_insertionSort _ items

theorem pairwise_sortBy (items : List α) :
    (sortBy key items).Pairwise fun a b => key a ≤ key b := by
  have total : Std.Total fun a b : α => key a ≤ key b := ⟨fun a b => le_total _ _⟩
  have transitive : IsTrans α fun a b => key a ≤ key b := ⟨fun _ _ _ => le_trans⟩
  exact List.pairwise_insertionSort _ items

theorem map_sortBy (f : α → β) (key' : β → τ) (same : ∀ a, key' (f a) = key a) (items : List α) :
    (sortBy key items).map f = sortBy key' (items.map f) := by
  apply List.map_insertionSort
  intro a _ b _
  rw [same, same]

/-- Sorted lists of the same items agree if items with the same key are equal. -/
theorem eq_of_perm_of_pairwise {first second : List α} (perm : first.Perm second)
    (sorted : first.Pairwise fun a b => key a ≤ key b)
    (sorted' : second.Pairwise fun a b => key a ≤ key b)
    (plain : ∀ a ∈ first, ∀ b ∈ first, key a = key b → a = b) : first = second := by
  refine List.Perm.eq_of_pairwise ?_ sorted sorted' perm
  intro a b mem mem' le ge
  exact plain a mem b (perm.mem_iff.mpr mem') (le_antisymm le ge)

/-- Items with the same key are adjacent once sorted if they come first in the list, and in the
same order. -/
theorem sortBy_tie {a b : α} (tie : key a = key b) (items : List α) :
    ∃ front back, sortBy key (a :: b :: items) = front ++ a :: b :: back ∧
      sortBy key (b :: a :: items) = front ++ b :: a :: back := by
  simp only [sortBy, List.insertionSort_cons]
  generalize items.insertionSort (fun a b => key a ≤ key b) = sorted
  induction sorted with
  | nil => exact ⟨[], [], by simp [tie], by simp [tie]⟩
  | cons c sorted ih =>
      rcases ih with ⟨front, back, left, right⟩
      by_cases before : key b ≤ key c
      · exact ⟨[], c :: sorted, by simp [before, tie], by simp [before, tie]⟩
      · refine ⟨c :: front, back, ?_, ?_⟩
        · simp [before, tie, left]
        · simp [before, tie, right]

end Sorting

/-- What belongs to items belongs to others that have the same tags. -/
theorem exists_retagged {τ ρ : Type*} {tag : α → τ} {tag' : β → τ} {items : List (α × ρ)}
    {others : List β} (perm : (items.map fun item => tag item.1).Perm (others.map tag')) :
    ∃ retagged : List (β × ρ), (retagged.map Prod.fst).Perm others ∧
      (retagged.map fun item => (tag' item.1, item.2)) =
        items.map fun item => (tag item.1, item.2) := by
  induction items generalizing others with
  | nil =>
      have none : others = [] := List.map_eq_nil_iff.mp perm.symm.eq_nil
      exact ⟨[], by rw [none]; exact .refl _, rfl⟩
  | cons item items ih =>
      rcases List.mem_map.mp (perm.subset List.mem_cons_self) with ⟨other, mem, same⟩
      rcases List.append_of_mem mem with ⟨front, back, rfl⟩
      have swapped : (front ++ other :: back).Perm (other :: (front ++ back)) := List.perm_middle
      have rest := perm.trans (swapped.map tag')
      rw [List.map_cons, List.map_cons, same] at rest
      rcases ih (List.Perm.cons_inv rest) with ⟨retagged, firsts, tags⟩
      refine ⟨(other, item.2) :: retagged, ?_, ?_⟩
      · exact (firsts.cons other).trans swapped.symm
      · rw [List.map_cons, List.map_cons, tags, same]

/-- Distinct keys can be given any names. -/
theorem exists_naming [DecidableEq κ] (other : α) {keys : List κ} (nodup : keys.Nodup)
    {names : List α} (length : names.length = keys.length) : ∃ f : κ → α, keys.map f = names := by
  induction keys generalizing names with
  | nil => exact ⟨fun _ => other, (List.length_eq_zero_iff.mp length).symm⟩
  | cons key keys ih =>
      cases names with
      | nil => cases length
      | cons name names =>
          rw [List.nodup_cons] at nodup
          rcases ih nodup.2 (Nat.succ.inj length) with ⟨f, named⟩
          refine ⟨Function.update f key name, ?_⟩
          rw [List.map_cons, Function.update_self, ← named]
          congr 1
          apply List.map_congr_left
          intro key' mem
          apply Function.update_of_ne
          rintro rfl
          exact nodup.1 mem

/-- A list is determined by its items with their positions, in any order. -/
theorem eq_of_zipIdx_perm {first second : List α} (perm : first.zipIdx.Perm second.zipIdx) :
    first = second := by
  apply List.ext_getElem?
  intro i
  apply Option.ext
  intro a
  have same := perm.mem_iff (a := (a, i))
  simpa only [List.mk_mem_zipIdx_iff_getElem?] using same

/-- The items of all groups with their positions determine one group if the others are known. -/
theorem eq_of_positions_perm {first second : List α} {others : List (List α)}
    (perm : ((first :: others).flatMap List.zipIdx).Perm
      ((second :: others).flatMap List.zipIdx)) : first = second := by
  simp only [List.flatMap_cons] at perm
  exact eq_of_zipIdx_perm ((List.perm_append_right_iff _).mp perm)

/-- What a member of a group is told. -/
structure Notice (κ : Type u) (α : Type v) where
  member : α
  position : ℕ
  size : ℕ
  name : κ

/-- The notices of one group. -/
def notices (group : κ × List α) : List (Notice κ α) :=
  group.2.zipIdx.map fun entry => ⟨entry.1, entry.2, group.2.length, group.1⟩

/-- The notices of all groups. -/
def announce (groups : List (κ × List α)) : List (Notice κ α) :=
  groups.flatMap notices

@[simp]
theorem announce_cons (group : κ × List α) (groups : List (κ × List α)) :
    announce (group :: groups) = notices group ++ announce groups :=
  List.flatMap_cons

theorem mem_announce {groups : List (κ × List α)} {notice : Notice κ α} :
    notice ∈ announce groups ↔ ∃ group ∈ groups, notice.name = group.1 ∧
      notice.size = group.2.length ∧ group.2[notice.position]? = some notice.member := by
  simp only [announce, notices, List.mem_flatMap, List.mem_map, Prod.exists,
    List.mk_mem_zipIdx_iff_getElem?]
  constructor
  · rintro ⟨group, members, mem, member, position, found, rfl⟩
    exact ⟨group, members, mem, rfl, rfl, found⟩
  · rintro ⟨group, members, mem, name, size, found⟩
    refine ⟨group, members, mem, notice.member, notice.position, found, ?_⟩
    rw [← name, ← size]

theorem position_lt_size {groups : List (κ × List α)} {notice : Notice κ α}
    (mem : notice ∈ announce groups) : notice.position < notice.size := by
  rcases mem_announce.mp mem with ⟨group, _, _, size, found⟩
  rw [size]
  exact (List.getElem?_eq_some_iff.mp found).1

/-- Every member is told something, and nobody else is. -/
theorem members_announce (groups : List (κ × List α)) :
    (announce groups).map Notice.member = groups.flatMap Prod.snd := by
  induction groups with
  | nil => rfl
  | cons group groups ih =>
      rw [announce_cons, List.map_append, ih, List.flatMap_cons]
      simp [notices, List.map_map, Function.comp_def, List.zipIdx_map_fst]

theorem positions_announce (groups : List (κ × List α)) :
    (announce groups).map (fun notice => (notice.member, notice.position)) =
      (groups.map Prod.snd).flatMap List.zipIdx := by
  induction groups with
  | nil => rfl
  | cons group groups ih =>
      rw [announce_cons, List.map_append, ih, List.map_cons, List.flatMap_cons]
      simp [notices, List.map_map, Function.comp_def]

/-- The first members are told the names of the groups, one each. -/
theorem firsts_announce {groups : List (κ × List α)} (nonempty : ∀ group ∈ groups, group.2 ≠ []) :
    ((announce groups).filter fun notice => notice.position = 0).map Notice.name =
      groups.map Prod.fst := by
  induction groups with
  | nil => rfl
  | cons group groups ih =>
      rw [announce_cons, List.filter_append, List.map_append, List.map_cons,
        ih fun other mem => nonempty other (List.mem_cons_of_mem _ mem)]
      rcases group with ⟨name, members⟩
      cases members with
      | nil => exact absurd rfl (nonempty _ List.mem_cons_self)
      | cons member members =>
          have later : ∀ entry ∈ members.zipIdx 1, ¬entry.2 = 0 := by
            intro entry mem
            have bound := (List.mem_zipIdx mem).1
            omega
          simpa [notices, List.zipIdx_cons, List.filter_map, Function.comp_def] using
            fun entry position mem => later (entry, position) mem

/-- Renaming the members renames the notices. -/
theorem announce_map (f : α → β) (groups : List (κ × List α)) :
    announce (groups.map fun group => (group.1, group.2.map f)) =
      (announce groups).map fun notice =>
        ⟨f notice.member, notice.position, notice.size, notice.name⟩ := by
  induction groups with
  | nil => rfl
  | cons group groups ih =>
      rw [List.map_cons, announce_cons, announce_cons, List.map_append, ih]
      simp [notices, List.zipIdx_map, List.map_map, Function.comp_def]

theorem announce_perm {first second : List (κ × List α)} (perm : first.Perm second) :
    (announce first).Perm (announce second) :=
  perm.flatMap_right notices

end Ranking
