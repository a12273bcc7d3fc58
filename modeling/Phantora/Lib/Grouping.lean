import Mathlib.Data.List.Induction
import Mathlib.Data.List.Nodup

/-!
# Grouping by key

A map from keys to lists of values, kept as a list of pairs in the order in
which the keys are first used. Grouping a list keeps, for each key, the values
of that key in their order.
-/

namespace Grouping

universe u v

variable {κ : Type u} {α : Type v} [DecidableEq κ]

/-- `entry(key).or_default().push(value)`. -/
def insert (key : κ) (value : α) : List (κ × List α) → List (κ × List α)
  | [] => [(key, [value])]
  | (other, values) :: groups =>
      if other = key then (other, values ++ [value]) :: groups
      else (other, values) :: insert key value groups

/-- The groups of a list. -/
def group (key : α → κ) (items : List α) : List (κ × List α) :=
  items.foldl (fun groups item => insert (key item) item groups) []

theorem keys_insert (k : κ) (a : α) (groups : List (κ × List α)) :
    (insert k a groups).map Prod.fst =
      if k ∈ groups.map Prod.fst then groups.map Prod.fst else groups.map Prod.fst ++ [k] := by
  induction groups with
  | nil => simp [insert]
  | cons head groups ih =>
      rcases head with ⟨other, values⟩
      by_cases same : other = k
      · simp [insert, same]
      · have differs : k ≠ other := fun equal => same equal.symm
        by_cases present : k ∈ groups.map Prod.fst
        · simp only [insert, same, if_false, List.map_cons, ih, present, if_true, List.mem_cons,
            or_true]
        · simp only [insert, same, if_false, List.map_cons, ih, present, List.mem_cons, differs,
            or_self, List.cons_append]

theorem nodup_keys_insert {k : κ} {a : α} {groups : List (κ × List α)}
    (nodup : (groups.map Prod.fst).Nodup) : ((insert k a groups).map Prod.fst).Nodup := by
  rw [keys_insert]
  split
  · exact nodup
  · rename_i absent
    rw [List.nodup_append]
    refine ⟨nodup, List.nodup_singleton k, ?_⟩
    intro other mem new named equal
    rw [List.mem_singleton.mp named] at equal
    exact absent (equal ▸ mem)

/-- An insertion lengthens one group and leaves the others. -/
theorem mem_insert {k key : κ} {a : α} {values : List α} {groups : List (κ × List α)}
    (nodup : (groups.map Prod.fst).Nodup) (mem : (key, values) ∈ insert k a groups) :
    (key ≠ k ∧ (key, values) ∈ groups) ∨
      (key = k ∧ ∃ old, values = old ++ [a] ∧
        ((k, old) ∈ groups ∨ (k ∉ groups.map Prod.fst ∧ old = []))) := by
  induction groups with
  | nil =>
      simp only [insert, List.mem_singleton, Prod.mk.injEq] at mem
      rcases mem with ⟨rfl, rfl⟩
      exact Or.inr ⟨rfl, [], rfl, Or.inr ⟨List.not_mem_nil, rfl⟩⟩
  | cons head groups ih =>
      rcases head with ⟨other, first⟩
      simp only [List.map_cons, List.nodup_cons] at nodup
      by_cases same : other = k
      · subst other
        simp only [insert, if_true, List.mem_cons, Prod.mk.injEq] at mem
        rcases mem with ⟨rfl, rfl⟩ | rest
        · exact Or.inr ⟨rfl, first, rfl, Or.inl List.mem_cons_self⟩
        · left
          have named : key ∈ groups.map Prod.fst := List.mem_map_of_mem (f := Prod.fst) rest
          exact ⟨fun equal => nodup.1 (equal ▸ named), List.mem_cons_of_mem _ rest⟩
      · simp only [insert, same, if_false, List.mem_cons, Prod.mk.injEq] at mem
        rcases mem with ⟨rfl, rfl⟩ | rest
        · exact Or.inl ⟨same, List.mem_cons_self⟩
        · rcases ih nodup.2 rest with ⟨differs, mem⟩ | ⟨equal, old, ends, before⟩
          · exact Or.inl ⟨differs, List.mem_cons_of_mem _ mem⟩
          · refine Or.inr ⟨equal, old, ends, ?_⟩
            rcases before with mem | ⟨absent, empty⟩
            · exact Or.inl (List.mem_cons_of_mem _ mem)
            · right
              refine ⟨?_, empty⟩
              simpa [absent] using fun equal => same equal.symm

/-- The keys of the groups are those of the items, each once, and the group of a
key has its items in their order. -/
theorem group_spec (key : α → κ) (items : List α) :
    ((group key items).map Prod.fst).Nodup ∧
      (∀ k, k ∈ (group key items).map Prod.fst ↔ k ∈ items.map key) ∧
      ∀ k values, (k, values) ∈ group key items → values = items.filter fun a => key a = k := by
  induction items using List.reverseRecOn with
  | nil => simp [group]
  | append_singleton items a ih =>
      rcases ih with ⟨nodup, keys, groups⟩
      have unfolded : group key (items ++ [a]) = insert (key a) a (group key items) := by
        simp [group]
      rw [unfolded]
      refine ⟨nodup_keys_insert nodup, ?_, ?_⟩
      · intro k
        rw [keys_insert, List.map_append, List.mem_append, ← keys]
        split
        · rename_i present
          constructor
          · exact Or.inl
          · rintro (old | new)
            · exact old
            · simp only [List.map_cons, List.map_nil, List.mem_singleton] at new
              exact new ▸ present
        · simp
      · intro k values mem
        rw [List.filter_append]
        rcases mem_insert nodup mem with ⟨differs, mem⟩ | ⟨rfl, old, rfl, before⟩
        · rw [groups k values mem]
          simpa using fun equal => differs equal.symm
        · rcases before with mem | ⟨absent, rfl⟩
          · rw [groups _ old mem]
            simp
          · have none : items.filter (fun item => key item = key a) = [] := by
              rw [List.filter_eq_nil_iff]
              intro item inItems
              have absent' : key a ∉ items.map key := fun named => absent ((keys _).2 named)
              simp only [decide_eq_true_eq]
              intro equal
              exact absent' (equal ▸ List.mem_map_of_mem inItems)
            simp [none]

theorem insert_perm (k : κ) (a : α) (groups : List (κ × List α)) :
    ((insert k a groups).flatMap Prod.snd).Perm (groups.flatMap Prod.snd ++ [a]) := by
  induction groups with
  | nil => simp [insert]
  | cons head groups ih =>
      rcases head with ⟨other, values⟩
      by_cases same : other = k
      · simp only [insert, same, if_true, List.flatMap_cons, List.append_assoc]
        exact List.perm_append_comm.append_left values
      · simp only [insert, same, if_false, List.flatMap_cons, List.append_assoc]
        exact ih.append_left values

/-- Every item is in one group. -/
theorem group_perm (key : α → κ) (items : List α) :
    ((group key items).flatMap Prod.snd).Perm items := by
  induction items using List.reverseRecOn with
  | nil => simp [group]
  | append_singleton items a ih =>
      have unfolded : group key (items ++ [a]) = insert (key a) a (group key items) := by
        simp [group]
      rw [unfolded]
      exact (insert_perm (key a) a _).trans (ih.append_right [a])

/-- In whatever order the groups are taken, items that share a key stay in their order. -/
theorem filter_flatMap_of_perm {key : α → κ} {items : List α} {groups : List (κ × List α)}
    (permuted : groups.Perm (group key items)) {p : α → Bool}
    (shared : ∀ a ∈ items, ∀ b ∈ items, p a → p b → key a = key b) :
    (groups.flatMap Prod.snd).filter p = items.filter p := by
  rcases group_spec key items with ⟨nodup, keys, values⟩
  have perm := permuted.map Prod.fst
  have whole := (permuted.flatMap_right Prod.snd).trans (group_perm key items)
  rcases eq_or_ne (items.filter p) [] with none | some
  · have nothing := whole.filter p
    rw [none] at nothing ⊢
    exact nothing.eq_nil
  · rcases List.exists_mem_of_ne_nil _ some with ⟨a, inFilter⟩
    rcases List.mem_filter.mp inFilter with ⟨mem, holds⟩
    have named : key a ∈ groups.map Prod.fst :=
      perm.mem_iff.mpr ((keys _).mpr (List.mem_map_of_mem mem))
    rcases List.mem_map.mp named with ⟨⟨k, own⟩, inGroups, same⟩
    simp only at same
    subst same
    rcases List.append_of_mem inGroups with ⟨before, after, rfl⟩
    have distinct := perm.nodup_iff.mpr nodup
    -- the items of the other groups have other keys
    have others : ∀ other : List (κ × List α), (∀ entry ∈ other, entry.1 ≠ key a) →
        (∀ entry ∈ other, entry ∈ group key items) → (other.flatMap Prod.snd).filter p = [] := by
      intro other differs known
      refine List.filter_eq_nil_iff.mpr fun b inOther holds' => ?_
      rcases List.mem_flatMap.mp inOther with ⟨entry, inEntries, inEntry⟩
      rw [values entry.1 entry.2 (known entry inEntries), List.mem_filter] at inEntry
      have keyed : key b = entry.1 := by simpa using inEntry.2
      exact differs entry inEntries (keyed ▸ shared b inEntry.1 a mem holds' holds)
    have isGroup : ∀ entry, entry ∈ before ++ (key a, own) :: after → entry ∈ group key items :=
      fun entry inGroups => permuted.mem_iff.mp inGroups
    rw [List.map_append, List.map_cons, List.nodup_append, List.nodup_cons] at distinct
    rw [List.flatMap_append, List.flatMap_cons, List.filter_append, List.filter_append,
      others before, others after, List.nil_append, List.append_nil,
      values _ own (isGroup _ inGroups), List.filter_filter]
    · refine List.filter_congr fun b inItems => ?_
      cases holds' : p b with
      | false => rfl
      | true => simp [shared b inItems a mem holds' holds]
    · intro entry inAfter same
      have named : entry.1 ∈ after.map Prod.fst := List.mem_map_of_mem inAfter
      exact distinct.2.1.1 (same ▸ named)
    · exact fun entry inAfter => isGroup entry (by simp [inAfter])
    · intro entry inBefore same
      exact distinct.2.2 _ (List.mem_map_of_mem inBefore) _ List.mem_cons_self same
    · exact fun entry inBefore => isGroup entry (by simp [inBefore])

/-- Items sorted out by keys that include their own are the items. -/
theorem flatMap_filter_perm (key : α → κ) {keys : List κ} {items : List α} (nodup : keys.Nodup)
    (among : ∀ a ∈ items, key a ∈ keys) :
    (keys.flatMap fun k => items.filter fun a => key a = k).Perm items := by
  induction keys generalizing items with
  | nil =>
      have none : items = [] :=
        List.eq_nil_iff_forall_not_mem.mpr fun a mem => List.not_mem_nil (among a mem)
      simp [none]
  | cons k keys ih =>
      rw [List.nodup_cons] at nodup
      have others : (keys.flatMap fun other => items.filter fun a => key a = other) =
          keys.flatMap fun other =>
            (items.filter fun a => !decide (key a = k)).filter fun a => key a = other := by
        refine List.flatMap_congr fun other mem => ?_
        rw [List.filter_filter]
        refine List.filter_congr fun a _ => ?_
        by_cases equal : key a = other
        · have ne : key a ≠ k := fun same => nodup.1 (same ▸ equal ▸ mem)
          simp [equal, equal ▸ ne]
        · simp [equal]
      have remain : ∀ a ∈ items.filter fun a => !decide (key a = k), key a ∈ keys := by
        intro a mem
        rcases List.mem_filter.mp mem with ⟨inItems, ne⟩
        have differs : key a ≠ k := by simpa using ne
        exact (List.mem_cons.mp (among a inItems)).resolve_left differs
      rw [List.flatMap_cons, others]
      exact ((ih nodup.2 remain).append_left _).trans (List.filter_append_perm _ items)

end Grouping
