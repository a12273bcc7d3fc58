import Mathlib.Data.Finset.Card

/-!
# Rounds

Participants make calls in any order, and the call that a participant makes
after `k` others is its call of round `k`. A round begins with the first of its
calls and is complete when all participants have made theirs. Rounds begin and
are completed in their order.
-/

namespace Rounds

universe u

variable {ρ : Type u} [DecidableEq ρ] {all : Finset ρ} {calls : List ρ} {r : ρ} {k : ℕ}
  {completed begun : ℕ}

/-- The participants that have made their call of a round. -/
def members (all : Finset ρ) (calls : List ρ) (k : ℕ) : Finset ρ :=
  all.filter fun r => k < calls.count r

@[simp]
theorem mem_members : r ∈ members all calls k ↔ r ∈ all ∧ k < calls.count r := by
  simp [members]

theorem members_subset : members all calls k ⊆ all :=
  Finset.filter_subset _ _

theorem members_nil : members all [] k = ∅ := by
  simp [members]

/-- A call changes the round that it belongs to. -/
theorem members_concat (mem : r ∈ all) :
    members all (calls ++ [r]) k =
      if k = calls.count r then insert r (members all calls k) else members all calls k := by
  ext other
  by_cases same : other = r
  · subst other
    by_cases round : k = calls.count r
    · simp [round, mem]
    · simp only [mem_members, List.count_append, List.count_singleton_self, mem, true_and, round,
        if_false]
      omega
  · have differs : r ≠ other := fun equal => same equal.symm
    by_cases round : k = calls.count r
    · simp [round, same, differs]
    · simp [round, differs]

/-- The rounds before one are complete and those before another have begun. -/
structure Progress (all : Finset ρ) (calls : List ρ) (completed begun : ℕ) : Prop where
  complete_iff : ∀ k, members all calls k = all ↔ k < completed
  begun_iff : ∀ k, (members all calls k).Nonempty ↔ k < begun

namespace Progress

theorem start (nonempty : all.Nonempty) : Progress all [] 0 0 := by
  refine ⟨fun k => ?_, fun k => ?_⟩
  · rw [members_nil]
    simpa using nonempty.ne_empty.symm
  · simp [members_nil]

theorem completed_le (progress : Progress all calls completed begun) (mem : r ∈ all) :
    completed ≤ calls.count r := by
  by_contra less
  have complete := (progress.complete_iff (calls.count r)).mpr (by omega)
  have called := (mem_members.mp ((Finset.ext_iff.mp complete r).mpr mem)).2
  omega

theorem count_le (progress : Progress all calls completed begun) (mem : r ∈ all) :
    calls.count r ≤ begun := by
  by_contra more
  have called : r ∈ members all calls begun := mem_members.mpr ⟨mem, by omega⟩
  have bound := (progress.begun_iff begun).mp ⟨r, called⟩
  omega

/-- The first call of a round begins it. -/
theorem begin_round (progress : Progress all calls completed begun) (mem : r ∈ all)
    (several : 1 < all.card) (last : calls.count r = begun) :
    Progress all (calls ++ [r]) completed (begun + 1) ∧
      members all (calls ++ [r]) begun = {r} := by
  have empty : members all calls begun = ∅ := by
    rw [← Finset.not_nonempty_iff_eq_empty, progress.begun_iff]
    omega
  have alone : members all (calls ++ [r]) begun = {r} := by
    rw [members_concat mem, if_pos last.symm, empty, insert_empty_eq]
  refine ⟨⟨fun k => ?_, fun k => ?_⟩, alone⟩
  · have bound := progress.completed_le mem
    by_cases round : k = begun
    · rw [round, alone]
      constructor
      · intro whole
        rw [← whole, Finset.card_singleton] at several
        omega
      · omega
    · rw [members_concat mem, if_neg (by omega), progress.complete_iff]
  · by_cases round : k = begun
    · simp [round, alone]
    · rw [members_concat mem, if_neg (by omega), progress.begun_iff]
      omega

/-- A call of a round that has begun. -/
theorem join_begun (progress : Progress all calls completed begun) (mem : r ∈ all)
    (before : calls.count r < begun) (k : ℕ) :
    (members all (calls ++ [r]) k).Nonempty ↔ k < begun := by
  rw [members_concat mem]
  split
  · rename_i round
    simp [round, before]
  · exact progress.begun_iff k

/-- A call that leaves its round incomplete. -/
theorem join_round (progress : Progress all calls completed begun) (mem : r ∈ all)
    (before : calls.count r < begun)
    (incomplete : members all (calls ++ [r]) (calls.count r) ≠ all) :
    Progress all (calls ++ [r]) completed begun := by
  refine ⟨fun k => ?_, progress.join_begun mem before⟩
  by_cases round : k = calls.count r
  · have bound := progress.completed_le mem
    rw [round]
    exact ⟨fun complete => absurd complete incomplete, fun less => absurd less (by omega)⟩
  · rw [members_concat mem, if_neg round, progress.complete_iff]

/-- The last call of a round completes it, and the round is the first that was incomplete. -/
theorem finish_round (progress : Progress all calls completed begun) (mem : r ∈ all)
    (before : calls.count r < begun)
    (complete : members all (calls ++ [r]) (calls.count r) = all) :
    calls.count r = completed ∧ Progress all (calls ++ [r]) (completed + 1) begun := by
  have bound := progress.completed_le mem
  have first : calls.count r = completed := by
    by_contra differs
    -- the first incomplete round has the members of this one and the caller
    have larger : members all calls completed = all := by
      refine Finset.Subset.antisymm members_subset fun other inAll => ?_
      have called := (mem_members.mp ((Finset.ext_iff.mp complete other).mpr inAll)).2
      rw [List.count_append, List.count_singleton] at called
      refine mem_members.mpr ⟨inAll, ?_⟩
      by_cases same : r = other
      · subst other
        omega
      · simp only [beq_iff_eq, same, if_false] at called
        omega
    have less := (progress.complete_iff completed).mp larger
    omega
  refine ⟨first, fun k => ?_, progress.join_begun mem before⟩
  by_cases round : k = calls.count r
  · rw [round]
    exact ⟨fun _ => by omega, fun _ => complete⟩
  · rw [members_concat mem, if_neg round, progress.complete_iff]
    omega

end Progress

/-- The first item that passes a test that the items before a position fail. -/
theorem findIdx?_eq {α : Type u} {p : α → Bool} {items : List α} {c : ℕ}
    (fails : ∀ i item, items[i]? = some item → (p item = false ↔ i < c)) :
    items.findIdx? p = if c < items.length then some c else none := by
  split
  · rename_i lt
    rw [List.findIdx?_eq_some_iff_getElem]
    refine ⟨lt, ?_, ?_⟩
    · have here := fails c items[c] (List.getElem?_eq_getElem lt)
      simpa using here
    · intro i less
      have there := (fails i _ (List.getElem?_eq_getElem (less.trans lt))).mpr less
      simpa using there
  · rename_i short
    rw [List.findIdx?_eq_none_iff]
    intro item mem
    rcases List.mem_iff_getElem?.mp mem with ⟨i, here⟩
    have inside := (List.getElem?_eq_some_iff.mp here).1
    exact (fails i item here).mpr (by omega)

end Rounds
