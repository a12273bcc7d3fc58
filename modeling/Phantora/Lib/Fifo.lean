import Mathlib.Data.List.Basic

/-!
# Matching first come, first served

Items of two kinds are offered one at a time. An item is matched with the first
item of the other kind that waits, or waits itself. The items of both kinds are
then matched in their orders, and only one of the kinds has items that wait.
-/

namespace Fifo

universe u v

variable {α : Type u} {β : Type v} {items queue : List α} {item : α} {peers rest : List β}
  {peer : β} {matched : ℕ}

/-- What waits of the items when the first of them are matched; an empty queue is removed. -/
def left (items : List α) (matched : ℕ) : Option (List α) :=
  if items.drop matched = [] then none else some (items.drop matched)

theorem left_eq_none : left items matched = none ↔ items.length ≤ matched := by
  simp [left]

theorem left_eq_some :
    left items matched = some queue ↔ queue ≠ [] ∧ items.drop matched = queue := by
  simp only [left]
  split
  · rename_i empty
    simp only [empty, reduceCtorEq, false_iff, not_and]
    exact fun nonempty same => nonempty same.symm
  · rename_i nonempty
    rw [Option.some.injEq]
    constructor
    · rintro rfl
      exact ⟨nonempty, rfl⟩
    · exact And.right

/-- An item that finds no peer is the last that waits. -/
theorem left_concat (few : matched ≤ items.length) :
    left (items ++ [item]) matched = some ((left items matched).getD [] ++ [item]) := by
  rw [left_eq_some, List.drop_append_of_le_length few]
  refine ⟨by simp, ?_⟩
  congr 1
  simp only [left]
  split
  · rename_i empty
    exact empty
  · rfl

/-- The first item that waits is matched. -/
theorem left_succ (waits : left items matched = some (item :: queue)) :
    left items (matched + 1) = if queue = [] then none else some queue := by
  rw [left, ← List.drop_drop, (left_eq_some.mp waits).2, List.drop_succ_cons, List.drop_zero]

/-- An item that finds no peer leaves the pairs as they are. -/
theorem zip_concat_of_left_eq_none (none : left peers items.length = none) :
    (items ++ [item]).zip peers = items.zip peers := by
  rw [left_eq_none] at none
  induction items generalizing peers with
  | nil =>
      rw [List.length_nil, Nat.le_zero, List.length_eq_zero_iff] at none
      simp [none]
  | cons first items ih =>
      cases peers with
      | nil => simp
      | cons other peers =>
          have few : peers.length ≤ items.length := by simpa using none
          simp [ih few]

/-- An item is matched with the first peer that waits. -/
theorem zip_concat_of_left_eq_some (waits : left peers items.length = some (peer :: rest)) :
    (items ++ [item]).zip peers = items.zip peers ++ [(item, peer)] := by
  rcases left_eq_some.mp waits with ⟨_, dropped⟩
  have split : peers = peers.take items.length ++ peer :: rest := by
    rw [← dropped, List.take_append_drop]
  have length : items.length = (peers.take items.length).length := by
    have enough : items.length < peers.length := by
      by_contra few
      rw [List.drop_eq_nil_of_le (by omega)] at dropped
      cases dropped
    rw [List.length_take]
    omega
  have shorter : items.zip peers = items.zip (peers.take items.length) := by
    conv_lhs => rw [split, ← List.append_nil items]
    rw [List.zip_append (by simpa using length)]
    simp
  rw [shorter]
  conv_lhs => rw [split]
  rw [List.zip_append length]
  rfl

end Fifo
