import Mathlib.Logic.Function.Basic
import Mathlib.Logic.Relation
import Mathlib.Order.Nat

/-!
# Levels of a growing graph

A graph on numbers that is built by appending items and adding edges. When every edge
leads to a higher level, or to a later item of the same level, the graph has no cycle.
-/

namespace Levels

universe u

variable {ι : Type u} [PartialOrder ι] {edge edge' : ℕ → ℕ → Prop} {level : ℕ → ι} {height : ι}
  {count a b d e : ℕ}

/-- The item is on a lower level than another, or before it on the same level. -/
def Below (level : ℕ → ι) (d e : ℕ) : Prop :=
  level d < level e ∨ (level d = level e ∧ d < e)

theorem Below.trans (left : Below level a b) (right : Below level b d) : Below level a d := by
  rcases left with less | ⟨same, before⟩
  · rcases right with less' | ⟨same', _⟩
    · exact Or.inl (less.trans less')
    · exact Or.inl (same' ▸ less)
  · rcases right with less' | ⟨same', before'⟩
    · exact Or.inl (same ▸ less')
    · exact Or.inr ⟨same.trans same', Nat.lt_trans before before'⟩

theorem not_below_self : ¬Below level e e := by
  rintro (less | ⟨_, before⟩)
  · exact lt_irrefl _ less
  · exact Nat.lt_irrefl e before

theorem below_of_le (low : level d ≤ level e) (before : d < e) : Below level d e :=
  low.lt_or_eq.imp_right fun same => ⟨same, before⟩

/-- Edges are between the first items, and lead to higher levels or to later items of a level. -/
structure Levelled (edge : ℕ → ℕ → Prop) (count : ℕ) (level : ℕ → ι) : Prop where
  bounded : ∀ {d e}, edge d e → d < count ∧ e < count
  climbs : ∀ {d e}, edge d e → Below level d e

namespace Levelled

/-- There is no cycle. -/
theorem acyclic (levelled : Levelled edge count level) (e : ℕ) :
    ¬Relation.TransGen edge e e := by
  have climbs : ∀ {d e}, Relation.TransGen edge d e → Below level d e := by
    intro d e path
    induction path with
    | single step => exact levelled.climbs step
    | tail _ step ih => exact ih.trans (levelled.climbs step)
  exact fun cycle => not_below_self (climbs cycle)

theorem mono (levelled : Levelled edge count level) (edges : ∀ {d e}, edge' d e → edge d e) :
    Levelled edge' count level :=
  ⟨fun step => levelled.bounded (edges step), fun step => levelled.climbs (edges step)⟩

/-- An item is appended on a level that is not below those of its sources. -/
theorem append (levelled : Levelled edge count level)
    (edges : ∀ {d e}, edge' d e → edge d e ∨ (e = count ∧ d < count ∧ level d ≤ height)) :
    Levelled edge' (count + 1) (Function.update level count height) := by
  have same : ∀ {d}, d < count → Function.update level count height d = level d := by
    intro d old
    exact Function.update_of_ne (Nat.ne_of_lt old) _ _
  refine ⟨fun {d e} step => ?_, fun {d e} step => ?_⟩
  · rcases edges step with old | ⟨rfl, before, _⟩
    · rcases levelled.bounded old with ⟨source, target⟩
      exact ⟨Nat.lt_succ_of_lt source, Nat.lt_succ_of_lt target⟩
    · exact ⟨Nat.lt_succ_of_lt before, Nat.lt_succ_self _⟩
  · rcases edges step with old | ⟨rfl, before, low⟩
    · rcases levelled.bounded old with ⟨source, target⟩
      rw [Below, same source, same target]
      exact levelled.climbs old
    · refine below_of_le ?_ before
      rw [same before, Function.update_self]
      exact low

/-- An edge is added that climbs. -/
theorem insert (levelled : Levelled edge count level) (source : a < count) (target : b < count)
    (climbs : Below level a b) (edges : ∀ {d e}, edge' d e → edge d e ∨ (d = a ∧ e = b)) :
    Levelled edge' count level := by
  refine ⟨fun {d e} step => ?_, fun {d e} step => ?_⟩
  · rcases edges step with old | ⟨rfl, rfl⟩
    · exact levelled.bounded old
    · exact ⟨source, target⟩
  · rcases edges step with old | ⟨rfl, rfl⟩
    · exact levelled.climbs old
    · exact climbs

end Levelled

end Levels
