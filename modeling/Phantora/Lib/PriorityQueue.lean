import Mathlib.Data.List.MinMax
import Mathlib.Data.List.Nodup

/-!
# Priority queues with distinct items

A queue holds every item at most once, together with a payload. Which entry
comes first is decided by a key read off the payload, the least key first; the
order in which entries with equal keys come out is left to a permutation of the
entries, so that every tie break of a heap is an instance.
-/

universe u v

/-- A queue of distinct items with their payloads. -/
structure PriorityQueue (α : Type u) (ρ : Type v) where
  entries : List (α × ρ)
  nodup : (entries.map Prod.fst).Nodup

namespace PriorityQueue

variable {α : Type u} {ρ : Type v}

instance : Membership (α × ρ) (PriorityQueue α ρ) where
  mem queue entry := entry ∈ queue.entries

theorem mem_def {queue : PriorityQueue α ρ} {entry : α × ρ} :
    entry ∈ queue ↔ entry ∈ queue.entries :=
  Iff.rfl

/-- The queue without entries. -/
def empty : PriorityQueue α ρ where
  entries := []
  nodup := List.nodup_nil

@[simp]
theorem not_mem_empty (entry : α × ρ) : entry ∉ (empty : PriorityQueue α ρ) := by
  simp [mem_def, empty]

theorem eq_of_mem {queue : PriorityQueue α ρ} {item : α} {left right : ρ}
    (leftMem : (item, left) ∈ queue) (rightMem : (item, right) ∈ queue) : left = right := by
  have same := List.inj_on_of_nodup_map queue.nodup leftMem rightMem rfl
  exact congrArg Prod.snd same

section Update

variable [DecidableEq α]

/-- Whether the item is in the queue. -/
def contains (queue : PriorityQueue α ρ) (item : α) : Bool :=
  decide (item ∈ queue.entries.map Prod.fst)

/-- Apply a function to the payload of one item. -/
def modify (queue : PriorityQueue α ρ) (item : α) (f : ρ → ρ) : PriorityQueue α ρ where
  entries := queue.entries.map fun entry => if entry.1 = item then (entry.1, f entry.2) else entry
  nodup := by
    have keys : (queue.entries.map fun entry =>
        if entry.1 = item then (entry.1, f entry.2) else entry).map Prod.fst =
        queue.entries.map Prod.fst := by
      rw [List.map_map]
      apply List.map_congr_left
      intro entry _
      by_cases same : entry.1 = item <;> simp [same]
    rw [keys]
    exact queue.nodup

theorem mem_modify {queue : PriorityQueue α ρ} {item other : α} {f : ρ → ρ} {payload : ρ} :
    (other, payload) ∈ queue.modify item f ↔
      (other ≠ item ∧ (other, payload) ∈ queue) ∨
        (other = item ∧ ∃ old, (item, old) ∈ queue ∧ payload = f old) := by
  simp only [mem_def, modify, List.mem_map]
  constructor
  · rintro ⟨⟨key, old⟩, mem, equal⟩
    by_cases same : key = item
    · subst key
      simp only [if_true, Prod.mk.injEq] at equal
      exact Or.inr ⟨equal.1.symm, old, mem, equal.2.symm⟩
    · rw [if_neg same] at equal
      rw [equal] at mem
      rw [Prod.mk.injEq] at equal
      exact Or.inl ⟨fun eq => same (equal.1.trans eq), mem⟩
  · rintro (⟨differs, mem⟩ | ⟨rfl, old, mem, rfl⟩)
    · exact ⟨(other, payload), mem, by simp [differs]⟩
    · exact ⟨(other, old), mem, by simp⟩

/-- Insert an item; an item already present gets the new payload. -/
def push (queue : PriorityQueue α ρ) (item : α) (payload : ρ) : PriorityQueue α ρ :=
  if present : item ∈ queue.entries.map Prod.fst then
    queue.modify item fun _ => payload
  else
    { entries := queue.entries ++ [(item, payload)]
      nodup := by
        rw [List.map_append, List.nodup_append]
        refine ⟨queue.nodup, by simp, ?_⟩
        intro key keyMem other otherMem
        simp only [List.map_cons, List.map_nil, List.mem_singleton] at otherMem
        subst other
        exact fun same => present (same ▸ keyMem) }

@[simp]
theorem mem_push {queue : PriorityQueue α ρ} {item other : α} {payload value : ρ} :
    (other, value) ∈ queue.push item payload ↔
      (other = item ∧ value = payload) ∨ (other ≠ item ∧ (other, value) ∈ queue) := by
  unfold push
  by_cases present : item ∈ queue.entries.map Prod.fst
  · rw [dif_pos present, mem_modify]
    simp only [List.mem_map] at present
    rcases present with ⟨⟨key, old⟩, mem, rfl⟩
    constructor
    · rintro (⟨differs, mem'⟩ | ⟨same, _, _, equal⟩)
      · exact Or.inr ⟨differs, mem'⟩
      · exact Or.inl ⟨same, equal⟩
    · rintro (⟨same, equal⟩ | ⟨differs, mem'⟩)
      · exact Or.inr ⟨same, old, mem, equal⟩
      · exact Or.inl ⟨differs, mem'⟩
  · rw [dif_neg present]
    simp only [mem_def, List.mem_append, List.mem_singleton, Prod.mk.injEq]
    constructor
    · rintro (mem | same)
      · exact Or.inr ⟨fun same => present (same ▸ List.mem_map_of_mem (f := Prod.fst) mem), mem⟩
      · exact Or.inl same
    · rintro (same | ⟨_, mem⟩)
      · exact Or.inr same
      · exact Or.inl mem

/-- Remove an item. -/
def erase (queue : PriorityQueue α ρ) (item : α) : PriorityQueue α ρ where
  entries := queue.entries.filter fun entry => entry.1 ≠ item
  nodup := queue.nodup.sublist (List.Sublist.map _ List.filter_sublist)

@[simp]
theorem mem_erase {queue : PriorityQueue α ρ} {item other : α} {payload : ρ} :
    (other, payload) ∈ queue.erase item ↔ other ≠ item ∧ (other, payload) ∈ queue := by
  simp [mem_def, erase, and_comm]

theorem entries_push_of_absent {queue : PriorityQueue α ρ} {item : α} (payload : ρ)
    (absent : ∀ old, (item, old) ∉ queue) :
    (queue.push item payload).entries = queue.entries ++ [(item, payload)] := by
  have notMem : item ∉ queue.entries.map Prod.fst := by
    intro mem
    rcases List.mem_map.mp mem with ⟨⟨key, old⟩, entryMem, rfl⟩
    exact absent old entryMem
  simp [push, notMem]

theorem entries_perm_erase {queue : PriorityQueue α ρ} {item : α} {payload : ρ}
    (mem : (item, payload) ∈ queue) :
    queue.entries.Perm ((item, payload) :: (queue.erase item).entries) := by
  have general : ∀ entries : List (α × ρ), (entries.map Prod.fst).Nodup →
      (item, payload) ∈ entries →
      entries.Perm ((item, payload) :: entries.filter fun entry => entry.1 ≠ item) := by
    intro entries
    induction entries with
    | nil => simp
    | cons head entries ih =>
        intro nodup entryMem
        rw [List.map_cons, List.nodup_cons] at nodup
        rcases List.mem_cons.mp entryMem with rfl | tailMem
        · have rest : entries.filter (fun entry => entry.1 ≠ item) = entries := by
            apply List.filter_eq_self.mpr
            intro entry mem'
            have keyMem := List.mem_map_of_mem (f := Prod.fst) mem'
            have differs : entry.1 ≠ item := fun same => nodup.1 (same ▸ keyMem)
            simpa using differs
          rw [List.filter_cons_of_neg (by simp), rest]
        · have keyMem := List.mem_map_of_mem (f := Prod.fst) tailMem
          have differs : head.1 ≠ item := fun same => nodup.1 (same ▸ keyMem)
          rw [List.filter_cons_of_pos (by simpa using differs)]
          exact ((ih nodup.2 tailMem).cons head).trans (List.Perm.swap _ _ _)
  exact general queue.entries queue.nodup mem

/-- Change the payload of an item; the flag says whether the item was present. -/
def changePriorityBy (queue : PriorityQueue α ρ) (item : α) (f : ρ → ρ) :
    Bool × PriorityQueue α ρ :=
  (queue.contains item, queue.modify item f)

end Update

section First

variable {κ : Type} [LinearOrder κ]

/-- The entry with the least key, after breaking ties by `order`. -/
def peek (order : List (α × ρ) → List (α × ρ)) (key : ρ → κ) (queue : PriorityQueue α ρ) :
    Option (α × ρ) :=
  (order queue.entries).argmin fun entry => key entry.2

variable {order : List (α × ρ) → List (α × ρ)} {key : ρ → κ} {queue : PriorityQueue α ρ}

theorem mem_of_peek (permutes : (order queue.entries).Perm queue.entries) {entry : α × ρ}
    (first : queue.peek order key = some entry) : entry ∈ queue :=
  permutes.subset (List.argmin_mem first)

theorem key_le_of_peek (permutes : (order queue.entries).Perm queue.entries) {entry other : α × ρ}
    (first : queue.peek order key = some entry) (mem : other ∈ queue) :
    key entry.2 ≤ key other.2 :=
  List.le_of_mem_argmin (f := fun entry => key entry.2) (permutes.symm.subset mem) first

theorem peek_eq_none (permutes : (order queue.entries).Perm queue.entries) :
    queue.peek order key = none ↔ ∀ entry, entry ∉ queue := by
  unfold peek
  rw [List.argmin_eq_none]
  constructor
  · intro empty entry mem
    have present := permutes.symm.subset mem
    simp [empty] at present
  · intro absent
    apply List.eq_nil_iff_forall_not_mem.mpr
    intro entry mem
    exact absent entry (permutes.subset mem)

/-- Remove and return the entry that comes first. -/
def pop [DecidableEq α] (order : List (α × ρ) → List (α × ρ)) (key : ρ → κ)
    (queue : PriorityQueue α ρ) : Option ((α × ρ) × PriorityQueue α ρ) :=
  (queue.peek order key).map fun entry => (entry, queue.erase entry.1)

end First

end PriorityQueue
