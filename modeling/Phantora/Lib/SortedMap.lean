import Mathlib.Algebra.BigOperators.Group.List.Basic
import Mathlib.Algebra.GroupWithZero.Nat
import Mathlib.Data.List.Nodup
import Mathlib.Order.Lattice

/-!
# Maps sorted by their keys

A map as the list of its entries in the order of the keys, with a query for the
last entry below a bound.
-/

universe u v

/-- The entries of a map, the smallest key first. -/
structure SortedMap (κ : Type u) (ν : Type v) [LinearOrder κ] where
  entries : List (κ × ν)
  sorted : entries.Pairwise fun first second => first.1 < second.1

namespace SortedMap

variable {κ : Type u} {ν : Type v} [LinearOrder κ]

def empty : SortedMap κ ν :=
  ⟨[], .nil⟩

/-- The value of a key. -/
def find? (map : SortedMap κ ν) (key : κ) : Option ν :=
  (map.entries.find? fun entry => entry.1 = key).map Prod.snd

/-- Give a key a value, whether or not it had one. -/
def insert (map : SortedMap κ ν) (key : κ) (value : ν) : SortedMap κ ν where
  entries := (map.entries.filter fun entry => entry.1 < key) ++
    (key, value) :: map.entries.filter fun entry => key < entry.1
  sorted := by
    refine List.pairwise_append.mpr
      ⟨map.sorted.filter _, List.pairwise_cons.mpr ⟨?_, map.sorted.filter _⟩, ?_⟩
    · intro entry mem
      exact of_decide_eq_true (List.mem_filter.mp mem).2
    · intro first below second mem
      have lt : first.1 < key := of_decide_eq_true (List.mem_filter.mp below).2
      rcases List.mem_cons.mp mem with rfl | above
      · exact lt
      · exact lt.trans (of_decide_eq_true (List.mem_filter.mp above).2)

def erase (map : SortedMap κ ν) (key : κ) : SortedMap κ ν where
  entries := map.entries.filter fun entry => entry.1 ≠ key
  sorted := map.sorted.filter _

/-- The last entry whose key is below a bound. -/
def lastBelow (map : SortedMap κ ν) (bound : κ) : Option (κ × ν) :=
  (map.entries.filter fun entry => entry.1 < bound).getLast?

variable {map : SortedMap κ ν} {key bound : κ} {value : ν} {entry : κ × ν}

theorem nodup_keys (map : SortedMap κ ν) : (map.entries.map Prod.fst).Nodup :=
  List.pairwise_map.mpr (map.sorted.imp fun lt => lt.ne)

/-- A key has one entry. -/
theorem eq_of_mem {first second : κ × ν} (left : first ∈ map.entries)
    (right : second ∈ map.entries) (same : first.1 = second.1) : first = second :=
  List.inj_on_of_nodup_map map.nodup_keys left right same

theorem find?_eq_some : map.find? key = some value ↔ (key, value) ∈ map.entries := by
  rw [find?, Option.map_eq_some_iff]
  constructor
  · rintro ⟨entry, found, rfl⟩
    have same : entry.1 = key := by simpa using List.find?_some found
    exact same ▸ List.mem_of_find?_eq_some found
  · intro mem
    cases found : map.entries.find? fun entry => entry.1 = key with
    | none =>
        rw [List.find?_eq_none] at found
        exact absurd (decide_eq_true rfl) (found _ mem)
    | some entry =>
        have same : entry.1 = key := by simpa using List.find?_some found
        have equal : entry = (key, value) := eq_of_mem (List.mem_of_find?_eq_some found) mem same
        exact ⟨entry, rfl, by rw [equal]⟩

theorem mem_insert : entry ∈ (map.insert key value).entries ↔
    entry = (key, value) ∨ entry ∈ map.entries ∧ entry.1 ≠ key := by
  simp only [insert, List.mem_append, List.mem_cons, List.mem_filter, decide_eq_true_eq, ne_eq]
  have split : entry.1 ≠ key ↔ entry.1 < key ∨ key < entry.1 := lt_or_lt_iff_ne.symm
  tauto

theorem mem_erase : entry ∈ (map.erase key).entries ↔ entry ∈ map.entries ∧ entry.1 ≠ key := by
  simp [erase]

theorem lastBelow_eq_some : map.lastBelow bound = some entry ↔
    entry ∈ map.entries ∧ entry.1 < bound ∧
      ∀ other ∈ map.entries, other.1 < bound → other.1 ≤ entry.1 := by
  have below : ∀ other, other ∈ map.entries.filter (fun entry => entry.1 < bound) ↔
      other ∈ map.entries ∧ other.1 < bound := by simp
  rw [lastBelow]
  constructor
  · intro last
    rcases List.getLast?_eq_some_iff.mp last with ⟨before, split⟩
    have mem := (below entry).mp (split ▸ List.mem_append_right _ List.mem_cons_self)
    refine ⟨mem.1, mem.2, ?_⟩
    intro other among lt
    have isBelow := (below other).mpr ⟨among, lt⟩
    have sorted := map.sorted.filter fun entry => decide (entry.1 < bound)
    rw [split] at isBelow sorted
    rcases List.mem_append.mp isBelow with earlier | same
    · exact ((List.pairwise_append.mp sorted).2.2 other earlier entry List.mem_cons_self).le
    · rw [List.mem_singleton.mp same]
  · rintro ⟨mem, lt, greatest⟩
    have isBelow := (below entry).mpr ⟨mem, lt⟩
    cases last : (map.entries.filter fun entry => entry.1 < bound).getLast? with
    | none =>
        rw [List.getLast?_eq_none_iff.mp last] at isBelow
        exact absurd isBelow List.not_mem_nil
    | some other =>
        rcases List.getLast?_eq_some_iff.mp last with ⟨before, split⟩
        have otherBelow := (below other).mp (split ▸ List.mem_append_right _ List.mem_cons_self)
        have sorted := map.sorted.filter fun entry => decide (entry.1 < bound)
        rw [split] at isBelow sorted
        rcases List.mem_append.mp isBelow with earlier | same
        · have less := (List.pairwise_append.mp sorted).2.2 entry earlier other List.mem_cons_self
          exact absurd (greatest other otherBelow.1 otherBelow.2) (not_le.mpr less)
        · rw [List.mem_singleton.mp same]

theorem sum_insert {map : SortedMap κ ℕ} {value : ℕ} (fresh : map.find? key = none) :
    ((map.insert key value).entries.map Prod.snd).sum =
      (map.entries.map Prod.snd).sum + value := by
  have absent : ∀ entry ∈ map.entries, entry.1 ≠ key := by
    intro entry mem same
    have known := find?_eq_some.mpr (show (key, entry.2) ∈ map.entries from same ▸ mem)
    rw [fresh] at known
    cases known
  have above : map.entries.filter (fun entry => key < entry.1) =
      map.entries.filter fun entry => !decide (entry.1 < key) := by
    apply List.filter_congr
    intro entry mem
    have apart := lt_or_lt_iff_ne.mpr (absent entry mem)
    by_cases less : entry.1 < key
    · simp [less, not_lt_of_gt less]
    · simp [less, apart.resolve_left less]
  have parts := (List.filter_append_perm (fun entry : κ × ℕ => decide (entry.1 < key))
    map.entries).map Prod.snd
  have inserted : (map.insert key value).entries =
      map.entries.filter (fun entry => entry.1 < key) ++
        (key, value) :: map.entries.filter fun entry => !decide (entry.1 < key) := by
    rw [← above]
    rfl
  rw [inserted, ← parts.sum_eq]
  simp only [List.map_append, List.map_cons, List.sum_append, List.sum_cons]
  omega

theorem sum_erase {map : SortedMap κ ℕ} {value : ℕ} (known : map.find? key = some value) :
    ((map.erase key).entries.map Prod.snd).sum + value = (map.entries.map Prod.snd).sum := by
  have mem := find?_eq_some.mp known
  have sole : map.entries.filter (fun entry => !decide (entry.1 ≠ key)) = [(key, value)] := by
    have nodup : (map.entries.filter fun entry => !decide (entry.1 ≠ key)).Nodup :=
      (List.Nodup.of_map _ map.nodup_keys).filter _
    apply List.perm_singleton.mp
    refine (List.perm_ext_iff_of_nodup nodup (List.nodup_singleton _)).mpr ?_
    intro entry
    rw [List.mem_filter, List.mem_singleton]
    constructor
    · rintro ⟨among, isKey⟩
      exact eq_of_mem among mem (by simpa using isKey)
    · rintro rfl
      exact ⟨mem, by simp⟩
  have parts := (List.filter_append_perm (fun entry : κ × ℕ => decide (entry.1 ≠ key))
    map.entries).map Prod.snd
  rw [← parts.sum_eq, sole, List.map_append, List.sum_append]
  rfl

end SortedMap
