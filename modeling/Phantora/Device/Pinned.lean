import Mathlib.Order.CompletePartialOrder
import Mathlib.Order.Interval.Set.Disjoint
import Phantora.CudaCall
import Phantora.Lib.SortedMap

/-!
# Pinned host memory

The client keeps the host blocks that have been registered, and looks up the
nearest one before an address to tell whether a copy is from or to pinned
memory. The block that starts at the address itself is not looked at.
-/

namespace Phantora

/-- The number of values of `size_t` and `usize`. -/
def wordSize : ℕ := 2 ^ 64

/-- A call that registers or unregisters a host block. -/
inductive HostCall where
  | register (ptr size : ℕ)
  | unregister (ptr : ℕ)
deriving DecidableEq, Repr

/-- The sizes of the registered host blocks, by their addresses. -/
abbrev PinnedMem := SortedMap ℕ ℕ

namespace PinnedMem

def cudaHostRegister (mem : PinnedMem) (ptr size : ℕ) : PinnedMem :=
  mem.insert ptr size

def cudaHostUnregister (mem : PinnedMem) (ptr : ℕ) : PinnedMem :=
  mem.erase ptr

def perform (mem : PinnedMem) : HostCall → PinnedMem
  | .register ptr size => mem.cudaHostRegister ptr size
  | .unregister ptr => mem.cudaHostUnregister ptr

/-- The registered blocks after some calls. -/
def after (calls : List HostCall) : PinnedMem :=
  calls.foldl perform .empty

/-- Whether the nearest block that starts before an address reaches to the end of a copy. -/
def isPinned (mem : PinnedMem) (loc size : ℕ) : Bool :=
  match mem.lastBelow loc with
  | none => false
  | some (start, length) => (loc + size) % wordSize ≤ (start + length) % wordSize

/-- The kind of a copy as it is sent to the simulator; no other kind is expected. -/
def memcpyKind (mem : PinnedMem) (src dst size : ℕ) : ℤ → Option CudaMemcpyKind
  | 0 => some .hostToHost
  | 1 => some (if mem.isPinned src size then .pinnedHostToDevice else .hostToDevice)
  | 2 => some (if mem.isPinned dst size then .deviceToPinnedHost else .deviceToHost)
  | 3 => some .deviceToDevice
  | 4 => some .hostToDevice
  | _ => none

/-- The blocks registered and not yet unregistered. -/
abbrev Blocks := ℕ → Option ℕ

def Blocks.note (blocks : Blocks) : HostCall → Blocks
  | .register ptr size => Function.update blocks ptr (some size)
  | .unregister ptr => Function.update blocks ptr none

def Blocks.after (calls : List HostCall) : Blocks :=
  calls.foldl Blocks.note fun _ => none

/-- Every block ends inside the address space, and no two blocks share an address. -/
structure Blocks.Apart (blocks : Blocks) : Prop where
  inside : ∀ ptr size, blocks ptr = some size → ptr + size < wordSize
  disjoint : ∀ ptr size ptr' size', blocks ptr = some size → blocks ptr' = some size' →
    ptr ≠ ptr' → Disjoint (Set.Ico ptr (ptr + size)) (Set.Ico ptr' (ptr' + size'))

/-- The whole range lies in one block. -/
def Blocks.Contains (blocks : Blocks) (loc size : ℕ) : Prop :=
  ∃ ptr length, blocks ptr = some length ∧ ptr ≤ loc ∧ loc + size ≤ ptr + length

/-- A range is detected as pinned exactly if it lies in a block, and copies from it and to it are
sent as such. -/
structure Exact (mem : PinnedMem) (blocks : Blocks) (loc size : ℕ) : Prop where
  detected : mem.isPinned loc size = true ↔ blocks.Contains loc size
  source : ∀ dst, mem.memcpyKind loc dst size 1 = some .pinnedHostToDevice ↔
    blocks.Contains loc size
  destination : ∀ src, mem.memcpyKind src loc size 2 = some .deviceToPinnedHost ↔
    blocks.Contains loc size

/-- The block is the nearest one that starts before the address. -/
def Blocks.Nearest (blocks : Blocks) (loc ptr length : ℕ) : Prop :=
  blocks ptr = some length ∧ ptr < loc ∧
    ∀ other size, blocks other = some size → other < loc → other ≤ ptr

/-- A block that contains the range is the nearest one that starts before it, and a range beyond
the address space does not wrap to below the end of the nearest block. -/
structure Blocks.Seen (blocks : Blocks) (loc size : ℕ) : Prop where
  nearest : ∀ ptr length, blocks ptr = some length → ptr ≤ loc → loc + size ≤ ptr + length →
    blocks.Nearest loc ptr length
  unwrapped : wordSize ≤ loc + size → ∀ ptr length, blocks.Nearest loc ptr length →
    ptr + length < loc + size - wordSize

variable {mem : PinnedMem} {blocks : Blocks} {calls : List HostCall} {loc size ptr length : ℕ}

/-- The map holds the blocks registered. -/
def Holds (mem : PinnedMem) (blocks : Blocks) : Prop :=
  ∀ ptr size, (ptr, size) ∈ mem.entries ↔ blocks ptr = some size

theorem Holds.perform (holds : Holds mem blocks) (call : HostCall) :
    Holds (mem.perform call) (blocks.note call) := by
  intro ptr size
  cases call with
  | register start length =>
      rw [PinnedMem.perform, cudaHostRegister, SortedMap.mem_insert, holds, Blocks.note]
      by_cases same : ptr = start
      · subst ptr
        simp [eq_comm]
      · simp [same]
  | unregister start =>
      rw [PinnedMem.perform, cudaHostUnregister, SortedMap.mem_erase, holds, Blocks.note]
      by_cases same : ptr = start
      · subst ptr
        simp
      · simp [same]

theorem holds_after (calls : List HostCall) : Holds (after calls) (Blocks.after calls) := by
  have general : ∀ (calls : List HostCall) {mem : PinnedMem} {blocks : Blocks}, Holds mem blocks →
      Holds (calls.foldl PinnedMem.perform mem) (calls.foldl Blocks.note blocks) := by
    intro calls
    induction calls with
    | nil => exact fun holds => holds
    | cons call calls ih => exact fun holds => ih (holds.perform call)
  exact general calls (by simp [Holds, SortedMap.empty])

theorem Holds.lastBelow (holds : Holds mem blocks) :
    mem.lastBelow loc = some (ptr, length) ↔ blocks.Nearest loc ptr length := by
  rw [SortedMap.lastBelow_eq_some, holds, Blocks.Nearest]
  refine and_congr_right fun _ => and_congr_right fun _ => ?_
  exact ⟨fun greatest other size known => greatest (other, size) ((holds other size).mpr known),
    fun greatest other mem => greatest other.1 other.2 ((holds other.1 other.2).mp mem)⟩

theorem Holds.isPinned (holds : Holds mem blocks) (apart : blocks.Apart) :
    mem.isPinned loc size = true ↔
      ∃ ptr length, blocks.Nearest loc ptr length ∧ (loc + size) % wordSize ≤ ptr + length := by
  rw [PinnedMem.isPinned]
  cases last : mem.lastBelow loc with
  | none =>
      constructor
      · exact fun pinned => absurd pinned Bool.false_ne_true
      · rintro ⟨ptr, length, nearest, _⟩
        rw [holds.lastBelow.mpr nearest] at last
        cases last
  | some block =>
      rcases block with ⟨ptr, length⟩
      have nearest := holds.lastBelow.mp last
      have ends : (ptr + length) % wordSize = ptr + length :=
        Nat.mod_eq_of_lt (apart.inside ptr length nearest.1)
      simp only [ends, decide_eq_true_eq]
      constructor
      · exact fun reaches => ⟨ptr, length, nearest, reaches⟩
      · rintro ⟨ptr', length', nearest', reaches⟩
        have same := last.symm.trans (holds.lastBelow.mpr nearest')
        rw [Option.some.injEq, Prod.mk.injEq] at same
        rcases same with ⟨rfl, rfl⟩
        exact reaches

/-- Two blocks that contain an address are one. -/
theorem Blocks.Apart.unique (apart : blocks.Apart) {ptr' length' : ℕ}
    (first : blocks ptr = some length) (second : blocks ptr' = some length')
    (inFirst : loc ∈ Set.Ico ptr (ptr + length)) (inSecond : loc ∈ Set.Ico ptr' (ptr' + length')) :
    ptr = ptr' := by
  by_contra differs
  exact Set.disjoint_left.mp (apart.disjoint ptr length ptr' length' first second differs) inFirst
    inSecond

theorem detected_iff (holds : Holds mem blocks) (apart : blocks.Apart) (inSpace : loc < wordSize)
    (positive : 1 ≤ size) (isSize : size < wordSize) :
    (mem.isPinned loc size = true ↔ blocks.Contains loc size) ↔ blocks.Seen loc size := by
  rw [holds.isPinned apart]
  by_cases wraps : wordSize ≤ loc + size
  · have rest : (loc + size) % wordSize = loc + size - wordSize := by
      rw [Nat.mod_eq_sub_mod wraps]
      apply Nat.mod_eq_of_lt
      omega
    have outside : ∀ ptr length, blocks ptr = some length → ¬loc + size ≤ ptr + length := by
      intro ptr length known
      have ends := apart.inside ptr length known
      omega
    have never : ¬blocks.Contains loc size := by
      rintro ⟨ptr, length, known, _, reaches⟩
      exact outside ptr length known reaches
    rw [iff_false_right never, rest]
    constructor
    · intro unseen
      refine ⟨fun ptr length known _ reaches => absurd reaches (outside ptr length known), ?_⟩
      intro _ ptr length nearest
      by_contra reaches
      exact unseen ⟨ptr, length, nearest, not_lt.mp reaches⟩
    · rintro seen ⟨ptr, length, nearest, reaches⟩
      have below := seen.unwrapped wraps ptr length nearest
      omega
  · have rest : (loc + size) % wordSize = loc + size := Nat.mod_eq_of_lt (not_le.mp wraps)
    rw [rest]
    constructor
    · intro exact_
      refine ⟨?_, fun wraps' => absurd wraps' wraps⟩
      intro ptr length known starts reaches
      rcases exact_.mpr ⟨ptr, length, known, starts, reaches⟩ with
        ⟨ptr', length', nearest, reaches'⟩
      have before := nearest.2.1
      have same : ptr = ptr' :=
        apart.unique known nearest.1 ⟨starts, by omega⟩ ⟨by omega, by omega⟩
      subst same
      rw [Option.some.inj (known.symm.trans nearest.1)]
      exact nearest
    · intro seen
      constructor
      · rintro ⟨ptr, length, nearest, reaches⟩
        exact ⟨ptr, length, nearest.1, nearest.2.1.le, reaches⟩
      · rintro ⟨ptr, length, known, starts, reaches⟩
        exact ⟨ptr, length, seen.nearest ptr length known starts reaches, reaches⟩

theorem exact_iff_detected : Exact mem blocks loc size ↔
    (mem.isPinned loc size = true ↔ blocks.Contains loc size) := by
  have source : ∀ dst, mem.memcpyKind loc dst size 1 = some .pinnedHostToDevice ↔
      mem.isPinned loc size = true := by
    intro dst
    cases pinned : mem.isPinned loc size <;> simp [memcpyKind, pinned]
  have destination : ∀ src, mem.memcpyKind src loc size 2 = some .deviceToPinnedHost ↔
      mem.isPinned loc size = true := by
    intro src
    cases pinned : mem.isPinned loc size <;> simp [memcpyKind, pinned]
  constructor
  · exact fun exact_ => exact_.detected
  · exact fun detected => ⟨detected, fun dst => (source dst).trans detected,
      fun src => (destination src).trans detected⟩

/-- After any calls that leave the registered blocks disjoint, a range is detected as pinned
exactly when it lies in a block, unless a block that contains it starts at its very address or lies
behind an empty block, or it wraps around the end of the address space. -/
theorem exact_iff (apart : (Blocks.after calls).Apart) (inSpace : loc < wordSize)
    (positive : 1 ≤ size) (isSize : size < wordSize) :
    Exact (after calls) (Blocks.after calls) loc size ↔ (Blocks.after calls).Seen loc size :=
  exact_iff_detected.trans (detected_iff (holds_after calls) apart inSpace positive isSize)

/-- A block of one page. -/
def onePage : List HostCall :=
  [.register 8192 4096, .unregister 8192, .register 4096 4096]

theorem onePage_eq_some : Blocks.after onePage ptr = some length ↔ ptr = 4096 ∧ length = 4096 := by
  simp only [onePage, Blocks.after, Blocks.note, List.foldl_cons, List.foldl_nil,
    Function.update_apply]
  split
  · simp_all [eq_comm]
  · split <;> simp_all

theorem apart_onePage : (Blocks.after onePage).Apart := by
  refine ⟨?_, ?_⟩
  · intro ptr size known
    rcases onePage_eq_some.mp known with ⟨rfl, rfl⟩
    decide
  · intro ptr size ptr' size' known known' differs
    exact absurd ((onePage_eq_some.mp known).1.trans (onePage_eq_some.mp known').1.symm) differs

/-- A copy from the middle of the page. -/
theorem exact_iff_middle : Exact (after onePage) (Blocks.after onePage) 5000 100 := by
  refine (exact_iff apart_onePage (by decide) (by decide) (by decide)).mpr ⟨?_, ?_⟩
  · intro ptr length known _ _
    rcases onePage_eq_some.mp known with ⟨rfl, rfl⟩
    refine ⟨known, by decide, ?_⟩
    intro other size known' _
    exact (onePage_eq_some.mp known').1.le
  · exact fun wraps => absurd wraps (by decide)

/-- A copy of the whole page is not detected. -/
theorem not_exact_wholePage : (Blocks.after onePage).Apart ∧
    (Blocks.after onePage).Contains 4096 4096 ∧ (after onePage).isPinned 4096 4096 = false ∧
      (after onePage).memcpyKind 4096 0 4096 1 = some .hostToDevice ∧
      ¬Exact (after onePage) (Blocks.after onePage) 4096 4096 := by
  have contains : (Blocks.after onePage).Contains 4096 4096 :=
    ⟨4096, 4096, onePage_eq_some.mpr ⟨rfl, rfl⟩, le_rfl, le_rfl⟩
  have unseen : (after onePage).isPinned 4096 4096 = false := by decide
  refine ⟨apart_onePage, contains, unseen, by decide, ?_⟩
  intro exact_
  exact absurd (unseen.symm.trans (exact_.detected.mpr contains)) Bool.false_ne_true

end PinnedMem

end Phantora
