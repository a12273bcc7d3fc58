import Mathlib.Logic.Function.Basic
import Phantora.Device.Pinned
import Phantora.Lib.Outcome
import Phantora.Lib.Runs

/-!
# Device memory

The runtime library hands out device addresses from a counter and keeps an
account of the blocks of each device. It computes with words of 64 bits.
Allocating and freeing use the account of the device that is current for the
thread.
-/

namespace Phantora

open Outcome

/-- Why freeing a block panics. -/
inductive MemoryPanic where
  | unknownDevice
  | unknownBlock
  | blockAboveTotal
deriving DecidableEq, Repr

/-- What the runtime is told about the devices: how many there are, and how much memory each has. -/
structure DeviceConfig where
  count : ℤ
  memory : ℕ
  memory_lt : memory < wordSize

/-- The account of a device. -/
structure GpuMemory where
  size : ℕ := 0
  blocks : SortedMap ℕ ℕ := .empty

/-- `MEM_ALIGNMENT_MASK`. -/
def memAlignmentMask : ℕ := 255

/-- A size rounded up to a multiple of 256. -/
def alignedSize (size : ℕ) : ℕ :=
  (size + memAlignmentMask) % wordSize / (memAlignmentMask + 1) * (memAlignmentMask + 1)

/-- The memory of a process: the current device of every thread, the next address, and the
accounts. -/
structure DeviceMemory where
  current : ℕ → ℤ := fun _ => 0
  limit : ℕ := memAlignmentMask + 1
  gpuMem : ℤ → Option GpuMemory := fun _ => none

namespace DeviceMemory

/-- The account of a device, empty if there is none. -/
def account (memory : DeviceMemory) (device : ℤ) : GpuMemory :=
  (memory.gpuMem device).getD {}

def cudaSetDevice (config : DeviceConfig) (memory : DeviceMemory) (thread : ℕ) (device : ℤ) :
    DeviceMemory :=
  if device < 0 ∨ config.count ≤ device then memory
  else { memory with current := Function.update memory.current thread device }

/-- Replace the account of a device. -/
def setAccount (memory : DeviceMemory) (device : ℤ) (mem : GpuMemory) : DeviceMemory :=
  { memory with gpuMem := Function.update memory.gpuMem device (some mem) }

def cudaRegisterMalloc (memory : DeviceMemory) (device : ℤ) (ptr size total : ℕ) :
    DeviceMemory × Bool :=
  let mem := memory.account device
  if total < (mem.size + size) % wordSize then
    (memory.setAccount device mem, false)
  else
    (memory.setAccount device ⟨(mem.size + size) % wordSize, mem.blocks.insert ptr size⟩, true)

/-- Allocate memory; the address, or `none` when there is not enough. -/
def cudaMalloc (config : DeviceConfig) (memory : DeviceMemory) (thread size : ℕ) :
    DeviceMemory × Option ℕ :=
  if size = 0 then (memory, some 0)
  else
    let aligned := alignedSize size
    let (registered, success) :=
      memory.cudaRegisterMalloc (memory.current thread) memory.limit aligned config.memory
    if success then
      ({ registered with limit := (memory.limit + aligned) % wordSize }, some memory.limit)
    else (registered, none)

def cudaRegisterFree (memory : DeviceMemory) (device : ℤ) (ptr : ℕ) :
    Except MemoryPanic DeviceMemory := do
  let mem ← unwrap (memory.gpuMem device) .unknownDevice
  let size ← unwrap (mem.blocks.find? ptr) .unknownBlock
  assert (size ≤ mem.size) .blockAboveTotal
  return memory.setAccount device ⟨mem.size - size, mem.blocks.erase ptr⟩

def cudaFree (memory : DeviceMemory) (thread ptr : ℕ) : Except MemoryPanic DeviceMemory :=
  if ptr ≠ 0 then memory.cudaRegisterFree (memory.current thread) ptr else .ok memory

/-- What is free and what there is in all. -/
def cudaMemGetInfo (config : DeviceConfig) (memory : DeviceMemory) (thread : ℕ) :
    DeviceMemory × ℕ × ℕ :=
  let mem := memory.account (memory.current thread)
  (memory.setAccount (memory.current thread) mem,
    (config.memory + wordSize - mem.size) % wordSize, config.memory)

end DeviceMemory

/-- A call of the runtime library by a thread. -/
inductive MemoryCall where
  | setDevice (thread : ℕ) (device : ℤ)
  | malloc (thread size : ℕ)
  | free (thread ptr : ℕ)
  | memGetInfo (thread : ℕ)
deriving DecidableEq, Repr

/-- A block that has been allocated: what was asked for and what has been handed out. -/
structure Block where
  device : ℤ
  ptr : ℕ
  requested : ℕ
  size : ℕ
deriving DecidableEq, Repr

/-- The memory with the blocks that have been allocated and not yet freed. -/
structure Heap where
  memory : DeviceMemory := {}
  live : List Block := []

namespace Heap

/-- The blocks after an allocation. -/
def allocate (heap : Heap) (thread size : ℕ) : DeviceMemory × Option ℕ → Heap
  | (memory, some ptr) =>
      if size = 0 then ⟨memory, heap.live⟩
      else ⟨memory, heap.live ++ [⟨heap.memory.current thread, ptr, size, alignedSize size⟩]⟩
  | (memory, none) => ⟨memory, heap.live⟩

def perform (config : DeviceConfig) (heap : Heap) : MemoryCall → Except MemoryPanic Heap
  | .setDevice thread device =>
      .ok { heap with memory := heap.memory.cudaSetDevice config thread device }
  | .malloc thread size =>
      .ok (heap.allocate thread size (heap.memory.cudaMalloc config thread size))
  | .free thread ptr => do
      let memory ← heap.memory.cudaFree thread ptr
      return ⟨memory, heap.live.filter fun block => block.ptr ≠ ptr⟩
  | .memGetInfo thread => .ok { heap with memory := (heap.memory.cudaMemGetInfo config thread).1 }

/-- A pointer that is freed is null or that of a live block. -/
def Frees (heap : Heap) : MemoryCall → Prop
  | .free _ ptr => ptr = 0 ∨ ∃ block ∈ heap.live, block.ptr = ptr
  | _ => True

/-- The block freed is one of the device that is current. -/
def AtHome (heap : Heap) : MemoryCall → Prop
  | .free thread ptr => ∀ block ∈ heap.live, block.ptr = ptr →
      heap.memory.current thread = block.device
  | _ => True

/-- The words of an allocation do not wrap: neither the rounding of the size nor, if the block is
granted, the total of the device and the next address. -/
def Unwrapped (config : DeviceConfig) (heap : Heap) : MemoryCall → Prop
  | .malloc thread size => size = 0 ∨ size + memAlignmentMask < wordSize ∧
      (((heap.memory.account (heap.memory.current thread)).size + alignedSize size) % wordSize ≤
        config.memory →
          (heap.memory.account (heap.memory.current thread)).size + alignedSize size < wordSize ∧
            heap.memory.limit + alignedSize size < wordSize)
  | _ => True

/-- Frees are for the device that is current, and allocations do not wrap. -/
def Careful (config : DeviceConfig) (heap : Heap) (call : MemoryCall) : Prop :=
  heap.AtHome call ∧ heap.Unwrapped config call

/-- A call that respects the given conditions. -/
structure Step (config : DeviceConfig) (careful : Heap → MemoryCall → Prop) (heap : Heap)
    (call : MemoryCall) (heap' : Heap) : Prop where
  frees : heap.Frees call
  careful : careful heap call
  performed : heap.perform config call = .ok heap'

/-- Calls of all threads, in any order, lead to the state. -/
abbrev Reached (config : DeviceConfig) (careful : Heap → MemoryCall → Prop) :
    List MemoryCall → Heap → Prop :=
  Runs.Reached (fun heap => heap = {}) (Step config careful)

theorem reached_start (config : DeviceConfig) (careful : Heap → MemoryCall → Prop) :
    Reached config careful [] {} :=
  .start rfl

theorem reached_perform {config : DeviceConfig} {careful : Heap → MemoryCall → Prop}
    {calls : List MemoryCall} {heap heap' : Heap} (reached : Reached config careful calls heap)
    (call : MemoryCall) (frees : heap.Frees call) (held : careful heap call)
    (performed : heap.perform config call = .ok heap') :
    Reached config careful (calls ++ [call]) heap' :=
  .step reached ⟨frees, held, performed⟩

/-- The live blocks of a device. -/
def of (heap : Heap) (device : ℤ) : List Block :=
  heap.live.filter fun block => block.device = device

/-- What has been handed out is as large as it was asked for and apart, and the account of every
device is the sum of its live blocks, within its memory. -/
structure Accounted (config : DeviceConfig) (heap : Heap) : Prop where
  large : ∀ block ∈ heap.live, 0 < block.requested ∧ block.requested ≤ block.size
  inside : ∀ block ∈ heap.live, 0 < block.ptr ∧ block.ptr + block.size ≤ heap.memory.limit
  apart : heap.live.Pairwise fun first second => first.ptr + first.size ≤ second.ptr
  total : ∀ device, (heap.memory.account device).size = ((heap.of device).map Block.size).sum
  capacity : ∀ device, (heap.memory.account device).size ≤ config.memory

section Accounts

variable {config : DeviceConfig} {heap heap' : Heap} {memory memory' : DeviceMemory}
  {mem : GpuMemory} {device other : ℤ} {thread size ptr : ℕ} {block : Block}

@[simp]
theorem account_setAccount : (memory.setAccount device mem).account other =
    if other = device then mem else memory.account other := by
  by_cases same : other = device
  · simp [DeviceMemory.account, DeviceMemory.setAccount, same]
  · simp [DeviceMemory.account, DeviceMemory.setAccount, same]

@[simp]
theorem limit_setAccount : (memory.setAccount device mem).limit = memory.limit := rfl

@[simp]
theorem current_setAccount : (memory.setAccount device mem).current = memory.current := rfl

theorem account_setAccount_self :
    (memory.setAccount device (memory.account device)).account = memory.account := by
  funext other
  by_cases same : other = device
  · simp [same]
  · simp [same]

@[simp]
theorem account_cudaSetDevice :
    (memory.cudaSetDevice config thread device).account = memory.account := by
  unfold DeviceMemory.cudaSetDevice
  split
  · rfl
  · rfl

@[simp]
theorem limit_cudaSetDevice :
    (memory.cudaSetDevice config thread device).limit = memory.limit := by
  unfold DeviceMemory.cudaSetDevice
  split
  · rfl
  · rfl

@[simp]
theorem mem_of : block ∈ heap.of device ↔ block ∈ heap.live ∧ block.device = device := by
  simp [of]

theorem alignedSize_of_lt (fits : size + memAlignmentMask < wordSize) :
    size ≤ alignedSize size := by
  rw [alignedSize, Nat.mod_eq_of_lt fits]
  simp only [memAlignmentMask]
  omega

/-- What an allocation of some bytes does: it is refused and changes no account, or it takes the
next address. -/
theorem cudaMalloc_cases (config : DeviceConfig) (memory : DeviceMemory) (thread : ℕ)
    (nonzero : size ≠ 0) :
    ((config.memory < ((memory.account (memory.current thread)).size +
      alignedSize size) % wordSize) ∧
      memory.cudaMalloc config thread size =
        (memory.setAccount (memory.current thread)
          (memory.account (memory.current thread)), none)) ∨
    (((memory.account (memory.current thread)).size + alignedSize size) % wordSize ≤ config.memory ∧
      memory.cudaMalloc config thread size =
        ({ memory.setAccount (memory.current thread)
            ⟨((memory.account (memory.current thread)).size + alignedSize size) % wordSize,
              (memory.account (memory.current thread)).blocks.insert memory.limit
                (alignedSize size)⟩ with
            limit := (memory.limit + alignedSize size) % wordSize }, some memory.limit)) := by
  by_cases full : config.memory <
      ((memory.account (memory.current thread)).size + alignedSize size) % wordSize
  · exact .inl ⟨full,
      by simp [DeviceMemory.cudaMalloc, DeviceMemory.cudaRegisterMalloc, nonzero, full]⟩
  · refine .inr ⟨by omega, ?_⟩
    simp [DeviceMemory.cudaMalloc, DeviceMemory.cudaRegisterMalloc, nonzero, full]

/-- The blocks of an account are the live ones of its device, and its size is their sum. -/
structure Booked (config : DeviceConfig) (heap : Heap) : Prop where
  limit_pos : 0 < heap.memory.limit
  large : ∀ block ∈ heap.live, 0 < block.requested ∧ block.requested ≤ block.size
  inside : ∀ block ∈ heap.live, 0 < block.ptr ∧ block.ptr + block.size ≤ heap.memory.limit
  apart : heap.live.Pairwise fun first second => first.ptr + first.size ≤ second.ptr
  blocks : ∀ device entry, entry ∈ (heap.memory.account device).blocks.entries ↔
    ∃ block ∈ heap.of device, (block.ptr, block.size) = entry
  sum : ∀ device, (heap.memory.account device).size =
    ((heap.memory.account device).blocks.entries.map Prod.snd).sum
  capacity : ∀ device, (heap.memory.account device).size ≤ config.memory

theorem Booked.start : Booked config {} where
  limit_pos := by decide
  large := by simp
  inside := by simp
  apart := .nil
  blocks := by simp [DeviceMemory.account, SortedMap.empty, of]
  sum := by simp [DeviceMemory.account, SortedMap.empty]
  capacity := by simp [DeviceMemory.account]

/-- Only the addresses handed out, the accounts and the live blocks matter. -/
theorem Booked.congr (booked : Booked config heap) (limit : heap'.memory.limit = heap.memory.limit)
    (account : heap'.memory.account = heap.memory.account) (live : heap'.live = heap.live) :
    Booked config heap' := by
  have same : heap'.of = heap.of := by
    funext device
    simp only [of, live]
  exact ⟨limit ▸ booked.limit_pos, live ▸ booked.large, live ▸ limit ▸ booked.inside,
    live ▸ booked.apart, same ▸ account ▸ booked.blocks, account ▸ booked.sum,
    account ▸ booked.capacity⟩

theorem Booked.pairwise_ptr (booked : Booked config heap) :
    heap.live.Pairwise fun first second => first.ptr < second.ptr := by
  refine booked.apart.imp_of_mem ?_
  intro first second mem _ below
  have large := booked.large first mem
  omega

/-- A live block is known by its address. -/
theorem Booked.eq_of_ptr (booked : Booked config heap) {first second : Block}
    (left : first ∈ heap.live) (right : second ∈ heap.live) (same : first.ptr = second.ptr) :
    first = second := by
  have nodup : (heap.live.map Block.ptr).Nodup :=
    List.pairwise_map.mpr (booked.pairwise_ptr.imp fun below => below.ne)
  exact List.inj_on_of_nodup_map nodup left right same

theorem Booked.total (booked : Booked config heap) (device : ℤ) :
    (heap.memory.account device).size = ((heap.of device).map Block.size).sum := by
  have nodup : ((heap.of device).map fun block => (block.ptr, block.size)).Nodup := by
    refine List.pairwise_map.mpr ((booked.pairwise_ptr.filter _).imp ?_)
    intro first second below same
    exact below.ne (congrArg Prod.fst same)
  have perm : List.Perm (heap.memory.account device).blocks.entries
      ((heap.of device).map fun block => (block.ptr, block.size)) := by
    refine (List.perm_ext_iff_of_nodup ?_ nodup).mpr ?_
    · exact List.Nodup.of_map _ (SortedMap.nodup_keys _)
    · intro entry
      rw [booked.blocks device entry, List.mem_map]
  rw [booked.sum device, (perm.map Prod.snd).sum_eq, List.map_map]
  rfl

theorem Booked.accounted (booked : Booked config heap) : Accounted config heap :=
  ⟨booked.large, booked.inside, booked.apart, booked.total, booked.capacity⟩

theorem Booked.ptr_lt_limit (booked : Booked config heap) (mem : block ∈ heap.live) :
    block.ptr < heap.memory.limit := by
  have inside := booked.inside block mem
  have large := booked.large block mem
  omega

/-- A block at the next address is added to the account of its device. -/
theorem Booked.add (booked : Booked config heap) (block : Block)
    (isNext : block.ptr = heap.memory.limit)
    (large : 0 < block.requested ∧ block.requested ≤ block.size)
    (enough : (heap.memory.account block.device).size + block.size ≤ config.memory)
    (limit : heap'.memory.limit = heap.memory.limit + block.size)
    (live : heap'.live = heap.live ++ [block])
    (same : ∀ other, heap'.memory.account other = if other = block.device then
      ⟨(heap.memory.account other).size + block.size,
        (heap.memory.account other).blocks.insert block.ptr block.size⟩
      else heap.memory.account other) : Booked config heap' := by
  have unknown : ((heap.memory.account block.device).blocks.find? block.ptr) = none := by
    cases found : (heap.memory.account block.device).blocks.find? block.ptr with
    | none => rfl
    | some known =>
        rcases (booked.blocks _ _).mp (SortedMap.find?_eq_some.mp found) with ⟨old, mem, same⟩
        have below := booked.ptr_lt_limit (mem_of.mp mem).1
        rw [← isNext] at below
        exact absurd (congrArg Prod.fst same) below.ne
  refine ⟨?_, ?_, ?_, ?_, ?_, ?_, ?_⟩
  · have limit_pos := booked.limit_pos
    omega
  · intro other mem
    rw [live, List.mem_append, List.mem_singleton] at mem
    rcases mem with old | rfl
    · exact booked.large other old
    · exact large
  · intro other mem
    rw [live, List.mem_append, List.mem_singleton] at mem
    have limit_pos := booked.limit_pos
    rcases mem with old | rfl
    · have inside := booked.inside other old
      omega
    · omega
  · rw [live]
    refine List.pairwise_append.mpr ⟨booked.apart, List.pairwise_singleton _ _, ?_⟩
    intro first mem second new
    rw [List.mem_singleton.mp new, isNext]
    exact (booked.inside first mem).2
  · intro device entry
    have among : (∃ other ∈ heap'.of device, (other.ptr, other.size) = entry) ↔
        (∃ other ∈ heap.of device, (other.ptr, other.size) = entry) ∨
          block.device = device ∧ (block.ptr, block.size) = entry := by
      simp only [mem_of, live, List.mem_append, List.mem_singleton, or_and_right, exists_or]
      simp [and_assoc]
    rw [among, same device]
    split
    · rename_i isDevice
      subst isDevice
      rw [SortedMap.mem_insert, booked.blocks]
      constructor
      · rintro (rfl | ⟨old, _⟩)
        · exact .inr ⟨rfl, rfl⟩
        · exact .inl old
      · rintro (⟨other, mem, rfl⟩ | ⟨_, rfl⟩)
        · have below := booked.ptr_lt_limit (mem_of.mp mem).1
          rw [← isNext] at below
          exact .inr ⟨⟨other, mem, rfl⟩, below.ne⟩
        · exact .inl rfl
    · rename_i isOther
      rw [booked.blocks]
      constructor
      · exact .inl
      · rintro (old | ⟨isDevice, _⟩)
        · exact old
        · exact absurd isDevice.symm isOther
  · intro device
    rw [same device]
    split
    · rename_i isDevice
      subst isDevice
      rw [SortedMap.sum_insert unknown, booked.sum]
    · exact booked.sum device
  · intro device
    rw [same device]
    split
    · rename_i isDevice
      subst isDevice
      exact enough
    · exact booked.capacity device

/-- A live block is taken from the account of its device. -/
theorem Booked.remove (booked : Booked config heap) (mem : block ∈ heap.live)
    (limit : heap'.memory.limit = heap.memory.limit)
    (live : heap'.live = heap.live.filter fun other => other.ptr ≠ block.ptr)
    (same : ∀ other, heap'.memory.account other = if other = block.device then
      ⟨(heap.memory.account other).size - block.size,
        (heap.memory.account other).blocks.erase block.ptr⟩
      else heap.memory.account other) : Booked config heap' := by
  have old : ∀ other ∈ heap'.live, other ∈ heap.live := by
    intro other mem
    rw [live] at mem
    exact List.mem_of_mem_filter mem
  have known := SortedMap.find?_eq_some.mpr
    ((booked.blocks block.device _).mpr ⟨block, mem_of.mpr ⟨mem, rfl⟩, rfl⟩)
  refine ⟨limit ▸ booked.limit_pos, fun other mem => booked.large other (old other mem),
    fun other mem => limit ▸ booked.inside other (old other mem),
    live ▸ booked.apart.filter _, ?_, ?_, ?_⟩
  · intro device entry
    have among : (∃ other ∈ heap'.of device, (other.ptr, other.size) = entry) ↔
        (∃ other ∈ heap.of device, (other.ptr, other.size) = entry) ∧ entry.1 ≠ block.ptr := by
      simp only [mem_of, live, List.mem_filter, decide_eq_true_eq]
      constructor
      · rintro ⟨other, ⟨⟨isLive, apart⟩, isDevice⟩, rfl⟩
        exact ⟨⟨other, ⟨isLive, isDevice⟩, rfl⟩, apart⟩
      · rintro ⟨⟨other, ⟨isLive, isDevice⟩, rfl⟩, apart⟩
        exact ⟨other, ⟨⟨isLive, apart⟩, isDevice⟩, rfl⟩
    rw [among, same device]
    split
    · rw [SortedMap.mem_erase, booked.blocks]
    · rename_i isOther
      rw [booked.blocks]
      constructor
      · rintro ⟨other, mem', rfl⟩
        refine ⟨⟨other, mem', rfl⟩, ?_⟩
        intro samePtr
        rw [mem_of] at mem'
        have equal := booked.eq_of_ptr mem'.1 mem samePtr
        exact isOther (equal ▸ mem'.2.symm)
      · exact And.left
  · intro device
    rw [same device]
    split
    · rename_i isDevice
      subst isDevice
      have less := SortedMap.sum_erase known
      have total := booked.sum block.device
      simp only
      omega
    · exact booked.sum device
  · intro device
    have below := booked.capacity device
    rw [same device]
    split
    · exact (Nat.sub_le _ _).trans below
    · exact below

theorem Booked.allocate (booked : Booked config heap)
    (unwrapped : heap.Unwrapped config (.malloc thread size)) :
    Booked config (heap.allocate thread size (heap.memory.cudaMalloc config thread size)) := by
  rcases unwrapped with rfl | ⟨fits, granted⟩
  · exact booked
  by_cases zero : size = 0
  · subst zero
    exact booked
  rcases cudaMalloc_cases config heap.memory thread zero with ⟨_, refused⟩ | ⟨enough, taken⟩
  · rw [refused]
    exact booked.congr rfl account_setAccount_self rfl
  · rcases granted enough with ⟨total_lt, limit_lt⟩
    rw [Nat.mod_eq_of_lt total_lt] at enough taken
    rw [Nat.mod_eq_of_lt limit_lt] at taken
    rw [taken]
    simp only [Heap.allocate, zero, if_false]
    refine booked.add ⟨heap.memory.current thread, heap.memory.limit, size, alignedSize size⟩ rfl
      ⟨Nat.pos_of_ne_zero zero, alignedSize_of_lt fits⟩ enough rfl rfl ?_
    intro other
    refine account_setAccount.trans ?_
    by_cases same : other = heap.memory.current thread
    · simp [same]
    · simp [same]

/-- A live block of the current device is freed and leaves the account. -/
theorem Booked.free (booked : Booked config heap) (mem : block ∈ heap.live)
    (home : heap.memory.current thread = block.device) :
    ∃ heap', heap.perform config (.free thread block.ptr) = .ok heap' ∧ Booked config heap' := by
  have nonzero : block.ptr ≠ 0 := (booked.inside block mem).1.ne'
  have known := SortedMap.find?_eq_some.mpr
    ((booked.blocks block.device _).mpr ⟨block, mem_of.mpr ⟨mem, rfl⟩, rfl⟩)
  have enough : block.size ≤ (heap.memory.account block.device).size := by
    rw [booked.sum, ← SortedMap.sum_erase known]
    exact Nat.le_add_left _ _
  cases found : heap.memory.gpuMem block.device with
  | none =>
      simp [DeviceMemory.account, found, SortedMap.empty, SortedMap.find?] at known
  | some mem' =>
      have isAccount : heap.memory.account block.device = mem' := by
        simp [DeviceMemory.account, found]
      rw [isAccount] at known enough
      refine ⟨⟨heap.memory.setAccount block.device ⟨mem'.size - block.size,
        mem'.blocks.erase block.ptr⟩, heap.live.filter fun other => other.ptr ≠ block.ptr⟩, ?_, ?_⟩
      · simp [perform, DeviceMemory.cudaFree, DeviceMemory.cudaRegisterFree, nonzero, home, found,
          known, enough]
      · refine booked.remove mem rfl rfl ?_
        intro other
        refine account_setAccount.trans ?_
        by_cases same : other = block.device
        · simp [same, isAccount]
        · simp [same]

theorem Booked.step (booked : Booked config heap) {call : MemoryCall}
    (taken : Step config (Careful config) heap call heap') : Booked config heap' := by
  have performed := taken.performed
  cases call with
  | setDevice thread device =>
      cases performed
      exact booked.congr limit_cudaSetDevice account_cudaSetDevice rfl
  | malloc thread size =>
      cases performed
      exact booked.allocate taken.careful.2
  | free thread ptr =>
      rcases taken.frees with rfl | ⟨block, mem, rfl⟩
      · simp only [perform, DeviceMemory.cudaFree, ne_eq, not_true_eq_false, if_false, bind_eq_ok,
          pure_eq_ok, Except.ok.injEq] at performed
        rcases performed with ⟨_, rfl, rfl⟩
        refine booked.congr rfl rfl (List.filter_eq_self.mpr ?_)
        intro block mem
        exact decide_eq_true (booked.inside block mem).1.ne'
      · rcases booked.free mem (taken.careful.1 block mem rfl) with ⟨freed, succeeds, kept⟩
        rw [succeeds] at performed
        cases performed
        exact kept
  | memGetInfo thread =>
      cases performed
      exact booked.congr rfl account_setAccount_self rfl

theorem booked_of_reached {calls : List MemoryCall}
    (reached : Reached config (Careful config) calls heap) : Booked config heap := by
  induction reached with
  | start initial => exact initial ▸ Booked.start
  | step _ taken ih => exact ih.step taken

/-- What the calls report agrees with the accounts: a granted block is large enough and apart from
the live ones, a refusal changes nothing, and what is free is what is not allocated. -/
structure Sound (config : DeviceConfig) (heap : Heap) : Prop where
  accounted : Accounted config heap
  granted : ∀ thread size memory' ptr, size ≠ 0 → Unwrapped config heap (.malloc thread size) →
    heap.memory.cudaMalloc config thread size = (memory', some ptr) →
      size ≤ alignedSize size ∧ ∀ block ∈ heap.live, block.ptr + block.size ≤ ptr
  refused : ∀ thread size memory', heap.memory.cudaMalloc config thread size = (memory', none) →
    memory'.limit = heap.memory.limit ∧ memory'.current = heap.memory.current ∧
      memory'.account = heap.memory.account
  reported : ∀ thread, (heap.memory.cudaMemGetInfo config thread).2.1 +
    ((heap.of (heap.memory.current thread)).map Block.size).sum = config.memory

/-- As long as no allocation wraps and blocks are freed with their device current, the accounts are
right. -/
theorem sound_of_reached (config : DeviceConfig) (calls : List MemoryCall) (heap : Heap)
    (reached : Reached config (Careful config) calls heap) : Sound config heap := by
  have booked := booked_of_reached reached
  refine ⟨booked.accounted, ?_, ?_, ?_⟩
  · intro thread size memory' ptr nonzero unwrapped succeeds
    rcases cudaMalloc_cases config heap.memory thread nonzero with ⟨_, refused⟩ | ⟨_, taken⟩
    · rw [refused] at succeeds
      cases succeeds
    · rw [taken] at succeeds
      cases succeeds
      refine ⟨alignedSize_of_lt (unwrapped.resolve_left nonzero).1, ?_⟩
      intro block mem
      exact (booked.inside block mem).2
  · intro thread size memory' fails
    by_cases zero : size = 0
    · simp [DeviceMemory.cudaMalloc, zero] at fails
    rcases cudaMalloc_cases config heap.memory thread zero with ⟨_, refused⟩ | ⟨_, taken⟩
    · rw [refused] at fails
      cases fails
      exact ⟨rfl, rfl, account_setAccount_self⟩
    · rw [taken] at fails
      cases fails
  · intro thread
    have total := booked.total (heap.memory.current thread)
    have below := booked.capacity (heap.memory.current thread)
    have fits := config.memory_lt
    rw [← total]
    simp only [DeviceMemory.cudaMemGetInfo]
    rw [show config.memory + wordSize - (heap.memory.account (heap.memory.current thread)).size =
      config.memory - (heap.memory.account (heap.memory.current thread)).size + wordSize by omega,
      Nat.add_mod_right, Nat.mod_eq_of_lt (by omega)]
    omega

/-- Two devices with little memory. -/
def smallDevices : DeviceConfig := ⟨2, 1000, by decide⟩

/-- Two blocks are allocated and the first one is freed. -/
theorem sound_of_reached_mallocFree : ∃ heap : Heap, Sound smallDevices heap ∧
    heap.live = [⟨0, 768, 100, 256⟩] := by
  have first := reached_perform (reached_start smallDevices (Careful smallDevices)) (.malloc 0 300)
    trivial ⟨trivial, .inr ⟨by decide, fun _ => by decide⟩⟩ rfl
  have second := reached_perform first (.malloc 0 100) trivial
    ⟨trivial, .inr ⟨by decide, fun _ => by decide⟩⟩ rfl
  have third := reached_perform second (.free 0 256)
    (.inr ⟨⟨0, 256, 300, 512⟩, by decide, rfl⟩) ⟨by unfold AtHome; decide, trivial⟩ rfl
  exact ⟨_, sound_of_reached _ _ _ third, by decide⟩

/-- A size near the limit of a word is rounded up to nothing: the block that is granted is empty. -/
theorem not_accounted_hugeSize : ¬∀ config calls heap, Reached config AtHome calls heap →
    Accounted config heap := by
  intro claimed
  have reached := reached_perform (reached_start smallDevices AtHome)
    (.malloc 0 (wordSize - 1)) trivial trivial rfl
  have large := (claimed _ _ _ reached).large ⟨0, 256, wordSize - 1, 0⟩ (by decide)
  exact absurd large.2 (by decide)

/-- A live block is freed, and the accounts stay right, exactly when its device is current. -/
theorem frees_iff_home (config : DeviceConfig) (calls : List MemoryCall) (heap : Heap)
    (reached : Reached config (Careful config) calls heap) :
    Accounted config heap ∧ ∀ block ∈ heap.live, ∀ thread,
      (∃ heap', heap.perform config (.free thread block.ptr) = .ok heap' ∧
        Accounted config heap') ↔ heap.memory.current thread = block.device := by
  have booked := booked_of_reached reached
  refine ⟨booked.accounted, ?_⟩
  intro block mem thread
  constructor
  · rintro ⟨heap', performed, _⟩
    have nonzero : block.ptr ≠ 0 := (booked.inside block mem).1.ne'
    simp only [perform, DeviceMemory.cudaFree, ne_eq, nonzero, not_false_eq_true, if_true,
      DeviceMemory.cudaRegisterFree, bind_eq_ok, unwrap_eq_ok] at performed
    rcases performed with ⟨_, ⟨mem', found, size, known, _⟩, _⟩
    have isAccount : heap.memory.account (heap.memory.current thread) = mem' := by
      simp [DeviceMemory.account, found]
    rw [← isAccount] at known
    rcases (booked.blocks _ _).mp (SortedMap.find?_eq_some.mp known) with ⟨other, among, same⟩
    rw [mem_of] at among
    have equal := booked.eq_of_ptr among.1 mem (congrArg Prod.fst same)
    exact equal ▸ among.2.symm
  · intro home
    rcases booked.free mem home with ⟨heap', performed, kept⟩
    exact ⟨heap', performed, kept.accounted⟩

/-- A block of the first device is freed while that device is current again. -/
theorem frees_iff_home_switchBack : ∃ heap : Heap, heap.live = [⟨0, 256, 300, 512⟩] ∧
    ((∃ heap', heap.perform smallDevices (.free 0 256) = .ok heap' ∧
      Accounted smallDevices heap') ↔ heap.memory.current 0 = 0) := by
  have first := reached_perform (reached_start smallDevices (Careful smallDevices)) (.malloc 0 300)
    trivial ⟨trivial, .inr ⟨by decide, fun _ => by decide⟩⟩ rfl
  have second := reached_perform first (.setDevice 0 1) trivial ⟨trivial, trivial⟩ rfl
  have third := reached_perform second (.setDevice 0 0) trivial ⟨trivial, trivial⟩ rfl
  refine ⟨_, ?_, (frees_iff_home _ _ _ third).2 ⟨0, 256, 300, 512⟩ ?_ 0⟩
  · decide
  · decide

/-- Freeing a block after another device has become current panics. -/
theorem not_frees_afterSwitch : ¬∀ config calls heap, Reached config (fun _ _ => True) calls heap →
    ∀ call, heap.Frees call → ∃ heap', heap.perform config call = .ok heap' := by
  intro claimed
  have first := reached_perform (reached_start smallDevices fun _ _ => True)
    (.malloc 0 300) trivial trivial rfl
  have second := reached_perform first (.setDevice 0 1) trivial trivial rfl
  rcases claimed _ _ _ second (.free 0 256) (.inr ⟨⟨0, 256, 300, 512⟩, by decide, rfl⟩) with
    ⟨heap', performed⟩
  cases performed

end Accounts

end Heap

end Phantora
