import Mathlib.Data.List.Nodup
import Mathlib.Data.List.Perm.Basic
import Mathlib.Data.List.Range
import Mathlib.Data.Nat.ModEq
import Mathlib.Logic.Relation
import Mathlib.Tactic.Ring
import Phantora.NcclOps

/-!
# What the collective operations send

A ring collective sends one flow from every rank to the next one, a broadcast
one flow from the root to every other rank. The volumes of the operations are
those of the ring algorithms, and an all-reduce moves over every link what a
reduce-scatter and an all-gather of a part move together.
-/

namespace Phantora

open Outcome Netsim

namespace SimpleRing

/-- The flow carries a number of bytes from the host of one rank to that of another. -/
structure Sends (ranks : Ranks) (bytes : ℕ) (pair : ℕ × ℕ) (flow : Flow) : Prop where
  bytes : flow.bytes = bytes
  src : ranks[pair.1]?.map (fun rank => rank.1.hostname) = some flow.src
  dst : ranks[pair.2]?.map (fun rank => rank.1.hostname) = some flow.dst

/-- An operation succeeds with one flow of a size for each of some pairs of ranks, and gives the
flows the next identifiers. -/
def Moves (ranks : Ranks) (bytes nextFlowId : ℕ) (pairs : List (ℕ × ℕ))
    (run : Except Panic Trace) : Prop :=
  ∃ trace, run = .ok trace ∧ List.Forall₂ (Sends ranks bytes) pairs trace ∧
    trace.map Netsim.Flow.id = List.range' nextFlowId pairs.length

theorem flowBetween_sends {ranks : Ranks} {src dst : ℕ} (bytes nextFlowId : ℕ)
    (source : src < ranks.length) (target : dst < ranks.length) :
    ∃ flow, flowBetween ranks bytes nextFlowId src dst = .ok flow ∧
      Sends ranks bytes (src, dst) flow ∧ flow.id = nextFlowId := by
  let flow : Flow :=
    { id := nextFlowId, bytes := bytes, src := ranks[src].1.hostname, dst := ranks[dst].1.hostname }
  refine ⟨flow, ?_, ⟨rfl, ?_, ?_⟩, rfl⟩
  · simp [flow, flowBetween, unwrap, List.getElem?_eq_getElem source,
      List.getElem?_eq_getElem target]
  · simp [flow, List.getElem?_eq_getElem source]
  · simp [flow, List.getElem?_eq_getElem target]

theorem flows_moves {ranks : Ranks} {pairs : List (ℕ × ℕ)} (bytes nextFlowId : ℕ)
    (inside : ∀ pair ∈ pairs, pair.1 < ranks.length ∧ pair.2 < ranks.length) :
    Moves ranks bytes nextFlowId pairs (flows ranks bytes nextFlowId pairs) := by
  induction pairs generalizing nextFlowId with
  | nil => exact ⟨[], rfl, .nil, rfl⟩
  | cons pair pairs ih =>
      rcases pair with ⟨src, dst⟩
      rcases inside (src, dst) List.mem_cons_self with ⟨source, target⟩
      rcases flowBetween_sends bytes nextFlowId source target with ⟨flow, made, sends, id⟩
      rcases ih (nextFlowId + 1) (fun pair mem => inside pair (List.mem_cons_of_mem _ mem)) with
        ⟨trace, rest, moves, ids⟩
      refine ⟨flow :: trace, ?_, .cons sends moves, ?_⟩
      · simp [flows, made, rest]
      · rw [List.map_cons, id, ids, List.length_cons, List.range'_succ]

/-- Every rank is followed by exactly one rank, and all of them lie on one cycle. -/
structure SingleCycle (n : ℕ) (pairs : List (ℕ × ℕ)) : Prop where
  next : ∀ i j, (i, j) ∈ pairs ↔ i < n ∧ j = (i + 1) % n
  sources : pairs.map Prod.fst = List.range n
  targets : (pairs.map Prod.snd).Perm (List.range n)
  connected : ∀ i < n, ∀ j < n, Relation.ReflTransGen (fun i j => (i, j) ∈ pairs) i j

theorem mem_ring {n i j : ℕ} : (i, j) ∈ ring n ↔ i < n ∧ j = (i + 1) % n := by
  simp only [ring, List.mem_map, List.mem_range, Prod.mk.injEq]
  constructor
  · rintro ⟨k, lt, rfl, rfl⟩
    exact ⟨lt, rfl⟩
  · rintro ⟨lt, rfl⟩
    exact ⟨i, lt, rfl, rfl⟩

theorem ring_inside {n : ℕ} {pair : ℕ × ℕ} (mem : pair ∈ ring n) : pair.1 < n ∧ pair.2 < n := by
  rcases mem_ring.mp mem with ⟨lt, same⟩
  exact ⟨lt, same ▸ Nat.mod_lt _ (by omega)⟩

/-- Steps around the ring lead upwards. -/
theorem ring_ascends {n i j : ℕ} (le : i ≤ j) (lt : j < n) :
    Relation.ReflTransGen (fun i j => (i, j) ∈ ring n) i j := by
  induction le with
  | refl => exact .refl
  | @step j le ih =>
      have next : (j, j + 1) ∈ ring n := mem_ring.mpr ⟨by omega, (Nat.mod_eq_of_lt lt).symm⟩
      exact (ih (by omega)).tail next

theorem ring_singleCycle {n : ℕ} (positive : 0 < n) : SingleCycle n (ring n) := by
  refine ⟨fun i j => mem_ring, ?_, ?_, ?_⟩
  · simp [ring, List.map_map, Function.comp_def]
  · have rotated : (ring n).map Prod.snd = (List.range n).map fun i => (i + 1) % n := by
      simp [ring, List.map_map, Function.comp_def]
    rw [rotated]
    refine (List.perm_ext_iff_of_nodup ?_ List.nodup_range).mpr ?_
    · rw [List.nodup_map_iff_inj_on List.nodup_range]
      intro i left j right same
      rw [List.mem_range] at left right
      exact (Nat.ModEq.add_right_cancel' 1 same).eq_of_lt_of_lt left right
    · intro j
      simp only [List.mem_map, List.mem_range]
      constructor
      · rintro ⟨i, _, rfl⟩
        exact Nat.mod_lt _ positive
      · intro lt
        cases j with
        | zero => exact ⟨n - 1, by omega, by rw [Nat.sub_add_cancel positive, Nat.mod_self]⟩
        | succ j => exact ⟨j, by omega, Nat.mod_eq_of_lt lt⟩
  · intro i left j right
    have back : (n - 1, 0) ∈ ring n :=
      mem_ring.mpr ⟨by omega, by rw [Nat.sub_add_cancel positive, Nat.mod_self]⟩
    exact ((ring_ascends (by omega) (by omega)).tail back).trans
      (ring_ascends (Nat.zero_le j) right)

theorem ring_moves {ranks : Ranks} (bytes nextFlowId : ℕ) :
    Moves ranks bytes nextFlowId (ring ranks.length)
      (flows ranks bytes nextFlowId (ring ranks.length)) :=
  flows_moves bytes nextFlowId fun _ mem => ring_inside mem

section Operations

variable {ranks : Ranks} (count : ℕ) (dtype : NcclDatatype) (nextFlowId : ℕ)

theorem allreduce_moves (nonempty : ranks ≠ []) :
    Moves ranks (2 * (ranks.length - 1) * count * dtype.size / ranks.length) nextFlowId
      (ring ranks.length) (allreduce ranks count dtype nextFlowId) := by
  have positive : ranks.length ≠ 0 := fun empty => nonempty (List.length_eq_zero_iff.mp empty)
  have size : count * dtype.size * 2 * (ranks.length - 1) =
      2 * (ranks.length - 1) * count * dtype.size := by ring
  have guard : assert (ranks.length ≠ 0) Panic.emptyComm = .ok ⟨⟩ := if_pos positive
  simp only [allreduce]
  rw [guard, size]
  exact ring_moves _ nextFlowId

/-- Both operations send the parts of all other ranks over every link. -/
theorem gather_bytes {n : ℕ} (positive : n ≠ 0) :
    count * dtype.size * n / n * (n - 1) = (n - 1) * count * dtype.size := by
  rw [Nat.mul_div_cancel _ (Nat.pos_of_ne_zero positive)]
  ring

theorem allgather_moves (nonempty : ranks ≠ []) :
    Moves ranks ((ranks.length - 1) * count * dtype.size) nextFlowId
      (ring ranks.length) (allgather ranks count dtype nextFlowId) := by
  have positive : ranks.length ≠ 0 := fun empty => nonempty (List.length_eq_zero_iff.mp empty)
  have sent := gather_bytes count dtype positive
  have guard : assert (ranks.length ≠ 0) Panic.emptyComm = .ok ⟨⟩ := if_pos positive
  simp only [allgather]
  rw [guard, sent]
  exact ring_moves _ nextFlowId

theorem reduceScatter_moves (nonempty : ranks ≠ []) :
    Moves ranks ((ranks.length - 1) * count * dtype.size) nextFlowId
      (ring ranks.length) (reduceScatter ranks count dtype nextFlowId) := by
  have positive : ranks.length ≠ 0 := fun empty => nonempty (List.length_eq_zero_iff.mp empty)
  have sent := gather_bytes count dtype positive
  have guard : assert (ranks.length ≠ 0) Panic.emptyComm = .ok ⟨⟩ := if_pos positive
  simp only [reduceScatter]
  rw [guard, sent]
  exact ring_moves _ nextFlowId

/-- The pairs of a root and the other ranks. -/
def star (n root : ℕ) : List (ℕ × ℕ) :=
  (List.range (n - 1)).map fun i => (root, (root + (i + 1)) % n)

/-- Each of the ranks but the root is a target once. -/
theorem star_targets {n root : ℕ} (lt : root < n) :
    ((star n root).map Prod.snd).Perm ((List.range n).erase root) := by
  have targets : (star n root).map Prod.snd =
      (List.range (n - 1)).map fun i => (root + (i + 1)) % n := by
    simp [star, List.map_map, Function.comp_def]
  rw [targets]
  refine (List.perm_ext_iff_of_nodup ?_ (List.nodup_range.erase root)).mpr ?_
  · rw [List.nodup_map_iff_inj_on List.nodup_range]
    intro i left j right same
    rw [List.mem_range] at left right
    have offsets : i + 1 ≡ j + 1 [MOD n] := Nat.ModEq.add_left_cancel' root same
    have equal := offsets.eq_of_lt_of_lt (by omega) (by omega)
    omega
  · intro rank
    rw [List.nodup_range.mem_erase_iff]
    simp only [List.mem_map, List.mem_range]
    constructor
    · rintro ⟨i, below, rfl⟩
      refine ⟨?_, Nat.mod_lt _ (by omega)⟩
      intro again
      by_cases wraps : n ≤ root + (i + 1)
      · rw [Nat.mod_eq_sub_mod wraps, Nat.mod_eq_of_lt (by omega)] at again
        omega
      · rw [Nat.mod_eq_of_lt (by omega)] at again
        omega
    · rintro ⟨differs, below⟩
      rcases Nat.lt_or_gt_of_ne differs with before | after
      · refine ⟨rank + n - root - 1, by omega, ?_⟩
        rw [show root + (rank + n - root - 1 + 1) = rank + n by omega, Nat.add_mod_right,
          Nat.mod_eq_of_lt below]
      · refine ⟨rank - root - 1, by omega, ?_⟩
        rw [show root + (rank - root - 1 + 1) = rank by omega, Nat.mod_eq_of_lt below]

theorem bcast_moves {root : ℕ} (lt : root < ranks.length) :
    Moves ranks (count * dtype.size) nextFlowId (star ranks.length root)
      (bcast root ranks count dtype nextFlowId) := by
  have valid : ¬(root : ℤ) < 0 := by omega
  simp only [bcast, valid, if_false, Int.toNat_natCast]
  refine flows_moves _ _ ?_
  intro pair mem
  rcases List.mem_map.mp mem with ⟨i, _, rfl⟩
  exact ⟨lt, Nat.mod_lt _ (by omega)⟩

end Operations

/-- The bytes that flows carry from one host to another. -/
def traffic (src dst : String) (trace : Trace) : ℕ :=
  ((trace.filter fun flow => flow.src = src ∧ flow.dst = dst).map Netsim.Flow.bytes).sum

theorem bytes_eq_replicate {ranks : Ranks} {bytes : ℕ} {pairs : List (ℕ × ℕ)} {trace : Trace}
    (moves : List.Forall₂ (Sends ranks bytes) pairs trace) :
    trace.map Netsim.Flow.bytes = List.replicate pairs.length bytes := by
  induction moves with
  | nil => rfl
  | cons sends _ ih => rw [List.map_cons, sends.bytes, ih, List.length_cons, List.replicate_succ]

/-- The pair of ranks lies on the hosts. -/
def onHosts (ranks : Ranks) (src dst : String) (pair : ℕ × ℕ) : Bool :=
  ranks[pair.1]?.map (fun rank => rank.1.hostname) = some src ∧
    ranks[pair.2]?.map (fun rank => rank.1.hostname) = some dst

theorem traffic_eq {ranks : Ranks} {bytes : ℕ} {pairs : List (ℕ × ℕ)} {trace : Trace}
    (moves : List.Forall₂ (Sends ranks bytes) pairs trace) (src dst : String) :
    traffic src dst trace = pairs.countP (onHosts ranks src dst) * bytes := by
  induction moves with
  | nil => simp [traffic]
  | @cons pair flow pairs trace sends _ ih =>
      have same : onHosts ranks src dst pair = decide (flow.src = src ∧ flow.dst = dst) := by
        simp only [onHosts, sends.src, sends.dst, Option.some.injEq]
      rw [List.countP_cons, same]
      unfold traffic at ih ⊢
      by_cases on : flow.src = src ∧ flow.dst = dst
      · rw [List.filter_cons_of_pos (by simpa using on), List.map_cons, List.sum_cons, ih,
          sends.bytes, if_pos (by simpa using on)]
        ring
      · rw [List.filter_cons_of_neg (by simpa using on), ih, if_neg (by simpa using on),
          Nat.add_zero]

/-- The operations succeed for every number of ranks, with the flows and the volumes of the ring
algorithms; an all-reduce sends over each link what its two halves send. -/
theorem collectives_textbook (ranks : Ranks) (nonempty : ranks ≠ []) (count : ℕ)
    (dtype : NcclDatatype) (nextFlowId : ℕ) :
    SingleCycle ranks.length (ring ranks.length) ∧
    Moves ranks (2 * (ranks.length - 1) * count * dtype.size / ranks.length) nextFlowId
      (ring ranks.length) (allreduce ranks count dtype nextFlowId) ∧
    Moves ranks ((ranks.length - 1) * count * dtype.size) nextFlowId
      (ring ranks.length) (allgather ranks count dtype nextFlowId) ∧
    Moves ranks ((ranks.length - 1) * count * dtype.size) nextFlowId
      (ring ranks.length) (reduceScatter ranks count dtype nextFlowId) ∧
    (∀ root < ranks.length,
      Moves ranks (count * dtype.size) nextFlowId (star ranks.length root)
        (bcast root ranks count dtype nextFlowId) ∧
      (∀ pair ∈ star ranks.length root, pair.1 = root) ∧
      ((star ranks.length root).map Prod.snd).Perm ((List.range ranks.length).erase root)) ∧
    (ranks.length ∣ count → ∃ whole scattered gathered,
      allreduce ranks count dtype nextFlowId = .ok whole ∧
      reduceScatter ranks (count / ranks.length) dtype nextFlowId = .ok scattered ∧
      allgather ranks (count / ranks.length) dtype nextFlowId = .ok gathered ∧
      whole.map Netsim.Flow.bytes = List.zipWith (· + ·) (scattered.map Netsim.Flow.bytes)
        (gathered.map Netsim.Flow.bytes) ∧
      ∀ src dst, traffic src dst whole = traffic src dst scattered + traffic src dst gathered) := by
  have positive : 0 < ranks.length := List.length_pos_iff.mpr nonempty
  refine ⟨ring_singleCycle positive, allreduce_moves count dtype nextFlowId nonempty,
    allgather_moves count dtype nextFlowId nonempty,
    reduceScatter_moves count dtype nextFlowId nonempty, ?_, ?_⟩
  · intro root lt
    refine ⟨bcast_moves count dtype nextFlowId lt, ?_, star_targets lt⟩
    intro pair mem
    rcases List.mem_map.mp mem with ⟨_, _, rfl⟩
    rfl
  · rintro ⟨part, rfl⟩
    rw [Nat.mul_div_cancel_left part positive]
    rcases allreduce_moves (ranks.length * part) dtype nextFlowId nonempty with
      ⟨whole, reduced, wholeMoves, _⟩
    rcases reduceScatter_moves part dtype nextFlowId nonempty with ⟨scattered, ran, moves, _⟩
    rcases allgather_moves part dtype nextFlowId nonempty with ⟨gathered, ran', moves', _⟩
    have halves : 2 * (ranks.length - 1) * (ranks.length * part) * dtype.size / ranks.length =
        (ranks.length - 1) * part * dtype.size + (ranks.length - 1) * part * dtype.size := by
      rw [show 2 * (ranks.length - 1) * (ranks.length * part) * dtype.size =
        ((ranks.length - 1) * part * dtype.size + (ranks.length - 1) * part * dtype.size) *
          ranks.length by ring, Nat.mul_div_cancel _ positive]
    rw [halves] at wholeMoves
    refine ⟨whole, scattered, gathered, reduced, ran, ran', ?_, ?_⟩
    · rw [bytes_eq_replicate wholeMoves, bytes_eq_replicate moves, bytes_eq_replicate moves',
        List.zipWith_replicate, Nat.min_self]
    · intro src dst
      rw [traffic_eq wholeMoves, traffic_eq moves, traffic_eq moves', Nat.mul_add]

/-- Three ranks on two hosts. -/
def threeRanks : Ranks :=
  [(⟨"left", 0⟩, 0), (⟨"left", 0⟩, 1), (⟨"right", 0⟩, 0)]

theorem collectives_textbook_threeRanks :
    Moves threeRanks 32 0 (ring 3) (allreduce threeRanks 6 .f32 0) ∧
      ∃ whole scattered gathered, allreduce threeRanks 6 .f32 0 = .ok whole ∧
        reduceScatter threeRanks 2 .f32 0 = .ok scattered ∧
        allgather threeRanks 2 .f32 0 = .ok gathered ∧
        traffic "left" "right" whole =
          traffic "left" "right" scattered + traffic "left" "right" gathered := by
  have textbook := collectives_textbook threeRanks (by decide) 6 .f32 0
  rcases textbook with ⟨_, reduces, _, _, _, halves⟩
  rcases halves ⟨2, rfl⟩ with ⟨whole, scattered, gathered, reduced, ran, ran', _, same⟩
  exact ⟨reduces, whole, scattered, gathered, reduced, ran, ran', same _ _⟩

end SimpleRing

end Phantora
