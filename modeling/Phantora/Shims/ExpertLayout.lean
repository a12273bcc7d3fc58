import Mathlib.Data.List.Nodup
import Mathlib.Data.List.Perm.Basic
import Mathlib.Data.List.Range
import Mathlib.Tactic.Ring

/-!
# The layout of routed tokens

When every rank sends the same number of tokens to every expert, the received
rows can be ordered by local expert without looking at them. The rows of an
expert begin at a multiple of one aligned size and are followed by padding.
-/

namespace Phantora.ExpertLayout

def roundUp (x m : ℕ) : ℕ :=
  (x + m - 1) / m * m

/-- The result of `_analytic_permute`; the shape of the input is its number of rows. -/
structure Permuted (α : Type) where
  inputShape : ℕ
  rows : List α
  permutedIndices : List ℤ
  mSizes : List ℕ

/-- `permuted_indices[start:end] = torch.arange(first, first + n)` with `n = end - start`. -/
def writeBlock (indices : List ℤ) (start n first : ℕ) : List ℤ :=
  indices.take start ++ (List.range n).map (fun k => ((first + k : ℕ) : ℤ)) ++
    indices.drop (start + n)

/-- The block of one rank for the local expert `e`: the indices and the next place to write. -/
def writeRank (paddedMaxLen expertsPerRank perExpert e : ℕ) (state : List ℤ × ℕ) (r : ℕ) :
    List ℤ × ℕ :=
  let (indices, writeStart) := state
  let i := r * expertsPerRank + e
  let startIndex := i * perExpert
  let end_ := min (writeStart + perExpert) paddedMaxLen
  (if writeStart < end_ then writeBlock indices writeStart (end_ - writeStart) startIndex
    else indices, writeStart + perExpert)

/-- The blocks of all ranks for the local expert `e`. -/
def writeExpert (paddedMaxLen numRanks expertsPerRank perExpert mSizeVal : ℕ) (indices : List ℤ)
    (e : ℕ) : List ℤ :=
  ((List.range numRanks).foldl (writeRank paddedMaxLen expertsPerRank perExpert e)
    (indices, e * mSizeVal)).1

/-- `x[permuted_indices, :]`, where a negative index counts from the end. -/
def gather {α : Type} (x : List α) (zero : α) (indices : List ℤ) : List α :=
  indices.map fun (i : ℤ) => x.getD (if i < 0 then i + x.length else i).toNat zero

def paddedMaxLen (rows expertsPerRank align : ℕ) : ℕ :=
  roundUp (rows + expertsPerRank * align) align

def mSizeVal (numRanks perExpert align : ℕ) : ℕ :=
  roundUp (max (numRanks * perExpert) align) align

def analyticPermute {α : Type} (zero : α) (align : ℕ) (x : List α)
    (epDegree numLocalExperts perExpert : ℕ) : Permuted α :=
  let origRows := x.length
  let x := x ++ [zero]
  let padded := paddedMaxLen origRows numLocalExperts align
  let m := mSizeVal epDegree perExpert align
  let permutedIndices := (List.range numLocalExperts).foldl
    (writeExpert padded epDegree numLocalExperts perExpert m) (List.replicate padded (-1))
  { inputShape := x.length
    rows := gather x zero permutedIndices
    permutedIndices := permutedIndices
    mSizes := List.replicate numLocalExperts m }

/-- `_balanced_token_dispatch`, up to the exchange of the rows. -/
structure Splits where
  inputSplits : List ℕ
  outputSplits : List ℕ
  perExpert : ℕ
  numLocalExperts : ℕ

def balancedSplits (epDegree numExperts totalRouted : ℕ) : Splits :=
  let numLocalExperts := numExperts / epDegree
  let perExpert := totalRouted / numExperts
  { inputSplits := List.replicate epDegree (numLocalExperts * perExpert)
    outputSplits := List.replicate epDegree (numLocalExperts * perExpert)
    perExpert := perExpert
    numLocalExperts := numLocalExperts }

section Sizes

variable {x align : ℕ}

theorem dvd_roundUp (x align : ℕ) : align ∣ roundUp x align :=
  Nat.dvd_mul_left _ _

theorem le_roundUp (positive : 0 < align) : x ≤ roundUp x align := by
  have rest := Nat.div_add_mod (x + align - 1) align
  have small := Nat.mod_lt (x + align - 1) positive
  rw [Nat.mul_comm] at rest
  unfold roundUp
  omega

theorem roundUp_lt (positive : 0 < align) : roundUp x align < x + align := by
  have below := Nat.div_mul_le_self (x + align - 1) align
  unfold roundUp
  omega

theorem roundUp_self (positive : 0 < align) : roundUp align align = align := by
  have sum : align + align - 1 = align - 1 + align := by omega
  rw [roundUp, sum, Nat.add_div_right _ positive, Nat.div_eq_of_lt (by omega), Nat.one_mul]

variable {numRanks perExpert : ℕ}

theorem tokens_le_mSizeVal (positive : 0 < align) :
    numRanks * perExpert ≤ mSizeVal numRanks perExpert align :=
  (Nat.le_max_left _ _).trans (le_roundUp positive)

theorem mSizeVal_le (positive : 0 < align) :
    mSizeVal numRanks perExpert align ≤ numRanks * perExpert + align := by
  unfold mSizeVal
  rcases Nat.le_total align (numRanks * perExpert) with many | few
  · rw [Nat.max_eq_left many]
    exact (roundUp_lt positive).le
  · rw [Nat.max_eq_right few, roundUp_self positive]
    omega

/-- The segments of all local experts fit. -/
theorem segments_fit (positive : 0 < align) (experts : ℕ) :
    experts * mSizeVal numRanks perExpert align ≤
      paddedMaxLen (numRanks * experts * perExpert) experts align := by
  calc experts * mSizeVal numRanks perExpert align
      ≤ experts * (numRanks * perExpert + align) := Nat.mul_le_mul_left _ (mSizeVal_le positive)
    _ = numRanks * experts * perExpert + experts * align := by ring
    _ ≤ paddedMaxLen (numRanks * experts * perExpert) experts align := le_roundUp positive

end Sizes

/-- The indices of the rows with a block number. -/
def block (perExpert i : ℕ) : List ℤ :=
  (List.range perExpert).map fun k => ((i * perExpert + k : ℕ) : ℤ)

/-- The rows of the local expert `e` from the first ranks, in the order of the ranks. -/
def expertRows (expertsPerRank perExpert e ranks : ℕ) : List ℤ :=
  (List.range ranks).flatMap fun r => block perExpert (r * expertsPerRank + e)

/-- The segment of the local expert `e`. -/
def segment (numRanks expertsPerRank perExpert m e : ℕ) : List ℤ :=
  expertRows expertsPerRank perExpert e numRanks ++
    List.replicate (m - numRanks * perExpert) (-1)

@[simp]
theorem length_block (perExpert i : ℕ) : (block perExpert i).length = perExpert := by
  simp [block]

@[simp]
theorem length_expertRows (expertsPerRank perExpert e ranks : ℕ) :
    (expertRows expertsPerRank perExpert e ranks).length = ranks * perExpert := by
  simp [expertRows, List.length_flatMap]

theorem length_segment {numRanks perExpert m : ℕ} (fits : numRanks * perExpert ≤ m)
    (expertsPerRank e : ℕ) : (segment numRanks expertsPerRank perExpert m e).length = m := by
  rw [segment, List.length_append, length_expertRows, List.length_replicate]
  omega

theorem length_segments {numRanks perExpert m : ℕ} (fits : numRanks * perExpert ≤ m)
    (expertsPerRank experts : ℕ) :
    ((List.range experts).flatMap (segment numRanks expertsPerRank perExpert m)).length =
      experts * m := by
  simp [List.length_flatMap, length_segment fits]

/-- A block written behind other indices replaces padding. -/
theorem writeBlock_append (done : List ℤ) (n left first : ℕ) :
    writeBlock (done ++ List.replicate left (-1)) done.length n first =
      done ++ (List.range n).map (fun k => ((first + k : ℕ) : ℤ)) ++
        List.replicate (left - n) (-1) := by
  rw [writeBlock, List.take_left, List.drop_append, List.drop_of_length_le (by omega),
    Nat.add_sub_cancel_left, List.drop_replicate, List.nil_append]

section Loops

variable {padded numRanks expertsPerRank perExpert m e : ℕ}

/-- After some ranks their blocks stand behind what was written before. -/
theorem writeRanks_eq (done : List ℤ) (ranks : ℕ)
    (fits : done.length + ranks * perExpert ≤ padded) :
    (List.range ranks).foldl (writeRank padded expertsPerRank perExpert e)
        (done ++ List.replicate (padded - done.length) (-1), done.length) =
      (done ++ expertRows expertsPerRank perExpert e ranks ++
        List.replicate (padded - (done.length + ranks * perExpert)) (-1),
        done.length + ranks * perExpert) := by
  induction ranks with
  | zero => simp [expertRows]
  | succ ranks ih =>
      rw [Nat.succ_mul] at fits ⊢
      have whole : min (done.length + ranks * perExpert + perExpert) padded =
          done.length + ranks * perExpert + perExpert := Nat.min_eq_left (by omega)
      have rows : expertRows expertsPerRank perExpert e (ranks + 1) =
          expertRows expertsPerRank perExpert e ranks ++
            block perExpert (ranks * expertsPerRank + e) := by
        simp [expertRows, List.range_succ]
      have written := writeBlock_append (done ++ expertRows expertsPerRank perExpert e ranks)
        perExpert (padded - (done.length + ranks * perExpert))
        ((ranks * expertsPerRank + e) * perExpert)
      rw [List.length_append, length_expertRows] at written
      rw [List.range_succ, List.foldl_append, ih (by omega)]
      simp only [List.foldl_cons, List.foldl_nil, writeRank, whole]
      rw [Nat.add_sub_cancel_left, rows, Prod.mk.injEq]
      refine ⟨?_, by omega⟩
      by_cases nothing : perExpert = 0
      · subst nothing
        simp [block]
      · rw [if_pos (by omega), written, block, List.append_assoc done,
          show padded - (done.length + (ranks * perExpert + perExpert)) =
            padded - (done.length + ranks * perExpert) - perExpert by omega]

theorem writeExpert_eq (fits : numRanks * perExpert ≤ m) (enough : (e + 1) * m ≤ padded)
    (done : List ℤ) (length : done.length = e * m) :
    writeExpert padded numRanks expertsPerRank perExpert m
        (done ++ List.replicate (padded - done.length) (-1)) e =
      done ++ segment numRanks expertsPerRank perExpert m e ++
        List.replicate (padded - (done.length + m)) (-1) := by
  rw [Nat.succ_mul] at enough
  rw [writeExpert, ← length, writeRanks_eq done numRanks (by omega), segment]
  simp only [List.append_assoc, List.append_cancel_left_eq]
  rw [List.replicate_append_replicate]
  congr 1
  omega

/-- After some experts their segments stand one after another. -/
theorem writeExperts_eq (fits : numRanks * perExpert ≤ m) (experts : ℕ)
    (enough : experts * m ≤ padded) :
    (List.range experts).foldl (writeExpert padded numRanks expertsPerRank perExpert m)
        (List.replicate padded (-1)) =
      (List.range experts).flatMap (segment numRanks expertsPerRank perExpert m) ++
        List.replicate (padded - experts * m) (-1) := by
  induction experts with
  | zero => simp
  | succ experts ih =>
      have before : experts * m ≤ padded := (Nat.mul_le_mul_right m (Nat.le_succ _)).trans enough
      have length := length_segments fits expertsPerRank experts
      have next := @writeExpert_eq padded numRanks expertsPerRank perExpert m experts fits enough
        ((List.range experts).flatMap (segment numRanks expertsPerRank perExpert m)) length
      rw [length] at next
      rw [List.range_succ, List.foldl_append, ih before, List.foldl_cons, List.foldl_nil, next,
        List.flatMap_append, List.flatMap_singleton, Nat.succ_mul]

end Loops

theorem flatMap_range_mul (a b : ℕ) :
    ((List.range a).flatMap fun i => (List.range b).map fun j => i * b + j) =
      List.range (a * b) := by
  induction a with
  | zero => simp
  | succ a ih =>
      rw [List.range_succ, List.flatMap_append, ih, List.flatMap_singleton, Nat.succ_mul,
        List.range_add]

/-- Two nested loops over lists may be exchanged, up to the order of the results. -/
theorem flatMap_swap {α β γ : Type} (as : List α) (bs : List β) (f : α → β → List γ) :
    (as.flatMap fun a => bs.flatMap fun b => f a b).Perm
      (bs.flatMap fun b => as.flatMap fun a => f a b) := by
  induction as with
  | nil => simp
  | cons a as ih =>
      simp only [List.flatMap_cons]
      exact (ih.append_left _).trans (List.flatMap_append_perm bs _ _)

/-- The rows of all experts are all rows. -/
theorem rows_perm (numRanks experts perExpert : ℕ) :
    ((List.range experts).flatMap fun e => expertRows experts perExpert e numRanks).Perm
      ((List.range (numRanks * experts * perExpert)).map Nat.cast) := by
  refine (flatMap_swap _ _ _).trans (.of_eq ?_)
  have blocks : ((List.range numRanks).flatMap fun r => (List.range experts).flatMap fun e =>
      block perExpert (r * experts + e)) =
        (List.range (numRanks * experts)).flatMap (block perExpert) := by
    rw [← flatMap_range_mul numRanks experts, List.flatMap_assoc]
    simp only [List.flatMap_map]
  rw [blocks, ← flatMap_range_mul (numRanks * experts) perExpert, List.map_flatMap]
  simp only [List.map_map, Function.comp_def]
  rfl

/-- The indices name every row once and are padding elsewhere; the rows of every local expert stand
at the front of its segment, which is aligned and fits. -/
structure Correct {α : Type} (out : Permuted α) (epDegree numLocalExperts perExpert align : ℕ) :
    Prop where
  once : ∀ row < epDegree * numLocalExperts * perExpert,
    out.permutedIndices.count (row : ℤ) = 1
  others : ∀ i ∈ out.permutedIndices,
    i = -1 ∨ ∃ row < epDegree * numLocalExperts * perExpert, i = (row : ℤ)
  sizes : out.mSizes.length = numLocalExperts ∧ ∀ m ∈ out.mSizes, 0 < m ∧ align ∣ m
  padded : align ∣ out.permutedIndices.length
  segments : ∀ e < numLocalExperts, ∃ m, out.mSizes[e]? = some m ∧
    (e + 1) * m ≤ out.permutedIndices.length ∧
    (out.permutedIndices.drop (e * m)).take m =
      expertRows numLocalExperts perExpert e epDegree ++
        List.replicate (m - epDegree * perExpert) (-1)

section Result

variable {numRanks experts perExpert m : ℕ}

/-- The segments without their padding are the rows of the experts. -/
theorem segments_perm (numRanks experts perExpert m : ℕ) :
    ∃ padding, ((List.range experts).flatMap (segment numRanks experts perExpert m)).Perm
      ((List.range (numRanks * experts * perExpert)).map Nat.cast ++
        List.replicate padding (-1)) := by
  have apart := (List.flatMap_append_perm (List.range experts)
    (fun e => expertRows experts perExpert e numRanks)
    (fun _ => List.replicate (m - numRanks * perExpert) (-1 : ℤ))).symm
  have padding : ((List.range experts).flatMap fun _ =>
      List.replicate (m - numRanks * perExpert) (-1 : ℤ)) =
        List.replicate ((List.range experts).flatMap fun _ =>
          List.replicate (m - numRanks * perExpert) (-1 : ℤ)).length (-1) := by
    refine List.eq_replicate_of_mem ?_
    intro i mem
    rcases List.mem_flatMap.mp mem with ⟨_, _, mem⟩
    exact (List.mem_replicate.mp mem).2
  rw [padding] at apart
  exact ⟨_, apart.trans ((rows_perm numRanks experts perExpert).append_right _)⟩

/-- The segment at its place among the others. -/
theorem take_segment (fits : numRanks * perExpert ≤ m) (expertsPerRank : ℕ) {e : ℕ}
    (lt : e < experts) (rest : List ℤ) :
    (((List.range experts).flatMap (segment numRanks expertsPerRank perExpert m) ++ rest).drop
      (e * m)).take m = segment numRanks expertsPerRank perExpert m e := by
  have split : List.range experts =
      List.range e ++ e :: (List.range (experts - e - 1)).map (e + 1 + ·) := by
    conv_lhs => rw [show experts = e + 1 + (experts - e - 1) by omega]
    rw [List.range_add, List.range_succ, List.append_assoc]
    rfl
  have before := length_segments fits expertsPerRank e
  rw [split, List.flatMap_append, List.flatMap_cons, List.append_assoc, ← before, List.drop_left,
    List.append_assoc]
  exact List.take_left' (length_segment fits expertsPerRank e)

end Result

/-- The permutation is a correct layout for all sizes. -/
theorem analyticPermute_correct {α : Type} (zero : α) (align : ℕ) (positive : 1 ≤ align)
    (x : List α) (epDegree numLocalExperts perExpert : ℕ)
    (rows : x.length = epDegree * numLocalExperts * perExpert) :
    Correct (analyticPermute zero align x epDegree numLocalExperts perExpert) epDegree
      numLocalExperts perExpert align := by
  have fits := @tokens_le_mSizeVal align epDegree perExpert positive
  have enough := @segments_fit align epDegree perExpert positive numLocalExperts
  have indices := @writeExperts_eq _ epDegree numLocalExperts perExpert _ fits
    numLocalExperts enough
  set m := mSizeVal epDegree perExpert align with mDef
  set padded := paddedMaxLen (epDegree * numLocalExperts * perExpert) numLocalExperts align
    with paddedDef
  have out : (analyticPermute zero align x epDegree numLocalExperts perExpert).permutedIndices =
      (List.range numLocalExperts).flatMap (segment epDegree numLocalExperts perExpert m) ++
        List.replicate (padded - numLocalExperts * m) (-1) := by
    rw [← indices]
    simp only [analyticPermute, rows]
    rfl
  have length : (analyticPermute zero align x epDegree numLocalExperts
      perExpert).permutedIndices.length = padded := by
    rw [out, List.length_append, length_segments fits, List.length_replicate]
    omega
  have sizes : (analyticPermute zero align x epDegree numLocalExperts perExpert).mSizes =
      List.replicate numLocalExperts m := rfl
  rcases segments_perm epDegree numLocalExperts perExpert m with ⟨padding, perm⟩
  have all := perm.append_right (List.replicate (padded - numLocalExperts * m) (-1))
  rw [← out, List.append_assoc, List.replicate_append_replicate] at all
  refine ⟨?_, ?_, ?_, ?_, ?_⟩
  · intro row lt
    have nodup : ((List.range (epDegree * numLocalExperts * perExpert)).map
        (Nat.cast : ℕ → ℤ)).Nodup := List.nodup_range.map Nat.cast_injective
    have mem := List.mem_map_of_mem (f := (Nat.cast : ℕ → ℤ)) (List.mem_range.mpr lt)
    rw [all.count_eq, List.count_append, List.count_replicate, if_neg (by simp),
      List.count_eq_one_of_mem nodup mem]
  · intro i mem
    rcases List.mem_append.mp (all.subset mem) with mem | mem
    · rcases List.mem_map.mp mem with ⟨row, inside, rfl⟩
      exact Or.inr ⟨row, List.mem_range.mp inside, rfl⟩
    · exact Or.inl (List.mem_replicate.mp mem).2
  · rw [sizes]
    refine ⟨List.length_replicate, ?_⟩
    intro size mem
    rw [(List.mem_replicate.mp mem).2]
    refine ⟨?_, dvd_roundUp _ _⟩
    have aligned := Nat.le_max_right (epDegree * perExpert) align
    exact (positive.trans aligned).trans (le_roundUp positive)
  · rw [length]
    exact dvd_roundUp _ _
  · intro e lt
    refine ⟨m, ?_, ?_, ?_⟩
    · rw [sizes, List.getElem?_replicate, if_pos lt]
    · rw [length]
      exact (Nat.mul_le_mul_right m lt).trans enough
    · rw [out, take_segment fits numLocalExperts lt]
      rfl

/-- Two ranks with two experts each and three tokens for every expert. -/
theorem analyticPermute_correct_pair :
    Correct (analyticPermute 0 4 (List.range 12) 2 2 3) 2 2 3 4 :=
  analyticPermute_correct 0 4 (by decide) (List.range 12) 2 2 3 rfl

example : (analyticPermute 0 4 (List.range 12) 2 2 3).permutedIndices =
    [0, 1, 2, 6, 7, 8, -1, -1, 3, 4, 5, 9, 10, 11, -1, -1, -1, -1, -1, -1] := by
  decide

/-- The rows that a balanced exchange returns are as many as the permutation needs. -/
theorem sum_outputSplits (epDegree numExperts totalRouted : ℕ) :
    let splits := balancedSplits epDegree numExperts totalRouted
    splits.outputSplits.sum = epDegree * splits.numLocalExperts * splits.perExpert := by
  simp [balancedSplits, Nat.mul_assoc]

end Phantora.ExpertLayout
