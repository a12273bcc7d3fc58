import Mathlib.Data.Nat.ModEq
import Phantora.Simulator.Identifiers

/-!
# Drawing identifiers

The server draws an identifier by a loop that carries through the bytes in
place. The loop adds one to the number that the bytes stand for, so that the
identifiers drawn in any run are distinct until the count starts again.
-/

namespace Phantora

open Outcome

/-- The loop of `incr_nccl_id`, with a number of bytes left above the present one. -/
def carryLoop (bytes : List UInt8) : ℕ → List UInt8
  | 0 =>
      if bytes.getD 127 0 ≠ 255 then bytes.set 127 (bytes.getD 127 0 + 1)
      else List.replicate 128 0
  | left + 1 =>
      let i := 127 - (left + 1)
      if bytes.getD i 0 ≠ 255 then bytes.set i (bytes.getD i 0 + 1)
      else carryLoop (bytes.set i 0) left

/-- Below the present byte all bytes are zero by now. -/
theorem carryLoop_eq {left : ℕ} {rest : List UInt8} (length : rest.length = left + 1)
    (inside : left ≤ 127) :
    carryLoop (List.replicate (127 - left) 0 ++ rest) left =
      List.replicate (127 - left) 0 ++ incrBytes rest := by
  induction left generalizing rest with
  | zero =>
      rcases List.length_eq_one_iff.mp length with ⟨byte, rfl⟩
      have present : (List.replicate (127 - 0) 0 ++ [byte]).getD 127 0 = byte := by
        simp [List.getD_eq_getElem?_getD]
      rw [carryLoop, present]
      by_cases full : byte = 255
      · subst full
        rw [if_neg (by simp)]
        simp only [incrBytes, if_true]
        exact List.replicate_succ'
      · rw [if_pos full, List.set_append_right _ _ (by simp), incrBytes, if_neg full]
        simp
  | succ left ih =>
      rcases rest with _ | ⟨byte, rest⟩
      · cases length
      · have rest_length : rest.length = left + 1 := by simpa using length
        have present : (List.replicate (127 - (left + 1)) 0 ++ byte :: rest).getD
            (127 - (left + 1)) 0 = byte := by
          simp [List.getD_eq_getElem?_getD]
        simp only [carryLoop]
        rw [present, List.set_append_right _ _ (by simp), List.set_append_right _ _ (by simp)]
        simp only [List.length_replicate, Nat.sub_self, List.set_cons_zero]
        by_cases full : byte = 255
        · subst full
          have below : 127 - left = 127 - (left + 1) + 1 := by omega
          have shifted : List.replicate (127 - (left + 1)) (0 : UInt8) ++ 0 :: rest =
              List.replicate (127 - left) 0 ++ rest := by
            rw [below, List.replicate_succ', List.append_assoc]
            rfl
          rw [if_neg (by simp), shifted, ih rest_length (by omega), below, List.replicate_succ',
            List.append_assoc]
          simp [incrBytes]
        · rw [if_pos full, incrBytes, if_neg full]

theorem carryLoop_bytes (id : NcclId) : carryLoop id.bytes 127 = (incrNcclId id).bytes := by
  simpa [incrNcclId] using @carryLoop_eq 127 id.bytes id.length_eq (le_refl _)

/-- The identifier handed out and the one that takes its place. -/
def drawNcclId (id : NcclId) : NcclId × NcclId :=
  (id, ⟨carryLoop id.bytes 127, by rw [carryLoop_bytes]; exact (incrNcclId id).length_eq⟩)

theorem drawNcclId_eq (id : NcclId) : drawNcclId id = (id, incrNcclId id) := by
  rw [drawNcclId, Prod.mk.injEq]
  refine ⟨rfl, ?_⟩
  rcases next : incrNcclId id with ⟨bytes, length⟩
  rw [NcclId.mk.injEq, carryLoop_bytes, next]

/-- The identifiers handed out by a number of calls. -/
def drawn : ℕ → NcclId → List NcclId
  | 0, _ => []
  | calls + 1, id => (drawNcclId id).1 :: drawn calls (drawNcclId id).2

theorem drawn_eq_iterate (calls : ℕ) (id : NcclId) :
    drawn calls id = List.iterate incrNcclId id calls := by
  induction calls generalizing id with
  | zero => rfl
  | succ calls ih => rw [drawn, drawNcclId_eq, List.iterate, ih]

theorem drawn_eq_map (calls : ℕ) (id : NcclId) :
    drawn calls id = (List.range calls).map fun i => incrNcclId^[i] id := by
  rw [drawn_eq_iterate, List.range_map_iterate]

theorem drawn_nodup {calls : ℕ} (few : calls ≤ idCount) (id : NcclId) : (drawn calls id).Nodup := by
  rw [drawn_eq_map, List.nodup_map_iff_inj_on List.nodup_range]
  intro i left j right same
  rw [List.mem_range] at left right
  have values := congrArg NcclId.value same
  rw [value_iterate, value_iterate] at values
  have congruent : i ≡ j [MOD idCount] := Nat.ModEq.add_left_cancel' id.value values
  exact Nat.ModEq.eq_of_lt_of_lt congruent (by omega) (by omega)

namespace Simulator

variable {env : Environment} {sim : Simulator}

/-- The identifiers issued in a run are those that the calls draw one after another. -/
theorem issuedIds_perm_drawn {messages : List Message} (reached : Reached env messages sim) :
    sim.issuedIds.Perm (drawn sim.issuedIds.length firstId) := by
  rw [drawn_eq_map]
  exact (counted_of_reached reached).issued

/-- A call hands out the present identifier and adds one to the number; fewer calls than there are
numbers hand out distinct identifiers, and so do the requests and the splits of any run. -/
theorem ids_never_reused :
    (∀ id : NcclId, (drawNcclId id).1 = id ∧
      (drawNcclId id).2.value = (id.value + 1) % 2 ^ 1024) ∧
    (∀ (id : NcclId) (calls : ℕ), calls < 2 ^ 1024 → (drawn calls id).Nodup) ∧
    ∀ (env : Environment) (messages : List Message) (sim : Simulator),
      Reached env messages sim → sim.issuedIds.length < 2 ^ 1024 →
        sim.issuedIds.Perm (drawn sim.issuedIds.length firstId) ∧ sim.issuedIds.Nodup := by
  have count : idCount = 2 ^ 1024 := by
    rw [idCount, show 256 = 2 ^ 8 from rfl, ← pow_mul]
  refine ⟨?_, ?_, ?_⟩
  · intro id
    rw [drawNcclId_eq, ← count]
    exact ⟨rfl, value_incrNcclId id⟩
  · intro id calls few
    exact drawn_nodup (by omega) id
  · intro env messages sim reached few
    have perm := issuedIds_perm_drawn reached
    exact ⟨perm, perm.nodup_iff.mpr (drawn_nodup (by omega) firstId)⟩

/-- Two hosts ask for an identifier each. -/
theorem ids_never_reused_twoRequests :
    (drawn 2 firstId).Nodup ∧ ∃ messages sim, Reached (.plain 20) messages sim ∧
      sim.issuedIds.length = 2 ∧ sim.issuedIds.Nodup := by
  have few : 2 < 2 ^ 1024 :=
    lt_of_lt_of_le (show 2 < 2 ^ 2 by decide) (pow_le_pow_right₀ (by decide) (by decide))
  refine ⟨ids_never_reused.2.1 firstId 2 few, ?_⟩
  have read : ([.cuda ⟨leftThread 0, 0, .ncclGetUniqueId⟩,
      .cuda ⟨rightThread 0, 0, .ncclGetUniqueId⟩].foldlM
        (Simulator.handle (.plain 20)) pair).toOption.map
      (fun sim => sim.issuedIds.length) = some 2 := by decide +kernel
  rcases exists_ok_of_reading read with ⟨sim, run, length⟩
  have reached := reached_of_foldlM initial_pair run
  refine ⟨_, sim, reached, length, ?_⟩
  exact (ids_never_reused.2.2 _ _ sim reached (length.symm ▸ few)).2

end Simulator

end Phantora
