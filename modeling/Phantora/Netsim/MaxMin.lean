import Mathlib.Algebra.Order.Floor.Semifield
import Mathlib.Data.Rat.Cast.Order
import Phantora.Lib.WaterFilling
import Phantora.Netsim.RepresentationRuns

/-!
# Max-min fairness

With link bandwidths that a rate cannot reach, and rates that are whole, every
round of `maxMinFairnessConverge` is a round of progressive filling of the
network that the link index describes.
-/

namespace Phantora.Netsim

open Outcome

theorem asU64_natCast {n : ℕ} (small : n ≤ u64Max) : asU64 (n : ℚ) = n := by
  unfold asU64
  rw [Int.floor_natCast, Int.toNat_natCast]
  exact Nat.min_eq_left small

theorem divBandwidth_natCast {bandwidth divisor : ℕ} (small : bandwidth ≤ u64Max)
    (positive : 0 < divisor) : divBandwidth bandwidth (divisor : ℚ) = bandwidth / divisor := by
  have nonzero : (divisor : ℚ) ≠ 0 := Nat.cast_ne_zero.mpr (Nat.ne_of_gt positive)
  unfold divBandwidth asU64
  rw [if_neg nonzero, Int.floor_toNat, Nat.floor_div_eq_div]
  exact Nat.min_eq_left ((Nat.div_le_self _ _).trans small)

theorem le_asU64 {n : ℕ} {value : ℚ} (small : n ≤ u64Max) (le : (n : ℚ) ≤ value) :
    n ≤ asU64 value := by
  unfold asU64
  rw [Int.floor_toNat]
  exact Nat.le_min.mpr ⟨Nat.le_floor le, small⟩

theorem le_foldl_min_iff {α : Type} [LinearOrder α] {bound start : α} {values : List α} :
    bound ≤ values.foldl min start ↔ bound ≤ start ∧ ∀ value ∈ values, bound ≤ value := by
  induction values generalizing start with
  | nil => simp
  | cons value values ih =>
      rw [List.foldl_cons, ih, le_min_iff, List.forall_mem_cons, and_assoc]

theorem u64Max_le_f64Max : (u64Max : ℚ) ≤ f64Max := by
  have small : (u64Max : ℚ) ≤ 2 ^ 971 := by
    have word : (u64Max : ℚ) ≤ 2 ^ 64 := by
      have le : u64Max ≤ 2 ^ 64 := Nat.sub_le _ _
      exact_mod_cast le
    exact word.trans (pow_le_pow_right₀ (by norm_num) (by norm_num))
  have double : (2 : ℚ) * 2 ^ 971 ≤ 2 ^ 1024 := by
    rw [← pow_succ']
    exact pow_le_pow_right₀ (by norm_num) (by norm_num)
  rw [f64Max, le_sub_iff_add_le]
  calc (u64Max : ℚ) + 2 ^ 971 ≤ 2 ^ 971 + 2 ^ 971 := add_le_add small le_rfl
    _ = 2 * 2 ^ 971 := (two_mul _).symm
    _ ≤ 2 ^ 1024 := double

theorem asU64_f64Max : asU64 f64Max = u64Max := by
  apply Nat.le_antisymm
  · exact Nat.min_le_right _ _
  · exact le_asU64 le_rfl u64Max_le_f64Max

/-- The cast to `u64` cuts off below zero, as subtraction of numbers does. -/
theorem asU64_sub {m n : ℕ} (small : m ≤ u64Max) : asU64 ((m : ℚ) - n) = m - n := by
  unfold asU64
  have cast : ((m : ℚ) - n) = ((m - n : ℤ) : ℚ) := by push_cast; rfl
  rw [cast, Int.floor_intCast]
  omega

theorem asU64_min (left right : ℚ) : asU64 (min left right) = min (asU64 left) (asU64 right) := by
  have mono : Monotone asU64 := by
    intro low high le
    exact min_le_min_right _ (Int.toNat_le_toNat (Int.floor_le_floor le))
  exact mono.map_min

theorem asU64_foldl_min {start : ℚ} {values : List ℚ} :
    asU64 (values.foldl min start) = (values.map asU64).foldl min (asU64 start) := by
  induction values generalizing start with
  | nil => rfl
  | cons value values ih => rw [List.foldl_cons, ih, asU64_min, List.map_cons, List.foldl_cons]

namespace Arena

/-- Mutating a flow state twice is mutating it once. -/
theorem forEach_apply_of_idempotent (arena : Arena) {refs : List FlowRef}
    {f : FlowState → FlowState} (idempotent : ∀ state, f (f state) = f state) (ref : FlowRef) :
    arena.forEach refs f ref = if ref ∈ refs then f (arena ref) else arena ref := by
  unfold forEach
  induction refs generalizing arena with
  | nil => simp
  | cons head refs ih =>
      rw [List.foldl_cons, ih]
      by_cases same : ref = head
      · subst ref
        simp [modify, idempotent]
      · simp [modify, same]

end Arena

namespace Filling

/-- The links and the flows on them, as filling sees them. -/
def network (cluster : Cluster) (linkFlows : List (LinkIx × FlowSet)) :
    WaterFilling.Network FlowRef LinkIx where
  capacity := cluster.bandwidth
  crossing link := (NetState.flowsOn linkFlows link : Multiset FlowRef)

/-- The flow states of the running flows say what the state of a filling says. -/
structure Simulates (running : List FlowRef) (arena : Arena) (s : WaterFilling.State FlowRef) :
    Prop where
  speed : ∀ ref ∈ running, (arena ref).speed = s.rate ref
  converged : ∀ ref ∈ running, (arena ref).converged = s.frozen ref
  bound : ∀ ref ∈ running, s.frozen ref = false → (arena ref).speedBound = u64Max
  maxRate : ∀ ref ∈ running, (arena ref).maxRate = u64Max

/-- The flow states of the running flows say what the state of a filling says, and their limits
are `limit`. -/
structure Follows (limit : FlowRef → ℕ) (running : List FlowRef) (arena : Arena)
    (s : WaterFilling.State FlowRef) : Prop where
  speed : ∀ ref ∈ running, (arena ref).speed = s.rate ref
  converged : ∀ ref ∈ running, (arena ref).converged = s.frozen ref
  bound : ∀ ref ∈ running, s.frozen ref = false → (arena ref).speedBound = limit ref
  maxRate : ∀ ref ∈ running, (arena ref).maxRate = limit ref

theorem Simulates.follows {running : List FlowRef} {arena : Arena}
    {s : WaterFilling.State FlowRef} (simulates : Simulates running arena s) :
    Follows (fun _ => u64Max) running arena s :=
  ⟨simulates.speed, simulates.converged, simulates.bound, simulates.maxRate⟩

theorem Follows.simulates {running : List FlowRef} {arena : Arena}
    {s : WaterFilling.State FlowRef} (follows : Follows (fun _ => u64Max) running arena s) :
    Simulates running arena s :=
  ⟨follows.speed, follows.converged, follows.bound, follows.maxRate⟩

/-- The flows to fill: each is named once, is on the links of the index, and its links have
bandwidths that fit a word. -/
structure Wired (cluster : Cluster) (running : List FlowRef)
    (linkFlows : List (LinkIx × FlowSet)) : Prop where
  nodup : running.Nodup
  filed : NetState.Filed linkFlows
  running : ∀ link, ∀ ref ∈ NetState.flowsOn linkFlows link, ref ∈ running
  bandwidth : ∀ link, cluster.bandwidth link ≤ u64Max

open WaterFilling in
theorem sum_speed {net : Network FlowRef LinkIx} {s : WaterFilling.State FlowRef} {link : LinkIx}
    {flows : List FlowRef} {speedOf : FlowRef → ℚ}
    (crossing : net.crossing link = (flows : Multiset FlowRef))
    (speed : ∀ ref ∈ flows, speedOf ref = s.rate ref) :
    (flows.map fun ref => speedOf ref).sum = (load net s link : ℚ) := by
  have cast := map_list_sum (Nat.castAddMonoidHom ℚ) (flows.map s.rate)
  simp only [Nat.coe_castAddMonoidHom, List.map_map] at cast
  rw [load, crossing, Multiset.map_coe, Multiset.sum_coe, cast]
  congr 1
  apply List.map_congr_left
  intro ref mem
  exact speed ref mem

/-- The least that a stopped flow of a link lacks to its limit. -/
def spare (limit : FlowRef → ℕ) (s : WaterFilling.State FlowRef) (flows : List FlowRef) : ℕ :=
  (flows.map fun ref => if s.frozen ref then limit ref - s.rate ref else u64Max).foldl min u64Max

theorem le_spare_iff {limit : FlowRef → ℕ} {s : WaterFilling.State FlowRef} {flows : List FlowRef}
    {inc : ℕ} (small : inc ≤ u64Max) : inc ≤ spare limit s flows ↔
      ∀ ref ∈ flows, s.frozen ref = true → inc ≤ limit ref - s.rate ref := by
  rw [spare, le_foldl_min_iff, List.forall_mem_map]
  constructor
  · rintro ⟨_, each⟩ ref mem frozen
    simpa [frozen] using each ref mem
  · intro each
    refine ⟨small, fun ref mem => ?_⟩
    split
    · rename_i frozen
      exact each ref mem frozen
    · exact small

open WaterFilling in
/-- What one link allows to its flows: no more than a flow that has stopped already lacks to its
limit. -/
theorem calcDeltaPerFlow_eq_min {net : Network FlowRef LinkIx} {s : WaterFilling.State FlowRef}
    {limit : FlowRef → ℕ} {link : LinkIx} {flows : List FlowRef} {arena : Arena}
    (crossing : net.crossing link = (flows : Multiset FlowRef))
    (speed : ∀ ref ∈ flows, (arena ref).speed = s.rate ref)
    (converged : ∀ ref ∈ flows, (arena ref).converged = s.frozen ref)
    (maxRate : ∀ ref ∈ flows, (arena ref).maxRate = limit ref)
    (small : ∀ ref ∈ flows, limit ref ≤ u64Max)
    (notOver : ∀ ref ∈ flows, s.rate ref ≤ limit ref + 10)
    (bandwidth : net.capacity link ≤ u64Max) (feasible : load net s link ≤ net.capacity link)
    (isActive : 0 < active net s link) :
    calcDeltaPerFlow (net.capacity link) flows arena =
      .ok (min (share net s link) (spare limit s flows),
        arena.forEach flows (capFlow (min (share net s link) (spare limit s flows)))) := by
  have u64 : u64Max = 2 ^ 64 - 1 := rfl
  have consumed := sum_speed crossing speed
  have numActive : (flows.countP fun ref => !(arena ref).converged) = active net s link := by
    rw [active, crossing, Multiset.coe_countP]
    apply List.countP_congr
    intro ref mem
    rw [converged ref mem]
    simp
  have notOver' : ∀ ref ∈ flows, (arena ref).speed ≤ (arena ref).maxRate + 10 := by
    intro ref mem
    rw [speed ref mem, maxRate ref mem]
    exact_mod_cast notOver ref mem
  have rest : asU64 ((flows.map fun ref =>
      if (arena ref).converged then (arena ref).maxRate - (arena ref).speed
      else f64Max).foldl min f64Max) = spare limit s flows := by
    rw [asU64_foldl_min, asU64_f64Max, spare, List.map_map]
    congr 1
    apply List.map_congr_left
    intro ref mem
    rw [Function.comp_apply, converged ref mem]
    split
    · rw [speed ref mem, maxRate ref mem, asU64_sub (small ref mem)]
    · exact asU64_f64Max
  have inc : (if net.capacity link < asU64 (load net s link : ℚ) then 0
      else divBandwidth (net.capacity link - asU64 (load net s link : ℚ))
        (active net s link : ℕ)) = share net s link := by
    rw [asU64_natCast (by omega), if_neg (by omega), divBandwidth_natCast (by omega) isActive]
    rfl
  unfold calcDeltaPerFlow
  dsimp only
  rw [consumed, numActive, inc, rest]
  simp only [assert, if_pos notOver']
  rfl

open WaterFilling in
/-- What one link allows to its flows when none has a limit of its own. -/
theorem calcDeltaPerFlow_eq {net : Network FlowRef LinkIx} {s : WaterFilling.State FlowRef}
    {link : LinkIx} {flows : List FlowRef} {arena : Arena}
    (crossing : net.crossing link = (flows : Multiset FlowRef))
    (speed : ∀ ref ∈ flows, (arena ref).speed = s.rate ref)
    (converged : ∀ ref ∈ flows, (arena ref).converged = s.frozen ref)
    (maxRate : ∀ ref ∈ flows, (arena ref).maxRate = u64Max)
    (bandwidth : net.capacity link ≤ u64Max) (feasible : load net s link ≤ net.capacity link)
    (isActive : 0 < active net s link) :
    calcDeltaPerFlow (net.capacity link) flows arena =
      .ok (share net s link, arena.forEach flows (capFlow (share net s link))) := by
  have shareLow : share net s link ≤ net.capacity link - load net s link := Nat.div_le_self _ _
  have slow : ∀ ref ∈ flows, s.rate ref ≤ load net s link := by
    intro ref mem
    have onLink : ref ∈ net.crossing link := crossing ▸ Multiset.mem_coe.mpr mem
    exact Multiset.le_sum_of_mem (Multiset.mem_map_of_mem s.rate onLink)
  -- the flows that have converged already leave room for the share of the link
  have room : share net s link ≤ spare (fun _ => u64Max) s flows := by
    rw [le_spare_iff (by omega)]
    intro ref mem _
    have low := slow ref mem
    omega
  have notOver : ∀ ref ∈ flows, s.rate ref ≤ u64Max + 10 := by
    intro ref mem
    have low := slow ref mem
    omega
  have delta := calcDeltaPerFlow_eq_min crossing speed converged maxRate (fun _ _ => le_rfl) notOver
    bandwidth feasible isActive
  rwa [Nat.min_eq_left room] at delta

/-- The flows on an active link of `done` are capped at what the link allows, and `acc` has
the increases. -/
structure Capped (net : WaterFilling.Network FlowRef LinkIx) (s : WaterFilling.State FlowRef)
    (arena : Arena) (done : List (LinkIx × FlowSet)) (acc : List ℕ × Arena) : Prop where
  deltas : ∀ delta, delta ∈ acc.1 ↔ ∃ entry ∈ done, 0 < WaterFilling.active net s entry.1 ∧
    WaterFilling.share net s entry.1 = delta
  same : ∀ ref, acc.2 ref = { arena ref with speedBound := (acc.2 ref).speedBound }
  bound : ∀ ref x, (acc.2 ref).speedBound ≤ x ↔ (arena ref).speedBound ≤ x ∨
    ∃ entry ∈ done, 0 < WaterFilling.active net s entry.1 ∧ ref ∈ net.crossing entry.1 ∧
      (arena ref).speed + WaterFilling.share net s entry.1 ≤ x

theorem capFlow_idempotent (inc : ℕ) (f : FlowState) : capFlow inc (capFlow inc f) =
    capFlow inc f := by
  simp only [capFlow, min_assoc, min_self]

open WaterFilling in
theorem Capped.skip {net : Network FlowRef LinkIx} {s : WaterFilling.State FlowRef} {arena : Arena}
    {done : List (LinkIx × FlowSet)} {acc : List ℕ × Arena} {entry : LinkIx × FlowSet}
    (capped : Capped net s arena done acc) (still : ¬0 < active net s entry.1) :
    Capped net s arena (done ++ [entry]) acc := by
  have more : ∀ P : LinkIx × FlowSet → Prop,
      (∃ other ∈ done ++ [entry], 0 < active net s other.1 ∧ P other) ↔
        ∃ other ∈ done, 0 < active net s other.1 ∧ P other := by
    intro P
    constructor
    · rintro ⟨other, mem, isActive, holds⟩
      rcases List.mem_append.mp mem with old | new
      · exact ⟨other, old, isActive, holds⟩
      · rw [List.mem_singleton] at new
        exact absurd (new ▸ isActive) still
    · rintro ⟨other, mem, isActive, holds⟩
      exact ⟨other, List.mem_append_left _ mem, isActive, holds⟩
  refine ⟨?_, capped.same, ?_⟩
  · intro delta
    rw [capped.deltas, more]
  · intro ref x
    rw [capped.bound, more]

open WaterFilling in
theorem Capped.cap {net : Network FlowRef LinkIx} {s : WaterFilling.State FlowRef} {arena : Arena}
    {done : List (LinkIx × FlowSet)} {acc : List ℕ × Arena} {entry : LinkIx × FlowSet}
    {flows : List FlowRef} (capped : Capped net s arena done acc)
    (isActive : 0 < active net s entry.1)
    (crossing : net.crossing entry.1 = (flows : Multiset FlowRef)) :
    Capped net s arena (done ++ [entry]) (acc.1 ++ [share net s entry.1],
      acc.2.forEach flows (capFlow (share net s entry.1))) := by
  have capsOf : ∀ ref, acc.2.forEach flows (capFlow (share net s entry.1)) ref =
      if ref ∈ flows then capFlow (share net s entry.1) (acc.2 ref) else acc.2 ref :=
    fun ref => acc.2.forEach_apply_of_idempotent (capFlow_idempotent _) ref
  have speed : ∀ ref, (acc.2 ref).speed = (arena ref).speed := by
    intro ref
    rw [capped.same]
  refine ⟨?_, ?_, ?_⟩
  · intro delta
    rw [List.mem_append, capped.deltas, List.mem_singleton]
    constructor
    · rintro (⟨other, mem, holds⟩ | rfl)
      · exact ⟨other, List.mem_append_left _ mem, holds⟩
      · exact ⟨entry, by simp, isActive, rfl⟩
    · rintro ⟨other, mem, holds⟩
      rcases List.mem_append.mp mem with old | new
      · exact Or.inl ⟨other, old, holds⟩
      · rw [List.mem_singleton] at new
        exact Or.inr (new ▸ holds.2.symm)
  · intro ref
    dsimp only
    rw [capsOf]
    split
    · rw [capFlow, capped.same]
    · exact capped.same ref
  · intro ref x
    dsimp only
    rw [capsOf]
    constructor
    · intro low
      split at low
      · rename_i mem
        simp only [capFlow, min_le_iff, speed] at low
        rcases low with low | low
        · rcases (capped.bound ref x).mp low with start | ⟨other, inDone, holds⟩
          · exact Or.inl start
          · exact Or.inr ⟨other, List.mem_append_left _ inDone, holds⟩
        · refine Or.inr ⟨entry, by simp, isActive, ?_, low⟩
          rw [crossing]
          exact Multiset.mem_coe.mpr mem
      · rcases (capped.bound ref x).mp low with start | ⟨other, inDone, holds⟩
        · exact Or.inl start
        · exact Or.inr ⟨other, List.mem_append_left _ inDone, holds⟩
    · intro low
      have old : (arena ref).speedBound ≤ x ∨ (∃ entry ∈ done, 0 < active net s entry.1 ∧
          ref ∈ net.crossing entry.1 ∧ (arena ref).speed + share net s entry.1 ≤ x) →
          (if ref ∈ flows then capFlow (share net s entry.1) (acc.2 ref)
            else acc.2 ref).speedBound ≤ x := by
        intro holds
        have le := (capped.bound ref x).mpr holds
        split
        · exact (min_le_left _ _).trans le
        · exact le
      rcases low with start | ⟨other, mem, holds⟩
      · exact old (Or.inl start)
      · rcases List.mem_append.mp mem with inDone | new
        · exact old (Or.inr ⟨other, inDone, holds⟩)
        · rw [List.mem_singleton] at new
          subst new
          have inFlows : ref ∈ flows := by
            rw [crossing] at holds
            exact Multiset.mem_coe.mp holds.2.1
          rw [if_pos inFlows, capFlow]
          exact (min_le_right _ _).trans (speed ref ▸ holds.2.2)

open WaterFilling in
/-- The links with active flows are capped, if the increase of each is its share. -/
theorem linkDeltas_capped {cluster : Cluster} {net : Network FlowRef LinkIx}
    {limit : FlowRef → ℕ} {running : List FlowRef} {linkFlows : List (LinkIx × FlowSet)}
    {arena : Arena} {s : WaterFilling.State FlowRef} (wired : Wired cluster running linkFlows)
    (crossing : ∀ link, net.crossing link = (NetState.flowsOn linkFlows link : Multiset FlowRef))
    (follows : Follows limit running arena s)
    (delta : ∀ link flows middle, NetState.flowsOn linkFlows link = flows →
      0 < active net s link → (∀ ref ∈ flows, ref ∈ running) →
      (∀ ref, middle ref = { arena ref with speedBound := (middle ref).speedBound }) →
      calcDeltaPerFlow (cluster.bandwidth link) flows middle =
        .ok (share net s link, middle.forEach flows (capFlow (share net s link)))) :
    ∃ acc, linkFlows.foldlM (linkDeltas cluster .perFlowMaxMin) ([], arena) = .ok acc ∧
      Capped net s arena linkFlows acc := by
  refine foldlM_total (Capped net s arena) ?_ ?_
  · rintro done ⟨link, set⟩ rest ⟨deltas, middle⟩ capped whole
    have mem : (link, set) ∈ linkFlows := by
      rw [← whole]
      simp
    rcases wired.filed.flat _ mem with ⟨flows, flat, nonempty⟩
    dsimp only at flat
    subst flat
    have onLink : NetState.flowsOn linkFlows link = flows := wired.filed.flowsOn_eq mem
    have crosses : net.crossing link = (flows : Multiset FlowRef) :=
      (crossing link).trans (congrArg _ onLink)
    have isRunning : ∀ ref ∈ flows, ref ∈ running :=
      fun ref inFlows => wired.running link ref (onLink ▸ inFlows)
    have same : ∀ ref, middle ref = { arena ref with speedBound := (middle ref).speedBound } :=
      capped.same
    have converged : ∀ ref ∈ flows, (middle ref).converged = s.frozen ref := by
      intro ref inFlows
      rw [same]
      exact follows.converged ref (isRunning ref inFlows)
    have isActive : ((FlowSet.flat flows).iter.any fun ref => !(middle ref).converged) = true ↔
        0 < active net s link := by
      rw [active_pos_iff, crosses, FlowSet.iter, List.any_eq_true]
      simp only [Multiset.mem_coe]
      constructor
      · rintro ⟨ref, inFlows, fills⟩
        exact ⟨ref, inFlows, by simpa [converged ref inFlows] using fills⟩
      · rintro ⟨ref, inFlows, fills⟩
        exact ⟨ref, inFlows, by simpa [converged ref inFlows] using fills⟩
    simp only [linkDeltas]
    by_cases fills : 0 < active net s link
    · rw [if_pos (isActive.mpr fills)]
      have granted := delta link flows middle onLink fills isRunning same
      have next : Capped net s arena (done ++ [(link, .flat flows)]) _ :=
        capped.cap fills crosses
      refine ⟨_, ?_, next⟩
      simp only [bind_eq_ok, assert_eq_ok, pure_eq_ok, calcDelta, FlowSet.iter, FlowSet.isEmpty,
        List.isEmpty_iff]
      exact ⟨⟨⟩, nonempty, _, granted, rfl⟩
    · rw [if_neg (fun any => fills (isActive.mp any))]
      exact ⟨_, rfl, capped.skip fills⟩
  · refine ⟨?_, fun ref => rfl, ?_⟩
    · simp
    · simp

open WaterFilling in
theorem linkDeltas_total {cluster : Cluster} {running : List FlowRef}
    {linkFlows : List (LinkIx × FlowSet)} {arena : Arena} {s : WaterFilling.State FlowRef}
    (wired : Wired cluster running linkFlows) (simulates : Simulates running arena s)
    (feasible : ∀ link, load (network cluster linkFlows) s link ≤ cluster.bandwidth link) :
    ∃ acc, linkFlows.foldlM (linkDeltas cluster .perFlowMaxMin) ([], arena) = .ok acc ∧
      Capped (network cluster linkFlows) s arena linkFlows acc := by
  refine linkDeltas_capped wired (fun _ => rfl) simulates.follows ?_
  intro link flows middle onLink isActive isRunning same
  refine calcDeltaPerFlow_eq (congrArg _ onLink) ?_ ?_ ?_ (wired.bandwidth link) (feasible link)
    isActive
  · intro ref inFlows
    rw [same]
    exact simulates.speed ref (isRunning ref inFlows)
  · intro ref inFlows
    rw [same]
    exact simulates.converged ref (isRunning ref inFlows)
  · intro ref inFlows
    rw [same]
    exact simulates.maxRate ref (isRunning ref inFlows)

theorem natCast_le_natCast_add {m n : ℕ} : (m : ℚ) ≤ n + 1 / 10000000000 ↔ m ≤ n := by
  constructor
  · intro le
    by_contra lt
    have next : ((n + 1 : ℕ) : ℚ) ≤ m := by exact_mod_cast not_le.mp lt
    push_cast at next
    linarith
  · intro le
    have cast : (m : ℚ) ≤ n := by exact_mod_cast le
    linarith

open WaterFilling in
/-- What one round makes of a flow that is still filling. -/
theorem raiseFlow_filling {net : Network FlowRef LinkIx} {s : WaterFilling.State FlowRef}
    {arena : Arena} {linkFlows : List (LinkIx × FlowSet)} {acc : List ℕ × Arena} {inc limit : ℕ}
    {ref : FlowRef} (capped : Capped net s arena linkFlows acc)
    (speed : (arena ref).speed = s.rate ref) (fills : (arena ref).converged = false)
    (bound : (arena ref).speedBound = limit)
    (least : ∀ link, 0 < active net s link → inc ≤ share net s link)
    (entries : ∀ link, 0 < active net s link → ∃ entry ∈ linkFlows, entry.1 = link) :
    (raiseFlow inc (acc.2 ref)).speed = (s.rate ref + inc : ℕ) ∧
      ((raiseFlow inc (acc.2 ref)).converged = true ↔ limit ≤ s.rate ref + inc ∨
        ∃ link, ref ∈ net.crossing link ∧ 0 < active net s link ∧ share net s link = inc) ∧
      ((raiseFlow inc (acc.2 ref)).converged = false →
        (raiseFlow inc (acc.2 ref)).speedBound = (arena ref).maxRate) := by
  have speed' : (acc.2 ref).speed = s.rate ref := by
    rw [capped.same]
    exact speed
  have stops : (acc.2 ref).speedBound ≤ (acc.2 ref).speed + inc + 1 / 10000000000 ↔
      limit ≤ s.rate ref + inc ∨
        ∃ link, ref ∈ net.crossing link ∧ 0 < active net s link ∧ share net s link = inc := by
    rw [capped.bound, speed', bound, speed, ← Nat.cast_add, natCast_le_natCast_add]
    apply or_congr_right
    constructor
    · rintro ⟨entry, _, isActive, crosses, le⟩
      rw [← Nat.cast_add, natCast_le_natCast_add] at le
      exact ⟨entry.1, crosses, isActive,
        Nat.le_antisymm (Nat.le_of_add_le_add_left le) (least entry.1 isActive)⟩
    · rintro ⟨link, crosses, isActive, granted⟩
      rcases entries link isActive with ⟨entry, mem, rfl⟩
      refine ⟨entry, mem, isActive, crosses, ?_⟩
      rw [← Nat.cast_add, natCast_le_natCast_add, granted]
  have maxRate : (acc.2 ref).maxRate = (arena ref).maxRate := by
    rw [capped.same]
  have fills' : ¬(acc.2 ref).converged = true := by
    rw [capped.same]
    simpa using fills
  rw [← stops, raiseFlow, if_neg fills']
  split
  · rename_i stop
    refine ⟨?_, ?_, ?_⟩
    · push_cast
      rw [speed']
    · simp only [stop]
    · intro goes
      cases goes
  · rename_i goes
    refine ⟨?_, ?_, ?_⟩
    · push_cast
      rw [speed']
    · simp only [goes, iff_false]
      exact fills'
    · intro _
      rw [maxRate]

open WaterFilling in
/-- Raising the flow states raises the rates that they follow. A flow stops at its limit, and
where a link grants no more. -/
theorem Follows.raise {net : Network FlowRef LinkIx} {limit : FlowRef → ℕ}
    {s s' : WaterFilling.State FlowRef} {running : List FlowRef} {arena : Arena}
    {linkFlows : List (LinkIx × FlowSet)} {acc : List ℕ × Arena} {inc : ℕ}
    (follows : Follows limit running arena s) (capped : Capped net s arena linkFlows acc)
    (nodup : running.Nodup) (least : ∀ link, 0 < active net s link → inc ≤ share net s link)
    (entries : ∀ link, 0 < active net s link → ∃ entry ∈ linkFlows, entry.1 = link)
    (rate : ∀ ref ∈ running, s'.rate ref = if s.frozen ref then s.rate ref else s.rate ref + inc)
    (frozen : ∀ ref ∈ running, s'.frozen ref = true ↔ s.frozen ref = true ∨
      limit ref ≤ s.rate ref + inc ∨
        ∃ link, ref ∈ net.crossing link ∧ 0 < active net s link ∧ share net s link = inc) :
    Follows limit running (acc.2.forEach running (raiseFlow inc)) s' := by
  have raised : ∀ ref ∈ running,
      (acc.2.forEach running (raiseFlow inc)) ref = raiseFlow inc (acc.2 ref) := by
    intro ref mem
    rw [Arena.forEach_apply _ _ nodup, if_pos mem]
  have resting : ∀ ref ∈ running, s.frozen ref = true → raiseFlow inc (acc.2 ref) = acc.2 ref := by
    intro ref mem stopped
    rw [raiseFlow, if_pos]
    rw [capped.same]
    exact (follows.converged ref mem).trans stopped
  have filling := fun ref mem (isFilling : s.frozen ref = false) =>
    raiseFlow_filling capped (follows.speed ref mem)
      ((follows.converged ref mem).trans isFilling) (follows.bound ref mem isFilling) least entries
  have rates : ∀ f : FlowState, (raiseFlow inc f).maxRate = f.maxRate := by
    intro f
    have same := congrArg FlowState.maxRate (core_raiseFlow inc f)
    exact same
  refine ⟨?_, ?_, ?_, ?_⟩
  · intro ref mem
    rw [raised ref mem, rate ref mem]
    cases stopped : s.frozen ref with
    | true =>
        rw [resting ref mem stopped, capped.same]
        simpa using follows.speed ref mem
    | false => simpa using (filling ref mem stopped).1
  · intro ref mem
    rw [raised ref mem, Bool.eq_iff_iff, frozen ref mem]
    cases stopped : s.frozen ref with
    | true =>
        rw [resting ref mem stopped, capped.same]
        simpa [stopped] using follows.converged ref mem
    | false => simpa using (filling ref mem stopped).2.1
  · intro ref mem isFilling
    rw [Bool.eq_false_iff, Ne, frozen ref mem, not_or] at isFilling
    have before : s.frozen ref = false := by simpa using isFilling.1
    rw [← (filling ref mem before).2.1] at isFilling
    rw [raised ref mem, (filling ref mem before).2.2, follows.maxRate ref mem]
    simpa using isFilling.2
  · intro ref mem
    rw [raised ref mem, rates, capped.same]
    exact follows.maxRate ref mem

open WaterFilling in
/-- Raising the flow states is a step of the filling that they simulate. -/
theorem Simulates.raise {net : Network FlowRef LinkIx} {s : WaterFilling.State FlowRef}
    {running : List FlowRef} {arena : Arena} {linkFlows : List (LinkIx × FlowSet)}
    {acc : List ℕ × Arena} {inc : ℕ} (simulates : Simulates running arena s)
    (capped : Capped net s arena linkFlows acc) (nodup : running.Nodup)
    (full : ∀ ref ∈ running, s.frozen ref = false → u64Max ≤ s.rate ref + inc →
      ∃ link, ref ∈ net.crossing link ∧ 0 < active net s link ∧ share net s link = inc)
    (least : ∀ link, 0 < active net s link → inc ≤ share net s link)
    (entries : ∀ link, 0 < active net s link → ∃ entry ∈ linkFlows, entry.1 = link) :
    Simulates running (acc.2.forEach running (raiseFlow inc)) (WaterFilling.raise net s inc) := by
  refine (simulates.follows.raise capped nodup least entries (fun _ _ => rfl) ?_).simulates
  intro ref mem
  rw [raise_frozen]
  constructor
  · rintro (stopped | granted)
    · exact Or.inl stopped
    · exact Or.inr (Or.inr granted)
  · rintro (stopped | high | granted)
    · exact Or.inl stopped
    · cases frozen : s.frozen ref with
      | true => exact Or.inl rfl
      | false => exact Or.inr (full ref mem frozen high)
    · exact Or.inr granted

open WaterFilling in
/-- A round of the loop raises the flows by the least share. -/
theorem fillRound_capped {cluster : Cluster} {net : Network FlowRef LinkIx}
    {running : List FlowRef} {linkFlows : List (LinkIx × FlowSet)} {arena : Arena}
    {s : WaterFilling.State FlowRef} {acc : List ℕ × Arena}
    (run : linkFlows.foldlM (linkDeltas cluster .perFlowMaxMin) ([], arena) = .ok acc)
    (capped : Capped net s arena linkFlows acc)
    (entries : ∀ link, 0 < active net s link → ∃ entry ∈ linkFlows, entry.1 = link)
    (fills : ∃ link, 0 < active net s link) :
    ∃ inc : ℕ, fillRound cluster .perFlowMaxMin running linkFlows arena =
        .ok (acc.2.forEach running (raiseFlow inc)) ∧
      (∃ link, 0 < active net s link ∧ share net s link = inc) ∧
      ∀ link, 0 < active net s link → inc ≤ share net s link := by
  cases least : acc.1.min? with
  | none =>
      rcases fills with ⟨link, isActive⟩
      rcases entries link isActive with ⟨entry, inIndex, rfl⟩
      have delta := (capped.deltas _).mpr ⟨entry, inIndex, isActive, rfl⟩
      rw [List.min?_eq_none_iff] at least
      rw [least] at delta
      cases delta
  | some inc =>
      refine ⟨inc, ?_, ?_, ?_⟩
      · simp only [fillRound, bind_eq_ok, unwrap_eq_ok, pure_eq_ok, Prod.exists]
        exact ⟨acc.1, acc.2, run, inc, least, rfl⟩
      · rcases (capped.deltas inc).mp (List.min?_eq_some_iff.mp least).1 with ⟨entry, _, holds⟩
        exact ⟨entry.1, holds⟩
      · intro link isActive
        rcases entries link isActive with ⟨entry, inIndex, rfl⟩
        exact (List.min?_eq_some_iff.mp least).2 _
          ((capped.deltas _).mpr ⟨entry, inIndex, isActive, rfl⟩)

open WaterFilling in
theorem exists_entry {cluster : Cluster} {net : Network FlowRef LinkIx}
    {s : WaterFilling.State FlowRef} {linkFlows : List (LinkIx × FlowSet)} {link : LinkIx}
    (crossing : net.crossing link = (network cluster linkFlows).crossing link)
    (isActive : 0 < active net s link) : ∃ entry ∈ linkFlows, entry.1 = link := by
  rcases active_pos_iff.mp isActive with ⟨f, mem, _⟩
  rw [crossing] at mem
  rcases NetState.exists_of_mem_flowsOn (Multiset.mem_coe.mp mem) with ⟨set, inIndex, _⟩
  exact ⟨_, inIndex, rfl⟩

open WaterFilling in
/-- A round of the loop is a round of progressive filling. -/
theorem fillRound_total {cluster : Cluster} {running : List FlowRef}
    {linkFlows : List (LinkIx × FlowSet)} {arena : Arena} {s : WaterFilling.State FlowRef}
    {level : ℕ} (wired : Wired cluster running linkFlows) (simulates : Simulates running arena s)
    (filled : Filled (network cluster linkFlows) s level)
    (crosses : ∀ ref ∈ running, s.frozen ref = false →
      ∃ link, ref ∈ NetState.flowsOn linkFlows link)
    (fills : ∃ ref ∈ running, s.frozen ref = false) :
    ∃ arena' s', fillRound cluster .perFlowMaxMin running linkFlows arena = .ok arena' ∧
      Fills (network cluster linkFlows) s s' ∧ Simulates running arena' s' := by
  rcases linkDeltas_total wired simulates filled.feasible with ⟨acc, run, capped⟩
  have entries : ∀ link, 0 < active (network cluster linkFlows) s link →
      ∃ entry ∈ linkFlows, entry.1 = link := fun _ isActive => exists_entry rfl isActive
  have onActive : ∀ ref ∈ running, s.frozen ref = false → ∃ link,
      ref ∈ (network cluster linkFlows).crossing link ∧
        0 < active (network cluster linkFlows) s link := by
    intro ref mem isFilling
    rcases crosses ref mem isFilling with ⟨link, onLink⟩
    have inCrossing : ref ∈ (network cluster linkFlows).crossing link := Multiset.mem_coe.mpr onLink
    exact ⟨link, inCrossing, active_pos_iff.mpr ⟨ref, inCrossing, isFilling⟩⟩
  have some : ∃ link, 0 < active (network cluster linkFlows) s link := by
    rcases fills with ⟨ref, mem, isFilling⟩
    rcases onActive ref mem isFilling with ⟨link, _, isActive⟩
    exact ⟨link, isActive⟩
  rcases fillRound_capped run capped entries some with ⟨inc, round, granted, isLeast⟩
  -- a flow that reaches the largest rate leaves nothing on its link
  have full : ∀ ref ∈ running, s.frozen ref = false → u64Max ≤ s.rate ref + inc →
      ∃ link, ref ∈ (network cluster linkFlows).crossing link ∧
        0 < active (network cluster linkFlows) s link ∧
        share (network cluster linkFlows) s link = inc := by
    intro ref mem isFilling high
    rcases onActive ref mem isFilling with ⟨link, inCrossing, isActive⟩
    have part : s.rate ref ≤ load (network cluster linkFlows) s link :=
      Multiset.le_sum_of_mem (Multiset.mem_map_of_mem s.rate inCrossing)
    have granted : share (network cluster linkFlows) s link ≤
        cluster.bandwidth link - load (network cluster linkFlows) s link :=
      Nat.div_le_self _ _
    have small := wired.bandwidth link
    have enough := isLeast link isActive
    exact ⟨link, inCrossing, isActive, by omega⟩
  exact ⟨_, _, round, ⟨inc, raise_round granted isLeast⟩,
    simulates.raise capped wired.nodup full isLeast entries⟩

/-- What the rounds preserve holds when the loop ends. With one iteration for each flow that fills
it ends with every flow converged, if every round makes one converge. -/
theorem fillLoop_ends {cluster : Cluster} {fairness : FairnessModel} {running : List FlowRef}
    {linkFlows : List (LinkIx × FlowSet)} {P : Arena → Prop}
    (round : ∀ arena, P arena → (∃ ref ∈ running, (arena ref).converged = false) →
      ∃ arena', fillRound cluster fairness running linkFlows arena = .ok arena' ∧ P arena' ∧
        (∀ ref ∈ running, (arena ref).converged = true → (arena' ref).converged = true) ∧
        ∃ ref ∈ running, (arena ref).converged = false ∧ (arena' ref).converged = true)
    {arena : Arena} {fuel : ℕ} (start : P arena)
    (enough : (running.filter fun ref => !(arena ref).converged).length < fuel) :
    ∃ arena', fillLoop cluster fairness running linkFlows fuel arena = .ok arena' ∧ P arena' ∧
      ∀ ref ∈ running, (arena' ref).converged = true := by
  induction fuel generalizing arena with
  | zero => omega
  | succ fuel ih =>
      by_cases done : ∀ ref ∈ running, (arena ref).converged = true
      · have all : (running.countP fun ref => (arena ref).converged) = running.length :=
          List.countP_eq_length.mpr done
        exact ⟨arena, by rw [fillLoop, if_neg (by rw [all]; exact Nat.lt_irrefl _)], start, done⟩
      · have goes : (running.countP fun ref => (arena ref).converged) < running.length :=
          lt_of_le_of_ne List.countP_le_length fun same => done (List.countP_eq_length.mp same)
        have fills : ∃ ref ∈ running, (arena ref).converged = false := by simpa using done
        rcases round arena start fills with ⟨middle, run, next, keeps, ref, mem, before, after⟩
        have fewer : (running.filter fun ref => !(middle ref).converged).length <
            (running.filter fun ref => !(arena ref).converged).length := by
          have sub : (running.filter fun ref => !(middle ref).converged).Sublist
              (running.filter fun ref => !(arena ref).converged) := by
            have shrinks := List.filter_sublist (p := fun ref => !(middle ref).converged)
              (l := running.filter fun ref => !(arena ref).converged)
            rw [List.filter_filter] at shrinks
            convert shrinks using 1
            apply List.filter_congr
            intro other otherMem
            cases still : (arena other).converged with
            | true => simp [keeps other otherMem still]
            | false => simp
          apply lt_of_le_of_ne sub.length_le
          intro same
          have inBoth : ref ∈ running.filter fun ref => !(arena ref).converged := by
            simpa [before] using mem
          rw [← sub.eq_of_length same] at inBoth
          simp [after] at inBoth
        rcases ih next (by omega) with ⟨arena', rest, holds, done'⟩
        refine ⟨arena', ?_, holds, done'⟩
        rw [fillLoop, if_pos goes, bind_eq_ok]
        exact ⟨middle, run, rest⟩

open WaterFilling in
/-- With one iteration for each flow that fills, the loop ends with every flow frozen. -/
theorem fillLoop_total {cluster : Cluster} {running : List FlowRef}
    {linkFlows : List (LinkIx × FlowSet)} {arena : Arena} {s : WaterFilling.State FlowRef}
    {level fuel : ℕ} (wired : Wired cluster running linkFlows)
    (simulates : Simulates running arena s) (filled : Filled (network cluster linkFlows) s level)
    (crosses : ∀ ref ∈ running, s.frozen ref = false →
      ∃ link, ref ∈ NetState.flowsOn linkFlows link)
    (enough : (running.filter fun ref => !s.frozen ref).length < fuel) :
    ∃ arena' s', fillLoop cluster .perFlowMaxMin running linkFlows fuel arena = .ok arena' ∧
      Relation.ReflTransGen (Fills (network cluster linkFlows)) s s' ∧
      Simulates running arena' s' ∧ ∀ ref ∈ running, s'.frozen ref = true := by
  have frozen : ∀ {arena s}, Simulates running arena s →
      ∀ ref ∈ running, (arena ref).converged = s.frozen ref := fun simulates => simulates.converged
  have active : (running.filter fun ref => !(arena ref).converged) =
      running.filter fun ref => !s.frozen ref :=
    List.filter_congr fun ref mem => by rw [frozen simulates ref mem]
  have ended : ∃ arena', fillLoop cluster .perFlowMaxMin running linkFlows fuel arena = .ok arena' ∧
      (∃ s' level', Relation.ReflTransGen (Fills (network cluster linkFlows)) s s' ∧
        Simulates running arena' s' ∧ Filled (network cluster linkFlows) s' level') ∧
      ∀ ref ∈ running, (arena' ref).converged = true := by
    refine fillLoop_ends ?_ ⟨s, level, .refl, simulates, filled⟩ (active ▸ enough)
    rintro arena ⟨s', level', fills, simulates', filled'⟩ ⟨ref, mem, isActive⟩
    have crosses' : ∀ ref ∈ running, s'.frozen ref = false →
        ∃ link, ref ∈ NetState.flowsOn linkFlows link := by
      intro ref mem isFilling
      apply crosses ref mem
      cases before : s.frozen ref with
      | true => rw [(frozen_fills fills before).1] at isFilling; cases isFilling
      | false => rfl
    rcases fillRound_total wired simulates' filled' crosses'
        ⟨ref, mem, (frozen simulates' ref mem).symm.trans isActive⟩ with
      ⟨arena', s'', run, ⟨inc, isRound⟩, simulates''⟩
    refine ⟨arena', run, ⟨s'', _, fills.tail ⟨inc, isRound⟩, simulates'', filled'.round isRound⟩,
      ?_, ?_⟩
    · intro other otherMem stays
      rw [frozen simulates' other otherMem] at stays
      rw [frozen simulates'' other otherMem]
      exact (isRound.frozen_of_frozen stays).1
    · rcases isRound.freezes with ⟨link, other, crossing, before, after⟩
      have otherMem := wired.running link other (Multiset.mem_coe.mp crossing)
      exact ⟨other, otherMem, (frozen simulates' other otherMem).trans before,
        (frozen simulates'' other otherMem).trans after⟩
  rcases ended with ⟨arena', run, ⟨s', level', fills, simulates', filled'⟩, done⟩
  exact ⟨arena', s', run, fills, simulates', fun ref mem =>
    (frozen simulates' ref mem).symm.trans (done ref mem)⟩

/-- Before filling a loopback flow has its rate, the others are at rest. -/
def atStart (loopbackSpeed : ℕ) (arena : Arena) : WaterFilling.State FlowRef :=
  ⟨fun ref => if (arena ref).isLoopback then loopbackSpeed else 0, fun ref =>
    (arena ref).isLoopback⟩

theorem follows_reset {limit : FlowRef → ℕ} {running : List FlowRef} {arena : Arena}
    {loopbackSpeed : ℕ} (nodup : running.Nodup)
    (maxRate : ∀ ref ∈ running, (arena ref).maxRate = limit ref) :
    Follows limit running (arena.forEach running (resetFlow loopbackSpeed))
      (atStart loopbackSpeed arena) := by
  have reset : ∀ ref ∈ running,
      (arena.forEach running (resetFlow loopbackSpeed)) ref =
        resetFlow loopbackSpeed (arena ref) := by
    intro ref mem
    rw [Arena.forEach_apply _ _ nodup, if_pos mem]
  refine ⟨?_, ?_, ?_, ?_⟩
  all_goals
    intro ref mem
    rw [reset ref mem, resetFlow]
    cases loopback : (arena ref).isLoopback with
    | true => simp [atStart, loopback, maxRate ref mem]
    | false => simp [atStart, loopback, maxRate ref mem]

theorem simulates_reset {running : List FlowRef} {arena : Arena} {loopbackSpeed : ℕ}
    (nodup : running.Nodup) (maxRate : ∀ ref ∈ running, (arena ref).maxRate = u64Max) :
    Simulates running (arena.forEach running (resetFlow loopbackSpeed))
      (atStart loopbackSpeed arena) :=
  (follows_reset nodup maxRate).simulates

end Filling

/-- What progressive filling promises of the rates. -/
structure NetState.Fair (cluster : Cluster) (loopbackSpeed : ℕ) (state : NetState) : Prop where
  feasible : ∀ link set, (link, set) ∈ state.linkFlows →
    (set.iter.map fun ref => (state.arena ref).speed).sum ≤ cluster.bandwidth link
  loopback : ∀ ref ∈ state.runningFlows, (state.arena ref).route.path = [] →
    (state.arena ref).speed = loopbackSpeed
  /-- Some link on the route is used up to less than one unit for each of its flows, and no
  flow there is faster. -/
  heldBack : ∀ ref ∈ state.runningFlows, (state.arena ref).route.path ≠ [] →
    ∃ link ∈ (state.arena ref).route.path, ∃ set, (link, set) ∈ state.linkFlows ∧
      cluster.bandwidth link - (set.iter.map fun ref => (state.arena ref).speed).sum <
        set.iter.length ∧
      ∀ other ∈ set.iter, (state.arena other).speed ≤ (state.arena ref).speed
  /-- With a unit for each flow on each link, and for loopback flows, all flows move. -/
  moving : (∀ link set, (link, set) ∈ state.linkFlows →
    set.iter.length ≤ cluster.bandwidth link) → ∀ ref ∈ state.runningFlows,
      ((state.arena ref).route.path = [] → 0 < loopbackSpeed) → 0 < (state.arena ref).speed ∧
        ∃ remaining, (state.arena ref).timeToComplete = .ok remaining

namespace Simulator

/-- The running flows are indexed, none has a limit of its own, and all bandwidths fit a
signed word. -/
structure Fillable (sim : Simulator) : Prop where
  indexed : sim.state.Indexed
  nodup : sim.state.runningFlows.Nodup
  perFlow : sim.setting.fairness = .perFlowMaxMin
  maxRate : ∀ ref ∈ sim.state.runningFlows, (sim.state.arena ref).maxRate = u64Max
  bandwidth : ∀ link, sim.cluster.bandwidth link < 2 ^ 63

/-- The running flows are indexed, none has a limit of its own, and all bandwidths fit a word. -/
structure Allocatable (sim : Simulator) : Prop where
  indexed : sim.state.Indexed
  nodup : sim.state.runningFlows.Nodup
  perFlow : sim.setting.fairness = .perFlowMaxMin
  maxRate : ∀ ref ∈ sim.state.runningFlows, (sim.state.arena ref).maxRate = u64Max
  bandwidth : ∀ link, sim.cluster.bandwidth link ≤ u64Max

variable {platform : Platform} {sim sim' : Simulator}

theorem Fillable.allocatable (fillable : sim.Fillable) : sim.Allocatable where
  indexed := fillable.indexed
  nodup := fillable.nodup
  perFlow := fillable.perFlow
  maxRate := fillable.maxRate
  bandwidth link := (Nat.le_of_lt (fillable.bandwidth link)).trans (by decide)

theorem Allocatable.wired (allocatable : sim.Allocatable) :
    Filling.Wired sim.cluster sim.state.runningFlows sim.state.linkFlows where
  nodup := allocatable.nodup
  filed := allocatable.indexed.filed
  running _ _ mem := (allocatable.indexed.mem_flowsOn.mp mem).1
  bandwidth := allocatable.bandwidth

theorem Allocatable.begins (allocatable : sim.Allocatable) :
    WaterFilling.Begins (Filling.network sim.cluster sim.state.linkFlows)
      (Filling.atStart sim.setting.loopbackSpeed sim.state.arena) where
  fills link ref mem := by
    have onPath := (allocatable.indexed.mem_flowsOn.mp (Multiset.mem_coe.mp mem)).2
    simpa [Filling.atStart, FlowState.isLoopback] using List.ne_nil_of_mem onPath
  atRest ref fills := by
    simp only [Filling.atStart] at fills ⊢
    rw [fills]
    rfl

/-- Filling succeeds and is an end of progressive filling. -/
theorem Allocatable.converge (allocatable : sim.Allocatable)
    (enough : sim.state.runningFlows.length < platform.fuel) :
    ∃ arena s', sim.maxMinFairnessConverge platform =
        .ok { sim with state := { sim.state with arena := arena } } ∧
      Relation.ReflTransGen (WaterFilling.Fills (Filling.network sim.cluster sim.state.linkFlows))
        (Filling.atStart sim.setting.loopbackSpeed sim.state.arena) s' ∧
      Filling.Simulates sim.state.runningFlows arena s' ∧
      ∀ ref ∈ sim.state.runningFlows, s'.frozen ref = true := by
  have crosses : ∀ ref ∈ sim.state.runningFlows,
      (Filling.atStart sim.setting.loopbackSpeed sim.state.arena).frozen ref = false →
      ∃ link, ref ∈ NetState.flowsOn sim.state.linkFlows link := by
    intro ref mem fills
    simp only [Filling.atStart, FlowState.isLoopback, List.isEmpty_eq_false_iff] at fills
    rcases List.exists_mem_of_ne_nil _ fills with ⟨link, onPath⟩
    exact ⟨link, allocatable.indexed.mem_flowsOn.mpr ⟨mem, onPath⟩⟩
  rcases Filling.fillLoop_total allocatable.wired
      (Filling.simulates_reset allocatable.nodup allocatable.maxRate)
      allocatable.begins.filled crosses
      (lt_of_le_of_lt (List.length_filter_le _ _) enough) with
    ⟨arena, s', filled, fills, simulates, done⟩
  refine ⟨arena, s', ?_, fills, simulates, done⟩
  simp only [maxMinFairnessConverge, bind_eq_ok, pure_eq_ok, allocatable.perFlow]
  exact ⟨arena, filled, rfl⟩

theorem Allocatable.fair {arena : Arena} {s' : WaterFilling.State FlowRef}
    (allocatable : sim.Allocatable)
    (core : ∀ ref, (arena ref).core = (sim.state.arena ref).core)
    (fills : Relation.ReflTransGen
      (WaterFilling.Fills (Filling.network sim.cluster sim.state.linkFlows))
      (Filling.atStart sim.setting.loopbackSpeed sim.state.arena) s')
    (simulates : Filling.Simulates sim.state.runningFlows arena s')
    (done : ∀ ref ∈ sim.state.runningFlows, s'.frozen ref = true) :
    NetState.Fair sim.cluster sim.setting.loopbackSpeed { sim.state with arena := arena } := by
  have path : ∀ ref, (arena ref).route.path = (sim.state.arena ref).route.path := by
    intro ref
    simpa using congrArg (fun f : FlowState => f.route.path) (core ref)
  have filed := allocatable.indexed.filed
  have sums : ∀ link set, (link, set) ∈ sim.state.linkFlows →
      (set.iter.map fun ref => (arena ref).speed).sum =
        (WaterFilling.load (Filling.network sim.cluster sim.state.linkFlows) s' link : ℚ) := by
    intro link set mem
    have onLink := filed.flowsOn_eq mem
    refine Filling.sum_speed (congrArg _ onLink) fun ref inSet => ?_
    exact simulates.speed ref (allocatable.indexed.mem_flowsOn.mp (onLink ▸ inSet)).1
  have lengths : ∀ link set, (link, set) ∈ sim.state.linkFlows → set.iter.length =
      Multiset.card ((Filling.network sim.cluster sim.state.linkFlows).crossing link) := by
    intro link set mem
    rw [← filed.flowsOn_eq mem]
    rfl
  rcases WaterFilling.Filled.fills ⟨0, allocatable.begins.filled⟩ fills with ⟨level, filled⟩
  have linked : ∀ ref ∈ sim.state.runningFlows, (arena ref).route.path ≠ [] → ∃ link,
      ref ∈ (Filling.network sim.cluster sim.state.linkFlows).crossing link := by
    intro ref mem nonempty
    rw [path] at nonempty
    rcases List.exists_mem_of_ne_nil _ nonempty with ⟨link, onPath⟩
    exact ⟨link, Multiset.mem_coe.mpr (allocatable.indexed.mem_flowsOn.mpr ⟨mem, onPath⟩)⟩
  have loopbacks : ∀ ref ∈ sim.state.runningFlows, (arena ref).route.path = [] →
      (arena ref).speed = sim.setting.loopbackSpeed := by
    intro ref mem empty
    rw [path] at empty
    have loopback : (sim.state.arena ref).isLoopback = true := by simp [FlowState.isLoopback, empty]
    rw [simulates.speed ref mem, (WaterFilling.frozen_fills fills loopback).2, Filling.atStart]
    simp [loopback]
  refine ⟨?_, loopbacks, ?_, ?_⟩
  · intro link set mem
    rw [sums link set mem]
    exact_mod_cast filled.feasible link
  · intro ref mem nonempty
    rcases linked ref mem nonempty with ⟨link, crosses⟩
    rcases filled.heldBack link ref crosses (done ref mem) with ⟨tight, onTight, used, slower⟩
    have inFlows := allocatable.indexed.mem_flowsOn.mp (Multiset.mem_coe.mp onTight)
    rcases NetState.exists_of_mem_flowsOn (Multiset.mem_coe.mp onTight) with ⟨set, inIndex, _⟩
    refine ⟨tight, by rw [path]; exact inFlows.2, set, inIndex, ?_, ?_⟩
    · rw [sums tight set inIndex, lengths tight set inIndex, sub_lt_iff_lt_add']
      exact_mod_cast used
    · intro other inSet
      have onLink : other ∈ NetState.flowsOn sim.state.linkFlows tight := by
        rw [filed.flowsOn_eq inIndex]
        exact inSet
      have isRunning := (allocatable.indexed.mem_flowsOn.mp onLink).1
      dsimp only
      rw [simulates.speed other isRunning, simulates.speed ref mem]
      exact_mod_cast (slower other (Multiset.mem_coe.mpr onLink)).2
  · intro ample ref mem loopbackMoves
    have moves : 0 < (arena ref).speed := by
      by_cases empty : (arena ref).route.path = []
      · rw [loopbacks ref mem empty]
        exact_mod_cast loopbackMoves empty
      · rcases linked ref mem empty with ⟨link, crosses⟩
        have units : WaterFilling.Ample (Filling.network sim.cluster sim.state.linkFlows) := by
          intro other
          by_cases used : NetState.flowsOn sim.state.linkFlows other = []
          · simp [Filling.network, used]
          · rcases List.exists_mem_of_ne_nil _ used with ⟨first, onOther⟩
            rcases NetState.exists_of_mem_flowsOn onOther with ⟨set, inIndex, _⟩
            rw [← lengths other set inIndex]
            exact ample other set inIndex
        have moving := allocatable.begins.moving.fills units fills
        rw [simulates.speed ref mem]
        exact_mod_cast moving.frozen link ref crosses (done ref mem)
    refine ⟨moves, (arena ref).remainingTime, ?_⟩
    simp only [FlowState.timeToComplete, bind_eq_ok, assert_eq_ok, pure_eq_ok]
    exact ⟨⟨⟩, moves, trivial⟩

/-- Two simulators with the same flows in another order. -/
structure Reordered (sim sim' : Simulator) : Prop where
  cluster : sim'.cluster = sim.cluster
  setting : sim'.setting = sim.setting
  running : sim'.state.runningFlows.Perm sim.state.runningFlows
  arena : sim'.state.arena = sim.state.arena

/-- Reordered simulators fill the same network. -/
theorem Reordered.network (reordered : Reordered sim sim') (indexed : sim.state.Indexed)
    (indexed' : sim'.state.Indexed) :
    Filling.network sim'.cluster sim'.state.linkFlows =
      Filling.network sim.cluster sim.state.linkFlows := by
  have crossing : ∀ link, (NetState.flowsOn sim'.state.linkFlows link).Perm
      (NetState.flowsOn sim.state.linkFlows link) := by
    intro link
    apply List.perm_iff_count.mpr
    intro ref
    rw [indexed.counts, indexed'.counts, reordered.arena]
    simp only [reordered.running.mem_iff]
  unfold Filling.network
  rw [reordered.cluster]
  congr 1
  funext link
  exact Multiset.coe_eq_coe.mpr (crossing link)

/-- Filling ends with rates that are max-min fair up to one unit for each flow on a link, and
that do not depend on the order of the flows and links. -/
theorem maxMinFairnessConverge_fair (fillable : sim.Fillable)
    (enough : sim.state.runningFlows.length < platform.fuel) : ∃ arena,
    sim.maxMinFairnessConverge platform =
        .ok { sim with state := { sim.state with arena := arena } } ∧
      NetState.Fair sim.cluster sim.setting.loopbackSpeed { sim.state with arena := arena } ∧
      ∀ platform' : Platform, ∀ sim' : Simulator, Reordered sim sim' → sim'.state.Indexed →
        sim'.state.runningFlows.length < platform'.fuel → ∃ arena',
          sim'.maxMinFairnessConverge platform' =
              .ok { sim' with state := { sim'.state with arena := arena' } } ∧
            ∀ ref ∈ sim.state.runningFlows, (arena' ref).speed = (arena ref).speed := by
  rcases fillable.allocatable.converge enough with ⟨arena, s, run, fills, simulates, frozen⟩
  refine ⟨arena, run, ?_, ?_⟩
  · rcases maxMinFairnessConverge_eq_ok run with ⟨other, same, core⟩
    have equal : arena = other := congrArg (fun sim : Simulator => sim.state.arena) same
    exact fillable.allocatable.fair (equal ▸ core) fills simulates frozen
  · intro platform' sim' reordered indexed' enough'
    have fillable' : sim'.Fillable :=
      ⟨indexed', reordered.running.nodup_iff.mpr fillable.nodup,
        reordered.setting ▸ fillable.perFlow,
        fun ref mem => reordered.arena ▸ fillable.maxRate ref (reordered.running.mem_iff.mp mem),
        reordered.cluster ▸ fillable.bandwidth⟩
    rcases fillable'.allocatable.converge enough' with
      ⟨arena', s', run', fills', simulates', frozen'⟩
    rw [reordered.network fillable.indexed indexed', reordered.setting, reordered.arena] at fills'
    have same : s' = s := by
      apply WaterFilling.done_unique fills' fills
      · intro link
        rw [WaterFilling.active, Multiset.countP_eq_zero]
        intro ref crosses
        have mem := fillable.allocatable.wired.running link ref (Multiset.mem_coe.mp crosses)
        simp [frozen' ref (reordered.running.mem_iff.mpr mem)]
      · intro link
        rw [WaterFilling.active, Multiset.countP_eq_zero]
        intro ref crosses
        simp [frozen ref (fillable.allocatable.wired.running link ref
          (Multiset.mem_coe.mp crosses))]
    refine ⟨arena', run', fun ref mem => ?_⟩
    rw [simulates'.speed ref (reordered.running.mem_iff.mpr mem), simulates.speed ref mem, same]

/-- Arrivals and steps lead to simulators that can be filled. -/
theorem fillable_of_reached {inputs : List Input}
    (reached : Runs.Reached Initial (Step platform) inputs sim)
    (distinct : ((arrivals inputs).map (·.flow.id)).Nodup)
    (perFlow : sim.setting.fairness = .perFlowMaxMin)
    (bandwidth : ∀ link, sim.cluster.bandwidth link < 2 ^ 63) : sim.Fillable := by
  rcases represented_of_reached reached distinct with ⟨represented, holds⟩
  refine ⟨represented.kept.indexed, represented.kept.ledger.running_nodup, perFlow, ?_, bandwidth⟩
  intro ref mem
  exact holds.maxRate ref (represented.kept.ledger.running_lt mem)

theorem bandwidth_lt_of_pair {cluster : Cluster} (links : cluster.links = Cluster.pair.links)
    (link : LinkIx) : cluster.bandwidth link < 2 ^ 63 := by
  have bound : ∀ link : Link, link ∈ Cluster.pair.links → link.bandwidth < 2 ^ 63 := by decide
  rw [Cluster.bandwidth, links]
  cases known : Cluster.pair.links[link]? with
  | none => simp
  | some found => exact bound found (List.mem_of_getElem? known)

/-- Two flows on one link, and one between a host and itself. -/
def threeFlows : List Input :=
  [.onEvent (.flowArrive [⟨0, { id := 0, bytes := 2000, src := "left", dst := "right" }, none⟩,
    ⟨0, { id := 1, bytes := 1000, src := "left", dst := "right" }, none⟩,
    ⟨0, { id := 2, bytes := 500, src := "left", dst := "left" }, none⟩])]

theorem maxMinFairnessConverge_fair_threeFlows : ∃ sim,
    Runs.Reached Initial (Step (.inOrder 20)) threeFlows sim ∧ sim.state.runningFlows = [0, 1, 2] ∧
      ∃ arena, sim.maxMinFairnessConverge (.inOrder 20) =
          .ok { sim with state := { sim.state with arena := arena } } ∧
        NetState.Fair sim.cluster sim.setting.loopbackSpeed { sim.state with arena := arena } := by
  have read : (threeFlows.foldlM (perform (.inOrder 20)) (build .pair {} none)).toOption.map
      (fun sim => (sim.cluster.links, sim.setting.fairness, sim.state.runningFlows)) =
        some (Cluster.pair.links, .perFlowMaxMin, [0, 1, 2]) := by
    decide +kernel
  rcases exists_ok_of_reading read with ⟨sim, run, reading⟩
  simp only [Prod.mk.injEq] at reading
  rcases reading with ⟨links, perFlow, running⟩
  have reached : Runs.Reached Initial (Step (.inOrder 20)) threeFlows sim :=
    Runs.reached_of_foldlM id ⟨_, _, _, rfl⟩ run
  have enough : sim.state.runningFlows.length < (Platform.inOrder 20).fuel := by
    rw [running]
    decide
  rcases maxMinFairnessConverge_fair (fillable_of_reached reached (by decide) perFlow
    (bandwidth_lt_of_pair links)) enough with ⟨arena, converge, fair, _⟩
  exact ⟨sim, reached, running, arena, converge, fair⟩

/-- A flow between a host and itself. -/
def loopbackFlow : List Input :=
  [.onEvent (.flowArrive [⟨0, { id := 0, bytes := 500, src := "left", dst := "left" }, none⟩])]

/-- Where the loopback speed is set to zero a flow stands still, though no link is used. -/
theorem at_rest_of_loopbackFlow : ∃ sim sim' : Simulator,
    Runs.Reached Initial (Step (.inOrder 20)) loopbackFlow sim ∧ sim.Fillable ∧
      (∀ link set, (link, set) ∈ sim.state.linkFlows →
        set.iter.length ≤ sim.cluster.bandwidth link) ∧
      sim.maxMinFairnessConverge (.inOrder 20) = .ok sim' ∧ 0 ∈ sim'.state.runningFlows ∧
      (sim'.state.arena 0).speed = 0 := by
  have read : (do
      let sim ← loopbackFlow.foldlM (perform (.inOrder 20))
        (build .pair { loopbackSpeed := 0 } none)
      let sim' ← sim.maxMinFairnessConverge (.inOrder 20)
      return (sim, sim')).toOption.map (fun result : Simulator × Simulator =>
        (result.1.cluster.links, result.1.setting.fairness, result.1.state.linkFlows.isEmpty,
          result.2.state.runningFlows, (result.2.state.arena 0).speed)) =
        some (Cluster.pair.links, .perFlowMaxMin, true, [0], 0) := by
    decide +kernel
  rcases exists_ok_of_reading read with ⟨⟨sim, sim'⟩, run, reading⟩
  simp only [bind_eq_ok, pure_eq_ok, Prod.mk.injEq] at run reading
  rcases run with ⟨sim, arrive, sim', converge, rfl, rfl⟩
  rcases reading with ⟨links, perFlow, unused, running, rest⟩
  have reached : Runs.Reached Initial (Step (.inOrder 20)) loopbackFlow sim :=
    Runs.reached_of_foldlM id ⟨_, _, _, rfl⟩ arrive
  refine ⟨sim, sim', reached,
    fillable_of_reached reached (by decide) perFlow (bandwidth_lt_of_pair links), ?_, converge, ?_,
    rest⟩
  · intro link set mem
    rw [List.isEmpty_iff.mp unused] at mem
    cases mem
  · rw [running]
    exact List.mem_singleton_self 0

end Simulator

end Phantora.Netsim
