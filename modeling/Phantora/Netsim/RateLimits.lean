import Phantora.Netsim.MaxMin

/-!
# Rate limits

A flow is meant to stop at its `max_rate`, as it stops where a link grants no
more. A round of the code looks at the limits of the flows that have stopped
already instead, and lets a link grant no more than one of those lacks. The
rates respect the limits exactly if every round is still a round of the filling
in which each flow has a link of its own, with its limit for a bandwidth.
-/

namespace Phantora.Netsim

open Outcome

/-- The rates respect the limits of the flows. -/
structure NetState.RateLimited (cluster : Cluster) (state : NetState) : Prop where
  within : ∀ ref ∈ state.runningFlows, (state.arena ref).route.path ≠ [] →
    (state.arena ref).speed ≤ (state.arena ref).maxRate
  /-- Some link on the route of a flow below its limit is used up to less than one unit for each
  flow that is as fast as this one, and no flow there is faster. -/
  heldBack : ∀ ref ∈ state.runningFlows, (state.arena ref).route.path ≠ [] →
    (state.arena ref).speed < (state.arena ref).maxRate →
    ∃ link ∈ (state.arena ref).route.path, ∃ set, (link, set) ∈ state.linkFlows ∧
      cluster.bandwidth link < (set.iter.map fun other => (state.arena other).speed).sum +
        (set.iter.countP fun other => (state.arena other).speed = (state.arena ref).speed : ℕ) ∧
      ∀ other ∈ set.iter, (state.arena other).speed ≤ (state.arena ref).speed
  /-- No flow fails the assertion that completion makes. -/
  asserted : ∀ ref ∈ state.runningFlows, ∀ simTs tsInc compFlows,
    advanceFlow simTs tsInc (state, compFlows) ref ≠ .error .speedOverMaxRate

theorem FlowState.completed_ne_over {f : FlowState} : f.completed ≠ .error .speedOverMaxRate := by
  simp only [FlowState.completed, FlowState.timeToComplete]
  split
  · simp
  · simp

theorem advanceFlow_ne_over_iff {state : NetState} {compFlows : List TraceRecord}
    {simTs : Timestamp} {tsInc : Duration} {ref : FlowRef} :
    NetState.advanceFlow simTs tsInc (state, compFlows) ref ≠ .error .speedOverMaxRate ↔
      (state.arena ref).speed ≤ (state.arena ref).maxRate + 10 := by
  simp only [NetState.advanceFlow, Ne, bind_eq_error, assert_eq_error, and_true, not_or, not_not]
  constructor
  · exact fun holds => holds.1
  · intro within
    refine ⟨within, ?_⟩
    rintro ⟨_, _, failed | ⟨complete, _, failed⟩⟩
    · exact FlowState.completed_ne_over failed
    · split at failed
      · simp at failed
      · simp at failed

namespace Filling

/-- A flow that has converged is left alone, the others are not slowed down. -/
structure Keeps (arena arena' : Arena) (ref : FlowRef) : Prop where
  converged : (arena ref).converged = true →
    (arena' ref).converged = true ∧ (arena' ref).speed = (arena ref).speed
  speed : (arena ref).speed ≤ (arena' ref).speed

theorem Keeps.refl (arena : Arena) (ref : FlowRef) : Keeps arena arena ref :=
  ⟨fun stopped => ⟨stopped, rfl⟩, le_rfl⟩

theorem Keeps.trans {arena middle arena' : Arena} {ref : FlowRef} (first : Keeps arena middle ref)
    (second : Keeps middle arena' ref) : Keeps arena arena' ref where
  converged stopped := by
    rcases first.converged stopped with ⟨stays, same⟩
    rcases second.converged stays with ⟨last, same'⟩
    exact ⟨last, same'.trans same⟩
  speed := first.speed.trans second.speed

theorem Keeps.forEach {refs : List FlowRef} {f : FlowState → FlowState} {arena : Arena}
    {ref : FlowRef} (each : ∀ state : FlowState, ((state.converged = true →
      (f state).converged = true ∧ (f state).speed = state.speed) ∧
        state.speed ≤ (f state).speed)) :
    Keeps arena (arena.forEach refs f) ref := by
  unfold Arena.forEach
  induction refs generalizing arena with
  | nil => exact Keeps.refl arena ref
  | cons head refs ih =>
      refine Keeps.trans ?_ ih
      unfold Arena.modify
      by_cases same : ref = head
      · subst same
        exact ⟨by simpa using (each (arena ref)).1, by simpa using (each (arena ref)).2⟩
      · exact ⟨by simp [same], by simp [same]⟩

theorem Keeps.linkDeltas {cluster : Cluster} {linkFlows : List (LinkIx × FlowSet)}
    {arena : Arena} {acc : List ℕ × Arena} {ref : FlowRef}
    (run : linkFlows.foldlM (linkDeltas cluster .perFlowMaxMin) ([], arena) = .ok acc) :
    Keeps arena acc.2 ref := by
  refine foldlM_invariant (fun acc : List ℕ × Arena => Keeps arena acc.2 ref) ?_
    (Keeps.refl arena ref) run
  rintro ⟨deltas, before⟩ entry ⟨deltas', after⟩ _ keeps step
  simp only [Filling.linkDeltas] at step
  split at step
  · simp only [bind_eq_ok, assert_eq_ok, calcDelta, calcDeltaPerFlow, pure_eq_ok, Prod.exists,
      Prod.mk.injEq] at step
    rcases step with ⟨_, _, delta, middle, ⟨_, _, _, rfl⟩, _, rfl⟩
    exact keeps.trans (Keeps.forEach fun state => ⟨fun stopped => ⟨stopped, rfl⟩, le_rfl⟩)
  · simp only [pure_eq_ok, Prod.mk.injEq] at step
    exact step.2 ▸ keeps

theorem Keeps.fillRound {cluster : Cluster} {running : List FlowRef}
    {linkFlows : List (LinkIx × FlowSet)} {arena arena' : Arena} {ref : FlowRef}
    (run : fillRound cluster .perFlowMaxMin running linkFlows arena = .ok arena') :
    Keeps arena arena' ref := by
  simp only [Filling.fillRound, bind_eq_ok, unwrap_eq_ok, pure_eq_ok, Prod.exists] at run
  rcases run with ⟨deltas, middle, links, bw, _, rfl⟩
  refine (Keeps.linkDeltas links).trans (Keeps.forEach fun state => ?_)
  rw [raiseFlow]
  split
  · rename_i stopped
    exact ⟨fun _ => ⟨stopped, rfl⟩, le_rfl⟩
  · rename_i goes
    have faster : state.speed ≤ state.speed + (bw : ℚ) :=
      le_add_of_nonneg_right (Nat.cast_nonneg bw)
    split
    · exact ⟨fun stopped => absurd stopped goes, faster⟩
    · exact ⟨fun stopped => absurd stopped goes, faster⟩

theorem Keeps.fillLoop {cluster : Cluster} {running : List FlowRef}
    {linkFlows : List (LinkIx × FlowSet)} {fuel : ℕ} {arena arena' : Arena} {ref : FlowRef}
    (run : fillLoop cluster .perFlowMaxMin running linkFlows fuel arena = .ok arena') :
    Keeps arena arena' ref := by
  induction fuel generalizing arena with
  | zero => cases run
  | succ fuel ih =>
      simp only [Filling.fillLoop] at run
      split at run
      · rw [bind_eq_ok] at run
        rcases run with ⟨middle, round, rest⟩
        exact (Keeps.fillRound round).trans (ih rest)
      · cases run
        exact Keeps.refl _ ref

section Passes

variable {cluster : Cluster} {limit : FlowRef → ℕ} {running : List FlowRef}
  {linkFlows : List (LinkIx × FlowSet)} {arena : Arena} {s s' : WaterFilling.State FlowRef}
  {inc : ℕ}

open WaterFilling

/-- What a link grants each of its flows in a round of the code. -/
def grant (cluster : Cluster) (linkFlows : List (LinkIx × FlowSet)) (limit : FlowRef → ℕ)
    (s : WaterFilling.State FlowRef) (link : LinkIx) : ℕ :=
  min (share (network cluster linkFlows) s link)
    (spare limit s (NetState.flowsOn linkFlows link))

/-- A round of the code. -/
structure Pass (cluster : Cluster) (linkFlows : List (LinkIx × FlowSet)) (limit : FlowRef → ℕ)
    (inc : ℕ) (s s' : WaterFilling.State FlowRef) : Prop where
  granted : ∃ link, 0 < active (network cluster linkFlows) s link ∧
    grant cluster linkFlows limit s link = inc
  least : ∀ link, 0 < active (network cluster linkFlows) s link →
    inc ≤ grant cluster linkFlows limit s link
  rate : ∀ ref, s'.rate ref = if s.frozen ref then s.rate ref else s.rate ref + inc
  frozen : ∀ ref, s'.frozen ref = true ↔ s.frozen ref = true ∨ limit ref ≤ s.rate ref + inc ∨
    ∃ link, ref ∈ (network cluster linkFlows).crossing link ∧
      0 < active (network cluster linkFlows) s link ∧ grant cluster linkFlows limit s link = inc

/-- The network in which a round of the code is a round of filling: each link can just carry what
it grants. -/
def granting (cluster : Cluster) (linkFlows : List (LinkIx × FlowSet)) (limit : FlowRef → ℕ)
    (s : WaterFilling.State FlowRef) : Network FlowRef LinkIx where
  capacity link := load (network cluster linkFlows) s link +
    active (network cluster linkFlows) s link * grant cluster linkFlows limit s link
  crossing := (network cluster linkFlows).crossing

theorem share_granting {link : LinkIx} (isActive : 0 < active (network cluster linkFlows) s link) :
    share (granting cluster linkFlows limit s) s link = grant cluster linkFlows limit s link := by
  change (load (network cluster linkFlows) s link +
      active (network cluster linkFlows) s link * grant cluster linkFlows limit s link -
    load (network cluster linkFlows) s link) / active (network cluster linkFlows) s link = _
  rw [Nat.add_sub_cancel_left, Nat.mul_div_cancel_left _ isActive]

/-- A round of the loop succeeds while no flow is far above its limit. -/
theorem fillRound_pass (wired : Wired cluster running linkFlows)
    (follows : Follows limit running arena s) (small : ∀ ref ∈ running, limit ref ≤ u64Max)
    (notOver : ∀ link, ∀ ref ∈ NetState.flowsOn linkFlows link, s.rate ref ≤ limit ref + 10)
    (feasible : ∀ link, load (network cluster linkFlows) s link ≤ cluster.bandwidth link)
    (fills : ∃ link, 0 < active (network cluster linkFlows) s link) : ∃ arena' inc s',
    fillRound cluster .perFlowMaxMin running linkFlows arena = .ok arena' ∧
      Pass cluster linkFlows limit inc s s' ∧ Follows limit running arena' s' := by
  classical
  have links : ∃ acc, linkFlows.foldlM (Filling.linkDeltas cluster .perFlowMaxMin) ([], arena) =
      .ok acc ∧ Capped (granting cluster linkFlows limit s) s arena linkFlows acc := by
    refine linkDeltas_capped wired (fun _ => rfl) follows ?_
    intro link flows middle onLink isActive isRunning same
    have crosses : (network cluster linkFlows).crossing link = (flows : Multiset FlowRef) :=
      congrArg _ onLink
    rw [share_granting isActive, grant, onLink]
    refine calcDeltaPerFlow_eq_min crosses ?_ ?_ ?_
      (fun ref mem => small ref (isRunning ref mem))
      (fun ref mem => notOver link ref (onLink ▸ mem))
      (wired.bandwidth link) (feasible link) isActive
    · intro ref inFlows
      rw [same]
      exact follows.speed ref (isRunning ref inFlows)
    · intro ref inFlows
      rw [same]
      exact follows.converged ref (isRunning ref inFlows)
    · intro ref inFlows
      rw [same]
      exact follows.maxRate ref (isRunning ref inFlows)
  rcases links with ⟨acc, run, capped⟩
  have entries : ∀ link, 0 < active (network cluster linkFlows) s link →
      ∃ entry ∈ linkFlows, entry.1 = link := fun _ isActive => exists_entry rfl isActive
  rcases fillRound_capped run capped entries fills with ⟨inc, round, granted, least⟩
  have same : ∀ link, 0 < active (network cluster linkFlows) s link →
      (share (granting cluster linkFlows limit s) s link = inc ↔
        grant cluster linkFlows limit s link = inc) := by
    intro link isActive
    rw [share_granting isActive]
  have least' : ∀ link, 0 < active (network cluster linkFlows) s link →
      inc ≤ grant cluster linkFlows limit s link := by
    intro link isActive
    have le := least link isActive
    rwa [share_granting isActive] at le
  let s' : WaterFilling.State FlowRef :=
    ⟨fun ref => if s.frozen ref then s.rate ref else s.rate ref + inc, fun ref =>
      decide (s.frozen ref = true ∨ limit ref ≤ s.rate ref + inc ∨
        ∃ link, ref ∈ (network cluster linkFlows).crossing link ∧
          0 < active (network cluster linkFlows) s link ∧
          grant cluster linkFlows limit s link = inc)⟩
  have pass : Pass cluster linkFlows limit inc s s' := by
    rcases granted with ⟨link, isActive, isInc⟩
    exact ⟨⟨link, isActive, (same link isActive).mp isInc⟩, least', fun _ => rfl, fun _ =>
      decide_eq_true_iff⟩
  refine ⟨_, inc, s', round, pass,
    follows.raise capped wired.nodup least entries (fun ref _ => pass.rate ref) ?_⟩
  intro ref _
  rw [pass.frozen]
  apply or_congr_right
  apply or_congr_right
  apply exists_congr
  intro link
  apply and_congr_right
  intro _
  apply and_congr_right
  intro isActive
  exact (same link isActive).symm

/-- The network in which the flows that fill have their limits as links of their own. -/
abbrev limitedNetwork (cluster : Cluster) (linkFlows : List (LinkIx × FlowSet))
    (limit : FlowRef → ℕ) (toFill : FlowRef → Bool) : Network FlowRef (LinkIx ⊕ FlowRef) :=
  limited (network cluster linkFlows) limit toFill

/-- The code takes a round of the intended filling: some link that is still filling grants just
the increase, or has a stopped flow that lacks just that to its limit; no such link has one that
lacks less, and where one lacks just that, the flows of the link stop in the round. -/
structure Agrees (net : Network FlowRef (LinkIx ⊕ FlowRef)) (limit : FlowRef → ℕ) (inc : ℕ)
    (s s' : WaterFilling.State FlowRef) : Prop where
  granted : ∃ link, 0 < active net s (.inl link) ∧ (share net s (.inl link) = inc ∨
    ∃ ref ∈ net.crossing (.inl link), s.frozen ref = true ∧ limit ref = s.rate ref + inc)
  room : ∀ link, 0 < active net s (.inl link) → ∀ ref ∈ net.crossing (.inl link),
    s.frozen ref = true → s.rate ref + inc ≤ limit ref
  stops : ∀ link, 0 < active net s (.inl link) → ∀ ref ∈ net.crossing (.inl link),
    s.frozen ref = true → limit ref = s.rate ref + inc →
      ∀ other ∈ net.crossing (.inl link), s'.frozen other = true

/-- What the rates of the end have to satisfy. -/
structure Respected (cluster : Cluster) (linkFlows : List (LinkIx × FlowSet))
    (limit : FlowRef → ℕ) (toFill : FlowRef → Bool) (last : FlowRef → ℚ) : Prop where
  within : ∀ ref, toFill ref = true → last ref ≤ limit ref
  heldBack : ∀ ref, toFill ref = true → last ref < limit ref → ∃ link,
    ref ∈ NetState.flowsOn linkFlows link ∧
      cluster.bandwidth link < ((NetState.flowsOn linkFlows link).map last).sum +
        ((NetState.flowsOn linkFlows link).countP fun other => last other = last ref : ℕ) ∧
      ∀ other ∈ NetState.flowsOn linkFlows link, last other ≤ last ref

/-- The flows to fill are running and on a link, all flows on links are to be filled, and no other
flow that runs still fills. -/
structure Meant (running : List FlowRef) (linkFlows : List (LinkIx × FlowSet))
    (toFill : FlowRef → Bool) (s : WaterFilling.State FlowRef) : Prop where
  known : ∀ ref, toFill ref = true → ref ∈ running
  crosses : ∀ ref, toFill ref = true → ∃ link, ref ∈ NetState.flowsOn linkFlows link
  linked : ∀ link, ∀ ref ∈ NetState.flowsOn linkFlows link, toFill ref = true
  going : ∀ ref ∈ running, s.frozen ref = false → toFill ref = true

variable {toFill : FlowRef → Bool} {t : WaterFilling.State FlowRef} {level inc' : ℕ}

/-- A stopped flow of a link lacks to its limit just what the link grants, or the link grants its
share. -/
theorem grant_eq_iff (wired : Wired cluster running linkFlows)
    (rates : ∀ link, ∀ ref ∈ NetState.flowsOn linkFlows link, s.rate ref ≤ limit ref)
    {link : LinkIx}
    (least : inc ≤ grant cluster linkFlows limit s link) :
    grant cluster linkFlows limit s link = inc ↔
      share (network cluster linkFlows) s link = inc ∨
        ∃ ref ∈ (network cluster linkFlows).crossing link, s.frozen ref = true ∧
          limit ref = s.rate ref + inc := by
  have shareLow : share (network cluster linkFlows) s link ≤ u64Max :=
    ((Nat.div_le_self _ _).trans (Nat.sub_le _ _)).trans (wired.bandwidth link)
  rcases Nat.le_min.mp least with ⟨leShare, leSpare⟩
  have each := (le_spare_iff (leShare.trans shareLow)).mp leSpare
  constructor
  · intro isInc
    by_contra neither
    rw [not_or] at neither
    have moreShare : inc + 1 ≤ share (network cluster linkFlows) s link :=
      lt_of_le_of_ne leShare (Ne.symm neither.1)
    have moreSpare : inc + 1 ≤ spare limit s (NetState.flowsOn linkFlows link) := by
      rw [le_spare_iff (moreShare.trans shareLow)]
      intro ref mem frozen
      refine lt_of_le_of_ne (each ref mem frozen) fun equal => neither.2 ?_
      have low := rates link ref mem
      exact ⟨ref, Multiset.mem_coe.mpr mem, frozen, by omega⟩
    have more := Nat.le_min.mpr ⟨moreShare, moreSpare⟩
    rw [grant] at isInc
    omega
  · rintro (isShare | ⟨ref, mem, frozen, lacks⟩)
    · exact Nat.le_antisymm (isShare ▸ Nat.min_le_left _ _) least
    · refine Nat.le_antisymm ?_ least
      rcases Nat.eq_zero_or_pos (grant cluster linkFlows limit s link) with none | _
      · omega
      · have low : spare limit s (NetState.flowsOn linkFlows link) ≤ limit ref - s.rate ref := by
          have small : spare limit s (NetState.flowsOn linkFlows link) ≤ u64Max :=
            (le_foldl_min_iff.mp le_rfl).1
          exact (le_spare_iff small).mp le_rfl ref (Multiset.mem_coe.mp mem) frozen
        have le := (Nat.min_le_right (share (network cluster linkFlows) s link) _).trans low
        rw [grant]
        omega

/-- Where a round of the filling is one that the code takes, the code takes it. -/
theorem Agrees.follows
    (agrees : Agrees (limitedNetwork cluster linkFlows limit toFill) limit inc s t)
    (wired : Wired cluster running linkFlows) (meant : Meant running linkFlows toFill s)
    (filled : Filled (limitedNetwork cluster linkFlows limit toFill) s level)
    (round : Round (limitedNetwork cluster linkFlows limit toFill) inc s t)
    (pass : Pass cluster linkFlows limit inc' s s') (moved : Follows limit running arena s') :
    Follows limit running arena t := by
  have rates : ∀ link, ∀ ref ∈ NetState.flowsOn linkFlows link, s.rate ref ≤ limit ref :=
    fun link ref mem => filled.rate_le_limit (meant.linked link ref mem)
  have least : ∀ link, 0 < active (network cluster linkFlows) s link →
      inc ≤ grant cluster linkFlows limit s link := by
    intro link isActive
    have leShare := round.least (.inl link) isActive
    have small : inc ≤ u64Max := leShare.trans
      (((Nat.div_le_self _ _).trans (Nat.sub_le _ _)).trans (wired.bandwidth link))
    refine Nat.le_min.mpr ⟨leShare, (le_spare_iff small).mpr fun ref mem frozen => ?_⟩
    have room := agrees.room link isActive ref (Multiset.mem_coe.mpr mem) frozen
    omega
  have same : inc' = inc := by
    apply Nat.le_antisymm
    · rcases agrees.granted with ⟨link, isActive, grants⟩
      exact ((grant_eq_iff wired rates (least link isActive)).mpr grants) ▸ pass.least link isActive
    · rcases pass.granted with ⟨link, isActive, isInc⟩
      exact isInc ▸ least link isActive
  subst same
  have rate : s'.rate = t.rate := by
    funext ref
    rw [pass.rate, round.rate]
  have frozen : ∀ ref ∈ running, s'.frozen ref = t.frozen ref := by
    intro ref mem
    rw [Bool.eq_iff_iff, pass.frozen, round.frozen]
    cases stopped : s.frozen ref with
    | true => simp
    | false =>
        have filling := meant.going ref mem stopped
        apply or_congr_right
        have isFilling : 0 < active (limitedNetwork cluster linkFlows limit toFill) s (.inr ref) :=
          active_inr.mpr ⟨filling, stopped⟩
        have own : share (limitedNetwork cluster linkFlows limit toFill) s (.inr ref) =
            limit ref - s.rate ref := share_inr filling stopped
        have low := filled.rate_le_limit filling
        constructor
        · rintro (high | ⟨link, crosses, isActive, isInc⟩)
          · have le := round.least (.inr ref) isFilling
            exact ⟨.inr ref, mem_crossing_inr.mpr ⟨filling, rfl⟩, isFilling, by omega⟩
          · rcases (grant_eq_iff wired rates (least link isActive)).mp isInc with
              isShare | ⟨other, mem', frozen, lacks⟩
            · exact ⟨.inl link, crosses, isActive, isShare⟩
            · have stops := agrees.stops link isActive other mem' frozen lacks ref crosses
              rcases (round.frozen ref).mp stops with before | granted
              · rw [stopped] at before
                cases before
              · exact granted
        · rintro ⟨link | other, crosses, isActive, isShare⟩
          · refine Or.inr ⟨link, crosses, isActive, ?_⟩
            exact (grant_eq_iff wired rates (least link isActive)).mpr (Or.inl isShare)
          · rcases mem_crossing_inr.mp crosses with ⟨_, rfl⟩
            exact Or.inl (by omega)
  refine ⟨?_, ?_, ?_, moved.maxRate⟩
  · exact fun ref mem => rate ▸ moved.speed ref mem
  · exact fun ref mem => (moved.converged ref mem).trans (frozen ref mem)
  · exact fun ref mem goesOn => moved.bound ref mem ((frozen ref mem).trans goesOn)

/-- A flow below its limit does not end at a rate that its links could all raise. -/
theorem Respected.not_early {last : FlowRef → ℚ} {ref : FlowRef}
    (respected : Respected cluster linkFlows limit toFill last)
    (meant : Meant running linkFlows toFill s)
    (leveled : Leveled (limitedNetwork cluster linkFlows limit toFill) s level)
    (filling : toFill ref = true) (goesOn : s.frozen ref = false)
    (stays : ∀ other, toFill other = true → s.frozen other = true → last other = s.rate other)
    (rises : ∀ other, toFill other = true → s.frozen other = false →
      ((level + inc : ℕ) : ℚ) ≤ last other)
    (stopped : last ref = (level + inc : ℕ)) (below : level + inc < limit ref) :
    ¬∀ link, ref ∈ NetState.flowsOn linkFlows link →
      inc < share (network cluster linkFlows) s link := by
  intro more
  have under : last ref < limit ref := by
    rw [stopped]
    exact_mod_cast below
  rcases respected.heldBack ref filling under with ⟨link, onLink, used, slower⟩
  let raised : WaterFilling.State FlowRef :=
    ⟨fun other => if s.frozen other then s.rate other else s.rate other + inc, s.frozen⟩
  have rates : ∀ other ∈ NetState.flowsOn linkFlows link, last other = raised.rate other := by
    intro other mem
    have filling' := meant.linked link other mem
    cases frozen : s.frozen other with
    | true => simpa [raised, frozen] using stays other filling' frozen
    | false =>
        have level' := leveled.filled.atLevel other frozen
        have equal : last other = (level + inc : ℕ) :=
          le_antisymm (stopped ▸ slower other mem) (rises other filling' frozen)
        simpa [raised, frozen, level'] using equal
  have isActive : 0 < active (network cluster linkFlows) s link :=
    active_pos_iff.mpr ⟨ref, Multiset.mem_coe.mpr onLink, goesOn⟩
  have room : load (network cluster linkFlows) raised link +
      (NetState.flowsOn linkFlows link).countP (fun other => raised.rate other = level + inc) ≤
        cluster.bandwidth link := by
    have rate : ∀ other ∈ (limitedNetwork cluster linkFlows limit toFill).crossing (.inl link),
        raised.rate other = if s.frozen other then s.rate other else s.rate other + inc :=
      fun _ _ => rfl
    have isActive' : 0 < active (limitedNetwork cluster linkFlows limit toFill) s (.inl link) :=
      isActive
    exact leveled.roomy.room leveled.filled isActive' (more link onLink) rate
  have sum : ((NetState.flowsOn linkFlows link).map last).sum =
      (load (network cluster linkFlows) raised link : ℚ) := sum_speed rfl rates
  have count : (NetState.flowsOn linkFlows link).countP (fun other => last other = last ref) =
      (NetState.flowsOn linkFlows link).countP fun other => raised.rate other = level + inc := by
    apply List.countP_congr
    intro other mem
    rw [decide_eq_true_iff, decide_eq_true_iff, rates other mem, stopped]
    exact Nat.cast_inj
  rw [sum, count] at used
  have less : cluster.bandwidth link < load (network cluster linkFlows) raised link +
      (NetState.flowsOn linkFlows link).countP fun other => raised.rate other = level + inc := by
    exact_mod_cast used
  exact absurd room (Nat.not_le.mpr less)

/-- If the rates of the end respect the limits, then the code takes the round. -/
theorem Respected.agrees {last : FlowRef → ℚ}
    (respected : Respected cluster linkFlows limit toFill last)
    (wired : Wired cluster running linkFlows) (meant : Meant running linkFlows toFill s)
    (leveled : Leveled (limitedNetwork cluster linkFlows limit toFill) s level)
    (round : Round (limitedNetwork cluster linkFlows limit toFill) inc s t)
    (pass : Pass cluster linkFlows limit inc' s s')
    (stays : ∀ ref, toFill ref = true → s'.frozen ref = true → last ref = s'.rate ref)
    (rises : ∀ ref, toFill ref = true → (s'.rate ref : ℚ) ≤ last ref) :
    Agrees (limitedNetwork cluster linkFlows limit toFill) limit inc s t := by
  have rates : ∀ link, ∀ ref ∈ NetState.flowsOn linkFlows link, s.rate ref ≤ limit ref :=
    fun link ref mem => leveled.filled.rate_le_limit (meant.linked link ref mem)
  have rated : ∀ ref, s.frozen ref = false → s'.rate ref = level + inc' := by
    intro ref goesOn
    rw [pass.rate, if_neg (by simp [goesOn]), leveled.filled.atLevel ref goesOn]
  have stood : ∀ ref, toFill ref = true → s.frozen ref = true → last ref = s.rate ref := by
    intro ref filling frozen
    rw [stays ref filling ((pass.frozen ref).mpr (Or.inl frozen)), pass.rate, if_pos frozen]
  have rose : ∀ ref, toFill ref = true → s.frozen ref = false →
      ((level + inc' : ℕ) : ℚ) ≤ last ref := by
    intro ref filling goesOn
    exact rated ref goesOn ▸ rises ref filling
  -- what a flow lacks to its limit, and what its links grant, is at least the increase
  have lacks : ∀ ref, toFill ref = true → s.frozen ref = false → inc ≤ limit ref - level := by
    intro ref filling goesOn
    have le := round.least (.inr ref) (active_inr.mpr ⟨filling, goesOn⟩)
    rwa [share_inr filling goesOn, leveled.filled.atLevel ref goesOn] at le
  have shares : ∀ link ref, ref ∈ NetState.flowsOn linkFlows link → s.frozen ref = false →
      inc ≤ share (network cluster linkFlows) s link := by
    intro link ref onLink goesOn
    exact round.least (.inl link) (active_pos_iff.mpr ⟨ref, Multiset.mem_coe.mpr onLink, goesOn⟩)
  have reaches : ∀ ref, toFill ref = true → s.frozen ref = false → level ≤ limit ref := by
    intro ref filling goesOn
    exact leveled.filled.atLevel ref goesOn ▸ leveled.filled.rate_le_limit filling
  have least : inc' ≤ inc := by
    rcases round.granted with ⟨link | ref, isActive, isInc⟩
    · exact isInc ▸ (pass.least link isActive).trans (Nat.min_le_left _ _)
    · rcases active_inr.mp isActive with ⟨filling, goesOn⟩
      have own : limit ref - s.rate ref = inc := (share_inr filling goesOn).symm.trans isInc
      have reached := reaches ref filling goesOn
      have within : ((level + inc' : ℕ) : ℚ) ≤ limit ref :=
        (rose ref filling goesOn).trans (respected.within ref filling)
      have le : level + inc' ≤ limit ref := by exact_mod_cast within
      rw [leveled.filled.atLevel ref goesOn] at own
      omega
  have most : inc ≤ inc' := by
    by_contra less
    rw [not_le] at less
    rcases pass.granted with ⟨link, isActive, isInc⟩
    rcases active_pos_iff.mp isActive with ⟨ref, crosses, goesOn⟩
    have filling := meant.linked link ref (Multiset.mem_coe.mp crosses)
    have stops := (pass.frozen ref).mpr (Or.inr (Or.inr ⟨link, crosses, isActive, isInc⟩))
    have stopped : last ref = (level + inc' : ℕ) := by
      rw [stays ref filling stops, rated ref goesOn]
    refine respected.not_early meant leveled filling goesOn stood rose stopped ?_
      fun link' onLink' => less.trans_le (shares link' ref onLink' goesOn)
    have lack := lacks ref filling goesOn
    omega
  have same : inc' = inc := Nat.le_antisymm least most
  subst same
  refine ⟨?_, ?_, ?_⟩
  · rcases pass.granted with ⟨link, isActive, isInc⟩
    exact ⟨link, isActive, (grant_eq_iff wired rates (pass.least link isActive)).mp isInc⟩
  · intro link isActive ref crosses frozen
    have low := rates link ref (Multiset.mem_coe.mp crosses)
    rcases Nat.le_min.mp (pass.least link isActive) with ⟨leShare, leSpare⟩
    have small : inc' ≤ u64Max := leShare.trans
      (((Nat.div_le_self _ _).trans (Nat.sub_le _ _)).trans (wired.bandwidth link))
    have room := (le_spare_iff small).mp leSpare ref (Multiset.mem_coe.mp crosses) frozen
    omega
  · intro link isActive ref crosses frozen lack other crosses'
    have isInc := (grant_eq_iff wired rates (pass.least link isActive)).mpr
      (Or.inr ⟨ref, crosses, frozen, lack⟩)
    have filling := meant.linked link other (Multiset.mem_coe.mp crosses')
    by_contra goesOn'
    have goesOn : s.frozen other = false := by
      rw [← Bool.not_eq_true]
      exact fun before => goesOn' (round.frozen_of_frozen before).1
    have stops := (pass.frozen other).mpr (Or.inr (Or.inr ⟨link, crosses', isActive, isInc⟩))
    have stopped : last other = (level + inc' : ℕ) := by
      rw [stays other filling stops, rated other goesOn]
    have beyond : ∀ link', other ∈ (limitedNetwork cluster linkFlows limit toFill).crossing link' →
        0 < active (limitedNetwork cluster linkFlows limit toFill) s link' →
          inc' < share (limitedNetwork cluster linkFlows limit toFill) s link' := by
      intro link' mem isActive'
      refine lt_of_le_of_ne (round.least link' isActive') fun granted => goesOn' ?_
      exact (round.frozen other).mpr (Or.inr ⟨link', mem, isActive', granted.symm⟩)
    refine respected.not_early meant leveled filling goesOn stood rose stopped ?_
      fun link' onLink' =>
      beyond (.inl link') (Multiset.mem_coe.mpr onLink')
        (active_pos_iff.mpr ⟨other, Multiset.mem_coe.mpr onLink', goesOn⟩)
    have own := beyond (.inr other) (mem_crossing_inr.mpr ⟨filling, rfl⟩)
      (active_inr.mpr ⟨filling, goesOn⟩)
    rw [share_inr filling goesOn, leveled.filled.atLevel other goesOn] at own
    omega

variable {start : WaterFilling.State FlowRef} {fuel : ℕ} {last : Arena}

theorem Meant.fills (meant : Meant running linkFlows toFill start)
    (filled : Relation.ReflTransGen
      (Fills (limitedNetwork cluster linkFlows limit toFill)) start s) :
    Meant running linkFlows toFill s where
  known := meant.known
  crosses := meant.crosses
  linked := meant.linked
  going ref mem goesOn := by
    apply meant.going ref mem
    rw [← Bool.not_eq_true] at goesOn ⊢
    exact fun frozen => goesOn (frozen_fills filled frozen).1

/-- A flow that a round of the intended filling stops is running. -/
theorem Meant.freezes (meant : Meant running linkFlows toFill s)
    (round : Round (limitedNetwork cluster linkFlows limit toFill) inc s t) :
    ∃ ref ∈ running, toFill ref = true ∧ s.frozen ref = false ∧ t.frozen ref = true := by
  rcases round.freezes with ⟨link | other, ref, crosses, before, after⟩
  · have filling := meant.linked link ref (Multiset.mem_coe.mp crosses)
    exact ⟨ref, meant.known ref filling, filling, before, after⟩
  · rcases mem_crossing_inr.mp crosses with ⟨filling, rfl⟩
    exact ⟨ref, meant.known ref filling, filling, before, after⟩

theorem Meant.active_link (meant : Meant running linkFlows toFill s) {ref : FlowRef}
    (filling : toFill ref = true) (goesOn : s.frozen ref = false) :
    ∃ link, 0 < active (network cluster linkFlows) s link := by
  rcases meant.crosses ref filling with ⟨link, onLink⟩
  exact ⟨link, active_pos_iff.mpr ⟨ref, Multiset.mem_coe.mpr onLink, goesOn⟩⟩

/-- One round of the code from a state of the intended filling. -/
theorem exists_pass (leveled : Leveled (limitedNetwork cluster linkFlows limit toFill) s level)
    (wired : Wired cluster running linkFlows) (small : ∀ ref ∈ running, limit ref ≤ u64Max)
    (meant : Meant running linkFlows toFill s) (follows : Follows limit running arena s)
    (active : ∃ link, 0 < active (network cluster linkFlows) s link) : ∃ arena' inc s',
    fillRound cluster .perFlowMaxMin running linkFlows arena = .ok arena' ∧
      Pass cluster linkFlows limit inc s s' ∧ Follows limit running arena' s' := by
  refine fillRound_pass wired follows small ?_
    (fun link => leveled.filled.feasible (.inl link)) active
  intro link ref mem
  exact (leveled.filled.rate_le_limit (meant.linked link ref mem)).trans (Nat.le_add_right _ _)

/-- If the rates of the end respect the limits, then the code takes the next round, and the rest of
its run goes on from there. -/
theorem Respected.step (respected : Respected cluster linkFlows limit toFill fun ref =>
      (last ref).speed) (wired : Wired cluster running linkFlows)
    (small : ∀ ref ∈ running, limit ref ≤ u64Max) (meant : Meant running linkFlows toFill s)
    (leveled : Leveled (limitedNetwork cluster linkFlows limit toFill) s level)
    (follows : Follows limit running arena s)
    (run : fillLoop cluster .perFlowMaxMin running linkFlows fuel arena = .ok last)
    (round : Round (limitedNetwork cluster linkFlows limit toFill) inc s t) :
    Agrees (limitedNetwork cluster linkFlows limit toFill) limit inc s t ∧ ∃ arena' fuel',
      Follows limit running arena' t ∧
        fillLoop cluster .perFlowMaxMin running linkFlows fuel' arena' = .ok last := by
  rcases meant.freezes round with ⟨ref, mem, filling, goesOn, _⟩
  have goes : (running.countP fun ref => (arena ref).converged) < running.length := by
    refine lt_of_le_of_ne List.countP_le_length fun all => ?_
    have converged := List.countP_eq_length.mp all ref mem
    rw [follows.converged ref mem, goesOn] at converged
    cases converged
  cases fuel with
  | zero => cases run
  | succ fuel =>
      rw [fillLoop, if_pos goes, bind_eq_ok] at run
      rcases run with ⟨middle, first, rest⟩
      rcases exists_pass leveled wired small meant follows (meant.active_link filling goesOn) with
        ⟨arena', inc', s', isFirst, pass, moved⟩
      rw [first, Except.ok.injEq] at isFirst
      subst isFirst
      have keeps : ∀ ref, Keeps middle last ref := fun ref => Keeps.fillLoop rest
      have agrees := respected.agrees wired meant leveled round pass
        (fun ref filling frozen => by
          have isRunning := meant.known ref filling
          have stopped := (moved.converged ref isRunning).trans frozen
          rw [((keeps ref).converged stopped).2, moved.speed ref isRunning])
        (fun ref filling => moved.speed ref (meant.known ref filling) ▸ (keeps ref).speed)
      exact ⟨agrees, middle, fuel, agrees.follows wired meant leveled.filled round pass moved, rest⟩

/-- If the rates of the end respect the limits, then the code takes every round. -/
theorem Respected.rounds (respected : Respected cluster linkFlows limit toFill fun ref =>
      (last ref).speed) (wired : Wired cluster running linkFlows)
    (small : ∀ ref ∈ running, limit ref ≤ u64Max) (meant : Meant running linkFlows toFill start)
    (begins : Begins (limitedNetwork cluster linkFlows limit toFill) start)
    (follows : Follows limit running arena start)
    (run : fillLoop cluster .perFlowMaxMin running linkFlows fuel arena = .ok last)
    (filled : Relation.ReflTransGen (Fills (limitedNetwork cluster linkFlows limit toFill)) start s)
    (round : Round (limitedNetwork cluster linkFlows limit toFill) inc s t) :
    Agrees (limitedNetwork cluster linkFlows limit toFill) limit inc s t := by
  have here : ∃ arena fuel, Follows limit running arena s ∧
      fillLoop cluster .perFlowMaxMin running linkFlows fuel arena = .ok last := by
    clear round
    induction filled with
    | refl => exact ⟨arena, fuel, follows, run⟩
    | tail before lastRound ih =>
        rcases ih with ⟨arena, fuel, follows, run⟩
        rcases lastRound with ⟨inc, round⟩
        rcases Leveled.fills ⟨0, begins.leveled⟩ before with ⟨level, leveled⟩
        exact (respected.step wired small (meant.fills before) leveled follows run round).2
  rcases here with ⟨arena, fuel, follows, run⟩
  rcases Leveled.fills ⟨0, begins.leveled⟩ filled with ⟨level, leveled⟩
  exact (respected.step wired small (meant.fills filled) leveled follows run round).1

/-- If the code takes every round of the intended filling, then it comes to its end. -/
theorem fillLoop_agreeing (wired : Wired cluster running linkFlows)
    (small : ∀ ref ∈ running, limit ref ≤ u64Max) (meant : Meant running linkFlows toFill start)
    (begins : Begins (limitedNetwork cluster linkFlows limit toFill) start)
    (agrees : ∀ s t inc,
      Relation.ReflTransGen (Fills (limitedNetwork cluster linkFlows limit toFill)) start s →
      Round (limitedNetwork cluster linkFlows limit toFill) inc s t →
        Agrees (limitedNetwork cluster linkFlows limit toFill) limit inc s t)
    (follows : Follows limit running arena start) (enough : running.length < fuel) :
    ∃ last s, fillLoop cluster .perFlowMaxMin running linkFlows fuel arena = .ok last ∧
      Relation.ReflTransGen (Fills (limitedNetwork cluster linkFlows limit toFill)) start s ∧
      Follows limit running last s ∧ ∀ ref ∈ running, s.frozen ref = true := by
  have ended : ∃ last, fillLoop cluster .perFlowMaxMin running linkFlows fuel arena = .ok last ∧
      (∃ s, Relation.ReflTransGen (Fills (limitedNetwork cluster linkFlows limit toFill)) start s ∧
        Follows limit running last s) ∧ ∀ ref ∈ running, (last ref).converged = true := by
    refine fillLoop_ends ?_ ⟨start, .refl, follows⟩
      (lt_of_le_of_lt (List.length_filter_le _ _) enough)
    rintro arena ⟨s, filled, follows'⟩ ⟨ref, mem, goesOn⟩
    rw [follows'.converged ref mem] at goesOn
    have meant' := meant.fills filled
    rcases meant'.active_link (meant'.going ref mem goesOn) goesOn with ⟨link, isActive⟩
    have isActive' : 0 < active (limitedNetwork cluster linkFlows limit toFill) s (.inl link) :=
      isActive
    rcases exists_round isActive' with ⟨inc, t, round⟩
    rcases Leveled.fills ⟨0, begins.leveled⟩ filled with ⟨level, leveled⟩
    rcases exists_pass leveled wired small meant' follows' ⟨link, isActive⟩ with
      ⟨arena', inc', s', run, pass, moved⟩
    have next := (agrees s t inc filled round).follows wired meant' leveled.filled round pass moved
    refine ⟨arena', run, ⟨t, filled.tail ⟨inc, round⟩, next⟩, ?_, ?_⟩
    · exact fun other _ stopped => ((Keeps.fillRound run).converged stopped).1
    · rcases meant'.freezes round with ⟨other, otherMem, _, before, after⟩
      exact ⟨other, otherMem, (follows'.converged other otherMem).trans before,
        (next.converged other otherMem).trans after⟩
  rcases ended with ⟨last, run, ⟨s, filled, follows'⟩, done⟩
  exact ⟨last, s, run, filled, follows', fun ref mem =>
    (follows'.converged ref mem).symm.trans (done ref mem)⟩

/-- The rates at the end of the intended filling respect the limits. -/
theorem respected_of_leveled
    (leveled : Leveled (limitedNetwork cluster linkFlows limit toFill) s level)
    (meant : Meant running linkFlows toFill s) (follows : Follows limit running last s)
    (done : ∀ ref ∈ running, s.frozen ref = true) :
    Respected cluster linkFlows limit toFill fun ref => (last ref).speed := by
  have speed : ∀ ref, toFill ref = true → (last ref).speed = s.rate ref :=
    fun ref filling => follows.speed ref (meant.known ref filling)
  constructor
  · intro ref filling
    rw [speed ref filling]
    exact_mod_cast leveled.filled.rate_le_limit filling
  · intro ref filling below
    rw [speed ref filling, Nat.cast_lt] at below
    rcases leveled.settled (.inr ref) ref (mem_crossing_inr.mpr ⟨filling, rfl⟩)
      (done ref (meant.known ref filling)) with ⟨link | other, _, crosses, used, slower⟩
    · have speeds : ∀ other ∈ NetState.flowsOn linkFlows link, (last other).speed = s.rate other :=
        fun other mem => speed other (meant.linked link other mem)
      refine ⟨link, Multiset.mem_coe.mp crosses, ?_, fun other mem => ?_⟩
      · have sum : ((NetState.flowsOn linkFlows link).map fun other => (last other).speed).sum =
            (load (network cluster linkFlows) s link : ℚ) := sum_speed rfl speeds
        have count : (NetState.flowsOn linkFlows link).countP
              (fun other => (last other).speed = (last ref).speed) =
            (NetState.flowsOn linkFlows link).countP fun other => s.rate other = s.rate ref := by
          apply List.countP_congr
          intro other mem
          rw [decide_eq_true_iff, decide_eq_true_iff, speeds other mem, speed ref filling]
          exact Nat.cast_inj
        rw [sum, count]
        exact_mod_cast used
      · rw [speeds other mem, speed ref filling]
        exact_mod_cast slower other (Multiset.mem_coe.mpr mem)
    · rcases mem_crossing_inr.mp crosses with ⟨_, rfl⟩
      rw [load_inr filling] at used
      have one : Multiset.countP (fun other => s.rate other = s.rate ref)
          ((limitedNetwork cluster linkFlows limit toFill).crossing (.inr ref)) ≤ 1 := by
        refine (Multiset.countP_le_card _ _).trans ?_
        simp [limited, filling]
      have capacity : (limitedNetwork cluster linkFlows limit toFill).capacity (.inr ref) =
          limit ref := rfl
      omega

end Passes

end Filling

namespace Simulator

/-- The running flows are indexed, and all limits and bandwidths fit a word. -/
structure Limitable (sim : Simulator) : Prop where
  indexed : sim.state.Indexed
  nodup : sim.state.runningFlows.Nodup
  perFlow : sim.setting.fairness = .perFlowMaxMin
  maxRate : ∀ ref ∈ sim.state.runningFlows, (sim.state.arena ref).maxRate ≤ u64Max
  bandwidth : ∀ link, sim.cluster.bandwidth link ≤ u64Max

/-- Filling comes to rates that respect the limits, and no assertion about them fails. -/
def KeepsLimits (platform : Platform) (sim : Simulator) : Prop :=
  ∃ arena : Arena, sim.maxMinFairnessConverge platform =
      .ok { sim with state := { sim.state with arena := arena } } ∧
    NetState.RateLimited sim.cluster { sim.state with arena := arena }

/-- The network of the intended filling. -/
abbrev intended (sim : Simulator) : WaterFilling.Network FlowRef (LinkIx ⊕ FlowRef) :=
  Filling.limitedNetwork sim.cluster sim.state.linkFlows (fun ref => (sim.state.arena ref).maxRate)
    fun ref => decide (ref ∈ sim.state.runningFlows) && !(sim.state.arena ref).isLoopback

/-- The code can take every round of the intended filling, and loopback flows are not limited. -/
structure FillsAsIntended (sim : Simulator) : Prop where
  rounds : ∀ s s' inc, Relation.ReflTransGen (WaterFilling.Fills sim.intended)
      (Filling.atStart sim.setting.loopbackSpeed sim.state.arena) s →
    WaterFilling.Round sim.intended inc s s' →
      Filling.Agrees sim.intended (fun ref => (sim.state.arena ref).maxRate) inc s s'
  loopback : ∀ ref ∈ sim.state.runningFlows, (sim.state.arena ref).route.path = [] →
    sim.setting.loopbackSpeed ≤ (sim.state.arena ref).maxRate + 10

variable {platform : Platform} {sim : Simulator}

theorem Limitable.wired (limitable : sim.Limitable) :
    Filling.Wired sim.cluster sim.state.runningFlows sim.state.linkFlows where
  nodup := limitable.nodup
  filed := limitable.indexed.filed
  running _ _ mem := (limitable.indexed.mem_flowsOn.mp mem).1
  bandwidth := limitable.bandwidth

theorem mem_toFill {ref : FlowRef} :
    (decide (ref ∈ sim.state.runningFlows) && !(sim.state.arena ref).isLoopback) = true ↔
      ref ∈ sim.state.runningFlows ∧ (sim.state.arena ref).route.path ≠ [] := by
  simp [FlowState.isLoopback]

theorem Limitable.meant (limitable : sim.Limitable) : Filling.Meant sim.state.runningFlows
    sim.state.linkFlows
    (fun ref => decide (ref ∈ sim.state.runningFlows) && !(sim.state.arena ref).isLoopback)
    (Filling.atStart sim.setting.loopbackSpeed sim.state.arena) where
  known ref filling := (mem_toFill.mp filling).1
  crosses ref filling := by
    rcases mem_toFill.mp filling with ⟨mem, nonempty⟩
    rcases List.exists_mem_of_ne_nil _ nonempty with ⟨link, onPath⟩
    exact ⟨link, limitable.indexed.mem_flowsOn.mpr ⟨mem, onPath⟩⟩
  linked link ref onLink := by
    rcases limitable.indexed.mem_flowsOn.mp onLink with ⟨mem, onPath⟩
    exact mem_toFill.mpr ⟨mem, List.ne_nil_of_mem onPath⟩
  going ref mem goesOn := by
    refine mem_toFill.mpr ⟨mem, ?_⟩
    simpa [Filling.atStart, FlowState.isLoopback] using goesOn

theorem Limitable.begins (limitable : sim.Limitable) : WaterFilling.Begins sim.intended
    (Filling.atStart sim.setting.loopbackSpeed sim.state.arena) where
  fills link ref mem := by
    have filling : ref ∈ sim.state.runningFlows ∧ (sim.state.arena ref).route.path ≠ [] := by
      cases link with
      | inl link => exact mem_toFill.mp (limitable.meant.linked link ref (Multiset.mem_coe.mp mem))
      | inr other =>
          rcases WaterFilling.mem_crossing_inr.mp mem with ⟨filling, rfl⟩
          exact mem_toFill.mp filling
    simpa [Filling.atStart, FlowState.isLoopback] using filling.2
  atRest ref goesOn := by
    simp only [Filling.atStart] at goesOn ⊢
    rw [goesOn]
    rfl

/-- The rates of a state with the flows and links of `sim` are as `Respected` says. -/
theorem Limitable.rateLimited_iff (limitable : sim.Limitable) {arena : Arena}
    (core : ∀ ref, (arena ref).core = (sim.state.arena ref).core)
    (loopbacks : ∀ ref ∈ sim.state.runningFlows, (sim.state.arena ref).route.path = [] →
      (arena ref).speed = sim.setting.loopbackSpeed) :
    NetState.RateLimited sim.cluster { sim.state with arena := arena } ↔
      Filling.Respected sim.cluster sim.state.linkFlows
          (fun ref => (sim.state.arena ref).maxRate)
          (fun ref => decide (ref ∈ sim.state.runningFlows) && !(sim.state.arena ref).isLoopback)
          (fun ref => (arena ref).speed) ∧
        ∀ ref ∈ sim.state.runningFlows, (sim.state.arena ref).route.path = [] →
          sim.setting.loopbackSpeed ≤ (sim.state.arena ref).maxRate + 10 := by
  have path : ∀ ref, (arena ref).route.path = (sim.state.arena ref).route.path := by
    intro ref
    simpa using congrArg (fun f : FlowState => f.route.path) (core ref)
  have maxRate : ∀ ref, (arena ref).maxRate = (sim.state.arena ref).maxRate := by
    intro ref
    have same : (arena ref).core.maxRate = (sim.state.arena ref).core.maxRate := by rw [core ref]
    exact same
  have filed := limitable.indexed.filed
  constructor
  · rintro ⟨within, heldBack, asserted⟩
    refine ⟨⟨?_, ?_⟩, ?_⟩
    · intro ref filling
      rcases mem_toFill.mp filling with ⟨mem, nonempty⟩
      exact maxRate ref ▸ within ref mem (by rwa [path])
    · intro ref filling below
      rcases mem_toFill.mp filling with ⟨mem, nonempty⟩
      rcases heldBack ref mem (by rwa [path]) (by rwa [maxRate]) with
        ⟨link, onPath, set, inIndex, used, slower⟩
      rw [path] at onPath
      have onLink := limitable.indexed.mem_flowsOn.mpr ⟨mem, onPath⟩
      rw [← filed.flowsOn_eq inIndex] at used slower
      exact ⟨link, onLink, used, slower⟩
    · intro ref mem empty
      have holds := advanceFlow_ne_over_iff.mp (asserted ref mem 0 0 [])
      dsimp only at holds
      rw [loopbacks ref mem empty, maxRate] at holds
      exact_mod_cast holds
  · rintro ⟨respected, loopback⟩
    refine ⟨?_, ?_, ?_⟩
    · intro ref mem nonempty
      rw [path] at nonempty
      exact (maxRate ref).symm ▸ respected.within ref (mem_toFill.mpr ⟨mem, nonempty⟩)
    · intro ref mem nonempty below
      rw [path] at nonempty
      rw [maxRate] at below
      rcases respected.heldBack ref (mem_toFill.mpr ⟨mem, nonempty⟩) below with
        ⟨link, onLink, used, slower⟩
      rcases NetState.exists_of_mem_flowsOn onLink with ⟨set, inIndex, _⟩
      rw [filed.flowsOn_eq inIndex] at used slower
      exact ⟨link, by rw [path]; exact (limitable.indexed.mem_flowsOn.mp onLink).2, set, inIndex,
        used, slower⟩
    · intro ref mem simTs tsInc compFlows
      rw [advanceFlow_ne_over_iff]
      dsimp only
      rw [maxRate]
      by_cases empty : (sim.state.arena ref).route.path = []
      · rw [loopbacks ref mem empty]
        exact_mod_cast loopback ref mem empty
      · exact (respected.within ref (mem_toFill.mpr ⟨mem, empty⟩)).trans (by simp)

/-- The rates respect the limits exactly if the code can take every round of the
intended filling. -/
theorem keepsLimits_iff (platform : Platform) (sim : Simulator) (limitable : sim.Limitable)
    (enough : sim.state.runningFlows.length < platform.fuel) :
    sim.KeepsLimits platform ↔ sim.FillsAsIntended := by
  have follows : Filling.Follows (fun ref => (sim.state.arena ref).maxRate) sim.state.runningFlows
      (sim.state.arena.forEach sim.state.runningFlows
        (Filling.resetFlow sim.setting.loopbackSpeed))
      (Filling.atStart sim.setting.loopbackSpeed sim.state.arena) :=
    Filling.follows_reset limitable.nodup fun _ _ => rfl
  have loopbackOf : ∀ ref, (sim.state.arena ref).route.path = [] →
      (sim.state.arena ref).isLoopback = true := by
    intro ref empty
    simp [FlowState.isLoopback, empty]
  constructor
  · rintro ⟨arena, run, limited⟩
    rcases maxMinFairnessConverge_eq_ok run with ⟨other, same, core⟩
    have equal : arena = other := congrArg (fun sim : Simulator => sim.state.arena) same
    subst equal
    simp only [maxMinFairnessConverge, bind_eq_ok, pure_eq_ok, limitable.perFlow] at run
    rcases run with ⟨last, run, isLast⟩
    have equal : last = arena := congrArg (fun sim : Simulator => sim.state.arena) isLast
    subst equal
    have loopbacks : ∀ ref ∈ sim.state.runningFlows, (sim.state.arena ref).route.path = [] →
        (last ref).speed = sim.setting.loopbackSpeed := by
      intro ref mem empty
      have keeps : Filling.Keeps _ last ref := Filling.Keeps.fillLoop run
      have loopback := loopbackOf ref empty
      rw [(keeps.converged ((follows.converged ref mem).trans loopback)).2, follows.speed ref mem]
      simp [Filling.atStart, loopback]
    rcases (limitable.rateLimited_iff core loopbacks).mp limited with ⟨respected, loopback⟩
    refine ⟨fun s s' inc filled round => ?_, loopback⟩
    exact respected.rounds limitable.wired limitable.maxRate limitable.meant limitable.begins
      follows run filled round
  · intro intended
    rcases Filling.fillLoop_agreeing limitable.wired limitable.maxRate limitable.meant
        limitable.begins intended.rounds follows enough with ⟨last, s, run, filled, follows', done⟩
    have run' : sim.maxMinFairnessConverge platform =
        .ok { sim with state := { sim.state with arena := last } } := by
      simp only [maxMinFairnessConverge, bind_eq_ok, pure_eq_ok, limitable.perFlow]
      exact ⟨last, run, rfl⟩
    rcases maxMinFairnessConverge_eq_ok run' with ⟨other, same, core⟩
    have equal : last = other := congrArg (fun sim : Simulator => sim.state.arena) same
    subst equal
    have loopbacks : ∀ ref ∈ sim.state.runningFlows, (sim.state.arena ref).route.path = [] →
        (last ref).speed = sim.setting.loopbackSpeed := by
      intro ref mem empty
      have loopback := loopbackOf ref empty
      rw [follows'.speed ref mem, (WaterFilling.frozen_fills filled loopback).2]
      simp [Filling.atStart, loopback]
    rcases WaterFilling.Leveled.fills ⟨0, limitable.begins.leveled⟩ filled with ⟨level, leveled⟩
    exact ⟨last, run', (limitable.rateLimited_iff core loopbacks).mpr
      ⟨Filling.respected_of_leveled leveled (limitable.meant.fills filled) follows' done,
        intended.loopback⟩⟩

/-- One flow on its way over two links. -/
def oneFlow (maxRate : ℕ) : Simulator where
  cluster := .pair
  state := {
    arena := fun ref => {
      ts := 0
      flow := { id := ref, bytes := 2000, src := "left", dst := "right" }
      maxRate := maxRate
      route := ⟨1, 2, [0, 3]⟩ }
    nextRef := 1
    runningFlows := [0]
    linkFlows := [(0, .flat [0]), (3, .flat [0])] }

theorem limitable_oneFlow {maxRate : ℕ} (small : maxRate ≤ u64Max) :
    (oneFlow maxRate).Limitable where
  indexed := by
    refine ⟨rfl, ⟨(by decide : [0, 3].Nodup), ?_⟩, ?_, rfl⟩
    · intro entry mem
      rcases List.mem_cons.mp mem with rfl | mem
      · exact ⟨[0], rfl, by decide⟩
      · rw [List.mem_singleton.mp mem]
        exact ⟨[0], rfl, by decide⟩
    · intro link ref
      have running : [0].count ref = if ref ∈ [0] then 1 else 0 := by
        split
        · rename_i mem
          exact List.count_eq_one_of_mem (by decide) mem
        · rename_i absent
          exact List.count_eq_zero_of_not_mem absent
      by_cases first : link = 0
      · subst first
        exact running
      · by_cases second : link = 3
        · subst second
          exact running
        · have unused : NetState.flowsOn (oneFlow maxRate).state.linkFlows link = [] :=
            NetState.flowsOn_of_absent (by simp [oneFlow, first, second])
          have offPath : ((oneFlow maxRate).state.arena ref).route.path.count link = 0 :=
            List.count_eq_zero_of_not_mem (by simp [oneFlow, first, second])
          rw [unused, offPath, ite_self]
          rfl
  nodup := List.nodup_singleton 0
  perFlow := rfl
  maxRate _ _ := small
  bandwidth link := (bandwidth_lt_of_pair rfl link).le.trans (by decide)

theorem mem_intended_oneFlow {maxRate : ℕ} {link : LinkIx ⊕ FlowRef} {ref : FlowRef}
    (mem : ref ∈ (oneFlow maxRate).intended.crossing link) :
    ref = 0 ∧ (link = .inl 0 ∨ link = .inl 3 ∨ link = .inr 0) := by
  cases link with
  | inl link =>
      rcases NetState.exists_of_mem_flowsOn (Multiset.mem_coe.mp mem) with ⟨set, inIndex, inSet⟩
      simp only [oneFlow, List.mem_cons, Prod.mk.injEq, List.not_mem_nil, or_false] at inIndex
      rcases inIndex with ⟨rfl, rfl⟩ | ⟨rfl, rfl⟩
      · exact ⟨List.mem_singleton.mp inSet, Or.inl rfl⟩
      · exact ⟨List.mem_singleton.mp inSet, Or.inr (Or.inl rfl)⟩
  | inr other =>
      rcases WaterFilling.mem_crossing_inr.mp mem with ⟨filling, rfl⟩
      have isZero := List.mem_singleton.mp (mem_toFill.mp filling).1
      subst isZero
      exact ⟨rfl, Or.inr (Or.inr rfl)⟩

/-- A flow with a limit at what its links carry needs one round, and the code takes it. -/
theorem fillsAsIntended_oneFlow : (oneFlow 8000000000).FillsAsIntended where
  rounds s s' inc filled round := by
    rcases round.granted with ⟨link, isActive, isInc⟩
    rcases WaterFilling.active_pos_iff.mp isActive with ⟨ref, mem, goesOn⟩
    rcases mem_intended_oneFlow mem with ⟨rfl, isLink⟩
    rcases filled.cases_tail with rfl | ⟨before, _, _, first⟩
    · have full : inc = 8000000000 := by
        rw [← isInc]
        rcases isLink with rfl | rfl | rfl
        · decide
        · decide
        · decide
      refine ⟨⟨0, by decide, Or.inl (by rw [full]; decide)⟩, ?_, ?_⟩
      · intro _ _ _ _ frozen
        cases frozen
      · intro _ _ _ _ frozen
        cases frozen
    · rcases first.freezes with ⟨_, other, mem', _, stopped⟩
      rw [(mem_intended_oneFlow mem').1, goesOn] at stopped
      cases stopped
  loopback ref mem empty := by cases empty

/-- With a limit at what its links carry the flow keeps it. -/
theorem keepsLimits_iff_oneFlow : (oneFlow 8000000000).KeepsLimits (.inOrder 2) :=
  (keepsLimits_iff (.inOrder 2) (oneFlow 8000000000) (limitable_oneFlow (by decide))
    (by decide)).mpr fillsAsIntended_oneFlow

/-- A lower limit is run over. -/
theorem not_keepsLimits_oneFlow : ¬∀ (platform : Platform) (sim : Simulator), sim.Limitable →
    (∀ ref ∈ sim.state.runningFlows, 0 < (sim.state.arena ref).maxRate) →
      sim.state.runningFlows.length < platform.fuel → sim.KeepsLimits platform := by
  intro claimed
  rcases claimed (.inOrder 2) (oneFlow 10) (limitable_oneFlow (by decide))
    (fun _ _ => (by decide : 0 < 10)) (by decide) with ⟨arena, run, limited⟩
  have read : ((oneFlow 10).maxMinFairnessConverge (.inOrder 2)).toOption.map
      (fun sim => ((sim.state.arena 0).speed, (sim.state.arena 0).maxRate,
        (sim.state.arena 0).route.path)) = some (8000000000, 10, [0, 3]) := by
    decide +kernel
  rw [run] at read
  simp only [Except.toOption, Option.map_some, Option.some.injEq, Prod.mk.injEq] at read
  rcases read with ⟨speed, maxRate, path⟩
  have within := limited.within 0 (List.mem_singleton_self 0) (by simp [path])
  simp only [speed, maxRate] at within
  exact absurd within (by norm_num)

end Simulator

end Phantora.Netsim
