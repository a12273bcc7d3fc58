import Phantora.Netsim.Simulator

/-!
# What filling leaves alone

Mutations of the arena, `retain`, and the frame of progressive filling: it
changes only the rates of a flow state and keeps its `core`.
-/

namespace Phantora.Netsim

open Outcome

namespace FlowState

/-- A flow state without its rates. -/
def core (f : FlowState) : FlowState :=
  { f with speedBound := 0, converged := false, speed := 0 }

/-- A flow state as it was when the flow arrived. -/
def fresh (f : FlowState) : FlowState :=
  { f.core with bytesSent := 0, speedHistory := [] }

theorem fresh_eq_of_core_eq {f g : FlowState} (same : f.core = g.core) : f.fresh = g.fresh := by
  simp only [fresh, same]

@[simp]
theorem core_ts (f : FlowState) : f.core.ts = f.ts := rfl

@[simp]
theorem core_flow (f : FlowState) : f.core.flow = f.flow := rfl

@[simp]
theorem core_route (f : FlowState) : f.core.route = f.route := rfl

@[simp]
theorem core_bytesSent (f : FlowState) : f.core.bytesSent = f.bytesSent := rfl

@[simp]
theorem core_speedHistory (f : FlowState) : f.core.speedHistory = f.speedHistory := rfl

@[simp]
theorem fresh_ts (f : FlowState) : f.fresh.ts = f.ts := rfl

@[simp]
theorem fresh_flow (f : FlowState) : f.fresh.flow = f.flow := rfl

@[simp]
theorem fresh_route (f : FlowState) : f.fresh.route = f.route := rfl

@[simp]
theorem fresh_maxRate (f : FlowState) : f.fresh.maxRate = f.maxRate := rfl

@[simp]
theorem fresh_advance (simTs : Timestamp) (tsInc : Duration) (f : FlowState) :
    (f.advance simTs tsInc).fresh = f.fresh := rfl

@[simp]
theorem fresh_retire (endTs : Timestamp) (f : FlowState) : (f.retire endTs).fresh = f.fresh := rfl

/-- The answer of `completed`, which may fail to give it. -/
def isCompleted (f : FlowState) : Bool :=
  decide ((f.flow.bytes : ℚ) ≤ f.bytesSent) || decide (f.remainingTime = 0)

theorem completed_eq_ok {f : FlowState} {complete : Bool} (run : f.completed = .ok complete) :
    complete = f.isCompleted ∧ (f.isCompleted = false → 0 < f.speed) := by
  unfold completed at run
  by_cases sent : (f.flow.bytes : ℚ) ≤ f.bytesSent
  · rw [if_pos sent, Except.ok.injEq] at run
    simp [isCompleted, sent, ← run]
  · rw [if_neg sent] at run
    simp only [timeToComplete, bind_eq_ok, assert_eq_ok, pure_eq_ok] at run
    rcases run with ⟨remaining, ⟨_, moving, rfl⟩, rfl⟩
    exact ⟨by simp [isCompleted, sent], fun _ => moving⟩

@[simp]
theorem isCompleted_retire (endTs : Timestamp) (f : FlowState) :
    (f.retire endTs).isCompleted = f.isCompleted := rfl

end FlowState

namespace Arena

theorem forEach_apply (arena : Arena) {refs : List FlowRef} (f : FlowState → FlowState)
    (nodup : refs.Nodup) (ref : FlowRef) :
    arena.forEach refs f ref = if ref ∈ refs then f (arena ref) else arena ref := by
  unfold forEach
  induction refs generalizing arena with
  | nil => simp
  | cons head refs ih =>
      rw [List.nodup_cons] at nodup
      rw [List.foldl_cons, ih _ nodup.2]
      by_cases same : ref = head
      · subst ref
        simp [modify, nodup.1]
      · simp [modify, same]

/-- Mutations that keep a reading of a flow state keep it all over the arena. -/
theorem forEach_reading {γ : Type} (reading : FlowState → γ) {f : FlowState → FlowState}
    (keeps : ∀ state, reading (f state) = reading state) (arena : Arena) (refs : List FlowRef)
    (ref : FlowRef) : reading (arena.forEach refs f ref) = reading (arena ref) := by
  unfold forEach
  induction refs generalizing arena with
  | nil => rfl
  | cons head refs ih =>
      rw [List.foldl_cons, ih]
      by_cases same : ref = head
      · subst ref
        simp [modify, keeps]
      · simp [modify, same]

end Arena

theorem retainM_eq_ok {keep : FlowRef → Except Panic Bool} {kept : FlowRef → Bool}
    {refs out : List FlowRef} (answers : ∀ ref ∈ refs, ∀ b, keep ref = .ok b → b = kept ref)
    (run : retainM keep refs = .ok out) : out = refs.filter kept := by
  induction refs generalizing out with
  | nil =>
      simp only [retainM, Except.ok.injEq] at run
      simp [← run]
  | cons ref refs ih =>
      simp only [retainM, bind_eq_ok, pure_eq_ok] at run
      rcases run with ⟨b, first, rest, later, rfl⟩
      have same := answers ref List.mem_cons_self b first
      have tail := ih (fun other mem => answers other (List.mem_cons_of_mem ref mem)) later
      rw [List.filter_cons, ← same, ← tail]

namespace Filling

open FlowState

@[simp]
theorem core_capFlow (inc : ℕ) (f : FlowState) : (capFlow inc f).core = f.core := rfl

theorem core_calcDeltaPerFlow {totalBw : ℕ} {flows : List FlowRef} {arena arena' : Arena}
    {delta : ℕ} (run : calcDeltaPerFlow totalBw flows arena = .ok (delta, arena'))
    (ref : FlowRef) : (arena' ref).core = (arena ref).core := by
  simp only [calcDeltaPerFlow, bind_eq_ok, assert_eq_ok, pure_eq_ok, Prod.mk.injEq] at run
  rcases run with ⟨_, _, _, rfl⟩
  exact Arena.forEach_reading core (core_capFlow _) _ _ _

theorem core_boundGroup {bwInc : ℕ} {groups : List (List FlowRef)} {acc acc' : ℕ × Arena}
    (run : groups.foldl (boundGroup bwInc) acc = acc') (ref : FlowRef) :
    (acc'.2 ref).core = (acc.2 ref).core := by
  induction groups generalizing acc with
  | nil => rw [← run, List.foldl_nil]
  | cons group groups ih =>
      rw [List.foldl_cons] at run
      rw [ih run]
      unfold boundGroup
      by_cases none_active : numActiveFlows acc.2 group = 0
      · simp [none_active]
      · simp only [none_active, if_false]
        exact Arena.forEach_reading core (core_capFlow _) _ _ _

theorem core_calcDeltaOnGroup {totalBw : ℕ} {groups : List (List FlowRef)} {arena arena' : Arena}
    {delta : ℕ} (run : calcDeltaOnGroup totalBw groups arena = .ok (delta, arena'))
    (ref : FlowRef) : (arena' ref).core = (arena ref).core := by
  simp only [calcDeltaOnGroup, bind_eq_ok, pure_eq_ok] at run
  rcases run with ⟨_, _, _, _, result⟩
  exact core_boundGroup result ref

theorem core_calcDelta {fairness : FairnessModel} {bandwidth : ℕ} {flows : FlowSet}
    {arena arena' : Arena} {delta : ℕ}
    (run : calcDelta fairness bandwidth flows arena = .ok (delta, arena')) (ref : FlowRef) :
    (arena' ref).core = (arena ref).core := by
  cases fairness with
  | perFlowMaxMin => exact core_calcDeltaPerFlow run ref
  | perVmPairMaxMin =>
      cases flows with
      | flat flows => simp [calcDelta, calcDeltaGroupped] at run
      | groupByVmPair groups => exact core_calcDeltaOnGroup run ref
      | groupByTenant groups => exact core_calcDeltaOnGroup run ref
  | tenantFlowMaxMin =>
      cases flows with
      | flat flows => simp [calcDelta, calcDeltaGroupped] at run
      | groupByVmPair groups => exact core_calcDeltaOnGroup run ref
      | groupByTenant groups => exact core_calcDeltaOnGroup run ref

theorem core_linkDeltas {cluster : Cluster} {fairness : FairnessModel} {acc acc' : List ℕ × Arena}
    {entry : LinkIx × FlowSet} (run : linkDeltas cluster fairness acc entry = .ok acc')
    (ref : FlowRef) : (acc'.2 ref).core = (acc.2 ref).core := by
  simp only [linkDeltas] at run
  split at run
  · simp only [bind_eq_ok, assert_eq_ok, pure_eq_ok, Prod.exists] at run
    rcases run with ⟨_, _, delta, arena, step, rfl⟩
    exact core_calcDelta step ref
  · simp only [pure_eq_ok] at run
    rw [← run]

theorem core_raiseFlow (speedInc : ℚ) (f : FlowState) : (raiseFlow speedInc f).core = f.core := by
  unfold raiseFlow
  split
  · rfl
  · split <;> rfl

theorem core_resetFlow (loopbackSpeed : ℕ) (f : FlowState) :
    (resetFlow loopbackSpeed f).core = f.core := by
  unfold resetFlow
  split <;> rfl

theorem core_fillRound {cluster : Cluster} {fairness : FairnessModel} {running : List FlowRef}
    {linkFlows : List (LinkIx × FlowSet)} {arena arena' : Arena}
    (run : fillRound cluster fairness running linkFlows arena = .ok arena') (ref : FlowRef) :
    (arena' ref).core = (arena ref).core := by
  simp only [fillRound, bind_eq_ok, pure_eq_ok, Prod.exists] at run
  rcases run with ⟨deltas, middle, links, bw, _, rfl⟩
  rw [Arena.forEach_reading core (core_raiseFlow _)]
  exact foldlM_invariant (fun acc => (acc.2 ref).core = (arena ref).core)
    (fun _ same step => (core_linkDeltas step ref).trans same) rfl links

theorem core_fillLoop {cluster : Cluster} {fairness : FairnessModel} {running : List FlowRef}
    {linkFlows : List (LinkIx × FlowSet)} {fuel : ℕ} {arena arena' : Arena}
    (run : fillLoop cluster fairness running linkFlows fuel arena = .ok arena') (ref : FlowRef) :
    (arena' ref).core = (arena ref).core := by
  induction fuel generalizing arena with
  | zero => simp [fillLoop] at run
  | succ fuel ih =>
      simp only [fillLoop] at run
      split at run
      · simp only [bind_eq_ok] at run
        rcases run with ⟨middle, round, rest⟩
        exact (ih rest).trans (core_fillRound round ref)
      · simp only [Except.ok.injEq] at run
        rw [run]

end Filling

end Phantora.Netsim
