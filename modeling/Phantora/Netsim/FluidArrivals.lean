import Phantora.Netsim.FluidSteps

/-!
# Arrivals follow the fluid schedule

Flows that arrive in time start later and change nothing. For flows that arrive
late the network is rolled back to the first of them: the flows that have moved
since give back what they sent, so that the state is again that of the load,
which from there on is the load with the new flows.
-/

namespace Phantora.Netsim

open Outcome Finset

namespace Sends

variable {load : Fluid.Load TraceRecord ℚ} {f f' : FlowState} {record : TraceRecord}
  {ts past : Timestamp}

/-- A flow that has moved gives back what it has sent since `past`. -/
theorem revert (sends : Sends load f record ts) (le : past ≤ ts) (start : load.start record = f.ts)
    (nonneg : 0 ≤ load.sent past record) (run : NetState.revertFlow ts past f = .ok f') :
    Sends load f' record past ∧ (past < f.ts → f'.speedHistory = []) := by
  have moved : ∑ t ∈ Ico past ts, bytesPerNs (speedAt f.speedHistory t) =
      ∑ t ∈ Ico past ts, load.rateAt t record :=
    sum_congr rfl fun t mem => sends.speeds t (mem_Ico.mp mem).2
  have total : f.bytesSent = load.sent past record + ∑ t ∈ Ico past ts, load.rateAt t record := by
    rw [sends.sent, Fluid.Load.sent_eq_add_sum le]
  have notMore : ¬∑ t ∈ Ico past ts, load.rateAt t record > f.bytesSent := by
    rw [total]
    linarith
  have speeds : ∀ t < past,
      bytesPerNs (speedAt (keptHistory past f.speedHistory) t) = load.rateAt t record := by
    intro t before
    rw [speedAt_keptHistory before]
    exact sends.speeds t (before.trans_le le)
  simp only [NetState.revertFlow, NetState.unwindHistory_eq sends.chronicle le, zero_add, moved,
    if_neg notMore, bind_eq_ok, assert_eq_ok] at run
  rcases run with ⟨_, _, run⟩
  split at run
  · rename_i early
    simp only [bind_eq_ok, assert_eq_ok, pure_eq_ok] at run
    rcases run with ⟨_, _, _, empty, rfl⟩
    refine ⟨⟨sends.chronicle.keptHistory past, speeds, ?_⟩, fun _ => empty⟩
    exact (Fluid.Load.sent_eq_zero (start ▸ early)).symm
  · rename_i started
    simp only [pure_eq_ok] at run
    subst run
    refine ⟨⟨sends.chronicle.keptHistory past, speeds, ?_⟩, fun early => absurd early.le started⟩
    dsimp only
    rw [total, add_sub_cancel_right]

/-- A flow that finished before `past` stands still since then. -/
theorem back (sends : Sends load f record ts) (le : past ≤ ts)
    (stopped : f.speedHistory.head? = some ⟨f.endTs, 0⟩)
    (finishes : load.Finishes record f.endTs) (ended : f.endTs ≤ past) :
    Sends load f record past where
  chronicle := by
    refine ⟨sends.chronicle.sorted, ?_⟩
    cases history : f.speedHistory with
    | nil => exact fun _ mem => absurd mem List.not_mem_nil
    | cons last earlier =>
        rw [history] at stopped
        have isLast : last.start = f.endTs :=
          congrArg SpeedHistoryEntry.start (Option.some.inj stopped)
        have sorted := sends.chronicle.sorted
        rw [history, List.pairwise_cons] at sorted
        intro entry mem
        rcases List.mem_cons.mp mem with rfl | mem
        · exact isLast.trans_le ended
        · exact (sorted.1 entry mem).trans (isLast.trans_le ended)
  speeds t before := sends.speeds t (before.trans_le le)
  sent := by
    rw [sends.sent, finishes.sent_eq (ended.trans le), finishes.sent_eq ended]

/-- A flow that the load does not know of and that has not moved. -/
theorem unknown (unknown : record ∉ load.jobs) (history : f.speedHistory = [])
    (bytes : f.bytesSent = 0) : Sends load f record ts where
  chronicle := history ▸ .nil ts
  speeds t before := by
    rw [history, Fluid.Load.rateAt_of_not_mem unknown]
    simp [speedAt, bytesPerNs]
  sent := bytes.trans (Fluid.Load.sent_of_not_mem unknown).symm

end Sends

namespace NetState

/-- Every flow that has moved is reverted. -/
theorem revertFlows_of_mem {simTs pastTs : Timestamp} {running : List FlowRef}
    {arena arena' : Arena} (nodup : running.Nodup) (run : running.foldlM (fun arena ref => do
      let f ← revertFlow simTs pastTs (arena ref)
      return Function.update arena ref f) arena = .ok arena') {ref : FlowRef}
    (mem : ref ∈ running) : revertFlow simTs pastTs (arena ref) = .ok (arena' ref) := by
  have each := foldlM_prefix (P := fun done (arena' : Arena) =>
      (∀ ref ∈ done, revertFlow simTs pastTs (arena ref) = .ok (arena' ref)) ∧
        ∀ ref, ref ∉ done → arena' ref = arena ref) ?step ⟨by simp, by simp⟩ run
  · exact each.1 ref mem
  case step =>
    rintro done other rest middle arena'' ⟨reverted, same⟩ step whole
    simp only [bind_eq_ok, pure_eq_ok] at step
    rcases step with ⟨f, reverts, rfl⟩
    have new : other ∉ done := by
      rw [← whole, List.nodup_append] at nodup
      exact fun old => nodup.2.2 other old other List.mem_cons_self rfl
    rw [same other new] at reverts
    refine ⟨fun ref mem => ?_, fun ref notMem => ?_⟩
    · by_cases equal : ref = other
      · rw [equal, Function.update_self]
        exact reverts
      · rw [Function.update_of_ne equal]
        refine reverted ref ((List.mem_append.mp mem).resolve_right ?_)
        exact fun last => equal (List.mem_singleton.mp last)
    · rw [List.mem_append, not_or, List.mem_singleton] at notMem
      rw [Function.update_of_ne notMem.2]
      exact same ref notMem.1

/-- A rollback reverts the flows that have moved and leaves the others as they are. -/
theorem rollbackTo_arena {state state' : NetState} {simTs pastTs : Timestamp}
    {revived : List FlowRef} (ledger : state.Ledger)
    (run : state.rollbackTo simTs pastTs = .ok (state', revived)) :
    (∀ ref ∈ state.runningFlows ++ revived,
      revertFlow simTs pastTs (state.arena ref) = .ok (state'.arena ref)) ∧
    ∀ ref, ref ∉ state.runningFlows ++ revived → state'.arena ref = state.arena ref := by
  simp only [rollbackTo, bind_eq_ok, pure_eq_ok, Prod.exists, Prod.mk.injEq] at run
  rcases run with ⟨toRunning, retired, revive, middle, emitted, arena, reverted, linkFlows, links,
    final, pushed, rfl, rfl⟩
  rcases emitFlows_eq_ok emitted with ⟨_, _, rfl⟩
  dsimp only at reverted pushed
  have unchanged : final.arena = arena :=
    foldlM_invariant (fun state => state.arena = arena)
      (fun _ same step => (pushFlow_arena step).trans same) rfl pushed
  have nodup := ledger.nodup
  rw [refs, reviveRetired_eq_ok revive, List.append_assoc] at nodup
  have distinct := (List.nodup_append.mp nodup).2.1
  rw [← List.append_assoc] at distinct
  rw [unchanged]
  exact ⟨fun ref mem => revertFlows_of_mem (List.nodup_append.mp distinct).1 reverted mem,
    fun ref notMem => revertFlows_of_not_mem reverted notMem⟩

end NetState

namespace Simulator

variable {base sim sim' : Simulator} {records recs : List TraceRecord} {ref : FlowRef}
  {record : TraceRecord} {past : Timestamp}

/-- The flows of `recs` have joined those of a state, and have not moved. -/
structure Joins (sim : Simulator) (state state' : NetState) (recs : List TraceRecord) : Prop where
  nextRef : state'.nextRef = state.nextRef + recs.length
  retired : state'.retiredFlows = state.retiredFlows
  old : ∀ ref < state.nextRef, state'.arena ref = state.arena ref
  new : ∀ {index : ℕ} {record}, recs[index]? = some record →
    sim.Bears (state'.arena (state.nextRef + index)) record ∧
      (state'.arena (state.nextRef + index)).bytesSent = 0 ∧
      (state'.arena (state.nextRef + index)).speedHistory = []

theorem Joins.refl (sim : Simulator) (state : NetState) : sim.Joins state state [] :=
  ⟨rfl, rfl, fun _ _ => rfl, fun known => by simp at known⟩

theorem Joins.add {state middle state' : NetState} (joins : sim.Joins state middle recs)
    (run : middle.addFlow record sim.cluster sim.ts sim.hostMapping = .ok state') :
    sim.Joins state state' (recs ++ [record]) := by
  rcases NetState.addFlow_eq_ok run with ⟨src, dst, route, isSrc, isDst, isRoute, pushed⟩
  have routed : sim.routeOf record = .ok route := by
    simp only [routeOf, bind_eq_ok]
    exact ⟨src, isSrc, dst, isDst, isRoute⟩
  have path : route.path = sim.pathOf record := (pathOf_of_ok routed).symm
  have arena := NetState.pushFlow_arena pushed
  have frame : state'.nextRef = middle.nextRef + 1 ∧
      state'.retiredFlows = middle.retiredFlows := by
    rcases NetState.pushFlow_eq_ok pushed with ⟨_, rfl⟩ | ⟨_, emitted⟩
    · exact ⟨rfl, rfl⟩
    · rcases NetState.emitFlow_eq_ok emitted with ⟨_, _, _, rfl⟩
      exact ⟨rfl, rfl⟩
  have before : ∀ ref < middle.nextRef, state'.arena ref = middle.arena ref := by
    intro ref lt
    rw [arena]
    exact Function.update_of_ne lt.ne _ _
  refine ⟨?_, frame.2.trans joins.retired, ?_, ?_⟩
  · rw [frame.1, joins.nextRef, List.length_append, List.length_singleton, Nat.add_assoc]
  · intro ref lt
    rw [before ref (joins.nextRef ▸ lt.trans_le (Nat.le_add_right _ _)), joins.old ref lt]
  · intro index other known
    rcases Nat.lt_or_ge index recs.length with lt | ge
    · rw [List.getElem?_append_left lt] at known
      rw [before _ (joins.nextRef ▸ Nat.add_lt_add_left lt _)]
      exact joins.new known
    · rw [List.getElem?_append_right ge, List.getElem?_singleton] at known
      split at known
      · rename_i first
        have isLast : index = recs.length := by omega
        rcases Option.some.inj known with rfl
        rw [isLast, ← joins.nextRef, arena]
        dsimp only
        rw [Function.update_self]
        exact ⟨⟨rfl, rfl, rfl, path⟩, rfl, rfl⟩
      · cases known

/-- The load with the new flows, which start at `past` or later. -/
theorem fluid_extends (base : Simulator) {records recs : List TraceRecord}
    (later : ∀ record ∈ recs, past ≤ record.ts) :
    (base.fluid records).Extends (base.fluid (records ++ recs)) past where
  subset record mem := by
    rw [mem_fluid_jobs] at mem ⊢
    exact List.mem_append_left _ mem
  later record mem new := by
    rw [mem_fluid_jobs, List.mem_append] at mem
    rw [mem_fluid_jobs] at new
    exact later record (mem.resolve_left new)
  start := rfl
  size := rfl
  rate := rfl

theorem fluid_sent_nonneg {time : Timestamp} : 0 ≤ (base.fluid records).sent time record := by
  refine Fluid.Load.sent_nonneg fun active record => ?_
  rw [fluid_rate, bytesPerNs]
  positivity

/-- The state after the new flows have been added, before the time moves. -/
structure Joined (base sim : Simulator) (state : NetState) (records recs : List TraceRecord) :
    Prop where
  kept : state.Kept sim.ts
  begun : state.Begun sim.ts
  joins : sim.Joins sim.state state recs

namespace Joined

variable {state : NetState}

theorem known_cases (flowing : base.Flowing sim records)
    (known : (records ++ recs)[ref]? = some record) :
    (ref < sim.state.nextRef ∧ records[ref]? = some record) ∨
      ∃ index, ref = sim.state.nextRef + index ∧ recs[index]? = some record := by
  have count := flowing.carries.count
  rcases Nat.lt_or_ge ref records.length with lt | ge
  · rw [List.getElem?_append_left lt] at known
    exact .inl ⟨count ▸ lt, known⟩
  · rw [List.getElem?_append_right ge] at known
    exact .inr ⟨ref - records.length, count ▸ (Nat.add_sub_cancel' ge).symm, known⟩

theorem carries (joined : base.Joined sim state records recs)
    (flowing : base.Flowing sim records) :
    Carries { sim with state := state } (records ++ recs) := by
  refine .of_bears ?_ fun {ref record} known => ?_
  · rw [List.length_append, ← flowing.carries.count]
    exact joined.joins.nextRef
  · rcases known_cases flowing known with ⟨lt, old⟩ | ⟨index, rfl, new⟩
    · have bears := flowing.carries.bears old
      rw [← joined.joins.old ref lt] at bears
      exact ⟨bears.ts, bears.id, bears.bytes, bears.path⟩
    · have bears := (joined.joins.new new).1
      exact ⟨bears.ts, bears.id, bears.bytes, bears.path⟩

/-- A new flow is none of those that the load knows of. -/
theorem not_mem_jobs (distinct : (records ++ recs).Nodup) {index : ℕ}
    (new : recs[index]? = some record) : record ∉ (base.fluid records).jobs := by
  rw [mem_fluid_jobs]
  exact fun old => (List.nodup_append.mp distinct).2.2 record old record
    (List.mem_of_getElem? new) rfl

/-- All flows have sent what the load without the new flows grants them. -/
theorem sends (joined : base.Joined sim state records recs) (flowing : base.Flowing sim records)
    (distinct : (records ++ recs).Nodup) (known : (records ++ recs)[ref]? = some record) :
    Sends (base.fluid records) (state.arena ref) record sim.ts := by
  rcases known_cases flowing known with ⟨lt, old⟩ | ⟨index, rfl, new⟩
  · rw [joined.joins.old ref lt]
    exact flowing.follows.sends old
  · rcases joined.joins.new new with ⟨_, bytes, history⟩
    exact .unknown (not_mem_jobs distinct new) history bytes

theorem waits (joined : base.Joined sim state records recs) (flowing : base.Flowing sim records)
    (known : (records ++ recs)[ref]? = some record) (later : sim.ts < record.ts) :
    (state.arena ref).speedHistory = [] := by
  rcases known_cases flowing known with ⟨lt, old⟩ | ⟨index, rfl, new⟩
  · rw [joined.joins.old ref lt]
    exact flowing.follows.waits old later
  · exact (joined.joins.new new).2.2

theorem rests (joined : base.Joined sim state records recs) (flowing : base.Flowing sim records)
    (known : (records ++ recs)[ref]? = some record) (retired : ref ∈ state.retiredFlows) :
    ref ∈ sim.state.retiredFlows ∧ (base.fluid records).Finishes record (state.arena ref).endTs ∧
      (state.arena ref).endTs ≤ sim.ts := by
  rw [joined.joins.retired] at retired
  have lt := flowing.represented.kept.ledger.retired_lt retired
  have old : records[ref]? = some record := by
    rcases known_cases flowing known with ⟨_, old⟩ | ⟨index, rfl, _⟩
    · exact old
    · exact absurd lt (not_lt.mpr (Nat.le_add_right _ _))
  have ended := flowing.follows.rests old retired
  rw [joined.joins.old ref lt]
  exact ⟨retired, ended⟩

/-- A flow that runs lacks something, or it has no bytes and starts now, or it is new. -/
theorem runs (joined : base.Joined sim state records recs) (flowing : base.Flowing sim records)
    (distinct : (records ++ recs).Nodup) (known : (records ++ recs)[ref]? = some record)
    (active : ref ∉ state.retiredFlows) (started : record.ts ≤ sim.ts) :
    (base.fluid records).sent sim.ts record < record.flow.bytes ∨
      (record.flow.bytes = 0 ∧ record.ts = sim.ts) ∨
      (record ∈ recs ∧ ∀ time, (base.fluid records).sent time record = 0) := by
  rw [joined.joins.retired] at active
  rcases known_cases flowing known with ⟨_, old⟩ | ⟨index, rfl, new⟩
  · rcases flowing.follows.runs old active started with lacks | stands
    · exact .inl lacks
    · exact .inr (.inl stands)
  · exact .inr (.inr ⟨List.mem_of_getElem? new,
      fun _ => Fluid.Load.sent_of_not_mem (not_mem_jobs distinct new)⟩)

/-- Flows that arrive in time. -/
theorem inTime (joined : base.Joined sim state records recs) (flowing : base.Flowing sim records)
    (distinct : (records ++ recs).Nodup) (later : ∀ record ∈ recs, sim.ts ≤ record.ts) :
    Follows (base.fluid (records ++ recs)) { sim with state := state } (records ++ recs) := by
  have extends_ : (base.fluid records).Extends (base.fluid (records ++ recs)) sim.ts :=
    fluid_extends base later
  refine ⟨fun known => (joined.sends flowing distinct known).extend extends_,
    joined.waits flowing, fun {ref record} known active started => ?_,
    fun {ref record} known retired => ?_⟩
  · dsimp only at active started ⊢
    rw [extends_.sent le_rfl]
    rcases joined.runs flowing distinct known active started with lacks | stands | ⟨new, nothing⟩
    · exact .inl lacks
    · exact .inr stands
    · rw [nothing]
      rcases Nat.eq_zero_or_pos record.flow.bytes with none | some
      · exact .inr ⟨none, le_antisymm started (later record new)⟩
      · exact .inl (by exact_mod_cast some)
  · rcases joined.rests flowing known retired with ⟨_, finishes, ended⟩
    exact ⟨(extends_.finishes ended).mpr finishes, ended⟩

section Late

variable {rolled : NetState} {revived : List FlowRef}

/-- After a rollback a flow has been reverted, is still retired, or has not started before. -/
theorem rolled_cases (joined : base.Joined sim state records recs)
    (run : state.rollbackTo sim.ts past = .ok (rolled, revived)) (lt : ref < state.nextRef) :
    ((ref ∈ state.runningFlows ∨ ref ∈ revived ∧ ref ∈ state.retiredFlows ∧
        past < (state.arena ref).endTs) ∧
      NetState.revertFlow sim.ts past (state.arena ref) = .ok (rolled.arena ref)) ∨
    (ref ∈ rolled.retiredFlows ∧ ref ∈ state.retiredFlows ∧
      (state.arena ref).endTs / 1000 ≤ past / 1000 ∧ rolled.arena ref = state.arena ref) ∨
    (ref ∈ state.buffered ∧ rolled.arena ref = state.arena ref) := by
  have ledger := joined.kept.ledger
  have arenas := NetState.rollbackTo_arena ledger run
  rcases NetState.rollbackTo_retired ledger run with ⟨revive, stays⟩
  have split := NetState.reviveRetired_eq_ok revive
  have nodup := ledger.nodup
  have placed := ledger.mem_refs.mpr lt
  simp only [NetState.refs, List.mem_append] at placed
  rcases placed with (buffered | running) | retired
  · refine .inr (.inr ⟨buffered, arenas.2 ref fun moved => ?_⟩)
    rw [NetState.refs, split, List.append_assoc, ← List.append_assoc state.runningFlows] at nodup
    exact (List.nodup_append.mp nodup).2.2 ref buffered ref (List.mem_append_left _ moved) rfl
  · exact .inl ⟨.inl running, arenas.1 ref (List.mem_append_left _ running)⟩
  · rcases List.mem_append.mp (split ▸ retired) with again | still
    · have after := (lt_of_revived revive ref again).trans_le (Nat.div_mul_le_self _ _)
      exact .inl ⟨.inr ⟨again, retired, after⟩, arenas.1 ref (List.mem_append_right _ again)⟩
    · exact .inr (.inl ⟨still, retired,
        NetState.reviveRetired_kept joined.kept.ordered.sorted revive ref still, stays ref still⟩)

/-- Flows that arrive late, the first of them at `past`. -/
theorem late (joined : base.Joined sim state records recs) (flowing : base.Flowing sim records)
    (distinct : (records ++ recs).Nodup) (earlier : past < sim.ts)
    (later : ∀ record ∈ recs, past ≤ record.ts)
    (timely : ∀ ref ∈ state.retiredFlows, (state.arena ref).endTs / 1000 ≤ past / 1000 →
      (state.arena ref).endTs ≤ past)
    (run : state.rollbackTo sim.ts past = .ok (rolled, revived)) :
    Follows (base.fluid (records ++ recs)) { sim with ts := past, state := rolled }
      (records ++ recs) := by
  have extends_ : (base.fluid records).Extends (base.fluid (records ++ recs)) past :=
    fluid_extends base later
  have carries := joined.carries flowing
  have issued : ∀ {ref record}, (records ++ recs)[ref]? = some record → ref < state.nextRef := by
    intro ref record known
    rw [show state.nextRef = (records ++ recs).length from carries.count]
    exact (List.getElem?_eq_some_iff.mp known).1
  have ts : ∀ {ref record}, (records ++ recs)[ref]? = some record →
      (state.arena ref).ts = record.ts := fun known => (carries.bears known).ts
  have reverts : ∀ {ref record}, (records ++ recs)[ref]? = some record →
      NetState.revertFlow sim.ts past (state.arena ref) = .ok (rolled.arena ref) →
      Sends (base.fluid records) (rolled.arena ref) record past ∧
        (past < (state.arena ref).ts → (rolled.arena ref).speedHistory = []) := fun known reverts =>
    (joined.sends flowing distinct known).revert earlier.le (ts known).symm fluid_sent_nonneg
      reverts
  have ahead : ∀ {ref record}, (records ++ recs)[ref]? = some record → ref ∈ state.buffered →
      sim.ts < record.ts := by
    intro ref record known buffered
    rcases List.mem_map.mp buffered with ⟨entry, mem, rfl⟩
    exact ts known ▸ joined.kept.ahead entry mem
  refine ⟨fun {ref record} known => ?_, fun {ref record} known early => ?_,
    fun {ref record} known active started => ?_, fun {ref record} known retired => ?_⟩
  · refine Sends.extend ?_ extends_
    rcases joined.rolled_cases run (issued known) with ⟨_, moved⟩ | ⟨_, retired, kept, same⟩ |
      ⟨buffered, same⟩
    · exact (reverts known moved).1
    · rw [same]
      rcases joined.rests flowing known retired with ⟨_, finishes, _⟩
      exact (joined.sends flowing distinct known).back earlier.le
        (joined.kept.ordered.stopped ref retired) finishes (timely ref retired kept)
    · have starts := ahead known buffered
      have sent := (joined.sends flowing distinct known).sent
      rw [Fluid.Load.sent_eq_zero (by rw [fluid_start]; exact starts.le)] at sent
      rw [same]
      exact .waiting (earlier.trans starts).le (joined.waits flowing known starts) sent
  · dsimp only at early ⊢
    rcases joined.rolled_cases run (issued known) with ⟨_, moved⟩ | ⟨_, retired, kept, _⟩ |
      ⟨buffered, same⟩
    · exact (reverts known moved).2 ((ts known).symm ▸ early)
    · rcases joined.rests flowing known retired with ⟨_, finishes, _⟩
      exact absurd (finishes.started.trans (timely ref retired kept)) (not_le.mpr early)
    · rw [same]
      exact joined.waits flowing known (ahead known buffered)
  · dsimp only at active started ⊢
    rw [extends_.sent le_rfl]
    rcases joined.rolled_cases run (issued known) with ⟨running | ⟨_, retired, after⟩, _⟩ |
      ⟨retired, _⟩ | ⟨buffered, _⟩
    · have idle : ref ∉ state.retiredFlows := fun retired =>
        joined.kept.not_running retired running
      rcases joined.runs flowing distinct known idle (started.trans earlier.le) with
        lacks | ⟨_, now⟩ | ⟨new, nothing⟩
      · exact .inl (Fluid.Load.lacks_before lacks earlier.le)
      · exact absurd (now ▸ started) (not_le.mpr earlier)
      · rw [nothing]
        rcases Nat.eq_zero_or_pos record.flow.bytes with none | some
        · exact .inr ⟨none, le_antisymm started (later record new)⟩
        · exact .inl (by exact_mod_cast some)
    · rcases joined.rests flowing known retired with ⟨_, finishes, _⟩
      exact .inl (finishes.first past started after)
    · exact absurd retired active
    · exact absurd (ahead known buffered) (not_lt.mpr (started.trans earlier.le))
  · dsimp only at retired ⊢
    rcases NetState.rollbackTo_retired joined.kept.ledger run with ⟨revive, stays⟩
    have before : ref ∈ state.retiredFlows := by
      rw [NetState.reviveRetired_eq_ok revive]
      exact List.mem_append_right _ retired
    have kept := NetState.reviveRetired_kept joined.kept.ordered.sorted revive ref retired
    rcases joined.rests flowing known before with ⟨_, finishes, _⟩
    have ended := timely ref before kept
    rw [stays ref retired]
    exact ⟨(extends_.finishes ended).mpr finishes, ended⟩

end Late

end Joined

end Simulator

end Phantora.Netsim
