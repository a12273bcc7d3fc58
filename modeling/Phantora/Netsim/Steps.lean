import Mathlib.Algebra.BigOperators.Group.Finset.Basic
import Mathlib.Algebra.Order.BigOperators.Group.Finset
import Phantora.Netsim.Fairness
import Phantora.Netsim.Reports
import Phantora.Netsim.Totality

/-!
# Steps

A step of the simulator takes turns. No turn passes the start of a buffered
flow, a timer or the limit, and a turn that does not end the step starts a
buffered flow or comes to a timer or to the limit. So a step comes to an end,
and nothing is lost in it.
-/

namespace Phantora.Netsim

open Outcome

namespace Simulator

variable {platform : Platform} {limit : Option Timestamp} {sim sim' sim'' filled : Simulator}
  {times : List Timestamp} {next : Timestamp} {compFlows : List TraceRecord}

/-- Time has moved on, though not past the limit, and the flows that start later still wait. -/
structure Onward (limit : Option Timestamp) (sim sim' : Simulator) : Prop where
  later : sim.ts ≤ sim'.ts
  limited : ∀ bound ∈ limit, sim'.ts ≤ max sim.ts bound
  waits : ∀ entry ∈ sim.state.flowBufs, sim'.ts < (sim.state.arena entry.2).ts →
    entry ∈ sim'.state.flowBufs
  buffered : sim'.state.buffered ⊆ sim.state.buffered

theorem Onward.refl (limit : Option Timestamp) (sim : Simulator) : Onward limit sim sim :=
  ⟨le_rfl, fun _ _ => le_max_left _ _, fun _ mem _ => mem, fun _ mem => mem⟩

theorem Onward.trans (first : Onward limit sim sim') (second : Onward limit sim' sim'')
    (same : NetState.SameFlows sim.state sim'.state) : Onward limit sim sim'' := by
  refine ⟨first.later.trans second.later, ?_, ?_, fun _ mem => first.buffered (second.buffered mem)⟩
  · intro bound isLimit
    exact (second.limited bound isLimit).trans
      (max_le (first.limited bound isLimit) (le_max_right _ _))
  · intro entry mem later
    refine second.waits entry (first.waits entry mem (second.later.trans_lt later)) ?_
    rw [same.ts_eq]
    exact later

/-- Moving on to the next time. -/
theorem Represented.proceed_onward (represented : sim.Represented)
    (unlimited : ¬limit.any (· ≤ sim.ts) = true)
    (candidates : sim.nextTimes platform limit = .ok times) (first : times.min? = some next)
    (run : sim.proceed platform (next - sim.ts) = .ok (sim', compFlows)) :
    sim'.ts = next ∧ sim'.timers = sim.timers ∧ Onward limit sim sim' := by
  rcases represented.nextTime unlimited candidates first with ⟨later, _, _⟩
  have arrives : sim.ts + (next - sim.ts) = next := Nat.add_sub_cancel' later
  have early : ∀ bound ∈ limit, next ≤ bound := by
    intro bound isLimit
    apply (List.min?_eq_some_iff.mp first).2
    simp only [nextTimes, bind_eq_ok, pure_eq_ok] at candidates
    rcases candidates with ⟨completions, _, rfl⟩
    exact List.mem_append_right _ (Option.mem_toList.mpr isLimit)
  have kept := represented.kept
  simp only [proceed, bind_eq_ok, pure_eq_ok, Prod.exists, Prod.mk.injEq] at run
  rcases run with ⟨middle, comp, completed, final, emitted, rfl, rfl⟩
  rcases NetState.completeFlows_refs kept.ledger.running_nodup completed with ⟨_, same, bufs⟩
  rcases NetState.emitReadyFlows_refs emitted with ⟨_, _, _, _, bufs'⟩
  refine ⟨arrives, rfl, Nat.le_add_right _ _, ?_, ?_, ?_⟩
  · intro bound isLimit
    exact (arrives.le.trans (early bound isLimit)).trans (le_max_right _ _)
  · intro entry mem later
    refine (NetState.emitReadyFlows_starts emitted).2 entry (bufs.symm ▸ mem) ?_
    rw [same.ts_eq]
    exact later
  · intro ref mem
    rcases List.mem_map.mp mem with ⟨entry, entryMem, rfl⟩
    have old : entry ∈ middle.flowBufs := bufs' entryMem
    exact List.mem_map_of_mem (bufs ▸ old)

theorem converged_onward (run : sim.maxMinFairnessConverge platform = .ok filled) :
    Onward limit sim filled := by
  rcases maxMinFairnessConverge_eq_ok run with ⟨arena, rfl, _⟩
  exact ⟨le_rfl, fun _ _ => le_max_left _ _, fun _ mem _ => mem, fun _ mem => mem⟩

theorem Turn.onward (represented : sim.Represented) (turn : Turn platform limit sim sim') :
    sim'.timers = sim.timers ∧ Onward limit sim sim' := by
  cases turn with
  | turn unlimited converge candidates first run =>
      rcases represented.converged converge with ⟨isFilled, ts, timers, same⟩
      rcases isFilled.proceed_onward (ts ▸ unlimited) candidates first run with
        ⟨_, timers', onward⟩
      exact ⟨timers'.trans timers, (converged_onward converge).trans onward same⟩

theorem turns_onward (represented : sim.Represented)
    (turns : Relation.ReflTransGen (Turn platform limit) sim sim') :
    sim'.timers = sim.timers ∧ Onward limit sim sim' := by
  induction turns with
  | refl => exact ⟨rfl, .refl limit sim⟩
  | tail before last ih =>
      rcases represented.turns before with ⟨isMiddle, same⟩
      rcases last.onward isMiddle with ⟨timers, onward⟩
      exact ⟨timers.trans ih.1, ih.2.trans onward same⟩

/-- The timers after a step: all of them, or all but the one that the step tells of,
which is due. -/
def Alerts (sim sim' : Simulator) (kind : AppEventKind) : Prop :=
  sim'.timers = sim.timers ∧ (∃ compFlows, kind = .flowComplete compFlows) ∨
    ∃ timer, sim.timers.Perm (timer :: sim'.timers) ∧ timer.nextAlert = sim'.ts ∧
      kind = notification timer

theorem Halt.onward {kind : AppEventKind} (represented : sim.Represented)
    (halt : Halt platform limit sim sim' kind) :
    Onward limit sim sim' ∧ Alerts sim sim' kind ∧
      (kind = .flowComplete [] → limit.any (· ≤ sim'.ts) = true ∨ sim'.idle = true) := by
  cases halt with
  | limited isLimited =>
      exact ⟨.refl limit sim, Or.inl ⟨rfl, _, rfl⟩, fun _ => Or.inl isLimited⟩
  | idle isIdle => exact ⟨.refl limit sim, Or.inl ⟨rfl, _, rfl⟩, fun _ => Or.inr isIdle⟩
  | @fired filled times next timer _ converge _ _ isFirst due =>
      rcases represented.converged converge with ⟨_, _, timers, _⟩
      have onward : Onward limit sim filled := converged_onward converge
      have mem : timer ∈ filled.timers := by
        rw [← (platform.order_perm 1 filled.timers).mem_iff]
        exact List.argmin_mem isFirst
      refine ⟨⟨onward.later, onward.limited, onward.waits, onward.buffered⟩,
        Or.inr ⟨timer, timers ▸ List.perm_cons_erase mem, due, rfl⟩, ?_⟩
      unfold notification
      split <;> simp
  | completed unlimited converge candidates first proceeded something =>
      rcases represented.converged converge with ⟨isFilled, ts, timers, same⟩
      rcases isFilled.proceed_onward (ts ▸ unlimited) candidates first proceeded with
        ⟨_, timers', onward⟩
      refine ⟨(converged_onward converge).trans onward same,
        Or.inl ⟨timers'.trans timers, _, rfl⟩, fun nothing => ?_⟩
      exact absurd (AppEventKind.flowComplete.inj nothing) something

/-- A step leaves nothing behind. -/
structure Lossless (limit : Option Timestamp) (sim sim' : Simulator) (kind : AppEventKind) :
    Prop where
  later : sim.ts ≤ sim'.ts
  limited : ∀ bound ∈ limit, sim'.ts ≤ max sim.ts bound
  /-- A buffered flow waits for its start, and is then emitted. -/
  buffered : ∀ entry ∈ sim.state.flowBufs, if sim'.ts < (sim.state.arena entry.2).ts then
    entry ∈ sim'.state.flowBufs
    else entry.2 ∈ sim'.state.runningFlows ∨ entry.2 ∈ sim'.state.retiredFlows
  /-- A flow that is no longer running is reported as complete. -/
  running : ∀ ref ∈ sim.state.runningFlows, ref ∈ sim'.state.runningFlows ∨
    ref ∈ sim'.state.retiredFlows ∧ sim'.completionOf ref ∈ kind.completions
  alerts : Alerts sim sim' kind
  timers : ∀ timer ∈ sim'.timers, sim'.ts ≤ timer.nextAlert
  /-- Nothing is reported only at the limit, or when there is nothing left. -/
  nothing : kind = .flowComplete [] → (∃ bound ∈ limit, bound ≤ sim'.ts) ∨
    (sim'.state.runningFlows = [] ∧ sim'.state.flowBufs.entries = [] ∧ sim'.timers = [])

theorem Represented.lossless {fuel : ℕ} {kind : AppEventKind} (represented : sim.Represented)
    (run : maxMinFairness platform limit fuel sim = .ok (sim', kind)) :
    Lossless limit sim sim' kind := by
  rcases exists_turns_of_run run with ⟨last, turns, halt⟩
  rcases represented.turns turns with ⟨isLast, same⟩
  rcases isLast.halt halt with ⟨isEnd, same'⟩
  rcases turns_onward represented turns with ⟨timers, onward⟩
  rcases halt.onward isLast with ⟨onward', alerts, nothing⟩
  rcases maxMinFairness_completes represented run with ⟨done, completes, report⟩
  have whole := onward.trans onward' same
  have ledger := represented.kept.ledger
  have placed : ∀ ref < sim.state.nextRef, ref ∈ sim'.state.buffered ∨
      ref ∈ sim'.state.runningFlows ∨ ref ∈ sim'.state.retiredFlows := by
    intro ref lt
    have mem := isEnd.kept.ledger.mem_refs.mpr (completes.same.nextRef ▸ lt)
    simpa only [NetState.refs, List.mem_append, or_assoc] using mem
  have nodup := ledger.nodup
  rw [NetState.refs, List.append_assoc] at nodup
  refine ⟨whole.later, whole.limited, ?_, ?_, ?_, isEnd.timers, ?_⟩
  · intro entry mem
    split
    · rename_i later
      exact whole.waits entry mem later
    · rename_i due
      rcases placed entry.2 (ledger.buffered_lt (List.mem_map_of_mem mem)) with still | started
      · rcases List.mem_map.mp still with ⟨other, otherMem, equal⟩
        have ahead := isEnd.kept.ahead other otherMem
        rw [equal, completes.same.ts_eq] at ahead
        exact absurd ahead due
      · exact started
  · intro ref mem
    rcases placed ref (ledger.running_lt mem) with still | isRunning | retired
    · have before := whole.buffered still
      exact absurd rfl ((List.nodup_append.mp nodup).2.2 ref before ref
        (List.mem_append_left _ mem))
    · exact Or.inl isRunning
    · refine Or.inr ⟨retired, ?_⟩
      rw [completes.retired] at retired
      rw [report]
      rcases List.mem_append.mp retired with new | old
      · exact List.mem_map_of_mem (List.mem_reverse.mp new)
      · exact absurd mem (represented.kept.not_running old)
  · rwa [Alerts, ← timers]
  · intro isNothing
    rcases nothing isNothing with isLimited | isIdle
    · rcases (Option.any_eq_true ..).mp isLimited with ⟨bound, isLimit, le⟩
      exact Or.inl ⟨bound, isLimit, by simpa using le⟩
    · simp only [Simulator.idle, Bool.and_eq_true, List.isEmpty_iff] at isIdle
      exact Or.inr ⟨isIdle.1.1, isIdle.1.2, isIdle.2⟩

/-- A list whose items are counted by `c` is no longer than the sum of `c`. -/
theorem length_le_sum {flows refs : List FlowRef} {c : FlowRef → ℕ} (nodup : refs.Nodup)
    (among : ∀ ref ∈ flows, ref ∈ refs) (counts : ∀ ref, flows.count ref ≤ c ref) :
    flows.length ≤ (refs.map c).sum := by
  have inRefs : flows.toFinset ⊆ refs.toFinset := by
    intro ref mem
    exact List.mem_toFinset.mpr (among ref (List.mem_toFinset.mp mem))
  calc flows.length = ∑ ref ∈ flows.toFinset, flows.count ref :=
        (List.sum_toFinset_count_eq_length flows).symm
    _ ≤ ∑ ref ∈ flows.toFinset, c ref := Finset.sum_le_sum fun ref _ => counts ref
    _ ≤ ∑ ref ∈ refs.toFinset, c ref := Finset.sum_le_sum_of_subset inRefs
    _ = (refs.map c).sum := List.sum_toFinset c nodup

theorem sum_le_sum_of_subset {flows refs : List FlowRef} {c : FlowRef → ℕ} (nodup : flows.Nodup)
    (sub : flows ⊆ refs) : (flows.map c).sum ≤ (refs.map c).sum := by
  rcases nodup.subperm sub with ⟨others, perm, sublist⟩
  rw [← (perm.map c).sum_eq]
  exact (sublist.map c).sum_le_sum fun _ _ => Nat.zero_le _

/-- The flows that run or will run. -/
def pending (sim : Simulator) : List FlowRef :=
  sim.state.buffered ++ sim.state.runningFlows

/-- The simulator as it is between two calls, with links that have a bit a second for every time
that the route of a pending flow names them. -/
structure Serviceable (sim : Simulator) : Prop where
  represented : sim.Represented
  perFlow : sim.setting.fairness = .perFlowMaxMin
  maxRate : ∀ ref < sim.state.nextRef, (sim.state.arena ref).maxRate = u64Max
  bandwidth : ∀ link, sim.cluster.bandwidth link ≤ u64Max
  ample : ∀ link, (sim.pending.map fun ref => (sim.state.arena ref).route.path.count link).sum ≤
    sim.cluster.bandwidth link
  loopbackSpeed : sim.setting.loopbackSpeed ≤ u64Max
  loopback : ∀ ref ∈ sim.pending, (sim.state.arena ref).route.path = [] →
    0 < sim.setting.loopbackSpeed

theorem Represented.pending_nodup (represented : sim.Represented) : sim.pending.Nodup :=
  (List.nodup_append.mp represented.kept.ledger.nodup).1

/-- A flow that has arrived is pending unless it is retired. -/
theorem Represented.mem_pending (represented : sim.Represented) {ref : FlowRef} :
    ref ∈ sim.pending ↔ ref < sim.state.nextRef ∧ ref ∉ sim.state.retiredFlows := by
  rw [← represented.kept.ledger.mem_refs, NetState.refs, List.mem_append]
  constructor
  · intro mem
    exact ⟨Or.inl mem, fun retired =>
      (List.nodup_append.mp represented.kept.ledger.nodup).2.2 ref mem ref retired rfl⟩
  · rintro ⟨mem, active⟩
    exact mem.resolve_right active

/-- No flow is added to the pending ones. -/
theorem Serviceable.move {done : List FlowRef} (serviceable : sim.Serviceable)
    (represented : sim'.Represented) (completes : Completes sim sim' done)
    (cluster : sim'.cluster = sim.cluster) (setting : sim'.setting = sim.setting) :
    sim'.Serviceable := by
  have same := completes.same
  have sub : sim'.pending ⊆ sim.pending := by
    intro ref mem
    rw [represented.mem_pending, completes.retired, List.mem_append, not_or] at mem
    exact serviceable.represented.mem_pending.mpr ⟨same.nextRef ▸ mem.1, mem.2.2⟩
  refine ⟨represented, setting ▸ serviceable.perFlow, ?_, cluster ▸ serviceable.bandwidth, ?_,
    setting ▸ serviceable.loopbackSpeed, ?_⟩
  · intro ref lt
    rw [same.nextRef] at lt
    have rate : (sim'.state.arena ref).maxRate = (sim.state.arena ref).maxRate := by
      simpa using congrArg FlowState.maxRate (same.fresh ref)
    rw [rate, serviceable.maxRate ref lt]
  · intro link
    simp only [same.route_eq]
    rw [cluster]
    exact (sum_le_sum_of_subset represented.pending_nodup sub).trans (serviceable.ample link)
  · intro ref mem empty
    rw [same.route_eq] at empty
    rw [setting]
    exact serviceable.loopback ref (sub mem) empty

theorem Serviceable.allocatable (serviceable : sim.Serviceable) : sim.Allocatable where
  indexed := serviceable.represented.kept.indexed
  nodup := serviceable.represented.kept.ledger.running_nodup
  perFlow := serviceable.perFlow
  maxRate ref mem := serviceable.maxRate ref (serviceable.represented.kept.ledger.running_lt mem)
  bandwidth := serviceable.bandwidth

/-- Each link has a unit for each flow that is filed under it. -/
theorem Serviceable.units (serviceable : sim.Serviceable) (link : LinkIx) :
    (NetState.flowsOn sim.state.linkFlows link).length ≤ sim.cluster.bandwidth link := by
  have indexed := serviceable.represented.kept.indexed
  refine le_trans ?_ (serviceable.ample link)
  apply length_le_sum serviceable.represented.pending_nodup
  · intro ref mem
    exact List.mem_append_right _ (indexed.mem_flowsOn.mp mem).1
  · intro ref
    rw [indexed.counts]
    split
    · exact le_rfl
    · exact Nat.zero_le _

/-- Every flow moves, at no more than its limit. -/
structure Paced (sim : Simulator) : Prop where
  moves : ∀ ref ∈ sim.state.runningFlows, 1 ≤ (sim.state.arena ref).speed
  slow : ∀ ref ∈ sim.state.runningFlows, (sim.state.arena ref).speed ≤ (sim.state.arena ref).maxRate

/-- Filling gives every running flow a rate of one bit a second or more. -/
theorem Serviceable.converge (serviceable : sim.Serviceable)
    (enough : sim.state.runningFlows.length < platform.fuel) : ∃ arena : Arena,
    sim.maxMinFairnessConverge platform =
        .ok { sim with state := { sim.state with arena := arena } } ∧
      (∀ ref, (arena ref).core = (sim.state.arena ref).core) ∧
      Serviceable { sim with state := { sim.state with arena := arena } } ∧
      Paced { sim with state := { sim.state with arena := arena } } := by
  have loopback : ∀ ref ∈ sim.state.runningFlows, (sim.state.arena ref).route.path = [] →
      0 < sim.setting.loopbackSpeed :=
    fun ref mem => serviceable.loopback ref (List.mem_append_right _ mem)
  rcases serviceable.allocatable.speeds enough serviceable.units serviceable.loopbackSpeed
    loopback with ⟨arena, run, core, speeds⟩
  have filled := serviceable.move (serviceable.represented.of_core core) (completes_of_core core)
    rfl rfl
  refine ⟨arena, run, core, filled, fun ref mem => (speeds ref mem).1, fun ref mem => ?_⟩
  have lt := serviceable.represented.kept.ledger.running_lt mem
  have maxRate : (arena ref).maxRate = u64Max := filled.maxRate ref lt
  dsimp only
  rw [maxRate]
  exact (speeds ref mem).2

/-- The next time is no later than the end of any running flow. It is the end of one, the start
of a buffered flow, that of a timer or the limit. -/
structure NextTime (platform : Platform) (limit : Option Timestamp) (sim : Simulator)
    (next : Timestamp) : Prop where
  soon : ∀ ref ∈ sim.state.runningFlows, next ≤ (sim.state.arena ref).remainingTime + sim.ts
  chosen : (∃ ref ∈ sim.state.runningFlows,
      next = (sim.state.arena ref).remainingTime + sim.ts) ∨
    (∃ entry ∈ sim.state.flowBufs, next = (sim.state.arena entry.2).ts) ∨
    (∃ timer, sim.peekTimer platform = some timer ∧ next = timer.nextAlert) ∨ limit = some next

theorem Paced.nextTime (paced : sim.Paced) (platform : Platform) (limit : Option Timestamp)
    (busy : sim.idle = false) : ∃ times next, sim.nextTimes platform limit = .ok times ∧
      times.min? = some next ∧ NextTime platform limit sim next := by
  have ends : sim.state.runningFlows.mapM (fun ref => (sim.state.arena ref).timeToComplete) =
      .ok (sim.state.runningFlows.map fun ref => (sim.state.arena ref).remainingTime) := by
    apply mapM_eq_map
    intro ref mem
    simp only [FlowState.timeToComplete, bind_eq_ok, assert_eq_ok, pure_eq_ok]
    exact ⟨⟨⟩, one_pos.trans_le (paced.moves ref mem), trivial⟩
  have run : sim.nextTimes platform limit = .ok
      ((sim.state.runningFlows.map fun ref => (sim.state.arena ref).remainingTime + sim.ts) ++
        ((sim.state.peekBuffered platform).map fun ref => (sim.state.arena ref).ts).toList ++
        ((sim.peekTimer platform).map OnceTimer.nextAlert).toList ++ limit.toList) := by
    simp [nextTimes, ends, bind, Except.bind, pure, Except.pure, Function.comp_def]
  have nonempty : (sim.state.runningFlows.map fun ref =>
        (sim.state.arena ref).remainingTime + sim.ts) ++
      ((sim.state.peekBuffered platform).map fun ref => (sim.state.arena ref).ts).toList ++
      ((sim.peekTimer platform).map OnceTimer.nextAlert).toList ++ limit.toList ≠ [] := by
    intro empty
    simp only [List.append_eq_nil_iff, List.map_eq_nil_iff, Option.toList_eq_nil_iff,
      Option.map_eq_none_iff, NetState.peekBuffered,
      PriorityQueue.peek_eq_none (platform.order_perm 0 _), peekTimer, List.argmin_eq_none] at empty
    rcases empty with ⟨⟨⟨noRunning, noBuffered⟩, noTimer⟩, _⟩
    have noTimers : sim.timers = [] := by
      rw [← List.nil_perm, ← noTimer]
      exact platform.order_perm 1 sim.timers
    have noEntries : sim.state.flowBufs.entries = [] :=
      List.eq_nil_iff_forall_not_mem.mpr noBuffered
    simp [Simulator.idle, noRunning, noEntries, noTimers] at busy
  rcases Option.isSome_iff_exists.mp (List.isSome_min?_of_ne_nil nonempty) with ⟨next, first⟩
  rcases List.min?_eq_some_iff.mp first with ⟨among, least⟩
  refine ⟨_, next, run, first, ?_, ?_⟩
  · intro ref mem
    apply least
    simp only [List.mem_append, List.mem_map]
    exact Or.inl (Or.inl (Or.inl ⟨ref, mem, rfl⟩))
  · simp only [List.mem_append, List.mem_map, Option.mem_toList, Option.map_eq_some_iff,
      NetState.peekBuffered] at among
    rcases among with ((⟨ref, mem, rfl⟩ | ⟨ref, ⟨entry, isFirst, rfl⟩, rfl⟩) |
      ⟨timer, isFirst, rfl⟩)
      | isLimit
    · exact Or.inl ⟨ref, mem, rfl⟩
    · exact Or.inr (Or.inl
        ⟨entry, PriorityQueue.mem_of_peek (platform.order_perm 0 _) isFirst, rfl⟩)
    · exact Or.inr (Or.inr (Or.inl ⟨timer, isFirst, rfl⟩))
    · exact Or.inr (Or.inr (Or.inr isLimit))

/-- Moving on to the next time succeeds. A flow that ends then completes, and a flow that starts
then leaves the buffer. -/
theorem Serviceable.proceed (serviceable : sim.Serviceable) (paced : sim.Paced)
    (unlimited : ¬limit.any (· ≤ sim.ts) = true)
    (candidates : sim.nextTimes platform limit = .ok times) (first : times.min? = some next)
    (enough : sim.state.flowBufs.entries.length < platform.fuel) :
    ∃ moved comps, sim.proceed platform (next - sim.ts) = .ok (moved, comps) ∧
      moved.Serviceable ∧ (comps = [] →
        (∀ ref ∈ sim.state.runningFlows, next ≠ (sim.state.arena ref).remainingTime + sim.ts) ∧
        moved.state.flowBufs.entries.length ≤ sim.state.flowBufs.entries.length ∧
        ∀ entry ∈ sim.state.flowBufs, next = (sim.state.arena entry.2).ts →
          moved.state.flowBufs.entries.length < sim.state.flowBufs.entries.length) := by
  have represented := serviceable.represented
  have kept := represented.kept
  rcases represented.nextTime unlimited candidates first with ⟨later, starts, _⟩
  have arrives : sim.ts + (next - sim.ts) = next := Nat.add_sub_cancel' later
  have completed : ∃ result, sim.state.completeFlows sim.ts (next - sim.ts) = .ok result :=
    NetState.completeFlows_total kept.indexed kept.ledger.running_nodup
      (fun ref mem => one_pos.trans_le (paced.moves ref mem)) paced.slow
  rcases completed with ⟨⟨middle, comps⟩, completed⟩
  rcases NetState.completeFlows_refs kept.ledger.running_nodup completed with ⟨perm, same, bufs⟩
  have ready : ∀ entry ∈ middle.flowBufs, sim.ts + (next - sim.ts) ≤ (middle.arena entry.2).ts := by
    intro entry mem
    rw [arrives, same.ts_eq]
    exact starts entry (bufs ▸ mem)
  have emitted : ∃ final, NetState.emitReadyFlows platform (sim.ts + (next - sim.ts))
      platform.fuel middle = .ok final :=
    NetState.emitReadyFlows_total
      (NetState.completeFlows_indexed kept.indexed kept.ledger.running_nodup completed)
      (perm.nodup_iff.mpr kept.ledger.nodup) ready (bufs ▸ enough)
  rcases emitted with ⟨final, emitted⟩
  have run : sim.proceed platform (next - sim.ts) =
      .ok ({ sim with ts := sim.ts + (next - sim.ts), state := final }, comps) := by
    simp only [Simulator.proceed, bind_eq_ok, pure_eq_ok, Prod.exists]
    exact ⟨middle, comps, completed, final, emitted, rfl⟩
  rcases represented.proceed_next unlimited candidates first run with ⟨moved, whole⟩
  rcases represented.proceed_onward unlimited candidates first run with ⟨_, _, onward⟩
  rcases proceed_completes represented run with ⟨done, completes, _⟩
  refine ⟨_, comps, run, serviceable.move moved completes rfl rfl, fun nothing => ⟨?_, ?_, ?_⟩⟩
  · -- a running flow that ends at the next time is among the completions
    intro ref mem isNext
    have report := (NetState.completeFlows_eq_ok kept.ledger.running_nodup completed).2
    have inc : (sim.state.arena ref).remainingTime ≤ next - sim.ts :=
      Nat.le_sub_of_add_le (Nat.le_of_eq isNext.symm)
    have isDone : ref ∈ sim.state.completing sim.ts (next - sim.ts) :=
      List.mem_filter.mpr ⟨mem, FlowState.isCompleted_of_remaining
        (one_pos.trans_le (paced.moves ref mem)) inc⟩
    rw [nothing] at report
    rw [List.map_eq_nil_iff.mp report.symm] at isDone
    cases isDone
  · have nodup := (List.nodup_append.mp moved.pending_nodup).1
    simpa [NetState.buffered] using (nodup.subperm onward.buffered).length_le
  · intro entry mem isNext
    have gone : entry.2 ∉ final.buffered := by
      intro still
      rcases List.mem_map.mp still with ⟨other, otherMem, equal⟩
      have ahead : sim.ts + (next - sim.ts) < (final.arena other.2).ts :=
        moved.kept.ahead other otherMem
      have start : (final.arena entry.2).ts = (sim.state.arena entry.2).ts := whole.ts_eq entry.2
      rw [equal, start, ← isNext, arrives] at ahead
      exact Nat.lt_irrefl _ ahead
    have nodup : (entry.2 :: final.buffered).Nodup :=
      List.nodup_cons.mpr ⟨gone, (List.nodup_append.mp moved.pending_nodup).1⟩
    have sub : entry.2 :: final.buffered ⊆ sim.state.buffered :=
      List.cons_subset.mpr ⟨List.mem_map_of_mem mem, onward.buffered⟩
    simpa only [NetState.buffered, List.length_cons, List.length_map, Nat.succ_le_iff] using
      (nodup.subperm sub).length_le

theorem Represented.lengths (represented : sim.Represented) :
    sim.state.flowBufs.entries.length + sim.state.runningFlows.length ≤ sim.state.nextRef := by
  have total := represented.kept.ledger.perm.length_eq
  simp only [NetState.refs, NetState.buffered, List.length_append, List.length_map,
    List.length_range] at total
  omega

/-- At the limit, or when a timer is due, the loop of a step ends at once. -/
theorem Serviceable.step_of_due (serviceable : sim.Serviceable)
    (enough : sim.state.nextRef < platform.fuel)
    (due : limit.any (· ≤ sim.ts) = true ∨ ∃ timer ∈ sim.timers, timer.nextAlert = sim.ts)
    (fuel : ℕ) : ∃ result, maxMinFairness platform limit (fuel + 1) sim = .ok result := by
  by_cases limited : limit.any (· ≤ sim.ts) = true
  · exact ⟨_, by rw [maxMinFairness, if_pos limited]⟩
  cases busy : sim.idle with
  | true => exact ⟨_, by rw [maxMinFairness, if_neg limited, if_pos busy]⟩
  | false =>
      have few : sim.state.runningFlows.length < platform.fuel :=
        ((Nat.le_add_left _ _).trans serviceable.represented.lengths).trans_lt enough
      rcases due.resolve_left limited with ⟨timer, mem, now⟩
      rcases serviceable.converge few with ⟨arena, converge, core, filled, paced⟩
      rcases paced.nextTime platform limit busy with ⟨times, next, candidates, first, _⟩
      rcases filled.represented.nextTime limited candidates first with ⟨_, _, alerts⟩
      have early : next ≤ sim.ts := (alerts timer mem).trans now.le
      cases isFirst : peekTimer platform
          { sim with state := { sim.state with arena := arena } } with
      | none =>
          rw [peekTimer, List.argmin_eq_none] at isFirst
          have present := (platform.order_perm 1 sim.timers).symm.subset mem
          rw [isFirst] at present
          cases present
      | some timer' =>
          have mem' := (platform.order_perm 1 sim.timers).symm.subset mem
          have least : timer'.nextAlert ≤ sim.ts :=
            (List.le_of_mem_argmin (f := OnceTimer.nextAlert) mem' isFirst).trans now.le
          have isDue : timer'.nextAlert = sim.ts := by
            refine Nat.le_antisymm least (serviceable.represented.timers timer' ?_)
            rw [← (platform.order_perm 1 sim.timers).mem_iff]
            exact List.argmin_mem isFirst
          have noInc : next - sim.ts = 0 := Nat.sub_eq_zero_of_le early
          simp only [maxMinFairness, if_neg limited, busy, Bool.false_eq_true, if_false, converge,
            candidates, first, unwrap, isFirst, noInc, isDue, and_self, if_true, bind, Except.bind]
          cases timer'.timerId with
          | none => exact ⟨_, rfl⟩
          | some timerId => exact ⟨_, rfl⟩

/-- A step comes to an end, by the number of buffered flows. -/
theorem Serviceable.step (serviceable : sim.Serviceable)
    (enough : sim.state.nextRef < platform.fuel) (limit : Option Timestamp) {fuel : ℕ}
    (turns : sim.state.flowBufs.entries.length + 2 ≤ fuel) :
    ∃ result, maxMinFairness platform limit fuel sim = .ok result := by
  induction fuel generalizing sim with
  | zero => omega
  | succ fuel ih =>
      by_cases limited : limit.any (· ≤ sim.ts) = true
      · exact serviceable.step_of_due enough (Or.inl limited) fuel
      cases busy : sim.idle with
      | true => exact ⟨_, by rw [maxMinFairness, if_neg limited, if_pos busy]⟩
      | false =>
          have few : sim.state.flowBufs.entries.length + sim.state.runningFlows.length <
              platform.fuel := serviceable.represented.lengths.trans_lt enough
          rcases serviceable.converge ((Nat.le_add_left _ _).trans_lt few) with
            ⟨arena, converge, core, filled, paced⟩
          rcases paced.nextTime platform limit busy with ⟨times, next, candidates, first, isNext⟩
          rcases filled.proceed paced limited candidates first
            ((Nat.le_add_right _ _).trans_lt few) with ⟨moved, comps, proceeded, isMoved, turn⟩
          rcases filled.represented.proceed_onward limited candidates first proceeded with
            ⟨ts, timers, _⟩
          rcases filled.represented.proceed_next limited candidates first proceeded with ⟨_, same⟩
          have enough' : moved.state.nextRef < platform.fuel := same.nextRef ▸ enough
          have rest : ∃ result, (if comps = [] then maxMinFairness platform limit fuel moved
              else .ok (moved, .flowComplete comps)) = .ok result := by
            by_cases nothing : comps = []
            · rw [if_pos nothing]
              rcases turn nothing with ⟨unended, _, shrinks⟩
              have positive : fuel = fuel - 1 + 1 := by omega
              rcases isNext.chosen with ⟨ref, mem, ends⟩ | ⟨entry, mem, starts⟩ |
                ⟨timer, isFirst, alerts⟩ | isLimit
              · exact absurd ends (unended ref mem)
              · have fewer := shrinks entry mem starts
                dsimp only at fewer
                exact ih isMoved enough' (by omega)
              · rw [positive]
                refine isMoved.step_of_due enough' (Or.inr ⟨timer, ?_, ?_⟩) _
                · rw [timers, ← (platform.order_perm 1 sim.timers).mem_iff]
                  exact List.argmin_mem isFirst
                · exact (ts.trans alerts).symm
              · rw [positive]
                refine isMoved.step_of_due enough' (Or.inl ?_) _
                simp [isLimit, ts]
            · rw [if_neg nothing]
              exact ⟨_, rfl⟩
          simp only [maxMinFairness, if_neg limited, busy, Bool.false_eq_true, if_false, converge,
            candidates, first, unwrap, bind, Except.bind]
          split
          · split
            · split
              · exact ⟨_, rfl⟩
              · exact ⟨_, rfl⟩
            · rw [proceeded]
              exact rest
          · rw [proceeded]
            exact rest

/-- A buffered flow gets a later start. -/
theorem Represented.updateFlowStartTs {flow : Flow} {newTs : Timestamp}
    (represented : sim.Represented) (run : sim.updateFlowStartTs flow newTs = .ok sim') :
    sim'.Represented ∧ sim'.state.nextRef = sim.state.nextRef ∧
      ∀ ref, (sim'.state.arena ref).flow = (sim.state.arena ref).flow ∧
        (sim'.state.arena ref).maxRate = (sim.state.arena ref).maxRate := by
  simp only [Simulator.updateFlowStartTs, NetState.updateFlowStartTs, bind_eq_ok, pure_eq_ok,
    unwrap_eq_ok, Prod.exists] at run
  rcases run with ⟨_, ⟨id, found, isFound, rfl⟩, rfl⟩
  have kept := represented.kept
  have other : ∀ ref, ∃ start, (sim.state.arena ref).ts ≤ start ∧
      (sim.state.arena.modify found fun f => { f with ts := max f.ts newTs }) ref =
        { sim.state.arena ref with ts := start } := by
    intro ref
    by_cases same : ref = found
    · subst ref
      exact ⟨_, le_max_left _ newTs, by simp [Arena.modify]⟩
    · exact ⟨_, le_rfl, by simp [Arena.modify, same]⟩
  have flow : ∀ ref, ((sim.state.arena.modify found fun f => { f with ts := max f.ts newTs })
      ref).flow = (sim.state.arena ref).flow := by
    intro ref
    rcases other ref with ⟨start, _, equal⟩
    rw [equal]
  refine ⟨⟨⟨⟨kept.ledger.perm, ?_, ?_⟩, ?_, ?_, ?_⟩, represented.timers⟩, rfl,
    fun ref => ⟨flow ref, ?_⟩⟩
  · intro id ref mem
    dsimp only
    rw [flow]
    exact kept.ledger.key mem
  · intro left right leftLt rightLt equal
    dsimp only at equal
    rw [flow, flow] at equal
    exact kept.ledger.ids leftLt rightLt equal
  · refine kept.indexed.congr rfl rfl rfl rfl fun ref _ => ?_
    rcases other ref with ⟨start, _, equal⟩
    dsimp only
    rw [equal]
  · intro entry mem
    rcases other entry.2 with ⟨start, later, equal⟩
    dsimp only
    rw [equal]
    exact (kept.ahead entry mem).trans_le later
  · refine kept.ordered.congr rfl fun ref _ => ?_
    rcases other ref with ⟨start, _, equal⟩
    dsimp only
    rw [equal]
  · rcases other ref with ⟨start, _, equal⟩
    dsimp only
    rw [equal]

/-- The records that a call brings. -/
def Access.records : Access → List TraceRecord
  | .input asked => asked.records
  | .updateFlowStart _ _ => []

/-- The simulator represents flows with the identifiers of the records. -/
structure Accessed (sim : Simulator) (records : List TraceRecord) : Prop where
  represented : sim.Represented
  ids : (List.range sim.state.nextRef).map (fun ref => (sim.state.arena ref).flow.id) =
    records.map (·.flow.id)
  maxRate : ∀ ref < sim.state.nextRef, (sim.state.arena ref).maxRate = u64Max

theorem Accessed.access {call : Access} {records : List TraceRecord}
    (accessed : sim.Accessed records)
    (distinct : ((records ++ call.records).map (·.flow.id)).Nodup)
    (run : sim.access platform call = .ok sim') : sim'.Accessed (records ++ call.records) := by
  cases call with
  | input input =>
      let held := (List.range sim.state.nextRef).map fun ref =>
        (⟨(sim.state.arena ref).ts, (sim.state.arena ref).flow, none⟩ : TraceRecord)
      have heldIds : held.map (·.flow.id) = records.map (·.flow.id) := by
        rw [← accessed.ids, List.map_map]
        rfl
      have holds : sim.state.Holds held := ⟨by rw [List.map_map]; rfl, accessed.maxRate⟩
      rw [List.map_append, ← heldIds, ← List.map_append] at distinct
      have step : Step platform sim input sim' := run
      rcases step.represented accessed.represented holds distinct with ⟨represented, holds'⟩
      refine ⟨represented, ?_, holds'.maxRate⟩
      have ids := congrArg (List.map Prod.snd) holds'.flows
      simp only [List.map_map, Function.comp_def] at ids
      rw [ids, Access.records, List.map_append, List.map_append, heldIds]
  | updateFlowStart flow newTs =>
      rcases accessed.represented.updateFlowStartTs run with ⟨represented, nextRef, same⟩
      refine ⟨represented, ?_, ?_⟩
      · simp only [nextRef, same, accessed.ids, Access.records, List.append_nil]
      · intro ref lt
        rw [(same ref).2]
        exact accessed.maxRate ref (nextRef ▸ lt)

theorem accessed_of_reached {calls : List Access}
    (reached : Runs.Reached Initial
      (fun sim call sim' => sim.access platform call = .ok sim') calls sim)
    (distinct : ((calls.flatMap Access.records).map (·.flow.id)).Nodup) :
    sim.Accessed (calls.flatMap Access.records) := by
  refine reached.invariant (fun calls sim =>
    ((calls.flatMap Access.records).map (·.flow.id)).Nodup →
      sim.Accessed (calls.flatMap Access.records)) ?_ ?_ distinct
  · rintro sim ⟨cluster, setting, hostMapping, rfl⟩ _
    exact ⟨represented_build cluster setting hostMapping, rfl,
      fun _ lt => absurd lt (Nat.not_lt_zero _)⟩
  · intro calls sim call sim' ih step distinct
    simp only [List.flatMap_append, List.flatMap_cons, List.flatMap_nil, List.append_nil]
      at distinct ⊢
    have before := distinct
    rw [List.map_append] at before
    exact (ih (List.nodup_append.mp before).1).access distinct step

/-- From every state reached, a step comes to an end and leaves nothing behind. -/
theorem runOneStep_lossless {calls : List Access}
    (reached : Runs.Reached Initial
      (fun sim call sim' => sim.access platform call = .ok sim') calls sim)
    (distinct : ((calls.flatMap Access.records).map (·.flow.id)).Nodup)
    (perFlow : sim.setting.fairness = .perFlowMaxMin)
    (bandwidth : ∀ link, sim.cluster.bandwidth link ≤ u64Max)
    (ample : ∀ link, (sim.pending.map fun ref =>
      (sim.state.arena ref).route.path.count link).sum ≤ sim.cluster.bandwidth link)
    (loopbackSpeed : sim.setting.loopbackSpeed ≤ u64Max)
    (positive : 0 < sim.setting.loopbackSpeed) (limit : Option Timestamp) (stepping : Platform)
    (enough : (calls.flatMap Access.records).length + 2 ≤ stepping.fuel) :
    ∃ sim' event, sim.runOneStep stepping limit = .ok (sim', event) ∧ event.ts = sim'.ts ∧
      Lossless limit sim sim' event.event := by
  have accessed := accessed_of_reached reached distinct
  have serviceable : sim.Serviceable :=
    ⟨accessed.represented, perFlow, accessed.maxRate, bandwidth, ample, loopbackSpeed,
      fun _ _ _ => positive⟩
  have count : sim.state.nextRef = (calls.flatMap Access.records).length := by
    simpa using congrArg List.length accessed.ids
  have few : sim.state.nextRef < stepping.fuel :=
    count ▸ (Nat.lt_add_of_pos_right two_pos).trans_le enough
  have turns : sim.state.flowBufs.entries.length + 2 ≤ stepping.fuel :=
    (Nat.add_le_add_right ((Nat.le_add_right _ _).trans accessed.represented.lengths) 2).trans
      (count ▸ enough)
  rcases serviceable.step few limit turns with ⟨⟨sim', kind⟩, run⟩
  refine ⟨sim', ⟨sim'.ts, kind⟩, ?_, rfl, accessed.represented.lossless run⟩
  simp only [runOneStep, bind_eq_ok, pure_eq_ok, Prod.exists]
  exact ⟨sim', kind, run, rfl⟩

/-- A flow that crosses links, one between a host and itself that starts later, and a timer. -/
def busy : List Access :=
  [.input (.onEvent (.flowArrive [
      ⟨0, { id := 0, bytes := 2000, src := "left", dst := "right" }, none⟩,
      ⟨500, { id := 1, bytes := 500, src := "left", dst := "left" }, none⟩])),
    .updateFlowStart { id := 1, bytes := 500, src := "left", dst := "left" } 700,
    .input (.onEvent (.userRegisterTimer 1000 none))]

theorem runOneStep_lossless_busy : ∃ sim,
    Runs.Reached Initial (fun sim call sim' => sim.access (.inOrder 20) call = .ok sim') busy sim ∧
      sim.pending = [1, 0] ∧ sim.timers.length = 1 ∧
      ∃ sim' event, sim.runOneStep (.inOrder 20) (some 5000) = .ok (sim', event) ∧
        event.ts = sim'.ts ∧ Lossless (some 5000) sim sim' event.event := by
  have read : (busy.foldlM (access (.inOrder 20)) (build .pair {} none)).toOption.map
      (fun sim => ((sim.cluster.links, sim.setting.fairness, sim.setting.loopbackSpeed),
        (sim.pending, sim.pending.map fun ref => (sim.state.arena ref).route.path,
          sim.timers.length))) =
        some ((Cluster.pair.links, .perFlowMaxMin, 400 * 1000000000),
          ([1, 0], [[], [0, 3]], 1)) := by
    decide +kernel
  rcases exists_ok_of_reading read with ⟨sim, run, reading⟩
  simp only [Prod.mk.injEq] at reading
  rcases reading with ⟨⟨links, perFlow, loopbackSpeed⟩, pending, paths, timers⟩
  have reached : Runs.Reached Initial
      (fun sim call sim' => sim.access (.inOrder 20) call = .ok sim') busy sim :=
    Runs.reached_of_foldlM id ⟨_, _, _, rfl⟩ run
  have small : ∀ link, sim.cluster.bandwidth link ≤ u64Max :=
    fun link => (bandwidth_lt_of_pair links link).le.trans (by decide)
  have ample : ∀ link, (sim.pending.map fun ref =>
      (sim.state.arena ref).route.path.count link).sum ≤ sim.cluster.bandwidth link := by
    intro link
    have counts := congrArg (List.map (List.count link)) paths
    rw [List.map_map] at counts
    simp only [Function.comp_def] at counts
    rw [counts, Cluster.bandwidth, links]
    by_cases used : link ∈ [0, 3]
    · rcases List.mem_pair.mp used with rfl | rfl <;> decide
    · simp [List.count_eq_zero_of_not_mem used]
  exact ⟨sim, reached, pending, timers, runOneStep_lossless reached (by decide) perFlow small
    ample (by rw [loopbackSpeed]; decide) (by rw [loopbackSpeed]; decide) _ _ (by decide)⟩

/-- A host and a switch that are each other's parents, so that a climb passes the first link
twice. -/
def looped : Cluster where
  nodes := [⟨"left", 4, true, [1], [2]⟩, ⟨"switch", 3, false, [3], [0, 8]⟩,
    ⟨"right", 4, true, [5], []⟩, ⟨"lower", 3, false, [7], [4]⟩, ⟨"upper", 2, false, [9], [6]⟩]
  links := [⟨1, 0, 1⟩, ⟨0, 1, 1⟩, ⟨0, 1, 1⟩, ⟨1, 0, 1⟩, ⟨3, 2, 1⟩, ⟨2, 3, 1⟩, ⟨4, 3, 1⟩, ⟨3, 4, 1⟩,
    ⟨1, 4, 1⟩, ⟨4, 1, 1⟩]
  nodeMap name := if name = "left" then some 0 else if name = "right" then some 2 else none

/-- One flow of one byte. -/
def oneByte : List Access :=
  [.input (.onEvent (.flowArrive [⟨0, { id := 0, bytes := 1, src := "left", dst := "right" },
    none⟩]))]

/-- The links have one bit a second for the one flow, whose route names a link twice: its share
of the link is zero. -/
theorem speedNotPositive_looped : ∃ sim,
    Runs.Reached Initial (fun sim call sim' => sim.access (.inOrder 20) call = .ok sim') oneByte
      sim ∧
      sim.setting.fairness = .perFlowMaxMin ∧ 0 < sim.setting.loopbackSpeed ∧
      (∀ link ∈ sim.cluster.links, link.bandwidth = 1) ∧ sim.pending = [0] ∧
      sim.runOneStep (.inOrder 20) none = .error .speedNotPositive := by
  have read : (oneByte.foldlM (access (.inOrder 20)) (build looped {} none)).toOption.map
      (fun sim => ((sim.setting.fairness, sim.setting.loopbackSpeed,
        sim.cluster.links.map Link.bandwidth), (sim.pending,
        match sim.runOneStep (.inOrder 20) none with
          | .ok _ => none
          | .error failure => some failure))) =
        some ((.perFlowMaxMin, 400 * 1000000000, List.replicate 10 1),
          ([0], some Panic.speedNotPositive)) := by
    decide +kernel
  rcases exists_ok_of_reading read with ⟨sim, run, reading⟩
  simp only [Prod.mk.injEq] at reading
  rcases reading with ⟨⟨perFlow, loopbackSpeed, bandwidths⟩, pending, failed⟩
  refine ⟨sim, Runs.reached_of_foldlM id ⟨_, _, _, rfl⟩ run, perFlow,
    by rw [loopbackSpeed]; decide, ?_, pending, ?_⟩
  · intro link mem
    have listed := List.mem_map_of_mem (f := Link.bandwidth) mem
    rw [bandwidths] at listed
    exact List.eq_of_mem_replicate listed
  · split at failed
    · cases failed
    · rename_i failure isFailure
      rw [isFailure, Option.some.inj failed]

end Simulator

end Phantora.Netsim
