import Phantora.Netsim.FluidRuns

/-!
# A replay computes the fluid schedule

The replayer starts the whole trace at once and waits, so that the simulator
never rolls back. The durations that it collects are those of the fluid schedule
of the trace, whatever the order of the trace.
-/

namespace Phantora.Netsim

open Outcome

variable {platform : Platform} {base : Simulator} {trace : List TraceRecord}
  {playing playing' : Playing Replayer}

namespace Playing

open Simulator

/-- The replayer has the completions that there were, and they follow the schedule. -/
structure Schedules (base : Simulator) (trace : List TraceRecord) (playing : Playing Replayer) :
    Prop where
  flowing : base.Flowing playing.sim playing.injected
  completed : playing.app.completed =
    playing.sim.state.retiredFlows.reverse.map playing.sim.completionOf
  /-- The trace arrives first. -/
  awaits : (playing.events = [.flowArrive trace] ∧ playing.injected = [] ∧ playing.sim = base ∧
      playing.finished = false) ∨
    (playing.injected = trace ∧ ∀ event ∈ playing.events, event = .appFinish)

/-- What the replayer does with what it is told. -/
theorem onEvent_replayer (replayer : Replayer) (appEvent : AppEvent)
    (started : appEvent.event ≠ .appStart) :
    (Replayer.application.onEvent replayer appEvent).1.completed =
        replayer.completed ++ appEvent.event.completions ∧
      ∀ event ∈ (Replayer.application.onEvent replayer appEvent).2, event = .appFinish := by
  cases told : appEvent.event with
  | appStart => exact absurd told started
  | flowComplete flows =>
      simp only [Replayer.application, told, AppEventKind.completions]
      split <;> simp
  | userNotification _ => simp [Replayer.application, told, AppEventKind.completions]
  | adapterNotification _ _ => simp [Replayer.application, told, AppEventKind.completions]

theorem Schedules.step (schedules : Schedules base trace playing) (distinct : trace.Nodup)
    (perFlow : base.setting.fairness = .perFlowMaxMin)
    (bandwidth : ∀ link, base.cluster.bandwidth link ≤ u64Max) {sim : Simulator}
    {appEvent : AppEvent} (idle : playing.events = [])
    (stepped : playing.sim.runOneStep platform none = .ok (sim, appEvent)) :
    Schedules base trace { playing with
      app := (Replayer.application.onEvent playing.app appEvent).1
      sim := sim
      events := (Replayer.application.onEvent playing.app appEvent).2
      told := playing.told ++ [appEvent] } := by
  have arrived : playing.injected = trace := by
    rcases schedules.awaits with ⟨first, _⟩ | ⟨arrived, _⟩
    · rw [idle] at first
      cases first
    · exact arrived
  have flowing := schedules.flowing
  rcases runOneStep_completes flowing.represented stepped with ⟨done, completes, report⟩
  simp only [runOneStep, bind_eq_ok, pure_eq_ok, Prod.exists, Prod.mk.injEq] at stepped
  rcases stepped with ⟨moved, kind, run, rfl, rfl⟩
  have started : kind ≠ .appStart := by
    rcases exists_turns_of_run run with ⟨last, _, halt⟩
    cases halt with
    | limited _ => simp
    | idle _ => simp
    | @fired _ _ _ timer _ _ _ _ _ _ =>
        unfold notification
        cases timer.timerId <;> simp
    | completed _ _ _ _ _ _ => simp
  rcases onEvent_replayer playing.app ⟨moved.ts, kind⟩ started with ⟨collects, finishes⟩
  refine ⟨?_, ?_, .inr ⟨arrived, finishes⟩⟩
  · exact flowing.maxMinFairness (arrived ▸ distinct) perFlow bandwidth run
  · dsimp only
    rw [collects, schedules.completed, report, completes.retired, List.reverse_append,
      List.reverse_reverse, List.map_append]
    congr 1
    apply List.map_congr_left
    intro ref mem
    exact (completes.completionOf_eq (List.mem_reverse.mp mem)).symm

theorem Schedules.next (schedules : Schedules base trace playing)
    (replayable : base.Replayable trace)
    (next : Playing.Next platform Replayer.application playing playing') :
    Schedules base trace playing' := by
  have flowing := schedules.flowing
  rcases next_eq_ok next.2 with ⟨event, events, sim, result, pending, handled, rfl⟩ |
    ⟨sim, appEvent, idle, stepped, rfl⟩
  · rcases schedules.awaits with ⟨first, nothing, isBase, _⟩ | ⟨arrived, finishes⟩
    · rw [pending] at first
      rcases List.cons_eq_cons.mp first with ⟨rfl, rfl⟩
      rcases replayable.arrive with ⟨expected, run, _, retired⟩
      rw [isBase, onEvent, run] at handled
      rcases Prod.mk.inj (Except.ok.inj handled) with ⟨rfl, rfl⟩
      have start : base.ts = 0 ∧ base.state.retiredFlows = [] := by
        rcases replayable.initial with ⟨cluster, setting, hostMapping, rfl⟩
        exact ⟨rfl, rfl⟩
      have early : base.Timely trace := fun _ _ _ => .inl (start.1 ▸ Nat.zero_le _)
      rw [isBase, nothing] at flowing
      refine ⟨?_, ?_, .inr ⟨?_, fun _ mem => absurd mem List.not_mem_nil⟩⟩
      · dsimp only
        rw [nothing]
        exact flowing.arrive replayable.distinct early run
      · have before := schedules.completed
        rw [isBase, start.2] at before
        dsimp only
        rw [before, retired]
        rfl
      · dsimp only
        rw [nothing, List.nil_append]
        rfl
    · have isFinish := finishes event (by rw [pending]; exact List.mem_cons_self)
      rw [isFinish, onEvent] at handled
      rcases Prod.mk.inj (Except.ok.inj handled) with ⟨rfl, rfl⟩
      have none : (Input.onEvent event).records = [] := by rw [isFinish]; rfl
      refine ⟨?_, schedules.completed, .inr ⟨?_, fun other mem => ?_⟩⟩
      · dsimp only
        rw [none, List.append_nil]
        exact flowing
      · dsimp only
        rw [none, List.append_nil, arrived]
      · exact finishes other (by rw [pending]; exact List.mem_cons_of_mem _ mem)
  · exact schedules.step (List.Nodup.of_map _ replayable.distinct) replayable.perFlow
      replayable.bandwidth idle stepped

end Playing

namespace Simulator

/-- A trace that lists the same flows in another order. -/
theorem Replayable.perm {trace' : List TraceRecord} (replayable : base.Replayable trace)
    (perm : trace.Perm trace') : base.Replayable trace' where
  initial := replayable.initial
  perFlow := replayable.perFlow
  nonempty := fun nil => replayable.nonempty (by rw [nil] at perm; exact perm.eq_nil)
  distinct := (perm.map _).nodup_iff.mp replayable.distinct
  routed record mem := replayable.routed record (perm.mem_iff.mpr mem)
  bandwidth := replayable.bandwidth
  ample link := ((perm.map _).sum_eq.symm.le).trans (replayable.ample link)
  loopbackSpeed := replayable.loopbackSpeed
  loopback record mem := replayable.loopback record (perm.mem_iff.mpr mem)

/-- The application comes to its end, and has then been told of every flow. -/
theorem Replayable.plays (replayable : base.Replayable trace)
    (enough : trace.length + 3 ≤ platform.fuel) :
    ∃ playing, Playing.loop platform Replayer.application platform.fuel
        (.start Replayer.application (Replayer.new trace) base) = .ok playing ∧
      playing.Ended base trace := by
  rcases replayable.arrive with ⟨arrived, run, replaying, retired⟩
  have begins : (Playing.start Replayer.application (Replayer.new trace) base).next platform
      Replayer.application = .ok ⟨Replayer.new trace, arrived, [], false, [⟨base.ts, .appStart⟩],
        trace⟩ := by
    simp only [Playing.next, Playing.start, Replayer.application, onEvent, Replayer.new, run, bind,
      Except.bind, pure, Except.pure]
    rfl
  have awaits : Playing.Awaits base trace ⟨Replayer.new trace, arrived, [], false,
      [⟨base.ts, .appStart⟩], trace⟩ := by
    refine ⟨replaying, rfl, ?_, rfl, rfl, ?_⟩
    · dsimp only
      rw [retired]
      rfl
    · dsimp only
      rw [retired]
      exact List.length_pos_iff.mpr replayable.nonempty
  have few : trace.length < platform.fuel := by omega
  have turns : trace.length + 2 ≤ platform.fuel - 1 + arrived.state.retiredFlows.length := by
    rw [retired, List.length_nil]
    omega
  rcases awaits.ends replayable few turns with ⟨playing, rest, ended⟩
  refine ⟨playing, ?_, ended⟩
  have fuel : platform.fuel = platform.fuel - 1 + 1 := by omega
  rw [fuel]
  simp only [Playing.loop, begins, bind, Except.bind]
  exact rest

/-- The flows of the records finish, and the reports say when. -/
structure Scheduled (base : Simulator) (records out : List TraceRecord) : Prop where
  finishes : ∀ record ∈ records,
    (base.fluid records).Finishes record ((base.fluid records).finish record)
  reports : (out.map fun report => (report.ts, report.flow.id, report.dura)).Perm
    (records.map fun record => (record.ts, record.flow.id,
      some ((base.fluid records).finish record - record.ts)))

theorem Scheduled.perm {records records' out : List TraceRecord}
    (scheduled : base.Scheduled records out) (perm : records.Perm records') :
    base.Scheduled records' out := by
  have load := fluid_eq_of_perm base perm
  constructor
  · rw [load]
    exact fun record mem => scheduled.finishes record (perm.mem_iff.mpr mem)
  · rw [load]
    exact scheduled.reports.trans (perm.map _)

theorem scheduled_of_loop {records : List TraceRecord} {playing : Playing Replayer} {fuel : ℕ}
    (replayable : base.Replayable records)
    (loop : Playing.loop platform Replayer.application fuel
      (.start Replayer.application (Replayer.new records) base) = .ok playing)
    (ended : playing.Ended base records) : base.Scheduled records playing.app.completed := by
  rcases Playing.reached_of_loop loop with ⟨reached, final⟩
  have begins : Playing.Schedules base records
      (.start Replayer.application (Replayer.new records) base) := by
    rcases replayable.initial with ⟨cluster, setting, hostMapping, rfl⟩
    exact ⟨flowing_build cluster setting hostMapping, rfl, .inl ⟨rfl, rfl, rfl, rfl⟩⟩
  have schedules : Playing.Schedules base records playing := by
    clear ended loop final
    induction reached with
    | refl => exact begins
    | tail _ last ih => exact ih.next replayable last
  have arrived : playing.injected = records := by
    rcases schedules.awaits with ⟨first, _⟩ | ⟨arrived, _⟩
    · rw [Playing.isOver, first] at final
      cases final
    · exact arrived
  have flowing := schedules.flowing
  rw [arrived] at flowing
  have count := flowing.carries.count
  have retired : playing.sim.state.retiredFlows.Perm (List.range records.length) := by
    have perm := flowing.represented.kept.ledger.perm
    have lengths := perm.length_eq
    rw [count] at perm
    rw [NetState.refs, List.length_append, List.length_range, count, ended.all] at lengths
    have none : playing.sim.state.buffered ++ playing.sim.state.runningFlows = [] :=
      List.eq_nil_of_length_eq_zero (Nat.add_eq_right.mp lengths)
    rwa [NetState.refs, none, List.nil_append] at perm
  have ends : ∀ {ref : FlowRef} {record : TraceRecord}, records[ref]? = some record →
      (base.fluid records).Finishes record (playing.sim.state.arena ref).endTs := by
    intro ref record known
    have lt := (List.getElem?_eq_some_iff.mp known).1
    exact (flowing.follows.rests known (retired.mem_iff.mpr (List.mem_range.mpr lt))).1
  constructor
  · intro record mem
    rcases List.getElem?_of_mem mem with ⟨ref, known⟩
    rw [(ends known).finish_eq]
    exact ends known
  · rw [schedules.completed, List.map_map]
    refine (((List.reverse_perm _).trans retired).map _).trans (List.Perm.of_eq ?_)
    refine List.ext_getElem (by simp) fun ref lt lt' => ?_
    rw [List.length_map] at lt'
    have known := List.getElem?_eq_getElem lt'
    have bears := flowing.carries.bears known
    simp [completionOf, NetState.completionRecord, bears.ts, bears.id, (ends known).finish_eq]

/-- In whatever order a trace lists its flows, the replay gives each of them the duration that it
has in the fluid schedule. -/
theorem runWithTrace_scheduled (base : Simulator) (records listed : List TraceRecord)
    (replayable : base.Replayable records) (perm : records.Perm listed) (platform : Platform)
    (enough : listed.length + 3 ≤ platform.fuel) :
    ∃ out, base.runWithTrace platform listed = .ok out ∧ base.Scheduled records out := by
  have replayable' := replayable.perm perm
  rcases replayable'.plays enough with ⟨playing, loop, ended⟩
  refine ⟨playing.app.completed, ?_, (scheduled_of_loop replayable' loop ended).perm perm.symm⟩
  simp only [runWithTrace, runWithApplication, bind_eq_ok, pure_eq_ok]
  exact ⟨playing, loop, rfl⟩

theorem runWithTrace_scheduled_overlapping : ∃ out,
    (build .pair {} none).runWithTrace (.inOrder 20) overlapping.reverse = .ok out ∧
      (build .pair {} none).Scheduled overlapping out :=
  runWithTrace_scheduled _ _ _ replayable_overlapping (List.reverse_perm _).symm _ (by decide)

end Simulator

end Phantora.Netsim
