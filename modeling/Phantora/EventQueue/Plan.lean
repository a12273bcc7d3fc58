import Mathlib.Data.List.ReduceOption
import Phantora.EventQueue.Schedule
import Phantora.Lib.Forward

/-!
# Planned times

When no event brings a flow and none has a barrier, the span of every event is
known as soon as it is added: it is the one that its job has among those of all
events. The queue records no other, has recorded all when nothing is left to
execute, and looking ahead passes none that is due.
-/

namespace Phantora

open Outcome

namespace EventQueue

variable {platform : Platform} {queue queue' : EventQueue}

/-- No pending event brings a flow or has a barrier. -/
def Clear (queue : EventQueue) : Prop :=
  ∀ e p, queue.pending e = some p → none ∉ p.dependencies ∧ flowOf p.action = none

/-- What a step does to the recorded ends: it records the one that it reports. -/
def Records (queue queue' : EventQueue) (step : QueueStep) : Prop :=
  match step with
  | .emptyQueue => queue'.ended = queue.ended
  | .eventStarted _ _ => queue'.ended = queue.ended
  | .eventEnded id time =>
      ∃ start, queue'.ended = Function.update queue.ended id (some (start, time))
  | .reachedPoint id time =>
      ∃ start, queue'.ended = Function.update queue.ended id (some (start, time))

theorem Clear.congr (clear : Clear queue) (pending : queue'.pending = queue.pending) :
    Clear queue' := by
  intro e p known
  rw [pending] at known
  exact clear e p known

/-- A push without a flow changes neither what is pending nor what has ended. -/
theorem push_local {e : EventId} {action : Option Action} {time : ℤ}
    (noFlow : flowOf action = none)
    (run : queue.push platform (pushOf e action) time = .ok queue') :
    queue'.pending = queue.pending ∧ queue'.ended = queue.ended := by
  rw [push] at run
  cases fuel : platform.fuel with
  | zero => simp [fuel, pushEvent] at run
  | succ =>
    rw [fuel] at run
    rcases action with _ | ⟨node, duration, info⟩ | ⟨flow, info⟩
    · simp only [pushOf, pushEvent, Except.ok.injEq] at run
      exact run ▸ ⟨rfl, rfl⟩
    · simp only [pushOf, pushEvent, Except.ok.injEq] at run
      exact run ▸ ⟨rfl, rfl⟩
    · simp [flowOf] at noFlow

theorem push_end {e : EventId} {time : ℤ} (run : queue.push platform (.endOf e) time = .ok queue') :
    queue'.pending = queue.pending ∧ queue'.ended = queue.ended := by
  rw [(pushes_pushEvent platform platform.fuel).ends run]
  exact ⟨rfl, rfl⟩

/-- The end of an event is recorded, and nothing else. -/
theorem endEvent_clear {e : EventId} {startTime endTime : ℤ}
    (run : queue.endEvent platform e startTime endTime = .ok queue') (clear : Clear queue) :
    Clear queue' ∧ queue'.ended = Function.update queue.ended e (some (startTime, endTime)) := by
  simp only [endEvent, endEventWith] at run
  rcases noteEndeds_eq e endTime (platform.order (queue.finished e startTime endTime).log.length
    ((queue.finished e startTime endTime).revDependencies e))
    (queue.finished e startTime endTime) []
    with ⟨pending, released, folded, changed, _⟩
  rw [finished] at folded changed
  rw [folded, List.nil_append] at run
  refine foldlM_invariant (fun middle => Clear middle ∧
    middle.ended = Function.update queue.ended e (some (startTime, endTime))) ?_ ⟨?_, rfl⟩ run
  · rintro middle id last _ ⟨clear, same⟩ step
    rcases release_eq_ok step with ⟨p, known, pushed⟩
    rcases push_local (clear id p known).2 pushed with ⟨pendings, ends⟩
    refine ⟨?_, ends.trans same⟩
    intro other p known
    rw [pendings] at known
    by_cases isEvent : other = id
    · subst isEvent
      simp at known
    · dsimp only at known
      rw [Function.update_of_ne isEvent] at known
      exact clear other p known
  · intro other p known
    dsimp only at known
    rw [changed] at known
    split at known
    · rcases Option.map_eq_some_iff.mp known with ⟨p, old, rfl⟩
      have before := clear other p old
      rw [Pending.dependencies_noted, Pending.action_noted]
      exact ⟨fun mem => before.1 (Finset.mem_of_mem_erase mem), before.2⟩
    · exact clear other p known

theorem tryProceedNetsim_local {proceeded : Bool}
    (run : queue.tryProceedNetsim platform = .ok (queue', proceeded)) :
    queue'.pending = queue.pending ∧ queue'.ended = queue.ended := by
  simp only [tryProceedNetsim, bind_eq_ok, Prod.exists] at run
  rcases run with ⟨middle, appEventTs, records, stepped, run⟩
  rcases netsimRunOneStep_eq_ok stepped with ⟨netsim, _, rfl⟩
  split at run
  · simp only [pure_eq_ok, Prod.mk.injEq] at run
    exact run.1 ▸ ⟨rfl, rfl⟩
  · simp only [bind_eq_ok, pure_eq_ok, Prod.mk.injEq] at run
    rcases run with ⟨final, queued, rfl, _⟩
    have start : ({ queue with netsim := netsim } : EventQueue).pending = queue.pending ∧
        ({ queue with netsim := netsim } : EventQueue).ended = queue.ended := ⟨rfl, rfl⟩
    refine foldlM_invariant (fun middle : EventQueue =>
      middle.pending = queue.pending ∧ middle.ended = queue.ended) ?_ start queued
    rintro middle r last _ ⟨pendings, ends⟩ step
    simp only [queueFlowEnd, bind_eq_ok] at step
    rcases step with ⟨_, _, _, _, _, _, pushed⟩
    rcases push_end pushed with ⟨pendings', ends'⟩
    exact ⟨pendings'.trans pendings, ends'.trans ends⟩

theorem peekNextTime_local {time : Option ℤ}
    (run : queue.peekNextTime platform = .ok (queue', time)) :
    queue'.pending = queue.pending ∧ queue'.ended = queue.ended := by
  have general : ∀ fuel queue, peekNextTimeLoop platform fuel queue = .ok (queue', time) →
      queue'.pending = queue.pending ∧ queue'.ended = queue.ended := by
    intro fuel
    induction fuel with
    | zero =>
        intro queue run
        simp [peekNextTimeLoop] at run
    | succ fuel ih =>
        intro queue run
        simp only [peekNextTimeLoop] at run
        split at run
        · simp only [Except.ok.injEq, Prod.mk.injEq] at run
          exact run.1 ▸ ⟨rfl, rfl⟩
        · simp only [bind_eq_ok, Prod.exists] at run
          rcases run with ⟨middle, proceeded, tried, run⟩
          rcases tryProceedNetsim_local tried with ⟨pendings, ends⟩
          split at run
          · rcases ih middle run with ⟨pendings', ends'⟩
            exact ⟨pendings'.trans pendings, ends'.trans ends⟩
          · simp only [pure_eq_ok, Prod.mk.injEq] at run
            exact run.1 ▸ ⟨pendings, ends⟩
  exact general _ _ run

theorem executeEvent_clear {event : QueueEvent} {time : ℤ} {step : QueueStep}
    (run : queue.executeEvent platform event time = .ok (queue', step)) (clear : Clear queue) :
    Clear queue' ∧ Records queue queue' step := by
  cases event with
  | pointOf id =>
      simp only [executeEvent, bind_eq_ok, pure_eq_ok, Prod.mk.injEq] at run
      rcases run with ⟨final, ended, rfl, rfl⟩
      rcases endEvent_clear ended clear with ⟨clear, ends⟩
      exact ⟨clear, time, ends⟩
  | endOf id =>
      simp only [executeEvent, bind_eq_ok, pure_eq_ok, Prod.mk.injEq] at run
      rcases run with ⟨start, _, final, ended, rfl, rfl⟩
      rcases endEvent_clear ended (clear.congr rfl) with ⟨clear, ends⟩
      exact ⟨clear, start, ends⟩
  | startOf id =>
      simp only [executeEvent, bind_eq_ok, pure_eq_ok, Prod.mk.injEq] at run
      rcases run with ⟨action, _, middle, scheduled, rfl, rfl⟩
      have same : middle.pending = queue.pending ∧ middle.ended = queue.ended := by
        cases action with
        | computation node duration info =>
            rcases push_end scheduled with ⟨pendings, ends⟩
            exact ⟨pendings, ends⟩
        | communication flow info =>
            simp only [scheduleEnd, Except.ok.injEq] at scheduled
            exact scheduled ▸ ⟨rfl, rfl⟩
      exact ⟨clear.congr same.1, same.2⟩

theorem Records.congr {middle : EventQueue} {step : QueueStep}
    (records : Records middle queue' step)
    (same : middle.ended = queue.ended) : Records queue queue' step := by
  cases step with
  | emptyQueue | eventStarted _ _ | eventEnded _ _ | reachedPoint _ _ =>
      simpa only [Records, same] using records

theorem execute_clear {step : QueueStep} (clear : Clear queue)
    (run : queue.execute platform = .ok (queue', step)) :
    Clear queue' ∧ Records queue queue' step := by
  have general : ∀ fuel queue, Clear queue → executeLoop platform fuel queue = .ok (queue', step) →
      Clear queue' ∧ Records queue queue' step := by
    intro fuel
    induction fuel with
    | zero =>
        intro queue _ run
        simp [executeLoop] at run
    | succ fuel ih =>
        intro queue clear run
        simp only [executeLoop] at run
        split at run
        · simp only [bind_eq_ok, Prod.exists] at run
          rcases run with ⟨middle, proceeded, tried, run⟩
          rcases tryProceedNetsim_local tried with ⟨pendings, ends⟩
          split at run
          · rcases ih middle (clear.congr pendings) run with ⟨clear, records⟩
            exact ⟨clear, records.congr ends⟩
          · simp only [pure_eq_ok, Prod.mk.injEq] at run
            rcases run with ⟨rfl, rfl⟩
            exact ⟨clear.congr pendings, ends⟩
        · rename_i event eventTime popped first
          rcases popEvent_eq_some first with ⟨_, rfl⟩
          rcases executeEvent_clear run (clear.congr rfl) with ⟨clear, records⟩
          exact ⟨clear, records.congr rfl⟩
  exact general _ _ clear run

theorem addActionOrPoint_clear {dependsOn : List (Option EventId)} {action : Option Action}
    {time : ℤ} {id : EventId} (clear : Clear queue) (noFlow : flowOf action = none)
    (free : none ∉ dependsOn)
    (run : queue.addActionOrPoint platform dependsOn action time = .ok (queue', id)) :
    Clear queue' ∧ queue'.ended = queue.ended := by
  simp only [addActionOrPoint] at run
  rcases registerDependencies_eq queue.eventCounter dependsOn (queue.issue dependsOn action time) ∅
    time with ⟨rev, depends, time', registered, _, _, _, members, _⟩
  rw [registered] at run
  dsimp only at run
  split at run
  · simp only [bind_eq_ok, pure_eq_ok, Prod.mk.injEq] at run
    rcases run with ⟨final, pushed, rfl, _⟩
    rcases push_local noFlow pushed with ⟨pendings, ends⟩
    exact ⟨clear.congr pendings, ends⟩
  · simp only [pure_eq_ok, Prod.mk.injEq] at run
    rcases run with ⟨rfl, _⟩
    refine ⟨?_, rfl⟩
    intro e p known
    dsimp only at known
    by_cases isNew : e = queue.eventCounter
    · subst isNew
      rw [Function.update_self, Option.some.injEq] at known
      subst known
      refine ⟨fun mem => ?_, noFlow⟩
      have dep := (members none).mp mem
      simp only [Finset.notMem_empty, false_or] at dep
      exact free dep.1
    · rw [Function.update_of_ne isNew] at known
      exact clear e p known

/-- What a call adds: dependencies, an action and a time. -/
abbrev Addition := List (Option EventId) × Option Action × ℤ

/-- The job that an addition stands for. -/
def jobOf (addition : Addition) : Forward.Job ℤ where
  follows := addition.1.reduceOption
  release := addition.2.2
  duration := durationOf addition.2.1

/-- The spans of the events that have been added. -/
def planned (added : List Addition) : List (ℤ × ℤ) :=
  Forward.spans (added.map jobOf)

/-- The end that is planned for an event. -/
def plannedEnd (added : List Addition) (e : EventId) : Option ℤ :=
  ((planned added)[e]?).map Prod.snd

@[simp]
theorem length_planned (added : List Addition) : (planned added).length = added.length := by
  simp [planned]

theorem planned_concat (added : List Addition) (addition : Addition) :
    planned (added ++ [addition]) = planned added ++ [(jobOf addition).span (planned added)] := by
  rw [planned, List.map_append, List.map_singleton, Forward.spans_concat]
  rfl

/-- The end of one event. -/
theorem endsAt_singleton (added : List Addition) (e : EventId) :
    Forward.endsAt (planned added) [some e].reduceOption = (plannedEnd added e).toList := by
  cases plan : (planned added)[e]? <;> simp [Forward.endsAt, plannedEnd, plan]

/-- The additions bring no flows, have no barriers, and no time is negative. -/
structure Foreseen (platform : Platform) (added : List Addition) (queue : EventQueue) : Prop where
  reached : ∃ calls, Runs.Reached Initial (IssuedStep platform) calls queue ∧
    (∀ call ∈ calls, call.Local) ∧ additions calls = added
  nonneg : ∀ addition ∈ added, 0 ≤ addition.2.2
  free : ∀ addition ∈ added, none ∉ addition.1
  clear : Clear queue

theorem flowId_of_local {call : Call} (isLocal : call.Local) : call.flowId = none := by
  cases call with
  | addActionOrPoint dependsOn action time =>
      rw [Call.flowId, Option.isNone_iff_eq_none.mp isLocal]
      rfl
  | addDependency | removeNoneDependency | peekNextTime | execute => rfl

theorem plain_of_reached {calls : List Call}
    (reached : Runs.Reached Initial (IssuedStep platform) calls queue)
    (locals : ∀ call ∈ calls, call.Local) : Plain queue := by
  refine (reached.invariant (fun calls queue => (∀ call ∈ calls, call.Local) →
    Listed calls queue ∧ Plain queue) ?_ ?_ locals).2
  · exact fun initial _ => ⟨initial.listed, initial.plain⟩
  · intro calls queue call queue' before step locals
    rcases before fun call mem => locals call (List.mem_append_left _ mem) with ⟨listed, plain⟩
    have isLocal := locals call (List.mem_append_right _ List.mem_cons_self)
    exact ⟨step.listed listed, plain_step isLocal listed plain step.1⟩

namespace Foreseen

variable {added : List Addition}

theorem start (initial : Initial queue) : Foreseen platform [] queue := by
  refine ⟨⟨[], .start initial, fun _ mem => absurd mem List.not_mem_nil, rfl⟩,
    fun _ mem => absurd mem List.not_mem_nil, fun _ mem => absurd mem List.not_mem_nil, ?_⟩
  rcases initial with ⟨cluster, setting, hostMapping, rfl⟩
  exact fun _ _ known => absurd known.symm (Option.some_ne_none _)

theorem timed (foreseen : Foreseen platform added queue) : Exact [] queue := by
  rcases foreseen.reached with ⟨calls, reached, locals, rfl⟩
  exact (exact_of_reached reached locals).1

theorem plain (foreseen : Foreseen platform added queue) : Plain queue := by
  rcases foreseen.reached with ⟨calls, reached, locals, rfl⟩
  exact plain_of_reached reached locals

theorem tracked (foreseen : Foreseen platform added queue) : Tracked queue := by
  rcases foreseen.reached with ⟨calls, reached, locals, rfl⟩
  refine tracked_of_reached reached ?_
  rw [DistinctFlows, List.filterMap_eq_nil_iff.mpr fun call mem =>
    flowId_of_local (locals call mem)]
  exact List.nodup_nil

theorem counter (foreseen : Foreseen platform added queue) :
    queue.eventCounter = added.length := by
  rcases foreseen.reached with ⟨calls, reached, locals, rfl⟩
  exact (exact_of_reached reached locals).2.counter

theorem recordOf (foreseen : Foreseen platform added queue) (e : EventId) :
    queue.recordOf e = added[e]? := by
  rcases foreseen.reached with ⟨calls, reached, locals, rfl⟩
  exact (exact_of_reached reached locals).2.recordOf e

theorem earlier (foreseen : Foreseen platform added queue) {e d : EventId} {addition : Addition}
    (known : added[e]? = some addition) (mem : some d ∈ addition.1) : d < e := by
  rcases foreseen.reached with ⟨calls, reached, locals, rfl⟩
  exact (exact_of_reached reached locals).2.earlier ⟨_, _, _, known, mem⟩

/-- A planned span is the one that the dependencies give. -/
theorem planned_eq (foreseen : Foreseen platform added queue) {e : EventId} {addition : Addition}
    (known : added[e]? = some addition) :
    (planned added)[e]? = some ((jobOf addition).span (planned added)) := by
  refine Forward.getElem?_spans ?_ fun d mem => ?_
  · rw [List.getElem?_map, known]
    rfl
  · exact foreseen.earlier known (List.reduceOption_mem_iff.mp mem)

/-- What starts, starts as planned. -/
theorem starts (foreseen : Foreseen platform added queue) {e : EventId} {action : Option Action}
    {start : ℤ} (starts : queue.Starts e action start) :
    (planned added)[e]? = some (start, start + durationOf action) := by
  induction e using Nat.strong_induction_on generalizing action start with
  | _ e ih =>
      rcases id starts with ⟨dependsOn, time, record, _⟩
      rcases starts.isGreatest record with ⟨_, ended, upper, last⟩
      have known : added[e]? = some (dependsOn, action, time) :=
        (foreseen.recordOf e).symm.trans record
      have waits : start ∈ queue.waitsUntil dependsOn time := by
        refine last.resolve_right fun negative => ?_
        exact absurd (foreseen.nonneg _ (List.mem_of_getElem? known)) (not_le.mpr negative.1)
      -- the dependencies have ended as planned
      have ends : ∀ {d span}, some d ∈ dependsOn → queue.ended d = some span →
          (planned added)[d]? = some span := by
        rintro d ⟨startTime, endTime⟩ mem known'
        rcases foreseen.timed.ended known' with ⟨action, starts, rfl⟩
        exact ih d (foreseen.earlier known mem) starts
      have first : Forward.latest time
          (Forward.endsAt (planned added) dependsOn.reduceOption) = start := by
        refine Forward.latest_eq_of ?_ (upper (.inl rfl)) fun other mem => ?_
        · refine waits.imp_right ?_
          rintro ⟨d, startTime, mem, known'⟩
          exact Forward.mem_endsAt.mpr
            ⟨d, List.reduceOption_mem_iff.mpr mem, startTime, ends mem known'⟩
        · rcases Forward.mem_endsAt.mp mem with ⟨d, mem, startTime, plan⟩
          have mem := List.reduceOption_mem_iff.mp mem
          rcases Option.ne_none_iff_exists'.mp (ended d mem) with ⟨span, known'⟩
          rw [ends mem known', Option.some.injEq] at plan
          exact upper (.inr ⟨d, startTime, mem, plan ▸ known'⟩)
      rw [foreseen.planned_eq known, Forward.Job.span]
      simp only [jobOf, first]

/-- What has ended, has ended as planned. -/
theorem ended (foreseen : Foreseen platform added queue) {e : EventId} {span : ℤ × ℤ}
    (known : queue.ended e = some span) : (planned added)[e]? = some span := by
  rcases span with ⟨startTime, endTime⟩
  rcases foreseen.timed.ended known with ⟨action, starts, rfl⟩
  exact foreseen.starts starts

theorem query (foreseen : Foreseen platform added queue) {e : EventId} {time : ℤ}
    (known : queue.query e = some time) : plannedEnd added e = some time := by
  rcases Option.map_eq_some_iff.mp known with ⟨span, ended, rfl⟩
  rw [plannedEnd, foreseen.ended ended]
  rfl

/-- An event that has ended has been added. -/
theorem lt_of_ended (foreseen : Foreseen platform added queue) {e : EventId}
    (ended : queue.ended e ≠ none) : e < added.length := by
  rcases Option.ne_none_iff_exists'.mp ended with ⟨span, known⟩
  have lt := (List.getElem?_eq_some_iff.mp (foreseen.ended known)).1
  rwa [length_planned] at lt

theorem call (foreseen : Foreseen platform added queue) {call : Call}
    (step : IssuedStep platform queue call queue') (isLocal : call.Local)
    (nothing : call.addition? = none) (clear : Clear queue') :
    Foreseen platform added queue' := by
  rcases foreseen.reached with ⟨calls, reached, locals, rfl⟩
  refine ⟨⟨calls ++ [call], reached.step step, ?_, ?_⟩, foreseen.nonneg, foreseen.free, clear⟩
  · intro other mem
    rcases List.mem_append.mp mem with mem | mem
    · exact locals other mem
    · exact List.mem_singleton.mp mem ▸ isLocal
  · simp [additions, nothing]

theorem add (foreseen : Foreseen platform added queue) {dependsOn : List (Option EventId)}
    {action : Option Action} {time : ℤ} {id : EventId} (noFlow : flowOf action = none)
    (free : none ∉ dependsOn) (issued : ∀ d, some d ∈ dependsOn → d < added.length)
    (nonneg : 0 ≤ time)
    (run : queue.addActionOrPoint platform dependsOn action time = .ok (queue', id)) :
    Foreseen platform (added ++ [(dependsOn, action, time)]) queue' ∧ id = added.length ∧
      queue'.ended = queue.ended := by
  rcases addActionOrPoint_clear foreseen.clear noFlow free run with ⟨clear, ends⟩
  rcases addActionOrPoint_graph run with ⟨rfl, _⟩
  refine ⟨?_, foreseen.counter, ends⟩
  rcases id foreseen.reached with ⟨calls, reached, locals, rfl⟩
  have step : IssuedStep platform queue (.addActionOrPoint dependsOn action time) queue' := by
    refine ⟨⟨.created queue.eventCounter, ?_⟩, ?_⟩
    · simp only [perform, run, bind, Except.bind, pure, Except.pure]
    · rintro dep mem d rfl
      exact foreseen.counter ▸ issued d mem
  refine ⟨⟨calls ++ [.addActionOrPoint dependsOn action time], reached.step step, ?_, ?_⟩, ?_, ?_,
    clear⟩
  · intro other mem
    rcases List.mem_append.mp mem with mem | mem
    · exact locals other mem
    · rw [List.mem_singleton.mp mem]
      exact Option.isNone_iff_eq_none.mpr noFlow
  · simp [additions, Call.addition?]
  · intro addition mem
    rcases List.mem_append.mp mem with mem | mem
    · exact foreseen.nonneg addition mem
    · exact List.mem_singleton.mp mem ▸ nonneg
  · intro addition mem
    rcases List.mem_append.mp mem with mem | mem
    · exact foreseen.free addition mem
    · exact List.mem_singleton.mp mem ▸ free

theorem peek (foreseen : Foreseen platform added queue) {time : Option ℤ}
    (run : queue.peekNextTime platform = .ok (queue', time)) :
    Foreseen platform added queue' ∧ queue'.ended = queue.ended := by
  rcases peekNextTime_local run with ⟨pendings, ends⟩
  exact ⟨foreseen.call ⟨peekNextTime_step run, trivial⟩ trivial rfl (foreseen.clear.congr pendings),
    ends⟩

theorem execute (foreseen : Foreseen platform added queue) {step : QueueStep}
    (run : queue.execute platform = .ok (queue', step)) :
    Foreseen platform added queue' ∧ Records queue queue' step := by
  rcases execute_clear foreseen.clear run with ⟨clear, records⟩
  exact ⟨foreseen.call ⟨execute_step run, trivial⟩ trivial rfl clear, records⟩

theorem of_precedes (foreseen : Foreseen platform added queue) {d e : EventId}
    (precedes : e ∈ queue.revDependencies d) :
    ∃ addition, added[e]? = some addition ∧ some d ∈ addition.1 := by
  rcases foreseen.plain.recorded precedes with ⟨dependsOn, action, time, record, mem⟩
  exact ⟨_, (foreseen.recordOf e).symm.trans record, mem⟩

theorem not_moving (foreseen : Foreseen platform added queue) (e : EventId) : ¬queue.Moving e := by
  rintro ⟨ref, carries, _⟩
  exact foreseen.tracked.flows.not_carries (foreseen.plain.flowless e) ref carries

/-- When nothing is queued everything has ended. -/
theorem drained (foreseen : Foreseen platform added queue)
    (unqueued : ∀ event, ¬queue.Queued event) {e : EventId} (issued : e < added.length) :
    queue.ended e ≠ none := by
  have before_lt : ∀ {d e}, queue.Before d e → d < e := by
    intro d e before
    induction before with
    | single precedes =>
        rcases foreseen.of_precedes precedes with ⟨addition, known, mem⟩
        exact foreseen.earlier known mem
    | tail _ precedes ih =>
        rcases foreseen.of_precedes precedes with ⟨addition, known, mem⟩
        exact ih.trans (foreseen.earlier known mem)
  have nothing := foreseen.tracked.drained unqueued foreseen.not_moving
    (fun e cycle => Nat.lt_irrefl e (before_lt cycle))
    (fun e p known => (foreseen.clear e p known).1)
  rcases foreseen.tracked.located (foreseen.counter ▸ issued) with
    here | ⟨event, _, queued⟩ | moving | ended
  · exact absurd (nothing e) here
  · exact absurd queued (unqueued event)
  · exact absurd moving (foreseen.not_moving e)
  · exact ended

theorem execute_emptyQueue (foreseen : Foreseen platform added queue)
    (run : queue.execute platform = .ok (queue', .emptyQueue)) {e : EventId}
    (issued : e < added.length) : queue'.ended e ≠ none :=
  (foreseen.execute run).1.drained (EventQueue.execute_emptyQueue foreseen.tracked run).1 issued

/-- When there is no next time nothing is queued; otherwise it is that of the first entry. -/
theorem peek_first (foreseen : Foreseen platform added queue) {time : Option ℤ}
    (run : queue.peekNextTime platform = .ok (queue', time)) :
    time = (queue'.eventQueue.peek (platform.order 0) id).map fun entry => (ofLex entry.2).1 := by
  have general : ∀ fuel queue, Flows [] queue → Spots [] queue → Waits [] queue →
      peekNextTimeLoop platform fuel queue = .ok (queue', time) →
      time = (queue'.eventQueue.peek (platform.order 0) id).map fun entry => (ofLex entry.2).1 := by
    intro fuel
    induction fuel with
    | zero =>
        intro queue _ _ _ run
        simp [peekNextTimeLoop] at run
    | succ fuel ih =>
        intro queue flows spots waits run
        simp only [peekNextTimeLoop] at run
        split at run
        · rename_i entry first
          simp only [Except.ok.injEq, Prod.mk.injEq] at run
          rcases run with ⟨rfl, rfl⟩
          rw [first]
          rfl
        · rename_i empty
          simp only [bind_eq_ok, Prod.exists] at run
          rcases run with ⟨middle, proceeded, tried, run⟩
          split at run
          · have tracked := (works_tryProceedNetsim tried).tracked ⟨flows, waits, spots⟩
            exact ih middle tracked.flows tracked.spots tracked.waits run
          · rename_i stuck
            simp only [pure_eq_ok, Prod.mk.injEq] at run
            rcases run with ⟨rfl, rfl⟩
            rw [Bool.not_eq_true] at stuck
            subst stuck
            rw [(tryProceedNetsim_stuck flows tried).1, empty]
            rfl
  exact general _ _ foreseen.tracked.flows foreseen.tracked.spots foreseen.tracked.waits run

theorem peek_none (foreseen : Foreseen platform added queue)
    (run : queue.peekNextTime platform = .ok (queue', none)) {e : EventId}
    (issued : e < added.length) : queue'.ended e ≠ none := by
  refine (foreseen.peek run).1.drained ?_ issued
  rintro event ⟨priority, mem⟩
  have empty := (Option.map_eq_none_iff.mp (foreseen.peek_first run).symm)
  exact (PriorityQueue.peek_eq_none (platform.order_perm 0 _)).mp empty _ mem

/-- What has not ended ends no earlier than the next time. -/
theorem due (foreseen : Foreseen platform added queue) {time : ℤ}
    (durations : ∀ addition ∈ added, 0 ≤ durationOf addition.2.1)
    (run : queue.peekNextTime platform = .ok (queue', some time)) {e : EventId} {span : ℤ × ℤ}
    (plan : (planned added)[e]? = some span) (unended : queue'.ended e = none) : time ≤ span.2 := by
  have foreseen' := (foreseen.peek run).1
  rcases Option.map_eq_some_iff.mp (foreseen.peek_first run).symm with ⟨first, isFirst, rfl⟩
  have queued : ∀ {event time' counter}, (event, toLex (time', counter)) ∈ queue'.eventQueue →
      (ofLex first.2).1 ≤ time' := by
    intro event time' counter mem
    have le := PriorityQueue.key_le_of_peek (platform.order_perm 0 _) isFirst mem
    exact (Prod.Lex.le_iff.mp le).elim le_of_lt fun same => same.1.le
  have lasts : ∀ {e : EventId} {span : ℤ × ℤ}, (planned added)[e]? = some span →
      span.1 ≤ span.2 := by
    intro e span plan
    have lt := (List.getElem?_eq_some_iff.mp plan).1
    rw [length_planned] at lt
    have known := List.getElem?_eq_getElem lt
    rw [foreseen.planned_eq known, Option.some.injEq] at plan
    rw [← plan]
    exact le_add_of_nonneg_right (durations _ (List.getElem_mem lt))
  induction e using Nat.strong_induction_on generalizing span with
  | _ e ih =>
      have lt := (List.getElem?_eq_some_iff.mp plan).1
      rw [length_planned] at lt
      rcases foreseen'.tracked.located (foreseen'.counter ▸ lt) with
        waits | ⟨event, rfl, priority, mem⟩ | moving | ended
      · rcases Option.ne_none_iff_exists'.mp waits with ⟨p, known⟩
        rcases Finset.nonempty_of_ne_empty (foreseen'.tracked.waits_for_something known) with
          ⟨dep, mem⟩
        cases dep with
        | none => exact absurd mem (foreseen'.clear e p known).1
        | some d =>
            rcases foreseen'.tracked.waits.unended known mem with ⟨unended, rev⟩
            rcases foreseen'.of_precedes rev with ⟨addition, isAdded, mem⟩
            have before := foreseen.earlier isAdded mem
            have ltd : d < (planned added).length := by
              rw [length_planned]
              exact before.trans lt
            have plan' := List.getElem?_eq_getElem ltd
            refine (ih d before plan' unended).trans (le_trans ?_ (lasts plan))
            rw [foreseen.planned_eq isAdded, Option.some.injEq] at plan
            rw [← plan]
            refine Forward.le_latest_of_mem _ (Forward.mem_endsAt.mpr ⟨d, ?_, _, plan'⟩)
            exact List.reduceOption_mem_iff.mpr mem
      · cases event with
        | startOf e =>
            rcases foreseen'.timed.starting mem with ⟨action, _, starts⟩
            have same := foreseen'.starts starts
            rw [QueueEvent.id] at plan
            rw [plan, Option.some.injEq] at same
            exact (queued mem).trans (le_trans (by rw [same]) (lasts plan))
        | pointOf e =>
            have same := foreseen'.starts (foreseen'.timed.reaching mem)
            rw [QueueEvent.id] at plan
            rw [plan, Option.some.injEq] at same
            exact (queued mem).trans (le_trans (by rw [same]) (lasts plan))
        | endOf e =>
            rcases foreseen'.timed.ending mem with ⟨action, start, _, starts, ends⟩
            have same := foreseen'.starts starts
            rw [QueueEvent.id] at plan
            rw [plan, Option.some.injEq] at same
            refine (queued mem).trans ?_
            rw [same]
            exact ends.le
      · exact absurd moving (foreseen'.not_moving e)
      · exact absurd unended ended

end Foreseen

end EventQueue

end Phantora
