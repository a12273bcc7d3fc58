import Mathlib.Order.Interval.Set.Defs
import Mathlib.Order.Interval.Finset.Nat
import Mathlib.Order.WellFoundedSet
import Phantora.EventQueue.CausalRuns
import Phantora.EventQueue.Graph
import Phantora.EventQueue.Spots

/-!
# No wake-up is lost

The invariants of the small steps hold between calls, so they hold along every
run. When nothing is left to execute, what still waits has an open barrier or
waits for itself.
-/

namespace Phantora

open Outcome

namespace EventQueue

variable {platform : Platform} {agenda agenda' : Agenda} {queue queue' : EventQueue}

/-- The invariants of the queue between calls. -/
structure Tracked (queue : EventQueue) : Prop where
  flows : Flows [] queue
  waits : Waits [] queue
  spots : Spots [] queue

theorem Initial.tracked (initial : Initial queue) : Tracked queue := by
  rcases initial with ⟨cluster, setting, hostMapping, rfl⟩
  have noRef : ∀ {ref}, ¬ref < (Netsim.Simulator.build cluster setting hostMapping).state.nextRef :=
    fun lt => Nat.not_lt_zero _ lt
  have unqueued : ∀ event,
    ¬(new (Netsim.Simulator.build cluster setting hostMapping)).Queued event :=
    fun event ⟨_, mem⟩ => PriorityQueue.not_mem_empty _ mem
  have nowhere : ∀ e spot,
      ¬Spotted [] (new (Netsim.Simulator.build cluster setting hostMapping)) e spot := by
    intro e spot here
    cases spot with
    | waiting => exact absurd rfl here
    | launching => simp [Spotted] at here
    | starting => exact absurd here.2 (unqueued _)
    | reaching => exact absurd here (unqueued _)
    | moving =>
        rcases here with ⟨ref, carries, _⟩
        exact absurd carries.1 noRef
    | completing => simp [Spotted] at here
    | ending => exact absurd here (unqueued _)
    | finishing => simp [Spotted] at here
    | ended => exact absurd rfl here
  refine ⟨⟨Netsim.Simulator.sound_build cluster setting hostMapping, ?_, ?_, ?_, ?_,
    ?_, ?_, ?_, ?_⟩,
    ⟨?_, ?_, ?_, ?_, ?_, ?_, ?_⟩, ⟨?_, ?_, ?_, ?_, ?_, Agenda.deferred_nil⟩⟩
  · exact fun lt => absurd lt noRef
  · exact fun known => absurd known.symm (Option.some_ne_none _)
  · exact fun _ => ⟨rfl, rfl⟩
  · exact fun known => absurd known.symm (Option.some_ne_none _)
  · exact fun mem => absurd mem List.not_mem_nil
  · exact fun mem => absurd mem List.not_mem_nil
  · exact fun mem => absurd mem List.not_mem_nil
  · exact fun known => absurd known.symm (Option.some_ne_none _)
  · exact fun mem => absurd mem List.not_mem_nil
  · exact fun known => absurd known.symm (Option.some_ne_none _)
  · exact fun known => absurd known.symm (Option.some_ne_none _)
  · exact fun mem => absurd mem List.not_mem_nil
  · exact fun known => absurd known.symm (Option.some_ne_none _)
  · exact fun mem => absurd mem List.not_mem_nil
  · exact List.nodup_nil
  · exact fun lt => absurd lt (Nat.not_lt_zero _)
  · exact fun here => absurd here (nowhere _ _)
  · exact fun _ here => absurd here (nowhere _ _)
  · exact fun isFlow => absurd rfl isFlow
  · exact fun queued => absurd queued (unqueued _)

/-- Small steps from one call to the next keep the invariants. -/
theorem Works.tracked (works : Works platform ([], queue) ([], queue')) (tracked : Tracked queue) :
    Tracked queue' := by
  have all := works.invariant
    (fun config => Flows config.1 config.2 ∧ Waits config.1 config.2 ∧ Spots config.1 config.2)
    (fun {first second} before small =>
      ⟨flows_small before.1 before.2.2.deferred small, waits_small before.1 before.2.1 small,
        spots_small before.1 before.2.2 small⟩)
    ⟨tracked.flows, tracked.waits, tracked.spots⟩
  exact ⟨all.1, all.2.1, all.2.2⟩

theorem Step.tracked {call : Call} (step : Step platform queue call queue')
    (valid : call.Valid queue) (tracked : Tracked queue) : Tracked queue' :=
  (step.works valid).tracked tracked

theorem popEvent_eq_none (empty : queue.popEvent platform = none) (event : QueueEvent) :
    ¬queue.Queued event := by
  rintro ⟨priority, mem⟩
  simp only [popEvent, PriorityQueue.pop, Option.map_map, Option.map_eq_none_iff] at empty
  exact (PriorityQueue.peek_eq_none (platform.order_perm 0 _)).mp empty _ mem

theorem tryProceedNetsim_stuck (flows : Flows [] queue)
    (run : queue.tryProceedNetsim platform = .ok (queue', false)) :
    queue'.eventQueue = queue.eventQueue ∧ ∀ e, ¬queue'.Moving e := by
  simp only [tryProceedNetsim, bind_eq_ok, Prod.exists] at run
  rcases run with ⟨middle, appEventTs, records, stepped, run⟩
  rcases netsimRunOneStep_eq_ok stepped with ⟨netsim, taken, rfl⟩
  rcases move_eq_ok flows.sound taken with ⟨done, moved, _, rfl, idle⟩
  split at run
  · rename_i nothing
    simp only [pure_eq_ok, Prod.mk.injEq, and_true] at run
    subst run
    refine ⟨rfl, ?_⟩
    rintro e ⟨ref, carries, moves⟩
    apply moves
    exact moved.sound.retired_of_idle (idle (List.map_eq_nil_iff.mp nothing)) carries.1
  · simp only [bind_eq_ok, pure_eq_ok, Prod.mk.injEq, Bool.true_eq_false, and_false,
      exists_false] at run

theorem executeEvent_ne_emptyQueue {event : QueueEvent} {time : ℤ} :
    queue.executeEvent platform event time ≠ .ok (queue', .emptyQueue) := by
  intro run
  cases event <;>
    simp only [executeEvent, bind_eq_ok, pure_eq_ok, Prod.mk.injEq, reduceCtorEq, and_false,
      exists_false] at run

/-- When there is nothing to execute, nothing is queued and the network is idle. -/
theorem execute_emptyQueue (tracked : Tracked queue)
    (run : queue.execute platform = .ok (queue', .emptyQueue)) :
    (∀ event, ¬queue'.Queued event) ∧ ∀ e, ¬queue'.Moving e := by
  have general : ∀ fuel queue, Tracked queue →
      executeLoop platform fuel queue = .ok (queue', .emptyQueue) →
      (∀ event, ¬queue'.Queued event) ∧ ∀ e, ¬queue'.Moving e := by
    intro fuel
    induction fuel with
    | zero =>
        intro queue _ run
        simp [executeLoop] at run
    | succ fuel ih =>
        intro queue tracked run
        simp only [executeLoop] at run
        split at run
        · rename_i empty
          simp only [bind_eq_ok, Prod.exists] at run
          rcases run with ⟨middle, proceeded, tried, run⟩
          split at run
          · exact ih middle ((works_tryProceedNetsim tried).tracked tracked) run
          · rename_i stuck
            simp only [pure_eq_ok, Prod.mk.injEq, and_true] at run
            subst run
            rw [Bool.not_eq_true] at stuck
            subst stuck
            rcases tryProceedNetsim_stuck tracked.flows tried with ⟨same, idle⟩
            refine ⟨?_, idle⟩
            intro event queued
            rw [Queued, same] at queued
            exact popEvent_eq_none empty event queued
        · exact absurd run executeEvent_ne_emptyQueue
  exact general _ _ tracked run

/-- The call names only events that exist. -/
def Call.NamesIssued (queue : EventQueue) : Call → Prop
  | .addActionOrPoint dependsOn _ _ => ∀ dep ∈ dependsOn, ∀ d ∈ dep, d < queue.eventCounter
  | .addDependency id dep => id < queue.eventCounter ∧ ∀ d ∈ dep, d < queue.eventCounter
  | _ => True

instance (queue : EventQueue) (call : Call) : Decidable (call.NamesIssued queue) := by
  cases call <;> unfold Call.NamesIssued <;> infer_instance

/-- A call that names only events that exist. -/
def IssuedStep (platform : Platform) (queue : EventQueue) (call : Call) (queue' : EventQueue) :
    Prop :=
  Step platform queue call queue' ∧ call.NamesIssued queue

theorem Call.NamesIssued.valid {call : Call} (issued : call.NamesIssued queue)
    (newFlow : ∀ e known, queue.eventToFlow e = some known → call.flowId ≠ some known.id) :
    call.Valid queue := by
  cases call with
  | addActionOrPoint dependsOn action time =>
      refine ⟨fun d mem => issued (some d) mem d rfl, ?_⟩
      intro flow e known isFlow old same
      exact newFlow e known old (by simp [Call.flowId, isFlow, same])
  | addDependency id dep => exact ⟨issued.1, fun d same => issued.2 d same⟩
  | removeNoneDependency id => trivial
  | peekNextTime => trivial
  | execute => trivial

/-- The flows known are those that the calls have brought. -/
theorem flowId_mem_of_reached {calls : List Call}
    (reached : Runs.Reached Initial (IssuedStep platform) calls queue) :
    ∀ e flow, queue.eventToFlow e = some flow → flow.id ∈ calls.filterMap Call.flowId := by
  induction reached with
  | start initial =>
      rcases initial with ⟨cluster, setting, hostMapping, rfl⟩
      exact fun e flow known => absurd known.symm (Option.some_ne_none _)
  | step _ step ih =>
      intro e flow known
      rw [List.filterMap_append, List.mem_append]
      rcases step_eventToFlow step.1 known with old | new
      · exact Or.inl (ih e flow old)
      · exact Or.inr (by simp [new])

/-- The next call of a run brings a new flow, if any, and names events that exist. -/
theorem valid_of_reached {calls : List Call} {call : Call}
    (reached : Runs.Reached Initial (IssuedStep platform) calls queue)
    (distinct : DistinctFlows (calls ++ [call])) (issued : call.NamesIssued queue) :
    call.Valid queue := by
  unfold DistinctFlows at distinct
  rw [List.filterMap_append, List.nodup_append] at distinct
  refine issued.valid ?_
  intro e known old same
  refine distinct.2.2 known.id (flowId_mem_of_reached reached e known old) known.id ?_ rfl
  simp [same]

theorem tracked_of_reached {calls : List Call}
    (reached : Runs.Reached Initial (IssuedStep platform) calls queue)
    (distinct : DistinctFlows calls) : Tracked queue := by
  induction reached with
  | start initial => exact initial.tracked
  | step before step ih =>
      exact step.1.tracked (valid_of_reached before distinct step.2) (ih distinct.of_append)

/-- An invariant of the small steps, as far as flows are tracked, holds in every state reached. -/
theorem invariant_of_reached {P : EventQueue → Prop}
    (initial : ∀ {queue}, Initial queue → P queue)
    (small : ∀ {first second : Agenda × EventQueue}, Flows first.1 first.2 → P first.2 →
      Small platform first second → P second.2)
    {calls : List Call} (reached : Runs.Reached Initial (IssuedStep platform) calls queue)
    (distinct : DistinctFlows calls) : P queue := by
  induction reached with
  | start isNew => exact initial isNew
  | @step calls queue queue' call before step ih =>
      have tracked := tracked_of_reached before distinct.of_append
      have works := step.1.works (valid_of_reached before distinct step.2)
      refine (works.invariant (fun config => (Flows config.1 config.2 ∧ Spots config.1 config.2) ∧
        P config.2) ?_ ⟨⟨tracked.flows, tracked.spots⟩, ih distinct.of_append⟩).2
      rintro first second ⟨⟨flows, spots⟩, holds⟩ taken
      exact ⟨⟨flows_small flows spots.deferred taken, spots_small flows spots taken⟩,
        small flows holds taken⟩

namespace Tracked

/-- An event that waits for nothing is released within the call. -/
theorem waits_for_something (tracked : Tracked queue) {e : EventId} {p : Pending}
    (known : queue.pending e = some p) : p.dependencies ≠ ∅ := by
  intro empty
  have released := (tracked.waits.idle known).mp empty
  cases released

/-- No event is lost. -/
theorem located (tracked : Tracked queue) {e : EventId} (issued : e < queue.eventCounter) :
    queue.pending e ≠ none ∨ (∃ event, QueueEvent.id event = e ∧ queue.Queued event) ∨
      queue.Moving e ∨ queue.ended e ≠ none := by
  rcases tracked.spots.located issued with ⟨spot, here⟩
  cases spot with
  | waiting => exact Or.inl here
  | launching => simp [Spotted] at here
  | starting => exact Or.inr (Or.inl ⟨.startOf e, rfl, here.2⟩)
  | reaching => exact Or.inr (Or.inl ⟨.pointOf e, rfl, here⟩)
  | moving => exact Or.inr (Or.inr (Or.inl here))
  | completing => simp [Spotted] at here
  | ending => exact Or.inr (Or.inl ⟨.endOf e, rfl, here⟩)
  | finishing => simp [Spotted] at here
  | ended => exact Or.inr (Or.inr (Or.inr here))

/-- A pending event is nowhere else. -/
theorem pending_only (tracked : Tracked queue) {e : EventId} (waiting : queue.pending e ≠ none) :
    (∀ event, QueueEvent.id event = e → ¬queue.Queued event) ∧ ¬queue.Moving e ∧
      queue.ended e = none := by
  rcases Option.ne_none_iff_exists'.mp waiting with ⟨p, known⟩
  have uncarried := (tracked.flows.pending known).2
  have unengaged : ¬Engaged [] queue e := by
    intro engaged
    by_cases noFlow : queue.eventToFlow e = none
    · have waits : Spotted [] queue e .waiting := waiting
      have alone : ∀ spot, spot ≠ .waiting → ¬Spotted [] queue e spot :=
        fun spot differs here => differs (tracked.spots.unique noFlow here waits)
      rcases engaged with queued | ending | finishing | ended
      · exact alone .starting (by simp) ⟨noFlow, queued⟩
      · exact alone .ending (by simp) ending
      · exact alone .finishing (by simp) finishing
      · exact alone .ended (by simp) ended
    · rcases tracked.spots.carried noFlow engaged with ⟨ref, carries⟩
      exact uncarried ref carries
  refine ⟨?_, ?_, ?_⟩
  · rintro event rfl queued
    cases event with
    | startOf e => exact unengaged (Or.inl queued)
    | endOf e => exact unengaged (Or.inr (Or.inl queued))
    | pointOf e =>
        have reaching : Spotted [] queue e .reaching := queued
        have waits : Spotted [] queue e .waiting := waiting
        exact absurd (tracked.spots.unique (tracked.spots.points queued) reaching waits) (by simp)
  · rintro ⟨ref, carries, _⟩
    exact uncarried ref carries
  · by_contra ended
    exact unengaged (Or.inr (Or.inr (Or.inr ended)))

/-- Without barriers and without cycles nothing is left to wait when nothing is left to execute. -/
theorem drained (tracked : Tracked queue) (unqueued : ∀ event, ¬queue.Queued event)
    (idle : ∀ e, ¬queue.Moving e) (acyclic : ∀ e, ¬queue.Before e e)
    (open_ : ∀ e p, queue.pending e = some p → none ∉ p.dependencies) (e : EventId) :
    queue.pending e = none := by
  -- induction along the graph, which is well-founded on the finitely many events
  have order : IsStrictOrder EventId queue.Before :=
    { irrefl := acyclic, trans := fun _ _ _ => Relation.TransGen.trans }
  have founded : (Set.Iio queue.eventCounter).WellFoundedOn queue.Before :=
    (Set.finite_Iio queue.eventCounter).wellFoundedOn
  have step : ∀ e < queue.eventCounter,
      (∀ d < queue.eventCounter, queue.Before d e → queue.pending d = none) →
        queue.pending e = none := by
    intro e issued ih
    by_contra waiting
    rcases Option.ne_none_iff_exists'.mp waiting with ⟨p, known⟩
    rcases Finset.nonempty_of_ne_empty (tracked.waits_for_something known) with ⟨dep, mem⟩
    cases dep with
    | none => exact open_ e p known mem
    | some d =>
        rcases tracked.waits.unended known mem with ⟨unended, rev⟩
        have issued := tracked.waits.issued known mem
        rcases tracked.located issued with here | ⟨event, _, queued⟩ | moving | ended
        · exact here (ih d issued (.single rev))
        · exact unqueued event queued
        · exact idle d moving
        · exact ended unended
  by_cases issued : e < queue.eventCounter
  · exact founded.induction issued step
  · exact (tracked.flows.issued (not_lt.mp issued)).1

end Tracked

/-- In every state reached each pending event waits for something, knows what it waits for and
is known there, no event is lost, and a pending event is nowhere else; without barriers and
cycles nothing is pending when the queue has drained. -/
theorem no_lost_wakeup {calls : List Call}
    (reached : Runs.Reached Initial (IssuedStep platform) calls queue)
    (distinct : DistinctFlows calls) :
    (∀ e p, queue.pending e = some p → p.dependencies ≠ ∅ ∧
      ∀ d, some d ∈ p.dependencies → d < queue.eventCounter ∧ queue.ended d = none ∧
        e ∈ queue.revDependencies d) ∧
    (∀ e < queue.eventCounter, queue.pending e ≠ none ∨
      (∃ event, QueueEvent.id event = e ∧ queue.Queued event) ∨ queue.Moving e ∨
        queue.ended e ≠ none) ∧
    (∀ e, queue.pending e ≠ none → (∀ event, QueueEvent.id event = e → ¬queue.Queued event) ∧
      ¬queue.Moving e ∧ queue.ended e = none) ∧
    ((∀ e, ¬queue.Before e e) → ∀ queue', queue.execute platform = .ok (queue', .emptyQueue) →
      (∀ e p, queue'.pending e = some p → none ∉ p.dependencies) →
        ∀ e, queue'.pending e = none) := by
  have tracked := tracked_of_reached reached distinct
  refine ⟨?_, ?_, ?_, ?_⟩
  · intro e p known
    refine ⟨tracked.waits_for_something known, ?_⟩
    intro d mem
    exact ⟨tracked.waits.issued known mem, tracked.waits.unended known mem⟩
  · intro e issued
    exact tracked.located issued
  · intro e waiting
    exact tracked.pending_only waiting
  · intro acyclic queue' run open_
    rcases execute_emptyQueue tracked run with ⟨unqueued, idle⟩
    have grows := executeLoop_grows run
    refine ((works_execute run).tracked tracked).drained unqueued idle ?_ open_
    intro e cycle
    refine acyclic e ?_
    rw [Before, show queue.Precedes = queue'.Precedes by
      funext d e
      rw [Precedes, Precedes, grows.revDependencies]]
    exact cycle

/-- A call that names only events that exist. -/
def performIssued (platform : Platform) (queue : EventQueue) (call : Call) :
    Except Panic EventQueue := do
  assert (call.NamesIssued queue) Panic.dependencyOfReleased
  performAlone platform queue call

theorem issuedStep_of_performIssued {call : Call}
    (run : performIssued platform queue call = .ok queue') :
    IssuedStep platform queue call queue' := by
  simp only [performIssued, bind_eq_ok, assert_eq_ok] at run
  rcases run with ⟨_, issued, run⟩
  exact ⟨step_of_performAlone run, issued⟩

/-- A run in which the first flow ends twice. -/
theorem no_lost_wakeup_of_lateFlow :
    ∃ queue, Runs.Reached Initial (IssuedStep (.inOrder 20)) lateFlow queue ∧
      queue.eventCounter = 3 ∧ ∀ e < 3, queue.pending e ≠ none ∨
        (∃ event, QueueEvent.id event = e ∧ queue.Queued event) ∨ queue.Moving e ∨
          queue.ended e ≠ none := by
  have read : (lateFlow.foldlM (performIssued (.inOrder 20)) pairQueue).toOption.map
      EventQueue.eventCounter = some 3 := by decide +kernel
  rcases exists_ok_of_reading read with ⟨queue, run, counter⟩
  have reached : Runs.Reached Initial (IssuedStep (.inOrder 20)) lateFlow queue :=
    Runs.reached_of_foldlM issuedStep_of_performIssued initial_pairQueue run
  refine ⟨queue, reached, counter, ?_⟩
  intro e issued
  exact (no_lost_wakeup reached (by decide)).2.1 e (counter ▸ issued)

end EventQueue

end Phantora
