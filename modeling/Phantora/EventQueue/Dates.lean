import Phantora.EventQueue.Schedule

/-!
# No point is reached too early

Wherever a point is, the time it has there is not before the time of the call that
added it, whatever the network takes back. Points are no flows, so no completion
moves them, and what they wait for only delays them.
-/

namespace Phantora

open Outcome

/-- What an answer reports: an event and its end. -/
def QueueStep.report? : QueueStep → Option (EventId × ℤ)
  | .eventEnded id time => some (id, time)
  | .reachedPoint id time => some (id, time)
  | _ => none

namespace EventQueue

variable {platform : Platform} {agenda agenda' : Agenda} {queue queue' : EventQueue} {e : EventId}
  {time : ℤ}

/-- The task is about something else or not before a time. -/
def Task.NotBefore (e : EventId) (time : ℤ) : Task → Prop
  | .launch e' action start => e' = e → action = none ∧ time ≤ start
  | .board e' _ _ _ => e' ≠ e
  | .finish e' _ endTime => e' = e → time ≤ endTime
  | _ => True

/-- The point is nowhere before a time. -/
structure NotBefore (agenda : Agenda) (queue : EventQueue) (e : EventId) (time : ℤ) : Prop where
  flowless : queue.eventToFlow e = none
  waiting : ∀ {p}, queue.pending e = some p → p.action = none ∧ time ≤ p.arriveTime
  tasks : ∀ task ∈ agenda, task.NotBefore e time
  entries : ∀ {event start k}, (event, toLex (start, k)) ∈ queue.eventQueue → event.id = e →
    event = .pointOf e ∧ time ≤ start
  ended : ∀ {startTime endTime}, queue.ended e = some (startTime, endTime) → time ≤ endTime

namespace NotBefore

/-- Nothing changes for the point but what remains to be done. -/
theorem keep (notBefore : NotBefore agenda queue e time)
    (eventToFlow : queue'.eventToFlow e = queue.eventToFlow e)
    (pending : ∀ p', queue'.pending e = some p' → ∃ p, queue.pending e = some p ∧
      p'.action = p.action ∧ p'.arriveTime = p.arriveTime)
    (tasks : ∀ task ∈ agenda', task ∈ agenda ∨ task.NotBefore e time)
    (entries : ∀ event priority, (event, priority) ∈ queue'.eventQueue → event.id = e →
      (event, priority) ∈ queue.eventQueue)
    (ended : queue'.ended e = queue.ended e) : NotBefore agenda' queue' e time where
  flowless := eventToFlow.trans notBefore.flowless
  waiting known := by
    rcases pending _ known with ⟨p, old, action, arriveTime⟩
    rw [action, arriveTime]
    exact notBefore.waiting old
  tasks task mem := (tasks task mem).elim (notBefore.tasks task) id
  entries mem isEvent := notBefore.entries (entries _ _ mem isEvent) isEvent
  ended known := notBefore.ended (ended ▸ known)

/-- The tail of the agenda. -/
theorem tail {task : Task} (notBefore : NotBefore (task :: agenda) queue e time) :
    NotBefore agenda queue e time :=
  { notBefore with tasks := fun other mem => notBefore.tasks other (List.mem_cons_of_mem _ mem) }

theorem head {task : Task} (notBefore : NotBefore (task :: agenda) queue e time) :
    task.NotBefore e time :=
  notBefore.tasks task List.mem_cons_self

/-- An entry of another event, or one that is not too early. -/
theorem push (notBefore : NotBefore agenda queue e time) (event : QueueEvent) (start : ℤ)
    (counter : ℕ) (late : event.id = e → event = .pointOf e ∧ time ≤ start) :
    NotBefore agenda (queue.pushEntry event start counter) e time := by
  refine { notBefore with entries := ?_ }
  intro other start' k mem isEvent
  rcases PriorityQueue.mem_push.mp mem with ⟨rfl, same⟩ | ⟨_, old⟩
  · cases same
    exact late isEvent
  · exact notBefore.entries old isEvent

/-- Only the dependencies of a pending event change. -/
theorem amend (notBefore : NotBefore agenda queue e time) {other : EventId} {p : Pending}
    (dependencies : Finset (Option EventId)) (known : queue.pending other = some p)
    (tasks : ∀ task ∈ agenda', task ∈ agenda ∨ task.NotBefore e time) :
    NotBefore agenda' { queue with
      pending := Function.update queue.pending other
        (some { p with dependencies := dependencies }) } e time := by
  refine notBefore.keep rfl ?_ tasks (fun _ _ mem _ => mem) rfl
  intro p' known'
  dsimp only at known'
  by_cases same : e = other
  · subst same
    rw [Function.update_self, Option.some.injEq] at known'
    subst known'
    exact ⟨p, known, rfl, rfl⟩
  · rw [Function.update_of_ne same] at known'
    exact ⟨p', known', rfl, rfl⟩

/-- The end of an event is recorded. -/
theorem finish {other : EventId} {startTime endTime : ℤ} {pending : EventId → Option Pending}
    {released : List EventId}
    (notBefore : NotBefore (.finish other startTime endTime :: agenda) queue e time)
    (noted : Noted queue other endTime pending released) :
    NotBefore (released.map .release ++ agenda)
      { queue.finished other startTime endTime with pending := pending } e time where
  flowless := notBefore.flowless
  waiting known := by
    rcases noted.eq_some known with ⟨p, old, rfl | ⟨_, rfl⟩⟩
    · exact notBefore.waiting old
    · rw [Pending.action_noted, Pending.arriveTime_noted]
      exact notBefore.waiting old
  tasks task mem := by
    rcases List.mem_append.mp mem with mem | mem
    · rcases List.mem_map.mp mem with ⟨_, _, rfl⟩
      trivial
    · exact notBefore.tail.tasks task mem
  entries := notBefore.entries
  ended {start last} known := by
    by_cases same : e = other
    · subst same
      simp only [finished, recordTimelineSpan, Function.update_self, Option.some.injEq,
        Prod.mk.injEq] at known
      rcases known with ⟨_, rfl⟩
      exact notBefore.head rfl
    · simp only [finished, recordTimelineSpan, Function.update_of_ne same] at known
      exact notBefore.ended known

/-- What is not before a time stays so in a small step. -/
theorem small (notBefore : NotBefore agenda queue e time) (flows : Flows agenda queue)
    (issued : e < queue.eventCounter)
    (small : Small platform (agenda, queue) (agenda', queue')) :
    NotBefore agenda' queue' e time := by
  cases small with
  | note => exact { notBefore with }
  | @release _ _ other p known =>
      refine notBefore.tail.keep rfl ?_ ?_ (fun _ _ mem _ => mem) rfl
      · intro p' known'
        exact ⟨p', eq_some_of_update_none known', rfl, rfl⟩
      · intro task mem
        rcases List.mem_cons.mp mem with rfl | mem
        · refine .inr fun isEvent => ?_
          subst isEvent
          exact (notBefore.waiting known).imp_right fun le => le.trans (le_max_right _ _)
        · exact .inl mem
  | @point _ _ other start counter =>
      refine notBefore.tail.push _ _ counter fun isEvent => ?_
      have isEvent : other = e := isEvent
      exact ⟨by rw [isEvent], (notBefore.head isEvent).2⟩
  | @compute _ _ other node duration start info counter =>
      have differs : other ≠ e := fun isEvent =>
        Option.some_ne_none _ (notBefore.head isEvent).1
      have pushed := notBefore.tail.push (.startOf other) start counter
        fun isEvent => absurd isEvent differs
      exact { pushed with }
  | @arrive _ _ other flow info start netsim result nonneg arrival =>
      have differs : other ≠ e := fun isEvent =>
        Option.some_ne_none _ (notBefore.head isEvent).1
      refine notBefore.tail.keep rfl (fun p known => ⟨p, known, rfl, rfl⟩) ?_
        (fun _ _ mem _ => mem) rfl
      intro task mem
      rcases List.mem_cons.mp mem with rfl | mem
      · exact .inr differs
      · exact .inl mem
  | @board _ _ other flow info start counter =>
      have pushed := notBefore.tail.push (.startOf other) start counter
        fun isEvent => absurd isEvent notBefore.head
      exact { pushed with }
  | landed => exact notBefore.tail
  | move =>
      refine notBefore.keep rfl (fun p known => ⟨p, known, rfl, rfl⟩) ?_ (fun _ _ mem _ => mem) rfl
      intro task mem
      rcases List.mem_append.mp mem with mem | mem
      · rcases List.mem_map.mp mem with ⟨_, _, rfl⟩
        exact .inr trivial
      · exact .inl mem
  | @complete _ _ r appEventTs other started counter token =>
      have pushed := notBefore.tail.push (.endOf other) (appEventTs / 1000 : ℕ) counter
        fun isEvent => by
          rcases flows.complete List.mem_cons_self with ⟨ref, carrier, carries, token', _⟩
          rw [token, Option.some.injEq] at token'
          have isEvent : other = e := isEvent
          exact absurd carries (flows.not_carries (token' ▸ isEvent ▸ notBefore.flowless) ref)
      exact { pushed with }
  | @arrived _ _ r appEventTs other event flow info start token same boards =>
      have differs : other ≠ e := notBefore.tail.tasks _ boards
      refine notBefore.tail.keep rfl (fun p known => ⟨p, known, rfl, rfl⟩) ?_
        (fun _ _ mem _ => mem) rfl
      intro task mem
      rcases List.mem_cons.mp mem with rfl | mem
      · exact .inr fun isEvent => absurd isEvent differs
      · exact .inl mem
  | @reach _ other start counter queued =>
      refine notBefore.keep rfl (fun p known => ⟨p, known, rfl, rfl⟩) ?_
        (fun _ _ mem _ => (PriorityQueue.mem_erase.mp mem).2) rfl
      intro task mem
      rw [List.mem_singleton.mp mem]
      exact .inr fun isEvent => (notBefore.entries queued isEvent).2
  | @stop _ other start startTime counter queued known =>
      have differs : other ≠ e := fun isEvent => by
        cases (notBefore.entries queued isEvent).1
      refine notBefore.keep rfl (fun p known => ⟨p, known, rfl, rfl⟩) ?_
        (fun _ _ mem _ => (PriorityQueue.mem_erase.mp mem).2) rfl
      intro task mem
      rw [List.mem_singleton.mp mem]
      exact .inr fun isEvent => absurd isEvent differs
  | @startComputation _ other start counter node duration info counter' queued known =>
      have differs : other ≠ e := fun isEvent => by
        cases (notBefore.entries queued isEvent).1
      refine notBefore.keep rfl (fun p known => ⟨p, known, rfl, rfl⟩) (fun _ mem => .inl mem)
        ?_ rfl
      intro event priority mem isEvent
      rcases PriorityQueue.mem_push.mp mem with ⟨rfl, _⟩ | ⟨_, old⟩
      · exact absurd isEvent differs
      · exact (PriorityQueue.mem_erase.mp old).2
  | startFlow =>
      exact notBefore.keep rfl (fun p known => ⟨p, known, rfl, rfl⟩) (fun _ mem => .inl mem)
        (fun _ _ mem _ => (PriorityQueue.mem_erase.mp mem).2) rfl
  | finish noted => exact notBefore.finish noted
  | @add _ dependsOn action start rev depends arriveTime valid =>
      have differs : e ≠ queue.eventCounter := issued.ne
      refine notBefore.keep ?_ (fun p known => ⟨p, known, rfl, rfl⟩) ?_ (fun _ _ mem _ => mem) rfl
      · have flow := issue_eventToFlow dependsOn action start (flows.issued le_rfl).2 e
        rwa [if_neg differs] at flow
      · intro task mem
        rw [List.mem_singleton.mp mem]
        exact .inr fun isEvent => absurd isEvent.symm differs
  | @wait _ dependsOn action start rev depends arriveTime valid =>
      have differs : e ≠ queue.eventCounter := issued.ne
      refine notBefore.keep ?_ ?_ (fun _ mem => .inl mem) (fun _ _ mem _ => mem) rfl
      · have flow := issue_eventToFlow dependsOn action start (flows.issued le_rfl).2 e
        rwa [if_neg differs] at flow
      · intro p known
        dsimp only at known
        rw [Function.update_of_ne differs] at known
        exact ⟨p, known, rfl, rfl⟩
  | register => exact { notBefore with }
  | @depend _ other d p valid unended known =>
      have amended := notBefore.amend (insert (some d) p.dependencies) known
        fun _ mem => .inl mem
      exact { amended with }
  | block known => exact notBefore.amend _ known fun _ mem => .inl mem
  | unblock known =>
      refine notBefore.amend _ known fun task mem => ?_
      split at mem
      · rw [List.mem_singleton.mp mem]
        exact .inr trivial
      · cases mem

end NotBefore

/-- Every point is nowhere before the time of the call that added it. -/
def Dated (agenda : Agenda) (queue : EventQueue) : Prop :=
  ∀ e dependsOn time, queue.recordOf e = some (dependsOn, none, time) →
    NotBefore agenda queue e time

/-- A new point is nowhere but where the call puts it. -/
theorem NotBefore.new {dependsOn : List (Option EventId)} {rev : EventId → List EventId}
    {pending : EventId → Option Pending} (flows : Flows [] queue) (spots : Spots [] queue)
    (waiting : ∀ p, pending queue.eventCounter = some p → p.action = none ∧ time ≤ p.arriveTime)
    (tasks : ∀ task ∈ agenda, task.NotBefore queue.eventCounter time) :
    NotBefore agenda { queue.issue dependsOn none time with
      revDependencies := rev
      pending := pending } queue.eventCounter time := by
  have nowhere : ∀ spot, ¬Spotted [] queue queue.eventCounter spot :=
    fun spot here => Nat.lt_irrefl _ (spots.issued here)
  have noFlow := (flows.issued le_rfl).2
  refine ⟨noFlow, fun known => waiting _ known, tasks, ?_, ?_⟩
  · intro event start k mem isEvent
    cases event with
    | startOf other =>
        have isEvent : other = queue.eventCounter := isEvent
        have here : Spotted [] queue queue.eventCounter .starting :=
          ⟨noFlow, _, isEvent ▸ mem⟩
        exact absurd here (nowhere _)
    | endOf other =>
        have isEvent : other = queue.eventCounter := isEvent
        have here : Spotted [] queue queue.eventCounter .ending := ⟨_, isEvent ▸ mem⟩
        exact absurd here (nowhere _)
    | pointOf other =>
        have isEvent : other = queue.eventCounter := isEvent
        have here : Spotted [] queue queue.eventCounter .reaching := ⟨_, isEvent ▸ mem⟩
        exact absurd here (nowhere _)
  · intro startTime endTime known
    have here : Spotted [] queue queue.eventCounter .ended :=
      Option.ne_none_iff_exists'.mpr ⟨_, known⟩
    exact absurd here (nowhere _)

theorem dated_small (dated : Dated agenda queue) (flows : Flows agenda queue)
    (spots : Spots agenda queue) (unrecorded : Unrecorded queue)
    (small : Small platform (agenda, queue) (agenda', queue')) : Dated agenda' queue' := by
  have old : ∀ {e dependsOn time}, queue.recordOf e = some (dependsOn, none, time) →
      NotBefore agenda' queue' e time := by
    intro e dependsOn time record
    apply (dated e dependsOn time record).small flows _ small
    by_contra le
    rw [unrecorded e (not_lt.mp le)] at record
    exact Option.some_ne_none _ record.symm
  intro e dependsOn time record
  cases id small with
  | note entries counter notAdded =>
      rw [recordOf_note notAdded] at record
      exact old record
  | add valid registered empty =>
      have now := (recordOf_issue ..).symm.trans record
      split at now
      · rename_i isNew
        cases now
        subst isNew
        refine .new flows spots (fun p known => ?_) fun task mem => ?_
        · exact absurd ((flows.issued le_rfl).1.symm.trans known).symm (Option.some_ne_none p)
        · rw [List.mem_singleton.mp mem]
          exact fun _ => ⟨rfl, registered.later⟩
      · exact old now
  | wait valid registered nonempty =>
      have now := (recordOf_issue ..).symm.trans record
      split at now
      · rename_i isNew
        cases now
        subst isNew
        refine .new flows spots (fun p known => ?_) fun task mem => absurd mem List.not_mem_nil
        rw [Function.update_self, Option.some.injEq] at known
        subst known
        exact ⟨rfl, registered.later⟩
      · exact old now
  | _ => exact old record

/-- The invariants of the queue between calls, with the times of its points. -/
structure InTime (queue : EventQueue) : Prop where
  tracked : Tracked queue
  unrecorded : Unrecorded queue
  dated : Dated [] queue

theorem Initial.inTime (initial : Initial queue) : InTime queue := by
  refine ⟨initial.tracked, initial.listed.unrecorded, ?_⟩
  intro e dependsOn time record
  rw [initial.listed.unrecorded e] at record
  · exact absurd record.symm (Option.some_ne_none _)
  · rcases initial with ⟨cluster, setting, hostMapping, rfl⟩
    exact Nat.zero_le e

theorem Works.inTime (works : Works platform ([], queue) ([], queue'))
    (inTime : InTime queue) : InTime queue' := by
  have all := works.invariant
    (fun config => (Flows config.1 config.2 ∧ Waits config.1 config.2 ∧
      Spots config.1 config.2) ∧ Unrecorded config.2 ∧ Dated config.1 config.2)
    (fun {first second} => ?_)
    ⟨⟨inTime.tracked.flows, inTime.tracked.waits, inTime.tracked.spots⟩,
      inTime.unrecorded, inTime.dated⟩
  · rcases all with ⟨⟨flows, waits, spots⟩, unrecorded, dated⟩
    exact ⟨⟨flows, waits, spots⟩, unrecorded, dated⟩
  · rintro ⟨⟨flows, waits, spots⟩, unrecorded, dated⟩ small
    exact ⟨⟨flows_small flows spots.deferred small, waits_small flows waits small,
      spots_small flows spots small⟩, unrecorded_small unrecorded small,
      dated_small dated flows spots unrecorded small⟩

theorem Step.inTime {call : Call} (step : Step platform queue call queue')
    (valid : call.Valid queue) (inTime : InTime queue) : InTime queue' :=
  (step.works valid).inTime inTime

/-- The end of a point is not reported with a time before that of the call that added it. -/
theorem InTime.execute (inTime : InTime queue) {step : QueueStep}
    (run : queue.execute platform = .ok (queue', step)) {endTime : ℤ}
    (reports : step.report? = some (e, endTime)) {dependsOn : List (Option EventId)}
    (record : queue.recordOf e = some (dependsOn, none, time)) : time ≤ endTime := by
  have general : ∀ fuel queue, InTime queue → queue.recordOf e = some (dependsOn, none, time) →
      executeLoop platform fuel queue = .ok (queue', step) → time ≤ endTime := by
    intro fuel
    induction fuel with
    | zero =>
        intro queue _ _ run
        simp [executeLoop] at run
    | succ fuel ih =>
        intro queue inTime record run
        simp only [executeLoop] at run
        split at run
        · simp only [bind_eq_ok, Prod.exists] at run
          rcases run with ⟨middle, proceeded, tried, run⟩
          split at run
          · apply ih middle ((works_tryProceedNetsim tried).inTime inTime) _ run
            rw [recordOf, (tryProceedNetsim_grows tried).created]
            exact record
          · simp only [pure_eq_ok, Prod.mk.injEq] at run
            rcases run with ⟨_, rfl⟩
            cases reports
        · rename_i event eventTime popped first
          rcases popEvent_eq_some first with ⟨⟨counter, mem⟩, rfl⟩
          have notBefore := inTime.dated e dependsOn time record
          cases event with
          | pointOf id =>
              simp only [executeEvent, bind_eq_ok, pure_eq_ok, Prod.mk.injEq] at run
              rcases run with ⟨_, _, _, rfl⟩
              cases reports
              exact (notBefore.entries mem rfl).2
          | endOf id =>
              simp only [executeEvent, bind_eq_ok, pure_eq_ok, Prod.mk.injEq] at run
              rcases run with ⟨_, _, _, _, _, rfl⟩
              cases reports
              cases (notBefore.entries mem rfl).1
          | startOf id =>
              simp only [executeEvent, bind_eq_ok, pure_eq_ok, Prod.mk.injEq] at run
              rcases run with ⟨_, _, _, _, _, rfl⟩
              cases reports
  exact general _ _ inTime record run

end EventQueue

end Phantora
