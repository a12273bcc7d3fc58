import Mathlib.Data.Int.ConditionallyCompleteOrder
import Phantora.EventQueue.Amendment

/-!
# Repairing the graph

When the end of an event is amended, what depends on it is moved behind all that
it depends on, and nothing else is touched. This holds exactly if every flow that
has to be moved is still buffered; otherwise an assertion fails.
-/

namespace Phantora

open Outcome Delays

namespace EventQueue

variable {platform : Platform} {queue queue' base : EventQueue} {e id : EventId} {time : ℤ}
  {floors : EventId → WithBot ℤ} {images : EventId → WithBot ℕ}

/-- The end of a computation that has started is queued. -/
def Computing (queue : EventQueue) : Prop :=
  ∀ e, queue.eventToFlow e = none → queue.started e ≠ none → queue.Queued (.endOf e)

theorem eventToFlow_of_issue (dependsOn : List (Option EventId)) (action : Option Action)
    (time : ℤ) (noFlow : (queue.issue dependsOn action time).eventToFlow e = none) :
    queue.eventToFlow e = none := by
  rcases action with _ | _ | ⟨flow, info⟩
  · exact noFlow
  · exact noFlow
  · by_cases same : e = queue.eventCounter
    · simp [issue, same] at noFlow
    · simpa [issue, same] using noFlow

theorem computing_small {before after : Agenda × EventQueue}
    (flows : Flows before.1 before.2) (computing : Computing before.2)
    (small : Small platform before after) : Computing after.2 := by
  cases small with
  | note | release | landed | move | arrived | finish | register | depend | block | unblock =>
      exact computing
  | arrive => exact computing
  | point | compute | board =>
      intro other noFlow started
      exact queued_pushEntry.mpr (.inr (computing other noFlow started))
  | @complete agenda queue r appEventTs e started counter token kept =>
      intro other noFlow isStarted
      rcases flows.complete List.mem_cons_self with ⟨ref, e', carries, token', _⟩
      cases token.symm.trans token'
      have differs : other ≠ e := by
        rintro rfl
        rcases flows.flow_of_carries carries with ⟨flow, isFlow, _⟩
        exact absurd (isFlow.symm.trans noFlow) (by simp)
      refine queued_pushEntry.mpr (.inr (computing other noFlow ?_))
      exact kept other differs ▸ isStarted
  | reach =>
      intro other noFlow started
      exact (queued_erase_of_ne (by simp)).mpr (computing other noFlow started)
  | @stop queue e time startTime counter mem known =>
      intro other noFlow started
      have differs : other ≠ e := by
        rintro rfl
        simp at started
      have started : queue.started other ≠ none := by simpa [differs] using started
      exact (queued_erase_of_ne (by simpa using differs)).mpr (computing other noFlow started)
  | @startComputation queue e time counter node duration info counter' mem known =>
      intro other noFlow started
      by_cases same : other = e
      · subst same
        exact ⟨_, PriorityQueue.mem_push.mpr (.inl ⟨rfl, rfl⟩)⟩
      · have started : queue.started other ≠ none := by simpa [same] using started
        rcases computing other noFlow started with ⟨priority, queued⟩
        refine ⟨priority, PriorityQueue.mem_push.mpr (.inr ⟨by simpa using same, ?_⟩)⟩
        exact PriorityQueue.mem_erase.mpr ⟨by simp, queued⟩
  | @startFlow queue e time counter flow info mem known =>
      intro other noFlow started
      have differs : other ≠ e := by
        rintro rfl
        exact flows.starting known noFlow
      have started : queue.started other ≠ none := by simpa [differs] using started
      exact (queued_erase_of_ne (by simp)).mpr (computing other noFlow started)
  | @add queue dependsOn action time =>
      intro other noFlow started
      exact computing other (eventToFlow_of_issue dependsOn action time noFlow) started
  | @wait queue dependsOn action time =>
      intro other noFlow started
      exact computing other (eventToFlow_of_issue dependsOn action time noFlow) started

theorem computing_of_reached {calls : List Call}
    (reached : Runs.Reached Initial (IssuedStep platform) calls queue)
    (distinct : DistinctFlows calls) : Computing queue := by
  refine invariant_of_reached ?_ (fun flows computing small =>
    computing_small flows computing small) reached distinct
  rintro queue ⟨cluster, setting, hostMapping, rfl⟩ e _ started
  exact absurd rfl started

/-- Nothing keeps an event without a flow from being moved. -/
theorem Computing.fits (computing : Computing queue) (noFlow : queue.eventToFlow e = none) :
    queue.Fits e time := by
  intro unpending
  refine ⟨fun flow isFlow => absurd (isFlow.symm.trans noFlow) (by simp), ?_⟩
  intro startTime stage _
  refine computing e noFlow ?_
  rw [(stage_eq_started.mp stage).2.2]
  exact Option.some_ne_none _

/-- The demands that a new end of the event makes: none while its end is still queued. -/
def demands (queue : EventQueue) (id : EventId) (newEndTime : ℤ) : List (EventId × ℤ) :=
  if queue.Queued (.endOf id) ∨ queue.Queued (.pointOf id) then []
  else (queue.revDependencies id).map (·, newEndTime)

/-- The start of an event, or the earliest start of one that waits. -/
def StartsAt (queue : EventQueue) (e : EventId) (time : ℤ) : Prop :=
  match queue.stage e with
  | .pending p => time = max p.depEndTime p.arriveTime
  | .queued => ∃ event counter, (event = .startOf e ∨ event = .pointOf e) ∧
      (event, toLex (time, counter)) ∈ queue.eventQueue
  | .started startTime => time = startTime
  | .ended startTime _ => time = startTime
  | .unrecorded => False

/-- The event starts no earlier than the time, in the queue and in the network. -/
def StartsFrom (queue : EventQueue) (e : EventId) (time : ℤ) : Prop :=
  (∀ startTime, queue.StartsAt e startTime → time ≤ startTime) ∧
    (queue.pending e = none → ∀ ref, queue.Buffers e ref →
      time * 1000 ≤ (queue.netsim.state.arena ref).ts)

/-- The same is recorded about the event. -/
structure SameRecords (queue : EventQueue) (e : EventId) (queue' : EventQueue) : Prop where
  pending : queue'.pending e = queue.pending e
  started : queue'.started e = queue.started e
  ended : queue'.ended e = queue.ended e
  entries : ∀ event priority, event.id = e →
    ((event, priority) ∈ queue'.eventQueue ↔ (event, priority) ∈ queue.eventQueue)
  buffered : queue.pending e = none → ∀ ref, queue.Buffers e ref →
    (queue'.netsim.state.arena ref).ts = (queue.netsim.state.arena ref).ts

/-- The event takes as long as before, whether it has not started, is running or has ended. -/
structure SameDuration (queue : EventQueue) (e : EventId) (queue' : EventQueue) : Prop where
  action : queue'.inQueueNotStarted e = queue.inQueueNotStarted e
  running : ∀ {startTime startTime' endTime endTime' counter counter'},
    queue.started e = some startTime → queue'.started e = some startTime' →
    (.endOf e, toLex (endTime, counter)) ∈ queue.eventQueue →
    (.endOf e, toLex (endTime', counter')) ∈ queue'.eventQueue →
      endTime' - startTime' = endTime - startTime
  ended : ∀ {startTime startTime' endTime endTime'},
    queue.ended e = some (startTime, endTime) → queue'.ended e = some (startTime', endTime') →
      endTime' - startTime' = endTime - startTime

/-- What depends on the event starts after all that it depends on and takes as long as before, and
what does not depend on the event stays. -/
structure Repaired (queue : EventQueue) (id : EventId) (queue' : EventQueue) : Prop where
  ordered : ∀ {d e startTime endTime}, queue.Before id e → queue.Precedes d e →
    queue'.ended d = some (startTime, endTime) → queue'.StartsFrom e endTime
  durations : ∀ e ≠ id, queue.SameDuration e queue'
  others : ∀ e ≠ id, ¬queue.Before id e → queue.SameRecords e queue'

/-- What depends on the event starts after all that it depends on, except where the amendment
moves the one or the other. -/
def Punctual (queue : EventQueue) (id : EventId) (newEndTime : ℤ) : Prop :=
  ∀ d e startTime endTime, queue.Before id e → queue.Precedes d e →
    queue.ended d = some (startTime, endTime) →
      queue.StartsFrom e endTime ∨
      (∃ time, Demanded queue.tasks (queue.demands id newEndTime) e time ∧ endTime ≤ time) ∨
      ∃ time newEnd, Demanded queue.tasks (queue.demands id newEndTime) d time ∧
        queue.tasks.onward d time = some newEnd

/-- The times demanded of a flow that is buffered fit the word in which they are handed to the
network, or the flow starts late enough already. -/
def Representable (queue : EventQueue) (id : EventId) (newEndTime : ℤ) : Prop :=
  ∀ e time ref, Demanded queue.tasks (queue.demands id newEndTime) e time →
    queue.pending e = none → queue.Buffers e ref →
      time * 1000 < 2 ^ 64 ∨ time * 1000 ≤ (queue.netsim.state.arena ref).ts

/-- Every flow that the amendment reaches waits or is still buffered, and is in time if it has
started; what is handed to the network fits a word; and what the amendment does not move is in
time already. -/
structure Amendable (queue : EventQueue) (id : EventId) (newEndTime : ℤ) : Prop where
  flows : ∀ e time flow, Demanded queue.tasks (queue.demands id newEndTime) e time →
    queue.eventToFlow e = some flow → queue.Fits e time
  words : queue.Representable id newEndTime
  punctual : queue.Punctual id newEndTime

/-- No flow is demanded to start before zero. -/
def NonNegative (queue : EventQueue) (id : EventId) (newEndTime : ℤ) : Prop :=
  ∀ e time flow, Demanded queue.tasks (queue.demands id newEndTime) e time →
    queue.eventToFlow e = some flow → 0 ≤ time

/-- With enough fuel the amendment ends and repairs the graph, in whatever order the dependents are
visited. -/
def Repairs (queue : EventQueue) (id : EventId) (newEndTime : ℤ) : Prop :=
  ∃ bound, ∀ platform : Platform, bound ≤ platform.fuel → ∃ queue',
    addEndTimeTo platform queue id newEndTime = .ok queue' ∧ queue.Repaired id queue'

namespace Delayed

theorem startsAt_iff (delayed : queue.Delayed images floors floors queue') {startTime : ℤ} :
    queue'.StartsAt e startTime ↔
      ∃ before, queue.StartsAt e before ∧ startTime = lift (floors e) before := by
  unfold StartsAt
  rw [delayed.stage]
  cases stage : queue.stage e with
  | pending p =>
      have same : max (lift (floors e) p.depEndTime) p.arriveTime =
          lift (floors e) (max p.depEndTime p.arriveTime) := by
        rw [← WithBot.coe_inj, WithBot.coe_max, coe_lift, coe_lift, WithBot.coe_max, max_right_comm]
      simp [Pending.delayed, same]
  | queued =>
      have unpending := (stage_eq_queued.mp stage).1
      have raised : ∀ event before, event = .startOf e ∨ event = .pointOf e →
          queue.delayedEntry floors floors event before = lift (floors e) before := by
        rintro event before (rfl | rfl) <;> simp [delayedEntry, unpending]
      constructor
      · rintro ⟨event, counter, here, mem⟩
        rcases (delayed.entries _ _ _).mp mem with ⟨before, mem, known⟩
        exact ⟨before, ⟨event, counter, here, mem⟩, known.trans (raised event before here)⟩
      · rintro ⟨before, ⟨event, counter, here, mem⟩, known⟩
        refine ⟨event, counter, here, (delayed.entries _ _ _).mpr ⟨before, mem, ?_⟩⟩
        exact known.trans (raised event before here).symm
  | started before => simp
  | ended before endTime => simp
  | unrecorded => simp

/-- An event that starts late enough did so before, or that is demanded of it. -/
theorem startsFrom_or (delayed : queue.Delayed images floors floors queue')
    (bounded : ∀ ref bound, queue.Buffers e ref → images e = (bound : ℕ) →
      ∃ floor : ℤ, floors e = floor ∧ (bound : ℤ) ≤ floor * 1000)
    (starts : queue'.StartsFrom e time) : queue.StartsFrom e time ∨ time ≤ floors e := by
  rcases starts with ⟨starts, buffers⟩
  by_cases met : time ≤ floors e
  · exact .inr met
  · refine .inl ⟨fun startTime here => ?_, fun unpending ref here => ?_⟩
    · have later := starts _ (delayed.startsAt_iff.mpr ⟨startTime, here, rfl⟩)
      exact (le_lift_iff.mp later).resolve_right met
    · have later := buffers (delayed.pending_eq_none.mpr unpending) ref
        (delayed.buffers.mpr here)
      rw [delayed.buffered e ref unpending here] at later
      cases image : images e with
      | bot => simpa [image] using later
      | coe bound =>
          rcases bounded ref bound here image with ⟨floor, known, le⟩
          have early : floor < time := by simpa [known] using met
          rw [image, lift_coe] at later
          omega

theorem startsFrom_of_startsFrom (delayed : queue.Delayed images floors floors queue')
    (starts : queue.StartsFrom e time) : queue'.StartsFrom e time := by
  rcases starts with ⟨starts, buffers⟩
  refine ⟨fun startTime here => ?_, fun unpending ref here => ?_⟩
  · rcases delayed.startsAt_iff.mp here with ⟨before, earlier, rfl⟩
    exact (starts before earlier).trans (le_lift _ _)
  · have unpending' := delayed.pending_eq_none.mp unpending
    have here' := delayed.buffers.mp here
    rw [delayed.buffered e ref unpending' here']
    refine (buffers unpending' ref here').trans ?_
    exact_mod_cast le_lift _ _

/-- An event starts as late as is demanded of it if its flow does. -/
theorem startsFrom_of_le (delayed : queue.Delayed images floors floors queue')
    (le : time ≤ floors e)
    (handed : queue.pending e = none → ∀ ref, queue.Buffers e ref →
      time * 1000 ≤ lift (images e) (queue.netsim.state.arena ref).ts) :
    queue'.StartsFrom e time := by
  refine ⟨fun startTime here => ?_, fun unpending ref here => ?_⟩
  · rcases delayed.startsAt_iff.mp here with ⟨before, _, rfl⟩
    exact le_lift_of_le le _
  · have unpending' := delayed.pending_eq_none.mp unpending
    have here' := delayed.buffers.mp here
    rw [delayed.buffered e ref unpending' here']
    exact handed unpending' ref here'

/-- What nothing is demanded of stays. -/
theorem sameRecords (delayed : queue.Delayed images floors floors queue')
    (untouched : floors e = ⊥) (unhanded : images e = ⊥) : queue.SameRecords e queue' := by
  refine ⟨?_, ?_, ?_, ?_, ?_⟩
  · rw [delayed.pending, untouched]
    cases queue.pending e <;> simp [Pending.delayed]
  · rw [delayed.started, delayedStarted, untouched]
    cases stage : queue.stage e with
    | started startTime => simp [(stage_eq_started.mp stage).2.2]
    | _ => rfl
  · rw [delayed.ended, delayedEnded, untouched]
    cases stage : queue.stage e with
    | ended startTime endTime => simp [(stage_eq_ended.mp stage).2.2.2]
    | _ => rfl
  · have kept : ∀ event before, QueueEvent.id event = e →
        queue.delayedEntry floors floors event before = before := by
      rintro event before rfl
      cases event with
      | endOf e =>
          have untouched : floors e = ⊥ := untouched
          simp only [delayedEntry, untouched]
          split <;> simp
      | startOf e =>
          have untouched : floors e = ⊥ := untouched
          simp [delayedEntry, untouched]
      | pointOf e =>
          have untouched : floors e = ⊥ := untouched
          simp [delayedEntry, untouched]
    intro event priority here
    refine (delayed.entries event (ofLex priority).1 (ofLex priority).2).trans ?_
    simp only [kept event _ here]
    constructor
    · rintro ⟨before, mem, same⟩
      rw [← same] at mem
      exact mem
    · intro mem
      exact ⟨_, mem, rfl⟩
  · intro unpending ref buffers
    rw [delayed.buffered e ref unpending buffers, unhanded]
    simp

/-- Whatever is moved is moved as a whole. -/
theorem sameDuration (delayed : queue.Delayed images floors floors queue') (e : EventId) :
    queue.SameDuration e queue' := by
  refine ⟨congrFun delayed.inQueueNotStarted e, ?_, ?_⟩
  · intro startTime startTime' endTime endTime' counter counter' start start' mem mem'
    rcases (delayed.entries _ _ _).mp mem' with ⟨before, beforeMem, rfl⟩
    have same := congrArg (fun priority => (ofLex priority).1)
      (PriorityQueue.eq_of_mem mem beforeMem)
    have same : endTime = before := same
    subst same
    rw [delayed.started, delayedStarted] at start'
    simp only [delayedEntry]
    cases stage : queue.stage e with
    | started first =>
        rw [stage] at start'
        cases start.symm.trans (stage_eq_started.mp stage).2.2
        cases start'
        dsimp only
        omega
    | _ =>
        rw [stage] at start'
        cases start.symm.trans start'
        rfl
  · intro startTime startTime' endTime endTime' ended ended'
    rw [delayed.ended, delayedEnded] at ended'
    cases stage : queue.stage e with
    | ended first last =>
        rw [stage] at ended'
        cases ended.symm.trans (stage_eq_ended.mp stage).2.2.2
        cases ended'
        omega
    | _ =>
        rw [stage] at ended'
        cases ended.symm.trans ended'
        rfl

end Delayed

/-- Only the recorded end and the entries of the event may differ. -/
structure Reset (queue : EventQueue) (id : EventId) (queue' : EventQueue) : Prop where
  pending : queue'.pending = queue.pending
  started : queue'.started = queue.started
  eventToFlow : queue'.eventToFlow = queue.eventToFlow
  revDependencies : queue'.revDependencies = queue.revDependencies
  inQueueNotStarted : queue'.inQueueNotStarted = queue.inQueueNotStarted
  netsim : queue'.netsim = queue.netsim
  ended : ∀ e ≠ id, queue'.ended e = queue.ended e
  queued : ∀ event, queue'.Queued event ↔ queue.Queued event
  entries : ∀ event priority, event.id ≠ id →
    ((event, priority) ∈ queue'.eventQueue ↔ (event, priority) ∈ queue.eventQueue)

/-- The end of the event, if it is still queued, gets a new time. -/
def retimeEnd (queue : EventQueue) (id : EventId) (newEndTime : ℤ) : EventQueue :=
  ((queue.changeTime (.endOf id) fun _ => newEndTime).2.changeTime (.pointOf id)
    fun _ => newEndTime).2

theorem reset_retimeEnd (queue : EventQueue) (id : EventId) (newEndTime : ℤ) :
    Reset queue id (queue.retimeEnd id newEndTime) := by
  refine ⟨rfl, rfl, rfl, rfl, rfl, rfl, fun _ _ => rfl,
    fun event => queued_changeTime.trans queued_changeTime, ?_⟩
  intro event priority other
  have kept : ∀ (queue : EventQueue) (item : QueueEvent), item.id = id →
      ((event, priority) ∈ (queue.changeTime item fun _ => newEndTime).2.eventQueue ↔
        (event, priority) ∈ queue.eventQueue) := by
    intro queue item here
    have differs : event ≠ item := by
      rintro rfl
      exact other here
    exact PriorityQueue.mem_modify.trans (by simp [differs])
  exact (kept _ (.pointOf id) rfl).trans (kept queue (.endOf id) rfl)

/-- Before any dependent is visited only the event itself is amended; its dependents are visited
unless its end is still queued. -/
theorem exists_reset {id : EventId} {startTime endTime : ℤ}
    (ended : queue.ended id = some (startTime, endTime)) (newEndTime : ℤ) :
    ∃ base, Reset queue id base ∧
      ((queue.Queued (.endOf id) ∨ queue.Queued (.pointOf id)) ∧ base.ended id = queue.ended id ∧
        (∀ platform, addEndTimeTo platform queue id newEndTime = .ok base) ∨
      ¬(queue.Queued (.endOf id) ∨ queue.Queued (.pointOf id)) ∧
        base.ended id = some (startTime, newEndTime) ∧
        ∀ platform, addEndTimeTo platform queue id newEndTime =
          (platform.order base.log.length (queue.revDependencies id)).foldlM (fun queue e =>
            changeStartTimeNotless platform platform.fuel queue e newEndTime) base) := by
  have reset := reset_retimeEnd queue id newEndTime
  have found : ((queue.changeTime (.endOf id) fun _ => newEndTime).1 ||
      ((queue.changeTime (.endOf id) fun _ => newEndTime).2.changeTime (.pointOf id)
        fun _ => newEndTime).1) = true ↔ queue.Queued (.endOf id) ∨ queue.Queued (.pointOf id) := by
    rw [Bool.or_eq_true, changeTime_found, changeTime_found, queued_changeTime]
  by_cases here : queue.Queued (.endOf id) ∨ queue.Queued (.pointOf id)
  · refine ⟨queue.retimeEnd id newEndTime, reset, .inl ⟨here, rfl, ?_⟩⟩
    intro platform
    simp only [addEndTimeTo, if_pos (found.mpr here)]
    rfl
  · have absent := fun there => here (found.mp there)
    have known : ((queue.changeTime (.endOf id) fun _ => newEndTime).2.changeTime (.pointOf id)
        fun _ => newEndTime).2.ended id = some (startTime, endTime) := ended
    refine ⟨{ queue.retimeEnd id newEndTime with
        ended := Function.update queue.ended id (some (startTime, newEndTime))
        log := .span id startTime newEndTime :: queue.log },
      { reset with ended := fun e other => by simp [other] }, .inr ⟨here, by simp, ?_⟩⟩
    intro platform
    simp only [addEndTimeTo, if_neg absent, known]
    rfl

namespace Reset

theorem startQueued (reset : Reset queue id base) : base.StartQueued e ↔ queue.StartQueued e :=
  or_congr (reset.queued _) (reset.queued _)

theorem stage (reset : Reset queue id base) (other : e ≠ id) : base.stage e = queue.stage e :=
  stage_congr (congrFun reset.pending e) reset.startQueued (congrFun reset.started e)
    (reset.ended e other)

theorem buffers (reset : Reset queue id base) {ref : Netsim.FlowRef} :
    base.Buffers e ref ↔ queue.Buffers e ref := by
  unfold Buffers
  rw [reset.eventToFlow, reset.netsim]

theorem fits (reset : Reset queue id base) (other : e ≠ id) :
    base.Fits e time ↔ queue.Fits e time := by
  unfold Fits
  simp only [reset.pending, reset.eventToFlow, reset.buffers, reset.stage other, reset.queued]

theorem onward (reset : Reset queue id base) (other : e ≠ id) :
    base.tasks.onward e time = queue.tasks.onward e time := by
  simp only [Tasks.onward, tasks, reset.stage other]

theorem startsFrom (reset : Reset queue id base) (other : e ≠ id) :
    base.StartsFrom e time ↔ queue.StartsFrom e time := by
  have startsAt : ∀ startTime, base.StartsAt e startTime ↔ queue.StartsAt e startTime := by
    intro startTime
    unfold StartsAt
    rw [reset.stage other]
    cases queue.stage e with
    | queued =>
        refine exists_congr fun event => exists_congr fun counter => and_congr_right fun here => ?_
        refine reset.entries event _ ?_
        rcases here with rfl | rfl <;> exact other
    | _ => rfl
  unfold StartsFrom
  simp only [startsAt, reset.pending, reset.buffers, reset.netsim]

theorem sameRecords (reset : Reset queue id base) (other : e ≠ id) :
    queue.SameRecords e base := by
  refine ⟨congrFun reset.pending e, congrFun reset.started e, reset.ended e other, ?_, ?_⟩
  · rintro event priority rfl
    exact reset.entries event priority other
  · intro _ ref _
    rw [reset.netsim]

end Reset

theorem SameRecords.trans (first : queue.SameRecords e base)
    (buffers : ∀ ref, base.Buffers e ref ↔ queue.Buffers e ref)
    (second : base.SameRecords e queue') : queue.SameRecords e queue' := by
  refine ⟨second.pending.trans first.pending, second.started.trans first.started,
    second.ended.trans first.ended, ?_, ?_⟩
  · intro event priority here
    exact (second.entries event priority here).trans (first.entries event priority here)
  · intro unpending ref here
    exact (second.buffered (first.pending.trans unpending) ref ((buffers ref).mpr here)).trans
      (first.buffered unpending ref here)

theorem SameRecords.sameDuration (same : queue.SameRecords e base)
    (action : base.inQueueNotStarted = queue.inQueueNotStarted)
    (kept : base.SameDuration e queue') : queue.SameDuration e queue' := by
  refine ⟨kept.action.trans (congrFun action e), ?_, ?_⟩
  · intro _ _ _ _ _ _ start start' mem mem'
    exact kept.running (same.started.trans start) start' ((same.entries _ _ rfl).mpr mem) mem'
  · intro _ _ _ _ ended ended'
    exact kept.ended (same.ended.trans ended) ended'

/-- What is demanded depends on the event. -/
theorem before_of_demanded {tasks : Tasks EventId ℤ} {first : List (EventId × ℤ)}
    (followers : tasks.followers = queue.revDependencies)
    (dependents : ∀ e time, (e, time) ∈ first → queue.Precedes id e)
    (demanded : Demanded tasks first e time) : queue.Before id e := by
  induction demanded with
  | first mem => exact .single (dependents _ _ mem)
  | @follow d e _ _ _ _ follows ih =>
      have edge : queue.Precedes d e := by
        rw [Precedes, ← followers]
        exact follows
      exact ih.tail edge

theorem precedes_of_mem_demands {newEndTime : ℤ} (mem : (e, time) ∈ queue.demands id newEndTime) :
    queue.Precedes id e := by
  unfold demands at mem
  split at mem
  · cases mem
  · rcases List.mem_map.mp mem with ⟨other, follows, same⟩
    cases same
    exact follows

/-- The event keeps its end while that is queued; otherwise it has the new end, which is demanded of
what depends on it. -/
def Redated (queue : EventQueue) (id : EventId) (newEndTime : ℤ) (base : EventQueue) : Prop :=
  queue.demands id newEndTime = [] ∧ base.ended id = queue.ended id ∨
    queue.demands id newEndTime = (queue.revDependencies id).map (·, newEndTime) ∧
      ∃ startTime, base.ended id = some (startTime, newEndTime)

/-- The dependents have been visited from the base on. -/
structure Visited (queue : EventQueue) (id : EventId) (newEndTime : ℤ) (base : EventQueue)
    (images : EventId → WithBot ℕ) (floors : EventId → WithBot ℤ) (queue' : EventQueue) :
    Prop where
  delayed : base.Delayed images floors floors queue'
  met : ∀ e time, Demanded queue.tasks (queue.demands id newEndTime) e time → time ≤ floors e
  demanded : ∀ e time, floors e = (time : ℤ) →
    Demanded queue.tasks (queue.demands id newEndTime) e time ∧ asNanos time ≤ images e
  imaged : ∀ e bound, images e = (bound : ℕ) →
    ∃ time, Demanded queue.tasks (queue.demands id newEndTime) e time ∧ bound = asNanos time

/-- The floors that the visits lead to are the greatest times demanded. -/
theorem visited_of_settles {newEndTime : ℤ} {first : List (EventId × ℤ)}
    (reset : Reset queue id base) (acyclic : ∀ e, ¬queue.Before e e)
    (delayed : base.Delayed images floors floors queue')
    (same : ∀ demand, demand ∈ first ↔ demand ∈ queue.demands id newEndTime)
    (settles : Settles base.tasks asNanos (fun _ => ⊥) (fun _ => ⊥) first floors images) :
    Visited queue id newEndTime base images floors queue' := by
  have spec := settles.floor_spec
  have dependents : ∀ e time, (e, time) ∈ first → queue.Precedes id e :=
    fun e time mem => precedes_of_mem_demands ((same _).mp mem)
  have other : ∀ {e}, queue.Before id e → e ≠ id := by
    rintro e before rfl
    exact acyclic e before
  have asked : ∀ {e time}, Demanded base.tasks first e time →
      Demanded queue.tasks (queue.demands id newEndTime) e time := by
    intro e time demanded
    refine demanded.congr reset.revDependencies.symm (fun _ => (same _).mp) ?_
    intro d bound reached
    exact (reset.onward (other (before_of_demanded reset.revDependencies dependents reached))).symm
  refine ⟨delayed, ?_, ?_, ?_⟩
  · intro e time demanded
    refine spec.1 e time (demanded.congr reset.revDependencies (fun _ => (same _).mpr) ?_)
    intro d bound reached
    exact reset.onward (other (before_of_demanded rfl (fun _ _ => precedes_of_mem_demands) reached))
  · intro e time known
    rcases spec.2.1 e time known with ⟨demanded, handed⟩
    exact ⟨asked demanded, handed⟩
  · intro e bound known
    rcases spec.2.2 e bound known with ⟨time, demanded, image⟩
    exact ⟨time, asked demanded, image⟩

namespace Visited

variable {newEndTime : ℤ}

theorem untouched (visited : Visited queue id newEndTime base images floors queue')
    (independent : ¬queue.Before id e) : floors e = ⊥ := by
  cases known : floors e with
  | bot => rfl
  | coe time =>
      exact absurd (before_of_demanded rfl (fun _ _ => precedes_of_mem_demands)
        (visited.demanded e time known).1) independent

theorem unhanded (visited : Visited queue id newEndTime base images floors queue')
    (independent : ¬queue.Before id e) : images e = ⊥ := by
  cases known : images e with
  | bot => rfl
  | coe bound =>
      rcases visited.imaged e bound known with ⟨time, demanded, _⟩
      exact absurd (before_of_demanded rfl (fun _ _ => precedes_of_mem_demands) demanded)
        independent

/-- An event that has ended is moved as a whole when that is demanded, and stays otherwise. -/
theorem ended_cases (visited : Visited queue id newEndTime base images floors queue')
    (reset : Reset queue id base) (other : e ≠ id) {startTime endTime : ℤ}
    (known : queue.ended e = some (startTime, endTime)) :
    (∃ time newEnd, Demanded queue.tasks (queue.demands id newEndTime) e time ∧
        (∀ earlier, Demanded queue.tasks (queue.demands id newEndTime) e earlier →
          earlier ≤ time) ∧
        queue.tasks.onward e time = some newEnd ∧ newEnd - time = endTime - startTime ∧
        queue'.ended e = some (time, newEnd)) ∨
      (∀ time newEnd, Demanded queue.tasks (queue.demands id newEndTime) e time →
        queue.tasks.onward e time ≠ some newEnd) ∧
      queue'.ended e = some (startTime, endTime) := by
  have ended' := visited.delayed.ended e
  rw [delayedEnded, reset.stage other, reset.ended e other] at ended'
  by_cases stage : queue.stage e = .ended startTime endTime
  · rw [stage] at ended'
    dsimp only at ended'
    have span := tasks_span.mpr stage
    by_cases early : startTime < lift (floors e) startTime
    · have met := (le_lift_iff.mp (le_refl (lift (floors e) startTime))).resolve_left
        (not_le.mpr early)
      rcases WithBot.coe_le_iff.mp met with ⟨floor, floorIs, le⟩
      have raised : lift (floors e) startTime = floor := by
        rw [floorIs, lift_coe] at early ⊢
        exact max_eq_right ((lt_max_iff.mp early).resolve_left (lt_irrefl _)).le
      rw [raised] at ended' early
      have greatest : ∀ earlier, Demanded queue.tasks (queue.demands id newEndTime) e earlier →
          earlier ≤ floor := by
        intro earlier demanded
        exact WithBot.coe_le_coe.mp (floorIs ▸ visited.met e earlier demanded)
      refine .inl ⟨floor, _, (visited.demanded e floor floorIs).1, greatest,
        Tasks.onward_eq_some.mpr ⟨startTime, endTime, span, early, rfl⟩, by omega, ended'⟩
    · have kept : lift (floors e) startTime = startTime :=
        le_antisymm (not_lt.mp early) (le_lift _ _)
      refine .inr ⟨?_, by rw [ended', kept]; simp⟩
      intro time newEnd demanded moves
      rcases Tasks.onward_eq_some.mp moves with ⟨first, last, span', late, _⟩
      cases span.symm.trans span'
      have least := le_lift_of_le (visited.met e time demanded) startTime
      omega
  · have unmoved : ∀ first last, queue.stage e ≠ .ended first last := by
      intro first last isEnded
      cases known.symm.trans (stage_eq_ended.mp isEnded).2.2.2
      exact stage isEnded
    refine .inr ⟨?_, ?_⟩
    · intro time newEnd _ moves
      rcases Tasks.onward_eq_some.mp moves with ⟨first, last, span, _, _⟩
      exact unmoved first last (tasks_span.mp span)
    · rw [ended', known]
      cases isStage : queue.stage e with
      | ended first last => exact absurd isStage (unmoved first last)
      | _ => rfl

theorem ended_eq_none (visited : Visited queue id newEndTime base images floors queue')
    (reset : Reset queue id base) (other : e ≠ id) (known : queue.ended e = none) :
    queue'.ended e = none := by
  rw [visited.delayed.ended, delayedEnded, reset.stage other, reset.ended e other, known]
  cases isStage : queue.stage e with
  | ended first last =>
      exact absurd (known.symm.trans (stage_eq_ended.mp isStage).2.2.2) (by simp)
  | _ => rfl

theorem startsFrom_or (visited : Visited queue id newEndTime base images floors queue')
    (reset : Reset queue id base) (other : e ≠ id) (nonneg : queue.NonNegative id newEndTime)
    (starts : queue'.StartsFrom e time) : queue.StartsFrom e time ∨
      ∃ bound, Demanded queue.tasks (queue.demands id newEndTime) e bound ∧ time ≤ bound := by
  have bounded : ∀ ref bound, base.Buffers e ref → images e = (bound : ℕ) →
      ∃ floor : ℤ, floors e = floor ∧ (bound : ℤ) ≤ floor * 1000 := by
    intro ref bound buffers known
    rcases visited.imaged e bound known with ⟨asked, demanded, rfl⟩
    rcases WithBot.coe_le_iff.mp (visited.met e asked demanded) with ⟨floor, isFloor, le⟩
    rcases reset.buffers.mp buffers with ⟨flow, isFlow, _⟩
    have small := asNanos_le (nonneg e asked flow demanded isFlow)
    exact ⟨floor, isFloor, by omega⟩
  rcases visited.delayed.startsFrom_or bounded starts with before | met
  · exact .inl ((reset.startsFrom other).mp before)
  · rcases WithBot.coe_le_iff.mp met with ⟨floor, known, le⟩
    exact .inr ⟨floor, (visited.demanded e floor known).1, le⟩

theorem startsFrom_of_demanded (visited : Visited queue id newEndTime base images floors queue')
    (reset : Reset queue id base) (words : queue.Representable id newEndTime) {bound : ℤ}
    (demanded : Demanded queue.tasks (queue.demands id newEndTime) e bound) (le : time ≤ bound) :
    queue'.StartsFrom e time := by
  have met := visited.met e bound demanded
  refine visited.delayed.startsFrom_of_le ((WithBot.coe_le_coe.mpr le).trans met) ?_
  intro unpending ref buffers
  rcases WithBot.coe_le_iff.mp met with ⟨floor, known, leFloor⟩
  rcases visited.demanded e floor known with ⟨isDemanded, handed⟩
  have early : time * 1000 ≤ floor * 1000 := by omega
  rcases words e floor ref isDemanded ((congrFun reset.pending e).symm.trans unpending)
    (reset.buffers.mp buffers) with fits | late
  · have raised := le_lift_of_le handed (base.netsim.state.arena ref).ts
    exact early.trans ((le_asNanos fits).trans (by exact_mod_cast raised))
  · rw [reset.netsim]
    exact early.trans (late.trans (by exact_mod_cast le_lift _ _))

/-- A flow that starts late enough in the network has been handed a time that fits, or needs
none. -/
theorem representable_of_startsFrom
    (visited : Visited queue id newEndTime base images floors queue')
    (reset : Reset queue id base) (starts : queue'.StartsFrom e time) {ref : Netsim.FlowRef}
    (unpending : queue.pending e = none) (buffers : queue.Buffers e ref) :
    time * 1000 < 2 ^ 64 ∨ time * 1000 ≤ (queue.netsim.state.arena ref).ts := by
  have unpending' := (congrFun reset.pending e).trans unpending
  have here := reset.buffers.mpr buffers
  have late := starts.2 (visited.delayed.pending_eq_none.mpr unpending') ref
    (visited.delayed.buffers.mpr here)
  rw [visited.delayed.buffered e ref unpending' here, reset.netsim] at late
  cases image : images e with
  | bot => exact .inr (by simpa [image] using late)
  | coe bound =>
      rcases visited.imaged e bound image with ⟨asked, _, rfl⟩
      have small := asNanos_lt asked
      rw [image, lift_coe] at late
      omega

theorem ended_self (visited : Visited queue id newEndTime base images floors queue')
    (acyclic : ∀ e, ¬queue.Before e e) : queue'.ended id = base.ended id :=
  (visited.delayed.sameRecords (visited.untouched (acyclic id))
    (visited.unhanded (acyclic id))).ended

/-- Behind every demand is an event that ends no earlier once it has been amended. -/
theorem exists_ended (visited : Visited queue id newEndTime base images floors queue')
    (reset : Reset queue id base) (acyclic : ∀ e, ¬queue.Before e e)
    (redated : queue.Redated id newEndTime base)
    (demanded : Demanded queue.tasks (queue.demands id newEndTime) e time) :
    ∃ d first last, queue.Precedes d e ∧ queue'.ended d = some (first, last) ∧ time ≤ last := by
  cases demanded with
  | first mem =>
      have same : time = newEndTime := by
        unfold demands at mem
        split at mem
        · cases mem
        · rcases List.mem_map.mp mem with ⟨other, _, same⟩
          cases same
          rfl
      rcases redated with ⟨none, _⟩ | ⟨_, startTime, moved⟩
      · exact absurd none (List.ne_nil_of_mem mem)
      · exact ⟨id, startTime, newEndTime, precedes_of_mem_demands mem,
          (visited.ended_self acyclic).trans moved, same.le⟩
  | @follow d _ asked _ before moves follows =>
      rcases Tasks.onward_eq_some.mp moves with ⟨startTime, endTime, span, early, rfl⟩
      have other : d ≠ id := by
        rintro rfl
        exact acyclic d (before_of_demanded rfl (fun _ _ => precedes_of_mem_demands) before)
      rcases visited.ended_cases reset other (stage_eq_ended.mp (tasks_span.mp span)).2.2.2 with
        ⟨moment, newEnd, _, greatest, _, whole, ended⟩ | ⟨unmoved, _⟩
      · have le := greatest asked before
        exact ⟨d, moment, newEnd, follows, ended, by omega⟩
      · exact absurd moves (unmoved asked _ before)

/-- When the graph is repaired, what has been handed to the network fits a word. -/
theorem representable_of_repaired
    (visited : Visited queue id newEndTime base images floors queue')
    (reset : Reset queue id base) (acyclic : ∀ e, ¬queue.Before e e)
    (redated : queue.Redated id newEndTime base)
    (repaired : queue.Repaired id queue') : queue.Representable id newEndTime := by
  intro e time ref demanded unpending buffers
  rcases visited.exists_ended reset acyclic redated demanded with ⟨d, first, last, edge, ended, le⟩
  have before := before_of_demanded rfl (fun _ _ => precedes_of_mem_demands) demanded
  rcases visited.representable_of_startsFrom reset (repaired.ordered before edge ended) unpending
    buffers with fits | late
  · exact .inl (by omega)
  · exact .inr (by omega)

/-- When the graph is repaired and no flow is demanded before zero, what has not been moved was in
order. -/
theorem punctual_of_repaired (visited : Visited queue id newEndTime base images floors queue')
    (reset : Reset queue id base) (acyclic : ∀ e, ¬queue.Before e e) {startTime endTime : ℤ}
    (ended : queue.ended id = some (startTime, endTime)) (later : endTime ≤ newEndTime)
    (redated : queue.Redated id newEndTime base)
    (nonneg : queue.NonNegative id newEndTime) (repaired : queue.Repaired id queue') :
    queue.Punctual id newEndTime := by
  intro d e first last before edge known
  have other : e ≠ id := by
    rintro rfl
    exact acyclic e before
  by_cases same : d = id
  · subst same
    cases ended.symm.trans known
    rcases redated with ⟨_, kept⟩ | ⟨all, _⟩
    · have starts := repaired.ordered before edge
        ((visited.ended_self acyclic).trans (kept.trans ended))
      rcases visited.startsFrom_or reset other nonneg starts with here | met
      · exact .inl here
      · exact .inr (.inl met)
    · refine .inr (.inl ⟨newEndTime, .first ?_, later⟩)
      rw [all]
      exact List.mem_map_of_mem edge
  · rcases visited.ended_cases reset same known with
      ⟨time, newEnd, demanded, _, moves, _, _⟩ | ⟨_, kept⟩
    · exact .inr (.inr ⟨time, newEnd, demanded, moves⟩)
    · have starts := repaired.ordered before edge kept
      rcases visited.startsFrom_or reset other nonneg starts with here | met
      · exact .inl here
      · exact .inr (.inl met)

/-- When the dependents have been visited, everything is in order if what has not been moved was and
what has been handed to the network fits. -/
theorem repaired_of_punctual (visited : Visited queue id newEndTime base images floors queue')
    (reset : Reset queue id base) (acyclic : ∀ e, ¬queue.Before e e)
    (redated : queue.Redated id newEndTime base)
    (words : queue.Representable id newEndTime) (punctual : queue.Punctual id newEndTime) :
    queue.Repaired id queue' := by
  refine ⟨?_, ?_, ?_⟩
  · intro d e first last before edge known
    have other : e ≠ id := by
      rintro rfl
      exact acyclic e before
    have kept : queue.StartsFrom e last → queue'.StartsFrom e last := fun starts =>
      visited.delayed.startsFrom_of_startsFrom ((reset.startsFrom other).mpr starts)
    by_cases same : d = id
    · subst same
      rcases redated with ⟨none, unmoved⟩ | ⟨all, _, moved⟩
      · have known' := unmoved.symm.trans ((visited.ended_self acyclic).symm.trans known)
        rcases punctual d e first last before edge known' with
          here | ⟨bound, demanded, le⟩ | ⟨_, _, demanded, _⟩
        · exact kept here
        · exact visited.startsFrom_of_demanded reset words demanded le
        · exact absurd (before_of_demanded rfl (fun _ _ => precedes_of_mem_demands) demanded)
            (acyclic d)
      · cases moved.symm.trans ((visited.ended_self acyclic).symm.trans known)
        refine visited.startsFrom_of_demanded reset words (.first ?_) (le_refl newEndTime)
        rw [all]
        exact List.mem_map_of_mem edge
    · cases known' : queue.ended d with
      | none =>
          exact absurd (known.symm.trans (visited.ended_eq_none reset same known')) (by simp)
      | some span =>
          rcases visited.ended_cases reset same known' with
            ⟨time, newEnd, demanded, _, moves, _, moved⟩ | ⟨unmoved, stays⟩
          · have same : last = newEnd :=
              congrArg Prod.snd (Option.some.inj (known.symm.trans moved))
            exact visited.startsFrom_of_demanded reset words (demanded.follow moves edge) same.le
          · have same : (first, last) = span := Option.some.inj (known.symm.trans stays)
            rw [← same] at known'
            rcases punctual d e first last before edge known' with
              here | ⟨bound, demanded, le⟩ | ⟨time, newEnd, demanded, moves⟩
            · exact kept here
            · exact visited.startsFrom_of_demanded reset words demanded le
            · exact absurd moves (unmoved time newEnd demanded)
  · intro e differs
    exact (reset.sameRecords differs).sameDuration reset.inQueueNotStarted
      (visited.delayed.sameDuration e)
  · intro e differs independent
    exact (reset.sameRecords differs).trans (fun ref => reset.buffers)
      (visited.delayed.sameRecords (visited.untouched independent)
        (visited.unhanded independent))

end Visited

/-- The events that depend on each other are finitely many. -/
theorem founded_of_acyclic (acyclic : ∀ e, ¬queue.Before e e)
    (issued : ∀ {d e}, queue.Precedes d e → e < queue.eventCounter) :
    WellFounded fun later e => later ∈ queue.revDependencies e := by
  have order : IsStrictOrder EventId (Function.swap queue.Before) :=
    { irrefl := acyclic, trans := fun _ _ _ first second => Relation.TransGen.trans second first }
  have founded : (Set.Iio queue.eventCounter).WellFoundedOn (Function.swap queue.Before) :=
    (Set.finite_Iio queue.eventCounter).wellFoundedOn
  have accessible : ∀ e < queue.eventCounter,
      Acc (fun later e => later ∈ queue.revDependencies e) e := by
    intro e lt
    refine founded.induction lt ?_
    intro e _ ih
    exact ⟨e, fun later follows => ih later (issued follows) (.single follows)⟩
  exact ⟨fun e => ⟨e, fun later follows => accessible later (issued follows)⟩⟩

theorem Fits.mono {earlier : ℤ} (fits : queue.Fits e time) (le : earlier ≤ time) :
    queue.Fits e earlier := by
  intro unpending
  refine ⟨(fits unpending).1, ?_⟩
  intro startTime stage early
  exact (fits unpending).2 startTime stage (early.trans_le le)

section Amend

variable {newEndTime : ℤ}

/-- If the dependents are visited, all that is demanded fits. -/
theorem Visited.fits (visited : Visited queue id newEndTime base images floors queue')
    (reset : Reset queue id base) (acyclic : ∀ e, ¬queue.Before e e)
    (demanded : Demanded queue.tasks (queue.demands id newEndTime) e time) :
    queue.Fits e time := by
  rcases WithBot.coe_le_iff.mp (visited.met e time demanded) with ⟨floor, known, le⟩
  have other : e ≠ id := by
    rintro rfl
    exact acyclic e (before_of_demanded rfl (fun _ _ => precedes_of_mem_demands) demanded)
  exact ((reset.fits other).mp (visited.delayed.fits e floor known)).mono le

/-- A run of the visits. -/
theorem exists_visited
    (distinct : ∀ {e e' ref}, queue.Buffers e ref → queue.Buffers e' ref → e = e')
    (reset : Reset queue id base) (acyclic : ∀ e, ¬queue.Before e e)
    (demands : queue.demands id newEndTime = (queue.revDependencies id).map (·, newEndTime))
    {events : List EventId} (order : events.Perm (queue.revDependencies id)) {fuel : ℕ}
    (run : events.foldlM (fun queue e => changeStartTimeNotless platform fuel queue e newEndTime)
      base = .ok queue') :
    ∃ images floors, Visited queue id newEndTime base images floors queue' := by
  have distinct' : ∀ {e e' ref}, base.Buffers e ref → base.Buffers e' ref → e = e' :=
    fun left right => distinct (reset.buffers.mp left) (reset.buffers.mp right)
  rcases handled_of_foldlM (fun run delayed => changeStartTimeNotless_handled distinct' run
    delayed) run (.refl base) with ⟨images, floors, delayed, settles⟩
  refine ⟨images, floors, visited_of_settles reset acyclic delayed ?_
    (settles [] floors images (.done floors images))⟩
  intro demand
  rw [List.append_nil, demands]
  exact (order.map _).mem_iff

/-- With enough fuel the dependents can be visited when all that is demanded fits. -/
theorem exists_fuel
    (distinct : ∀ {e e' ref}, queue.Buffers e ref → queue.Buffers e' ref → e = e')
    (reset : Reset queue id base) (acyclic : ∀ e, ¬queue.Before e e)
    (issued : ∀ {d e}, queue.Precedes d e → e < queue.eventCounter)
    (demands : queue.demands id newEndTime = (queue.revDependencies id).map (·, newEndTime))
    (fits : ∀ e time, Demanded queue.tasks (queue.demands id newEndTime) e time →
      queue.Fits e time) :
    ∃ bound, ∀ (platform : Platform) (fuel : ℕ) (events : List EventId), bound ≤ fuel →
      events.Perm (queue.revDependencies id) → ∃ queue', events.foldlM (fun queue e =>
        changeStartTimeNotless platform fuel queue e newEndTime) base = .ok queue' := by
  have distinct' : ∀ {e e' ref}, base.Buffers e ref → base.Buffers e' ref → e = e' :=
    fun left right => distinct (reset.buffers.mp left) (reset.buffers.mp right)
  have founded : WellFounded fun later e => later ∈ base.revDependencies e := by
    rw [reset.revDependencies]
    exact founded_of_acyclic acyclic issued
  have fits' : ∀ e time, Demanded base.tasks (queue.demands id newEndTime) e time →
      base.Fits e time := by
    intro e time demanded
    have other : ∀ {e time}, Demanded base.tasks (queue.demands id newEndTime) e time → e ≠ id := by
      rintro e time demanded rfl
      exact acyclic e (before_of_demanded reset.revDependencies
        (fun _ _ => precedes_of_mem_demands) demanded)
    refine (reset.fits (other demanded)).mpr (fits e time ?_)
    exact demanded.congr reset.revDependencies.symm (List.Subset.refl _)
      fun d bound reached => (reset.onward (other reached)).symm
  have each := (Filter.eventually_all_finite (List.finite_toSet (queue.revDependencies id))).mpr
    fun e _ => eventually_changeStartTimeNotless distinct' founded fits' e
  rcases Filter.eventually_atTop.mp each with ⟨bound, enough⟩
  refine ⟨bound, ?_⟩
  intro platform fuel events more order
  refine exists_foldlM (fun run delayed => changeStartTimeNotless_handled distinct' run delayed) ?_
    (.refl base)
  intro e mem images floors middle delayed
  refine enough fuel more e (order.mem_iff.mp mem) platform images floors middle _ delayed
    (.first ?_)
  rw [demands]
  exact List.mem_map_of_mem (order.mem_iff.mp mem)

end Amend

/-- Only events that exist depend on each other. -/
theorem Tracked.precedes_lt (tracked : Tracked queue) {d : EventId} (edge : queue.Precedes d e) :
    d < queue.eventCounter ∧ e < queue.eventCounter := by
  refine ⟨?_, tracked.waits.revIssued edge⟩
  by_contra notIssued
  have unended : queue.ended d = none := by
    by_contra ended
    have isEnded : Spotted [] queue d .ended := ended
    exact notIssued (tracked.spots.issued isEnded)
  rcases tracked.waits.waits edge unended with ⟨p, known, mem⟩
  exact notIssued (tracked.waits.issued known mem)

/-- Of two events only the second depends on the other one. -/
theorem precedes_of_pair (tracked : Tracked queue) (two : queue.eventCounter = 2)
    (first : queue.revDependencies 0 = [1]) (second : queue.revDependencies 1 = [])
    {d : EventId} (edge : queue.Precedes d e) : d = 0 ∧ e = 1 := by
  have issued := (tracked.precedes_lt edge).1
  rw [two] at issued
  rcases Nat.le_one_iff_eq_zero_or_eq_one.mp (Nat.le_of_lt_succ issued) with rfl | rfl
  · rw [Precedes, first, List.mem_singleton] at edge
    exact ⟨rfl, edge⟩
  · rw [Precedes, second] at edge
    cases edge

theorem acyclic_of_pair (pair : ∀ {d e}, queue.Precedes d e → d = 0 ∧ e = 1) (e : EventId) :
    ¬queue.Before e e := by
  have ordered : ∀ {d e}, queue.Before d e → d = 0 ∧ e = 1 := by
    intro d e before
    induction before with
    | single edge => exact pair edge
    | tail _ edge ih => exact ⟨ih.1, (pair edge).2⟩
  intro before
  exact absurd ((ordered before).1.symm.trans (ordered before).2) (by decide)

/-- What a test of an amendment reads. -/
structure AmendmentReading where
  ended : Option (ℤ × ℤ) × Option (ℤ × ℤ)
  revDependencies : List EventId × List EventId
  eventCounter : ℕ
  queued : Bool × Bool
  unpending : Bool
  isFlow : Bool
  unbuffered : Bool
deriving DecidableEq

/-- The reading of a queue of two events. -/
def amendmentReading (queue : EventQueue) : AmendmentReading where
  ended := (queue.ended 0, queue.ended 1)
  revDependencies := (queue.revDependencies 0, queue.revDependencies 1)
  eventCounter := queue.eventCounter
  queued := (decide (queue.Queued (.endOf 0)), decide (queue.Queued (.pointOf 0)))
  unpending := (queue.pending 1).isNone
  isFlow := (queue.eventToFlow 1).isSome
  unbuffered := queue.netsim.state.flowBufs.entries.isEmpty

/-- A flow that starts when another one has ended. -/
def flowThenFlow : List Call :=
  [.addActionOrPoint [] (some (pairFlow 0 2000)) 0,
    .addActionOrPoint [some 0] (some (pairFlow 1 2000)) 0, .execute, .execute, .execute, .execute]

end EventQueue

end Phantora
