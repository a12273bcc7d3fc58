import Mathlib.Data.Int.ConditionallyCompleteOrder
import Phantora.EventQueue.Wakeups
import Phantora.Lib.LongestPath

/-!
# The schedule without flows

Points and computations start when the last of their dependencies has ended, but
not before the time they were added with: at the longest path that leads to
them, however their execution is interleaved with the calls that add them.
-/

namespace Phantora

open Outcome

/-- The time that an action takes, without a flow. -/
def durationOf : Option Action → ℤ
  | some (.computation _ duration _) => duration
  | _ => 0

namespace EventQueue

variable {platform : Platform} {agenda agenda' : Agenda} {queue queue' : EventQueue}

/-- No event has a flow, and events depend only on what they were added with. -/
structure Plain (queue : EventQueue) : Prop where
  flowless : ∀ e, queue.eventToFlow e = none
  recorded : ∀ {d e}, e ∈ queue.revDependencies d →
    ∃ dependsOn action time, queue.recordOf e = some (dependsOn, action, time) ∧ some d ∈ dependsOn

/-- The time is one that an event with these dependencies waits for; a pending one that has
seen no dependency end waits for the time 0. -/
def Reaches (queue : EventQueue) (dependsOn : List (Option EventId)) (time start : ℤ) : Prop :=
  start = 0 ∨ start = time ∨
    ∃ d startTime, some d ∈ dependsOn ∧ queue.ended d = some (startTime, start)

/-- The event with this action starts when its last dependency has ended. -/
def Starts (queue : EventQueue) (e : EventId) (action : Option Action) (start : ℤ) : Prop :=
  ∃ dependsOn time, queue.recordOf e = some (dependsOn, action, time) ∧ time ≤ start ∧
    (∀ d, some d ∈ dependsOn → queue.EndedBy d start) ∧ queue.Reaches dependsOn time start

/-- The event would start so if the rest of its dependencies had ended. -/
def Awaits (queue : EventQueue) (e : EventId) (p : Pending) : Prop :=
  ∃ dependsOn time, queue.recordOf e = some (dependsOn, p.action, time) ∧
    time ≤ max p.depEndTime p.arriveTime ∧
    (∀ d, some d ∈ dependsOn → some d ∈ p.dependencies ∨
      queue.EndedBy d (max p.depEndTime p.arriveTime)) ∧
    queue.Reaches dependsOn time (max p.depEndTime p.arriveTime)

/-- What is recorded stays recorded. -/
structure Keeps (queue queue' : EventQueue) : Prop where
  recordOf : ∀ {e record}, queue.recordOf e = some record → queue'.recordOf e = some record
  ended : ∀ {e span}, queue.ended e = some span → queue'.ended e = some span

namespace Keeps

theorem of_eq (recordOf : queue'.recordOf = queue.recordOf) (ended : queue'.ended = queue.ended) :
    Keeps queue queue' :=
  ⟨fun known => recordOf ▸ known, fun known => ended ▸ known⟩

theorem endedBy (keeps : Keeps queue queue') {d : EventId} {time : ℤ}
    (ended : queue.EndedBy d time) : queue'.EndedBy d time := by
  rcases ended with ⟨startTime, endTime, known, le⟩
  exact ⟨startTime, endTime, keeps.ended known, le⟩

theorem reaches (keeps : Keeps queue queue') {dependsOn : List (Option EventId)} {time start : ℤ}
    (reaches : queue.Reaches dependsOn time start) : queue'.Reaches dependsOn time start := by
  refine reaches.imp_right (Or.imp_right ?_)
  rintro ⟨d, startTime, mem, known⟩
  exact ⟨d, startTime, mem, keeps.ended known⟩

theorem starts (keeps : Keeps queue queue') {e : EventId} {action : Option Action} {start : ℤ}
    (starts : queue.Starts e action start) : queue'.Starts e action start := by
  rcases starts with ⟨dependsOn, time, known, le, ended, reaches⟩
  exact ⟨dependsOn, time, keeps.recordOf known, le, fun d mem => keeps.endedBy (ended d mem),
    keeps.reaches reaches⟩

theorem awaits (keeps : Keeps queue queue') {e : EventId} {p : Pending}
    (awaits : queue.Awaits e p) : queue'.Awaits e p := by
  rcases awaits with ⟨dependsOn, time, known, le, ended, reaches⟩
  exact ⟨dependsOn, time, keeps.recordOf known, le,
    fun d mem => (ended d mem).imp_right keeps.endedBy, keeps.reaches reaches⟩

end Keeps

theorem recordOf_issue (queue : EventQueue) (dependsOn : List (Option EventId))
    (action : Option Action) (time : ℤ) (e : EventId) :
    (queue.issue dependsOn action time).recordOf e =
      if e = queue.eventCounter then some (dependsOn, action, time) else queue.recordOf e := by
  have created : (queue.issue dependsOn action time).created =
      (queue.eventCounter, dependsOn, action, time) :: queue.created := rfl
  rw [recordOf, recordOf, created]
  by_cases same : e = queue.eventCounter
  · rw [if_pos same, List.find?_cons_of_pos (by simp [same])]
    rfl
  · rw [if_neg same, List.find?_cons_of_neg (by simpa [eq_comm] using same)]

/-- A new event has no record yet. -/
def Unrecorded (queue : EventQueue) : Prop :=
  ∀ e, queue.eventCounter ≤ e → queue.recordOf e = none

/-- Every event has its time in the schedule, wherever it is. -/
structure Exact (agenda : Agenda) (queue : EventQueue) : Prop where
  pending : ∀ {e p}, queue.pending e = some p → queue.Awaits e p
  launch : ∀ {e action time}, .launch e action time ∈ agenda → queue.Starts e action time
  reaching : ∀ {e time counter}, (QueueEvent.pointOf e, toLex (time, counter)) ∈ queue.eventQueue →
    queue.Starts e none time
  starting : ∀ {e time counter}, (QueueEvent.startOf e, toLex (time, counter)) ∈ queue.eventQueue →
    ∃ action, queue.inQueueNotStarted e = some action ∧ queue.Starts e (some action) time
  ending : ∀ {e time counter}, (QueueEvent.endOf e, toLex (time, counter)) ∈ queue.eventQueue →
    ∃ action start, queue.started e = some start ∧ queue.Starts e action start ∧
      time = start + durationOf action
  finish : ∀ {e startTime endTime}, .finish e startTime endTime ∈ agenda →
    ∃ action, queue.Starts e action startTime ∧ endTime = startTime + durationOf action
  ended : ∀ {e startTime endTime}, queue.ended e = some (startTime, endTime) →
    ∃ action, queue.Starts e action startTime ∧ endTime = startTime + durationOf action

namespace Exact

/-- Nothing about times changes but what is pending. -/
theorem keep (timed : Exact agenda queue) (keeps : Keeps queue queue')
    (pending : ∀ {e p}, queue'.pending e = some p → queue'.Awaits e p)
    (launch : ∀ {e action time}, .launch e action time ∈ agenda' → queue'.Starts e action time)
    (eventQueue : queue'.eventQueue = queue.eventQueue)
    (inQueueNotStarted : queue'.inQueueNotStarted = queue.inQueueNotStarted)
    (started : queue'.started = queue.started)
    (finish : ∀ {e startTime endTime}, .finish e startTime endTime ∈ agenda' →
      .finish e startTime endTime ∈ agenda)
    (ended : queue'.ended = queue.ended) : Exact agenda' queue' := by
  refine ⟨pending, launch, ?_, ?_, ?_, ?_, ?_⟩
  · intro e time counter mem
    rw [eventQueue] at mem
    exact keeps.starts (timed.reaching mem)
  · intro e time counter mem
    rw [eventQueue] at mem
    rw [inQueueNotStarted]
    rcases timed.starting mem with ⟨action, known, starts⟩
    exact ⟨action, known, keeps.starts starts⟩
  · intro e time counter mem
    rw [eventQueue] at mem
    rw [started]
    rcases timed.ending mem with ⟨action, start, known, starts, last⟩
    exact ⟨action, start, known, keeps.starts starts, last⟩
  · intro e startTime endTime mem
    rcases timed.finish (finish mem) with ⟨action, starts, last⟩
    exact ⟨action, keeps.starts starts, last⟩
  · intro e startTime endTime known
    rw [ended] at known
    rcases timed.ended known with ⟨action, starts, last⟩
    exact ⟨action, keeps.starts starts, last⟩

end Exact

/-- A pending event that waits for nothing more starts now. -/
theorem Awaits.starts {e : EventId} {p : Pending} (awaits : queue.Awaits e p)
    (empty : p.dependencies = ∅) :
    queue.Starts e p.action (max p.depEndTime p.arriveTime) := by
  rcases awaits with ⟨dependsOn, time, known, le, ended, reaches⟩
  refine ⟨dependsOn, time, known, le, ?_, reaches⟩
  intro d mem
  rcases ended d mem with waits | past
  · rw [empty] at waits
    exact absurd waits (Finset.notMem_empty _)
  · exact past

theorem EndedBy.mono {d : EventId} {first second : ℤ} (ended : queue.EndedBy d first)
    (le : first ≤ second) : queue.EndedBy d second := by
  rcases ended with ⟨startTime, endTime, known, le'⟩
  exact ⟨startTime, endTime, known, le'.trans le⟩

/-- The end of a dependency is taken into account. -/
theorem Awaits.noted {d e : EventId} {p : Pending} {startTime endTime : ℤ}
    (awaits : queue'.Awaits e p) (ended : queue'.ended d = some (startTime, endTime))
    (recorded : some d ∈ p.dependencies → ∃ dependsOn action time,
      queue'.recordOf e = some (dependsOn, action, time) ∧ some d ∈ dependsOn) :
    queue'.Awaits e (p.noted d endTime) := by
  by_cases waits : some d ∈ p.dependencies
  · rcases awaits with ⟨dependsOn, time, known, le, past, reaches⟩
    rcases recorded waits with ⟨dependsOn', action, time', known', mem⟩
    rw [known, Option.some.injEq, Prod.mk.injEq] at known'
    rcases known' with ⟨rfl, _⟩
    have later : max p.depEndTime p.arriveTime ≤ max (max p.depEndTime endTime) p.arriveTime :=
      max_le_max_right _ (le_max_left _ _)
    have noted : p.noted d endTime = { p with
        dependencies := p.dependencies.erase (some d)
        depEndTime := max p.depEndTime endTime } := if_pos waits
    rw [noted]
    refine ⟨dependsOn, time, known, le.trans later, ?_, ?_⟩
    · intro other mem'
      by_cases same : other = d
      · subst other
        have last : endTime ≤ max (max p.depEndTime endTime) p.arriveTime :=
          (le_max_right _ _).trans (le_max_left _ _)
        exact Or.inr ⟨startTime, endTime, ended, last⟩
      · refine (past other mem').imp ?_ (fun past => past.mono later)
        intro waits'
        exact Finset.mem_erase.mpr ⟨fun equal => same (Option.some.inj equal), waits'⟩
    · rcases le_total endTime (max p.depEndTime p.arriveTime) with early | late
      · have same : max (max p.depEndTime endTime) p.arriveTime =
            max p.depEndTime p.arriveTime := by
          apply le_antisymm
          · exact max_le (max_le (le_max_left _ _) early) (le_max_right _ _)
          · exact later
        dsimp only
        rw [same]
        exact reaches
      · have same : max (max p.depEndTime endTime) p.arriveTime = endTime := by
          apply le_antisymm
          · exact max_le (max_le ((le_max_left _ _).trans late) le_rfl)
              ((le_max_right _ _).trans late)
          · exact (le_max_right _ _).trans (le_max_left _ _)
        dsimp only
        rw [same]
        exact Or.inr (Or.inr ⟨d, startTime, mem, ended⟩)
  · have noted : p.noted d endTime = p := if_neg waits
    rw [noted]
    exact awaits

namespace Exact

/-- A pending event is released. -/
theorem release {e : EventId} {p : Pending} (timed : Exact (.release e :: agenda) queue)
    (known : queue.pending e = some p) (empty : p.dependencies = ∅) :
    Exact (.launch e p.action (max p.depEndTime p.arriveTime) :: agenda)
      { queue with pending := Function.update queue.pending e none } := by
  refine timed.keep (.of_eq rfl rfl) ?_ ?_ rfl rfl rfl ?_ rfl
  · intro other p' known'
    exact timed.pending (eq_some_of_update_none known')
  · intro other action time mem
    rcases List.mem_cons.mp mem with same | mem
    · cases same
      exact (timed.pending known).starts empty
    · exact timed.launch (List.mem_cons_of_mem _ mem)
  · intro other startTime endTime mem
    rcases List.mem_cons.mp mem with same | mem
    · cases same
    · exact List.mem_cons_of_mem _ mem

/-- A point is queued. -/
theorem point {e : EventId} {time : ℤ} (timed : Exact (.launch e none time :: agenda) queue)
    (counter : ℕ) : Exact agenda (queue.pushEntry (.pointOf e) time counter) := by
  have old : ∀ {event : QueueEvent} {priority : Priority}, event ≠ .pointOf e →
      (event, priority) ∈ (queue.pushEntry (.pointOf e) time counter).eventQueue →
        (event, priority) ∈ queue.eventQueue := by
    intro event priority differs mem
    rcases PriorityQueue.mem_push.mp mem with ⟨same, _⟩ | ⟨_, mem⟩
    · exact absurd same differs
    · exact mem
  refine ⟨timed.pending, fun mem => timed.launch (List.mem_cons_of_mem _ mem), ?_, ?_, ?_,
    fun mem => timed.finish (List.mem_cons_of_mem _ mem), timed.ended⟩
  · intro other time' counter' mem
    rcases PriorityQueue.mem_push.mp mem with ⟨same, entry⟩ | ⟨_, mem⟩
    · cases same
      cases entry
      exact timed.launch List.mem_cons_self
    · exact timed.reaching mem
  · intro other time' counter' mem
    exact timed.starting (old (by simp) mem)
  · intro other time' counter' mem
    exact timed.ending (old (by simp) mem)

/-- The start of a computation is queued. -/
theorem compute {e : EventId} {node : HostId} {duration time : ℤ} {info : ComputeMeta}
    (timed : Exact (.launch e (some (.computation node duration info)) time :: agenda) queue)
    (counter : ℕ) :
    Exact agenda (queue.pushStart e (.computation node duration info) time counter) := by
  have old : ∀ {event : QueueEvent} {priority : Priority}, event ≠ .startOf e → (event, priority) ∈
      (queue.pushStart e (.computation node duration info) time counter).eventQueue →
        (event, priority) ∈ queue.eventQueue := by
    intro event priority differs mem
    rcases PriorityQueue.mem_push.mp mem with ⟨same, _⟩ | ⟨_, mem⟩
    · exact absurd same differs
    · exact mem
  refine ⟨timed.pending, fun mem => timed.launch (List.mem_cons_of_mem _ mem), ?_, ?_, ?_,
    fun mem => timed.finish (List.mem_cons_of_mem _ mem), timed.ended⟩
  · intro other time' counter' mem
    exact timed.reaching (old (by simp) mem)
  · intro other time' counter' mem
    rcases PriorityQueue.mem_push.mp mem with ⟨same, entry⟩ | ⟨differs, mem⟩
    · cases same
      cases entry
      exact ⟨_, Function.update_self .., timed.launch List.mem_cons_self⟩
    · rcases timed.starting mem with ⟨action, known, starts⟩
      have other_ne : other ≠ e := fun same => differs (congrArg _ same)
      exact ⟨action, (Function.update_of_ne other_ne ..).trans known, starts⟩
  · intro other time' counter' mem
    exact timed.ending (old (by simp) mem)

/-- A point is reached. -/
theorem reach {e : EventId} {time : ℤ} {counter : ℕ} (timed : Exact [] queue)
    (queued : (QueueEvent.pointOf e, toLex (time, counter)) ∈ queue.eventQueue) :
    Exact [.finish e time time]
      { queue with eventQueue := queue.eventQueue.erase (.pointOf e) } := by
  refine ⟨timed.pending, ?_, ?_, ?_, ?_, ?_, timed.ended⟩
  · intro other action time' mem
    simp at mem
  · intro other time' counter' mem
    exact timed.reaching (PriorityQueue.mem_erase.mp mem).2
  · intro other time' counter' mem
    exact timed.starting (PriorityQueue.mem_erase.mp mem).2
  · intro other time' counter' mem
    exact timed.ending (PriorityQueue.mem_erase.mp mem).2
  · intro other startTime endTime mem
    cases List.mem_singleton.mp mem
    exact ⟨none, timed.reaching queued, (add_zero time).symm⟩

/-- A computation stops. -/
theorem stop {e : EventId} {time startTime : ℤ} {counter : ℕ} (timed : Exact [] queue)
    (queued : (QueueEvent.endOf e, toLex (time, counter)) ∈ queue.eventQueue)
    (known : queue.started e = some startTime) :
    Exact [.finish e startTime time] { queue with
      eventQueue := queue.eventQueue.erase (.endOf e)
      started := Function.update queue.started e none } := by
  refine ⟨timed.pending, ?_, ?_, ?_, ?_, ?_, timed.ended⟩
  · intro other action time' mem
    simp at mem
  · intro other time' counter' mem
    exact timed.reaching (PriorityQueue.mem_erase.mp mem).2
  · intro other time' counter' mem
    exact timed.starting (PriorityQueue.mem_erase.mp mem).2
  · intro other time' counter' mem
    rcases PriorityQueue.mem_erase.mp mem with ⟨differs, mem⟩
    rcases timed.ending mem with ⟨action, start, known', starts, last⟩
    have other_ne : other ≠ e := fun same => differs (congrArg _ same)
    exact ⟨action, start, (Function.update_of_ne other_ne ..).trans known', starts, last⟩
  · intro other startTime' endTime mem
    cases List.mem_singleton.mp mem
    rcases timed.ending queued with ⟨action, start, known', starts, last⟩
    rw [known, Option.some.injEq] at known'
    exact ⟨action, known' ▸ starts, known' ▸ last⟩

/-- A computation starts, and its end is queued. -/
theorem startComputation {e : EventId} {time : ℤ} {counter : ℕ} {node : HostId} {duration : ℤ}
    {info : ComputeMeta} (timed : Exact [] queue) (counter' : ℕ)
    (queued : (QueueEvent.startOf e, toLex (time, counter)) ∈ queue.eventQueue)
    (known : queue.inQueueNotStarted e = some (.computation node duration info)) :
    Exact [] { queue with
      eventQueue := (queue.eventQueue.erase (.startOf e)).push (.endOf e)
        (toLex (time + duration, counter'))
      inQueueNotStarted := Function.update queue.inQueueNotStarted e none
      started := Function.update queue.started e (some time) } := by
  refine ⟨timed.pending, ?_, ?_, ?_, ?_, ?_, timed.ended⟩
  · intro other action time' mem
    cases mem
  · intro other time' counter' mem
    rcases PriorityQueue.mem_push.mp mem with ⟨same, _⟩ | ⟨_, mem⟩
    · cases same
    · exact timed.reaching (PriorityQueue.mem_erase.mp mem).2
  · intro other time' counter' mem
    rcases PriorityQueue.mem_push.mp mem with ⟨same, _⟩ | ⟨_, mem⟩
    · cases same
    · rcases PriorityQueue.mem_erase.mp mem with ⟨differs, mem⟩
      rcases timed.starting mem with ⟨action, known', starts⟩
      have other_ne : other ≠ e := fun same => differs (congrArg _ same)
      exact ⟨action, (Function.update_of_ne other_ne ..).trans known', starts⟩
  · intro other time' counter' mem
    rcases PriorityQueue.mem_push.mp mem with ⟨same, entry⟩ | ⟨differs, mem⟩
    · cases same
      cases entry
      rcases timed.starting queued with ⟨action, known', starts⟩
      rw [known, Option.some.injEq] at known'
      exact ⟨_, time, Function.update_self .., known' ▸ starts, rfl⟩
    · rcases timed.ending (PriorityQueue.mem_erase.mp mem).2 with
        ⟨action, start, known', starts, last⟩
      have other_ne : other ≠ e := fun same => differs (congrArg _ same)
      exact ⟨action, start, (Function.update_of_ne other_ne ..).trans known', starts, last⟩
  · intro other startTime endTime mem
    cases mem

/-- The end of an event is recorded, once. -/
theorem record_end {e : EventId} {startTime endTime : ℤ} {pending : EventId → Option Pending}
    {released : List EventId} (timed : Exact (.finish e startTime endTime :: agenda) queue)
    (waits : Waits (.finish e startTime endTime :: agenda) queue) (plain : Plain queue)
    (unended : queue.ended e = none) (noted : Noted queue e endTime pending released) :
    Exact (released.map .release ++ agenda)
      { queue.finished e startTime endTime with pending := pending } := by
  have keeps : Keeps queue { queue.finished e startTime endTime with pending := pending } := by
    refine ⟨fun known => known, ?_⟩
    intro other span known
    have differs : other ≠ e := by
      rintro rfl
      exact Option.some_ne_none _ (known.symm.trans unended)
    exact (Function.update_of_ne differs ..).trans known
  refine ⟨?_, ?_, ?_, ?_, ?_, ?_, ?_⟩
  · intro other p' known
    rcases noted.eq_some known with ⟨p, old, rfl | ⟨_, rfl⟩⟩
    · exact keeps.awaits (timed.pending old)
    · refine (keeps.awaits (timed.pending old)).noted (Function.update_self ..) ?_
      intro mem
      exact plain.recorded (waits.unended old mem).2
  · intro other action time mem
    rcases List.mem_append.mp mem with mem | mem
    · simp at mem
    · exact keeps.starts (timed.launch (List.mem_cons_of_mem _ mem))
  · intro other time counter mem
    exact keeps.starts (timed.reaching mem)
  · intro other time counter mem
    rcases timed.starting mem with ⟨action, known, starts⟩
    exact ⟨action, known, keeps.starts starts⟩
  · intro other time counter mem
    rcases timed.ending mem with ⟨action, start, known, starts, last⟩
    exact ⟨action, start, known, keeps.starts starts, last⟩
  · intro other startTime' endTime' mem
    rcases List.mem_append.mp mem with mem | mem
    · simp at mem
    · rcases timed.finish (List.mem_cons_of_mem _ mem) with ⟨action, starts, last⟩
      exact ⟨action, keeps.starts starts, last⟩
  · intro other startTime' endTime' known
    by_cases same : other = e
    · subst other
      have span : (startTime, endTime) = (startTime', endTime') :=
        Option.some.inj ((Function.update_self e _ queue.ended).symm.trans known)
      cases span
      rcases timed.finish List.mem_cons_self with ⟨action, starts, last⟩
      exact ⟨action, keeps.starts starts, last⟩
    · rcases timed.ended ((Function.update_of_ne same _ _).symm.trans known) with
        ⟨action, starts, last⟩
      exact ⟨action, keeps.starts starts, last⟩

section Issue

variable {dependsOn : List (Option EventId)} {action : Option Action} {time arriveTime : ℤ}
  {rev : EventId → List EventId} {depends : Finset (Option EventId)}

theorem keeps_issue (unrecorded : Unrecorded queue) {pending : EventId → Option Pending} :
    Keeps queue { queue.issue dependsOn action time with
      revDependencies := rev, pending := pending } := by
  refine ⟨?_, fun known => known⟩
  intro e record known
  have differs : e ≠ queue.eventCounter := by
    rintro rfl
    exact Option.some_ne_none _ (known.symm.trans (unrecorded _ le_rfl))
  exact (recordOf_issue queue dependsOn action time e).trans ((if_neg differs).trans known)

/-- A new event that is pushed at once. -/
theorem add (timed : Exact [] queue) (unrecorded : Unrecorded queue)
    (registered : Registered queue dependsOn time rev depends arriveTime) (empty : depends = ∅) :
    Exact [.launch queue.eventCounter action arriveTime]
      { queue.issue dependsOn action time with revDependencies := rev } := by
  have keeps : Keeps queue { queue.issue dependsOn action time with revDependencies := rev } :=
    keeps_issue unrecorded
  refine timed.keep keeps ?_ ?_ rfl rfl rfl ?_ rfl
  · intro e p known
    exact keeps.awaits (timed.pending known)
  · intro e action' time' mem
    cases List.mem_singleton.mp mem
    refine ⟨dependsOn, time, (recordOf_issue ..).trans (if_pos rfl), registered.later, ?_, ?_⟩
    · intro d mem
      rcases registered.ended mem with unended | ended
      · have waits := (registered.depends (some d)).mpr
          ⟨mem, fun other same => Option.some.inj same ▸ unended⟩
        rw [empty] at waits
        exact absurd waits (Finset.notMem_empty _)
      · exact keeps.endedBy ended
    · exact Or.inr registered.latest
  · intro e startTime endTime mem
    cases List.mem_singleton.mp mem

/-- A new event that waits. -/
theorem wait (timed : Exact [] queue) (unrecorded : Unrecorded queue)
    (registered : Registered queue dependsOn time rev depends arriveTime) :
    Exact [] { queue.issue dependsOn action time with
      revDependencies := rev
      pending := Function.update queue.pending queue.eventCounter
        (some ⟨depends, arriveTime, 0, action⟩) } := by
  refine timed.keep (keeps_issue unrecorded) ?_ ?_ rfl rfl rfl (fun mem => mem) rfl
  · intro e p known
    by_cases same : e = queue.eventCounter
    · subst e
      have equal : (⟨depends, arriveTime, 0, action⟩ : Pending) = p :=
        Option.some.inj ((Function.update_self _ _ queue.pending).symm.trans known)
      subst p
      refine ⟨dependsOn, time, (recordOf_issue ..).trans (if_pos rfl),
        registered.later.trans (le_max_right _ _), ?_, ?_⟩
      · intro d mem
        rcases registered.ended mem with unended | ended
        · exact Or.inl ((registered.depends (some d)).mpr
            ⟨mem, fun other same => Option.some.inj same ▸ unended⟩)
        · exact Or.inr (EndedBy.mono ended (le_max_right _ _))
      · dsimp only
        rcases max_choice 0 arriveTime with zero | arrives
        · exact Or.inl zero
        · rw [arrives]
          exact Or.inr registered.latest
    · have old := (Function.update_of_ne same _ _).symm.trans known
      exact (keeps_issue unrecorded).awaits (timed.pending old)
  · intro e action' time' mem
    cases mem

end Issue

/-- The dependencies of a pending event are amended, but none of its own is dropped. -/
theorem amend {e : EventId} {p : Pending} {dependencies : Finset (Option EventId)}
    {rev : EventId → List EventId} (timed : Exact [] queue) (known : queue.pending e = some p)
    (more : ∀ d, some d ∈ p.dependencies → some d ∈ dependencies)
    (releases : ∀ task ∈ agenda', ∃ other, task = .release other) :
    Exact agenda' { queue with
      revDependencies := rev
      pending := Function.update queue.pending e
        (some { p with dependencies := dependencies }) } := by
  refine timed.keep (.of_eq rfl rfl) ?_ ?_ rfl rfl rfl ?_ rfl
  · intro other p' known'
    by_cases same : other = e
    · subst other
      have equal := Option.some.inj ((Function.update_self _ _ queue.pending).symm.trans known')
      subst p'
      rcases timed.pending known with ⟨dependsOn, time, record, le, ended, reaches⟩
      exact ⟨dependsOn, time, record, le, fun d mem => (ended d mem).imp_left (more d), reaches⟩
    · exact timed.pending ((Function.update_of_ne same _ _).symm.trans known')
  · intro other action time mem
    rcases releases _ mem with ⟨_, same⟩
    cases same
  · intro other startTime endTime mem
    rcases releases _ mem with ⟨_, same⟩
    cases same

end Exact

theorem recordOf_note {entries : List LogEntry} {counter : ℕ}
    (notAdded : entries.filterMap LogEntry.created? = []) :
    ({ queue with log := entries ++ queue.log, queueCounter := counter } : EventQueue).recordOf =
      queue.recordOf := by
  funext e
  simp only [recordOf, created, List.filterMap_append, notAdded, List.nil_append]

theorem Unrecorded.issue (unrecorded : Unrecorded queue) {dependsOn : List (Option EventId)}
    {action : Option Action} {time : ℤ} : Unrecorded (queue.issue dependsOn action time) := by
  intro e le
  have counter : (queue.issue dependsOn action time).eventCounter = queue.eventCounter + 1 := rfl
  have differs : e ≠ queue.eventCounter := by omega
  rw [recordOf_issue, if_neg differs]
  apply unrecorded
  omega

theorem unrecorded_small (unrecorded : Unrecorded queue)
    (small : Small platform (agenda, queue) (agenda', queue')) : Unrecorded queue' := by
  cases small with
  | note entries counter notAdded =>
      intro e le
      rw [recordOf_note notAdded]
      exact unrecorded e le
  | add => exact unrecorded.issue
  | wait => exact unrecorded.issue
  | _ => exact unrecorded

/-- The graph only grows, so it was plain before if it is plain now. -/
theorem Plain.before (plain : Plain queue') (flows : Flows agenda queue)
    (waits : Waits agenda queue)
    (small : Small platform (agenda, queue) (agenda', queue')) : Plain queue := by
  have issued : ∀ (dependsOn : List (Option EventId)) (action : Option Action) (time : ℤ),
      (∀ e, (queue.issue dependsOn action time).eventToFlow e = none) →
      (∀ {d e}, e ∈ queue.revDependencies d → ∃ dependsOn' action' time',
        (queue.issue dependsOn action time).recordOf e = some (dependsOn', action', time') ∧
          some d ∈ dependsOn') → Plain queue := by
    intro dependsOn action time flowless recorded
    refine ⟨?_, ?_⟩
    · intro e
      by_cases same : e = queue.eventCounter
      · exact (flows.issued same.ge).2
      · have now := flowless e
        rw [issue_eventToFlow dependsOn action time (flows.issued le_rfl).2, if_neg same] at now
        exact now
    · intro d e mem
      have differs : e ≠ queue.eventCounter := (waits.revIssued mem).ne
      have now := recorded mem
      rw [recordOf_issue, if_neg differs] at now
      exact now
  cases small with
  | note entries counter notAdded =>
      refine ⟨plain.flowless, ?_⟩
      intro d e mem
      have now := plain.recorded (d := d) (e := e) mem
      rw [recordOf_note notAdded] at now
      exact now
  | add valid registered empty =>
      exact issued _ _ _ plain.flowless fun mem => plain.recorded (registered.rev.mpr (Or.inl mem))
  | wait valid registered nonempty =>
      exact issued _ _ _ plain.flowless fun mem => plain.recorded (registered.rev.mpr (Or.inl mem))
  | register => exact ⟨plain.flowless, fun mem =>
    plain.recorded (mem_addRevDependency.mpr (Or.inl mem))⟩
  | depend => exact ⟨plain.flowless, fun mem =>
    plain.recorded (mem_addRevDependency.mpr (Or.inl mem))⟩
  | _ => exact ⟨plain.flowless, plain.recorded⟩

/-- An event without a flow ends once. -/
theorem Spots.unended {e : EventId} {startTime endTime : ℤ}
    (spots : Spots (.finish e startTime endTime :: agenda) queue)
    (noFlow : queue.eventToFlow e = none) : queue.ended e = none := by
  by_contra ended
  have here : Spotted (.finish e startTime endTime :: agenda) queue e .finishing :=
    ⟨startTime, endTime, List.mem_cons_self⟩
  have there : Spotted (.finish e startTime endTime :: agenda) queue e .ended := ended
  exact absurd (spots.unique noFlow here there) (by simp)

/-- A small step keeps every event at its time. -/
theorem exact_small (flows : Flows agenda queue) (waits : Waits agenda queue)
    (spots : Spots agenda queue) (unrecorded : Unrecorded queue) (plain : Plain queue)
    (timed : Exact agenda queue) (small : Small platform (agenda, queue) (agenda', queue')) :
    Exact agenda' queue' := by
  have uncarried : ∀ ref e, ¬queue.Carries ref e := fun ref e =>
    flows.not_carries (plain.flowless e) ref
  have unlaunched : ∀ {e flow info time},
      Task.launch e (some (.communication flow info)) time ∉ agenda := by
    intro e flow info time mem
    have known := (flows.launch mem).1
    rw [plain.flowless] at known
    exact Option.some_ne_none _ known.symm
  have unboarded : ∀ {e flow info time}, Task.board e flow info time ∉ agenda := by
    intro e flow info time mem
    rcases flows.board mem with ⟨ref, carries, _⟩
    exact uncarried ref e carries
  have incomplete : ∀ {r appEventTs}, Task.complete r appEventTs ∉ agenda := by
    intro r appEventTs mem
    rcases flows.complete mem with ⟨ref, e, carries, _⟩
    exact uncarried ref e carries
  cases small with
  | note entries counter notAdded =>
      have keeps : Keeps queue { queue with
          log := entries ++ queue.log, queueCounter := counter } :=
        .of_eq (recordOf_note notAdded) rfl
      exact timed.keep keeps (fun known => keeps.awaits (timed.pending known))
        (fun mem => keeps.starts (timed.launch mem)) rfl rfl rfl (fun mem => mem) rfl
  | release known =>
      exact timed.release known ((waits.idle known).mpr (by simp [Agenda.releases, Task.released?]))
  | point counter => exact timed.point counter
  | compute counter =>
      exact (timed.compute counter).keep (.of_eq rfl rfl) (timed.compute counter).pending
        (timed.compute counter).launch rfl rfl rfl (fun mem => mem) rfl
  | arrive => exact absurd List.mem_cons_self unlaunched
  | board => exact absurd List.mem_cons_self unboarded
  | landed => exact absurd List.mem_cons_self unboarded
  | move waiting stepped =>
      refine timed.keep (.of_eq rfl rfl) timed.pending ?_ rfl rfl rfl ?_ rfl
      · intro e action time mem
        rcases List.mem_append.mp mem with mem | mem
        · simp at mem
        · exact timed.launch mem
      · intro e startTime endTime mem
        rcases List.mem_append.mp mem with mem | mem
        · simp at mem
        · exact mem
  | complete => exact absurd List.mem_cons_self incomplete
  | arrived => exact absurd List.mem_cons_self incomplete
  | reach queued => exact timed.reach queued
  | stop queued known => exact timed.stop queued known
  | startComputation counter queued known => exact timed.startComputation counter queued known
  | startFlow queued known => exact absurd (plain.flowless _) (flows.starting known)
  | finish noted =>
      exact timed.record_end waits plain (spots.unended (plain.flowless _)) noted
  | add valid registered empty => exact timed.add unrecorded registered empty
  | wait valid registered nonempty => exact timed.wait unrecorded registered
  | register =>
      exact timed.keep (.of_eq rfl rfl) timed.pending timed.launch rfl rfl rfl (fun mem => mem) rfl
  | depend valid unended known =>
      exact timed.amend known (fun _ mem => Finset.mem_insert_of_mem mem)
        (fun _ mem => by cases mem)
  | block known =>
      exact timed.amend known (fun _ mem => Finset.mem_insert_of_mem mem)
        (fun _ mem => by cases mem)
  | unblock known =>
      refine timed.amend known (fun _ mem => Finset.mem_erase.mpr ⟨by simp, mem⟩) ?_
      intro task mem
      split at mem
      · exact ⟨_, List.mem_singleton.mp mem⟩
      · cases mem

/-- What holds of times between calls. -/
structure OnTime (queue : EventQueue) : Prop where
  tracked : Tracked queue
  unrecorded : Unrecorded queue
  timed : Plain queue → Exact [] queue

theorem Step.onTime {call : Call} (step : Step platform queue call queue')
    (valid : call.Valid queue) (onTime : OnTime queue) : OnTime queue' := by
  have all := (step.works valid).invariant
    (fun config => Flows config.1 config.2 ∧ Waits config.1 config.2 ∧ Spots config.1 config.2 ∧
      Unrecorded config.2 ∧ (Plain config.2 → Exact config.1 config.2))
    (fun {first second} => ?_)
    ⟨onTime.tracked.flows, onTime.tracked.waits, onTime.tracked.spots, onTime.unrecorded,
      onTime.timed⟩
  · rcases all with ⟨flows, waits, spots, unrecorded, timed⟩
    exact ⟨⟨flows, waits, spots⟩, unrecorded, timed⟩
  · rintro ⟨flows, waits, spots, unrecorded, timed⟩ small
    refine ⟨flows_small flows spots.deferred small, waits_small flows waits small,
      spots_small flows spots small, unrecorded_small unrecorded small, ?_⟩
    intro plain
    have before := plain.before flows waits small
    exact exact_small flows waits spots unrecorded before (timed before) small

/-- What a call adds: dependencies, an action and a time. -/
def Call.addition? : Call → Option (List (Option EventId) × Option Action × ℤ)
  | .addActionOrPoint dependsOn action currentTime => some (dependsOn, action, currentTime)
  | _ => none

/-- What the calls of a run add; the position is the identifier of the event. -/
def additions (calls : List Call) : List (List (Option EventId) × Option Action × ℤ) :=
  calls.filterMap Call.addition?

/-- The call brings no flow, and all dependencies of an event are given when it is added. -/
def Call.Local : Call → Prop
  | .addActionOrPoint _ action _ => (flowOf action).isNone
  | .addDependency _ _ => False
  | _ => True

instance (call : Call) : Decidable call.Local :=
  match call with
  | .addActionOrPoint _ action _ => inferInstanceAs (Decidable ((flowOf action).isNone = true))
  | .addDependency _ _ => inferInstanceAs (Decidable False)
  | .removeNoneDependency _ | .peekNextTime | .execute => inferInstanceAs (Decidable True)

/-- The tasks of a run without flows. -/
def plan (added : List (List (Option EventId) × Option Action × ℤ)) :
    LongestPath.Tasks EventId ℤ where
  follows e d := ∃ dependsOn action time,
    added[e]? = some (dependsOn, action, time) ∧ some d ∈ dependsOn
  release e := (added[e]?).elim 0 fun addition => addition.2.2
  duration e := (added[e]?).elim 0 fun addition => durationOf addition.2.1

/-- The time an event was added with and the ends of its dependencies. -/
def waitsUntil (queue : EventQueue) (dependsOn : List (Option EventId)) (time : ℤ) : Set ℤ :=
  {other | other = time ∨
    ∃ d startTime, some d ∈ dependsOn ∧ queue.ended d = some (startTime, other)}

/-- What the log says of the calls made so far. -/
structure Listed (calls : List Call) (queue : EventQueue) : Prop where
  counter : queue.eventCounter = (additions calls).length
  recordOf : ∀ e, queue.recordOf e = (additions calls)[e]?
  earlier : ∀ {e d}, (plan (additions calls)).follows e d → d < e

theorem Listed.skip {calls : List Call} {call : Call} (listed : Listed calls queue)
    (nothing : call.addition? = none) (counter : queue'.eventCounter = queue.eventCounter)
    (created : queue'.created = queue.created) : Listed (calls ++ [call]) queue' := by
  have same : additions (calls ++ [call]) = additions calls := by
    simp [additions, List.filterMap_append, nothing]
  refine ⟨?_, ?_, ?_⟩
  · rw [same, counter]
    exact listed.counter
  · intro e
    rw [same, ← listed.recordOf, EventQueue.recordOf, EventQueue.recordOf, created]
  · rw [same]
    exact listed.earlier

theorem Listed.add {calls : List Call} {dependsOn : List (Option EventId)}
    {action : Option Action} {time : ℤ} (listed : Listed calls queue)
    (issued : Call.NamesIssued queue (.addActionOrPoint dependsOn action time))
    (counter : queue'.eventCounter = queue.eventCounter + 1)
    (created : queue'.created = (queue.eventCounter, dependsOn, action, time) :: queue.created) :
    Listed (calls ++ [.addActionOrPoint dependsOn action time]) queue' := by
  have more : additions (calls ++ [.addActionOrPoint dependsOn action time]) =
      additions calls ++ [(dependsOn, action, time)] := by
    simp [additions, List.filterMap_append, Call.addition?]
  refine ⟨?_, ?_, ?_⟩
  · rw [more, counter, listed.counter]
    simp
  · intro e
    have record : queue'.recordOf e = (queue.issue dependsOn action time).recordOf e := by
      rw [EventQueue.recordOf, EventQueue.recordOf, created]
      rfl
    rw [record, recordOf_issue, more]
    by_cases same : e = queue.eventCounter
    · rw [if_pos same, same, listed.counter]
      simp
    · rw [if_neg same, listed.recordOf]
      by_cases old : e < queue.eventCounter
      · rw [List.getElem?_append_left (listed.counter ▸ old)]
      · have beyond : (additions calls).length < e := by
          rw [← listed.counter]
          exact lt_of_le_of_ne (not_lt.mp old) (Ne.symm same)
        rw [List.getElem?_eq_none beyond.le,
          List.getElem?_eq_none (by simpa using Nat.succ_le_of_lt beyond)]
  · rintro e d ⟨dependsOn', action', time', known, mem⟩
    rw [more] at known
    by_cases old : e < (additions calls).length
    · rw [List.getElem?_append_left old] at known
      exact listed.earlier ⟨dependsOn', action', time', known, mem⟩
    · rw [List.getElem?_append_right (not_lt.mp old), List.getElem?_singleton] at known
      split at known
      · simp only [Option.some.injEq, Prod.mk.injEq] at known
        rcases known with ⟨rfl, _⟩
        have lt := issued (some d) mem d rfl
        rw [listed.counter] at lt
        exact lt.trans_le (not_lt.mp old)
      · cases known

theorem IssuedStep.listed {calls : List Call} {call : Call}
    (step : IssuedStep platform queue call queue')
    (listed : Listed calls queue) : Listed (calls ++ [call]) queue' := by
  rcases step with ⟨⟨answer, run⟩, issued⟩
  cases call with
  | addActionOrPoint =>
      simp only [perform, bind_eq_ok, pure_eq_ok, Prod.exists, Prod.mk.injEq] at run
      rcases run with ⟨_, _, added, rfl, _⟩
      rcases addActionOrPoint_graph added with ⟨rfl, counter, created, _⟩
      exact listed.add issued counter created
  | addDependency =>
      simp only [perform, bind_eq_ok, pure_eq_ok, Prod.mk.injEq] at run
      rcases run with ⟨_, added, rfl, _⟩
      rcases addDependency_graph added with ⟨counter, created, _⟩
      exact listed.skip rfl counter created
  | removeNoneDependency =>
      simp only [perform, bind_eq_ok, pure_eq_ok, Prod.mk.injEq] at run
      rcases run with ⟨_, removed, rfl, _⟩
      have grows := removeNoneDependency_grows removed
      exact listed.skip rfl grows.eventCounter grows.created
  | peekNextTime =>
      have stepped : Step platform queue .peekNextTime queue' := ⟨answer, run⟩
      have grows := Step.grows (show Call.Executes .peekNextTime from trivial) stepped
      exact listed.skip rfl grows.eventCounter grows.created
  | execute =>
      have stepped : Step platform queue .execute queue' := ⟨answer, run⟩
      have grows := Step.grows (show Call.Executes .execute from trivial) stepped
      exact listed.skip rfl grows.eventCounter grows.created

theorem Initial.listed (initial : Initial queue) : Listed [] queue := by
  rcases initial with ⟨cluster, setting, hostMapping, rfl⟩
  refine ⟨rfl, fun _ => rfl, ?_⟩
  rintro e d ⟨dependsOn, action, time, known, _⟩
  simp [additions] at known

theorem Listed.unrecorded {calls : List Call} (listed : Listed calls queue) : Unrecorded queue := by
  intro e le
  rw [listed.recordOf]
  rw [listed.counter] at le
  exact List.getElem?_eq_none le

theorem plain_step {call : Call} (isLocal : call.Local) (listed : Listed calls queue)
    (plain : Plain queue) (step : Step platform queue call queue') : Plain queue' := by
  rcases step with ⟨answer, run⟩
  have grown : Grows queue queue' → Plain queue' := by
    intro grows
    refine ⟨grows.eventToFlow ▸ plain.flowless, ?_⟩
    intro d e mem
    rw [grows.revDependencies] at mem
    rw [recordOf, grows.created]
    exact plain.recorded mem
  cases call with
  | addActionOrPoint dependsOn action time =>
      simp only [perform, bind_eq_ok, pure_eq_ok, Prod.exists, Prod.mk.injEq] at run
      rcases run with ⟨final, _, added, rfl, _⟩
      rcases addActionOrPoint_graph added with ⟨rfl, counter, created, flows, edges⟩
      have record : ∀ e, final.recordOf e = (queue.issue dependsOn action time).recordOf e := by
        intro e
        rw [recordOf, recordOf, created]
        rfl
      refine ⟨?_, ?_⟩
      · intro e
        rw [flows, issue_eventToFlow dependsOn action time (plain.flowless _)]
        split
        · exact Option.isNone_iff_eq_none.mp isLocal
        · exact plain.flowless e
      · intro d e mem
        rw [record, recordOf_issue]
        rcases edges.mp mem with old | ⟨rfl, among⟩
        · rcases plain.recorded old with ⟨dependsOn', action', time', known, mem⟩
          have differs : e ≠ queue.eventCounter := by
            rintro rfl
            rw [listed.unrecorded _ le_rfl] at known
            exact Option.some_ne_none _ known.symm
          exact ⟨dependsOn', action', time', (if_neg differs).trans known, mem⟩
        · exact ⟨dependsOn, action, time, if_pos rfl, among⟩
  | addDependency => exact absurd isLocal id
  | removeNoneDependency =>
      simp only [perform, bind_eq_ok, pure_eq_ok, Prod.mk.injEq] at run
      rcases run with ⟨_, removed, rfl, _⟩
      exact grown (removeNoneDependency_grows removed)
  | peekNextTime =>
      have stepped : Step platform queue .peekNextTime queue' := ⟨answer, run⟩
      exact grown (Step.grows (show Call.Executes .peekNextTime from trivial) stepped)
  | execute =>
      have stepped : Step platform queue .execute queue' := ⟨answer, run⟩
      exact grown (Step.grows (show Call.Executes .execute from trivial) stepped)

theorem Initial.plain (initial : Initial queue) : Plain queue := by
  rcases initial with ⟨cluster, setting, hostMapping, rfl⟩
  exact ⟨fun _ => rfl, fun mem => absurd mem List.not_mem_nil⟩

theorem Initial.exact (initial : Initial queue) : Exact [] queue := by
  rcases initial with ⟨cluster, setting, hostMapping, rfl⟩
  refine ⟨?_, ?_, ?_, ?_, ?_, ?_, ?_⟩
  · exact fun known => absurd known.symm (Option.some_ne_none _)
  · exact fun mem => absurd mem List.not_mem_nil
  · exact fun mem => absurd mem (PriorityQueue.not_mem_empty _)
  · exact fun mem => absurd mem (PriorityQueue.not_mem_empty _)
  · exact fun mem => absurd mem (PriorityQueue.not_mem_empty _)
  · exact fun mem => absurd mem List.not_mem_nil
  · exact fun known => absurd known.symm (Option.some_ne_none _)

/-- In a run without flows every event has its time in the schedule. -/
theorem exact_of_reached {calls : List Call}
    (reached : Runs.Reached Initial (IssuedStep platform) calls queue)
    (locals : ∀ call ∈ calls, call.Local) : Exact [] queue ∧ Listed calls queue := by
  have all := reached.invariant (fun calls queue => (∀ call ∈ calls, call.Local) →
    OnTime queue ∧ Listed calls queue ∧ Plain queue) ?_ ?_ locals
  · exact ⟨all.1.timed all.2.2, all.2.1⟩
  · intro queue initial _
    have listed := initial.listed
    exact ⟨⟨initial.tracked, listed.unrecorded, fun _ => initial.exact⟩, listed, initial.plain⟩
  · intro calls queue call queue' before step locals
    rcases before (fun call mem => locals call (List.mem_append_left _ mem)) with
      ⟨onTime, listed, plain⟩
    have isLocal := locals call (List.mem_append_right _ List.mem_cons_self)
    refine ⟨step.1.onTime (step.2.valid ?_) onTime, step.listed listed,
      plain_step isLocal listed plain step.1⟩
    intro e known old
    exact absurd (old.symm.trans (plain.flowless e)) (Option.some_ne_none _)

/-- An ended event started at one of the times it waited for, and at none before another. -/
theorem Starts.isGreatest {e : EventId} {dependsOn : List (Option EventId)}
    {action action' : Option Action} {time start : ℤ} (starts : queue.Starts e action' start)
    (known : queue.recordOf e = some (dependsOn, action, time)) :
    action' = action ∧ (∀ d, some d ∈ dependsOn → queue.ended d ≠ none) ∧
      start ∈ upperBounds (queue.waitsUntil dependsOn time) ∧
      (start ∈ queue.waitsUntil dependsOn time ∨ time < 0 ∧ start = 0) := by
  rcases starts with ⟨dependsOn', time', known', le, ended, reaches⟩
  rw [known, Option.some.injEq, Prod.mk.injEq, Prod.mk.injEq] at known'
  rcases known' with ⟨rfl, rfl, rfl⟩
  refine ⟨rfl, ?_, ?_, ?_⟩
  · intro d mem
    rcases ended d mem with ⟨dStart, dEnd, span, _⟩
    exact Option.ne_none_iff_exists'.mpr ⟨_, span⟩
  · rintro other (rfl | ⟨d, startTime, mem, span⟩)
    · exact le
    · rcases ended d mem with ⟨dStart, dEnd, span', early⟩
      rw [span, Option.some.injEq, Prod.mk.injEq] at span'
      exact span'.2 ▸ early
  · rcases reaches with rfl | last
    · rcases le.lt_or_eq with negative | rfl
      · exact Or.inr ⟨negative, rfl⟩
      · exact Or.inl (Or.inl rfl)
    · exact Or.inl last

/-- When no event is added with a negative time the ended events are scheduled. -/
theorem scheduled_of_reached {calls : List Call}
    (reached : Runs.Reached Initial (IssuedStep platform) calls queue)
    (locals : ∀ call ∈ calls, call.Local)
    (nonneg : ∀ addition ∈ additions calls, 0 ≤ addition.2.2) :
    (plan (additions calls)).Scheduled (fun e => (queue.ended e).elim 0 Prod.fst)
      {e | queue.ended e ≠ none} := by
  rcases exact_of_reached reached locals with ⟨timed, listed⟩
  have duration : ∀ {d startTime endTime}, queue.ended d = some (startTime, endTime) →
      endTime = startTime + (plan (additions calls)).duration d := by
    intro d startTime endTime ended
    rcases timed.ended ended with ⟨action, ⟨dependsOn, time, record, _⟩, last⟩
    rw [listed.recordOf] at record
    simpa [plan, record] using last
  intro e past
  rcases Option.ne_none_iff_exists'.mp past with ⟨⟨startTime, endTime⟩, ended⟩
  rcases timed.ended ended with ⟨action, starts, _⟩
  have starts' := starts
  rcases starts' with ⟨dependsOn, time, record, _⟩
  rcases starts.isGreatest record with ⟨_, others, upper, last⟩
  have added : (additions calls)[e]? = some (dependsOn, action, time) :=
    (listed.recordOf e).symm.trans record
  have follows : ∀ {d}, (plan (additions calls)).follows e d ↔ some d ∈ dependsOn := by
    intro d
    constructor
    · rintro ⟨dependsOn', action', time', added', mem⟩
      rw [added, Option.some.injEq, Prod.mk.injEq] at added'
      exact added'.1 ▸ mem
    · intro mem
      exact ⟨dependsOn, action, time, added, mem⟩
  refine ⟨fun d edge => others d (follows.mp edge), ?_⟩
  have bounds : (plan (additions calls)).bounds (fun e => (queue.ended e).elim 0 Prod.fst) e =
      queue.waitsUntil dependsOn time := by
    ext other
    have release : (plan (additions calls)).release e = time := by simp [plan, added]
    simp only [LongestPath.Tasks.bounds, Set.mem_ofPred_eq, waitsUntil, release, follows]
    refine or_congr_right ?_
    constructor
    · rintro ⟨d, mem, rfl⟩
      rcases Option.ne_none_iff_exists'.mp (others d mem) with ⟨⟨dStart, dEnd⟩, span⟩
      refine ⟨d, dStart, mem, ?_⟩
      simp [span, duration span]
    · rintro ⟨d, dStart, mem, span⟩
      refine ⟨d, mem, ?_⟩
      simp [span, ← duration span]
  have start : (fun e => (queue.ended e).elim 0 Prod.fst) e = startTime := by simp [ended]
  rw [bounds, start]
  refine ⟨last.resolve_right ?_, upper⟩
  rintro ⟨negative, _⟩
  exact absurd (nonneg _ (List.mem_of_getElem? added)) (not_le.mpr negative)

/-- An ended event starts at the time it was added with or at the end of one of its
dependencies, whichever is latest, unless it was added with a negative time; it ends when it has
taken its duration. Without negative times it starts at the length of the longest path to it,
in every run that adds the same events. -/
theorem schedule_exact {calls : List Call}
    (reached : Runs.Reached Initial (IssuedStep platform) calls queue)
    (locals : ∀ call ∈ calls, call.Local) :
    (∀ e startTime endTime, queue.ended e = some (startTime, endTime) →
      ∃ dependsOn action time, (additions calls)[e]? = some (dependsOn, action, time) ∧
        (∀ d, some d ∈ dependsOn → queue.ended d ≠ none) ∧
        startTime ∈ upperBounds (queue.waitsUntil dependsOn time) ∧
        (startTime ∈ queue.waitsUntil dependsOn time ∨ time < 0 ∧ startTime = 0) ∧
        endTime = startTime + durationOf action) ∧
    ((∀ addition ∈ additions calls, 0 ≤ addition.2.2) →
      (∀ e startTime endTime, queue.ended e = some (startTime, endTime) →
        IsGreatest {length | (plan (additions calls)).Path e length} startTime) ∧
      ∀ calls' queue', Runs.Reached Initial (IssuedStep platform) calls' queue' →
        (∀ call ∈ calls', call.Local) → additions calls' = additions calls →
          ∀ e, queue.ended e ≠ none → queue'.ended e ≠ none →
            queue'.ended e = queue.ended e) := by
  have spans : ∀ {calls queue}, Runs.Reached Initial (IssuedStep platform) calls queue →
      (∀ call ∈ calls, call.Local) → ∀ {e startTime endTime},
        queue.ended e = some (startTime, endTime) →
        ∃ dependsOn action time, (additions calls)[e]? = some (dependsOn, action, time) ∧
          (∀ d, some d ∈ dependsOn → queue.ended d ≠ none) ∧
          startTime ∈ upperBounds (queue.waitsUntil dependsOn time) ∧
          (startTime ∈ queue.waitsUntil dependsOn time ∨ time < 0 ∧ startTime = 0) ∧
          endTime = startTime + durationOf action := by
    intro calls queue reached locals e startTime endTime ended
    rcases exact_of_reached reached locals with ⟨timed, listed⟩
    rcases timed.ended ended with ⟨action, starts, last⟩
    rcases starts with ⟨dependsOn, time, record, rest⟩
    rcases Starts.isGreatest ⟨dependsOn, time, record, rest⟩ record with ⟨_, others, upper, first⟩
    exact ⟨dependsOn, action, time, (listed.recordOf e).symm.trans record, others,
      upper, first, last⟩
  have longest : ∀ {calls queue}, Runs.Reached Initial (IssuedStep platform) calls queue →
      (∀ call ∈ calls, call.Local) → (∀ addition ∈ additions calls, 0 ≤ addition.2.2) →
        ∀ {e startTime endTime}, queue.ended e = some (startTime, endTime) →
          IsGreatest {length | (plan (additions calls)).Path e length} startTime := by
    intro calls queue reached locals nonneg e startTime endTime ended
    have founded : WellFounded fun d e => (plan (additions calls)).follows e d :=
      Subrelation.wf (fun edge => (exact_of_reached reached locals).2.earlier edge) wellFounded_lt
    have greatest := (scheduled_of_reached reached locals nonneg).isGreatest_path founded
      (e := e) (Option.ne_none_iff_exists'.mpr ⟨_, ended⟩)
    have start : (queue.ended e).elim 0 Prod.fst = startTime := by simp [ended]
    rw [start] at greatest
    exact greatest
  refine ⟨fun e startTime endTime ended => spans reached locals ended, ?_⟩
  intro nonneg
  refine ⟨fun e startTime endTime ended => longest reached locals nonneg ended, ?_⟩
  intro calls' queue' reached' locals' same e past past'
  rcases Option.ne_none_iff_exists'.mp past with ⟨⟨startTime, endTime⟩, ended⟩
  rcases Option.ne_none_iff_exists'.mp past' with ⟨⟨startTime', endTime'⟩, ended'⟩
  have greatest := longest reached locals nonneg ended
  have greatest' := longest reached' locals' (same ▸ nonneg) ended'
  rw [same] at greatest'
  have starts : startTime' = startTime := greatest'.unique greatest
  rcases spans reached locals ended with ⟨_, action, _, added, _, _, _, last⟩
  rcases spans reached' locals' ended' with ⟨_, action', _, added', _, _, _, last'⟩
  rw [same, added, Option.some.injEq, Prod.mk.injEq, Prod.mk.injEq] at added'
  rw [ended, ended', starts, last, last', starts, added'.2.1]

/-- A computation on some host. -/
def computation (duration : ℤ) : Action :=
  .computation ⟨"left", 0⟩ duration (.cuda .ncclGetUniqueId)

/-- Two computations and a point that waits for both and for a barrier. -/
def joined : List Call :=
  [.addActionOrPoint [] (some (computation 3)) 1, .execute,
    .addActionOrPoint [some 0] (some (computation 5)) 2,
    .addActionOrPoint [some 0, some 1, none] none 4, .execute, .execute, .execute,
    .removeNoneDependency 2, .execute]

theorem schedule_exact_joined :
    ∃ queue, Runs.Reached Initial (IssuedStep (.inOrder 20)) joined queue ∧
      queue.ended 2 = some (9, 9) ∧
      IsGreatest {length | (plan (additions joined)).Path 2 length} 9 := by
  have read : (joined.foldlM (performIssued (.inOrder 20)) pairQueue).toOption.map
      (fun queue => queue.ended 2) = some (some (9, 9)) := by decide +kernel
  rcases exists_ok_of_reading read with ⟨queue, run, ended⟩
  have reached : Runs.Reached Initial (IssuedStep (.inOrder 20)) joined queue :=
    Runs.reached_of_foldlM issuedStep_of_performIssued initial_pairQueue run
  exact ⟨queue, reached, ended, ((schedule_exact reached (by decide)).2 (by decide)).1 2 9 9 ended⟩

/-- A point added with a negative time that waits for a barrier. -/
def earlyPoint : List Call :=
  [.addActionOrPoint [none] none (-5), .removeNoneDependency 0, .execute]

/-- A point with a negative time that had to wait is reached at the time 0. -/
theorem not_isGreatest_of_earlyPoint :
    ∃ queue, Runs.Reached Initial (IssuedStep (.inOrder 20)) earlyPoint queue ∧
      (∀ call ∈ earlyPoint, call.Local) ∧ additions earlyPoint = [([none], none, -5)] ∧
      queue.ended 0 = some (0, 0) ∧ ¬IsGreatest (queue.waitsUntil [none] (-5)) 0 := by
  have read : (earlyPoint.foldlM (performIssued (.inOrder 20)) pairQueue).toOption.map
      (fun queue => queue.ended 0) = some (some (0, 0)) := by decide +kernel
  rcases exists_ok_of_reading read with ⟨queue, run, ended⟩
  have reached : Runs.Reached Initial (IssuedStep (.inOrder 20)) earlyPoint queue :=
    Runs.reached_of_foldlM issuedStep_of_performIssued initial_pairQueue run
  refine ⟨queue, reached, by decide, rfl, ended, ?_⟩
  rintro ⟨waits | ⟨d, startTime, mem, _⟩, _⟩
  · exact absurd waits (by decide)
  · simp at mem

end EventQueue

end Phantora
