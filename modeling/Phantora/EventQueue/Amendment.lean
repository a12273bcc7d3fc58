import Mathlib.Order.Filter.AtTopBot.Basic
import Mathlib.Order.Filter.Finite
import Phantora.EventQueue.Wakeups
import Phantora.Lib.Delays

/-!
# Amending recorded times

A new end of an event moves what depends on it. In whatever order the dependents
are visited, an event is left with the greatest of the starts that are demanded
of it, unless a flow is reached that is no longer buffered.
-/

namespace Phantora

open Outcome Delays

/-- An event that waits, with its time raised to a floor. -/
def Pending.delayed (p : Pending) (floor : WithBot ℤ) : Pending :=
  { p with depEndTime := lift floor p.depEndTime }

namespace EventQueue

variable {platform : Platform} {queue middle queue' : EventQueue} {e : EventId} {time : ℤ}
  {floors : EventId → WithBot ℤ} {images : EventId → WithBot ℕ}

/-- The record by which an event is amended: the first of those that the code looks for. -/
inductive Stage where
  | pending (p : Pending)
  | queued
  | started (startTime : ℤ)
  | ended (startTime endTime : ℤ)
  | unrecorded

/-- The event has an entry for its start, a point its only entry. -/
def StartQueued (queue : EventQueue) (e : EventId) : Prop :=
  queue.Queued (.startOf e) ∨ queue.Queued (.pointOf e)

theorem contains_iff_queued {event : QueueEvent} :
    queue.eventQueue.contains event = true ↔ queue.Queued event := by
  simp only [PriorityQueue.contains, decide_eq_true_eq, List.mem_map, Prod.exists]
  constructor
  · rintro ⟨_, priority, mem, rfl⟩
    exact ⟨priority, mem⟩
  · rintro ⟨priority, mem⟩
    exact ⟨event, priority, mem, rfl⟩

instance (queue : EventQueue) (event : QueueEvent) : Decidable (queue.Queued event) :=
  decidable_of_iff _ contains_iff_queued

instance (queue : EventQueue) (e : EventId) : Decidable (queue.StartQueued e) :=
  inferInstanceAs (Decidable (_ ∨ _))

def stage (queue : EventQueue) (e : EventId) : Stage :=
  match queue.pending e with
  | some p => .pending p
  | none =>
      if queue.StartQueued e then .queued
      else
        match queue.started e with
        | some startTime => .started startTime
        | none =>
            match queue.ended e with
            | some (startTime, endTime) => .ended startTime endTime
            | none => .unrecorded

theorem stage_cases (queue : EventQueue) (e : EventId) :
    (∃ p, queue.pending e = some p ∧ queue.stage e = .pending p) ∨
      queue.pending e = none ∧ (queue.StartQueued e ∧ queue.stage e = .queued ∨
        ¬queue.StartQueued e ∧
          ((∃ startTime, queue.started e = some startTime ∧ queue.stage e = .started startTime) ∨
            queue.started e = none ∧
              ((∃ startTime endTime, queue.ended e = some (startTime, endTime) ∧
                  queue.stage e = .ended startTime endTime) ∨
                queue.ended e = none ∧ queue.stage e = .unrecorded))) := by
  unfold stage
  cases queue.pending e with
  | some other => simp
  | none =>
      by_cases entry : queue.StartQueued e
      · simp [entry]
      · rcases queue.started e with _ | startTime
        · rcases queue.ended e with _ | ⟨first, last⟩ <;> simp [entry]
        · simp [entry]

theorem stage_eq_pending {p : Pending} :
    queue.stage e = .pending p ↔ queue.pending e = some p := by
  rcases queue.stage_cases e with ⟨_, known, stage⟩ | ⟨known, ⟨_, stage⟩ | ⟨_, ⟨_, _, stage⟩ |
    ⟨_, ⟨_, _, _, stage⟩ | ⟨_, stage⟩⟩⟩⟩ <;> simp [known, stage]

theorem stage_eq_queued :
    queue.stage e = .queued ↔ queue.pending e = none ∧ queue.StartQueued e := by
  rcases queue.stage_cases e with ⟨_, known, stage⟩ | ⟨known, ⟨entry, stage⟩ |
    ⟨entry, ⟨_, _, stage⟩ | ⟨_, ⟨_, _, _, stage⟩ | ⟨_, stage⟩⟩⟩⟩
  · simp [known, stage]
  all_goals simp [known, stage, entry]

theorem stage_eq_started {startTime : ℤ} : queue.stage e = .started startTime ↔
    queue.pending e = none ∧ ¬queue.StartQueued e ∧ queue.started e = some startTime := by
  rcases queue.stage_cases e with ⟨_, known, stage⟩ | ⟨known, ⟨entry, stage⟩ |
    ⟨entry, ⟨_, start, stage⟩ | ⟨start, ⟨_, _, _, stage⟩ | ⟨_, stage⟩⟩⟩⟩
  · simp [known, stage]
  · simp [known, stage, entry]
  all_goals simp [known, stage, entry, start]

theorem stage_eq_ended {startTime endTime : ℤ} : queue.stage e = .ended startTime endTime ↔
    queue.pending e = none ∧ ¬queue.StartQueued e ∧ queue.started e = none ∧
      queue.ended e = some (startTime, endTime) := by
  rcases queue.stage_cases e with ⟨_, known, stage⟩ | ⟨known, ⟨entry, stage⟩ |
    ⟨entry, ⟨_, start, stage⟩ | ⟨start, ⟨_, _, ended, stage⟩ | ⟨ended, stage⟩⟩⟩⟩
  · simp [known, stage]
  · simp [known, stage, entry]
  · simp [known, stage, entry, start]
  all_goals simp [known, stage, entry, start, ended]

/-- The flow of the event is buffered in the network under the reference. -/
def Buffers (queue : EventQueue) (e : EventId) (ref : Netsim.FlowRef) : Prop :=
  ∃ flow, queue.eventToFlow e = some flow ∧ (flow.id, ref) ∈ queue.netsim.state.flowBufs

/-- The events with what depends on them and the spans of those that are moved as a whole. -/
def tasks (queue : EventQueue) : Tasks EventId ℤ where
  followers := queue.revDependencies
  span e :=
    match queue.stage e with
    | .ended startTime endTime => some (startTime, endTime)
    | _ => none

theorem tasks_span {startTime endTime : ℤ} :
    queue.tasks.span e = some (startTime, endTime) ↔
      queue.stage e = .ended startTime endTime := by
  simp only [tasks]
  cases queue.stage e <;> simp

/-- The start of an event that has started, raised to the floor. -/
def delayedStarted (queue : EventQueue) (records : EventId → WithBot ℤ) (e : EventId) :
    Option ℤ :=
  match queue.stage e with
  | .started startTime => some (lift (records e) startTime)
  | _ => queue.started e

/-- The span of an event that has ended, moved to the floor. -/
def delayedEnded (queue : EventQueue) (records : EventId → WithBot ℤ) (e : EventId) :
    Option (ℤ × ℤ) :=
  match queue.stage e with
  | .ended startTime endTime =>
      let delayed := lift (records e) startTime
      some (delayed, endTime + (delayed - startTime))
  | _ => queue.ended e

/-- The time of an entry: a start is raised to the floor, an end moves with the start. -/
def delayedEntry (queue : EventQueue) (starts records : EventId → WithBot ℤ) :
    QueueEvent → ℤ → ℤ
  | .startOf e, time => if queue.pending e = none then lift (starts e) time else time
  | .pointOf e, time => if queue.pending e = none then lift (starts e) time else time
  | .endOf e, time =>
      match queue.stage e with
      | .started startTime => time + (lift (records e) startTime - startTime)
      | _ => time

/-- The event can be made to start no earlier than the time: its flow, if it has one, is still
buffered, and its end is queued if it has started too early. -/
def Fits (queue : EventQueue) (e : EventId) (time : ℤ) : Prop :=
  queue.pending e = none →
    (∀ flow, queue.eventToFlow e = some flow → ∃ ref, queue.Buffers e ref) ∧
      ∀ startTime, queue.stage e = .started startTime → startTime < time → queue.Queued (.endOf e)

/-- The queue with the recorded times raised to floors: the starts of flows in the network, the
starts in the queue, and the other records. -/
structure Delayed (queue : EventQueue) (flows : EventId → WithBot ℕ)
    (starts records : EventId → WithBot ℤ) (queue' : EventQueue) : Prop where
  revDependencies : queue'.revDependencies = queue.revDependencies
  eventToFlow : queue'.eventToFlow = queue.eventToFlow
  inQueueNotStarted : queue'.inQueueNotStarted = queue.inQueueNotStarted
  flowBufs : queue'.netsim.state.flowBufs = queue.netsim.state.flowBufs
  pending : ∀ e, queue'.pending e = (queue.pending e).map (Pending.delayed · (records e))
  started : ∀ e, queue'.started e = queue.delayedStarted records e
  ended : ∀ e, queue'.ended e = queue.delayedEnded records e
  entries : ∀ event time counter, (event, toLex (time, counter)) ∈ queue'.eventQueue ↔
    ∃ before, (event, toLex (before, counter)) ∈ queue.eventQueue ∧
      time = queue.delayedEntry starts records event before
  buffered : ∀ e ref, queue.pending e = none → queue.Buffers e ref →
    (queue'.netsim.state.arena ref).ts = lift (flows e) (queue.netsim.state.arena ref).ts
  fits : ∀ e time, records e = (time : ℤ) → queue.Fits e time

namespace Delayed

variable {flows : EventId → WithBot ℕ} {starts records : EventId → WithBot ℤ}

theorem refl (queue : EventQueue) : Delayed queue (fun _ => ⊥) (fun _ => ⊥) (fun _ => ⊥) queue where
  revDependencies := rfl
  eventToFlow := rfl
  inQueueNotStarted := rfl
  flowBufs := rfl
  pending e := by
    cases queue.pending e <;> simp [Pending.delayed]
  started e := by
    unfold delayedStarted
    split
    · rename_i startTime stage
      simp [(stage_eq_started.mp stage).2.2]
    · rfl
  ended e := by
    unfold delayedEnded
    split
    · rename_i startTime endTime stage
      simp [(stage_eq_ended.mp stage).2.2.2]
    · rfl
  entries event time counter := by
    have same : ∀ before, queue.delayedEntry (fun _ => ⊥) (fun _ => ⊥) event before = before := by
      intro before
      cases event with
      | endOf e =>
          simp only [delayedEntry]
          split <;> simp
      | _ => simp [delayedEntry]
    simp [same]
  buffered e ref _ _ := by simp
  fits e time known := absurd known.symm WithBot.coe_ne_bot

theorem queued (delayed : Delayed queue flows starts records queue') (event : QueueEvent) :
    queue'.Queued event ↔ queue.Queued event := by
  constructor
  · rintro ⟨priority, mem⟩
    rcases (delayed.entries event (ofLex priority).1 (ofLex priority).2).mp mem with
      ⟨before, mem, _⟩
    exact ⟨_, mem⟩
  · rintro ⟨priority, mem⟩
    exact ⟨_, (delayed.entries event _ (ofLex priority).2).mpr ⟨_, mem, rfl⟩⟩

theorem startQueued (delayed : Delayed queue flows starts records queue') (e : EventId) :
    queue'.StartQueued e ↔ queue.StartQueued e :=
  or_congr (delayed.queued _) (delayed.queued _)

theorem pending_eq_none (delayed : Delayed queue flows starts records queue') {e : EventId} :
    queue'.pending e = none ↔ queue.pending e = none := by
  rw [delayed.pending, Option.map_eq_none_iff]

theorem buffers (delayed : Delayed queue flows starts records queue') {e : EventId}
    {ref : Netsim.FlowRef} : queue'.Buffers e ref ↔ queue.Buffers e ref := by
  unfold Buffers
  rw [delayed.eventToFlow, delayed.flowBufs]

/-- The record by which an event is amended stays the same, with its times raised. -/
theorem stage (delayed : Delayed queue flows starts records queue') (e : EventId) :
    queue'.stage e =
      match queue.stage e with
      | .pending p => .pending (p.delayed (records e))
      | .queued => .queued
      | .started startTime => .started (lift (records e) startTime)
      | .ended startTime endTime =>
          .ended (lift (records e) startTime)
            (endTime + (lift (records e) startTime - startTime))
      | .unrecorded => .unrecorded := by
  rcases queue.stage_cases e with ⟨p, known, stage⟩ | ⟨known, ⟨entry, stage⟩ |
    ⟨entry, ⟨startTime, start, stage⟩ | ⟨start, ⟨startTime, endTime, ended, stage⟩ |
      ⟨ended, stage⟩⟩⟩⟩
  · rw [stage]
    refine stage_eq_pending.mpr ?_
    rw [delayed.pending, known]
    rfl
  · rw [stage]
    exact stage_eq_queued.mpr ⟨delayed.pending_eq_none.mpr known, (delayed.startQueued e).mpr entry⟩
  · rw [stage]
    refine stage_eq_started.mpr ⟨delayed.pending_eq_none.mpr known,
      fun entry' => entry ((delayed.startQueued e).mp entry'), ?_⟩
    rw [delayed.started, delayedStarted, stage]
  · rw [stage]
    refine stage_eq_ended.mpr ⟨delayed.pending_eq_none.mpr known,
      fun entry' => entry ((delayed.startQueued e).mp entry'), ?_, ?_⟩
    · rw [delayed.started, delayedStarted, stage]
      exact start
    · rw [delayed.ended, delayedEnded, stage]
  · have start' : queue'.started e = none := by
      rw [delayed.started, delayedStarted, stage]
      exact start
    have ended' : queue'.ended e = none := by
      rw [delayed.ended, delayedEnded, stage]
      exact ended
    have entry' : ¬queue'.StartQueued e := fun entry' => entry ((delayed.startQueued e).mp entry')
    rw [stage]
    simp [EventQueue.stage, delayed.pending_eq_none.mpr known, entry', start', ended']

end Delayed

/-- The buffered flow of the event, if it has one, starts no earlier than the time. -/
structure FlowDelayed (queue : EventQueue) (e : EventId) (time : ℤ) (queue' : EventQueue) :
    Prop where
  rest : queue' = { queue with netsim := queue'.netsim }
  flowBufs : queue'.netsim.state.flowBufs = queue.netsim.state.flowBufs
  raised : ∀ ref, queue.Buffers e ref → (queue'.netsim.state.arena ref).ts =
    max (queue.netsim.state.arena ref).ts (asNanos time)
  kept : ∀ ref, ¬queue.Buffers e ref →
    queue'.netsim.state.arena ref = queue.netsim.state.arena ref

theorem updateFlowStart_eq_ok (run : queue.updateFlowStart e time = .ok queue') :
    (∀ flow, queue.eventToFlow e = some flow → ∃ ref, queue.Buffers e ref) ∧
      FlowDelayed queue e time queue' := by
  unfold updateFlowStart at run
  split at run
  · rename_i flow isFlow
    simp only [Netsim.Simulator.updateFlowStartTs, Netsim.NetState.updateFlowStartTs, bind_eq_ok,
      pure_eq_ok, unwrap_eq_ok, Prod.exists] at run
    rcases run with ⟨_, ⟨_, ⟨id, found, isFound, rfl⟩, rfl⟩, rfl⟩
    have mem : (id, found) ∈ queue.netsim.state.flowBufs := List.mem_of_find?_eq_some isFound
    have same : id = flow.id := by simpa using List.find?_some isFound
    subst same
    have buffers : queue.Buffers e found := ⟨flow, isFlow, mem⟩
    refine ⟨fun _ _ => ⟨found, buffers⟩, rfl, rfl, ?_, ?_⟩
    · rintro ref ⟨other, isOther, otherMem⟩
      cases isFlow.symm.trans isOther
      have same : ref = found := PriorityQueue.eq_of_mem otherMem mem
      subst same
      simp [Netsim.Arena.modify]
    · intro ref notBuffers
      have differs : ref ≠ found := by
        rintro rfl
        exact notBuffers buffers
      simp [Netsim.Arena.modify, differs]
  · rename_i noFlow
    simp only [Except.ok.injEq] at run
    subst run
    refine ⟨fun flow isFlow => absurd (isFlow.symm.trans noFlow) (by simp), rfl, rfl, ?_,
      fun _ _ => rfl⟩
    rintro ref ⟨flow, isFlow, _⟩
    exact absurd (isFlow.symm.trans noFlow) (by simp)

theorem exists_updateFlowStart (time : ℤ)
    (buffered : ∀ flow, queue.eventToFlow e = some flow → ∃ ref, queue.Buffers e ref) :
    ∃ queue', queue.updateFlowStart e time = .ok queue' := by
  unfold updateFlowStart
  cases isFlow : queue.eventToFlow e with
  | none => exact ⟨queue, rfl⟩
  | some flow =>
      rcases buffered flow isFlow with ⟨ref, other, isOther, mem⟩
      cases isFlow.symm.trans isOther
      have found : (queue.netsim.state.flowBufs.entries.find?
          fun entry => entry.1 = flow.id).isSome = true :=
        List.find?_isSome.mpr ⟨_, mem, by simp⟩
      rcases Option.isSome_iff_exists.mp found with ⟨entry, isFound⟩
      simp [Netsim.Simulator.updateFlowStartTs, Netsim.NetState.updateFlowStartTs, isFound,
        unwrap, bind, Except.bind, pure, Except.pure]

theorem mem_changeTime {event item : QueueEvent} {f : ℤ → ℤ} {counter : ℕ} :
    (event, toLex (time, counter)) ∈ (queue.changeTime item f).2.eventQueue ↔
      ∃ before, (event, toLex (before, counter)) ∈ queue.eventQueue ∧
        time = if event = item then f before else before := by
  simp only [changeTime, PriorityQueue.changePriorityBy, PriorityQueue.mem_modify]
  constructor
  · rintro (⟨differs, mem⟩ | ⟨rfl, old, mem, same⟩)
    · exact ⟨time, mem, by simp [differs]⟩
    · have same := congrArg ofLex same
      simp only [ofLex_toLex, Prod.mk.injEq] at same
      rcases same with ⟨rfl, rfl⟩
      exact ⟨(ofLex old).1, mem, by simp⟩
  · rintro ⟨before, mem, rfl⟩
    by_cases same : event = item
    · subst same
      exact .inr ⟨rfl, _, mem, by simp⟩
    · rw [if_neg same]
      exact .inl ⟨same, mem⟩

/-- The start entry of the event, or the entry of a point, is no earlier than the time. -/
def delayEntries (queue : EventQueue) (e : EventId) (time : ℤ) : EventQueue :=
  ((queue.changeTime (.startOf e) (max · time)).2.changeTime (.pointOf e) (max · time)).2

theorem mem_delayEntries {event : QueueEvent} {now : ℤ} {counter : ℕ} :
    (event, toLex (now, counter)) ∈ (queue.delayEntries e time).eventQueue ↔
      ∃ before, (event, toLex (before, counter)) ∈ queue.eventQueue ∧
        now = if event = .startOf e ∨ event = .pointOf e then max before time else before := by
  simp only [delayEntries, mem_changeTime]
  constructor
  · rintro ⟨middle, ⟨before, mem, known⟩, now⟩
    refine ⟨before, mem, ?_⟩
    rw [now, known]
    by_cases start : event = .startOf e
    · simp [start]
    · simp [start]
  · rintro ⟨before, mem, now⟩
    refine ⟨_, ⟨before, mem, rfl⟩, ?_⟩
    rw [now]
    by_cases start : event = .startOf e
    · simp [start]
    · simp [start]

namespace Delayed

variable {flows : EventId → WithBot ℕ} {starts records : EventId → WithBot ℤ}

theorem delayFlow (delayed : Delayed queue flows starts records middle)
    (distinct : ∀ {e e' ref}, queue.Buffers e ref → queue.Buffers e' ref → e = e')
    (moved : FlowDelayed middle e time queue') :
    Delayed queue (raise flows e (asNanos time)) starts records queue' := by
  rcases moved with ⟨rest, flowBufs, raised, kept⟩
  rw [rest]
  exact { delayed with
    flowBufs := flowBufs.trans delayed.flowBufs
    buffered := fun other ref unpending buffers => by
      have before := delayed.buffered other ref unpending buffers
      show (queue'.netsim.state.arena ref).ts = _
      by_cases same : other = e
      · subst same
        rw [raised ref (delayed.buffers.mpr buffers), before, raise_self, lift_max]
      · have notBuffers : ¬middle.Buffers e ref :=
          fun here => same (distinct buffers (delayed.buffers.mp here))
        rw [kept ref notBuffers, before, raise_of_ne same] }

theorem delayEntries (delayed : Delayed queue flows starts records middle)
    (unpending : queue.pending e = none) :
    Delayed queue flows (raise starts e time) records (middle.delayEntries e time) := by
  have raised : ∀ event before, queue.delayedEntry (raise starts e time) records event before =
      if event = .startOf e ∨ event = .pointOf e then
        max (queue.delayedEntry starts records event before) time
      else queue.delayedEntry starts records event before := by
    intro event before
    cases event with
    | endOf other => simp [delayedEntry]
    | _ other =>
        by_cases same : other = e
        · subst same
          simp [delayedEntry, unpending, lift_max]
        · simp [delayedEntry, same, raise_of_ne same]
  exact { delayed with
    entries := fun event now counter => by
      rw [mem_delayEntries]
      constructor
      · rintro ⟨middleTime, mem, now⟩
        rcases (delayed.entries _ _ _).mp mem with ⟨before, beforeMem, known⟩
        exact ⟨before, beforeMem, by rw [now, known, raised]⟩
      · rintro ⟨before, mem, rfl⟩
        exact ⟨_, (delayed.entries _ _ _).mpr ⟨before, mem, rfl⟩, raised event before⟩ }

end Delayed

/-- The first record found of the event is no earlier than the time; a span moves as a whole. -/
def amendRecord (queue : EventQueue) (e : EventId) (time : ℤ) : EventQueue :=
  match queue.stage e with
  | .pending p =>
      { queue with
        pending := Function.update queue.pending e
          (some { p with depEndTime := max p.depEndTime time }) }
  | .started startTime =>
      if startTime < time then
        ({ queue with started := Function.update queue.started e (some time) }.changeTime
          (.endOf e) (· + (time - startTime))).2
      else queue
  | .ended startTime endTime =>
      if startTime < time then
        { queue with
          ended := Function.update queue.ended e
            (some (time, endTime + (time - startTime))) }.recordTimelineSpan e time
              (endTime + (time - startTime))
      else queue
  | _ => queue

section Raise

variable {starts records : EventId → WithBot ℤ}

theorem delayedPending_raise (unpending : queue.pending e = none) (other : EventId) :
    (queue.pending other).map (Pending.delayed · (raise records e time other)) =
      (queue.pending other).map (Pending.delayed · (records other)) := by
  by_cases same : other = e
  · subst same
    simp [unpending]
  · rw [raise_of_ne same]

theorem delayedStarted_raise (notStarted : ∀ startTime, queue.stage e ≠ .started startTime)
    (other : EventId) :
    queue.delayedStarted (raise records e time) other = queue.delayedStarted records other := by
  unfold delayedStarted
  split
  · rename_i startTime stage
    have differs : other ≠ e := by
      rintro rfl
      exact notStarted startTime stage
    rw [raise_of_ne differs]
  · rfl

theorem delayedEnded_raise
    (notEnded : ∀ startTime endTime, queue.stage e ≠ .ended startTime endTime) (other : EventId) :
    queue.delayedEnded (raise records e time) other = queue.delayedEnded records other := by
  unfold delayedEnded
  split
  · rename_i startTime endTime stage
    have differs : other ≠ e := by
      rintro rfl
      exact notEnded startTime endTime stage
    rw [raise_of_ne differs]
  · rfl

theorem delayedEntry_raise (notStarted : ∀ startTime, queue.stage e ≠ .started startTime)
    (event : QueueEvent) (before : ℤ) :
    queue.delayedEntry starts (raise records e time) event before =
      queue.delayedEntry starts records event before := by
  cases event with
  | endOf other =>
      simp only [delayedEntry]
      split
      · rename_i startTime stage
        have differs : other ≠ e := by
          rintro rfl
          exact notStarted startTime stage
        rw [raise_of_ne differs]
      · rfl
  | _ => rfl

end Raise

namespace Delayed

variable {flows : EventId → WithBot ℕ} {starts records : EventId → WithBot ℤ}

theorem fits_raise (delayed : Delayed queue flows starts records middle)
    (fits : queue.Fits e time) :
    ∀ other bound, raise records e time other = (bound : ℤ) → queue.Fits other bound := by
  intro other bound known
  rcases eq_of_raise known with old | ⟨rfl, rfl⟩
  · exact delayed.fits other bound old
  · exact fits

/-- Demands on an event that waits are met by its record. -/
theorem wait (delayed : Delayed queue flows starts records middle)
    (waits : queue.pending e ≠ none) :
    Delayed queue (raise flows e (asNanos time)) (raise starts e time) records middle := by
  have entry : ∀ event before, queue.delayedEntry (raise starts e time) records event before =
      queue.delayedEntry starts records event before := by
    intro event before
    cases event with
    | endOf other => rfl
    | _ other =>
        by_cases same : other = e
        · subst same
          simp [delayedEntry, waits]
        · simp [delayedEntry, raise_of_ne same]
  exact { delayed with
    entries := fun event now counter => by
      simp only [entry]
      exact delayed.entries event now counter
    buffered := fun other ref unpending buffers => by
      have differs : other ≠ e := by
        rintro rfl
        exact waits unpending
      rw [raise_of_ne differs]
      exact delayed.buffered other ref unpending buffers }

theorem amendRecord (delayed : Delayed queue flows starts records middle)
    (fits : queue.Fits e time) :
    Delayed queue flows starts (raise records e time) (middle.amendRecord e time) := by
  have stage' := delayed.stage e
  have fits := delayed.fits_raise fits
  have unpending : (∀ p, queue.stage e ≠ .pending p) → ∀ other, middle.pending other =
      (queue.pending other).map (Pending.delayed · (raise records e time other)) := by
    intro notPending other
    have unpending : queue.pending e = none :=
      Option.eq_none_iff_forall_ne_some.mpr fun p known => notPending p (stage_eq_pending.mpr known)
    rw [delayedPending_raise unpending]
    exact delayed.pending other
  have unstarted : (∀ startTime, queue.stage e ≠ .started startTime) →
      (∀ other, middle.started other = queue.delayedStarted (raise records e time) other) ∧
      ∀ event now counter, (event, toLex (now, counter)) ∈ middle.eventQueue ↔
        ∃ before, (event, toLex (before, counter)) ∈ queue.eventQueue ∧
          now = queue.delayedEntry starts (raise records e time) event before := by
    intro notStarted
    refine ⟨?_, ?_⟩
    · intro other
      rw [delayedStarted_raise notStarted]
      exact delayed.started other
    · intro event now counter
      simp only [delayedEntry_raise notStarted]
      exact delayed.entries event now counter
  have unended : (∀ startTime endTime, queue.stage e ≠ .ended startTime endTime) →
      ∀ other, middle.ended other = queue.delayedEnded (raise records e time) other := by
    intro notEnded other
    rw [delayedEnded_raise notEnded]
    exact delayed.ended other
  unfold EventQueue.amendRecord
  cases stage : queue.stage e with
  | pending p =>
      have known := stage_eq_pending.mp stage
      rw [stage] at stage' unstarted unended
      rw [stage']
      exact { delayed with
        pending := fun other => by
          by_cases same : other = e
          · subst same
            simp [known, Pending.delayed, lift_max]
          · simp [same, raise_of_ne same, delayed.pending]
        started := (unstarted (by simp)).1
        ended := unended (by simp)
        entries := (unstarted (by simp)).2
        fits := fits }
  | queued =>
      rw [stage] at stage' unpending unstarted unended
      rw [stage']
      exact { delayed with
        pending := unpending (by simp)
        started := (unstarted (by simp)).1
        ended := unended (by simp)
        entries := (unstarted (by simp)).2
        fits := fits }
  | unrecorded =>
      rw [stage] at stage' unpending unstarted unended
      rw [stage']
      exact { delayed with
        pending := unpending (by simp)
        started := (unstarted (by simp)).1
        ended := unended (by simp)
        entries := (unstarted (by simp)).2
        fits := fits }
  | started startTime =>
      rw [stage] at stage' unpending unended
      rw [stage']
      have startedOf : ∀ other, queue.delayedStarted (raise records e time) other =
          if other = e then some (max (lift (records e) startTime) time)
          else queue.delayedStarted records other := by
        intro other
        by_cases same : other = e
        · subst same
          simp [delayedStarted, stage, lift_max]
        · simp [delayedStarted, raise_of_ne same, same]
      have entryOf : ∀ event before,
          queue.delayedEntry starts (raise records e time) event before =
            if event = .endOf e then before + (max (lift (records e) startTime) time - startTime)
            else queue.delayedEntry starts records event before := by
        intro event before
        cases event with
        | endOf other =>
            by_cases same : other = e
            · subst same
              simp [delayedEntry, stage, lift_max]
            · simp [delayedEntry, raise_of_ne same, same]
        | _ => simp [delayedEntry]
      have endOf : ∀ before, queue.delayedEntry starts records (.endOf e) before =
          before + (lift (records e) startTime - startTime) := by
        intro before
        simp [delayedEntry, stage]
      by_cases early : lift (records e) startTime < time
      · simp only [if_pos early]
        rw [max_eq_right early.le] at startedOf entryOf
        exact { delayed with
          pending := unpending (by simp)
          started := fun other => by
            rw [startedOf]
            by_cases same : other = e
            · simp [changeTime, same]
            · simp [changeTime, same, delayed.started]
          ended := unended (by simp)
          entries := fun event now counter => by
            rw [mem_changeTime]
            constructor
            · rintro ⟨later, mem, known⟩
              rcases (delayed.entries _ _ _).mp mem with ⟨before, beforeMem, rfl⟩
              refine ⟨before, beforeMem, ?_⟩
              rw [known, entryOf]
              by_cases same : event = .endOf e
              · subst same
                rw [if_pos rfl, if_pos rfl, endOf]
                omega
              · rw [if_neg same, if_neg same]
            · rintro ⟨before, mem, known⟩
              refine ⟨_, (delayed.entries _ _ _).mpr ⟨before, mem, rfl⟩, ?_⟩
              rw [known, entryOf]
              by_cases same : event = .endOf e
              · subst same
                rw [if_pos rfl, if_pos rfl, endOf]
                omega
              · rw [if_neg same, if_neg same]
          fits := fits }
      · simp only [if_neg early]
        rw [max_eq_left (not_lt.mp early)] at startedOf entryOf
        exact { delayed with
          pending := unpending (by simp)
          started := fun other => by
            rw [startedOf, delayed.started]
            by_cases same : other = e
            · subst same
              simp [delayedStarted, stage]
            · simp [same]
          ended := unended (by simp)
          entries := fun event now counter => by
            have kept : ∀ before, queue.delayedEntry starts (raise records e time) event before =
                queue.delayedEntry starts records event before := by
              intro before
              rw [entryOf]
              by_cases same : event = .endOf e
              · subst same
                rw [if_pos rfl, endOf]
              · rw [if_neg same]
            simp only [kept]
            exact delayed.entries event now counter
          fits := fits }
  | ended startTime endTime =>
      rw [stage] at stage' unpending unstarted
      rw [stage']
      have endedOf : ∀ other, queue.delayedEnded (raise records e time) other =
          if other = e then
            some (max (lift (records e) startTime) time,
              endTime + (max (lift (records e) startTime) time - startTime))
          else queue.delayedEnded records other := by
        intro other
        by_cases same : other = e
        · subst same
          simp [delayedEnded, stage, lift_max]
        · simp [delayedEnded, raise_of_ne same, same]
      by_cases early : lift (records e) startTime < time
      · simp only [if_pos early]
        rw [max_eq_right early.le] at endedOf
        exact { delayed with
          pending := unpending (by simp)
          started := (unstarted (by simp)).1
          ended := fun other => by
            rw [endedOf]
            by_cases same : other = e
            · simp [recordTimelineSpan, same]
              omega
            · simp [recordTimelineSpan, same, delayed.ended]
          entries := (unstarted (by simp)).2
          fits := fits }
      · simp only [if_neg early]
        rw [max_eq_left (not_lt.mp early)] at endedOf
        exact { delayed with
          pending := unpending (by simp)
          started := (unstarted (by simp)).1
          ended := fun other => by
            rw [endedOf, delayed.ended]
            by_cases same : other = e
            · subst same
              simp [delayedEnded, stage]
            · simp [same]
          entries := (unstarted (by simp)).2
          fits := fits }

end Delayed

theorem stage_congr (pending : queue'.pending e = queue.pending e)
    (entry : queue'.StartQueued e ↔ queue.StartQueued e)
    (started : queue'.started e = queue.started e) (ended : queue'.ended e = queue.ended e) :
    queue'.stage e = queue.stage e := by
  unfold stage
  rw [pending, started, ended]
  by_cases here : queue.StartQueued e
  · simp only [if_pos here, if_pos (entry.mpr here)]
  · simp only [if_neg here, if_neg fun there => here (entry.mp there)]

theorem queued_changeTime {event item : QueueEvent} {f : ℤ → ℤ} :
    (queue.changeTime item f).2.Queued event ↔ queue.Queued event := by
  constructor
  · rintro ⟨priority, mem⟩
    rcases mem_changeTime.mp (show (event, toLex (ofLex priority)) ∈ _ from mem) with
      ⟨before, mem, _⟩
    exact ⟨_, mem⟩
  · rintro ⟨priority, mem⟩
    exact ⟨_, mem_changeTime.mpr ⟨_, show (event, toLex (ofLex priority)) ∈ _ from mem, rfl⟩⟩

theorem stage_delayEntries : (queue.delayEntries e time).stage e = queue.stage e :=
  stage_congr rfl (or_congr (queued_changeTime.trans queued_changeTime)
    (queued_changeTime.trans queued_changeTime)) rfl rfl

theorem changeTime_found {item : QueueEvent} {f : ℤ → ℤ} :
    (queue.changeTime item f).1 = true ↔ queue.Queued item :=
  contains_iff_queued

/-- A visit of an event that waits. -/
theorem changeStartTimeNotless_pending {fuel : ℕ} (waits : queue.pending e ≠ none) :
    changeStartTimeNotless platform (fuel + 1) queue e time = .ok (queue.amendRecord e time) := by
  rcases Option.ne_none_iff_exists'.mp waits with ⟨p, known⟩
  simp only [changeStartTimeNotless, amendRecord, known, stage_eq_pending.mpr known]

/-- A visit of an event that does not wait: the flow, the entries and the first record found are
amended, and when a span has been moved what depends on it is visited. -/
theorem changeStartTimeNotless_eq_ok {fuel : ℕ} (unpending : queue.pending e = none) :
    changeStartTimeNotless platform (fuel + 1) queue e time = .ok queue' ↔
      ∃ middle, queue.updateFlowStart e time = .ok middle ∧
        (∀ startTime, queue.stage e = .started startTime → startTime < time →
          queue.Queued (.endOf e)) ∧
        match queue.tasks.onward e time with
        | none => queue' = (middle.delayEntries e time).amendRecord e time
        | some newEnd =>
            (platform.order ((middle.delayEntries e time).amendRecord e time).log.length
              (queue.revDependencies e)).foldlM
                (fun queue e => changeStartTimeNotless platform fuel queue e newEnd)
                ((middle.delayEntries e time).amendRecord e time) = .ok queue' := by
  simp only [changeStartTimeNotless, unpending, bind_eq_ok]
  refine exists_congr fun middle => and_congr_right fun updated => ?_
  have rest := (updateFlowStart_eq_ok updated).2.rest
  have stage' : (middle.delayEntries e time).stage e = queue.stage e := by
    rw [stage_delayEntries, rest]
    rfl
  have found : ((middle.changeTime (.startOf e) (max · time)).1 ||
      ((middle.changeTime (.startOf e) (max · time)).2.changeTime (.pointOf e) (max · time)).1) =
        true ↔ queue.StartQueued e := by
    rw [Bool.or_eq_true, changeTime_found, changeTime_found, queued_changeTime, rest]
    rfl
  have started : (middle.delayEntries e time).started = queue.started := by
    rw [rest]
    rfl
  have ended : (middle.delayEntries e time).ended = queue.ended := by
    rw [rest]
    rfl
  have revDependencies : (middle.delayEntries e time).revDependencies = queue.revDependencies := by
    rw [rest]
    rfl
  have queued : (middle.delayEntries e time).Queued (.endOf e) ↔ queue.Queued (.endOf e) := by
    unfold delayEntries
    rw [queued_changeTime, queued_changeTime, rest]
    rfl
  have delays : ((middle.changeTime (.startOf e) (max · time)).2.changeTime (.pointOf e)
      (max · time)).2 = middle.delayEntries e time := rfl
  generalize middle.delayEntries e time = amended at *
  rw [delays]
  dsimp only [amendRecord, Tasks.onward, tasks]
  rw [stage']
  rcases queue.stage_cases e with ⟨p, known, stage⟩ | ⟨_, ⟨entry, stage⟩ |
    ⟨entry, ⟨startTime, start, stage⟩ | ⟨start, ⟨startTime, endTime, known, stage⟩ |
      ⟨known, stage⟩⟩⟩⟩
  · exact absurd (unpending.symm.trans known) (by simp)
  · rw [if_pos (found.mpr entry), stage]
    simp only [pure_eq_ok, reduceCtorEq, false_implies, implies_true, true_and]
    exact eq_comm
  · rw [if_neg fun here => entry (found.mp here), stage, started, start]
    simp only [Stage.started.injEq]
    split
    · rename_i early
      simp only [bind_eq_ok, assert_eq_ok, pure_eq_ok]
      constructor
      · rintro ⟨_, present, rfl⟩
        have ends := changeTime_found.mp present
        exact ⟨fun _ _ _ => queued.mp ends, rfl⟩
      · rintro ⟨ends, rfl⟩
        exact ⟨⟨⟩, changeTime_found.mpr (queued.mpr (ends _ rfl early)), rfl⟩
    · rename_i late
      simp only [pure_eq_ok]
      refine ⟨fun same => ⟨?_, same.symm⟩, fun same => same.2.symm⟩
      rintro _ rfl early
      exact absurd early late
  · rw [if_neg fun here => entry (found.mp here), stage, started, start, ended, known]
    dsimp only [recordTimelineSpan]
    rw [revDependencies]
    by_cases early : startTime < time
    · simp [early]
    · simp only [if_neg early, pure_eq_ok, reduceCtorEq, false_implies, implies_true, true_and]
      exact eq_comm
  · rw [if_neg fun here => entry (found.mp here), stage, started, start, ended, known]
    simp only [pure_eq_ok, reduceCtorEq, false_implies, implies_true, true_and]
    exact eq_comm

/-- The demands have been handled, from the floors on. -/
def Handled (queue : EventQueue) (images : EventId → WithBot ℕ) (floors : EventId → WithBot ℤ)
    (demands : List (EventId × ℤ)) (queue' : EventQueue) : Prop :=
  ∃ images' floors', queue.Delayed images' floors' floors' queue' ∧
    ∀ work final finalImages,
      Settles queue.tasks asNanos floors' images' work final finalImages →
        Settles queue.tasks asNanos floors images (demands ++ work) final finalImages

namespace Delayed

/-- Moving an event that has been moved before leads to the same end. -/
theorem onward_eq_some {starts : EventId → WithBot ℤ} {newEnd : ℤ}
    (delayed : Delayed queue images starts floors middle) :
    middle.tasks.onward e time = some newEnd ↔ ∃ startTime endTime,
      queue.tasks.span e = some (startTime, endTime) ∧ lift (floors e) startTime < time ∧
        newEnd = endTime + (time - startTime) := by
  rw [Tasks.onward_eq_some]
  simp only [tasks_span, delayed.stage]
  constructor
  · rintro ⟨startTime, endTime, stage', early, rfl⟩
    cases stage : queue.stage e with
    | ended first last =>
        rw [stage] at stage'
        cases stage'
        exact ⟨first, last, rfl, early, by omega⟩
    | _ =>
        rw [stage] at stage'
        cases stage'
  · rintro ⟨startTime, endTime, stage, early, rfl⟩
    rw [stage]
    exact ⟨_, _, rfl, early, by omega⟩

/-- An event that can be visited now could have been visited before. -/
theorem fits_of_visit (delayed : Delayed queue images floors floors middle)
    (buffered : ∀ flow, middle.eventToFlow e = some flow → ∃ ref, middle.Buffers e ref)
    (ends : ∀ startTime, middle.stage e = .started startTime → startTime < time →
      middle.Queued (.endOf e)) : queue.Fits e time := by
  intro unpending
  refine ⟨?_, ?_⟩
  · intro flow isFlow
    rcases buffered flow (delayed.eventToFlow ▸ isFlow) with ⟨ref, buffers⟩
    exact ⟨ref, delayed.buffers.mp buffers⟩
  · intro startTime stage early
    have stage' := delayed.stage e
    rw [stage] at stage'
    by_cases late : time ≤ lift (floors e) startTime
    · have met := (le_lift_iff.mp late).resolve_left (not_le.mpr early)
      rcases WithBot.coe_le_iff.mp met with ⟨floor, known, le⟩
      exact (delayed.fits e floor known unpending).2 startTime stage (early.trans_le le)
    · exact (delayed.queued _).mp (ends _ stage' (not_le.mp late))

end Delayed

/-- Demands that are handled one after the other. -/
theorem handled_of_foldlM {visit : EventQueue → EventId → Except Panic EventQueue}
    (visits : ∀ {images floors middle e queue'}, visit middle e = .ok queue' →
      queue.Delayed images floors floors middle →
        Handled queue images floors [(e, time)] queue')
    {events : List EventId} (run : events.foldlM visit middle = .ok queue')
    (delayed : queue.Delayed images floors floors middle) :
    Handled queue images floors (events.map (·, time)) queue' := by
  induction events generalizing images floors middle with
  | nil =>
      simp only [List.foldlM_nil, pure_eq_ok] at run
      subst run
      exact ⟨images, floors, delayed, fun _ _ _ settles => settles⟩
  | cons event events ih =>
      simp only [List.foldlM_cons, bind_eq_ok] at run
      rcases run with ⟨next, visited, run⟩
      rcases visits visited delayed with ⟨images', floors', delayed', first⟩
      rcases ih run delayed' with ⟨images'', floors'', delayed'', rest⟩
      exact ⟨images'', floors'', delayed'', fun work final finalImages settles =>
        first _ _ _ (rest work final finalImages settles)⟩

theorem changeStartTimeNotless_handled {fuel : ℕ}
    (distinct : ∀ {e e' ref}, queue.Buffers e ref → queue.Buffers e' ref → e = e')
    (run : changeStartTimeNotless platform fuel middle e time = .ok queue')
    (delayed : queue.Delayed images floors floors middle) :
    Handled queue images floors [(e, time)] queue' := by
  induction fuel generalizing images floors middle e time queue' with
  | zero => simp [changeStartTimeNotless] at run
  | succ fuel ih =>
      by_cases unpending : middle.pending e = none
      · rcases (changeStartTimeNotless_eq_ok unpending).mp run with ⟨updated, update, ends, rest⟩
        rcases updateFlowStart_eq_ok update with ⟨buffered, moved⟩
        have fits := delayed.fits_of_visit buffered ends
        have visited : queue.Delayed (raise images e (asNanos time)) (raise floors e time)
            (raise floors e time) ((updated.delayEntries e time).amendRecord e time) :=
          ((delayed.delayFlow distinct moved).delayEntries
            (delayed.pending_eq_none.mp unpending)).amendRecord fits
        split at rest
        · rename_i stays
          subst rest
          refine ⟨_, _, visited, fun work final finalImages settles => .stay ?_ settles⟩
          intro startTime endTime span
          by_contra early
          have moves := delayed.onward_eq_some.mpr ⟨startTime, endTime, span, not_le.mp early, rfl⟩
          simp [stays] at moves
        · rename_i newEnd moves
          rcases delayed.onward_eq_some.mp moves with ⟨startTime, endTime, span, early, rfl⟩
          rcases handled_of_foldlM (fun run delayed => ih run delayed) rest visited with
            ⟨images', floors', delayed', dependents⟩
          refine ⟨images', floors', delayed', fun work final finalImages settles => ?_⟩
          refine .move span early ?_ (dependents work final finalImages settles)
          rw [delayed.revDependencies]
          exact platform.order_perm _ _
      · have waits : middle.pending e ≠ none := unpending
        have waits' : queue.pending e ≠ none :=
          fun known => waits (delayed.pending_eq_none.mpr known)
        rw [changeStartTimeNotless_pending waits, Except.ok.injEq] at run
        subst run
        have visited : queue.Delayed (raise images e (asNanos time)) (raise floors e time)
            (raise floors e time) (middle.amendRecord e time) :=
          (delayed.wait waits').amendRecord fun known => absurd known waits'
        refine ⟨_, _, visited, fun work final finalImages settles => .stay ?_ settles⟩
        intro startTime endTime span
        exact absurd (stage_eq_ended.mp (tasks_span.mp span)).1 waits'

/-- Demands that can each be handled can be handled one after the other. -/
theorem exists_foldlM {visit : EventQueue → EventId → Except Panic EventQueue}
    (visits : ∀ {images floors middle e queue'}, visit middle e = .ok queue' →
      queue.Delayed images floors floors middle →
        Handled queue images floors [(e, time)] queue')
    {events : List EventId}
    (goes : ∀ e ∈ events, ∀ images floors middle, queue.Delayed images floors floors middle →
      ∃ queue', visit middle e = .ok queue')
    (delayed : queue.Delayed images floors floors middle) :
    ∃ queue', events.foldlM visit middle = .ok queue' := by
  induction events generalizing images floors middle with
  | nil => exact ⟨middle, rfl⟩
  | cons event events ih =>
      rcases goes event List.mem_cons_self images floors middle delayed with ⟨next, visited⟩
      rcases visits visited delayed with ⟨_, _, delayed', _⟩
      rcases ih (fun e mem => goes e (List.mem_cons_of_mem _ mem)) delayed' with ⟨queue', run⟩
      refine ⟨queue', ?_⟩
      rw [List.foldlM_cons, bind_eq_ok]
      exact ⟨next, visited, run⟩

/-- When everything that is demanded fits, a visit ends: with fuel for what depends on the event
there is fuel for the event. -/
theorem eventually_changeStartTimeNotless {first : List (EventId × ℤ)}
    (distinct : ∀ {e e' ref}, queue.Buffers e ref → queue.Buffers e' ref → e = e')
    (founded : WellFounded fun later e => later ∈ queue.revDependencies e)
    (fits : ∀ e time, Demanded queue.tasks first e time → queue.Fits e time) (e : EventId) :
    ∀ᶠ fuel in Filter.atTop, ∀ (platform : Platform) (images : EventId → WithBot ℕ)
      (floors : EventId → WithBot ℤ) (middle : EventQueue) (time : ℤ),
      queue.Delayed images floors floors middle →
        Demanded queue.tasks first e time →
          ∃ queue', changeStartTimeNotless platform fuel middle e time = .ok queue' := by
  induction e using founded.induction with
  | _ e ih =>
      have dependents := (Filter.eventually_all_finite
        (List.finite_toSet (queue.revDependencies e))).mpr ih
      rcases Filter.eventually_atTop.mp dependents with ⟨bound, enough⟩
      refine Filter.eventually_atTop.mpr ⟨bound + 1, ?_⟩
      intro fuel more platform images floors middle time delayed demanded
      rcases Nat.exists_eq_add_of_le' more with ⟨extra, rfl⟩
      rw [← Nat.add_assoc]
      by_cases unpending : middle.pending e = none
      · have unpending' := delayed.pending_eq_none.mp unpending
        rcases fits e time demanded unpending' with ⟨buffered, ends⟩
        have buffered' : ∀ flow, middle.eventToFlow e = some flow →
            ∃ ref, middle.Buffers e ref := by
          intro flow isFlow
          rcases buffered flow (delayed.eventToFlow ▸ isFlow) with ⟨ref, buffers⟩
          exact ⟨ref, delayed.buffers.mpr buffers⟩
        have ends' : ∀ startTime, middle.stage e = .started startTime → startTime < time →
            middle.Queued (.endOf e) := by
          intro startTime stage' early
          rw [delayed.stage] at stage'
          cases stage : queue.stage e with
          | started before =>
              rw [stage] at stage'
              cases stage'
              exact (delayed.queued _).mpr (ends before stage (lift_lt_iff.mp early).1)
          | _ =>
              rw [stage] at stage'
              cases stage'
        rcases exists_updateFlowStart time buffered' with ⟨updated, update⟩
        have moved := (updateFlowStart_eq_ok update).2
        have visited : queue.Delayed (raise images e (asNanos time)) (raise floors e time)
            (raise floors e time) ((updated.delayEntries e time).amendRecord e time) :=
          ((delayed.delayFlow distinct moved).delayEntries unpending').amendRecord
            (fits e time demanded)
        cases moves : middle.tasks.onward e time with
        | none =>
            refine ⟨(updated.delayEntries e time).amendRecord e time,
              (changeStartTimeNotless_eq_ok unpending).mpr ⟨updated, update, ends', ?_⟩⟩
            rw [moves]
        | some newEnd =>
            rcases delayed.onward_eq_some.mp moves with ⟨startTime, endTime, span, early, rfl⟩
            have onward : queue.tasks.onward e time = some (endTime + (time - startTime)) :=
              Tasks.onward_eq_some.mpr
                ⟨startTime, endTime, span, (lift_lt_iff.mp early).1, rfl⟩
            have goes : ∀ later ∈ platform.order
                ((updated.delayEntries e time).amendRecord e time).log.length
                (middle.revDependencies e), ∀ images floors middle,
                queue.Delayed images floors floors middle → ∃ queue',
                  changeStartTimeNotless platform (extra + bound) middle later
                    (endTime + (time - startTime)) = .ok queue' := by
              intro later mem images floors middle' delayed'
              rw [Platform.mem_order, delayed.revDependencies] at mem
              exact enough (extra + bound) (Nat.le_add_left _ _) later mem platform images floors
                middle' _ delayed' (demanded.follow onward mem)
            rcases exists_foldlM (fun run delayed => changeStartTimeNotless_handled distinct run
              delayed) goes visited with ⟨queue', run⟩
            refine ⟨queue', (changeStartTimeNotless_eq_ok unpending).mpr
              ⟨updated, update, ends', ?_⟩⟩
            rw [moves]
            exact run
      · exact ⟨_, changeStartTimeNotless_pending unpending⟩

end EventQueue

end Phantora
