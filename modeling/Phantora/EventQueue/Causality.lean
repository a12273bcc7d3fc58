import Phantora.EventQueue.Run
import Phantora.Netsim.Progress

/-!
# Where an event is and when it starts

The invariant behind causality. An event waits for dependencies or has been
launched, it is in one place at a time, and every start recorded for it is no
earlier than the ends of its dependencies, if the run is paced: that part holds
only of runs that attach every dependency in time. During a rollback the ends of
the flows in `exempt` may still be queued while these flows move again.
-/

namespace Phantora

open Outcome

namespace EventQueue

/-- An entry is in the priority queue. -/
def Queued (queue : EventQueue) (event : QueueEvent) : Prop :=
  ∃ priority, (event, priority) ∈ queue.eventQueue

/-- The flow of an event has arrived in the network under a reference. -/
def Carries (queue : EventQueue) (ref : Netsim.FlowRef) (e : EventId) : Prop :=
  ref < queue.netsim.state.nextRef ∧ (queue.netsim.state.arena ref).flow.token = some e

/-- The flow of an event has arrived and is not complete. -/
def Moving (queue : EventQueue) (e : EventId) : Prop :=
  ∃ ref, queue.Carries ref e ∧ ref ∉ queue.netsim.state.retiredFlows

/-- A start recorded for an event that no longer waits: in the priority queue, among
the started or the ended events, or in the network. -/
def StartFixed (queue : EventQueue) (e : EventId) (time : ℤ) : Prop :=
  (∃ k, (QueueEvent.startOf e, toLex (time, k)) ∈ queue.eventQueue) ∨
    (∃ k, (QueueEvent.pointOf e, toLex (time, k)) ∈ queue.eventQueue) ∨
    queue.started e = some time ∨
    (∃ endTime, queue.ended e = some (time, endTime)) ∨
    ∃ ref, queue.Carries ref e ∧ time = ((queue.netsim.state.arena ref).ts / 1000 : ℕ)

namespace StartFixed

variable {queue : EventQueue} {e : EventId} {time endTime : ℤ} {k : ℕ}

theorem starting (mem : (QueueEvent.startOf e, toLex (time, k)) ∈ queue.eventQueue) :
    queue.StartFixed e time :=
  Or.inl ⟨k, mem⟩

theorem point (mem : (QueueEvent.pointOf e, toLex (time, k)) ∈ queue.eventQueue) :
    queue.StartFixed e time :=
  Or.inr (Or.inl ⟨k, mem⟩)

theorem started (known : queue.started e = some time) : queue.StartFixed e time :=
  Or.inr (Or.inr (Or.inl known))

theorem ended (known : queue.ended e = some (time, endTime)) : queue.StartFixed e time :=
  Or.inr (Or.inr (Or.inr (Or.inl ⟨endTime, known⟩)))

theorem flow {ref : Netsim.FlowRef} (carries : queue.Carries ref e) :
    queue.StartFixed e ((queue.netsim.state.arena ref).ts / 1000 : ℕ) :=
  Or.inr (Or.inr (Or.inr (Or.inr ⟨ref, carries, rfl⟩)))

end StartFixed

/-- All dependencies of the event have ended by a given time, if the run is paced. -/
def Ready (paced : Prop) (queue : EventQueue) (e : EventId) (time : ℤ) : Prop :=
  paced → ∀ d, e ∈ queue.revDependencies d → queue.EndedBy d time

/-- The event no longer waits. -/
def Launched (queue : EventQueue) (e : EventId) : Prop :=
  (∃ time, queue.StartFixed e time) ∨ queue.Queued (.endOf e)

/-- The places of a launched event. -/
inductive Place where
  | starting | moving | ending | point | ended

/-- Where an event is; the start entry of a flow does not count. -/
def At (queue : EventQueue) (e : EventId) : Place → Prop
  | .starting => queue.eventToFlow e = none ∧ queue.Queued (.startOf e)
  | .moving => queue.Moving e
  | .ending => queue.Queued (.endOf e) ∧ ¬queue.Moving e
  | .point => queue.Queued (.pointOf e)
  | .ended => queue.ended e ≠ none

structure Causal (paced : Prop) (exempt : Finset ℕ) (queue : EventQueue) : Prop where
  sound : queue.netsim.Sound
  arrived : ∀ {ref}, ref < queue.netsim.state.nextRef → ∃ e flow, queue.Carries ref e ∧
    queue.eventToFlow e = some flow ∧ flow.id = (queue.netsim.state.arena ref).flow.id
  flowIds : ∀ {e e' flow flow'}, queue.eventToFlow e = some flow →
    queue.eventToFlow e' = some flow' → flow.id = flow'.id → e = e'
  issued : ∀ {e}, queue.eventCounter ≤ e → queue.pending e = none ∧ ¬queue.Launched e ∧
    queue.eventToFlow e = none
  revIssued : paced → ∀ {e d}, e ∈ queue.revDependencies d → e < queue.eventCounter
  startAction : ∀ {e action}, queue.inQueueNotStarted e = some action → queue.Queued (.startOf e) →
    ((flowOf (some action)).isSome ↔ (queue.eventToFlow e).isSome)
  pendingAction : ∀ {e pending}, queue.pending e = some pending →
    queue.eventToFlow e = flowOf pending.action
  points : ∀ {e}, queue.Queued (.pointOf e) → queue.eventToFlow e = none
  waiting : ∀ {e pending}, queue.pending e = some pending → ¬queue.Launched e
  unique : ∀ {e place place'}, queue.At e place → queue.At e place' → place = place'
  settled : ∀ {e ref}, queue.Queued (.endOf e) → queue.Carries ref e →
    ref ∈ queue.netsim.state.retiredFlows ∨ (queue.netsim.state.arena ref).flow.id ∈ exempt
  logged : ∀ {e}, queue.ended e ≠ none → ∃ startTime endTime, .span e startTime endTime ∈ queue.log
  timely : ∀ {e time}, queue.StartFixed e time → queue.Ready paced e time
  waits : paced → ∀ {e pending d}, queue.pending e = some pending → e ∈ queue.revDependencies d →
    some d ∈ pending.dependencies ∨ queue.EndedBy d (max pending.depEndTime pending.arriveTime)

namespace Causal

variable {paced : Prop} {exempt : Finset ℕ} {queue : EventQueue}

theorem flow_of_carries (causal : Causal paced exempt queue) {ref : Netsim.FlowRef} {e : EventId}
    (carries : queue.Carries ref e) : ∃ flow, queue.eventToFlow e = some flow ∧
      flow.id = (queue.netsim.state.arena ref).flow.id := by
  rcases causal.arrived carries.1 with ⟨e', flow, carries', known, same⟩
  have equal : e' = e := Option.some.inj (carries'.2.symm.trans carries.2)
  exact ⟨flow, equal ▸ known, same⟩

theorem ref_unique (causal : Causal paced exempt queue) {left right : Netsim.FlowRef} {e : EventId}
    (leftCarries : queue.Carries left e) (rightCarries : queue.Carries right e) : left = right := by
  rcases causal.flow_of_carries leftCarries with ⟨flow, known, same⟩
  rcases causal.flow_of_carries rightCarries with ⟨flow', known', same'⟩
  have equal : flow = flow' := Option.some.inj (known.symm.trans known')
  exact causal.sound.ledger.ids leftCarries.1 rightCarries.1 (by rw [← same, ← same', equal])

theorem lt_of_pending (causal : Causal paced exempt queue) {e : EventId} {pending : Pending}
    (known : queue.pending e = some pending) : e < queue.eventCounter := by
  by_contra notLt
  rw [(causal.issued (not_lt.mp notLt)).1] at known
  exact Option.some_ne_none _ known.symm

theorem lt_of_launched (causal : Causal paced exempt queue) {e : EventId}
    (launched : queue.Launched e) : e < queue.eventCounter := by
  by_contra notLt
  exact (causal.issued (not_lt.mp notLt)).2.1 launched

theorem pending_of_launched (causal : Causal paced exempt queue) {e : EventId}
    (launched : queue.Launched e) : queue.pending e = none := by
  cases known : queue.pending e with
  | none => rfl
  | some pending => exact absurd launched (causal.waiting known)

end Causal

/-- An event that is being pushed: it neither waits nor has been launched. -/
structure Released (paced : Prop) (queue : EventQueue) (e : EventId) (action : Option Action)
    (time : ℤ) : Prop where
  issued : e < queue.eventCounter
  absent : queue.pending e = none
  unlaunched : ¬queue.Launched e
  flow : queue.eventToFlow e = flowOf action
  ready : queue.Ready paced e time

theorem not_at_of_not_launched {queue : EventQueue} {e : EventId}
    (unlaunched : ¬queue.Launched e) (place : Place) : ¬queue.At e place := by
  intro here
  apply unlaunched
  cases place with
  | starting =>
      rcases here.2 with ⟨priority, mem⟩
      exact Or.inl ⟨_, .starting (k := (ofLex priority).2) mem⟩
  | moving =>
      rcases here with ⟨ref, carries, _⟩
      exact Or.inl ⟨_, .flow carries⟩
  | ending => exact Or.inr here.1
  | point =>
      rcases here with ⟨priority, mem⟩
      exact Or.inl ⟨_, .point (k := (ofLex priority).2) mem⟩
  | ended =>
      rcases Option.ne_none_iff_exists'.mp here with ⟨⟨startTime, endTime⟩, known⟩
      exact Or.inl ⟨startTime, .ended known⟩

section Entries

variable {queue : EventQueue} {event other : QueueEvent} {time : ℤ} {counter : ℕ}

theorem queued_pushEntry :
    (queue.pushEntry event time counter).Queued other ↔ other = event ∨ queue.Queued other := by
  simp only [Queued, pushEntry, PriorityQueue.mem_push]
  by_cases same : other = event
  · simp [same]
  · simp [same]

theorem startFixed_pushEntry {e : EventId} {start : ℤ}
    (fixed : (queue.pushEntry event time counter).StartFixed e start) :
    queue.StartFixed e start ∨
      ((event = .startOf e ∨ event = .pointOf e) ∧ start = time) := by
  rcases fixed with ⟨k, mem⟩ | ⟨k, mem⟩ | rest
  · rcases PriorityQueue.mem_push.mp mem with ⟨same, equal⟩ | ⟨_, old⟩
    · exact Or.inr ⟨Or.inl same.symm, congrArg (fun p => (ofLex p).1) equal⟩
    · exact Or.inl (.starting old)
  · rcases PriorityQueue.mem_push.mp mem with ⟨same, equal⟩ | ⟨_, old⟩
    · exact Or.inr ⟨Or.inr same.symm, congrArg (fun p => (ofLex p).1) equal⟩
    · exact Or.inl (.point old)
  · exact Or.inl (Or.inr (Or.inr rest))

/-- A new entry launches its event only. -/
theorem launched_pushEntry {e : EventId}
    (launched : (queue.pushEntry event time counter).Launched e) :
    queue.Launched e ∨ event = .startOf e ∨ event = .pointOf e ∨ event = .endOf e := by
  rcases launched with ⟨start, fixed⟩ | ending
  · rcases startFixed_pushEntry fixed with old | ⟨new, _⟩
    · exact Or.inl (Or.inl ⟨start, old⟩)
    · rcases new with new | new
      · exact Or.inr (Or.inl new)
      · exact Or.inr (Or.inr (Or.inl new))
  · rcases queued_pushEntry.mp ending with new | old
    · exact Or.inr (Or.inr (Or.inr new.symm))
    · exact Or.inl (Or.inr old)

end Entries

namespace Causal

variable {paced : Prop} {exempt : Finset ℕ} {queue : EventQueue}

/-- Forgetting entries and starts keeps the invariant. -/
theorem forget (causal : Causal paced exempt queue) {eventQueue : PriorityQueue QueueEvent Priority}
    {started : EventId → Option ℤ} {inQueueNotStarted : EventId → Option Action} {counter : ℕ}
    {log : List LogEntry}
    (entries : ∀ {entry}, entry ∈ eventQueue → entry ∈ queue.eventQueue)
    (starts : ∀ {e time}, started e = some time → queue.started e = some time)
    (actions : ∀ {e action}, inQueueNotStarted e = some action →
      queue.inQueueNotStarted e = some action)
    (logs : ∀ {entry}, entry ∈ queue.log → entry ∈ log) :
    Causal paced exempt { queue with
      eventQueue := eventQueue
      started := started
      inQueueNotStarted := inQueueNotStarted
      queueCounter := counter
      log := log } := by
  have queued : ∀ {event}, ({ queue with
      eventQueue := eventQueue
      started := started
      inQueueNotStarted := inQueueNotStarted
      queueCounter := counter
      log := log } : EventQueue).Queued event → queue.Queued event :=
    fun ⟨priority, mem⟩ => ⟨priority, entries mem⟩
  have fixed : ∀ {e time}, ({ queue with
      eventQueue := eventQueue
      started := started
      inQueueNotStarted := inQueueNotStarted
      queueCounter := counter
      log := log } : EventQueue).StartFixed e time → queue.StartFixed e time := by
    rintro e time (⟨k, mem⟩ | ⟨k, mem⟩ | known | rest)
    · exact .starting (entries mem)
    · exact .point (entries mem)
    · exact .started (starts known)
    · exact Or.inr (Or.inr (Or.inr rest))
  have launched : ∀ {e}, ({ queue with
      eventQueue := eventQueue
      started := started
      inQueueNotStarted := inQueueNotStarted
      queueCounter := counter
      log := log } : EventQueue).Launched e → queue.Launched e := by
    rintro e (⟨time, start⟩ | ending)
    · exact Or.inl ⟨time, fixed start⟩
    · exact Or.inr (queued ending)
  have located : ∀ {e place}, ({ queue with
      eventQueue := eventQueue
      started := started
      inQueueNotStarted := inQueueNotStarted
      queueCounter := counter
      log := log } : EventQueue).At e place → queue.At e place := by
    intro e place here
    cases place with
    | starting => exact ⟨here.1, queued here.2⟩
    | moving => exact here
    | ending => exact ⟨queued here.1, here.2⟩
    | point => exact queued here
    | ended => exact here
  exact { causal with
    issued := fun le => ⟨(causal.issued le).1, fun now => (causal.issued le).2.1 (launched now),
      (causal.issued le).2.2⟩
    startAction := fun known start => causal.startAction (actions known) (queued start)
    points := fun point => causal.points (queued point)
    waiting := fun known now => causal.waiting known (launched now)
    unique := fun here there => causal.unique (located here) (located there)
    settled := fun ending carries => causal.settled (queued ending) carries
    logged := fun known => by
      rcases causal.logged known with ⟨startTime, endTime, mem⟩
      exact ⟨startTime, endTime, logs mem⟩
    timely := fun start => causal.timely (fixed start) }

/-- The invariant does not depend on the insertion counter. -/
theorem count (causal : Causal paced exempt queue) (counter : ℕ) :
    Causal paced exempt { queue with queueCounter := counter } :=
  causal.forget (fun mem => mem) (fun known => known) (fun known => known) (fun mem => mem)

theorem forgetStarted (causal : Causal paced exempt queue) (e : EventId) :
    Causal paced exempt { queue with started := Function.update queue.started e none } :=
  causal.forget (fun mem => mem) (fun {other t} known => by
    by_cases same : other = e
    · simp [same] at known
    · simpa [same] using known) (fun known => known) (fun mem => mem)

theorem forgetAction (causal : Causal paced exempt queue) (e : EventId) :
    Causal paced exempt { queue with
      inQueueNotStarted := Function.update queue.inQueueNotStarted e none } :=
  causal.forget (fun mem => mem) (fun known => known) (fun {other a} known => by
    by_cases same : other = e
    · simp [same] at known
    · simpa [same] using known) (fun mem => mem)

/-- An entry whose event fits it keeps the invariant. -/
theorem pushEntry (causal : Causal paced exempt queue) (event : QueueEvent) {time : ℤ} {counter : ℕ}
    (issued : event.id < queue.eventCounter) (absent : queue.pending event.id = none)
    (alone : ∀ {place place'}, (queue.pushEntry event time counter).At event.id place →
      (queue.pushEntry event time counter).At event.id place' → place = place')
    (ready : event ≠ .endOf event.id → queue.Ready paced event.id time)
    (action : event = .startOf event.id → ∀ {action},
      queue.inQueueNotStarted event.id = some action →
      ((flowOf (some action)).isSome ↔ (queue.eventToFlow event.id).isSome))
    (point : event = .pointOf event.id → queue.eventToFlow event.id = none)
    (settles : event = .endOf event.id → ∀ {ref}, queue.Carries ref event.id →
      ref ∈ queue.netsim.state.retiredFlows ∨
        (queue.netsim.state.arena ref).flow.id ∈ exempt) :
    Causal paced exempt (queue.pushEntry event time counter) := by
  have about : ∀ {e}, event = .startOf e ∨ event = .pointOf e ∨ event = .endOf e →
      e = event.id := by
    rintro e (rfl | rfl | rfl) <;> rfl
  have launched : ∀ {e}, (queue.pushEntry event time counter).Launched e →
      queue.Launched e ∨ e = event.id :=
    fun now => (launched_pushEntry now).imp id about
  have located : ∀ {e place}, e ≠ event.id → (queue.pushEntry event time counter).At e place →
      queue.At e place := by
    intro e place differs here
    cases place with
    | starting =>
        rcases queued_pushEntry.mp here.2 with new | old
        · exact absurd (about (Or.inl new.symm)) differs
        · exact ⟨here.1, old⟩
    | moving => exact here
    | ending =>
        rcases queued_pushEntry.mp here.1 with new | old
        · exact absurd (about (Or.inr (Or.inr new.symm))) differs
        · exact ⟨old, here.2⟩
    | point =>
        rcases queued_pushEntry.mp here with new | old
        · exact absurd (about (Or.inr (Or.inl new.symm))) differs
        · exact old
    | ended => exact here
  exact { causal with
    issued := fun {e} le => by
      rcases causal.issued le with ⟨noPending, unlaunched, noFlow⟩
      refine ⟨noPending, fun now => ?_, noFlow⟩
      rcases launched now with old | same
      · exact unlaunched old
      · exact absurd issued (not_lt.mpr (same ▸ le))
    startAction := fun {e a} known start => by
      rcases queued_pushEntry.mp start with new | old
      · have same := about (Or.inl new.symm)
        rw [same] at new known ⊢
        exact action new.symm known
      · exact causal.startAction known old
    points := fun {e} start => by
      rcases queued_pushEntry.mp start with new | old
      · have same := about (Or.inr (Or.inl new.symm))
        rw [same] at new ⊢
        exact point new.symm
      · exact causal.points old
    waiting := fun {e pending} known now => by
      rcases launched now with old | same
      · exact causal.waiting known old
      · rw [same] at known
        exact Option.some_ne_none _ (known.symm.trans absent)
    unique := fun {e place place'} here there => by
      by_cases same : e = event.id
      · rw [same] at here there
        exact alone here there
      · exact causal.unique (located same here) (located same there)
    settled := fun {e ref} ending carries => by
      rcases queued_pushEntry.mp ending with new | old
      · have same := about (Or.inr (Or.inr new.symm))
        rw [same] at new carries
        exact settles new.symm carries
      · exact causal.settled old carries
    timely := fun {e start} fixed => by
      rcases startFixed_pushEntry fixed with old | ⟨new, rfl⟩
      · exact causal.timely old
      · have same : e = event.id := about (new.imp_right Or.inl)
        rw [same] at new ⊢
        refine ready fun ending => ?_
        rcases new with new | new
        · exact QueueEvent.noConfusion (new.symm.trans ending)
        · exact QueueEvent.noConfusion (new.symm.trans ending) }

theorem setAction (causal : Causal paced exempt queue) {e : EventId} {action : Action}
    (fits : (flowOf (some action)).isSome ↔ (queue.eventToFlow e).isSome) :
    Causal paced exempt { queue with
      inQueueNotStarted := Function.update queue.inQueueNotStarted e (some action) } :=
  { causal with
    startAction := fun {other a} known start => by
      by_cases same : other = e
      · subst other
        have equal : action = a := by simpa using known
        exact equal ▸ fits
      · simp only [ne_eq, same, not_false_eq_true, Function.update_of_ne] at known
        exact causal.startAction known start }

/-- The start of a released event is queued. -/
theorem pushStart (causal : Causal paced exempt queue) (counter : ℕ) {e : EventId} {action : Action}
    {time : ℤ} (issued : e < queue.eventCounter) (absent : queue.pending e = none)
    (fits : (flowOf (some action)).isSome ↔ (queue.eventToFlow e).isSome)
    (ready : queue.Ready paced e time)
    (alone : queue.eventToFlow e = none → ∀ {place}, ¬queue.At e place) :
    Causal paced exempt (queue.pushStart e action time counter) := by
  refine (causal.setAction fits).pushEntry (.startOf e) issued absent ?_ (fun _ => ready)
    (fun _ a known => ?_) (fun same => QueueEvent.noConfusion same)
    (fun same => QueueEvent.noConfusion same)
  · have located : ∀ {place}, (queue.pushStart e action time counter).At e place →
        (queue.At e place ∨ (queue.eventToFlow e = none ∧ place = .starting)) := by
      intro place here
      cases place with
      | starting => exact Or.inr ⟨here.1, rfl⟩
      | moving => exact Or.inl here
      | ending =>
          rcases queued_pushEntry.mp here.1 with new | old
          · exact QueueEvent.noConfusion new
          · exact Or.inl ⟨old, here.2⟩
      | point =>
          rcases queued_pushEntry.mp here with new | old
          · exact QueueEvent.noConfusion new
          · exact Or.inl old
      | ended => exact Or.inl here
    intro place place' here there
    rcases located here with old | ⟨noFlow, rfl⟩
    · rcases located there with old' | ⟨noFlow, _⟩
      · exact causal.unique old old'
      · exact absurd old (alone noFlow)
    · rcases located there with old' | ⟨_, rfl⟩
      · exact absurd old' (alone noFlow)
      · rfl
  · have equal : action = a := by simpa [QueueEvent.id] using known
    exact equal ▸ fits

/-- A released point is queued. -/
theorem pushPoint (causal : Causal paced exempt queue) {e : EventId} {time : ℤ} {counter : ℕ}
    (released : queue.Released paced e none time) :
    Causal paced exempt (queue.pushEntry (.pointOf e) time counter) := by
  refine causal.pushEntry (.pointOf e) released.issued released.absent ?_ (fun _ => released.ready)
    (fun same => QueueEvent.noConfusion same) (fun _ => released.flow)
    (fun same => QueueEvent.noConfusion same)
  have located : ∀ {place}, (queue.pushEntry (.pointOf e) time counter).At e place →
      place = .point := by
    intro place here
    cases place with
    | starting =>
        rcases queued_pushEntry.mp here.2 with new | old
        · exact QueueEvent.noConfusion new
        · exact absurd ⟨here.1, old⟩ (not_at_of_not_launched released.unlaunched .starting)
    | moving => exact absurd here (not_at_of_not_launched released.unlaunched .moving)
    | ending =>
        rcases queued_pushEntry.mp here.1 with new | old
        · exact QueueEvent.noConfusion new
        · exact absurd ⟨old, here.2⟩ (not_at_of_not_launched released.unlaunched .ending)
    | point => rfl
    | ended => exact absurd here (not_at_of_not_launched released.unlaunched .ended)
  intro place place' here there
  exact (located here).trans (located there).symm

/-- The end of an event that is nowhere else is queued. -/
theorem pushEnd (causal : Causal paced exempt queue) (time : ℤ) (counter : ℕ) {e : EventId}
    (issued : e < queue.eventCounter) (absent : queue.pending e = none)
    (alone : ∀ place, queue.At e place → place = .ending)
    (settles : ∀ {ref}, queue.Carries ref e → ref ∈ queue.netsim.state.retiredFlows) :
    Causal paced exempt (queue.pushEntry (.endOf e) time counter) := by
  refine causal.pushEntry (.endOf e) issued absent ?_ (fun differs => absurd rfl differs)
    (fun same => QueueEvent.noConfusion same) (fun same => QueueEvent.noConfusion same)
    (fun _ => fun carries => Or.inl (settles carries))
  have located : ∀ {place}, (queue.pushEntry (.endOf e) time counter).At e place →
      place = .ending := by
    intro place here
    cases place with
    | starting =>
        rcases queued_pushEntry.mp here.2 with new | old
        · exact QueueEvent.noConfusion new
        · exact alone .starting ⟨here.1, old⟩
    | moving => exact alone .moving here
    | ending => rfl
    | point =>
        rcases queued_pushEntry.mp here with new | old
        · exact QueueEvent.noConfusion new
        · exact alone .point old
    | ended => exact alone .ended here
  intro place place' here there
  exact (located here).trans (located there).symm

/-- The start of an event is recorded. -/
theorem start (causal : Causal paced exempt queue) {e : EventId} {time : ℤ}
    (issued : e < queue.eventCounter) (absent : queue.pending e = none)
    (ready : queue.Ready paced e time) :
    Causal paced exempt { queue with started := Function.update queue.started e (some time) } := by
  have fixed : ∀ {other start}, ({ queue with
      started := Function.update queue.started e (some time) } :
        EventQueue).StartFixed other start →
      queue.StartFixed other start ∨ (other = e ∧ start = time) := by
    rintro other start (mem | mem | known | rest)
    · exact Or.inl (Or.inl mem)
    · exact Or.inl (Or.inr (Or.inl mem))
    · by_cases same : other = e
      · subst other
        exact Or.inr ⟨rfl, by simpa [eq_comm] using known⟩
      · simp only [ne_eq, same, not_false_eq_true, Function.update_of_ne] at known
        exact Or.inl (.started known)
    · exact Or.inl (Or.inr (Or.inr (Or.inr rest)))
  have launched : ∀ {other}, ({ queue with
      started := Function.update queue.started e (some time) } : EventQueue).Launched other →
      queue.Launched other ∨ other = e := by
    rintro other (⟨start, now⟩ | ending)
    · rcases fixed now with old | ⟨same, _⟩
      · exact Or.inl (Or.inl ⟨start, old⟩)
      · exact Or.inr same
    · exact Or.inl (Or.inr ending)
  exact { causal with
    issued := fun {other} le => by
      rcases causal.issued le with ⟨noPending, unlaunched, noFlow⟩
      refine ⟨noPending, fun now => ?_, noFlow⟩
      rcases launched now with old | same
      · exact unlaunched old
      · exact absurd issued (not_lt.mpr (same ▸ le))
    waiting := fun {other pending} known now => by
      rcases launched now with old | same
      · exact causal.waiting known old
      · rw [same] at known
        exact Option.some_ne_none _ (known.symm.trans absent)
    timely := fun {other start} now => by
      rcases fixed now with old | ⟨rfl, rfl⟩
      · exact causal.timely old
      · exact ready }

/-- An event that is nowhere is recorded as ended. -/
theorem finish (causal : Causal paced exempt queue) {e : EventId} {startTime endTime : ℤ}
    (issued : e < queue.eventCounter) (absent : queue.pending e = none)
    (nowhere : ∀ place, ¬queue.At e place) (ready : queue.Ready paced e startTime) :
    Causal paced exempt ({ queue with
      ended := Function.update queue.ended e (some (startTime, endTime)) }.recordTimelineSpan
        e startTime endTime) := by
  set queue' : EventQueue := ({ queue with
    ended := Function.update queue.ended e (some (startTime, endTime)) }.recordTimelineSpan
      e startTime endTime) with definition
  have notEnded : queue.ended e = none := by
    by_contra known
    exact nowhere .ended known
  have ended : ∀ {other}, other ≠ e → queue'.ended other = queue.ended other :=
    fun differs => Function.update_of_ne differs _ _
  have endedBy : ∀ {d time}, queue.EndedBy d time → queue'.EndedBy d time := by
    rintro d time ⟨s, u, known, le⟩
    have differs : d ≠ e := by
      rintro rfl
      exact Option.some_ne_none _ (known.symm.trans notEnded)
    exact ⟨s, u, (ended differs).trans known, le⟩
  have fixed : ∀ {other start}, queue'.StartFixed other start →
      queue.StartFixed other start ∨ (other = e ∧ start = startTime) := by
    rintro other start (mem | mem | known | ⟨u, known⟩ | rest)
    · exact Or.inl (Or.inl mem)
    · exact Or.inl (Or.inr (Or.inl mem))
    · exact Or.inl (.started known)
    · by_cases same : other = e
      · subst other
        have equal : some (startTime, endTime) = some (start, u) := by
          simpa [definition, recordTimelineSpan] using known
        exact Or.inr ⟨rfl, (congrArg Prod.fst (Option.some.inj equal)).symm⟩
      · rw [ended same] at known
        exact Or.inl (.ended known)
    · exact Or.inl (Or.inr (Or.inr (Or.inr (Or.inr rest))))
  have launched : ∀ {other}, queue'.Launched other → queue.Launched other ∨ other = e := by
    rintro other (⟨start, now⟩ | ending)
    · rcases fixed now with old | ⟨same, _⟩
      · exact Or.inl (Or.inl ⟨start, old⟩)
      · exact Or.inr same
    · exact Or.inl (Or.inr ending)
  have located : ∀ {other place}, queue'.At other place → queue.At other place ∨
      (other = e ∧ place = .ended) := by
    intro other place here
    cases place with
    | starting => exact Or.inl here
    | moving => exact Or.inl here
    | ending => exact Or.inl here
    | point => exact Or.inl here
    | ended =>
        by_cases same : other = e
        · exact Or.inr ⟨same, rfl⟩
        · exact Or.inl (fun none => here ((ended same).trans none))
  exact { causal with
    issued := fun {other} le => by
      rcases causal.issued le with ⟨noPending, unlaunched, noFlow⟩
      refine ⟨noPending, fun now => ?_, noFlow⟩
      rcases launched now with old | same
      · exact unlaunched old
      · exact absurd issued (not_lt.mpr (same ▸ le))
    waiting := fun {other pending} known now => by
      rcases launched now with old | same
      · exact causal.waiting known old
      · rw [same] at known
        exact Option.some_ne_none _ (known.symm.trans absent)
    unique := fun {other place place'} here there => by
      rcases located here with old | ⟨rfl, rfl⟩
      · rcases located there with old' | ⟨rfl, rfl⟩
        · exact causal.unique old old'
        · exact absurd old (nowhere place)
      · rcases located there with old' | ⟨_, rfl⟩
        · exact absurd old' (nowhere place')
        · rfl
    logged := fun {other} known => by
      by_cases same : other = e
      · rw [same]
        exact ⟨startTime, endTime, List.mem_cons_self⟩
      · rw [ended same] at known
        rcases causal.logged known with ⟨s, u, mem⟩
        exact ⟨s, u, List.mem_cons_of_mem _ mem⟩
    timely := fun {other start} now track d dep => by
      rcases fixed now with old | ⟨rfl, rfl⟩
      · exact endedBy (causal.timely old track d dep)
      · exact endedBy (ready track d dep)
    waits := fun track _ _ _ known dep => (causal.waits track known dep).imp_right endedBy }

/-- Pending events may lose dependencies that have ended by their start, and may be taken out. -/
theorem amendPending (causal : Causal paced exempt queue) {pending : EventId → Option Pending}
    (amends : ∀ {e p'}, pending e = some p' → ∃ p, queue.pending e = some p ∧
      p'.action = p.action ∧
      max p.depEndTime p.arriveTime ≤ max p'.depEndTime p'.arriveTime ∧
      ∀ d, some d ∈ p.dependencies →
        some d ∈ p'.dependencies ∨ queue.EndedBy d (max p'.depEndTime p'.arriveTime)) :
    Causal paced exempt { queue with pending := pending } :=
  { causal with
    issued := fun {e} le => by
      rcases causal.issued le with ⟨noPending, unlaunched, noFlow⟩
      refine ⟨?_, unlaunched, noFlow⟩
      cases known : pending e with
      | none => exact known
      | some p' =>
          rcases amends known with ⟨p, old, _⟩
          exact absurd (old.symm.trans noPending) (Option.some_ne_none p)
    pendingAction := fun known => by
      rcases amends known with ⟨p, old, action, _⟩
      rw [action]
      exact causal.pendingAction old
    waiting := fun known => by
      rcases amends known with ⟨p, old, _⟩
      exact causal.waiting old
    waits := fun track _ _ _ known dep => by
      rcases amends known with ⟨p, old, _, later, keeps⟩
      rcases causal.waits track old dep with waits | ⟨s, u, ended, le⟩
      · exact keeps _ waits
      · exact Or.inr ⟨s, u, ended, le.trans later⟩ }

/-- A pending event without dependencies is released at the start recorded for it. -/
theorem release (causal : Causal paced exempt queue) {e : EventId} {p : Pending}
    (known : queue.pending e = some p) (idle : p.dependencies = ∅) :
    Causal paced exempt { queue with pending := Function.update queue.pending e none } ∧
      ({ queue with pending := Function.update queue.pending e none } : EventQueue).Released paced
        e p.action (max p.depEndTime p.arriveTime) := by
  constructor
  · refine causal.amendPending fun {other p'} mem => ?_
    by_cases same : other = e
    · subst other
      simp at mem
    · simp only [ne_eq, same, not_false_eq_true, Function.update_of_ne] at mem
      exact ⟨p', mem, rfl, le_refl _, fun d dep => Or.inl dep⟩
  · refine ⟨causal.lt_of_pending known, by simp, causal.waiting known,
      causal.pendingAction known, fun track d dep => ?_⟩
    rcases causal.waits track known dep with waits | ended
    · simp [idle] at waits
    · exact ended

/-- An event with a flow in the network moves, ends or has ended. -/
theorem place_of_carries (causal : Causal paced exempt queue) {ref : Netsim.FlowRef} {e : EventId}
    (carries : queue.Carries ref e) {place : Place} (here : queue.At e place) :
    place = .moving ∨ place = .ending ∨ place = .ended := by
  rcases causal.flow_of_carries carries with ⟨flow, known, _⟩
  cases place with
  | starting => exact absurd (known.symm.trans here.1) (Option.some_ne_none flow)
  | moving => exact Or.inl rfl
  | ending => exact Or.inr (Or.inl rfl)
  | point => exact absurd (known.symm.trans (causal.points here)) (Option.some_ne_none flow)
  | ended => exact Or.inr (Or.inr rfl)

/-- Flows complete in the network. -/
theorem move (causal : Causal paced exempt queue) {netsim : Netsim.Simulator}
    {done : List Netsim.FlowRef} (moved : Netsim.Simulator.Moved queue.netsim netsim done) :
    Causal paced exempt { queue with netsim := netsim } ∧
      (∀ {ref e}, ({ queue with netsim := netsim } : EventQueue).Carries ref e ↔
        queue.Carries ref e) := by
  set queue' : EventQueue := { queue with netsim := netsim } with definition
  have carries : ∀ {ref e}, queue'.Carries ref e ↔ queue.Carries ref e := by
    intro ref e
    show ref < netsim.state.nextRef ∧ _ ↔ _
    rw [moved.same.nextRef, moved.same.flow_eq]
    exact Iff.rfl
  have moving : ∀ {e}, queue'.Moving e → queue.Moving e := by
    rintro e ⟨ref, here, notRetired⟩
    refine ⟨ref, carries.mp here, fun old => notRetired ?_⟩
    show ref ∈ netsim.state.retiredFlows
    rw [moved.retired]
    exact List.mem_append_right _ old
  have fixed : ∀ {e start}, queue'.StartFixed e start ↔ queue.StartFixed e start := by
    intro e start
    refine or_congr Iff.rfl (or_congr Iff.rfl (or_congr Iff.rfl (or_congr Iff.rfl
      (exists_congr fun ref => and_congr carries ?_))))
    show start = ((netsim.state.arena ref).ts / 1000 : ℕ) ↔ _
    rw [moved.same.ts_eq]
  have launched : ∀ {e}, queue'.Launched e ↔ queue.Launched e :=
    fun {e} => or_congr (exists_congr fun _ => fixed) Iff.rfl
  have located : ∀ {e place}, queue'.At e place → queue.At e place ∨
      (place = .ending ∧ queue.At e .moving) := by
    intro e place here
    cases place with
    | starting => exact Or.inl here
    | moving => exact Or.inl (moving here)
    | ending =>
        by_cases still : queue.Moving e
        · exact Or.inr ⟨rfl, still⟩
        · exact Or.inl ⟨here.1, still⟩
    | point => exact Or.inl here
    | ended => exact Or.inl here
  refine ⟨{ causal with
    sound := moved.sound
    arrived := fun {ref} lt => ?_
    issued := fun le => ⟨(causal.issued le).1, fun now => (causal.issued le).2.1 (launched.mp now),
      (causal.issued le).2.2⟩
    waiting := fun known now => causal.waiting known (launched.mp now)
    unique := fun {e place place'} here there => ?_
    settled := fun {e ref} ending here => ?_
    timely := fun now => causal.timely (fixed.mp now) }, carries⟩
  · have lt' : ref < netsim.state.nextRef := lt
    rw [moved.same.nextRef] at lt'
    rcases causal.arrived lt' with ⟨e, flow, here, known, same⟩
    exact ⟨e, flow, carries.mpr here, known, same.trans (congrArg _ (moved.same.flow_eq ref)).symm⟩
  · rcases located here with old | ⟨rfl, was⟩
    · rcases located there with old' | ⟨rfl, was'⟩
      · exact causal.unique old old'
      · have same := causal.unique old was'
        subst same
        exact absurd here there.2
    · rcases located there with old' | ⟨rfl, _⟩
      · have same := causal.unique old' was
        subst same
        exact absurd there here.2
      · rfl
  · rcases causal.settled ending (carries.mp here) with retired | exempted
    · refine Or.inl ?_
      show ref ∈ netsim.state.retiredFlows
      rw [moved.retired]
      exact List.mem_append_right _ retired
    · refine Or.inr ?_
      show (netsim.state.arena ref).flow.id ∈ exempt
      rw [moved.same.flow_eq]
      exact exempted

/-- A flow arrives, which may revive completed flows whose end is not recorded. -/
theorem arrive (causal : Causal paced exempt queue) {exempt' : Finset ℕ} {netsim : Netsim.Simulator}
    {record : Netsim.TraceRecord} {e : EventId} {flow : Netsim.Flow}
    {revived : List Netsim.FlowRef}
    (arrived : Netsim.Simulator.Arrived queue.netsim netsim record)
    (retired : queue.netsim.state.retiredFlows = revived ++ netsim.state.retiredFlows)
    (larger : exempt ⊆ exempt')
    (exempts : ∀ ref ∈ revived, (queue.netsim.state.arena ref).flow.id ∈ exempt')
    (open_ : ∀ ref ∈ revived, ∀ e, queue.Carries ref e → queue.ended e = none)
    (token : record.flow.token = some e) (known : queue.eventToFlow e = some flow)
    (id : record.flow.id = flow.id) (absent : queue.pending e = none)
    (unlaunched : ¬queue.Launched e) (ready : queue.Ready paced e (record.ts / 1000 : ℕ)) :
    Causal paced exempt' { queue with netsim := netsim } := by
  set queue' : EventQueue := { queue with netsim := netsim } with definition
  set new := queue.netsim.state.nextRef with newDef
  have carries : ∀ {ref e'}, queue'.Carries ref e' ↔ queue.Carries ref e' ∨
    (ref = new ∧ e' = e) := by
    intro ref e'
    show ref < netsim.state.nextRef ∧ _ ↔ _
    rw [arrived.nextRef, Nat.lt_succ_iff_lt_or_eq]
    constructor
    · rintro ⟨lt | rfl, here⟩
      · have here' : (netsim.state.arena ref).flow.token = some e' := here
        rw [arrived.flow_eq lt] at here'
        exact Or.inl ⟨lt, here'⟩
      · have here' : (netsim.state.arena new).flow.token = some e' := here
        rw [arrived.token, token] at here'
        exact Or.inr ⟨rfl, (Option.some.inj here').symm⟩
    · rintro (⟨lt, here⟩ | ⟨rfl, rfl⟩)
      · refine ⟨Or.inl lt, ?_⟩
        show (netsim.state.arena ref).flow.token = some e'
        rw [arrived.flow_eq lt]
        exact here
      · exact ⟨Or.inr rfl, arrived.token.trans token⟩
  have fixed : ∀ {e' start}, queue'.StartFixed e' start → queue.StartFixed e' start ∨
      (e' = e ∧ start = (record.ts / 1000 : ℕ)) := by
    rintro e' start (mem | mem | here | here | ⟨ref, here, rfl⟩)
    · exact Or.inl (Or.inl mem)
    · exact Or.inl (Or.inr (Or.inl mem))
    · exact Or.inl (.started here)
    · exact Or.inl (Or.inr (Or.inr (Or.inr (Or.inl here))))
    · rcases carries.mp here with old | ⟨rfl, rfl⟩
      · refine Or.inl (Or.inr (Or.inr (Or.inr (Or.inr ⟨ref, old, ?_⟩))))
        show (((netsim.state.arena ref).ts / 1000 : ℕ) : ℤ) = _
        rw [arrived.ts_eq old.1]
      · refine Or.inr ⟨rfl, ?_⟩
        show (((netsim.state.arena new).ts / 1000 : ℕ) : ℤ) = _
        rw [arrived.ts]
  have launched : ∀ {e'}, queue'.Launched e' → queue.Launched e' ∨ e' = e := by
    rintro e' (⟨start, now⟩ | ending)
    · rcases fixed now with old | ⟨same, _⟩
      · exact Or.inl (Or.inl ⟨start, old⟩)
      · exact Or.inr same
    · exact Or.inl (Or.inr ending)
  have moving : ∀ {e'}, queue'.Moving e' → queue.Moving e' ∨
      (e' = e ∨ ∃ ref ∈ revived, queue.Carries ref e') := by
    rintro e' ⟨ref, here, notRetired⟩
    rcases carries.mp here with old | ⟨_, same⟩
    · by_cases was : ref ∈ queue.netsim.state.retiredFlows
      · rw [retired, List.mem_append] at was
        rcases was with back | still
        · exact Or.inr (Or.inr ⟨ref, back, old⟩)
        · exact absurd still notRetired
      · exact Or.inl ⟨ref, old, was⟩
    · exact Or.inr (Or.inl same)
  have stillMoving : ∀ {e'}, queue.Moving e' → queue'.Moving e' := by
    rintro e' ⟨ref, old, notRetired⟩
    refine ⟨ref, carries.mpr (Or.inl old), fun now => notRetired ?_⟩
    rw [retired]
    exact List.mem_append_right _ now
  have located : ∀ {e' place}, queue'.At e' place → queue.At e' place ∨
      (place = .moving ∧ (e' = e ∨ ∃ ref ∈ revived, queue.Carries ref e')) := by
    intro e' place here
    cases place with
    | starting => exact Or.inl here
    | moving => exact (moving here).imp_right fun new => ⟨rfl, new⟩
    | ending => exact Or.inl ⟨here.1, fun was => here.2 (stillMoving was)⟩
    | point => exact Or.inl here
    | ended => exact Or.inl here
  have alone : ∀ {e' place}, (e' = e ∨ ∃ ref ∈ revived, queue.Carries ref e') →
      queue'.Moving e' → queue'.At e' place → place = .moving := by
    intro e' place new isMoving here
    rcases located here with old | ⟨same, _⟩
    · rcases new with rfl | ⟨ref, back, old'⟩
      · exact absurd old (not_at_of_not_launched unlaunched place)
      · rcases causal.place_of_carries old' old with rfl | rfl | rfl
        · rfl
        · exact absurd isMoving here.2
        · exact absurd (open_ ref back e' old') old
    · exact same
  exact { causal with
    sound := arrived.sound
    arrived := fun {ref} lt => by
      have lt' : ref < netsim.state.nextRef := lt
      rw [arrived.nextRef, Nat.lt_succ_iff_lt_or_eq] at lt'
      rcases lt' with old | rfl
      · rcases causal.arrived old with ⟨e', flow', here, known', same⟩
        exact ⟨e', flow', carries.mpr (Or.inl here), known',
          same.trans (congrArg _ (arrived.flow_eq old)).symm⟩
      · exact ⟨e, flow, carries.mpr (Or.inr ⟨rfl, rfl⟩), known, (arrived.id.trans id).symm⟩
    issued := fun {e'} le => by
      rcases causal.issued le with ⟨noPending, unlaunched', noFlow⟩
      refine ⟨noPending, fun now => ?_, noFlow⟩
      rcases launched now with old | rfl
      · exact unlaunched' old
      · exact Option.some_ne_none _ (known.symm.trans noFlow)
    waiting := fun {e' pending} here now => by
      rcases launched now with old | rfl
      · exact causal.waiting here old
      · exact Option.some_ne_none _ (here.symm.trans absent)
    unique := fun {e' place place'} here there => by
      rcases located here with old | ⟨rfl, new⟩
      · rcases located there with old' | ⟨rfl, new⟩
        · exact causal.unique old old'
        · exact alone new there here
      · exact (alone new here there).symm
    settled := fun {e' ref} ending here => by
      rcases carries.mp here with old | ⟨rfl, rfl⟩
      · show ref ∈ netsim.state.retiredFlows ∨ (netsim.state.arena ref).flow.id ∈ exempt'
        rw [arrived.flow_eq old.1]
        rcases causal.settled ending old with was | exempted
        · rw [retired, List.mem_append] at was
          exact was.symm.imp_right (exempts ref)
        · exact Or.inr (larger exempted)
      · exact absurd (Or.inr ending) unlaunched
    timely := fun {e' start} now => by
      rcases fixed now with old | ⟨rfl, rfl⟩
      · exact causal.timely old
      · exact ready }

/-- A flow that is retired needs no exemption. -/
theorem settle (causal : Causal paced exempt queue) {ref : Netsim.FlowRef}
    (lt : ref < queue.netsim.state.nextRef) (retired : ref ∈ queue.netsim.state.retiredFlows) :
    Causal paced (exempt.erase (queue.netsim.state.arena ref).flow.id) queue :=
  { causal with
    settled := fun {e other} ending carries => by
      rcases causal.settled ending carries with was | exempted
      · exact Or.inl was
      · by_cases same : (queue.netsim.state.arena other).flow.id =
            (queue.netsim.state.arena ref).flow.id
        · have equal := causal.sound.ledger.ids carries.1 lt same
          exact Or.inl (equal ▸ retired)
        · exact Or.inr (Finset.mem_erase.mpr ⟨same, exempted⟩) }

end Causal

end EventQueue

end Phantora
