import Phantora.EventQueue.Waits

/-!
# Where events are

No event is ever lost: it waits, is being pushed, has an entry in the priority
queue, is in the network or has ended.
-/

namespace Phantora

open Outcome

namespace EventQueue

variable {platform : Platform} {agenda agenda' : Agenda} {queue queue' : EventQueue}

/-- The places of an event inside a call. -/
inductive Spot where
  | waiting | launching | starting | reaching | moving | completing | ending | finishing | ended

/-- Where an event is; the start entry of a flow does not count. -/
def Spotted (agenda : Agenda) (queue : EventQueue) (e : EventId) : Spot → Prop
  | .waiting => queue.pending e ≠ none
  | .launching => ∃ action time, .launch e action time ∈ agenda
  | .starting => queue.eventToFlow e = none ∧ queue.Queued (.startOf e)
  | .reaching => queue.Queued (.pointOf e)
  | .moving => queue.Moving e
  | .completing => ∃ r appEventTs, .complete r appEventTs ∈ agenda ∧ r.flow.token = some e
  | .ending => queue.Queued (.endOf e)
  | .finishing => ∃ startTime endTime, .finish e startTime endTime ∈ agenda
  | .ended => queue.ended e ≠ none

/-- The event has been launched and the priority queue or a task has seen it. -/
def Engaged (agenda : Agenda) (queue : EventQueue) (e : EventId) : Prop :=
  queue.Queued (.startOf e) ∨ Spotted agenda queue e .ending ∨
    Spotted agenda queue e .finishing ∨ Spotted agenda queue e .ended

/-- No event is lost, an event without a flow is in one place, and a flow that has been
launched is in the network. -/
structure Spots (agenda : Agenda) (queue : EventQueue) : Prop where
  located : ∀ {e}, e < queue.eventCounter → ∃ spot, Spotted agenda queue e spot
  issued : ∀ {e spot}, Spotted agenda queue e spot → e < queue.eventCounter
  unique : ∀ {e spot spot'}, queue.eventToFlow e = none → Spotted agenda queue e spot →
    Spotted agenda queue e spot' → spot = spot'
  carried : ∀ {e}, queue.eventToFlow e ≠ none → Engaged agenda queue e →
    ∃ ref, queue.Carries ref e
  points : ∀ {e}, queue.Queued (.pointOf e) → queue.eventToFlow e = none
  deferred : Agenda.Deferred agenda.tail

theorem queued_pushEntry_of_ne {event other : QueueEvent} {time : ℤ} {counter : ℕ}
    (differs : other ≠ event) :
    (queue.pushEntry event time counter).Queued other ↔ queue.Queued other := by
  rw [queued_pushEntry]
  simp [differs]

theorem queued_erase {event other : QueueEvent} :
    ({ queue with eventQueue := queue.eventQueue.erase event } : EventQueue).Queued other ↔
      queue.Queued other ∧ other ≠ event := by
  simp only [Queued, PriorityQueue.mem_erase]
  constructor
  · rintro ⟨priority, differs, mem⟩
    exact ⟨⟨priority, mem⟩, differs⟩
  · rintro ⟨⟨priority, mem⟩, differs⟩
    exact ⟨priority, differs, mem⟩

theorem queued_erase_of_ne {event other : QueueEvent} (differs : other ≠ event) :
    ({ queue with eventQueue := queue.eventQueue.erase event } : EventQueue).Queued other ↔
      queue.Queued other := by
  rw [queued_erase]
  simp [differs]

namespace Spots

variable {r : Netsim.TraceRecord} {appEventTs : ℕ}

theorem not_launching (spots : Spots agenda queue) {e : EventId}
    {action : Option Action} {time : ℤ} :
    Task.launch e action time ∉ agenda.tail :=
  fun mem => spots.deferred _ mem

theorem not_finishing (spots : Spots agenda queue) {e : EventId} {startTime endTime : ℤ} :
    Task.finish e startTime endTime ∉ agenda.tail :=
  fun mem => spots.deferred _ mem

/-- The timeline plays no part. -/
theorem record (spots : Spots agenda queue) (e : EventId) (action : Action) :
    Spots agenda (queue.recordTimelineAction e action) :=
  ⟨spots.located, spots.issued, spots.unique, spots.carried, spots.points, spots.deferred⟩

/-- Only the places of flows change. -/
theorem keep (spots : Spots agenda queue) (flows : Flows agenda queue)
    (eventToFlow : queue'.eventToFlow = queue.eventToFlow)
    (eventCounter : queue'.eventCounter = queue.eventCounter)
    (kept : ∀ other spot, Spotted agenda queue other spot →
      Spotted agenda' queue' other spot ∨ ∃ spot', Spotted agenda' queue' other spot')
    (old : ∀ other spot, queue.eventToFlow other = none → Spotted agenda' queue' other spot →
      Spotted agenda queue other spot)
    (carries : ∀ {ref other}, queue.Carries ref other → queue'.Carries ref other)
    (engaged : ∀ other, queue.eventToFlow other ≠ none → Engaged agenda' queue' other →
      Engaged agenda queue other ∨ ∃ ref, queue.Carries ref other)
    (deferred : Agenda.Deferred agenda'.tail)
    (points : ∀ other, queue'.Queued (.pointOf other) → queue.Queued (.pointOf other)) :
    Spots agenda' queue' := by
  constructor
  · intro other lt
    rw [eventCounter] at lt
    rcases spots.located lt with ⟨spot, here⟩
    rcases kept other spot here with same | moved
    · exact ⟨spot, same⟩
    · exact moved
  · intro other spot here
    rw [eventCounter]
    by_cases isFlow : queue.eventToFlow other = none
    · exact spots.issued (old other spot isFlow here)
    · exact flows.lt_of_flow isFlow
  · intro other spot spot' noFlow here there
    rw [eventToFlow] at noFlow
    exact spots.unique noFlow (old other spot noFlow here) (old other spot' noFlow there)
  · intro other isFlow
    rw [eventToFlow] at isFlow
    intro here
    have before : ∃ ref, queue.Carries ref other := by
      rcases engaged other isFlow here with old | carried
      · exact spots.carried isFlow old
      · exact carried
    exact before.imp fun _ => carries
  · intro other queued
    rw [eventToFlow]
    exact spots.points (points other queued)
  · exact deferred

/-- One event moves from one place to another. -/
theorem shift (spots : Spots agenda queue) (e : EventId) (src dst : Spot)
    (eventToFlow : queue'.eventToFlow = queue.eventToFlow)
    (eventCounter : queue'.eventCounter = queue.eventCounter)
    (there : Spotted agenda queue e src)
    (same : ∀ other spot, spot ≠ src → spot ≠ dst →
      (Spotted agenda' queue' other spot ↔ Spotted agenda queue other spot))
    (leaves : ∀ other, Spotted agenda' queue' other src ↔
      Spotted agenda queue other src ∧ other ≠ e)
    (enters : ∀ other, Spotted agenda' queue' other dst ↔
      Spotted agenda queue other dst ∨ other = e)
    (differ : src ≠ dst)
    (carries : ∀ {ref other}, queue.Carries ref other → queue'.Carries ref other)
    (engaged : ∀ other, queue.eventToFlow other ≠ none → Engaged agenda' queue' other →
      Engaged agenda queue other ∨ ∃ ref, queue.Carries ref other)
    (deferred : Agenda.Deferred agenda'.tail)
    (points : ∀ other, queue'.Queued (.pointOf other) → queue.eventToFlow other = none) :
    Spots agenda' queue' := by
  have old : ∀ other spot, Spotted agenda' queue' other spot →
      (other = e ∧ spot = dst) ∨ (Spotted agenda queue other spot ∧ ¬(other = e ∧ spot = src)) := by
    intro other spot here
    by_cases isSrc : spot = src
    · subst spot
      rcases (leaves other).mp here with ⟨old, differs⟩
      exact Or.inr ⟨old, fun both => differs both.1⟩
    · by_cases isDst : spot = dst
      · subst spot
        rcases (enters other).mp here with old | rfl
        · exact Or.inr ⟨old, fun both => isSrc both.2⟩
        · exact Or.inl ⟨rfl, rfl⟩
      · exact Or.inr ⟨(same other spot isSrc isDst).mp here, fun both => isSrc both.2⟩
  constructor
  · intro other lt
    rw [eventCounter] at lt
    rcases spots.located lt with ⟨spot, here⟩
    by_cases moved : other = e
    · exact ⟨dst, (enters other).mpr (Or.inr moved)⟩
    · by_cases isSrc : spot = src
      · subst spot
        exact ⟨src, (leaves other).mpr ⟨here, moved⟩⟩
      · by_cases isDst : spot = dst
        · subst spot
          exact ⟨dst, (enters other).mpr (Or.inl here)⟩
        · exact ⟨spot, (same other spot isSrc isDst).mpr here⟩
  · intro other spot here
    rw [eventCounter]
    rcases old other spot here with ⟨rfl, _⟩ | ⟨before, _⟩
    · exact spots.issued there
    · exact spots.issued before
  · intro other spot spot' noFlow here here'
    rw [eventToFlow] at noFlow
    rcases old other spot here with ⟨rfl, rfl⟩ | ⟨before, stays⟩
    · rcases old other spot' here' with ⟨_, rfl⟩ | ⟨before', stays'⟩
      · rfl
      · exact absurd ⟨rfl, spots.unique noFlow before' there⟩ stays'
    · rcases old other spot' here' with ⟨rfl, rfl⟩ | ⟨before', _⟩
      · exact absurd ⟨rfl, spots.unique noFlow before there⟩ stays
      · exact spots.unique noFlow before before'
  · intro other isFlow
    rw [eventToFlow] at isFlow
    intro here
    have before : ∃ ref, queue.Carries ref other := by
      rcases engaged other isFlow here with old | carried
      · exact spots.carried isFlow old
      · exact carried
    exact before.imp fun _ => carries
  · intro other queued
    rw [eventToFlow]
    exact points other queued
  · exact deferred

/-- A pending event is released. -/
theorem release {e : EventId} (spots : Spots (.release e :: agenda) queue) {p : Pending}
    {action : Option Action} {time : ℤ} (known : queue.pending e = some p) :
    Spots (.launch e action time :: agenda)
      { queue with pending := Function.update queue.pending e none } := by
  have unlaunched : ∀ other action time, Task.launch other action time ∉ agenda :=
    fun _ _ _ => spots.not_launching
  refine spots.shift e .waiting .launching rfl rfl ?_ ?_ ?_ ?_ (by simp) (fun here => here) ?_
    spots.deferred (fun _ queued => spots.points queued)
  · exact fun absent => Option.some_ne_none p (known.symm.trans absent)
  · intro other spot notSrc notDst
    cases spot with
    | waiting => exact absurd rfl notSrc
    | launching => exact absurd rfl notDst
    | completing => simp [Spotted]
    | finishing => simp [Spotted]
    | _ => exact Iff.rfl
  · intro other
    by_cases same : other = e <;> simp [Spotted, same]
  · intro other
    simp [Spotted, unlaunched, eq_comm]
  · intro other _ here
    exact Or.inl (here.imp_right (Or.imp_right (Or.imp_left (by simp [Spotted]))))

/-- A point is queued. -/
theorem point {e : EventId} {time : ℤ} (spots : Spots (.launch e none time :: agenda) queue)
    (flows : Flows (.launch e none time :: agenda) queue) (counter : ℕ) :
    Spots agenda (queue.pushEntry (.pointOf e) time counter) := by
  have unlaunched : ∀ other action time, Task.launch other action time ∉ agenda :=
    fun _ _ _ => spots.not_launching
  have launched := flows.launch List.mem_cons_self
  refine spots.shift e .launching .reaching rfl rfl ?_ ?_ ?_ ?_ (by simp) (fun here => here) ?_
    (fun task mem => spots.deferred task (List.mem_of_mem_tail mem)) ?_
  · exact ⟨none, time, List.mem_cons_self⟩
  · intro other spot notSrc notDst
    cases spot with
    | launching => exact absurd rfl notSrc
    | reaching => exact absurd rfl notDst
    | starting => exact and_congr Iff.rfl (queued_pushEntry_of_ne (by simp))
    | completing => simp [Spotted]
    | finishing => simp [Spotted]
    | ending => exact queued_pushEntry_of_ne (by simp)
    | _ => exact Iff.rfl
  · intro other
    simp [Spotted, unlaunched, eq_comm]
  · intro other
    simp [Spotted, queued_pushEntry, or_comm]
  · intro other _ here
    refine Or.inl (here.imp (queued_pushEntry_of_ne (by simp)).mp ?_)
    exact Or.imp (queued_pushEntry_of_ne (by simp)).mp (Or.imp_left (by simp [Spotted]))
  · intro other queued
    rcases queued_pushEntry.mp queued with same | queued
    · cases same
      exact launched.1
    · exact spots.points queued

/-- The start of a computation is queued. -/
theorem compute {e : EventId} {node : HostId} {duration time : ℤ} {info : ComputeMeta}
    (spots : Spots (.launch e (some (.computation node duration info)) time :: agenda) queue)
    (flows : Flows (.launch e (some (.computation node duration info)) time :: agenda) queue)
    (counter : ℕ) :
    Spots agenda (queue.pushStart e (.computation node duration info) time counter) := by
  have unlaunched : ∀ other action time, Task.launch other action time ∉ agenda :=
    fun _ _ _ => spots.not_launching
  have launched := flows.launch List.mem_cons_self
  refine spots.shift e .launching .starting rfl rfl ?_ ?_ ?_ ?_ (by simp) (fun here => here) ?_
    (fun task mem => spots.deferred task (List.mem_of_mem_tail mem)) ?_
  · exact ⟨_, time, List.mem_cons_self⟩
  · intro other spot notSrc notDst
    cases spot with
    | launching => exact absurd rfl notSrc
    | starting => exact absurd rfl notDst
    | reaching => exact queued_pushEntry_of_ne (by simp)
    | completing => simp [Spotted]
    | finishing => simp [Spotted]
    | ending => exact queued_pushEntry_of_ne (by simp)
    | _ => exact Iff.rfl
  · intro other
    simp [Spotted, unlaunched, eq_comm]
  · intro other
    constructor
    · rintro ⟨noFlow, queued⟩
      rcases queued_pushEntry.mp queued with same | queued
      · cases same
        exact Or.inr rfl
      · exact Or.inl ⟨noFlow, queued⟩
    · rintro (⟨noFlow, queued⟩ | rfl)
      · exact ⟨noFlow, queued_pushEntry.mpr (Or.inr queued)⟩
      · exact ⟨launched.1, queued_pushEntry.mpr (Or.inl rfl)⟩
  · intro other isFlow here
    have differs : QueueEvent.startOf other ≠ .startOf e := by
      rintro same
      cases same
      exact isFlow launched.1
    refine Or.inl (here.imp (queued_pushEntry_of_ne differs).mp ?_)
    exact Or.imp (queued_pushEntry_of_ne (by simp)).mp (Or.imp_left (by simp [Spotted]))
  · intro other queued
    exact spots.points ((queued_pushEntry_of_ne (by simp)).mp queued)

/-- A flow arrives in the network. -/
theorem arrive {e : EventId} {flow : Netsim.Flow} {info : CommMeta} {time : ℤ}
    (spots : Spots (.launch e (some (.communication flow info)) time :: agenda) queue)
    (flows : Flows (.launch e (some (.communication flow info)) time :: agenda) queue)
    {netsim : Netsim.Simulator} {result : Netsim.OnEventResult}
    (arrival : queue.netsim.onEvent (.flowArrive [flowRecord e flow time]) = .ok (netsim, result)) :
    Spots (.board e { flow with token := some e } info time :: agenda)
      { queue with netsim := netsim } := by
  have unlaunched : ∀ other action time, Task.launch other action time ∉ agenda :=
    fun _ _ _ => spots.not_launching
  have launched := flows.launch List.mem_cons_self
  rcases Netsim.Simulator.flowArrive_eq_ok flows.sound (flows.newId launched.1 launched.2.2)
    arrival with ⟨arrived, onTime⟩
  have fewer : ∀ ref ∈ netsim.state.retiredFlows, ref ∈ queue.netsim.state.retiredFlows := by
    intro ref mem
    rcases onTime with ⟨_, _, _, same⟩ | ⟨_, _, revived, split, _⟩
    · exact same ▸ mem
    · exact split ▸ List.mem_append_right _ mem
  have new : Spotted (.board e { flow with token := some e } info time :: agenda)
      { queue with netsim := netsim } e .moving := by
    refine ⟨_, (carries_arrived arrived).mpr (Or.inr ⟨rfl, rfl⟩), ?_⟩
    intro mem
    exact Nat.lt_irrefl _ (flows.sound.ledger.retired_lt (fewer _ mem))
  refine spots.keep flows rfl rfl ?_ ?_ (fun here => (carries_arrived arrived).mpr (Or.inl here))
    ?_ spots.deferred (fun _ queued => queued)
  · intro other spot here
    cases spot with
    | launching =>
        rcases here with ⟨action, time', mem⟩
        rcases List.mem_cons.mp mem with same | mem
        · cases same
          exact Or.inr ⟨.moving, new⟩
        · exact absurd mem (unlaunched _ _ _)
    | moving =>
        rcases here with ⟨ref, carries, moves⟩
        exact Or.inl ⟨ref, (carries_arrived arrived).mpr (Or.inl carries),
          fun mem => moves (fewer ref mem)⟩
    | completing => exact Or.inl (by simpa [Spotted] using here)
    | finishing => exact Or.inl (by simpa [Spotted] using here)
    | _ => exact Or.inl here
  · intro other spot noFlow here
    cases spot with
    | launching =>
        rcases here with ⟨action, time', mem⟩
        exact absurd (List.mem_of_ne_of_mem (by simp) mem) (unlaunched _ _ _)
    | moving =>
        rcases here with ⟨ref, carries, _⟩
        rcases (carries_arrived arrived).mp carries with old | ⟨_, rfl⟩
        · exact absurd old (flows.not_carries noFlow ref)
        · exact absurd (launched.1.symm.trans noFlow) (Option.some_ne_none flow)
    | completing => simpa [Spotted] using here
    | finishing => simpa [Spotted] using here
    | _ => exact here
  · intro other _ here
    exact Or.inl (here.imp_right (Or.imp_right (Or.imp_left (by simp [Spotted]))))

/-- The start of a flow is queued. -/
theorem board {e : EventId} {flow : Netsim.Flow} {info : CommMeta} {time : ℤ}
    (spots : Spots (.board e flow info time :: agenda) queue)
    (flows : Flows (.board e flow info time :: agenda) queue) (counter : ℕ) :
    Spots agenda (queue.pushStart e (.communication flow info) time counter) := by
  rcases flows.board List.mem_cons_self with ⟨ref, carries, _⟩
  rcases flows.flow_of_carries carries with ⟨flow', isFlow, _⟩
  have differs : ∀ {other}, queue.eventToFlow other = none →
      QueueEvent.startOf other ≠ .startOf e := by
    rintro other noFlow same
    cases same
    exact Option.some_ne_none _ (isFlow.symm.trans noFlow)
  refine spots.keep flows rfl rfl ?_ ?_ (fun here => here) ?_
    (fun task mem => spots.deferred task (List.mem_of_mem_tail mem)) ?_
  · intro other spot here
    refine Or.inl ?_
    cases spot with
    | launching => simpa [Spotted] using here
    | completing => simpa [Spotted] using here
    | finishing => simpa [Spotted] using here
    | starting => exact ⟨here.1, queued_pushEntry.mpr (Or.inr here.2)⟩
    | reaching => exact queued_pushEntry.mpr (Or.inr here)
    | ending => exact queued_pushEntry.mpr (Or.inr here)
    | _ => exact here
  · intro other spot noFlow here
    cases spot with
    | launching => simpa [Spotted] using here
    | completing => simpa [Spotted] using here
    | finishing => simpa [Spotted] using here
    | starting => exact ⟨here.1, (queued_pushEntry_of_ne (differs noFlow)).mp here.2⟩
    | reaching => exact (queued_pushEntry_of_ne (by simp)).mp here
    | ending => exact (queued_pushEntry_of_ne (by simp)).mp here
    | _ => exact here
  · intro other _ here
    rcases here with queued | here
    · rcases queued_pushEntry.mp queued with same | queued
      · cases same
        exact Or.inr ⟨ref, carries⟩
      · exact Or.inl (Or.inl queued)
    · refine Or.inl (Or.inr ?_)
      exact here.imp (queued_pushEntry_of_ne (by simp)).mp (Or.imp_left (by simp [Spotted]))
  · intro other queued
    exact (queued_pushEntry_of_ne (by simp)).mp queued

/-- A flow has completed before its start is queued. -/
theorem landed {e : EventId} {flow : Netsim.Flow} {info : CommMeta} {time : ℤ}
    (spots : Spots (.board e flow info time :: agenda) queue)
    (flows : Flows (.board e flow info time :: agenda) queue) : Spots agenda queue := by
  refine spots.keep flows rfl rfl ?_ ?_ (fun here => here) ?_
    (fun task mem => spots.deferred task (List.mem_of_mem_tail mem)) (fun _ queued => queued)
  · intro other spot here
    refine Or.inl ?_
    cases spot with
    | launching => simpa [Spotted] using here
    | completing => simpa [Spotted] using here
    | finishing => simpa [Spotted] using here
    | _ => exact here
  · intro other spot _ here
    cases spot with
    | launching => simpa [Spotted] using here
    | completing => simpa [Spotted] using here
    | finishing => simpa [Spotted] using here
    | _ => exact here
  · intro other _ here
    exact Or.inl (here.imp_right (Or.imp_right (Or.imp_left (by simp [Spotted]))))

/-- The network moves on. -/
theorem move (spots : Spots agenda queue) (flows : Flows agenda queue)
    {netsim : Netsim.Simulator} {records : List Netsim.TraceRecord} (waiting : agenda.Deferred)
    (stepped : queue.netsim.runOneStep platform none =
      .ok (netsim, ⟨appEventTs, .flowComplete records⟩)) :
    Spots (records.map (.complete · appEventTs) ++ agenda) { queue with netsim := netsim } := by
  rcases move_eq_ok flows.sound stepped with ⟨done, moved, _, rfl, _⟩
  refine spots.keep flows rfl rfl ?_ ?_ (carries_moved moved).mpr ?_ ?_
    (fun _ queued => queued)
  · intro other spot here
    cases spot with
    | moving =>
        rcases here with ⟨ref, carries, moves⟩
        by_cases isDone : ref ∈ done
        · refine Or.inr ⟨.completing, _, appEventTs, List.mem_append_left _ (List.mem_map_of_mem
            (List.mem_map_of_mem isDone)), ?_⟩
          simp only [Netsim.NetState.completionRecord, moved.same.flow_eq]
          exact carries.2
        · refine Or.inl ⟨ref, (carries_moved moved).mpr carries, ?_⟩
          show ref ∉ netsim.state.retiredFlows
          rw [moved.retired, List.mem_append, List.mem_reverse]
          exact not_or.mpr ⟨isDone, moves⟩
    | launching => exact Or.inl (by simpa [Spotted] using here)
    | finishing => exact Or.inl (by simpa [Spotted] using here)
    | completing =>
        rcases here with ⟨r, ts, mem, token⟩
        exact Or.inl ⟨r, ts, List.mem_append_right _ mem, token⟩
    | _ => exact Or.inl here
  · intro other spot noFlow here
    cases spot with
    | moving =>
        rcases here with ⟨ref, carries, _⟩
        exact absurd ((carries_moved moved).mp carries) (flows.not_carries noFlow ref)
    | launching => simpa [Spotted] using here
    | finishing => simpa [Spotted] using here
    | completing =>
        rcases here with ⟨r, ts, mem, token⟩
        rcases List.mem_append.mp mem with mem | mem
        · rcases List.mem_map.mp mem with ⟨r', isRecord, same⟩
          cases same
          rcases List.mem_map.mp isRecord with ⟨ref, isDone, rfl⟩
          simp only [Netsim.NetState.completionRecord, moved.same.flow_eq] at token
          have lt : ref < queue.netsim.state.nextRef := by
            rw [← moved.same.nextRef]
            refine moved.sound.ledger.retired_lt ?_
            rw [moved.retired]
            exact List.mem_append_left _ (List.mem_reverse.mpr isDone)
          exact absurd ⟨lt, token⟩ (flows.not_carries noFlow ref)
        · exact ⟨r, ts, mem, token⟩
    | _ => exact here
  · intro other _ here
    exact Or.inl (here.imp_right (Or.imp_right (Or.imp_left (by simp [Spotted]))))
  · intro task mem
    exact waiting.map (.complete · appEventTs) (fun _ => trivial) _ task
      (List.mem_of_mem_tail mem)

/-- The end of a completed flow is queued. -/
theorem complete {e : EventId} (spots : Spots (.complete r appEventTs :: agenda) queue)
    (flows : Flows (.complete r appEventTs :: agenda) queue) (started : EventId → Option ℤ)
    (time : ℤ) (counter : ℕ) (token : r.flow.token = some e) :
    Spots agenda ({ queue with started := started }.pushEntry (.endOf e) time counter) := by
  rcases flows.complete List.mem_cons_self with ⟨ref, e', carries, token', _⟩
  have equal : e' = e := Option.some.inj (token'.symm.trans token)
  subst equal
  refine spots.keep flows rfl rfl ?_ ?_ (fun here => here) ?_
    (fun task mem => spots.deferred task (List.mem_of_mem_tail mem)) ?_
  · intro other spot here
    cases spot with
    | completing =>
        rcases here with ⟨r', ts, mem, token''⟩
        rcases List.mem_cons.mp mem with same | mem
        · cases same
          rw [Option.some.inj (token''.symm.trans token)]
          exact Or.inr ⟨.ending, queued_pushEntry.mpr (Or.inl rfl)⟩
        · exact Or.inl ⟨r', ts, mem, token''⟩
    | launching => exact Or.inl (by simpa [Spotted] using here)
    | finishing => exact Or.inl (by simpa [Spotted] using here)
    | starting => exact Or.inl ⟨here.1, queued_pushEntry.mpr (Or.inr here.2)⟩
    | reaching => exact Or.inl (queued_pushEntry.mpr (Or.inr here))
    | ending => exact Or.inl (queued_pushEntry.mpr (Or.inr here))
    | _ => exact Or.inl here
  · intro other spot noFlow here
    cases spot with
    | completing =>
        rcases here with ⟨r', ts, mem, token''⟩
        exact ⟨r', ts, List.mem_cons_of_mem _ mem, token''⟩
    | launching => simpa [Spotted] using here
    | finishing => simpa [Spotted] using here
    | starting => exact ⟨here.1, (queued_pushEntry_of_ne (by simp)).mp here.2⟩
    | reaching => exact (queued_pushEntry_of_ne (by simp)).mp here
    | ending =>
        rcases queued_pushEntry.mp here with same | queued
        · cases same
          exact absurd carries (flows.not_carries noFlow ref)
        · exact queued
    | _ => exact here
  · intro other _ here
    rcases here with queued | queued | here
    · exact Or.inl (Or.inl ((queued_pushEntry_of_ne (by simp)).mp queued))
    · rcases queued_pushEntry.mp queued with same | queued
      · cases same
        exact Or.inr ⟨ref, carries⟩
      · exact Or.inl (Or.inr (Or.inl queued))
    · exact Or.inl (Or.inr (Or.inr (here.imp_left (by simp [Spotted]))))
  · intro other queued
    exact (queued_pushEntry_of_ne (by simp)).mp queued

/-- The completed flow of an event that has not boarded yet. -/
theorem arrived (spots : Spots (.complete r appEventTs :: agenda) queue)
    (flows : Flows (.complete r appEventTs :: agenda) queue) {e : EventId} {flow : Netsim.Flow}
    {info : CommMeta} {time : ℤ} (same : r.flow.id = flow.id)
    (boards : Task.board e flow info time ∈ agenda) :
    Spots (.finish e time (appEventTs / 1000 : ℕ) :: agenda) queue := by
  rcases flows.complete List.mem_cons_self with ⟨ref, e', carries, token, sameId⟩
  rcases flows.board (List.mem_cons_of_mem _ boards) with ⟨ref', carries', sameId'⟩
  have equal : e' = e := flows.event_unique carries carries' (by rw [sameId, same, sameId'])
  subst equal
  refine spots.keep flows rfl rfl ?_ ?_ (fun here => here) ?_ spots.deferred
    (fun _ queued => queued)
  · intro other spot here
    cases spot with
    | completing =>
        rcases here with ⟨r', ts, mem, token'⟩
        rcases List.mem_cons.mp mem with same | mem
        · cases same
          rw [Option.some.inj (token'.symm.trans token)]
          exact Or.inr ⟨.finishing, _, _, List.mem_cons_self⟩
        · exact Or.inl ⟨r', ts, List.mem_cons_of_mem _ mem, token'⟩
    | launching => exact Or.inl (by simpa [Spotted] using here)
    | finishing =>
        rcases here with ⟨startTime, endTime, mem⟩
        exact Or.inl ⟨startTime, endTime,
          List.mem_cons_of_mem _ (List.mem_of_ne_of_mem (by simp) mem)⟩
    | _ => exact Or.inl here
  · intro other spot noFlow here
    cases spot with
    | completing =>
        rcases here with ⟨r', ts, mem, token'⟩
        exact ⟨r', ts, List.mem_cons_of_mem _ (List.mem_of_ne_of_mem (by simp) mem), token'⟩
    | launching => simpa [Spotted] using here
    | finishing =>
        rcases here with ⟨startTime, endTime, mem⟩
        rcases List.mem_cons.mp mem with same | mem
        · cases same
          exact absurd carries (flows.not_carries noFlow ref)
        · exact ⟨startTime, endTime, List.mem_cons_of_mem _ mem⟩
    | _ => exact here
  · intro other _ here
    rcases here with queued | queued | ⟨startTime, endTime, mem⟩ | ended
    · exact Or.inl (Or.inl queued)
    · exact Or.inl (Or.inr (Or.inl queued))
    · rcases List.mem_cons.mp mem with same | mem
      · cases same
        exact Or.inr ⟨ref, carries⟩
      · exact absurd mem spots.not_finishing
    · exact Or.inl (Or.inr (Or.inr (Or.inr ended)))

/-- A point is reached. -/
theorem reach (spots : Spots [] queue) {e : EventId} (time : ℤ)
    (queued : queue.Queued (.pointOf e)) :
    Spots [.finish e time time] { queue with
      eventQueue := queue.eventQueue.erase (.pointOf e) } := by
  refine spots.shift e .reaching .finishing rfl rfl queued ?_ ?_ ?_ (by simp) (fun here => here)
    ?_ Agenda.deferred_nil ?_
  · intro other spot notSrc notDst
    cases spot with
    | reaching => exact absurd rfl notSrc
    | finishing => exact absurd rfl notDst
    | starting => exact and_congr Iff.rfl (queued_erase_of_ne (by simp))
    | ending => exact queued_erase_of_ne (by simp)
    | launching => simp [Spotted]
    | completing => simp [Spotted]
    | _ => exact Iff.rfl
  · intro other
    exact queued_erase.trans (and_congr Iff.rfl (by simp))
  · intro other
    simp [Spotted]
  · intro other isFlow here
    rcases here with queued' | queued' | ⟨startTime, endTime, mem⟩ | ended
    · exact Or.inl (Or.inl (queued_erase.mp queued').1)
    · exact Or.inl (Or.inr (Or.inl (queued_erase.mp queued').1))
    · cases List.mem_singleton.mp mem
      exact absurd (spots.points queued) isFlow
    · exact Or.inl (Or.inr (Or.inr (Or.inr ended)))
  · intro other queued'
    exact spots.points (queued_erase.mp queued').1

/-- The end of an action is reached. -/
theorem stop (spots : Spots [] queue) {e : EventId} (startTime time : ℤ)
    (queued : queue.Queued (.endOf e)) :
    Spots [.finish e startTime time] { queue with
      eventQueue := queue.eventQueue.erase (.endOf e)
      started := Function.update queue.started e none } := by
  refine spots.shift e .ending .finishing rfl rfl queued ?_ ?_ ?_ (by simp) (fun here => here)
    ?_ Agenda.deferred_nil ?_
  · intro other spot notSrc notDst
    cases spot with
    | ending => exact absurd rfl notSrc
    | finishing => exact absurd rfl notDst
    | starting => exact and_congr Iff.rfl (queued_erase_of_ne (by simp))
    | reaching => exact queued_erase_of_ne (by simp)
    | launching => simp [Spotted]
    | completing => simp [Spotted]
    | _ => exact Iff.rfl
  · intro other
    exact queued_erase.trans (and_congr Iff.rfl (by simp))
  · intro other
    simp [Spotted]
  · intro other isFlow here
    rcases here with queued' | queued' | ⟨startTime, endTime, mem⟩ | ended
    · exact Or.inl (Or.inl (queued_erase.mp queued').1)
    · exact Or.inl (Or.inr (Or.inl (queued_erase.mp queued').1))
    · cases List.mem_singleton.mp mem
      exact Or.inl (Or.inr (Or.inl queued))
    · exact Or.inl (Or.inr (Or.inr (Or.inr ended)))
  · intro other queued'
    exact spots.points (queued_erase.mp queued').1

/-- A computation starts. -/
theorem startComputation (spots : Spots [] queue) (flows : Flows [] queue) {e : EventId}
    (time endTime : ℤ) (counter : ℕ) (queued : queue.Queued (.startOf e)) :
    Spots [] { queue with
      eventQueue := (queue.eventQueue.erase (.startOf e)).push (.endOf e) (toLex (endTime, counter))
      inQueueNotStarted := Function.update queue.inQueueNotStarted e none
      started := Function.update queue.started e (some time) } := by
  have entries : ∀ event, ({ queue with
      eventQueue := (queue.eventQueue.erase (.startOf e)).push (.endOf e) (toLex (endTime, counter))
      inQueueNotStarted := Function.update queue.inQueueNotStarted e none
      started := Function.update queue.started e (some time) } : EventQueue).Queued event ↔
      event = .endOf e ∨ (queue.Queued event ∧ event ≠ .startOf e) :=
    fun event => queued_pushEntry.trans (or_congr Iff.rfl queued_erase)
  have engaged : ∀ other, Engaged [] { queue with
      eventQueue := (queue.eventQueue.erase (.startOf e)).push (.endOf e) (toLex (endTime, counter))
      inQueueNotStarted := Function.update queue.inQueueNotStarted e none
      started := Function.update queue.started e (some time) } other → Engaged [] queue other := by
    intro other here
    rcases here with queued' | queued' | here
    · rcases (entries _).mp queued' with same | ⟨old, _⟩
      · cases same
      · exact Or.inl old
    · rcases (entries _).mp queued' with same | ⟨old, _⟩
      · cases same
        exact Or.inl queued
      · exact Or.inr (Or.inl old)
    · exact Or.inr (Or.inr here)
  have points : ∀ other, ({ queue with
      eventQueue := (queue.eventQueue.erase (.startOf e)).push (.endOf e) (toLex (endTime, counter))
      inQueueNotStarted := Function.update queue.inQueueNotStarted e none
      started := Function.update queue.started e (some time) } : EventQueue).Queued
        (.pointOf other) ↔ queue.Queued (.pointOf other) := by
    intro other
    rw [entries]
    simp
  by_cases noFlow : queue.eventToFlow e = none
  · refine spots.shift e .starting .ending rfl rfl ⟨noFlow, queued⟩ ?_ ?_ ?_ (by simp)
      (fun here => here) (fun other _ here => Or.inl (engaged other here)) Agenda.deferred_nil ?_
    · intro other spot notSrc notDst
      cases spot with
      | starting => exact absurd rfl notSrc
      | ending => exact absurd rfl notDst
      | reaching => exact points other
      | _ => exact Iff.rfl
    · intro other
      refine (and_congr Iff.rfl (entries _)).trans ?_
      simp [Spotted, and_assoc]
    · intro other
      refine (entries _).trans ?_
      simp [Spotted, or_comm]
    · intro other queued'
      exact spots.points ((points other).mp queued')
  · refine spots.keep flows rfl rfl ?_ ?_ (fun here => here)
      (fun other _ here => Or.inl (engaged other here)) Agenda.deferred_nil
      (fun other queued' => (points other).mp queued')
    · intro other spot here
      refine Or.inl ?_
      cases spot with
      | starting =>
          refine ⟨here.1, (entries _).mpr (Or.inr ⟨here.2, ?_⟩)⟩
          rintro same
          cases same
          exact noFlow here.1
      | ending => exact (entries _).mpr (Or.inr ⟨here, by simp⟩)
      | reaching => exact (points other).mpr here
      | _ => exact here
    · intro other spot noFlow' here
      cases spot with
      | starting =>
          rcases (entries _).mp here.2 with same | ⟨old, _⟩
          · cases same
          · exact ⟨here.1, old⟩
      | ending =>
          rcases (entries _).mp here with same | ⟨old, _⟩
          · cases same
            exact absurd noFlow' noFlow
          · exact old
      | reaching => exact (points other).mp here
      | _ => exact here

/-- A flow starts, which has long been in the network. -/
theorem startFlow (spots : Spots [] queue) (flows : Flows [] queue) {e : EventId} (time : ℤ)
    (isFlow : queue.eventToFlow e ≠ none) :
    Spots [] { queue with
      eventQueue := queue.eventQueue.erase (.startOf e)
      inQueueNotStarted := Function.update queue.inQueueNotStarted e none
      started := Function.update queue.started e (some time) } := by
  refine spots.keep flows rfl rfl ?_ ?_ (fun here => here) ?_ Agenda.deferred_nil
    (fun _ queued => (queued_erase.mp queued).1)
  · intro other spot here
    refine Or.inl ?_
    cases spot with
    | starting =>
        refine ⟨here.1, queued_erase.mpr ⟨here.2, ?_⟩⟩
        rintro same
        cases same
        exact isFlow here.1
    | reaching => exact queued_erase.mpr ⟨here, by simp⟩
    | ending => exact queued_erase.mpr ⟨here, by simp⟩
    | _ => exact here
  · intro other spot _ here
    cases spot with
    | starting => exact ⟨here.1, (queued_erase.mp here.2).1⟩
    | reaching => exact (queued_erase.mp here).1
    | ending => exact (queued_erase.mp here).1
    | _ => exact here
  · intro other _ here
    exact Or.inl (here.imp (fun queued => (queued_erase.mp queued).1)
      (Or.imp_left fun queued => (queued_erase.mp queued).1))

/-- The end of an event is recorded. -/
theorem finish {e : EventId} {startTime endTime : ℤ}
    (spots : Spots (.finish e startTime endTime :: agenda) queue)
    {pending : EventId → Option Pending} {released : List EventId}
    (noted : Noted queue e endTime pending released) :
    Spots (released.map .release ++ agenda)
      { queue.finished e startTime endTime with pending := pending } := by
  have unfinished : ∀ other startTime endTime, Task.finish other startTime endTime ∉ agenda :=
    fun _ _ _ => spots.not_finishing
  refine spots.shift e .finishing .ended rfl rfl ?_ ?_ ?_ ?_ (by simp) (fun here => here) ?_ ?_
    (fun _ queued => spots.points queued)
  · exact ⟨startTime, endTime, List.mem_cons_self⟩
  · intro other spot notSrc notDst
    cases spot with
    | finishing => exact absurd rfl notSrc
    | ended => exact absurd rfl notDst
    | waiting => exact not_congr (noted.eq_none_iff other)
    | launching => simp [Spotted]
    | completing => simp [Spotted]
    | _ => exact Iff.rfl
  · intro other
    simp [Spotted, unfinished, eq_comm]
  · intro other
    by_cases same : other = e <;> simp [Spotted, finished, recordTimelineSpan, same]
  · intro other _ here
    rcases here with queued | queued | ⟨startTime', endTime', mem⟩ | ended
    · exact Or.inl (Or.inl queued)
    · exact Or.inl (Or.inr (Or.inl queued))
    · exact absurd (by simpa using mem) (unfinished other startTime' endTime')
    · by_cases same : other = e
      · subst other
        exact Or.inl (Or.inr (Or.inr (Or.inl ⟨startTime, endTime, List.mem_cons_self⟩)))
      · refine Or.inl (Or.inr (Or.inr (Or.inr ?_)))
        simpa [Spotted, finished, recordTimelineSpan, same] using ended
  · intro task mem
    exact Agenda.Deferred.map spots.deferred .release (fun _ => trivial) released task
      (List.mem_of_mem_tail mem)

/-- A new event is in one place. -/
theorem issue (spots : Spots [] queue) (flows : Flows [] queue) (dst : Spot)
    (eventCounter : queue'.eventCounter = queue.eventCounter + 1)
    (eventToFlow : ∀ {e}, e ≠ queue.eventCounter → queue'.eventToFlow e = queue.eventToFlow e)
    (old : ∀ {other}, other ≠ queue.eventCounter → ∀ spot,
      (Spotted agenda' queue' other spot ↔ Spotted [] queue other spot))
    (new : ∀ spot, Spotted agenda' queue' queue.eventCounter spot ↔ spot = dst)
    (fresh : dst = .launching ∨ dst = .waiting)
    (entries : queue'.eventQueue = queue.eventQueue)
    (carries : ∀ {ref other}, queue.Carries ref other → queue'.Carries ref other)
    (deferred : Agenda.Deferred agenda'.tail) : Spots agenda' queue' := by
  have queued : ∀ {event}, queue'.Queued event ↔ queue.Queued event := by
    intro event
    rw [Queued, entries]
    exact Iff.rfl
  have noFlow := (flows.issued (le_refl queue.eventCounter)).2
  have absent : ∀ spot, ¬Spotted [] queue queue.eventCounter spot :=
    fun spot here => Nat.lt_irrefl _ (spots.issued here)
  constructor
  · intro e lt
    by_cases same : e = queue.eventCounter
    · exact ⟨dst, same ▸ (new dst).mpr rfl⟩
    · have lt : e < queue.eventCounter := by omega
      rcases spots.located lt with ⟨spot, here⟩
      exact ⟨spot, (old same spot).mpr here⟩
  · intro e spot here
    rw [eventCounter]
    by_cases same : e = queue.eventCounter
    · exact same ▸ Nat.lt_succ_self _
    · exact (spots.issued ((old same spot).mp here)).trans (Nat.lt_succ_self _)
  · intro e spot spot' isNone here there
    by_cases same : e = queue.eventCounter
    · subst e
      exact ((new spot).mp here).trans ((new spot').mp there).symm
    · rw [eventToFlow same] at isNone
      exact spots.unique isNone ((old same spot).mp here) ((old same spot').mp there)
  · intro e isFlow here
    by_cases same : e = queue.eventCounter
    · subst e
      have nowhere : ∀ {spot}, Spotted agenda' queue' queue.eventCounter spot → spot ≠ .launching →
          spot ≠ .waiting → False := by
        intro spot there notLaunching notWaiting
        rw [new] at there
        rcases fresh with same | same
        · exact notLaunching (there.trans same)
        · exact notWaiting (there.trans same)
      rcases here with start | ending | finishing | ended
      · exact absurd ⟨noFlow, queued.mp start⟩ (absent .starting)
      · exact (nowhere ending (by simp) (by simp)).elim
      · exact (nowhere finishing (by simp) (by simp)).elim
      · exact (nowhere ended (by simp) (by simp)).elim
    · rw [eventToFlow same] at isFlow
      have before : Engaged [] queue e := by
        refine here.imp queued.mp (Or.imp (old same .ending).mp ?_)
        exact Or.imp (old same .finishing).mp (old same .ended).mp
      exact (spots.carried isFlow before).imp fun _ => carries
  · intro e isQueued
    have point := queued.mp isQueued
    have differs : e ≠ queue.eventCounter :=
      fun same => absurd point (same ▸ absent .reaching)
    rw [eventToFlow differs]
    exact spots.points point
  · exact deferred

/-- A new event that is pushed at once. -/
theorem add (spots : Spots [] queue) (flows : Flows [] queue) {dependsOn : List (Option EventId)}
    {action : Option Action} {time arriveTime : ℤ} {rev : EventId → List EventId} :
    Spots [.launch queue.eventCounter action arriveTime]
      { queue.issue dependsOn action time with revDependencies := rev } := by
  have noFlow := (flows.issued (le_refl queue.eventCounter)).2
  have eventToFlow := issue_eventToFlow dependsOn action time noFlow
  have absent : ∀ spot, ¬Spotted [] queue queue.eventCounter spot :=
    fun spot here => Nat.lt_irrefl _ (spots.issued here)
  refine spots.issue flows .launching rfl ?_ ?_ ?_ (Or.inl rfl) rfl (fun here => here)
    Agenda.deferred_nil
  · intro e differs
    exact (eventToFlow e).trans (if_neg differs)
  · intro other differs spot
    cases spot with
    | launching => simp [Spotted, differs]
    | starting =>
        refine and_congr ?_ Iff.rfl
        rw [show ({ queue.issue dependsOn action time with revDependencies := rev } :
          EventQueue).eventToFlow other = _ from eventToFlow other, if_neg differs]
    | completing => simp [Spotted]
    | finishing => simp [Spotted]
    | _ => exact Iff.rfl
  · intro spot
    cases spot with
    | launching => simp [Spotted]
    | completing => simp [Spotted]
    | finishing => simp [Spotted]
    | waiting => exact iff_of_false (absent .waiting) (by simp)
    | starting => exact iff_of_false (fun here => absent .starting ⟨noFlow, here.2⟩) (by simp)
    | reaching => exact iff_of_false (absent .reaching) (by simp)
    | moving => exact iff_of_false (absent .moving) (by simp)
    | ending => exact iff_of_false (absent .ending) (by simp)
    | ended => exact iff_of_false (absent .ended) (by simp)

/-- A new event that waits. -/
theorem wait (spots : Spots [] queue) (flows : Flows [] queue) {dependsOn : List (Option EventId)}
    {action : Option Action} {time : ℤ} {p : Pending} {rev : EventId → List EventId} :
    Spots [] { queue.issue dependsOn action time with
      revDependencies := rev
      pending := Function.update queue.pending queue.eventCounter (some p) } := by
  have noFlow := (flows.issued (le_refl queue.eventCounter)).2
  have eventToFlow := issue_eventToFlow dependsOn action time noFlow
  have absent : ∀ spot, ¬Spotted [] queue queue.eventCounter spot :=
    fun spot here => Nat.lt_irrefl _ (spots.issued here)
  refine spots.issue flows .waiting rfl ?_ ?_ ?_ (Or.inr rfl) rfl (fun here => here)
    Agenda.deferred_nil
  · intro e differs
    exact (eventToFlow e).trans (if_neg differs)
  · intro other differs spot
    cases spot with
    | waiting => simp [Spotted, differs]
    | starting =>
        refine and_congr ?_ Iff.rfl
        rw [show ({ queue.issue dependsOn action time with
          revDependencies := rev
          pending := Function.update queue.pending queue.eventCounter (some p) } :
          EventQueue).eventToFlow other = _ from eventToFlow other, if_neg differs]
    | _ => exact Iff.rfl
  · intro spot
    cases spot with
    | launching => simp [Spotted]
    | completing => simp [Spotted]
    | finishing => simp [Spotted]
    | waiting => simp [Spotted]
    | starting => exact iff_of_false (fun here => absent .starting ⟨noFlow, here.2⟩) (by simp)
    | reaching => exact iff_of_false (absent .reaching) (by simp)
    | moving => exact iff_of_false (absent .moving) (by simp)
    | ending => exact iff_of_false (absent .ending) (by simp)
    | ended => exact iff_of_false (absent .ended) (by simp)

/-- The dependencies of a pending event are amended. -/
theorem amend (spots : Spots [] queue) (flows : Flows [] queue) {e : EventId} {p p' : Pending}
    {rev : EventId → List EventId} (known : queue.pending e = some p)
    (releases : ∀ task ∈ agenda', ∃ other, task = .release other)
    (deferred : Agenda.Deferred agenda'.tail) :
    Spots agenda' { queue with
      revDependencies := rev
      pending := Function.update queue.pending e (some p') } := by
  have places : ∀ other spot, Spotted agenda' { queue with
      revDependencies := rev
      pending := Function.update queue.pending e (some p') } other spot ↔
        Spotted [] queue other spot := by
    intro other spot
    cases spot with
    | waiting =>
        by_cases same : other = e
        · subst other
          simp [Spotted, known]
        · simp [Spotted, same]
    | launching =>
        refine iff_of_false ?_ (by simp [Spotted])
        rintro ⟨action, time, mem⟩
        rcases releases _ mem with ⟨_, same⟩
        cases same
    | completing =>
        refine iff_of_false ?_ (by simp [Spotted])
        rintro ⟨r, ts, mem, _⟩
        rcases releases _ mem with ⟨_, same⟩
        cases same
    | finishing =>
        refine iff_of_false ?_ (by simp [Spotted])
        rintro ⟨startTime, endTime, mem⟩
        rcases releases _ mem with ⟨_, same⟩
        cases same
    | _ => exact Iff.rfl
  refine spots.keep flows rfl rfl (fun other spot here => Or.inl ((places other spot).mpr here))
    (fun other spot _ here => (places other spot).mp here) (fun here => here) ?_ deferred
    (fun _ queued => queued)
  intro other _ here
  exact Or.inl (here.imp_right (Or.imp (places other .ending).mp
    (Or.imp (places other .finishing).mp (places other .ended).mp)))

end Spots

/-- A small step loses no event. -/
theorem spots_small (flows : Flows agenda queue)
    (spots : Spots agenda queue) (small : Small platform (agenda, queue) (agenda', queue')) :
    Spots agenda' queue' := by
  cases small with
  | note entries counter =>
      exact spots.keep flows rfl rfl (fun _ spot here => Or.inl (by cases spot <;> exact here))
        (fun _ spot _ here => by cases spot <;> exact here) (fun here => here)
        (fun _ _ here => Or.inl here) spots.deferred (fun _ queued => queued)
  | release known => exact spots.release known
  | point counter => exact spots.point flows counter
  | compute counter => exact (spots.compute flows counter).record _ _
  | arrive nonneg arrival => exact (spots.arrive flows arrival).record _ _
  | board counter => exact spots.board flows counter
  | landed => exact spots.landed flows
  | move waiting stepped => exact spots.move flows waiting stepped
  | complete counter token same => exact spots.complete flows _ _ counter token
  | arrived token same boards => exact spots.arrived flows same boards
  | reach queued => exact spots.reach _ ⟨_, queued⟩
  | stop queued known => exact spots.stop _ _ ⟨_, queued⟩
  | startComputation counter queued known =>
      exact spots.startComputation flows _ _ counter ⟨_, queued⟩
  | startFlow queued known => exact spots.startFlow flows _ (flows.starting known)
  | finish noted => exact spots.finish noted
  | add valid registered empty => exact spots.add flows
  | wait valid registered nonempty => exact spots.wait flows
  | register valid ended =>
      exact spots.keep flows rfl rfl (fun _ spot here => Or.inl (by cases spot <;> exact here))
        (fun _ spot _ here => by cases spot <;> exact here) (fun here => here)
        (fun _ _ here => Or.inl here) spots.deferred (fun _ queued => queued)
  | depend valid unended known =>
      exact spots.amend flows known (fun _ mem => by cases mem) Agenda.deferred_nil
  | block known => exact spots.amend flows known (fun _ mem => by cases mem) Agenda.deferred_nil
  | unblock known =>
      refine spots.amend flows known ?_ ?_
      · intro task mem
        split at mem
        · exact ⟨_, List.mem_singleton.mp mem⟩
        · cases mem
      · split <;> exact Agenda.deferred_nil

end EventQueue

end Phantora
