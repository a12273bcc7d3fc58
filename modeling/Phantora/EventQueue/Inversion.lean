import Phantora.EventQueue.Run

/-!
# What the operations of the queue do

Inversion lemmas: which events the end of another releases, and what a push of
a communication and a record of a rollback come to.
-/

namespace Phantora

open Outcome

/-- What the end of a dependency does to a pending event. -/
def Pending.noted (id : EventId) (endTime : ℤ) (pending : Pending) : Pending :=
  if some id ∈ pending.dependencies then
    { pending with
      dependencies := pending.dependencies.erase (some id)
      depEndTime := max pending.depEndTime endTime }
  else pending

theorem Pending.noted_noted (id : EventId) (endTime : ℤ) (pending : Pending) :
    (pending.noted id endTime).noted id endTime = pending.noted id endTime := by
  unfold noted
  split <;> simp [*]

@[simp]
theorem Pending.dependencies_noted (id : EventId) (endTime : ℤ) (pending : Pending) :
    (pending.noted id endTime).dependencies = pending.dependencies.erase (some id) := by
  unfold noted
  split
  · rfl
  · rename_i absent
    rw [Finset.erase_eq_of_notMem absent]

@[simp]
theorem Pending.action_noted (id : EventId) (endTime : ℤ) (pending : Pending) :
    (pending.noted id endTime).action = pending.action := by
  unfold noted
  split <;> rfl

@[simp]
theorem Pending.arriveTime_noted (id : EventId) (endTime : ℤ) (pending : Pending) :
    (pending.noted id endTime).arriveTime = pending.arriveTime := by
  unfold noted
  split <;> rfl

namespace EventQueue

variable {platform : Platform} {fuel : ℕ} {queue queue' : EventQueue}

/-- All reverse dependencies are told; those left without dependencies are collected once. -/
theorem noteEndeds_eq (id : EventId) (endTime : ℤ) (events : List EventId) (queue : EventQueue)
    (noDepEvents : List EventId) :
    ∃ pending released,
      events.foldl (noteEnded id endTime) (queue, noDepEvents) =
        ({ queue with pending := pending }, noDepEvents ++ released) ∧
      (∀ e, pending e = if e ∈ events then (queue.pending e).map (Pending.noted id endTime)
        else queue.pending e) ∧
      released.Nodup ∧
      ∀ e, e ∈ released ↔ e ∈ events ∧ ∃ p, queue.pending e = some p ∧ some id ∈ p.dependencies ∧
        p.dependencies.erase (some id) = ∅ := by
  induction events generalizing queue noDepEvents with
  | nil => exact ⟨queue.pending, [], by simp⟩
  | cons event events ih =>
      rw [List.foldl_cons]
      cases known : queue.pending event with
      | none =>
          have step : noteEnded id endTime (queue, noDepEvents) event = (queue, noDepEvents) := by
            simp [noteEnded, known]
          rw [step]
          rcases ih queue noDepEvents with ⟨pending, released, run, changed, nodup, members⟩
          refine ⟨pending, released, run, fun e => ?_, nodup, fun e => ?_⟩
          · rw [changed]
            by_cases same : e = event
            · simp [same, known]
            · simp [same]
          · rw [members]
            by_cases same : e = event
            · simp [same, known]
            · simp [same]
      | some p =>
          by_cases waits : some id ∈ p.dependencies
          · set middle : EventQueue := { queue with
              pending := Function.update queue.pending event (some (p.noted id endTime)) } with mid
            have step : noteEnded id endTime (queue, noDepEvents) event =
                (middle, if p.dependencies.erase (some id) = ∅ then noDepEvents ++ [event]
                  else noDepEvents) := by
              simp [noteEnded, known, waits, Pending.noted, mid]
            rw [step]
            rcases ih middle (if p.dependencies.erase (some id) = ∅ then noDepEvents ++ [event]
              else noDepEvents) with ⟨pending, released, run, changed, nodup, members⟩
            have other : ∀ e, e ≠ event → middle.pending e = queue.pending e :=
              fun e differs => Function.update_of_ne differs _ _
            have here : middle.pending event = some (p.noted id endTime) := by simp [mid]
            have notAgain : event ∉ released := by
              rw [members]
              rintro ⟨_, p', known', waits', _⟩
              rw [here, Option.some.injEq] at known'
              subst known'
              simp [Pending.noted, waits] at waits'
            have changed' : ∀ e, pending e = if e ∈ event :: events then
                (queue.pending e).map (Pending.noted id endTime) else queue.pending e := by
              intro e
              rw [changed]
              by_cases same : e = event
              · subst e
                simp [here, known, Pending.noted_noted]
              · simp [other e same, same]
            have others : ∀ e, e ≠ event → (e ∈ released ↔ e ∈ event :: events ∧
                ∃ p, queue.pending e = some p ∧ some id ∈ p.dependencies ∧
                  p.dependencies.erase (some id) = ∅) := by
              intro e differs
              rw [members, other e differs]
              simp [differs]
            by_cases last : p.dependencies.erase (some id) = ∅
            · refine ⟨pending, event :: released, ?_, changed',
                List.nodup_cons.mpr ⟨notAgain, nodup⟩, fun e => ?_⟩
              · rw [run]
                simp [last, mid]
              · by_cases same : e = event
                · subst e
                  simp [known, waits, last]
                · simp only [List.mem_cons, same, false_or] at others ⊢
                  simpa [same] using others e same
            · refine ⟨pending, released, ?_, changed', nodup, fun e => ?_⟩
              · rw [run]
                simp [last, mid]
              · by_cases same : e = event
                · subst e
                  simp [known, waits, last, notAgain]
                · exact others e same
          · have step : noteEnded id endTime (queue, noDepEvents) event = (queue, noDepEvents) := by
              simp [noteEnded, known, waits]
            rw [step]
            rcases ih queue noDepEvents with ⟨pending, released, run, changed, nodup, members⟩
            refine ⟨pending, released, run, fun e => ?_, nodup, fun e => ?_⟩
            · rw [changed]
              by_cases same : e = event
              · simp [same, known, Pending.noted, waits]
              · simp [same]
            · rw [members]
              by_cases same : e = event
              · simp [same, known, waits]
              · simp [same]

theorem release_eq_ok {push : EventQueue → PushEvent → ℤ → Except Panic EventQueue} {id : EventId}
    (run : release push queue id = .ok queue') : ∃ p, queue.pending id = some p ∧
      push { queue with pending := Function.update queue.pending id none } (pushOf id p.action)
        (max p.depEndTime p.arriveTime) = .ok queue' := by
  simp only [release, bind_eq_ok, unwrap_eq_ok] at run
  exact run

section Flow

variable {id : EventId} {time : ℤ} {flow : Netsim.Flow} {appEventTs : ℕ} {loop loop' : RollbackLoop}

/-- The flow of an event as the network gets it. -/
def flowRecord (id : EventId) (flow : Netsim.Flow) (time : ℤ) : Netsim.TraceRecord :=
  ⟨time.toNat * 1000, { flow with token := some id }, none⟩

/-- The queue when the flow of an event has arrived in the network. -/
def withArrival (queue : EventQueue) (id : EventId) (flow : Netsim.Flow) (info : CommMeta)
    (netsim : Netsim.Simulator) : EventQueue :=
  { queue with
    queueCounter := queue.queueCounter + 1
    log := .action id (.communication { flow with token := some id } info) :: queue.log
    netsim := netsim }

/-- What a push of a communication does. -/
theorem pushFlow_eq_ok {flow : Netsim.Flow} {info : CommMeta}
    (run : pushEvent platform fuel queue (.startOf id (.communication flow info)) time =
      .ok queue') :
    0 ≤ time ∧ ∃ netsim result,
      queue.netsim.onEvent (.flowArrive [flowRecord id flow time]) = .ok (netsim, result) ∧
      (((∀ flows, result ≠ .rollback flows) ∧
        queue' = (queue.withArrival id flow info netsim).pushStart id
          (.communication { flow with token := some id } info) time queue.queueCounter) ∨
      ∃ flows loop fuel', fuel = fuel' + 1 ∧ result = .rollback flows ∧
        rollbackLoop platform (pushEvent platform fuel') id time { flow with token := some id }
          fuel' ⟨{ queue.withArrival id flow info netsim with
              log := .rollbacked flows :: (queue.withArrival id flow info netsim).log },
            (flows.map fun r => r.flow.id).toFinset, false⟩ = .ok loop ∧
        queue' = if loop.newFlowEnded then loop.queue else loop.queue.pushStart id
          (.communication { flow with token := some id } info) time queue.queueCounter) := by
  cases fuel with
  | zero => simp [pushEvent] at run
  | succ fuel =>
      simp only [pushEvent, bind_eq_ok, assert_eq_ok, Prod.exists] at run
      rcases run with ⟨_, _, _, nonneg, netsim, result, arrival, run⟩
      refine ⟨nonneg, netsim, result, arrival, ?_⟩
      split at run
      · simp only [pure_eq_ok] at run
        exact Or.inl ⟨by simp, run.symm⟩
      · simp only [pure_eq_ok] at run
        exact Or.inl ⟨by simp, run.symm⟩
      · rename_i flows
        simp only [bind_eq_ok] at run
        rcases run with ⟨loop, looped, run⟩
        refine Or.inr ⟨flows, loop, fuel, rfl, rfl, looped, ?_⟩
        split at run <;> rename_i ended <;> simp only [pure_eq_ok] at run
        · simp [ended, run]
        · simp [ended, ← run]

/-- The flow is taken from the set before it is looked up there, so that the end of a
flow completed again is always queued anew and never amended. -/
theorem rollbackRecord_eq_ok {push : EventQueue → PushEvent → ℤ → Except Panic EventQueue}
    {r : Netsim.TraceRecord}
    (run : rollbackRecord platform push id time flow appEventTs loop r = .ok loop') :
    ∃ event, r.flow.token = some event ∧
      ((r.flow.id = flow.id ∧ ∃ queue',
        endEventWith platform push loop.queue id time (appEventTs / 1000 : ℕ) = .ok queue' ∧
        loop' = ⟨queue', loop.rollbackedFlowset.erase r.flow.id, true⟩) ∨
      (r.flow.id ≠ flow.id ∧ ∃ queue',
        push { loop.queue with
          started := Function.update loop.queue.started event (some (r.ts / 1000 : ℕ)) }
          (.endOf event) (appEventTs / 1000 : ℕ) = .ok queue' ∧
        loop' = ⟨queue', loop.rollbackedFlowset.erase r.flow.id, loop.newFlowEnded⟩)) := by
  simp only [rollbackRecord, bind_eq_ok, unwrap_eq_ok] at run
  rcases run with ⟨event, token, run⟩
  refine ⟨event, token, ?_⟩
  by_cases isNew : r.flow.id = flow.id
  · rw [if_pos isNew] at run
    simp only [bind_eq_ok, pure_eq_ok] at run
    rcases run with ⟨queue', ended, rfl⟩
    exact Or.inl ⟨isNew, queue', ended, rfl⟩
  · rw [if_neg isNew, if_neg (Finset.notMem_erase _ _)] at run
    simp only [bind_eq_ok, assert_eq_ok, pure_eq_ok] at run
    rcases run with ⟨dura, _, _, _, _, _, queue', pushed, rfl⟩
    exact Or.inr ⟨isNew, queue', pushed, rfl⟩

end Flow

end EventQueue

end Phantora
