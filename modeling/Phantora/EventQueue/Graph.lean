import Mathlib.Logic.Relation
import Phantora.EventQueue.Run

/-!
# The dependency graph

The graph of the event queue is kept in the lists of reverse dependencies. It
only grows, and running the simulation leaves it alone.
-/

namespace Phantora

open Outcome

namespace EventQueue

variable {platform : Platform} {queue queue' : EventQueue}

/-- The event is registered as a dependency of another. -/
def Precedes (queue : EventQueue) (d e : EventId) : Prop :=
  e ∈ queue.revDependencies d

/-- The other event depends on it transitively. -/
def Before (queue : EventQueue) : EventId → EventId → Prop :=
  Relation.TransGen queue.Precedes

instance (queue : EventQueue) : Trans queue.Before queue.Before queue.Before :=
  ⟨Relation.TransGen.trans⟩

/-- What an event was added with: its dependencies, its action and its time. -/
def recordOf (queue : EventQueue) (id : EventId) :
    Option (List (Option EventId) × Option Action × ℤ) :=
  (queue.created.find? fun record => record.1 = id).map Prod.snd

/-- Events and dependencies are added to the graph and none is taken away. -/
structure Enlarges (queue queue' : EventQueue) : Prop where
  eventCounter : queue.eventCounter ≤ queue'.eventCounter
  recordOf : ∀ {id}, id < queue.eventCounter → queue'.recordOf id = queue.recordOf id
  precedes : ∀ {d e}, queue.Precedes d e → queue'.Precedes d e

namespace Enlarges

theorem refl (queue : EventQueue) : Enlarges queue queue :=
  ⟨Nat.le_refl _, fun _ => rfl, fun before => before⟩

theorem trans {first second third : EventQueue} (left : Enlarges first second)
    (right : Enlarges second third) : Enlarges first third := by
  refine ⟨left.eventCounter.trans right.eventCounter, ?_, ?_⟩
  · intro id known
    rw [right.recordOf (known.trans_le left.eventCounter), left.recordOf known]
  · intro d e before
    exact right.precedes (left.precedes before)

theorem before (enlarges : Enlarges queue queue') {d e : EventId} (path : queue.Before d e) :
    queue'.Before d e := by
  induction path with
  | single edge => exact .single (enlarges.precedes edge)
  | tail _ edge ih => exact ih.tail (enlarges.precedes edge)

end Enlarges

theorem Grows.enlarges (grows : Grows queue queue') : Enlarges queue queue' := by
  refine ⟨grows.eventCounter.ge, ?_, ?_⟩
  · intro id _
    rw [recordOf, recordOf, grows.created]
  · intro d e before
    rw [Precedes, grows.revDependencies]
    exact before

section Build

variable {id : EventId}

/-- A new event has the next identifier, its record and its dependencies. -/
theorem addActionOrPoint_enlarges {dependsOn : List (Option EventId)} {action : Option Action}
    {time : ℤ} (run : queue.addActionOrPoint platform dependsOn action time = .ok (queue', id)) :
    Enlarges queue queue' ∧ id = queue.eventCounter ∧ queue'.eventCounter = id + 1 ∧
      queue'.recordOf id = some (dependsOn, action, time) ∧
      ∀ {d}, some d ∈ dependsOn → queue'.Precedes d id := by
  rcases addActionOrPoint_graph run with ⟨rfl, counter, created, _, edges⟩
  refine ⟨⟨?_, ?_, ?_⟩, rfl, counter, ?_, ?_⟩
  · omega
  · intro other known
    have differs : ¬ queue.eventCounter = other := by omega
    rw [recordOf, recordOf, created, List.find?_cons_of_neg (by simpa using differs)]
  · intro d e before
    exact edges.2 (Or.inl before)
  · rw [recordOf, created, List.find?_cons_of_pos (by simp)]
    rfl
  · intro d mem
    exact edges.2 (Or.inr ⟨rfl, mem⟩)

theorem addDependency_enlarges {dep : Option EventId}
    (run : queue.addDependency id dep = .ok queue') :
    Enlarges queue queue' ∧ ∀ d, dep = some d → queue'.Precedes d id := by
  rcases addDependency_graph run with ⟨counter, created, _, edges⟩
  refine ⟨⟨counter.ge, ?_, ?_⟩, ?_⟩
  · intro other _
    rw [recordOf, recordOf, created]
  · intro d e before
    exact edges.2 (Or.inl before)
  · intro d known
    exact edges.2 (Or.inr ⟨known.symm, rfl⟩)

theorem removeNoneDependency_enlarges
    (run : queue.removeNoneDependency platform id = .ok queue') : Enlarges queue queue' :=
  (removeNoneDependency_grows run).enlarges

end Build

/-- Calls of a kind lead from one queue to the other. -/
def Evolves (platform : Platform) (allowed : Call → Prop) : EventQueue → EventQueue → Prop :=
  Relation.ReflTransGen fun queue queue' =>
    ∃ call, allowed call ∧ Step platform queue call queue'

/-- The calls that run the simulation. -/
def Call.Executes : Call → Prop
  | .peekNextTime => True
  | .execute => True
  | _ => False

theorem execute_step {result : QueueStep} (run : queue.execute platform = .ok (queue', result)) :
    Step platform queue .execute queue' :=
  ⟨.step result, by simp [perform, run]⟩

theorem peekNextTime_step {time : Option ℤ}
    (run : queue.peekNextTime platform = .ok (queue', time)) :
    Step platform queue .peekNextTime queue' :=
  ⟨.next time, by simp [perform, run]⟩

/-- Running the simulation adds nothing to the graph. -/
theorem Step.grows {call : Call} (executes : call.Executes)
    (step : Step platform queue call queue') : Grows queue queue' := by
  rcases step with ⟨answer, run⟩
  cases call with
  | addActionOrPoint => exact absurd executes id
  | addDependency => exact absurd executes id
  | removeNoneDependency => exact absurd executes id
  | peekNextTime =>
      simp only [perform, bind_eq_ok, pure_eq_ok, Prod.exists, Prod.mk.injEq] at run
      rcases run with ⟨_, _, peeked, rfl, _⟩
      exact peekNextTimeLoop_grows peeked
  | execute =>
      simp only [perform, bind_eq_ok, pure_eq_ok, Prod.exists, Prod.mk.injEq] at run
      rcases run with ⟨_, _, executed, rfl, _⟩
      exact executeLoop_grows executed

theorem Evolves.grows (evolves : Evolves platform Call.Executes queue queue') :
    Grows queue queue' := by
  induction evolves with
  | refl => exact .refl queue
  | tail _ last ih =>
      rcases last with ⟨call, executes, step⟩
      exact ih.trans (step.grows executes)

end EventQueue

end Phantora
