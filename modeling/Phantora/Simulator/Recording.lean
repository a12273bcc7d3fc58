import Phantora.EventQueue.Recording
import Phantora.Simulator.Named

/-!
# What a run of the server records

The queue of the server keeps its invariants along every run, and the flows that
it records are those of collectives and of matched pairs.
-/

namespace Phantora

open Outcome

namespace EventQueue

variable {platform : Platform} {queue queue' : EventQueue}

/-- The call adds no flow but that of a call that communicates. -/
def Call.Communicates : Call → Prop
  | .addActionOrPoint _ action _ =>
      ∀ flow info, action = some (.communication flow info) → info.Communicates
  | _ => True

/-- What the queue records is in order, and its flows are those of calls that communicate. -/
structure Chronicled (queue : EventQueue) : Prop where
  recorded : Recorded queue
  communicates : ∀ e flow info, queue.AddedWith e (some (.communication flow info)) →
    info.Communicates

theorem Initial.chronicled (initial : Initial queue) : Chronicled queue := by
  refine ⟨initial.recorded, ?_⟩
  rcases initial with ⟨cluster, setting, hostMapping, rfl⟩
  rintro e flow info ⟨dependsOn, time, mem⟩
  exact absurd mem List.not_mem_nil

namespace Chronicled

theorem step {call : Call} (chronicled : Chronicled queue)
    (step : Step platform queue call queue') (valid : call.Valid queue)
    (communicates : call.Communicates) : Chronicled queue' := by
  refine ⟨step.recorded valid chronicled.recorded, ?_⟩
  have kept : queue'.created = queue.created → ∀ e flow info,
      queue'.AddedWith e (some (.communication flow info)) → info.Communicates := by
    rintro same e flow info ⟨dependsOn, time, mem⟩
    exact chronicled.communicates e flow info ⟨dependsOn, time, same ▸ mem⟩
  cases call with
  | addActionOrPoint dependsOn action time =>
      rcases step with ⟨answer, run⟩
      simp only [perform, bind_eq_ok, pure_eq_ok, Prod.exists, Prod.mk.injEq] at run
      rcases run with ⟨_, id, added, rfl, _⟩
      rcases addActionOrPoint_graph added with ⟨_, _, created, _⟩
      rintro e flow info ⟨dependsOn', time', mem⟩
      rw [created] at mem
      rcases List.mem_cons.mp mem with same | old
      · cases same
        exact communicates flow info rfl
      · exact chronicled.communicates e flow info ⟨dependsOn', time', old⟩
  | addDependency id dep =>
      rcases step with ⟨answer, run⟩
      simp only [perform, bind_eq_ok, pure_eq_ok, Prod.mk.injEq] at run
      rcases run with ⟨_, added, rfl, _⟩
      exact kept (addDependency_graph added).2.1
  | removeNoneDependency id =>
      rcases step with ⟨answer, run⟩
      simp only [perform, bind_eq_ok, pure_eq_ok, Prod.mk.injEq] at run
      rcases run with ⟨_, removed, rfl, _⟩
      exact kept (removeNoneDependency_grows removed).created
  | peekNextTime =>
      have executes : Call.Executes .peekNextTime := trivial
      exact kept (step.grows executes).created
  | execute =>
      have executes : Call.Executes .execute := trivial
      exact kept (step.grows executes).created

theorem evolve (chronicled : Chronicled queue)
    (evolves : Evolves platform Call.Executes queue queue') : Chronicled queue' := by
  induction evolves with
  | refl => exact chronicled
  | tail _ last ih =>
      rcases last with ⟨call, executes, step⟩
      cases call with
      | peekNextTime => exact ih.step step trivial trivial
      | execute => exact ih.step step trivial trivial
      | _ => exact absurd executes id

theorem add {dependsOn : List (Option EventId)} {action : Option Action} {time : ℤ} {id : EventId}
    (chronicled : Chronicled queue)
    (valid : Call.Valid queue (.addActionOrPoint dependsOn action time))
    (communicates : ∀ flow info, action = some (.communication flow info) → info.Communicates)
    (added : queue.addActionOrPoint platform dependsOn action time = .ok (queue', id)) :
    Chronicled queue' := by
  have stepped : Step platform queue (.addActionOrPoint dependsOn action time) queue' :=
    ⟨.created id, by simp [perform, added]⟩
  exact chronicled.step stepped valid communicates

end Chronicled

end EventQueue

namespace Simulator

variable {env : Environment} {asks : ResponseId → Option ResponseId → Prop} {sim sim' : Simulator}

theorem OnlyExecutes.chronicled {platform : Platform} (executes : OnlyExecutes platform sim sim')
    (chronicled : sim.queue.Chronicled) : sim'.queue.Chronicled := by
  rcases executes with ⟨queue, _, _, _, _, evolves, _, rfl⟩
  exact chronicled.evolve evolves

/-- Every act keeps the records of the queue in order. -/
theorem Act.chronicled (act : Act env asks sim sim') (chronicled : sim.queue.Chronicled) :
    sim'.queue.Chronicled := by
  cases act with
  | book books => exact books.queue ▸ chronicled
  | add valid communicates added => exact chronicled.add valid communicates added
  | @depend id dep queue valid added =>
      have stepped : EventQueue.Step env.toPlatform sim.queue (.addDependency id dep) queue :=
        ⟨.done, by simp [EventQueue.perform, added]⟩
      exact chronicled.step stepped valid trivial
  | @free id queue removed =>
      have stepped : EventQueue.Step env.toPlatform sim.queue (.removeNoneDependency id) queue :=
        ⟨.done, by simp [EventQueue.perform, removed]⟩
      exact chronicled.step stepped trivial trivial
  | peek peeked => exact chronicled.step (EventQueue.peekNextTime_step peeked) trivial trivial
  | execute executed => exact (observe_onlyExecutes executed).chronicled chronicled
  | await _ valid added =>
      refine chronicled.add valid ?_ added
      exact fun _ _ isFlow => absurd isFlow.symm (Option.some_ne_none _)
  | park => exact chronicled
  | answer => exact chronicled
  | @poll host time event ready =>
      have executes := replyToPoll_onlyExecutes env.toPlatform sim host time event ready
      exact executes.chronicled chronicled

/-- Every message keeps the records of the queue in order. -/
theorem handle_chronicled {message : Message} (named : Named sim)
    (chronicled : sim.queue.Chronicled) (run : sim.handle env message = .ok sim') :
    sim'.queue.Chronicled := by
  by_cases manages : message.Manages
  · rcases handle_manages manages run with ⟨first, second, executes, changes, rfl⟩
    rcases changes with ⟨_, _, _, _, _, _, _, _, rfl⟩
    exact executes.chronicled chronicled
  · exact (handle_advances named manages run).acts.invariant (fun sim => sim.queue.Chronicled)
      (fun earlier act => act.chronicled earlier) chronicled

theorem chronicled_of_reached {messages : List Message} (reached : Reached env messages sim) :
    sim.queue.Chronicled := by
  refine (reached.invariant (fun _ sim => Named sim ∧ sim.queue.Chronicled) ?_ ?_).2
  · rintro sim initial
    refine ⟨named_initial initial, EventQueue.Initial.chronicled ?_⟩
    rcases initial with ⟨cluster, setting, hostMapping, rfl⟩
    exact ⟨cluster, setting, hostMapping, rfl⟩
  · intro messages sim message sim' before step
    exact ⟨handle_named before.1 step, handle_chronicled before.1 before.2 step⟩

end Simulator

end Phantora
