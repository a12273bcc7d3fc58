import Phantora.Netsim.RepresentationRuns

/-!
# Applications of the network simulator

An application and the simulator call each other: the application answers what
it is told with events, and the simulator takes a step when it has handled all
of them. The loop of the two keeps, beside its variables, what the application
has been told and which flows have arrived.
-/

namespace Phantora.Netsim

open Outcome

/-- An application: what it answers to an event, in a state of its own. -/
structure Application (α : Type) where
  onEvent : α → AppEvent → α × List Event

/-- The completions that an event reports. -/
def AppEventKind.completions : AppEventKind → List TraceRecord
  | .flowComplete flows => flows
  | _ => []

/-- The loop of `run_with_application`. Its `new_events` are swapped with the handled events
before they are tested, so they are empty there. -/
structure Playing (α : Type) where
  app : α
  sim : Simulator
  /-- The events still to be handled, the next one first. -/
  events : List Event
  finished : Bool := false
  /-- What the application has been told. -/
  told : List AppEvent
  /-- The records of the flows that have arrived. -/
  injected : List TraceRecord := []

namespace Playing

variable {α : Type}

/-- The application is told that it starts. -/
def start (app : Application α) (state : α) (sim : Simulator) : Playing α :=
  let appEvent : AppEvent := ⟨sim.ts, .appStart⟩
  let answer := app.onEvent state appEvent
  { app := answer.1, sim := sim, events := answer.2, told := [appEvent] }

/-- The next event is handled; after the last one the simulator takes a step and the application
is told its outcome. -/
def next (platform : Platform) (app : Application α) (playing : Playing α) :
    Except Panic (Playing α) :=
  match playing.events with
  | event :: events => do
      let (sim, result) ← playing.sim.onEvent event
      return { playing with
        sim := sim
        events := events
        finished := playing.finished || result = .simulationFinished
        injected := playing.injected ++ (Simulator.Input.onEvent event).records }
  | [] => do
      let (sim, appEvent) ← playing.sim.runOneStep platform none
      let answer := app.onEvent playing.app appEvent
      return { playing with
        app := answer.1
        sim := sim
        events := answer.2
        told := playing.told ++ [appEvent] }

/-- All events are handled, and one of them has finished the simulation. -/
def isOver (playing : Playing α) : Bool :=
  playing.events.isEmpty && playing.finished

/-- The loop goes on until the simulation is finished. -/
def loop (platform : Platform) (app : Application α) :
    ℕ → Playing α → Except Panic (Playing α)
  | 0, _ => .error .outOfFuel
  | fuel + 1, playing =>
      if playing.isOver then .ok playing
      else do
        let playing ← playing.next platform app
        loop platform app fuel playing

/-- One iteration of a loop that is not over. -/
def Next (platform : Platform) (app : Application α) (playing playing' : Playing α) : Prop :=
  playing.isOver = false ∧ playing.next platform app = .ok playing'

/-- What the loop computes it reaches by its iterations. -/
theorem reached_of_loop {platform : Platform} {app : Application α} {fuel : ℕ}
    {playing playing' : Playing α} (run : loop platform app fuel playing = .ok playing') :
    Relation.ReflTransGen (Next platform app) playing playing' ∧ playing'.isOver = true := by
  induction fuel generalizing playing with
  | zero => simp [loop] at run
  | succ fuel ih =>
      simp only [loop] at run
      split at run
      · rename_i ended
        simp only [Except.ok.injEq] at run
        exact run ▸ ⟨.refl, ended⟩
      · rename_i continues
        simp only [bind_eq_ok] at run
        rcases run with ⟨middle, taken, rest⟩
        rcases ih rest with ⟨reached, ended⟩
        exact ⟨.head ⟨by simpa using continues, taken⟩ reached, ended⟩

/-- Some iterations, as long as the loop is not over and its states pass a test. -/
def steps (test : Playing α → Prop) [DecidablePred test] (platform : Platform)
    (app : Application α) : ℕ → Playing α → Except Panic (Playing α)
  | 0, playing => .ok playing
  | count + 1, playing =>
      if playing.isOver = true ∨ ¬test playing then .ok playing
      else do
        let playing ← playing.next platform app
        steps test platform app count playing

theorem reached_of_steps {test : Playing α → Prop} [DecidablePred test] {platform : Platform}
    {app : Application α} {count : ℕ} {playing playing' : Playing α}
    (run : steps test platform app count playing = .ok playing') :
    Relation.ReflTransGen (fun playing playing' =>
      Next platform app playing playing' ∧ test playing) playing playing' := by
  induction count generalizing playing with
  | zero =>
      simp only [steps, Except.ok.injEq] at run
      exact run ▸ .refl
  | succ count ih =>
      simp only [steps] at run
      split at run
      · simp only [Except.ok.injEq] at run
        exact run ▸ .refl
      · rename_i continues
        simp only [not_or, not_not, Bool.not_eq_true] at continues
        simp only [bind_eq_ok] at run
        rcases run with ⟨middle, taken, rest⟩
        exact .head ⟨⟨continues.1, taken⟩, continues.2⟩ (ih rest)

/-- What the application is told in the next iteration. -/
def nextEvent (platform : Platform) (playing : Playing α) : Option AppEvent :=
  if playing.events.isEmpty then
    (playing.sim.runOneStep platform none).toOption.map Prod.snd
  else none

theorem nextEvent_eq {platform : Platform} {playing : Playing α} {sim : Simulator}
    {appEvent : AppEvent} (pending : playing.events = [])
    (stepped : playing.sim.runOneStep platform none = .ok (sim, appEvent)) :
    playing.nextEvent platform = some appEvent := by
  simp [nextEvent, pending, stepped, Except.toOption]

/-- An iteration handles an event or takes a step. -/
theorem next_eq_ok {platform : Platform} {app : Application α} {playing playing' : Playing α}
    (run : playing.next platform app = .ok playing') :
    (∃ event events sim result, playing.events = event :: events ∧
      playing.sim.onEvent event = .ok (sim, result) ∧
      playing' = { playing with
        sim := sim
        events := events
        finished := playing.finished || result = .simulationFinished
        injected := playing.injected ++ (Simulator.Input.onEvent event).records }) ∨
    ∃ sim appEvent, playing.events = [] ∧
      playing.sim.runOneStep platform none = .ok (sim, appEvent) ∧
      playing' = { playing with
        app := (app.onEvent playing.app appEvent).1
        sim := sim
        events := (app.onEvent playing.app appEvent).2
        told := playing.told ++ [appEvent] } := by
  unfold next at run
  split at run
  · rename_i event events pending
    simp only [bind_eq_ok, pure_eq_ok, Prod.exists] at run
    rcases run with ⟨sim, result, handled, rfl⟩
    exact Or.inl ⟨event, events, sim, result, pending, handled, rfl⟩
  · rename_i pending
    simp only [bind_eq_ok, pure_eq_ok, Prod.exists] at run
    rcases run with ⟨sim, appEvent, stepped, rfl⟩
    exact Or.inr ⟨sim, appEvent, pending, stepped, rfl⟩

end Playing

/-- `Executor::run_with_application`. -/
def Simulator.runWithApplication {α : Type} (platform : Platform) (app : Application α)
    (state : α) (sim : Simulator) : Except Panic (Playing α) :=
  Playing.loop platform app platform.fuel (.start app state sim)

/-- The records of a trace, in the order of the trace. -/
structure Replayer where
  trace : List TraceRecord
  numFlows : ℕ
  completed : List TraceRecord := []

namespace Replayer

def new (trace : List TraceRecord) : Replayer where
  trace := trace
  numFlows := trace.length

/-- The trace is started as a whole, and the simulation finishes with its last completion. -/
def application : Application Replayer where
  onEvent replayer appEvent :=
    match appEvent.event with
    | .appStart => (replayer, [.flowArrive replayer.trace])
    | .flowComplete flows =>
        let replayer := { replayer with completed := replayer.completed ++ flows }
        if replayer.completed.length = replayer.numFlows then (replayer, [.appFinish])
        else (replayer, [])
    | .userNotification _ => (replayer, [])
    | .adapterNotification _ _ => (replayer, [])

end Replayer

/-- `Executor::run_with_trace`. -/
def Simulator.runWithTrace (platform : Platform) (sim : Simulator) (trace : List TraceRecord) :
    Except Panic (List TraceRecord) := do
  let playing ← sim.runWithApplication platform Replayer.application (Replayer.new trace)
  return playing.app.completed

end Phantora.Netsim
