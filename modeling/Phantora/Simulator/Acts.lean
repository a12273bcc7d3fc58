import Phantora.EventQueue.Wakeups
import Phantora.Simulator.Frame

/-!
# The acts of the server

Handling a message that manages no communicator is a sequence of acts: events
and dependencies are added, the queue is executed and its reports are
observed, requests are parked and answered, and books are kept.
-/

namespace Phantora

open Outcome

/-- The occurrence is about NCCL calls only. -/
def Occurrence.Quiet : Occurrence → Prop
  | .joined _ _ _ _ _ _ => True
  | .completed _ _ _ _ => True
  | .offered _ _ _ => True
  | .matched _ _ _ _ => True
  | _ => False

/-- The calls whose flows the server sends: the collectives, and the send of a matched pair. -/
def CudaCall.Communicates : CudaCall → Prop
  | .ncclBcast _ _ _ _ _ => True
  | .ncclAllReduce _ _ _ _ _ => True
  | .ncclAllGather _ _ _ _ => True
  | .ncclReduceScatter _ _ _ _ _ => True
  | .ncclSend _ _ _ _ _ => True
  | _ => False

namespace Simulator

variable {env : Environment} {asks : ResponseId → Option ResponseId → Prop} {sim sim' : Simulator}

/-- Streams, waiting maps and estimates may differ. -/
structure Books (sim sim' : Simulator) : Prop where
  queue : sim'.queue = sim.queue
  syncing : sim'.syncing = sim.syncing
  sent : sim'.sent = sim.sent
  ncclUniqueId : sim'.ncclUniqueId = sim.ncclUniqueId
  commGroups : sim'.commGroups = sim.commGroups
  initWaiting : sim'.initWaiting = sim.initWaiting
  splitWaiting : sim'.splitWaiting = sim.splitWaiting
  history : ∃ news, sim'.history = news ++ sim.history ∧ ∀ occurrence ∈ news, occurrence.Quiet

theorem Books.of_silent (queue : sim'.queue = sim.queue) (syncing : sim'.syncing = sim.syncing)
    (sent : sim'.sent = sim.sent) (ncclUniqueId : sim'.ncclUniqueId = sim.ncclUniqueId)
    (commGroups : sim'.commGroups = sim.commGroups)
    (initWaiting : sim'.initWaiting = sim.initWaiting)
    (splitWaiting : sim'.splitWaiting = sim.splitWaiting)
    (history : sim'.history = sim.history) : Books sim sim' :=
  ⟨queue, syncing, sent, ncclUniqueId, commGroups, initWaiting, splitWaiting, [], by simpa, by simp⟩

theorem Books.note (sim : Simulator) {occurrence : Occurrence} (quiet : occurrence.Quiet) :
    Books sim (sim.note occurrence) :=
  ⟨rfl, rfl, rfl, rfl, rfl, rfl, rfl, [occurrence], rfl, by simpa using quiet⟩

/-- One act of the server, which tells of requests only to the threads that ask; a request that is
parked may take the place of another. -/
inductive Act (env : Environment) (asks : ResponseId → Option ResponseId → Prop) :
    Simulator → Simulator → Prop where
  | book {sim sim' : Simulator} : Books sim sim' → Act env asks sim sim'
  | add {sim : Simulator} {dependsOn : List (Option EventId)} {action : Option Action} {time : ℤ}
      {queue : EventQueue} {id : EventId} :
      EventQueue.Call.Valid sim.queue (.addActionOrPoint dependsOn action time) →
      (∀ flow info, action = some (.communication flow info) → info.Communicates) →
      sim.queue.addActionOrPoint env.toPlatform dependsOn action time = .ok (queue, id) →
      Act env asks sim { sim with queue := queue }
  | depend {sim : Simulator} {id : EventId} {dep : Option EventId} {queue : EventQueue} :
      EventQueue.Call.Valid sim.queue (.addDependency id dep) →
      sim.queue.addDependency id dep = .ok queue → Act env asks sim { sim with queue := queue }
  | free {sim : Simulator} {id : EventId} {queue : EventQueue} :
      sim.queue.removeNoneDependency env.toPlatform id = .ok queue →
      Act env asks sim { sim with queue := queue }
  | peek {sim : Simulator} {time : Option ℤ} {queue : EventQueue} :
      sim.queue.peekNextTime env.toPlatform = .ok (queue, time) →
      Act env asks sim { sim with queue := queue }
  | execute {sim : Simulator} {step : QueueStep} {queue : EventQueue} :
      sim.queue.execute env.toPlatform = .ok (queue, step) →
        Act env asks sim (sim.observe queue step)
  /-- A request waits for a new point. -/
  | await {sim : Simulator} {host : ResponseId} {dependsOn : List (Option EventId)} {time : ℤ}
      {queue : EventQueue} {event : EventId} : asks host none →
      EventQueue.Call.Valid sim.queue (.addActionOrPoint dependsOn none time) →
      sim.queue.addActionOrPoint env.toPlatform dependsOn none time = .ok (queue, event) →
      Act env asks sim (({ sim with queue := queue }.note (.awaits host event time)).awaitEvent host
        event)
  /-- A request waits for a recorded event. -/
  | park {sim : Simulator} {host : ResponseId} {event : EventId} {time : ℤ} :
      asks host (sim.syncing event) → event < sim.queue.eventCounter →
        sim.queue.ended event = none →
      Act env asks sim ((sim.note (.awaits host event time)).awaitEvent host event)
  /-- A request finds that its event has ended. -/
  | answer {sim : Simulator} {host : ResponseId} {event : EventId} {time endTime : ℤ} :
      asks host none → event < sim.queue.eventCounter → sim.queue.query event = some endTime →
      Act env asks sim ((sim.note (.awaits host event time)).sendSyncResponseTo host endTime
        (some event))
  | poll {sim : Simulator} {host : ResponseId} {time : ℤ} {event : Option EventId}
      {ready : Option (ℤ × Option EventId)} : asks host none →
      Act env asks sim (sim.replyToPoll host time event ready)

/-- Acts lead from one state to the other. -/
abbrev Acts (env : Environment) (asks : ResponseId → Option ResponseId → Prop) :
    Simulator → Simulator → Prop :=
  Relation.ReflTransGen (Act env asks)

/-- What every act keeps, every number of acts keeps. -/
theorem Acts.invariant (P : Simulator → Prop)
    (preserved : ∀ {first second}, P first → Act env asks first second → P second) (start : P sim)
    (acts : Acts env asks sim sim') : P sim' := by
  induction acts with
  | refl => exact start
  | tail _ last ih => exact preserved ih last

/-- No thread asks. -/
def nobody : ResponseId → Option ResponseId → Prop :=
  fun _ _ => False

theorem Act.asked (act : Act env nobody sim sim') : Act env asks sim sim' := by
  cases act with
  | book books => exact .book books
  | add valid made added => exact .add valid made added
  | depend valid added => exact .depend valid added
  | free removed => exact .free removed
  | peek peeked => exact .peek peeked
  | execute executed => exact .execute executed
  | await asked => exact absurd asked id
  | park asked => exact absurd asked id
  | answer asked => exact absurd asked id
  | poll asked => exact absurd asked id

theorem Acts.asked (acts : Acts env nobody sim sim') : Acts env asks sim sim' :=
  acts.invariant (Acts env asks sim) (fun earlier act => earlier.tail act.asked) .refl

theorem executeToEvent_acts {until_ : EventId} {fuel : ℕ} {reached : Bool}
    (run : executeToEvent env until_ fuel sim = .ok (sim', reached)) :
    Acts env nobody sim sim' := by
  refine executeToEvent_invariant (Acts env nobody sim) ?_ .refl run
  intro middle queue step earlier executed
  exact earlier.tail (.execute executed)

theorem executeToTime_acts {until_ : ℤ} {fuel : ℕ} {stopped : Bool}
    (run : executeToTime env until_ fuel sim = .ok (sim', stopped)) : Acts env nobody sim sim' := by
  refine executeToTime_invariant (Acts env nobody sim) ?_ ?_ .refl run
  · intro middle queue time earlier peeked
    exact earlier.tail (.peek peeked)
  · intro middle queue step earlier executed
    exact earlier.tail (.execute executed)

open EventQueue in
theorem Act.enlarges (act : Act env asks sim sim') : Enlarges sim.queue sim'.queue := by
  cases act with
  | book books => exact books.queue ▸ .refl _
  | add _ _ added => exact (addActionOrPoint_enlarges added).1
  | depend _ added => exact (addDependency_enlarges added).1
  | free removed => exact removeNoneDependency_enlarges removed
  | peek peeked => exact (peekNextTimeLoop_grows peeked).enlarges
  | @execute step queue executed =>
      have grows := (executeLoop_grows executed).enlarges
      cases step <;> simp only [observe, reportEnd] <;> first | exact grows | split <;> exact grows
  | await _ _ added => exact (addActionOrPoint_enlarges added).1
  | park => exact .refl _
  | answer => exact .refl _
  | @poll _ _ _ ready => cases ready <;> exact .refl _

theorem Acts.enlarges (acts : Acts env asks sim sim') :
    EventQueue.Enlarges sim.queue sim'.queue := by
  induction acts with
  | refl => exact .refl _
  | tail _ last ih => exact ih.trans last.enlarges

end Simulator

end Phantora
