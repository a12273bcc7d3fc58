import Mathlib.Data.Finset.Lattice.Fold
import Mathlib.Data.Prod.Lex
import Phantora.CudaCall
import Phantora.Netsim.Simulator

/-!
# The event queue

Events are points, computations and communications in a dependency graph. An
event with outstanding dependencies is pending; when the last one ends it is
pushed, a communication also into the network simulator, and it is reported as
started and ended in the order of a priority queue. Times are in microseconds.
-/

namespace Phantora

open Outcome

abbrev EventId := ℕ

/-- What a computation was made from. -/
inductive ComputeMeta where
  | torch (call : TorchCall)
  | cuda (call : CudaCall)

abbrev CommMeta := CudaCall

/-- A computation on a node for a time, or a flow. -/
inductive Action where
  | computation (node : HostId) (duration : ℤ) (info : ComputeMeta)
  | communication (flow : Netsim.Flow) (info : CommMeta)

/-- The entries of the priority queue. -/
inductive QueueEvent where
  | startOf (id : EventId)
  | endOf (id : EventId)
  | pointOf (id : EventId)
deriving DecidableEq, Repr

/-- The event that an entry is about. -/
def QueueEvent.id : QueueEvent → EventId
  | .startOf id => id
  | .endOf id => id
  | .pointOf id => id

inductive PushEvent where
  | startOf (id : EventId) (action : Action)
  | endOf (id : EventId)
  | pointOf (id : EventId)

/-- An event that waits for its dependencies; `none` among them is a barrier. -/
structure Pending where
  dependencies : Finset (Option EventId)
  arriveTime : ℤ
  depEndTime : ℤ
  action : Option Action

/-- What the code writes to the debug log and to the timeline. -/
inductive LogEntry where
  | added (id : EventId) (dependsOn : List (Option EventId)) (action : Option Action)
      (currentTime : ℤ)
  | action (id : EventId) (action : Action)
  | span (id : EventId) (startTime endTime : ℤ)
  | rollbacked (flows : List Netsim.TraceRecord)

/-- The order of the priority queue: by time, then by insertion. -/
abbrev Priority := ℤ ×ₗ ℕ

structure EventQueue where
  netsim : Netsim.Simulator
  eventCounter : ℕ := 0
  eventToFlow : EventId → Option Netsim.Flow := fun _ => none
  pending : EventId → Option Pending := fun _ => none
  inQueueNotStarted : EventId → Option Action := fun _ => none
  /-- The start time of an event that has started. -/
  started : EventId → Option ℤ := fun _ => none
  /-- The start and the end of an event that has ended. -/
  ended : EventId → Option (ℤ × ℤ) := fun _ => none
  revDependencies : EventId → List EventId := fun _ => []
  eventQueue : PriorityQueue QueueEvent Priority := .empty
  queueCounter : ℕ := 0
  /-- The last entry is the head of the list. -/
  log : List LogEntry := []

inductive QueueStep where
  | emptyQueue
  | eventStarted (id : EventId) (time : ℤ)
  | eventEnded (id : EventId) (time : ℤ)
  | reachedPoint (id : EventId) (time : ℤ)
deriving DecidableEq, Repr

namespace EventQueue

def new (netsim : Netsim.Simulator) : EventQueue where
  netsim := netsim

def recordTimelineAction (queue : EventQueue) (id : EventId) (action : Action) : EventQueue :=
  { queue with log := .action id action :: queue.log }

def recordTimelineSpan (queue : EventQueue) (id : EventId) (startTime endTime : ℤ) : EventQueue :=
  { queue with log := .span id startTime endTime :: queue.log }

/-- A time of the queue as the network counts it: the product is cast to a word of 64 bits that has
no sign, so that a time before zero becomes a huge one and a huge time wraps around. -/
def asNanos (time : ℤ) : ℕ :=
  (time * 1000 % 2 ^ 64).toNat

theorem asNanos_lt (time : ℤ) : asNanos time < 2 ^ 64 := by
  unfold asNanos
  omega

theorem asNanos_le {time : ℤ} (nonneg : 0 ≤ time) : (asNanos time : ℤ) ≤ time * 1000 := by
  unfold asNanos
  omega

theorem le_asNanos {time : ℤ} (fits : time * 1000 < 2 ^ 64) : time * 1000 ≤ asNanos time := by
  unfold asNanos
  omega

/-- One step of the network; anything but completed flows is unexpected. -/
def netsimRunOneStep (platform : Platform) (queue : EventQueue) (limit : Option ℤ) :
    Except Panic (EventQueue × ℕ × List Netsim.TraceRecord) := do
  let (netsim, appEvent) ← queue.netsim.runOneStep platform (limit.map asNanos)
  match appEvent.event with
  | .flowComplete flows => return ({ queue with netsim := netsim }, appEvent.ts, flows)
  | _ => throw .unexpectedAppEvent

/-- Insert an entry of the priority queue. -/
def pushEntry (queue : EventQueue) (event : QueueEvent) (time : ℤ) (counter : ℕ) : EventQueue :=
  { queue with eventQueue := queue.eventQueue.push event (toLex (time, counter)) }

/-- Change the time of an entry; the flag says whether it was there. -/
def changeTime (queue : EventQueue) (event : QueueEvent) (f : ℤ → ℤ) : Bool × EventQueue :=
  let (found, eventQueue) := queue.eventQueue.changePriorityBy event fun priority =>
    toLex (f (ofLex priority).1, (ofLex priority).2)
  (found, { queue with eventQueue := eventQueue })

/-- Let the flow of an event start no earlier than a given time. -/
def updateFlowStart (queue : EventQueue) (id : EventId) (newStartTime : ℤ) :
    Except Panic EventQueue :=
  match queue.eventToFlow id with
  | some flow => do
      let netsim ← queue.netsim.updateFlowStartTs flow (asNanos newStartTime)
      return { queue with netsim := netsim }
  | none => .ok queue

/-- Let the event start no earlier than a given time, and what depends on it likewise. -/
def changeStartTimeNotless (platform : Platform) : ℕ → EventQueue → EventId → ℤ →
    Except Panic EventQueue
  | 0, _, _, _ => .error .outOfFuel
  | fuel + 1, queue, id, newStartTime =>
      match queue.pending id with
      | some pending => .ok { queue with
          pending := Function.update queue.pending id
            (some { pending with depEndTime := max pending.depEndTime newStartTime }) }
      | none => do
          let queue ← queue.updateFlowStart id newStartTime
          let (isInQueueNotStarted, queue) := queue.changeTime (.startOf id) (max · newStartTime)
          let (isUnreachedPoint, queue) := queue.changeTime (.pointOf id) (max · newStartTime)
          if isInQueueNotStarted || isUnreachedPoint then return queue
          else
            match queue.started id with
            | some startTime =>
                if startTime < newStartTime then
                  let queue := { queue with
                    started := Function.update queue.started id (some newStartTime) }
                  let (found, queue) :=
                    queue.changeTime (.endOf id) (· + (newStartTime - startTime))
                  assert (found = true) Panic.endNotQueued
                  return queue
                else return queue
            | none =>
                match queue.ended id with
                | some (startTime, endTime) =>
                    if startTime < newStartTime then
                      let newEndTime := endTime + (newStartTime - startTime)
                      let queue := { queue with
                        ended := Function.update queue.ended id (some (newStartTime, newEndTime)) }
                      let queue := queue.recordTimelineSpan id newStartTime newEndTime
                      (platform.order queue.log.length (queue.revDependencies id)).foldlM
                        (fun queue e => changeStartTimeNotless platform fuel queue e newEndTime)
                        queue
                    else return queue
                | none => return queue

/-- Give a new end time to an event whose end is queued or recorded. -/
def addEndTimeTo (platform : Platform) (queue : EventQueue) (id : EventId) (newEndTime : ℤ) :
    Except Panic EventQueue := do
  let (isExecutingAction, queue) := queue.changeTime (.endOf id) fun _ => newEndTime
  let (isUnreachedPoint, queue) := queue.changeTime (.pointOf id) fun _ => newEndTime
  if isExecutingAction || isUnreachedPoint then return queue
  else
    let queue := match queue.ended id with
      | some (startTime, _) =>
          { queue with
            ended := Function.update queue.ended id
              (some (startTime, newEndTime)) }.recordTimelineSpan id startTime newEndTime
      | none => queue
    (platform.order queue.log.length (queue.revDependencies id)).foldlM
      (fun queue e => changeStartTimeNotless platform platform.fuel queue e newEndTime) queue

/-- Tell one reverse dependency that `id` has ended; events left without
dependencies are collected. -/
def noteEnded (id : EventId) (endTime : ℤ) (acc : EventQueue × List EventId) (e : EventId) :
    EventQueue × List EventId :=
  let (queue, noDepEvents) := acc
  match queue.pending e with
  | none => acc
  | some pending =>
      if some id ∈ pending.dependencies then
        let dependencies := pending.dependencies.erase (some id)
        let pending := { pending with
          dependencies := dependencies
          depEndTime := max pending.depEndTime endTime }
        ({ queue with pending := Function.update queue.pending e (some pending) },
          if dependencies = ∅ then noDepEvents ++ [e] else noDepEvents)
      else acc

/-- An event without an action is a point. -/
def pushOf (id : EventId) : Option Action → PushEvent
  | none => .pointOf id
  | some action => .startOf id action

/-- Push a pending event whose dependencies have all ended. -/
def release (push : EventQueue → PushEvent → ℤ → Except Panic EventQueue) (queue : EventQueue)
    (id : EventId) : Except Panic EventQueue := do
  let pending ← unwrap (queue.pending id) .pendingMissing
  let queue := { queue with pending := Function.update queue.pending id none }
  push queue (pushOf id pending.action) (max pending.depEndTime pending.arriveTime)

/-- Record the end of an event and push what waited for it alone. -/
def endEventWith (platform : Platform)
    (push : EventQueue → PushEvent → ℤ → Except Panic EventQueue)
    (queue : EventQueue) (id : EventId) (startTime endTime : ℤ) : Except Panic EventQueue := do
  let queue := { queue with
    ended := Function.update queue.ended id (some (startTime, endTime)) }.recordTimelineSpan
      id startTime endTime
  let revDeps := platform.order queue.log.length (queue.revDependencies id)
  let (queue, noDepEvents) := revDeps.foldl (noteEnded id endTime) (queue, [])
  noDepEvents.foldlM (release push) queue

/-- The state of the loop over a set of rolled-back flows. -/
structure RollbackLoop where
  queue : EventQueue
  rollbackedFlowset : Finset ℕ
  newFlowEnded : Bool

/-- A flow that completes while the network runs forward again. -/
def rollbackRecord (platform : Platform)
    (push : EventQueue → PushEvent → ℤ → Except Panic EventQueue)
    (id : EventId) (time : ℤ) (flow : Netsim.Flow) (appEventTs : ℕ)
    (loop : RollbackLoop) (r : Netsim.TraceRecord) : Except Panic RollbackLoop := do
  let endTime : ℤ := (appEventTs / 1000 : ℕ)
  let event ← unwrap r.flow.token .missingToken
  let loop := { loop with rollbackedFlowset := loop.rollbackedFlowset.erase r.flow.id }
  if r.flow.id = flow.id then
    let queue ← endEventWith platform push loop.queue id time endTime
    return { loop with queue := queue, newFlowEnded := true }
  else if r.flow.id ∈ loop.rollbackedFlowset then
    let queue ← addEndTimeTo platform loop.queue event endTime
    return { loop with queue := queue }
  else
    let dura ← unwrap r.dura .missingDuration
    assert (appEventTs = r.ts + dura) Panic.completionMismatch
    let startTime : ℤ := (r.ts / 1000 : ℕ)
    let overwritten := loop.queue.started event
    let queue := { loop.queue with
      started := Function.update loop.queue.started event (some startTime) }
    assert (∀ old, overwritten = some old → old = startTime) Panic.startTimeMismatch
    let queue ← push queue (.endOf event) endTime
    return { loop with queue := queue }

/-- Run the network forward until every rolled-back flow has completed again. -/
def rollbackLoop (platform : Platform)
    (push : EventQueue → PushEvent → ℤ → Except Panic EventQueue)
    (id : EventId) (time : ℤ) (flow : Netsim.Flow) : ℕ → RollbackLoop → Except Panic RollbackLoop
  | 0, _ => .error .outOfFuel
  | fuel + 1, loop =>
      if loop.rollbackedFlowset = ∅ then .ok loop
      else do
        let (queue, appEventTs, finishedFlows) ← loop.queue.netsimRunOneStep platform none
        let loop ← finishedFlows.foldlM (rollbackRecord platform push id time flow appEventTs)
          { loop with queue := queue }
        rollbackLoop platform push id time flow fuel loop

/-- Queue the start of an action. -/
def pushStart (queue : EventQueue) (id : EventId) (action : Action) (time : ℤ) (counter : ℕ) :
    EventQueue :=
  let queue := queue.pushEntry (.startOf id) time counter
  { queue with inQueueNotStarted := Function.update queue.inQueueNotStarted id (some action) }

def pushEvent (platform : Platform) : ℕ → EventQueue → PushEvent → ℤ → Except Panic EventQueue
  | 0, _, _, _ => .error .outOfFuel
  | fuel + 1, queue, event, time =>
      let counter := queue.queueCounter
      let queue := { queue with queueCounter := counter + 1 }
      match event with
      | .endOf id => .ok (queue.pushEntry (.endOf id) time counter)
      | .pointOf id => .ok (queue.pushEntry (.pointOf id) time counter)
      | .startOf id (.computation node duration info) =>
          .ok ((queue.pushStart id (.computation node duration info) time
            counter).recordTimelineAction
            id (.computation node duration info))
      | .startOf id (.communication flow info) => do
          assert (flow.token = none) Panic.tokenAlreadySet
          assert (0 ≤ time) Panic.negativeTime
          let flow := { flow with token := some id }
          let queue := queue.recordTimelineAction id (.communication flow info)
          let (netsim, onEventResult) ←
            queue.netsim.onEvent (.flowArrive [⟨time.toNat * 1000, flow, none⟩])
          let queue := { queue with netsim := netsim }
          match onEventResult with
          | .ok => return queue.pushStart id (.communication flow info) time counter
          | .simulationFinished => return queue.pushStart id (.communication flow info) time counter
          | .rollback rollbackedFlows =>
              let queue := { queue with log := .rollbacked rollbackedFlows :: queue.log }
              let loop ← rollbackLoop platform (pushEvent platform fuel) id time flow fuel
                { queue := queue
                  rollbackedFlowset := (rollbackedFlows.map fun r => r.flow.id).toFinset
                  newFlowEnded := false }
              if loop.newFlowEnded then return loop.queue
              else return loop.queue.pushStart id (.communication flow info) time counter

def push (platform : Platform) (queue : EventQueue) (event : PushEvent) (time : ℤ) :
    Except Panic EventQueue :=
  pushEvent platform platform.fuel queue event time

def endEvent (platform : Platform) (queue : EventQueue) (id : EventId) (startTime endTime : ℤ) :
    Except Panic EventQueue :=
  endEventWith platform (push platform) queue id startTime endTime

/-- The entry that comes first, and the queue without it. -/
def popEvent (platform : Platform) (queue : EventQueue) : Option (QueueEvent × ℤ × EventQueue) :=
  (queue.eventQueue.pop (platform.order 0) id).map fun (entry, eventQueue) =>
    (entry.1, (ofLex entry.2).1, { queue with eventQueue := eventQueue })

/-- Queue the end of a completed flow. -/
def queueFlowEnd (platform : Platform) (appEventTs : ℕ) (queue : EventQueue)
    (r : Netsim.TraceRecord) : Except Panic EventQueue := do
  let flowEventId ← unwrap r.flow.token .missingToken
  let dura ← unwrap r.dura .missingDuration
  assert (appEventTs = r.ts + dura) Panic.completionMismatch
  queue.push platform (.endOf flowEventId) (appEventTs / 1000 : ℕ)

/-- Run the network to its next completion and queue the ends of the completed flows. -/
def tryProceedNetsim (platform : Platform) (queue : EventQueue) :
    Except Panic (EventQueue × Bool) := do
  let (queue, appEventTs, finishedFlows) ← queue.netsimRunOneStep platform none
  if finishedFlows = [] then return (queue, false)
  else
    let queue ← finishedFlows.foldlM (queueFlowEnd platform appEventTs) queue
    return (queue, true)

/-- The time of the entry that comes first, running the network when the queue is empty. -/
def peekNextTimeLoop (platform : Platform) : ℕ → EventQueue → Except Panic (EventQueue × Option ℤ)
  | 0, _ => .error .outOfFuel
  | fuel + 1, queue =>
      match queue.eventQueue.peek (platform.order 0) id with
      | some entry => .ok (queue, some (ofLex entry.2).1)
      | none => do
          let (queue, proceeded) ← queue.tryProceedNetsim platform
          if proceeded then peekNextTimeLoop platform fuel queue else return (queue, none)

def peekNextTime (platform : Platform) (queue : EventQueue) :
    Except Panic (EventQueue × Option ℤ) :=
  peekNextTimeLoop platform platform.fuel queue

/-- The end of a computation is known when it starts; the end of a flow comes from the network. -/
def scheduleEnd (platform : Platform) (queue : EventQueue) (id : EventId) (action : Action)
    (eventTime : ℤ) : Except Panic EventQueue :=
  match action with
  | .computation _ duration _ => queue.push platform (.endOf id) (eventTime + duration)
  | .communication _ _ => .ok queue

/-- Handle the entry taken from the queue. -/
def executeEvent (platform : Platform) (queue : EventQueue) (event : QueueEvent) (eventTime : ℤ) :
    Except Panic (EventQueue × QueueStep) :=
  match event with
  | .pointOf id => do
      let queue ← queue.endEvent platform id eventTime eventTime
      return (queue, .reachedPoint id eventTime)
  | .endOf id => do
      let startTime ← unwrap (queue.started id) .startedMissing
      let queue := { queue with started := Function.update queue.started id none }
      let queue ← queue.endEvent platform id startTime eventTime
      return (queue, .eventEnded id eventTime)
  | .startOf id => do
      let action ← unwrap (queue.inQueueNotStarted id) .actionMissing
      let queue := { queue with
        inQueueNotStarted := Function.update queue.inQueueNotStarted id none }
      let queue ← queue.scheduleEnd platform id action eventTime
      let queue := { queue with started := Function.update queue.started id (some eventTime) }
      return (queue, .eventStarted id eventTime)

def executeLoop (platform : Platform) : ℕ → EventQueue → Except Panic (EventQueue × QueueStep)
  | 0, _ => .error .outOfFuel
  | fuel + 1, queue =>
      match queue.popEvent platform with
      | none => do
          let (queue, proceeded) ← queue.tryProceedNetsim platform
          if proceeded then executeLoop platform fuel queue else return (queue, .emptyQueue)
      | some (event, eventTime, queue) => queue.executeEvent platform event eventTime

def execute (platform : Platform) (queue : EventQueue) : Except Panic (EventQueue × QueueStep) :=
  executeLoop platform platform.fuel queue

/-- Record `id` as a reverse dependency of `dep`. -/
def addRevDependency (queue : EventQueue) (dep id : EventId) : EventQueue :=
  { queue with
    revDependencies := Function.update queue.revDependencies dep
      (if id ∈ queue.revDependencies dep then queue.revDependencies dep
        else queue.revDependencies dep ++ [id]) }

/-- Register one dependency of a new event; an ended one only raises its arrival time. -/
def registerDependency (id : EventId) (acc : EventQueue × Finset (Option EventId) × ℤ)
    (dep : Option EventId) : EventQueue × Finset (Option EventId) × ℤ :=
  let (queue, depends, currentTime) := acc
  match dep with
  | none => (queue, insert none depends, currentTime)
  | some dep =>
      match queue.ended dep with
      | none => (queue.addRevDependency dep id, insert (some dep) depends, currentTime)
      | some (_, depEndTime) =>
          (queue.addRevDependency dep id, depends, max currentTime depEndTime)

/-- Give a new event its identifier. -/
def issue (queue : EventQueue) (dependsOn : List (Option EventId)) (action : Option Action)
    (currentTime : ℤ) : EventQueue :=
  { queue with
    eventCounter := queue.eventCounter + 1
    log := .added queue.eventCounter dependsOn action currentTime :: queue.log
    eventToFlow := match action with
      | some (.communication flow _) =>
          Function.update queue.eventToFlow queue.eventCounter (some flow)
      | _ => queue.eventToFlow }

def addActionOrPoint (platform : Platform) (queue : EventQueue)
    (dependsOn : List (Option EventId)) (action : Option Action) (currentTime : ℤ) :
    Except Panic (EventQueue × EventId) := do
  let id := queue.eventCounter
  let (queue, depends, currentTime) :=
    dependsOn.foldl (registerDependency id)
      (queue.issue dependsOn action currentTime, ∅, currentTime)
  if depends = ∅ then
    let queue ← queue.push platform (pushOf id action) currentTime
    return (queue, id)
  else
    return ({ queue with
      pending := Function.update queue.pending id (some ⟨depends, currentTime, 0, action⟩) }, id)

/-- Add a dependency to a pending event; one that has ended is only registered. -/
def addDependency (queue : EventQueue) (id : EventId) (dep : Option EventId) :
    Except Panic EventQueue := do
  let queue := match dep with
    | some dep => queue.addRevDependency dep id
    | none => queue
  if dep.any fun dep => (queue.ended dep).isSome then return queue
  else
    let pending ← unwrap (queue.pending id) .dependencyOfReleased
    return { queue with
      pending := Function.update queue.pending id
        (some { pending with dependencies := insert dep pending.dependencies }) }

def removeNoneDependency (platform : Platform) (queue : EventQueue) (id : EventId) :
    Except Panic EventQueue :=
  match queue.pending id with
  | none => .ok queue
  | some pending =>
      let dependencies := pending.dependencies.erase none
      let queue := { queue with
        pending := Function.update queue.pending id
          (some { pending with dependencies := dependencies }) }
      if dependencies = ∅ then release (push platform) queue id
      else .ok queue

def query (queue : EventQueue) (id : EventId) : Option ℤ :=
  (queue.ended id).map Prod.snd

end EventQueue

end Phantora
