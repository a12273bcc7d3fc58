import Phantora.Simulator.State

/-!
# Streams and the CUDA calls

Work is submitted to a stream behind its last event. Torch calls are only
buffered when they arrive and become events when the stream is next used. The
queue is executed up to an event or up to a time, and requests that wait for an
event are answered when it ends.
-/

namespace Phantora

open Outcome

/-- A torch call on its own keeps its estimate; a sequence is estimated as a whole. -/
inductive TorchCallSeq where
  | single (call : TorchCall) (duration : ℕ)
  | seq (calls : List TorchCall)
deriving DecidableEq, Repr

namespace TorchCallSeq

def new : List (TorchCall × ℕ) → TorchCallSeq
  | [(call, duration)] => single call duration
  | calls => seq (calls.map Prod.fst)

end TorchCallSeq

/-- The sequences so far, the calls of the last one and the time it ends. -/
structure SplitState where
  seqs : List TorchCallSeq
  lastSeq : List (TorchCall × ℕ)
  currEndTime : ℤ

/-- A call that starts while the device is busy joins the last sequence. -/
def splitStep (state : SplitState) (entry : TorchCall × ℕ) : SplitState :=
  if entry.1.time ≤ state.currEndTime then
    { state with
      lastSeq := state.lastSeq ++ [entry]
      currEndTime := state.currEndTime + asMicros entry.2 }
  else
    { seqs := state.seqs ++ [.new state.lastSeq]
      lastSeq := [entry]
      currEndTime := entry.1.time + asMicros entry.2 }

def splitSequences (profiler : Profiler) (calls : List (TorchCall × ℕ)) : List TorchCallSeq :=
  match calls with
  | [] => []
  | first :: _ =>
      if profiler.disableSequenceCall then calls.map fun entry => .single entry.1 entry.2
      else
        let state := calls.foldl splitStep ⟨[], [], first.1.time⟩
        state.seqs ++ [.new state.lastSeq]

namespace Simulator

def addActionOrPoint (env : Environment) (sim : Simulator) (dependsOn : List (Option EventId))
    (action : Option Action) (currentTime : ℤ) : Except Panic (Simulator × EventId) := do
  let (queue, id) ← sim.queue.addActionOrPoint env.toPlatform dependsOn action currentTime
  return ({ sim with queue := queue }, id)

def addDependency (sim : Simulator) (id : EventId) (dep : Option EventId) :
    Except Panic Simulator := do
  let queue ← sim.queue.addDependency id dep
  return { sim with queue := queue }

def removeNoneDependency (env : Environment) (sim : Simulator) (id : EventId) :
    Except Panic Simulator := do
  let queue ← sim.queue.removeNoneDependency env.toPlatform id
  return { sim with queue := queue }

/-- `sinfo.events.last()`. -/
def lastEvent (sim : Simulator) (stream : HostStream) : Option EventId :=
  (sim.streamInfo.info stream).events.getLast?

/-- Add an event that also depends on the last event of the stream, and append it there. -/
def submit (env : Environment) (sim : Simulator) (stream : HostStream)
    (dependsOn : List (Option EventId)) (action : Option Action) (currentTime : ℤ) :
    Except Panic (Simulator × EventId) := do
  let (sim, id) ← sim.addActionOrPoint env
    (dependsOn ++ ((sim.lastEvent stream).map some).toList) action currentTime
  return ({ sim with
    streamInfo := sim.streamInfo.modify stream fun sinfo =>
      { sinfo with events := sinfo.events ++ [id] } }, id)

/-- Submit the calls of one sequence with their durations. -/
def submitCalls (env : Environment) (stream : HostStream) :
    List TorchCall → List ℕ → Simulator → Except Panic Simulator
  | [], _, sim => .ok sim
  | call :: calls, callDurs, sim => do
      let duration ← unwrap callDurs.head? .missingCallDuration
      let (sim, _) ← sim.submit env stream []
        (some (.computation call.id.host (asMicros duration) (.torch call))) call.time
      submitCalls env stream calls callDurs.tail sim

/-- Estimate one sequence and submit its calls. -/
def submitSeq (env : Environment) (stream : HostStream) (sim : Simulator) :
    TorchCallSeq → Except Panic Simulator
  | .single call duration => submitCalls env stream [call] [duration] sim
  | .seq calls =>
      let (estimator, callDurs) := sim.torchEstimator.estimateSequence env.profiler calls
      submitCalls env stream calls callDurs { sim with torchEstimator := estimator }

/-- Turn the buffered torch calls of a stream into events. -/
def clearComputeBufferOn (env : Environment) (sim : Simulator) (stream : HostStream) :
    Except Panic Simulator :=
  let calls := (sim.streamInfo.info stream).buffered
  let sim := { sim with
    streamInfo := sim.streamInfo.modify stream fun sinfo => { sinfo with buffered := [] } }
  (splitSequences env.profiler calls).foldlM (submitSeq env stream) sim

/-- Stream add event. -/
def addEvent (env : Environment) (sim : Simulator) (stream : HostStream)
    (dependsOn : List (Option EventId)) (action : Option Action) (currentTime : ℤ) :
    Except Panic (Simulator × EventId) := do
  let sim ← sim.clearComputeBufferOn env stream
  sim.submit env stream dependsOn action currentTime

/-- An event has ended: answer the request that waits for it. -/
def reportEnd (sim : Simulator) (id : EventId) (time : ℤ) : Simulator :=
  let sim := sim.note (.reported id time)
  match sim.syncing id with
  | some host =>
      ({ sim with syncing := Function.update sim.syncing id none }).sendSyncResponseTo
        host time (some id)
  | none => sim

def executeToEvent (env : Environment) (until_ : EventId) :
    ℕ → Simulator → Except Panic (Simulator × Bool)
  | 0, _ => .error .outOfFuel
  | fuel + 1, sim => do
      let (queue, step) ← sim.queue.execute env.toPlatform
      let sim := { sim with queue := queue }
      match step with
      | .emptyQueue => return (sim, false)
      | .eventStarted _ _ => executeToEvent env until_ fuel sim
      | .eventEnded id time =>
          if id = until_ then return (sim.reportEnd id time, true)
          else executeToEvent env until_ fuel (sim.reportEnd id time)
      | .reachedPoint id time =>
          if id = until_ then return (sim.reportEnd id time, true)
          else executeToEvent env until_ fuel (sim.reportEnd id time)

def executeToTime (env : Environment) (until_ : ℤ) :
    ℕ → Simulator → Except Panic (Simulator × Bool)
  | 0, _ => .error .outOfFuel
  | fuel + 1, sim => do
      let (queue, next) ← sim.queue.peekNextTime env.toPlatform
      let sim := { sim with queue := queue }
      match next with
      | none => return (sim, false)
      | some nextTime =>
          if until_ ≤ nextTime then return (sim, true)
          else do
            let (queue, step) ← sim.queue.execute env.toPlatform
            let sim := { sim with queue := queue }
            match step with
            | .emptyQueue => return (sim, false)
            | .eventStarted _ _ => executeToTime env until_ fuel sim
            | .eventEnded id time => executeToTime env until_ fuel (sim.reportEnd id time)
            | .reachedPoint id time => executeToTime env until_ fuel (sim.reportEnd id time)

/-- Let a request wait for an event. -/
def awaitEvent (sim : Simulator) (host : ResponseId) (event : EventId) : Simulator :=
  { sim with syncing := Function.update sim.syncing event (some host) }

/-- A computation on a stream: a copy, an attention kernel or a latency. -/
def addComputation (env : Environment) (sim : Simulator) (host : HostId) (currTime : ℤ)
    (stream : CudaStream) (duration : ℤ) (call : CudaCall) : Except Panic Simulator := do
  let (sim, _) ← sim.addEvent env (host, stream) []
    (some (.computation host duration (.cuda call))) currTime
  return sim

def cudaMemcpyAsync (env : Environment) (sim : Simulator) (host : ResponseId) (currTime : ℤ)
    (size : ℕ) (kind : CudaMemcpyKind) (stream : CudaStream) (call : CudaCall) :
    Except Panic Simulator :=
  let (estimator, compTime) := sim.cudaEstimator.memcpy env.profiler kind size
  { sim with cudaEstimator := estimator }.addComputation env host.host currTime stream
    (asMicros compTime) call

def cudaAddLatency (env : Environment) (sim : Simulator) (host : ResponseId) (currTime : ℤ)
    (stream : CudaStream) (latency : ℤ) (call : CudaCall) : Except Panic Simulator :=
  sim.addComputation env host.host currTime stream latency call

def flashAttnCall (env : Environment) (sim : Simulator) (host : ResponseId) (currTime : ℤ)
    (stream : CudaStream) (call : CudaCall) : Except Panic Simulator :=
  let (estimator, compTime) := sim.cudaEstimator.flashAttn env.profiler call
  { sim with cudaEstimator := estimator }.addComputation env host.host currTime stream
    (asMicros compTime) call

/-- Flush one stream and collect its last event. -/
def collectLast (env : Environment) (acc : Simulator × List (Option EventId))
    (stream : HostStream) : Except Panic (Simulator × List (Option EventId)) := do
  let sim ← acc.1.clearComputeBufferOn env stream
  return (sim, acc.2 ++ ((sim.lastEvent stream).map some).toList)

def cudaDeviceSynchronize (env : Environment) (sim : Simulator) (host : ResponseId) (currTime : ℤ)
    (device : ℤ) : Except Panic Simulator := do
  let streams := (env.order sim.handled sim.streamInfo.keys).filter fun stream =>
    decide (stream.1 = host.host ∧ stream.2.device = device)
  let (sim, dependsOn) ← streams.foldlM (collectLast env) (sim, [])
  let (sim, event) ← sim.addActionOrPoint env dependsOn none currTime
  let sim := (sim.note (.awaits host event currTime)).awaitEvent host event
  let (sim, _) ← executeToEvent env event env.fuel sim
  return sim

def cudaStreamSynchronize (env : Environment) (sim : Simulator) (host : ResponseId)
    (currTime : ℤ) (stream : CudaStream) : Except Panic Simulator := do
  let (sim, event) ← sim.addEvent env (host.host, stream) [] none currTime
  let sim := (sim.note (.awaits host event currTime)).awaitEvent host event
  let (sim, _) ← executeToEvent env event env.fuel sim
  return sim

def cudaStreamWaitEvent (env : Environment) (sim : Simulator) (host : ResponseId) (currTime : ℤ)
    (stream : CudaStream) (event : CudaEvent) : Except Panic Simulator := do
  let event ← unwrap (sim.idOfCuda (host.host, event)) .unknownEvent
  let (sim, _) ← sim.addEvent env (host.host, stream) [some event] none currTime
  return sim

/-- Answer a poll by the recorded end of the event, if it has one. -/
def replyToPoll (sim : Simulator) (host : ResponseId) (currTime : ℤ) (event : Option EventId)
    (ready : Option (ℤ × Option EventId)) : Simulator :=
  (sim.note (.polled host currTime event (ready.map Prod.fst))).sendQueryResponseTo host ready
    currTime

def cudaStreamQuery (env : Environment) (sim : Simulator) (host : ResponseId) (currTime : ℤ)
    (stream : CudaStream) : Except Panic Simulator := do
  let key := (host.host, stream)
  let flushed := if key ∈ sim.streamInfo.keys then sim.clearComputeBufferOn env key else .ok sim
  let sim ← flushed
  let last := sim.lastEvent key
  let (sim, _) ← executeToTime env currTime env.fuel sim
  match last with
  | some event =>
      return sim.replyToPoll host currTime (some event)
        ((sim.queue.query event).map fun time => (time, some event))
  | none => return sim.replyToPoll host currTime none (some (currTime, none))

def cudaEventRecord (env : Environment) (sim : Simulator) (host : ResponseId) (currTime : ℤ)
    (event : CudaEvent) : Except Panic Simulator := do
  let (sim, id) ← sim.addEvent env (host.host, ⟨event.device, event.stream⟩) [] none currTime
  return { sim with idOfCuda := Function.update sim.idOfCuda (host.host, event) (some id) }

def cudaEventSynchronize (env : Environment) (sim : Simulator) (host : ResponseId)
    (currTime : ℤ) (event : CudaEvent) : Except Panic Simulator := do
  let (sim, _) ← executeToTime env currTime env.fuel sim
  let event ← unwrap (sim.idOfCuda (host.host, event)) .unknownEvent
  let sim := sim.note (.awaits host event currTime)
  match sim.queue.query event with
  | some time => return sim.sendSyncResponseTo host time (some event)
  | none => do
      let (sim, _) ← executeToEvent env event env.fuel (sim.awaitEvent host event)
      return sim

def cudaEventQuery (env : Environment) (sim : Simulator) (host : ResponseId) (currTime : ℤ)
    (event : CudaEvent) : Except Panic Simulator := do
  let (sim, _) ← executeToTime env currTime env.fuel sim
  let event ← unwrap (sim.idOfCuda (host.host, event)) .unknownEvent
  return sim.replyToPoll host currTime (some event)
    ((sim.queue.query event).map fun time => (time, some event))

def readTimer (sim : Simulator) (host : ResponseId) (currTime : ℤ) : Simulator :=
  sim.updateHostCurr host.host currTime

def handleTorchCall (env : Environment) (sim : Simulator) (call : TorchCall) : Simulator :=
  let sim := sim.updateHostCurr call.id.host call.time
  let (estimator, compDur) := sim.torchEstimator.estimate env.profiler call.info
  { sim with
    torchEstimator := estimator
    streamInfo := sim.streamInfo.modify (call.id.host, call.stream) fun sinfo =>
      { sinfo with buffered := sinfo.buffered ++ [(call, compDur)] } }

def handleExit (sim : Simulator) (host : ResponseId) (currTime : ℤ) : Simulator :=
  { sim with exitedHosts := Function.update sim.exitedHosts host.host (some currTime) }

end Simulator

end Phantora
