import Phantora.Lib.Runs
import Phantora.Simulator.Nccl

/-!
# Handling messages

The server handles one message at a time. A run of the server is a sequence of
messages from any hosts and threads, in any order, each handled successfully.
-/

namespace Phantora

open Outcome

/-- A message of a client. -/
inductive Message where
  | cuda (msg : CudaCallMsg)
  | torch (call : TorchCall)
  | exit (host : ResponseId) (currTime : ℤ)

namespace Simulator

def handleCudaCall (env : Environment) (sim : Simulator) (msg : CudaCallMsg) :
    Except Panic Simulator :=
  let host := msg.id
  let currTime := msg.currTime
  let call := msg.call
  let sim := sim.updateHostCurr host.host currTime
  match msg.call with
  | .cudaMemcpyAsync size kind stream =>
      sim.cudaMemcpyAsync env host currTime size kind stream call
  | .cudaDeviceSynchronize device => sim.cudaDeviceSynchronize env host currTime device
  | .cudaStreamSynchronize stream => sim.cudaStreamSynchronize env host currTime stream
  | .cudaStreamWaitEvent stream event => sim.cudaStreamWaitEvent env host currTime stream event
  | .cudaStreamQuery stream => sim.cudaStreamQuery env host currTime stream
  | .cudaEventRecord event => sim.cudaEventRecord env host currTime event
  | .cudaEventSynchronize event => sim.cudaEventSynchronize env host currTime event
  | .cudaEventQuery event => sim.cudaEventQuery env host currTime event
  | .cudaAddLatency stream latency => sim.cudaAddLatency env host currTime stream latency call
  | .flashAttnCall stream _ _ _ _ _ _ _ _ _ _ _ => sim.flashAttnCall env host currTime stream call
  | .ncclGetUniqueId => .ok (sim.ncclGetUniqueId host)
  | .ncclCommInitRank device rank nranks id =>
      sim.ncclCommInitRank env host currTime device rank nranks id
  | .ncclCommSplit comm color key => sim.ncclCommSplit env host currTime comm color key
  | .ncclBcast count dtype root comm stream =>
      sim.ncclBcast env host currTime count dtype root comm stream call
  | .ncclAllReduce count dtype _ comm stream =>
      sim.handleNcclOp env .allreduce host currTime comm stream call fun ranks nextFlowId =>
        SimpleRing.allreduce ranks count dtype nextFlowId
  | .ncclAllGather count dtype comm stream =>
      sim.handleNcclOp env .allgather host currTime comm stream call fun ranks nextFlowId =>
        SimpleRing.allgather ranks count dtype nextFlowId
  | .ncclReduceScatter count dtype _ comm stream =>
      sim.handleNcclOp env .reduceScatter host currTime comm stream call fun ranks nextFlowId =>
        SimpleRing.reduceScatter ranks count dtype nextFlowId
  | .ncclSend count dtype peer comm stream =>
      sim.ncclUngroupedSend env host.host currTime count dtype peer comm stream
  | .ncclRecv count dtype peer comm stream =>
      sim.ncclUngroupedRecv env host.host currTime count dtype peer comm stream
  | .ncclP2pGroup calls => sim.ncclGroupedP2P env host.host currTime calls
  | .readTimer _ => .ok (sim.readTimer host currTime)

/-- Handle a message. -/
def dispatch (env : Environment) (sim : Simulator) : Message → Except Panic Simulator
  | .cuda msg => sim.handleCudaCall env msg
  | .torch call => .ok (sim.handleTorchCall env call)
  | .exit host currTime => .ok (sim.handleExit host currTime)

/-- Handle a message and count it. -/
def handle (env : Environment) (sim : Simulator) (message : Message) : Except Panic Simulator := do
  let sim ← sim.dispatch env message
  return { sim with handled := sim.handled + 1 }

/-- The server when it starts. -/
def Initial (sim : Simulator) : Prop :=
  ∃ cluster setting hostMapping, sim = new (Netsim.Simulator.build cluster setting hostMapping)

/-- A message is handled. -/
def Step (env : Environment) (sim : Simulator) (message : Message) (sim' : Simulator) : Prop :=
  sim.handle env message = .ok sim'

/-- The messages lead to the state, whatever the order in which they arrive. -/
abbrev Reached (env : Environment) : List Message → Simulator → Prop :=
  Runs.Reached Initial (Step env)

theorem reached_of_foldlM {env : Environment} {inputs : List Message} {sim sim' : Simulator}
    (initial : Initial sim) (run : inputs.foldlM (handle env) sim = .ok sim') :
    Reached env inputs sim' :=
  Runs.reached_of_foldlM id initial run

/-- A server of two hosts that has received nothing. -/
def pair : Simulator :=
  new (Netsim.Simulator.build .pair {} none)

theorem initial_pair : Initial pair :=
  ⟨_, _, _, rfl⟩

end Simulator

/-- Surroundings that keep insertion order and measure one microsecond each time. -/
def Environment.plain (fuel : ℕ) : Environment where
  toPlatform := .inOrder fuel
  profiler := {
    memcpy := fun _ _ _ => 1000
    flashAttn := fun _ _ => 1000
    torch := fun _ _ _ => 1000
    hashSequence := fun _ => 0
    disableSequenceCall := false }

/-- A thread of the process on the left or the right host. -/
def leftThread (tid : ℤ) : ResponseId := ⟨⟨"left", 0⟩, tid⟩

def rightThread (tid : ℤ) : ResponseId := ⟨⟨"right", 0⟩, tid⟩

end Phantora
