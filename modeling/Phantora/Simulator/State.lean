import Phantora.Estimator
import Phantora.EventQueue.Model
import Phantora.NcclOps

/-!
# The state of the simulator server

The streams with their events and buffered torch calls, the waiting maps of
the communicator operations, and what the server has sent. The history records
what happened to requests and to NCCL calls; no function of the server reads it.
-/

namespace Phantora

open Outcome

inductive SyncPoint where
  | static (time : ℤ)
  | eventEnd (event : EventId)
deriving DecidableEq, Repr

structure HostTime where
  sync : SyncPoint
  curr : ℤ
deriving DecidableEq, Repr

/-- The events of a stream, in issue order, and the torch calls not yet turned into events. -/
structure StreamInfo where
  events : List EventId := []
  buffered : List (TorchCall × ℕ) := []

/-- A stream of a process. -/
abbrev HostStream := HostId × CudaStream

/-- A map from streams; a stream that is not among the keys has no entry. -/
structure StreamTable where
  keys : List HostStream := []
  info : HostStream → StreamInfo := fun _ => {}

namespace StreamTable

instance (table : StreamTable) (key : HostStream) : Decidable (key ∈ table.keys) :=
  inferInstance

/-- `entry(key).or_insert_with(Default::default)`, then a change of the entry. -/
def modify (table : StreamTable) (key : HostStream) (f : StreamInfo → StreamInfo) :
    StreamTable where
  keys := if key ∈ table.keys then table.keys else table.keys ++ [key]
  info := Function.update table.info key (f (table.info key))

end StreamTable

structure InitWaiting where
  joinedRanks : ℤ → Option (ResponseId × ℤ)
  waitingFor : Finset ℤ

structure SplitInfo where
  host : ResponseId
  device : ℤ
  color : ℤ
  key : ℤ
deriving DecidableEq, Repr

structure SplitWaiting where
  joinedRanks : List (ℤ × SplitInfo)
  waitingFor : Finset ℤ

/-- A communicator with a sender and a receiver rank. -/
abbrev P2PKey := NcclId × ℤ × ℤ

inductive P2PCallKind where
  | send
  | recv
deriving DecidableEq, Repr

/-- Which NCCL call of the run this is: the number of its message and its position there. -/
structure IssueTag where
  message : ℕ
  position : ℕ
deriving DecidableEq, Repr

/-- A send or a receive of a group. -/
structure P2PCallInfo where
  kind : P2PCallKind
  key : P2PKey
  stream : CudaStream
  count : ℕ
  dtype : NcclDatatype
  tag : IssueTag

/-- One end of a point-to-point transfer. -/
structure P2PFlowEndpoint where
  host : HostId
  stream : CudaStream
  currTime : ℤ
  count : ℕ
  dtype : NcclDatatype
  flowStart : EventId
  flowEnd : EventId
  unmatchedBarrier : EventId
  tag : IssueTag

/-- The collective operations, each with a waiting map of its own. -/
inductive Collective where
  | bcast
  | allreduce
  | allgather
  | reduceScatter
deriving DecidableEq, Repr

/-- An instance of a collective operation that not all ranks have joined. -/
structure CCWaiting where
  trace : Trace
  commStartMeta : EventId
  commEndMeta : EventId
  commBarrier : EventId
  joinedRanks : Finset ℤ
  waitingFor : Finset ℤ

/-- What the server sends to a client. -/
inductive Response where
  | sync (endTime : ℤ)
  | query (ready : Option ℤ)
  | uniqueId (id : NcclId)
  | split (rank nranks : ℤ) (id : NcclId) (endTime : ℤ)
  | noColor
deriving DecidableEq

/-- What the history records. -/
inductive Occurrence where
  /-- A blocking request waits for an event. -/
  | awaits (request : ResponseId) (event : EventId) (currTime : ℤ)
  /-- A reply to a blocking request, with the event that it reports. -/
  | synced (request : ResponseId) (endTime : ℤ) (event : Option EventId)
  /-- A reply to a poll at a time. -/
  | polled (request : ResponseId) (currTime : ℤ) (event : Option EventId) (ready : Option ℤ)
  /-- `execute` has reported the end of an event. -/
  | reported (event : EventId) (time : ℤ)
  /-- A rank joins the instance of a collective that a barrier identifies. -/
  | joined (op : Collective) (id : NcclId) (barrier : EventId) (rank : ℤ)
      (streamStart streamEnd : EventId)
  /-- The flows of an instance are created. -/
  | completed (op : Collective) (id : NcclId) (barrier : EventId) (flows : List EventId)
  /-- A point-to-point call is offered for matching. -/
  | offered (kind : P2PCallKind) (key : P2PKey) (tag : IssueTag)
  /-- A send and a receive are matched, and their flow is created. -/
  | matched (key : P2PKey) (send recv : IssueTag) (flow : EventId)
deriving DecidableEq

/-- The first identifier that the server issues. -/
def firstId : NcclId := ⟨List.replicate 128 0, by simp⟩

structure Simulator where
  cudaEstimator : CudaEstimator := {}
  torchEstimator : TorchEstimator := {}
  queue : EventQueue
  streamInfo : StreamTable := {}
  idOfCuda : HostId × CudaEvent → Option EventId := fun _ => none
  syncing : EventId → Option ResponseId := fun _ => none
  hostTimes : HostId → Option HostTime := fun _ => none
  exitedHosts : HostId → Option ℤ := fun _ => none
  ncclUniqueId : NcclId := firstId
  /-- The counter behind `Flow::new`. -/
  nextFlowId : ℕ := 0
  commGroups : NcclId → Option Ranks := fun _ => none
  initWaiting : NcclId → Option InitWaiting := fun _ => none
  splitWaiting : NcclId → Option SplitWaiting := fun _ => none
  ccWaiting : Collective → NcclId → Option (List CCWaiting) := fun _ _ => none
  sendWaiting : P2PKey → Option (List P2PFlowEndpoint) := fun _ => none
  recvWaiting : P2PKey → Option (List P2PFlowEndpoint) := fun _ => none
  /-- What has been sent, the last response first. -/
  sent : List (ResponseId × Response) := []
  /-- The number of messages handled. -/
  handled : ℕ := 0
  /-- The last occurrence first. -/
  history : List Occurrence := []

/-- The surroundings of the server. -/
structure Environment extends Platform where
  profiler : Profiler

namespace Simulator

def new (netsim : Netsim.Simulator) : Simulator where
  queue := .new netsim

/-- Record an occurrence. -/
def note (sim : Simulator) (occurrence : Occurrence) : Simulator :=
  { sim with history := occurrence :: sim.history }

def sendResponseTo (sim : Simulator) (host : ResponseId) (response : Response) : Simulator :=
  { sim with sent := (host, response) :: sim.sent }

def updateHostSync (sim : Simulator) (host : HostId) (curr : ℤ) (event : Option EventId) :
    Simulator :=
  let sync := match event with
    | none => .static curr
    | some event => .eventEnd event
  let time := match sim.hostTimes host with
    | some time => { sync := sync, curr := max time.curr curr }
    | none => { sync := sync, curr := curr }
  { sim with hostTimes := Function.update sim.hostTimes host (some time) }

def updateHostCurr (sim : Simulator) (host : HostId) (curr : ℤ) : Simulator :=
  let time := match sim.hostTimes host with
    | some time => { time with curr := max time.curr curr }
    | none => { sync := .static curr, curr := curr }
  { sim with hostTimes := Function.update sim.hostTimes host (some time) }

def sendSyncResponseTo (sim : Simulator) (host : ResponseId) (endTime : ℤ)
    (event : Option EventId) : Simulator :=
  ((sim.sendResponseTo host (.sync endTime)).note (.synced host endTime event)).updateHostSync
    host.host endTime event

def sendQueryResponseTo (sim : Simulator) (host : ResponseId)
    (ready : Option (ℤ × Option EventId)) (currTime : ℤ) : Simulator :=
  let sim := sim.sendResponseTo host (.query (ready.map Prod.fst))
  match ready with
  | some (endTime, event) => sim.updateHostSync host.host endTime event
  | none => sim.updateHostCurr host.host currTime

end Simulator

end Phantora
