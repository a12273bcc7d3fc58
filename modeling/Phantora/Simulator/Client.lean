import Phantora.Simulator.Splits

/-!
# The client of a thread

A thread collects its NCCL calls between the start and the end of a group. At
the end it sends them, the point-to-point calls as one message after the others,
and then reads one response for every initialisation and every split, in the
order of the calls.
-/

namespace Phantora

/-- A send or a receive. -/
def CudaCall.isP2P : CudaCall → Bool
  | .ncclSend _ _ _ _ _ => true
  | .ncclRecv _ _ _ _ _ => true
  | _ => false

/-- An initialisation of a communicator of one rank, which is not sent. -/
def CudaCall.isSingleInit : CudaCall → Bool
  | .ncclCommInitRank _ _ nranks _ => nranks ≤ 1
  | _ => false

/-- A call of the NCCL library that a group may contain. -/
def CudaCall.isGrouped : CudaCall → Bool
  | .ncclCommInitRank _ _ _ _ => true
  | .ncclCommSplit _ _ _ => true
  | .ncclBcast _ _ _ _ _ => true
  | .ncclAllReduce _ _ _ _ _ => true
  | .ncclAllGather _ _ _ _ => true
  | .ncclReduceScatter _ _ _ _ _ => true
  | .ncclSend _ _ _ _ _ => true
  | .ncclRecv _ _ _ _ _ => true
  | _ => false

/-- A call that the client reads a response for. -/
def CudaCall.isResponsed : CudaCall → Bool
  | .ncclCommInitRank _ _ nranks _ => 1 < nranks
  | .ncclCommSplit _ _ _ => true
  | _ => false

/-- What a client does in one call: the calls that it sends, in order, and then the calls whose
responses it reads, in order. -/
structure Exchange where
  sends : List CudaCall := []
  reads : List CudaCall := []

structure NcclCaller where
  groupCounter : ℕ := 0
  groupedCalls : List CudaCall := []

namespace NcclCaller

def groupStart (caller : NcclCaller) : NcclCaller :=
  { caller with groupCounter := caller.groupCounter + 1 }

/-- What the end of a group sends and reads. -/
def flush (calls : List CudaCall) : Exchange where
  sends := (calls.filter fun call => !call.isP2P && !call.isSingleInit) ++
    (if (calls.filter CudaCall.isP2P).isEmpty then []
      else [.ncclP2pGroup (calls.filter CudaCall.isP2P)])
  reads := calls.filter CudaCall.isResponsed

def groupEnd (caller : NcclCaller) : NcclCaller × Exchange :=
  if caller.groupCounter - 1 = 0 then
    ({ groupCounter := 0, groupedCalls := [] }, flush caller.groupedCalls)
  else ({ caller with groupCounter := caller.groupCounter - 1 }, {})

def call (caller : NcclCaller) (call : CudaCall) : NcclCaller × Exchange :=
  if 0 < caller.groupCounter then
    ({ caller with groupedCalls := caller.groupedCalls ++ [call] }, {})
  else if call.isSingleInit then (caller, {})
  else (caller, ⟨[call], [call].filter CudaCall.isResponsed⟩)

end NcclCaller

/-- A call that a client reads a response for, by its kind and its communicator. -/
inductive CommCall where
  | init (id : NcclId)
  | split (id : NcclId)
deriving DecidableEq

/-- The communicator of a call. -/
def CommCall.id : CommCall → NcclId
  | .init id => id
  | .split id => id

/-- The response is one to such a call. -/
def CommCall.Suits : CommCall → Response → Prop
  | .init _, response => ∃ endTime, response = .sync endTime
  | .split _, response => (∃ rank nranks id time, response = .split rank nranks id time) ∨
      response = .noColor

/-- What the call joins, and as which rank. -/
def CudaCall.joins? : CudaCall → Option (CommCall × ℤ)
  | .ncclCommInitRank _ rank _ id => some (.init id, rank)
  | .ncclCommSplit comm _ _ => some (.split comm.id, comm.rank)
  | _ => none

/-- The number of ranks that join the same, if the server knows it. -/
def CudaCall.size? (sim : Simulator) : CudaCall → Option ℤ
  | .ncclCommInitRank _ _ nranks _ => some nranks
  | .ncclCommSplit comm _ _ => (sim.commGroups comm.id).map fun hosts => (hosts.length : ℤ)
  | _ => none

def Message.joins? : Message → Option (CommCall × ℤ)
  | .cuda msg => msg.call.joins?
  | _ => none

def Message.size? (sim : Simulator) : Message → Option ℤ
  | .cuda msg => msg.call.size? sim
  | _ => none

/-- The thread that sends the message. -/
def Message.sender : Message → ResponseId
  | .cuda msg => msg.id
  | .torch call => call.id
  | .exit host _ => host

end Phantora
