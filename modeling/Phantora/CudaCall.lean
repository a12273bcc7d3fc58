import Mathlib.Data.Int.Notation
import Phantora.Basic

/-!
# Messages of the interposed libraries

The identifiers and the calls that the client libraries send to the server, as
the crate `cuda_call` declares them. Pointers into the client's memory, which
the server ignores, are left out.
-/

namespace Phantora

structure CudaStream where
  device : ℤ
  id : ℤ
deriving DecidableEq, Repr

structure CudaEvent where
  device : ℤ
  stream : ℤ
  id : ℤ
deriving DecidableEq, Repr

inductive CudaMemcpyKind where
  | hostToHost
  | hostToDevice
  | pinnedHostToDevice
  | deviceToHost
  | deviceToPinnedHost
  | deviceToDevice
deriving DecidableEq, Repr

inductive NcclDatatype where
  | i8 | u8 | i32 | u32 | i64 | u64 | f16 | f32 | f64 | bf16
deriving DecidableEq, Repr

namespace NcclDatatype

/-- The size of one element in bytes. -/
def size : NcclDatatype → ℕ
  | i8 => 1
  | u8 => 1
  | i32 => 4
  | u32 => 4
  | i64 => 8
  | u64 => 8
  | f16 => 2
  | f32 => 4
  | f64 => 8
  | bf16 => 2

end NcclDatatype

inductive NcclReduceOp where
  | sum | prod | max | min | avg
deriving DecidableEq, Repr

/-- The 128 bytes that name a communicator. -/
structure NcclId where
  bytes : List UInt8
  length_eq : bytes.length = 128
deriving DecidableEq

/-- A communicator handle of one rank. -/
structure NcclComm where
  rank : ℤ
  id : NcclId
deriving DecidableEq

/-- The calls of the CUDA and NCCL libraries. -/
inductive CudaCall where
  | cudaMemcpyAsync (size : ℕ) (kind : CudaMemcpyKind) (stream : CudaStream)
  | cudaDeviceSynchronize (device : ℤ)
  | cudaStreamSynchronize (stream : CudaStream)
  | cudaStreamWaitEvent (stream : CudaStream) (event : CudaEvent)
  | cudaStreamQuery (stream : CudaStream)
  | cudaEventRecord (event : CudaEvent)
  | cudaEventSynchronize (event : CudaEvent)
  | cudaEventQuery (event : CudaEvent)
  | cudaAddLatency (stream : CudaStream) (latency : ℤ)
  | flashAttnCall (stream : CudaStream) (isFwd isBf16 : Bool)
      (batchSize seqlenQ seqlenK numHeads numHeadsK headSize windowSizeLeft windowSizeRight : ℤ)
      (isCausal : Bool)
  | ncclGetUniqueId
  | ncclCommInitRank (device rank nranks : ℤ) (id : NcclId)
  | ncclCommSplit (comm : NcclComm) (color key : ℤ)
  | ncclBcast (count : ℕ) (dtype : NcclDatatype) (root : ℤ) (comm : NcclComm) (stream : CudaStream)
  | ncclAllReduce (count : ℕ) (dtype : NcclDatatype) (op : NcclReduceOp) (comm : NcclComm)
      (stream : CudaStream)
  | ncclAllGather (count : ℕ) (dtype : NcclDatatype) (comm : NcclComm) (stream : CudaStream)
  | ncclReduceScatter (count : ℕ) (dtype : NcclDatatype) (op : NcclReduceOp) (comm : NcclComm)
      (stream : CudaStream)
  | ncclSend (count : ℕ) (dtype : NcclDatatype) (peer : ℤ) (comm : NcclComm) (stream : CudaStream)
  | ncclRecv (count : ℕ) (dtype : NcclDatatype) (peer : ℤ) (comm : NcclComm) (stream : CudaStream)
  | ncclP2pGroup (calls : List CudaCall)
  | readTimer (stream : CudaStream)

namespace CudaCall

/-- The name of the variant, as the call is displayed. -/
def toString : CudaCall → String
  | cudaMemcpyAsync _ _ _ => "CudaMemcpyAsync"
  | cudaDeviceSynchronize _ => "CudaDeviceSynchronize"
  | cudaStreamSynchronize _ => "CudaStreamSynchronize"
  | cudaStreamWaitEvent _ _ => "CudaStreamWaitEvent"
  | cudaStreamQuery _ => "CudaStreamQuery"
  | cudaEventRecord _ => "CudaEventRecord"
  | cudaEventSynchronize _ => "CudaEventSynchronize"
  | cudaEventQuery _ => "CudaEventQuery"
  | cudaAddLatency _ _ => "CudaAddLatency"
  | flashAttnCall _ _ _ _ _ _ _ _ _ _ _ _ => "FlashAttnCall"
  | ncclGetUniqueId => "NcclGetUniqueId"
  | ncclCommInitRank _ _ _ _ => "NcclCommInitRank"
  | ncclCommSplit _ _ _ => "NcclCommSplit"
  | ncclBcast _ _ _ _ _ => "NcclBcast"
  | ncclAllReduce _ _ _ _ _ => "NcclAllReduce"
  | ncclAllGather _ _ _ _ => "NcclAllGather"
  | ncclReduceScatter _ _ _ _ _ => "NcclReduceScatter"
  | ncclSend _ _ _ _ _ => "NcclSend"
  | ncclRecv _ _ _ _ _ => "NcclRecv"
  | ncclP2pGroup _ => "NcclP2pGroup"
  | readTimer _ => "ReadTimer"

/-- The stream that the call is issued to, for some of the calls. -/
def getCudaStream : CudaCall → Option CudaStream
  | cudaMemcpyAsync _ _ stream => some stream
  | cudaStreamSynchronize stream => some stream
  | cudaStreamWaitEvent stream _ => some stream
  | cudaEventRecord event => some ⟨event.device, event.stream⟩
  | cudaEventSynchronize event => some ⟨event.device, event.stream⟩
  | cudaEventQuery event => some ⟨event.device, event.stream⟩
  | ncclBcast _ _ _ _ stream => some stream
  | ncclAllReduce _ _ _ _ stream => some stream
  | ncclAllGather _ _ _ stream => some stream
  | ncclReduceScatter _ _ _ _ stream => some stream
  | _ => none

end CudaCall

/-- A process of the application. -/
structure HostId where
  hostname : String
  pid : ℕ
deriving DecidableEq, Repr

/-- A thread of a process, to which responses are sent. -/
structure ResponseId where
  host : HostId
  tid : ℤ
deriving DecidableEq, Repr

/-- A message of the interposed CUDA and NCCL libraries. -/
structure CudaCallMsg where
  id : ResponseId
  currTime : ℤ
  call : CudaCall

/-- What a torch operator is, as a code: the server only compares these values
and hands them to the profiler. -/
abbrev TorchCallInfo := ℕ

/-- A torch operator intercepted on a stream. -/
structure TorchCall where
  id : ResponseId
  time : ℤ
  stream : CudaStream
  info : TorchCallInfo
deriving DecidableEq, Repr

end Phantora
