import Phantora.Lib.Codec
import Phantora.Simulator.Client

/-!
# The messages between client and server

A call is sent as a datagram: the fields of the message in their order, numbers
with the lowest byte first, and a byte that says what kind of message it is. A
pointer into the memory of the client takes eight bytes that the server does not
read: it is the last field of the last field of a message.
-/

namespace Phantora

open Outcome

namespace Wire

structure CudaStream where
  device : Int32
  id : Int32
deriving DecidableEq

structure CudaEvent where
  device : Int32
  stream : Int32
  id : Int32
deriving DecidableEq

structure NcclComm where
  rank : Int32
  id : NcclId
deriving DecidableEq

/-- A pointer into the memory of the client. -/
structure LocalPtr where
  inner : UInt64
deriving DecidableEq

def LocalPtr.null : LocalPtr := ⟨0⟩

/-- The calls with their fields as they are sent. -/
inductive CudaCall where
  | cudaMemcpyAsync (size : UInt64) (kind : CudaMemcpyKind) (stream : CudaStream)
  | cudaDeviceSynchronize (device : Int32)
  | cudaStreamSynchronize (stream : CudaStream)
  | cudaStreamWaitEvent (stream : CudaStream) (event : CudaEvent)
  | cudaStreamQuery (stream : CudaStream)
  | cudaEventRecord (event : CudaEvent)
  | cudaEventSynchronize (event : CudaEvent)
  | cudaEventQuery (event : CudaEvent)
  | cudaAddLatency (stream : CudaStream) (latency : Int64)
  | flashAttnCall (stream : CudaStream) (isFwd isBf16 : Bool)
      (batchSize seqlenQ seqlenK numHeads numHeadsK headSize windowSizeLeft windowSizeRight : Int32)
      (isCausal : Bool)
  | ncclGetUniqueId
  | ncclCommInitRank (device rank nranks : Int32) (id : NcclId)
  | ncclCommSplit (comm : NcclComm) (color key : Int32) (rankOut nrankOut idOut : LocalPtr)
  | ncclBcast (count : UInt64) (dtype : NcclDatatype) (root : Int32) (comm : NcclComm)
      (stream : CudaStream)
  | ncclAllReduce (count : UInt64) (dtype : NcclDatatype) (op : NcclReduceOp) (comm : NcclComm)
      (stream : CudaStream)
  | ncclAllGather (count : UInt64) (dtype : NcclDatatype) (comm : NcclComm) (stream : CudaStream)
  | ncclReduceScatter (count : UInt64) (dtype : NcclDatatype) (op : NcclReduceOp) (comm : NcclComm)
      (stream : CudaStream)
  | ncclSend (count : UInt64) (dtype : NcclDatatype) (peer : Int32) (comm : NcclComm)
      (stream : CudaStream)
  | ncclRecv (count : UInt64) (dtype : NcclDatatype) (peer : Int32) (comm : NcclComm)
      (stream : CudaStream)
  | ncclP2pGroup (calls : List CudaCall)
  | readTimer (stream : CudaStream)

structure HostId where
  hostname : Codec.Text
  pid : UInt32
deriving DecidableEq

structure ResponseId where
  host : HostId
  tid : Int32
deriving DecidableEq

structure CudaCallMsg where
  id : ResponseId
  currTime : Int64
  call : CudaCall

def memcpyKind : Codec CudaMemcpyKind :=
  .enumeration [.hostToHost, .hostToDevice, .pinnedHostToDevice, .deviceToHost,
    .deviceToPinnedHost, .deviceToDevice] (fun kind => by cases kind <;> decide) (by decide)

def datatype : Codec NcclDatatype :=
  .enumeration [.i8, .u8, .i32, .u32, .i64, .u64, .f16, .f32, .f64, .bf16]
    (fun dtype => by cases dtype <;> decide) (by decide)

def reduceOp : Codec NcclReduceOp :=
  .enumeration [.sum, .prod, .max, .min, .avg] (fun op => by cases op <;> decide) (by decide)

def ncclId : Codec NcclId :=
  (Codec.array 128).via (fun id => ⟨id.bytes, id.length_eq⟩) (fun bytes => ⟨bytes.1, bytes.2⟩)
    fun _ => rfl

def cudaStream : Codec CudaStream where
  write stream := Codec.i32.write stream.device ++ Codec.i32.write stream.id
  read := do
    let device ← Codec.i32.read
    let id ← Codec.i32.read
    return ⟨device, id⟩
  read_write := by simp

def cudaEvent : Codec CudaEvent where
  write event := Codec.i32.write event.device ++ Codec.i32.write event.stream ++
    Codec.i32.write event.id
  read := do
    let device ← Codec.i32.read
    let stream ← Codec.i32.read
    let id ← Codec.i32.read
    return ⟨device, stream, id⟩
  read_write := by simp

def ncclComm : Codec NcclComm where
  write comm := Codec.i32.write comm.rank ++ ncclId.write comm.id
  read := do
    let rank ← Codec.i32.read
    let id ← ncclId.read
    return ⟨rank, id⟩
  read_write := by simp

def hostId : Codec HostId where
  write host := Codec.text.write host.hostname ++ Codec.u32.write host.pid
  read := do
    let hostname ← Codec.text.read
    let pid ← Codec.u32.read
    return ⟨hostname, pid⟩
  read_write := by simp

def responseId : Codec ResponseId where
  write id := hostId.write id.host ++ Codec.i32.write id.tid
  read := do
    let host ← hostId.read
    let tid ← Codec.i32.read
    return ⟨host, tid⟩
  read_write := by simp

/-- A pointer is written as a null pointer. -/
def LocalPtr.write (_ : LocalPtr) : List UInt8 :=
  Codec.u64.write 0

/-- No byte of a pointer is read. -/
def LocalPtr.read : Reader LocalPtr :=
  pure .null

mutual

def CudaCall.write : CudaCall → List UInt8
  | .cudaMemcpyAsync size kind stream =>
      Codec.u32.write 0 ++ Codec.u64.write size ++ memcpyKind.write kind ++ cudaStream.write stream
  | .cudaDeviceSynchronize device => Codec.u32.write 1 ++ Codec.i32.write device
  | .cudaStreamSynchronize stream => Codec.u32.write 2 ++ cudaStream.write stream
  | .cudaStreamWaitEvent stream event =>
      Codec.u32.write 3 ++ cudaStream.write stream ++ cudaEvent.write event
  | .cudaStreamQuery stream => Codec.u32.write 4 ++ cudaStream.write stream
  | .cudaEventRecord event => Codec.u32.write 5 ++ cudaEvent.write event
  | .cudaEventSynchronize event => Codec.u32.write 6 ++ cudaEvent.write event
  | .cudaEventQuery event => Codec.u32.write 7 ++ cudaEvent.write event
  | .cudaAddLatency stream latency =>
      Codec.u32.write 8 ++ cudaStream.write stream ++ Codec.i64.write latency
  | .flashAttnCall stream isFwd isBf16 batchSize seqlenQ seqlenK numHeads numHeadsK headSize
      windowSizeLeft windowSizeRight isCausal =>
      Codec.u32.write 9 ++ cudaStream.write stream ++ Codec.bool.write isFwd ++
        Codec.bool.write isBf16 ++ Codec.i32.write batchSize ++ Codec.i32.write seqlenQ ++
        Codec.i32.write seqlenK ++ Codec.i32.write numHeads ++ Codec.i32.write numHeadsK ++
        Codec.i32.write headSize ++ Codec.i32.write windowSizeLeft ++
        Codec.i32.write windowSizeRight ++ Codec.bool.write isCausal
  | .ncclGetUniqueId => Codec.u32.write 10
  | .ncclCommInitRank device rank nranks id =>
      Codec.u32.write 11 ++ Codec.i32.write device ++ Codec.i32.write rank ++
        Codec.i32.write nranks ++ ncclId.write id
  | .ncclCommSplit comm color key rankOut nrankOut idOut =>
      Codec.u32.write 12 ++ ncclComm.write comm ++ Codec.i32.write color ++ Codec.i32.write key ++
        rankOut.write ++ nrankOut.write ++ idOut.write
  | .ncclBcast count dtype root comm stream =>
      Codec.u32.write 13 ++ Codec.u64.write count ++ datatype.write dtype ++ Codec.i32.write root ++
        ncclComm.write comm ++ cudaStream.write stream
  | .ncclAllReduce count dtype op comm stream =>
      Codec.u32.write 14 ++ Codec.u64.write count ++ datatype.write dtype ++ reduceOp.write op ++
        ncclComm.write comm ++ cudaStream.write stream
  | .ncclAllGather count dtype comm stream =>
      Codec.u32.write 15 ++ Codec.u64.write count ++ datatype.write dtype ++
        ncclComm.write comm ++ cudaStream.write stream
  | .ncclReduceScatter count dtype op comm stream =>
      Codec.u32.write 16 ++ Codec.u64.write count ++ datatype.write dtype ++ reduceOp.write op ++
        ncclComm.write comm ++ cudaStream.write stream
  | .ncclSend count dtype peer comm stream =>
      Codec.u32.write 17 ++ Codec.u64.write count ++ datatype.write dtype ++ Codec.i32.write peer ++
        ncclComm.write comm ++ cudaStream.write stream
  | .ncclRecv count dtype peer comm stream =>
      Codec.u32.write 18 ++ Codec.u64.write count ++ datatype.write dtype ++ Codec.i32.write peer ++
        ncclComm.write comm ++ cudaStream.write stream
  | .ncclP2pGroup calls =>
      Codec.u32.write 19 ++ Codec.u64.write (.ofNat calls.length) ++ CudaCall.writeAll calls
  | .readTimer stream => Codec.u32.write 20 ++ cudaStream.write stream

def CudaCall.writeAll : List CudaCall → List UInt8
  | [] => []
  | call :: calls => call.write ++ CudaCall.writeAll calls

end

/-- Read the fields of a variant, given how to read a call of a group. -/
def CudaCall.readVariant (readCall : Reader CudaCall) : ℕ → Reader CudaCall
  | 0 => do
      let size ← Codec.u64.read
      let kind ← memcpyKind.read
      let stream ← cudaStream.read
      return .cudaMemcpyAsync size kind stream
  | 1 => do
      let device ← Codec.i32.read
      return .cudaDeviceSynchronize device
  | 2 => do
      let stream ← cudaStream.read
      return .cudaStreamSynchronize stream
  | 3 => do
      let stream ← cudaStream.read
      let event ← cudaEvent.read
      return .cudaStreamWaitEvent stream event
  | 4 => do
      let stream ← cudaStream.read
      return .cudaStreamQuery stream
  | 5 => do
      let event ← cudaEvent.read
      return .cudaEventRecord event
  | 6 => do
      let event ← cudaEvent.read
      return .cudaEventSynchronize event
  | 7 => do
      let event ← cudaEvent.read
      return .cudaEventQuery event
  | 8 => do
      let stream ← cudaStream.read
      let latency ← Codec.i64.read
      return .cudaAddLatency stream latency
  | 9 => do
      let stream ← cudaStream.read
      let isFwd ← Codec.bool.read
      let isBf16 ← Codec.bool.read
      let batchSize ← Codec.i32.read
      let seqlenQ ← Codec.i32.read
      let seqlenK ← Codec.i32.read
      let numHeads ← Codec.i32.read
      let numHeadsK ← Codec.i32.read
      let headSize ← Codec.i32.read
      let windowSizeLeft ← Codec.i32.read
      let windowSizeRight ← Codec.i32.read
      let isCausal ← Codec.bool.read
      return .flashAttnCall stream isFwd isBf16 batchSize seqlenQ seqlenK numHeads numHeadsK
        headSize windowSizeLeft windowSizeRight isCausal
  | 10 => return .ncclGetUniqueId
  | 11 => do
      let device ← Codec.i32.read
      let rank ← Codec.i32.read
      let nranks ← Codec.i32.read
      let id ← ncclId.read
      return .ncclCommInitRank device rank nranks id
  | 12 => do
      let comm ← ncclComm.read
      let color ← Codec.i32.read
      let key ← Codec.i32.read
      let rankOut ← LocalPtr.read
      let nrankOut ← LocalPtr.read
      let idOut ← LocalPtr.read
      return .ncclCommSplit comm color key rankOut nrankOut idOut
  | 13 => do
      let count ← Codec.u64.read
      let dtype ← datatype.read
      let root ← Codec.i32.read
      let comm ← ncclComm.read
      let stream ← cudaStream.read
      return .ncclBcast count dtype root comm stream
  | 14 => do
      let count ← Codec.u64.read
      let dtype ← datatype.read
      let op ← reduceOp.read
      let comm ← ncclComm.read
      let stream ← cudaStream.read
      return .ncclAllReduce count dtype op comm stream
  | 15 => do
      let count ← Codec.u64.read
      let dtype ← datatype.read
      let comm ← ncclComm.read
      let stream ← cudaStream.read
      return .ncclAllGather count dtype comm stream
  | 16 => do
      let count ← Codec.u64.read
      let dtype ← datatype.read
      let op ← reduceOp.read
      let comm ← ncclComm.read
      let stream ← cudaStream.read
      return .ncclReduceScatter count dtype op comm stream
  | 17 => do
      let count ← Codec.u64.read
      let dtype ← datatype.read
      let peer ← Codec.i32.read
      let comm ← ncclComm.read
      let stream ← cudaStream.read
      return .ncclSend count dtype peer comm stream
  | 18 => do
      let count ← Codec.u64.read
      let dtype ← datatype.read
      let peer ← Codec.i32.read
      let comm ← ncclComm.read
      let stream ← cudaStream.read
      return .ncclRecv count dtype peer comm stream
  | 19 => do
      let length ← Codec.u64.read
      let calls ← readCall.many length.toNat
      return .ncclP2pGroup calls
  | 20 => do
      let stream ← cudaStream.read
      return .readTimer stream
  | _ => .ofOption none

/-- Read a call that contains groups to a given depth at most. -/
def CudaCall.read : ℕ → Reader CudaCall
  | 0 => .ofOption none
  | depth + 1 => do
      let variant ← Codec.u32.read
      CudaCall.readVariant (CudaCall.read depth) variant.toNat

def CudaCallMsg.write (msg : CudaCallMsg) : List UInt8 :=
  responseId.write msg.id ++ Codec.i64.write msg.currTime ++ msg.call.write

def CudaCallMsg.read (depth : ℕ) : Reader CudaCallMsg := do
  let id ← responseId.read
  let currTime ← Codec.i64.read
  let call ← CudaCall.read depth
  return ⟨id, currTime, call⟩

/-- Read a message; bytes that are left over are tolerated. A call takes more bytes than its
groups are deep. -/
def deserialize (bytes : List UInt8) : Option CudaCallMsg :=
  (CudaCallMsg.read bytes.length bytes).map Prod.fst

/-- The datagram of a message. -/
def sendToSimulator (msg : CudaCallMsg) : List UInt8 :=
  msg.write ++ [1]

/-- Why the server does not understand a datagram. -/
inductive MainPanic where
  | emptyDatagram
  | badMessage
  | unknownTag
deriving DecidableEq, Repr

/-- What the server receives; the other messages are texts. -/
inductive Received where
  | cuda (msg : CudaCallMsg)
  | torch (info : List UInt8)
  | exit (info : List UInt8)

/-- What the main loop makes of a datagram. -/
def receive (datagram : List UInt8) : Except MainPanic Received := do
  let tag ← unwrap datagram.getLast? .emptyDatagram
  let buf := datagram.dropLast
  if tag = 1 then do
    let msg ← unwrap (deserialize buf) .badMessage
    return .cuda msg
  else if tag = 2 then return .torch buf
  else if tag = 3 then return .exit buf
  else throw .unknownTag

/-- The call with null pointers. -/
def CudaCall.nulled : CudaCall → CudaCall
  | .ncclCommSplit comm color key _ _ _ => .ncclCommSplit comm color key .null .null .null
  | call => call

/-- The bytes of the call that are not read. -/
def CudaCall.unread : CudaCall → List UInt8
  | .ncclCommSplit _ _ _ rankOut nrankOut idOut => rankOut.write ++ nrankOut.write ++ idOut.write
  | _ => []

def CudaCall.isP2P : CudaCall → Bool
  | .ncclSend _ _ _ _ _ => true
  | .ncclRecv _ _ _ _ _ => true
  | _ => false

/-- A call that a client emits: a group is a vector of sends and receives. -/
def CudaCall.Emitted : CudaCall → Prop
  | .ncclP2pGroup calls => calls.length < 2 ^ 64 ∧ ∀ call ∈ calls, call.isP2P = true
  | _ => True

def CudaCallMsg.nulled (msg : CudaCallMsg) : CudaCallMsg :=
  { msg with call := msg.call.nulled }

variable {call : CudaCall} {calls : List CudaCall} {depth : ℕ} {rest : List UInt8}

theorem writeAll_eq_flatMap : CudaCall.writeAll calls = calls.flatMap CudaCall.write := by
  induction calls with
  | nil => rfl
  | cons call calls ih => rw [CudaCall.writeAll, ih, List.flatMap_cons]

theorem read_variant (variant : UInt32) : CudaCall.read (depth + 1)
    (Codec.u32.write variant ++ rest) = CudaCall.readVariant (CudaCall.read depth)
      variant.toNat rest := by
  rw [CudaCall.read, Reader.bind_apply, Codec.read_write]
  rfl

theorem read_p2p (isP2P : call.isP2P = true) :
    CudaCall.read (depth + 1) (call.write ++ rest) = some (call, rest) := by
  cases call with
  | ncclSend count dtype peer comm stream =>
      simp [read_variant, CudaCall.readVariant, CudaCall.write]
  | ncclRecv count dtype peer comm stream =>
      simp [read_variant, CudaCall.readVariant, CudaCall.write]
  | _ => cases isP2P

/-- A call is read back up to its pointers, whose bytes are left over. -/
theorem read_write (emitted : call.Emitted) :
    CudaCall.read (depth + 2) (call.write ++ rest) = some (call.nulled, call.unread ++ rest) := by
  cases call with
  | ncclP2pGroup calls =>
      rcases emitted with ⟨fits, allP2P⟩
      have length : (UInt64.ofNat calls.length).toNat = calls.length := by
        rw [UInt64.toNat_ofNat', Nat.mod_eq_of_lt fits]
      have inner : (CudaCall.read (depth + 1)).many calls.length
          (calls.flatMap CudaCall.write ++ rest) = some (calls.map id, rest) :=
        Reader.many_flatMap fun call mem rest => read_p2p (allP2P call mem)
      rw [CudaCall.write, writeAll_eq_flatMap, List.append_assoc, List.append_assoc, read_variant]
      change ((do
        let length ← Codec.u64.read
        let calls ← (CudaCall.read (depth + 1)).many length.toNat
        return .ncclP2pGroup calls) : Reader CudaCall) _ = _
      rw [Reader.bind_apply, Codec.read_write, Option.bind_some, length, Reader.bind_apply, inner,
        List.map_id]
      rfl
  | _ =>
      simp [read_variant, CudaCall.readVariant, CudaCall.write, CudaCall.nulled, CudaCall.unread,
        LocalPtr.read]

theorem read_msg {msg : CudaCallMsg} (emitted : msg.call.Emitted) :
    CudaCallMsg.read (depth + 2) msg.write = some (msg.nulled, msg.call.unread) := by
  have readCall : CudaCall.read (depth + 2) (msg.call.write ++ []) =
      some (msg.call.nulled, msg.call.unread ++ []) := read_write emitted
  rw [List.append_nil, List.append_nil] at readCall
  simp [CudaCallMsg.read, CudaCallMsg.write, Reader.map_apply, readCall, CudaCallMsg.nulled]

/-- The server reads the message that the client has sent, without its pointers. -/
theorem receive_sendToSimulator (msg : CudaCallMsg) (emitted : msg.call.Emitted) :
    receive (sendToSimulator msg) = .ok (.cuda msg.nulled) := by
  have long : 2 ≤ msg.write.length := by
    simp [CudaCallMsg.write, Codec.i64, Codec.via, Codec.u64, Codec.number]
    omega
  have decoded : deserialize msg.write = some msg.nulled := by
    rw [deserialize, show msg.write.length = msg.write.length - 2 + 2 by omega, read_msg emitted]
    rfl
  simp [receive, sendToSimulator, decoded, unwrap, bind, Except.bind, pure, Except.pure]

/-- A group of one send, of a process called "host". -/
def groupedSend : CudaCallMsg :=
  ⟨⟨⟨⟨"host", by decide⟩, 5⟩, -1⟩, 1000,
    .ncclP2pGroup [.ncclSend 3 .f32 1 ⟨0, ⟨List.replicate 128 7, by simp⟩⟩ ⟨0, 2⟩]⟩

theorem receive_groupedSend : receive (sendToSimulator groupedSend) = .ok (.cuda groupedSend) :=
  receive_sendToSimulator groupedSend ⟨by decide, by simp [CudaCall.isP2P]⟩

def CudaStream.seen (stream : CudaStream) : Phantora.CudaStream :=
  ⟨stream.device.toInt, stream.id.toInt⟩

def CudaEvent.seen (event : CudaEvent) : Phantora.CudaEvent :=
  ⟨event.device.toInt, event.stream.toInt, event.id.toInt⟩

def NcclComm.seen (comm : NcclComm) : Phantora.NcclComm :=
  ⟨comm.rank.toInt, comm.id⟩

mutual

/-- A call without its pointers, the numbers being integers. -/
def CudaCall.seen : CudaCall → Phantora.CudaCall
  | .cudaMemcpyAsync size kind stream => .cudaMemcpyAsync size.toNat kind stream.seen
  | .cudaDeviceSynchronize device => .cudaDeviceSynchronize device.toInt
  | .cudaStreamSynchronize stream => .cudaStreamSynchronize stream.seen
  | .cudaStreamWaitEvent stream event => .cudaStreamWaitEvent stream.seen event.seen
  | .cudaStreamQuery stream => .cudaStreamQuery stream.seen
  | .cudaEventRecord event => .cudaEventRecord event.seen
  | .cudaEventSynchronize event => .cudaEventSynchronize event.seen
  | .cudaEventQuery event => .cudaEventQuery event.seen
  | .cudaAddLatency stream latency => .cudaAddLatency stream.seen latency.toInt
  | .flashAttnCall stream isFwd isBf16 batchSize seqlenQ seqlenK numHeads numHeadsK headSize
      windowSizeLeft windowSizeRight isCausal =>
      .flashAttnCall stream.seen isFwd isBf16 batchSize.toInt seqlenQ.toInt seqlenK.toInt
        numHeads.toInt numHeadsK.toInt headSize.toInt windowSizeLeft.toInt windowSizeRight.toInt
        isCausal
  | .ncclGetUniqueId => .ncclGetUniqueId
  | .ncclCommInitRank device rank nranks id =>
      .ncclCommInitRank device.toInt rank.toInt nranks.toInt id
  | .ncclCommSplit comm color key _ _ _ => .ncclCommSplit comm.seen color.toInt key.toInt
  | .ncclBcast count dtype root comm stream =>
      .ncclBcast count.toNat dtype root.toInt comm.seen stream.seen
  | .ncclAllReduce count dtype op comm stream =>
      .ncclAllReduce count.toNat dtype op comm.seen stream.seen
  | .ncclAllGather count dtype comm stream =>
      .ncclAllGather count.toNat dtype comm.seen stream.seen
  | .ncclReduceScatter count dtype op comm stream =>
      .ncclReduceScatter count.toNat dtype op comm.seen stream.seen
  | .ncclSend count dtype peer comm stream =>
      .ncclSend count.toNat dtype peer.toInt comm.seen stream.seen
  | .ncclRecv count dtype peer comm stream =>
      .ncclRecv count.toNat dtype peer.toInt comm.seen stream.seen
  | .ncclP2pGroup calls => .ncclP2pGroup (CudaCall.seenAll calls)
  | .readTimer stream => .readTimer stream.seen

def CudaCall.seenAll : List CudaCall → List Phantora.CudaCall
  | [] => []
  | call :: calls => call.seen :: CudaCall.seenAll calls

end

def HostId.seen (host : HostId) : Phantora.HostId :=
  ⟨host.hostname.1, host.pid.toNat⟩

def CudaCallMsg.seen (msg : CudaCallMsg) : Phantora.CudaCallMsg :=
  ⟨⟨msg.id.host.seen, msg.id.tid.toInt⟩, msg.currTime.toInt, msg.call.seen⟩

theorem seenAll_eq_map : CudaCall.seenAll calls = calls.map CudaCall.seen := by
  induction calls with
  | nil => rfl
  | cons call calls ih => rw [CudaCall.seenAll, ih, List.map_cons]

theorem seen_nulled : call.nulled.seen = call.seen := by
  cases call with
  | _ => rfl

theorem isP2P_of_seen (isP2P : call.seen.isP2P = true) : call.isP2P = true := by
  cases call with
  | ncclSend => rfl
  | ncclRecv => rfl
  | _ => cases isP2P

/-- The server handles the call that the client has sent. -/
theorem exists_received {msg : CudaCallMsg} (emitted : msg.call.Emitted) :
    ∃ received, receive (sendToSimulator msg) = .ok (.cuda received) ∧ received.seen = msg.seen :=
  ⟨msg.nulled, receive_sendToSimulator msg emitted, by
    rw [CudaCallMsg.seen, CudaCallMsg.seen, CudaCallMsg.nulled, seen_nulled]⟩

/-- What the end of a group sends is emitted. -/
theorem emitted_of_flush {grouped : List Phantora.CudaCall} (fits : grouped.length < 2 ^ 64)
    (isGrouped : ∀ call ∈ grouped, call.isGrouped = true)
    (sent : call.seen ∈ (NcclCaller.flush grouped).sends) : call.Emitted := by
  cases call with
  | ncclP2pGroup calls =>
      rcases List.mem_append.mp sent with single | group
      · have member := isGrouped _ (List.mem_of_mem_filter single)
        cases member
      · have same : calls.map CudaCall.seen = grouped.filter Phantora.CudaCall.isP2P := by
          split at group
          · cases group
          · rw [List.mem_singleton, CudaCall.seen, seenAll_eq_map] at group
            exact Phantora.CudaCall.ncclP2pGroup.inj group
        constructor
        · have length := congrArg List.length same
          rw [List.length_map] at length
          exact length ▸ (List.length_filter_le _ _).trans_lt fits
        · intro call mem
          have kept : call.seen ∈ grouped.filter Phantora.CudaCall.isP2P :=
            same ▸ List.mem_map_of_mem mem
          exact isP2P_of_seen (List.of_mem_filter kept)
  | _ => trivial

end Wire

end Phantora
