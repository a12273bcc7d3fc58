import Mathlib.Data.Finset.Card
import Mathlib.Data.Finset.Image
import Mathlib.Data.Finset.Range
import Mathlib.Data.List.Sort
import Phantora.Lib.Grouping
import Phantora.Simulator.Streams

/-!
# NCCL calls

A collective waits in a deque of instances per communicator until every rank
has joined it, a point-to-point call in a queue per communicator and pair of
ranks until its peer arrives. The points around the flows are created by the
calls, the flows when the last participant is known.
-/

namespace Phantora

open Outcome

/-- The next identifier, the first byte being the lowest. -/
def incrBytes : List UInt8 → List UInt8
  | [] => []
  | byte :: bytes => if byte = 255 then 0 :: incrBytes bytes else (byte + 1) :: bytes

@[simp]
theorem length_incrBytes (bytes : List UInt8) : (incrBytes bytes).length = bytes.length := by
  induction bytes with
  | nil => rfl
  | cons byte bytes ih =>
      by_cases carry : byte = 255
      · simp [incrBytes, carry, ih]
      · simp [incrBytes, carry]

def incrNcclId (id : NcclId) : NcclId where
  bytes := incrBytes id.bytes
  length_eq := by rw [length_incrBytes, id.length_eq]

/-- The identifier in the answer to a request with an unknown communicator. -/
def unknownNcclId : NcclId := ⟨List.replicate 128 128, by simp⟩

/-- `NCCL_SPLIT_NOCOLOR`. -/
def ncclSplitNocolor : ℤ := -1

/-- The ranks of a communicator. -/
def allRanks (nranks : ℤ) : Finset ℤ :=
  (Finset.range nranks.toNat).image Nat.cast

@[simp]
theorem mem_allRanks {nranks rank : ℤ} : rank ∈ allRanks nranks ↔ 0 ≤ rank ∧ rank < nranks := by
  simp only [allRanks, Finset.mem_image, Finset.mem_range]
  constructor
  · rintro ⟨k, lt, rfl⟩
    omega
  · intro range
    exact ⟨rank.toNat, by omega, by omega⟩

@[simp]
theorem card_allRanks (n : ℕ) : (allRanks n).card = n := by
  rw [allRanks, Finset.card_image_of_injective _ Nat.cast_injective, Finset.card_range,
    Int.toNat_natCast]

/-- The ranks of a communicator but one. -/
def otherRanks (nranks rank : ℤ) : Finset ℤ :=
  (allRanks nranks).erase rank

def p2pKey (kind : P2PCallKind) (comm : NcclComm) (peer : ℤ) : P2PKey :=
  match kind with
  | .send => (comm.id, comm.rank, peer)
  | .recv => (comm.id, peer, comm.rank)

/-- The kind of the calls that a call is matched with. -/
def P2PCallKind.peer : P2PCallKind → P2PCallKind
  | .send => .recv
  | .recv => .send

/-- A call of a group; calls that are not point-to-point are ignored. -/
def p2pCallInfo (tag : IssueTag) : CudaCall → Option P2PCallInfo
  | .ncclSend count dtype peer comm stream =>
      some ⟨.send, p2pKey .send comm peer, stream, count, dtype, tag⟩
  | .ncclRecv count dtype peer comm stream =>
      some ⟨.recv, p2pKey .recv comm peer, stream, count, dtype, tag⟩
  | _ => none

/-- The point-to-point calls of a group, in order. -/
def p2pCallInfos (message : ℕ) (calls : List CudaCall) : List P2PCallInfo :=
  calls.zipIdx.filterMap fun (call, position) => p2pCallInfo ⟨message, position⟩ call

/-- A call of a group with its off-stream points. -/
structure FlowSetup where
  call : P2PCallInfo
  unmatchedBarrier : EventId
  flowStart : EventId
  flowEnd : EventId

/-- The endpoint of a call of a group. -/
def FlowSetup.endpoint (host : HostId) (currTime : ℤ) (setup : FlowSetup) : P2PFlowEndpoint where
  host := host
  stream := setup.call.stream
  currTime := currTime
  count := setup.call.count
  dtype := setup.call.dtype
  flowStart := setup.flowStart
  flowEnd := setup.flowEnd
  unmatchedBarrier := setup.unmatchedBarrier
  tag := setup.call.tag

/-- A rank joins an instance. -/
def CCWaiting.join (waiting : CCWaiting) (rank : ℤ) : CCWaiting :=
  { waiting with
    waitingFor := waiting.waitingFor.erase rank
    joinedRanks := insert rank waiting.joinedRanks }

namespace Simulator

def ncclGetUniqueId (sim : Simulator) (host : ResponseId) : Simulator :=
  { sim with ncclUniqueId := incrNcclId sim.ncclUniqueId }.sendResponseTo host
    (.uniqueId sim.ncclUniqueId)

/-- The members of a complete communicator, by rank. -/
def joinedMembers (nranks : ℤ) (waiting : InitWaiting) : Except Panic (List (ResponseId × ℤ)) :=
  (List.range nranks.toNat).mapM fun i => unwrap (waiting.joinedRanks i) .missingRank

def ncclCommInitRank (env : Environment) (sim : Simulator) (host : ResponseId) (currTime : ℤ)
    (device rank nranks : ℤ) (id : NcclId) : Except Panic Simulator := do
  let (sim, _) ← executeToTime env currTime env.fuel sim
  match sim.initWaiting id with
  | none =>
      return { sim with
        initWaiting := Function.update sim.initWaiting id
          (some ⟨Function.update (fun _ => none) rank (some (host, device)),
            otherRanks nranks rank⟩) }
  | some waiting =>
      let waiting : InitWaiting :=
        ⟨Function.update waiting.joinedRanks rank (some (host, device)),
          waiting.waitingFor.erase rank⟩
      if waiting.waitingFor = ∅ then
        let members ← joinedMembers nranks waiting
        let sim := members.foldl (fun sim member => sim.sendSyncResponseTo member.1 currTime none)
          { sim with initWaiting := Function.update sim.initWaiting id none }
        return { sim with
          commGroups := Function.update sim.commGroups id
            (some (members.map fun member => (member.1.host, member.2))) }
      else
        return { sim with initWaiting := Function.update sim.initWaiting id (some waiting) }

/-- Tell the members of a part of a communicator their new ranks. -/
def formCommunicator (currTime : ℤ) (sim : Simulator) (members : List SplitInfo) : Simulator :=
  let members := members.insertionSort fun a b => a.key ≤ b.key
  let id := sim.ncclUniqueId
  let sim := { sim with ncclUniqueId := incrNcclId id }
  let sim := members.zipIdx.foldl
    (fun sim (info, i) =>
      (sim.sendResponseTo info.host (.split i members.length id currTime)).updateHostSync
        info.host.host currTime none) sim
  { sim with
    commGroups := Function.update sim.commGroups id
      (some (members.map fun info => (info.host.host, info.device))) }

def splitCommunicator (env : Environment) (sim : Simulator) (currTime : ℤ)
    (waiting : SplitWaiting) : Simulator :=
  let infos := (env.order sim.handled waiting.joinedRanks).map Prod.snd
  let sim := (infos.filter fun info => info.color = ncclSplitNocolor).foldl
    (fun sim info => sim.sendResponseTo info.host .noColor) sim
  let newGroups := Grouping.group SplitInfo.color
    (infos.filter fun info => info.color ≠ ncclSplitNocolor)
  (env.order sim.handled newGroups).foldl (fun sim group => sim.formCommunicator currTime group.2)
    sim

/-- `joined_ranks.insert(rank, info)`. -/
def joinSplit (waiting : SplitWaiting) (rank : ℤ) (info : SplitInfo) : SplitWaiting where
  joinedRanks := waiting.joinedRanks.filter (fun entry => entry.1 ≠ rank) ++ [(rank, info)]
  waitingFor := waiting.waitingFor.erase rank

def ncclCommSplit (env : Environment) (sim : Simulator) (host : ResponseId) (currTime : ℤ)
    (comm : NcclComm) (color key : ℤ) : Except Panic Simulator := do
  let (sim, _) ← executeToTime env currTime env.fuel sim
  match sim.commGroups comm.id with
  | some hosts =>
      let device := ((hosts.find? fun member => member.1 = host.host).map Prod.snd).getD 0
      let info : SplitInfo := ⟨host, device, color, key⟩
      match sim.splitWaiting comm.id with
      | none =>
          return { sim with
            splitWaiting := Function.update sim.splitWaiting comm.id
              (some ⟨[(comm.rank, info)], otherRanks hosts.length comm.rank⟩) }
      | some waiting =>
          let waiting := joinSplit waiting comm.rank info
          if waiting.waitingFor = ∅ then
            let sim := sim.splitCommunicator env currTime waiting
            return { sim with splitWaiting := Function.update sim.splitWaiting comm.id none }
          else
            return { sim with
              splitWaiting := Function.update sim.splitWaiting comm.id (some waiting) }
  | none => return sim.sendResponseTo host (.split 0 0 unknownNcclId currTime)

def scheduleP2PFlow (env : Environment) (sim : Simulator) (send recv : P2PFlowEndpoint)
    (key : P2PKey) : Except Panic Simulator := do
  let sendBytes := send.count * send.dtype.size
  let flow : Netsim.Flow :=
    { id := sim.nextFlowId, bytes := sendBytes,
      src := send.host.hostname, dst := recv.host.hostname }
  let currTime := max send.currTime recv.currTime
  let (sim, flowEvent) ← { sim with nextFlowId := sim.nextFlowId + 1 }.addActionOrPoint env
    [some send.flowStart, some recv.flowStart]
    (some (.communication flow (.ncclSend sendBytes .u8 key.2.2 ⟨key.2.1, key.1⟩ send.stream)))
    currTime
  let sim ← sim.addDependency send.flowEnd (some flowEvent)
  let sim ← sim.addDependency recv.flowEnd (some flowEvent)
  let sim ← sim.removeNoneDependency env send.unmatchedBarrier
  let sim ← sim.removeNoneDependency env recv.unmatchedBarrier
  return sim.note (.matched key send.tag recv.tag flowEvent)

/-- The endpoints of a kind that wait for a peer. -/
def waitingMap (sim : Simulator) : P2PCallKind → P2PKey → Option (List P2PFlowEndpoint)
  | .send => sim.sendWaiting
  | .recv => sim.recvWaiting

def setWaiting (sim : Simulator) (kind : P2PCallKind) (key : P2PKey)
    (queue : Option (List P2PFlowEndpoint)) : Simulator :=
  match kind with
  | .send => { sim with sendWaiting := Function.update sim.sendWaiting key queue }
  | .recv => { sim with recvWaiting := Function.update sim.recvWaiting key queue }

/-- The first endpoint of a queue; a queue that is left empty is removed. -/
def popP2PEndpoint (sim : Simulator) (kind : P2PCallKind) (key : P2PKey) :
    Option P2PFlowEndpoint × Simulator :=
  match sim.waitingMap kind key with
  | none => (none, sim)
  | some queue =>
      (queue.head?, sim.setWaiting kind key (if queue.tail = [] then none else some queue.tail))

def enqueueUnmatchedP2PEndpoint (sim : Simulator) (kind : P2PCallKind) (key : P2PKey)
    (endpoint : P2PFlowEndpoint) : Simulator :=
  sim.setWaiting kind key (some ((sim.waitingMap kind key).getD [] ++ [endpoint]))

def scheduleMatchedP2PFlow (env : Environment) (sim : Simulator) (kind : P2PCallKind)
    (endpoint peerEndpoint : P2PFlowEndpoint) (key : P2PKey) : Except Panic Simulator :=
  match kind with
  | .send => sim.scheduleP2PFlow env endpoint peerEndpoint key
  | .recv => sim.scheduleP2PFlow env peerEndpoint endpoint key

def matchOrEnqueueP2PEndpoint (env : Environment) (sim : Simulator) (kind : P2PCallKind)
    (key : P2PKey) (endpoint : P2PFlowEndpoint) : Except Panic Simulator :=
  let sim := sim.note (.offered kind key endpoint.tag)
  match sim.popP2PEndpoint kind.peer key with
  | (some peerEndpoint, sim) => sim.scheduleMatchedP2PFlow env kind endpoint peerEndpoint key
  | (none, sim) => .ok (sim.enqueueUnmatchedP2PEndpoint kind key endpoint)

def createUngroupedP2PEndpoint (env : Environment) (sim : Simulator) (host : HostId)
    (stream : CudaStream) (currTime : ℤ) (count : ℕ) (dtype : NcclDatatype)
    (unmatchedBarrier : EventId) : Except Panic (Simulator × P2PFlowEndpoint) := do
  let tag : IssueTag := ⟨sim.handled, 0⟩
  let (sim, flowStart) ← sim.addEvent env (host, stream) [some unmatchedBarrier] none currTime
  let (sim, flowEnd) ← sim.addEvent env (host, stream) [some flowStart] none currTime
  return (sim, ⟨host, stream, currTime, count, dtype, flowStart, flowEnd, unmatchedBarrier, tag⟩)

def ncclUngroupedP2P (env : Environment) (sim : Simulator) (kind : P2PCallKind) (host : HostId)
    (currTime : ℤ) (count : ℕ) (dtype : NcclDatatype) (peer : ℤ) (comm : NcclComm)
    (stream : CudaStream) : Except Panic Simulator := do
  let (sim, unmatchedBarrier) ← sim.addActionOrPoint env [none] none currTime
  let (sim, endpoint) ← sim.createUngroupedP2PEndpoint env host stream currTime count dtype
    unmatchedBarrier
  sim.matchOrEnqueueP2PEndpoint env kind (p2pKey kind comm peer) endpoint

def ncclUngroupedSend (env : Environment) (sim : Simulator) :=
  sim.ncclUngroupedP2P env .send

def ncclUngroupedRecv (env : Environment) (sim : Simulator) :=
  sim.ncclUngroupedP2P env .recv

/-- Create the points of one call. -/
def setupFlow (env : Environment) (currTime : ℤ) (groupStart : EventId)
    (acc : Simulator × List FlowSetup) (call : P2PCallInfo) :
    Except Panic (Simulator × List FlowSetup) := do
  let (sim, unmatchedBarrier) ← acc.1.addActionOrPoint env [none] none currTime
  let (sim, flowStart) ← sim.addActionOrPoint env [some groupStart, some unmatchedBarrier] none
    currTime
  let (sim, flowEnd) ← sim.addActionOrPoint env [some flowStart] none currTime
  return (sim, acc.2 ++ [⟨call, unmatchedBarrier, flowStart, flowEnd⟩])

/-- Offer the endpoint of a call of a group for matching. -/
def offerSetup (env : Environment) (host : HostId) (currTime : ℤ) (sim : Simulator)
    (setup : FlowSetup) : Except Panic Simulator :=
  sim.matchOrEnqueueP2PEndpoint env setup.call.kind setup.call.key (setup.endpoint host currTime)

/-- The calls of a group on one stream. -/
def streamGroup (env : Environment) (host : HostId) (currTime : ℤ) (sim : Simulator)
    (group : CudaStream × List P2PCallInfo) : Except Panic Simulator := do
  let (sim, groupBarrier) ← sim.addActionOrPoint env [none] none currTime
  let (sim, groupStart) ← sim.addEvent env (host, group.1) [some groupBarrier] none currTime
  let (sim, flowSetups) ← group.2.foldlM (setupFlow env currTime groupStart) (sim, [])
  let (sim, _) ← sim.addEvent env (host, group.1)
    (some groupStart :: flowSetups.map fun setup => some setup.flowEnd) none currTime
  let sim ← flowSetups.foldlM (offerSetup env host currTime) sim
  sim.removeNoneDependency env groupBarrier

def ncclGroupedP2P (env : Environment) (sim : Simulator) (host : HostId) (currTime : ℤ)
    (calls : List CudaCall) : Except Panic Simulator :=
  let callsByStream := Grouping.group P2PCallInfo.stream (p2pCallInfos sim.handled calls)
  (env.order sim.handled callsByStream).foldlM (streamGroup env host currTime) sim

def setCCWaiting (sim : Simulator) (op : Collective) (id : NcclId) (waitings : List CCWaiting) :
    Simulator :=
  { sim with
    ccWaiting := Function.update sim.ccWaiting op
      (Function.update (sim.ccWaiting op) id (some waitings)) }

/-- A new instance of a collective, with the points of the first rank that joins it. -/
def newCCWaiting (env : Environment) (sim : Simulator) (op : Collective) (ranks : Ranks)
    (host : HostId) (currTime : ℤ) (trace : Trace) (comm : NcclComm) (stream : CudaStream) :
    Except Panic (Simulator × CCWaiting) := do
  let (sim, commBarrier) ← sim.addActionOrPoint env [none] none currTime
  let (sim, streamStart) ← sim.addEvent env (host, stream) [some commBarrier] none currTime
  let (sim, commStartMeta) ← sim.addActionOrPoint env [some streamStart] none currTime
  let (sim, commEndMeta) ← sim.addActionOrPoint env [some commStartMeta] none currTime
  let (sim, streamEnd) ← sim.addEvent env (host, stream) [some commEndMeta] none currTime
  return (sim.note (.joined op comm.id commBarrier comm.rank streamStart streamEnd),
    { trace := trace
      commStartMeta := commStartMeta
      commEndMeta := commEndMeta
      commBarrier := commBarrier
      joinedRanks := {comm.rank}
      waitingFor := otherRanks ranks.length comm.rank })

/-- Create the points of a rank that joins an instance. -/
def joinStream (env : Environment) (sim : Simulator) (op : Collective) (host : HostId)
    (currTime : ℤ) (comm : NcclComm) (stream : CudaStream) (waiting : CCWaiting) :
    Except Panic Simulator := do
  let (sim, streamStart) ← sim.addEvent env (host, stream) [some waiting.commBarrier] none currTime
  let sim ← sim.addDependency waiting.commStartMeta (some streamStart)
  let (sim, streamEnd) ← sim.addEvent env (host, stream) [some waiting.commEndMeta] none currTime
  return sim.note (.joined op comm.id waiting.commBarrier comm.rank streamStart streamEnd)

/-- Create one flow of an instance. -/
def addCommEvent (env : Environment) (currTime : ℤ) (call : CudaCall) (waiting : CCWaiting)
    (acc : Simulator × List EventId) (flow : Netsim.Flow) :
    Except Panic (Simulator × List EventId) := do
  let (sim, commEvent) ← acc.1.addActionOrPoint env [some waiting.commStartMeta]
    (some (.communication flow call)) currTime
  return (sim, acc.2 ++ [commEvent])

/-- All ranks have joined an instance: create its flows and release its barrier. -/
def completeCC (env : Environment) (sim : Simulator) (op : Collective) (currTime : ℤ)
    (comm : NcclComm) (call : CudaCall) (waiting : CCWaiting) : Except Panic Simulator := do
  let (sim, commEvents) ← waiting.trace.foldlM (addCommEvent env currTime call waiting) (sim, [])
  let sim ← commEvents.foldlM
    (fun sim commEvent => sim.addDependency waiting.commEndMeta (some commEvent)) sim
  let sim ← sim.removeNoneDependency env waiting.commBarrier
  return sim.note (.completed op comm.id waiting.commBarrier commEvents)

def ncclCall (env : Environment) (sim : Simulator) (op : Collective) (ranks : Ranks)
    (host : HostId) (currTime : ℤ) (trace : Trace) (comm : NcclComm) (stream : CudaStream)
    (call : CudaCall) : Except Panic Simulator := do
  let waitings := (sim.ccWaiting op comm.id).getD []
  match waitings.findIdx? fun waiting => comm.rank ∉ waiting.joinedRanks with
  | none =>
      let (sim, waiting) ← sim.newCCWaiting env op ranks host currTime trace comm stream
      return sim.setCCWaiting op comm.id (waitings ++ [waiting])
  | some idx =>
      let waiting ← unwrap waitings[idx]? .missingRank
      let sim ← sim.joinStream env op host currTime comm stream waiting
      let waiting := waiting.join comm.rank
      if waiting.waitingFor = ∅ then
        let sim := sim.setCCWaiting op comm.id (waitings.eraseIdx idx)
        sim.completeCC env op currTime comm call waiting
      else
        return sim.setCCWaiting op comm.id (waitings.set idx waiting)

/-- Compute the flows of a collective, which takes flow identifiers, and join it. -/
def handleNcclOp (env : Environment) (sim : Simulator) (op : Collective) (host : ResponseId)
    (currTime : ℤ) (comm : NcclComm) (stream : CudaStream) (call : CudaCall)
    (trace : Ranks → ℕ → Except Panic Trace) : Except Panic Simulator := do
  let ranks ← unwrap (sim.commGroups comm.id) .unknownComm
  let trace ← trace ranks sim.nextFlowId
  { sim with nextFlowId := sim.nextFlowId + trace.length }.ncclCall env op ranks host.host currTime
    trace comm stream call

def ncclBcast (env : Environment) (sim : Simulator) (host : ResponseId) (currTime : ℤ)
    (count : ℕ) (dtype : NcclDatatype) (root : ℤ) (comm : NcclComm) (stream : CudaStream)
    (call : CudaCall) : Except Panic Simulator :=
  sim.handleNcclOp env .bcast host currTime comm stream call fun ranks nextFlowId =>
    SimpleRing.bcast root ranks count dtype nextFlowId

end Simulator

end Phantora
