import Phantora.Lib.Fifo
import Phantora.Simulator.NcclSteps

/-!
# Matching sends and receives

The sends of one rank to another and the receives of the other from it are
matched first come, first served, in the order in which they are offered. The
calls of a group are offered stream by stream.
-/

namespace Phantora

open Outcome

/-- A send and a receive that are matched, with the event of their flow. -/
structure Transfer where
  send : IssueTag
  recv : IssueTag
  flow : EventId

/-- One end of a transfer. -/
def Transfer.tag (transfer : Transfer) : P2PCallKind → IssueTag
  | .send => transfer.send
  | .recv => transfer.recv

def Occurrence.offer? (kind : P2PCallKind) (key : P2PKey) : Occurrence → Option IssueTag
  | .offered kind' key' tag => if kind' = kind ∧ key' = key then some tag else none
  | _ => none

def Occurrence.transfer? (key : P2PKey) : Occurrence → Option Transfer
  | .matched key' send recv flow => if key' = key then some ⟨send, recv, flow⟩ else none
  | _ => none

/-- The communicator, the sender and the receiver of the flow of a call. -/
def CudaCall.transferKey : CudaCall → Option P2PKey
  | .ncclSend _ _ peer comm _ => some (p2pKey .send comm peer)
  | _ => none

/-- The events with a flow from the sender to the receiver, in order. -/
def EventQueue.transferFlows (queue : EventQueue) (key : P2PKey) : List EventQueue.FlowRecord :=
  queue.flowRecords.filter fun record => record.2.2.transferKey = some key

/-- The point-to-point calls of a message that has a number. -/
def Message.p2pCalls (number : ℕ) : Message → List P2PCallInfo
  | .cuda ⟨_, _, .ncclP2pGroup calls⟩ => p2pCallInfos number calls
  | .cuda ⟨_, _, call⟩ => (p2pCallInfo ⟨number, 0⟩ call).toList
  | _ => []

/-- The calls of a kind between two ranks. -/
def tagsOf (kind : P2PCallKind) (key : P2PKey) (infos : List P2PCallInfo) : List IssueTag :=
  (infos.filter fun info => info.kind = kind ∧ info.key = key).map P2PCallInfo.tag

/-- The calls of a kind that the messages make between two ranks, in order. -/
def issued (kind : P2PCallKind) (key : P2PKey) (messages : List Message) : List IssueTag :=
  messages.zipIdx.flatMap fun (message, number) => tagsOf kind key (message.p2pCalls number)

theorem P2PCallKind.eq_or_peer (kind other : P2PCallKind) : other = kind ∨ other = kind.peer := by
  cases kind <;> cases other <;> simp [P2PCallKind.peer]

@[simp]
theorem P2PCallKind.peer_peer (kind : P2PCallKind) : kind.peer.peer = kind := by
  cases kind <;> rfl

@[simp]
theorem P2PCallKind.peer_ne (kind : P2PCallKind) : kind.peer ≠ kind := by
  cases kind <;> simp [P2PCallKind.peer]

namespace Simulator

variable {env : Environment} {sim sim' : Simulator} {kind : P2PCallKind} {key : P2PKey}

/-- The calls of a kind between two ranks in the order in which they were offered. -/
def offers (sim : Simulator) (kind : P2PCallKind) (key : P2PKey) : List IssueTag :=
  sim.history.reverse.filterMap (Occurrence.offer? kind key)

/-- The pairs that were matched, in order. -/
def transfers (sim : Simulator) (key : P2PKey) : List Transfer :=
  sim.history.reverse.filterMap (Occurrence.transfer? key)

/-- The calls of a kind that wait for a peer. -/
def waitingTags (sim : Simulator) (kind : P2PCallKind) (key : P2PKey) : Option (List IssueTag) :=
  (sim.waitingMap kind key).map (List.map P2PFlowEndpoint.tag)

@[simp]
theorem offers_note (sim : Simulator) (occurrence : Occurrence) :
    (sim.note occurrence).offers kind key =
      sim.offers kind key ++ (occurrence.offer? kind key).toList := by
  simp only [offers, note, List.reverse_cons, List.filterMap_append]
  cases known : occurrence.offer? kind key <;> simp [known]

@[simp]
theorem transfers_note (sim : Simulator) (occurrence : Occurrence) :
    (sim.note occurrence).transfers key =
      sim.transfers key ++ (occurrence.transfer? key).toList := by
  simp only [transfers, note, List.reverse_cons, List.filterMap_append]
  cases known : occurrence.transfer? key <;> simp [known]

@[simp]
theorem waitingMap_note (sim : Simulator) (occurrence : Occurrence) :
    (sim.note occurrence).waitingMap kind key = sim.waitingMap kind key := by
  cases kind <;> rfl

@[simp]
theorem queue_note (sim : Simulator) (occurrence : Occurrence) :
    (sim.note occurrence).queue = sim.queue := rfl

@[simp]
theorem offers_setWaiting (sim : Simulator) (kind' : P2PCallKind) (key' : P2PKey)
    (queue : Option (List P2PFlowEndpoint)) :
    (sim.setWaiting kind' key' queue).offers kind key = sim.offers kind key := by
  cases kind' <;> rfl

@[simp]
theorem transfers_setWaiting (sim : Simulator) (kind' : P2PCallKind) (key' : P2PKey)
    (queue : Option (List P2PFlowEndpoint)) :
    (sim.setWaiting kind' key' queue).transfers key = sim.transfers key := by
  cases kind' <;> rfl

@[simp]
theorem queue_setWaiting (sim : Simulator) (kind : P2PCallKind) (key : P2PKey)
    (queue : Option (List P2PFlowEndpoint)) : (sim.setWaiting kind key queue).queue =
    sim.queue := by
  cases kind <;> rfl

theorem offer?_eq_none {occurrence : Occurrence} (other : ¬occurrence.Transfers) :
    occurrence.offer? kind key = none := by
  cases occurrence <;> first | rfl | exact absurd trivial other

theorem transfer?_eq_none {occurrence : Occurrence} (other : ¬occurrence.Transfers) :
    occurrence.transfer? key = none := by
  cases occurrence <;> first | rfl | exact absurd trivial other

section Adds

variable {records : List EventQueue.FlowRecord}

theorem offers_of_adds (adds : Adds records sim sim') :
    sim'.offers kind key = sim.offers kind key :=
  adds.filterMap_history fun _ other =>
    offer?_eq_none fun transfers => other (Occurrence.quiet_of_transfers transfers)

theorem transfers_of_adds (adds : Adds records sim sim') :
    sim'.transfers key = sim.transfers key :=
  adds.filterMap_history fun _ other =>
    transfer?_eq_none fun transfers => other (Occurrence.quiet_of_transfers transfers)

theorem waitingMap_of_adds (adds : Adds records sim sim') :
    sim'.waitingMap kind key = sim.waitingMap kind key := by
  cases kind with
  | send => exact congrFun adds.sendWaiting key
  | recv => exact congrFun adds.recvWaiting key

end Adds

/-- What is left of the calls between the two ranks stays. -/
structure Unmoved (key : P2PKey) (sim sim' : Simulator) : Prop where
  offers : ∀ kind, sim'.offers kind key = sim.offers kind key
  transfers : sim'.transfers key = sim.transfers key
  waitingMap : ∀ kind, sim'.waitingMap kind key = sim.waitingMap kind key
  transferFlows : sim'.queue.transferFlows key = sim.queue.transferFlows key
  eventCounter : sim.queue.eventCounter ≤ sim'.queue.eventCounter

namespace Unmoved

theorem trans {first second third : Simulator} (left : Unmoved key first second)
    (right : Unmoved key second third) : Unmoved key first third :=
  ⟨fun kind => (right.offers kind).trans (left.offers kind), right.transfers.trans left.transfers,
    fun kind => (right.waitingMap kind).trans (left.waitingMap kind),
    right.transferFlows.trans left.transferFlows, left.eventCounter.trans right.eventCounter⟩

theorem of_adds {records : List EventQueue.FlowRecord} (adds : Adds records sim sim')
    (infos : ∀ record ∈ records, record.2.2.transferKey ≠ some key) : Unmoved key sim sim' := by
  refine ⟨fun _ => offers_of_adds adds, transfers_of_adds adds,
    fun _ => waitingMap_of_adds adds, ?_,
    adds.enlarges.eventCounter⟩
  have nothing : records.filter (fun record => record.2.2.transferKey = some key) = [] := by
    refine List.filter_eq_nil_iff.mpr fun record mem => ?_
    simpa using infos record mem
  rw [EventQueue.transferFlows, adds.flowRecords, List.filter_append, nothing, List.append_nil,
    EventQueue.transferFlows]

theorem of_aside (aside : Aside sim sim') : Unmoved key sim sim' :=
  of_adds aside (by simp)

theorem of_keeps (keeps : KeepsTransfers sim sim') : Unmoved key sim sim' := by
  refine ⟨fun kind => ?_, ?_, fun kind => ?_, ?_, keeps.logs.enlarges.eventCounter⟩
  · exact keeps.logs.filterMap_history fun _ other => offer?_eq_none other
  · exact keeps.logs.filterMap_history fun _ other => transfer?_eq_none other
  · cases kind with
    | send => exact congrFun keeps.sendWaiting key
    | recv => exact congrFun keeps.recvWaiting key
  · refine keeps.logs.filter_flowRecords fun record collective => ?_
    rcases record with ⟨id, flow, info⟩
    cases info <;> first | rfl | exact absurd rfl collective

theorem note {occurrence : Occurrence} (unmoved : Unmoved key sim sim')
    (offer : ∀ kind, occurrence.offer? kind key = none)
    (transfer : occurrence.transfer? key = none) :
    Unmoved key sim (sim'.note occurrence) := by
  refine unmoved.trans ⟨fun kind => ?_, ?_, fun _ => ?_, rfl, le_rfl⟩
  · simp [offer kind]
  · simp [transfer]
  · rename_i kind
    cases kind <;> rfl

theorem setWaiting (unmoved : Unmoved key sim sim') {kind : P2PCallKind} {key' : P2PKey}
    (differs : key' ≠ key) (queue : Option (List P2PFlowEndpoint)) :
    Unmoved key sim (sim'.setWaiting kind key' queue) := by
  refine unmoved.trans ⟨fun _ => ?_, ?_, fun _ => ?_, ?_, ?_⟩
  · simp
  · simp
  · rw [waitingMap_setWaiting, if_neg fun same => differs same.2.symm]
  · simp
  · simp

end Unmoved

/-- The calls between the two ranks are matched first come, first served. -/
structure Served (key : P2PKey) (sim : Simulator) : Prop where
  matched : ∀ kind, (sim.transfers key).map (fun transfer =>
      (transfer.tag kind, transfer.tag kind.peer)) =
    (sim.offers kind key).zip (sim.offers kind.peer key)
  waiting : ∀ kind, sim.waitingTags kind key =
    Fifo.left (sim.offers kind key) (sim.offers kind.peer key).length
  created : (sim.queue.transferFlows key).map Prod.fst = (sim.transfers key).map Transfer.flow
  flowOrder : ((sim.transfers key).map Transfer.flow).Pairwise (· < ·)
  flowsIssued : ∀ flow ∈ (sim.transfers key).map Transfer.flow, flow < sim.queue.eventCounter

namespace Served

theorem start (initial : Initial sim) : Served key sim := by
  rcases initial with ⟨cluster, setting, hostMapping, rfl⟩
  refine ⟨fun _ => rfl, fun kind => ?_, rfl, List.Pairwise.nil, fun _ mem => ?_⟩
  · cases kind <;> rfl
  · exact absurd mem List.not_mem_nil

theorem unmoved (served : Served key sim) (unmoved : Unmoved key sim sim') : Served key sim' := by
  refine ⟨fun kind => ?_, fun kind => ?_, ?_, ?_, ?_⟩
  · rw [unmoved.transfers, unmoved.offers, unmoved.offers]
    exact served.matched kind
  · rw [waitingTags, unmoved.waitingMap, unmoved.offers, unmoved.offers]
    exact served.waiting kind
  · rw [unmoved.transferFlows, unmoved.transfers]
    exact served.created
  · rw [unmoved.transfers]
    exact served.flowOrder
  · rw [unmoved.transfers]
    exact fun flow mem => (served.flowsIssued flow mem).trans_le unmoved.eventCounter

/-- Pairs that are in order for one kind are so for the other. -/
theorem matched_of_kind (kind : P2PCallKind) (matched : (sim.transfers key).map (fun transfer =>
      (transfer.tag kind, transfer.tag kind.peer)) =
    (sim.offers kind key).zip (sim.offers kind.peer key)) (other : P2PCallKind) :
    (sim.transfers key).map (fun transfer => (transfer.tag other, transfer.tag other.peer)) =
      (sim.offers other key).zip (sim.offers other.peer key) := by
  rcases kind.eq_or_peer other with rfl | rfl
  · exact matched
  · have swapped := congrArg (List.map Prod.swap) matched
    rw [List.zip_swap, List.map_map] at swapped
    rw [P2PCallKind.peer_peer, ← swapped]
    rfl

/-- A call that finds no peer waits. -/
theorem wait (served : Served key sim) (kind : P2PCallKind) (tag : IssueTag)
    (alone : sim.waitingTags kind.peer key = none)
    (offers : sim'.offers kind key = sim.offers kind key ++ [tag])
    (peers : sim'.offers kind.peer key = sim.offers kind.peer key)
    (transfers : sim'.transfers key = sim.transfers key)
    (waits : sim'.waitingTags kind key = some ((sim.waitingTags kind key).getD [] ++ [tag]))
    (stays : sim'.waitingTags kind.peer key = none) (queue : sim'.queue = sim.queue) :
    Served key sim' := by
  have noPeer : Fifo.left (sim.offers kind.peer key) (sim.offers kind key).length = none := by
    rw [← alone, served.waiting kind.peer, P2PCallKind.peer_peer]
  have few := Fifo.left_eq_none.mp noPeer
  refine ⟨matched_of_kind kind ?_, fun other => ?_, ?_, ?_, ?_⟩
  · rw [transfers, offers, peers, Fifo.zip_concat_of_left_eq_none noPeer]
    exact served.matched kind
  · rcases kind.eq_or_peer other with rfl | rfl
    · rw [waits, offers, peers, Fifo.left_concat few, served.waiting other]
    · rw [P2PCallKind.peer_peer, stays, offers, peers, List.length_append]
      exact (Fifo.left_eq_none.mpr (few.trans (Nat.le_add_right _ _))).symm
  · rw [queue, transfers]
    exact served.created
  · rw [transfers]
    exact served.flowOrder
  · rw [queue, transfers]
    exact served.flowsIssued

/-- A call that finds a peer is matched with the first that waits. -/
theorem pair (served : Served key sim) (kind : P2PCallKind) (tag peer : IssueTag)
    (rest : List IssueTag) (transfer : Transfer)
    (waits : sim.waitingTags kind.peer key = some (peer :: rest))
    (offers : sim'.offers kind key = sim.offers kind key ++ [tag])
    (peers : sim'.offers kind.peer key = sim.offers kind.peer key)
    (transfers : sim'.transfers key = sim.transfers key ++ [transfer])
    (own : transfer.tag kind = tag) (other : transfer.tag kind.peer = peer)
    (stays : sim'.waitingTags kind key = sim.waitingTags kind key)
    (taken : sim'.waitingTags kind.peer key = if rest = [] then none else some rest)
    (flows : (sim'.queue.transferFlows key).map Prod.fst =
      (sim.queue.transferFlows key).map Prod.fst ++ [transfer.flow])
    (new : sim.queue.eventCounter ≤ transfer.flow)
    (issued : transfer.flow < sim'.queue.eventCounter) : Served key sim' := by
  have first : Fifo.left (sim.offers kind.peer key) (sim.offers kind key).length =
      some (peer :: rest) := by
    rw [← waits, served.waiting kind.peer, P2PCallKind.peer_peer]
  have many : (sim.offers kind key).length < (sim.offers kind.peer key).length := by
    by_contra few
    rw [Fifo.left_eq_none.mpr (Nat.le_of_not_lt few)] at first
    cases first
  refine ⟨matched_of_kind kind ?_, fun other' => ?_, ?_, ?_, ?_⟩
  · rw [transfers, offers, peers, Fifo.zip_concat_of_left_eq_some first, List.map_append,
      served.matched kind, List.map_singleton, own, other]
  · rcases kind.eq_or_peer other' with rfl | rfl
    · rw [stays, served.waiting, offers, peers, Fifo.left_eq_none.mpr many.le]
      refine (Fifo.left_eq_none.mpr ?_).symm
      rw [List.length_append]
      exact many
    · rw [P2PCallKind.peer_peer, taken, offers, peers, List.length_append]
      exact (Fifo.left_succ first).symm
  · rw [flows, transfers, List.map_append, served.created]
    rfl
  · rw [transfers, List.map_append]
    refine List.pairwise_append.mpr ⟨served.flowOrder, List.pairwise_singleton _ _, ?_⟩
    intro early old late last
    exact List.mem_singleton.mp last ▸ (served.flowsIssued early old).trans_le new
  · rw [transfers, List.map_append]
    intro flow mem
    rcases List.mem_append.mp mem with old | last
    · exact (served.flowsIssued flow old).trans_le (new.trans issued.le)
    · exact List.mem_singleton.mp last ▸ issued

end Served

/-- The calls are offered in this order, and matched first come, first served. -/
structure Offered (infos : List P2PCallInfo) (sim sim' : Simulator) : Prop where
  offers : ∀ kind key, sim'.offers kind key = sim.offers kind key ++ tagsOf kind key infos
  served : ∀ {key}, Served key sim → Served key sim'
  handled : sim'.handled = sim.handled

theorem tagsOf_append (infos others : List P2PCallInfo) :
    tagsOf kind key (infos ++ others) = tagsOf kind key infos ++ tagsOf kind key others := by
  simp [tagsOf]

namespace Offered

theorem trans {first second third : Simulator} {infos others : List P2PCallInfo}
    (left : Offered infos first second) (right : Offered others second third) :
    Offered (infos ++ others) first third := by
  refine ⟨fun kind key => ?_, fun served => right.served (left.served served),
    right.handled.trans left.handled⟩
  rw [right.offers, left.offers, tagsOf_append, List.append_assoc]

theorem of_keeps (keeps : KeepsTransfers sim sim') : Offered [] sim sim' := by
  refine ⟨fun kind key => ?_, fun served => served.unmoved (.of_keeps keeps), keeps.logs.handled⟩
  rw [(Unmoved.of_keeps keeps).offers, tagsOf, List.filter_nil, List.map_nil, List.append_nil]

theorem of_aside (aside : Aside sim sim') : Offered [] sim sim' :=
  of_keeps (.of_aside aside)

end Offered

/-- The flow of a pair that a call completes. -/
theorem scheduleMatchedP2PFlow_eq_ok {endpoint peerEndpoint : P2PFlowEndpoint}
    (run : sim.scheduleMatchedP2PFlow env kind endpoint peerEndpoint key = .ok sim') :
    ∃ (middle : Simulator) (transfer : Transfer) (flow : Netsim.Flow) (info : CommMeta),
      Adds [(transfer.flow, flow, info)] sim middle ∧ info.transferKey = some key ∧
        transfer.tag kind = endpoint.tag ∧ transfer.tag kind.peer = peerEndpoint.tag ∧
        sim.queue.eventCounter ≤ transfer.flow ∧ transfer.flow < middle.queue.eventCounter ∧
        sim' = middle.note (.matched key transfer.send transfer.recv transfer.flow) := by
  cases kind with
  | send =>
      rcases scheduleP2PFlow_eq_ok run with ⟨middle, flow, event, bytes, adds, new, issued, rfl⟩
      exact ⟨middle, ⟨endpoint.tag, peerEndpoint.tag, event⟩, flow, _, adds, rfl, rfl, rfl, new,
        issued, rfl⟩
  | recv =>
      rcases scheduleP2PFlow_eq_ok run with ⟨middle, flow, event, bytes, adds, new, issued, rfl⟩
      exact ⟨middle, ⟨peerEndpoint.tag, endpoint.tag, event⟩, flow, _, adds, rfl, rfl, rfl, new,
        issued, rfl⟩

theorem popP2PEndpoint_unmoved {other : P2PKey} (differs : key ≠ other) (sim : Simulator)
    (kind : P2PCallKind) : Unmoved other sim (sim.popP2PEndpoint kind key).2 := by
  simp only [popP2PEndpoint]
  split
  · exact .of_aside (.refl sim)
  · exact Unmoved.setWaiting (.of_aside (.refl sim)) differs _

/-- The calls between two ranks leave alone those between others. -/
theorem matchOrEnqueueP2PEndpoint_unmoved {endpoint : P2PFlowEndpoint} {other : P2PKey}
    (differs : key ≠ other)
    (run : sim.matchOrEnqueueP2PEndpoint env kind key endpoint = .ok sim') :
    Unmoved other sim sim' := by
  have noted : Unmoved other sim (sim.note (.offered kind key endpoint.tag)) := by
    refine Unmoved.note (.of_aside (.refl sim)) (fun kind' => ?_) rfl
    exact if_neg fun same => differs same.2
  have popped := noted.trans (popP2PEndpoint_unmoved differs _ kind.peer)
  simp only [matchOrEnqueueP2PEndpoint] at run
  split at run
  · rename_i peerEndpoint middle result
    rw [result] at popped
    rcases scheduleMatchedP2PFlow_eq_ok run with ⟨after, transfer, flow, info, adds, isKey, _, _, _,
      _, rfl⟩
    refine Unmoved.note (popped.trans (.of_adds adds ?_)) (fun _ => rfl) (if_neg differs)
    intro record mem
    rw [List.mem_singleton.mp mem, isKey]
    exact fun same => differs (Option.some.inj same)
  · rename_i middle result
    rw [result] at popped
    rw [Except.ok.injEq] at run
    rw [← run]
    exact popped.setWaiting differs _

/-- A call is matched with the first that waits for it, or waits itself. -/
theorem matchOrEnqueueP2PEndpoint_served {endpoint : P2PFlowEndpoint} (served : Served key sim)
    (run : sim.matchOrEnqueueP2PEndpoint env kind key endpoint = .ok sim') :
    Served key sim' := by
  have differs : kind ≠ kind.peer := kind.peer_ne.symm
  simp only [matchOrEnqueueP2PEndpoint, popP2PEndpoint, waitingMap_note] at run
  cases waits : sim.waitingMap kind.peer key with
  | none =>
      simp only [waits, Except.ok.injEq] at run
      subst run
      refine served.wait kind endpoint.tag ?_ ?_ ?_ ?_ ?_ ?_ ?_
      · simp [waitingTags, waits]
      · simp [enqueueUnmatchedP2PEndpoint, Occurrence.offer?]
      · simp [enqueueUnmatchedP2PEndpoint, Occurrence.offer?, differs]
      · simp [enqueueUnmatchedP2PEndpoint, Occurrence.transfer?]
      · cases known : sim.waitingMap kind key <;>
          simp [enqueueUnmatchedP2PEndpoint, waitingTags, waitingMap_setWaiting, known]
      · simp [enqueueUnmatchedP2PEndpoint, waitingTags, waitingMap_setWaiting, waits]
      · simp [enqueueUnmatchedP2PEndpoint]
  | some queue =>
      cases queue with
      | nil =>
          -- no queue of a map is empty
          have waiting := served.waiting kind.peer
          rw [waitingTags, waits, eq_comm, Option.map_some, Fifo.left_eq_some] at waiting
          exact absurd rfl waiting.1
      | cons peerEndpoint rest =>
          simp only [waits, List.head?_cons, List.tail_cons] at run
          rcases scheduleMatchedP2PFlow_eq_ok run with ⟨middle, transfer, flow, info, adds, isKey,
            own, other, new, issued, rfl⟩
          refine served.pair kind endpoint.tag peerEndpoint.tag (rest.map P2PFlowEndpoint.tag)
            transfer ?_ ?_ ?_ ?_ own other ?_ ?_ ?_ ?_ issued
          · simp [waitingTags, waits]
          · simp [offers_of_adds adds, Occurrence.offer?]
          · simp [offers_of_adds adds, Occurrence.offer?, differs]
          · simp [transfers_of_adds adds, Occurrence.transfer?]
          · simp [waitingTags, waitingMap_of_adds adds, waitingMap_setWaiting, differs]
          · cases rest <;> simp [waitingTags, waitingMap_of_adds adds, waitingMap_setWaiting]
          · simp [EventQueue.transferFlows, adds.flowRecords, isKey]
          · simpa using new

@[simp]
theorem offers_popP2PEndpoint (sim : Simulator) (kind' : P2PCallKind) (key' : P2PKey) :
    (sim.popP2PEndpoint kind' key').2.offers kind key = sim.offers kind key := by
  simp only [popP2PEndpoint]
  split
  · rfl
  · simp

/-- A call is offered. -/
theorem matchOrEnqueueP2PEndpoint_offers {endpoint : P2PFlowEndpoint}
    (run : sim.matchOrEnqueueP2PEndpoint env kind key endpoint = .ok sim') (kind' : P2PCallKind)
    (key' : P2PKey) : sim'.offers kind' key' = sim.offers kind' key' ++
      ((Occurrence.offered kind key endpoint.tag).offer? kind' key').toList := by
  have popped : ((sim.note (.offered kind key endpoint.tag)).popP2PEndpoint kind.peer
      key).2.offers kind' key' = _ := offers_popP2PEndpoint _ kind.peer key
  rw [offers_note] at popped
  simp only [matchOrEnqueueP2PEndpoint] at run
  split at run
  · rename_i peerEndpoint middle result
    rw [result] at popped
    rcases scheduleMatchedP2PFlow_eq_ok run with ⟨_, _, _, _, adds, _, _, _, _, _, rfl⟩
    rw [offers_note, offers_of_adds adds, popped]
    simp [Occurrence.offer?]
  · rename_i middle result
    rw [result] at popped
    rw [Except.ok.injEq] at run
    rw [← run, enqueueUnmatchedP2PEndpoint, offers_setWaiting, popped]

theorem matchOrEnqueueP2PEndpoint_handled {endpoint : P2PFlowEndpoint}
    (run : sim.matchOrEnqueueP2PEndpoint env kind key endpoint = .ok sim') :
    sim'.handled = sim.handled :=
  (matchOrEnqueueP2PEndpoint_keepsCollectives run).logs.handled

theorem matchOrEnqueueP2PEndpoint_offered {info : P2PCallInfo} {endpoint : P2PFlowEndpoint}
    (tag : endpoint.tag = info.tag)
    (run : sim.matchOrEnqueueP2PEndpoint env info.kind info.key endpoint = .ok sim') :
    Offered [info] sim sim' := by
  refine ⟨fun kind key => ?_, fun {key} served => ?_, matchOrEnqueueP2PEndpoint_handled run⟩
  · rw [matchOrEnqueueP2PEndpoint_offers run, tag]
    by_cases same : info.kind = kind ∧ info.key = key <;>
      simp [Occurrence.offer?, tagsOf, same]
  · by_cases same : info.key = key
    · exact matchOrEnqueueP2PEndpoint_served (same ▸ served) (same ▸ run)
    · exact served.unmoved (matchOrEnqueueP2PEndpoint_unmoved same run)

/-- The calls of a group on one stream are offered in their order. -/
theorem streamGroup_offered {host : HostId} {time : ℤ} {group : CudaStream × List P2PCallInfo}
    (run : streamGroup env host time sim group = .ok sim') : Offered group.2 sim sim' := by
  rcases streamGroup_eq_ok run with ⟨middle, middle', setups, before, same, offered, after⟩
  have each : Offered (setups.map FlowSetup.call) middle middle' := by
    refine foldlM_prefix (fun done sim => Offered (done.map FlowSetup.call) middle sim) ?_
      (.of_aside (.refl middle)) offered
    intro done setup rest first second earlier step _
    rw [List.map_append]
    exact earlier.trans (matchOrEnqueueP2PEndpoint_offered rfl step)
  rw [← same]
  simpa using ((Offered.of_aside before).trans each).trans (.of_aside after)

/-- The calls of a group are offered stream by stream. -/
theorem ncclGroupedP2P_offered {host : HostId} {time : ℤ} {calls : List CudaCall}
    (run : sim.ncclGroupedP2P env host time calls = .ok sim') :
    Offered ((env.order sim.handled (Grouping.group P2PCallInfo.stream
      (p2pCallInfos sim.handled calls))).flatMap Prod.snd) sim sim' := by
  refine foldlM_prefix (fun done middle => Offered (done.flatMap Prod.snd) sim middle) ?_
    (.of_aside (.refl sim)) run
  intro done group rest first second earlier step _
  rw [List.flatMap_append, List.flatMap_singleton]
  exact earlier.trans (streamGroup_offered step)

/-- The calls of a kind between two ranks are all on one stream. -/
def OneStream (infos : List P2PCallInfo) : Prop :=
  ∀ a ∈ infos, ∀ b ∈ infos, a.kind = b.kind → a.key = b.key → a.stream = b.stream

instance (infos : List P2PCallInfo) : Decidable (OneStream infos) :=
  inferInstanceAs (Decidable (∀ a ∈ infos, ∀ b ∈ infos, _))

theorem p2pCalls_eq_nil {message : Message} (notTransfers : ¬message.Transfers) (number : ℕ) :
    message.p2pCalls number = [] := by
  rcases message with ⟨host, time, call⟩ | _ | _
  · cases call <;> first | rfl | exact absurd trivial notTransfers
  · rfl
  · rfl

/-- The calls of a message are grouped by their streams, and offered group by group. -/
theorem dispatch_grouped {message : Message} (run : sim.dispatch env message = .ok sim') :
    ∃ groups : List (CudaStream × List P2PCallInfo),
      groups.Perm (Grouping.group P2PCallInfo.stream (message.p2pCalls sim.handled)) ∧
      Offered (groups.flatMap Prod.snd) sim sim' := by
  by_cases transfers : message.Transfers
  · rcases message with ⟨host, time, call⟩ | _ | _
    · have updated : Offered [] sim (sim.updateHostCurr host.host time) :=
        .of_aside (.of_silent rfl rfl rfl rfl rfl rfl)
      have ungrouped : ∀ {info : P2PCallInfo} {count dtype peer comm stream},
          info.key = p2pKey info.kind comm peer → info.tag = ⟨sim.handled, 0⟩ →
          (sim.updateHostCurr host.host time).ncclUngroupedP2P env info.kind host.host time count
            dtype peer comm stream = .ok sim' → Offered [info] sim sim' := by
        intro info count dtype peer comm stream key tag run
        rcases ncclUngroupedP2P_eq_ok run with ⟨middle, endpoint, aside, own, matched⟩
        rw [← key] at matched
        have offered := matchOrEnqueueP2PEndpoint_offered (own.trans tag.symm) matched
        exact updated.trans ((Offered.of_aside aside).trans offered)
      cases call with
      | ncclSend count dtype peer comm stream =>
          refine ⟨_, .refl _, ?_⟩
          exact @ungrouped ⟨.send, p2pKey .send comm peer, stream, count, dtype,
            ⟨sim.handled, 0⟩⟩ _ _ _ _ _ rfl rfl run
      | ncclRecv count dtype peer comm stream =>
          refine ⟨_, .refl _, ?_⟩
          exact @ungrouped ⟨.recv, p2pKey .recv comm peer, stream, count, dtype,
            ⟨sim.handled, 0⟩⟩ _ _ _ _ _ rfl rfl run
      | ncclP2pGroup calls =>
          exact ⟨_, env.order_perm _ _, updated.trans (ncclGroupedP2P_offered run)⟩
      | _ => exact absurd transfers id
    · exact absurd transfers id
    · exact absurd transfers id
  · refine ⟨[], ?_, .of_keeps (dispatch_keepsTransfers transfers run)⟩
    rw [p2pCalls_eq_nil transfers]
    exact .refl _

/-- The calls of a message are offered, stream by stream. -/
theorem dispatch_offered {message : Message} (run : sim.dispatch env message = .ok sim') :
    ∃ infos, Offered infos sim sim' ∧ (OneStream (message.p2pCalls sim.handled) →
      ∀ kind key, tagsOf kind key infos = tagsOf kind key (message.p2pCalls sim.handled)) := by
  rcases dispatch_grouped run with ⟨groups, permuted, offered⟩
  refine ⟨_, offered, fun oneStream kind key => ?_⟩
  rw [tagsOf, tagsOf]
  congr 1
  refine Grouping.filter_flatMap_of_perm permuted fun a inA b inB isA isB => ?_
  simp only [decide_eq_true_eq] at isA isB
  exact oneStream a inA b inB (isA.1.trans isB.1.symm) (isA.2.trans isB.2.symm)

theorem issued_concat (messages : List Message) (message : Message) :
    issued kind key (messages ++ [message]) =
      issued kind key messages ++ tagsOf kind key (message.p2pCalls messages.length) := by
  simp [issued, List.zipIdx_append]

theorem tag_of_p2pCallInfo {tag : IssueTag} {call : CudaCall} {info : P2PCallInfo}
    (known : p2pCallInfo tag call = some info) : info.tag = tag := by
  cases call <;> simp only [p2pCallInfo, Option.some.injEq, reduceCtorEq] at known <;>
    subst known <;>
    rfl

/-- The calls of a message have tags of their own. -/
theorem tags_p2pCalls (message : Message) (number : ℕ) :
    ((message.p2pCalls number).map P2PCallInfo.tag).Nodup ∧
      ∀ info ∈ message.p2pCalls number, info.tag.message = number := by
  have single : ∀ call, ((p2pCallInfo ⟨number, 0⟩ call).toList.map P2PCallInfo.tag).Nodup ∧
      ∀ info ∈ (p2pCallInfo ⟨number, 0⟩ call).toList, info.tag.message = number := by
    intro call
    cases known : p2pCallInfo ⟨number, 0⟩ call with
    | none => simp
    | some info => simp [tag_of_p2pCallInfo known]
  have group : ∀ calls, ((p2pCallInfos number calls).map P2PCallInfo.tag).Nodup ∧
      ∀ info ∈ p2pCallInfos number calls, info.tag.message = number := by
    intro calls
    constructor
    · rw [p2pCallInfos, List.Nodup, List.pairwise_map, List.pairwise_filterMap]
      have positions : (calls.zipIdx.map Prod.snd).Pairwise (· ≠ ·) := by
        rw [List.zipIdx_map_snd]
        exact List.nodup_range'
      refine (List.pairwise_map.mp positions).imp ?_
      intro a b differs info isInfo other isOther same
      rw [tag_of_p2pCallInfo isInfo, tag_of_p2pCallInfo isOther, IssueTag.mk.injEq] at same
      exact differs same.2
    · intro info mem
      rcases List.mem_filterMap.mp mem with ⟨entry, _, known⟩
      rw [tag_of_p2pCallInfo known]
  rcases message with ⟨host, time, call⟩ | _ | _
  · cases call with
    | ncclP2pGroup calls => exact group calls
    | ncclSend count dtype peer comm stream => exact single (.ncclSend count dtype peer comm stream)
    | ncclRecv count dtype peer comm stream => exact single (.ncclRecv count dtype peer comm stream)
    | _ => exact ⟨List.nodup_nil, fun _ mem => absurd mem List.not_mem_nil⟩
  · exact ⟨List.nodup_nil, fun _ mem => absurd mem List.not_mem_nil⟩
  · exact ⟨List.nodup_nil, fun _ mem => absurd mem List.not_mem_nil⟩

/-- No two calls have one tag. -/
theorem nodup_issued (kind : P2PCallKind) (key : P2PKey) (messages : List Message) :
    (issued kind key messages).Nodup := by
  have ofMessage : ∀ (message : Message) (number : ℕ), ∀ tag ∈ tagsOf kind key
      (message.p2pCalls number), tag.message = number := by
    intro message number tag mem
    rcases List.mem_map.mp mem with ⟨info, inFilter, rfl⟩
    exact (tags_p2pCalls message number).2 info (List.mem_of_mem_filter inFilter)
  rw [issued, List.nodup_flatMap]
  refine ⟨fun entry _ => ?_, ?_⟩
  · have sublist := (List.filter_sublist (p := fun info => decide (info.kind = kind ∧
      info.key = key)) (l := entry.1.p2pCalls entry.2)).map P2PCallInfo.tag
    exact sublist.nodup (tags_p2pCalls entry.1 entry.2).1
  · have numbers : (messages.zipIdx.map Prod.snd).Pairwise (· ≠ ·) := by
      rw [List.zipIdx_map_snd]
      exact List.nodup_range'
    refine (List.pairwise_map.mp numbers).imp fun {a b} differs tag inFirst inSecond => ?_
    exact differs ((ofMessage _ _ tag inFirst).symm.trans (ofMessage _ _ tag inSecond))

/-- A message is handled whose calls of a kind between two ranks are on one stream. -/
def OneStreamStep (env : Environment) (sim : Simulator) (message : Message) (sim' : Simulator) :
    Prop :=
  Step env sim message sim' ∧ OneStream (message.p2pCalls sim.handled)

/-- The `k`-th send of a rank to another is matched with the `k`-th receive of the other. -/
structure InIssueOrder (messages : List Message) (sim : Simulator) : Prop where
  matched : ∀ key, (sim.transfers key).map (fun transfer => (transfer.send, transfer.recv)) =
    (issued .send key messages).zip (issued .recv key messages)
  distinct : ∀ kind key, (issued kind key messages).Nodup
  created : ∀ key, (sim.queue.transferFlows key).map Prod.fst =
    (sim.transfers key).map Transfer.flow
  once : ∀ key, ((sim.queue.transferFlows key).map Prod.fst).Nodup
  count : ∀ key, (sim.queue.transferFlows key).length =
    min (issued .send key messages).length (issued .recv key messages).length
  sendWaiting : ∀ key, (sim.sendWaiting key).map (List.map P2PFlowEndpoint.tag) =
    Fifo.left (issued .send key messages) (issued .recv key messages).length
  recvWaiting : ∀ key, (sim.recvWaiting key).map (List.map P2PFlowEndpoint.tag) =
    Fifo.left (issued .recv key messages) (issued .send key messages).length
  exclusive : ∀ key, sim.sendWaiting key = none ∨ sim.recvWaiting key = none
  nonempty : ∀ key, sim.sendWaiting key ≠ some [] ∧ sim.recvWaiting key ≠ some []

/-- In a run of messages that keep the calls of a kind between two ranks on one stream, these calls
are offered as they are issued. -/
theorem offers_of_reached {messages : List Message}
    (reached : Runs.Reached Initial (OneStreamStep env) messages sim) :
    sim.handled = messages.length ∧
      (∀ kind key, sim.offers kind key = issued kind key messages) ∧ ∀ key, Served key sim := by
  refine reached.invariant (fun messages sim => sim.handled = messages.length ∧
    (∀ kind key, sim.offers kind key = issued kind key messages) ∧ ∀ key, Served key sim) ?_ ?_
  · intro sim initial
    refine ⟨?_, ?_, fun key => .start initial⟩
    · rcases initial with ⟨cluster, setting, hostMapping, rfl⟩
      rfl
    · rcases initial with ⟨cluster, setting, hostMapping, rfl⟩
      exact fun kind key => rfl
  · rintro messages sim message sim' ⟨handled, offers, served⟩ ⟨taken, oneStream⟩
    simp only [Step, handle, bind_eq_ok, pure_eq_ok] at taken
    rcases taken with ⟨final, dispatched, rfl⟩
    rcases dispatch_offered dispatched with ⟨infos, offered, order⟩
    refine ⟨?_, fun kind key => ?_, fun key => ?_⟩
    · rw [List.length_append, ← handled, ← offered.handled]
      rfl
    · rw [issued_concat, ← offers, ← handled, ← order oneStream kind key]
      exact offered.offers kind key
    · have kept := offered.served (served key)
      exact ⟨kept.matched, kept.waiting, kept.created, kept.flowOrder, kept.flowsIssued⟩

/-- In every state reached by messages that keep the calls of a kind between two ranks on one
stream, these calls are matched in the order in which they are issued. -/
theorem transfers_in_order {messages : List Message}
    (reached : Runs.Reached Initial (OneStreamStep env) messages sim) :
    InIssueOrder messages sim := by
  rcases offers_of_reached reached with ⟨_, offers, served⟩
  have matched : ∀ key, (sim.transfers key).map
      (fun transfer => (transfer.send, transfer.recv)) =
        (issued .send key messages).zip (issued .recv key messages) := by
    intro key
    rw [← offers, ← offers]
    exact (served key).matched .send
  have waiting : ∀ kind key, sim.waitingTags kind key =
      Fifo.left (issued kind key messages) (issued kind.peer key messages).length := by
    intro kind key
    rw [(served key).waiting kind, offers, offers]
  have nonempty : ∀ kind key, sim.waitingMap kind key ≠ some [] := by
    intro kind key empty
    have left := waiting kind key
    rw [waitingTags, empty, eq_comm, Option.map_some, Fifo.left_eq_some] at left
    exact left.1 rfl
  refine ⟨matched, fun kind key => nodup_issued kind key messages,
    fun key => (served key).created, fun key => ?_, fun key => ?_,
    waiting .send, waiting .recv, fun key => ?_,
    fun key => ⟨nonempty .send key, nonempty .recv key⟩⟩
  · rw [(served key).created]
    exact (served key).flowOrder.imp Nat.ne_of_lt
  · have lengths := congrArg List.length (matched key)
    have created := congrArg List.length (served key).created
    rw [List.length_map, List.length_map] at created
    rw [created]
    simpa using lengths
  · rcases Nat.le_total (issued .send key messages).length (issued .recv key messages).length
      with few | few
    · have none := (waiting .send key).trans (Fifo.left_eq_none.mpr few)
      exact Or.inl (Option.map_eq_none_iff.mp none)
    · have none := (waiting .recv key).trans (Fifo.left_eq_none.mpr few)
      exact Or.inr (Option.map_eq_none_iff.mp none)

/-- Three sends of a group to the right rank, and the receives of that rank. -/
def sendThree (streams : ℤ × ℤ × ℤ) : List Message :=
  [.cuda ⟨leftThread 0, 0, .ncclCommInitRank 0 0 2 firstId⟩,
    .cuda ⟨rightThread 0, 0, .ncclCommInitRank 0 1 2 firstId⟩,
    .cuda ⟨leftThread 0, 0, .ncclP2pGroup [
      .ncclSend 8 .u8 1 ⟨0, firstId⟩ ⟨0, streams.1⟩,
      .ncclSend 16 .u8 1 ⟨0, firstId⟩ ⟨0, streams.2.1⟩,
      .ncclSend 24 .u8 1 ⟨0, firstId⟩ ⟨0, streams.2.2⟩]⟩,
    .cuda ⟨rightThread 0, 0, .ncclRecv 8 .u8 0 ⟨1, firstId⟩ ⟨0, 0⟩⟩,
    .cuda ⟨rightThread 0, 0, .ncclRecv 16 .u8 0 ⟨1, firstId⟩ ⟨0, 0⟩⟩]

/-- The pairs of the left and the right rank. -/
def pairsOf (sim : Simulator) : List (IssueTag × IssueTag) :=
  (sim.transfers (firstId, 0, 1)).map fun transfer => (transfer.send, transfer.recv)

/-- Two of the sends are on one stream, and overtake the one between them. -/
theorem not_transfers_in_order_sendThree : ∃ sim,
    Reached (.plain 20) (sendThree (0, 1, 0)) sim ∧ ¬InIssueOrder (sendThree (0, 1, 0)) sim := by
  have read : ((sendThree (0, 1, 0)).foldlM (handle (.plain 20)) pair).toOption.map pairsOf =
      some [(⟨2, 0⟩, ⟨3, 0⟩), (⟨2, 2⟩, ⟨4, 0⟩)] := by
    decide +kernel
  rcases exists_ok_of_reading read with ⟨sim, run, reading⟩
  refine ⟨sim, reached_of_foldlM initial_pair run, fun ordered => ?_⟩
  have second : (⟨2, 1⟩, ⟨4, 0⟩) ∈ (issued .send (firstId, 0, 1) (sendThree (0, 1, 0))).zip
      (issued .recv (firstId, 0, 1) (sendThree (0, 1, 0))) := by
    decide +kernel
  have matched : (⟨2, 1⟩, ⟨4, 0⟩) ∈ pairsOf sim := by
    rw [pairsOf, ordered.matched]
    exact second
  rw [reading] at matched
  exact absurd matched (by decide)

/-- Handle a message whose calls of a kind between two ranks are on one stream. -/
def handleOneStream (env : Environment) (sim : Simulator) (message : Message) :
    Except Panic Simulator := do
  assert (OneStream (message.p2pCalls sim.handled)) .missingRank
  sim.handle env message

theorem transfers_in_order_sendThree : ∃ sim,
    pairsOf sim = [(⟨2, 0⟩, ⟨3, 0⟩), (⟨2, 1⟩, ⟨4, 0⟩)] ∧
      InIssueOrder (sendThree (0, 0, 0)) sim := by
  have read : ((sendThree (0, 0, 0)).foldlM (handleOneStream (.plain 20)) pair).toOption.map
      pairsOf = some [(⟨2, 0⟩, ⟨3, 0⟩), (⟨2, 1⟩, ⟨4, 0⟩)] := by
    decide +kernel
  rcases exists_ok_of_reading read with ⟨sim, run, reading⟩
  have reached : Runs.Reached Initial (OneStreamStep (.plain 20)) (sendThree (0, 0, 0)) sim := by
    refine Runs.reached_of_foldlM (fun taken => ?_) initial_pair run
    simp only [handleOneStream, bind_eq_ok, assert_eq_ok] at taken
    rcases taken with ⟨_, oneStream, handled⟩
    exact ⟨handled, oneStream⟩
  exact ⟨sim, reading, transfers_in_order reached⟩

end Simulator

end Phantora
