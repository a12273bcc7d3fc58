import Phantora.Simulator.NcclLog

/-!
# The parts of the NCCL calls

One lemma for each part of an NCCL call says what it adds to the graph, to the
waiting maps and to the history. Collective calls leave alone what is left of
point-to-point calls, and the other way round.
-/

namespace Phantora

open Outcome

/-- The occurrence is about a collective. -/
def Occurrence.Collects : Occurrence → Prop
  | .joined _ _ _ _ _ _ => True
  | .completed _ _ _ _ => True
  | _ => False

/-- The occurrence is about a point-to-point call. -/
def Occurrence.Transfers : Occurrence → Prop
  | .offered _ _ _ => True
  | .matched _ _ _ _ => True
  | _ => False

theorem Occurrence.quiet_of_collects {occurrence : Occurrence} (collects : occurrence.Collects) :
    occurrence.Quiet := by
  cases occurrence <;> trivial

theorem Occurrence.quiet_of_transfers {occurrence : Occurrence} (transfers : occurrence.Transfers) :
    occurrence.Quiet := by
  cases occurrence <;> trivial

namespace Simulator

variable {env : Environment} {sim sim' : Simulator}

/-- The graph and the history grow by flows and occurrences of one kind. -/
structure Logs (info : CommMeta → Prop) (kind : Occurrence → Prop) (sim sim' : Simulator) :
    Prop where
  enlarges : EventQueue.Enlarges sim.queue sim'.queue
  flowRecords : ∃ records, sim'.queue.flowRecords = sim.queue.flowRecords ++ records ∧
    ∀ record ∈ records, info record.2.2
  history : ∃ news, sim'.history = news ++ sim.history ∧ ∀ occurrence ∈ news, kind occurrence
  handled : sim'.handled = sim.handled

section Logs

variable {info : CommMeta → Prop} {kind : Occurrence → Prop}

theorem Logs.of_silent (queue : sim'.queue = sim.queue) (history : sim'.history = sim.history)
    (handled : sim'.handled = sim.handled) : Logs info kind sim sim' :=
  ⟨queue ▸ .refl _, ⟨[], by rw [queue, List.append_nil], by simp⟩, ⟨[], by simpa, by simp⟩, handled⟩

theorem Logs.trans {first second third : Simulator} (left : Logs info kind first second)
    (right : Logs info kind second third) : Logs info kind first third := by
  rcases left.flowRecords with ⟨records, flows, infos⟩
  rcases right.flowRecords with ⟨records', flows', infos'⟩
  rcases left.history with ⟨earlier, old, early⟩
  rcases right.history with ⟨later, new, late⟩
  refine ⟨left.enlarges.trans right.enlarges, ?_, ?_, right.handled.trans left.handled⟩
  · refine ⟨records ++ records', by rw [flows', flows, List.append_assoc], ?_⟩
    intro record mem
    rcases List.mem_append.mp mem with mem | mem
    · exact infos record mem
    · exact infos' record mem
  · refine ⟨later ++ earlier, by rw [new, old, List.append_assoc], ?_⟩
    intro occurrence mem
    rcases List.mem_append.mp mem with mem | mem
    · exact late occurrence mem
    · exact early occurrence mem

theorem Adds.logs {records : List EventQueue.FlowRecord} (adds : Adds records sim sim')
    (infos : ∀ record ∈ records, info record.2.2)
    (others : ∀ occurrence, ¬occurrence.Quiet → kind occurrence) : Logs info kind sim sim' := by
  rcases adds.history with ⟨news, history, quiet⟩
  exact ⟨adds.enlarges, ⟨records, adds.flowRecords, infos⟩,
    ⟨news, history, fun occurrence mem => others occurrence (quiet occurrence mem)⟩, adds.handled⟩

theorem Logs.note {occurrence : Occurrence} (logs : Logs info kind sim sim')
    (other : kind occurrence) : Logs info kind sim (sim'.note occurrence) := by
  rcases logs.history with ⟨news, history, kinds⟩
  refine ⟨logs.enlarges, logs.flowRecords, ⟨occurrence :: news, ?_, ?_⟩, logs.handled⟩
  · rw [Simulator.note, history, List.cons_append]
  · exact List.forall_mem_cons.mpr ⟨other, kinds⟩

/-- A projection of the history to another kind stays. -/
theorem Logs.filterMap_history {α : Type} {f : Occurrence → Option α}
    (logs : Logs info kind sim sim')
    (others : ∀ occurrence, kind occurrence → f occurrence = none) :
    sim'.history.reverse.filterMap f = sim.history.reverse.filterMap f := by
  rcases logs.history with ⟨news, history, kinds⟩
  have nothing : news.reverse.filterMap f = [] := by
    refine List.filterMap_eq_nil_iff.mpr fun occurrence mem => ?_
    exact others occurrence (kinds occurrence (List.mem_reverse.mp mem))
  rw [history, List.reverse_append, List.filterMap_append, nothing, List.append_nil]

/-- The flows of another kind stay. -/
theorem Logs.filter_flowRecords {p : EventQueue.FlowRecord → Bool}
    (logs : Logs info kind sim sim') (others : ∀ record, info record.2.2 → p record = false) :
    sim'.queue.flowRecords.filter p = sim.queue.flowRecords.filter p := by
  rcases logs.flowRecords with ⟨records, flows, infos⟩
  have nothing : records.filter p = [] := by
    refine List.filter_eq_nil_iff.mpr fun record mem => ?_
    simp [others record (infos record mem)]
  rw [flows, List.filter_append, nothing, List.append_nil]

end Logs

/-- What is left of collectives stays. -/
structure KeepsCollectives (sim sim' : Simulator) : Prop where
  logs : Logs (fun info => info.collective = none) (fun occurrence => ¬occurrence.Collects) sim sim'
  ccWaiting : sim'.ccWaiting = sim.ccWaiting

/-- What is left of point-to-point calls stays. -/
structure KeepsTransfers (sim sim' : Simulator) : Prop where
  logs : Logs (fun info => info.collective ≠ none) (fun occurrence => ¬occurrence.Transfers) sim
    sim'
  sendWaiting : sim'.sendWaiting = sim.sendWaiting
  recvWaiting : sim'.recvWaiting = sim.recvWaiting

namespace KeepsCollectives

theorem trans {first second third : Simulator} (left : KeepsCollectives first second)
    (right : KeepsCollectives second third) : KeepsCollectives first third :=
  ⟨left.logs.trans right.logs, right.ccWaiting.trans left.ccWaiting⟩

theorem of_adds {records : List EventQueue.FlowRecord} (adds : Adds records sim sim')
    (infos : ∀ record ∈ records, record.2.2.collective = none) : KeepsCollectives sim sim' := by
  refine ⟨adds.logs infos ?_, adds.ccWaiting⟩
  exact fun _ other collects => other (Occurrence.quiet_of_collects collects)

theorem of_aside (aside : Aside sim sim') : KeepsCollectives sim sim' :=
  of_adds aside (by simp)

theorem note {occurrence : Occurrence} (keeps : KeepsCollectives sim sim')
    (other : ¬occurrence.Collects) : KeepsCollectives sim (sim'.note occurrence) :=
  ⟨keeps.logs.note other, keeps.ccWaiting⟩

theorem foldlM {σ α : Type} (state : σ → Simulator) {f : σ → α → Except Panic σ} {items : List α}
    (step : ∀ {acc item acc'}, f acc item = .ok acc' → KeepsCollectives (state acc) (state acc'))
    {acc acc' : σ} (run : items.foldlM f acc = .ok acc') :
    KeepsCollectives (state acc) (state acc') := by
  refine foldlM_invariant (fun other => KeepsCollectives (state acc) (state other)) ?_
    (.of_aside (.refl _)) run
  exact fun _ keeps taken => keeps.trans (step taken)

end KeepsCollectives

namespace KeepsTransfers

theorem trans {first second third : Simulator} (left : KeepsTransfers first second)
    (right : KeepsTransfers second third) : KeepsTransfers first third :=
  ⟨left.logs.trans right.logs, right.sendWaiting.trans left.sendWaiting,
    right.recvWaiting.trans left.recvWaiting⟩

theorem of_adds {records : List EventQueue.FlowRecord} (adds : Adds records sim sim')
    (infos : ∀ record ∈ records, record.2.2.collective ≠ none) : KeepsTransfers sim sim' := by
  refine ⟨adds.logs infos ?_, adds.sendWaiting, adds.recvWaiting⟩
  exact fun _ other transfers => other (Occurrence.quiet_of_transfers transfers)

theorem of_aside (aside : Aside sim sim') : KeepsTransfers sim sim' :=
  of_adds aside (by simp)

theorem note {occurrence : Occurrence} (keeps : KeepsTransfers sim sim')
    (other : ¬occurrence.Transfers) : KeepsTransfers sim (sim'.note occurrence) :=
  ⟨keeps.logs.note other, keeps.sendWaiting, keeps.recvWaiting⟩

end KeepsTransfers

section Collectives

variable {op : Collective} {host : HostId} {time : ℤ} {comm : NcclComm} {stream : CudaStream}
  {waiting : CCWaiting}

/-- A new instance, joined by the rank that opens it. -/
theorem newCCWaiting_eq_ok {ranks : Ranks} {trace : Trace}
    (run : sim.newCCWaiting env op ranks host time trace comm stream = .ok (sim', waiting)) :
    ∃ middle streamStart streamEnd, Aside sim middle ∧
      sim' = middle.note (.joined op comm.id waiting.commBarrier comm.rank streamStart streamEnd) ∧
      (sim.queue.eventCounter ≤ waiting.commBarrier ∧
        waiting.commBarrier < middle.queue.eventCounter) ∧
      (middle.queue.Precedes streamStart waiting.commStartMeta ∧
        middle.queue.Precedes waiting.commEndMeta streamEnd) ∧
      waiting.trace = trace ∧ waiting.joinedRanks = {comm.rank} ∧
      waiting.waitingFor = otherRanks ranks.length comm.rank := by
  simp only [newCCWaiting, bind_eq_ok, pure_eq_ok, Prod.exists, Prod.mk.injEq] at run
  rcases run with ⟨first, barrier, addBarrier, second, streamStart, addStart, third, startMeta,
    addStartMeta, fourth, endMeta, addEndMeta, fifth, streamEnd, addEnd, rfl, rfl⟩
  rcases addActionOrPoint_aside rfl addBarrier with ⟨blocks, new, counter, _⟩
  rcases addEvent_aside rfl addStart with ⟨starts, _, _, _⟩
  rcases addActionOrPoint_aside rfl addStartMeta with ⟨metas, _, _, started⟩
  rcases addActionOrPoint_aside rfl addEndMeta with ⟨metas', _, _, _⟩
  rcases addEvent_aside rfl addEnd with ⟨ends, _, _, ended⟩
  have later := ((starts.trans metas).trans metas').trans ends
  refine ⟨fifth, streamStart, streamEnd, blocks.trans later, rfl, ⟨new.ge, ?_⟩, ⟨?_, ?_⟩, rfl, rfl,
    rfl⟩
  · have grows := later.enlarges.eventCounter
    exact Nat.lt_of_lt_of_le (Nat.lt_of_lt_of_eq (Nat.lt_succ_self _) counter.symm) grows
  · exact (metas'.trans ends).enlarges.precedes (started List.mem_cons_self)
  · exact ended List.mem_cons_self

/-- A rank joins an instance. -/
theorem joinStream_eq_ok (run : sim.joinStream env op host time comm stream waiting = .ok sim') :
    ∃ middle streamStart streamEnd, Aside sim middle ∧
      sim' = middle.note (.joined op comm.id waiting.commBarrier comm.rank streamStart streamEnd) ∧
      middle.queue.Precedes streamStart waiting.commStartMeta ∧
      middle.queue.Precedes waiting.commEndMeta streamEnd := by
  simp only [joinStream, bind_eq_ok, pure_eq_ok, Prod.exists] at run
  rcases run with ⟨first, streamStart, addStart, second, wait, third, streamEnd, addEnd, rfl⟩
  have starts := (addEvent_aside rfl addStart).1
  rcases addDependency_aside wait with ⟨waits, _, started⟩
  rcases addEvent_aside rfl addEnd with ⟨ends, _, _, ended⟩
  exact ⟨third, streamStart, streamEnd, (starts.trans waits).trans ends, rfl,
    ends.enlarges.precedes started, ended List.mem_cons_self⟩

/-- The records of the flows of an instance. -/
def instanceRecords (call : CudaCall) (flows : List EventId) (trace : Trace) :
    List EventQueue.FlowRecord :=
  (flows.zip trace).map fun entry => (entry.1, entry.2, call)

/-- The flows of an instance are created between its points, and its barrier is released. -/
theorem completeCC_eq_ok {call : CudaCall}
    (run : sim.completeCC env op time comm call waiting = .ok sim') :
    ∃ middle flows, Adds (instanceRecords call flows waiting.trace) sim middle ∧
      flows.length = waiting.trace.length ∧
      (flows.Pairwise (· < ·) ∧ ∀ flow ∈ flows, sim.queue.eventCounter ≤ flow ∧
        flow < middle.queue.eventCounter) ∧
      (∀ flow ∈ flows, middle.queue.Precedes waiting.commStartMeta flow ∧
        middle.queue.Precedes flow waiting.commEndMeta) ∧
      sim' = middle.note (.completed op comm.id waiting.commBarrier flows) := by
  simp only [completeCC, bind_eq_ok, pure_eq_ok, Prod.exists] at run
  rcases run with ⟨first, flows, created, second, waited, third, released, rfl⟩
  have creates : Adds (instanceRecords call flows waiting.trace) sim first ∧
      flows.length = waiting.trace.length ∧ flows.Pairwise (· < ·) ∧
      ∀ flow ∈ flows, (sim.queue.eventCounter ≤ flow ∧ flow < first.queue.eventCounter) ∧
        first.queue.Precedes waiting.commStartMeta flow := by
    refine foldlM_prefix (fun done (acc : Simulator × List EventId) =>
      Adds (instanceRecords call acc.2 done) sim acc.1 ∧ acc.2.length = done.length ∧
        acc.2.Pairwise (· < ·) ∧
        ∀ flow ∈ acc.2, (sim.queue.eventCounter ≤ flow ∧ flow < acc.1.queue.eventCounter) ∧
          acc.1.queue.Precedes waiting.commStartMeta flow) ?_ ?_ created
    · rintro done flow rest ⟨before, flows⟩ acc' ⟨earlier, length, ascending, known⟩ step _
      simp only [addCommEvent, bind_eq_ok, pure_eq_ok, Prod.exists] at step
      rcases step with ⟨after, event, added, rfl⟩
      rcases addActionOrPoint_adds added with ⟨adds, new, counter, edges⟩
      have fresh : event < after.queue.eventCounter := counter ▸ Nat.lt_succ_self event
      refine ⟨?_, by simpa using length, ?_, ?_⟩
      · have records : instanceRecords call (flows ++ [event]) (done ++ [flow]) =
            instanceRecords call flows done ++ [(event, flow, call)] := by
          simp [instanceRecords, List.zip_append length]
        rw [records]
        exact earlier.trans adds
      · refine List.pairwise_append.mpr ⟨ascending, List.pairwise_singleton _ _, ?_⟩
        intro other mem last isLast
        rw [List.mem_singleton.mp isLast, new]
        exact (known other mem).1.2
      · intro other mem
        rcases List.mem_append.mp mem with old | isLast
        · rcases known other old with ⟨⟨later, issued⟩, precedes⟩
          exact ⟨⟨later, issued.trans_le adds.enlarges.eventCounter⟩,
            adds.enlarges.precedes precedes⟩
        · rcases List.mem_singleton.mp isLast
          refine ⟨⟨?_, fresh⟩, edges List.mem_cons_self⟩
          exact new ▸ earlier.enlarges.eventCounter
    · exact ⟨Aside.refl sim, rfl, List.Pairwise.nil, by simp⟩
  have waits : Aside first second ∧
      ∀ flow ∈ flows, second.queue.Precedes flow waiting.commEndMeta := by
    refine foldlM_prefix (fun done sim => Aside first sim ∧
      ∀ flow ∈ done, sim.queue.Precedes flow waiting.commEndMeta) ?_ ⟨.refl first, by simp⟩ waited
    rintro done flow rest before after ⟨earlier, precedes⟩ step _
    rcases addDependency_aside step with ⟨aside, _, edge⟩
    refine ⟨earlier.trans aside, fun other mem => ?_⟩
    rcases List.mem_append.mp mem with old | new
    · exact aside.enlarges.precedes (precedes other old)
    · exact List.mem_singleton.mp new ▸ edge
  have frees := removeNoneDependency_aside released
  have after := waits.1.trans frees
  rcases creates with ⟨adds, length, ascending, known⟩
  refine ⟨third, flows, ?_, length, ⟨ascending, fun flow mem => ?_⟩, fun flow mem => ⟨?_, ?_⟩, rfl⟩
  · simpa using adds.trans after
  · exact ⟨(known flow mem).1.1, (known flow mem).1.2.trans_le after.enlarges.eventCounter⟩
  · exact after.enlarges.precedes (known flow mem).2
  · exact frees.enlarges.precedes (waits.2 flow mem)

/-- A call opens an instance when its rank has joined all of them, and else joins the first that
lacks its rank; the last rank completes the instance. -/
theorem ncclCall_cases {ranks : Ranks} {trace : Trace} {call : CudaCall}
    (run : sim.ncclCall env op ranks host time trace comm stream call = .ok sim') :
    (∃ middle waiting,
      (sim.waitings op comm.id).findIdx? (fun waiting => comm.rank ∉ waiting.joinedRanks) = none ∧
        sim.newCCWaiting env op ranks host time trace comm stream = .ok (middle, waiting) ∧
        sim' = middle.setCCWaiting op comm.id (sim.waitings op comm.id ++ [waiting])) ∨
      ∃ idx waiting middle,
        (sim.waitings op comm.id).findIdx? (fun waiting => comm.rank ∉ waiting.joinedRanks) =
            some idx ∧
          (sim.waitings op comm.id)[idx]? = some waiting ∧
          sim.joinStream env op host time comm stream waiting = .ok middle ∧
          ((waiting.join comm.rank).waitingFor ≠ ∅ ∧ sim' = middle.setCCWaiting op comm.id
              ((sim.waitings op comm.id).set idx (waiting.join comm.rank)) ∨
            (waiting.join comm.rank).waitingFor = ∅ ∧
              (middle.setCCWaiting op comm.id ((sim.waitings op comm.id).eraseIdx idx)).completeCC
                env op time comm call (waiting.join comm.rank) = .ok sim') := by
  simp only [ncclCall] at run
  split at run
  · rename_i joined
    simp only [bind_eq_ok, pure_eq_ok, Prod.exists] at run
    rcases run with ⟨middle, waiting, created, rfl⟩
    exact Or.inl ⟨middle, waiting, joined, created, rfl⟩
  · rename_i idx lacks
    simp only [bind_eq_ok, unwrap_eq_ok] at run
    rcases run with ⟨waiting, here, middle, joined, run⟩
    refine Or.inr ⟨idx, waiting, middle, lacks, here, joined, ?_⟩
    split at run
    · rename_i complete
      exact Or.inr ⟨complete, run⟩
    · rename_i incomplete
      simp only [pure_eq_ok] at run
      exact Or.inl ⟨incomplete, run.symm⟩

theorem setCCWaiting_keepsTransfers (keeps : KeepsTransfers sim sim') (id : NcclId)
    (waitings : List CCWaiting) : KeepsTransfers sim (sim'.setCCWaiting op id waitings) :=
  keeps.trans ⟨.of_silent rfl rfl rfl, rfl, rfl⟩

theorem joinStream_keepsTransfers
    (run : sim.joinStream env op host time comm stream waiting = .ok sim') :
    KeepsTransfers sim sim' := by
  rcases joinStream_eq_ok run with ⟨_, _, _, aside, rfl, _⟩
  exact (KeepsTransfers.of_aside aside).note id

theorem completeCC_keepsTransfers {call : CudaCall} (collective : call.collective ≠ none)
    (run : sim.completeCC env op time comm call waiting = .ok sim') : KeepsTransfers sim sim' := by
  rcases completeCC_eq_ok run with ⟨_, flows, adds, _, _, _, rfl⟩
  refine KeepsTransfers.note (.of_adds adds ?_) id
  intro record mem
  rcases List.mem_map.mp mem with ⟨_, _, rfl⟩
  exact collective

theorem handleNcclOp_keepsTransfers {host : ResponseId} {call : CudaCall}
    {trace : Ranks → ℕ → Except Panic Trace} (collective : call.collective ≠ none)
    (run : sim.handleNcclOp env op host time comm stream call trace = .ok sim') :
    KeepsTransfers sim sim' := by
  simp only [handleNcclOp, bind_eq_ok] at run
  rcases run with ⟨ranks, _, flows, _, run⟩
  have counted : KeepsTransfers sim { sim with nextFlowId := sim.nextFlowId + flows.length } :=
    .of_aside (.of_silent rfl rfl rfl rfl rfl rfl)
  refine counted.trans ?_
  rcases ncclCall_cases run with ⟨middle, waiting, _, created, rfl⟩ |
    ⟨idx, waiting, middle, _, _, joined, ⟨_, rfl⟩ | ⟨_, completed⟩⟩
  · rcases newCCWaiting_eq_ok created with ⟨_, _, _, aside, rfl, _⟩
    exact setCCWaiting_keepsTransfers ((KeepsTransfers.of_aside aside).note id) _ _
  · exact setCCWaiting_keepsTransfers (joinStream_keepsTransfers joined) _ _
  · exact (setCCWaiting_keepsTransfers (joinStream_keepsTransfers joined) _ _).trans
      (completeCC_keepsTransfers collective completed)

end Collectives

section Transfers

variable {kind : P2PCallKind} {key : P2PKey} {host : HostId} {time : ℤ}

/-- The flow of a matched pair is created. -/
theorem scheduleP2PFlow_eq_ok {send recv : P2PFlowEndpoint}
    (run : sim.scheduleP2PFlow env send recv key = .ok sim') :
    ∃ middle flow event bytes,
      Adds [(event, flow, .ncclSend bytes .u8 key.2.2 ⟨key.2.1, key.1⟩ send.stream)] sim middle ∧
        sim.queue.eventCounter ≤ event ∧ event < middle.queue.eventCounter ∧
        sim' = middle.note (.matched key send.tag recv.tag event) := by
  simp only [scheduleP2PFlow, bind_eq_ok, pure_eq_ok, Prod.exists] at run
  rcases run with ⟨first, event, added, second, sendWait, third, recvWait, fourth, sendFree, fifth,
    recvFree, rfl⟩
  have counted : Aside sim { sim with nextFlowId := sim.nextFlowId + 1 } :=
    .of_silent rfl rfl rfl rfl rfl rfl
  rcases addActionOrPoint_adds added with ⟨flows, new, counter, _⟩
  have waits := (addDependency_aside sendWait).1.trans (addDependency_aside recvWait).1
  have frees := (removeNoneDependency_aside sendFree).trans (removeNoneDependency_aside recvFree)
  have later := waits.trans frees
  refine ⟨fifth, _, event, _, (Adds.trans counted flows).trans later, new.ge, ?_, rfl⟩
  have fresh : event < first.queue.eventCounter := counter ▸ Nat.lt_succ_self event
  exact fresh.trans_le later.enlarges.eventCounter

theorem scheduleMatchedP2PFlow_keepsCollectives {endpoint peerEndpoint : P2PFlowEndpoint}
    (run : sim.scheduleMatchedP2PFlow env kind endpoint peerEndpoint key = .ok sim') :
    KeepsCollectives sim sim' := by
  cases kind with
  | send =>
      rcases scheduleP2PFlow_eq_ok run with ⟨_, _, _, _, adds, _, _, rfl⟩
      exact (KeepsCollectives.of_adds adds (by simp [CudaCall.collective])).note id
  | recv =>
      rcases scheduleP2PFlow_eq_ok run with ⟨_, _, _, _, adds, _, _, rfl⟩
      exact (KeepsCollectives.of_adds adds (by simp [CudaCall.collective])).note id

theorem setWaiting_keepsCollectives (sim : Simulator) (kind : P2PCallKind) (key : P2PKey)
    (queue : Option (List P2PFlowEndpoint)) :
    KeepsCollectives sim (sim.setWaiting kind key queue) := by
  cases kind with
  | send =>
      exact ⟨.of_silent rfl rfl rfl, rfl⟩
  | recv =>
      exact ⟨.of_silent rfl rfl rfl, rfl⟩

theorem popP2PEndpoint_keepsCollectives (sim : Simulator) (kind : P2PCallKind) (key : P2PKey) :
    KeepsCollectives sim (sim.popP2PEndpoint kind key).2 := by
  simp only [popP2PEndpoint]
  split
  · exact .of_aside (.refl sim)
  · exact setWaiting_keepsCollectives sim kind key _

theorem matchOrEnqueueP2PEndpoint_keepsCollectives {endpoint : P2PFlowEndpoint}
    (run : sim.matchOrEnqueueP2PEndpoint env kind key endpoint = .ok sim') :
    KeepsCollectives sim sim' := by
  simp only [matchOrEnqueueP2PEndpoint] at run
  have offered : KeepsCollectives sim (sim.note (.offered kind key endpoint.tag)) :=
    (KeepsCollectives.of_aside (.refl sim)).note id
  have popped := offered.trans (popP2PEndpoint_keepsCollectives _ kind.peer key)
  split at run
  · rename_i peerEndpoint middle result
    rw [result] at popped
    exact popped.trans (scheduleMatchedP2PFlow_keepsCollectives run)
  · rename_i middle result
    rw [result] at popped
    exact Except.ok.inj run ▸ popped.trans (setWaiting_keepsCollectives _ kind key _)

/-- The points of an ungrouped call. -/
theorem ncclUngroupedP2P_eq_ok {count : ℕ} {dtype : NcclDatatype} {peer : ℤ} {comm : NcclComm}
    {stream : CudaStream}
    (run : sim.ncclUngroupedP2P env kind host time count dtype peer comm stream = .ok sim') :
    ∃ middle endpoint, Aside sim middle ∧ endpoint.tag = ⟨sim.handled, 0⟩ ∧
      middle.matchOrEnqueueP2PEndpoint env kind (p2pKey kind comm peer) endpoint = .ok sim' := by
  simp only [ncclUngroupedP2P, createUngroupedP2PEndpoint, bind_eq_ok, pure_eq_ok, Prod.exists,
    Prod.mk.injEq] at run
  rcases run with ⟨first, barrier, addBarrier, third, endpoint, ⟨second, _, start, _, _, finish,
    rfl, rfl⟩, matched⟩
  have blocks := (addActionOrPoint_aside rfl addBarrier).1
  have points := (addEvent_aside rfl start).1.trans (addEvent_aside rfl finish).1
  refine ⟨_, _, blocks.trans points, ?_, matched⟩
  rw [blocks.handled]

/-- The points of the calls of a group, in the order of the calls. -/
theorem setupFlows_eq_ok {groupStart : EventId} {calls : List P2PCallInfo}
    {setups : List FlowSetup}
    (run : calls.foldlM (setupFlow env time groupStart) (sim, []) = .ok (sim', setups)) :
    Aside sim sim' ∧ setups.map FlowSetup.call = calls := by
  refine foldlM_prefix (fun done (acc : Simulator × List FlowSetup) =>
    Aside sim acc.1 ∧ acc.2.map FlowSetup.call = done) ?_ ⟨.refl sim, rfl⟩ run
  rintro done call rest acc acc' ⟨earlier, same⟩ step _
  simp only [setupFlow, bind_eq_ok, pure_eq_ok, Prod.exists] at step
  rcases step with ⟨first, _, barrier, second, _, start, third, _, finish, rfl⟩
  have points := ((addActionOrPoint_aside rfl barrier).1.trans
    (addActionOrPoint_aside rfl start).1).trans (addActionOrPoint_aside rfl finish).1
  exact ⟨earlier.trans points, by simp [same]⟩

/-- The calls of a group on one stream are set up, and then offered in their order. -/
theorem streamGroup_eq_ok {group : CudaStream × List P2PCallInfo}
    (run : streamGroup env host time sim group = .ok sim') :
    ∃ (middle middle' : Simulator) (setups : List FlowSetup), Aside sim middle ∧
      setups.map FlowSetup.call = group.2 ∧
      setups.foldlM (offerSetup env host time) middle = .ok middle' ∧ Aside middle' sim' := by
  simp only [streamGroup, bind_eq_ok, Prod.exists] at run
  rcases run with ⟨first, _, barrier, second, groupStart, start, third, setups, folded, fourth, _,
    finish, fifth, offered, release⟩
  have blocks := (addActionOrPoint_aside rfl barrier).1
  have starts := (addEvent_aside rfl start).1
  rcases setupFlows_eq_ok folded with ⟨sets, same⟩
  have ends := (addEvent_aside rfl finish).1
  exact ⟨fourth, fifth, setups, ((blocks.trans starts).trans sets).trans ends, same, offered,
    removeNoneDependency_aside release⟩

theorem streamGroup_keepsCollectives {group : CudaStream × List P2PCallInfo}
    (run : streamGroup env host time sim group = .ok sim') : KeepsCollectives sim sim' := by
  rcases streamGroup_eq_ok run with ⟨middle, middle', setups, before, _, offered, after⟩
  have offers : KeepsCollectives middle middle' := KeepsCollectives.foldlM (fun sim => sim)
    (fun step => matchOrEnqueueP2PEndpoint_keepsCollectives step) offered
  exact ((KeepsCollectives.of_aside before).trans offers).trans (.of_aside after)

end Transfers

theorem handleCudaCall_keepsCollectives {msg : CudaCallMsg} (transfers : msg.call.Transfers)
    (run : sim.handleCudaCall env msg = .ok sim') : KeepsCollectives sim sim' := by
  rcases msg with ⟨host, time, call⟩
  have updated : KeepsCollectives sim (sim.updateHostCurr host.host time) :=
    .of_aside (.of_silent rfl rfl rfl rfl rfl rfl)
  refine updated.trans ?_
  cases call with
  | ncclSend count dtype peer comm stream =>
      rcases ncclUngroupedP2P_eq_ok run with ⟨_, _, aside, _, matched⟩
      exact (KeepsCollectives.of_aside aside).trans
        (matchOrEnqueueP2PEndpoint_keepsCollectives matched)
  | ncclRecv count dtype peer comm stream =>
      rcases ncclUngroupedP2P_eq_ok run with ⟨_, _, aside, _, matched⟩
      exact (KeepsCollectives.of_aside aside).trans
        (matchOrEnqueueP2PEndpoint_keepsCollectives matched)
  | ncclP2pGroup calls =>
      exact KeepsCollectives.foldlM (fun sim => sim)
        (fun step => streamGroup_keepsCollectives step) run
  | _ => exact absurd transfers id

/-- Messages that are no collective keep what is left of collectives. -/
theorem dispatch_keepsCollectives {message : Message} (notCollective : message.collective = none)
    (run : sim.dispatch env message = .ok sim') : KeepsCollectives sim sim' := by
  by_cases transfers : message.Transfers
  · cases message with
    | cuda msg => exact handleCudaCall_keepsCollectives transfers run
    | torch call => exact absurd transfers id
    | exit host time => exact absurd transfers id
  · exact .of_aside (dispatch_aside notCollective transfers run)

/-- Messages that are no point-to-point call keep what is left of these. -/
theorem dispatch_keepsTransfers {message : Message} (notTransfers : ¬message.Transfers)
    (run : sim.dispatch env message = .ok sim') : KeepsTransfers sim sim' := by
  cases collective : message.collective with
  | none => exact .of_aside (dispatch_aside collective notTransfers run)
  | some called =>
      rcases message with ⟨host, time, call⟩ | _ | _
      · have updated : KeepsTransfers sim (sim.updateHostCurr host.host time) :=
          .of_aside (.of_silent rfl rfl rfl rfl rfl rfl)
        have isCollective : call.collective ≠ none := by
          intro none
          simp [Message.collective, none] at collective
        refine updated.trans ?_
        cases call with
        | ncclBcast => exact handleNcclOp_keepsTransfers isCollective run
        | ncclAllReduce => exact handleNcclOp_keepsTransfers isCollective run
        | ncclAllGather => exact handleNcclOp_keepsTransfers isCollective run
        | ncclReduceScatter => exact handleNcclOp_keepsTransfers isCollective run
        | _ => exact absurd rfl isCollective
      · cases collective
      · cases collective

end Simulator

end Phantora
