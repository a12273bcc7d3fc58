import Phantora.Simulator.Courses
import Phantora.Simulator.EventHandles
import Phantora.Simulator.NcclHeights

/-!
# Levels along a course

When the communication of a run is well ordered, the events can be put on levels: those of a
stream below the rounds that lie ahead of it, and those of a call on the levels of its round.
-/

namespace Phantora

open Outcome

open EventQueue (OnLevel NotAbove SameLevels)

namespace Simulator

variable {env : Environment} {sim sim' : Simulator} {cap : HostStream → ℕ} {round : ℕ → ℕ}
  {level level' : EventId → ℕ} {messages : List Message} {message : Message} {op : Collective}
  {id : NcclId}

/-- The waiting instances are on the levels of rounds that they are in, as a relation says for
the numbers of the instances. -/
def InRounds (op : Collective) (id : NcclId) (slot : ℕ → ℕ → Prop) (level : EventId → ℕ)
    (sim : Simulator) : Prop :=
  ∀ i waiting, (sim.waitings op id)[i]? = some waiting →
    ∃ now, slot ((sim.completions op id).length + i) now ∧ waiting.At now level sim.queue

theorem InRounds.mono {slot slot' : ℕ → ℕ → Prop} (inRounds : InRounds op id slot level sim)
    (same : SameLevels level level' sim.queue sim'.queue)
    (waitings : sim'.waitings op id = sim.waitings op id)
    (completions : sim'.completions op id = sim.completions op id)
    (slots : ∀ {number now}, slot number now → slot' number now) :
    InRounds op id slot' level' sim' := by
  intro i waiting here
  rw [waitings] at here
  rcases inRounds i waiting here with ⟨now, inSlot, levels⟩
  rw [completions]
  exact ⟨now, slots inSlot, levels.mono same⟩

section Collectives

variable {n now : ℕ} {slot : ℕ → ℕ → Prop} {host : HostId} {time : ℤ} {comm : NcclComm}
  {stream : CudaStream} {call : CudaCall}

/-- A collective call is on one stream. -/
theorem tracks_of_collectiveStream {host : ResponseId}
    (isStream : call.collectiveStream = some stream) :
    (Message.cuda ⟨host, time, call⟩).tracks = [(host.host, stream)] := by
  cases call <;> cases isStream <;> rfl

/-- Only the first of the waiting instances is completed. -/
theorem Conducted.completes_first (conducted : Conducted op id n messages sim) {rank : ℤ}
    (mem : rank ∈ allRanks n) {idx : ℕ} {waiting : CCWaiting}
    (lacks : (sim.waitings op id).findIdx? (fun waiting => rank ∉ waiting.joinedRanks) = some idx)
    (here : (sim.waitings op id)[idx]? = some waiting)
    (complete : (waiting.join rank).waitingFor = ∅) : idx = 0 := by
  rcases conducted.joins_here mem lacks here with ⟨number, begun, _, joinedRanks, waitingFor⟩
  have whole : Rounds.members (allRanks n) (callers op id messages ++ [rank])
      ((callers op id messages).count rank) = allRanks n := by
    refine Finset.Subset.antisymm Rounds.members_subset ?_
    rw [← joinedRanks, ← Finset.sdiff_eq_empty_iff_subset, ← waitingFor, complete]
  rcases conducted.progress.finish_round mem begun whole with ⟨first, _⟩
  omega

/-- A call of a round joins an instance of the round, or opens one. -/
theorem Heights.ncclCall {ranks : Ranks} {trace : Trace} (heights : Heights cap level sim)
    (conducted : Conducted op comm.id n messages sim) (mem : comm.rank ∈ allRanks n)
    (low : cap (host, stream) ≤ 3 * now) (inRounds : InRounds op comm.id slot level sim)
    (slots : ∀ {other}, slot ((callers op comm.id messages).count comm.rank) other → other = now)
    (run : sim.ncclCall env op ranks host time trace comm stream call = .ok sim') :
    ∃ level', Heights (Function.update cap (host, stream) (3 * now + 2)) level' sim' ∧
      SameLevels level level' sim.queue sim'.queue ∧
      InRounds op comm.id (fun number other => slot number other ∨
        (number = (callers op comm.id messages).count comm.rank ∧ other = now)) level' sim' := by
  have total := Conducted.length_instances sim op comm.id
  have completions : ∀ {before : Simulator} {barrier streamStart streamEnd : EventId},
      Aside sim before → (before.note (.joined op comm.id barrier comm.rank streamStart
        streamEnd)).completions op comm.id = sim.completions op comm.id := by
    intro before barrier streamStart streamEnd aside
    rw [completions_note, completions_of_adds aside]
    exact List.append_nil _
  rcases ncclCall_cases run with ⟨middle, waiting, last, created, rfl⟩ |
    ⟨idx, waiting, middle, lacks, here, joined, rest⟩
  · rcases heights.newCCWaiting low created with ⟨level', raised, same, new⟩
    rcases newCCWaiting_eq_ok created with ⟨before, streamStart, streamEnd, aside, rfl, _⟩
    refine ⟨level', raised.silent rfl rfl, same, fun i other found => ?_⟩
    rw [waitings_setCCWaiting, if_pos ⟨rfl, rfl⟩] at found
    rw [completions_setCCWaiting, completions aside]
    by_cases old : i < (sim.waitings op comm.id).length
    · rw [List.getElem?_append_left old] at found
      rcases inRounds i other found with ⟨now', inSlot, levels⟩
      exact ⟨now', Or.inl inSlot, levels.mono same⟩
    · rw [List.getElem?_append_right (Nat.le_of_not_lt old), List.getElem?_singleton] at found
      split at found
      · cases found
        refine ⟨now, Or.inr ⟨?_, rfl⟩, new⟩
        have bound := conducted.count_le comm.rank
        rw [conducted.findIdx?_waitings mem] at last
        split at last
        · cases last
        · omega
      · cases found
  · rcases conducted.joins_here mem lacks here with ⟨number, _⟩
    rcases inRounds idx waiting here with ⟨now', inSlot, levels⟩
    rw [number] at inSlot
    rw [slots inSlot] at levels
    rcases heights.joinStream levels low joined with ⟨level₁, raised, same₁⟩
    rcases joinStream_eq_ok joined with ⟨before, streamStart, streamEnd, aside, rfl, _⟩
    rcases rest with ⟨_, rfl⟩ | ⟨complete, completed⟩
    · refine ⟨level₁, raised.silent rfl rfl, same₁, fun i other found => ?_⟩
      rw [waitings_setCCWaiting, if_pos ⟨rfl, rfl⟩] at found
      rw [completions_setCCWaiting, completions aside]
      by_cases isJoined : i = idx
      · subst isJoined
        rw [List.getElem?_set_self (List.getElem?_eq_some_iff.mp here).1] at found
        cases found
        have levels₁ := levels.mono same₁
        exact ⟨now, Or.inr ⟨number, rfl⟩, levels₁.barrier, levels₁.starts, levels₁.ends⟩
      · rw [List.getElem?_set_ne (Ne.symm isJoined)] at found
        rcases inRounds i other found with ⟨other', inSlot', levels'⟩
        exact ⟨other', Or.inl inSlot', levels'.mono same₁⟩
    · have isFirst := conducted.completes_first mem lacks here complete
      subst isFirst
      have levels₁ := levels.mono same₁
      have here₁ : (waiting.join comm.rank).At now level₁ before.queue :=
        ⟨levels₁.barrier, levels₁.starts, levels₁.ends⟩
      have erased : Heights (Function.update cap (host, stream) (3 * now + 2)) level₁
          ((before.note (.joined op comm.id waiting.commBarrier comm.rank streamStart
            streamEnd)).setCCWaiting op comm.id ((sim.waitings op comm.id).eraseIdx 0)) :=
        raised.silent rfl rfl
      rcases erased.completeCC here₁ completed with ⟨level₂, raised', same₂⟩
      rcases completeCC_eq_ok completed with ⟨after, flows, adds, _, _, _, rfl⟩
      refine ⟨level₂, raised', same₁.trans same₂, fun i other found => ?_⟩
      have waitings : after.waitings op comm.id = (sim.waitings op comm.id).eraseIdx 0 := by
        rw [Simulator.waitings, adds.ccWaiting]
        exact (waitings_setCCWaiting _ _ _ _ _ _).trans (if_pos ⟨rfl, rfl⟩)
      have length : ((after.note (.completed op comm.id waiting.commBarrier flows)).completions op
          comm.id).length = (sim.completions op comm.id).length + 1 := by
        rw [completions_note, completions_of_adds adds, completions_setCCWaiting, completions aside]
        simp [Occurrence.completion?]
      have found : (after.waitings op comm.id)[i]? = some other := found
      rw [waitings, List.eraseIdx_zero, List.getElem?_tail] at found
      rcases inRounds (i + 1) other found with ⟨other', inSlot', levels'⟩
      refine ⟨other', Or.inl ?_, levels'.mono (same₁.trans same₂)⟩
      have shifted : ((after.note (.completed op comm.id waiting.commBarrier flows)).completions op
          comm.id).length + i = (sim.completions op comm.id).length + (i + 1) := by
        omega
      exact shifted ▸ inSlot'

end Collectives

/-- The calls of a message go past the round on each of their streams. -/
theorem Heights.transfers (heights : Heights cap level sim) (placed : Placed round level sim)
    (transfers : message.Transfers)
    (low : ∀ stream ∈ message.tracks, cap stream ≤ 3 * round sim.handled)
    (agreed : Agreed round sim') (run : sim.dispatch env message = .ok sim') :
    ∃ level', Heights (fun stream => if stream ∈ message.tracks then 3 * round sim.handled + 2
        else cap stream) level' sim' ∧
      SameLevels level level' sim.queue sim'.queue ∧ Placed round level' sim' := by
  rcases message with ⟨host, time, call⟩ | _ | _
  · have updated : Heights cap level (sim.updateHostCurr host.host time) := heights.silent rfl rfl
    have kept : Placed round level (sim.updateHostCurr host.host time) := placed
    have single : ∀ {kind : P2PCallKind} {count : ℕ} {dtype : NcclDatatype} {peer : ℤ}
        {comm : NcclComm} {stream : CudaStream}, cap (host.host, stream) ≤ 3 * round sim.handled →
        (sim.updateHostCurr host.host time).ncclUngroupedP2P env kind host.host time count dtype
          peer comm stream = .ok sim' →
        ∃ level', Heights (fun other => if other ∈ [(host.host, stream)] then
            3 * round sim.handled + 2 else cap other) level' sim' ∧
          SameLevels level level' sim.queue sim'.queue ∧ Placed round level' sim' := by
      intro kind count dtype peer comm stream below run
      rcases updated.ncclUngroupedP2P kept below agreed run with ⟨level', raised, same, placed'⟩
      refine ⟨level', raised.mono fun other => ?_, same, placed'⟩
      simp only [Function.update_apply, List.mem_singleton]
      exact le_rfl
    cases call with
    | ncclSend count dtype peer comm stream =>
        exact single (low (host.host, stream) (List.mem_singleton_self _)) run
    | ncclRecv count dtype peer comm stream =>
        exact single (low (host.host, stream) (List.mem_singleton_self _)) run
    | ncclP2pGroup calls =>
        simp only [Simulator.dispatch, handleCudaCall, ncclGroupedP2P] at run
        rcases Grouping.group_spec P2PCallInfo.stream (p2pCallInfos sim.handled calls) with
          ⟨nodup, keys, values⟩
        have permuted := env.order_perm sim.handled
          (Grouping.group P2PCallInfo.stream (p2pCallInfos sim.handled calls))
        rw [← (permuted.map Prod.fst).nodup_iff] at nodup
        have mem_tracks : ∀ stream, stream ∈
          (Message.cuda ⟨host, time, .ncclP2pGroup calls⟩).tracks ↔
            stream ∈ (env.order sim.handled (Grouping.group P2PCallInfo.stream
              (p2pCallInfos sim.handled calls))).map fun group => (host.host, group.1) := by
          intro stream
          have streams : ∀ track, track ∈ calls.filterMap p2pStream ↔ track ∈ (env.order sim.handled
              (Grouping.group P2PCallInfo.stream (p2pCallInfos sim.handled calls))).map
              Prod.fst := by
            intro track
            rw [(permuted.map Prod.fst).mem_iff, keys, mem_streams_p2pCallInfos]
          simp only [Message.tracks, CudaCall.tracks, List.mem_map, streams]
          constructor
          · rintro ⟨track, ⟨group, mem, rfl⟩, rfl⟩
            exact ⟨group, mem, rfl⟩
          · rintro ⟨group, mem, rfl⟩
            exact ⟨group.1, ⟨group, mem, rfl⟩, rfl⟩
        have rounds : ∀ group ∈ env.order sim.handled (Grouping.group P2PCallInfo.stream
            (p2pCallInfos sim.handled calls)), ∀ info ∈ group.2,
            round info.tag.message = round sim.handled := by
          intro group mem info inGroup
          have isGroup := values group.1 group.2 (permuted.mem_iff.mp mem)
          rw [isGroup] at inGroup
          exact congrArg round ((tags_p2pCalls (.cuda ⟨host, time, .ncclP2pGroup calls⟩)
            sim.handled).2 info (List.mem_of_mem_filter inGroup))
        rcases updated.streamGroups kept nodup (fun group mem => low _ ((mem_tracks _).mpr
          (List.mem_map_of_mem mem))) rounds agreed run with ⟨level', raised, same, placed'⟩
        refine ⟨level', raised.mono fun stream => ?_, same, placed'⟩
        simp only [mem_tracks]
        exact le_rfl
    | _ => exact absurd transfers id
  · exact absurd transfers id
  · exact absurd transfers id

/-- The events are on the levels that the rounds of the messages allow. -/
structure Charted (round : ℕ → ℕ) (messages : List Message) (level : EventId → ℕ)
    (sim : Simulator) : Prop where
  heights : Heights (fun stream => 3 * (courseOf round messages).horizon stream) level sim
  recorded : ∀ key e, sim.idOfCuda key = some e →
    NotAbove level sim.queue e (3 * (courseOf round messages).recorded key)
  instances : ∀ op id, InRounds op id (fun k now => ∃ number,
    callOf messages number = some (op, id, k) ∧ round number = now) level sim
  placed : Placed round level sim

/-- A message is handled; the rank that makes a collective call is one of those of its communicator,
which has the given size. -/
def SizedStep (env : Environment) (size : NcclId → ℕ) (sim : Simulator) (message : Message)
    (sim' : Simulator) : Prop :=
  Step env sim message sim' ∧ ∀ called ∈ message.collective,
    called.2.rank ∈ allRanks (size called.2.id) ∧
      ∀ ranks ∈ sim.commGroups called.2.id, ranks.length = size called.2.id

theorem conducted_of_sized {size : NcclId → ℕ} (several : ∀ id, 2 ≤ size id)
    (reached : Runs.Reached Initial (SizedStep env size) messages sim) (op : Collective)
    (id : NcclId) : Conducted op id (size id) messages sim := by
  refine reached.invariant (Conducted op id (size id))
    (fun initial => .start initial (several id)) ?_
  rintro messages sim message sim' conducted ⟨taken, sized⟩
  rcases handle_eq_ok taken with ⟨final, dispatched, rfl⟩
  cases caller : message.caller? op id with
  | none => exact ((conducted.apart (dispatch_apart caller dispatched)).other caller).step
  | some rank =>
      rcases Message.caller?_eq_some caller with ⟨comm, collective, rfl, rfl⟩
      rcases sized (op, comm) collective with ⟨mem, lengths⟩
      refine (conducted.dispatch (several comm.id) (fun rank isCaller => ?_) lengths
        dispatched).step
      exact Option.some.inj (caller.symm.trans isCaller) ▸ mem

namespace Charted

theorem start (initial : Initial sim) : Charted round [] (fun _ => 0) sim := by
  rcases initial with ⟨cluster, setting, hostMapping, rfl⟩
  refine ⟨⟨⟨fun edge => ?_, fun edge => ?_⟩, fun stream e mem => ?_⟩, fun key e known => ?_,
    fun op id i waiting here => ?_, fun kind key endpoint mem => ?_⟩
  · exact absurd edge List.not_mem_nil
  · exact absurd edge List.not_mem_nil
  · exact absurd mem List.not_mem_nil
  · cases known
  · cases here
  · cases kind <;> exact absurd mem List.not_mem_nil

theorem slot_concat {k now : ℕ}
    (slot : ∃ number, callOf messages number = some (op, id, k) ∧ round number = now) :
    ∃ number, callOf (messages ++ [message]) number = some (op, id, k) ∧ round number = now := by
  rcases slot with ⟨number, called, isNow⟩
  have lt : number < messages.length := lt_of_callOf (by rw [called]; rfl)
  exact ⟨number, (callOf_concat_of_lt lt).trans called, isNow⟩

/-- A message that does not communicate. -/
theorem aside (charted : Charted round messages level sim)
    (notCollective : message.collective = none)
    (notTransfers : ¬message.Transfers) (unrecorded : message.recorded = none →
      sim'.idOfCuda = sim.idOfCuda)
    (run : sim.dispatch env message = .ok sim') :
    ∃ level', Charted round (messages ++ [message]) level' sim' := by
  have adds := dispatch_aside notCollective notTransfers run
  have general : ∀ level', SameLevels level level' sim.queue sim'.queue →
      Heights (fun stream => 3 * (courseOf round (messages ++ [message])).horizon stream) level'
        sim' →
      (∀ key e, sim'.idOfCuda key = some e →
        NotAbove level' sim'.queue e (3 * (courseOf round (messages ++ [message])).recorded key)) →
      Charted round (messages ++ [message]) level' sim' := by
    intro level' same heights recorded
    refine ⟨heights, recorded, fun op id => ?_, charted.placed.adds same adds⟩
    refine (charted.instances op id).mono same ?_ (completions_of_adds adds) slot_concat
    rw [Simulator.waitings, adds.ccWaiting, Simulator.waitings]
  have waits : (∃ host time stream event,
      message = .cuda ⟨host, time, .cudaStreamWaitEvent stream event⟩) ∨
      ∀ host time stream event, message ≠
        .cuda ⟨host, time, .cudaStreamWaitEvent stream event⟩ := by
    by_cases isWait : ∃ host time stream event,
        message = .cuda ⟨host, time, .cudaStreamWaitEvent stream event⟩
    · exact Or.inl isWait
    · exact Or.inr fun host time stream event same => isWait ⟨host, time, stream, event, same⟩
  rcases waits with ⟨host, time, stream, event, rfl⟩ | notWait
  · have updated : Heights (fun stream => 3 * (courseOf round messages).horizon stream) level
        (sim.updateHostCurr host.host time) := charted.heights.silent rfl rfl
    rcases updated.cudaStreamWaitEvent (charted.recorded (host.host, event)) run with
      ⟨level', raised, same⟩
    refine ⟨level', general level' same ?_ fun key e known => ?_⟩
    · refine raised.mono fun other => ?_
      rw [courseOf_concat]
      simp only [Course.after, Function.update_apply]
      split
      · omega
      · exact le_rfl
    · rw [unrecorded rfl] at known
      rw [courseOf_concat]
      exact same.notAbove (charted.recorded key e known)
  · cases isRecord : message.recorded with
    | none =>
        rcases charted.heights.dispatch notCollective notTransfers notWait run with
          ⟨level', raised, same⟩
        have course : courseOf round (messages ++ [message]) = courseOf round messages := by
          rw [courseOf_concat]
          exact Course.after_aside notCollective notTransfers isRecord notWait
        refine ⟨level', general level' same (course ▸ raised) fun key e known => ?_⟩
        rw [unrecorded isRecord] at known
        rw [course]
        exact same.notAbove (charted.recorded key e known)
    | some key =>
        rcases message with ⟨host, time, call⟩ | _ | _
        · cases call with
          | cudaEventRecord event =>
              have updated : Heights (fun stream => 3 * (courseOf round messages).horizon stream)
                  level (sim.updateHostCurr host.host time) := charted.heights.silent rfl rfl
              rcases updated.cudaEventRecord run with ⟨level', id, raised, same, known, new⟩
              refine ⟨level', general level' same ?_ fun key e isKnown => ?_⟩
              · rw [courseOf_concat]
                exact raised
              · rw [courseOf_concat]
                rw [known] at isKnown
                simp only [Course.after, Function.update_apply] at isKnown ⊢
                split at isKnown
                · rename_i isRecorded
                  rw [if_pos isRecorded, ← Option.some.inj isKnown]
                  exact new
                · rename_i differs
                  rw [if_neg differs]
                  exact same.notAbove (charted.recorded key e isKnown)
          | _ => cases isRecord
        · cases isRecord
        · cases isRecord

/-- A message with calls between two ranks. -/
theorem transfers (charted : Charted round messages level sim)
    (handled : sim.handled = messages.length)
    (transfers : message.Transfers) (low : ∀ stream ∈ message.tracks,
      (courseOf round messages).horizon stream ≤ round messages.length)
    (unrecorded : sim'.idOfCuda = sim.idOfCuda) (agreed : Agreed round sim')
    (run : sim.dispatch env message = .ok sim') :
    ∃ level', Charted round (messages ++ [message]) level' sim' := by
  have keeps := dispatch_keepsCollectives (collective_eq_none transfers) run
  have course := (courseOf round messages).after_communicates (round messages.length)
    (Or.inr transfers)
  rw [← handled] at low
  rcases charted.heights.transfers charted.placed transfers
    (fun stream mem => Nat.mul_le_mul_left 3 (low stream mem)) agreed run with
    ⟨level', raised, same, placed⟩
  refine ⟨level', raised.mono fun stream => ?_, fun key e known => ?_, fun op id => ?_, placed⟩
  · rw [courseOf_concat, course, handled]
    simp only
    split
    · omega
    · exact le_rfl
  · rw [unrecorded] at known
    rw [courseOf_concat, course]
    exact same.notAbove (charted.recorded key e known)
  · have apart : Apart op id sim sim' := .of_keeps keeps
    exact (charted.instances op id).mono same apart.waitings apart.completions slot_concat

/-- A collective call. -/
theorem collective {comm : NcclComm} {n : ℕ} (charted : Charted round messages level sim)
    (conducted : Conducted op comm.id n messages sim) (mem : comm.rank ∈ allRanks n)
    (collective : message.collective = some (op, comm))
    (ordered : WellOrdered round (messages ++ [message]))
    (unrecorded : sim'.idOfCuda = sim.idOfCuda) (run : sim.dispatch env message = .ok sim') :
    ∃ level', Charted round (messages ++ [message]) level' sim' := by
  have notTransfers : ¬message.Transfers := by
    intro transfers
    rw [collective_eq_none transfers] at collective
    cases collective
  have keeps := dispatch_keepsTransfers notTransfers run
  have communicates : message.collective ≠ none ∨ message.Transfers :=
    Or.inl (collective ▸ Option.some_ne_none _)
  have course := (courseOf round messages).after_communicates (round messages.length) communicates
  rcases dispatch_collective collective run with ⟨middle, host, time, call, stream, ranks, trace,
    rfl, _, isStream, _, ⟨queue, streamInfo, aside⟩, called⟩
  have tracks : (Message.cuda ⟨host, time, call⟩).tracks = [(host.host, stream)] :=
    tracks_of_collectiveStream isStream
  have low := ordered.of_concat.2 (host.host, stream) (tracks ▸ List.mem_singleton_self _)
  have slots : ∀ {other}, (∃ number, callOf (messages ++ [.cuda ⟨host, time, call⟩]) number =
      some (op, comm.id, (callers op comm.id messages).count comm.rank) ∧ round number = other) →
      other = round messages.length := by
    rintro other ⟨number, isCall, rfl⟩
    refine ordered.calls number messages.length ?_ ?_
    · rw [isCall]
      rfl
    · rw [isCall, callOf_concat_length collective]
  have before : ∀ op' id', Apart op' id' sim middle := fun _ _ => .of_aside aside
  have rounds : InRounds op comm.id (fun k now => ∃ number,
      callOf (messages ++ [.cuda ⟨host, time, call⟩]) number = some (op, comm.id, k) ∧
        round number = now) level middle :=
    (charted.instances op comm.id).mono (queue ▸ .refl _ _) (before _ _).waitings
      (before _ _).completions slot_concat
  have heights : Heights (fun stream => 3 * (courseOf round messages).horizon stream) level
      middle := charted.heights.silent queue streamInfo
  rcases heights.ncclCall (conducted.apart (before _ _)) mem (Nat.mul_le_mul_left 3 low) rounds
    slots called with ⟨level', raised, same, instances⟩
  rw [queue] at same
  refine ⟨level', raised.mono fun other => ?_, fun key e known => ?_, fun op' id' => ?_, ?_⟩
  · rw [courseOf_concat, course]
    simp only [Function.update_apply, tracks, List.mem_singleton]
    split
    · omega
    · exact le_rfl
  · rw [unrecorded] at known
    rw [courseOf_concat, course]
    exact same.notAbove (charted.recorded key e known)
  · by_cases isSame : op = op' ∧ comm.id = id'
    · rcases isSame with ⟨rfl, rfl⟩
      refine instances.mono (.refl _ _) rfl rfl fun {number now} inSlot => ?_
      rcases inSlot with old | ⟨rfl, rfl⟩
      · exact old
      · exact ⟨messages.length, callOf_concat_length collective, rfl⟩
    · have other : Message.caller? op' id' (.cuda ⟨host, time, call⟩) = none := by
        by_contra called
        rcases Option.ne_none_iff_exists'.mp called with ⟨rank, caller⟩
        rcases Message.caller?_eq_some caller with ⟨comm', isOther, rfl, _⟩
        rw [collective] at isOther
        cases isOther
        exact isSame ⟨rfl, rfl⟩
      have apart : Apart op' id' sim sim' := dispatch_apart other run
      exact (charted.instances op' id').mono same apart.waitings apart.completions slot_concat
  · refine charted.placed.mono same fun kind key endpoint waits => ?_
    cases kind with
    | send => rwa [unmatched, waitingMap, keeps.sendWaiting] at waits
    | recv => rwa [unmatched, waitingMap, keeps.recvWaiting] at waits

end Charted

/-- In a run whose communication is well ordered, the events can be put on levels. -/
theorem charted_of_reached {size : NcclId → ℕ} (several : ∀ id, 2 ≤ size id)
    (reached : Runs.Reached Initial (SizedStep env size) messages sim)
    (ordered : WellOrdered round messages) : ∃ level, Charted round messages level sim := by
  induction reached with
  | start initial => exact ⟨_, .start initial⟩
  | @step messages sim sim' message reached taken ih =>
      rcases ih ordered.of_concat.1 with ⟨level, charted⟩
      have plain : Reached env messages sim := reached.mono fun step => step.1
      have unrecorded : message.recorded = none → sim'.idOfCuda = sim.idOfCuda :=
        fun unrecorded => EventSystem.idOfCuda_of_unrecorded plain unrecorded taken.1
      have agreed : Agreed round sim' := transfers_agree (plain.step taken.1) ordered
      rcases handle_eq_ok taken.1 with ⟨final, dispatched, rfl⟩
      have next : ∃ level', Charted round (messages ++ [message]) level' final := by
        cases collective : message.collective with
        | some called =>
            rcases called with ⟨op, comm⟩
            have conducted := conducted_of_sized several reached op comm.id
            have communicates : message.collective ≠ none := by
              rw [collective]
              exact Option.some_ne_none _
            exact charted.collective conducted (taken.2 (op, comm) collective).1 collective ordered
              (unrecorded (recorded_eq_none (Or.inl communicates))) dispatched
        | none =>
            by_cases transfers : message.Transfers
            · exact charted.transfers (offers_messages plain).1 transfers ordered.of_concat.2
                (unrecorded (recorded_eq_none (Or.inr transfers))) agreed dispatched
            · exact charted.aside collective transfers unrecorded dispatched
      rcases next with ⟨level', charted'⟩
      exact ⟨level', charted'.heights.silent rfl rfl, charted'.recorded, charted'.instances,
        charted'.placed⟩

end Simulator

end Phantora
