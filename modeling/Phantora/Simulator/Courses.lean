import Phantora.Simulator.CollectiveRuns
import Phantora.Simulator.PointToPoint
import Phantora.Simulator.StreamRuns

/-!
# Well-ordered communication

The calls of a run are assigned to rounds such that calls that belong together are in one
round, and such that each stream goes through its rounds in ascending order. A stream that
waits for an event goes on from where the event was recorded.
-/

namespace Phantora

open Outcome

/-- The streams between whose points the communication of a call takes place. -/
def CudaCall.tracks : CudaCall → List CudaStream
  | .ncclBcast _ _ _ _ stream => [stream]
  | .ncclAllReduce _ _ _ _ stream => [stream]
  | .ncclAllGather _ _ _ stream => [stream]
  | .ncclReduceScatter _ _ _ _ stream => [stream]
  | .ncclSend _ _ _ _ stream => [stream]
  | .ncclRecv _ _ _ _ stream => [stream]
  | .ncclP2pGroup calls => calls.filterMap p2pStream
  | _ => []

/-- The streams on which a message communicates. -/
def Message.tracks : Message → List HostStream
  | .cuda msg => msg.call.tracks.map fun stream => (msg.id.host, stream)
  | _ => []

/-- How far the streams have come: the rounds that lie ahead of them, and of recorded events. -/
structure Course where
  horizon : HostStream → ℕ := fun _ => 0
  recorded : HostId × CudaEvent → ℕ := fun _ => 0

/-- A message of a round takes its streams past it. -/
def Course.after (course : Course) (now : ℕ) (message : Message) : Course :=
  match message with
  | .cuda ⟨id, _, .cudaStreamWaitEvent stream event⟩ => { course with
      horizon := Function.update course.horizon (id.host, stream)
        (max (course.horizon (id.host, stream)) (course.recorded (id.host, event))) }
  | .cuda ⟨id, _, .cudaEventRecord event⟩ => { course with
      recorded := Function.update course.recorded (id.host, event)
        (course.horizon (id.host, ⟨event.device, event.stream⟩)) }
  | _ => { course with
      horizon := fun stream =>
        if message.tracks.contains stream then now + 1 else course.horizon stream }

/-- How far the streams have come when messages of these rounds have been handled. -/
def courseOf (round : ℕ → ℕ) (messages : List Message) : Course :=
  messages.zipIdx.foldl (fun course entry => course.after (round entry.2) entry.1) {}

/-- The collective, the communicator and the number of the call that a message makes. -/
def callOf (messages : List Message) (number : ℕ) : Option (Collective × NcclId × ℕ) := do
  let message ← messages[number]?
  let (op, comm) ← message.collective
  return (op, comm.id, (callers op comm.id (messages.take number)).count comm.rank)

/-- The messages are in rounds: each stream goes through ascending rounds, and the calls of a
collective that belong together and calls that are matched are in one round. -/
structure WellOrdered (round : ℕ → ℕ) (messages : List Message) : Prop where
  ascending : ∀ number message, messages[number]? = some message → ∀ stream ∈ message.tracks,
    (courseOf round (messages.take number)).horizon stream ≤ round number
  calls : ∀ number other, (callOf messages number).isSome →
    callOf messages number = callOf messages other → round number = round other
  transfers : ∀ key, ∀ pair ∈ (issued .send key messages).zip (issued .recv key messages),
    round pair.1.message = round pair.2.message

variable {round : ℕ → ℕ} {messages : List Message} {message : Message}

theorem courseOf_concat : courseOf round (messages ++ [message]) =
    (courseOf round messages).after (round messages.length) message := by
  simp [courseOf, List.zipIdx_append]

theorem callOf_concat_of_lt {number : ℕ} (lt : number < messages.length) :
    callOf (messages ++ [message]) number = callOf messages number := by
  rw [callOf, callOf, List.getElem?_append_left lt, List.take_append_of_le_length lt.le]

theorem callOf_concat_length {op : Collective} {comm : NcclComm}
    (collective : message.collective = some (op, comm)) :
    callOf (messages ++ [message]) messages.length =
      some (op, comm.id, (callers op comm.id messages).count comm.rank) := by
  simp [callOf, collective]

theorem lt_of_callOf {number : ℕ} (called : (callOf messages number).isSome) :
    number < messages.length := by
  by_contra later
  rw [callOf, List.getElem?_eq_none (Nat.le_of_not_lt later)] at called
  cases called

/-- The pairs of ranks that the messages have calls between. -/
def p2pKeys (messages : List Message) : List P2PKey :=
  messages.zipIdx.flatMap fun (message, number) =>
    (message.p2pCalls number).map P2PCallInfo.key

theorem issued_eq_nil {kind : P2PCallKind} {key : P2PKey} (absent : key ∉ p2pKeys messages) :
    issued kind key messages = [] := by
  rw [issued, List.flatMap_eq_nil_iff]
  rintro ⟨message, number⟩ mem
  show tagsOf kind key (message.p2pCalls number) = []
  rw [tagsOf, List.map_eq_nil_iff, List.filter_eq_nil_iff]
  intro info inCalls isCall
  simp only [decide_eq_true_eq] at isCall
  have isKey : key ∈ (message.p2pCalls number).map P2PCallInfo.key :=
    List.mem_map.mpr ⟨info, inCalls, isCall.2⟩
  exact absent (List.mem_flatMap.mpr ⟨(message, number), mem, isKey⟩)

/-- Whether messages are well ordered depends on finitely many calls. -/
theorem wellOrdered_iff : WellOrdered round messages ↔
    (∀ entry ∈ messages.zipIdx, ∀ stream ∈ entry.1.tracks,
      (courseOf round (messages.take entry.2)).horizon stream ≤ round entry.2) ∧
    (∀ number ∈ List.range messages.length, ∀ other ∈ List.range messages.length,
      (callOf messages number).isSome → callOf messages number = callOf messages other →
        round number = round other) ∧
    ∀ key ∈ p2pKeys messages,
      ∀ pair ∈ (issued .send key messages).zip (issued .recv key messages),
        round pair.1.message = round pair.2.message := by
  constructor
  · intro ordered
    refine ⟨fun entry mem => ?_, fun number _ other _ => ordered.calls number other,
      fun key _ => ordered.transfers key⟩
    exact ordered.ascending entry.2 entry.1 (List.mem_zipIdx_iff_getElem?.mp mem)
  · rintro ⟨ascending, calls, transfers⟩
    refine ⟨fun number message here => ?_, fun number other called same => ?_, fun key => ?_⟩
    · exact ascending (message, number) (List.mem_zipIdx_iff_getElem?.mpr here)
    · exact calls number (List.mem_range.mpr (lt_of_callOf called)) other
        (List.mem_range.mpr (lt_of_callOf (same ▸ called))) called same
    · by_cases known : key ∈ p2pKeys messages
      · exact transfers key known
      · intro pair mem
        rw [issued_eq_nil known] at mem
        cases mem

instance : Decidable (WellOrdered round messages) :=
  decidable_of_iff' _ wellOrdered_iff

/-- The first messages are well ordered, and the next one communicates on streams that have
not come past its round. -/
theorem WellOrdered.of_concat (ordered : WellOrdered round (messages ++ [message])) :
    WellOrdered round messages ∧ ∀ stream ∈ message.tracks,
      (courseOf round messages).horizon stream ≤ round messages.length := by
  refine ⟨⟨?_, ?_, ?_⟩, ?_⟩
  · intro number other here stream mem
    have lt := (List.getElem?_eq_some_iff.mp here).1
    have earlier := ordered.ascending number other
      ((List.getElem?_append_left lt).trans here) stream mem
    rwa [List.take_append_of_le_length lt.le] at earlier
  · intro number other called same
    have lt := lt_of_callOf called
    have lt' := lt_of_callOf (same ▸ called)
    refine ordered.calls number other ?_ ?_
    · rw [callOf_concat_of_lt lt]
      exact called
    · rw [callOf_concat_of_lt lt, callOf_concat_of_lt lt', same]
  · intro key pair mem
    refine ordered.transfers key pair ?_
    rw [Simulator.issued_concat, Simulator.issued_concat]
    rcases List.mem_iff_getElem?.mp mem with ⟨i, here⟩
    rcases List.getElem?_zip_eq_some.mp here with ⟨send, recv⟩
    refine List.mem_iff_getElem?.mpr ⟨i, List.getElem?_zip_eq_some.mpr ⟨?_, ?_⟩⟩
    · exact (List.getElem?_append_left (List.getElem?_eq_some_iff.mp send).1).trans send
    · exact (List.getElem?_append_left (List.getElem?_eq_some_iff.mp recv).1).trans recv
  · intro stream mem
    have last := ordered.ascending messages.length message List.getElem?_concat_length stream mem
    rwa [List.take_left'] at last
    rfl

section Courses

variable {course : Course} {now : ℕ}

/-- A message that communicates. -/
theorem Course.after_communicates (course : Course) (now : ℕ)
    (communicates : message.collective ≠ none ∨ message.Transfers) :
    course.after now message = { course with
      horizon := fun stream =>
        if stream ∈ message.tracks then now + 1 else course.horizon stream } := by
  simp only [← List.contains_iff_mem]
  rcases message with ⟨host, time, call⟩ | _ | _
  · cases call with
    | cudaStreamWaitEvent => exact (communicates.elim (absurd rfl) id).elim
    | cudaEventRecord => exact (communicates.elim (absurd rfl) id).elim
    | _ => rfl
  · rfl
  · rfl

/-- A call between two ranks is no collective one. -/
theorem collective_eq_none (transfers : message.Transfers) : message.collective = none := by
  rcases message with ⟨host, time, call⟩ | _ | _
  · cases call <;> first | rfl | exact absurd transfers id
  · exact absurd transfers id
  · exact absurd transfers id

/-- A message that communicates records no event. -/
theorem recorded_eq_none (communicates : message.collective ≠ none ∨ message.Transfers) :
    message.recorded = none := by
  rcases message with ⟨host, time, call⟩ | _ | _
  · cases call with
    | cudaEventRecord => exact (communicates.elim (absurd rfl) id).elim
    | _ => rfl
  · rfl
  · rfl

theorem tracks_eq_nil (notCollective : message.collective = none)
    (notTransfers : ¬message.Transfers) : message.tracks = [] := by
  rcases message with ⟨host, time, call⟩ | _ | _
  · cases call with
    | ncclBcast => cases notCollective
    | ncclAllReduce => cases notCollective
    | ncclAllGather => cases notCollective
    | ncclReduceScatter => cases notCollective
    | ncclSend => exact absurd trivial notTransfers
    | ncclRecv => exact absurd trivial notTransfers
    | ncclP2pGroup => exact absurd trivial notTransfers
    | _ => rfl
  · rfl
  · rfl

/-- A message that neither communicates nor is about a recorded event. -/
theorem Course.after_aside (notCollective : message.collective = none)
    (notTransfers : ¬message.Transfers) (notRecord : message.recorded = none)
    (notWait : ∀ host time stream event,
      message ≠ .cuda ⟨host, time, .cudaStreamWaitEvent stream event⟩) :
    course.after now message = course := by
  have noTracks := tracks_eq_nil notCollective notTransfers
  have general : { course with
      horizon := fun stream =>
        if message.tracks.contains stream then now + 1 else course.horizon stream } = course := by
    simp [noTracks]
  rcases message with ⟨host, time, call⟩ | _ | _
  · cases call with
    | cudaStreamWaitEvent stream event => exact absurd rfl (notWait host time stream event)
    | cudaEventRecord => cases notRecord
    | _ => exact general
  · exact general
  · exact general

end Courses

theorem issued_concat_quiet (kind : P2PCallKind) (key : P2PKey) (messages : List Message)
    (notTransfers : ¬message.Transfers) :
    issued kind key (messages ++ [message]) = issued kind key messages := by
  rw [Simulator.issued_concat, Simulator.p2pCalls_eq_nil notTransfers]
  exact List.append_nil _

/-- A message that does not communicate keeps the communication well ordered. -/
theorem WellOrdered.concat_quiet (ordered : WellOrdered round messages)
    (notCollective : message.collective = none) (notTransfers : ¬message.Transfers) :
    WellOrdered round (messages ++ [message]) := by
  have last : callOf (messages ++ [message]) messages.length = none := by
    simp [callOf, notCollective]
  have earlier : ∀ {number}, (callOf (messages ++ [message]) number).isSome →
      number < messages.length := by
    intro number called
    have lt := lt_of_callOf called
    rw [List.length_append, List.length_singleton] at lt
    refine lt_of_le_of_ne (Nat.le_of_lt_succ lt) ?_
    rintro rfl
    rw [last] at called
    cases called
  refine ⟨?_, ?_, ?_⟩
  · intro number other here stream mem
    by_cases lt : number < messages.length
    · rw [List.getElem?_append_left lt] at here
      rw [List.take_append_of_le_length lt.le]
      exact ordered.ascending number other here stream mem
    · rw [List.getElem?_append_right (Nat.le_of_not_lt lt)] at here
      have isLast : other = message :=
        List.mem_singleton.mp (List.mem_of_getElem? here)
      rw [isLast, tracks_eq_nil notCollective notTransfers] at mem
      cases mem
  · intro number other called same
    have lt := earlier called
    have lt' := earlier (same ▸ called)
    rw [callOf_concat_of_lt lt] at called same
    rw [callOf_concat_of_lt lt'] at same
    exact ordered.calls number other called same
  · intro key pair mem
    rw [issued_concat_quiet _ _ _ notTransfers, issued_concat_quiet _ _ _ notTransfers] at mem
    exact ordered.transfers key pair mem

namespace Simulator

variable {env : Environment} {sim sim' : Simulator}

/-- The calls between two ranks are offered message by message. -/
theorem offers_messages (reached : Reached env messages sim) :
    sim.handled = messages.length ∧ (∀ kind key, (sim.offers kind key).map IssueTag.message =
      (issued kind key messages).map IssueTag.message) ∧ ∀ key, Served key sim := by
  refine reached.invariant (fun messages sim => sim.handled = messages.length ∧
    (∀ kind key, (sim.offers kind key).map IssueTag.message =
      (issued kind key messages).map IssueTag.message) ∧ ∀ key, Served key sim) ?_ ?_
  · intro sim initial
    refine ⟨?_, ?_, fun key => .start initial⟩
    · rcases initial with ⟨cluster, setting, hostMapping, rfl⟩
      rfl
    · rcases initial with ⟨cluster, setting, hostMapping, rfl⟩
      exact fun kind key => rfl
  · rintro messages sim message sim' ⟨handled, offers, served⟩ taken
    rcases handle_eq_ok taken with ⟨final, dispatched, rfl⟩
    rcases dispatch_grouped dispatched with ⟨groups, permuted, offered⟩
    refine ⟨?_, fun kind key => ?_, fun key => ?_⟩
    · rw [List.length_append, ← handled, ← offered.handled]
      rfl
    · have perm : (tagsOf kind key (groups.flatMap Prod.snd)).Perm
          (tagsOf kind key (message.p2pCalls sim.handled)) := by
        have whole := (permuted.flatMap_right Prod.snd).trans (Grouping.group_perm _ _)
        exact (whole.filter _).map _
      have number : ∀ tag ∈ tagsOf kind key (message.p2pCalls sim.handled),
          tag.message = sim.handled := by
        intro tag mem
        rcases List.mem_map.mp mem with ⟨info, inFilter, rfl⟩
        exact (tags_p2pCalls message sim.handled).2 info (List.mem_of_mem_filter inFilter)
      have numbers : ∀ {tags : List IssueTag}, (∀ tag ∈ tags, tag.message = sim.handled) →
          tags.map IssueTag.message = List.replicate tags.length sim.handled := by
        intro tags all
        refine List.eq_replicate_iff.mpr ⟨List.length_map _, fun number mem => ?_⟩
        rcases List.mem_map.mp mem with ⟨tag, inTags, rfl⟩
        exact all tag inTags
      have tail : (tagsOf kind key (groups.flatMap Prod.snd)).map IssueTag.message =
          (tagsOf kind key (message.p2pCalls sim.handled)).map IssueTag.message := by
        rw [numbers number, numbers fun tag mem => number tag (perm.subset mem), perm.length_eq]
      rw [issued_concat, List.map_append, ← offers, ← handled, ← tail, ← List.map_append]
      exact congrArg _ (offered.offers kind key)
    · have kept := offered.served (served key)
      exact ⟨kept.matched, kept.waiting, kept.created, kept.flowOrder, kept.flowsIssued⟩

/-- Matched calls are in one round. -/
theorem transfers_agree (reached : Reached env messages sim) (ordered : WellOrdered round messages)
    (key : P2PKey) (transfer : Transfer) (mem : transfer ∈ sim.transfers key) :
    round transfer.send.message = round transfer.recv.message := by
  rcases offers_messages reached with ⟨_, offers, served⟩
  have pairs : (sim.transfers key).map
      (fun transfer => (transfer.send.message, transfer.recv.message)) =
        ((issued .send key messages).zip (issued .recv key messages)).map
          (Prod.map IssueTag.message IssueTag.message) := by
    have matched := congrArg (List.map (Prod.map IssueTag.message IssueTag.message))
      ((served key).matched .send)
    rw [List.map_map, ← List.zip_map, offers, offers, List.zip_map] at matched
    exact matched
  have inPairs := pairs ▸ List.mem_map_of_mem (f := fun transfer : Transfer =>
    (transfer.send.message, transfer.recv.message)) mem
  rcases List.mem_map.mp inPairs with ⟨pair, isPair, same⟩
  rw [Prod.map_apply', Prod.mk.injEq] at same
  rw [← same.1, ← same.2]
  exact ordered.transfers key pair isPair

end Simulator

end Phantora
