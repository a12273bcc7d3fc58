import Phantora.EventQueue.Completions
import Phantora.Simulator.Recording

/-!
# Replies to blocking requests

A request that waits is kept in a map with one place for each event. As long as
no request takes the place of another, the replies about an event answer
different requests for it, each to the thread that sent it, and when the end of
the event has been reported they answer all of them.
-/

namespace Phantora

open Outcome

/-- The thread that begins to wait for an event. -/
def Occurrence.requester? : Occurrence → Option ResponseId
  | .awaits host _ _ => some host
  | _ => none

/-- The thread that begins to wait for the event. -/
def Occurrence.request? (event : EventId) : Occurrence → Option ResponseId
  | .awaits host other _ => if other = event then some host else none
  | _ => none

/-- The thread that is told the end of the event. -/
def Occurrence.answer? (event : EventId) : Occurrence → Option ResponseId
  | .synced host _ (some other) => if other = event then some host else none
  | _ => none

/-- A reply to a blocking request, with its time. -/
def Occurrence.synced? : Occurrence → Option (ResponseId × ℤ)
  | .synced host endTime _ => some (host, endTime)
  | _ => none

/-- A response to a blocking request, with its time. -/
def Response.synced? : ResponseId × Response → Option (ResponseId × ℤ)
  | (host, .sync endTime) => some (host, endTime)
  | _ => none

/-- The occurrence is no request for an event, no reply about one and no report. -/
def Occurrence.Aloof : Occurrence → Prop
  | .awaits _ _ _ => False
  | .synced _ _ (some _) => False
  | .reported _ _ => False
  | _ => True

theorem Occurrence.Quiet.aloof {occurrence : Occurrence} (quiet : occurrence.Quiet) :
    occurrence.Aloof := by
  cases occurrence <;> trivial

theorem Occurrence.Aloof.request? {occurrence : Occurrence} (aloof : occurrence.Aloof)
    (event : EventId) : occurrence.request? event = none := by
  cases occurrence <;> first | rfl | exact absurd aloof id

theorem Occurrence.Aloof.answer? {occurrence : Occurrence} (aloof : occurrence.Aloof)
    (event : EventId) : occurrence.answer? event = none := by
  rcases occurrence with _ | ⟨_, _, _ | _⟩ | _ | _ | _ | _ | _ | _ <;>
    first | rfl | exact absurd aloof id

/-- The call blocks until an event ends. -/
def CudaCall.Blocks : CudaCall → Bool
  | .cudaDeviceSynchronize _ => true
  | .cudaStreamSynchronize _ => true
  | .cudaEventSynchronize _ => true
  | _ => false

/-- The thread that a message blocks until an event ends. -/
def Message.requester? : Message → Option ResponseId
  | .cuda msg => if msg.call.Blocks then some msg.id else none
  | _ => none

/-- The request that waits for the event which an event synchronize names, once the queue has been
executed to the time of the call. -/
def Message.displaced? (env : Environment) (sim : Simulator) : Message → Option ResponseId
  | .cuda ⟨host, time, .cudaEventSynchronize event⟩ =>
      match Simulator.executeToTime env time env.fuel (sim.updateHostCurr host.host time) with
      | .ok (middle, _) =>
          match middle.idOfCuda (host.host, event) with
          | some id => if middle.queue.query id = none then middle.syncing id else none
          | none => none
      | .error _ => none
  | _ => none

theorem Message.Finds.displaced? {env : Environment} {sim : Simulator} {message : Message}
    {found : Option ResponseId} (finds : message.Finds env sim found) :
    message.displaced? env sim = found := by
  rcases message with ⟨host, time, call⟩ | _ | _
  · cases call with
    | cudaEventSynchronize event =>
        rcases finds with ⟨middle, stopped, id, executed, known, unended, waits⟩
        simp [Message.displaced?, executed, known, unended, waits]
    | _ => exact absurd finds id
  · exact absurd finds id
  · exact absurd finds id

namespace Simulator

variable {env : Environment} {asks : ResponseId → Option ResponseId → Prop} {sim sim' : Simulator}

/-- The threads that have begun to wait for an event, in that order. -/
def requesters (sim : Simulator) : List ResponseId :=
  sim.history.reverse.filterMap Occurrence.requester?

/-- The threads that have begun to wait for the event, in that order. -/
def requestsFor (sim : Simulator) (event : EventId) : List ResponseId :=
  sim.history.reverse.filterMap (Occurrence.request? event)

/-- The threads that have been told the end of the event, in that order. -/
def repliesFor (sim : Simulator) (event : EventId) : List ResponseId :=
  sim.history.reverse.filterMap (Occurrence.answer? event)

/-- Every blocking message is a request, the responses sent are the replies recorded, and the
replies about an event answer different requests for it, all of them once its end is reported. -/
structure Delivered (messages : List Message) (sim : Simulator) : Prop where
  requests : sim.requesters = messages.filterMap Message.requester?
  responses : sim.sent.filterMap Response.synced? = sim.history.filterMap Occurrence.synced?
  atMostOnce : ∀ event, (sim.repliesFor event).Subperm (sim.requestsFor event)
  answered : ∀ event time, .reported event time ∈ sim.history →
    (sim.repliesFor event).Perm (sim.requestsFor event)

/-- A message is handled, and no request takes the place of another. -/
def SoloStep (env : Environment) (sim : Simulator) (message : Message) (sim' : Simulator) : Prop :=
  Step env sim message sim' ∧ message.displaced? env sim = none

/-- The requests for an event are those answered and the one that waits; none waits for an event
whose end has been reported. -/
structure Attended (sim : Simulator) : Prop where
  served : ∀ event, (sim.requestsFor event).Perm
    (sim.repliesFor event ++ (sim.syncing event).toList)
  known : ∀ {event}, sim.requestsFor event ≠ [] → event < sim.queue.eventCounter
  reported : ∀ {event time}, .reported event time ∈ sim.history →
    sim.queue.ended event ≠ none ∧ sim.syncing event = none

theorem requestsFor_note (sim : Simulator) (occurrence : Occurrence) (event : EventId) :
    (sim.note occurrence).requestsFor event =
      sim.requestsFor event ++ (occurrence.request? event).toList := by
  simp only [requestsFor, note, List.reverse_cons, List.filterMap_append]
  cases known : occurrence.request? event <;> simp [known]

theorem repliesFor_note (sim : Simulator) (occurrence : Occurrence) (event : EventId) :
    (sim.note occurrence).repliesFor event =
      sim.repliesFor event ++ (occurrence.answer? event).toList := by
  simp only [repliesFor, note, List.reverse_cons, List.filterMap_append]
  cases known : occurrence.answer? event <;> simp [known]

namespace Attended

/-- The queue goes on, and nothing happens to requests. -/
theorem of_news (served : Attended sim) (counter : sim.queue.eventCounter ≤ sim'.queue.eventCounter)
    (ended : ∀ {event}, sim.queue.ended event ≠ none → sim'.queue.ended event ≠ none)
    (syncing : sim'.syncing = sim.syncing) (news : List Occurrence)
    (history : sim'.history = news ++ sim.history) (aloof : ∀ occurrence ∈ news, occurrence.Aloof) :
    Attended sim' := by
  have silent : ∀ {f : Occurrence → Option ResponseId}, (∀ occurrence ∈ news, f occurrence = none) →
      sim'.history.reverse.filterMap f = sim.history.reverse.filterMap f := by
    intro f nothing
    have nothing : news.reverse.filterMap f = [] :=
      List.filterMap_eq_nil_iff.mpr fun occurrence mem => nothing _ (List.mem_reverse.mp mem)
    rw [history, List.reverse_append, List.filterMap_append, nothing, List.append_nil]
  have requests : ∀ event, sim'.requestsFor event = sim.requestsFor event :=
    fun event => silent fun occurrence mem => (aloof occurrence mem).request? event
  have replies : ∀ event, sim'.repliesFor event = sim.repliesFor event :=
    fun event => silent fun occurrence mem => (aloof occurrence mem).answer? event
  refine ⟨fun event => ?_, fun asked => ?_, fun mem => ?_⟩
  · rw [requests, replies, syncing]
    exact served.served event
  · rw [requests] at asked
    exact (served.known asked).trans_le counter
  · rw [syncing]
    rw [history] at mem
    rcases List.mem_append.mp mem with new | old
    · exact absurd (aloof _ new) id
    · exact (served.reported old).imp_left ended

/-- The queue goes on, and nothing else happens. -/
theorem of_queue (served : Attended sim) {queue : EventQueue}
    (counter : sim.queue.eventCounter ≤ queue.eventCounter)
    (ended : ∀ {event}, sim.queue.ended event ≠ none → queue.ended event ≠ none) :
    Attended { sim with queue := queue } :=
  served.of_news counter ended rfl [] rfl (by simp)

/-- A request that no thread has made before begins to wait, or is answered at once. -/
theorem asked (served : Attended sim) {host : ResponseId} {event : EventId} {time : ℤ}
    (unreported : ∀ time, .reported event time ∉ sim.history)
    (free : sim.syncing event = none) (issued : event < sim.queue.eventCounter) :
    Attended ((sim.note (.awaits host event time)).awaitEvent host event) := by
  refine ⟨fun other => ?_, fun {other} asked => ?_, fun {other time'} mem => ?_⟩
  · show ((sim.note (.awaits host event time)).requestsFor other).Perm
      ((sim.note (.awaits host event time)).repliesFor other ++
        (Function.update sim.syncing event (some host) other).toList)
    rw [requestsFor_note, repliesFor_note]
    by_cases same : other = event
    · subst same
      have before := served.served other
      rw [free] at before
      simpa [Occurrence.request?, Occurrence.answer?] using before.append_right [host]
    · have before := served.served other
      simpa [Occurrence.request?, Occurrence.answer?, same, Ne.symm same] using before
  · have asked : (sim.note (.awaits host event time)).requestsFor other ≠ [] := asked
    rw [requestsFor_note] at asked
    by_cases same : other = event
    · exact same ▸ issued
    · exact served.known (by simpa [Occurrence.request?, Ne.symm same] using asked)
  · rcases List.mem_cons.mp mem with new | old
    · cases new
    · have before := served.reported old
      have differs : other ≠ event := by
        rintro rfl
        exact unreported _ old
      exact ⟨before.1, (Function.update_of_ne differs _ _).trans before.2⟩

/-- A request is answered at once. -/
theorem answered (served : Attended sim) {host : ResponseId} {event : EventId} {time endTime : ℤ}
    (issued : event < sim.queue.eventCounter) :
    Attended ((sim.note (.awaits host event time)).sendSyncResponseTo host endTime
      (some event)) := by
  refine ⟨fun other => ?_, fun {other} asked => ?_, fun {other time'} mem => ?_⟩
  · show (((sim.note (.awaits host event time)).note
        (.synced host endTime (some event))).requestsFor other).Perm
      (((sim.note (.awaits host event time)).note
        (.synced host endTime (some event))).repliesFor other ++ (sim.syncing other).toList)
    rw [requestsFor_note, requestsFor_note, repliesFor_note, repliesFor_note]
    have before := served.served other
    by_cases same : other = event
    · subst same
      simp only [Occurrence.request?, Occurrence.answer?, if_true, Option.toList_some,
        Option.toList_none, List.append_nil, List.append_assoc]
      refine (before.append_right [host]).trans ?_
      rw [List.append_assoc]
      exact List.perm_append_comm.append_left (sim.repliesFor other)
    · simpa [Occurrence.request?, Occurrence.answer?, Ne.symm same] using before
  · have asked : ((sim.note (.awaits host event time)).note
        (.synced host endTime (some event))).requestsFor other ≠ [] := asked
    rw [requestsFor_note, requestsFor_note] at asked
    by_cases same : other = event
    · exact same ▸ issued
    · exact served.known (by simpa [Occurrence.request?, Ne.symm same] using asked)
  · have mem : .reported other time' ∈ Occurrence.synced host endTime (some event) ::
      .awaits host event time :: sim.history := mem
    simp only [List.mem_cons, reduceCtorEq, false_or] at mem
    exact served.reported mem

/-- The end of an event is reported, and the request that waits for it is answered. -/
theorem reportEnd (served : Attended sim) {id : EventId} {time : ℤ}
    (ended : sim.queue.ended id ≠ none) : Attended (sim.reportEnd id time) := by
  have noted : ∀ event, (sim.note (.reported id time)).requestsFor event = sim.requestsFor event ∧
      (sim.note (.reported id time)).repliesFor event = sim.repliesFor event := by
    intro event
    rw [requestsFor_note, repliesFor_note]
    simp [Occurrence.request?, Occurrence.answer?]
  simp only [Simulator.reportEnd]
  split
  · rename_i host waits
    have waits : sim.syncing id = some host := waits
    refine ⟨fun other => ?_, fun {other} asked => ?_, fun {other time'} mem => ?_⟩
    · show (((sim.note (.reported id time)).note
          (.synced host time (some id))).requestsFor other).Perm
        (((sim.note (.reported id time)).note (.synced host time (some id))).repliesFor other ++
          (Function.update sim.syncing id none other).toList)
      rw [requestsFor_note, repliesFor_note, (noted other).1, (noted other).2]
      have before := served.served other
      by_cases same : other = id
      · subst same
        simpa [Occurrence.request?, Occurrence.answer?, waits] using before
      · simpa [Occurrence.request?, Occurrence.answer?, same, Ne.symm same] using before
    · have asked : ((sim.note (.reported id time)).note
          (.synced host time (some id))).requestsFor other ≠ [] := asked
      rw [requestsFor_note, (noted other).1] at asked
      exact served.known (by simpa [Occurrence.request?] using asked)
    · have mem : .reported other time' ∈ Occurrence.synced host time (some id) ::
        .reported id time :: sim.history := mem
      show sim.queue.ended other ≠ none ∧ Function.update sim.syncing id none other = none
      by_cases same : other = id
      · subst same
        exact ⟨ended, Function.update_self ..⟩
      · simp only [List.mem_cons, reduceCtorEq, false_or, Occurrence.reported.injEq, same,
          false_and] at mem
        rw [Function.update_of_ne same]
        exact served.reported mem
  · rename_i free
    have free : sim.syncing id = none := free
    refine ⟨fun other => ?_, fun {other} asked => ?_, fun {other time'} mem => ?_⟩
    · rw [(noted other).1, (noted other).2]
      exact served.served other
    · rw [(noted other).1] at asked
      exact served.known asked
    · rcases List.mem_cons.mp mem with new | old
      · cases new
        exact ⟨ended, free⟩
      · exact served.reported old

end Attended

/-- Every act keeps count of the requests, if no request takes the place of another. -/
theorem Act.attended (act : Act env asks sim sim')
    (solo : ∀ {host found}, asks host found → found = none) (tracked : sim.queue.Tracked)
    (served : Attended sim) : Attended sim' := by
  have unended : ∀ {event}, ¬event < sim.queue.eventCounter → sim.queue.ended event = none := by
    intro event new
    by_contra ended
    have isEnded : EventQueue.Spotted [] sim.queue event .ended := ended
    exact new (tracked.spots.issued isEnded)
  cases act with
  | book books =>
      rcases books.history with ⟨news, history, quiet⟩
      refine served.of_news ?_ (fun ended => ?_) books.syncing news history ?_
      · rw [books.queue]
      · rwa [books.queue]
      · exact fun occurrence mem => (quiet occurrence mem).aloof
  | add valid _ added =>
      exact served.of_queue (EventQueue.addActionOrPoint_enlarges added).1.eventCounter
        (EventQueue.works_addActionOrPoint valid added).ended
  | @depend id dep queue valid added =>
      have works : EventQueue.Works env.toPlatform ([], sim.queue) ([], queue) :=
        EventQueue.works_addDependency valid added
      exact served.of_queue (EventQueue.addDependency_enlarges added).1.eventCounter works.ended
  | free removed =>
      exact served.of_queue (EventQueue.removeNoneDependency_enlarges removed).eventCounter
        (EventQueue.works_removeNoneDependency removed).ended
  | peek peeked =>
      exact served.of_queue (EventQueue.peekNextTimeLoop_grows peeked).enlarges.eventCounter
        (EventQueue.works_peekNextTime peeked).ended
  | @execute step queue executed =>
      have goesOn : Attended { sim with queue := queue } :=
        served.of_queue (EventQueue.executeLoop_grows executed).enlarges.eventCounter
          (EventQueue.works_execute executed).ended
      cases step with
      | emptyQueue => exact goesOn
      | eventStarted id time => exact goesOn
      | eventEnded id time => exact goesOn.reportEnd (EventQueue.execute_ended executed rfl)
      | reachedPoint id time =>
          exact goesOn.reportEnd (EventQueue.execute_ended executed rfl)
  | @await host _ time queue event _ valid added =>
      rcases EventQueue.addActionOrPoint_enlarges added with ⟨enlarges, new, counter, _⟩
      have goesOn : Attended { sim with queue := queue } := served.of_queue enlarges.eventCounter
        (EventQueue.works_addActionOrPoint valid added).ended
      have notIssued : ¬event < sim.queue.eventCounter := new ▸ Nat.lt_irrefl _
      refine goesOn.asked ?_ ?_ (by simp [counter])
      · exact fun time mem => (served.reported mem).1 (unended notIssued)
      · show sim.syncing event = none
        have nobody : sim.requestsFor event = [] := by
          by_contra asked
          exact notIssued (served.known asked)
        have waits := served.served event
        rw [nobody, List.nil_perm, List.append_eq_nil_iff] at waits
        exact Option.toList_eq_nil_iff.mp waits.2
  | park asked issued unended =>
      exact served.asked (fun time mem => (served.reported mem).1 unended) (solo asked) issued
  | answer _ issued _ => exact served.answered issued
  | @poll host time event ready _ =>
      cases ready with
      | none =>
          exact served.of_news le_rfl id rfl [.polled host time event none] rfl
            (by simp [Occurrence.Aloof])
      | some reply =>
          exact served.of_news le_rfl id rfl [.polled host time event (some reply.1)] rfl
            (by simp [Occurrence.Aloof])

/-- The responses sent to blocking requests are the replies recorded. -/
def Mirrored (sim : Simulator) : Prop :=
  sim.sent.filterMap Response.synced? = sim.history.filterMap Occurrence.synced?

namespace Mirrored

theorem of_silent (mirrored : Mirrored sim) (sent : sim'.sent = sim.sent)
    (history : sim'.history = sim.history) : Mirrored sim' := by
  rw [Mirrored, sent, history]
  exact mirrored

/-- A response that is none to a blocking request. -/
theorem send (mirrored : Mirrored sim) {host : ResponseId} {response : Response}
    (other : Response.synced? (host, response) = none) :
    Mirrored (sim.sendResponseTo host response) :=
  (List.filterMap_cons_none other).trans mirrored

theorem note (mirrored : Mirrored sim) {occurrence : Occurrence}
    (other : occurrence.synced? = none) : Mirrored (sim.note occurrence) :=
  mirrored.trans (List.filterMap_cons_none other).symm

theorem reply (mirrored : Mirrored sim) (host : ResponseId) (time : ℤ) (event : Option EventId) :
    Mirrored (sim.sendSyncResponseTo host time event) := by
  have both : ((host, .sync time) :: sim.sent).filterMap Response.synced? =
      (.synced host time event :: sim.history).filterMap Occurrence.synced? := by
    simp only [List.filterMap_cons, Response.synced?, Occurrence.synced?]
    exact congrArg _ mirrored
  exact both

theorem reportEnd (mirrored : Mirrored sim) (id : EventId) (time : ℤ) :
    Mirrored (sim.reportEnd id time) := by
  have noted : Mirrored (sim.note (.reported id time)) := mirrored.note rfl
  simp only [Simulator.reportEnd]
  split
  · exact Mirrored.reply (noted.of_silent rfl rfl) _ _ _
  · exact noted

theorem act (mirrored : Mirrored sim) (act : Act env asks sim sim') : Mirrored sim' := by
  cases act with
  | book books =>
      rcases books.history with ⟨news, history, quiet⟩
      have nothing : news.filterMap Occurrence.synced? = [] := by
        refine List.filterMap_eq_nil_iff.mpr fun occurrence mem => ?_
        have quiet := quiet occurrence mem
        cases occurrence <;> first | rfl | exact absurd quiet id
      rw [Mirrored, books.sent, history, List.filterMap_append, nothing, List.nil_append]
      exact mirrored
  | add | depend | free | peek => exact mirrored.of_silent rfl rfl
  | @execute step queue executed =>
      have goesOn : Mirrored { sim with queue := queue } := mirrored.of_silent rfl rfl
      cases step with
      | emptyQueue => exact goesOn
      | eventStarted id time => exact goesOn
      | eventEnded id time => exact goesOn.reportEnd id time
      | reachedPoint id time => exact goesOn.reportEnd id time
  | @await host _ time queue event =>
      have goesOn : Mirrored { sim with queue := queue } := mirrored.of_silent rfl rfl
      have noted : Mirrored (Simulator.note _ (.awaits host event time)) := goesOn.note rfl
      exact noted.of_silent rfl rfl
  | @park host event time =>
      exact (mirrored.note rfl : Mirrored (sim.note (.awaits host event time))).of_silent rfl rfl
  | @answer host event time =>
      exact (mirrored.note rfl : Mirrored (sim.note (.awaits host event time))).reply _ _ _
  | @poll host time event ready =>
      cases ready with
      | none => exact ((mirrored.note rfl : Mirrored (sim.note (.polled host time event none))).send
          rfl).of_silent rfl rfl
      | some reply => exact ((mirrored.note rfl : Mirrored (sim.note
          (.polled host time event (some reply.1)))).send rfl).of_silent rfl rfl

theorem formCommunicator (mirrored : Mirrored sim) (time : ℤ) (members : List SplitInfo) :
    Mirrored (sim.formCommunicator time members) := by
  show Mirrored (List.foldl _ _ _)
  refine List.foldlRecOn _ _ (mirrored.of_silent rfl rfl) fun earlier mirrored entry _ => ?_
  exact (mirrored.send rfl).of_silent rfl rfl

theorem splitCommunicator (mirrored : Mirrored sim) (time : ℤ) (waiting : SplitWaiting) :
    Mirrored (sim.splitCommunicator env time waiting) := by
  refine List.foldlRecOn _ _ ?_ fun earlier mirrored group _ => mirrored.formCommunicator _ _
  exact List.foldlRecOn _ _ mirrored fun earlier mirrored info _ => mirrored.send rfl

end Mirrored

/-- A message that manages communicators lets the queue run and changes their tables; the responses
that it sends to blocking requests are recorded. -/
theorem handle_manages_acts {message : Message} (manages : message.Manages)
    (run : sim.handle env message = .ok sim') :
    ∃ first second, Acts env nobody sim first ∧ OnlyManages first second ∧
      (Mirrored first → Mirrored second) ∧
        sim' = { second with handled := second.handled + 1 } := by
  rcases handle_eq_ok run with ⟨final, dispatched, rfl⟩
  cases message with
  | torch call => exact absurd manages id
  | exit host time => exact absurd manages id
  | cuda msg =>
      rcases msg with ⟨host, time, call⟩
      have updated : Acts env nobody sim (sim.updateHostCurr host.host time) :=
        .single (.book (.of_silent rfl rfl rfl rfl rfl rfl rfl rfl))
      simp only [dispatch, handleCudaCall] at dispatched
      cases call with
      | ncclGetUniqueId =>
          simp only [Except.ok.injEq] at dispatched
          refine ⟨_, final, updated, dispatched ▸ .of_unnoted, fun mirrored => ?_, rfl⟩
          exact dispatched ▸ Mirrored.send (mirrored.of_silent rfl rfl) rfl
      | ncclCommInitRank device rank nranks id =>
          rcases ncclCommInitRank_eq_ok dispatched with ⟨middle, stopped, executed, manages⟩
          refine ⟨middle, final, updated.trans (executeToTime_acts executed), manages,
            fun mirrored => ?_, rfl⟩
          simp only [ncclCommInitRank, executed, ok_bind] at dispatched
          split at dispatched
          · exact Except.ok.inj dispatched ▸ mirrored.of_silent rfl rfl
          · split at dispatched
            · simp only [bind_eq_ok, pure_eq_ok] at dispatched
              rcases dispatched with ⟨members, _, rfl⟩
              show Mirrored (List.foldl _ _ _)
              refine List.foldlRecOn _ _ (mirrored.of_silent rfl rfl) ?_
              exact fun earlier mirrored member _ => mirrored.reply _ _ _
            · exact Except.ok.inj dispatched ▸ mirrored.of_silent rfl rfl
      | ncclCommSplit comm color key =>
          rcases ncclCommSplit_eq_ok dispatched with ⟨middle, stopped, executed, manages⟩
          refine ⟨middle, final, updated.trans (executeToTime_acts executed), manages,
            fun mirrored => ?_, rfl⟩
          simp only [ncclCommSplit, executed, ok_bind] at dispatched
          split at dispatched
          · split at dispatched
            · exact Except.ok.inj dispatched ▸ mirrored.of_silent rfl rfl
            · split at dispatched
              · exact Except.ok.inj dispatched ▸ (mirrored.splitCommunicator _ _).of_silent rfl rfl
              · exact Except.ok.inj dispatched ▸ mirrored.of_silent rfl rfl
          · exact Except.ok.inj dispatched ▸ mirrored.send rfl
      | _ => exact absurd manages id

theorem requesters_note (sim : Simulator) (occurrence : Occurrence) :
    (sim.note occurrence).requesters = sim.requesters ++ occurrence.requester?.toList := by
  simp only [requesters, note, List.reverse_cons, List.filterMap_append]
  cases known : occurrence.requester? <;> simp [known]

theorem requesters_of_news (news : List Occurrence) (history : sim'.history = news ++ sim.history)
    (silent : ∀ occurrence ∈ news, occurrence.requester? = none) :
    sim'.requesters = sim.requesters := by
  have nothing : news.reverse.filterMap Occurrence.requester? = [] :=
    List.filterMap_eq_nil_iff.mpr fun occurrence mem => silent _ (List.mem_reverse.mp mem)
  rw [requesters, history, List.reverse_append, List.filterMap_append, nothing, List.append_nil,
    requesters]

theorem requesters_reportEnd (sim : Simulator) (id : EventId) (time : ℤ) :
    (sim.reportEnd id time).requesters = sim.requesters := by
  simp only [reportEnd]
  split
  · exact requesters_of_news [.synced _ time (some id), .reported id time] rfl
      (by simp [Occurrence.requester?])
  · exact requesters_of_news [.reported id time] rfl (by simp [Occurrence.requester?])

/-- Acts on behalf of nobody make no request. -/
theorem Act.requesters (act : Act env asks sim sim') (silent : ∀ {host found}, ¬asks host found) :
    sim'.requesters = sim.requesters := by
  cases act with
  | book books =>
      rcases books.history with ⟨news, history, quiet⟩
      refine requesters_of_news news history fun occurrence mem => ?_
      have quiet := quiet occurrence mem
      cases occurrence <;> first | rfl | exact absurd quiet id
  | add | depend | free | peek => rfl
  | @execute step queue executed =>
      cases step with
      | emptyQueue => rfl
      | eventStarted id time => rfl
      | eventEnded id time => exact requesters_reportEnd _ id time
      | reachedPoint id time => exact requesters_reportEnd _ id time
  | await asked => exact absurd asked silent
  | park asked => exact absurd asked silent
  | answer asked => exact absurd asked silent
  | poll asked => exact absurd asked silent

theorem Acts.requesters (acts : Acts env asks sim sim')
    (silent : ∀ {host found}, ¬asks host found) : sim'.requesters = sim.requesters :=
  acts.invariant (fun other => other.requesters = sim.requesters)
    (fun earlier act => (act.requesters silent).trans earlier) rfl

theorem OnlySubmits.requesters (submits : OnlySubmits sim sim') :
    sim'.requesters = sim.requesters := by
  rcases submits with ⟨_, _, _, rfl⟩
  rfl

theorem OnlyManages.requesters (manages : OnlyManages sim sim') :
    sim'.requesters = sim.requesters := by
  rcases manages with ⟨_, _, replies, _, _, _, _, synced, rfl⟩
  refine requesters_of_news replies rfl fun occurrence mem => ?_
  rcases synced occurrence mem with ⟨_, _, rfl⟩
  rfl

theorem replyToPoll_requesters (sim : Simulator) (host : ResponseId) (time : ℤ)
    (event : Option EventId) (ready : Option (ℤ × Option EventId)) :
    (sim.replyToPoll host time event ready).requesters = sim.requesters := by
  have polled : (sim.replyToPoll host time event ready).history =
      [.polled host time event (ready.map Prod.fst)] ++ sim.history := by
    cases ready <;> rfl
  exact requesters_of_news _ polled (by simp [Occurrence.requester?])

section Asking

variable {host : ResponseId} {time : ℤ}

theorem executeToEvent_requesters {until_ : EventId} {fuel : ℕ} {reached : Bool}
    (run : executeToEvent env until_ fuel sim = .ok (sim', reached)) :
    sim'.requesters = sim.requesters :=
  (executeToEvent_acts run).requesters id

theorem executeToTime_requesters {until_ : ℤ} {fuel : ℕ} {stopped : Bool}
    (run : executeToTime env until_ fuel sim = .ok (sim', stopped)) :
    sim'.requesters = sim.requesters :=
  (executeToTime_acts run).requesters id

theorem cudaDeviceSynchronize_requesters {device : ℤ}
    (run : sim.cudaDeviceSynchronize env host time device = .ok sim') :
    sim'.requesters = sim.requesters ++ [host] := by
  simp only [cudaDeviceSynchronize, bind_eq_ok, pure_eq_ok, Prod.exists] at run
  rcases run with ⟨flushed, deps, collected, added, id, point, last, reached, executed, rfl⟩
  have flushes := (collectLasts_onlySubmits collected).requesters
  have asked : ((added.note (.awaits host id time)).awaitEvent host id).requesters =
      added.requesters ++ [host] := requesters_note added (.awaits host id time)
  rw [executeToEvent_requesters executed, asked, (addActionOrPoint_onlySubmits point).requesters,
    flushes]

theorem cudaStreamSynchronize_requesters {stream : CudaStream}
    (run : sim.cudaStreamSynchronize env host time stream = .ok sim') :
    sim'.requesters = sim.requesters ++ [host] := by
  simp only [cudaStreamSynchronize, bind_eq_ok, pure_eq_ok, Prod.exists] at run
  rcases run with ⟨added, id, point, last, reached, executed, rfl⟩
  have asked : ((added.note (.awaits host id time)).awaitEvent host id).requesters =
      added.requesters ++ [host] := requesters_note added (.awaits host id time)
  rw [executeToEvent_requesters executed, asked, (addEvent_onlySubmits point).requesters]

theorem cudaEventSynchronize_requesters {event : CudaEvent}
    (run : sim.cudaEventSynchronize env host time event = .ok sim') :
    sim'.requesters = sim.requesters ++ [host] := by
  simp only [cudaEventSynchronize, bind_eq_ok, Prod.exists] at run
  rcases run with ⟨executed, stopped, ran, id, _, answered⟩
  have asked : (executed.note (.awaits host id time)).requesters = sim.requesters ++ [host] := by
    rw [requesters_note, executeToTime_requesters ran]
    rfl
  split at answered
  · rename_i endTime _
    refine Eq.trans ?_ asked
    exact Except.ok.inj answered ▸ requesters_of_news
      [.synced host endTime (some id)] rfl (by simp [Occurrence.requester?])
  · simp only [bind_eq_ok, pure_eq_ok, Prod.exists] at answered
    rcases answered with ⟨last, reached, waited, rfl⟩
    exact (executeToEvent_requesters waited).trans asked

theorem cudaStreamQuery_requesters {stream : CudaStream}
    (run : sim.cudaStreamQuery env host time stream = .ok sim') :
    sim'.requesters = sim.requesters := by
  simp only [cudaStreamQuery, bind_eq_ok, Prod.exists] at run
  rcases run with ⟨flushed, flush, executed, stopped, ran, answered⟩
  have flushes : flushed.requesters = sim.requesters := by
    split at flush
    · exact (clearComputeBufferOn_onlySubmits flush).requesters
    · exact Except.ok.inj flush ▸ rfl
  refine Eq.trans ?_ ((executeToTime_requesters ran).trans flushes)
  split at answered
  · exact Except.ok.inj answered ▸ replyToPoll_requesters _ _ _ _ _
  · exact Except.ok.inj answered ▸ replyToPoll_requesters _ _ _ _ _

theorem cudaEventQuery_requesters {event : CudaEvent}
    (run : sim.cudaEventQuery env host time event = .ok sim') :
    sim'.requesters = sim.requesters := by
  simp only [cudaEventQuery, bind_eq_ok, pure_eq_ok, Prod.exists] at run
  rcases run with ⟨executed, stopped, ran, id, _, rfl⟩
  exact (replyToPoll_requesters _ _ _ _ _).trans (executeToTime_requesters ran)

end Asking

/-- A message makes a request exactly if it blocks its thread. -/
theorem handle_requesters {message : Message} (named : Named sim)
    (run : sim.handle env message = .ok sim') :
    sim'.requesters = sim.requesters ++ message.requester?.toList := by
  by_cases manages : message.Manages
  · rcases handle_manages_acts manages run with ⟨first, second, acts, changes, _, rfl⟩
    have silent : message.requester? = none := by
      rcases message with ⟨host, time, call⟩ | _ | _
      · cases call <;> first | rfl | exact absurd manages id
      · rfl
      · rfl
    rw [silent, Option.toList_none, List.append_nil, ← acts.requesters id, ← changes.requesters]
    rfl
  · have quiet : (∀ host, ¬message.AskedBy host) → sim'.requesters = sim.requesters :=
      fun unasked => (handle_advances named manages run).acts.requesters fun parks =>
        unasked _ parks.1
    rcases message with ⟨host, time, call⟩ | _ | _
    · rcases handle_eq_ok run with ⟨final, dispatched, rfl⟩
      have same : requesters { final with handled := final.handled + 1 } = final.requesters := rfl
      cases call with
      | cudaDeviceSynchronize device =>
          simp only [dispatch, handleCudaCall] at dispatched
          have asked := cudaDeviceSynchronize_requesters dispatched
          exact same.trans asked
      | cudaStreamSynchronize stream =>
          simp only [dispatch, handleCudaCall] at dispatched
          have asked := cudaStreamSynchronize_requesters dispatched
          exact same.trans asked
      | cudaEventSynchronize event =>
          simp only [dispatch, handleCudaCall] at dispatched
          have asked := cudaEventSynchronize_requesters dispatched
          exact same.trans asked
      | cudaStreamQuery stream =>
          simp only [dispatch, handleCudaCall] at dispatched
          have unasked := cudaStreamQuery_requesters dispatched
          exact (same.trans unasked).trans (List.append_nil _).symm
      | cudaEventQuery event =>
          simp only [dispatch, handleCudaCall] at dispatched
          have unasked := cudaEventQuery_requesters dispatched
          exact (same.trans unasked).trans (List.append_nil _).symm
      | _ => exact (quiet fun _ asked => asked.1).trans (List.append_nil _).symm
    · exact (quiet fun _ asked => asked).trans (List.append_nil _).symm
    · exact (quiet fun _ asked => asked).trans (List.append_nil _).symm

theorem Attended.start (initial : Initial sim) : Attended sim := by
  rcases initial with ⟨cluster, setting, hostMapping, rfl⟩
  exact ⟨fun _ => .refl _, fun asked => absurd rfl asked, fun mem => absurd mem List.not_mem_nil⟩

/-- A message keeps count of the requests, if no request takes the place of another. -/
theorem handle_attended {message : Message} (named : Named sim) (chronicled : sim.queue.Chronicled)
    (served : Attended sim) (taken : SoloStep env sim message sim') : Attended sim' := by
  have general : ∀ {asks : ResponseId → Option ResponseId → Prop} {sim' : Simulator},
      (∀ {host found}, asks host found → found = none) → Acts env asks sim sim' →
        Attended sim' := by
    intro asks sim' solo acts
    refine (acts.invariant (fun sim => sim.queue.Chronicled ∧ Attended sim) ?_
      ⟨chronicled, served⟩).2
    rintro first second ⟨chronicled, served⟩ act
    exact ⟨act.chronicled chronicled, act.attended solo chronicled.recorded.tracked served⟩
  by_cases manages : message.Manages
  · rcases handle_manages_acts manages taken.1 with ⟨first, second, acts, changes, _, rfl⟩
    have ran : Attended first := general (fun asked => absurd asked id) acts
    rcases changes with ⟨_, _, replies, _, _, _, _, synced, rfl⟩
    refine ran.of_news le_rfl id rfl replies rfl fun occurrence mem => ?_
    rcases synced occurrence mem with ⟨_, _, rfl⟩
    trivial
  · refine general ?_ (handle_advances named manages taken.1).acts
    rintro host found ⟨_, free | finds⟩
    · exact free
    · exact finds.displaced?.symm.trans taken.2

theorem handle_mirrored {message : Message} (named : Named sim) (mirrored : Mirrored sim)
    (run : sim.handle env message = .ok sim') : Mirrored sim' := by
  by_cases manages : message.Manages
  · rcases handle_manages_acts manages run with ⟨first, second, acts, _, sends, rfl⟩
    exact (sends (acts.invariant Mirrored (fun earlier act => earlier.act act) mirrored)).of_silent
      rfl rfl
  · exact (handle_advances named manages run).acts.invariant Mirrored
      (fun earlier act => earlier.act act) mirrored

/-- As long as no event synchronize takes the place of a request that waits, every blocking request
is answered at most once and as the thread that made it, and exactly once when the end of its event
has been reported. -/
theorem replies_delivered (env : Environment) (messages : List Message) (sim : Simulator)
    (reached : Runs.Reached Initial (SoloStep env) messages sim) : Delivered messages sim := by
  have invariant : (Named sim ∧ sim.queue.Chronicled) ∧ Attended sim ∧ Mirrored sim ∧
      sim.requesters = messages.filterMap Message.requester? := by
    refine reached.invariant (fun messages sim => (Named sim ∧ sim.queue.Chronicled) ∧
      Attended sim ∧ Mirrored sim ∧ sim.requesters = messages.filterMap Message.requester?) ?_ ?_
    · intro sim initial
      refine ⟨⟨named_initial initial, ?_⟩, .start initial, ?_⟩
      · exact chronicled_of_reached (.start initial : Reached env [] sim)
      · rcases initial with ⟨cluster, setting, hostMapping, rfl⟩
        exact ⟨rfl, rfl⟩
    · rintro messages sim message sim' ⟨⟨named, chronicled⟩, served, mirrored, requests⟩ taken
      refine ⟨⟨handle_named named taken.1, handle_chronicled named chronicled taken.1⟩,
        handle_attended named chronicled served taken, handle_mirrored named mirrored taken.1, ?_⟩
      rw [handle_requesters named taken.1, requests, List.filterMap_append]
      cases known : message.requester? <;> simp [known]
  rcases invariant with ⟨_, served, mirrored, requests⟩
  refine ⟨requests, mirrored, fun event => ?_, fun event time mem => ?_⟩
  · exact (List.sublist_append_left _ _).subperm.trans (served.served event).symm.subperm
  · have answered := served.served event
    rw [(served.reported mem).2, Option.toList_none, List.append_nil] at answered
    exact answered.symm

/-- Threads of the left process wait for an event behind a receive, and the right process sends. -/
def waitForReceive (threads : List ResponseId) : List Message :=
  [.cuda ⟨leftThread 0, 0, .ncclCommInitRank 0 0 2 firstId⟩,
    .cuda ⟨rightThread 0, 0, .ncclCommInitRank 0 1 2 firstId⟩,
    .cuda ⟨leftThread 0, 0, .ncclRecv 8 .u8 1 ⟨0, firstId⟩ ⟨0, 0⟩⟩,
    .cuda ⟨leftThread 0, 0, .cudaEventRecord ⟨0, 0, 7⟩⟩] ++
    (threads.map fun thread => .cuda ⟨thread, 0, .cudaEventSynchronize ⟨0, 0, 7⟩⟩) ++
    [.cuda ⟨rightThread 0, 0, .ncclSend 8 .u8 0 ⟨1, firstId⟩ ⟨0, 0⟩⟩,
      .cuda ⟨leftThread 0, 0, .cudaStreamSynchronize ⟨0, 0⟩⟩]

/-- The requests for an event, the replies about it, and whether its end at a time is reported. -/
def repliesAbout (event : EventId) (time : ℤ) (sim : Simulator) :
    List ResponseId × List ResponseId × Bool :=
  (sim.requestsFor event, sim.repliesFor event, .reported event time ∈ sim.history)

/-- A second thread that waits for the event takes the place of the first, which is never
answered. -/
theorem not_replies_delivered_twoThreads :
    ¬∀ env messages sim, Reached env messages sim → Delivered messages sim := by
  intro claimed
  have read : ((waitForReceive [leftThread 1, leftThread 2]).foldlM (handle (.plain 20))
      pair).toOption.map (repliesAbout 3 0) =
        some ([leftThread 1, leftThread 2], [leftThread 2], true) := by
    decide +kernel
  rcases exists_ok_of_reading read with ⟨sim, run, reading⟩
  simp only [repliesAbout, Prod.mk.injEq, decide_eq_true_eq] at reading
  rcases reading with ⟨requests, replies, reported⟩
  have answered := (claimed _ _ sim (reached_of_foldlM initial_pair run)).answered 3 0 reported
  rw [requests, replies] at answered
  exact absurd answered.length_eq (by decide)

/-- Handle a message that takes the place of no request. -/
def handleSolo (env : Environment) (sim : Simulator) (message : Message) :
    Except Panic Simulator := do
  assert (message.displaced? env sim = none) .missingRank
  sim.handle env message

/-- One thread waits, and is answered. -/
theorem replies_delivered_oneThread : ∃ sim,
    repliesAbout 3 0 sim = ([leftThread 1], [leftThread 1], true) ∧
      Delivered (waitForReceive [leftThread 1]) sim := by
  have read : ((waitForReceive [leftThread 1]).foldlM (handleSolo (.plain 20))
      pair).toOption.map (repliesAbout 3 0) = some ([leftThread 1], [leftThread 1], true) := by
    decide +kernel
  rcases exists_ok_of_reading read with ⟨sim, run, reading⟩
  refine ⟨sim, reading, replies_delivered (.plain 20) _ sim ?_⟩
  refine Runs.reached_of_foldlM (fun taken => ?_) initial_pair run
  simp only [handleSolo, bind_eq_ok, assert_eq_ok] at taken
  rcases taken with ⟨_, solo, handled⟩
  exact ⟨handled, solo⟩

end Simulator

end Phantora
