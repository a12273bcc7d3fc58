import Mathlib.Order.Interval.Finset.Basic
import Phantora.Simulator.Named

/-!
# Initialising communicators

The ranks of a new communicator wait for each other: the server answers when the
last one has joined. It answers all of them with the time of the message that
came last, which need not be the latest of their times.
-/

namespace Phantora

open Outcome

/-- The response hands out an identifier or tells a rank what came out of a split. -/
def Response.ofComm : Response → Bool
  | .uniqueId _ => true
  | .split _ _ _ _ => true
  | .noColor => true
  | _ => false

/-- The reply to a request that waits for no event. -/
def Occurrence.reply? : Occurrence → Option (ResponseId × ℤ)
  | .synced host time none => some (host, time)
  | _ => none

theorem Occurrence.Quiet.reply? {occurrence : Occurrence} (quiet : occurrence.Quiet) :
    occurrence.reply? = none := by
  cases occurrence with
  | joined => rfl
  | completed => rfl
  | offered => rfl
  | matched => rfl
  | awaits => exact absurd quiet id
  | synced => exact absurd quiet id
  | polled => exact absurd quiet id
  | reported => exact absurd quiet id

namespace Simulator

variable {env : Environment} {asks : ResponseId → Option ResponseId → Prop} {sim sim' : Simulator}

/-- No communicator is named, formed or split, and nobody is told so. -/
structure CommsKept (sim sim' : Simulator) : Prop where
  ncclUniqueId : sim'.ncclUniqueId = sim.ncclUniqueId
  commGroups : sim'.commGroups = sim.commGroups
  initWaiting : sim'.initWaiting = sim.initWaiting
  splitWaiting : sim'.splitWaiting = sim.splitWaiting
  sent : ∃ news, sim'.sent = news ++ sim.sent ∧ ∀ reply ∈ news, reply.2.ofComm = false
  history : ∃ news, sim'.history = news ++ sim.history ∧
    ∀ occurrence ∈ news, occurrence.reply? = none

namespace CommsKept

theorem of_news (ncclUniqueId : sim'.ncclUniqueId = sim.ncclUniqueId)
    (commGroups : sim'.commGroups = sim.commGroups)
    (initWaiting : sim'.initWaiting = sim.initWaiting)
    (splitWaiting : sim'.splitWaiting = sim.splitWaiting)
    (replies : List (ResponseId × Response)) (occurrences : List Occurrence)
    (sent : sim'.sent = replies ++ sim.sent) (history : sim'.history = occurrences ++ sim.history)
    (noComm : ∀ reply ∈ replies, reply.2.ofComm = false)
    (noReply : ∀ occurrence ∈ occurrences, occurrence.reply? = none) : CommsKept sim sim' :=
  ⟨ncclUniqueId, commGroups, initWaiting, splitWaiting, ⟨replies, sent, noComm⟩,
    ⟨occurrences, history, noReply⟩⟩

theorem refl (sim : Simulator) : CommsKept sim sim :=
  .of_news rfl rfl rfl rfl [] [] rfl rfl (by simp) (by simp)

theorem trans {first second third : Simulator} (left : CommsKept first second)
    (right : CommsKept second third) : CommsKept first third := by
  rcases left.sent with ⟨replies, sent, noComm⟩
  rcases right.sent with ⟨replies', sent', noComm'⟩
  rcases left.history with ⟨occurrences, history, noReply⟩
  rcases right.history with ⟨occurrences', history', noReply'⟩
  refine .of_news (right.ncclUniqueId.trans left.ncclUniqueId)
    (right.commGroups.trans left.commGroups) (right.initWaiting.trans left.initWaiting)
    (right.splitWaiting.trans left.splitWaiting) (replies' ++ replies)
    (occurrences' ++ occurrences) ?_ ?_ ?_ ?_
  · rw [sent', sent, List.append_assoc]
  · rw [history', history, List.append_assoc]
  · intro reply mem
    exact (List.mem_append.mp mem).elim (noComm' reply) (noComm reply)
  · intro occurrence mem
    exact (List.mem_append.mp mem).elim (noReply' occurrence) (noReply occurrence)

end CommsKept

theorem reportEnd_commsKept (sim : Simulator) (id : EventId) (time : ℤ) :
    CommsKept sim (sim.reportEnd id time) := by
  simp only [reportEnd]
  split
  · exact .of_news rfl rfl rfl rfl [(_, .sync time)] [.synced _ time (some id), .reported id time]
      rfl rfl (by simp [Response.ofComm]) (by simp [Occurrence.reply?])
  · exact .of_news rfl rfl rfl rfl [] [.reported id time] rfl rfl (by simp)
      (by simp [Occurrence.reply?])

theorem observe_commsKept (sim : Simulator) (queue : EventQueue) (step : QueueStep) :
    CommsKept sim (sim.observe queue step) := by
  have changed : CommsKept sim { sim with queue := queue } :=
    .of_news rfl rfl rfl rfl [] [] rfl rfl (by simp) (by simp)
  cases step with
  | emptyQueue => exact changed
  | eventStarted id time => exact changed
  | eventEnded id time => exact changed.trans (reportEnd_commsKept _ id time)
  | reachedPoint id time => exact changed.trans (reportEnd_commsKept _ id time)

theorem Act.commsKept (act : Act env asks sim sim') : CommsKept sim sim' := by
  cases act with
  | book books =>
      rcases books.history with ⟨news, history, quiet⟩
      exact .of_news books.ncclUniqueId books.commGroups books.initWaiting
        books.splitWaiting [] news
        books.sent history (by simp) fun occurrence mem =>
          (quiet occurrence mem).reply?
  | add => exact .of_news rfl rfl rfl rfl [] [] rfl rfl (by simp) (by simp)
  | depend => exact .of_news rfl rfl rfl rfl [] [] rfl rfl (by simp) (by simp)
  | free => exact .of_news rfl rfl rfl rfl [] [] rfl rfl (by simp) (by simp)
  | peek => exact .of_news rfl rfl rfl rfl [] [] rfl rfl (by simp) (by simp)
  | execute => exact observe_commsKept _ _ _
  | @await host _ time _ event =>
      exact .of_news rfl rfl rfl rfl [] [.awaits host event time] rfl rfl (by simp)
        (by simp [Occurrence.reply?])
  | @park host event time =>
      exact .of_news rfl rfl rfl rfl [] [.awaits host event time] rfl rfl (by simp)
        (by simp [Occurrence.reply?])
  | @answer host event time endTime =>
      exact .of_news rfl rfl rfl rfl [(host, .sync endTime)]
        [.synced host endTime (some event), .awaits host event time] rfl rfl
        (by simp [Response.ofComm]) (by simp [Occurrence.reply?])
  | @poll host time event ready =>
      cases ready with
      | none =>
          exact .of_news rfl rfl rfl rfl [(host, .query none)]
            [.polled host time event none] rfl rfl
            (by simp [Response.ofComm]) (by simp [Occurrence.reply?])
      | some reply =>
          exact .of_news rfl rfl rfl rfl [(host, .query (some reply.1))]
            [.polled host time event (some reply.1)] rfl rfl (by simp [Response.ofComm])
            (by simp [Occurrence.reply?])

theorem Acts.commsKept (acts : Acts env asks sim sim') : CommsKept sim sim' :=
  acts.invariant (CommsKept sim) (fun earlier act => earlier.trans act.commsKept) (.refl sim)

/-- As many distinct ranks as there are leave none to wait for. -/
theorem missing_eq_empty_iff {n : ℕ} {ranks : List ℤ} (range : ∀ rank ∈ ranks, 0 ≤ rank ∧ rank < n)
    (distinct : ranks.Nodup) :
    allRanks n \ ranks.toFinset = ∅ ↔ ranks.length = n := by
  have subset : ranks.toFinset ⊆ allRanks n := by
    intro rank mem
    exact mem_allRanks.mpr (range rank (List.mem_toFinset.mp mem))
  have card : ranks.toFinset.card = ranks.length := List.toFinset_card_of_nodup distinct
  rw [Finset.sdiff_eq_empty_iff_subset]
  constructor
  · intro superset
    rw [← card, Finset.Subset.antisymm subset superset, card_allRanks]
  · intro full
    rw [Finset.eq_of_subset_of_card_le subset]
    rw [card, full, card_allRanks]

/-- The ranks without those that have joined, and one more. -/
theorem erase_missing {n : ℕ} (ranks : List ℤ) (rank : ℤ) :
    (allRanks n \ ranks.toFinset).erase rank =
      allRanks n \ (ranks ++ [rank]).toFinset := by
  ext other
  simp only [Finset.mem_erase, Finset.mem_sdiff, List.toFinset_append, Finset.mem_union,
    List.toFinset_cons, List.toFinset_nil, Finset.mem_insert, Finset.notMem_empty, or_false, not_or]
  tauto

end Simulator

/-- A rank joins a communicator. -/
structure InitJoin where
  host : ResponseId
  currTime : ℤ
  device : ℤ
  rank : ℤ
  nranks : ℤ
deriving DecidableEq

/-- The rank that a message lets join a communicator. -/
def Message.initJoin? (id : NcclId) : Message → Option InitJoin
  | .cuda ⟨host, currTime, .ncclCommInitRank device rank nranks id'⟩ =>
      if id' = id then some ⟨host, currTime, device, rank, nranks⟩ else none
  | _ => none

/-- The server while the ranks of one communicator join it: who has joined so far and what has
been replied to them, the last reply first. -/
structure Rendezvous where
  sim : Simulator
  joins : List InitJoin
  replies : List (ResponseId × ℤ)

namespace Rendezvous

open Simulator

/-- The replies without an event between two states. -/
def newReplies (sim sim' : Simulator) : List (ResponseId × ℤ) :=
  (sim'.history.take (sim'.history.length - sim.history.length)).filterMap Occurrence.reply?

/-- Handle a message; what is replied when a rank joins is a reply to the ranks. -/
def handle (env : Environment) (id : NcclId) (state : Rendezvous) (message : Message) :
    Except Panic Rendezvous := do
  let sim ← state.sim.handle env message
  return {
    sim := sim
    joins := state.joins ++ (message.initJoin? id).toList
    replies := match message.initJoin? id with
      | some _ => newReplies state.sim sim ++ state.replies
      | none => state.replies }

/-- No rank has joined the communicator. -/
def Opens (env : Environment) (id : NcclId) (state : Rendezvous) : Prop :=
  (∃ messages, Simulator.Reached env messages state.sim) ∧ state.sim.initWaiting id = none ∧
    state.joins = [] ∧ state.replies = []

def Step (env : Environment) (id : NcclId) (state : Rendezvous) (message : Message)
    (state' : Rendezvous) : Prop :=
  state.handle env id message = .ok state'

/-- Messages of any kind, among them those of the ranks, lead to the state. -/
abbrev Reached (env : Environment) (id : NcclId) : List Message → Rendezvous → Prop :=
  Runs.Reached (Opens env id) (Step env id)

/-- The ranks of a communicator of `n` ranks, each of which joins once. -/
structure Joiners (n : ℕ) (joins : List InitJoin) : Prop where
  nranks : ∀ join ∈ joins, join.nranks = n
  range : ∀ join ∈ joins, 0 ≤ join.rank ∧ join.rank < n
  distinct : (joins.map InitJoin.rank).Nodup

/-- The last rank joins: none has been answered before, now each is, and all at the latest of
their times; the communicator has the rank's host and device at every rank. -/
structure Synchronizes (n : ℕ) (id : NcclId) (before after : Rendezvous) : Prop where
  silent : before.replies = []
  once : (after.replies.map Prod.fst).Perm (after.joins.map InitJoin.host)
  ranks : ∃ ranks, after.sim.commGroups id = some ranks ∧ ranks.length = n ∧
    ∀ join ∈ after.joins, ranks[join.rank.toNat]? = some (join.host.host, join.device)
  latest : ∀ reply ∈ after.replies,
    IsGreatest {time | ∃ join ∈ after.joins, time = join.currTime} reply.2

/-- The thread and the device that have joined as a rank. -/
def memberOf (joins : List InitJoin) (rank : ℤ) : Option (ResponseId × ℤ) :=
  (joins.find? fun join => join.rank = rank).map fun join => (join.host, join.device)

/-- What the server knows while ranks are missing. -/
structure Waits (n : ℕ) (id : NcclId) (state : Rendezvous) : Prop where
  replies : state.replies = []
  opened : state.joins = [] → state.sim.initWaiting id = none
  waiting : state.joins ≠ [] → ∃ waiting, state.sim.initWaiting id = some waiting ∧
    (∀ rank, waiting.joinedRanks rank = memberOf state.joins rank) ∧
    waiting.waitingFor = allRanks n \ (state.joins.map InitJoin.rank).toFinset

variable {env : Environment} {n : ℕ} {id : NcclId} {state state' : Rendezvous} {message : Message}

theorem memberOf_append {joins : List InitJoin} {join : InitJoin}
    (fresh : join.rank ∉ joins.map InitJoin.rank) (rank : ℤ) :
    memberOf (joins ++ [join]) rank =
      Function.update (memberOf joins) join.rank (some (join.host, join.device)) rank := by
  unfold memberOf
  by_cases same : rank = join.rank
  · subst rank
    have absent : joins.find? (fun other => other.rank = join.rank) = none := by
      rw [List.find?_eq_none]
      intro other mem equal
      exact fresh (List.mem_map.mpr ⟨other, mem, by simpa using equal⟩)
    simp [List.find?_append, absent]
  · have differs : ¬join.rank = rank := fun equal => same equal.symm
    simp [List.find?_append, Function.update_of_ne same, differs]

theorem memberOf_eq {joins : List InitJoin} {join : InitJoin} (joiners : Joiners n joins)
    (mem : join ∈ joins) : memberOf joins join.rank = some (join.host, join.device) := by
  unfold memberOf
  cases found : joins.find? fun other => other.rank = join.rank with
  | none =>
      rw [List.find?_eq_none] at found
      exact absurd (found join mem) (by simp)
  | some other =>
      have rank : other.rank = join.rank := by simpa using List.find?_some found
      have same : other = join :=
        List.inj_on_of_nodup_map joiners.distinct (List.mem_of_find?_eq_some found) mem rank
      rw [same]
      rfl

theorem complete_iff {joins : List InitJoin} (joiners : Joiners n joins) :
    allRanks n \ (joins.map InitJoin.rank).toFinset = ∅ ↔ joins.length = n := by
  rw [missing_eq_empty_iff ?_ joiners.distinct, List.length_map]
  intro rank mem
  rcases List.mem_map.mp mem with ⟨join, among, rfl⟩
  exact joiners.range join among

theorem initWaiting_formCommunicator (time : ℤ) (sim : Simulator) (members : List SplitInfo) :
    (sim.formCommunicator time members).initWaiting = sim.initWaiting := by
  simp only [formCommunicator]
  refine List.foldlRecOn (motive := fun other : Simulator => other.initWaiting = sim.initWaiting)
    _ _ rfl ?_
  intro other same _ _
  exact same

theorem initWaiting_splitCommunicator (sim : Simulator) (time : ℤ) (waiting : SplitWaiting) :
    (sim.splitCommunicator env time waiting).initWaiting = sim.initWaiting := by
  simp only [splitCommunicator]
  refine List.foldlRecOn (motive := fun other : Simulator => other.initWaiting = sim.initWaiting)
    _ _ ?_ ?_
  · refine List.foldlRecOn (motive := fun other : Simulator => other.initWaiting = sim.initWaiting)
      _ _ rfl ?_
    intro other same _ _
    exact same
  · intro other same group _
    exact (initWaiting_formCommunicator time other group.2).trans same

/-- A request that first runs the queue to its time. -/
theorem runTo_commsKept {sim middle : Simulator} {host : HostId} {time : ℤ} {stopped : Bool}
    (run : executeToTime env time env.fuel (sim.updateHostCurr host time) = .ok (middle, stopped)) :
    CommsKept sim middle := by
  have updated : CommsKept sim (sim.updateHostCurr host time) :=
    .of_news rfl rfl rfl rfl [] [] rfl rfl (by simp) (by simp)
  exact updated.trans (executeToTime_acts run).commsKept

theorem ncclCommSplit_initWaiting {sim sim' : Simulator} {host : ResponseId}
    {time color key : ℤ} {comm : NcclComm}
    (run : (sim.updateHostCurr host.host time).ncclCommSplit env host time comm color key =
      .ok sim') : sim'.initWaiting = sim.initWaiting := by
  simp only [ncclCommSplit, bind_eq_ok, Prod.exists] at run
  rcases run with ⟨middle, _, executed, run⟩
  have kept := (runTo_commsKept executed).initWaiting
  split at run
  · split at run
    · simp only [pure_eq_ok] at run
      exact run ▸ kept
    · split at run
      · simp only [pure_eq_ok] at run
        exact run ▸ (initWaiting_splitCommunicator _ _ _).trans kept
      · simp only [pure_eq_ok] at run
        exact run ▸ kept
  · simp only [pure_eq_ok] at run
    exact run ▸ kept

/-- The replies to the members of a complete communicator. -/
theorem foldl_sendSync (time : ℤ) (members : List (ResponseId × ℤ)) (sim : Simulator) :
    ∃ hostTimes, members.foldl
      (fun sim member => sim.sendSyncResponseTo member.1 time none) sim = { sim with
        hostTimes := hostTimes
        sent := (members.map fun member => (member.1, Response.sync time)).reverse ++ sim.sent
        history := (members.map fun member => Occurrence.synced member.1 time none).reverse ++
          sim.history } := by
  induction members generalizing sim with
  | nil => exact ⟨sim.hostTimes, rfl⟩
  | cons member members ih =>
      rcases ih (sim.sendSyncResponseTo member.1 time none) with ⟨hostTimes, same⟩
      refine ⟨hostTimes, ?_⟩
      rw [List.foldl_cons, same, List.map_cons, List.reverse_cons, List.append_assoc,
        List.map_cons, List.reverse_cons, List.append_assoc]
      rfl

/-- The ways in which a joining rank changes the server, once the queue has run to its time. -/
inductive Inits (sim : Simulator) (host : ResponseId) (time device rank nranks : ℤ) (id : NcclId)
    (sim' : Simulator) : Prop where
  | first : sim.initWaiting id = none →
      sim' = { sim with
        initWaiting := Function.update sim.initWaiting id
          (some ⟨Function.update (fun _ => none) rank (some (host, device)),
            otherRanks nranks rank⟩) } →
      Inits sim host time device rank nranks id sim'
  | next {waiting : InitWaiting} : sim.initWaiting id = some waiting →
      waiting.waitingFor.erase rank ≠ ∅ →
      sim' = { sim with
        initWaiting := Function.update sim.initWaiting id
          (some ⟨Function.update waiting.joinedRanks rank (some (host, device)),
            waiting.waitingFor.erase rank⟩) } →
      Inits sim host time device rank nranks id sim'
  | last {waiting : InitWaiting} {members : List (ResponseId × ℤ)}
      {hostTimes : HostId → Option HostTime} :
      sim.initWaiting id = some waiting → waiting.waitingFor.erase rank = ∅ →
      joinedMembers nranks ⟨Function.update waiting.joinedRanks rank (some (host, device)),
        waiting.waitingFor.erase rank⟩ = .ok members →
      sim' = { sim with
        hostTimes := hostTimes
        initWaiting := Function.update sim.initWaiting id none
        commGroups := Function.update sim.commGroups id
          (some (members.map fun member => (member.1.host, member.2)))
        sent := (members.map fun member => (member.1, Response.sync time)).reverse ++ sim.sent
        history := (members.map fun member => Occurrence.synced member.1 time none).reverse ++
          sim.history } →
      Inits sim host time device rank nranks id sim'

theorem ncclCommInitRank_inits {sim sim' : Simulator} {host : ResponseId}
    {time device rank nranks : ℤ} {id : NcclId}
    (run : sim.ncclCommInitRank env host time device rank nranks id = .ok sim') :
    ∃ middle stopped, executeToTime env time env.fuel sim = .ok (middle, stopped) ∧
      Inits middle host time device rank nranks id sim' := by
  simp only [ncclCommInitRank, bind_eq_ok, Prod.exists] at run
  rcases run with ⟨middle, stopped, executed, run⟩
  refine ⟨middle, stopped, executed, ?_⟩
  split at run
  · rename_i unknown
    simp only [pure_eq_ok] at run
    exact .first unknown run.symm
  · rename_i waiting known
    split at run
    · rename_i complete
      simp only [bind_eq_ok, pure_eq_ok] at run
      rcases run with ⟨members, found, rfl⟩
      rcases foldl_sendSync time members
        { middle with initWaiting := Function.update middle.initWaiting id none } with
        ⟨hostTimes, same⟩
      apply Inits.last known complete found
      rw [same]
    · rename_i incomplete
      simp only [pure_eq_ok] at run
      exact .next known incomplete run.symm

/-- What a joining rank does to the tables. -/
inductive Joined (sim : Simulator) (host : ResponseId) (time device rank nranks : ℤ) (id : NcclId)
    (sim' : Simulator) : Prop where
  | first : sim.initWaiting id = none →
      sim'.initWaiting = Function.update sim.initWaiting id
        (some ⟨Function.update (fun _ => none) rank (some (host, device)),
          otherRanks nranks rank⟩) →
      newReplies sim sim' = [] → Joined sim host time device rank nranks id sim'
  | next {waiting : InitWaiting} : sim.initWaiting id = some waiting →
      waiting.waitingFor.erase rank ≠ ∅ →
      sim'.initWaiting = Function.update sim.initWaiting id
        (some ⟨Function.update waiting.joinedRanks rank (some (host, device)),
          waiting.waitingFor.erase rank⟩) →
      newReplies sim sim' = [] → Joined sim host time device rank nranks id sim'
  | last {waiting : InitWaiting} {members : List (ResponseId × ℤ)} :
      sim.initWaiting id = some waiting → waiting.waitingFor.erase rank = ∅ →
      joinedMembers nranks ⟨Function.update waiting.joinedRanks rank (some (host, device)),
        waiting.waitingFor.erase rank⟩ = .ok members →
      sim'.initWaiting = Function.update sim.initWaiting id none →
      sim'.commGroups id = some (members.map fun member => (member.1.host, member.2)) →
      newReplies sim sim' = (members.map fun member => (member.1, time)).reverse →
      Joined sim host time device rank nranks id sim'

theorem newReplies_of_append {sim sim' : Simulator} (news : List Occurrence)
    (history : sim'.history = news ++ sim.history) :
    newReplies sim sim' = news.filterMap Occurrence.reply? := by
  have count : (news ++ sim.history).length - sim.history.length = news.length := by simp
  rw [newReplies, history, count, List.take_left]

theorem CommsKept.newReplies {sim sim' : Simulator} (kept : CommsKept sim sim') :
    Rendezvous.newReplies sim sim' = [] := by
  rcases kept.history with ⟨news, history, noReply⟩
  rw [newReplies_of_append news history]
  exact List.filterMap_eq_nil_iff.mpr noReply

theorem ncclCommInitRank_joined {sim sim' : Simulator} {host : ResponseId}
    {time device rank nranks : ℤ} {id : NcclId}
    (run : (sim.updateHostCurr host.host time).ncclCommInitRank env host time device
      rank nranks id =
      .ok sim') : Joined sim host time device rank nranks id sim' := by
  rcases ncclCommInitRank_inits run with ⟨middle, stopped, executed, inits⟩
  have kept := runTo_commsKept executed
  have silent := CommsKept.newReplies kept
  cases inits with
  | first unknown same =>
      subst same
      exact .first (kept.initWaiting ▸ unknown) (by rw [kept.initWaiting]) silent
  | next known incomplete same =>
      subst same
      exact .next (kept.initWaiting ▸ known) incomplete (by rw [kept.initWaiting]) silent
  | @last waiting members hostTimes known complete found same =>
      rcases kept.history with ⟨news, history, noReply⟩
      refine .last (kept.initWaiting ▸ known) complete found ?_ ?_ ?_
      · rw [same, kept.initWaiting]
      · rw [same]
        exact Function.update_self ..
      · rw [newReplies_of_append ((members.map fun member =>
          Occurrence.synced member.1 time none).reverse ++ news)]
        · rw [List.filterMap_append, List.filterMap_eq_nil_iff.mpr noReply, List.append_nil,
            List.filterMap_reverse, List.filterMap_map]
          have replies : (Occurrence.reply? ∘ fun member : ResponseId × ℤ =>
              Occurrence.synced member.1 time none) = some ∘ fun member => (member.1, time) := rfl
          rw [replies, List.filterMap_eq_map]
        · rw [same]
          dsimp only
          rw [history, List.append_assoc]

/-- A message that lets no rank join leaves the ranks waiting. -/
theorem handle_initWaiting {sim sim' : Simulator} (named : Named sim)
    (other : message.initJoin? id = none) (run : sim.handle env message = .ok sim') :
    sim'.initWaiting id = sim.initWaiting id := by
  by_cases manages : message.Manages
  · rcases handle_eq_ok run with ⟨final, dispatched, rfl⟩
    cases message with
    | torch call => exact absurd manages (fun false => false)
    | exit host time => exact absurd manages (fun false => false)
    | cuda msg =>
        rcases msg with ⟨host, time, call⟩
        simp only [dispatch, handleCudaCall] at dispatched
        cases call with
        | ncclGetUniqueId =>
            simp only [Except.ok.injEq] at dispatched
            exact dispatched ▸ rfl
        | ncclCommInitRank device rank nranks id' =>
            have differs : id ≠ id' := by
              rintro rfl
              simp [Message.initJoin?] at other
            cases ncclCommInitRank_joined dispatched with
            | first _ tables => exact (congrFun tables id).trans (Function.update_of_ne differs _ _)
            | next _ _ tables =>
                exact (congrFun tables id).trans (Function.update_of_ne differs _ _)
            | last _ _ _ tables =>
                exact (congrFun tables id).trans (Function.update_of_ne differs _ _)
        | ncclCommSplit comm color key => exact congrFun (ncclCommSplit_initWaiting dispatched) id
        | _ => exact absurd manages (fun false => false)
  · exact congrFun (handle_advances named manages run).acts.commsKept.initWaiting id

theorem handle_join {sim sim' : Simulator} {join : InitJoin}
    (joins : message.initJoin? id = some join) (run : sim.handle env message = .ok sim') :
    Joined sim join.host join.currTime join.device join.rank join.nranks id sim' := by
  rcases handle_eq_ok run with ⟨final, dispatched, rfl⟩
  cases message with
  | torch call => cases joins
  | exit host time => cases joins
  | cuda msg =>
      rcases msg with ⟨host, time, call⟩
      cases call with
      | ncclCommInitRank device rank nranks id' =>
          simp only [Message.initJoin?] at joins
          split at joins
          · rename_i same
            cases joins
            subst same
            cases ncclCommInitRank_joined dispatched with
            | first unknown tables replies => exact .first unknown tables replies
            | next known left tables replies => exact .next known left tables replies
            | last known full found tables group replies =>
                exact .last known full found tables group replies
          · cases joins
      | _ => cases joins

theorem Joiners.of_append {joins more : List InitJoin} (joiners : Joiners n (joins ++ more)) :
    Joiners n joins := by
  refine ⟨fun join mem => joiners.nranks join (List.mem_append_left _ mem),
    fun join mem => joiners.range join (List.mem_append_left _ mem), ?_⟩
  have distinct := joiners.distinct
  rw [List.map_append, List.nodup_append] at distinct
  exact distinct.1

theorem Joiners.fresh {joins : List InitJoin} {join : InitJoin}
    (joiners : Joiners n (joins ++ [join])) : join.rank ∉ joins.map InitJoin.rank := by
  intro mem
  have distinct := joiners.distinct
  rw [List.map_append, List.nodup_append] at distinct
  exact distinct.2.2 _ mem _ (List.mem_singleton.mpr rfl) rfl

theorem handle_eq_ok (run : state.handle env id message = .ok state') :
    state.sim.handle env message = .ok state'.sim ∧
      state'.joins = state.joins ++ (message.initJoin? id).toList ∧
      state'.replies = match message.initJoin? id with
        | some _ => newReplies state.sim state'.sim ++ state.replies
        | none => state.replies := by
  simp only [handle, bind_eq_ok, pure_eq_ok] at run
  rcases run with ⟨sim, handled, rfl⟩
  exact ⟨handled, rfl, rfl⟩

theorem erase_ranks (joins : List InitJoin) (join : InitJoin) :
    (allRanks n \ (joins.map InitJoin.rank).toFinset).erase join.rank =
      allRanks n \ ((joins ++ [join]).map InitJoin.rank).toFinset := by
  rw [erase_missing, List.map_append]
  rfl

theorem Waits.known (waits : Waits n id state) {waiting : InitWaiting}
    (known : state.sim.initWaiting id = some waiting) :
    (∀ rank, waiting.joinedRanks rank = memberOf state.joins rank) ∧
      waiting.waitingFor = allRanks n \ (state.joins.map InitJoin.rank).toFinset := by
  have joined : state.joins ≠ [] := by
    intro empty
    exact Option.some_ne_none _ (known.symm.trans (waits.opened empty))
  rcases waits.waiting joined with ⟨waiting', known', members, ranks⟩
  have same : waiting = waiting' := Option.some.inj (known.symm.trans known')
  exact same ▸ ⟨members, ranks⟩

/-- While ranks are missing the server only waits. -/
theorem Waits.step (waits : Waits n id state) (named : Named state.sim)
    (joiners : Joiners n state'.joins) (missing : state'.joins.length < n)
    (step : Step env id state message state') : Waits n id state' := by
  rcases handle_eq_ok step with ⟨handled, joins, replies⟩
  cases joining : message.initJoin? id with
  | none =>
      rw [joining, Option.toList_none, List.append_nil] at joins
      rw [joining] at replies
      have kept := handle_initWaiting named joining handled
      refine ⟨replies.trans waits.replies, ?_, ?_⟩
      · rw [joins, kept]
        exact waits.opened
      · rw [joins, kept]
        exact waits.waiting
  | some join =>
      rw [joining, Option.toList_some] at joins
      rw [joining] at replies
      rw [joins] at joiners missing
      have nranks := joiners.nranks join (List.mem_append_right _ List.mem_cons_self)
      have silent : newReplies state.sim state'.sim = [] → state'.replies = [] := by
        intro none
        rw [replies, none, List.nil_append, waits.replies]
      have member := memberOf_append joiners.fresh
      have nonempty : state'.joins ≠ [] := by simp [joins]
      have erased := erase_ranks (n := n) state.joins join
      cases handle_join joining handled with
      | first unknown tables none =>
          have opened : state.joins = [] := by
            by_contra joined
            rcases waits.waiting joined with ⟨waiting, known, _⟩
            exact Option.some_ne_none _ (known.symm.trans unknown)
          refine ⟨silent none, fun empty => absurd empty nonempty, ?_⟩
          intro _
          refine ⟨_, (congrFun tables id).trans (Function.update_self ..), ?_, ?_⟩
          · intro rank
            rw [joins, member]
            rw [opened]
            rfl
          · rw [joins, ← erased, opened, nranks]
            simp [otherRanks]
      | next known left tables none =>
          rcases waits.known known with ⟨members, ranks⟩
          refine ⟨silent none, fun empty => absurd empty nonempty, ?_⟩
          intro _
          refine ⟨_, (congrFun tables id).trans (Function.update_self ..), ?_, ?_⟩
          · intro rank
            rw [joins, member, ← funext members]
          · rw [joins, ← erased, ← ranks]
      | last known full found tables group none =>
          rcases waits.known known with ⟨_, ranks⟩
          rw [ranks, erased, complete_iff joiners] at full
          exact absurd full missing.ne

theorem waits_of_reached {messages : List Message}
    (reached : Reached env id messages state) :
    Named state.sim ∧ (Joiners n state.joins → state.joins.length < n → Waits n id state) := by
  refine reached.invariant (fun _ state => Named state.sim ∧
    (Joiners n state.joins → state.joins.length < n → Waits n id state)) ?_ ?_
  · rintro state ⟨⟨messages, reached⟩, unknown, opened, silent⟩
    refine ⟨named_of_reached reached, fun _ _ => ⟨silent, fun _ => unknown, ?_⟩⟩
    exact fun joined => absurd opened joined
  · rintro _ state message state' ⟨named, waits⟩ step
    rcases handle_eq_ok step with ⟨handled, joins, _⟩
    refine ⟨handle_named named handled, ?_⟩
    intro joiners missing
    have before : Joiners n state.joins := by
      rw [joins] at joiners
      exact joiners.of_append
    have length : state.joins.length ≤ state'.joins.length := by
      rw [joins, List.length_append]
      exact Nat.le_add_right _ _
    exact (waits before (length.trans_lt missing)).step named joiners missing step

theorem joinedMembers_eq {nranks : ℤ} {waiting : InitWaiting} {members : List (ResponseId × ℤ)}
    (found : joinedMembers nranks waiting = .ok members) :
    (List.range nranks.toNat).map (fun i : ℕ => waiting.joinedRanks i) = members.map some := by
  have unwrapped := mapM_unwrap_eq_ok found
  have casts : (List.range nranks.toNat >>= fun i => pure (i : ℤ)) =
      (List.range nranks.toNat).map fun i : ℕ => (i : ℤ) := by
    rw [List.map_eq_flatMap]
    rfl
  rw [casts, List.map_map] at unwrapped
  exact unwrapped

/-- The members that are answered are those that have joined. -/
theorem joinedMembers_spec {joins : List InitJoin} {waiting : InitWaiting}
    {members : List (ResponseId × ℤ)} (joiners : Joiners n joins) (full : joins.length = n)
    (known : ∀ rank, waiting.joinedRanks rank = memberOf joins rank)
    (found : joinedMembers n waiting = .ok members) :
    members.length = n ∧
      (∀ join ∈ joins, members[join.rank.toNat]? = some (join.host, join.device)) ∧
      members.Perm (joins.map fun join => (join.host, join.device)) := by
  have all := joinedMembers_eq found
  rw [Int.toNat_natCast] at all
  have length : members.length = n := by
    have counts := congrArg List.length all
    simpa using counts.symm
  refine ⟨length, ?_, ?_⟩
  · intro join mem
    rcases joiners.range join mem with ⟨nonneg, lt⟩
    have bound : join.rank.toNat < n := by omega
    have here := congrArg (fun list : List (Option (ResponseId × ℤ)) => list[join.rank.toNat]?) all
    simp only [List.getElem?_map, List.getElem?_range bound, Option.map_some, known,
      Int.toNat_of_nonneg nonneg, memberOf_eq joiners mem] at here
    cases member : members[join.rank.toNat]? with
    | none => simp [member] at here
    | some other => simpa [member, eq_comm] using here
  · have ranks : (joins.map InitJoin.rank).Perm ((List.range n).map fun i : ℕ => (i : ℤ)) := by
      refine (List.perm_ext_iff_of_nodup joiners.distinct ?_).mpr ?_
      · exact List.nodup_range.map Nat.cast_injective
      · intro rank
        constructor
        · intro mem
          rcases List.mem_map.mp mem with ⟨join, among, rfl⟩
          rcases joiners.range join among with ⟨nonneg, lt⟩
          exact List.mem_map.mpr ⟨join.rank.toNat, List.mem_range.mpr (by omega), by omega⟩
        · intro mem
          rcases List.mem_map.mp mem with ⟨i, among, rfl⟩
          rw [List.mem_range] at among
          have none := (complete_iff joiners).mpr full
          rw [Finset.sdiff_eq_empty_iff_subset] at none
          exact List.mem_toFinset.mp (none (mem_allRanks.mpr ⟨by omega, by omega⟩))
    have joined : joins.map (fun join => memberOf joins join.rank) =
        joins.map fun join => some (join.host, join.device) :=
      List.map_congr_left fun join mem => memberOf_eq joiners mem
    have perm : (joins.map fun join => some (join.host, join.device)).Perm (members.map some) := by
      rw [← joined, ← all]
      have mapped := ranks.map (memberOf joins)
      simpa [List.map_map, Function.comp_def, known] using mapped
    have plain := perm.symm.filterMap id
    simpa [List.filterMap_map, Function.comp_def] using plain

/-- The ranks of a communicator are answered together at the time that the last one sends; that
is the latest of their times exactly when no other rank has sent a later one. -/
theorem synchronizes_iff {messages : List Message} {before after : Rendezvous} {last : InitJoin}
    (two : 2 ≤ n) (reached : Reached env id messages before)
    (step : Step env id before message after) (joiners : Joiners n after.joins)
    (full : after.joins.length = n) (joins : message.initJoin? id = some last) :
    Synchronizes n id before after ↔ ∀ join ∈ after.joins, join.currTime ≤ last.currTime := by
  rcases handle_eq_ok step with ⟨handled, joined, replies⟩
  rw [joins, Option.toList_some] at joined
  rw [joins] at replies
  have joiners' := joiners
  rw [joined] at joiners'
  have missing : before.joins.length < n := by
    rw [← full, joined, List.length_append]
    exact Nat.lt_succ_self _
  have waits := (waits_of_reached reached).2 joiners'.of_append missing
  have nranks : last.nranks = n := joiners'.nranks last (List.mem_append_right _ List.mem_cons_self)
  have isLast : last ∈ after.joins := joined ▸ List.mem_append_right _ List.mem_cons_self
  have empty := (complete_iff joiners).mpr full
  rw [joined, ← erase_ranks] at empty
  cases handle_join joins handled with
  | first unknown _ _ =>
      have opened : before.joins = [] := by
        by_contra some_
        rcases waits.waiting some_ with ⟨waiting, known, _⟩
        exact Option.some_ne_none _ (known.symm.trans unknown)
      rw [joined, opened] at full
      simp at full
      omega
  | next known left _ _ => exact absurd ((waits.known known).2 ▸ empty) left
  | @last waiting members known _ found _ group new =>
      rw [nranks] at found
      have member : ∀ rank, Function.update waiting.joinedRanks last.rank
          (some (last.host, last.device)) rank = memberOf after.joins rank := by
        intro rank
        rw [joined, memberOf_append joiners'.fresh, ← funext (waits.known known).1]
      rcases joinedMembers_spec joiners full member found with ⟨length, ranks, perm⟩
      rw [new, waits.replies, List.append_nil] at replies
      have times : ∀ reply ∈ after.replies, reply.2 = last.currTime := by
        intro reply mem
        rw [replies, List.mem_reverse, List.mem_map] at mem
        rcases mem with ⟨member, _, rfl⟩
        rfl
      constructor
      · intro synchronizes join mem
        have nonempty : members ≠ [] := by
          intro none
          rw [none] at length
          simp at length
          omega
        rcases List.exists_mem_of_ne_nil _ nonempty with ⟨member, among⟩
        have reply : (member.1, last.currTime) ∈ after.replies := by
          rw [replies, List.mem_reverse]
          exact List.mem_map_of_mem among
        exact (synchronizes.latest _ reply).2 ⟨join, mem, rfl⟩
      · intro latest
        refine ⟨waits.replies, ?_, ?_, ?_⟩
        · rw [replies, List.map_reverse, List.map_map]
          refine (List.reverse_perm _).trans ?_
          have hosts := perm.map Prod.fst
          rw [List.map_map] at hosts
          exact hosts
        · refine ⟨_, group, by rw [List.length_map, length], ?_⟩
          intro join mem
          rw [List.getElem?_map, ranks join mem]
          rfl
        · intro reply mem
          rw [times reply mem]
          refine ⟨⟨last, isLast, rfl⟩, ?_⟩
          rintro _ ⟨join, mem, rfl⟩
          exact latest join mem

/-- The left host joins as rank 0, the right host as rank 1. -/
def joinLeft (time : ℤ) : Message :=
  .cuda ⟨leftThread 0, time, .ncclCommInitRank 0 0 2 firstId⟩

def joinRight (time : ℤ) : Message :=
  .cuda ⟨rightThread 0, time, .ncclCommInitRank 0 1 2 firstId⟩

/-- The state before and after the right host joins a communicator that the left one has joined. -/
def joinBoth (leftTime rightTime : ℤ) : Except Panic (Rendezvous × Rendezvous) := do
  let before ← [joinLeft leftTime].foldlM (handle (.plain 20) firstId) ⟨Simulator.pair, [], []⟩
  let after ← before.handle (.plain 20) firstId (joinRight rightTime)
  return (before, after)

theorem opens_pair : Opens (.plain 20) firstId ⟨Simulator.pair, [], []⟩ :=
  ⟨⟨[], .start initial_pair⟩, rfl, rfl, rfl⟩

theorem joinBoth_eq_ok {leftTime rightTime : ℤ} {before after : Rendezvous}
    (run : joinBoth leftTime rightTime = .ok (before, after)) :
    Reached (.plain 20) firstId [joinLeft leftTime] before ∧
      Step (.plain 20) firstId before (joinRight rightTime) after := by
  simp only [joinBoth, bind_eq_ok, pure_eq_ok, Prod.mk.injEq] at run
  rcases run with ⟨_, first, _, second, rfl, rfl⟩
  exact ⟨Runs.reached_of_foldlM (fun step => step) opens_pair first, second⟩

/-- The host that arrives last is also the last in virtual time. -/
theorem synchronizes_iff_joinBoth :
    ∃ before after, Reached (.plain 20) firstId [joinLeft 3] before ∧
      Step (.plain 20) firstId before (joinRight 5) after ∧
      Synchronizes 2 firstId before after := by
  have read : (joinBoth 3 5).toOption.map (fun states => states.2.joins) =
      some [⟨leftThread 0, 3, 0, 0, 2⟩, ⟨rightThread 0, 5, 0, 1, 2⟩] := by decide +kernel
  rcases exists_ok_of_reading read with ⟨⟨before, after⟩, run, joins⟩
  rcases joinBoth_eq_ok run with ⟨reached, step⟩
  refine ⟨before, after, reached, step, ?_⟩
  have joiners : Joiners 2 after.joins := by
    rw [joins]
    exact ⟨by decide, by decide, by decide⟩
  have full : after.joins.length = 2 := by
    rw [joins]
    rfl
  refine (synchronizes_iff le_rfl reached step joiners full rfl).mpr ?_
  rw [joins]
  decide

/-- The host that arrives first has run further: its clock is set back from 5 to 3. -/
theorem not_synchronizes_of_earlyArrival :
    ∃ before after, Reached (.plain 20) firstId [joinLeft 5] before ∧
      Step (.plain 20) firstId before (joinRight 3) after ∧ Joiners 2 after.joins ∧
      after.joins.length = 2 ∧
      after.replies = [(rightThread 0, 3), (leftThread 0, 3)] ∧
      ¬Synchronizes 2 firstId before after := by
  have read : (joinBoth 5 3).toOption.map (fun states => (states.2.joins, states.2.replies)) =
      some ([⟨leftThread 0, 5, 0, 0, 2⟩, ⟨rightThread 0, 3, 0, 1, 2⟩],
        [(rightThread 0, 3), (leftThread 0, 3)]) := by decide +kernel
  rcases exists_ok_of_reading read with ⟨⟨before, after⟩, run, reading⟩
  rcases joinBoth_eq_ok run with ⟨reached, step⟩
  simp only [Prod.mk.injEq] at reading
  rcases reading with ⟨joins, replies⟩
  have joiners : Joiners 2 after.joins := by
    rw [joins]
    exact ⟨by decide, by decide, by decide⟩
  refine ⟨before, after, reached, step, joiners, by rw [joins]; rfl, replies, ?_⟩
  intro synchronizes
  have reply : (leftThread 0, 3) ∈ after.replies := by simp [replies]
  have early : (5 : ℤ) ≤ 3 := (synchronizes.latest _ reply).2
    ⟨⟨leftThread 0, 5, 0, 0, 2⟩, by simp [joins], rfl⟩
  exact absurd early (by decide)

end Rendezvous

end Phantora
