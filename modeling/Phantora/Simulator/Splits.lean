import Phantora.Simulator.Identifiers

/-!
# Splitting communicators

The ranks of a communicator that is split wait for each other as those of a new
one do, but the first of them is never the last, and a rank that splits again
before the others have joined takes its own earlier place.
-/

namespace Phantora

open Outcome Ranking

/-- A rank issues a split. -/
structure SplitJoin where
  host : ResponseId
  currTime : ℤ
  rank : ℤ
  color : ℤ
  key : ℤ
deriving DecidableEq

/-- The split that a message issues on a communicator. -/
def Message.splitJoin? (id : NcclId) : Message → Option SplitJoin
  | .cuda ⟨host, currTime, .ncclCommSplit comm color key⟩ =>
      if comm.id = id then some ⟨host, currTime, comm.rank, color, key⟩ else none
  | _ => none

/-- The server while a communicator is split: the splits issued so far and what has been replied
to them, the last reply first. -/
structure Gathering where
  sim : Simulator
  joins : List SplitJoin
  replies : List (ResponseId × Response)

namespace Gathering

open Simulator

/-- What is sent about communicators between two states. -/
def newReplies (sim sim' : Simulator) : List (ResponseId × Response) :=
  (sim'.sent.take (sim'.sent.length - sim.sent.length)).filter fun reply => reply.2.ofComm

/-- The state after a message, given the server after it. -/
def advance (id : NcclId) (state : Gathering) (message : Message) (sim : Simulator) :
    Gathering where
  sim := sim
  joins := state.joins ++ (message.splitJoin? id).toList
  replies := match message.splitJoin? id with
    | some _ => newReplies state.sim sim ++ state.replies
    | none => state.replies

/-- Handle a message; what is sent when a split is issued is a reply to the splits. -/
def handle (env : Environment) (id : NcclId) (state : Gathering) (message : Message) :
    Except Panic Gathering := do
  let sim ← state.sim.handle env message
  return state.advance id message sim

/-- A communicator of `n` ranks, of which the server has been told or, as only one rank of it
exists, has not. -/
def Knows (told : Bool) (n : ℕ) (id : NcclId) (sim : Simulator) : Prop :=
  match told with
  | true => ∃ hosts, sim.commGroups id = some hosts ∧ hosts.length = n
  | false => sim.commGroups id = none ∧ n = 1

/-- No split of the communicator is open. -/
def Opens (env : Environment) (id : NcclId) (state : Gathering) : Prop :=
  (∃ messages, Simulator.Reached env messages state.sim) ∧ state.sim.splitWaiting id = none ∧
    state.joins = [] ∧ state.replies = []

/-- A message is handled; a split is issued by a rank of the communicator. -/
structure Step (env : Environment) (told : Bool) (n : ℕ) (id : NcclId) (state : Gathering)
    (message : Message) (state' : Gathering) : Prop where
  handled : state.handle env id message = .ok state'
  issued : ∀ join ∈ message.splitJoin? id,
    Knows told n id state.sim ∧ 0 ≤ join.rank ∧ join.rank < n

/-- Messages of any kind, among them splits of the communicator, lead to the state. -/
abbrev Reached (env : Environment) (told : Bool) (n : ℕ) (id : NcclId) :
    List Message → Gathering → Prop :=
  Runs.Reached (Opens env id) (Step env told n id)

/-- How many splits a rank has issued. -/
def issuedBy (joins : List SplitJoin) (rank : ℤ) : ℕ :=
  (joins.map SplitJoin.rank).count rank

/-- No rank issues a split before every rank has issued as many as it has. -/
def Orderly (n : ℕ) (joins : List SplitJoin) : Prop :=
  ∀ before join, (before ++ [join]).IsPrefix joins →
    ∀ rank : ℤ, 0 ≤ rank → rank < n → issuedBy before join.rank ≤ issuedBy before rank

/-- A response that a rank can use; a rank without a color looks at none. -/
def Valid (join : SplitJoin) (response : Response) : Prop :=
  join.color ≠ ncclSplitNocolor → ∃ rank nranks id time, response = .split rank nranks id time ∧
    1 ≤ nranks ∧ 0 ≤ rank ∧ rank < nranks

/-- Every split has exactly one response, which is valid. -/
def Answered (joins : List SplitJoin) (replies : List (ResponseId × Response)) : Prop :=
  ∃ answers : List (SplitJoin × Response), (answers.map Prod.fst).Perm joins ∧
    replies.Perm (answers.map fun answer => (answer.1.host, answer.2)) ∧
    ∀ answer ∈ answers, Valid answer.1 answer.2

/-- Every split has been answered, and none is open. -/
def Completes (id : NcclId) (state : Gathering) : Prop :=
  Answered state.joins state.replies ∧ state.sim.splitWaiting id = none

variable {env : Environment} {told : Bool} {n : ℕ} {id : NcclId} {state state' : Gathering}
  {message : Message}

theorem issuedBy_append (joins more : List SplitJoin) (rank : ℤ) :
    issuedBy (joins ++ more) rank = issuedBy joins rank + issuedBy more rank := by
  rw [issuedBy, List.map_append, List.count_append]
  rfl

theorem orderly_nil : Orderly n [] := by
  intro before join isPrefix
  have empty := List.prefix_nil.mp isPrefix
  simp at empty

theorem orderly_concat {joins : List SplitJoin} {join : SplitJoin} :
    Orderly n (joins ++ [join]) ↔ Orderly n joins ∧
      ∀ rank : ℤ, 0 ≤ rank → rank < n → issuedBy joins join.rank ≤ issuedBy joins rank := by
  constructor
  · intro orderly
    refine ⟨?_, fun rank => orderly joins join List.prefix_rfl rank⟩
    intro before other isPrefix
    exact orderly before other (isPrefix.trans (List.prefix_append _ _))
  · rintro ⟨orderly, last⟩ before other isPrefix
    rcases List.prefix_concat_iff.mp isPrefix with whole | earlier
    · rcases List.append_inj' whole rfl with ⟨rfl, same⟩
      rw [List.singleton_inj.mp same]
      exact last
    · exact orderly before other earlier

theorem Answered.length {joins : List SplitJoin} {replies : List (ResponseId × Response)}
    (answered : Answered joins replies) : replies.length = joins.length := by
  rcases answered with ⟨answers, perm, replies, _⟩
  rw [replies.length_eq, ← perm.length_eq, List.length_map, List.length_map]

theorem Answered.append {joins more : List SplitJoin} {replies news : List (ResponseId × Response)}
    (answered : Answered joins replies) (round : Answered more news) :
    Answered (joins ++ more) (news ++ replies) := by
  rcases answered with ⟨answers, perm, same, valid⟩
  rcases round with ⟨answers', perm', same', valid'⟩
  refine ⟨answers ++ answers', ?_, ?_, ?_⟩
  · rw [List.map_append]
    exact perm.append perm'
  · rw [List.map_append]
    exact List.perm_append_comm.trans (same.append same')
  · intro answer mem
    exact (List.mem_append.mp mem).elim (valid answer) (valid' answer)

/-- What the server remembers of a split, apart from the device. -/
def seen (join : SplitJoin) : ℤ × ResponseId × ℤ × ℤ :=
  (join.rank, join.host, join.color, join.key)

def remembered (entry : ℤ × SplitInfo) : ℤ × ResponseId × ℤ × ℤ :=
  (entry.1, entry.2.host, entry.2.color, entry.2.key)

/-- What matters of a member of a split: thread, color and key. -/
def tagOf (info : SplitInfo) : ResponseId × ℤ × ℤ :=
  (info.host, info.color, info.key)

/-- The members that the hash map lists are those that have joined. -/
theorem tags_splitInfos (env : Environment) (stamp : ℕ) {waiting : SplitWaiting}
    {joins : List SplitJoin} (same : waiting.joinedRanks.map remembered = joins.map seen) :
    ((splitInfos env stamp waiting).map tagOf).Perm
      (joins.map fun join => (join.host, join.color, join.key)) := by
  have tags := congrArg (List.map Prod.snd) same
  rw [List.map_map, List.map_map] at tags
  have listed : (splitInfos env stamp waiting).map tagOf =
      (env.order stamp waiting.joinedRanks).map (Prod.snd ∘ remembered) := by
    rw [splitInfos, List.map_map]
    rfl
  rw [listed]
  exact ((env.order_perm stamp _).map _).trans (.of_eq tags)

/-- What the server sends when a split is complete. -/
def roundReplies (time : ℤ) (infos : List SplitInfo) (comms : List (NcclId × List SplitInfo)) :
    List (ResponseId × Response) :=
  ((announce comms).map (splitReply time)).reverse ++
    ((infos.filter fun info => info.color = ncclSplitNocolor).map noColorReply).reverse

/-- What is sent when a split is complete, with the members that it is for. -/
def roundAnswers (time : ℤ) (infos : List SplitInfo) (comms : List (NcclId × List SplitInfo)) :
    List (SplitInfo × Response) :=
  (announce comms).map (fun notice => (notice.member, (splitReply time notice).2)) ++
    (infos.filter fun info => info.color = ncclSplitNocolor).map fun info => (info, .noColor)

theorem roundReplies_perm (time : ℤ) (infos : List SplitInfo)
    (comms : List (NcclId × List SplitInfo)) :
    (roundReplies time infos comms).Perm
      ((roundAnswers time infos comms).map fun answer => (answer.1.host, answer.2)) := by
  rw [roundAnswers, List.map_append, List.map_map, List.map_map]
  exact (List.reverse_perm _).append (List.reverse_perm _)

theorem members_roundAnswers (env : Environment) (stamp : ℕ) (waiting : SplitWaiting)
    (ncclId : NcclId) (time : ℤ) :
    ((roundAnswers time (splitInfos env stamp waiting)
      (newComms ncclId (splitGroups env stamp waiting))).map Prod.fst).Perm
        (splitInfos env stamp waiting) := by
  have named := members_newComms env stamp waiting ncclId
  rw [← members_announce] at named
  have parts := List.filter_append_perm
    (fun info : SplitInfo => decide (info.color ≠ ncclSplitNocolor)) (splitInfos env stamp waiting)
  rw [roundAnswers, List.map_append, List.map_map, List.map_map]
  refine .trans (.append named (.of_eq ?_)) parts
  simp [Function.comp_def]

theorem valid_roundAnswers {env : Environment} {stamp : ℕ} {waiting : SplitWaiting}
    {ncclId : NcclId} {time : ℤ} {answer : SplitInfo × Response}
    (mem : answer ∈ roundAnswers time (splitInfos env stamp waiting)
      (newComms ncclId (splitGroups env stamp waiting)))
    (colored : answer.1.color ≠ ncclSplitNocolor) :
    ∃ rank nranks id time, answer.2 = .split rank nranks id time ∧ 1 ≤ nranks ∧ 0 ≤ rank ∧
      rank < nranks := by
  rcases List.mem_append.mp mem with told | refused
  · rcases List.mem_map.mp told with ⟨notice, inNotices, rfl⟩
    have inside := position_lt_size inNotices
    exact ⟨notice.position, notice.size, notice.name, time, rfl, by omega, by omega, by omega⟩
  · rcases List.mem_map.mp refused with ⟨info, inInfos, rfl⟩
    exact absurd (of_decide_eq_true (List.mem_filter.mp inInfos).2) colored

/-- A complete split answers everybody. -/
theorem answered_round (env : Environment) (stamp : ℕ) (ncclId : NcclId) (time : ℤ)
    {waiting : SplitWaiting} {joins : List SplitJoin}
    (same : waiting.joinedRanks.map remembered = joins.map seen) :
    Answered joins (roundReplies time (splitInfos env stamp waiting)
      (newComms ncclId (splitGroups env stamp waiting))) := by
  have members := ((members_roundAnswers env stamp waiting ncclId time).map tagOf).trans
    (tags_splitInfos env stamp same)
  rw [List.map_map] at members
  rcases exists_retagged members with ⟨answers, firsts, tags⟩
  refine ⟨answers, firsts, ?_, ?_⟩
  · refine (roundReplies_perm time _ _).trans (.of_eq ?_)
    have hosts := congrArg (List.map fun answer => (answer.1.1, answer.2)) tags
    rw [List.map_map, List.map_map] at hosts
    exact hosts.symm
  · intro answer mem colored
    have tagged := List.mem_map_of_mem (f := fun item : SplitJoin × Response =>
      ((item.1.host, item.1.color, item.1.key), item.2)) mem
    rw [tags] at tagged
    rcases List.mem_map.mp tagged with ⟨known, inAnswers, equal⟩
    simp only [tagOf, Prod.mk.injEq] at equal
    rcases equal with ⟨⟨_, color, _⟩, response⟩
    rw [← response]
    exact valid_roundAnswers inAnswers (by rwa [color])

theorem newReplies_of_append {sim sim' : Simulator} (news : List (ResponseId × Response))
    (sent : sim'.sent = news ++ sim.sent) :
    newReplies sim sim' = news.filter fun reply => reply.2.ofComm := by
  have count : (news ++ sim.sent).length - sim.sent.length = news.length := by simp
  rw [newReplies, sent, count, List.take_left]

/-- What is sent after a state that only differs by acts. -/
theorem newReplies_of_kept {sim middle sim' : Simulator} (kept : CommsKept sim middle)
    (news : List (ResponseId × Response)) (sent : sim'.sent = news ++ middle.sent)
    (told : ∀ reply ∈ news, reply.2.ofComm = true) : newReplies sim sim' = news := by
  rcases kept.sent with ⟨others, earlier, noComm⟩
  have none : (others.filter fun reply => reply.2.ofComm) = [] := by
    apply List.filter_eq_nil_iff.mpr
    intro reply mem
    rw [noComm reply mem]
    exact Bool.false_ne_true
  rw [newReplies_of_append (news ++ others) (by rw [sent, earlier, List.append_assoc]),
    List.filter_append, none, List.append_nil, List.filter_eq_self.mpr told]

theorem ofComm_roundReplies {time : ℤ} {infos : List SplitInfo}
    {comms : List (NcclId × List SplitInfo)} :
    ∀ reply ∈ roundReplies time infos comms, reply.2.ofComm = true := by
  intro reply mem
  rcases List.mem_append.mp mem with told | refused
  · rcases List.mem_map.mp (List.mem_reverse.mp told) with ⟨notice, _, rfl⟩
    rfl
  · rcases List.mem_map.mp (List.mem_reverse.mp refused) with ⟨info, _, rfl⟩
    rfl

theorem handle_eq_ok (run : state.handle env id message = .ok state') :
    state.sim.handle env message = .ok state'.sim ∧ state' =
      state.advance id message state'.sim := by
  simp only [handle, bind_eq_ok, pure_eq_ok] at run
  rcases run with ⟨sim, handled, rfl⟩
  exact ⟨handled, rfl⟩

theorem inits_splitWaiting {sim sim' : Simulator} {host : ResponseId} {time device rank nranks : ℤ}
    {id : NcclId} (inits : Rendezvous.Inits sim host time device rank nranks id sim') :
    sim'.splitWaiting = sim.splitWaiting := by
  cases inits with
  | first _ same => exact same ▸ rfl
  | next _ _ same => exact same ▸ rfl
  | last _ _ _ same => exact same ▸ rfl

theorem splits_splitWaiting {sim sim' : Simulator} {host : ResponseId} {time color key : ℤ}
    {comm : NcclComm} (splits : Splits env sim host time comm color key sim')
    (other : id ≠ comm.id) :
    sim'.splitWaiting id = sim.splitWaiting id := by
  cases splits with
  | unknown _ same => exact same ▸ rfl
  | first _ _ same => exact same ▸ Function.update_of_ne other _ _
  | next _ _ _ _ same => exact same ▸ Function.update_of_ne other _ _
  | last _ _ _ _ _ _ same => exact same ▸ Function.update_of_ne other _ _

/-- A message that issues no split of the communicator leaves its splits alone. -/
theorem handle_splitWaiting {sim sim' : Simulator} (named : Named sim)
    (other : message.splitJoin? id = none) (run : sim.handle env message = .ok sim') :
    sim'.splitWaiting id = sim.splitWaiting id := by
  by_cases manages : message.Manages
  · cases message with
    | torch call => exact absurd manages (fun false => false)
    | exit host time => exact absurd manages (fun false => false)
    | cuda msg =>
        rcases msg with ⟨host, time, call⟩
        cases call with
        | ncclGetUniqueId =>
            rcases Simulator.handle_eq_ok run with ⟨final, dispatched, rfl⟩
            simp only [dispatch, handleCudaCall, Except.ok.injEq] at dispatched
            exact dispatched ▸ rfl
        | ncclCommInitRank device rank nranks id' =>
            rcases Simulator.handle_eq_ok run with ⟨final, dispatched, rfl⟩
            simp only [dispatch, handleCudaCall] at dispatched
            rcases Rendezvous.ncclCommInitRank_inits dispatched with ⟨middle, _, executed, inits⟩
            exact congrFun ((inits_splitWaiting inits).trans
              (Rendezvous.runTo_commsKept executed).splitWaiting) id
        | ncclCommSplit comm color key =>
            have differs : id ≠ comm.id := by
              rintro rfl
              simp [Message.splitJoin?] at other
            rcases handleIn_split (handleIn_of_handle run) with ⟨middle, kept, rfl⟩
            have same := splits_splitWaiting
              (splitRank_splits env middle host time comm color key) differs
            exact same.trans (congrFun kept.splitWaiting id)
        | _ => exact absurd manages (fun false => false)
  · exact congrFun (handle_advances named manages run).acts.commsKept.splitWaiting id

/-- What a split does to the gathering of the ranks. -/
inductive Arrives (hashing : Environment) (n : ℕ) (id : NcclId) (state : Gathering)
    (join : SplitJoin) (sim' : Simulator) : Prop where
  | first {entry : ℤ × SplitInfo} : state.sim.splitWaiting id = none →
      remembered entry = seen join →
      sim'.splitWaiting id = some ⟨[entry], otherRanks n join.rank⟩ →
      newReplies state.sim sim' = [] → Arrives hashing n id state join sim'
  | next {waiting : SplitWaiting} {entry : ℤ × SplitInfo} :
      state.sim.splitWaiting id = some waiting → remembered entry = seen join →
      (joinSplit waiting entry.1 entry.2).waitingFor ≠ ∅ →
      sim'.splitWaiting id = some (joinSplit waiting entry.1 entry.2) →
      newReplies state.sim sim' = [] → Arrives hashing n id state join sim'
  | last {waiting joined : SplitWaiting} {entry : ℤ × SplitInfo} {stamp : ℕ}
      {comms : List (NcclId × List SplitInfo)} :
      state.sim.splitWaiting id = some waiting → remembered entry = seen join →
      joined = joinSplit waiting entry.1 entry.2 → joined.waitingFor = ∅ →
      comms = newComms state.sim.ncclUniqueId (splitGroups hashing stamp joined) →
      sim'.splitWaiting id = none →
      sim'.commGroups = addComms state.sim.commGroups comms →
      newReplies state.sim sim' =
        roundReplies join.currTime (splitInfos hashing stamp joined) comms →
      Arrives hashing n id state join sim'

theorem handleIn_arrives {hashing : Environment} {sim' : Simulator} {join : SplitJoin}
    (joins : message.splitJoin? id = some join) (knows : Knows true n id state.sim)
    (run : state.sim.handleIn env hashing message = .ok sim') :
    Arrives hashing n id state join sim' := by
  cases message with
  | torch call => cases joins
  | exit host time => cases joins
  | cuda msg =>
      rcases msg with ⟨host, time, call⟩
      cases call with
      | ncclCommSplit comm color key =>
          simp only [Message.splitJoin?] at joins
          split at joins
          · rename_i same
            cases joins
            subst same
            rcases handleIn_split run with ⟨middle, kept, rfl⟩
            have silent : newReplies state.sim middle = [] :=
              newReplies_of_kept kept [] rfl fun reply mem => absurd mem List.not_mem_nil
            rcases knows with ⟨known, isKnown, length⟩
            rw [← kept.commGroups] at isKnown
            have splits := splitRank_splits hashing middle host time comm color key
            generalize middle.splitRank hashing host time comm color key = final at splits
            cases splits with
            | unknown unknown _ =>
                exact absurd (isKnown.symm.trans unknown) (Option.some_ne_none _)
            | @first hosts known' waits same =>
                have ranks : hosts.length = n := by
                  rw [← length, Option.some.inj (known'.symm.trans isKnown)]
                refine .first (kept.splitWaiting ▸ waits)
                  (rfl : remembered (comm.rank, splitInfo hosts host color key) = _) ?_ ?_
                · rw [same, ← ranks]
                  exact Function.update_self ..
                · rw [← silent, same]
                  rfl
            | @next hosts waiting joined known' waits joined' missing same =>
                subst joined'
                refine .next (kept.splitWaiting ▸ waits)
                  (rfl : remembered (comm.rank, splitInfo hosts host color key) = _) missing ?_ ?_
                · rw [same]
                  exact Function.update_self ..
                · rw [← silent, same]
                  rfl
            | @last hosts waiting joined infos comms _ known' waits joined' complete infos'
              comms' same =>
                refine .last (kept.splitWaiting ▸ waits)
                  (rfl : remembered (comm.rank, splitInfo hosts host color key) = _)
                  joined' complete
                  (kept.ncclUniqueId ▸ comms') ?_ ?_ ?_
                · rw [same]
                  exact Function.update_self ..
                · rw [same, ← kept.commGroups]
                · rw [← infos']
                  apply newReplies_of_kept kept _ _ ofComm_roundReplies
                  rw [same]
                  rfl
          · cases joins
      | _ => cases joins

/-- A split of a communicator that the server does not know is refused at once. -/
theorem handleIn_refused {hashing : Environment} {sim' : Simulator} {join : SplitJoin}
    (joins : message.splitJoin? id = some join) (untold : state.sim.commGroups id = none)
    (run : state.sim.handleIn env hashing message = .ok sim') :
    sim'.splitWaiting id = state.sim.splitWaiting id ∧ newReplies state.sim sim' =
      [(join.host, .split 0 0 unknownNcclId join.currTime)] := by
  cases message with
  | torch call => cases joins
  | exit host time => cases joins
  | cuda msg =>
      rcases msg with ⟨host, time, call⟩
      cases call with
      | ncclCommSplit comm color key =>
          simp only [Message.splitJoin?] at joins
          split at joins
          · rename_i same
            cases joins
            subst same
            rcases handleIn_split run with ⟨middle, kept, rfl⟩
            rw [← kept.commGroups] at untold
            have refused : middle.splitRank hashing host time comm color key =
                middle.sendResponseTo host (.split 0 0 unknownNcclId time) := by
              simp only [splitRank, untold]
            rw [refused]
            refine ⟨congrFun kept.splitWaiting comm.id, ?_⟩
            apply newReplies_of_kept kept _ rfl
            intro reply mem
            rw [List.mem_singleton.mp mem]
            rfl
          · cases joins
      | _ => cases joins

/-- Every rank has issued the splits of some rounds, all of which have been answered, and some
ranks have joined the next. -/
structure Gathers (n : ℕ) (id : NcclId) (state : Gathering) (done pending : List SplitJoin)
    (rounds : ℕ) : Prop where
  joins : state.joins = done ++ pending
  even : ∀ rank : ℤ, 0 ≤ rank → rank < n → issuedBy done rank = rounds
  inside : ∀ join ∈ done, 0 ≤ join.rank ∧ join.rank < n
  range : ∀ rank ∈ pending.map SplitJoin.rank, 0 ≤ rank ∧ rank < n
  distinct : (pending.map SplitJoin.rank).Nodup
  missing : pending.length < n
  orderly : Orderly n state.joins
  answered : Answered done state.replies
  idle : pending = [] → state.sim.splitWaiting id = none
  waiting : pending ≠ [] → ∃ waiting, state.sim.splitWaiting id = some waiting ∧
    waiting.joinedRanks.map remembered = pending.map seen ∧
    waiting.waitingFor = allRanks n \ (pending.map SplitJoin.rank).toFinset

/-- The splits that are open. -/
def openSplits (id : NcclId) (sim : Simulator) : ℕ :=
  match sim.splitWaiting id with
  | none => 0
  | some waiting => waiting.joinedRanks.length

/-- A split has lost its place. -/
structure Behind (n : ℕ) (id : NcclId) (state : Gathering) : Prop where
  lost : state.replies.length + openSplits id state.sim < state.joins.length
  disorderly : ¬Orderly n state.joins

theorem issuedBy_of_notMem {joins : List SplitJoin} {rank : ℤ}
    (absent : rank ∉ joins.map SplitJoin.rank) : issuedBy joins rank = 0 :=
  List.count_eq_zero_of_not_mem absent

theorem issuedBy_of_distinct {joins : List SplitJoin} {rank : ℤ}
    (distinct : (joins.map SplitJoin.rank).Nodup) (mem : rank ∈ joins.map SplitJoin.rank) :
    issuedBy joins rank = 1 :=
  List.count_eq_one_of_mem distinct mem

theorem Gathers.known {done pending : List SplitJoin} {rounds : ℕ}
    (gathers : Gathers n id state done pending rounds) {waiting : SplitWaiting}
    (known : state.sim.splitWaiting id = some waiting) :
    pending ≠ [] ∧ waiting.joinedRanks.map remembered = pending.map seen ∧
      waiting.waitingFor = allRanks n \ (pending.map SplitJoin.rank).toFinset := by
  have joined : pending ≠ [] := by
    intro empty
    exact Option.some_ne_none _ (known.symm.trans (gathers.idle empty))
  rcases gathers.waiting joined with ⟨waiting', known', entries, missing⟩
  have same : waiting = waiting' := Option.some.inj (known.symm.trans known')
  exact same ▸ ⟨joined, entries, missing⟩

theorem Gathers.unknown {done pending : List SplitJoin} {rounds : ℕ}
    (gathers : Gathers n id state done pending rounds)
    (unknown : state.sim.splitWaiting id = none) :
    pending = [] := by
  by_contra joined
  rcases gathers.waiting joined with ⟨waiting, known, _⟩
  exact Option.some_ne_none _ (known.symm.trans unknown)

/-- The ranks that have entries are those that have joined. -/
theorem ranks_of_remembered {entries : List (ℤ × SplitInfo)} {joins : List SplitJoin}
    (same : entries.map remembered = joins.map seen) :
    entries.map Prod.fst = joins.map SplitJoin.rank := by
  have ranks := congrArg (List.map Prod.fst) same
  rw [List.map_map, List.map_map] at ranks
  exact ranks

/-- A rank that has not joined takes a new place. -/
theorem joinSplit_fresh {waiting : SplitWaiting} {entry : ℤ × SplitInfo}
    {pending : List SplitJoin} {join : SplitJoin}
    (same : waiting.joinedRanks.map remembered = pending.map seen)
    (remembers : remembered entry = seen join) (fresh : join.rank ∉ pending.map SplitJoin.rank) :
    (joinSplit waiting entry.1 entry.2).joinedRanks.map remembered =
      (pending ++ [join]).map seen := by
  have rank : entry.1 = join.rank := congrArg Prod.fst remembers
  have kept : waiting.joinedRanks.filter (fun other => other.1 ≠ entry.1) =
    waiting.joinedRanks := by
    apply List.filter_eq_self.mpr
    intro other mem
    have joined := List.mem_map_of_mem (f := Prod.fst) mem
    rw [ranks_of_remembered same] at joined
    simp only [ne_eq, decide_eq_true_eq]
    intro equal
    rw [rank] at equal
    exact fresh (equal ▸ joined)
  rw [joinSplit, kept, List.map_append, List.map_append, same]
  simp [remembers]

theorem waitingFor_joinSplit {waiting : SplitWaiting} {entry : ℤ × SplitInfo}
    {pending : List SplitJoin} {join : SplitJoin} (remembers : remembered entry = seen join)
    (missing : waiting.waitingFor =
      allRanks n \ (pending.map SplitJoin.rank).toFinset) :
    (joinSplit waiting entry.1 entry.2).waitingFor =
      allRanks n \ ((pending ++ [join]).map SplitJoin.rank).toFinset := by
  have rank : entry.1 = join.rank := congrArg Prod.fst remembers
  rw [joinSplit, missing, rank, erase_missing, List.map_append]
  rfl

/-- As many distinct ranks as there are have issued one split each. -/
theorem issuedBy_of_full {joins : List SplitJoin}
    (range : ∀ rank ∈ joins.map SplitJoin.rank, 0 ≤ rank ∧ rank < n)
    (distinct : (joins.map SplitJoin.rank).Nodup) (full : joins.length = n) {rank : ℤ}
    (nonneg : 0 ≤ rank) (lt : rank < n) : issuedBy joins rank = 1 := by
  have none := (missing_eq_empty_iff range distinct).mpr (by rw [List.length_map, full])
  rw [Finset.sdiff_eq_empty_iff_subset] at none
  exact issuedBy_of_distinct distinct
    (List.mem_toFinset.mp (none (mem_allRanks.mpr ⟨nonneg, lt⟩)))

theorem length_roundReplies {hashing : Environment} {stamp : ℕ} {waiting : SplitWaiting}
    {ncclId : NcclId} {time : ℤ} : (roundReplies time (splitInfos hashing stamp waiting)
      (newComms ncclId (splitGroups hashing stamp waiting))).length =
        waiting.joinedRanks.length := by
  have answers := (members_roundAnswers hashing stamp waiting ncclId time).length_eq
  have listed := (hashing.order_perm stamp waiting.joinedRanks).length_eq
  rw [(roundReplies_perm _ _ _).length_eq, List.length_map]
  rw [List.length_map] at answers
  rw [answers, splitInfos, List.length_map, listed]

theorem length_joinSplit_le (waiting : SplitWaiting) (rank : ℤ) (info : SplitInfo) :
    (joinSplit waiting rank info).joinedRanks.length ≤ waiting.joinedRanks.length + 1 := by
  rw [joinSplit, List.length_append, List.length_singleton]
  exact Nat.succ_le_succ (List.length_filter_le _ _)

/-- A rank that joins again takes its own place. -/
theorem length_joinSplit_again {waiting : SplitWaiting} {rank : ℤ} (info : SplitInfo)
    (again : rank ∈ waiting.joinedRanks.map Prod.fst) :
    (joinSplit waiting rank info).joinedRanks.length ≤ waiting.joinedRanks.length := by
  rcases List.mem_map.mp again with ⟨entry, mem, same⟩
  rw [joinSplit, List.length_append, List.length_singleton]
  apply List.length_filter_lt_length_iff_exists.mpr
  exact ⟨entry, mem, by simp [same]⟩

theorem openSplits_of_some {sim : Simulator} {waiting : SplitWaiting}
    (known : sim.splitWaiting id = some waiting) :
    openSplits id sim = waiting.joinedRanks.length := by
  simp [openSplits, known]

theorem openSplits_of_none {sim : Simulator} (unknown : sim.splitWaiting id = none) :
    openSplits id sim = 0 := by
  simp [openSplits, unknown]

section Round

variable {done pending : List SplitJoin} {rounds : ℕ} {join : SplitJoin}

theorem Gathers.of_same (gathers : Gathers n id state done pending rounds)
    (joins : state'.joins = state.joins) (replies : state'.replies = state.replies)
    (kept : state'.sim.splitWaiting id = state.sim.splitWaiting id) :
    Gathers n id state' done pending rounds :=
  ⟨joins.trans gathers.joins, gathers.even, gathers.inside, gathers.range, gathers.distinct,
    gathers.missing, joins ▸ gathers.orderly, replies ▸ gathers.answered, kept ▸ gathers.idle,
    kept ▸ gathers.waiting⟩

/-- A rank that has not joined the round yet joins it, and completes it if it is the last. -/
theorem Gathers.joins_round (two : 2 ≤ n) (gathers : Gathers n id state done pending rounds)
    (arrives : Arrives env n id state join state'.sim)
    (joined : state'.joins = state.joins ++ [join])
    (replies : state'.replies = newReplies state.sim state'.sim ++ state.replies)
    (nonneg : 0 ≤ join.rank) (lt : join.rank < n)
    (fresh : join.rank ∉ pending.map SplitJoin.rank) :
    ∃ done pending rounds, Gathers n id state' done pending rounds := by
  have range : ∀ rank ∈ (pending ++ [join]).map SplitJoin.rank, 0 ≤ rank ∧ rank < n := by
    intro rank mem
    rw [List.map_append, List.mem_append] at mem
    rcases mem with old | new
    · exact gathers.range rank old
    · rw [List.mem_singleton.mp new]
      exact ⟨nonneg, lt⟩
  have distinct : ((pending ++ [join]).map SplitJoin.rank).Nodup := by
    rw [List.map_append, List.map_singleton]
    exact List.concat_eq_append ▸ gathers.distinct.concat fresh
  have orderly : Orderly n state'.joins := by
    rw [joined]
    refine orderly_concat.mpr ⟨gathers.orderly, ?_⟩
    intro rank nonneg' lt'
    rw [gathers.joins, issuedBy_append, issuedBy_append, gathers.even _ nonneg lt,
      gathers.even _ nonneg' lt', issuedBy_of_notMem fresh]
    omega
  have whole : state'.joins = done ++ (pending ++ [join]) := by
    rw [joined, gathers.joins, List.append_assoc]
  have nonempty : pending ++ [join] ≠ [] := by simp
  cases arrives with
  | @first entry unknown remembers waits none =>
      have empty := gathers.unknown unknown
      subst pending
      refine ⟨done, [join], rounds, whole, gathers.even, gathers.inside, range,
        distinct, two, orderly,
        ?_, ?_, ?_⟩
      · rw [replies, none]
        exact gathers.answered
      · exact fun none => absurd none nonempty
      · intro _
        refine ⟨_, waits, by simp [remembers], ?_⟩
        simp [otherRanks, Finset.sdiff_singleton_eq_erase]
  | @next waiting entry known remembers left waits none =>
      rcases gathers.known known with ⟨_, entries, missing⟩
      have missing' := waitingFor_joinSplit remembers missing
      have short : (pending ++ [join]).length < n := by
        have differs : (pending ++ [join]).length ≠ n := by
          intro full
          rw [missing'] at left
          exact left ((missing_eq_empty_iff range distinct).mpr (by rw [List.length_map, full]))
        have bound := gathers.missing
        rw [List.length_append, List.length_singleton] at differs ⊢
        omega
      refine ⟨done, pending ++ [join], rounds, whole, gathers.even, gathers.inside, range, distinct,
        short, orderly, ?_, ?_, ?_⟩
      · rw [replies, none]
        exact gathers.answered
      · exact fun none => absurd none nonempty
      · exact fun _ => ⟨_, waits, joinSplit_fresh entries remembers fresh, missing'⟩
  | @last waiting round entry stamp comms known remembers isRound complete formed closed _ new =>
      rcases gathers.known known with ⟨_, entries, missing⟩
      have missing' := waitingFor_joinSplit remembers missing
      rw [← isRound, complete] at missing'
      have full : (pending ++ [join]).length = n := by
        have count := (missing_eq_empty_iff range distinct).mp missing'.symm
        rw [List.length_map] at count
        exact count
      have entries' := joinSplit_fresh entries remembers fresh
      rw [← isRound] at entries'
      refine ⟨done ++ (pending ++ [join]), [], rounds + 1, ?_, ?_, ?_, ?_, List.nodup_nil, ?_,
        orderly, ?_, ?_, ?_⟩
      · rw [List.append_nil, whole]
      · intro rank nonneg' lt'
        rw [issuedBy_append, gathers.even _ nonneg' lt',
          issuedBy_of_full range distinct full nonneg' lt']
      · intro other mem
        exact (List.mem_append.mp mem).elim (gathers.inside other) fun new =>
          range other.rank (List.mem_map_of_mem new)
      · exact fun rank mem => absurd mem List.not_mem_nil
      · rw [List.length_nil]
        omega
      · rw [replies, new, formed]
        exact gathers.answered.append (answered_round env stamp _ _ entries')
      · exact fun _ => closed
      · exact fun some_ => absurd rfl some_

/-- A rank that has joined the round already loses its split. -/
theorem Gathers.overtakes (gathers : Gathers n id state done pending rounds)
    (arrives : Arrives env n id state join state'.sim)
    (joined : state'.joins = state.joins ++ [join])
    (replies : state'.replies = newReplies state.sim state'.sim ++ state.replies)
    (again : join.rank ∈ pending.map SplitJoin.rank) : Behind n id state' := by
  rcases gathers.range _ again with ⟨nonneg, lt⟩
  have same : ((pending ++ [join]).map SplitJoin.rank).toFinset =
      (pending.map SplitJoin.rank).toFinset := by
    rw [List.map_append, List.map_singleton, List.toFinset_append]
    simpa using again
  have left : allRanks n \ (pending.map SplitJoin.rank).toFinset ≠ ∅ := by
    intro none
    have full := (missing_eq_empty_iff gathers.range gathers.distinct).mp none
    rw [List.length_map] at full
    exact absurd full gathers.missing.ne
  have disorderly : ¬Orderly n state'.joins := by
    rw [joined]
    intro orderly
    rcases Finset.nonempty_iff_ne_empty.mpr left with ⟨rank, isMissing⟩
    rw [Finset.mem_sdiff, mem_allRanks, List.mem_toFinset] at isMissing
    rcases isMissing with ⟨⟨nonneg', lt'⟩, absent⟩
    have behind := (orderly_concat.mp orderly).2 rank nonneg' lt'
    rw [gathers.joins, issuedBy_append, issuedBy_append, gathers.even _ nonneg lt,
      gathers.even _ nonneg' lt', issuedBy_of_notMem absent,
      issuedBy_of_distinct gathers.distinct again] at behind
    omega
  refine ⟨?_, disorderly⟩
  cases arrives with
  | first unknown _ _ _ =>
      rw [gathers.unknown unknown] at again
      exact absurd again List.not_mem_nil
  | @next waiting entry known remembers _ waits none =>
      rcases gathers.known known with ⟨_, entries, _⟩
      have rank : entry.1 = join.rank := congrArg Prod.fst remembers
      have places : entry.1 ∈ waiting.joinedRanks.map Prod.fst := by
        rw [ranks_of_remembered entries, rank]
        exact again
      have kept := length_joinSplit_again entry.2 places
      have count := congrArg List.length entries
      rw [List.length_map, List.length_map] at count
      rw [openSplits_of_some waits, replies, none, List.nil_append, gathers.answered.length, joined,
        gathers.joins, List.length_append, List.length_append, List.length_singleton]
      omega
  | last known remembers isRound complete _ _ _ _ =>
      rcases gathers.known known with ⟨_, _, missing⟩
      rw [isRound, waitingFor_joinSplit remembers missing, same] at complete
      exact absurd complete left

/-- A split adds at most one to the splits that are open or answered. -/
theorem Arrives.openSplits_le (arrives : Arrives env n id state join state'.sim) :
    (newReplies state.sim state'.sim).length + openSplits id state'.sim ≤
      openSplits id state.sim + 1 := by
  cases arrives with
  | first unknown _ waits none =>
      rw [none, openSplits_of_some waits, openSplits_of_none unknown]
      simp
  | @next waiting entry known _ _ waits none =>
      have bound := length_joinSplit_le waiting entry.1 entry.2
      rw [none, openSplits_of_some waits, openSplits_of_some known, List.length_nil]
      omega
  | @last waiting round entry _ _ known _ isRound _ formed closed _ new =>
      have bound := length_joinSplit_le waiting entry.1 entry.2
      rw [new, formed, length_roundReplies, openSplits_of_none closed, openSplits_of_some known,
        isRound]
      omega

theorem Behind.arrives (behind : Behind n id state)
    (arrives : Arrives env n id state join state'.sim)
    (joined : state'.joins = state.joins ++ [join])
    (replies : state'.replies = newReplies state.sim state'.sim ++ state.replies) :
    Behind n id state' := by
  refine ⟨?_, ?_⟩
  · have bound := arrives.openSplits_le
    have lost := behind.lost
    rw [replies, joined, List.length_append, List.length_append, List.length_singleton]
    omega
  · rw [joined]
    exact fun orderly => behind.disorderly (orderly_concat.mp orderly).1

end Round

/-- A message that issues no split of the communicator changes nothing of the gathering. -/
theorem Step.other (step : Step env told n id state message state') (named : Named state.sim)
    (other : message.splitJoin? id = none) :
    state'.joins = state.joins ∧ state'.replies = state.replies ∧
      state'.sim.splitWaiting id = state.sim.splitWaiting id := by
  rcases handle_eq_ok step.handled with ⟨handled, advanced⟩
  refine ⟨?_, ?_, handle_splitWaiting named other handled⟩
  · rw [advanced]
    simp [advance, other]
  · rw [advanced]
    simp [advance, other]

/-- A split is issued. -/
theorem Step.join (step : Step env told n id state message state') {join : SplitJoin}
    (joins : message.splitJoin? id = some join) :
    state'.joins = state.joins ++ [join] ∧
      state'.replies = newReplies state.sim state'.sim ++ state.replies := by
  rcases handle_eq_ok step.handled with ⟨_, advanced⟩
  rw [advanced]
  simp [advance, joins]

theorem Step.named (step : Step env told n id state message state') (named : Named state.sim) :
    Named state'.sim :=
  handle_named named (handle_eq_ok step.handled).1

theorem Opens.named (opens : Opens env id state) : Named state.sim := by
  rcases opens with ⟨⟨messages, reached⟩, _⟩
  exact named_of_reached reached

/-- As long as no split has lost its place the ranks gather in rounds. -/
theorem gathers_or_behind {messages : List Message} (two : 2 ≤ n)
    (reached : Reached env true n id messages state) :
    Named state.sim ∧
      ((∃ done pending rounds, Gathers n id state done pending rounds) ∨ Behind n id state) := by
  refine reached.invariant (fun _ state => Named state.sim ∧
    ((∃ done pending rounds, Gathers n id state done pending rounds) ∨ Behind n id state)) ?_ ?_
  · intro state opens
    refine ⟨opens.named, Or.inl ⟨[], [], 0, ?_⟩⟩
    rcases opens with ⟨_, unknown, joins, replies⟩
    refine ⟨joins, fun _ _ _ => rfl, fun _ mem => absurd mem List.not_mem_nil,
      fun _ mem => absurd mem List.not_mem_nil, List.nodup_nil, by rw [List.length_nil]; omega,
        joins ▸ orderly_nil, ?_, fun _ => unknown, ?_⟩
    · exact ⟨[], .refl _, by simp [replies], fun _ mem => absurd mem List.not_mem_nil⟩
    · exact fun some_ => absurd rfl some_
  · rintro _ state message state' ⟨named, invariant⟩ step
    refine ⟨step.named named, ?_⟩
    cases joins : message.splitJoin? id with
    | none =>
        rcases step.other named joins with ⟨joined, replies, kept⟩
        rcases invariant with ⟨done, pending, rounds, gathers⟩ | behind
        · exact Or.inl ⟨done, pending, rounds, gathers.of_same joined replies kept⟩
        · right
          refine ⟨?_, joined ▸ behind.disorderly⟩
          rw [joined, replies, openSplits, kept]
          exact behind.lost
    | some join =>
        rcases step.join joins with ⟨joined, replies⟩
        rcases step.issued join joins with ⟨knows, nonneg, lt⟩
        have arrives := handleIn_arrives joins knows
          (handleIn_of_handle (handle_eq_ok step.handled).1)
        rcases invariant with ⟨done, pending, rounds, gathers⟩ | behind
        · by_cases again : join.rank ∈ pending.map SplitJoin.rank
          · exact Or.inr (gathers.overtakes arrives joined replies again)
          · exact Or.inl (gathers.joins_round two arrives joined replies nonneg lt again)
        · exact Or.inr (behind.arrives arrives joined replies)

/-- The only rank of a communicator is never answered for all of its splits. -/
theorem unanswered_of_alone {messages : List Message}
    (reached : Reached env true 1 id messages state) :
    Named state.sim ∧
      (∀ waiting, state.sim.splitWaiting id = some waiting →
        ∀ entry ∈ waiting.joinedRanks, entry.1 = 0) ∧
      ((state.joins = [] ∧ state.sim.splitWaiting id = none ∧ state.replies = []) ∨
        state.replies.length < state.joins.length) := by
  refine reached.invariant (fun _ state => Named state.sim ∧
    (∀ waiting, state.sim.splitWaiting id = some waiting →
      ∀ entry ∈ waiting.joinedRanks, entry.1 = 0) ∧
    ((state.joins = [] ∧ state.sim.splitWaiting id = none ∧ state.replies = []) ∨
      state.replies.length < state.joins.length)) ?_ ?_
  · intro state opens
    refine ⟨opens.named, ?_⟩
    rcases opens with ⟨_, unknown, joins, replies⟩
    exact ⟨fun waiting known => absurd (known.symm.trans unknown) (Option.some_ne_none _),
      Or.inl ⟨joins, unknown, replies⟩⟩
  · rintro _ state message state' ⟨named, places, behind⟩ step
    refine ⟨step.named named, ?_⟩
    cases joins : message.splitJoin? id with
    | none =>
        rcases step.other named joins with ⟨joined, replies, kept⟩
        rw [joined, replies, kept]
        exact ⟨places, behind⟩
    | some join =>
        rcases step.join joins with ⟨joined, replies⟩
        rcases step.issued join joins with ⟨knows, nonneg, lt⟩
        have only : join.rank = 0 := by omega
        have arrives := handleIn_arrives joins knows
          (handleIn_of_handle (handle_eq_ok step.handled).1)
        have placed : ∀ {waiting entry}, state.sim.splitWaiting id = some waiting →
            remembered entry = seen join →
            ∀ other ∈ (joinSplit waiting entry.1 entry.2).joinedRanks, other.1 = 0 := by
          intro waiting entry known remembers other mem
          rcases List.mem_append.mp mem with old | new
          · exact places waiting known other (List.mem_of_mem_filter old)
          · rw [List.mem_singleton.mp new]
            exact (congrArg Prod.fst remembers).trans only
        have fewer : newReplies state.sim state'.sim = [] →
            state'.replies.length < state'.joins.length := by
          intro none
          rw [replies, none, List.nil_append, joined, List.length_append, List.length_singleton]
          rcases behind with ⟨_, _, silent⟩ | behind
          · rw [silent, List.length_nil]
            omega
          · omega
        cases arrives with
        | @first entry _ remembers waits none =>
            refine ⟨?_, Or.inr (fewer none)⟩
            intro waiting known
            rw [← Option.some.inj (waits.symm.trans known)]
            intro other mem
            rw [List.mem_singleton.mp mem]
            exact (congrArg Prod.fst remembers).trans only
        | next known remembers _ waits none =>
            refine ⟨?_, Or.inr (fewer none)⟩
            intro waiting known'
            rw [← Option.some.inj (waits.symm.trans known')]
            exact placed known remembers
        | @last waiting round entry _ _ known remembers isRound _ formed closed _ new =>
            refine ⟨fun _ known' => absurd (known'.symm.trans closed) (Option.some_ne_none _),
              Or.inr ?_⟩
            have rank : entry.1 = 0 := (congrArg Prod.fst remembers).trans only
            have alone : waiting.joinedRanks.filter (fun other => other.1 ≠ entry.1) = [] := by
              apply List.filter_eq_nil_iff.mpr
              intro other mem
              simp [places waiting known other mem, rank]
            have one : (newReplies state.sim state'.sim).length = 1 := by
              rw [new, formed, length_roundReplies, isRound, joinSplit, alone]
              rfl
            rw [replies, joined, List.length_append, List.length_append, one,
              List.length_singleton]
            rcases behind with ⟨_, unknown, _⟩ | behind
            · exact absurd (known.symm.trans unknown) (Option.some_ne_none _)
            · omega

/-- A communicator that the server has not been told about is refused every split. -/
theorem refused_of_untold {messages : List Message}
    (reached : Reached env false n id messages state) :
    Named state.sim ∧ state.sim.splitWaiting id = none ∧
      state.replies = (state.joins.map fun join =>
        (join.host, Response.split 0 0 unknownNcclId join.currTime)).reverse := by
  refine reached.invariant (fun _ state => Named state.sim ∧ state.sim.splitWaiting id = none ∧
    state.replies = (state.joins.map fun join =>
      (join.host, Response.split 0 0 unknownNcclId join.currTime)).reverse) ?_ ?_
  · intro state opens
    refine ⟨opens.named, ?_⟩
    rcases opens with ⟨_, unknown, joins, replies⟩
    exact ⟨unknown, by rw [joins, replies]; rfl⟩
  · rintro _ state message state' ⟨named, unknown, answers⟩ step
    refine ⟨step.named named, ?_⟩
    cases joins : message.splitJoin? id with
    | none =>
        rcases step.other named joins with ⟨joined, replies, kept⟩
        rw [joined, replies, kept]
        exact ⟨unknown, answers⟩
    | some join =>
        rcases step.join joins with ⟨joined, replies⟩
        rcases step.issued join joins with ⟨⟨untold, _⟩, _⟩
        rcases handleIn_refused joins untold
          (handleIn_of_handle (handle_eq_ok step.handled).1) with ⟨kept, refusal⟩
        refine ⟨kept.trans unknown, ?_⟩
        rw [replies, refusal, answers, joined, List.map_append, List.reverse_append]
        rfl

/-- When all ranks have issued as many splits no round is open. -/
theorem Gathers.closed {done pending : List SplitJoin} {rounds m : ℕ}
    (gathers : Gathers n id state done pending rounds)
    (even : ∀ rank : ℤ, 0 ≤ rank → rank < n → issuedBy state.joins rank = m) : pending = [] := by
  have pendingCount : ∀ rank : ℤ, 0 ≤ rank → rank < n → rounds + issuedBy pending rank = m := by
    intro rank nonneg lt
    rw [← even rank nonneg lt, gathers.joins, issuedBy_append, gathers.even rank nonneg lt]
  have left : allRanks n \ (pending.map SplitJoin.rank).toFinset ≠ ∅ := by
    intro none
    have full := (missing_eq_empty_iff gathers.range gathers.distinct).mp none
    rw [List.length_map] at full
    exact absurd full gathers.missing.ne
  rcases Finset.nonempty_iff_ne_empty.mpr left with ⟨rank, isMissing⟩
  rw [Finset.mem_sdiff, mem_allRanks, List.mem_toFinset] at isMissing
  have missing := pendingCount rank isMissing.1.1 isMissing.1.2
  rw [issuedBy_of_notMem isMissing.2] at missing
  rw [← List.map_eq_nil_iff (f := SplitJoin.rank), List.eq_nil_iff_forall_not_mem]
  intro other mem
  have joined := pendingCount other (gathers.range other mem).1 (gathers.range other mem).2
  rw [issuedBy_of_distinct gathers.distinct mem] at joined
  omega

theorem completes_iff_orderly {messages : List Message} {m : ℕ} (two : 2 ≤ n)
    (reached : Reached env true n id messages state)
    (rounds : ∀ rank : ℤ, 0 ≤ rank → rank < n → issuedBy state.joins rank = m) :
    Completes id state ↔ Orderly n state.joins := by
  rcases (gathers_or_behind two reached).2 with ⟨done, pending, _, gathers⟩ | behind
  · have closed := gathers.closed rounds
    refine ⟨fun _ => gathers.orderly, fun _ => ⟨?_, gathers.idle closed⟩⟩
    have whole := gathers.joins
    rw [closed, List.append_nil] at whole
    rw [whole]
    exact gathers.answered
  · constructor
    · rintro ⟨answered, closed⟩
      have lost := behind.lost
      rw [openSplits_of_none closed, answered.length] at lost
      exact absurd lost (lt_irrefl _)
    · exact fun orderly => absurd orderly behind.disorderly

theorem not_completes_of_alone {messages : List Message}
    (reached : Reached env true 1 id messages state) (some_ : state.joins ≠ []) :
    ¬Completes id state := by
  rintro ⟨answered, _⟩
  rcases (unanswered_of_alone reached).2.2 with ⟨none, _⟩ | behind
  · exact some_ none
  · rw [answered.length] at behind
    exact absurd behind (lt_irrefl _)

theorem completes_iff_of_untold {messages : List Message}
    (reached : Reached env false n id messages state) :
    Completes id state ↔ ∀ join ∈ state.joins, join.color = ncclSplitNocolor := by
  rcases (refused_of_untold reached).2 with ⟨unknown, replies⟩
  constructor
  · rintro ⟨⟨answers, firsts, same, valid⟩, _⟩ join mem
    by_contra colored
    rcases List.mem_map.mp (firsts.mem_iff.mpr mem) with ⟨answer, inAnswers, rfl⟩
    rcases valid answer inAnswers colored with ⟨rank, nranks, newId, time, response, positive, _, _⟩
    have sent := same.mem_iff.mpr (List.mem_map_of_mem inAnswers)
    rw [replies, List.mem_reverse, List.mem_map] at sent
    rcases sent with ⟨other, _, equal⟩
    rw [response, Prod.mk.injEq, Response.split.injEq] at equal
    omega
  · intro uncolored
    refine ⟨⟨state.joins.map fun join =>
      (join, .split 0 0 unknownNcclId join.currTime), ?_, ?_, ?_⟩, unknown⟩
    · rw [List.map_map]
      exact .of_eq (List.map_id _)
    · rw [replies, List.map_map]
      exact List.reverse_perm _
    · intro answer mem colored
      rcases List.mem_map.mp mem with ⟨join, inJoins, rfl⟩
      exact absurd (uncolored join inJoins) colored

/-- Every rank of a communicator issues as many splits. All of them are answered, with responses
that the ranks can use, exactly when the server knows the communicator, it has more than one rank
and no rank splits it again before every other has split it as often; or when the server does not
know the communicator and its only rank looks at no response. -/
theorem completes_iff {messages : List Message} {m : ℕ} (ranks : 1 ≤ n) (some_ : 1 ≤ m)
    (reached : Reached env told n id messages state)
    (rounds : ∀ rank : ℤ, 0 ≤ rank → rank < n → issuedBy state.joins rank = m) :
    Completes id state ↔ (told = true ∧ 2 ≤ n ∧ Orderly n state.joins) ∨
      (told = false ∧ ∀ join ∈ state.joins, join.color = ncclSplitNocolor) := by
  cases told with
  | false =>
      rw [completes_iff_of_untold reached]
      simp
  | true =>
      by_cases two : 2 ≤ n
      · rw [completes_iff_orderly two reached rounds]
        simp [two]
      · have one : n = 1 := by omega
        subst n
        have joined : state.joins ≠ [] := by
          intro empty
          have count := rounds 0 le_rfl (by omega)
          rw [empty] at count
          simp [issuedBy] at count
          omega
        simp [not_completes_of_alone reached joined]

/-- The two hosts initialise a communicator. -/
def openComm : List Message :=
  [.cuda ⟨leftThread 0, 0, .ncclGetUniqueId⟩, Rendezvous.joinLeft 0, Rendezvous.joinRight 0]

/-- The hosts split a communicator, in which the left one has rank 0 and the right one rank 1. -/
def splitLeft (id : NcclId) (color key : ℤ) : Message :=
  .cuda ⟨leftThread 0, 0, .ncclCommSplit ⟨0, id⟩ color key⟩

def splitRight (id : NcclId) (color key : ℤ) : Message :=
  .cuda ⟨rightThread 0, 0, .ncclCommSplit ⟨1, id⟩ color key⟩

/-- Handle a message if it may be issued. -/
def tryStep (n : ℕ) (id : NcclId) (state : Gathering) (message : Message) :
    Except Panic Gathering := do
  match message.splitJoin? id with
  | some join =>
      assert ((state.sim.commGroups id).map List.length = some n ∧ 0 ≤ join.rank ∧ join.rank < n)
        .unknownComm
  | none => pure ()
  state.handle (.plain 20) id message

/-- Some messages, then others while a communicator of the server is split. -/
def trial (n : ℕ) (id : NcclId) (before messages : List Message) : Except Panic Gathering := do
  let sim ← before.foldlM (Simulator.handle (.plain 20)) .pair
  assert ((sim.splitWaiting id).isNone = true) .unknownComm
  messages.foldlM (tryStep n id) ⟨sim, [], []⟩

theorem step_of_tryStep (run : tryStep n id state message = .ok state') :
    Step (.plain 20) true n id state message state' := by
  simp only [tryStep] at run
  cases joins : message.splitJoin? id with
  | none =>
      simp only [joins] at run
      exact ⟨run, fun join mem => absurd (joins.symm.trans mem).symm (Option.some_ne_none _)⟩
  | some join =>
      simp only [joins, bind_eq_ok, assert_eq_ok] at run
      rcases run with ⟨_, ⟨length, nonneg, lt⟩, run⟩
      refine ⟨run, ?_⟩
      intro other mem
      cases joins.symm.trans mem
      rcases Option.map_eq_some_iff.mp length with ⟨hosts, known, length⟩
      exact ⟨⟨hosts, known, length⟩, nonneg, lt⟩

theorem reached_of_trial {before messages : List Message}
    (run : trial n id before messages = .ok state) :
    Reached (.plain 20) true n id messages state := by
  simp only [trial, bind_eq_ok, assert_eq_ok] at run
  rcases run with ⟨sim, first, _, closed, second⟩
  refine Runs.reached_of_foldlM step_of_tryStep ?_ second
  exact ⟨⟨before, Simulator.reached_of_foldlM initial_pair first⟩,
    Option.isNone_iff_eq_none.mp closed,
    rfl, rfl⟩

/-- Both hosts split a communicator. -/
theorem completes_iff_splitBoth :
    ∃ messages state, Reached (.plain 20) true 2 (numbered 0) messages state ∧
      Completes (numbered 0) state := by
  have read : (trial 2 (numbered 0) openComm [splitRight (numbered 0) 0 1,
      splitLeft (numbered 0) 0 2]).toOption.map Gathering.joins =
        some [⟨rightThread 0, 0, 1, 0, 1⟩, ⟨leftThread 0, 0, 0, 0, 2⟩] := by decide +kernel
  rcases exists_ok_of_reading read with ⟨state, run, joins⟩
  refine ⟨_, state, reached_of_trial run, ?_⟩
  have once : ∀ rank : ℤ, 0 ≤ rank → rank < 2 → issuedBy state.joins rank = 1 := by
    intro rank nonneg lt
    rw [joins]
    rcases (by omega : rank = 0 ∨ rank = 1) with rfl | rfl <;> rfl
  refine (completes_iff (by omega) le_rfl (reached_of_trial run) once).mpr
    (Or.inl ⟨rfl, le_rfl, ?_⟩)
  rw [joins]
  refine orderly_concat.mpr ⟨orderly_concat.mpr ⟨orderly_nil, ?_⟩, ?_⟩
  · intro rank _ _
    exact Nat.zero_le _
  · intro rank _ _
    exact Nat.zero_le _

/-- The hosts part with different colors; the left host is then the only rank of its communicator
and never hears of the next split. -/
theorem not_completes_of_onlyRank :
    ∃ messages state, Reached (.plain 20) true 1 (numbered 1) messages state ∧
      (∀ rank : ℤ, 0 ≤ rank → rank < 1 → issuedBy state.joins rank = 1) ∧ state.replies = [] ∧
      ¬Completes (numbered 1) state := by
  have read : (trial 1 (numbered 1) (openComm ++ [splitLeft (numbered 0) 0 0,
      splitRight (numbered 0) 1 0]) [splitLeft (numbered 1) 0 0]).toOption.map
        (fun state => (state.joins, state.replies)) =
      some ([⟨leftThread 0, 0, 0, 0, 0⟩], []) := by decide +kernel
  rcases exists_ok_of_reading read with ⟨state, run, reading⟩
  simp only [Prod.mk.injEq] at reading
  rcases reading with ⟨joins, replies⟩
  refine ⟨_, state, reached_of_trial run, ?_, replies, ?_⟩
  · intro rank nonneg lt
    rw [joins, (by omega : rank = 0)]
    rfl
  · rintro ⟨answered, _⟩
    have length := answered.length
    rw [joins, replies] at length
    cases length

end Gathering

end Phantora
