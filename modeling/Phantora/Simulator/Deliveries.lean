import Phantora.Simulator.Client

/-!
# What a thread is sent

A thread that waits for no event is sent nothing but the responses to its
initialisations and splits, each when the last rank has joined.
-/

namespace Phantora

open Outcome Ranking

namespace Simulator

/-- The thread waits for no event. -/
def Idle (host : ResponseId) (sim : Simulator) : Prop :=
  ∀ event, sim.syncing event ≠ some host

/-- The responses to a thread. -/
def repliesTo (host : ResponseId) (news : List (ResponseId × Response)) : List Response :=
  (news.filter fun reply => reply.1 = host).map Prod.snd

/-- What is sent to a thread between two states, the first response first. -/
def newTo (host : ResponseId) (sim sim' : Simulator) : List Response :=
  (repliesTo host (sim'.sent.take (sim'.sent.length - sim.sent.length))).reverse

/-- The ranks that are missing, if some rank has joined. -/
def missing (call : CommCall) (sim : Simulator) : Option (Finset ℤ) :=
  match call with
  | .init id => (sim.initWaiting id).map InitWaiting.waitingFor
  | .split id => (sim.splitWaiting id).map SplitWaiting.waitingFor

/-- The thread has joined as this rank, or as none. -/
def Place (host : ResponseId) (call : CommCall) (sim : Simulator) (place : Option ℤ) : Prop :=
  match call with
  | .init id =>
      match sim.initWaiting id with
      | none => place = none
      | some waiting =>
          ∀ rank, (waiting.joinedRanks rank).map Prod.fst = some host ↔ place = some rank
  | .split id =>
      match sim.splitWaiting id with
      | none => place = none
      | some waiting =>
          (waiting.joinedRanks.filter fun entry => entry.2.host = host).map Prod.fst = place.toList

/-- The ranks that have joined are the same. -/
def TableKept (call : CommCall) (sim sim' : Simulator) : Prop :=
  match call with
  | .init id => sim'.initWaiting id = sim.initWaiting id
  | .split id => sim'.splitWaiting id = sim.splitWaiting id

variable {env : Environment} {asks : ResponseId → Option ResponseId → Prop}
    {host sender : ResponseId}
  {call : CommCall} {rank : ℤ} {place place' : Option ℤ} {sim middle sim' : Simulator}
  {message : Message}

theorem TableKept.missing (kept : TableKept call sim sim') : missing call sim' =
    missing call sim := by
  cases call with
  | init id => exact congrArg (Option.map InitWaiting.waitingFor) kept
  | split id => exact congrArg (Option.map SplitWaiting.waitingFor) kept

theorem TableKept.place_iff (kept : TableKept call sim sim') :
    Place host call sim' place ↔ Place host call sim place := by
  cases call with
  | init id =>
      simp only [Place]
      rw [show sim'.initWaiting id = sim.initWaiting id from kept]
  | split id =>
      simp only [Place]
      rw [show sim'.splitWaiting id = sim.splitWaiting id from kept]

theorem repliesTo_append (news more : List (ResponseId × Response)) :
    repliesTo host (news ++ more) = repliesTo host news ++ repliesTo host more := by
  rw [repliesTo, List.filter_append, List.map_append]
  rfl

theorem repliesTo_singleton_ne {other : ResponseId} {response : Response} (differs : other ≠ host) :
    repliesTo host [(other, response)] = [] := by
  simp [repliesTo, differs]

theorem newTo_of_append (news : List (ResponseId × Response))
    (sent : sim'.sent = news ++ sim.sent) : newTo host sim sim' =
    (repliesTo host news).reverse := by
  have count : (news ++ sim.sent).length - sim.sent.length = news.length := by simp
  rw [newTo, sent, count, List.take_left]

/-- The thread still waits for no event and is sent nothing. -/
structure Passes (host : ResponseId) (sim sim' : Simulator) : Prop where
  idle : Idle host sim'
  sent : ∃ news, sim'.sent = news ++ sim.sent ∧ repliesTo host news = []

theorem Passes.refl (idle : Idle host sim) : Passes host sim sim :=
  ⟨idle, [], rfl, rfl⟩

theorem Passes.trans (first : Passes host sim middle) (second : Passes host middle sim') :
    Passes host sim sim' := by
  rcases first.sent with ⟨news, sent, silent⟩
  rcases second.sent with ⟨news', sent', silent'⟩
  refine ⟨second.idle, news' ++ news, ?_, ?_⟩
  · rw [sent', sent, List.append_assoc]
  · rw [repliesTo_append, silent, silent']
    rfl

theorem Passes.newTo (passes : Passes host sim sim') : newTo host sim sim' = [] := by
  rcases passes.sent with ⟨news, sent, silent⟩
  rw [newTo_of_append news sent, silent]
  rfl

/-- What is sent after the thread has been passed by. -/
theorem Passes.newTo_append (passes : Passes host sim middle) (news : List (ResponseId × Response))
    (sent : sim'.sent = news ++ middle.sent) :
    Simulator.newTo host sim sim' = (repliesTo host news).reverse := by
  rcases passes.sent with ⟨earlier, sent', silent⟩
  rw [newTo_of_append (news ++ earlier) (by rw [sent, sent', List.append_assoc]),
    repliesTo_append, silent, List.append_nil]

theorem Passes.of_same (idle : Idle host sim) (syncing : sim'.syncing = sim.syncing)
    (sent : sim'.sent = sim.sent) : Passes host sim sim' :=
  ⟨fun event => syncing ▸ idle event, [], sent, rfl⟩

theorem reportEnd_passes (idle : Idle host sim) (id : EventId) (time : ℤ) :
    Passes host sim (sim.reportEnd id time) := by
  simp only [reportEnd]
  split
  · rename_i waiter parked
    have differs : waiter ≠ host := fun same => idle id (same ▸ parked)
    refine ⟨?_, [(waiter, .sync time)], rfl, repliesTo_singleton_ne differs⟩
    intro event known
    simp only [sendSyncResponseTo, sendResponseTo, note, updateHostSync, Function.update_apply]
      at known
    split at known
    · exact absurd known.symm (Option.some_ne_none _)
    · exact idle event known
  · exact .of_same idle rfl rfl

theorem awaitEvent_passes (idle : Idle host sim) (differs : sender ≠ host) (event : EventId) :
    Idle host (sim.awaitEvent sender event) := by
  intro other known
  simp only [awaitEvent, Function.update_apply] at known
  split at known
  · exact differs (Option.some.inj known)
  · exact idle other known

/-- An act of others passes the thread by. -/
theorem Act.passes (act : Act env asks sim sim') (apart : ∀ found, ¬asks host found)
    (idle : Idle host sim) :
    Passes host sim sim' := by
  have differs : ∀ {other found}, asks other found → other ≠ host :=
    fun asked same => apart _ (same ▸ asked)
  cases act with
  | book books => exact .of_same idle books.syncing books.sent
  | add => exact .of_same idle rfl rfl
  | depend => exact .of_same idle rfl rfl
  | free => exact .of_same idle rfl rfl
  | peek => exact .of_same idle rfl rfl
  | @execute step queue executed =>
      cases step with
      | emptyQueue => exact .of_same idle rfl rfl
      | eventStarted id time => exact .of_same idle rfl rfl
      | eventEnded id time =>
          have queued : Passes host sim { sim with queue := queue } := .of_same idle rfl rfl
          exact queued.trans (reportEnd_passes queued.idle id time)
      | reachedPoint id time =>
          have queued : Passes host sim { sim with queue := queue } := .of_same idle rfl rfl
          exact queued.trans (reportEnd_passes queued.idle id time)
  | await asked => exact ⟨awaitEvent_passes idle (differs asked) _, [], rfl, rfl⟩
  | park asked => exact ⟨awaitEvent_passes idle (differs asked) _, [], rfl, rfl⟩
  | answer asked => exact ⟨idle, _, rfl, repliesTo_singleton_ne (differs asked)⟩
  | @poll _ _ _ ready asked =>
      cases ready with
      | none => exact ⟨idle, [_], rfl, repliesTo_singleton_ne (differs asked)⟩
      | some reply => exact ⟨idle, [_], rfl, repliesTo_singleton_ne (differs asked)⟩

theorem Acts.passes (acts : Acts env asks sim sim') (apart : ∀ found, ¬asks host found)
    (idle : Idle host sim) :
    Passes host sim sim' :=
  acts.invariant (Passes host sim)
    (fun earlier act => earlier.trans (act.passes apart earlier.idle)) (.refl idle)

theorem handle_tableKept (named : Named sim) (other : ∀ rank, message.joins? ≠ some (call, rank))
    (run : sim.handle env message = .ok sim') : TableKept call sim sim' := by
  cases call with
  | init id =>
      apply Rendezvous.handle_initWaiting named _ run
      rw [Option.eq_none_iff_forall_ne_some]
      intro join joins
      cases message with
      | torch call => cases joins
      | exit host time => cases joins
      | cuda msg =>
          rcases msg with ⟨host, time, call⟩
          cases call with
          | ncclCommInitRank device rank nranks id' =>
              simp only [Message.initJoin?] at joins
              split at joins
              · rename_i same
                exact other rank (same ▸ rfl)
              · cases joins
          | _ => cases joins
  | split id =>
      apply Gathering.handle_splitWaiting named _ run
      rw [Option.eq_none_iff_forall_ne_some]
      intro join joins
      cases message with
      | torch call => cases joins
      | exit host time => cases joins
      | cuda msg =>
          rcases msg with ⟨host, time, call⟩
          cases call with
          | ncclCommSplit comm color key =>
              simp only [Message.splitJoin?] at joins
              split at joins
              · rename_i same
                exact other comm.rank (same ▸ rfl)
              · cases joins
          | _ => cases joins

theorem runTo_passes (idle : Idle host sim) {node : HostId} {time : ℤ} {stopped : Bool}
    (run : executeToTime env time env.fuel (sim.updateHostCurr node time) = .ok (middle, stopped)) :
    Passes host sim middle := by
  have updated : Passes host sim (sim.updateHostCurr node time) := .of_same idle rfl rfl
  exact updated.trans ((executeToTime_acts run).passes (fun _ => id) updated.idle)

/-- A thread that asks for nothing goes on waiting for nothing. -/
theorem handle_idle (named : Named sim) (idle : Idle host sim) (apart : ¬message.AskedBy host)
    (run : sim.handle env message = .ok sim') : Idle host sim' := by
  by_cases manages : message.Manages
  · rcases handle_eq_ok run with ⟨final, dispatched, rfl⟩
    cases message with
    | torch call => exact absurd manages (fun false => false)
    | exit host time => exact absurd manages (fun false => false)
    | cuda msg =>
        rcases msg with ⟨sender, time, call⟩
        simp only [dispatch, handleCudaCall] at dispatched
        cases call with
        | ncclGetUniqueId =>
            simp only [Except.ok.injEq] at dispatched
            exact dispatched ▸ idle
        | ncclCommInitRank device rank nranks id =>
            rcases Rendezvous.ncclCommInitRank_inits dispatched with ⟨middle, _, executed, inits⟩
            have passed := (runTo_passes idle executed).idle
            cases inits with
            | first _ same => exact same ▸ passed
            | next _ _ same => exact same ▸ passed
            | last _ _ _ same => exact same ▸ passed
        | ncclCommSplit comm color key =>
            rcases ncclCommSplit_splitRank dispatched with ⟨middle, _, executed, rfl⟩
            have passed := (runTo_passes idle executed).idle
            cases splitRank_splits env middle sender time comm color key with
            | unknown _ same => exact same ▸ passed
            | first _ _ same => exact same ▸ passed
            | next _ _ _ _ same => exact same ▸ passed
            | last _ _ _ _ _ _ same => exact same ▸ passed
        | _ => exact absurd manages (fun false => false)
  · exact ((handle_advances named manages run).acts.passes (fun _ asked => apart asked.1) idle).idle

/-- A message that joins nothing and by which the thread asks for nothing sends it nothing. -/
theorem handle_newTo (named : Named sim) (idle : Idle host sim) (joins : message.joins? = none)
    (apart : ¬message.AskedBy host) (issues : message.sender ≠ host ∨ ¬message.Manages)
    (run : sim.handle env message = .ok sim') : newTo host sim sim' = [] := by
  by_cases manages : message.Manages
  · rcases handle_eq_ok run with ⟨final, dispatched, rfl⟩
    cases message with
    | torch call => exact absurd manages (fun false => false)
    | exit host time => exact absurd manages (fun false => false)
    | cuda msg =>
        rcases msg with ⟨sender, time, call⟩
        simp only [dispatch, handleCudaCall] at dispatched
        cases call with
        | ncclGetUniqueId =>
            simp only [Except.ok.injEq] at dispatched
            subst dispatched
            have differs : sender ≠ host := issues.resolve_right (not_not_intro manages)
            rw [newTo_of_append [(sender, .uniqueId sim.ncclUniqueId)] (by rfl),
              repliesTo_singleton_ne differs]
            rfl
        | ncclCommInitRank device rank nranks id => cases joins
        | ncclCommSplit comm color key => cases joins
        | _ => exact absurd manages (fun false => false)
  · exact ((handle_advances named manages run).acts.passes
      (fun _ asked => apart asked.1) idle).newTo

/-- How the place of the thread changes when a thread joins: the thread itself had none, another
thread does not take its place. -/
def Moves (host sender : ResponseId) (rank : ℤ) (place place' : Option ℤ) : Prop :=
  (sender = host ∧ place = none ∧ place' = some rank) ∨
    (sender ≠ host ∧ place ≠ some rank ∧ place' = place)

theorem Moves.table (moves : Moves host sender rank place place')
    (table : ℤ → Option (ResponseId × ℤ))
    (placed : ∀ other, (table other).map Prod.fst = some host ↔ place = some other)
    (device other : ℤ) :
    (Function.update table rank (some (sender, device)) other).map Prod.fst = some host ↔
      place' = some other := by
  rw [Function.update_apply]
  rcases moves with ⟨rfl, rfl, rfl⟩ | ⟨differs, elsewhere, rfl⟩
  · by_cases same : other = rank
    · simp [same]
    · simp [same, placed, Ne.symm same]
  · by_cases same : other = rank
    · subst same
      simp [differs, elsewhere]
    · simp [same, placed]

theorem Moves.entries (moves : Moves host sender rank place place') (waiting : SplitWaiting)
    (placed : (waiting.joinedRanks.filter fun entry => entry.2.host = host).map Prod.fst =
      place.toList) (hosts : Ranks) (color key : ℤ) :
    ((joinSplit waiting rank (splitInfo hosts sender color key)).joinedRanks.filter
      fun entry => entry.2.host = host).map Prod.fst = place'.toList := by
  have others : ((waiting.joinedRanks.filter fun entry => entry.1 ≠ rank).filter
      fun entry => entry.2.host = host).map Prod.fst = place.toList.filter fun other =>
        other ≠ rank := by
    rw [← placed, List.filter_map, List.filter_comm]
    rfl
  rw [joinSplit, List.filter_append, List.map_append, others]
  rcases moves with ⟨rfl, rfl, rfl⟩ | ⟨differs, elsewhere, rfl⟩
  · simp [splitInfo]
  · cases place' with
    | none => simp [splitInfo, differs]
    | some other =>
        have apart : other ≠ rank := fun same => elsewhere (same ▸ rfl)
        simp [splitInfo, differs, apart]

theorem repliesTo_length (news : List (ResponseId × Response)) :
    (repliesTo host news).length = news.countP fun reply => reply.1 = host := by
  rw [repliesTo, List.length_map, ← List.countP_eq_length_filter]

/-- A thread is one of the members of a complete communicator if it has joined. -/
theorem countP_members {nranks : ℤ} {waiting : InitWaiting} {members : List (ResponseId × ℤ)}
    (found : joinedMembers nranks waiting = .ok members)
    (placed : ∀ other, (waiting.joinedRanks other).map Prod.fst = some host ↔ place = some other)
    (range : ∀ other ∈ place, 0 ≤ other ∧ other < nranks) :
    (members.countP fun member => member.1 = host) = place.toList.length := by
  have counted := congrArg
    (List.countP fun entry : Option (ResponseId × ℤ) => entry.map Prod.fst = some host)
    (Rendezvous.joinedMembers_eq found)
  rw [List.countP_map, List.countP_map] at counted
  have left : (fun entry : Option (ResponseId × ℤ) => decide (entry.map Prod.fst = some host)) ∘
      (some : ResponseId × ℤ → _) = fun member => decide (member.1 = host) := by
    funext member
    simp
  rw [left] at counted
  rw [← counted]
  simp only [Function.comp_def, placed]
  cases place with
  | none => simp
  | some other =>
      rcases range other rfl with ⟨nonneg, lt⟩
      have same : (fun i : ℕ => decide (some other = some (i : ℤ))) = fun i =>
        i == other.toNat := by
        funext i
        rw [Bool.eq_iff_iff, decide_eq_true_iff, beq_iff_eq, Option.some.injEq]
        omega
      rw [same]
      have once : (List.range nranks.toNat).count other.toNat = 1 := by
        apply List.count_eq_one_of_mem List.nodup_range
        rw [List.mem_range]
        omega
      exact once

/-- A thread is answered in a round if it has joined. -/
theorem length_repliesTo_round {hashing : Environment} {stamp : ℕ} {waiting : SplitWaiting}
    {ncclId : NcclId} {time : ℤ} (placed : (waiting.joinedRanks.filter fun entry =>
      entry.2.host = host).map Prod.fst = place.toList) :
    (repliesTo host (Gathering.roundReplies time (splitInfos hashing stamp waiting)
      (newComms ncclId (splitGroups hashing stamp waiting)))).length = place.toList.length := by
  have answers := Gathering.members_roundAnswers hashing stamp waiting ncclId time
  rw [repliesTo_length, (Gathering.roundReplies_perm _ _ _).countP_eq, List.countP_map]
  have members := answers.countP_eq fun info => info.host = host
  rw [List.countP_map] at members
  rw [← placed, List.length_map, ← List.countP_eq_length_filter]
  refine members.trans ?_
  rw [splitInfos, List.countP_map]
  exact (hashing.order_perm stamp waiting.joinedRanks).countP_eq _

/-- What a message that joins does to those who have joined and to a thread. -/
inductive Meets (host : ResponseId) (call : CommCall) (size : Option ℤ) (sender : ResponseId)
    (rank : ℤ) (place' : Option ℤ) (sim sim' : Simulator) : Prop where
  | refused {response : Response} : size = none → TableKept call sim sim' →
      newTo host sim sim' = (if sender = host then [response] else []) → call.Suits response →
      Meets host call size sender rank place' sim sim'
  | first {n : ℤ} : size = some n → missing call sim = none →
      missing call sim' = some (otherRanks n rank) → Place host call sim' place' →
      newTo host sim sim' = [] → Meets host call size sender rank place' sim sim'
  | next {n : ℤ} {ranks : Finset ℤ} : size = some n → missing call sim = some ranks →
      ranks.erase rank ≠ ∅ → missing call sim' = some (ranks.erase rank) →
      Place host call sim' place' → newTo host sim sim' = [] →
      Meets host call size sender rank place' sim sim'
  | last {n : ℤ} {ranks : Finset ℤ} : size = some n → missing call sim = some ranks →
      ranks.erase rank = ∅ → missing call sim' = none →
      (newTo host sim sim').length = place'.toList.length →
      (∀ response ∈ newTo host sim sim', call.Suits response) →
      Meets host call size sender rank place' sim sim'

theorem Meets.count {size : Option ℤ} (meets : Meets host call size sender rank place' sim sim') :
    Meets host call size sender rank place' sim { sim' with handled := sim'.handled + 1 } := by
  cases call with
  | init id =>
      cases meets with
      | refused unknown kept new suits => exact .refused unknown kept new suits
      | first known none waits placed new => exact .first known none waits placed new
      | next known some_ left waits placed new => exact .next known some_ left waits placed new
      | last known some_ full none new suits => exact .last known some_ full none new suits
  | split id =>
      cases meets with
      | refused unknown kept new suits => exact .refused unknown kept new suits
      | first known none waits placed new => exact .first known none waits placed new
      | next known some_ left waits placed new => exact .next known some_ left waits placed new
      | last known some_ full none new suits => exact .last known some_ full none new suits

theorem inits_meets {time device nranks : ℤ} {id : NcclId} (kept : CommsKept sim middle)
    (passes : Passes host sim middle)
    (inits : Rendezvous.Inits middle sender time device rank nranks id sim')
    (placed : Place host (.init id) sim place) (moves : Moves host sender rank place place')
    (range : ∀ other ∈ place', 0 ≤ other ∧ other < nranks) :
    Meets host (.init id) (some nranks) sender rank place' sim sim' := by
  have tables : middle.initWaiting id = sim.initWaiting id := congrFun kept.initWaiting id
  cases inits with
  | first unknown same =>
      subst same
      simp only [Place, tables.symm.trans unknown] at placed
      refine .first rfl ?_ ?_ ?_ passes.newTo
      · simp only [missing, ← tables, unknown, Option.map_none]
      · simp only [missing, Function.update_self, Option.map_some]
      · simp only [Place, Function.update_self]
        refine moves.table (fun _ => none) (fun other => ?_) device
        simp [placed]
  | @next waiting known incomplete same =>
      subst same
      simp only [Place, tables.symm.trans known] at placed
      refine .next rfl ?_ incomplete ?_ ?_ passes.newTo
      · simp only [missing, ← tables, known, Option.map_some]
      · simp only [missing, Function.update_self, Option.map_some]
      · simp only [Place, Function.update_self]
        exact moves.table _ placed device
  | @last waiting members hostTimes known complete found same =>
      simp only [Place, tables.symm.trans known] at placed
      have sent : sim'.sent = (members.map fun member => (member.1, Response.sync time)).reverse ++
          middle.sent := same ▸ rfl
      have news := passes.newTo_append _ sent
      refine .last rfl ?_ complete ?_ ?_ ?_
      · simp only [missing, ← tables, known, Option.map_some]
      · rw [same]
        simp only [missing, Function.update_self, Option.map_none]
      · rw [news, List.length_reverse, repliesTo_length, List.countP_reverse, List.countP_map]
        exact countP_members found (moves.table _ placed device) range
      · intro response mem
        rw [news, List.mem_reverse, repliesTo, List.mem_map] at mem
        rcases mem with ⟨reply, among, rfl⟩
        rcases List.mem_map.mp (List.mem_reverse.mp (List.mem_of_mem_filter among)) with
          ⟨member, _, rfl⟩
        exact ⟨time, rfl⟩

theorem suits_roundReplies {time : ℤ} {infos : List SplitInfo}
    {comms : List (NcclId × List SplitInfo)} {id : NcclId} :
    ∀ reply ∈ Gathering.roundReplies time infos comms, (CommCall.split id).Suits reply.2 := by
  intro reply mem
  rcases List.mem_append.mp mem with told | refused
  · rcases List.mem_map.mp (List.mem_reverse.mp told) with ⟨notice, _, rfl⟩
    exact Or.inl ⟨_, _, _, _, rfl⟩
  · rcases List.mem_map.mp (List.mem_reverse.mp refused) with ⟨info, _, rfl⟩
    exact Or.inr rfl

theorem splits_meets {hashing : Environment} {time color key : ℤ} {comm : NcclComm}
    (kept : CommsKept sim middle) (passes : Passes host sim middle)
    (splits : Splits hashing middle sender time comm color key sim')
    (placed : Place host (.split comm.id) sim place)
    (moves : Moves host sender comm.rank place place') :
    Meets host (.split comm.id) ((CudaCall.ncclCommSplit comm color key).size? sim) sender comm.rank
      place' sim sim' := by
  have tables : middle.splitWaiting comm.id = sim.splitWaiting comm.id :=
    congrFun kept.splitWaiting comm.id
  have groups : middle.commGroups comm.id = sim.commGroups comm.id :=
    congrFun kept.commGroups comm.id
  simp only [CudaCall.size?, ← groups]
  cases splits with
  | unknown untold same =>
      subst same
      have new : newTo host sim (middle.sendResponseTo sender (.split 0 0 unknownNcclId time)) =
          if sender = host then [.split 0 0 unknownNcclId time] else [] := by
        rw [passes.newTo_append [(sender, .split 0 0 unknownNcclId time)] rfl]
        by_cases same : sender = host
        · simp [repliesTo, same]
        · simp [repliesTo, same]
      refine .refused ?_ tables new (Or.inl ⟨_, _, _, _, rfl⟩)
      rw [untold, Option.map_none]
  | @first hosts known unknown same =>
      subst same
      simp only [Place, tables.symm.trans unknown] at placed
      refine .first (n := hosts.length) ?_ ?_ ?_ ?_ passes.newTo
      · rw [known, Option.map_some]
      · simp only [missing, ← tables, unknown, Option.map_none]
      · simp only [missing, Function.update_self, Option.map_some]
      · simp only [Place, Function.update_self]
        exact moves.entries ⟨[], ∅⟩ (by simp [placed]) hosts color key
  | @next hosts waiting joined known waits joins incomplete same =>
      subst joins same
      simp only [Place, tables.symm.trans waits] at placed
      refine .next (n := hosts.length) ?_ ?_ incomplete ?_ ?_ passes.newTo
      · rw [known, Option.map_some]
      · simp only [missing, ← tables, waits, Option.map_some]
      · simp only [missing, Function.update_self, Option.map_some]
        rfl
      · simp only [Place, Function.update_self]
        exact moves.entries waiting placed hosts color key
  | @last hosts waiting joined infos comms hostTimes known waits joins complete infos'
    comms' same =>
      subst joins
      simp only [Place, tables.symm.trans waits] at placed
      have sent : sim'.sent = Gathering.roundReplies time infos comms ++ middle.sent :=
        same ▸ rfl
      have news := passes.newTo_append _ sent
      refine .last (n := hosts.length) ?_ ?_ complete ?_ ?_ ?_
      · rw [known, Option.map_some]
      · simp only [missing, ← tables, waits, Option.map_some]
      · rw [same]
        simp only [missing, Function.update_self, Option.map_none]
      · rw [news, List.length_reverse, infos', comms']
        exact length_repliesTo_round (moves.entries waiting placed hosts color key)
      · intro response mem
        rw [news, List.mem_reverse, repliesTo, List.mem_map] at mem
        rcases mem with ⟨reply, among, rfl⟩
        exact suits_roundReplies reply (List.mem_of_mem_filter among)

/-- What a message does that joins. -/
theorem handle_meets (idle : Idle host sim) (joins : message.joins? = some (call, rank))
    (placed : Place host call sim place) (moves : Moves host message.sender rank place place')
    (range : ∀ n, message.size? sim = some n → ∀ other ∈ place', 0 ≤ other ∧ other < n)
    (run : sim.handle env message = .ok sim') :
    Meets host call (message.size? sim) message.sender rank place' sim sim' := by
  cases message with
  | torch call => cases joins
  | exit host time => cases joins
  | cuda msg =>
      rcases msg with ⟨sender, time, call⟩
      rcases handle_eq_ok run with ⟨final, dispatched, rfl⟩
      cases call with
      | ncclCommInitRank device rank nranks id =>
          cases joins
          rcases Rendezvous.ncclCommInitRank_inits dispatched with ⟨middle, _, executed, inits⟩
          exact (inits_meets (Rendezvous.runTo_commsKept executed)
            (runTo_passes idle executed) inits
            placed moves (range nranks rfl)).count
      | ncclCommSplit comm color key =>
          cases joins
          rcases ncclCommSplit_splitRank dispatched with ⟨middle, _, executed, rfl⟩
          exact (splits_meets (Rendezvous.runTo_commsKept executed) (runTo_passes idle executed)
            (splitRank_splits env middle sender time comm color key) placed moves).count
      | _ => cases joins

end Simulator

end Phantora
