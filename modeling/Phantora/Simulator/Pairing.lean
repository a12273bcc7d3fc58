import Phantora.Simulator.Deliveries

/-!
# Responses to a group

At the end of a group a thread sends its calls and then reads one response for
each initialisation and each split, in the order of the calls. The server
answers a call when the last rank has joined. The responses are those to the
calls exactly when the last ranks join in the order of the calls.
-/

namespace Phantora

open Outcome

/-- A thread ends a group. The number of ranks of a communicator is left out where the server has
not been told of the communicator, which then has a single rank. -/
structure Group where
  host : ResponseId
  caller : NcclCaller
  size : NcclId → Option ℕ

namespace Group

/-- What the end of the group sends and reads. -/
def exchange (group : Group) : Exchange :=
  group.caller.groupEnd.2

/-- The calls whose responses are read, in order. -/
def calls (group : Group) : List CommCall :=
  group.exchange.reads.filterMap fun read => read.joins?.map Prod.fst

/-- The thread joins as this rank. -/
def Owns (group : Group) (call : CommCall) (rank : ℤ) : Prop :=
  ∃ read ∈ group.exchange.reads, read.joins? = some (call, rank)

/-- The group is not inside of another one; its calls are on different communicators, of each of
which the thread has a rank. -/
structure WellFormed (group : Group) : Prop where
  outermost : group.caller.groupCounter ≤ 1
  grouped : ∀ call ∈ group.caller.groupedCalls, call.isGrouped = true
  distinct : (group.calls.map CommCall.id).Nodup
  range : ∀ call rank, group.Owns call rank → 0 ≤ rank ∧ rank < (group.size call.id).getD 1

end Group

/-- A rank has joined. -/
def Joined (call : CommCall) (rank : ℤ) (messages : List Message) : Prop :=
  ∃ message ∈ messages, message.joins? = some (call, rank)

/-- The server while a thread ends a group: what the thread has still to send, and what has been
sent to it, each response with the call that it is to. -/
structure Dialogue where
  sim : Simulator
  toSend : List CudaCall
  inbox : List (Option CommCall × Response)

namespace Dialogue

open Simulator

/-- A message of the thread or of others is handled. A thread that joins one of the communicators
knows its size and its own rank, which is not that of another thread. -/
structure Step (env : Environment) (group : Group) (state : Dialogue) (message : Message)
    (state' : Dialogue) : Prop where
  handled : state.sim.handle env message = .ok state'.sim
  sends : (message.sender ≠ group.host ∧ state'.toSend = state.toSend) ∨
    ∃ time call, message = .cuda ⟨group.host, time, call⟩ ∧ state.toSend = call :: state'.toSend
  inbox : state'.inbox = state.inbox ++ (newTo group.host state.sim state'.sim).map
    fun response => (message.joins?.map Prod.fst, response)
  size : ∀ call rank, message.joins? = some (call, rank) → call ∈ group.calls →
    message.size? state.sim = (group.size call.id).map Nat.cast
  range : ∀ call rank, message.joins? = some (call, rank) → call ∈ group.calls →
    0 ≤ rank ∧ rank < (group.size call.id).getD 1
  others : ∀ call rank, message.joins? = some (call, rank) → message.sender ≠ group.host →
    ¬group.Owns call rank

/-- The thread ends the group: it waits for nothing, and those who have joined before it wait for
it. -/
structure Opens (env : Environment) (group : Group) (state : Dialogue) : Prop where
  reached : ∃ messages, Simulator.Reached env messages state.sim
  idle : Idle group.host state.sim
  absent : ∀ call, Place group.host call state.sim none
  awaited : ∀ call rank, group.Owns call rank →
    ∀ ranks, missing call state.sim = some ranks → rank ∈ ranks
  toSend : state.toSend = group.exchange.sends
  inbox : state.inbox = []

/-- The thread ends the group, and messages of all threads follow, in any order. -/
abbrev Reached (env : Environment) (group : Group) (start : Dialogue) :
    List Message → Dialogue → Prop :=
  Runs.Reached (fun state => state = start ∧ Opens env group state) (Step env group)

/-- Every response that the thread has been sent is one to the call that the thread reads it
for. -/
def Paired (reads : List CudaCall) (inbox : List (Option CommCall × Response)) : Prop :=
  ∀ (k : ℕ) (read : CudaCall) (response : Option CommCall × Response),
    reads[k]? = some read → inbox[k]? = some response →
      ∃ call rank, read.joins? = some (call, rank) ∧ response.1 = some call ∧
        call.Suits response.2

/-- The ranks that have still to join when the group ends. -/
def openRanks (start : Simulator) (call : CommCall) (n : ℕ) : Finset ℤ :=
  (missing call start).getD (allRanks n)

/-- The last of `n` ranks has joined; the first to join is never the last. -/
def Complete (start : Simulator) (call : CommCall) (n : ℕ) (messages : List Message) : Prop :=
  (n = 1 → missing call start ≠ none) ∧ ∀ rank ∈ openRanks start call n, Joined call rank messages

/-- The last rank has joined; a rank that the server refuses is the only one. -/
def Settled (group : Group) (start : Simulator) (call : CommCall)
    (messages : List Message) : Prop :=
  match group.size call.id with
  | none => Joined call 0 messages
  | some n => Complete start call n messages

/-- The calls that have been answered. -/
def answered (state : Dialogue) : List CommCall :=
  state.inbox.filterMap Prod.fst

variable {env : Environment} {group : Group} {start state state' : Dialogue}
  {messages : List Message} {message : Message} {call : CommCall} {rank own : ℤ} {n : ℕ}

theorem exchange_eq (wellFormed : group.WellFormed) :
    group.exchange = NcclCaller.flush group.caller.groupedCalls := by
  have last : group.caller.groupCounter - 1 = 0 := by
    have outermost := wellFormed.outermost
    omega
  simp only [Group.exchange, NcclCaller.groupEnd, if_pos last]

/-- A call that is sent and joins something is one whose response is read. -/
theorem owns_of_sends (wellFormed : group.WellFormed) {sent : CudaCall}
    (mem : sent ∈ group.exchange.sends) (joins : sent.joins? = some (call, rank)) :
    group.Owns call rank := by
  refine ⟨sent, ?_, joins⟩
  rw [exchange_eq wellFormed] at mem ⊢
  rcases List.mem_append.mp mem with single | p2p
  · rcases List.mem_filter.mp single with ⟨isCall, notSingle⟩
    refine List.mem_filter.mpr ⟨isCall, ?_⟩
    cases sent with
    | ncclCommInitRank device rank nranks id =>
        simpa [CudaCall.isP2P, CudaCall.isSingleInit, CudaCall.isResponsed] using notSingle
    | ncclCommSplit comm color key => rfl
    | _ => cases joins
  · split at p2p
    · exact absurd p2p List.not_mem_nil
    · rw [List.mem_singleton.mp p2p] at joins
      cases joins

theorem joins_sends (wellFormed : group.WellFormed) :
    group.exchange.sends.filterMap (fun sent => sent.joins?.map Prod.fst) = group.calls := by
  have p2p : ∀ calls : List CudaCall,
    (if calls.isEmpty then [] else [CudaCall.ncclP2pGroup calls]).filterMap
      (fun sent => sent.joins?.map Prod.fst) = [] := by
    intro calls
    split <;> rfl
  rw [Group.calls, exchange_eq wellFormed, NcclCaller.flush, List.filterMap_append, p2p,
    List.append_nil, List.filterMap_filter, List.filterMap_filter]
  apply List.filterMap_congr
  intro call _
  cases call with
  | ncclCommInitRank device rank nranks id =>
      simp [CudaCall.isP2P, CudaCall.isSingleInit, CudaCall.isResponsed]
  | ncclCommSplit comm color key => rfl
  | _ => simp [CudaCall.joins?]

/-- What is sent asks for nothing and names no communicator. -/
theorem sends_quiet (wellFormed : group.WellFormed) {sent : CudaCall}
    (mem : sent ∈ group.exchange.sends) (joins : sent.joins? = none) :
    ¬sent.Asks ∧ ¬sent.Manages := by
  rw [exchange_eq wellFormed] at mem
  rcases List.mem_append.mp mem with single | p2p
  · have grouped := wellFormed.grouped sent (List.mem_of_mem_filter single)
    cases sent <;> first
      | exact absurd joins (Option.some_ne_none _)
      | exact absurd grouped Bool.false_ne_true
      | exact ⟨id, id⟩
  · split at p2p
    · exact absurd p2p List.not_mem_nil
    · rw [List.mem_singleton.mp p2p]
      exact ⟨id, id⟩

theorem mem_calls_iff : call ∈ group.calls ↔ ∃ rank, group.Owns call rank := by
  rw [Group.calls, List.mem_filterMap]
  constructor
  · rintro ⟨read, mem, joins⟩
    rcases Option.map_eq_some_iff.mp joins with ⟨⟨_, rank⟩, joined, rfl⟩
    exact ⟨rank, read, mem, joined⟩
  · rintro ⟨rank, read, mem, joins⟩
    exact ⟨read, mem, by rw [joins, Option.map_some]⟩

theorem reads_calls (wellFormed : group.WellFormed) :
    group.exchange.reads.map (fun read => read.joins?.map Prod.fst) = group.calls.map some := by
  rw [Group.calls, List.map_filterMap, ← List.filterMap_eq_map]
  apply List.filterMap_congr
  intro read mem
  rw [exchange_eq wellFormed] at mem
  have responsed := (List.mem_filter.mp mem).2
  cases read <;> first
    | rfl
    | exact absurd responsed Bool.false_ne_true

theorem nodup_calls (wellFormed : group.WellFormed) : group.calls.Nodup :=
  .of_map _ wellFormed.distinct

/-- The thread has one rank of every communicator. -/
theorem owns_unique (wellFormed : group.WellFormed) {first second : ℤ}
    (left : group.Owns call first) (right : group.Owns call second) : first = second := by
  rcases left with ⟨read, mem, joins⟩
  rcases right with ⟨read', mem', joins'⟩
  have once : ∀ {reads : List CudaCall},
    (reads.filterMap fun read => read.joins?.map Prod.fst).Nodup →
      read ∈ reads → read' ∈ reads → read = read' := by
    intro reads distinct mem mem'
    induction reads with
    | nil => exact absurd mem List.not_mem_nil
    | cons head reads ih =>
        have later : ∀ {other rank}, other ∈ reads → other.joins? = some (call, rank) →
            call ∈ reads.filterMap fun read => read.joins?.map Prod.fst :=
          fun among joined => List.mem_filterMap.mpr ⟨_, among, by rw [joined, Option.map_some]⟩
        rcases List.mem_cons.mp mem with rfl | among <;> rcases List.mem_cons.mp mem' with
          rfl | among'
        · rfl
        · rw [List.filterMap_cons_some (by rw [joins, Option.map_some])] at distinct
          exact absurd (later among' joins') (List.nodup_cons.mp distinct).1
        · rw [List.filterMap_cons_some (by rw [joins', Option.map_some])] at distinct
          exact absurd (later among joins) (List.nodup_cons.mp distinct).1
        · refine ih (distinct.sublist ?_) among among'
          exact (List.sublist_cons_self head reads).filterMap _
  have same := once (nodup_calls wellFormed) mem mem'
  rw [same, joins'] at joins
  exact (congrArg (fun joined => (Option.map Prod.snd joined)) joins.symm |> Option.some.inj)

theorem joined_concat : Joined call rank (messages ++ [message]) ↔
    Joined call rank messages ∨ message.joins? = some (call, rank) := by
  simp [Joined, or_and_right, exists_or]

/-- A message that does not join the call does not complete it. -/
theorem settled_concat_of_other {sim : Simulator}
    (other : ∀ rank, message.joins? ≠ some (call, rank)) :
    Settled group sim call (messages ++ [message]) ↔ Settled group sim call messages := by
  simp [Settled, Complete, joined_concat, other]

/-- The server before the last rank has joined. -/
structure Waiting (host : ResponseId) (start : Simulator) (messages : List Message)
    (sim : Simulator)
    (call : CommCall) (own : ℤ) (n : ℕ) : Prop where
  untouched : missing call sim = none →
    missing call start = none ∧ ∀ rank, ¬Joined call rank messages
  touched : missing call sim ≠ none →
    missing call start ≠ none ∨ ∃ rank, Joined call rank messages
  ranks : ∀ ranks, missing call sim = some ranks → ∀ rank, rank ∈ ranks ↔
    rank ∈ openRanks start call n ∧ ¬Joined call rank messages
  range : ∀ rank, Joined call rank messages → 0 ≤ rank ∧ rank < n
  absent : ¬Joined call own messages → Place host call sim none
  present : Joined call own messages → Place host call sim (some own)

/-- The server after the last rank has joined: the next round waits for the thread, if there is
one. -/
structure Over (host : ResponseId) (sim : Simulator) (call : CommCall) (own : ℤ) : Prop where
  absent : Place host call sim none
  awaited : ∀ ranks, missing call sim = some ranks → own ∈ ranks

theorem place_of_missing {host : ResponseId} {sim : Simulator} (none_ : missing call sim = none) :
    Place host call sim none := by
  cases call with
  | init id =>
      rw [missing, Option.map_eq_none_iff] at none_
      simp only [Place, none_]
  | split id =>
      rw [missing, Option.map_eq_none_iff] at none_
      simp only [Place, none_]

section Join

variable {host sender : ResponseId} {first sim sim' : Simulator} {place' : Option ℤ}

theorem Waiting.of_kept (waiting : Waiting host first messages sim call own n)
    (kept : TableKept call sim sim') (other : ∀ rank, message.joins? ≠ some (call, rank)) :
    Waiting host first (messages ++ [message]) sim' call own n := by
  have same : ∀ rank, Joined call rank (messages ++ [message]) ↔ Joined call rank messages := by
    intro rank
    simp [joined_concat, other]
  refine ⟨?_, ?_, ?_, ?_, ?_, ?_⟩
  · simpa only [kept.missing, same] using waiting.untouched
  · simpa only [kept.missing, same] using waiting.touched
  · simpa only [kept.missing, same] using waiting.ranks
  · simpa only [same] using waiting.range
  · simpa only [same, kept.place_iff] using waiting.absent
  · simpa only [same, kept.place_iff] using waiting.present

theorem Over.of_kept (isOver : Over host sim call own) (kept : TableKept call sim sim') :
    Over host sim' call own :=
  ⟨kept.place_iff.mpr isOver.absent, by simpa only [kept.missing] using isOver.awaited⟩

/-- The place of the thread, before and after a rank joins. -/
theorem Waiting.moves (waiting : Waiting host first messages sim call own n)
    (joins : message.joins? = some (call, rank))
    (mine : sender = host → rank = own ∧ ¬Joined call own messages)
    (others : sender ≠ host → rank ≠ own) :
    ∃ place place', Place host call sim place ∧ Moves host sender rank place place' ∧
      (Joined call own (messages ++ [message]) → place' = some own) ∧
      (¬Joined call own (messages ++ [message]) → place' = none) := by
  by_cases joined : Joined call own messages
  · have differs : sender ≠ host := fun same => (mine same).2 joined
    have apart : some own ≠ some rank := fun same => others differs (Option.some.inj same).symm
    refine ⟨some own, some own, waiting.present joined, Or.inr ⟨differs, apart, rfl⟩,
      fun _ => rfl, ?_⟩
    exact fun absent => absurd (joined_concat.mpr (Or.inl joined)) absent
  · by_cases same : sender = host
    · rcases mine same with ⟨rfl, _⟩
      refine ⟨none, some rank, waiting.absent joined, Or.inl ⟨same, rfl, rfl⟩, fun _ => rfl, ?_⟩
      exact fun absent => absurd (joined_concat.mpr (Or.inr joins)) absent
    · refine ⟨none, none, waiting.absent joined,
        Or.inr ⟨same, Option.some_ne_none rank |>.symm, rfl⟩, ?_, fun _ => rfl⟩
      intro joined'
      rcases joined_concat.mp joined' with before | now
      · exact absurd before joined
      · rw [joins, Option.some.injEq, Prod.mk.injEq] at now
        exact absurd now.2 (others same)

theorem Waiting.erase (waiting : Waiting host first messages sim call own n)
    (joins : message.joins? = some (call, rank)) {ranks : Finset ℤ}
    (known : missing call sim = some ranks) (other : ℤ) : other ∈ ranks.erase rank ↔
      other ∈ openRanks first call n ∧ ¬Joined call other (messages ++ [message]) := by
  rw [Finset.mem_erase, waiting.ranks ranks known, joined_concat, joins, Option.some.injEq,
    Prod.mk.injEq]
  have swap : rank = other ↔ other = rank := eq_comm
  tauto

/-- A rank joins: it is the last and the thread is answered, or others are still missing. -/
theorem Waiting.meets (waiting : Waiting host first messages sim call own n)
    (awaited : own ∈ openRanks first call n) (ownRange : 0 ≤ own ∧ own < n)
    (range : 0 ≤ rank ∧ rank < n) (joins : message.joins? = some (call, rank))
    (mine : sender = host → rank = own ∧ ¬Joined call own messages)
    (others : sender ≠ host → rank ≠ own)
    (here : Joined call own (messages ++ [message]) → place' = some own)
    (nowhere : ¬Joined call own (messages ++ [message]) → place' = none)
    (meets : Meets host call (some (n : ℤ)) sender rank place' sim sim') :
    (¬Complete first call n (messages ++ [message]) ∧ newTo host sim sim' = [] ∧
      Waiting host first (messages ++ [message]) sim' call own n) ∨
    (Complete first call n (messages ++ [message]) ∧
      (∃ response, newTo host sim sim' = [response] ∧ call.Suits response) ∧
      Over host sim' call own) := by
  have inside : ∀ other, Joined call other (messages ++ [message]) → 0 ≤ other ∧ other < n := by
    intro other joined
    rcases joined_concat.mp joined with before | now
    · exact waiting.range other before
    · rw [joins, Option.some.injEq, Prod.mk.injEq] at now
      exact now.2 ▸ range
  have started : ∃ other, Joined call other (messages ++ [message]) :=
    ⟨rank, joined_concat.mpr (Or.inr joins)⟩
  have continues : ∀ {ranks : Finset ℤ}, missing call sim' = some ranks →
      (∀ other, other ∈ ranks ↔
        other ∈ openRanks first call n ∧ ¬Joined call other (messages ++ [message])) →
      Place host call sim' place' → Waiting host first (messages ++ [message]) sim' call own n := by
    intro ranks waits ranks_iff placed
    refine ⟨fun none_ => absurd (waits.symm.trans none_) (Option.some_ne_none _),
      fun _ => Or.inr started, ?_, inside, fun absent => nowhere absent ▸ placed,
      fun present => here present ▸ placed⟩
    intro ranks' waits'
    rw [← Option.some.inj (waits.symm.trans waits')]
    exact ranks_iff
  cases meets with
  | refused unknown => exact absurd unknown.symm (Option.some_ne_none _).symm
  | @first m known none_ waits placed new =>
      have count := Option.some.inj known
      subst m
      rcases waiting.untouched none_ with ⟨noneFirst, nobody⟩
      have all : openRanks first call n = allRanks n := by rw [openRanks, noneFirst]; rfl
      have ranks_iff : ∀ other, other ∈ otherRanks n rank ↔ other ∈ openRanks first call n ∧
          ¬Joined call other (messages ++ [message]) := by
        intro other
        have swap : rank = other ↔ other = rank := eq_comm
        simp only [otherRanks, Finset.mem_erase, all, joined_concat, nobody, joins,
          Option.some.injEq, Prod.mk.injEq]
        tauto
      refine Or.inl ⟨?_, new, continues waits ranks_iff placed⟩
      rintro ⟨alone, complete⟩
      have two : n ≠ 1 := fun one => alone one noneFirst
      have another : ∃ other : ℤ, other ≠ rank ∧ 0 ≤ other ∧ other < n := by
        by_cases zero : rank = 0
        · exact ⟨1, by omega⟩
        · exact ⟨0, by omega⟩
      rcases another with ⟨other, differs, nonneg, lt⟩
      have isOpen : other ∈ otherRanks n rank :=
        Finset.mem_erase.mpr ⟨differs, mem_allRanks.mpr ⟨nonneg, lt⟩⟩
      exact ((ranks_iff other).mp isOpen).2 (complete other ((ranks_iff other).mp isOpen).1)
  | @next _ ranks _ known left waits placed new =>
      have ranks_iff := waiting.erase joins known
      refine Or.inl ⟨?_, new, continues waits ranks_iff placed⟩
      rintro ⟨_, complete⟩
      rcases Finset.nonempty_iff_ne_empty.mpr left with ⟨other, isMissing⟩
      rcases (ranks_iff other).mp isMissing with ⟨isOpen, absent⟩
      exact absent (complete other isOpen)
  | @last _ ranks _ known full none_ length suits =>
      have ranks_iff := waiting.erase joins known
      have complete : ∀ other ∈ openRanks first call n,
          Joined call other (messages ++ [message]) := by
        intro other isOpen
        by_contra absent
        have isMissing := (ranks_iff other).mpr ⟨isOpen, absent⟩
        rw [full] at isMissing
        exact absurd isMissing (Finset.notMem_empty other)
      refine Or.inr ⟨⟨?_, complete⟩, ?_, place_of_missing none_, ?_⟩
      · intro one noneFirst
        rcases waiting.touched (by simp [known]) with some_ | ⟨other, joined⟩
        · exact some_ noneFirst
        · have inside := waiting.range other joined
          have same : other = own := by omega
          have sent : sender = host := by
            by_contra differs
            exact others differs (by omega)
          exact (mine sent).2 (same ▸ joined)
      · rw [here (complete own awaited), Option.toList_some, List.length_singleton] at length
        rcases List.length_eq_one_iff.mp length with ⟨response, new⟩
        exact ⟨response, new, suits response (by rw [new]; exact List.mem_cons_self)⟩
      · exact fun ranks waits => absurd (none_.symm.trans waits).symm (Option.some_ne_none _)

/-- A later round does not concern the thread. -/
theorem Over.meets (isOver : Over host sim call own) (ownRange : 0 ≤ own ∧ own < n)
    (others : rank ≠ own)
    (meets : Meets host call (some (n : ℤ)) sender rank none sim sim') :
    newTo host sim sim' = [] ∧ Over host sim' call own := by
  cases meets with
  | refused unknown => exact absurd unknown.symm (Option.some_ne_none _).symm
  | @first m known none_ waits placed new =>
      have count := Option.some.inj known
      subst m
      refine ⟨new, placed, ?_⟩
      intro ranks waits'
      rw [← Option.some.inj (waits.symm.trans waits')]
      exact Finset.mem_erase.mpr ⟨Ne.symm others, mem_allRanks.mpr ownRange⟩
  | @next _ ranks _ known left waits placed new =>
      refine ⟨new, placed, ?_⟩
      intro ranks' waits'
      rw [← Option.some.inj (waits.symm.trans waits')]
      exact Finset.mem_erase.mpr ⟨Ne.symm others, isOver.awaited ranks known⟩
  | @last _ ranks _ known full none_ length suits =>
      have isMissing := Finset.mem_erase.mpr ⟨Ne.symm others, isOver.awaited ranks known⟩
      rw [full] at isMissing
      exact absurd isMissing (Finset.notMem_empty own)

end Join

/-- The calls that have been answered are those whose last rank has joined. -/
structure Serves (group : Group) (start : Dialogue) (messages : List Message) (state : Dialogue) :
    Prop where
  named : Named state.sim
  idle : Idle group.host state.sim
  inbox : state.inbox.map Prod.fst = (answered state).map some
  suits : ∀ response ∈ state.inbox, ∀ call, response.1 = some call → call.Suits response.2
  once : (answered state).Nodup
  answered_iff : ∀ call, call ∈ answered state ↔
    call ∈ group.calls ∧ Settled group start.sim call messages
  sends : ∃ sent, sent ++ state.toSend = group.exchange.sends
  unsent : ∀ call ∈ state.toSend, ∀ joined rank, call.joins? = some (joined, rank) →
    ¬Joined joined rank messages
  absent : ∀ call, call ∉ group.calls ∨ group.size call.id = none →
    Place group.host call state.sim none
  waiting : ∀ call own n, group.Owns call own → group.size call.id = some n →
    ¬Settled group start.sim call messages →
      Waiting group.host start.sim messages state.sim call own n
  isOver : ∀ call own n, group.Owns call own → group.size call.id = some n →
    Settled group start.sim call messages → Over group.host state.sim call own

/-- What a step sends to the thread. -/
inductive Delivers (group : Group) (start : Simulator) (messages : List Message) (message : Message)
    (responses : List Response) : Prop where
  | nothing : responses = [] →
      (∀ call ∈ group.calls, Settled group start call (messages ++ [message]) →
        Settled group start call messages) →
      Delivers group start messages message responses
  | response {call : CommCall} {response : Response} : responses = [response] →
      message.joins?.map Prod.fst = some call → call.Suits response → call ∈ group.calls →
      Settled group start call (messages ++ [message]) → ¬Settled group start call messages →
      (∀ other ∈ group.calls, other ≠ call → Settled group start other (messages ++ [message]) →
        Settled group start other messages) →
      Delivers group start messages message responses

theorem joined_mono (joined : Joined call rank messages) :
    Joined call rank (messages ++ [message]) :=
  joined_concat.mpr (Or.inl joined)

theorem Settled.mono {sim : Simulator} (settled : Settled group sim call messages) :
    Settled group sim call (messages ++ [message]) := by
  unfold Settled at settled ⊢
  split at settled
  · exact joined_mono settled
  · exact ⟨settled.1, fun rank isOpen => joined_mono (settled.2 rank isOpen)⟩

theorem Step.answered_eq (step : Step env group state message state') : answered state' =
    answered state ++ ((newTo group.host state.sim state'.sim).map
      fun _ => message.joins?.map Prod.fst).filterMap id := by
  rw [answered, step.inbox, List.filterMap_append, List.filterMap_map]
  rw [List.filterMap_map]
  rfl

theorem Delivers.inbox (serves : Serves group start messages state)
    (step : Step env group state message state')
    (delivers : Delivers group start.sim messages message (newTo group.host state.sim state'.sim)) :
    state'.inbox.map Prod.fst = (answered state').map some ∧
      (∀ response ∈ state'.inbox, ∀ call, response.1 = some call → call.Suits response.2) ∧
      (answered state').Nodup ∧ ∀ call, call ∈ answered state' ↔
        call ∈ group.calls ∧ Settled group start.sim call (messages ++ [message]) := by
  have answers := step.answered_eq
  have inbox := step.inbox
  cases delivers with
  | nothing none_ same =>
      rw [none_, List.map_nil, List.append_nil] at inbox
      rw [none_, List.map_nil, List.filterMap_nil, List.append_nil] at answers
      rw [inbox, answers]
      refine ⟨serves.inbox, serves.suits, serves.once, ?_⟩
      intro call
      rw [serves.answered_iff]
      exact and_congr_right fun isCall => ⟨Settled.mono, same call isCall⟩
  | @response call response new label suits isCall settled unsettled same =>
      rw [new, List.map_singleton, label] at inbox
      rw [new, List.map_singleton, label] at answers
      rw [inbox, answers]
      refine ⟨?_, ?_, ?_, ?_⟩
      · simp [serves.inbox]
      · intro other mem joined isSome
        rcases List.mem_append.mp mem with before | now
        · exact serves.suits other before joined isSome
        · rw [List.mem_singleton.mp now] at isSome ⊢
          exact Option.some.inj isSome ▸ suits
      · refine List.nodup_append.mpr ⟨serves.once, List.nodup_singleton call, ?_⟩
        intro before mem now single same
        rw [same, List.mem_singleton.mp single, serves.answered_iff] at mem
        exact unsettled mem.2
      · intro other
        have split : other ∈ answered state ++ [some call].filterMap id ↔
            other ∈ answered state ∨ other = call := by simp
        rw [split, serves.answered_iff]
        constructor
        · rintro (⟨mem, before⟩ | rfl)
          · exact ⟨mem, before.mono⟩
          · exact ⟨isCall, settled⟩
        · rintro ⟨mem, after⟩
          by_cases equal : other = call
          · exact Or.inr equal
          · exact Or.inl ⟨mem, same other mem equal after⟩

/-- At most one more call is answered. -/
def Answers (state state' : Dialogue) : Prop :=
  answered state' = answered state ∨ ∃ call, answered state' = answered state ++ [call]

theorem Delivers.answers (step : Step env group state message state')
    (delivers : Delivers group start.sim messages message (newTo group.host state.sim state'.sim)) :
    Answers state state' := by
  have answers := step.answered_eq
  cases delivers with
  | nothing none_ _ => exact Or.inl (by simpa [none_] using answers)
  | @response call _ new label _ _ _ _ _ => exact Or.inr ⟨call, by simpa [new, label] using answers⟩

/-- A message of the thread itself is the next call that it sends. -/
theorem Step.issued (step : Step env group state message state')
    (sent : message.sender = group.host) :
    ∃ time call, message = .cuda ⟨group.host, time, call⟩ ∧ state.toSend = call :: state'.toSend :=
  step.sends.resolve_left fun other => other.1 sent

theorem Serves.mem_sends (serves : Serves group start messages state) {sent : CudaCall}
    (mem : sent ∈ state.toSend) : sent ∈ group.exchange.sends := by
  rcases serves.sends with ⟨before, same⟩
  exact same ▸ List.mem_append_right _ mem

/-- The thread asks for nothing and for no identifier. -/
theorem Step.quiet (wellFormed : group.WellFormed) (serves : Serves group start messages state)
    (step : Step env group state message state') : ¬message.AskedBy group.host ∧
      (message.joins? = none → message.sender ≠ group.host ∨ ¬message.Manages) := by
  rcases step.sends with ⟨differs, _⟩ | ⟨time, cuda, rfl, head⟩
  · refine ⟨?_, fun _ => Or.inl differs⟩
    intro asked
    cases message with
    | cuda msg => exact differs asked.2.symm
    | torch call => exact asked
    | exit host time => exact asked
  · have mem : cuda ∈ group.exchange.sends := serves.mem_sends (head ▸ List.mem_cons_self)
    cases joins : cuda.joins? with
    | none =>
        rcases sends_quiet wellFormed mem joins with ⟨asks, manages⟩
        exact ⟨fun asked => asks asked.1, fun _ => Or.inr manages⟩
    | some joined =>
        refine ⟨?_, fun none_ => absurd (none_.symm.trans joins).symm (Option.some_ne_none _)⟩
        rintro ⟨asks, _⟩
        cases cuda <;> first
          | exact absurd joins.symm (Option.some_ne_none _)
          | exact asks

/-- The thread joins as its rank, once; another thread joins as another rank. -/
theorem Step.joins (wellFormed : group.WellFormed) (serves : Serves group start messages state)
    (step : Step env group state message state') (owns : group.Owns call own)
    (joins : message.joins? = some (call, rank)) :
    (message.sender = group.host → rank = own ∧ ¬Joined call own messages) ∧
      (message.sender ≠ group.host → rank ≠ own) := by
  refine ⟨fun sent => ?_, fun differs same => step.others call rank joins differs (same ▸ owns)⟩
  rcases step.issued sent with ⟨time, cuda, rfl, toSend⟩
  have mem : cuda ∈ state.toSend := toSend ▸ List.mem_cons_self
  have same := owns_unique wellFormed (owns_of_sends wellFormed (serves.mem_sends mem) joins) owns
  exact ⟨same, same ▸ serves.unsent cuda mem call rank joins⟩

/-- The thread sends its calls one after the other. -/
theorem Serves.toSend (wellFormed : group.WellFormed) (serves : Serves group start messages state)
    (step : Step env group state message state') :
    (∃ sent, sent ++ state'.toSend = group.exchange.sends) ∧
      ∀ call ∈ state'.toSend, ∀ joined rank, call.joins? = some (joined, rank) →
        ¬Joined joined rank (messages ++ [message]) := by
  rcases serves.sends with ⟨before, all⟩
  rcases step.sends with ⟨differs, same⟩ | ⟨time, cuda, rfl, head⟩
  · refine ⟨⟨before, by rw [same, all]⟩, ?_⟩
    intro call mem joined rank joins isJoined
    rw [same] at mem
    rcases joined_concat.mp isJoined with earlier | now
    · exact serves.unsent call mem joined rank joins earlier
    · exact step.others joined rank now differs
        (owns_of_sends wellFormed (serves.mem_sends mem) joins)
  · refine ⟨⟨before ++ [cuda], by rw [← all, head, List.append_assoc]; rfl⟩, ?_⟩
    intro call mem joined rank joins isJoined
    have later : call ∈ state.toSend := head ▸ List.mem_cons_of_mem _ mem
    rcases joined_concat.mp isJoined with earlier | now
    · exact serves.unsent call later joined rank joins earlier
    · have distinct := nodup_calls wellFormed
      rw [← joins_sends wellFormed, ← all, head, List.filterMap_append] at distinct
      have rest := (List.nodup_append.mp distinct).2.1
      rw [List.filterMap_cons_some (b := joined)
        (by rw [show cuda.joins? = _ from now]; rfl)] at rest
      exact (List.nodup_cons.mp rest).1
        (List.mem_filterMap.mpr ⟨call, mem, by rw [joins, Option.map_some]⟩)

theorem Opens.open (wellFormed : group.WellFormed) (opens : Opens env group start)
    (owns : group.Owns call own) (size : group.size call.id = some n) :
    own ∈ openRanks start.sim call n := by
  have range := wellFormed.range call own owns
  rw [size, Option.getD_some] at range
  unfold openRanks
  cases known : missing call start.sim with
  | none => exact mem_allRanks.mpr range
  | some ranks => exact opens.awaited call own owns ranks known

/-- A complete call has been joined by the thread. -/
theorem joined_of_settled (wellFormed : group.WellFormed) (opens : Opens env group start)
    (owns : group.Owns call own) (settled : Settled group start.sim call messages) :
    Joined call own messages := by
  have range := wellFormed.range call own owns
  unfold Settled at settled
  split at settled
  · rename_i unknown
    rw [unknown, Option.getD_none] at range
    rw [(by omega : own = 0)]
    exact settled
  · rename_i n known
    exact settled.2 own (opens.open wellFormed owns known)

theorem serves_start (wellFormed : group.WellFormed) (opens : Opens env group start) :
    Serves group start [] start := by
  rcases opens.reached with ⟨messages, reached⟩
  have nobody : ∀ {call : CommCall} {rank : ℤ}, ¬Joined call rank [] := by simp [Joined]
  have unsettled : ∀ {call own}, group.Owns call own → ¬Settled group start.sim call [] :=
    fun owns settled => nobody (joined_of_settled wellFormed opens owns settled)
  have nothing : answered start = [] := by rw [answered, opens.inbox]; rfl
  refine ⟨named_of_reached reached, opens.idle, ?_, ?_, ?_, ?_, ⟨[], opens.toSend⟩,
    fun _ _ _ _ _ => nobody, fun call _ => opens.absent call, ?_, ?_⟩
  · rw [nothing, opens.inbox]
    rfl
  · rw [opens.inbox]
    exact fun _ mem => absurd mem List.not_mem_nil
  · rw [nothing]
    exact List.nodup_nil
  · intro call
    rw [nothing]
    constructor
    · exact fun mem => absurd mem List.not_mem_nil
    · rintro ⟨isCall, settled⟩
      rcases mem_calls_iff.mp isCall with ⟨own, owns⟩
      exact absurd settled (unsettled owns)
  · intro call own n owns size _
    refine ⟨fun none_ => ⟨none_, fun _ => nobody⟩, Or.inl, ?_, fun _ joined => absurd joined nobody,
      fun _ => opens.absent call, fun joined => absurd joined nobody⟩
    intro ranks known rank
    rw [openRanks, known, Option.getD_some]
    exact ⟨fun mem => ⟨mem, nobody⟩, And.left⟩
  · exact fun call own n owns _ settled => absurd settled (unsettled owns)

/-- What a step does, given what it sends to the thread and what it does to the call it joins. -/
theorem Serves.next (wellFormed : group.WellFormed) (serves : Serves group start messages state)
    (step : Step env group state message state')
    (delivers : Delivers group start.sim messages message (newTo group.host state.sim state'.sim))
    (absent : ∀ call rank, message.joins? = some (call, rank) →
      call ∉ group.calls ∨ group.size call.id = none → Place group.host call state'.sim none)
    (waiting : ∀ call rank own n, message.joins? = some (call, rank) → group.Owns call own →
      group.size call.id = some n → ¬Settled group start.sim call (messages ++ [message]) →
      Waiting group.host start.sim (messages ++ [message]) state'.sim call own n)
    (isOver : ∀ call rank own n, message.joins? = some (call, rank) → group.Owns call own →
      group.size call.id = some n → Settled group start.sim call (messages ++ [message]) →
      Over group.host state'.sim call own) :
    Serves group start (messages ++ [message]) state' ∧ Answers state state' := by
  rcases delivers.inbox serves step with ⟨inbox, suits, once, answered_iff⟩
  rcases serves.toSend wellFormed step with ⟨sends, unsent⟩
  have kept : ∀ call, (∀ rank, message.joins? ≠ some (call, rank)) →
      TableKept call state.sim state'.sim :=
    fun call other => handle_tableKept serves.named other step.handled
  have idle := handle_idle serves.named serves.idle (step.quiet wellFormed serves).1 step.handled
  refine ⟨⟨handle_named serves.named step.handled, idle, inbox, suits, once, answered_iff, sends,
    unsent, ?_, ?_, ?_⟩, delivers.answers step⟩
  · intro call notCall
    by_cases joins : ∃ rank, message.joins? = some (call, rank)
    · rcases joins with ⟨rank, joins⟩
      exact absent call rank joins notCall
    · rw [not_exists] at joins
      exact (kept call joins).place_iff.mpr (serves.absent call notCall)
  · intro call own n owns size unsettled
    by_cases joins : ∃ rank, message.joins? = some (call, rank)
    · rcases joins with ⟨rank, joins⟩
      exact waiting call rank own n joins owns size unsettled
    · rw [not_exists] at joins
      rw [settled_concat_of_other joins] at unsettled
      exact (serves.waiting call own n owns size unsettled).of_kept (kept call joins) joins
  · intro call own n owns size settled
    by_cases joins : ∃ rank, message.joins? = some (call, rank)
    · rcases joins with ⟨rank, joins⟩
      exact isOver call rank own n joins owns size settled
    · rw [not_exists] at joins
      rw [settled_concat_of_other joins] at settled
      exact (serves.isOver call own n owns size settled).of_kept (kept call joins)

/-- A message that joins nothing passes the thread by. -/
theorem Serves.pass (wellFormed : group.WellFormed) (serves : Serves group start messages state)
    (step : Step env group state message state') (joins : message.joins? = none) :
    Serves group start (messages ++ [message]) state' ∧ Answers state state' := by
  rcases step.quiet wellFormed serves with ⟨apart, issues⟩
  have new := handle_newTo serves.named serves.idle joins apart (issues joins) step.handled
  have other : ∀ call rank, message.joins? ≠ some (call, rank) := by
    intro call rank
    rw [joins]
    exact (Option.some_ne_none _).symm
  refine serves.next wellFormed step (.nothing new ?_) ?_ ?_ ?_
  · exact fun call _ settled => (settled_concat_of_other (other call)).mp settled
  · exact fun call rank now => absurd now (other call rank)
  · exact fun call rank _ _ now => absurd now (other call rank)
  · exact fun call rank _ _ now => absurd now (other call rank)

/-- Calls that a message does not join are not completed by it. -/
theorem settled_of_other {sim : Simulator} (joins : message.joins? = some (call, rank))
    {other : CommCall} (differs : other ≠ call)
    (settled : Settled group sim other (messages ++ [message])) :
    Settled group sim other messages := by
  refine (settled_concat_of_other ?_).mp settled
  intro rank' joins'
  rw [joins, Option.some.injEq, Prod.mk.injEq] at joins'
  exact differs joins'.1.symm

theorem joined_call (joins : message.joins? = some (call, rank)) {other : CommCall} {rank' : ℤ}
    (joins' : message.joins? = some (other, rank')) : other = call ∧ rank' = rank := by
  rw [joins, Option.some.injEq, Prod.mk.injEq] at joins'
  exact ⟨joins'.1.symm, joins'.2.symm⟩

/-- Others join a communicator that is not one of the group. -/
theorem Serves.elsewhere (wellFormed : group.WellFormed)
    (serves : Serves group start messages state)
    (step : Step env group state message state') (joins : message.joins? = some (call, rank))
    (notCall : call ∉ group.calls) : Serves group start (messages ++ [message]) state' ∧
    Answers state state' := by
  have differs : message.sender ≠ group.host := by
    intro sent
    rcases step.issued sent with ⟨time, cuda, rfl, head⟩
    have mem : cuda ∈ state.toSend := head ▸ List.mem_cons_self
    exact notCall (mem_calls_iff.mpr ⟨rank, owns_of_sends wellFormed (serves.mem_sends mem) joins⟩)
  have placed := serves.absent call (Or.inl notCall)
  have meets := handle_meets serves.idle joins placed
    (Or.inr ⟨differs, (Option.some_ne_none _).symm, rfl⟩)
    (fun _ _ _ isSome => absurd isSome.symm (Option.some_ne_none _)) step.handled
  have both : newTo group.host state.sim state'.sim = [] ∧
      Place group.host call state'.sim none := by
    cases meets with
    | refused _ kept new => exact ⟨by rw [new, if_neg differs], kept.place_iff.mpr placed⟩
    | first _ _ _ placed new => exact ⟨new, placed⟩
    | next _ _ _ _ placed new => exact ⟨new, placed⟩
    | last _ _ _ none_ length =>
      exact ⟨List.eq_nil_of_length_eq_zero length, place_of_missing none_⟩
  have notOwned : ∀ {other rank' own}, message.joins? = some (other, rank') →
      ¬group.Owns other own := by
    intro other rank' own joins' owns
    rw [(joined_call joins joins').1] at owns
    exact notCall (mem_calls_iff.mpr ⟨own, owns⟩)
  refine serves.next wellFormed step (.nothing both.1 ?_) ?_ ?_ ?_
  · exact fun other isCall settled =>
      settled_of_other joins (fun same => notCall (same ▸ isCall)) settled
  · exact fun other rank' joins' _ => (joined_call joins joins').1 ▸ both.2
  · exact fun other rank' own n joins' owns => absurd owns (notOwned joins')
  · exact fun other rank' own n joins' owns => absurd owns (notOwned joins')

/-- The thread splits a communicator that the server does not know. -/
theorem Serves.refusal (wellFormed : group.WellFormed) (serves : Serves group start messages state)
    (step : Step env group state message state') (joins : message.joins? = some (call, rank))
    (isCall : call ∈ group.calls) (size : group.size call.id = none) :
    Serves group start (messages ++ [message]) state' ∧ Answers state state' := by
  rcases mem_calls_iff.mp isCall with ⟨own, owns⟩
  have ownRange := wellFormed.range call own owns
  have range := step.range call rank joins isCall
  rw [size, Option.getD_none] at ownRange range
  rcases step.joins wellFormed serves owns joins with ⟨mine, others⟩
  have sent : message.sender = group.host := by
    by_contra differs
    exact others differs (by omega)
  rcases mine sent with ⟨rfl, unjoined⟩
  have zero : rank = 0 := by omega
  have placed := serves.absent call (Or.inr size)
  have unknown : message.size? state.sim = none := by
    rw [step.size call rank joins isCall, size]; rfl
  have meets := handle_meets serves.idle joins placed (Or.inl ⟨sent, rfl, rfl⟩)
    (fun _ known => absurd (unknown.symm.trans known).symm (Option.some_ne_none _)) step.handled
  have settled_iff : ∀ messages, Settled group start.sim call messages ↔
    Joined call 0 messages := by
    intro messages
    simp only [Settled, size]
  cases meets with
  | first known => exact absurd (unknown.symm.trans known).symm (Option.some_ne_none _)
  | next known => exact absurd (unknown.symm.trans known).symm (Option.some_ne_none _)
  | last known => exact absurd (unknown.symm.trans known).symm (Option.some_ne_none _)
  | refused _ kept new suits =>
      rw [if_pos sent] at new
      have sized : ∀ {other rank' n}, message.joins? = some (other, rank') →
          group.size other.id ≠ some n := by
        intro other rank' n joins' known
        rw [(joined_call joins joins').1, size] at known
        exact absurd known.symm (Option.some_ne_none _)
      refine serves.next wellFormed step
        (.response new (by rw [joins, Option.map_some]) suits isCall ?_ ?_ ?_) ?_ ?_ ?_
      · exact (settled_iff _).mpr (joined_concat.mpr (Or.inr (zero ▸ joins)))
      · exact fun settled => unjoined (zero ▸ (settled_iff _).mp settled)
      · exact fun other _ differs settled => settled_of_other joins differs settled
      · exact fun other rank' joins' _ => (joined_call joins joins').1 ▸ kept.place_iff.mpr placed
      · exact fun other rank' own n joins' _ known => absurd known (sized joins')
      · exact fun other rank' own n joins' _ known => absurd known (sized joins')

/-- A rank joins one of the communicators of the group. -/
theorem Serves.join (wellFormed : group.WellFormed) (opens : Opens env group start)
    (serves : Serves group start messages state) (step : Step env group state message state')
    (joins : message.joins? = some (call, rank)) (isCall : call ∈ group.calls)
    (size : group.size call.id = some n) : Serves group start (messages ++ [message]) state' ∧
    Answers state state' := by
  rcases mem_calls_iff.mp isCall with ⟨own, owns⟩
  have ownRange := wellFormed.range call own owns
  have range := step.range call rank joins isCall
  have known := step.size call rank joins isCall
  rw [size, Option.getD_some] at ownRange range
  rw [size, Option.map_some] at known
  rcases step.joins wellFormed serves owns joins with ⟨mine, others⟩
  have settled_iff : ∀ messages,
      Settled group start.sim call messages ↔ Complete start.sim call n messages := by
    intro messages
    simp only [Settled, size]
  have excluded : ∀ other rank', message.joins? = some (other, rank') →
      other ∉ group.calls ∨ group.size other.id = none →
        Place group.host other state'.sim none := by
    intro other rank' joins' notCall
    rw [(joined_call joins joins').1, size] at notCall
    exact absurd notCall (by simp [isCall])
  have sole : ∀ {other rank' own' m}, message.joins? = some (other, rank') → group.Owns other own' →
      group.size other.id = some m → other = call ∧ own' = own ∧ m = n := by
    intro other rank' own' m joins' owns' size'
    rcases joined_call joins joins' with ⟨rfl, _⟩
    exact ⟨rfl, owns_unique wellFormed owns' owns, Option.some.inj (size'.symm.trans size)⟩
  by_cases settled : Settled group start.sim call messages
  · have joined := joined_of_settled wellFormed opens owns settled
    have differs : message.sender ≠ group.host := fun sent => (mine sent).2 joined
    have isOver := serves.isOver call own n owns size settled
    have meets := handle_meets serves.idle joins isOver.absent
      (Or.inr ⟨differs, (Option.some_ne_none _).symm, rfl⟩)
      (fun _ _ _ isSome => absurd isSome.symm (Option.some_ne_none _)) step.handled
    rw [known] at meets
    rcases isOver.meets ownRange (others differs) meets with ⟨new, isOver⟩
    refine serves.next wellFormed step (.nothing new ?_) excluded ?_ ?_
    · intro other _ settled'
      by_cases same : other = call
      · exact same ▸ settled
      · exact settled_of_other joins same settled'
    · intro other rank' own' m joins' owns' size' unsettled
      rcases sole joins' owns' size' with ⟨rfl, rfl, rfl⟩
      exact absurd settled.mono unsettled
    · intro other rank' own' m joins' owns' size' _
      rcases sole joins' owns' size' with ⟨rfl, rfl, rfl⟩
      exact isOver
  · have waiting := serves.waiting call own n owns size settled
    rcases waiting.moves joins mine others with ⟨place, place', placed, moves, here, nowhere⟩
    have inside : ∀ m, message.size? state.sim = some m → ∀ other ∈ place', 0 ≤ other ∧
      other < m := by
      intro m isSize other mem
      rw [known, Option.some.injEq] at isSize
      by_cases joined : Joined call own (messages ++ [message])
      · rw [here joined, Option.mem_some_iff] at mem
        omega
      · rw [nowhere joined] at mem
        exact absurd mem.symm (Option.some_ne_none _)
    have meets := handle_meets serves.idle joins placed moves inside step.handled
    rw [known] at meets
    rcases waiting.meets (opens.open wellFormed owns size) ownRange range joins mine
      others here nowhere
      meets with ⟨incomplete, new, waiting⟩ | ⟨complete, ⟨response, new, suits⟩, isOver⟩
    · refine serves.next wellFormed step (.nothing new ?_) excluded ?_ ?_
      · intro other _ settled'
        by_cases same : other = call
        · exact absurd ((settled_iff _).mp (same ▸ settled')) incomplete
        · exact settled_of_other joins same settled'
      · intro other rank' own' m joins' owns' size' _
        rcases sole joins' owns' size' with ⟨rfl, rfl, rfl⟩
        exact waiting
      · intro other rank' own' m joins' owns' size' settled'
        rcases sole joins' owns' size' with ⟨rfl, rfl, rfl⟩
        exact absurd ((settled_iff _).mp settled') incomplete
    · refine serves.next wellFormed step (.response new (by rw [joins, Option.map_some]) suits
        isCall ((settled_iff _).mpr complete) settled ?_) excluded ?_ ?_
      · exact fun other _ differs settled' => settled_of_other joins differs settled'
      · intro other rank' own' m joins' owns' size' unsettled
        rcases sole joins' owns' size' with ⟨rfl, rfl, rfl⟩
        exact absurd ((settled_iff _).mpr complete) unsettled
      · intro other rank' own' m joins' owns' size' _
        rcases sole joins' owns' size' with ⟨rfl, rfl, rfl⟩
        exact isOver

theorem Serves.step (wellFormed : group.WellFormed) (opens : Opens env group start)
    (serves : Serves group start messages state) (step : Step env group state message state') :
    Serves group start (messages ++ [message]) state' ∧ Answers state state' := by
  cases joins : message.joins? with
  | none => exact serves.pass wellFormed step joins
  | some joined =>
      rcases joined with ⟨call, rank⟩
      by_cases isCall : call ∈ group.calls
      · cases size : group.size call.id with
        | none => exact serves.refusal wellFormed step joins isCall size
        | some n => exact serves.join wellFormed opens step joins isCall size
      · exact serves.elsewhere wellFormed step joins isCall

theorem serves_of_reached (wellFormed : group.WellFormed)
    (reached : Reached env group start messages state) :
    Opens env group start ∧ Serves group start messages state := by
  refine reached.invariant
    (fun messages state => Opens env group start ∧ Serves group start messages state) ?_ ?_
  · rintro state ⟨rfl, opens⟩
    exact ⟨opens, serves_start wellFormed opens⟩
  · rintro messages state message state' ⟨opens, serves⟩ step
    exact ⟨opens, (serves.step wellFormed opens step).1⟩

/-- The responses are to the calls exactly when the calls answered are an initial part of those
read. -/
theorem paired_iff_isPrefix (wellFormed : group.WellFormed)
    (serves : Serves group start messages state) :
    Paired group.exchange.reads state.inbox ↔ (answered state).IsPrefix group.calls := by
  have reads : ∀ k : ℕ, (group.exchange.reads[k]?).map (fun read => read.joins?.map Prod.fst) =
      (group.calls[k]?).map some := by
    intro k
    rw [← List.getElem?_map, ← List.getElem?_map, reads_calls wellFormed]
  have inbox : ∀ k : ℕ, (state.inbox[k]?).map Prod.fst = ((answered state)[k]?).map some := by
    intro k
    rw [← List.getElem?_map, ← List.getElem?_map, serves.inbox]
  have short : (answered state).length ≤ group.calls.length :=
    (serves.once.subperm fun call mem => ((serves.answered_iff call).mp mem).1).length_le
  rw [List.prefix_iff_getElem?]
  constructor
  · intro paired k lt
    have read := reads k
    have label := inbox k
    rw [List.getElem?_eq_getElem (lt.trans_le short), Option.map_some,
      Option.map_eq_some_iff] at read
    rw [List.getElem?_eq_getElem lt, Option.map_some, Option.map_eq_some_iff] at label
    rcases read with ⟨read, isRead, joins⟩
    rcases label with ⟨response, isResponse, label⟩
    rcases paired k read response isRead isResponse with ⟨call, rank, joins', label', _⟩
    rw [joins', Option.map_some, Option.some.injEq] at joins
    rw [label', Option.some.injEq] at label
    rw [List.getElem?_eq_getElem (lt.trans_le short), ← joins, ← label]
  · intro isPrefix k read response isRead isResponse
    have joins := reads k
    have label := inbox k
    rw [isResponse, Option.map_some] at label
    rcases Option.map_eq_some_iff.mp label.symm with ⟨call, isCall, isLabel⟩
    rcases List.getElem?_eq_some_iff.mp isCall with ⟨lt, rfl⟩
    rw [isRead, isPrefix k lt, Option.map_some, Option.map_some, Option.some.injEq,
      Option.map_eq_some_iff] at joins
    rcases joins with ⟨⟨_, rank⟩, joins, rfl⟩
    exact ⟨_, rank, joins, isLabel.symm,
      serves.suits response (List.mem_of_getElem? isResponse) _ isLabel.symm⟩

/-- A thread ends a group of calls on different communicators, and messages of all threads follow
in any order. Every response it has been sent is one to the call that reads it exactly when no call
of the group was answerable before an earlier one was: at no time had all ranks of a later
communicator joined, but not all of an earlier one. -/
theorem paired_iff (wellFormed : group.WellFormed)
    (reached : Reached env group start messages state) :
    Paired group.exchange.reads state.inbox ↔ ∀ before, before.IsPrefix messages →
      ∀ first second, [first, second].Sublist group.calls →
        Settled group start.sim second before → Settled group start.sim first before := by
  rw [paired_iff_isPrefix wellFormed (serves_of_reached wellFormed reached).2]
  refine Runs.Reached.log_isPrefix_iff (nodup_calls wellFormed) ?_ ?_ ?_ reached
  · rintro state ⟨rfl, opens⟩
    rw [answered, opens.inbox]
    rfl
  · intro messages state reached
    have serves := (serves_of_reached wellFormed reached).2
    exact ⟨serves.once, serves.answered_iff⟩
  · intro messages state message state' reached step
    rcases serves_of_reached wellFormed reached with ⟨opens, serves⟩
    exact (serves.step wellFormed opens step).2

instance : Decidable (group.Owns call rank) :=
  inferInstanceAs (Decidable (∃ read ∈ group.exchange.reads, read.joins? = some (call, rank)))

instance : Decidable (Joined call rank messages) :=
  inferInstanceAs (Decidable (∃ message ∈ messages, message.joins? = some (call, rank)))

/-- The left thread ends a group of two splits. -/
def twoSplits : Group where
  host := leftThread 0
  caller := ⟨1, [.ncclCommSplit ⟨0, numbered 0⟩ 0 0, .ncclCommSplit ⟨0, numbered 1⟩ 0 0]⟩
  size := fun _ => some 2

/-- Before, it has initialised each of the two communicators with another thread. -/
def openComms : List Message :=
  [.cuda ⟨rightThread 0, 0, .ncclGetUniqueId⟩, .cuda ⟨rightThread 0, 0, .ncclGetUniqueId⟩,
    .cuda ⟨leftThread 0, 0, .ncclCommInitRank 0 0 2 (numbered 0)⟩,
    .cuda ⟨rightThread 0, 0, .ncclCommInitRank 0 1 2 (numbered 0)⟩,
    .cuda ⟨leftThread 0, 0, .ncclCommInitRank 0 0 2 (numbered 1)⟩,
    .cuda ⟨rightThread 1, 0, .ncclCommInitRank 0 1 2 (numbered 1)⟩]

/-- What the left thread sends. -/
def leftSplits : List Message :=
  [Gathering.splitLeft (numbered 0) 0 0, Gathering.splitLeft (numbered 1) 0 0]

/-- The other thread of the second communicator splits it. -/
def splitSecond : Message :=
  .cuda ⟨rightThread 1, 0, .ncclCommSplit ⟨1, numbered 1⟩ 0 0⟩

/-- A message that joins a communicator may do so. -/
def allow (group : Group) (state : Dialogue) (message : Message) : Except Panic Unit :=
  match message.joins? with
  | some (call, rank) =>
      assert (message.size? state.sim = (group.size call.id).map Nat.cast ∧ 0 ≤ rank ∧
        rank < (group.size call.id).getD 1 ∧
        (message.sender ≠ group.host → ¬group.Owns call rank)) .unknownComm
  | none => .ok ()

/-- Handle a message if it may be sent; the thread itself sends splits only. -/
def tryStep (group : Group) (state : Dialogue) (message : Message) : Except Panic Dialogue := do
  let sim ← state.sim.handle (.plain 20) message
  let inbox := state.inbox ++ (newTo group.host state.sim sim).map
    fun response => (message.joins?.map Prod.fst, response)
  allow group state message
  if message.sender ≠ group.host then return ⟨sim, state.toSend, inbox⟩
  match message, state.toSend with
  | .cuda ⟨_, _, .ncclCommSplit comm color key⟩, .ncclCommSplit comm' color' key' :: rest =>
      assert (comm = comm' ∧ color = color' ∧ key = key') .unknownComm
      return ⟨sim, rest, inbox⟩
  | _, _ => .error .unknownComm

theorem step_of_tryStep (run : tryStep group state message = .ok state') :
    Step (.plain 20) group state message state' := by
  simp only [tryStep, bind_eq_ok] at run
  rcases run with ⟨sim, handled, _, allowed, run⟩
  have known : ∀ call rank, message.joins? = some (call, rank) →
      message.size? state.sim = (group.size call.id).map Nat.cast ∧
      (0 ≤ rank ∧ rank < (group.size call.id).getD 1) ∧
      (message.sender ≠ group.host → ¬group.Owns call rank) := by
    intro call rank joins
    simp only [allow, joins, assert_eq_ok] at allowed
    exact ⟨allowed.1, ⟨allowed.2.1, allowed.2.2.1⟩, allowed.2.2.2⟩
  have step : ∀ {toSend : List CudaCall}, ((message.sender ≠ group.host ∧ toSend = state.toSend) ∨
      ∃ time call, message = .cuda ⟨group.host, time, call⟩ ∧ state.toSend = call :: toSend) →
      Step (.plain 20) group state message ⟨sim, toSend, state.inbox ++
        (newTo group.host state.sim sim).map
          fun response => (message.joins?.map Prod.fst, response)⟩ := by
    intro toSend sends
    exact ⟨handled, sends, rfl, fun call rank joins _ => (known call rank joins).1,
      fun call rank joins _ => (known call rank joins).2.1,
      fun call rank joins => (known call rank joins).2.2⟩
  split at run
  · rename_i differs
    simp only [pure_eq_ok] at run
    exact run ▸ step (Or.inl ⟨differs, rfl⟩)
  · rename_i own
    rw [not_not] at own
    split at run
    · rename_i sender time comm color key comm' color' key' rest head
      simp only [bind_eq_ok, assert_eq_ok, pure_eq_ok] at run
      rcases run with ⟨_, ⟨rfl, rfl, rfl⟩, rfl⟩
      exact step (Or.inr ⟨time, _, own ▸ rfl, head⟩)
    · exact absurd run (by simp)

/-- What a run leaves alone that starts with no rank waiting. -/
theorem rests_of_run {host : ResponseId} {inputs : List Message} {sim sim' : Simulator}
    (named : Named sim) (idle : Idle host sim) (apart : ∀ input ∈ inputs, ¬input.AskedBy host)
    (run : inputs.foldlM (Simulator.handle env) sim = .ok sim') :
    Idle host sim' ∧ ∀ call, (∀ input ∈ inputs, ∀ rank, input.joins? ≠ some (call, rank)) →
      missing call sim' = missing call sim := by
  induction inputs generalizing sim with
  | nil =>
      simp only [List.foldlM_nil, pure_eq_ok] at run
      exact run ▸ ⟨idle, fun _ _ => rfl⟩
  | cons input inputs ih =>
      simp only [List.foldlM_cons, bind_eq_ok] at run
      rcases run with ⟨middle, handled, run⟩
      have first := handle_idle named idle (apart input List.mem_cons_self) handled
      rcases ih (handle_named named handled) first
        (fun input mem => apart input (List.mem_cons_of_mem _ mem)) run with ⟨idle, same⟩
      refine ⟨idle, fun call other => ?_⟩
      rw [same call fun input mem => other input (List.mem_cons_of_mem _ mem)]
      exact (handle_tableKept named (other input List.mem_cons_self) handled).missing

/-- The state when the left thread ends the group, and the one after its messages and others. -/
def trial (others : List Message) : Except Panic (Dialogue × Dialogue) := do
  let sim ← openComms.foldlM (Simulator.handle (.plain 20)) .pair
  assert ((missing (.init (numbered 0)) sim).isNone ∧ (missing (.init (numbered 1)) sim).isNone)
    .unknownComm
  let start : Dialogue := ⟨sim, twoSplits.exchange.sends, []⟩
  let state ← (leftSplits ++ others).foldlM (tryStep twoSplits) start
  return (start, state)

theorem wellFormed_twoSplits : twoSplits.WellFormed := by
  refine ⟨le_rfl, ?_, by decide +kernel, ?_⟩
  · simp [twoSplits, CudaCall.isGrouped]
  · rintro call rank ⟨read, mem, joins⟩
    rcases List.mem_cons.mp mem with rfl | mem
    · cases joins
      exact ⟨le_rfl, by decide⟩
    · rcases List.mem_singleton.mp mem with rfl
      cases joins
      exact ⟨le_rfl, by decide⟩

theorem reached_of_trial {others : List Message} (run : trial others = .ok (start, state)) :
    (∀ call, missing call start.sim = none) ∧
      Reached (.plain 20) twoSplits start (leftSplits ++ others) state := by
  simp only [trial, bind_eq_ok, assert_eq_ok, pure_eq_ok, Prod.mk.injEq] at run
  rcases run with ⟨sim, first, _, ⟨noneLeft, noneRight⟩, final, second, rfl, rfl⟩
  rw [Option.isNone_iff_eq_none] at noneLeft noneRight
  have apart : ∀ input ∈ openComms, ¬input.AskedBy twoSplits.host := by
    simp [openComms, Message.AskedBy, CudaCall.Asks]
  have resting : Idle twoSplits.host Simulator.pair := fun event parked => by
    exact absurd parked.symm (Option.some_ne_none _)
  rcases rests_of_run (named_initial initial_pair) resting apart first with ⟨idle, same⟩
  have closed : ∀ call, missing call sim = none := by
    intro call
    by_cases left : call = .init (numbered 0)
    · exact left ▸ noneLeft
    · by_cases right : call = .init (numbered 1)
      · exact right ▸ noneRight
      · rw [same call]
        · cases call <;> rfl
        · simp only [openComms, List.mem_cons, List.not_mem_nil, or_false]
          rintro input (rfl | rfl | rfl | rfl | rfl | rfl) rank joins
          · cases joins
          · cases joins
          · exact left (by cases joins; rfl)
          · exact left (by cases joins; rfl)
          · exact right (by cases joins; rfl)
          · exact right (by cases joins; rfl)
  refine ⟨closed, Runs.reached_of_foldlM step_of_tryStep ⟨rfl, ?_⟩ second⟩
  exact ⟨⟨openComms, Simulator.reached_of_foldlM initial_pair first⟩, idle,
    fun call => place_of_missing (closed call),
    fun call _ _ ranks known =>
      absurd ((closed call).symm.trans known).symm (Option.some_ne_none _),
    rfl, rfl⟩

/-- The other threads split the communicators in the order of the group. -/
theorem paired_iff_inOrder :
    ∃ start state messages, Reached (.plain 20) twoSplits start messages state ∧
      Paired twoSplits.exchange.reads state.inbox := by
  have read : (trial [Gathering.splitRight (numbered 0) 0 0, splitSecond]).isOk = true := by
    decide +kernel
  cases run : trial [Gathering.splitRight (numbered 0) 0 0, splitSecond] with
  | error panic =>
      rw [run] at read
      cases read
  | ok states =>
      rcases states with ⟨start, state⟩
      rcases reached_of_trial run with ⟨closed, reached⟩
      refine ⟨start, state, _, reached, (paired_iff wellFormed_twoSplits reached).mpr ?_⟩
      intro before isPrefix first second ordered settled
      have calls : twoSplits.calls = [.split (numbered 0), .split (numbered 1)] := rfl
      have ranks : ∀ call, openRanks start.sim call 2 = {0, 1} := by
        intro call
        rw [openRanks, closed]
        rfl
      rw [calls] at ordered
      have same := ordered.eq_of_length rfl
      simp only [List.cons.injEq, and_true] at same
      rcases same with ⟨rfl, rfl⟩
      have joined : Joined (.split (numbered 1)) 1 before := settled.2 1 (by rw [ranks]; decide)
      have whole : before = leftSplits ++ [Gathering.splitRight (numbered 0) 0 0, splitSecond] := by
        rcases List.prefix_concat_iff.mp (List.append_cons .. ▸ isPrefix) with whole | earlier
        · rw [whole, List.append_assoc]
          rfl
        · rcases joined with ⟨message, mem, joins⟩
          have sooner : Joined (.split (numbered 1)) 1
              (leftSplits ++ [Gathering.splitRight (numbered 0) 0 0]) :=
            ⟨message, earlier.subset mem, joins⟩
          exact absurd sooner (by decide +kernel)
      refine ⟨fun one => absurd one (by decide), ?_⟩
      rw [ranks, whole]
      decide +kernel

/-- The other thread of the second communicator is faster: the left thread reads the response to
its second split as that to its first one, and takes the new communicator of the one for that of
the other. -/
theorem not_paired_of_overtaking :
    ∃ start state messages, twoSplits.WellFormed ∧
      Reached (.plain 20) twoSplits start messages state ∧
      state.inbox = [(some (.split (numbered 1)), .split 0 2 (numbered 2) 0),
        (some (.split (numbered 0)), .split 0 2 (numbered 3) 0)] ∧
      ¬Paired twoSplits.exchange.reads state.inbox := by
  have read : (trial [splitSecond, Gathering.splitRight (numbered 0) 0 0]).toOption.map
      (fun states => states.2.inbox) =
        some [(some (.split (numbered 1)), .split 0 2 (numbered 2) 0),
        (some (.split (numbered 0)), .split 0 2 (numbered 3) 0)] := by decide +kernel
  rcases exists_ok_of_reading read with ⟨⟨start, state⟩, run, inbox⟩
  rcases reached_of_trial run with ⟨_, reached⟩
  refine ⟨start, state, _, wellFormed_twoSplits, reached, inbox, ?_⟩
  intro paired
  dsimp only at inbox
  rw [inbox] at paired
  rcases paired 0 _ _ rfl rfl with ⟨call, rank, joins, label, _⟩
  cases joins
  exact absurd label (by decide +kernel)

end Dialogue

end Phantora
