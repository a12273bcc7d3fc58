import Phantora.Lib.Rounds
import Phantora.Simulator.Collectives

/-!
# Matching collective calls

The ranks of a communicator may run any number of collectives ahead of each
other. The waiting instances are the rounds that have begun and are not
complete, so that the first instance that lacks a rank is the one that its call
belongs to. The last rank completes the first of the instances.
-/

namespace Phantora

open Outcome

namespace Simulator

variable {env : Environment} {sim sim' : Simulator} {op : Collective} {id : NcclId}

@[simp]
theorem commBarrier_join (w : CCWaiting) (rank : ℤ) :
    (w.join rank).commBarrier = w.commBarrier := rfl

theorem callers_concat (messages : List Message) (message : Message) :
    callers op id (messages ++ [message]) =
      callers op id messages ++ (message.caller? op id).toList := by
  rw [callers, List.filterMap_append, callers]
  cases known : message.caller? op id <;> simp [known]

/-- The waiting instances are the rounds of the calls that have begun and are not complete, and the
graph leads from the points of the ranks that have joined one to its own points. -/
structure Conducted (op : Collective) (id : NcclId) (n : ℕ) (messages : List Message)
    (sim : Simulator) : Prop where
  ranked : ∀ rank ∈ callers op id messages, rank ∈ allRanks n
  joined : (sim.joins op id).map Join.rank = callers op id messages
  progress : Rounds.Progress (allRanks n) (callers op id messages) (sim.completions op id).length
    (sim.instances op id).length
  waiting : ∀ i w, (sim.waitings op id)[i]? = some w →
    w.joinedRanks = Rounds.members (allRanks n) (callers op id messages)
        ((sim.completions op id).length + i) ∧
      w.waitingFor = allRanks n \ w.joinedRanks
  ascending : (sim.instances op id).Pairwise (· < ·)
  issued : ∀ barrier ∈ sim.instances op id, barrier < sim.queue.eventCounter
  inOrder : ∀ rank, ((sim.joins op id).filter fun join => join.rank = rank).map Join.barrier =
    (sim.instances op id).take ((callers op id messages).count rank)
  gated : ∀ w ∈ sim.waitings op id, ∀ join ∈ sim.joins op id, join.barrier = w.commBarrier →
    sim.queue.Precedes join.streamStart w.commStartMeta ∧
      sim.queue.Precedes w.commEndMeta join.streamEnd
  wired : ∀ completion ∈ sim.completions op id, ∀ join ∈ sim.joins op id,
    join.barrier = completion.barrier → ∀ flow ∈ completion.flows,
      sim.queue.Before join.streamStart flow ∧ sim.queue.Before flow join.streamEnd
  created : (sim.queue.collectiveFlows op id).map Prod.fst =
    (sim.completions op id).flatMap Completion.flows
  flowOrder : ((sim.completions op id).flatMap Completion.flows).Pairwise (· < ·)
  flowsIssued : ∀ flow ∈ (sim.completions op id).flatMap Completion.flows,
    flow < sim.queue.eventCounter

namespace Conducted

variable {n : ℕ} {messages : List Message} {message : Message}

theorem start (initial : Initial sim) (several : 2 ≤ n) : Conducted op id n [] sim := by
  rcases initial with ⟨cluster, setting, hostMapping, rfl⟩
  have nonempty : (allRanks n).Nonempty := ⟨0, mem_allRanks.mpr ⟨by omega, by omega⟩⟩
  have noWaiting : (new (Netsim.Simulator.build cluster setting hostMapping)).waitings op id = [] :=
    rfl
  refine ⟨by simp [callers], rfl, .start nonempty, ?_, List.Pairwise.nil,
    fun _ mem => absurd mem List.not_mem_nil, fun _ => rfl, ?_,
    fun _ mem => absurd mem List.not_mem_nil, rfl, List.Pairwise.nil,
    fun _ mem => absurd mem List.not_mem_nil⟩
  · simp [noWaiting]
  · simp [noWaiting]

/-- A message that is no call of the collective on the communicator. -/
theorem other (conducted : Conducted op id n messages sim)
    (other : message.caller? op id = none) : Conducted op id n (messages ++ [message]) sim := by
  have calls : callers op id (messages ++ [message]) = callers op id messages := by
    rw [callers_concat, other, Option.toList_none, List.append_nil]
  refine ⟨?_, ?_, ?_, ?_, conducted.ascending, conducted.issued, ?_, conducted.gated,
    conducted.wired, conducted.created, conducted.flowOrder, conducted.flowsIssued⟩
  · rw [calls]
    exact conducted.ranked
  · rw [calls]
    exact conducted.joined
  · rw [calls]
    exact conducted.progress
  · rw [calls]
    exact conducted.waiting
  · rw [calls]
    exact conducted.inOrder

/-- The server leaves the collective on the communicator alone. -/
theorem apart (conducted : Conducted op id n messages sim) (apart : Apart op id sim sim') :
    Conducted op id n messages sim' := by
  refine ⟨conducted.ranked, ?_, ?_, ?_, ?_, ?_, ?_, ?_, ?_, ?_, ?_, ?_⟩
  · rw [apart.joins]
    exact conducted.joined
  · rw [apart.completions, apart.instances]
    exact conducted.progress
  · rw [apart.completions, apart.waitings]
    exact conducted.waiting
  · rw [apart.instances]
    exact conducted.ascending
  · rw [apart.instances]
    exact fun barrier mem =>
      (conducted.issued barrier mem).trans_le apart.logs.enlarges.eventCounter
  · rw [apart.joins, apart.instances]
    exact conducted.inOrder
  · rw [apart.waitings, apart.joins]
    intro w mem join inJoins same
    have edges := conducted.gated w mem join inJoins same
    exact ⟨apart.logs.enlarges.precedes edges.1, apart.logs.enlarges.precedes edges.2⟩
  · rw [apart.completions, apart.joins]
    intro completion mem join inJoins same flow inFlows
    have paths := conducted.wired completion mem join inJoins same flow inFlows
    exact ⟨apart.logs.enlarges.before paths.1, apart.logs.enlarges.before paths.2⟩
  · rw [apart.collectiveFlows, apart.completions]
    exact conducted.created
  · rw [apart.completions]
    exact conducted.flowOrder
  · rw [apart.completions]
    exact fun flow mem =>
      (conducted.flowsIssued flow mem).trans_le apart.logs.enlarges.eventCounter

/-- No rank is ahead of the instances. -/
theorem count_le (conducted : Conducted op id n messages sim) (rank : ℤ) :
    (callers op id messages).count rank ≤ (sim.instances op id).length := by
  by_cases called : rank ∈ callers op id messages
  · exact conducted.progress.count_le (conducted.ranked rank called)
  · rw [List.count_eq_zero.mpr called]
    exact Nat.zero_le _

/-- A rank that has joined an instance has joined one of the instances. -/
theorem mem_instances (conducted : Conducted op id n messages sim) {join : Join}
    (mem : join ∈ sim.joins op id) : join.barrier ∈ sim.instances op id := by
  have inFilter : join ∈ (sim.joins op id).filter fun other => other.rank = join.rank :=
    List.mem_filter.mpr ⟨mem, by simp⟩
  have inTake := conducted.inOrder join.rank ▸ List.mem_map_of_mem (f := Join.barrier) inFilter
  exact List.mem_of_mem_take inTake

/-- The next call of a rank joins the next instance. -/
theorem inOrder_join (conducted : Conducted op id n messages sim) {join : Join}
    {instances : List EventId} (isPrefix : sim.instances op id <+: instances)
    (here : instances[(callers op id messages).count join.rank]? = some join.barrier) (rank : ℤ) :
    ((sim.joins op id ++ [join]).filter fun other => other.rank = rank).map Join.barrier =
      instances.take ((callers op id messages ++ [join.rank]).count rank) := by
  have earlier : instances.take ((callers op id messages).count rank) =
      (sim.instances op id).take ((callers op id messages).count rank) := by
    rcases isPrefix with ⟨rest, rfl⟩
    exact List.take_append_of_le_length (conducted.count_le rank)
  rw [List.filter_append, List.map_append, conducted.inOrder rank, ← earlier]
  by_cases same : join.rank = rank
  · subst same
    simp [List.take_add_one, here]
  · simp [same]

theorem length_instances (sim : Simulator) (op : Collective) (id : NcclId) :
    (sim.instances op id).length =
      (sim.completions op id).length + (sim.waitings op id).length := by
  simp [instances]

/-- The first instance that lacks a rank is the round of its next call. -/
theorem findIdx?_waitings (conducted : Conducted op id n messages sim) {rank : ℤ}
    (mem : rank ∈ allRanks n) :
    (sim.waitings op id).findIdx? (fun waiting => rank ∉ waiting.joinedRanks) =
      if (callers op id messages).count rank < (sim.instances op id).length then
        some ((callers op id messages).count rank - (sim.completions op id).length)
      else none := by
  have done := conducted.progress.completed_le mem
  have total := length_instances sim op id
  rw [@Rounds.findIdx?_eq _ _ _
    ((callers op id messages).count rank - (sim.completions op id).length)]
  · congr 1
    simp only [eq_iff_iff]
    omega
  · intro i w here
    rw [(conducted.waiting i w here).1, decide_eq_false_iff_not, not_not, Rounds.mem_members]
    simp only [mem, true_and]
    omega

/-- The waiting instances have different barriers. -/
theorem waiting_inj (conducted : Conducted op id n messages sim) {v w : CCWaiting}
    (left : v ∈ sim.waitings op id) (right : w ∈ sim.waitings op id)
    (same : v.commBarrier = w.commBarrier) : v = w := by
  have ascending := (List.pairwise_append.mp conducted.ascending).2.1
  exact List.inj_on_of_nodup_map (ascending.imp Nat.ne_of_lt) left right same

/-- The waiting instances are later than those that are complete. -/
theorem completed_lt (conducted : Conducted op id n messages sim) {completion : Completion}
    {w : CCWaiting} (complete : completion ∈ sim.completions op id)
    (waits : w ∈ sim.waitings op id) : completion.barrier < w.commBarrier :=
  (List.pairwise_append.mp conducted.ascending).2.2 _ (List.mem_map_of_mem complete) _
    (List.mem_map_of_mem waits)

/-- The calls of the ranks with one more. -/
theorem ranked_concat (conducted : Conducted op id n messages sim) {rank : ℤ}
    (mem : rank ∈ allRanks n) : ∀ other ∈ callers op id messages ++ [rank], other ∈ allRanks n := by
  intro other called
  rcases List.mem_append.mp called with old | new
  · exact conducted.ranked other old
  · exact List.mem_singleton.mp new ▸ mem

/-- The points of the ranks that have joined an instance, one of them now. -/
theorem gated_concat (conducted : Conducted op id n messages sim) {join : Join} {w : CCWaiting}
    (waits : w ∈ sim.waitings op id) (same : join.barrier = w.commBarrier)
    (edges : sim.queue.Precedes join.streamStart w.commStartMeta ∧
      sim.queue.Precedes w.commEndMeta join.streamEnd) :
    ∀ v ∈ sim.waitings op id, ∀ other ∈ sim.joins op id ++ [join],
      other.barrier = v.commBarrier → sim.queue.Precedes other.streamStart v.commStartMeta ∧
        sim.queue.Precedes v.commEndMeta other.streamEnd := by
  intro v mem other joined ofInstance
  rcases List.mem_append.mp joined with old | new
  · exact conducted.gated v mem other old ofInstance
  · rcases List.mem_singleton.mp new
    rw [conducted.waiting_inj mem waits (ofInstance.symm.trans same)]
    exact edges

/-- No rank joins an instance that is complete. -/
theorem wired_concat (conducted : Conducted op id n messages sim) {join : Join}
    (later : ∀ completion ∈ sim.completions op id, completion.barrier < join.barrier) :
    ∀ completion ∈ sim.completions op id, ∀ other ∈ sim.joins op id ++ [join],
      other.barrier = completion.barrier → ∀ flow ∈ completion.flows,
        sim.queue.Before other.streamStart flow ∧ sim.queue.Before flow other.streamEnd := by
  intro completion mem other joined same
  rcases List.mem_append.mp joined with old | new
  · exact conducted.wired completion mem other old same
  · rcases List.mem_singleton.mp new
    exact absurd same (later completion mem).ne'

/-- A rank opens an instance when it has joined all of them. -/
theorem opens (conducted : Conducted op id n messages sim) (several : 1 < n) (join : Join)
    {w : CCWaiting} (mem : join.rank ∈ allRanks n) (caller : message.caller? op id = some join.rank)
    (barrier : join.barrier = w.commBarrier)
    (last : (sim.waitings op id).findIdx? (fun waiting => join.rank ∉ waiting.joinedRanks) = none)
    (later : ∀ barrier ∈ sim.instances op id, barrier < w.commBarrier)
    (issued : w.commBarrier < sim.queue.eventCounter)
    (edges : sim.queue.Precedes join.streamStart w.commStartMeta ∧
      sim.queue.Precedes w.commEndMeta join.streamEnd)
    (joinedRanks : w.joinedRanks = {join.rank}) (waitingFor : w.waitingFor = otherRanks n join.rank)
    (queue : sim'.queue = sim.queue) (joins : sim'.joins op id = sim.joins op id ++ [join])
    (completions : sim'.completions op id = sim.completions op id)
    (waitings : sim'.waitings op id = sim.waitings op id ++ [w]) :
    Conducted op id n (messages ++ [message]) sim' := by
  have calls : callers op id (messages ++ [message]) = callers op id messages ++ [join.rank] := by
    rw [callers_concat, caller, Option.toList_some]
  have total := length_instances sim op id
  have ahead : (callers op id messages).count join.rank = (sim.instances op id).length := by
    have bound := conducted.count_le join.rank
    rw [conducted.findIdx?_waitings mem] at last
    split at last
    · cases last
    · omega
  have instances : sim'.instances op id = sim.instances op id ++ [w.commBarrier] := by
    rw [Simulator.instances, completions, waitings, List.map_append, ← List.append_assoc]
    rfl
  have begins := conducted.progress.begin_round mem (by simpa using several) ahead
  refine ⟨?_, ?_, ?_, ?_, ?_, ?_, ?_, ?_, ?_, ?_, ?_, ?_⟩
  · rw [calls]
    exact conducted.ranked_concat mem
  · rw [calls, joins, List.map_append, conducted.joined]
    rfl
  · rw [calls, completions, instances, List.length_append]
    exact begins.1
  · rw [calls, completions, waitings]
    intro i v here
    by_cases old : i < (sim.waitings op id).length
    · rw [List.getElem?_append_left old] at here
      rw [Rounds.members_concat mem, if_neg (by omega)]
      exact conducted.waiting i v here
    · rw [List.getElem?_append_right (by omega), List.getElem?_singleton] at here
      split at here
      · cases here
        have round : (sim.completions op id).length + i = (sim.instances op id).length := by omega
        rw [round, begins.2, joinedRanks, waitingFor, otherRanks, Finset.erase_eq]
        exact ⟨rfl, rfl⟩
      · cases here
  · rw [instances]
    refine List.pairwise_append.mpr ⟨conducted.ascending, List.pairwise_singleton _ _, ?_⟩
    intro earlier old new isNew
    exact List.mem_singleton.mp isNew ▸ later earlier old
  · rw [instances, queue]
    intro other mem'
    rcases List.mem_append.mp mem' with old | new
    · exact conducted.issued other old
    · exact List.mem_singleton.mp new ▸ issued
  · rw [calls, joins, instances]
    refine conducted.inOrder_join (List.prefix_append _ _) ?_
    rw [ahead, List.getElem?_concat_length, barrier]
  · rw [waitings, joins, queue]
    intro v mem' other joined same
    rcases List.mem_append.mp mem' with old | new
    · rcases List.mem_append.mp joined with early | now
      · exact conducted.gated v old other early same
      · rcases List.mem_singleton.mp now
        have less := later _ (List.mem_append_right _ (List.mem_map_of_mem old))
        exact absurd (barrier.symm.trans same) less.ne'
    · rcases List.mem_singleton.mp new
      rcases List.mem_append.mp joined with early | now
      · exact absurd same (later _ (conducted.mem_instances early)).ne
      · rcases List.mem_singleton.mp now
        exact edges
  · rw [completions, joins, queue]
    refine conducted.wired_concat fun completion complete => barrier ▸ ?_
    exact later _ (List.mem_append_left _ (List.mem_map_of_mem complete))
  · rw [EventQueue.collectiveFlows, queue, completions]
    exact conducted.created
  · rw [completions]
    exact conducted.flowOrder
  · rw [completions, queue]
    exact conducted.flowsIssued

/-- The instance that a rank joins when it lacks the rank. -/
theorem joins_here (conducted : Conducted op id n messages sim) {rank : ℤ} (mem : rank ∈ allRanks n)
    {idx : ℕ} {w : CCWaiting}
    (lacks : (sim.waitings op id).findIdx? (fun waiting => rank ∉ waiting.joinedRanks) = some idx)
    (here : (sim.waitings op id)[idx]? = some w) :
    (sim.completions op id).length + idx = (callers op id messages).count rank ∧
      (callers op id messages).count rank < (sim.instances op id).length ∧
      (sim.instances op id)[(callers op id messages).count rank]? = some w.commBarrier ∧
      (w.join rank).joinedRanks = Rounds.members (allRanks n) (callers op id messages ++ [rank])
          ((callers op id messages).count rank) ∧
      (w.join rank).waitingFor = allRanks n \ (w.join rank).joinedRanks := by
  have done := conducted.progress.completed_le mem
  rw [conducted.findIdx?_waitings mem] at lacks
  split at lacks
  · rename_i begun
    have round : (sim.completions op id).length + idx = (callers op id messages).count rank := by
      have equal := Option.some.inj lacks
      omega
    rcases conducted.waiting idx w here with ⟨joinedRanks, waitingFor⟩
    refine ⟨round, begun, ?_, ?_, ?_⟩
    · rw [instances, ← round, List.getElem?_append_right (by simp)]
      simp [here]
    · rw [CCWaiting.join, joinedRanks, round, Rounds.members_concat mem, if_pos rfl]
    · rw [CCWaiting.join, waitingFor, Finset.sdiff_insert]
  · cases lacks

/-- A rank joins an instance that still lacks another rank. -/
theorem joins_some (conducted : Conducted op id n messages sim) (join : Join) {w : CCWaiting}
    {idx : ℕ} (mem : join.rank ∈ allRanks n) (caller : message.caller? op id = some join.rank)
    (barrier : join.barrier = w.commBarrier)
    (lacks : (sim.waitings op id).findIdx? (fun waiting => join.rank ∉ waiting.joinedRanks) =
      some idx)
    (here : (sim.waitings op id)[idx]? = some w)
    (edges : sim.queue.Precedes join.streamStart w.commStartMeta ∧
      sim.queue.Precedes w.commEndMeta join.streamEnd)
    (incomplete : (w.join join.rank).waitingFor ≠ ∅)
    (queue : sim'.queue = sim.queue) (joins : sim'.joins op id = sim.joins op id ++ [join])
    (completions : sim'.completions op id = sim.completions op id)
    (waitings : sim'.waitings op id = (sim.waitings op id).set idx (w.join join.rank)) :
    Conducted op id n (messages ++ [message]) sim' := by
  have calls : callers op id (messages ++ [message]) = callers op id messages ++ [join.rank] := by
    rw [callers_concat, caller, Option.toList_some]
  have waits : w ∈ sim.waitings op id := List.mem_of_getElem? here
  rcases conducted.joins_here mem lacks here with ⟨round, begun, instance_, joinedRanks, waitingFor⟩
  have instances : sim'.instances op id = sim.instances op id := by
    have same : (sim.waitings op id).map CCWaiting.commBarrier =
        ((sim.waitings op id).set idx (w.join join.rank)).map CCWaiting.commBarrier := by
      rcases List.getElem?_eq_some_iff.mp here with ⟨bound, rfl⟩
      refine (List.map_set.trans ?_).symm
      have length : idx < ((sim.waitings op id).map CCWaiting.commBarrier).length := by
        simpa using bound
      simpa using List.set_getElem_self length
    rw [Simulator.instances, completions, waitings, ← same, Simulator.instances]
  refine ⟨?_, ?_, ?_, ?_, ?_, ?_, ?_, ?_, ?_, ?_, ?_, ?_⟩
  · rw [calls]
    exact conducted.ranked_concat mem
  · rw [calls, joins, List.map_append, conducted.joined]
    rfl
  · rw [calls, completions, instances]
    refine conducted.progress.join_round mem begun fun complete => incomplete ?_
    rw [waitingFor, joinedRanks, complete, Finset.sdiff_self]
  · rw [calls, completions, waitings]
    intro i v found
    by_cases same : i = idx
    · subst same
      rw [List.getElem?_set_self (List.getElem?_eq_some_iff.mp here).1] at found
      cases found
      rw [round]
      exact ⟨joinedRanks, waitingFor⟩
    · rw [List.getElem?_set_ne (Ne.symm same)] at found
      rw [Rounds.members_concat mem, if_neg (by omega)]
      exact conducted.waiting i v found
  · rw [instances]
    exact conducted.ascending
  · rw [instances, queue]
    exact conducted.issued
  · rw [calls, joins, instances]
    exact conducted.inOrder_join List.prefix_rfl (barrier ▸ instance_)
  · rw [waitings, joins, queue]
    intro v mem'
    rcases List.mem_or_eq_of_mem_set mem' with old | rfl
    · exact conducted.gated_concat waits barrier edges v old
    · exact conducted.gated_concat waits barrier edges w waits
  · rw [completions, joins, queue]
    exact conducted.wired_concat fun completion complete =>
      barrier ▸ conducted.completed_lt complete waits
  · rw [EventQueue.collectiveFlows, queue, completions]
    exact conducted.created
  · rw [completions]
    exact conducted.flowOrder
  · rw [completions, queue]
    exact conducted.flowsIssued

/-- The last rank completes the first of the waiting instances. -/
theorem completes (conducted : Conducted op id n messages sim) (join : Join) {w : CCWaiting}
    {idx : ℕ} {flows : List EventId} {call : CudaCall} (mem : join.rank ∈ allRanks n)
    (caller : message.caller? op id = some join.rank) (barrier : join.barrier = w.commBarrier)
    (lacks : (sim.waitings op id).findIdx? (fun waiting => join.rank ∉ waiting.joinedRanks) =
      some idx)
    (here : (sim.waitings op id)[idx]? = some w)
    (edges : sim.queue.Precedes join.streamStart w.commStartMeta ∧
      sim.queue.Precedes w.commEndMeta join.streamEnd)
    (complete : (w.join join.rank).waitingFor = ∅) (called : (call.caller? op id).isSome)
    (length : flows.length = w.trace.length) (ascending : flows.Pairwise (· < ·))
    (fresh : ∀ flow ∈ flows, sim.queue.eventCounter ≤ flow ∧ flow < sim'.queue.eventCounter)
    (enlarges : EventQueue.Enlarges sim.queue sim'.queue)
    (created : ∀ flow ∈ flows, sim'.queue.Precedes w.commStartMeta flow ∧
      sim'.queue.Precedes flow w.commEndMeta)
    (records : sim'.queue.flowRecords =
      sim.queue.flowRecords ++ instanceRecords call flows w.trace)
    (joins : sim'.joins op id = sim.joins op id ++ [join])
    (completions : sim'.completions op id = sim.completions op id ++ [⟨w.commBarrier, flows⟩])
    (waitings : sim'.waitings op id = (sim.waitings op id).eraseIdx idx) :
    Conducted op id n (messages ++ [message]) sim' := by
  have calls : callers op id (messages ++ [message]) = callers op id messages ++ [join.rank] := by
    rw [callers_concat, caller, Option.toList_some]
  have waits : w ∈ sim.waitings op id := List.mem_of_getElem? here
  rcases conducted.joins_here mem lacks here with ⟨round, begun, instance_, joinedRanks, waitingFor⟩
  have whole : Rounds.members (allRanks n) (callers op id messages ++ [join.rank])
      ((callers op id messages).count join.rank) = allRanks n := by
    refine Finset.Subset.antisymm Rounds.members_subset ?_
    rw [← joinedRanks, ← Finset.sdiff_eq_empty_iff_subset, ← waitingFor, complete]
  rcases conducted.progress.finish_round mem begun whole with ⟨first, finished⟩
  have isFirst : idx = 0 := by omega
  subst isFirst
  rcases List.exists_cons_of_ne_nil (List.ne_nil_of_mem waits) with ⟨w', rest, split⟩
  rw [split, List.getElem?_cons_zero, Option.some.injEq] at here
  subst here
  rw [split, List.eraseIdx_cons_zero] at waitings
  have older : ∀ v ∈ sim'.waitings op id, v ∈ sim.waitings op id := by
    rw [waitings, split]
    exact fun v mem' => List.mem_cons_of_mem _ mem'
  have instances : sim'.instances op id = sim.instances op id := by
    rw [Simulator.instances, completions, waitings, Simulator.instances, split]
    simp
  have gates := conducted.gated_concat waits barrier edges
  refine ⟨?_, ?_, ?_, ?_, ?_, ?_, ?_, ?_, ?_, ?_, ?_, ?_⟩
  · rw [calls]
    exact conducted.ranked_concat mem
  · rw [calls, joins, List.map_append, conducted.joined]
    rfl
  · rw [calls, completions, instances, List.length_append]
    exact finished
  · rw [calls, completions, waitings, List.length_append, List.length_singleton]
    intro i v found
    rw [Rounds.members_concat mem, if_neg (by omega), Nat.add_assoc, Nat.add_comm 1 i]
    refine conducted.waiting (i + 1) v ?_
    rw [split, List.getElem?_cons_succ]
    exact found
  · rw [instances]
    exact conducted.ascending
  · rw [instances]
    exact fun other mem' => (conducted.issued other mem').trans_le enlarges.eventCounter
  · rw [calls, joins, instances]
    exact conducted.inOrder_join List.prefix_rfl (barrier ▸ instance_)
  · rw [joins]
    intro v mem' other joined same
    have gate := gates v (older v mem') other joined same
    exact ⟨enlarges.precedes gate.1, enlarges.precedes gate.2⟩
  · rw [completions, joins]
    intro completion mem' other joined same flow inFlows
    rcases List.mem_append.mp mem' with old | new
    · have paths := conducted.wired_concat (fun completion complete =>
        barrier ▸ conducted.completed_lt complete waits) completion old other joined same flow
        inFlows
      exact ⟨enlarges.before paths.1, enlarges.before paths.2⟩
    · rcases List.mem_singleton.mp new
      have gate := gates w' waits other joined same
      have wires := created flow inFlows
      exact ⟨.tail (.single (enlarges.precedes gate.1)) wires.1,
        .tail (.single wires.2) (enlarges.precedes gate.2)⟩
  · have recorded : (instanceRecords call flows w'.trace).filter
        (fun record => (record.2.2.caller? op id).isSome) =
          instanceRecords call flows w'.trace := by
      refine List.filter_eq_self.mpr fun record inRecords => ?_
      rcases List.mem_map.mp inRecords with ⟨_, _, rfl⟩
      exact called
    rw [EventQueue.collectiveFlows, records, List.filter_append, recorded, List.map_append,
      completions, List.flatMap_append]
    congr 1
    · exact conducted.created
    · simp only [instanceRecords, List.map_map, List.flatMap_singleton]
      exact List.map_fst_zip length.le
  · rw [completions, List.flatMap_append, List.flatMap_singleton]
    refine List.pairwise_append.mpr ⟨conducted.flowOrder, ascending, fun early old late new => ?_⟩
    exact (conducted.flowsIssued early old).trans_le (fresh late new).1
  · rw [completions, List.flatMap_append, List.flatMap_singleton]
    intro flow mem'
    rcases List.mem_append.mp mem' with old | new
    · exact (conducted.flowsIssued flow old).trans_le enlarges.eventCounter
    · exact (fresh flow new).2

/-- A collective call of one of the ranks. -/
theorem ncclCall (conducted : Conducted op id n messages sim) (several : 1 < n) {ranks : Ranks}
    {host : HostId} {time : ℤ} {trace : Trace} {comm : NcclComm} {stream : CudaStream}
    {call : CudaCall} (same : comm.id = id) (mem : comm.rank ∈ allRanks n)
    (caller : message.caller? op id = some comm.rank) (called : (call.caller? op id).isSome)
    (sized : ranks.length = n)
    (run : sim.ncclCall env op ranks host time trace comm stream call = .ok sim') :
    Conducted op id n (messages ++ [message]) sim' := by
  subst same
  rcases ncclCall_cases run with ⟨middle, w, last, created, rfl⟩ |
    ⟨idx, w, middle, lacks, here, joined, rest⟩
  · rcases newCCWaiting_eq_ok created with ⟨before, streamStart, streamEnd, aside, rfl,
      ⟨new, issued⟩, edges, _, joinedRanks, waitingFor⟩
    have apart : Apart op comm.id sim before := .of_aside aside
    refine (conducted.apart apart).opens several
      ⟨w.commBarrier, comm.rank, streamStart, streamEnd⟩ mem caller rfl ?_ ?_ issued edges
      joinedRanks (sized ▸ waitingFor) rfl ?_ ?_ ?_
    · rw [apart.waitings]
      exact last
    · rw [apart.instances]
      exact fun barrier known => (conducted.issued barrier known).trans_le new
    · simp [Occurrence.join?]
    · simp [Occurrence.completion?]
    · simp [waitings_setCCWaiting, apart.waitings]
  · rcases joinStream_eq_ok joined with ⟨before, streamStart, streamEnd, aside, rfl, edges⟩
    have apart : Apart op comm.id sim before := .of_aside aside
    rw [← apart.waitings] at lacks here rest
    rcases rest with ⟨incomplete, rfl⟩ | ⟨complete, completed⟩
    · refine (conducted.apart apart).joins_some
        ⟨w.commBarrier, comm.rank, streamStart, streamEnd⟩ mem caller rfl lacks here edges
        incomplete rfl ?_ ?_ ?_
      · simp [Occurrence.join?]
      · simp [Occurrence.completion?]
      · simp [waitings_setCCWaiting]
    · rcases completeCC_eq_ok completed with ⟨after, flows, adds, length, ⟨ascending, fresh⟩, wires,
        rfl⟩
      refine (conducted.apart apart).completes
        ⟨w.commBarrier, comm.rank, streamStart, streamEnd⟩ mem caller rfl lacks here edges
        complete called length ascending fresh adds.enlarges wires adds.flowRecords ?_ ?_ ?_
      · rw [joins_note, joins_of_adds adds]
        simp [Occurrence.join?]
      · rw [completions_note, completions_of_adds adds]
        simp [Occurrence.completion?]
      · rw [Simulator.waitings, note, adds.ccWaiting]
        exact (waitings_setCCWaiting _ _ _ _ _ _).trans (if_pos ⟨rfl, rfl⟩)

/-- A message of any kind. -/
theorem dispatch (conducted : Conducted op id n messages sim) (several : 1 < n)
    (ranked : ∀ rank, message.caller? op id = some rank → rank ∈ allRanks n)
    (sized : ∀ ranks, sim.commGroups id = some ranks → ranks.length = n)
    (run : sim.dispatch env message = .ok sim') :
    Conducted op id n (messages ++ [message]) sim' := by
  cases caller : message.caller? op id with
  | none => exact (conducted.apart (dispatch_apart caller run)).other caller
  | some rank =>
      rcases Message.caller?_eq_some caller with ⟨comm, collective, rfl, rfl⟩
      rcases dispatch_collective collective run with
        ⟨middle, host, time, call, stream, ranks, trace, rfl, _, _, ⟨known, _⟩, ⟨_, _, aside⟩,
          called⟩
      have calls : (call.caller? op comm.id).isSome := Option.isSome_iff_exists.mpr ⟨_, caller⟩
      exact (conducted.apart (.of_aside aside)).ncclCall several rfl (ranked _ caller) caller
        calls (sized ranks known) called

theorem step {handled : ℕ} (conducted : Conducted op id n messages sim) :
    Conducted op id n messages { sim with handled := handled } :=
  ⟨conducted.ranked, conducted.joined, conducted.progress, conducted.waiting, conducted.ascending,
    conducted.issued, conducted.inOrder, conducted.gated, conducted.wired, conducted.created,
    conducted.flowOrder, conducted.flowsIssued⟩

end Conducted

/-- A message is handled; the communicator has `n` ranks, which make its collective calls. -/
def RankedStep (env : Environment) (op : Collective) (id : NcclId) (n : ℕ) (sim : Simulator)
    (message : Message) (sim' : Simulator) : Prop :=
  Step env sim message sim' ∧ (∀ rank ∈ message.caller? op id, rank ∈ allRanks n) ∧
    ∀ ranks ∈ sim.commGroups id, ranks.length = n

theorem conducted_of_reached {n : ℕ} {messages : List Message} (several : 2 ≤ n)
    (reached : Runs.Reached Initial (RankedStep env op id n) messages sim) :
    Conducted op id n messages sim := by
  refine reached.invariant (Conducted op id n) (fun initial => .start initial several) ?_
  rintro messages sim message sim' conducted ⟨taken, ranked, sized⟩
  simp only [Step, handle, bind_eq_ok, pure_eq_ok] at taken
  rcases taken with ⟨final, dispatched, rfl⟩
  exact (conducted.dispatch several ranked sized dispatched).step

end Simulator

end Phantora
