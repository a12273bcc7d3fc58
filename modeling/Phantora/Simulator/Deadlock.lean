import Phantora.Simulator.Charts
import Phantora.Simulator.Guards

/-!
# Well-ordered communication does not deadlock

When the ranks communicate in an order that they agree on, the graph has no cycle. The server
gets stuck only at the barriers of the calls that lack their peers, and once all peers have
made their calls it ends all events.
-/

namespace Phantora

open Outcome

namespace EventQueue

variable {platform : Platform} {queue queue' : EventQueue} {e b : EventId}

theorem Evolves.tracked (evolves : Evolves platform Call.Executes queue queue')
    (tracked : Tracked queue) : Tracked queue' := by
  induction evolves with
  | refl => exact tracked
  | tail _ last ih =>
      rcases last with ⟨call, executes, step⟩
      refine step.tracked ?_ ih
      cases call <;> trivial

theorem Grows.before_iff (grows : Grows queue queue') : queue'.Before b e ↔ queue.Before b e := by
  have same : queue'.Precedes = queue.Precedes := by
    funext d e
    rw [Precedes, Precedes, grows.revDependencies]
  rw [Before, Before, same]

namespace Tracked

/-- What comes after a barrier has not ended. -/
theorem not_ended (tracked : Tracked queue) (barred : queue.Barred b)
    (after : b = e ∨ queue.Before b e) : queue.ended e = none := by
  refine (tracked.pending_only ?_).2.2
  rcases after with rfl | path
  · exact barred.pending
  · induction path with
    | single edge => exact tracked.pending_of_precedes barred.pending edge
    | tail _ edge ih => exact tracked.pending_of_precedes ih edge

/-- Without cycles whatever is left comes after a barrier when nothing is left to execute. -/
theorem behind_barrier (tracked : Tracked queue) (unqueued : ∀ event, ¬queue.Queued event)
    (idle : ∀ e, ¬queue.Moving e) (acyclic : ∀ e, ¬queue.Before e e)
    (issued : e < queue.eventCounter)
    (left : queue.ended e = none) : ∃ b, queue.Barred b ∧ (b = e ∨ queue.Before b e) := by
  -- induction along the graph, which is well-founded on the finitely many events
  have order : IsStrictOrder EventId queue.Before :=
    { irrefl := acyclic, trans := fun _ _ _ => Relation.TransGen.trans }
  have founded : (Set.Iio queue.eventCounter).WellFoundedOn queue.Before :=
    (Set.finite_Iio queue.eventCounter).wellFoundedOn
  have step : ∀ e < queue.eventCounter,
      (∀ d < queue.eventCounter, queue.Before d e → queue.ended d = none →
        ∃ b, queue.Barred b ∧ (b = d ∨ queue.Before b d)) →
      queue.ended e = none → ∃ b, queue.Barred b ∧ (b = e ∨ queue.Before b e) := by
    intro e issued ih left
    have waiting : queue.pending e ≠ none := by
      rcases tracked.located issued with here | ⟨event, _, queued⟩ | moving | ended
      · exact here
      · exact absurd queued (unqueued event)
      · exact absurd moving (idle e)
      · exact absurd left ended
    rcases Option.ne_none_iff_exists'.mp waiting with ⟨p, known⟩
    rcases Finset.nonempty_of_ne_empty (tracked.waits_for_something known) with ⟨dep, mem⟩
    cases dep with
    | none => exact ⟨e, ⟨p, known, mem⟩, Or.inl rfl⟩
    | some d =>
        rcases tracked.waits.unended known mem with ⟨unended, edge⟩
        have before : queue.Before d e := .single edge
        rcases ih d (tracked.waits.issued known mem) before unended with ⟨b, barred, rfl | path⟩
        · exact ⟨b, barred, Or.inr before⟩
        · exact ⟨b, barred, Or.inr (path.trans before)⟩
  exact founded.induction (P := fun e => queue.ended e = none →
    ∃ b, queue.Barred b ∧ (b = e ∨ queue.Before b e)) issued step left

end Tracked

end EventQueue

namespace Simulator

variable {env : Environment} {sim : Simulator} {round : ℕ → ℕ} {messages : List Message}
  {message : Message} {size : NcclId → ℕ}

/-- The server runs the simulation, without another message, until nothing is left to execute. -/
def Drains (env : Environment) (sim : Simulator) (queue : EventQueue) : Prop :=
  ∃ before, EventQueue.Evolves env.toPlatform EventQueue.Call.Executes sim.queue before ∧
    before.execute env.toPlatform = .ok (queue, .emptyQueue)

/-- All ranks have made as many calls of each collective, and each call between two ranks has
its peer. -/
structure Settled (size : NcclId → ℕ) (messages : List Message) : Prop where
  collectives : ∀ op id, ∀ rank ∈ allRanks (size id), ∀ other ∈ allRanks (size id),
    (callers op id messages).count rank = (callers op id messages).count other
  transfers : ∀ key, (issued .send key messages).length = (issued .recv key messages).length

/-- Whether all peers have made their calls depends on the calls made. -/
theorem settled_iff : Settled size messages ↔
    (∀ called ∈ messages.filterMap Message.collective,
      ∀ rank ∈ allRanks (size called.2.id), ∀ other ∈ allRanks (size called.2.id),
        (callers called.1 called.2.id messages).count rank =
          (callers called.1 called.2.id messages).count other) ∧
    ∀ key ∈ p2pKeys messages,
      (issued .send key messages).length = (issued .recv key messages).length := by
  constructor
  · intro settled
    exact ⟨fun called _ => settled.collectives called.1 called.2.id,
      fun key _ => settled.transfers key⟩
  · rintro ⟨collectives, transfers⟩
    refine ⟨fun op id rank mem other isRank => ?_, fun key => ?_⟩
    · cases called : callers op id messages with
      | nil => rfl
      | cons first rest =>
          have isCaller : first ∈ callers op id messages := called ▸ List.mem_cons_self
          rcases List.mem_filterMap.mp isCaller with ⟨message, inMessages, caller⟩
          rcases Message.caller?_eq_some caller with ⟨comm, collective, rfl, _⟩
          have call := List.mem_filterMap.mpr ⟨message, inMessages, collective⟩
          rw [← called]
          exact collectives (op, comm) call rank mem other isRank
    · by_cases known : key ∈ p2pKeys messages
      · exact transfers key known
      · rw [issued_eq_nil known, issued_eq_nil known]

instance : Decidable (Settled size messages) :=
  decidable_of_iff' _ settled_iff

/-- A message that does not communicate leaves no call without its peers. -/
theorem Settled.concat_quiet (settled : Settled size messages)
    (notCollective : message.collective = none) (notTransfers : ¬message.Transfers) :
    Settled size (messages ++ [message]) := by
  have callers : ∀ op id, callers op id (messages ++ [message]) = callers op id messages := by
    intro op id
    have noCaller : message.caller? op id = none := by
      by_contra called
      rcases Option.ne_none_iff_exists'.mp called with ⟨rank, caller⟩
      rcases Message.caller?_eq_some caller with ⟨comm, collective, _, _⟩
      rw [notCollective] at collective
      cases collective
    rw [callers_concat, noCaller, Option.toList_none, List.append_nil]
  refine ⟨fun op id => ?_, fun key => ?_⟩
  · rw [callers]
    exact settled.collectives op id
  · rw [issued_concat_quiet _ _ _ notTransfers, issued_concat_quiet _ _ _ notTransfers]
    exact settled.transfers key

/-- Nothing waits in a circle: what is left in the end is what comes after the barriers of the
calls that lack their peers. -/
structure DeadlockFree (env : Environment) (size : NcclId → ℕ) (messages : List Message)
    (sim : Simulator) : Prop where
  acyclic : ∀ e, ¬sim.queue.Before e e
  left_iff : ∀ queue, Drains env sim queue → ∀ e < queue.eventCounter, queue.ended e = none ↔
    ∃ holder, ∃ barrier ∈ sim.barriers holder, barrier = e ∨ sim.queue.Before barrier e
  ends : Settled size messages → ∀ queue, Drains env sim queue → ∀ e < queue.eventCounter,
    queue.ended e ≠ none

/-- The queue in the end is that of the state, except for what has been executed. -/
theorem Drains.evolves {queue : EventQueue} (drains : Drains env sim queue) :
    EventQueue.Evolves env.toPlatform EventQueue.Call.Executes sim.queue queue := by
  rcases drains with ⟨before, evolves, executed⟩
  exact evolves.tail ⟨.execute, trivial, EventQueue.execute_step executed⟩

/-- When the graph has no cycle, what is left in the end comes after the barriers. -/
theorem left_iff_behind_barrier {queue : EventQueue} (reached : Reached env messages sim)
    (acyclic : ∀ e, ¬sim.queue.Before e e) (drains : Drains env sim queue) {e : EventId}
    (issued : e < queue.eventCounter) : queue.ended e = none ↔
      ∃ holder, ∃ barrier ∈ sim.barriers holder, barrier = e ∨ sim.queue.Before barrier e := by
  have gated := (linked_of_reached reached).1
  have held : ∀ b, queue.Barred b ↔ ∃ holder, b ∈ sim.barriers holder := by
    intro b
    rw [drains.evolves.barred.barred, gated.barred]
    simp
  have before : ∀ {b e}, queue.Before b e ↔ sim.queue.Before b e := drains.evolves.grows.before_iff
  have tracked := (onTime_of_reached reached).2.inTime.tracked
  have last := drains.evolves.tracked tracked
  constructor
  · intro left
    rcases drains with ⟨middle, evolves, executed⟩
    rcases EventQueue.execute_emptyQueue (evolves.tracked tracked) executed with ⟨unqueued, idle⟩
    rcases last.behind_barrier unqueued idle (fun e cycle => acyclic e (before.mp cycle)) issued
      left with ⟨b, barred, after⟩
    rcases (held b).mp barred with ⟨holder, mem⟩
    exact ⟨holder, b, mem, after.imp_right before.mp⟩
  · rintro ⟨holder, b, mem, after⟩
    exact last.not_ended ((held b).mpr ⟨holder, mem⟩) (after.imp_right before.mpr)

/-- No barrier is held when all peers have made their calls. -/
theorem Settled.barriers_eq_nil (settled : Settled size messages) (several : ∀ id, 2 ≤ size id)
    (reached : Runs.Reached Initial (SizedStep env size) messages sim) (holder : Holder) :
    sim.barriers holder = [] := by
  have plain : Reached env messages sim := reached.mono fun step => step.1
  rcases holder with ⟨op, id⟩ | ⟨kind, key⟩
  · have conducted := conducted_of_sized several reached op id
    have total := Conducted.length_instances sim op id
    rw [barriers, List.map_eq_nil_iff, List.eq_nil_iff_length_eq_zero]
    by_contra waits
    -- a waiting instance has begun, so that all ranks have joined it
    have begun : (sim.completions op id).length < (sim.instances op id).length := by omega
    rcases (conducted.progress.begun_iff _).mpr begun with ⟨rank, joined⟩
    rcases Rounds.mem_members.mp joined with ⟨mem, called⟩
    have whole : Rounds.members (allRanks (size id)) (callers op id messages)
        (sim.completions op id).length = allRanks (size id) := by
      refine Finset.Subset.antisymm Rounds.members_subset fun other isRank => ?_
      refine Rounds.mem_members.mpr ⟨isRank, ?_⟩
      rw [settled.collectives op id other isRank rank mem]
      exact called
    exact Nat.lt_irrefl _ ((conducted.progress.complete_iff _).mp whole)
  · rcases offers_messages plain with ⟨_, offers, served⟩
    have lengths : ∀ kind, (sim.offers kind key).length = (issued kind key messages).length := by
      intro kind
      simpa using congrArg List.length (offers kind key)
    have all : (sim.offers kind key).length ≤ (sim.offers kind.peer key).length := by
      rw [lengths, lengths]
      cases kind with
      | send => exact (settled.transfers key).le
      | recv => exact (settled.transfers key).ge
    have none := (served key).waiting kind
    rw [Fifo.left_eq_none.mpr all, waitingTags, Option.map_eq_none_iff] at none
    rw [barriers, unmatched, none]
    rfl

/-- Well-ordered communication does not deadlock. -/
theorem deadlockFree_of_reached (several : ∀ id, 2 ≤ size id)
    (reached : Runs.Reached Initial (SizedStep env size) messages sim)
    (ordered : WellOrdered round messages) : DeadlockFree env size messages sim := by
  have plain : Reached env messages sim := reached.mono fun step => step.1
  rcases charted_of_reached several reached ordered with ⟨level, charted⟩
  have acyclic : ∀ e, ¬sim.queue.Before e e := charted.heights.levelled.acyclic
  refine ⟨acyclic, fun queue drains e issued => ?_, fun settled queue drains e issued left => ?_⟩
  · exact left_iff_behind_barrier plain acyclic drains issued
  · rcases (left_iff_behind_barrier plain acyclic drains issued).mp left with ⟨holder, b, mem, _⟩
    rw [settled.barriers_eq_nil several reached holder] at mem
    cases mem

/-- Handle a message; a collective call is one of a rank of its communicator. -/
def handleSized (env : Environment) (size : NcclId → ℕ) (sim : Simulator) (message : Message) :
    Except Panic Simulator := do
  assert (∀ called ∈ message.collective, called.2.rank ∈ allRanks (size called.2.id) ∧
    ∀ ranks ∈ sim.commGroups called.2.id, ranks.length = size called.2.id) .missingRank
  sim.handle env message

theorem sizedStep_of_handleSized {sim' : Simulator} {message : Message}
    (run : handleSized env size sim message = .ok sim') : SizedStep env size sim message sim' := by
  simp only [handleSized, bind_eq_ok, assert_eq_ok] at run
  rcases run with ⟨_, sized, handled⟩
  exact ⟨handled, sized⟩

/-- The ranks gather on one stream, and then the left one sends to the right one on another. -/
def inStep : List Message :=
  [.cuda ⟨leftThread 0, 0, .ncclCommInitRank 0 0 2 firstId⟩,
    .cuda ⟨rightThread 0, 0, .ncclCommInitRank 0 1 2 firstId⟩,
    .cuda ⟨leftThread 0, 0, .ncclAllGather 8 .u8 ⟨0, firstId⟩ ⟨0, 0⟩⟩,
    .cuda ⟨leftThread 0, 1, .ncclSend 8 .u8 1 ⟨0, firstId⟩ ⟨0, 0⟩⟩,
    .cuda ⟨rightThread 0, 2, .ncclAllGather 8 .u8 ⟨1, firstId⟩ ⟨0, 0⟩⟩,
    .cuda ⟨rightThread 0, 3, .ncclRecv 8 .u8 0 ⟨1, firstId⟩ ⟨0, 0⟩⟩]

/-- The gathering is in the first round, and the transfer in the second one. -/
def inStepRound (number : ℕ) : ℕ :=
  if number ∈ [3, 5] then 1 else 0

theorem deadlockFree_of_inStep : ∃ sim, Runs.Reached Initial (SizedStep (.plain 20) fun _ => 2)
      inStep sim ∧ sim.queue.eventCounter = 16 ∧ Settled (fun _ => 2) inStep ∧
        DeadlockFree (.plain 20) (fun _ => 2) inStep sim := by
  have read : (inStep.foldlM (handleSized (.plain 20) fun _ => 2) pair).toOption.map
      (fun sim => sim.queue.eventCounter) = some 16 := by
    decide +kernel
  rcases exists_ok_of_reading read with ⟨sim, run, counter⟩
  have reached := Runs.reached_of_foldlM sizedStep_of_handleSized initial_pair run
  have ordered : WellOrdered inStepRound inStep := by decide +kernel
  exact ⟨sim, reached, counter, by decide +kernel,
    deadlockFree_of_reached (fun _ => le_rfl) reached ordered⟩

end Simulator

end Phantora
