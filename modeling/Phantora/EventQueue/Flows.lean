import Phantora.EventQueue.Agenda
import Phantora.EventQueue.Causality

/-!
# Flows and their events

Every flow in the network belongs to one event, before, during and after a
rollback, and so does every flow that a task of the agenda is about.
-/

namespace Phantora

open Outcome

namespace EventQueue

variable {platform : Platform} {agenda agenda' : Agenda} {queue queue' : EventQueue}

/-- Flows and events belong together, also those that a task is about. -/
structure Flows (agenda : Agenda) (queue : EventQueue) : Prop where
  sound : queue.netsim.Sound
  arrived : ∀ {ref}, ref < queue.netsim.state.nextRef → ∃ e flow, queue.Carries ref e ∧
    queue.eventToFlow e = some flow ∧ flow.id = (queue.netsim.state.arena ref).flow.id
  flowIds : ∀ {e e' flow flow'}, queue.eventToFlow e = some flow →
    queue.eventToFlow e' = some flow' → flow.id = flow'.id → e = e'
  issued : ∀ {e}, queue.eventCounter ≤ e → queue.pending e = none ∧ queue.eventToFlow e = none
  pending : ∀ {e p}, queue.pending e = some p →
    queue.eventToFlow e = flowOf p.action ∧ ∀ ref, ¬queue.Carries ref e
  launch : ∀ {e action time}, .launch e action time ∈ agenda →
    queue.eventToFlow e = flowOf action ∧ queue.pending e = none ∧ ∀ ref, ¬queue.Carries ref e
  board : ∀ {e flow info time}, .board e flow info time ∈ agenda →
    ∃ ref, queue.Carries ref e ∧ (queue.netsim.state.arena ref).flow.id = flow.id
  complete : ∀ {r appEventTs}, .complete r appEventTs ∈ agenda → ∃ ref e,
    queue.Carries ref e ∧ r.flow.token = some e ∧
      (queue.netsim.state.arena ref).flow.id = r.flow.id
  starting : ∀ {e flow info}, queue.inQueueNotStarted e = some (.communication flow info) →
    queue.eventToFlow e ≠ none

/-- An entry that is left when another is removed was there before. -/
theorem eq_some_of_update_none {α : Type} {f : EventId → Option α} {e other : EventId} {value : α}
    (known : Function.update f e none other = some value) : f other = some value := by
  by_cases same : other = e
  · simp [same] at known
  · simpa [same] using known

theorem eq_none_of_update_none {α : Type} {f : EventId → Option α} {e other : EventId}
    (known : f other = none) : Function.update f e none other = none := by
  by_cases same : other = e
  · simp [same]
  · simpa [same] using known

/-- Amending the dependencies of a pending event leaves its action. -/
theorem amended_eq_some {e : EventId} {p : Pending} {dependencies : Finset (Option EventId)}
    (known : queue.pending e = some p) {other : EventId} {p' : Pending}
    (known' : Function.update queue.pending e (some { p with dependencies := dependencies }) other =
      some p') : ∃ p, queue.pending other = some p ∧ p.action = p'.action := by
  by_cases same : other = e
  · subst other
    rw [Function.update_self, Option.some.injEq] at known'
    exact ⟨p, known, known' ▸ rfl⟩
  · rw [Function.update_of_ne same] at known'
    exact ⟨p', known', rfl⟩

/-- The task is about no push and no flow. -/
def Task.Plain : Task → Prop
  | .release _ => True
  | .finish _ _ _ => True
  | _ => False

namespace Flows

theorem flow_of_carries (flows : Flows agenda queue) {ref : Netsim.FlowRef} {e : EventId}
    (carries : queue.Carries ref e) : ∃ flow, queue.eventToFlow e = some flow ∧
      flow.id = (queue.netsim.state.arena ref).flow.id := by
  rcases flows.arrived carries.1 with ⟨e', flow, carries', known, same⟩
  have equal : e' = e := Option.some.inj (carries'.2.symm.trans carries.2)
  exact ⟨flow, equal ▸ known, same⟩

theorem lt_of_flow (flows : Flows agenda queue) {e : EventId} (known : queue.eventToFlow e ≠ none) :
    e < queue.eventCounter := by
  by_contra notLt
  exact known (flows.issued (not_lt.mp notLt)).2

theorem lt_of_pending (flows : Flows agenda queue) {e : EventId} {p : Pending}
    (known : queue.pending e = some p) : e < queue.eventCounter := by
  by_contra notLt
  rw [(flows.issued (not_lt.mp notLt)).1] at known
  exact Option.some_ne_none _ known.symm

theorem not_carries (flows : Flows agenda queue) {e : EventId} (noFlow : queue.eventToFlow e = none)
    (ref : Netsim.FlowRef) : ¬queue.Carries ref e := by
  intro carries
  rcases flows.flow_of_carries carries with ⟨flow, known, _⟩
  exact Option.some_ne_none _ (known.symm.trans noFlow)

theorem not_carries_new (flows : Flows agenda queue) (ref : Netsim.FlowRef) :
    ¬queue.Carries ref queue.eventCounter := by
  intro carries
  rcases flows.flow_of_carries carries with ⟨flow, known, _⟩
  rw [(flows.issued (le_refl _)).2] at known
  exact Option.some_ne_none _ known.symm

/-- A flow in the network belongs to one event. -/
theorem event_unique (flows : Flows agenda queue) {left right : Netsim.FlowRef} {e e' : EventId}
    (leftCarries : queue.Carries left e) (rightCarries : queue.Carries right e')
    (same : (queue.netsim.state.arena left).flow.id = (queue.netsim.state.arena right).flow.id) :
    e = e' := by
  have equal := flows.sound.ledger.ids leftCarries.1 rightCarries.1 same
  subst equal
  exact Option.some.inj (leftCarries.2.symm.trans rightCarries.2)

/-- Nothing about flows changes. -/
theorem keep (flows : Flows agenda queue) (netsim : queue'.netsim = queue.netsim)
    (eventToFlow : queue'.eventToFlow = queue.eventToFlow)
    (eventCounter : queue'.eventCounter = queue.eventCounter)
    (pending : ∀ e p', queue'.pending e = some p' →
      ∃ p, queue.pending e = some p ∧ p.action = p'.action)
    (starting : ∀ e action, queue'.inQueueNotStarted e = some action →
      queue.inQueueNotStarted e = some action ∨ flowOf (some action) = none)
    (tasks : ∀ task ∈ agenda', task ∈ agenda ∨ task.Plain) : Flows agenda' queue' := by
  have carries : ∀ {ref e}, queue'.Carries ref e ↔ queue.Carries ref e := by
    intro ref e
    rw [Carries, netsim]
    exact Iff.rfl
  have unpending : ∀ {e}, queue.pending e = none → queue'.pending e = none := by
    intro e absent
    cases known : queue'.pending e with
    | none => rfl
    | some p' =>
        rcases pending e p' known with ⟨p, old, _⟩
        exact absurd (old.symm.trans absent) (Option.some_ne_none p)
  refine ⟨netsim ▸ flows.sound, ?_, ?_, ?_, ?_, ?_, ?_, ?_, ?_⟩
  · intro ref lt
    rw [netsim] at lt
    simp only [carries, eventToFlow, netsim]
    exact flows.arrived lt
  · rw [eventToFlow]
    exact flows.flowIds
  · intro e le
    rw [eventCounter] at le
    rw [eventToFlow]
    exact ⟨unpending (flows.issued le).1, (flows.issued le).2⟩
  · intro e p' known
    rcases pending e p' known with ⟨p, old, same⟩
    simp only [eventToFlow, carries, ← same]
    exact flows.pending old
  · intro e action time mem
    rcases tasks _ mem with old | plain
    · simp only [eventToFlow, carries]
      exact ⟨(flows.launch old).1, unpending (flows.launch old).2.1, (flows.launch old).2.2⟩
    · exact absurd plain id
  · intro e flow info time mem
    rcases tasks _ mem with old | plain
    · simp only [carries, netsim]
      exact flows.board old
    · exact absurd plain id
  · intro r appEventTs mem
    rcases tasks _ mem with old | plain
    · simp only [carries, netsim]
      exact flows.complete old
    · exact absurd plain id
  · intro e flow info known
    rw [eventToFlow]
    rcases starting e _ known with old | none
    · exact flows.starting old
    · exact absurd none (Option.some_ne_none flow)

end Flows

/-- The network gets a new flow when a communication is pushed. -/
theorem Flows.newId (flows : Flows agenda queue) {e : EventId} {flow : Netsim.Flow} {time : ℤ}
    (known : queue.eventToFlow e = some flow) (absent : ∀ ref, ¬queue.Carries ref e) :
    ∀ ref < queue.netsim.state.nextRef,
      (queue.netsim.state.arena ref).flow.id ≠ (flowRecord e flow time).flow.id := by
  intro ref lt same
  rcases flows.arrived lt with ⟨e', flow', carries, known', same'⟩
  have equal := flows.flowIds known' known (same'.trans same)
  exact absent ref (equal ▸ carries)

theorem carries_arrived {netsim : Netsim.Simulator} {e : EventId} {flow : Netsim.Flow} {time : ℤ}
    (arrived : Netsim.Simulator.Arrived queue.netsim netsim (flowRecord e flow time))
    {ref : Netsim.FlowRef} {e' : EventId} :
    ({ queue with netsim := netsim } : EventQueue).Carries ref e' ↔
      queue.Carries ref e' ∨ (ref = queue.netsim.state.nextRef ∧ e' = e) := by
  show ref < netsim.state.nextRef ∧ (netsim.state.arena ref).flow.token = some e' ↔ _
  rw [arrived.nextRef, Nat.lt_succ_iff_lt_or_eq]
  constructor
  · rintro ⟨old | rfl, token⟩
    · rw [arrived.flow_eq old] at token
      exact Or.inl ⟨old, token⟩
    · rw [arrived.token] at token
      exact Or.inr ⟨rfl, (Option.some.inj token).symm⟩
  · rintro (⟨old, token⟩ | ⟨rfl, rfl⟩)
    · exact ⟨Or.inl old, by rw [arrived.flow_eq old, token]⟩
    · exact ⟨Or.inr rfl, arrived.token⟩

theorem carries_moved {netsim : Netsim.Simulator} {done : List Netsim.FlowRef}
    (moved : Netsim.Simulator.Moved queue.netsim netsim done) {ref : Netsim.FlowRef} {e : EventId} :
    ({ queue with netsim := netsim } : EventQueue).Carries ref e ↔ queue.Carries ref e := by
  show ref < netsim.state.nextRef ∧ (netsim.state.arena ref).flow.token = some e ↔ _
  rw [moved.same.nextRef, moved.same.flow_eq]
  exact Iff.rfl

/-- What one step of the network does. -/
theorem move_eq_ok {netsim : Netsim.Simulator} {appEventTs : ℕ} {flows : List Netsim.TraceRecord}
    (sound : queue.netsim.Sound)
    (stepped : queue.netsim.runOneStep platform none =
      .ok (netsim, ⟨appEventTs, .flowComplete flows⟩)) :
    ∃ done, Netsim.Simulator.Moved queue.netsim netsim done ∧ appEventTs = netsim.ts ∧
      flows = (done.map fun ref =>
        Netsim.NetState.completionRecord netsim.ts (netsim.state.arena ref)) ∧
      (done = [] → netsim.idle = true) := by
  rcases Netsim.Simulator.runOneStep_eq_ok sound stepped with ⟨done, moved, _, event, last⟩
  simp only [Netsim.AppEvent.mk.injEq, Netsim.AppEventKind.flowComplete.injEq] at event
  exact ⟨done, moved, event.1, event.2, fun nothing => by simpa using last nothing⟩

/-- A new event, whose flow, if any, is new. -/
theorem Flows.issue (flows : Flows [] queue) {dependsOn : List (Option EventId)}
    {action : Option Action} {time : ℤ} (rev : EventId → List EventId)
    (valid : Call.Valid queue (.addActionOrPoint dependsOn action time)) :
    Flows [] { queue.issue dependsOn action time with revDependencies := rev } := by
  rcases flows.issued (le_refl queue.eventCounter) with ⟨noPending, noFlow⟩
  have flowEq := issue_eventToFlow dependsOn action time noFlow
  have older : ∀ {e}, e < queue.eventCounter →
      (queue.issue dependsOn action time).eventToFlow e = queue.eventToFlow e := by
    intro e lt
    rw [flowEq, if_neg (Nat.ne_of_lt lt)]
  refine { flows with arrived := ?_, flowIds := ?_, issued := ?_, pending := ?_, launch := ?_,
                      board := ?_, complete := ?_, starting := ?_ }
  · intro ref lt
    rcases flows.arrived lt with ⟨e, flow, carries, known, same⟩
    have issued := flows.lt_of_flow (Option.ne_none_iff_exists'.mpr ⟨flow, known⟩)
    exact ⟨e, flow, carries, (older issued).trans known, same⟩
  · intro e e' flow flow' known known' same
    dsimp only at known known'
    rw [flowEq] at known known'
    split at known <;> split at known' <;> rename_i left right
    · exact left.trans right.symm
    · exact absurd same.symm (valid.2 flow e' flow' known known')
    · exact absurd same (valid.2 flow' e flow known' known)
    · exact flows.flowIds known known' same
  · intro e le
    have before : queue.eventCounter ≤ e := (Nat.le_succ _).trans le
    refine ⟨(flows.issued before).1, ?_⟩
    exact (flowEq e).trans ((if_neg (Nat.ne_of_gt le)).trans (flows.issued before).2)
  · intro e p known
    refine ⟨?_, (flows.pending known).2⟩
    exact (older (flows.lt_of_pending known)).trans (flows.pending known).1
  · intro e action' time' mem
    cases mem
  · intro e flow info time' mem
    cases mem
  · intro r ts mem
    cases mem
  · intro e flow info known
    have isFlow := flows.starting known
    show (queue.issue dependsOn action time).eventToFlow e ≠ none
    rw [older (flows.lt_of_flow isFlow)]
    exact isFlow

/-- A small step keeps the flows with their events. -/
theorem flows_small (flows : Flows agenda queue) (deferred : Agenda.Deferred agenda.tail)
    (small : Small platform (agenda, queue) (agenda', queue')) : Flows agenda' queue' := by
  have unlaunched : ∀ {e action time}, Task.launch e action time ∉ agenda.tail :=
    fun mem => deferred _ mem
  cases small with
  | note entries counter =>
      exact flows.keep rfl rfl rfl (fun _ p known => ⟨p, known, rfl⟩)
        (fun _ _ known => Or.inl known) (fun _ mem => Or.inl mem)
  | point counter =>
      exact flows.keep rfl rfl rfl (fun _ p known => ⟨p, known, rfl⟩)
        (fun _ _ known => Or.inl known) (fun _ mem => Or.inl (List.mem_cons_of_mem _ mem))
  | @compute _ _ e node duration time info counter =>
      refine flows.keep rfl rfl rfl (fun _ p known => ⟨p, known, rfl⟩) ?_
        (fun _ mem => Or.inl (List.mem_cons_of_mem _ mem))
      intro other action known
      by_cases same : other = e
      · subst other
        simp only [recordTimelineAction, pushStart, Function.update_self,
          Option.some.injEq] at known
        exact Or.inr (known ▸ rfl)
      · simp only [recordTimelineAction, pushStart, Function.update_of_ne same] at known
        exact Or.inl known
  | landed =>
      exact flows.keep rfl rfl rfl (fun _ p known => ⟨p, known, rfl⟩)
        (fun _ _ known => Or.inl known) (fun _ mem => Or.inl (List.mem_cons_of_mem _ mem))
  | complete counter token same =>
      exact flows.keep rfl rfl rfl (fun _ p known => ⟨p, known, rfl⟩)
        (fun _ _ known => Or.inl known) (fun _ mem => Or.inl (List.mem_cons_of_mem _ mem))
  | arrived token same boards =>
      refine flows.keep rfl rfl rfl (fun _ p known => ⟨p, known, rfl⟩)
        (fun _ _ known => Or.inl known) ?_
      intro task mem
      rcases List.mem_cons.mp mem with rfl | mem
      · exact Or.inr trivial
      · exact Or.inl (List.mem_cons_of_mem _ mem)
  | reach queued =>
      refine flows.keep rfl rfl rfl (fun _ p known => ⟨p, known, rfl⟩)
        (fun _ _ known => Or.inl known) ?_
      intro task mem
      rw [List.mem_singleton.mp mem]
      exact Or.inr trivial
  | stop queued known =>
      refine flows.keep rfl rfl rfl (fun _ p known => ⟨p, known, rfl⟩)
        (fun _ _ known => Or.inl known) ?_
      intro task mem
      rw [List.mem_singleton.mp mem]
      exact Or.inr trivial
  | startComputation counter queued known =>
      refine flows.keep rfl rfl rfl (fun _ p known => ⟨p, known, rfl⟩) ?_ (fun _ mem => Or.inl mem)
      intro other action started
      exact Or.inl (eq_some_of_update_none started)
  | startFlow queued known =>
      refine flows.keep rfl rfl rfl (fun _ p known => ⟨p, known, rfl⟩) ?_ (fun _ mem => Or.inl mem)
      intro other action started
      exact Or.inl (eq_some_of_update_none started)
  | finish noted =>
      refine flows.keep rfl rfl rfl ?_ (fun _ _ known => Or.inl known) ?_
      · intro other p' known
        rcases noted.eq_some known with ⟨p, old, rfl | ⟨_, rfl⟩⟩
        · exact ⟨p', old, rfl⟩
        · exact ⟨p, old, by simp⟩
      · intro task mem
        rcases List.mem_append.mp mem with mem | mem
        · rcases List.mem_map.mp mem with ⟨e, _, rfl⟩
          exact Or.inr trivial
        · exact Or.inl (List.mem_cons_of_mem _ mem)
  | register valid ended =>
      exact flows.keep rfl rfl rfl (fun _ p known => ⟨p, known, rfl⟩)
        (fun _ _ known => Or.inl known) (fun _ mem => Or.inl mem)
  | depend valid unended waits =>
      exact flows.keep rfl rfl rfl (fun other p' known => amended_eq_some waits known)
        (fun _ _ known => Or.inl known) (fun _ mem => Or.inl mem)
  | block waits =>
      exact flows.keep rfl rfl rfl (fun other p' known => amended_eq_some waits known)
        (fun _ _ known => Or.inl known) (fun _ mem => Or.inl mem)
  | unblock waits =>
      refine flows.keep rfl rfl rfl (fun other p' known => amended_eq_some waits known)
        (fun _ _ known => Or.inl known) ?_
      intro task mem
      split at mem
      · rw [List.mem_singleton.mp mem]
        exact Or.inr trivial
      · exact Or.inl mem
  | @release rest _ e p known =>
      have waited := flows.pending known
      refine { flows with issued := ?_, pending := ?_, launch := ?_, board := ?_, complete := ?_ }
      · intro other le
        refine ⟨?_, (flows.issued le).2⟩
        exact eq_none_of_update_none (flows.issued le).1
      · intro other p' known'
        exact flows.pending (eq_some_of_update_none known')
      · intro other action time mem
        rcases List.mem_cons.mp mem with same | mem
        · cases same
          exact ⟨waited.1, Function.update_self _ _ _, waited.2⟩
        · exact absurd mem unlaunched
      · intro other flow info time mem
        exact flows.board (List.mem_cons_of_mem _ (List.mem_of_ne_of_mem (by simp) mem))
      · intro r appEventTs mem
        exact flows.complete (List.mem_cons_of_mem _ (List.mem_of_ne_of_mem (by simp) mem))
  | @board rest _ e flow info time counter =>
      rcases flows.board List.mem_cons_self with ⟨ref, carries, _⟩
      rcases flows.flow_of_carries carries with ⟨flow', isFlow, _⟩
      refine { flows with launch := ?_, board := ?_, complete := ?_, starting := ?_ }
      · intro other action time mem
        exact absurd mem unlaunched
      · intro other flow info time mem
        exact flows.board (List.mem_cons_of_mem _ mem)
      · intro r appEventTs mem
        exact flows.complete (List.mem_cons_of_mem _ mem)
      · intro other flow info known
        by_cases same : other = e
        · subst other
          show queue.eventToFlow e ≠ none
          simp [isFlow]
        · simp only [pushStart, Function.update_of_ne same] at known
          exact flows.starting known
  | @arrive rest _ e flow info time netsim result nonneg arrival =>
      have launched := flows.launch List.mem_cons_self
      rcases Netsim.Simulator.flowArrive_eq_ok flows.sound (flows.newId launched.1 launched.2.2)
        arrival with ⟨arrived, _⟩
      have old : ∀ {ref e'}, queue.Carries ref e' →
          ({ queue with netsim := netsim } : EventQueue).Carries ref e' ∧
            (netsim.state.arena ref).flow.id = (queue.netsim.state.arena ref).flow.id := by
        intro ref e' carries
        exact ⟨(carries_arrived arrived).mpr (Or.inl carries),
          congrArg Netsim.Flow.id (arrived.flow_eq carries.1)⟩
      refine { flows with sound := arrived.sound, arrived := ?_, pending := ?_, launch := ?_,
                          board := ?_, complete := ?_ }
      · intro ref lt
        have lt : ref < netsim.state.nextRef := lt
        rw [arrived.nextRef, Nat.lt_succ_iff_lt_or_eq] at lt
        rcases lt with lt | rfl
        · rcases flows.arrived lt with ⟨e', flow', carries, known, same⟩
          exact ⟨e', flow', (old carries).1, known, same.trans (old carries).2.symm⟩
        · exact ⟨e, flow, (carries_arrived arrived).mpr (Or.inr ⟨rfl, rfl⟩), launched.1,
            arrived.id.symm⟩
      · intro other p known
        refine ⟨(flows.pending known).1, ?_⟩
        intro ref carries
        rcases (carries_arrived arrived).mp carries with old | ⟨_, rfl⟩
        · exact (flows.pending known).2 ref old
        · exact Option.some_ne_none p (known.symm.trans launched.2.1)
      · intro other action time mem
        exact absurd (List.mem_of_ne_of_mem (by simp) mem) unlaunched
      · intro other flow' info' time' mem
        rcases List.mem_cons.mp mem with same | mem
        · cases same
          exact ⟨_, (carries_arrived arrived).mpr (Or.inr ⟨rfl, rfl⟩), arrived.id⟩
        · rcases flows.board (List.mem_cons_of_mem _ mem) with ⟨ref, carries, same⟩
          exact ⟨ref, (old carries).1, (old carries).2.trans same⟩
      · intro r appEventTs mem
        have mem := List.mem_of_ne_of_mem (by simp) mem
        rcases flows.complete (List.mem_cons_of_mem _ mem) with ⟨ref, e', carries, token, same⟩
        exact ⟨ref, e', (old carries).1, token, (old carries).2.trans same⟩
  | @move _ _ netsim appEventTs records waiting stepped =>
      rcases move_eq_ok flows.sound stepped with ⟨done, moved, _, rfl, _⟩
      have flowEq : ∀ ref, (netsim.state.arena ref).flow = (queue.netsim.state.arena ref).flow :=
        fun ref => moved.same.flow_eq ref
      refine { flows with sound := moved.sound, arrived := ?_, pending := ?_, launch := ?_,
                          board := ?_, complete := ?_ }
      · intro ref lt
        rw [moved.same.nextRef] at lt
        simp only [carries_moved moved, flowEq]
        exact flows.arrived lt
      · intro other p known
        simp only [carries_moved moved]
        exact flows.pending known
      · intro other action time mem
        rcases List.mem_append.mp mem with mem | mem
        · simp at mem
        · exact absurd (waiting _ mem) id
      · intro other flow info time mem
        simp only [carries_moved moved, flowEq]
        rcases List.mem_append.mp mem with mem | mem
        · simp at mem
        · exact flows.board mem
      · intro r ts mem
        simp only [carries_moved moved, flowEq]
        rcases List.mem_append.mp mem with mem | mem
        · rcases List.mem_map.mp mem with ⟨r', isRecord, same⟩
          cases same
          rcases List.mem_map.mp isRecord with ⟨ref, isDone, rfl⟩
          have lt : ref < queue.netsim.state.nextRef := by
            rw [← moved.same.nextRef]
            refine moved.sound.ledger.retired_lt ?_
            rw [moved.retired]
            exact List.mem_append_left _ (List.mem_reverse.mpr isDone)
          rcases flows.arrived lt with ⟨e, flow, carries, known, same⟩
          refine ⟨ref, e, carries, ?_, ?_⟩
          · simp only [Netsim.NetState.completionRecord, flowEq]
            exact carries.2
          · simp only [Netsim.NetState.completionRecord, flowEq]
        · exact flows.complete mem
  | @add _ dependsOn action time rev depends arriveTime valid registered empty =>
      have issued := flows.issue rev valid
      refine { issued with launch := ?_, board := ?_, complete := ?_ }
      · intro other action' time' mem
        cases List.mem_singleton.mp mem
        refine ⟨?_, (flows.issued (le_refl _)).1, flows.not_carries_new⟩
        exact (issue_eventToFlow dependsOn action time (flows.issued (le_refl _)).2 _).trans
          (if_pos rfl)
      · intro other flow info time' mem
        cases List.mem_singleton.mp mem
      · intro r ts mem
        cases List.mem_singleton.mp mem
  | @wait _ dependsOn action time rev depends arriveTime valid registered nonempty =>
      have issued := flows.issue rev valid
      refine { issued with issued := ?_, pending := ?_, launch := ?_ }
      · intro other le
        refine ⟨?_, (issued.issued le).2⟩
        have differs : other ≠ queue.eventCounter := Nat.ne_of_gt le
        show Function.update queue.pending _ _ other = none
        rw [Function.update_of_ne differs]
        exact (issued.issued le).1
      · intro other p known
        by_cases same : other = queue.eventCounter
        · subst other
          simp only [Function.update_self, Option.some.injEq] at known
          subst known
          refine ⟨?_, flows.not_carries_new⟩
          exact (issue_eventToFlow dependsOn action time (flows.issued (le_refl _)).2 _).trans
            (if_pos rfl)
        · simp only [Function.update_of_ne same] at known
          exact issued.pending known
      · intro other action' time' mem
        cases mem

end EventQueue

end Phantora
