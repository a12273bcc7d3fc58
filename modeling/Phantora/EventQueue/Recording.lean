import Phantora.EventQueue.Wakeups

/-!
# What the queue records for the timeline

The action of an event is recorded once, when the event is launched, and before
anything of it can end. The spans recorded of an event without an action are
empty.
-/

namespace Phantora

open Outcome

/-- The action as it is recorded: its flow carries the event. -/
def Action.stamped (e : EventId) : Action → Action
  | .computation node duration info => .computation node duration info
  | .communication flow info => .communication { flow with token := some e } info

namespace EventQueue

variable {platform : Platform} {agenda agenda' : Agenda} {queue queue' : EventQueue}

/-- The action of the event has been recorded. -/
def Acted (queue : EventQueue) (e : EventId) : Prop :=
  e ∈ queue.actions.map Prod.fst

/-- The event was added with the action, or as a point. -/
def AddedWith (queue : EventQueue) (e : EventId) (action : Option Action) : Prop :=
  ∃ dependsOn time, (e, dependsOn, action, time) ∈ queue.created

/-- Actions are recorded once, and nothing but a point ends without one. -/
structure Recording (agenda : Agenda) (queue : EventQueue) : Prop where
  distinct : (queue.actions.map Prod.fst).Nodup
  added : ∀ {e action}, (e, action) ∈ queue.actions →
    ∃ what, queue.AddedWith e (some what) ∧ action = what.stamped e
  launched : ∀ {e}, queue.Acted e → e < queue.eventCounter ∧ queue.pending e = none ∧
    ∀ action time, .launch e action time ∉ agenda
  launch : ∀ {e action time}, .launch e action time ∈ agenda →
    e < queue.eventCounter ∧ queue.AddedWith e action
  pending : ∀ {e p}, queue.pending e = some p → queue.AddedWith e p.action
  starting : ∀ {e}, queue.inQueueNotStarted e ≠ none → queue.Acted e
  started : ∀ {e}, queue.started e ≠ none → queue.Acted e
  board : ∀ {e flow info time}, .board e flow info time ∈ agenda → queue.Acted e
  carried : ∀ {ref e}, queue.Carries ref e → queue.Acted e
  finish : ∀ {e startTime endTime}, .finish e startTime endTime ∈ agenda →
    startTime = endTime ∨ queue.Acted e
  spans : ∀ {e startTime endTime}, (e, startTime, endTime) ∈ queue.spans →
    startTime = endTime ∨ queue.Acted e

namespace Recording

/-- No action is recorded. -/
theorem keep (recording : Recording agenda queue) (actions : queue'.actions = queue.actions)
    (created : ∀ record ∈ queue.created, record ∈ queue'.created)
    (eventCounter : queue.eventCounter ≤ queue'.eventCounter)
    (pending : ∀ e p', queue'.pending e = some p' →
      (∃ p, queue.pending e = some p ∧ p.action = p'.action) ∨
        (queue'.AddedWith e p'.action ∧ ¬queue.Acted e))
    (launch : ∀ e action time, .launch e action time ∈ agenda' →
      .launch e action time ∈ agenda ∨
        (e < queue'.eventCounter ∧ queue'.AddedWith e action ∧ ¬queue.Acted e))
    (starting : ∀ e, queue'.inQueueNotStarted e ≠ none →
      queue.inQueueNotStarted e ≠ none ∨ queue.Acted e)
    (started : ∀ e, queue'.started e ≠ none → queue.started e ≠ none ∨ queue.Acted e)
    (board : ∀ e flow info time, .board e flow info time ∈ agenda' →
      .board e flow info time ∈ agenda ∨ queue.Acted e)
    (carried : ∀ ref e, queue'.Carries ref e → queue.Carries ref e ∨ queue.Acted e)
    (finish : ∀ e startTime endTime, .finish e startTime endTime ∈ agenda' →
      .finish e startTime endTime ∈ agenda ∨ startTime = endTime ∨ queue.Acted e)
    (spans : ∀ e startTime endTime, (e, startTime, endTime) ∈ queue'.spans →
      (e, startTime, endTime) ∈ queue.spans ∨ startTime = endTime ∨ queue.Acted e) :
    Recording agenda' queue' := by
  have acted : ∀ {e}, queue'.Acted e ↔ queue.Acted e := by
    intro e
    rw [Acted, Acted, actions]
  have addedWith : ∀ {e action}, queue.AddedWith e action → queue'.AddedWith e action :=
    fun ⟨dependsOn, time, mem⟩ => ⟨dependsOn, time, created _ mem⟩
  refine ⟨actions ▸ recording.distinct, ?_, ?_, ?_, ?_, ?_, ?_, ?_, ?_, ?_, ?_⟩
  · intro e action mem
    rw [actions] at mem
    rcases recording.added mem with ⟨what, known, same⟩
    exact ⟨what, addedWith known, same⟩
  · intro e isActed
    rcases recording.launched (acted.mp isActed) with ⟨lt, absent, unlaunched⟩
    refine ⟨lt.trans_le eventCounter, ?_, ?_⟩
    · cases known : queue'.pending e with
      | none => rfl
      | some p' =>
          rcases pending e p' known with ⟨p, old, _⟩ | ⟨_, notActed⟩
          · exact absurd (absent.symm.trans old) (Option.some_ne_none p).symm
          · exact absurd (acted.mp isActed) notActed
    · intro action time mem
      rcases launch e action time mem with old | ⟨_, _, notActed⟩
      · exact unlaunched action time old
      · exact notActed (acted.mp isActed)
  · intro e action time mem
    rcases launch e action time mem with old | ⟨lt, known, _⟩
    · exact ⟨(recording.launch old).1.trans_le eventCounter, addedWith (recording.launch old).2⟩
    · exact ⟨lt, known⟩
  · intro e p' known
    rcases pending e p' known with ⟨p, old, same⟩ | ⟨new, _⟩
    · exact same ▸ addedWith (recording.pending old)
    · exact new
  · intro e known
    rcases starting e known with old | new
    · exact acted.mpr (recording.starting old)
    · exact acted.mpr new
  · intro e known
    rcases started e known with old | new
    · exact acted.mpr (recording.started old)
    · exact acted.mpr new
  · intro e flow info time mem
    rcases board e flow info time mem with old | new
    · exact acted.mpr (recording.board old)
    · exact acted.mpr new
  · intro ref e carries
    rcases carried ref e carries with old | new
    · exact acted.mpr (recording.carried old)
    · exact acted.mpr new
  · intro e startTime endTime mem
    rcases finish e startTime endTime mem with old | new
    · exact (recording.finish old).imp_right acted.mpr
    · exact new.imp_right acted.mpr
  · intro e startTime endTime mem
    rcases spans e startTime endTime mem with old | new
    · exact (recording.spans old).imp_right acted.mpr
    · exact new.imp_right acted.mpr

/-- The action of an event that is being launched is recorded. -/
theorem record {e : EventId} {what : Action} {time : ℤ}
    (recording : Recording (.launch e (some what) time :: agenda) queue)
    (pending : queue.pending e = none) (deferred : Agenda.Deferred agenda) :
    Recording agenda (queue.recordTimelineAction e (what.stamped e)) := by
  have head : Task.launch e (some what) time ∈ Task.launch e (some what) time :: agenda :=
    List.mem_cons_self
  have acted : ∀ {other}, (queue.recordTimelineAction e (what.stamped e)).Acted other ↔
      other = e ∨ queue.Acted other := by
    intro other
    show other ∈ e :: queue.actions.map Prod.fst ↔ _
    rw [List.mem_cons, Acted]
  have old : ∀ {other}, queue.Acted other →
      (queue.recordTimelineAction e (what.stamped e)).Acted other := fun old =>
        acted.mpr (Or.inr old)
  refine ⟨?_, ?_, ?_, ?_, recording.pending, fun known => old (recording.starting known),
    fun known => old (recording.started known),
    fun mem => old (recording.board (List.mem_cons_of_mem _ mem)),
    fun carries => old (recording.carried carries),
    fun mem => (recording.finish (List.mem_cons_of_mem _ mem)).imp_right old,
    fun mem => (recording.spans mem).imp_right old⟩
  · refine List.nodup_cons.mpr ⟨?_, recording.distinct⟩
    intro isActed
    exact (recording.launched isActed).2.2 _ _ head
  · intro other action mem
    rcases List.mem_cons.mp mem with same | mem
    · cases same
      exact ⟨what, (recording.launch head).2, rfl⟩
    · exact recording.added mem
  · intro other isActed
    rcases acted.mp isActed with rfl | isActed
    · exact ⟨(recording.launch head).1, pending, fun action time mem => deferred _ mem⟩
    · rcases recording.launched isActed with ⟨lt, absent, _⟩
      exact ⟨lt, absent, fun action time mem => deferred _ mem⟩
  · intro other action time mem
    exact recording.launch (List.mem_cons_of_mem _ mem)

/-- What starts has been launched. -/
theorem started_update (recording : Recording agenda queue) {e other : EventId} {what : Action}
    {time : ℤ} (known : queue.inQueueNotStarted e = some what)
    (started : Function.update queue.started e (some time) other ≠ none) :
    queue.started other ≠ none ∨ queue.Acted other := by
  by_cases same : other = e
  · exact Or.inr (same ▸ recording.starting (Option.ne_none_iff_exists'.mpr ⟨what, known⟩))
  · rw [Function.update_of_ne same] at started
    exact Or.inl started

theorem not_acted_new (recording : Recording agenda queue) : ¬queue.Acted queue.eventCounter :=
  fun acted => Nat.lt_irrefl _ (recording.launched acted).1

end Recording

/-- What is left when another entry is removed was there before. -/
theorem left_of_update_none {α : Type} {f : EventId → Option α} {e other : EventId}
    (left : Function.update f e none other ≠ none) : f other ≠ none :=
  fun absent => left (eq_none_of_update_none absent)

/-- A small step records what it launches. -/
theorem recording_small (recording : Recording agenda queue) (flows : Flows agenda queue)
    (deferred : Agenda.Deferred agenda.tail)
    (small : Small platform (agenda, queue) (agenda', queue')) : Recording agenda' queue' := by
  cases small with
  | note entries counter notAdded notActed notSpanned =>
      refine recording.keep ?_ ?_ le_rfl (fun _ p known => Or.inl ⟨p, known, rfl⟩)
        (fun _ _ _ mem => Or.inl mem) (fun _ known => Or.inl known) (fun _ known => Or.inl known)
        (fun _ _ _ _ mem => Or.inl mem) (fun _ _ carries => Or.inl carries)
        (fun _ _ _ mem => Or.inl mem) ?_
      · simp [actions, notActed]
      · simp [created, notAdded]
      · intro e startTime endTime mem
        simp only [EventQueue.spans, List.filterMap_append, notSpanned, List.nil_append] at mem
        exact Or.inl mem
  | @release _ _ e p known =>
      refine recording.keep rfl (fun _ mem => mem) le_rfl ?_ ?_ (fun _ known => Or.inl known)
        (fun _ known => Or.inl known) (fun _ _ _ _ mem => Or.inl (by simpa using mem))
        (fun _ _ carries => Or.inl carries) (fun _ _ _ mem => Or.inl (by simpa using mem))
        (fun _ _ _ mem => Or.inl mem)
      · intro other p' known'
        exact Or.inl ⟨p', eq_some_of_update_none known', rfl⟩
      · intro other action time mem
        rcases List.mem_cons.mp mem with same | mem
        · cases same
          refine Or.inr ⟨flows.lt_of_pending known, recording.pending known, ?_⟩
          intro isActed
          exact Option.some_ne_none p (known.symm.trans (recording.launched isActed).2.1)
        · exact Or.inl (List.mem_cons_of_mem _ mem)
  | point counter =>
      exact recording.keep rfl (fun _ mem => mem) le_rfl (fun _ p known => Or.inl ⟨p, known, rfl⟩)
        (fun _ _ _ mem => Or.inl (List.mem_cons_of_mem _ mem)) (fun _ known => Or.inl known)
        (fun _ known => Or.inl known) (fun _ _ _ _ mem => Or.inl (List.mem_cons_of_mem _ mem))
        (fun _ _ carries => Or.inl carries) (fun _ _ _ mem => Or.inl (List.mem_cons_of_mem _ mem))
        (fun _ _ _ mem => Or.inl mem)
  | @compute _ _ e node duration time info counter =>
      have recorded := recording.record (flows.launch List.mem_cons_self).2.1 deferred
      refine recorded.keep rfl (fun _ mem => mem) le_rfl (fun _ p known => Or.inl ⟨p, known, rfl⟩)
        (fun _ _ _ mem => Or.inl mem) ?_ (fun _ known => Or.inl known)
        (fun _ _ _ _ mem => Or.inl mem) (fun _ _ carries => Or.inl carries)
        (fun _ _ _ mem => Or.inl mem) (fun _ _ _ mem => Or.inl mem)
      intro other known
      by_cases same : other = e
      · exact Or.inr (same ▸ List.mem_cons_self)
      · simp only [recordTimelineAction, pushStart, Function.update_of_ne same] at known
        exact Or.inl known
  | @arrive rest _ e flow info time netsim result nonneg arrival =>
      have launched := flows.launch List.mem_cons_self
      have recorded := recording.record launched.2.1 deferred
      rcases Netsim.Simulator.flowArrive_eq_ok flows.sound (flows.newId launched.1 launched.2.2)
        arrival with ⟨arrived, _⟩
      have new : (queue.recordTimelineAction e
        (Action.stamped e (.communication flow info))).Acted e :=
        List.mem_cons_self
      refine recorded.keep rfl (fun _ mem => mem) le_rfl (fun _ p known => Or.inl ⟨p, known, rfl⟩)
        (fun _ _ _ mem => Or.inl (by simpa using mem)) (fun _ known => Or.inl known)
        (fun _ known => Or.inl known) ?_ ?_ (fun _ _ _ mem => Or.inl (by simpa using mem))
        (fun _ _ _ mem => Or.inl mem)
      · intro other flow' info' time' mem
        rcases List.mem_cons.mp mem with same | mem
        · cases same
          exact Or.inr new
        · exact Or.inl mem
      · intro ref other carries
        rcases (carries_arrived arrived).mp carries with old | ⟨_, rfl⟩
        · exact Or.inl old
        · exact Or.inr new
  | @board _ _ e flow info time counter =>
      refine recording.keep rfl (fun _ mem => mem) le_rfl
        (fun _ p known => Or.inl ⟨p, known, rfl⟩)
        (fun _ _ _ mem => Or.inl (List.mem_cons_of_mem _ mem)) ?_ (fun _ known => Or.inl known)
        (fun _ _ _ _ mem => Or.inl (List.mem_cons_of_mem _ mem))
        (fun _ _ carries => Or.inl carries) (fun _ _ _ mem => Or.inl (List.mem_cons_of_mem _ mem))
        (fun _ _ _ mem => Or.inl mem)
      intro other known
      by_cases same : other = e
      · exact Or.inr (same ▸ recording.board List.mem_cons_self)
      · simp only [pushStart, Function.update_of_ne same] at known
        exact Or.inl known
  | landed =>
      exact recording.keep rfl (fun _ mem => mem) le_rfl (fun _ p known => Or.inl ⟨p, known, rfl⟩)
        (fun _ _ _ mem => Or.inl (List.mem_cons_of_mem _ mem)) (fun _ known => Or.inl known)
        (fun _ known => Or.inl known) (fun _ _ _ _ mem => Or.inl (List.mem_cons_of_mem _ mem))
        (fun _ _ carries => Or.inl carries) (fun _ _ _ mem => Or.inl (List.mem_cons_of_mem _ mem))
        (fun _ _ _ mem => Or.inl mem)
  | @move _ _ _ _ records waiting stepped =>
      rcases move_eq_ok flows.sound stepped with ⟨done, moved, _⟩
      exact recording.keep rfl (fun _ mem => mem) le_rfl (fun _ p known => Or.inl ⟨p, known, rfl⟩)
        (fun _ _ _ mem => Or.inl (by simpa using mem)) (fun _ known => Or.inl known)
        (fun _ known => Or.inl known) (fun _ _ _ _ mem => Or.inl (by simpa using mem))
        (fun _ _ carries => Or.inl ((carries_moved moved).mp carries))
        (fun _ _ _ mem => Or.inl (by simpa using mem)) (fun _ _ _ mem => Or.inl mem)
  | @complete _ _ r appEventTs e started counter token same =>
      refine recording.keep rfl (fun _ mem => mem) le_rfl
        (fun _ p known => Or.inl ⟨p, known, rfl⟩)
        (fun _ _ _ mem => Or.inl (List.mem_cons_of_mem _ mem)) (fun _ known => Or.inl known) ?_
        (fun _ _ _ _ mem => Or.inl (List.mem_cons_of_mem _ mem))
        (fun _ _ carries => Or.inl carries) (fun _ _ _ mem => Or.inl (List.mem_cons_of_mem _ mem))
        (fun _ _ _ mem => Or.inl mem)
      intro other known
      by_cases equal : other = e
      · rcases flows.complete List.mem_cons_self with ⟨ref, e', carries, token', _⟩
        rw [equal, Option.some.inj (token.symm.trans token')]
        exact Or.inr (recording.carried carries)
      · exact Or.inl (same other equal ▸ known)
  | @arrived _ _ r appEventTs e other flow info time token same boards =>
      refine recording.keep rfl (fun _ mem => mem) le_rfl
        (fun _ p known => Or.inl ⟨p, known, rfl⟩)
        (fun _ _ _ mem => Or.inl (List.mem_cons_of_mem _ (by simpa using mem)))
        (fun _ known => Or.inl known) (fun _ known => Or.inl known)
        (fun _ _ _ _ mem => Or.inl (List.mem_cons_of_mem _ (by simpa using mem)))
        (fun _ _ carries => Or.inl carries) ?_ (fun _ _ _ mem => Or.inl mem)
      intro ended startTime endTime mem
      rcases List.mem_cons.mp mem with equal | mem
      · cases equal
        exact Or.inr (Or.inr (recording.board (List.mem_cons_of_mem _ boards)))
      · exact Or.inl (List.mem_cons_of_mem _ mem)
  | reach queued =>
      refine recording.keep rfl (fun _ mem => mem) le_rfl
        (fun _ p known => Or.inl ⟨p, known, rfl⟩) (fun _ _ _ mem => by simp at mem)
        (fun _ known => Or.inl known) (fun _ known => Or.inl known)
        (fun _ _ _ _ mem => by simp at mem) (fun _ _ carries => Or.inl carries) ?_
        (fun _ _ _ mem => Or.inl mem)
      intro ended startTime endTime mem
      cases List.mem_singleton.mp mem
      exact Or.inr (Or.inl rfl)
  | stop queued known =>
      refine recording.keep rfl (fun _ mem => mem) le_rfl
        (fun _ p known => Or.inl ⟨p, known, rfl⟩) (fun _ _ _ mem => by simp at mem)
        (fun _ known => Or.inl known) (fun _ known => Or.inl (left_of_update_none known))
        (fun _ _ _ _ mem => by simp at mem) (fun _ _ carries => Or.inl carries) ?_
        (fun _ _ _ mem => Or.inl mem)
      intro ended startTime endTime mem
      cases List.mem_singleton.mp mem
      exact Or.inr (Or.inr (recording.started (Option.ne_none_iff_exists'.mpr ⟨_, known⟩)))
  | startComputation counter queued known =>
      refine recording.keep rfl (fun _ mem => mem) le_rfl
        (fun _ p known => Or.inl ⟨p, known, rfl⟩) (fun _ _ _ mem => Or.inl mem)
        (fun _ known => Or.inl (left_of_update_none known)) ?_ (fun _ _ _ _ mem => Or.inl mem)
        (fun _ _ carries => Or.inl carries) (fun _ _ _ mem => Or.inl mem)
        (fun _ _ _ mem => Or.inl mem)
      exact fun other isStarted => recording.started_update known isStarted
  | startFlow queued known =>
      refine recording.keep rfl (fun _ mem => mem) le_rfl
        (fun _ p known => Or.inl ⟨p, known, rfl⟩) (fun _ _ _ mem => Or.inl mem)
        (fun _ known => Or.inl (left_of_update_none known)) ?_ (fun _ _ _ _ mem => Or.inl mem)
        (fun _ _ carries => Or.inl carries) (fun _ _ _ mem => Or.inl mem)
        (fun _ _ _ mem => Or.inl mem)
      exact fun other isStarted => recording.started_update known isStarted
  | @finish _ _ e startTime endTime pending released noted =>
      refine recording.keep rfl (fun _ mem => mem) le_rfl ?_
        (fun _ _ _ mem => Or.inl (List.mem_cons_of_mem _ (by simpa using mem)))
        (fun _ known => Or.inl known) (fun _ known => Or.inl known)
        (fun _ _ _ _ mem => Or.inl (List.mem_cons_of_mem _ (by simpa using mem)))
        (fun _ _ carries => Or.inl carries)
        (fun _ _ _ mem => Or.inl (List.mem_cons_of_mem _ (by simpa using mem))) ?_
      · intro other p' known
        rcases noted.eq_some known with ⟨p, old, rfl | ⟨_, rfl⟩⟩
        · exact Or.inl ⟨p', old, rfl⟩
        · exact Or.inl ⟨p, old, (Pending.action_noted e endTime p).symm⟩
      · intro other start last mem
        rcases List.mem_cons.mp mem with same | mem
        · cases same
          exact Or.inr (recording.finish List.mem_cons_self)
        · exact Or.inl mem
  | @add _ dependsOn action time rev depends arriveTime valid registered empty =>
      refine recording.keep rfl (fun _ mem => List.mem_cons_of_mem _ mem) (Nat.le_succ _)
        (fun _ p known => Or.inl ⟨p, known, rfl⟩) ?_ (fun _ known => Or.inl known)
        (fun _ known => Or.inl known) (fun _ _ _ _ mem => by simp at mem)
        (fun _ _ carries => Or.inl carries) (fun _ _ _ mem => by simp at mem)
        (fun _ _ _ mem => Or.inl mem)
      intro e action' time' mem
      cases List.mem_singleton.mp mem
      exact Or.inr ⟨Nat.lt_succ_self _, ⟨dependsOn, time, List.mem_cons_self⟩,
        recording.not_acted_new⟩
  | @wait _ dependsOn action time rev depends arriveTime valid registered nonempty =>
      refine recording.keep rfl (fun _ mem => List.mem_cons_of_mem _ mem) (Nat.le_succ _) ?_
        (fun _ _ _ mem => Or.inl mem) (fun _ known => Or.inl known)
        (fun _ known => Or.inl known) (fun _ _ _ _ mem => Or.inl mem)
        (fun _ _ carries => Or.inl carries) (fun _ _ _ mem => Or.inl mem)
        (fun _ _ _ mem => Or.inl mem)
      intro e p' known
      by_cases same : e = queue.eventCounter
      · subst e
        cases (Function.update_self queue.eventCounter _ queue.pending).symm.trans known
        exact Or.inr ⟨⟨dependsOn, time, List.mem_cons_self⟩, recording.not_acted_new⟩
      · exact Or.inl ⟨p', (Function.update_of_ne same _ _).symm.trans known, rfl⟩
  | register valid ended =>
      exact recording.keep rfl (fun _ mem => mem) le_rfl (fun _ p known => Or.inl ⟨p, known, rfl⟩)
        (fun _ _ _ mem => Or.inl mem) (fun _ known => Or.inl known)
        (fun _ known => Or.inl known) (fun _ _ _ _ mem => Or.inl mem)
        (fun _ _ carries => Or.inl carries) (fun _ _ _ mem => Or.inl mem)
        (fun _ _ _ mem => Or.inl mem)
  | @depend _ e d p valid unended known =>
      exact recording.keep rfl (fun _ mem => mem) le_rfl
        (fun _ _ known' => Or.inl (amended_eq_some known known'))
        (fun _ _ _ mem => Or.inl mem) (fun _ known => Or.inl known)
        (fun _ known => Or.inl known) (fun _ _ _ _ mem => Or.inl mem)
        (fun _ _ carries => Or.inl carries) (fun _ _ _ mem => Or.inl mem)
        (fun _ _ _ mem => Or.inl mem)
  | @block _ e p known =>
      exact recording.keep rfl (fun _ mem => mem) le_rfl
        (fun _ _ known' => Or.inl (amended_eq_some known known'))
        (fun _ _ _ mem => Or.inl mem) (fun _ known => Or.inl known)
        (fun _ known => Or.inl known) (fun _ _ _ _ mem => Or.inl mem)
        (fun _ _ carries => Or.inl carries) (fun _ _ _ mem => Or.inl mem)
        (fun _ _ _ mem => Or.inl mem)
  | @unblock _ e p known =>
      exact recording.keep rfl (fun _ mem => mem) le_rfl
        (fun _ _ known' => Or.inl (amended_eq_some known known'))
        (fun _ _ _ mem => by split at mem <;> simp at mem) (fun _ known => Or.inl known)
        (fun _ known => Or.inl known) (fun _ _ _ _ mem => by split at mem <;> simp at mem)
        (fun _ _ carries => Or.inl carries) (fun _ _ _ mem => by split at mem <;> simp at mem)
        (fun _ _ _ mem => Or.inl mem)

/-- The invariants of the queue between calls, with what it has recorded. -/
structure Recorded (queue : EventQueue) : Prop where
  tracked : Tracked queue
  recording : Recording [] queue

theorem Initial.recorded (initial : Initial queue) : Recorded queue := by
  refine ⟨initial.tracked, ?_⟩
  rcases initial with ⟨cluster, setting, hostMapping, rfl⟩
  refine ⟨List.nodup_nil, ?_, ?_, ?_, ?_, ?_, ?_, ?_, ?_, ?_, ?_⟩
  · exact fun mem => absurd mem List.not_mem_nil
  · exact fun mem => absurd mem List.not_mem_nil
  · exact fun mem => absurd mem List.not_mem_nil
  · exact fun known => absurd known.symm (Option.some_ne_none _)
  · exact fun known => absurd rfl known
  · exact fun known => absurd rfl known
  · exact fun mem => absurd mem List.not_mem_nil
  · exact fun carries => absurd carries.1 (Nat.not_lt_zero _)
  · exact fun mem => absurd mem List.not_mem_nil
  · exact fun mem => absurd mem List.not_mem_nil

/-- A call records the actions that it launches and the ends that it finds. -/
theorem Step.recorded {call : Call} (step : Step platform queue call queue')
    (valid : call.Valid queue) (recorded : Recorded queue) : Recorded queue' := by
  have works := step.works valid
  refine ⟨works.tracked recorded.tracked, ?_⟩
  have all := works.invariant
    (fun config => (Flows config.1 config.2 ∧ Spots config.1 config.2) ∧
      Recording config.1 config.2)
    (fun {first second} before small =>
      ⟨⟨flows_small before.1.1 before.1.2.deferred small, spots_small before.1.1 before.1.2 small⟩,
        recording_small before.2 before.1.1 before.1.2.deferred small⟩)
    ⟨⟨recorded.tracked.flows, recorded.tracked.spots⟩, recorded.recording⟩
  exact all.2

end EventQueue

end Phantora
