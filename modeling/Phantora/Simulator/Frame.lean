import Phantora.EventQueue.Graph
import Phantora.Simulator.Handle

/-!
# What the parts of the server leave unchanged

Inversion lemmas for the operations that the handlers share. Submitting work
changes the queue, the streams and the estimate cache; executing changes the
queue and the records about waiting requests.
-/

namespace Phantora

open Outcome

namespace Simulator

variable {env : Environment} {sim sim' : Simulator}

theorem addActionOrPoint_eq_ok {dependsOn : List (Option EventId)} {action : Option Action}
    {time : ℤ} {id : EventId}
    (run : sim.addActionOrPoint env dependsOn action time = .ok (sim', id)) :
    ∃ queue, sim.queue.addActionOrPoint env.toPlatform dependsOn action time = .ok (queue, id) ∧
      sim' = { sim with queue := queue } := by
  simp only [addActionOrPoint, bind_eq_ok, pure_eq_ok, Prod.exists, Prod.mk.injEq] at run
  rcases run with ⟨queue, _, added, rfl, rfl⟩
  exact ⟨queue, added, rfl⟩

theorem addDependency_eq_ok {id : EventId} {dep : Option EventId}
    (run : sim.addDependency id dep = .ok sim') :
    ∃ queue, sim.queue.addDependency id dep = .ok queue ∧ sim' = { sim with queue := queue } := by
  simp only [addDependency, bind_eq_ok, pure_eq_ok] at run
  rcases run with ⟨queue, added, rfl⟩
  exact ⟨queue, added, rfl⟩

theorem removeNoneDependency_eq_ok {id : EventId}
    (run : sim.removeNoneDependency env id = .ok sim') :
    ∃ queue, sim.queue.removeNoneDependency env.toPlatform id = .ok queue ∧
      sim' = { sim with queue := queue } := by
  simp only [removeNoneDependency, bind_eq_ok, pure_eq_ok] at run
  rcases run with ⟨queue, removed, rfl⟩
  exact ⟨queue, removed, rfl⟩

theorem submit_eq_ok {stream : HostStream} {dependsOn : List (Option EventId)}
    {action : Option Action} {time : ℤ} {id : EventId}
    (run : sim.submit env stream dependsOn action time = .ok (sim', id)) :
    ∃ queue, sim.queue.addActionOrPoint env.toPlatform
        (dependsOn ++ ((sim.lastEvent stream).map some).toList) action time = .ok (queue, id) ∧
      sim' = { sim with
        queue := queue
        streamInfo := sim.streamInfo.modify stream fun sinfo =>
          { sinfo with events := sinfo.events ++ [id] } } := by
  simp only [submit, bind_eq_ok, pure_eq_ok, Prod.exists, Prod.mk.injEq] at run
  rcases run with ⟨middle, _, submitted, rfl, rfl⟩
  rcases addActionOrPoint_eq_ok submitted with ⟨queue, added, rfl⟩
  exact ⟨queue, added, rfl⟩

/-- Only the queue, the streams and the estimate cache differ. -/
def OnlySubmits (sim sim' : Simulator) : Prop :=
  ∃ queue streamInfo estimator, sim' =
    { sim with queue := queue, streamInfo := streamInfo, torchEstimator := estimator }

theorem OnlySubmits.refl (sim : Simulator) : OnlySubmits sim sim :=
  ⟨sim.queue, sim.streamInfo, sim.torchEstimator, rfl⟩

theorem OnlySubmits.trans {first second third : Simulator} (left : OnlySubmits first second)
    (right : OnlySubmits second third) : OnlySubmits first third := by
  rcases left with ⟨_, _, _, rfl⟩
  rcases right with ⟨queue, streamInfo, estimator, rfl⟩
  exact ⟨queue, streamInfo, estimator, rfl⟩

theorem addActionOrPoint_onlySubmits {dependsOn : List (Option EventId)} {action : Option Action}
    {time : ℤ} {id : EventId}
    (run : sim.addActionOrPoint env dependsOn action time = .ok (sim', id)) :
    OnlySubmits sim sim' := by
  rcases addActionOrPoint_eq_ok run with ⟨queue, _, rfl⟩
  exact ⟨queue, sim.streamInfo, sim.torchEstimator, rfl⟩

theorem submit_onlySubmits {stream : HostStream} {dependsOn : List (Option EventId)}
    {action : Option Action} {time : ℤ} {id : EventId}
    (run : sim.submit env stream dependsOn action time = .ok (sim', id)) :
    OnlySubmits sim sim' := by
  rcases submit_eq_ok run with ⟨queue, _, rfl⟩
  exact ⟨queue, _, sim.torchEstimator, rfl⟩

theorem submitCalls_onlySubmits {stream : HostStream} {calls : List TorchCall} {durs : List ℕ}
    (run : submitCalls env stream calls durs sim = .ok sim') : OnlySubmits sim sim' := by
  induction calls generalizing sim durs with
  | nil =>
      simp only [submitCalls, Except.ok.injEq] at run
      exact run ▸ .refl sim
  | cons call calls ih =>
      simp only [submitCalls, bind_eq_ok, Prod.exists] at run
      rcases run with ⟨_, _, middle, _, submitted, rest⟩
      exact (submit_onlySubmits submitted).trans (ih rest)

theorem submitSeq_onlySubmits {stream : HostStream} {seq : TorchCallSeq}
    (run : submitSeq env stream sim seq = .ok sim') : OnlySubmits sim sim' := by
  cases seq with
  | single call duration => exact submitCalls_onlySubmits run
  | seq calls =>
      refine OnlySubmits.trans ?_ (submitCalls_onlySubmits run)
      exact ⟨sim.queue, sim.streamInfo, _, rfl⟩

theorem clearComputeBufferOn_onlySubmits {stream : HostStream}
    (run : sim.clearComputeBufferOn env stream = .ok sim') : OnlySubmits sim sim' := by
  refine foldlM_invariant (OnlySubmits sim) ?_ ?_ run
  · intro _ _ _ _ earlier step
    exact earlier.trans (submitSeq_onlySubmits step)
  · exact ⟨sim.queue, _, sim.torchEstimator, rfl⟩

theorem collectLasts_onlySubmits {streams : List HostStream}
    {acc : Simulator × List (Option EventId)}
    (run : streams.foldlM (collectLast env) (sim, []) = .ok acc) : OnlySubmits sim acc.1 := by
  refine foldlM_invariant (fun acc : Simulator × List (Option EventId) => OnlySubmits sim acc.1)
    ?_ (.refl sim) run
  intro acc stream acc' _ earlier step
  simp only [collectLast, bind_eq_ok, pure_eq_ok] at step
  rcases step with ⟨flushed, cleared, rfl⟩
  exact earlier.trans (clearComputeBufferOn_onlySubmits cleared)

theorem addEvent_onlySubmits {stream : HostStream} {dependsOn : List (Option EventId)}
    {action : Option Action} {time : ℤ} {id : EventId}
    (run : sim.addEvent env stream dependsOn action time = .ok (sim', id)) :
    OnlySubmits sim sim' := by
  simp only [addEvent, bind_eq_ok] at run
  rcases run with ⟨middle, cleared, submitted⟩
  exact (clearComputeBufferOn_onlySubmits cleared).trans (submit_onlySubmits submitted)

/-- The queue is executed; only the records about waiting requests differ otherwise. -/
def OnlyExecutes (platform : Platform) (sim sim' : Simulator) : Prop :=
  ∃ queue syncing hostTimes sent history,
    EventQueue.Evolves platform EventQueue.Call.Executes sim.queue queue ∧
      sim.history <:+ history ∧ sim' = { sim with
        queue := queue
        syncing := syncing
        hostTimes := hostTimes
        sent := sent
        history := history }

namespace OnlyExecutes

variable {platform : Platform}

theorem refl (sim : Simulator) : OnlyExecutes platform sim sim :=
  ⟨sim.queue, sim.syncing, sim.hostTimes, sim.sent, sim.history, .refl, List.suffix_refl _, rfl⟩

theorem trans {first second third : Simulator} (left : OnlyExecutes platform first second)
    (right : OnlyExecutes platform second third) : OnlyExecutes platform first third := by
  rcases left with ⟨_, _, _, _, _, earlier, old, rfl⟩
  rcases right with ⟨queue, syncing, hostTimes, sent, history, later, new, rfl⟩
  exact ⟨queue, syncing, hostTimes, sent, history, earlier.trans later, old.trans new, rfl⟩

theorem of_step (sim : Simulator) (call : EventQueue.Call) {queue : EventQueue}
    (executes : call.Executes)
    (step : EventQueue.Step platform sim.queue call queue) :
    OnlyExecutes platform sim { sim with queue := queue } :=
  ⟨queue, sim.syncing, sim.hostTimes, sim.sent, sim.history, .single ⟨call, executes, step⟩,
    List.suffix_refl _, rfl⟩

end OnlyExecutes

theorem reportEnd_onlyExecutes {platform : Platform} (sim : Simulator) (id : EventId) (time : ℤ) :
    OnlyExecutes platform sim (sim.reportEnd id time) := by
  simp only [reportEnd]
  split
  · exact ⟨sim.queue, _, _, _, _, .refl,
      (List.suffix_cons _ _).trans (List.suffix_cons _ _), rfl⟩
  · exact ⟨sim.queue, _, _, _, _, .refl, List.suffix_cons _ _, rfl⟩

/-- The state after a step of the queue: the end of an event is reported. -/
def observe (sim : Simulator) (queue : EventQueue) : QueueStep → Simulator
  | .eventEnded id time => { sim with queue := queue }.reportEnd id time
  | .reachedPoint id time => { sim with queue := queue }.reportEnd id time
  | _ => { sim with queue := queue }

/-- Executing to an event keeps what every step of the queue keeps. -/
theorem executeToEvent_invariant (P : Simulator → Prop)
    (steps : ∀ {sim queue step}, P sim →
      sim.queue.execute env.toPlatform = .ok (queue, step) → P (sim.observe queue step))
    {until_ : EventId} {fuel : ℕ} {reached : Bool} (start : P sim)
    (run : executeToEvent env until_ fuel sim = .ok (sim', reached)) : P sim' := by
  induction fuel generalizing sim with
  | zero => simp [executeToEvent] at run
  | succ fuel ih =>
      simp only [executeToEvent, bind_eq_ok, Prod.exists] at run
      rcases run with ⟨queue, step, executed, run⟩
      have next := steps start executed
      cases step with
      | emptyQueue =>
          simp only [pure_eq_ok, Prod.mk.injEq] at run
          exact run.1 ▸ next
      | eventStarted id time => exact ih next run
      | eventEnded id time =>
          dsimp only at run
          split at run
          · simp only [pure_eq_ok, Prod.mk.injEq] at run
            exact run.1 ▸ next
          · exact ih next run
      | reachedPoint id time =>
          dsimp only at run
          split at run
          · simp only [pure_eq_ok, Prod.mk.injEq] at run
            exact run.1 ▸ next
          · exact ih next run

/-- Executing to a time keeps what looking at the queue and every step of it keep. -/
theorem executeToTime_invariant (P : Simulator → Prop)
    (peeks : ∀ {sim queue time}, P sim →
      sim.queue.peekNextTime env.toPlatform = .ok (queue, time) → P { sim with queue := queue })
    (steps : ∀ {sim queue step}, P sim →
      sim.queue.execute env.toPlatform = .ok (queue, step) → P (sim.observe queue step))
    {until_ : ℤ} {fuel : ℕ} {stopped : Bool} (start : P sim)
    (run : executeToTime env until_ fuel sim = .ok (sim', stopped)) : P sim' := by
  induction fuel generalizing sim with
  | zero => simp [executeToTime] at run
  | succ fuel ih =>
      simp only [executeToTime, bind_eq_ok, Prod.exists] at run
      rcases run with ⟨peeked, next, peek, run⟩
      have looked := peeks start peek
      cases next with
      | none =>
          simp only [pure_eq_ok, Prod.mk.injEq] at run
          exact run.1 ▸ looked
      | some nextTime =>
          dsimp only at run
          split at run
          · simp only [pure_eq_ok, Prod.mk.injEq] at run
            exact run.1 ▸ looked
          · simp only [bind_eq_ok, Prod.exists] at run
            rcases run with ⟨queue, step, executed, run⟩
            have next := steps looked executed
            cases step with
            | emptyQueue =>
                simp only [pure_eq_ok, Prod.mk.injEq] at run
                exact run.1 ▸ next
            | eventStarted id time => exact ih next run
            | eventEnded id time => exact ih next run
            | reachedPoint id time => exact ih next run

theorem observe_onlyExecutes {platform : Platform} {queue : EventQueue} {step : QueueStep}
    (executed : sim.queue.execute platform = .ok (queue, step)) :
    OnlyExecutes platform sim (sim.observe queue step) := by
  have stepped := OnlyExecutes.of_step sim .execute trivial
    (EventQueue.execute_step executed)
  cases step with
  | emptyQueue => exact stepped
  | eventStarted id time => exact stepped
  | eventEnded id time => exact stepped.trans (reportEnd_onlyExecutes _ id time)
  | reachedPoint id time => exact stepped.trans (reportEnd_onlyExecutes _ id time)

theorem executeToEvent_onlyExecutes {until_ : EventId} {fuel : ℕ} {reached : Bool}
    (run : executeToEvent env until_ fuel sim = .ok (sim', reached)) :
    OnlyExecutes env.toPlatform sim sim' := by
  refine executeToEvent_invariant (OnlyExecutes env.toPlatform sim) ?_ (.refl sim) run
  intro middle queue step earlier executed
  exact earlier.trans (observe_onlyExecutes executed)

theorem executeToTime_onlyExecutes {until_ : ℤ} {fuel : ℕ} {stopped : Bool}
    (run : executeToTime env until_ fuel sim = .ok (sim', stopped)) :
    OnlyExecutes env.toPlatform sim sim' := by
  refine executeToTime_invariant (OnlyExecutes env.toPlatform sim) ?_ ?_ (.refl sim) run
  · intro middle queue time earlier peeked
    exact earlier.trans (.of_step _ .peekNextTime trivial (EventQueue.peekNextTime_step peeked))
  · intro middle queue step earlier executed
    exact earlier.trans (observe_onlyExecutes executed)

theorem updateHostCurr_onlyExecutes (platform : Platform) (sim : Simulator) (host : HostId)
    (time : ℤ) : OnlyExecutes platform sim (sim.updateHostCurr host time) :=
  ⟨sim.queue, _, _, _, _, .refl, List.suffix_refl _, rfl⟩

theorem sendSyncResponseTo_onlyExecutes (platform : Platform) (sim : Simulator)
    (host : ResponseId) (time : ℤ) (event : Option EventId) :
    OnlyExecutes platform sim (sim.sendSyncResponseTo host time event) :=
  ⟨sim.queue, _, _, _, _, .refl, List.suffix_cons _ _, rfl⟩

theorem replyToPoll_onlyExecutes (platform : Platform) (sim : Simulator) (host : ResponseId)
    (time : ℤ) (event : Option EventId) (ready : Option (ℤ × Option EventId)) :
    OnlyExecutes platform sim (sim.replyToPoll host time event ready) := by
  cases ready with
  | none => exact ⟨sim.queue, _, _, _, _, .refl, List.suffix_cons _ _, rfl⟩
  | some reply => exact ⟨sim.queue, _, _, _, _, .refl, List.suffix_cons _ _, rfl⟩

/-- Communicators are formed; the replies that are sent report no event. -/
def OnlyManages (sim sim' : Simulator) : Prop :=
  ∃ hostTimes sent replies ncclUniqueId commGroups initWaiting splitWaiting,
    (∀ occurrence ∈ replies, ∃ host time, occurrence = Occurrence.synced host time none) ∧
      sim' = { sim with
        hostTimes := hostTimes
        sent := sent
        history := replies ++ sim.history
        ncclUniqueId := ncclUniqueId
        commGroups := commGroups
        initWaiting := initWaiting
        splitWaiting := splitWaiting }

namespace OnlyManages

theorem of_unnoted {ncclUniqueId : NcclId} {hostTimes : HostId → Option HostTime}
    {sent : List (ResponseId × Response)} {commGroups : NcclId → Option Ranks}
    {initWaiting : NcclId → Option InitWaiting} {splitWaiting : NcclId → Option SplitWaiting} :
    OnlyManages sim { sim with
      hostTimes := hostTimes
      sent := sent
      ncclUniqueId := ncclUniqueId
      commGroups := commGroups
      initWaiting := initWaiting
      splitWaiting := splitWaiting } :=
  ⟨_, _, [], _, _, _, _, by simp, rfl⟩

theorem trans {first second third : Simulator} (left : OnlyManages first second)
    (right : OnlyManages second third) : OnlyManages first third := by
  rcases left with ⟨_, _, earlier, _, _, _, _, early, rfl⟩
  rcases right with ⟨hostTimes, sent, later, id, commGroups, inits, splits, late, rfl⟩
  refine ⟨hostTimes, sent, later ++ earlier, id, commGroups, inits, splits, ?_, ?_⟩
  · intro occurrence mem
    rcases List.mem_append.mp mem with mem | mem
    · exact late occurrence mem
    · exact early occurrence mem
  · rw [List.append_assoc]

theorem foldl {α : Type} {f : Simulator → α → Simulator} {items : List α}
    (step : ∀ sim item, OnlyManages sim (f sim item)) (sim : Simulator) :
    OnlyManages sim (items.foldl f sim) := by
  induction items generalizing sim with
  | nil => exact .of_unnoted
  | cons item items ih => exact (step sim item).trans (ih _)

end OnlyManages

theorem formCommunicator_onlyManages (time : ℤ) (sim : Simulator) (members : List SplitInfo) :
    OnlyManages sim (sim.formCommunicator time members) := by
  refine OnlyManages.trans (OnlyManages.trans .of_unnoted (OnlyManages.foldl ?_ _)) .of_unnoted
  intro sim member
  exact .of_unnoted

theorem splitCommunicator_onlyManages (sim : Simulator) (time : ℤ) (waiting : SplitWaiting) :
    OnlyManages sim (sim.splitCommunicator env time waiting) := by
  refine OnlyManages.trans (OnlyManages.foldl ?_ _) (OnlyManages.foldl ?_ _)
  · intro sim info
    exact .of_unnoted
  · intro sim group
    exact formCommunicator_onlyManages time sim group.2

theorem ncclCommInitRank_eq_ok {host : ResponseId} {time device rank nranks : ℤ} {id : NcclId}
    (run : sim.ncclCommInitRank env host time device rank nranks id = .ok sim') :
    ∃ middle stopped, executeToTime env time env.fuel sim = .ok (middle, stopped) ∧
      OnlyManages middle sim' := by
  simp only [ncclCommInitRank, bind_eq_ok, Prod.exists] at run
  rcases run with ⟨middle, stopped, executed, run⟩
  refine ⟨middle, stopped, executed, ?_⟩
  split at run
  · simp only [pure_eq_ok] at run
    exact run ▸ .of_unnoted
  · split at run
    · simp only [bind_eq_ok, pure_eq_ok] at run
      rcases run with ⟨members, _, rfl⟩
      refine OnlyManages.trans (OnlyManages.trans .of_unnoted (OnlyManages.foldl ?_ _)) .of_unnoted
      intro sim member
      exact ⟨_, _, [.synced member.1 time none], _, _, _, _, by simp, rfl⟩
    · simp only [pure_eq_ok] at run
      exact run ▸ .of_unnoted

theorem ncclCommSplit_eq_ok {host : ResponseId} {time color key : ℤ} {comm : NcclComm}
    (run : sim.ncclCommSplit env host time comm color key = .ok sim') :
    ∃ middle stopped, executeToTime env time env.fuel sim = .ok (middle, stopped) ∧
      OnlyManages middle sim' := by
  simp only [ncclCommSplit, bind_eq_ok, Prod.exists] at run
  rcases run with ⟨middle, stopped, executed, run⟩
  refine ⟨middle, stopped, executed, ?_⟩
  split at run
  · split at run
    · simp only [pure_eq_ok] at run
      exact run ▸ .of_unnoted
    · split at run
      · simp only [pure_eq_ok] at run
        exact run ▸ (splitCommunicator_onlyManages _ _ _).trans .of_unnoted
      · simp only [pure_eq_ok] at run
        exact run ▸ .of_unnoted
  · simp only [pure_eq_ok] at run
    exact run ▸ .of_unnoted

end Simulator

end Phantora
