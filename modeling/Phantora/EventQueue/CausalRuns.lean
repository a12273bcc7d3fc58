import Phantora.EventQueue.Rollback

/-!
# Causality of whole runs

Every call of the event queue keeps the causal invariant, provided that no
flow is rolled back after its end has been recorded and that no dependency is
attached that has ended after the start of its dependent. Without the first
proviso the code misses dependents, as the run at the end of the file shows.
-/

namespace Phantora

open Outcome

namespace EventQueue

variable {platform : Platform} {paced : Prop} {queue queue' : EventQueue} {id : EventId}

theorem causal_new (cluster : Netsim.Cluster) (setting : Netsim.SimulatorSetting)
    (hostMapping : Option (String → Option String)) :
    Causal paced ∅ (new (Netsim.Simulator.build cluster setting hostMapping)) := by
  have notQueued : ∀ event,
      ¬(new (Netsim.Simulator.build cluster setting hostMapping)).Queued event := by
    rintro event ⟨priority, mem⟩
    exact PriorityQueue.not_mem_empty _ mem
  have notCarried : ∀ {ref e},
      ¬(new (Netsim.Simulator.build cluster setting hostMapping)).Carries ref e :=
    fun carries => Nat.not_lt_zero _ carries.1
  have notFixed : ∀ {e time},
      ¬(new (Netsim.Simulator.build cluster setting hostMapping)).StartFixed e time := by
    rintro e time (⟨k, mem⟩ | ⟨k, mem⟩ | known | ⟨u, known⟩ | ⟨ref, carries, _⟩)
    · exact notQueued _ ⟨_, mem⟩
    · exact notQueued _ ⟨_, mem⟩
    · exact Option.some_ne_none _ known.symm
    · exact Option.some_ne_none _ known.symm
    · exact notCarried carries
  have notLaunched : ∀ {e},
      ¬(new (Netsim.Simulator.build cluster setting hostMapping)).Launched e := by
    rintro e (⟨time, fixed⟩ | queued)
    · exact notFixed fixed
    · exact notQueued _ queued
  exact {
    sound := Netsim.Simulator.sound_build cluster setting hostMapping
    arrived := fun lt => absurd lt (Nat.not_lt_zero _)
    flowIds := fun known => absurd known.symm (Option.some_ne_none _)
    issued := fun _ => ⟨rfl, notLaunched, rfl⟩
    revIssued := fun _ _ _ mem => absurd mem List.not_mem_nil
    startAction := fun known => absurd known.symm (Option.some_ne_none _)
    pendingAction := fun known => absurd known.symm (Option.some_ne_none _)
    points := fun queued => absurd queued (notQueued _)
    waiting := fun known => absurd known.symm (Option.some_ne_none _)
    unique := fun here => absurd here (not_at_of_not_launched notLaunched _)
    settled := fun queued => absurd queued (notQueued _)
    logged := fun known => absurd rfl known
    timely := fun fixed => absurd fixed notFixed
    waits := fun _ _ _ _ known => absurd known.symm (Option.some_ne_none _) }

/-- The ends of the flows that completed in one step of the network are queued. -/
theorem pushEnds_causal {refs : List Netsim.FlowRef} {appEventTs : ℕ}
    {report : Netsim.FlowRef → Netsim.TraceRecord}
    (run : (refs.map report).foldlM (queueFlowEnd platform appEventTs) queue = .ok queue')
    (causal : Causal paced ∅ queue)
    (completed : ∀ ref ∈ refs, ref ∈ queue.netsim.state.retiredFlows ∧
      (report ref).flow = (queue.netsim.state.arena ref).flow ∧
      ∃ e, queue.Carries ref e ∧ queue.ended e = none) :
    Causal paced ∅ queue' := by
  induction refs generalizing queue with
  | nil =>
      simp only [List.map_nil, List.foldlM_nil, pure_eq_ok] at run
      exact run ▸ causal
  | cons ref refs ih =>
      rcases completed ref List.mem_cons_self with ⟨retired, sameFlow, e, carries, unended⟩
      simp only [List.map_cons, List.foldlM_cons, queueFlowEnd, bind_eq_ok, unwrap_eq_ok,
        assert_eq_ok] at run
      rcases run with ⟨middle, ⟨event, token, _, _, _, _, pushed⟩, rest⟩
      have sameEvent : event = e := by
        rw [sameFlow, carries.2] at token
        exact (Option.some.inj token).symm
      subst event
      have launched : queue.Launched e := Or.inl ⟨_, .flow carries⟩
      unfold push at pushed
      cases fuel : platform.fuel with
      | zero =>
          rw [fuel] at pushed
          simp [pushEvent] at pushed
      | succ n =>
          rw [fuel] at pushed
          simp only [pushEvent, Except.ok.injEq] at pushed
          subst pushed
          refine ih rest ((causal.count _).pushEnd (appEventTs / 1000 : ℕ) queue.queueCounter
            (causal.lt_of_launched launched) (causal.pending_of_launched launched)
            (fun place here => causal.place_of_retired carries retired unended here)
            (fun carries' => causal.ref_unique carries carries' ▸ retired)) ?_
          exact fun other mem => completed other (List.mem_cons_of_mem _ mem)

/-- A step of the network keeps the invariant. -/
theorem tryProceedNetsim_causal {proceeded : Bool}
    (run : queue.tryProceedNetsim platform = .ok (queue', proceeded))
    (causal : Causal paced ∅ queue) : Causal paced ∅ queue' := by
  simp only [tryProceedNetsim, bind_eq_ok, Prod.exists] at run
  rcases run with ⟨middle, appEventTs, flows, stepped, run⟩
  rcases netsimRunOneStep_eq_ok stepped with ⟨netsim, netsimStep, rfl⟩
  rcases Netsim.Simulator.runOneStep_eq_ok causal.sound netsimStep with ⟨done, moved, _, report, _⟩
  simp only [Netsim.AppEvent.mk.injEq, Netsim.AppEventKind.flowComplete.injEq] at report
  rcases causal.move moved with ⟨causal', carriesIff⟩
  split at run
  · simp only [pure_eq_ok, Prod.mk.injEq] at run
    exact run.1 ▸ causal'
  · simp only [bind_eq_ok, pure_eq_ok, Prod.mk.injEq] at run
    rcases run with ⟨final, pushed, rfl, _⟩
    rw [report.2] at pushed
    refine pushEnds_causal pushed causal' fun ref mem => ?_
    rcases causal.newlyRetired moved mem with ⟨retired, e, carries, unended⟩
    exact ⟨retired, rfl, e, carriesIff.mpr carries, unended⟩

theorem peekNextTimeLoop_causal {fuel : ℕ} {time : Option ℤ}
    (run : peekNextTimeLoop platform fuel queue = .ok (queue', time))
    (causal : Causal paced ∅ queue) : Causal paced ∅ queue' := by
  induction fuel generalizing queue with
  | zero => simp [peekNextTimeLoop] at run
  | succ fuel ih =>
      simp only [peekNextTimeLoop] at run
      split at run
      · simp only [Except.ok.injEq, Prod.mk.injEq] at run
        exact run.1 ▸ causal
      · simp only [bind_eq_ok, Prod.exists] at run
        rcases run with ⟨middle, proceeded, tried, run⟩
        have causal' := tryProceedNetsim_causal tried causal
        split at run
        · exact ih run causal'
        · simp only [pure_eq_ok, Prod.mk.injEq] at run
          exact run.1 ▸ causal'

/-- Taking an entry from the queue keeps the invariant. -/
theorem Causal.pop (causal : Causal paced ∅ queue) (event : QueueEvent) :
    Causal paced ∅ { queue with eventQueue := queue.eventQueue.erase event } :=
  causal.forget (fun mem => (PriorityQueue.mem_erase.mp mem).2) (fun known => known)
    (fun known => known) (fun mem => mem)

/-- Handling an entry keeps the invariant. -/
theorem executeEvent_causal {event : QueueEvent} {time : ℤ} {counter : ℕ} {step : QueueStep}
    (run : executeEvent platform { queue with eventQueue := queue.eventQueue.erase event } event
      time = .ok (queue', step))
    (clean : Undisturbed queue'.log) (causal : Causal paced ∅ queue)
    (mem : (event, toLex (time, counter)) ∈ queue.eventQueue) : Causal paced ∅ queue' := by
  have popped := causal.pop event
  have queued : queue.Queued event := ⟨_, mem⟩
  have notQueued : ¬({ queue with eventQueue := queue.eventQueue.erase event } :
      EventQueue).Queued event := fun ⟨_, mem'⟩ => (PriorityQueue.mem_erase.mp mem').1 rfl
  have before : ∀ {e place}, ({ queue with eventQueue := queue.eventQueue.erase event } :
      EventQueue).At e place → queue.At e place := by
    intro e place here
    have older : ∀ {other}, ({ queue with eventQueue := queue.eventQueue.erase event } :
        EventQueue).Queued other → queue.Queued other :=
      fun ⟨priority, mem'⟩ => ⟨priority, (PriorityQueue.mem_erase.mp mem').2⟩
    cases place with
    | starting => exact ⟨here.1, older here.2⟩
    | moving => exact here
    | ending => exact ⟨older here.1, here.2⟩
    | point => exact older here
    | ended => exact here
  cases event with
  | pointOf id =>
      simp only [executeEvent, bind_eq_ok, pure_eq_ok, Prod.mk.injEq] at run
      rcases run with ⟨final, ended, rfl, _⟩
      have fixed : queue.StartFixed id time := .point mem
      have launched : queue.Launched id := Or.inl ⟨time, fixed⟩
      refine (endEventWith_causal (pushRule time) ended clean popped
        (causal.lt_of_launched launched) (causal.pending_of_launched launched)
          (fun place here => ?_)
        (causal.timely fixed) (le_refl _) trivial).1
      have isPoint : Place.point = place := causal.unique queued (before here)
      subst isPoint
      exact notQueued here
  | endOf id =>
      simp only [executeEvent, bind_eq_ok, unwrap_eq_ok, pure_eq_ok, Prod.mk.injEq] at run
      rcases run with ⟨startTime, known, final, ended, rfl, _⟩
      have fixed : queue.StartFixed id startTime := .started known
      have launched : queue.Launched id := Or.inl ⟨startTime, fixed⟩
      have notMoving : ¬queue.Moving id := by
        rintro ⟨ref, carries, notRetired⟩
        rcases causal.settled queued carries with retired | exempted
        · exact notRetired retired
        · exact absurd exempted (Finset.notMem_empty _)
      have isAt : queue.At id .ending := ⟨queued, notMoving⟩
      refine (endEventWith_causal (pushRule time) ended clean (popped.forgetStarted id)
        (causal.lt_of_launched launched) (causal.pending_of_launched launched)
          (fun place here => ?_)
        (causal.timely fixed) (le_refl _) trivial).1
      have isEnding : Place.ending = place := causal.unique isAt (before here)
      subst isEnding
      exact notQueued here.1
  | startOf id =>
      simp only [executeEvent, bind_eq_ok, unwrap_eq_ok, pure_eq_ok, Prod.mk.injEq] at run
      rcases run with ⟨action, known, middle, scheduled, rfl, _⟩
      have fixed : queue.StartFixed id time := .starting mem
      have launched : queue.Launched id := Or.inl ⟨time, fixed⟩
      have issued := causal.lt_of_launched launched
      have absent := causal.pending_of_launched launched
      have forgotten := popped.forgetAction id
      cases action with
      | communication flow info =>
          simp only [scheduleEnd, Except.ok.injEq] at scheduled
          subst scheduled
          exact forgotten.start issued absent (causal.timely fixed)
      | computation node duration info =>
          have noFlow : queue.eventToFlow id = none := by
            have fits := causal.startAction known queued
            simpa [flowOf] using fits
          simp only [scheduleEnd, push] at scheduled
          cases fuel : platform.fuel with
          | zero =>
              rw [fuel] at scheduled
              simp [pushEvent] at scheduled
          | succ n =>
              rw [fuel] at scheduled
              simp only [pushEvent, Except.ok.injEq] at scheduled
              subst scheduled
              have isAt : queue.At id .starting := ⟨noFlow, queued⟩
              have ends := (forgotten.count (queue.queueCounter + 1)).pushEnd (time + duration)
                queue.queueCounter issued absent (fun place here => by
                  have isStarting : Place.starting = place := causal.unique isAt (before here)
                  subst isStarting
                  exact absurd here.2 notQueued)
                (fun carries => by
                  rcases causal.flow_of_carries carries with ⟨flow, known', _⟩
                  exact absurd (known'.symm.trans noFlow) (Option.some_ne_none flow))
              exact ends.start issued absent (causal.timely fixed)

theorem executeLoop_causal {fuel : ℕ} {step : QueueStep}
    (run : executeLoop platform fuel queue = .ok (queue', step))
    (clean : Undisturbed queue'.log) (causal : Causal paced ∅ queue) : Causal paced ∅ queue' := by
  induction fuel generalizing queue with
  | zero => simp [executeLoop] at run
  | succ fuel ih =>
      simp only [executeLoop] at run
      split at run
      · simp only [bind_eq_ok, Prod.exists] at run
        rcases run with ⟨middle, proceeded, tried, run⟩
        have causal' := tryProceedNetsim_causal tried causal
        split at run
        · exact ih run causal'
        · simp only [pure_eq_ok, Prod.mk.injEq] at run
          exact run.1 ▸ causal'
      · rename_i event time popped first
        rcases popEvent_eq_some first with ⟨⟨counter, mem⟩, rfl⟩
        exact executeEvent_causal run clean causal mem

/-- A new event whose flow, if any, is new. -/
theorem Causal.add (causal : Causal paced ∅ queue) {action : Option Action}
    (newFlow : ∀ {flow e known}, flowOf action = some flow → queue.eventToFlow e = some known →
      known.id ≠ flow.id)
    {eventToFlow : EventId → Option Netsim.Flow}
    (flows : ∀ e, eventToFlow e = if e = queue.eventCounter then flowOf action
      else queue.eventToFlow e)
    {rev : EventId → List EventId}
    (revs : ∀ {d e}, e ∈ rev d → e ∈ queue.revDependencies d ∨ e = queue.eventCounter)
    {log : List LogEntry} (logs : ∀ {entry}, entry ∈ queue.log → entry ∈ log) :
    Causal paced ∅ { queue with
      eventCounter := queue.eventCounter + 1
      log := log
      eventToFlow := eventToFlow
      revDependencies := rev } := by
  rcases causal.issued (le_refl queue.eventCounter) with ⟨noPending, unlaunched, noFlow⟩
  have oldFlow : ∀ {e flow}, queue.eventToFlow e = some flow → eventToFlow e = some flow := by
    intro e flow known
    have differs : e ≠ queue.eventCounter := by
      rintro rfl
      exact Option.some_ne_none _ (known.symm.trans noFlow)
    rw [flows, if_neg differs, known]
  have otherFlow : ∀ {e}, queue.Launched e → eventToFlow e = queue.eventToFlow e := by
    intro e launched
    have differs : e ≠ queue.eventCounter := fun same => unlaunched (same ▸ launched)
    rw [flows, if_neg differs]
  have launchedStart : ∀ {e}, queue.Queued (.startOf e) → queue.Launched e :=
    fun ⟨_, mem⟩ => Or.inl ⟨_, .starting mem⟩
  have launchedPoint : ∀ {e}, queue.Queued (.pointOf e) → queue.Launched e :=
    fun ⟨_, mem⟩ => Or.inl ⟨_, .point mem⟩
  have before : ∀ {e place}, ({ queue with
      eventCounter := queue.eventCounter + 1
      log := log
      eventToFlow := eventToFlow
      revDependencies := rev } : EventQueue).At e place → queue.At e place := by
    intro e place here
    cases place with
    | starting => exact ⟨(otherFlow (launchedStart here.2)).symm.trans here.1, here.2⟩
    | moving => exact here
    | ending => exact here
    | point => exact here
    | ended => exact here
  exact { causal with
    arrived := fun lt => by
      rcases causal.arrived lt with ⟨e, flow, carries, known, same⟩
      exact ⟨e, flow, carries, oldFlow known, same⟩
    flowIds := fun {e e' flow flow'} known known' same => by
      dsimp only at known known'
      rw [flows] at known known'
      split at known <;> split at known' <;> rename_i left right
      · exact left.trans right.symm
      · exact absurd same.symm (newFlow known known')
      · exact absurd same (newFlow known' known)
      · exact causal.flowIds known known' same
    issued := fun {e} le => by
      have le' : queue.eventCounter ≤ e := (Nat.le_succ _).trans le
      rcases causal.issued le' with ⟨noPending', unlaunched', noFlow'⟩
      refine ⟨noPending', unlaunched', ?_⟩
      have differs : e ≠ queue.eventCounter := Nat.ne_of_gt le
      show eventToFlow e = none
      rw [flows, if_neg differs, noFlow']
    revIssued := fun track {e d} mem => by
      rcases revs mem with old | rfl
      · exact (causal.revIssued track old).trans (Nat.lt_succ_self _)
      · exact Nat.lt_succ_self _
    startAction := fun {e action'} known queued => by
      show _ ↔ (eventToFlow e).isSome = true
      rw [otherFlow (launchedStart queued)]
      exact causal.startAction known queued
    pendingAction := fun {e pending} known => by
      have differs : e ≠ queue.eventCounter := Nat.ne_of_lt (causal.lt_of_pending known)
      show eventToFlow e = _
      rw [flows, if_neg differs]
      exact causal.pendingAction known
    points := fun queued => (otherFlow (launchedPoint queued)).trans (causal.points queued)
    unique := fun here there => causal.unique (before here) (before there)
    logged := fun isEnded => by
      rcases causal.logged isEnded with ⟨startTime, endTime, mem⟩
      exact ⟨startTime, endTime, logs mem⟩
    timely := fun {e time} fixed track d dep => by
      rcases revs dep with old | rfl
      · exact causal.timely fixed track d old
      · exact absurd (Or.inl ⟨time, fixed⟩) unlaunched
    waits := fun track {e pending d} known dep => by
      rcases revs dep with old | rfl
      · exact causal.waits track known old
      · exact absurd (known.symm.trans noPending) (Option.some_ne_none pending) }

/-- A new pending event. -/
theorem Causal.wait (causal : Causal paced ∅ queue) {e : EventId} {p : Pending}
    (issued : e < queue.eventCounter) (unlaunched : ¬queue.Launched e)
    (flow : queue.eventToFlow e = flowOf p.action)
    (waits : paced → ∀ {d}, e ∈ queue.revDependencies d →
      some d ∈ p.dependencies ∨ queue.EndedBy d (max p.depEndTime p.arriveTime)) :
    Causal paced ∅ { queue with pending := Function.update queue.pending e (some p) } := by
  have known : ∀ {other pending}, Function.update queue.pending e (some p) other = some pending →
      (other = e ∧ pending = p) ∨ queue.pending other = some pending := by
    intro other pending known
    by_cases same : other = e
    · subst other
      exact Or.inl ⟨rfl, by simpa [eq_comm] using known⟩
    · exact Or.inr (by simpa [same] using known)
  exact { causal with
    issued := fun {other} le => by
      rcases causal.issued le with ⟨noPending, unlaunched', noFlow⟩
      refine ⟨?_, unlaunched', noFlow⟩
      have differs : other ≠ e := Nat.ne_of_gt (issued.trans_le le)
      show Function.update queue.pending e (some p) other = none
      rw [Function.update_of_ne differs, noPending]
    pendingAction := fun here => by
      rcases known here with ⟨rfl, rfl⟩ | old
      · exact flow
      · exact causal.pendingAction old
    waiting := fun here => by
      rcases known here with ⟨rfl, rfl⟩ | old
      · exact unlaunched
      · exact causal.waiting old
    waits := fun track _ _ _ here dep => by
      rcases known here with ⟨rfl, rfl⟩ | old
      · exact waits track dep
      · exact causal.waits track old dep }

/-- A start recorded for an event, which may still wait. -/
def StartRecorded (queue : EventQueue) (e : EventId) (time : ℤ) : Prop :=
  queue.StartFixed e time ∨
    ∃ p, queue.pending e = some p ∧ time = max p.depEndTime p.arriveTime

/-- The call attaches no dependency that has ended after a start recorded for its dependent. -/
def AttachesInTime (queue : EventQueue) : Call → Prop
  | .addDependency id (some dep) => ∀ startTime endTime,
      queue.ended dep = some (startTime, endTime) →
      id < queue.eventCounter ∧ ∀ time, queue.StartRecorded id time → endTime ≤ time
  | _ => True

theorem addActionOrPoint_causal {dependsOn : List (Option EventId)} {action : Option Action}
    {time : ℤ} (run : queue.addActionOrPoint platform dependsOn action time = .ok (queue', id))
    (clean : Undisturbed queue'.log) (causal : Causal paced ∅ queue)
    (newFlow : ∀ {flow e known}, flowOf action = some flow → queue.eventToFlow e = some known →
      known.id ≠ flow.id) : Causal paced ∅ queue' := by
  simp only [addActionOrPoint] at run
  rcases causal.issued (le_refl queue.eventCounter) with ⟨noPending, unlaunched, noFlow⟩
  rcases registerDependencies_eq queue.eventCounter dependsOn
    (queue.issue dependsOn action time) ∅ time with
    ⟨rev, depends, time', registered, revs, later, ends, members, _⟩
  rw [registered] at run
  dsimp only at run
  have flows := issue_eventToFlow dependsOn action time noFlow
  have causal' := causal.add newFlow flows
    (fun {d e} mem => (revs.mp mem).imp_right And.left)
    (fun {entry} mem => List.mem_cons_of_mem
      (LogEntry.added queue.eventCounter dependsOn action time) mem)
  have registeredEnds : paced → ∀ d, queue.eventCounter ∈ rev d →
      some d ∈ depends ∨ queue.EndedBy d time' := by
    intro track d dep
    rcases revs.mp dep with old | ⟨_, mem⟩
    · exact absurd (causal.revIssued track old) (lt_irrefl _)
    · rcases ends mem with unended | ended
      · refine Or.inl ((members _).mpr (Or.inr ⟨mem, fun d' same => ?_⟩))
        exact Option.some.inj same ▸ unended
      · exact Or.inr ended
  split at run
  · rename_i empty
    simp only [bind_eq_ok, pure_eq_ok, Prod.mk.injEq] at run
    rcases run with ⟨final, pushed, rfl, _⟩
    refine (pushEvent_causal pushed clean causal' ⟨Nat.lt_succ_self _, noPending, unlaunched,
      by simp [flows], fun track d dep => ?_⟩).1
    rcases registeredEnds track d dep with waits | ended
    · simp [empty] at waits
    · exact ended
  · simp only [pure_eq_ok, Prod.mk.injEq] at run
    rcases run with ⟨rfl, _⟩
    refine causal'.wait (Nat.lt_succ_self _) unlaunched (by simp [flows]) fun track {d} dep => ?_
    rcases registeredEnds track d dep with waits | ⟨s, u, ended, le⟩
    · exact Or.inl waits
    · exact Or.inr ⟨s, u, ended, le.trans (le_max_right _ _)⟩

/-- A dependency that has ended in time may be registered. -/
theorem Causal.register (causal : Causal paced ∅ queue) {dep startTime endTime : _}
    (ended : queue.ended dep = some (startTime, endTime))
    (issued : paced → id < queue.eventCounter)
    (inTime : paced → ∀ time, queue.StartRecorded id time → endTime ≤ time) :
    Causal paced ∅ (queue.addRevDependency dep id) :=
  { causal with
    revIssued := fun track _ _ mem => by
      rcases mem_addRevDependency.mp mem with old | ⟨_, rfl⟩
      · exact causal.revIssued track old
      · exact issued track
    timely := fun {e time} fixed track d mem => by
      rcases mem_addRevDependency.mp mem with old | ⟨rfl, rfl⟩
      · exact causal.timely fixed track d old
      · exact ⟨startTime, endTime, ended, inTime track time (Or.inl fixed)⟩
    waits := fun track {e p d} known mem => by
      rcases mem_addRevDependency.mp mem with old | ⟨rfl, rfl⟩
      · exact causal.waits track known old
      · exact Or.inr ⟨startTime, endTime, ended, inTime track _ (Or.inr ⟨p, known, rfl⟩)⟩ }

theorem addDependency_causal {dep : Option EventId}
    (run : queue.addDependency id dep = .ok queue') (causal : Causal paced ∅ queue)
    (inTime : paced → queue.AttachesInTime (.addDependency id dep)) : Causal paced ∅ queue' := by
  cases dep with
  | none =>
      simp only [addDependency, Option.any_none, Bool.false_eq_true, if_false, bind_eq_ok,
        unwrap_eq_ok, pure_eq_ok] at run
      rcases run with ⟨p, known, rfl⟩
      have flow := causal.pendingAction known
      refine causal.wait (causal.lt_of_pending known) (causal.waiting known) flow
        fun track _ dep => ?_
      exact (causal.waits track known dep).imp_left fun mem => Finset.mem_insert_of_mem mem
  | some dep =>
      simp only [addDependency, Option.any_some] at run
      cases ended : queue.ended dep with
      | some record =>
          have isEnded : ((queue.addRevDependency dep id).ended dep).isSome = true := by
            simp [addRevDependency, ended]
          rw [if_pos isEnded] at run
          simp only [pure_eq_ok] at run
          exact run ▸ causal.register ended (fun track => (inTime track _ _ ended).1)
            fun track => (inTime track _ _ ended).2
      | none =>
          have notEnded : ¬((queue.addRevDependency dep id).ended dep).isSome = true := by
            simp [addRevDependency, ended]
          rw [if_neg notEnded] at run
          simp only [bind_eq_ok, unwrap_eq_ok, pure_eq_ok] at run
          rcases run with ⟨p, known, rfl⟩
          have known' : queue.pending id = some p := known
          have unlaunched := causal.waiting known'
          have issued := causal.lt_of_pending known'
          have reg : ∀ {d e}, e ∈ (queue.addRevDependency dep id).revDependencies d →
              e ∈ queue.revDependencies d ∨ (d = dep ∧ e = id) := mem_addRevDependency.mp
          have flow := causal.pendingAction known'
          have waiting := causal.wait issued unlaunched
            (p := { p with dependencies := insert (some dep) p.dependencies }) flow
              fun track _ mem =>
                (causal.waits track known' mem).imp_left fun mem => Finset.mem_insert_of_mem mem
          exact { waiting with
            revIssued := fun track _ _ mem => by
              rcases reg mem with old | ⟨_, rfl⟩
              · exact causal.revIssued track old
              · exact issued
            timely := fun {e time} fixed track d mem => by
              rcases reg mem with old | ⟨_, rfl⟩
              · exact causal.timely fixed track d old
              · exact absurd (Or.inl ⟨time, fixed⟩) unlaunched
            waits := fun track {e p' d} here mem => by
              rcases reg mem with old | ⟨rfl, rfl⟩
              · exact waiting.waits track here old
              · left
                have equal : { p with dependencies := insert (some d) p.dependencies } = p' := by
                  simpa using here
                rw [← equal]
                exact Finset.mem_insert_self _ _ }

theorem removeNoneDependency_causal (run : queue.removeNoneDependency platform id = .ok queue')
    (clean : Undisturbed queue'.log) (causal : Causal paced ∅ queue) : Causal paced ∅ queue' := by
  unfold removeNoneDependency at run
  split at run
  · simp only [Except.ok.injEq] at run
    exact run ▸ causal
  · rename_i p known
    dsimp only at run
    have flow := causal.pendingAction known
    have causal' : Causal paced ∅ { queue with
        pending := Function.update queue.pending id
          (some { p with dependencies := p.dependencies.erase none }) } := by
      refine causal.wait (causal.lt_of_pending known) (causal.waiting known) flow
        fun track _ dep => ?_
      exact (causal.waits track known dep).imp_left fun mem =>
        Finset.mem_erase.mpr ⟨Option.some_ne_none _, mem⟩
    split at run
    · rename_i empty
      rcases release_eq_ok run with ⟨p', known', pushed⟩
      have equal : { p with dependencies := p.dependencies.erase none } = p' := by
        simpa using known'
      rcases causal'.release known' (by rw [← equal]; exact empty) with ⟨causal'', released⟩
      exact (pushEvent_causal pushed clean causal'' released).1
    · simp only [Except.ok.injEq] at run
      exact run ▸ causal'

/-- A call that attaches dependencies in time and undoes no recorded end. -/
def CarefulStep (platform : Platform) (queue : EventQueue) (call : Call) (queue' : EventQueue) :
    Prop :=
  Step platform queue call queue' ∧ queue.AttachesInTime call ∧ Undisturbed queue'.log

theorem step_eventToFlow {call : Call} {e : EventId} {flow : Netsim.Flow}
    (step : Step platform queue call queue') (known : queue'.eventToFlow e = some flow) :
    queue.eventToFlow e = some flow ∨ call.flowId = some flow.id := by
  rcases step with ⟨answer, run⟩
  cases call with
  | addActionOrPoint dependsOn action time =>
      simp only [perform, bind_eq_ok, pure_eq_ok, Prod.exists, Prod.mk.injEq] at run
      rcases run with ⟨final, id, added, rfl, _⟩
      rw [(addActionOrPoint_graph added).2.2.2.1] at known
      rcases action with _ | _ | ⟨flow', info⟩
      · exact Or.inl known
      · exact Or.inl known
      · by_cases same : e = queue.eventCounter
        · simp only [issue, same, Function.update_self, Option.some.injEq] at known
          exact Or.inr (by simp [Call.flowId, flowOf, known])
        · exact Or.inl (by simpa [issue, same] using known)
  | addDependency id dep =>
      simp only [perform, bind_eq_ok, pure_eq_ok, Prod.mk.injEq] at run
      rcases run with ⟨final, attached, rfl, _⟩
      exact Or.inl ((addDependency_graph attached).2.2.1 ▸ known)
  | removeNoneDependency id =>
      simp only [perform, bind_eq_ok, pure_eq_ok, Prod.mk.injEq] at run
      rcases run with ⟨final, removed, rfl, _⟩
      exact Or.inl ((removeNoneDependency_grows removed).eventToFlow ▸ known)
  | peekNextTime =>
      simp only [perform, bind_eq_ok, pure_eq_ok, Prod.exists, Prod.mk.injEq] at run
      rcases run with ⟨final, time, peeked, rfl, _⟩
      exact Or.inl ((peekNextTimeLoop_grows peeked).eventToFlow ▸ known)
  | execute =>
      simp only [perform, bind_eq_ok, pure_eq_ok, Prod.exists, Prod.mk.injEq] at run
      rcases run with ⟨final, step, executed, rfl, _⟩
      exact Or.inl ((executeLoop_grows executed).eventToFlow ▸ known)

/-- A call that undoes no recorded end keeps the invariant; in a paced run it has to attach
dependencies in time. -/
theorem step_causal {call : Call} (step : Step platform queue call queue')
    (inTime : paced → queue.AttachesInTime call) (clean : Undisturbed queue'.log)
    (causal : Causal paced ∅ queue)
    (newFlow : ∀ e known, queue.eventToFlow e = some known → call.flowId ≠ some known.id) :
    Causal paced ∅ queue' := by
  rcases step with ⟨answer, run⟩
  cases call with
  | addActionOrPoint dependsOn action time =>
      simp only [perform, bind_eq_ok, pure_eq_ok, Prod.exists, Prod.mk.injEq] at run
      rcases run with ⟨final, id, added, rfl, _⟩
      refine addActionOrPoint_causal added clean causal fun {flow e known} isFlow old same => ?_
      exact newFlow e known old (by simp [Call.flowId, isFlow, same])
  | addDependency id dep =>
      simp only [perform, bind_eq_ok, pure_eq_ok, Prod.mk.injEq] at run
      rcases run with ⟨final, attached, rfl, _⟩
      exact addDependency_causal attached causal inTime
  | removeNoneDependency id =>
      simp only [perform, bind_eq_ok, pure_eq_ok, Prod.mk.injEq] at run
      rcases run with ⟨final, removed, rfl, _⟩
      exact removeNoneDependency_causal removed clean causal
  | peekNextTime =>
      simp only [perform, bind_eq_ok, pure_eq_ok, Prod.exists, Prod.mk.injEq] at run
      rcases run with ⟨final, time, peeked, rfl, _⟩
      exact peekNextTimeLoop_causal peeked causal
  | execute =>
      simp only [perform, bind_eq_ok, pure_eq_ok, Prod.exists, Prod.mk.injEq] at run
      rcases run with ⟨final, step, executed, rfl, _⟩
      exact executeLoop_causal executed clean causal

/-- The identifiers of the flows that a run brings are distinct, as `Flow::new` makes them. -/
def DistinctFlows (calls : List Call) : Prop :=
  (calls.filterMap Call.flowId).Nodup

instance (calls : List Call) : Decidable (DistinctFlows calls) :=
  inferInstanceAs (Decidable (List.Nodup _))

/-- What holds after calls whose flows are distinct. -/
structure CausalAfter (paced : Prop) (calls : List Call) (queue : EventQueue) : Prop where
  causal : Causal paced ∅ queue
  flows : ∀ e flow, queue.eventToFlow e = some flow → flow.id ∈ calls.filterMap Call.flowId

theorem Initial.causalAfter (initial : Initial queue) : CausalAfter paced [] queue := by
  rcases initial with ⟨cluster, setting, hostMapping, rfl⟩
  exact ⟨causal_new cluster setting hostMapping,
    fun e flow known => absurd known.symm (Option.some_ne_none _)⟩

/-- The flow of the next call is new. -/
theorem CausalAfter.newFlow {calls : List Call} {call : Call}
    (after : CausalAfter paced calls queue) (distinct : DistinctFlows (calls ++ [call])) :
    ∀ e known, queue.eventToFlow e = some known → call.flowId ≠ some known.id := by
  intro e known old same
  unfold DistinctFlows at distinct
  rw [List.filterMap_append, List.nodup_append] at distinct
  refine distinct.2.2 known.id (after.flows e known old) known.id ?_ rfl
  simp [same]

theorem CausalAfter.step {calls : List Call} {call : Call} (after : CausalAfter paced calls queue)
    (distinct : DistinctFlows (calls ++ [call])) (step : Step platform queue call queue')
    (inTime : paced → queue.AttachesInTime call) (clean : Undisturbed queue'.log) :
    CausalAfter paced (calls ++ [call]) queue' := by
  refine ⟨step_causal step inTime clean after.causal (after.newFlow distinct), ?_⟩
  intro e flow known
  rw [List.filterMap_append, List.mem_append]
  rcases step_eventToFlow step known with old | new
  · exact Or.inl (after.flows e flow old)
  · exact Or.inr (by simp [new])

theorem DistinctFlows.of_append {calls more : List Call}
    (distinct : DistinctFlows (calls ++ more)) : DistinctFlows calls := by
  unfold DistinctFlows at distinct ⊢
  rw [List.filterMap_append, List.nodup_append] at distinct
  exact distinct.1

theorem causal_of_reached {calls : List Call}
    (reached : Runs.Reached Initial (CarefulStep platform) calls queue)
    (distinct : DistinctFlows calls) : Causal True ∅ queue := by
  refine (reached.invariant (fun calls queue => DistinctFlows calls → CausalAfter True calls queue)
    (fun initial _ => initial.causalAfter) ?_ distinct).causal
  intro calls queue call queue' before step distinct
  exact (before distinct.of_append).step distinct step.1 (fun _ => step.2.1) step.2.2

/-- In a careful run an event starts no earlier than any of its dependencies ends. -/
theorem end_le_start_of_reached {calls : List Call} {d e : EventId}
    {dStart dEnd eStart eEnd : ℤ}
    (reached : Runs.Reached Initial (CarefulStep platform) calls queue)
    (distinct : DistinctFlows calls)
    (dep : e ∈ queue.revDependencies d) (dEnded : queue.ended d = some (dStart, dEnd))
    (eEnded : queue.ended e = some (eStart, eEnd)) : dEnd ≤ eStart := by
  rcases (causal_of_reached reached distinct).timely (.ended eEnded) trivial d dep with
    ⟨s, u, known, le⟩
  have same : (s, u) = (dStart, dEnd) := Option.some.inj (known.symm.trans dEnded)
  rw [Prod.mk.injEq] at same
  exact same.2 ▸ le

/-- A network of two hosts that nothing has used. -/
def pairQueue : EventQueue :=
  new (Netsim.Simulator.build .pair {} none)

theorem initial_pairQueue : Initial pairQueue :=
  ⟨_, _, _, rfl⟩

/-- A flow from the left to the right host. -/
def pairFlow (id bytes : ℕ) : Action :=
  .communication { id := id, bytes := bytes, src := "left", dst := "right" } .ncclGetUniqueId

/-- One flow of two microseconds and a point that waits for it. -/
def flowThenPoint : List Call :=
  [.addActionOrPoint [] (some (pairFlow 0 2000)) 0, .addActionOrPoint [some 0] none 0,
    .execute, .execute, .execute]

/-- Whether the call attaches a dependency to an event that exists. -/
def Call.attaches : Call → Bool
  | .addDependency _ _ => true
  | _ => false

/-- A call without its answer. -/
def performAlone (platform : Platform) (queue : EventQueue) (call : Call) :
    Except Panic EventQueue := do
  let (queue, _) ← queue.perform platform call
  return queue

theorem step_of_performAlone {call : Call}
    (run : performAlone platform queue call = .ok queue') : Step platform queue call queue' := by
  simp only [performAlone, bind_eq_ok, pure_eq_ok, Prod.exists] at run
  rcases run with ⟨final, answer, step, rfl⟩
  exact ⟨answer, step⟩

/-- A careful call that attaches no dependency afterwards. -/
def performCarefully (platform : Platform) (queue : EventQueue) (call : Call) :
    Except Panic EventQueue := do
  let queue' ← performAlone platform queue call
  assert (call.attaches = false ∧ Undisturbed queue'.log) Panic.dependencyOfReleased
  return queue'

theorem carefulStep_of_performCarefully {call : Call}
    (run : performCarefully platform queue call = .ok queue') :
    CarefulStep platform queue call queue' := by
  simp only [performCarefully, bind_eq_ok, assert_eq_ok, pure_eq_ok] at run
  rcases run with ⟨final, step, _, ⟨attaches, clean⟩, rfl⟩
  refine ⟨step_of_performAlone step, ?_, clean⟩
  cases call with
  | addDependency id dep => simp [Call.attaches] at attaches
  | addActionOrPoint => exact trivial
  | removeNoneDependency => exact trivial
  | peekNextTime => exact trivial
  | execute => exact trivial

/-- A reading of the two events of `flowThenPoint`. -/
def twoEvents (queue : EventQueue) : Option (ℤ × ℤ) × Option (ℤ × ℤ) × Bool :=
  (queue.ended 0, queue.ended 1, decide (1 ∈ queue.revDependencies 0))

theorem end_le_start_of_flowThenPoint :
    ∃ queue, Runs.Reached Initial (CarefulStep (.inOrder 20)) flowThenPoint queue ∧
      queue.ended 0 = some (0, 2) ∧ queue.ended 1 = some (2, 2) ∧ (2 : ℤ) ≤ 2 := by
  have read : (flowThenPoint.foldlM (performCarefully (.inOrder 20)) pairQueue).toOption.map
      twoEvents = some (some (0, 2), some (2, 2), true) := by decide +kernel
  rcases exists_ok_of_reading read with ⟨queue, run, reading⟩
  simp only [twoEvents, Prod.mk.injEq, decide_eq_true_eq] at reading
  have reached : Runs.Reached Initial (CarefulStep (.inOrder 20)) flowThenPoint queue :=
    Runs.reached_of_foldlM carefulStep_of_performCarefully initial_pairQueue run
  exact ⟨queue, reached, reading.1, reading.2.1,
    end_le_start_of_reached reached (by decide) reading.2.2 reading.1 reading.2.1⟩

/-- The queue before and after one more `execute`, with the answer of that call. -/
def runAndDrain (platform : Platform) (calls : List Call) (queue : EventQueue) :
    Except Panic (EventQueue × EventQueue × Answer) := do
  let queue ← calls.foldlM (performAlone platform) queue
  let (queue', answer) ← queue.perform platform .execute
  return (queue, queue', answer)

/-- A second flow that starts with the first but arrives when all else is done. -/
def lateFlow : List Call :=
  flowThenPoint ++ [.addActionOrPoint [] (some (pairFlow 1 2000)) 0, .execute, .execute, .execute]

/-- The first flow shares its links with the late one: it is rolled back after its end has
been recorded and ends again two microseconds later, but the point that its old end has
released stays where it was. -/
theorem start_lt_end_of_lateFlow :
    ∃ queue queue', Runs.Reached Initial (Step (.inOrder 20)) lateFlow queue ∧
      DistinctFlows lateFlow ∧
      queue.perform (.inOrder 20) .execute = .ok (queue', .step .emptyQueue) ∧
      1 ∈ queue'.revDependencies 0 ∧ queue'.ended 0 = some (0, 4) ∧
      queue'.ended 1 = some (2, 2) ∧ ¬(4 : ℤ) ≤ 2 := by
  have read : (runAndDrain (.inOrder 20) lateFlow pairQueue).toOption.map (fun result =>
        (twoEvents result.2.1, result.2.2)) =
      some ((some (0, 4), some (2, 2), true), .step .emptyQueue) := by decide +kernel
  rcases exists_ok_of_reading read with ⟨⟨queue, queue', answer⟩, run, reading⟩
  simp only [runAndDrain, bind_eq_ok, pure_eq_ok, Prod.exists, Prod.mk.injEq] at run
  rcases run with ⟨queue, before, queue', answer, last, rfl, rfl, rfl⟩
  simp only [twoEvents, Prod.mk.injEq, decide_eq_true_eq] at reading
  rcases reading with ⟨⟨first, second, dep⟩, rfl⟩
  exact ⟨queue, queue', Runs.reached_of_foldlM step_of_performAlone initial_pairQueue before,
    by decide, last, dep, first, second, by decide⟩

end EventQueue

end Phantora
