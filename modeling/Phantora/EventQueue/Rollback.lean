import Phantora.EventQueue.Causality
import Phantora.EventQueue.Inversion

/-!
# Pushing events, with and without a rollback

While the network runs forward again after a rollback, whatever is pushed
starts no earlier than the present time of the network, so that no rollback
happens inside another one. A push keeps the invariant as long as no flow that
is rolled back has its end recorded.
-/

namespace Phantora

open Outcome

/-- The events whose flows an entry reports as rolled back. -/
def LogEntry.rollbackedEvents : LogEntry → List EventId
  | .rollbacked flows => flows.filterMap fun r => r.flow.token
  | _ => []

/-- Whether the entry is a span of the event. -/
def LogEntry.isSpanOf (e : EventId) : LogEntry → Bool
  | .span id _ _ => id = e
  | _ => false

namespace EventQueue

/-- No flow was rolled back after its end had been recorded. -/
def Undisturbed : List LogEntry → Prop
  | [] => True
  | entry :: older => (∀ e ∈ entry.rollbackedEvents, ∀ other ∈ older, other.isSpanOf e = false) ∧
      Undisturbed older

instance decidableUndisturbed : DecidablePred Undisturbed
  | [] => isTrue trivial
  | _ :: older =>
      have := decidableUndisturbed older
      inferInstanceAs (Decidable (_ ∧ _))

theorem Undisturbed.of_suffix {older newer : List LogEntry} (clean : Undisturbed newer)
    (suffix : older <:+ newer) : Undisturbed older := by
  rcases suffix with ⟨entries, rfl⟩
  induction entries with
  | nil => exact clean
  | cons entry entries ih => exact ih clean.2

/-- Pending events that wait for nothing more are left alone. -/
def KeepsIdle (queue queue' : EventQueue) : Prop :=
  ∀ {e pending}, queue.pending e = some pending → pending.dependencies = ∅ →
    queue'.pending e = some pending

theorem KeepsIdle.trans {first second third : EventQueue} (left : KeepsIdle first second)
    (right : KeepsIdle second third) : KeepsIdle first third :=
  fun known idle => right (left known idle) idle

theorem KeepsIdle.of_eq {queue queue' : EventQueue} (same : queue'.pending = queue.pending) :
    KeepsIdle queue queue' :=
  fun known _ => same ▸ known

section Ending

variable {platform : Platform} {push : EventQueue → PushEvent → ℤ → Except Panic EventQueue}
  {paced : Prop} {exempt : Finset ℕ} {low : ℤ} {K : EventQueue → Prop}

/-- A push of released events at `low` or later keeps the invariant and `K`. -/
structure PushRule (paced : Prop) (push : EventQueue → PushEvent → ℤ → Except Panic EventQueue)
    (exempt : Finset ℕ) (low : ℤ) (K : EventQueue → Prop) : Prop where
  grows : ∀ {queue event time queue'}, push queue event time = .ok queue' → Grows queue queue'
  pushed : ∀ {queue e action time queue'}, push queue (pushOf e action) time = .ok queue' →
    Undisturbed queue'.log → Causal paced exempt queue → K queue → low ≤ time →
    queue.Released paced e action time →
      Causal paced exempt queue' ∧ K queue' ∧ KeepsIdle queue queue'
  pending : ∀ {queue : EventQueue} (pending), K queue → K { queue with pending := pending }

/-- Releasing events that wait for nothing more. -/
theorem releases_causal (rule : PushRule paced push exempt low K) {events : List EventId}
    {queue queue' : EventQueue} (run : events.foldlM (release push) queue = .ok queue')
    (clean : Undisturbed queue'.log) (causal : Causal paced exempt queue) (holds : K queue)
    (nodup : events.Nodup)
    (idle : ∀ e ∈ events, ∃ p, queue.pending e = some p ∧ p.dependencies = ∅ ∧
      low ≤ max p.depEndTime p.arriveTime) :
    Causal paced exempt queue' ∧ K queue' ∧
      ∀ {e pending}, e ∉ events → queue.pending e = some pending → pending.dependencies = ∅ →
        queue'.pending e = some pending := by
  induction events generalizing queue with
  | nil =>
      simp only [List.foldlM_nil, pure_eq_ok] at run
      subst run
      exact ⟨causal, holds, fun _ known _ => known⟩
  | cons event events ih =>
      simp only [List.foldlM_cons, bind_eq_ok] at run
      rcases run with ⟨middle, first, rest⟩
      have restGrows : Grows middle queue' := Grows.foldlM (fun step =>
        release_grows rule.grows step) rest
      rcases release_eq_ok first with ⟨p, known, pushed⟩
      rcases idle event List.mem_cons_self with ⟨p', known', noDeps, late⟩
      have same : p' = p := Option.some.inj (known'.symm.trans known)
      subst p'
      rcases causal.release known noDeps with ⟨causal', released⟩
      rcases rule.pushed pushed (clean.of_suffix restGrows.log) causal' (rule.pending _ holds) late
        released with ⟨middleCausal, middleHolds, keeps⟩
      rw [List.nodup_cons] at nodup
      have others : ∀ {e pending}, e ≠ event → queue.pending e = some pending →
          pending.dependencies = ∅ → middle.pending e = some pending := by
        intro e pending differs known'' noDeps'
        refine keeps ?_ noDeps'
        simp [differs, known'']
      rcases ih rest middleCausal middleHolds nodup.2 (fun e mem => by
        rcases idle e (List.mem_cons_of_mem _ mem) with ⟨p', known'', noDeps', late'⟩
        have differs : e ≠ event := fun same => nodup.1 (same ▸ mem)
        exact ⟨p', others differs known'' noDeps', noDeps', late'⟩) with ⟨final, finalHolds, kept⟩
      refine ⟨final, finalHolds, fun {e pending} notMem known'' noDeps' => ?_⟩
      rw [List.mem_cons, not_or] at notMem
      exact kept notMem.2 (others notMem.1 known'' noDeps') noDeps'

/-- Ending an event that is nowhere keeps the invariant. -/
theorem endEventWith_causal (rule : PushRule paced push exempt low K) {queue queue' : EventQueue}
    {id : EventId} {startTime endTime : ℤ}
    (run : endEventWith platform push queue id startTime endTime = .ok queue')
    (clean : Undisturbed queue'.log) (causal : Causal paced exempt queue)
    (issued : id < queue.eventCounter) (absent : queue.pending id = none)
    (nowhere : ∀ place, ¬queue.At id place) (ready : queue.Ready paced id startTime)
    (late : low ≤ endTime)
    (holds : K ({ queue with
      ended := Function.update queue.ended id (some (startTime, endTime)) }.recordTimelineSpan
        id startTime endTime)) :
    Causal paced exempt queue' ∧ K queue' ∧ KeepsIdle queue queue' := by
  simp only [endEventWith] at run
  set ended : EventQueue := { queue with
    ended := Function.update queue.ended id (some (startTime, endTime)) }.recordTimelineSpan
      id startTime endTime with definition
  have finished : Causal paced exempt ended := causal.finish issued absent nowhere ready
  rcases noteEndeds_eq id endTime (platform.order ended.log.length (ended.revDependencies id))
    ended [] with ⟨pending, released, noted, changed, nodup, members⟩
  rw [noted, List.nil_append] at run
  dsimp only at run
  have isEnded : ended.ended id = some (startTime, endTime) := by
    simp [definition, recordTimelineSpan]
  have causal' : Causal paced exempt { ended with pending := pending } := by
    refine finished.amendPending fun {e p'} mem => ?_
    rw [changed] at mem
    split at mem
    · rcases Option.map_eq_some_iff.mp mem with ⟨p, known, rfl⟩
      refine ⟨p, known, ?_⟩
      unfold Pending.noted
      by_cases waits : some id ∈ p.dependencies
      · rw [if_pos waits]
        refine ⟨rfl, max_le_max (le_max_left _ _) (le_refl _), fun d dep => ?_⟩
        by_cases same : d = id
        · subst d
          exact Or.inr ⟨startTime, endTime, isEnded,
            (le_max_right _ _).trans (le_max_left _ _)⟩
        · refine Or.inl (Finset.mem_erase.mpr ⟨fun equal => same (Option.some.inj equal), dep⟩)
      · rw [if_neg waits]
        exact ⟨rfl, le_refl _, fun d dep => Or.inl dep⟩
    · exact ⟨p', mem, rfl, le_refl _, fun d dep => Or.inl dep⟩
  have idle : ∀ e ∈ released, ∃ p, pending e = some p ∧ p.dependencies = ∅ ∧
      low ≤ max p.depEndTime p.arriveTime := by
    intro e mem
    rcases (members e).mp mem with ⟨inEvents, p, known, waits, last⟩
    refine ⟨p.noted id endTime, ?_, ?_, ?_⟩
    · rw [changed, if_pos inEvents, known, Option.map_some]
    · simp [Pending.noted, waits, last]
    · simp only [Pending.noted, waits, if_true]
      exact late.trans ((le_max_right _ _).trans (le_max_left _ _))
  rcases releases_causal rule run clean causal' (rule.pending _ holds) nodup idle with
    ⟨final, finalHolds, kept⟩
  refine ⟨final, finalHolds, fun {e p} known noDeps => ?_⟩
  have unchanged : pending e = some p := by
    have known' : ended.pending e = some p := known
    rw [changed, known']
    have noted : p.noted id endTime = p := by simp [Pending.noted, noDeps]
    simp [noted]
  have notReleased : e ∉ released := by
    intro mem
    rcases (members e).mp mem with ⟨_, p', known', waits, _⟩
    have same : p' = p := Option.some.inj (known'.symm.trans known)
    simp [same, noDeps] at waits
  exact kept notReleased unchanged noDeps

end Ending

/-- What a step inside a rollback leaves alone; only the event `e` may end. -/
structure Calm (e : EventId) (queue queue' : EventQueue) : Prop where
  ts : queue'.netsim.ts = queue.netsim.ts
  retired : queue'.netsim.state.retiredFlows = queue.netsim.state.retiredFlows
  nextRef : queue.netsim.state.nextRef ≤ queue'.netsim.state.nextRef
  fresh : ∀ ref < queue.netsim.state.nextRef,
    (queue'.netsim.state.arena ref).fresh = (queue.netsim.state.arena ref).fresh
  ended : ∀ other, other ≠ e → queue'.ended other = queue.ended other
  ending : ∀ other, other ≠ e → queue'.Queued (.endOf other) → queue.Queued (.endOf other)

namespace Calm

variable {e : EventId} {first second third : EventQueue}

theorem trans (left : Calm e first second) (right : Calm e second third) : Calm e first third where
  ts := right.ts.trans left.ts
  retired := right.retired.trans left.retired
  nextRef := left.nextRef.trans right.nextRef
  fresh ref lt := (right.fresh ref (lt.trans_le left.nextRef)).trans (left.fresh ref lt)
  ended other differs := (right.ended other differs).trans (left.ended other differs)
  ending other differs now := left.ending other differs (right.ending other differs now)

theorem flow_eq (calm : Calm e first second) {ref : Netsim.FlowRef}
    (lt : ref < first.netsim.state.nextRef) :
    (second.netsim.state.arena ref).flow = (first.netsim.state.arena ref).flow := by
  simpa using congrArg Netsim.FlowState.flow (calm.fresh ref lt)

theorem ts_eq (calm : Calm e first second) {ref : Netsim.FlowRef}
    (lt : ref < first.netsim.state.nextRef) :
    (second.netsim.state.arena ref).ts = (first.netsim.state.arena ref).ts := by
  simpa using congrArg Netsim.FlowState.ts (calm.fresh ref lt)

theorem carries (calm : Calm e first second) {ref : Netsim.FlowRef} {other : EventId}
    (here : first.Carries ref other) : second.Carries ref other :=
  ⟨here.1.trans_le calm.nextRef, by rw [calm.flow_eq here.1]; exact here.2⟩

end Calm

section Push

variable {platform : Platform} {paced : Prop} {exempt : Finset ℕ} {queue queue' : EventQueue}
  {id : EventId} {time : ℤ} {fuel : ℕ}

/-- The network gets a new flow when a communication is pushed. -/
theorem Causal.newId (causal : Causal paced exempt queue) {flow : Netsim.Flow} {info : CommMeta}
    (released : queue.Released paced id (some (.communication flow info)) time) :
    ∀ ref < queue.netsim.state.nextRef,
      (queue.netsim.state.arena ref).flow.id ≠ (flowRecord id flow time).flow.id := by
  intro ref lt same
  rcases causal.arrived lt with ⟨e, flow', carries, known, same'⟩
  have equal := causal.flowIds known released.flow (same'.trans same)
  exact released.unlaunched (Or.inl ⟨_, .flow (equal ▸ carries)⟩)

/-- Arriving in the network keeps the invariant. -/
theorem Causal.withArrival (causal : Causal paced exempt queue) {exempt' : Finset ℕ}
    {flow : Netsim.Flow} {info : CommMeta} {netsim : Netsim.Simulator}
    (revived : List Netsim.FlowRef)
    (nonneg : 0 ≤ time)
    (released : queue.Released paced id (some (.communication flow info)) time)
    (arrived : Netsim.Simulator.Arrived queue.netsim netsim (flowRecord id flow time))
    (retired : queue.netsim.state.retiredFlows = revived ++ netsim.state.retiredFlows)
    (larger : exempt ⊆ exempt')
    (exempts : ∀ ref ∈ revived, (queue.netsim.state.arena ref).flow.id ∈ exempt')
    (unended : ∀ ref ∈ revived, ∀ e, queue.Carries ref e → queue.ended e = none) :
    Causal paced exempt' (queue.withArrival id flow info netsim) := by
  have start : (((flowRecord id flow time).ts / 1000 : ℕ) : ℤ) = time := by
    simp only [flowRecord]
    omega
  have causal' := causal.arrive arrived retired larger exempts unended rfl released.flow rfl
    released.absent released.unlaunched (by rw [start]; exact released.ready)
  exact causal'.forget (fun mem => mem) (fun known => known) (fun known => known)
    (fun mem => List.mem_cons_of_mem _ mem)

/-- The start of a communication whose flow has arrived is queued. -/
theorem Causal.pushArrived (causal : Causal paced exempt queue) {flow flow' : Netsim.Flow}
    {info : CommMeta} {counter : ℕ} {ref : Netsim.FlowRef} (carries : queue.Carries ref id)
    (known : queue.eventToFlow id = some flow')
    (start : (((queue.netsim.state.arena ref).ts / 1000 : ℕ) : ℤ) = time) :
    Causal paced exempt (queue.pushStart id (.communication flow info) time counter) := by
  have launched : queue.Launched id := Or.inl ⟨_, .flow carries⟩
  refine causal.pushStart counter (causal.lt_of_launched launched)
    (causal.pending_of_launched launched)
    (by simp [flowOf, known]) ?_ (fun none => ?_)
  · have fixed := StartFixed.flow carries
    rw [start] at fixed
    exact causal.timely fixed
  · exact absurd (known.symm.trans none) (Option.some_ne_none flow')

/-- The flow that has just arrived belongs to the event. -/
theorem carries_withArrival {flow : Netsim.Flow} (info : CommMeta) {netsim : Netsim.Simulator}
    (arrived : Netsim.Simulator.Arrived queue.netsim netsim (flowRecord id flow time)) :
    (queue.withArrival id flow info netsim).Carries queue.netsim.state.nextRef id := by
  refine ⟨?_, arrived.token⟩
  show queue.netsim.state.nextRef < netsim.state.nextRef
  rw [arrived.nextRef]
  exact Nat.lt_succ_self _

theorem start_of_arrived {flow : Netsim.Flow} {netsim : Netsim.Simulator} (nonneg : 0 ≤ time)
    (arrived : Netsim.Simulator.Arrived queue.netsim netsim (flowRecord id flow time)) :
    (((netsim.state.arena queue.netsim.state.nextRef).ts / 1000 : ℕ) : ℤ) = time := by
  rw [arrived.ts]
  simp only [flowRecord]
  omega

/-- Pushing a point or a computation. -/
theorem pushLocal_causal {action : Option Action}
    (run : pushEvent platform fuel queue (pushOf id action) time = .ok queue')
    (isLocal : flowOf action = none) (causal : Causal paced exempt queue)
    (released : queue.Released paced id action time) :
    Causal paced exempt queue' ∧ (∀ e, Calm e queue queue') ∧ queue'.pending = queue.pending := by
  cases fuel with
  | zero => simp [pushEvent] at run
  | succ fuel =>
      have counted := causal.count (queue.queueCounter + 1)
      cases action with
      | none =>
          simp only [pushOf, pushEvent, Except.ok.injEq] at run
          subst run
          refine ⟨counted.pushPoint ⟨released.issued, released.absent, released.unlaunched,
            released.flow, released.ready⟩, fun _ =>
              ⟨rfl, rfl, le_refl _, fun _ _ => rfl, fun _ _ => rfl,
            fun other _ now => ?_⟩, rfl⟩
          rcases queued_pushEntry.mp now with new | old
          · exact QueueEvent.noConfusion new
          · exact old
      | some action =>
          cases action with
          | communication flow info => simp [flowOf] at isLocal
          | computation node duration info =>
              simp only [pushOf, pushEvent, Except.ok.injEq] at run
              subst run
              have fits : (flowOf (some (.computation node duration info))).isSome ↔
                  (queue.eventToFlow id).isSome := by simp [released.flow, flowOf]
              have pushed := counted.pushStart queue.queueCounter released.issued released.absent
                fits released.ready (fun _ place =>
                  not_at_of_not_launched released.unlaunched place)
              refine ⟨pushed.forget (fun mem => mem) (fun known => known) (fun known => known)
                (fun mem => List.mem_cons_of_mem _ mem), fun _ =>
                  ⟨rfl, rfl, le_refl _, fun _ _ => rfl,
                fun _ _ => rfl, fun other _ now => ?_⟩, rfl⟩
              rcases queued_pushEntry.mp now with new | old
              · exact QueueEvent.noConfusion new
              · exact old

/-- A push at the present time of the network or later rolls nothing back. -/
theorem pushEvent_inTime {action : Option Action}
    (run : pushEvent platform fuel queue (pushOf id action) time = .ok queue')
    (causal : Causal paced exempt queue) (released : queue.Released paced id action time)
    (inTime : ((queue.netsim.ts / 1000 : ℕ) : ℤ) ≤ time) :
    Causal paced exempt queue' ∧ (∀ e, Calm e queue queue') ∧ queue'.pending = queue.pending := by
  by_cases isLocal : flowOf action = none
  · exact pushLocal_causal run isLocal causal released
  · rcases action with _ | _ | ⟨flow, info⟩
    · exact absurd rfl isLocal
    · exact absurd rfl isLocal
    · rcases pushFlow_eq_ok run with ⟨nonneg, netsim, result, arrival, outcome⟩
      rcases Netsim.Simulator.flowArrive_eq_ok causal.sound (causal.newId released) arrival with
        ⟨arrived, ⟨_, isOk, ts, retired⟩ | ⟨late, _⟩⟩
      · rcases outcome with ⟨_, rfl⟩ | ⟨flows, loop, fuel', _, isRollback, _⟩
        · have causal' : Causal paced exempt (queue.withArrival id flow info netsim) :=
            causal.withArrival [] nonneg released arrived retired.symm (Finset.Subset.refl _)
              (by simp) (by simp)
          refine ⟨causal'.pushArrived (carries_withArrival info arrived) released.flow
            (start_of_arrived nonneg arrived), fun _ => ⟨ts, retired, ?_, arrived.fresh,
            fun _ _ => rfl, fun other _ now => ?_⟩, rfl⟩
          · show queue.netsim.state.nextRef ≤ netsim.state.nextRef
            rw [arrived.nextRef]
            exact Nat.le_succ _
          · rcases queued_pushEntry.mp now with new | old
            · exact QueueEvent.noConfusion new
            · exact old
        · rw [isOk] at isRollback
          exact Netsim.OnEventResult.noConfusion isRollback
      · exfalso
        have late' : time.toNat * 1000 < queue.netsim.ts / 1000 * 1000 := late
        omega

/-- The invariant of the loop that completes the rolled-back flows again. -/
structure Looping (paced : Prop) (id : EventId) (time : ℤ) (flow : Netsim.Flow)
    (loop : RollbackLoop) : Prop where
  causal : Causal paced loop.rollbackedFlowset loop.queue
  arrived : ∃ new, loop.queue.Carries new id ∧
    (loop.queue.netsim.state.arena new).flow.id = flow.id ∧
    (((loop.queue.netsim.state.arena new).ts / 1000 : ℕ) : ℤ) = time
  unended : loop.newFlowEnded = false → ¬loop.queue.Queued (.endOf id)
  closed : loop.newFlowEnded = true → loop.queue.ended id ≠ none

theorem Calm.arrived {e : EventId} {flow : Netsim.Flow} (calm : Calm e queue queue')
    (arrived : ∃ new, queue.Carries new id ∧
      (queue.netsim.state.arena new).flow.id = flow.id ∧
      (((queue.netsim.state.arena new).ts / 1000 : ℕ) : ℤ) = time) :
    ∃ new, queue'.Carries new id ∧ (queue'.netsim.state.arena new).flow.id = flow.id ∧
      (((queue'.netsim.state.arena new).ts / 1000 : ℕ) : ℤ) = time := by
  rcases arrived with ⟨new, carries, same, start⟩
  refine ⟨new, calm.carries carries, ?_, ?_⟩
  · rw [calm.flow_eq carries.1, same]
  · rw [calm.ts_eq carries.1, start]

/-- Inside the loop a push is in time. -/
theorem pushRule_inTime {appEventTs : ℕ} {start : EventQueue} (now : start.netsim.ts = appEventTs) :
    PushRule paced (pushEvent platform fuel) exempt (appEventTs / 1000 : ℕ)
      (fun queue => Calm id start queue ∧ queue.ended id ≠ none) where
  grows run := pushEvent_grows run
  pushed := by
    rintro queue e action time queue' run _ causal ⟨calm, isEnded⟩ late released
    have inTime : ((queue.netsim.ts / 1000 : ℕ) : ℤ) ≤ time := by
      rw [calm.ts, now]
      exact late
    rcases pushEvent_inTime run causal released inTime with ⟨causal', calm', same⟩
    refine ⟨causal', ⟨calm.trans (calm' id), ?_⟩, KeepsIdle.of_eq same⟩
    rw [(calm' (id + 1)).ended id (Nat.ne_of_lt (Nat.lt_succ_self id))]
    exact isEnded
  pending := fun _ ⟨calm, isEnded⟩ =>
    ⟨⟨calm.ts, calm.retired, calm.nextRef, calm.fresh, calm.ended, calm.ending⟩, isEnded⟩

/-- Queueing the end of an event ends no other event. -/
theorem calm_pushEnd (queue : EventQueue) (e : EventId) (time : ℤ) (started : EventId → Option ℤ) :
    Calm e queue (({ queue with
      queueCounter := queue.queueCounter + 1
      started := started } : EventQueue).pushEntry (.endOf e) time queue.queueCounter) where
  ts := rfl
  retired := rfl
  nextRef := le_refl _
  fresh _ _ := rfl
  ended _ _ := rfl
  ending other differs now := by
    rcases queued_pushEntry.mp now with same | old
    · exact absurd (QueueEvent.endOf.inj same) differs
    · exact old

section Loop

variable {flow : Netsim.Flow} {loop loop' : RollbackLoop} {appEventTs : ℕ}

/-- A completed flow that has its end neither recorded nor queued is nowhere. -/
theorem Causal.place_of_retired (causal : Causal paced exempt queue) {ref : Netsim.FlowRef}
    {e : EventId} (carries : queue.Carries ref e) (retired : ref ∈ queue.netsim.state.retiredFlows)
    (unended : queue.ended e = none) {place : Place} (here : queue.At e place) :
    place = .ending := by
  rcases causal.place_of_carries carries here with rfl | rfl | rfl
  · rcases here with ⟨other, carries', notRetired⟩
    exact absurd (causal.ref_unique carries carries' ▸ retired) notRetired
  · rfl
  · exact absurd unended here

/-- Handling one completed flow inside the loop. -/
theorem rollbackRecord_looping {ref : Netsim.FlowRef} {e : EventId}
    (run : rollbackRecord platform (pushEvent platform fuel) id time flow appEventTs loop
      (Netsim.NetState.completionRecord appEventTs (loop.queue.netsim.state.arena ref)) = .ok loop')
    (clean : Undisturbed loop'.queue.log) (looping : Looping paced id time flow loop)
    (carries : loop.queue.Carries ref e) (retired : ref ∈ loop.queue.netsim.state.retiredFlows)
    (unended : loop.queue.ended e = none) (first : e = id → loop.newFlowEnded = false)
    (now : loop.queue.netsim.ts = appEventTs) :
    Looping paced id time flow loop' ∧ Calm e loop.queue loop'.queue ∧
      KeepsIdle loop.queue loop'.queue ∧ (e ≠ id → loop'.newFlowEnded = loop.newFlowEnded) := by
  rcases looping.arrived with ⟨new, newCarries, sameId, start⟩
  have settled := looping.causal.settle carries.1 retired
  have launched : loop.queue.Launched e := Or.inl ⟨_, .flow carries⟩
  have issued := settled.lt_of_launched launched
  have absent := settled.pending_of_launched launched
  rcases rollbackRecord_eq_ok run with ⟨event, token, outcome⟩
  have sameEvent : event = e := Option.some.inj (token.symm.trans carries.2)
  subst event
  rcases outcome with ⟨isNew, queue', ended, rfl⟩ | ⟨isOld, queue', pushed, rfl⟩
  · have sameRef : ref = new :=
      settled.sound.ledger.ids carries.1 newCarries.1 (isNew.trans sameId.symm)
    subst new
    have sameId' : e = id := Option.some.inj (carries.2.symm.trans newCarries.2)
    subst e
    have nowhere : ∀ place, ¬loop.queue.At id place := by
      intro place here
      have isEnding := settled.place_of_retired carries retired unended here
      subst isEnding
      exact looping.unended (first rfl) here.1
    have ready : loop.queue.Ready paced id time := start ▸ settled.timely (.flow carries)
    rcases endEventWith_causal (pushRule_inTime now) ended clean settled issued absent nowhere ready
      (le_refl _) ⟨⟨rfl, rfl, le_refl _, fun _ _ => rfl,
        fun other differs => Function.update_of_ne differs _ _, fun _ _ queued => queued⟩,
        by simp [recordTimelineSpan]⟩ with ⟨causal', ⟨calm, isEnded⟩, keeps⟩
    refine ⟨⟨causal', calm.arrived looping.arrived, fun no => ?_, fun _ => isEnded⟩, calm, keeps,
      fun differs => absurd rfl differs⟩
    exact absurd no (by simp)
  · have differs : e ≠ id := by
      rintro rfl
      have sameRef := settled.ref_unique carries newCarries
      subst new
      exact isOld sameId
    have started := settled.start issued absent (settled.timely (.flow carries))
    cases fuel with
    | zero => simp [pushEvent] at pushed
    | succ fuel =>
        simp only [pushEvent, Except.ok.injEq] at pushed
        subst pushed
        have ends := (started.count (loop.queue.queueCounter + 1)).pushEnd
          (appEventTs / 1000 : ℕ) loop.queue.queueCounter issued absent
          (fun place here => settled.place_of_retired carries retired unended here)
          (fun carries' => settled.ref_unique carries carries' ▸ retired)
        have calm := calm_pushEnd loop.queue e (appEventTs / 1000 : ℕ)
          (Function.update loop.queue.started e
            (some ((loop.queue.netsim.state.arena ref).ts / 1000 : ℕ)))
        exact ⟨⟨ends, looping.arrived, fun no queued => looping.unended no
          (calm.ending id differs.symm queued), looping.closed⟩, calm, KeepsIdle.of_eq rfl,
          fun _ => rfl⟩

/-- Handling all flows that completed in one step of the network. -/
theorem rollbackRecords_looping {refs : List Netsim.FlowRef}
    {report : Netsim.FlowRef → Netsim.TraceRecord}
    (run : (refs.map report).foldlM
      (rollbackRecord platform (pushEvent platform fuel) id time flow appEventTs) loop = .ok loop')
    (clean : Undisturbed loop'.queue.log) (looping : Looping paced id time flow loop)
    (nodup : refs.Nodup)
    (completed : ∀ ref ∈ refs, ref ∈ loop.queue.netsim.state.retiredFlows ∧
      report ref =
        Netsim.NetState.completionRecord appEventTs (loop.queue.netsim.state.arena ref) ∧
      ∃ e, loop.queue.Carries ref e ∧ loop.queue.ended e = none ∧
        (e = id → loop.newFlowEnded = false))
    (now : loop.queue.netsim.ts = appEventTs) :
    Looping paced id time flow loop' ∧ KeepsIdle loop.queue loop'.queue := by
  induction refs generalizing loop with
  | nil =>
      simp only [List.map_nil, List.foldlM_nil, pure_eq_ok] at run
      subst run
      exact ⟨looping, KeepsIdle.of_eq rfl⟩
  | cons ref refs ih =>
      simp only [List.map_cons, List.foldlM_cons, bind_eq_ok] at run
      rcases run with ⟨middle, first, rest⟩
      rcases completed ref List.mem_cons_self with ⟨retired, reported, e, carries, unended, isNew⟩
      rw [reported] at first
      rcases rollbackRecord_looping first
        (clean.of_suffix (rollbackRecords_grows (fun step => pushEvent_grows step) rest).log)
        looping carries retired unended isNew now with ⟨middleLooping, calm, keeps, flag⟩
      rw [List.nodup_cons] at nodup
      rcases ih rest middleLooping nodup.2 (fun other mem => by
        rcases completed other (List.mem_cons_of_mem _ mem) with
          ⟨retired', reported', e', carries', unended', isNew'⟩
        have differs : e' ≠ e := by
          rintro rfl
          exact nodup.1 (looping.causal.ref_unique carries carries' ▸ mem)
        refine ⟨calm.retired ▸ retired', ?_, e', calm.carries carries', ?_, fun same => ?_⟩
        · rw [reported']
          simp only [Netsim.NetState.completionRecord, calm.ts_eq carries'.1,
            calm.flow_eq carries'.1]
        · rw [calm.ended e' differs, unended']
        · rw [flag (fun same' => differs (same.trans same'.symm)), isNew' same])
        (calm.ts.trans now) with ⟨final, keeps'⟩
      exact ⟨final, keeps.trans keeps'⟩

/-- A flow that completes in a step of the network has not ended before. -/
theorem Causal.newlyRetired (causal : Causal paced exempt queue) {netsim : Netsim.Simulator}
    {done : List Netsim.FlowRef} (moved : Netsim.Simulator.Moved queue.netsim netsim done)
    {ref : Netsim.FlowRef} (mem : ref ∈ done) :
    ref ∈ netsim.state.retiredFlows ∧ ∃ e, queue.Carries ref e ∧ queue.ended e = none := by
  have retired : ref ∈ netsim.state.retiredFlows := by
    rw [moved.retired]
    exact List.mem_append_left _ (List.mem_reverse.mpr mem)
  have placed := (List.nodup_append.mp moved.sound.ledger.nodup).2.1
  rw [moved.retired, List.nodup_append] at placed
  have notBefore : ref ∉ queue.netsim.state.retiredFlows :=
    fun before => placed.2.2 ref (List.mem_reverse.mpr mem) ref before rfl
  have lt := moved.sound.ledger.retired_lt retired
  rw [moved.same.nextRef] at lt
  rcases causal.arrived lt with ⟨e, _, carries, _⟩
  have moving : queue.At e .moving := ⟨ref, carries, notBefore⟩
  refine ⟨retired, e, carries, ?_⟩
  by_contra isEnded
  have ended : queue.At e .ended := isEnded
  exact Place.noConfusion (causal.unique moving ended)

/-- One step of the network inside the loop. -/
theorem Looping.step (looping : Looping paced id time flow loop) {netsim : Netsim.Simulator}
    {done : List Netsim.FlowRef}
    (moved : Netsim.Simulator.Moved loop.queue.netsim netsim done) :
    Looping paced id time flow { loop with queue := { loop.queue with netsim := netsim } } ∧
      done.Nodup ∧ ∀ ref ∈ done, ref ∈ netsim.state.retiredFlows ∧
        ∃ e, ({ loop.queue with netsim := netsim } : EventQueue).Carries ref e ∧
          loop.queue.ended e = none ∧ (e = id → loop.newFlowEnded = false) := by
  rcases looping.causal.move moved with ⟨causal, carriesIff⟩
  rcases looping.arrived with ⟨new, carries, same, start⟩
  have placed := (List.nodup_append.mp moved.sound.ledger.nodup).2.1
  rw [moved.retired, List.nodup_append] at placed
  refine ⟨⟨causal, ⟨new, carriesIff.mpr carries, ?_, ?_⟩, looping.unended, looping.closed⟩,
    List.nodup_reverse.mp placed.1, fun ref mem => ?_⟩
  · show (netsim.state.arena new).flow.id = flow.id
    rw [moved.same.flow_eq, same]
  · show (((netsim.state.arena new).ts / 1000 : ℕ) : ℤ) = time
    rw [moved.same.ts_eq, start]
  · rcases looping.causal.newlyRetired moved mem with ⟨retired, e, carries', unended⟩
    refine ⟨retired, e, carriesIff.mpr carries', unended, ?_⟩
    rintro rfl
    cases flag : loop.newFlowEnded with
    | false => rfl
    | true => exact absurd unended (looping.closed flag)

/-- When the loop is done, every rolled-back flow has completed again. -/
theorem rollbackLoop_looping {fuel' : ℕ}
    (run : rollbackLoop platform (pushEvent platform fuel) id time flow fuel' loop = .ok loop')
    (clean : Undisturbed loop'.queue.log) (looping : Looping paced id time flow loop) :
    Looping paced id time flow loop' ∧ loop'.rollbackedFlowset = ∅ ∧
      KeepsIdle loop.queue loop'.queue := by
  induction fuel' generalizing loop with
  | zero => simp [rollbackLoop] at run
  | succ fuel' ih =>
      simp only [rollbackLoop] at run
      split at run
      · rename_i empty
        simp only [Except.ok.injEq] at run
        subst run
        exact ⟨looping, empty, KeepsIdle.of_eq rfl⟩
      · simp only [bind_eq_ok, Prod.exists] at run
        rcases run with ⟨queue, appEventTs, flows, stepped, middle, handled, rest⟩
        have middleClean := clean.of_suffix
          (rollbackLoop_grows (fun step => pushEvent_grows step) rest).log
        rcases netsimRunOneStep_eq_ok stepped with ⟨netsim, netsimStep, rfl⟩
        rcases Netsim.Simulator.runOneStep_eq_ok looping.causal.sound netsimStep with
          ⟨done, moved, _, report, _⟩
        simp only [Netsim.AppEvent.mk.injEq, Netsim.AppEventKind.flowComplete.injEq] at report
        rcases report with ⟨ts, flowsEq⟩
        rcases looping.step moved with ⟨stepLooping, nodup, completed⟩
        rw [flowsEq] at handled
        rcases rollbackRecords_looping handled middleClean stepLooping nodup
          (fun ref mem => ⟨(completed ref mem).1, by rw [ts], (completed ref mem).2⟩) ts.symm with
          ⟨middleLooping, keeps⟩
        rcases ih rest middleLooping with ⟨final, empty, keeps'⟩
        exact ⟨final, empty, KeepsIdle.trans keeps keeps'⟩

end Loop

/-- A push of a released event keeps the invariant. -/
theorem pushEvent_causal {action : Option Action}
    (run : pushEvent platform fuel queue (pushOf id action) time = .ok queue')
    (clean : Undisturbed queue'.log) (causal : Causal paced ∅ queue)
    (released : queue.Released paced id action time) :
    Causal paced ∅ queue' ∧ KeepsIdle queue queue' := by
  by_cases inTime : ((queue.netsim.ts / 1000 : ℕ) : ℤ) ≤ time
  · rcases pushEvent_inTime run causal released inTime with ⟨causal', _, same⟩
    exact ⟨causal', KeepsIdle.of_eq same⟩
  · by_cases isLocal : flowOf action = none
    · rcases pushLocal_causal run isLocal causal released with ⟨causal', _, same⟩
      exact ⟨causal', KeepsIdle.of_eq same⟩
    · rcases action with _ | _ | ⟨flow, info⟩
      · exact absurd rfl isLocal
      · exact absurd rfl isLocal
      · rcases pushFlow_eq_ok run with ⟨nonneg, netsim, result, arrival, outcome⟩
        rcases Netsim.Simulator.flowArrive_eq_ok causal.sound (causal.newId released) arrival with
          ⟨arrived, ⟨early, _⟩ | ⟨_, _, revived, retired, isRollback⟩⟩
        · have early' : ¬time.toNat * 1000 < queue.netsim.ts / 1000 * 1000 := not_lt.mpr early
          omega
        · subst isRollback
          rcases outcome with ⟨noRollback, _⟩ | ⟨flows, loop, fuel', _, same, looped, rfl⟩
          · exact absurd rfl (noRollback _)
          · simp only [Netsim.OnEventResult.rollback.injEq] at same
            subst same
            set arrivedQueue := queue.withArrival id flow info netsim with definition
            set flows := revived.map netsim.rollbackReport with flowsDef
            set flowset := (flows.map fun r => r.flow.id).toFinset with flowsetDef
            have finalClean : Undisturbed loop.queue.log := by
              split at clean <;> exact clean
            have startClean := finalClean.of_suffix
              (rollbackLoop_grows (fun step => pushEvent_grows step) looped).log
            have oldRef : ∀ ref ∈ revived, ref < queue.netsim.state.nextRef := fun ref mem =>
              causal.sound.ledger.retired_lt (retired ▸ List.mem_append_left _ mem)
            have exempts : ∀ ref ∈ revived, (queue.netsim.state.arena ref).flow.id ∈ flowset := by
              intro ref mem
              rw [← arrived.flow_eq (oldRef ref mem), flowsetDef, List.mem_toFinset, flowsDef,
                List.map_map]
              exact List.mem_map_of_mem (f := (fun r => r.flow.id) ∘ netsim.rollbackReport) mem
            have unended : ∀ ref ∈ revived, ∀ e, queue.Carries ref e → queue.ended e = none := by
              intro ref mem e carries
              by_contra isEnded
              rcases causal.logged isEnded with ⟨startTime, endTime, logged⟩
              have named : e ∈ (LogEntry.rollbacked flows).rollbackedEvents := by
                refine List.mem_filterMap.mpr
                  ⟨netsim.rollbackReport ref, List.mem_map_of_mem mem, ?_⟩
                show (netsim.state.arena ref).flow.token = some e
                rw [arrived.flow_eq carries.1]
                exact carries.2
              have noSpan := startClean.1 e named _ (List.mem_cons_of_mem _ logged)
              simp [LogEntry.isSpanOf] at noSpan
            have causal' : Causal paced flowset arrivedQueue :=
              causal.withArrival revived nonneg released arrived retired (Finset.empty_subset _)
                exempts unended
            have looping : Looping paced id time { flow with token := some id }
                ⟨{ arrivedQueue with log := .rollbacked flows :: arrivedQueue.log }, flowset,
                  false⟩ :=
              ⟨causal'.forget (fun mem => mem) (fun known => known) (fun known => known)
                (fun mem => List.mem_cons_of_mem _ mem),
                ⟨_, carries_withArrival info arrived, arrived.id, start_of_arrived nonneg arrived⟩,
                fun _ queued => released.unlaunched (Or.inr queued),
                fun no => absurd no (by simp)⟩
            rcases rollbackLoop_looping looped finalClean looping with ⟨final, empty, keeps⟩
            rcases final.arrived with ⟨new, carries, _, start⟩
            have finalCausal : Causal paced ∅ loop.queue := empty ▸ final.causal
            have keeps' : KeepsIdle queue loop.queue := fun known noDeps => keeps known noDeps
            rcases finalCausal.flow_of_carries carries with ⟨flow', known, _⟩
            split
            · exact ⟨finalCausal, keeps'⟩
            · exact ⟨finalCausal.pushArrived carries known start, keeps'⟩

/-- The rule for pushes outside a rollback. -/
theorem pushRule (low : ℤ) :
    PushRule paced (pushEvent platform fuel) ∅ low (fun _ => True) where
  grows run := pushEvent_grows run
  pushed run clean causal _ _ released := by
    rcases pushEvent_causal run clean causal released with ⟨causal', keeps⟩
    exact ⟨causal', trivial, keeps⟩
  pending _ _ := trivial

end Push

end EventQueue

end Phantora
