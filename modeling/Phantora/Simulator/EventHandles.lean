import Phantora.Simulator.StreamRuns

/-!
# Handles of CUDA events

A process numbers its events and keeps with every event the stream that it was
last recorded on. The server knows an event by its device, that stream and its
number, from the first record on: any other call on the event looks this key up.
-/

namespace Phantora

open Outcome

/-- The number of an event: the counter is a word of 32 bits with a sign. -/
def eventNumber (created : ℕ) : ℤ :=
  Int.bmod created (2 ^ 32)

/-- The events of a process, in the order of their creation. -/
structure EventHandles where
  created : ℕ := 0
  handles : ℕ → Option CudaEvent := fun _ => none

namespace EventHandles

def cudaEventCreateWithFlags (events : EventHandles) (device : ℤ) : EventHandles where
  created := events.created + 1
  handles := Function.update events.handles events.created
    (some ⟨device, 0, eventNumber events.created⟩)

/-- Let the handle remember the stream that it is recorded on. -/
def setStream (events : EventHandles) (handle : ℕ) (event : CudaEvent) (stream : ℤ) :
    EventHandles :=
  { events with handles := Function.update events.handles handle (some { event with stream }) }

end EventHandles

/-- A call on an event other than a record. -/
inductive EventUse where
  | wait (stream : CudaStream)
  | query
  | synchronize
deriving DecidableEq, Repr

/-- What the client sends for it. -/
def EventUse.call (event : CudaEvent) : EventUse → CudaCall
  | .wait stream => .cudaStreamWaitEvent stream event
  | .query => .cudaEventQuery event
  | .synchronize => .cudaEventSynchronize event

/-- A call of the runtime library, or a message that is none of these. -/
inductive EventOp where
  | create (device : ℤ)
  | record (handle : ℕ) (stream : CudaStream)
  | use (handle : ℕ) (use : EventUse)
  | other (message : Message)

/-- A call by a thread, at a time. -/
structure ApiCall where
  thread : ResponseId
  time : ℤ
  op : EventOp

/-- The processes and the server. The keys and the handles that have been recorded are kept to
speak about the run. -/
structure EventSystem where
  processes : HostId → EventHandles := fun _ => {}
  sim : Simulator
  recordedKeys : List (HostId × CudaEvent) := []
  recordedHandles : List (HostId × ℕ) := []

namespace EventSystem

/-- The message is not about an event. -/
def Other : Message → Prop
  | .cuda ⟨_, _, .cudaEventRecord _⟩ => False
  | .cuda ⟨_, _, .cudaStreamWaitEvent _ _⟩ => False
  | .cuda ⟨_, _, .cudaEventQuery _⟩ => False
  | .cuda ⟨_, _, .cudaEventSynchronize _⟩ => False
  | _ => True

/-- A call is made and what it sends is handled. -/
inductive Step (env : Environment) (system : EventSystem) : ApiCall → EventSystem → Prop where
  | create {thread : ResponseId} {time device : ℤ} :
      Step env system ⟨thread, time, .create device⟩ { system with
        processes := Function.update system.processes thread.host
          ((system.processes thread.host).cudaEventCreateWithFlags device) }
  | record {thread : ResponseId} {time : ℤ} {handle : ℕ} {stream : CudaStream} {event : CudaEvent}
      {sim : Simulator} (known : (system.processes thread.host).handles handle = some event)
      (handled : system.sim.handle env
        (.cuda ⟨thread, time, .cudaEventRecord { event with stream := stream.id }⟩) = .ok sim) :
      Step env system ⟨thread, time, .record handle stream⟩ { system with
        processes := Function.update system.processes thread.host
          ((system.processes thread.host).setStream handle event stream.id)
        sim := sim
        recordedKeys := (thread.host, { event with stream := stream.id }) :: system.recordedKeys
        recordedHandles := (thread.host, handle) :: system.recordedHandles }
  | use {thread : ResponseId} {time : ℤ} {handle : ℕ} {use : EventUse} {event : CudaEvent}
      {sim : Simulator} (known : (system.processes thread.host).handles handle = some event)
      (handled : system.sim.handle env (.cuda ⟨thread, time, use.call event⟩) = .ok sim) :
      Step env system ⟨thread, time, .use handle use⟩ { system with sim := sim }
  | other {thread : ResponseId} {time : ℤ} {message : Message} {sim : Simulator}
      (other : Other message) (handled : system.sim.handle env message = .ok sim) :
      Step env system ⟨thread, time, .other message⟩ { system with sim := sim }

def Initial (system : EventSystem) : Prop :=
  ∃ sim, Simulator.Initial sim ∧ system = { sim := sim }

/-- The calls lead to the state, whatever their order. -/
abbrev Reached (env : Environment) : List ApiCall → EventSystem → Prop :=
  Runs.Reached Initial (Step env)

variable {env : Environment} {system system' : EventSystem}

/-- A message that records no event leaves the known events as they are. -/
theorem idOfCuda_of_unrecorded {messages : List Message} {sim sim' : Simulator} {message : Message}
    (reached : Simulator.Reached env messages sim) (unrecorded : message.recorded = none)
    (handled : sim.handle env message = .ok sim') : sim'.idOfCuda = sim.idOfCuda := by
  rcases Simulator.handle_extended (Simulator.ordered_of_reached reached).inOrder handled with
    ⟨middle, idOfCuda, _, recorded, rfl⟩
  rw [Simulator.Recorded, unrecorded] at recorded
  exact recorded

/-- A record makes one event known. -/
theorem idOfCuda_of_recorded {messages : List Message} {sim sim' : Simulator} {message : Message}
    {key : HostId × CudaEvent} (reached : Simulator.Reached env messages sim)
    (recorded : message.recorded = some key) (handled : sim.handle env message = .ok sim') :
    ∃ point, sim'.idOfCuda = Function.update sim.idOfCuda key (some point) := by
  rcases Simulator.handle_extended (Simulator.ordered_of_reached reached).inOrder handled with
    ⟨middle, idOfCuda, _, isRecorded, rfl⟩
  rw [Simulator.Recorded, recorded] at isRecorded
  rcases isRecorded with ⟨_, point, _, same⟩
  exact ⟨point, same⟩

theorem recorded_of_other {message : Message} (other : Other message) : message.recorded =
    none := by
  cases message with
  | cuda msg =>
      rcases msg with ⟨thread, time, call⟩
      cases call with
      | cudaEventRecord event => exact other.elim
      | _ => rfl
  | _ => rfl

theorem recorded_of_use {thread : ResponseId} {time : ℤ} {event : CudaEvent} (use : EventUse) :
    Message.recorded (.cuda ⟨thread, time, use.call event⟩) = none := by
  cases use with
  | _ => rfl

/-- What is known of the events: the server has the keys that have been recorded, the handle of an
event carries its number, and the key of a recorded handle is a recorded one. -/
structure Keyed (env : Environment) (system : EventSystem) : Prop where
  server : ∃ messages, Simulator.Reached env messages system.sim
  known_iff : ∀ key, (system.sim.idOfCuda key).isSome ↔ key ∈ system.recordedKeys
  numbered : ∀ {host handle event}, (system.processes host).handles handle = some event →
    handle < (system.processes host).created ∧ event.id = eventNumber handle
  created : ∀ {host handle}, (host, handle) ∈ system.recordedHandles →
    handle < (system.processes host).created
  current : ∀ {host handle event}, (host, handle) ∈ system.recordedHandles →
    (system.processes host).handles handle = some event → (host, event) ∈ system.recordedKeys
  origin : ∀ {host event}, (host, event) ∈ system.recordedKeys → ∃ handle,
    (host, handle) ∈ system.recordedHandles ∧ event.id = eventNumber handle

theorem Keyed.start (initial : Initial system) : Keyed env system := by
  rcases initial with ⟨sim, initial, rfl⟩
  rcases initial with ⟨cluster, setting, hostMapping, rfl⟩
  refine ⟨⟨[], .start ⟨cluster, setting, hostMapping, rfl⟩⟩, ?_, ?_, ?_, ?_, ?_⟩
  · intro key
    constructor
    · intro known
      cases known
    · intro mem
      cases mem
  · intro host handle event known
    cases known
  · intro host handle mem
    cases mem
  · intro host handle event mem
    cases mem
  · intro host event mem
    cases mem

/-- Handling a message that records no event keeps what is known. -/
theorem Keyed.of_unrecorded (keyed : Keyed env system) {message : Message} {sim : Simulator}
    (unrecorded : message.recorded = none) (handled : system.sim.handle env message = .ok sim) :
    Keyed env { system with sim := sim } := by
  rcases keyed.server with ⟨messages, reached⟩
  have same := idOfCuda_of_unrecorded reached unrecorded handled
  exact ⟨⟨_, reached.step handled⟩, same ▸ keyed.known_iff, keyed.numbered, keyed.created,
    keyed.current, keyed.origin⟩

theorem Keyed.create (keyed : Keyed env system) (host : HostId) (device : ℤ) :
    Keyed env { system with
      processes := Function.update system.processes host
        ((system.processes host).cudaEventCreateWithFlags device) } := by
  have grows : ∀ other, (system.processes other).created ≤ (Function.update system.processes host
      ((system.processes host).cudaEventCreateWithFlags device) other).created := by
    intro other
    by_cases same : other = host
    · subst same
      simp [EventHandles.cudaEventCreateWithFlags]
    · simp [same]
  refine ⟨keyed.server, keyed.known_iff, ?_, ?_, ?_, keyed.origin⟩
  · intro other handle event known
    by_cases same : other = host
    · subst same
      simp only [Function.update_self, EventHandles.cudaEventCreateWithFlags] at known ⊢
      by_cases isNew : handle = (system.processes other).created
      · subst isNew
        rw [Function.update_self, Option.some.injEq] at known
        exact ⟨Nat.lt_succ_self _, by rw [← known]⟩
      · rw [Function.update_of_ne isNew] at known
        have old := keyed.numbered known
        exact ⟨old.1.trans (Nat.lt_succ_self _), old.2⟩
    · simp only [Function.update_of_ne same] at known ⊢
      exact keyed.numbered known
  · intro other handle mem
    exact (keyed.created mem).trans_le (grows other)
  · intro other handle event mem known
    have old := keyed.created mem
    by_cases same : other = host
    · subst same
      simp only [Function.update_self, EventHandles.cudaEventCreateWithFlags] at known
      rw [Function.update_of_ne old.ne] at known
      exact keyed.current mem known
    · simp only [Function.update_of_ne same] at known
      exact keyed.current mem known

theorem Keyed.record (keyed : Keyed env system) {thread : ResponseId} {time stream : ℤ}
    {handle : ℕ} {event : CudaEvent} {sim : Simulator}
    (known : (system.processes thread.host).handles handle = some event)
    (handled : system.sim.handle env
      (.cuda ⟨thread, time, .cudaEventRecord { event with stream := stream }⟩) = .ok sim) :
    Keyed env {
      processes := Function.update system.processes thread.host
        ((system.processes thread.host).setStream handle event stream)
      sim := sim
      recordedKeys := (thread.host, { event with stream := stream }) :: system.recordedKeys
      recordedHandles := (thread.host, handle) :: system.recordedHandles } := by
  rcases keyed.server with ⟨messages, reached⟩
  rcases idOfCuda_of_recorded reached rfl handled with ⟨point, updated⟩
  have isNumbered := keyed.numbered known
  have created : ∀ other, (Function.update system.processes thread.host
      ((system.processes thread.host).setStream handle event stream) other).created =
        (system.processes other).created := by
    intro other
    by_cases same : other = thread.host
    · subst same
      rw [Function.update_self]
      rfl
    · rw [Function.update_of_ne same]
  have handles : ∀ {other number found}, (Function.update system.processes thread.host
      ((system.processes thread.host).setStream handle event stream) other).handles number =
        some found → (other = thread.host ∧ number = handle ∧ found = { event with stream }) ∨
          ((other, number) ≠ (thread.host, handle) ∧
            (system.processes other).handles number = some found) := by
    intro other number found isFound
    by_cases same : other = thread.host
    · subst same
      simp only [Function.update_self, EventHandles.setStream] at isFound
      by_cases isHandle : number = handle
      · subst isHandle
        rw [Function.update_self, Option.some.injEq] at isFound
        exact .inl ⟨rfl, rfl, isFound.symm⟩
      · rw [Function.update_of_ne isHandle] at isFound
        exact .inr ⟨fun equal => isHandle (congrArg Prod.snd equal), isFound⟩
    · rw [Function.update_of_ne same] at isFound
      exact .inr ⟨fun equal => same (congrArg Prod.fst equal), isFound⟩
  refine ⟨⟨_, reached.step handled⟩, ?_, ?_, ?_, ?_, ?_⟩
  · intro key
    rw [updated, List.mem_cons]
    by_cases same : key = (thread.host, { event with stream })
    · simp [same]
    · simp [same, keyed.known_iff key]
  · intro other number found isFound
    rw [created]
    rcases handles isFound with ⟨rfl, rfl, rfl⟩ | ⟨_, old⟩
    · exact isNumbered
    · exact keyed.numbered old
  · intro other number mem
    rw [created]
    rcases List.mem_cons.mp mem with equal | old
    · cases equal
      exact isNumbered.1
    · exact keyed.created old
  · intro other number found mem isFound
    rcases handles isFound with ⟨rfl, rfl, rfl⟩ | ⟨differs, old⟩
    · exact List.mem_cons_self
    · rcases List.mem_cons.mp mem with equal | marked
      · exact absurd equal differs
      · exact List.mem_cons_of_mem _ (keyed.current marked old)
  · intro other found mem
    rcases List.mem_cons.mp mem with equal | old
    · cases equal
      exact ⟨handle, List.mem_cons_self, isNumbered.2⟩
    · rcases keyed.origin old with ⟨number, marked, isNumber⟩
      exact ⟨number, List.mem_cons_of_mem _ marked, isNumber⟩

theorem Keyed.step (keyed : Keyed env system) {call : ApiCall}
    (taken : Step env system call system') : Keyed env system' := by
  cases taken with
  | create => exact keyed.create _ _
  | record known handled => exact keyed.record known handled
  | use known handled => exact keyed.of_unrecorded (recorded_of_use _) handled
  | other isOther handled => exact keyed.of_unrecorded (recorded_of_other isOther) handled

theorem keyed_of_reached {calls : List ApiCall} (reached : Reached env calls system) :
    Keyed env system := by
  induction reached with
  | start initial => exact .start initial
  | step _ taken ih => exact ih.step taken

/-- A use of an event that the server does not know never succeeds. -/
theorem handle_use_ne_ok {sim sim' : Simulator} {thread : ResponseId} {time : ℤ}
    {event : CudaEvent} (unknown : sim.idOfCuda (thread.host, event) = none) (use : EventUse) :
    sim.handle env (.cuda ⟨thread, time, use.call event⟩) ≠ .ok sim' := by
  intro handled
  rcases Simulator.handle_cuda_eq_ok handled with ⟨final, handled, _⟩
  cases use with
  | wait stream =>
      simp only [Simulator.handleCudaCall, EventUse.call, Simulator.cudaStreamWaitEvent, bind_eq_ok,
        unwrap_eq_ok] at handled
      rcases handled with ⟨point, known, _⟩
      have same : sim.idOfCuda (thread.host, event) = some point := known
      rw [unknown] at same
      cases same
  | query =>
      simp only [Simulator.handleCudaCall, EventUse.call, Simulator.cudaEventQuery, bind_eq_ok,
        unwrap_eq_ok, Prod.exists] at handled
      rcases handled with ⟨middle, _, executed, point, known, _⟩
      rcases Simulator.executeToTime_onlyExecutes executed with ⟨_, _, _, _, _, _, _, rfl⟩
      have same : sim.idOfCuda (thread.host, event) = some point := known
      rw [unknown] at same
      cases same
  | synchronize =>
      simp only [Simulator.handleCudaCall, EventUse.call, Simulator.cudaEventSynchronize,
        bind_eq_ok,
        unwrap_eq_ok, Prod.exists] at handled
      rcases handled with ⟨middle, _, executed, point, known, _⟩
      rcases Simulator.executeToTime_onlyExecutes executed with ⟨_, _, _, _, _, _, _, rfl⟩
      have same : sim.idOfCuda (thread.host, event) = some point := known
      rw [unknown] at same
      cases same

theorem eventNumber_emod (created : ℕ) : eventNumber created % 4294967296 = created % 4294967296 :=
  Int.bmod_emod

theorem eventNumber_injective {first second : ℕ} (left : first < 2 ^ 32) (right : second < 2 ^ 32)
    (same : eventNumber first = eventNumber second) : first = second := by
  have firstMod := eventNumber_emod first
  have secondMod := eventNumber_emod second
  rw [same] at firstMod
  omega

/-- The key that a use of an event looks up is there exactly when the event has been recorded. -/
theorem known_iff_recorded (env : Environment) (calls : List ApiCall) (system : EventSystem)
    (reached : Reached env calls system) (thread : ResponseId) (handle : ℕ) (event : CudaEvent)
    (known : (system.processes thread.host).handles handle = some event) :
    ((system.sim.idOfCuda (thread.host, event)).isSome ↔
      (thread.host, event) ∈ system.recordedKeys) ∧
    ((system.processes thread.host).created ≤ 2 ^ 32 →
      ((thread.host, event) ∈ system.recordedKeys ↔
        (thread.host, handle) ∈ system.recordedHandles)) ∧
    ((thread.host, event) ∉ system.recordedKeys → ∀ time use sim,
      system.sim.handle env (.cuda ⟨thread, time, EventUse.call event use⟩) ≠ .ok sim) := by
  have keyed := keyed_of_reached reached
  refine ⟨keyed.known_iff _, ?_, ?_⟩
  · intro few
    constructor
    · intro mem
      rcases keyed.origin mem with ⟨number, marked, isNumber⟩
      have isHandle := keyed.numbered known
      have created := keyed.created marked
      have same := eventNumber_injective (created.trans_le few) (isHandle.1.trans_le few)
        (isNumber.symm.trans isHandle.2)
      exact same ▸ marked
    · intro marked
      exact keyed.current marked known
  · intro unrecorded time use sim
    apply handle_use_ne_ok
    rw [← Option.not_isSome_iff_eq_none, keyed.known_iff]
    exact unrecorded

/-- The server and a process that has created one event. -/
def created : EventSystem where
  processes := Function.update (fun _ => {}) (leftThread 1).host
    (EventHandles.cudaEventCreateWithFlags {} 0)
  sim := Simulator.pair

theorem reached_created (env : Environment) : Reached env [⟨leftThread 1, 0, .create 0⟩] created :=
  .step (.start ⟨_, Simulator.initial_pair, rfl⟩) .create

/-- An event that has been recorded on a stream is known. -/
theorem known_iff_recorded_afterRecord : ∃ system : EventSystem,
    Reached (.plain 10) [⟨leftThread 1, 0, .create 0⟩, ⟨leftThread 1, 5, .record 0 ⟨0, 3⟩⟩] system ∧
      (system.sim.idOfCuda ((leftThread 1).host, ⟨0, 3, 0⟩)).isSome := by
  have handled : ∃ sim, created.sim.handle (Environment.plain 10)
      (.cuda ⟨leftThread 1, 5, .cudaEventRecord ⟨0, 3, 0⟩⟩) = .ok sim ∧ sim.handled = 1 :=
    exists_ok_of_reading (by decide +kernel)
  rcases handled with ⟨sim, handled, _⟩
  have known : (created.processes (leftThread 1).host).handles 0 = some ⟨0, 0, 0⟩ := by decide
  have taken : Step (Environment.plain 10) created ⟨leftThread 1, 5, .record 0 ⟨0, 3⟩⟩ _ :=
    .record known handled
  have reached := (reached_created (Environment.plain 10)).step taken
  refine ⟨_, reached, ?_⟩
  have stored := known_iff_recorded _ _ _ reached (leftThread 1) 0 ⟨0, 3, 0⟩
    (by simp [created, EventHandles.setStream])
  exact stored.1.mpr List.mem_cons_self

/-- A query of an event that has never been recorded panics. -/
theorem not_known_unrecorded : ¬∀ env calls system, Reached env calls system →
    ∀ (thread : ResponseId) (handle : ℕ) (event : CudaEvent),
      (system.processes thread.host).handles handle = some event → ∀ time use,
        system.sim.handle env (.cuda ⟨thread, time, EventUse.call event use⟩) ≠
          .error .unknownEvent := by
  intro claimed
  have failed : (match created.sim.handle (Environment.plain 10)
      (.cuda ⟨leftThread 1, 5, EventUse.call ⟨0, 0, 0⟩ .query⟩) with
    | .ok _ => none
    | .error failure => some failure) = some Panic.unknownEvent := by
    decide +kernel
  refine claimed _ _ _ (reached_created (Environment.plain 10)) (leftThread 1) 0 ⟨0, 0, 0⟩ rfl 5
    .query ?_
  split at failed
  · cases failed
  · rename_i failure isFailure
    rw [isFailure, Option.some.inj failed]

end EventSystem

end Phantora
