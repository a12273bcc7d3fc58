import Mathlib.Data.Rat.Cast.Defs
import Mathlib.Tactic.FieldSimp
import Mathlib.Tactic.Ring
import Phantora.Simulator.Deliveries
import Phantora.Simulator.EventHandles

/-!
# Elapsed times between events

A handle keeps the time that the last call on its event has read. Only
`cudaEventSynchronize` and `cudaEventQuery` read one; a thread that waits for
its stream or its device reads a response too, but leaves the handles alone.
-/

namespace Phantora

open Outcome

namespace EventTimes

/-- The events of a process, with the field that keeps the time of their completion. -/
structure Process extends EventHandles where
  finishedTime : ℕ → ℤ := fun _ => 0

/-- What a thread does with the response that it waits for. -/
inductive Waiting where
  | synchronize (handle : ℕ)
  | query (handle : ℕ)
  | other
deriving DecidableEq

/-- A call of the runtime library up to the message that it sends, the rest of such a call when
its response has come, or a message that is about no event. -/
inductive Op where
  | create (device : ℤ)
  | record (handle : ℕ) (stream : CudaStream)
  | wait (handle : ℕ) (stream : CudaStream)
  | synchronize (handle : ℕ)
  | query (handle : ℕ)
  | other (message : Message) (waits : Bool)
  /-- `cudaEventSynchronize` reads the time of the completion. -/
  | synchronized (handle : ℕ) (endTime : ℤ)
  /-- `cudaEventQuery` reads it, or the clock of the process when the event is not ready. -/
  | queried (handle : ℕ) (ready : Option ℤ) (currentSimTime : ℤ)
  | answered (response : Response)

/-- A call by a thread, at a time. -/
structure Call where
  thread : ResponseId
  time : ℤ
  op : Op

/-- The processes with their threads, and the server. -/
structure Runtime where
  processes : HostId → Process := fun _ => {}
  waiting : ResponseId → Option Waiting := fun _ => none
  /-- The number of responses that a thread has read. -/
  numRead : ResponseId → ℕ := fun _ => 0
  sim : Simulator

namespace Runtime

/-- The responses to a thread in the order in which they are sent. -/
def responses (runtime : Runtime) (thread : ResponseId) : List Response :=
  (Simulator.repliesTo thread runtime.sim.sent).reverse

/-- The response that the thread reads next, if it has come. -/
def nextResponse (runtime : Runtime) (thread : ResponseId) : Option Response :=
  (runtime.responses thread)[runtime.numRead thread]?

def setProcess (runtime : Runtime) (host : HostId) (process : Process) : Runtime :=
  { runtime with processes := Function.update runtime.processes host process }

/-- The thread has sent a message and waits for the response. -/
def asked (runtime : Runtime) (thread : ResponseId) (sim : Simulator) (waiting : Waiting) :
    Runtime :=
  { runtime with waiting := Function.update runtime.waiting thread (some waiting), sim := sim }

/-- The thread has read the response. -/
def read (runtime : Runtime) (thread : ResponseId) : Runtime :=
  { runtime with
    waiting := Function.update runtime.waiting thread none
    numRead := Function.update runtime.numRead thread (runtime.numRead thread + 1) }

/-- The handle keeps a time. -/
def finish (runtime : Runtime) (host : HostId) (handle : ℕ) (time : ℤ) : Runtime :=
  runtime.setProcess host { runtime.processes host with
    finishedTime := Function.update (runtime.processes host).finishedTime handle time }

/-- `cudaEventElapsedTime`, read as an exact rational. -/
def cudaEventElapsedTime (runtime : Runtime) (host : HostId) (start finish : ℕ) : ℚ :=
  ((runtime.processes host).finishedTime finish - (runtime.processes host).finishedTime start : ℤ)

/-- A message is handled, or a thread reads the response that it waits for. -/
inductive Step (env : Environment) (runtime : Runtime) : Call → Runtime → Prop where
  | create {thread : ResponseId} {time device : ℤ} (free : runtime.waiting thread = none) :
      Step env runtime ⟨thread, time, .create device⟩ (runtime.setProcess thread.host
        { toEventHandles := (runtime.processes thread.host).cudaEventCreateWithFlags device
          finishedTime := Function.update (runtime.processes thread.host).finishedTime
            (runtime.processes thread.host).created 0 })
  | record {thread : ResponseId} {time : ℤ} {handle : ℕ} {stream : CudaStream} {event : CudaEvent}
      {sim : Simulator} (free : runtime.waiting thread = none)
      (known : (runtime.processes thread.host).handles handle = some event)
      (handled : runtime.sim.handle env
        (.cuda ⟨thread, time, .cudaEventRecord { event with stream := stream.id }⟩) = .ok sim) :
      Step env runtime ⟨thread, time, .record handle stream⟩ ({ runtime with sim }.setProcess
        thread.host { runtime.processes thread.host with
          toEventHandles :=
            (runtime.processes thread.host).setStream handle event stream.id })
  | wait {thread : ResponseId} {time : ℤ} {handle : ℕ} {stream : CudaStream} {event : CudaEvent}
      {sim : Simulator} (free : runtime.waiting thread = none)
      (known : (runtime.processes thread.host).handles handle = some event)
      (handled : runtime.sim.handle env
        (.cuda ⟨thread, time, .cudaStreamWaitEvent stream event⟩) = .ok sim) :
      Step env runtime ⟨thread, time, .wait handle stream⟩ { runtime with sim }
  | synchronize {thread : ResponseId} {time : ℤ} {handle : ℕ} {event : CudaEvent} {sim : Simulator}
      (free : runtime.waiting thread = none)
      (known : (runtime.processes thread.host).handles handle = some event)
      (handled : runtime.sim.handle env
        (.cuda ⟨thread, time, .cudaEventSynchronize event⟩) = .ok sim) :
      Step env runtime ⟨thread, time, .synchronize handle⟩
        (runtime.asked thread sim (.synchronize handle))
  | query {thread : ResponseId} {time : ℤ} {handle : ℕ} {event : CudaEvent} {sim : Simulator}
      (free : runtime.waiting thread = none)
      (known : (runtime.processes thread.host).handles handle = some event)
      (handled : runtime.sim.handle env
        (.cuda ⟨thread, time, .cudaEventQuery event⟩) = .ok sim) :
      Step env runtime ⟨thread, time, .query handle⟩ (runtime.asked thread sim (.query handle))
  | tell {thread : ResponseId} {time : ℤ} {message : Message} {sim : Simulator}
      (free : runtime.waiting thread = none) (own : message.sender = thread)
      (other : EventSystem.Other message)
      (handled : runtime.sim.handle env message = .ok sim) :
      Step env runtime ⟨thread, time, .other message false⟩ { runtime with sim }
  | ask {thread : ResponseId} {time : ℤ} {message : Message} {sim : Simulator}
      (free : runtime.waiting thread = none) (own : message.sender = thread)
      (other : EventSystem.Other message)
      (handled : runtime.sim.handle env message = .ok sim) :
      Step env runtime ⟨thread, time, .other message true⟩ (runtime.asked thread sim .other)
  | synchronized {thread : ResponseId} {time : ℤ} {handle : ℕ} {endTime : ℤ}
      (waits : runtime.waiting thread = some (.synchronize handle))
      (next : runtime.nextResponse thread = some (.sync endTime)) :
      Step env runtime ⟨thread, time, .synchronized handle endTime⟩
        ((runtime.read thread).finish thread.host handle endTime)
  | queried {thread : ResponseId} {time : ℤ} {handle : ℕ} {ready : Option ℤ} {currentSimTime : ℤ}
      (waits : runtime.waiting thread = some (.query handle))
      (next : runtime.nextResponse thread = some (.query ready)) :
      Step env runtime ⟨thread, time, .queried handle ready currentSimTime⟩
        ((runtime.read thread).finish thread.host handle (ready.getD currentSimTime))
  | answered {thread : ResponseId} {time : ℤ} {response : Response}
      (waits : runtime.waiting thread = some .other)
      (next : runtime.nextResponse thread = some response) :
      Step env runtime ⟨thread, time, .answered response⟩ (runtime.read thread)

def Initial (runtime : Runtime) : Prop :=
  ∃ sim, Simulator.Initial sim ∧ runtime = { sim := sim }

/-- The calls lead to the state, whatever their order. -/
abbrev Reached (env : Environment) : List Call → Runtime → Prop :=
  Runs.Reached Initial (Step env)

end Runtime

/-- The time that a call reads for an event, if it does. -/
def Call.reads (call : Call) (host : HostId) (handle : ℕ) : Option ℤ :=
  if call.thread.host = host then
    match call.op with
    | .synchronized other endTime => if other = handle then some endTime else none
    | .queried other ready currentSimTime =>
        if other = handle then some (ready.getD currentSimTime) else none
    | _ => none
  else none

/-- The time that the last call to read one has read for the event, zero if there is none. -/
def lastReading (calls : List Call) (host : HostId) (handle : ℕ) : ℤ :=
  calls.foldl (fun last call => (call.reads host handle).getD last) 0

theorem lastReading_concat (calls : List Call) (call : Call) (host : HostId) (handle : ℕ) :
    lastReading (calls ++ [call]) host handle =
      (call.reads host handle).getD (lastReading calls host handle) := by
  rw [lastReading, List.foldl_append]
  rfl

/-- A handle that a thread waits for. -/
def Waiting.handle? : Waiting → Option ℕ
  | .synchronize handle => some handle
  | .query handle => some handle
  | .other => none

namespace Runtime

variable {env : Environment} {runtime runtime' : Runtime} {calls : List Call} {call : Call}

/-- Every handle keeps what has been read last for its event, and nothing is read for an event
before it is created. -/
structure Kept (calls : List Call) (runtime : Runtime) : Prop where
  finished : ∀ host handle,
    (runtime.processes host).finishedTime handle = lastReading calls host handle
  created : ∀ host handle, ((runtime.processes host).handles handle).isSome →
    handle < (runtime.processes host).created
  fresh : ∀ host handle, (runtime.processes host).created ≤ handle →
    lastReading calls host handle = 0
  waits : ∀ thread waiting handle, runtime.waiting thread = some waiting →
    waiting.handle? = some handle → handle < (runtime.processes thread.host).created

/-- A call that reads no time and leaves the processes as they are. -/
theorem Kept.silent (kept : runtime.Kept calls)
    (silent : ∀ host handle, call.reads host handle = none)
    (processes : runtime'.processes = runtime.processes)
    (waits : ∀ thread waiting handle, runtime'.waiting thread = some waiting →
      waiting.handle? = some handle → handle < (runtime.processes thread.host).created) :
    runtime'.Kept (calls ++ [call]) where
  finished host handle := by
    rw [lastReading_concat, silent, Option.getD_none, processes]
    exact kept.finished host handle
  created host handle known := by
    rw [processes] at known ⊢
    exact kept.created host handle known
  fresh host handle le := by
    rw [lastReading_concat, silent, Option.getD_none]
    exact kept.fresh host handle (processes ▸ le)
  waits := processes ▸ waits

theorem Kept.asked (kept : runtime.Kept calls) {thread : ResponseId} {sim : Simulator}
    {waiting : Waiting} (below : ∀ handle ∈ waiting.handle?,
      handle < (runtime.processes thread.host).created)
    (silent : ∀ host handle, call.reads host handle = none) :
    (runtime.asked thread sim waiting).Kept (calls ++ [call]) := by
  refine kept.silent silent rfl ?_
  intro other waits handle at_other isHandle
  simp only [Runtime.asked, Function.update_apply] at at_other
  split at at_other
  · rename_i same
    rw [same]
    exact below handle (Option.some.inj at_other ▸ isHandle)
  · exact kept.waits other waits handle at_other isHandle

theorem Kept.read_waits (kept : runtime.Kept calls) {thread : ResponseId} :
    ∀ other waiting handle, (runtime.read thread).waiting other = some waiting →
      waiting.handle? = some handle → handle < (runtime.processes other.host).created := by
  intro other waiting handle at_other isHandle
  simp only [read, Function.update_apply] at at_other
  split at at_other
  · cases at_other
  · exact kept.waits other waiting handle at_other isHandle

/-- The time is read that the handle then keeps. -/
theorem Kept.finish (kept : runtime.Kept calls) {thread : ResponseId} {handle : ℕ} {value : ℤ}
    (below : handle < (runtime.processes thread.host).created)
    (reads : ∀ host other, call.reads host other =
      if thread.host = host ∧ handle = other then some value else none) :
    ((runtime.read thread).finish thread.host handle value).Kept (calls ++ [call]) := by
  have process : ∀ host, ((runtime.read thread).finish thread.host handle value).processes host =
      if host = thread.host then { runtime.processes thread.host with
        finishedTime := Function.update (runtime.processes thread.host).finishedTime handle value }
      else runtime.processes host := fun host => Function.update_apply ..
  have same : ∀ host, (((runtime.read thread).finish thread.host handle value).processes
      host).toEventHandles = (runtime.processes host).toEventHandles := by
    intro host
    rw [process]
    split
    · rename_i own
      rw [own]
    · rfl
  constructor
  · intro host other
    rw [lastReading_concat, reads, process]
    by_cases own : host = thread.host
    · subst own
      rw [if_pos rfl]
      by_cases read : other = handle
      · subst read
        simp
      · simp only [Function.update_of_ne read, Ne.symm read, and_false, if_false, Option.getD_none]
        exact kept.finished _ other
    · simp only [own, Ne.symm own, false_and, if_false, Option.getD_none]
      exact kept.finished host other
  · intro host other known
    rw [same] at known ⊢
    exact kept.created host other known
  · intro host other le
    rw [same] at le
    rw [lastReading_concat, reads, if_neg, Option.getD_none]
    · exact kept.fresh host other le
    · rintro ⟨rfl, rfl⟩
      exact Nat.not_lt.mpr le below
  · intro other waiting handle at_other isHandle
    rw [same]
    exact kept.read_waits other waiting handle at_other isHandle

/-- A process creates or records an event. -/
theorem Kept.setProcess (kept : runtime.Kept calls) (host : HostId) (process : Process)
    (sim : Simulator) (silent : ∀ host handle, call.reads host handle = none)
    (finished : ∀ handle, process.finishedTime handle =
      (runtime.processes host).finishedTime handle)
    (grows : (runtime.processes host).created ≤ process.created)
    (created : ∀ handle, (process.handles handle).isSome → handle < process.created) :
    ({ runtime with sim }.setProcess host process).Kept (calls ++ [call]) := by
  have at_host : ∀ other, ({ runtime with sim }.setProcess host process).processes other =
      if other = host then process else runtime.processes other :=
    fun other => Function.update_apply ..
  constructor
  · intro other handle
    rw [lastReading_concat, silent, Option.getD_none, at_host]
    split
    · rename_i own
      rw [finished, own]
      exact kept.finished host handle
    · exact kept.finished other handle
  · intro other handle known
    rw [at_host] at known ⊢
    split at known
    · rename_i own
      rw [if_pos own]
      exact created handle known
    · rename_i apart
      rw [if_neg apart]
      exact kept.created other handle known
  · intro other handle le
    rw [lastReading_concat, silent, Option.getD_none]
    rw [at_host] at le
    split at le
    · rename_i own
      exact own ▸ kept.fresh host handle (grows.trans le)
    · exact kept.fresh other handle le
  · intro thread waiting handle at_thread isHandle
    have below := kept.waits thread waiting handle at_thread isHandle
    rw [at_host]
    split
    · rename_i own
      exact Nat.lt_of_lt_of_le (own ▸ below) grows
    · exact below

theorem Kept.step (kept : runtime.Kept calls) (taken : Step env runtime call runtime') :
    runtime'.Kept (calls ++ [call]) := by
  cases taken with
  | @create thread _ _ free =>
      refine kept.setProcess _ _ runtime.sim (fun host handle => ite_self none) ?_
        (Nat.le_succ _) ?_
      · intro handle
        by_cases new : handle = (runtime.processes thread.host).created
        · subst new
          refine (Function.update_self ..).trans ?_
          rw [kept.finished, kept.fresh _ _ (Nat.le_refl _)]
        · exact Function.update_of_ne new ..
      · intro handle known
        simp only [EventHandles.cudaEventCreateWithFlags, Function.update_apply] at known ⊢
        split at known
        · omega
        · exact Nat.lt_succ_of_lt (kept.created _ _ known)
  | record free known handled =>
      refine kept.setProcess _ _ _ (fun host handle => ite_self none) (fun _ => rfl)
        (Nat.le_refl _) ?_
      intro other isKnown
      simp only [EventHandles.setStream, Function.update_apply] at isKnown
      split at isKnown
      · rename_i same
        exact kept.created _ _ (same ▸ known ▸ rfl)
      · exact kept.created _ _ isKnown
  | wait free known handled => exact kept.silent (fun host handle => ite_self none) rfl kept.waits
  | synchronize free known handled =>
      refine kept.asked ?_ fun host handle => ite_self none
      rintro handle ⟨⟩
      exact kept.created _ _ (known ▸ rfl)
  | query free known handled =>
      refine kept.asked ?_ fun host handle => ite_self none
      rintro handle ⟨⟩
      exact kept.created _ _ (known ▸ rfl)
  | tell free own other handled =>
      exact kept.silent (fun host handle => ite_self none) rfl kept.waits
  | ask free own other handled =>
      refine kept.asked ?_ fun host handle => ite_self none
      rintro handle ⟨⟩
  | synchronized waits next =>
      refine kept.finish (kept.waits _ _ _ waits rfl) fun host other => ?_
      simp only [Call.reads, ← ite_and]
  | queried waits next =>
      refine kept.finish (kept.waits _ _ _ waits rfl) fun host other => ?_
      simp only [Call.reads, ← ite_and]
  | answered waits next =>
      exact kept.silent (fun host handle => ite_self none) rfl kept.read_waits

theorem kept_of_reached (reached : Reached env calls runtime) : runtime.Kept calls := by
  refine reached.invariant (fun calls runtime => Kept calls runtime) ?_
    fun kept taken => kept.step taken
  rintro runtime ⟨sim, _, rfl⟩
  exact ⟨fun _ _ => rfl, fun _ _ known => by simp at known, fun _ _ _ => rfl,
    fun _ _ _ at_thread => by simp at at_thread⟩

/-- The event that the handle has been recorded for last has completed at the time. -/
def Completed (runtime : Runtime) (host : HostId) (handle : ℕ) (time : ℤ) : Prop :=
  ∃ event id, (runtime.processes host).handles handle = some event ∧
    runtime.sim.idOfCuda (host, event) = some id ∧ runtime.sim.queue.query id = some time

/-- The elapsed time of two completed events is the one between their completions, in
milliseconds, where the simulator counts microseconds. -/
def Elapses (runtime : Runtime) (host : HostId) (start finish : ℕ) : Prop :=
  ∀ startTime finishTime, runtime.Completed host start startTime →
    runtime.Completed host finish finishTime →
      runtime.cudaEventElapsedTime host start finish = (finishTime - startTime : ℚ) / 1000

theorem Completed.unique {host : HostId} {handle : ℕ} {time time' : ℤ}
    (completed : runtime.Completed host handle time)
    (completed' : runtime.Completed host handle time') : time = time' := by
  rcases completed with ⟨event, id, known, recorded, ended⟩
  rcases completed' with ⟨event', id', known', recorded', ended'⟩
  rw [known, Option.some.injEq] at known'
  rw [← known', recorded, Option.some.injEq] at recorded'
  rw [← recorded', ended, Option.some.injEq] at ended'
  exact ended'

/-- What the elapsed time is. -/
theorem cudaEventElapsedTime_eq (reached : Reached env calls runtime) (host : HostId)
    (start finish : ℕ) : runtime.cudaEventElapsedTime host start finish =
      (lastReading calls host finish - lastReading calls host start : ℤ) := by
  have kept := kept_of_reached reached
  rw [cudaEventElapsedTime, kept.finished, kept.finished]

theorem eq_div_thousand_iff (elapsed completed : ℤ) :
    (elapsed : ℚ) = (completed : ℚ) / 1000 ↔ 1000 * elapsed = completed := by
  rw [eq_div_iff (by norm_num)]
  constructor
  · intro same
    have cast : ((1000 * elapsed : ℤ) : ℚ) = (completed : ℤ) := by
      push_cast
      linarith
    exact_mod_cast cast
  · intro same
    rw [← same]
    push_cast
    ring

/-- The elapsed time is right exactly when a thousand times the difference of what has been read
last is the difference of the completions; where this is their times, exactly when the two have
completed in one microsecond. -/
theorem elapses_iff (env : Environment) (calls : List Call) (runtime : Runtime)
    (reached : Reached env calls runtime) (host : HostId) (start finish : ℕ) :
    (runtime.Elapses host start finish ↔ ∀ startTime finishTime,
      runtime.Completed host start startTime → runtime.Completed host finish finishTime →
        1000 * (lastReading calls host finish - lastReading calls host start) =
          finishTime - startTime) ∧
    (runtime.Completed host start (lastReading calls host start) →
      runtime.Completed host finish (lastReading calls host finish) →
        (runtime.Elapses host start finish ↔
          lastReading calls host start = lastReading calls host finish)) := by
  have general : runtime.Elapses host start finish ↔ ∀ startTime finishTime,
      runtime.Completed host start startTime → runtime.Completed host finish finishTime →
        1000 * (lastReading calls host finish - lastReading calls host start) =
          finishTime - startTime := by
    refine forall_congr' fun startTime => forall_congr' fun finishTime => ?_
    rw [cudaEventElapsedTime_eq reached, ← Int.cast_sub, eq_div_thousand_iff]
  refine ⟨general, fun startCompleted finishCompleted => general.trans ?_⟩
  constructor
  · intro scaled
    have same := scaled _ _ startCompleted finishCompleted
    omega
  · intro same startTime finishTime startCompleted' finishCompleted'
    rw [startCompleted.unique startCompleted', finishCompleted.unique finishCompleted'] at same
    rw [startCompleted.unique startCompleted', finishCompleted.unique finishCompleted', same]
    omega

/-- Two events are recorded at two times, and the thread waits for both. -/
def twoEvents (first second : ℤ) : List Call :=
  [⟨leftThread 1, first, .create 0⟩, ⟨leftThread 1, first, .create 0⟩,
    ⟨leftThread 1, first, .record 0 ⟨0, 3⟩⟩, ⟨leftThread 1, second, .record 1 ⟨0, 3⟩⟩,
    ⟨leftThread 1, second, .synchronize 0⟩, ⟨leftThread 1, second, .synchronized 0 first⟩,
    ⟨leftThread 1, second, .synchronize 1⟩, ⟨leftThread 1, second, .synchronized 1 second⟩]

/-- The server handles the messages of the two events; its responses and the completions. -/
def serveTwoEvents (first second : ℤ) : Except Panic (List Response × List Response ×
    Option ℤ × Option ℤ) := do
  let env := Environment.plain 10
  let recorded ← Simulator.pair.handle env (.cuda ⟨leftThread 1, first, .cudaEventRecord ⟨0, 3, 0⟩⟩)
  let recorded ← recorded.handle env (.cuda ⟨leftThread 1, second, .cudaEventRecord ⟨0, 3, 1⟩⟩)
  let one ← recorded.handle env (.cuda ⟨leftThread 1, second, .cudaEventSynchronize ⟨0, 3, 0⟩⟩)
  let both ← one.handle env (.cuda ⟨leftThread 1, second, .cudaEventSynchronize ⟨0, 3, 1⟩⟩)
  return ((Simulator.repliesTo (leftThread 1) one.sent).reverse,
    (Simulator.repliesTo (leftThread 1) both.sent).reverse,
    (both.idOfCuda ((leftThread 1).host, ⟨0, 3, 0⟩)).bind both.queue.query,
    (both.idOfCuda ((leftThread 1).host, ⟨0, 3, 1⟩)).bind both.queue.query)

theorem reached_twoEvents {first second : ℤ} (read : serveTwoEvents first second =
    .ok ([.sync first], [.sync first, .sync second], some first, some second)) :
    ∃ runtime, Reached (Environment.plain 10) (twoEvents first second) runtime ∧
      runtime.Completed (leftThread 1).host 0 first ∧
      runtime.Completed (leftThread 1).host 1 second := by
  simp only [serveTwoEvents, bind_eq_ok, pure_eq_ok, Prod.mk.injEq, Option.bind_eq_some_iff] at read
  rcases read with ⟨sim₁, first_recorded, sim₂, second_recorded, sim₃, first_asked, sim₄,
    second_asked, first_answered, second_answered, ⟨first_id, first_known, first_ended⟩,
    second_id, second_known, second_ended⟩
  have reached : Reached (Environment.plain 10) [] { sim := Simulator.pair } :=
    .start ⟨_, Simulator.initial_pair, rfl⟩
  have created := (reached.step (@Step.create _ _ (leftThread 1) first 0 rfl)).step
    (@Step.create _ _ (leftThread 1) first 0 rfl)
  have zero : some (CudaEvent.mk 0 0 (eventNumber 0)) = some ⟨0, 0, 0⟩ := by decide
  have one : some (CudaEvent.mk 0 0 (eventNumber 1)) = some ⟨0, 0, 1⟩ := by decide
  have recorded := (created.step
    (@Step.record _ _ (leftThread 1) first 0 ⟨0, 3⟩ ⟨0, 0, 0⟩ _ rfl zero first_recorded)).step
      (@Step.record _ _ (leftThread 1) second 1 ⟨0, 3⟩ ⟨0, 0, 1⟩ _ rfl one second_recorded)
  have waited := (recorded.step
    (@Step.synchronize _ _ (leftThread 1) second 0 ⟨0, 3, 0⟩ _ rfl rfl first_asked)).step
      (@Step.synchronized _ _ (leftThread 1) second 0 first rfl
        (congrArg (·[0]?) first_answered))
  have both := (waited.step
    (@Step.synchronize _ _ (leftThread 1) second 1 ⟨0, 3, 1⟩ _ rfl rfl second_asked)).step
      (@Step.synchronized _ _ (leftThread 1) second 1 second rfl
        (congrArg (·[1]?) second_answered))
  exact ⟨_, both, ⟨_, first_id, rfl, first_known, first_ended⟩,
    ⟨_, second_id, rfl, second_known, second_ended⟩⟩

theorem lastReading_twoEvents (first second : ℤ) :
    lastReading (twoEvents first second) (leftThread 1).host 0 = first ∧
      lastReading (twoEvents first second) (leftThread 1).host 1 = second :=
  ⟨rfl, rfl⟩

/-- Two events that complete in one microsecond. -/
theorem elapses_iff_together : ∃ calls runtime, Reached (Environment.plain 10) calls runtime ∧
    runtime.Completed (leftThread 1).host 0 1000 ∧ runtime.Completed (leftThread 1).host 1 1000 ∧
    runtime.Elapses (leftThread 1).host 0 1 := by
  rcases @reached_twoEvents 1000 1000 (by decide +kernel) with
    ⟨runtime, reached, first, second⟩
  refine ⟨_, runtime, reached, first, second, ?_⟩
  have read := lastReading_twoEvents 1000 1000
  refine ((elapses_iff _ _ runtime reached (leftThread 1).host 0 1).2 ?_ ?_).mpr ?_
  · exact read.1.symm ▸ first
  · exact read.2.symm ▸ second
  · rw [read.1, read.2]

/-- Between events that complete five milliseconds apart five thousand are said to elapse. -/
theorem not_elapses_apart : ¬∀ (env : Environment) (calls : List Call) (runtime : Runtime),
    Reached env calls runtime → ∀ host start finish, runtime.Elapses host start finish := by
  intro claimed
  rcases @reached_twoEvents 1000 6000 (by decide +kernel) with
    ⟨runtime, reached, first, second⟩
  have elapsed := claimed _ _ runtime reached (leftThread 1).host 0 1 1000 6000 first second
  have read := lastReading_twoEvents 1000 6000
  rw [cudaEventElapsedTime_eq reached, read.1, read.2] at elapsed
  norm_num at elapsed

end Runtime

end EventTimes

end Phantora
