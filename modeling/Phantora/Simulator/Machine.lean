import Phantora.Lib.Forward
import Phantora.SequenceCache
import Phantora.Simulator.Client

/-!
# The machine of a host

What the calls of a host mean by themselves. Each stream does its operations one
after the other, each of them as soon as it has been issued and what it waits for
is over. A blocking call returns when what it waits for is over, and a poll tells
whether it is. There are no other hosts here, no queue and no execution that lags
behind.
-/

namespace Phantora

/-- The measured durations do not change. -/
structure Profiler.Steady (profiler : Profiler) : Prop where
  memcpy : ∀ number kind size, profiler.memcpy number kind size = profiler.memcpy 0 kind size
  flashAttn : ∀ number call, profiler.flashAttn number call = profiler.flashAttn 0 call
  torch : ∀ number n info, profiler.torch number n info = profiler.torch 0 n info

/-- A stream with the spans of its operations, in issue order, and the torch calls that are not
among them yet. -/
structure Lane where
  spans : List (ℤ × ℤ) := []
  buffered : List (TorchCall × ℕ) := []
  /-- The sequences whose durations have been asked for. -/
  sequences : List (List TorchCallInfo) := []

namespace Lane

/-- When the last operation ends. -/
def finish (lane : Lane) : Option ℤ :=
  lane.spans.getLast?.map Prod.snd

/-- An operation starts when it is issued, when the last one ends or when what it waits for is
over, whichever comes last. -/
def issue (lane : Lane) (waits : List ℤ) (duration time : ℤ) : Lane :=
  let start := Forward.latest time (waits ++ lane.finish.toList)
  { lane with spans := lane.spans ++ [(start, start + duration)] }

/-- A torch call in a sequence. -/
def issueTorch (profiler : Profiler) (lane : Lane) (call : TorchCall) : Lane :=
  lane.issue [] (asMicros (profiler.torch 0 1 call.info)) call.time

def issueSeq (profiler : Profiler) (lane : Lane) : TorchCallSeq → Lane
  | .single call duration => lane.issue [] (asMicros duration) call.time
  | .seq calls =>
      calls.foldl (issueTorch profiler)
        { lane with sequences := calls.map TorchCall.info :: lane.sequences }

/-- Turn the buffered torch calls into operations. -/
def flush (profiler : Profiler) (lane : Lane) : Lane :=
  (splitSequences profiler lane.buffered).foldl (issueSeq profiler) { lane with buffered := [] }

/-- Issue an operation behind the buffered torch calls. -/
def work (profiler : Profiler) (lane : Lane) (waits : List ℤ) (duration time : ℤ) : Lane :=
  (lane.flush profiler).issue waits duration time

end Lane

/-- What is due to a request. -/
inductive Due where
  /-- A blocking call returns at a time. -/
  | returns (time : ℤ)
  /-- A poll at a time of something that is over at another one. -/
  | poll (time finish : ℤ)
  /-- A poll at a time of a stream without operations. -/
  | ready (time : ℤ)
deriving DecidableEq, Repr

/-- The response is what is due. A poll may find something over that will only be over later, and it
finds everything over that is over before its time. -/
def Due.Meets : Due → Response → Prop
  | .returns time, .sync endTime => endTime = time
  | .poll time finish, .query found => found = some finish ∨ found = none ∧ time ≤ finish
  | .ready time, .query found => found = some time
  | _, _ => False

/-- The responses report the same time, if both report one. -/
def Response.Agrees : Response → Response → Prop
  | .sync time, .sync time' => time = time'
  | .query found, .query found' =>
      ∀ time time', found = some time → found' = some time' → time = time'
  | _, _ => False

/-- What meets the same due agrees. -/
theorem Due.Meets.agrees {due : Due} {first second : Response} (meets : due.Meets first)
    (meets' : due.Meets second) : first.Agrees second := by
  cases due with
  | returns time =>
      cases first with
      | sync =>
          cases second with
          | sync => exact meets.trans meets'.symm
          | _ => exact meets'.elim
      | _ => exact meets.elim
  | poll time finish =>
      cases first with
      | query =>
          cases second with
          | query =>
              intro time time' known known'
              subst known known'
              simp only [Due.Meets, Option.some.injEq, reduceCtorEq, false_and, or_false]
                at meets meets'
              exact meets.trans meets'.symm
          | _ => exact meets'.elim
      | _ => exact meets.elim
  | ready time =>
      cases first with
      | query =>
          cases second with
          | query =>
              intro time time' known known'
              exact Option.some.inj ((known.symm.trans meets).trans (meets'.symm.trans known'))
          | _ => exact meets'.elim
      | _ => exact meets.elim

structure Machine where
  lanes : CudaStream → Lane := fun _ => {}
  /-- The streams that have been used. -/
  streams : List CudaStream := []
  /-- When the recorded events are over. -/
  marks : CudaEvent → Option ℤ := fun _ => none
  /-- What is due to the requests, in the order of the requests. -/
  dues : List (ResponseId × Due) := []

namespace Machine

def owe (machine : Machine) (id : ResponseId) (due : Due) : Machine :=
  { machine with dues := machine.dues ++ [(id, due)] }

/-- Change one stream. -/
def onLane (machine : Machine) (stream : CudaStream) (f : Lane → Lane) : Machine :=
  { machine with lanes := Function.update machine.lanes stream (f (machine.lanes stream)) }

def use (machine : Machine) (stream : CudaStream) (f : Lane → Lane) : Machine :=
  { machine.onLane stream f with
    streams := if stream ∈ machine.streams then machine.streams else machine.streams ++ [stream] }

/-- Turn the buffered torch calls of some streams into operations. -/
def flushAll (profiler : Profiler) (machine : Machine) (streams : List CudaStream) : Machine :=
  { machine with lanes := fun stream =>
      if stream ∈ streams then (machine.lanes stream).flush profiler else machine.lanes stream }

/-- The streams of a device that have been used. -/
def onDevice (machine : Machine) (device : ℤ) : List CudaStream :=
  machine.streams.filter fun stream => stream.device = device

/-- When the operations on a device are over. -/
def finishDevice (machine : Machine) (device time : ℤ) : ℤ :=
  Forward.latest time ((machine.onDevice device).filterMap
    fun stream => (machine.lanes stream).finish)

/-- A call of a thread at a time. -/
def call (profiler : Profiler) (machine : Machine) (id : ResponseId) (time : ℤ) :
    CudaCall → Machine
  | .cudaMemcpyAsync size kind stream =>
      machine.use stream fun lane =>
        lane.work profiler [] (asMicros (profiler.memcpy 0 kind size)) time
  | .cudaDeviceSynchronize device =>
      let machine := machine.flushAll profiler (machine.onDevice device)
      machine.owe id (.returns (machine.finishDevice device time))
  | .cudaStreamSynchronize stream =>
      let machine := machine.use stream fun lane => lane.work profiler [] 0 time
      machine.owe id (.returns ((machine.lanes stream).finish.getD time))
  | .cudaStreamWaitEvent stream event =>
      machine.use stream fun lane => lane.work profiler (machine.marks event).toList 0 time
  | .cudaStreamQuery stream =>
      let machine :=
        if stream ∈ machine.streams then machine.onLane stream (Lane.flush profiler) else machine
      machine.owe id (match (machine.lanes stream).finish with
        | some finish => .poll time finish
        | none => .ready time)
  | .cudaEventRecord event =>
      let stream : CudaStream := ⟨event.device, event.stream⟩
      let machine := machine.use stream fun lane => lane.work profiler [] 0 time
      { machine with
        marks := Function.update machine.marks event (machine.lanes stream).finish }
  | .cudaEventSynchronize event => machine.owe id (.returns ((machine.marks event).getD time))
  | .cudaEventQuery event => machine.owe id (.poll time ((machine.marks event).getD time))
  | .cudaAddLatency stream latency =>
      machine.use stream fun lane => lane.work profiler [] latency time
  | .flashAttnCall stream isFwd isBf16 batchSize seqlenQ seqlenK numHeads numHeadsK headSize
      windowSizeLeft windowSizeRight isCausal =>
      machine.use stream fun lane => lane.work profiler [] (asMicros (profiler.flashAttn 0
        (.flashAttnCall stream isFwd isBf16 batchSize seqlenQ seqlenK numHeads numHeadsK headSize
          windowSizeLeft windowSizeRight isCausal))) time
  | _ => machine

/-- A torch call is kept until its stream is used. -/
def torch (profiler : Profiler) (machine : Machine) (call : TorchCall) : Machine :=
  machine.use call.stream fun lane =>
    { lane with buffered := lane.buffered ++ [(call, profiler.torch 0 2 call.info)] }

def obey (profiler : Profiler) (machine : Machine) : Message → Machine
  | .cuda msg => machine.call profiler msg.id msg.currTime msg.call
  | .torch call => machine.torch profiler call
  | .exit _ _ => machine

/-- The machine of a host after the messages of all hosts, of which it obeys its own. -/
def after (profiler : Profiler) (messages : List Message) (host : HostId) : Machine :=
  (messages.filter fun message => message.sender.host = host).foldl (obey profiler) {}

/-- The sequences that the machine has asked for are among some. -/
def Within (machine : Machine) (sequences : Set (List TorchCallInfo)) : Prop :=
  ∀ stream, ∀ infos ∈ (machine.lanes stream).sequences, infos ∈ sequences

end Machine

/-- The call uses no communicator, and it takes no negative time. -/
def CudaCall.Solo : CudaCall → Prop
  | .cudaMemcpyAsync _ _ _ => True
  | .cudaDeviceSynchronize _ => True
  | .cudaStreamSynchronize _ => True
  | .cudaStreamWaitEvent _ _ => True
  | .cudaStreamQuery _ => True
  | .cudaEventRecord _ => True
  | .cudaEventSynchronize _ => True
  | .cudaEventQuery _ => True
  | .cudaAddLatency _ latency => 0 ≤ latency
  | .flashAttnCall _ _ _ _ _ _ _ _ _ _ _ _ => True
  | .readTimer _ => True
  | _ => False

/-- The message uses no communicator, and its times are not negative. -/
def Message.Solo : Message → Prop
  | .cuda msg => 0 ≤ msg.currTime ∧ msg.call.Solo
  | .torch call => 0 ≤ call.time
  | .exit _ _ => True

section Sequences

variable {profiler : Profiler} {lane : Lane} {machine : Machine}

@[simp]
theorem Lane.sequences_issue (lane : Lane) (waits : List ℤ) (duration time : ℤ) :
    (lane.issue waits duration time).sequences = lane.sequences := rfl

@[simp]
theorem Lane.buffered_issue (lane : Lane) (waits : List ℤ) (duration time : ℤ) :
    (lane.issue waits duration time).buffered = lane.buffered := rfl

theorem Lane.sequences_issueTorchs (lane : Lane) (calls : List TorchCall) :
    (calls.foldl (issueTorch profiler) lane).sequences = lane.sequences := by
  induction calls generalizing lane with
  | nil => rfl
  | cons call calls ih => exact ih _

theorem Lane.sequences_issueSeq (lane : Lane) (seq : TorchCallSeq) :
    lane.sequences ⊆ (lane.issueSeq profiler seq).sequences := by
  cases seq with
  | single call duration => exact List.Subset.refl _
  | seq calls =>
      rw [issueSeq, sequences_issueTorchs]
      exact List.subset_cons_self _ _

theorem Lane.sequences_issueSeqs (lane : Lane) (seqs : List TorchCallSeq) :
    lane.sequences ⊆ (seqs.foldl (issueSeq profiler) lane).sequences := by
  induction seqs generalizing lane with
  | nil => exact List.Subset.refl _
  | cons seq seqs ih => exact fun _ mem => ih _ (sequences_issueSeq lane seq mem)

theorem Lane.sequences_flush (lane : Lane) :
    lane.sequences ⊆ (lane.flush profiler).sequences :=
  sequences_issueSeqs { lane with buffered := [] } _

theorem Lane.buffered_issueTorchs (lane : Lane) (calls : List TorchCall) :
    (calls.foldl (issueTorch profiler) lane).buffered = lane.buffered := by
  induction calls generalizing lane with
  | nil => rfl
  | cons call calls ih => exact ih _

theorem Lane.buffered_issueSeqs (lane : Lane) (seqs : List TorchCallSeq) :
    (seqs.foldl (issueSeq profiler) lane).buffered = lane.buffered := by
  induction seqs generalizing lane with
  | nil => rfl
  | cons seq seqs ih =>
      rw [List.foldl_cons, ih]
      cases seq with
      | single call duration => rfl
      | seq calls => exact buffered_issueTorchs _ calls

/-- Nothing is left to flush. -/
theorem Lane.flush_flush (lane : Lane) :
    (lane.flush profiler).flush profiler = lane.flush profiler := by
  have empty : (lane.flush profiler).buffered = [] := buffered_issueSeqs _ _
  generalize lane.flush profiler = flushed at empty
  cases flushed
  subst empty
  rfl

namespace Machine

variable {sequences : Set (List TorchCallInfo)} {stream other : CudaStream}

@[simp]
theorem lanes_onLane_self (machine : Machine) (stream : CudaStream) (f : Lane → Lane) :
    (machine.onLane stream f).lanes stream = f (machine.lanes stream) :=
  Function.update_self ..

theorem lanes_onLane_of_ne (machine : Machine) (f : Lane → Lane) (differs : other ≠ stream) :
    (machine.onLane stream f).lanes other = machine.lanes other :=
  Function.update_of_ne differs ..

@[simp]
theorem lanes_use_self (machine : Machine) (stream : CudaStream) (f : Lane → Lane) :
    (machine.use stream f).lanes stream = f (machine.lanes stream) :=
  Function.update_self ..

theorem lanes_use_of_ne (machine : Machine) (f : Lane → Lane) (differs : other ≠ stream) :
    (machine.use stream f).lanes other = machine.lanes other :=
  Function.update_of_ne differs ..

theorem mem_streams_use (machine : Machine) (f : Lane → Lane) :
    other ∈ (machine.use stream f).streams ↔ other ∈ machine.streams ∨ other = stream := by
  by_cases present : stream ∈ machine.streams
  · simp only [use, present, if_true, onLane, iff_self_or]
    exact fun same => same ▸ present
  · simp [use, present, onLane]

theorem Within.of_onLane {f : Lane → Lane}
    (within : (machine.onLane stream f).Within sequences)
    (grows : (machine.lanes stream).sequences ⊆ (f (machine.lanes stream)).sequences) :
    machine.Within sequences := by
  intro other infos mem
  apply within other
  by_cases same : other = stream
  · subst same
    rw [lanes_onLane_self]
    exact grows mem
  · rw [lanes_onLane_of_ne _ _ same]
    exact mem

theorem Within.of_use {f : Lane → Lane}
    (within : (machine.use stream f).Within sequences)
    (grows : (machine.lanes stream).sequences ⊆ (f (machine.lanes stream)).sequences) :
    machine.Within sequences := by
  have onLane : (machine.onLane stream f).Within sequences := within
  exact onLane.of_onLane grows

theorem Within.of_work {waits : List ℤ} {duration time : ℤ}
    (within : (machine.use stream fun lane =>
      lane.work profiler waits duration time).Within sequences) : machine.Within sequences :=
  within.of_use (Lane.sequences_flush _)

/-- The sequences that a stream asks for when it is flushed for an operation. -/
theorem Within.of_worked {waits : List ℤ} {duration time : ℤ}
    (within : (machine.use stream fun lane =>
      lane.work profiler waits duration time).Within sequences) :
    ∀ infos ∈ ((machine.lanes stream).flush profiler).sequences, infos ∈ sequences := by
  intro infos mem
  apply within stream
  rw [lanes_use_self]
  exact mem

theorem Within.of_flushAll {streams : List CudaStream}
    (within : (machine.flushAll profiler streams).Within sequences) :
    machine.Within sequences := by
  intro stream infos mem
  apply within stream
  simp only [flushAll]
  split
  · exact Lane.sequences_flush _ mem
  · exact mem

theorem Within.of_flushAll_append {streams others : List CudaStream}
    (within : (machine.flushAll profiler (streams ++ others)).Within sequences) :
    (machine.flushAll profiler streams).Within sequences := by
  intro stream infos mem
  apply within stream
  simp only [flushAll] at mem ⊢
  by_cases isFlushed : stream ∈ streams
  · rw [if_pos (List.mem_append_left _ isFlushed)]
    rwa [if_pos isFlushed] at mem
  · rw [if_neg isFlushed] at mem
    split
    · exact Lane.sequences_flush _ mem
    · exact mem

theorem onLane_onLane (machine : Machine) (stream : CudaStream) (f g : Lane → Lane) :
    (machine.onLane stream f).onLane stream g = machine.onLane stream (g ∘ f) := by
  simp [onLane]

theorem onLane_use (machine : Machine) (stream : CudaStream) (f g : Lane → Lane) :
    (machine.use stream f).onLane stream g = machine.use stream (g ∘ f) := by
  simp [onLane, use]

/-- A stream that has been used before. -/
theorem use_of_mem (machine : Machine) (f : Lane → Lane) (mem : stream ∈ machine.streams) :
    machine.use stream f = machine.onLane stream f := by
  simp [onLane, use, mem]

theorem onLane_id (machine : Machine) (stream : CudaStream) :
    (machine.onLane stream fun lane => lane) = machine := by
  simp [onLane]

theorem flushAll_nil (machine : Machine) : machine.flushAll profiler [] = machine := by
  simp [flushAll]

/-- One more stream is flushed. -/
theorem onLane_flushAll (machine : Machine) (streams : List CudaStream) (stream : CudaStream) :
    (machine.flushAll profiler streams).onLane stream (Lane.flush profiler) =
      machine.flushAll profiler (streams ++ [stream]) := by
  simp only [onLane, flushAll, mk.injEq, and_true]
  funext other
  by_cases same : other = stream
  · subst same
    rw [Function.update_self, if_pos (List.mem_append_right _ (List.mem_singleton_self _))]
    split
    · exact Lane.flush_flush _
    · rfl
  · rw [Function.update_of_ne same]
    simp [same]

theorem use_flushAll (machine : Machine) (streams : List CudaStream)
    (used : stream ∈ machine.streams) :
    (machine.flushAll profiler streams).use stream (Lane.flush profiler) =
      machine.flushAll profiler (streams ++ [stream]) := by
  rw [← onLane_flushAll]
  exact use_of_mem _ _ used

theorem lanes_flushAll_of_mem (machine : Machine) {streams : List CudaStream}
    (mem : stream ∈ streams) :
    (machine.flushAll profiler streams).lanes stream = (machine.lanes stream).flush profiler :=
  if_pos mem

@[simp]
theorem onDevice_flushAll (machine : Machine) (streams : List CudaStream) (device : ℤ) :
    (machine.flushAll profiler streams).onDevice device = machine.onDevice device := rfl

theorem flushAll_congr (profiler : Profiler) (machine : Machine) {streams others : List CudaStream}
    (same : ∀ stream, stream ∈ streams ↔ stream ∈ others) :
    machine.flushAll profiler streams = machine.flushAll profiler others := by
  simp only [flushAll, same]

/-- A message adds sequences only. -/
theorem Within.of_obey {message : Message}
    (within : (machine.obey profiler message).Within sequences) :
    machine.Within sequences := by
  rcases message with ⟨id, time, call⟩ | call | _
  · cases call with
    | cudaMemcpyAsync | cudaStreamWaitEvent | cudaAddLatency | flashAttnCall =>
        exact Within.of_work within
    | cudaStreamSynchronize stream =>
        have worked : (machine.use stream fun lane => lane.work profiler [] 0 time).Within
          sequences := within
        exact worked.of_work
    | cudaEventRecord event =>
        have worked : (machine.use ⟨event.device, event.stream⟩ fun lane =>
          lane.work profiler [] 0 time).Within sequences := within
        exact worked.of_work
    | cudaDeviceSynchronize device =>
        have flushed : (machine.flushAll profiler (machine.onDevice device)).Within sequences :=
          within
        exact flushed.of_flushAll
    | cudaStreamQuery stream =>
        have flushed : (if stream ∈ machine.streams then
          machine.onLane stream (Lane.flush profiler) else machine).Within sequences := within
        split at flushed
        · exact flushed.of_onLane (Lane.sequences_flush _)
        · exact flushed
    | _ => exact within
  · exact Within.of_use within (List.Subset.refl _)
  · exact within

end Machine

end Sequences

end Phantora
