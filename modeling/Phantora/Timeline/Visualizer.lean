import Mathlib.Order.Bounds.Basic
import Phantora.Simulator.Recording
import Phantora.Timeline.Framing

/-!
# The visualizer

The visualizer reads a timeline file twice, first its actions and then its spans,
and makes an event of the Chrome trace format out of every action.
-/

namespace Phantora

open Outcome Timeline

namespace Chrome

inductive Phase where
  | b | e | x
deriving DecidableEq, Repr

structure Event where
  name : String
  cat : String
  ph : Phase
  ts : ℤ
  dur : ℤ
  pid : ℕ
  tid : ℕ
  args : Action

end Chrome

namespace Visualizer

/-- Why the visualizer panics. -/
inductive Failure where
  | badRecord
  | actionPresent
  | spanWithoutAction
  | noCudaStream
deriving DecidableEq, Repr

/-- `i64::max_value()` -/
def i64Max : ℤ := 2 ^ 63 - 1

structure Span where
  id : EventId
  start : ℤ
  end_ : ℤ
  action : Action

/-- The actions that have been read, each with the span that has been read last. -/
structure Timeline where
  db : List Span := []
  minTs : ℤ := i64Max

/-- A span is read: the action of the event, if there is one, gets it. -/
def Span.amend (span : Span) (id : EventId) (start end_ : ℤ) : Span :=
  if span.id = id then { span with start := start, end_ := end_ } else span

def update (timeline : Timeline) : Record → Except Failure Timeline
  | .action id action => do
      assert (id ∉ timeline.db.map Span.id) Failure.actionPresent
      return { timeline with db := timeline.db ++ [⟨id, 0, 0, action⟩] }
  | .span id start end_ => do
      let timeline : Timeline :=
        ⟨timeline.db.map fun span => span.amend id start end_, min timeline.minTs start⟩
      assert (id ∈ timeline.db.map Span.id ∨ start = end_) Failure.spanWithoutAction
      return timeline

def isAction : Record → Bool
  | .action _ _ => true
  | .span _ _ _ => false

def isSpan : Record → Bool
  | .action _ _ => false
  | .span _ _ _ => true

/-- Take over the wanted records of a file. -/
def readStep (bincode : Bincode) (file : List UInt8) (wanted : Record → Bool)
    (timeline : Timeline) : Except Failure Timeline := do
  let (records, failure) := TimelineReader.records bincode ⟨file, 0⟩
  let timeline ← (records.filter wanted).foldlM update timeline
  match failure with
  | .unexpectedEof => return timeline
  | .badRecord => throw .badRecord

/-- The number of a host, counted as the hosts occur. -/
def hostRank (hosts : List String) (src : String) : List String × ℕ :=
  if src ∈ hosts then (hosts, hosts.idxOf src) else (hosts ++ [src], hosts.length)

/-- `(((stream.device as u64) << 32) | (stream.id as u64)) as u32` -/
def streamTid (stream : CudaStream) : ℕ :=
  ((BitVec.ofInt 64 stream.device <<< 32 ||| BitVec.ofInt 64 stream.id).setWidth 32).toNat

/-- How operators are displayed. -/
abbrev TorchName := TorchCallInfo → String

def computeName (torchName : TorchName) : ComputeMeta → String
  | .cuda call => call.toString
  | .torch call => torchName call.info

/-- The event of an action; the hosts of communications are numbered. -/
def createEvent (torchName : TorchName) (minTs : ℤ) (hosts : List String) (span : Span) :
    Except Failure (List String × Chrome.Event) :=
  match span.action with
  | .computation node _ info =>
      return (hosts,
        { name := computeName torchName info
          cat := "Computation"
          ph := .x
          ts := span.start - minTs
          dur := span.end_ - span.start
          pid := node.pid
          tid := node.pid
          args := span.action })
  | .communication flow info => do
      let stream ← unwrap info.getCudaStream Failure.noCudaStream
      let (hosts, pid) := hostRank hosts flow.src
      return (hosts,
        { name := info.toString
          cat := "Communication"
          ph := .x
          ts := span.start - minTs
          dur := span.end_ - span.start
          pid := pid
          tid := streamTid stream
          args := span.action })

/-- Add the event of an action to the output. -/
def writeEvent (torchName : TorchName) (minTs : ℤ) (acc : List String × List Chrome.Event)
    (span : Span) : Except Failure (List String × List Chrome.Event) := do
  let (hosts, event) ← createEvent torchName minTs acc.1 span
  return (hosts, acc.2 ++ [event])

def createEvents (platform : Platform) (torchName : TorchName) (timeline : Timeline) :
    Except Failure (List Chrome.Event) := do
  let (_, events) ← (platform.order 0 timeline.db).foldlM (writeEvent torchName timeline.minTs)
    ([], [])
  return events

def main (bincode : Bincode) (platform : Platform) (torchName : TorchName) (file : List UInt8) :
    Except Failure (List Chrome.Event) := do
  let timeline ← readStep bincode file isAction {}
  let timeline ← readStep bincode file isSpan timeline
  createEvents platform torchName timeline

/-- What is made of the records that have been read. -/
def convert (platform : Platform) (torchName : TorchName) (records : List Record) :
    Except Failure (List Chrome.Event) := do
  let timeline ← (records.filter isAction).foldlM update {}
  let timeline ← (records.filter isSpan).foldlM update timeline
  createEvents platform torchName timeline

variable {bincode : Bincode} {platform : Platform} {torchName : TorchName} {records : List Record}

theorem readStep_written (roundTrips : ∀ record ∈ records, bincode.RoundTrips record)
    (wanted : Record → Bool) (timeline : Timeline) :
    readStep bincode (written bincode records) wanted timeline =
      (records.filter wanted).foldlM update timeline := by
  rcases records_take bincode records (written bincode records).length 0 roundTrips with
    ⟨complete, longest, read⟩
  have whole : complete = records := by
    have covers := longest.longest records List.prefix_rfl le_rfl
    exact longest.isPrefix.eq_of_length_le covers.length_le
  rw [List.take_length, whole] at read
  simp only [readStep, read]
  exact bind_pure _

/-- The file that the simulator has written is converted as its records are. -/
theorem main_written (roundTrips : ∀ record ∈ records, bincode.RoundTrips record) :
    main bincode platform torchName (written bincode records) =
      convert platform torchName records := by
  simp only [main, convert, readStep_written roundTrips]

end Visualizer

namespace Timeline

def Record.action? : Record → Option (EventId × Action)
  | .action id what => some (id, what)
  | .span _ _ _ => none

def Record.span? : Record → Option (EventId × ℤ × ℤ)
  | .action _ _ => none
  | .span id startTime endTime => some (id, startTime, endTime)

/-- The actions of a timeline. -/
def actionsOf (records : List Record) : List (EventId × Action) :=
  records.filterMap Record.action?

/-- The spans of a timeline. -/
def spansOf (records : List Record) : List (EventId × ℤ × ℤ) :=
  records.filterMap Record.span?

theorem mem_actionsOf {records : List Record} {id : EventId} {action : Action} :
    (id, action) ∈ actionsOf records ↔ .action id action ∈ records := by
  simp only [actionsOf, List.mem_filterMap]
  constructor
  · rintro ⟨record, mem, same⟩
    cases record <;> cases same
    exact mem
  · intro mem
    exact ⟨_, mem, rfl⟩

/-- The last of the spans of an event. -/
def lastSpan (spans : List (EventId × ℤ × ℤ)) (id : EventId) : Option (ℤ × ℤ) :=
  ((spans.filter fun span => span.1 = id).getLast?).map Prod.snd

end Timeline

namespace Visualizer

/-- The event is that of an action, with the times of its last span; they are zero
when no span is recorded. -/
structure Shows (records : List Record) (minTs : ℤ) (recorded : EventId × Action)
    (event : Chrome.Event) : Prop where
  args : event.args = recorded.2
  ts : event.ts = ((lastSpan (spansOf records) recorded.1).getD (0, 0)).1 - minTs
  dur : event.dur = ((lastSpan (spansOf records) recorded.1).getD (0, 0)).2 -
    ((lastSpan (spansOf records) recorded.1).getD (0, 0)).1

/-- The events are one for every action of the timeline, with times from the first start on. -/
def Depicts (records : List Record) (events : List Chrome.Event) : Prop :=
  ∃ minTs listing,
    IsLeast (insert i64Max {start | start ∈ (spansOf records).map fun span => span.2.1}) minTs ∧
    listing.Perm (actionsOf records) ∧ List.Forall₂ (Shows records minTs) listing events

/-- Actions are recorded once, and a span of an event without an action is empty. -/
structure Regular (records : List Record) : Prop where
  distinct : ((actionsOf records).map Prod.fst).Nodup
  spans : ∀ span ∈ spansOf records, span.2.1 = span.2.2 ∨ span.1 ∈ (actionsOf records).map Prod.fst

/-- The communication of a span names a stream. -/
def Streamed (action : Action) : Prop :=
  ∀ flow info, action = .communication flow info → info.getCudaStream ≠ none

/-- A span with the times of its last occurrence. -/
def Span.final (spans : List (EventId × ℤ × ℤ)) (span : Span) : Span :=
  match lastSpan spans span.id with
  | some (start, end_) => { span with start := start, end_ := end_ }
  | none => span

theorem filter_isAction :
    records.filter isAction =
      (actionsOf records).map fun recorded => .action recorded.1 recorded.2 := by
  induction records with
  | nil => rfl
  | cons record records ih =>
      cases record <;>
        simpa [List.filter_cons, actionsOf, List.filterMap_cons, isAction, Record.action?] using ih

theorem filter_isSpan :
    records.filter isSpan = (spansOf records).map fun span => .span span.1 span.2.1 span.2.2 := by
  induction records with
  | nil => rfl
  | cons record records ih =>
      cases record <;>
        simpa [List.filter_cons, spansOf, List.filterMap_cons, isSpan, Record.span?] using ih

/-- Distinct actions are all taken over. -/
theorem update_actions (actions : List (EventId × Action)) (timeline : Timeline)
    (distinct : (timeline.db.map Span.id ++ actions.map Prod.fst).Nodup) :
    (actions.map fun recorded => Record.action recorded.1 recorded.2).foldlM update timeline =
      .ok { timeline with
        db := timeline.db ++ actions.map fun recorded => ⟨recorded.1, 0, 0, recorded.2⟩ } := by
  induction actions generalizing timeline with
  | nil => simp
  | cons recorded actions ih =>
      have fresh : recorded.1 ∉ timeline.db.map Span.id := by
        intro mem
        rw [List.nodup_append] at distinct
        exact distinct.2.2 _ mem recorded.1 List.mem_cons_self rfl
      rw [List.map_cons, List.foldlM_cons]
      have taken : update timeline (.action recorded.1 recorded.2) =
          .ok { timeline with db := timeline.db ++ [⟨recorded.1, 0, 0, recorded.2⟩] } := by
        simp [update, assert, fresh]
      rw [taken]
      refine (ih _ ?_).trans ?_
      · simpa using distinct
      · simp

theorem lastSpan_cons (span : EventId × ℤ × ℤ) (spans : List (EventId × ℤ × ℤ)) (id : EventId) :
    lastSpan (span :: spans) id =
      (lastSpan spans id).or (if span.1 = id then some span.2 else none) := by
  by_cases same : span.1 = id
  · simp only [lastSpan, List.filter_cons, same, decide_true, if_true, List.getLast?_cons]
    cases (spans.filter fun span => span.1 = id).getLast? <;> simp
  · simp [lastSpan, same]

@[simp]
theorem id_amend (span : Span) (id : EventId) (start end_ : ℤ) :
    (span.amend id start end_).id = span.id := by
  unfold Span.amend
  split <;> rfl

theorem final_cons (span : EventId × ℤ × ℤ) (spans : List (EventId × ℤ × ℤ)) (read : Span) :
    (read.amend span.1 span.2.1 span.2.2).final spans = read.final (span :: spans) := by
  simp only [Span.final, id_amend, lastSpan_cons]
  cases lastSpan spans read.id with
  | none =>
      by_cases same : span.1 = read.id
      · simp [Span.amend, same]
      · simp [Span.amend, same, Ne.symm same]
  | some last =>
      by_cases same : read.id = span.1
      · simp [Span.amend, same]
      · simp [Span.amend, same]

/-- Spans that are empty or of actions give every action its last span. -/
theorem update_spans (spans : List (EventId × ℤ × ℤ)) (timeline : Timeline)
    (regular : ∀ span ∈ spans, span.2.1 = span.2.2 ∨ span.1 ∈ timeline.db.map Span.id) :
    (spans.map fun span => Record.span span.1 span.2.1 span.2.2).foldlM update timeline =
      .ok ⟨timeline.db.map (Span.final spans),
        (spans.map fun span => span.2.1).foldl min timeline.minTs⟩ := by
  induction spans generalizing timeline with
  | nil =>
      have same : Span.final [] = id := by
        funext span
        rfl
      simp [same]
  | cons span spans ih =>
      have ids : (timeline.db.map fun read => read.amend span.1 span.2.1 span.2.2).map Span.id =
          timeline.db.map Span.id := by
        simp [Function.comp_def]
      have taken : update timeline (.span span.1 span.2.1 span.2.2) =
          .ok ⟨timeline.db.map fun read => read.amend span.1 span.2.1 span.2.2,
            min timeline.minTs span.2.1⟩ := by
        have here := (regular span List.mem_cons_self).symm
        simp only [update, ids, assert, if_pos here]
        rfl
      rw [List.map_cons, List.foldlM_cons, taken]
      refine (ih _ ?_).trans ?_
      · intro other mem
        rw [ids]
        exact regular other (List.mem_cons_of_mem _ mem)
      · simp only [List.map_map, Function.comp_def, final_cons, List.map_cons, List.foldl_cons]

/-- The least of a number and a list. -/
theorem isLeast_foldl_min (values : List ℤ) (first : ℤ) :
    IsLeast (insert first {value | value ∈ values}) (values.foldl min first) := by
  induction values generalizing first with
  | nil => simp [IsLeast, lowerBounds]
  | cons value values ih =>
      rcases ih (min first value) with ⟨mem, lower⟩
      rw [List.foldl_cons]
      refine ⟨?_, ?_⟩
      · rcases mem with same | mem
        · rw [same]
          rcases min_choice first value with left | right
          · exact Or.inl left
          · rw [right]
            exact Or.inr List.mem_cons_self
        · exact Or.inr (List.mem_cons_of_mem _ mem)
      · intro other among
        have least : values.foldl min (min first value) ≤ min first value := lower (Or.inl rfl)
        rcases among with rfl | mem
        · exact least.trans (min_le_left _ _)
        · rcases List.mem_cons.mp mem with rfl | mem
          · exact least.trans (min_le_right _ _)
          · exact lower (Or.inr mem)

/-- Communications that name a stream all get their events, in order. -/
theorem writeEvents_ok (torchName : TorchName) (minTs : ℤ) (listing : List Span)
    (acc : List String × List Chrome.Event)
    (streamed : ∀ span ∈ listing, Streamed span.action) :
    ∃ hosts events, listing.foldlM (writeEvent torchName minTs) acc = .ok (hosts, acc.2 ++ events) ∧
      List.Forall₂ (fun span event => event.args = span.action ∧ event.ts = span.start - minTs ∧
        event.dur = span.end_ - span.start) listing events := by
  induction listing generalizing acc with
  | nil => exact ⟨acc.1, [], by simp, .nil⟩
  | cons span listing ih =>
      have created : ∃ hosts event, createEvent torchName minTs acc.1 span = .ok (hosts, event) ∧
          event.args = span.action ∧ event.ts = span.start - minTs ∧
            event.dur = span.end_ - span.start := by
        unfold createEvent
        split
        · exact ⟨_, _, rfl, rfl, rfl, rfl⟩
        · rename_i flow info same
          have streams := streamed span List.mem_cons_self flow info same
          rcases Option.ne_none_iff_exists'.mp streams with ⟨stream, named⟩
          rw [named]
          exact ⟨_, _, rfl, rfl, rfl, rfl⟩
      rcases created with ⟨hosts, event, creates, shows⟩
      rcases ih (hosts, acc.2 ++ [event]) (fun other mem =>
        streamed other (List.mem_cons_of_mem _ mem)) with ⟨hosts', events, writes, all⟩
      refine ⟨hosts', event :: events, ?_, .cons shows all⟩
      rw [List.foldlM_cons]
      simp only [writeEvent, creates]
      simpa using writes

/-- Without a stream an event is not created. -/
theorem writeEvents_streamed {minTs : ℤ} {listing : List Span}
    {acc acc' : List String × List Chrome.Event}
    (run : listing.foldlM (writeEvent torchName minTs) acc = .ok acc') :
    ∀ span ∈ listing, Streamed span.action := by
  induction listing generalizing acc with
  | nil => exact fun _ mem => absurd mem List.not_mem_nil
  | cons span listing ih =>
      simp only [List.foldlM_cons, bind_eq_ok] at run
      rcases run with ⟨middle, written, rest⟩
      intro other mem
      rcases List.mem_cons.mp mem with rfl | mem
      · rintro flow info same absent
        simp only [writeEvent, createEvent, same, absent, bind_eq_ok, unwrap_eq_ok, reduceCtorEq,
          false_and, exists_false] at written
      · exact ih rest other mem

/-- What has been read of an action in the end. -/
def finalSpan (records : List Record) (recorded : EventId × Action) : Span :=
  Span.final (spansOf records) ⟨recorded.1, 0, 0, recorded.2⟩

theorem finalSpan_eq (records : List Record) (recorded : EventId × Action) :
    finalSpan records recorded =
      ⟨recorded.1, ((lastSpan (spansOf records) recorded.1).getD (0, 0)).1,
      ((lastSpan (spansOf records) recorded.1).getD (0, 0)).2, recorded.2⟩ := by
  simp only [finalSpan, Span.final]
  cases lastSpan (spansOf records) recorded.1 <;> rfl

theorem convert_eq (regular : Regular records) :
    convert platform torchName records = createEvents platform torchName
      ⟨(actionsOf records).map (finalSpan records),
        ((spansOf records).map fun span => span.2.1).foldl min i64Max⟩ := by
  have acted : (records.filter isAction).foldlM update {} = .ok
      ⟨(actionsOf records).map fun recorded => ⟨recorded.1, 0, 0, recorded.2⟩, i64Max⟩ := by
    rw [filter_isAction]
    refine (update_actions _ {} ?_).trans ?_
    · simpa using regular.distinct
    · simp
  have spanned := update_spans (spansOf records)
    ⟨(actionsOf records).map fun recorded => ⟨recorded.1, 0, 0, recorded.2⟩, i64Max⟩
    (by simpa [Function.comp_def] using regular.spans)
  simp only [convert, acted, filter_isSpan]
  simp only [bind, Except.bind, spanned, List.map_map]
  rfl

/-- A regular timeline is converted if every communication names a stream, and only then. -/
theorem convert_regular_iff (regular : Regular records) :
    (∃ events, convert platform torchName records = .ok events ∧ Depicts records events) ↔
      ∀ recorded ∈ actionsOf records, Streamed recorded.2 := by
  rw [convert_eq regular]
  have order := platform.order_perm 0 ((actionsOf records).map (finalSpan records))
  constructor
  · rintro ⟨events, run, _⟩ recorded mem
    simp only [createEvents, bind_eq_ok, Prod.exists] at run
    rcases run with ⟨hosts, written, run, _⟩
    have streamed := writeEvents_streamed run (finalSpan records recorded)
      (order.mem_iff.mpr (List.mem_map_of_mem mem))
    rwa [finalSpan_eq] at streamed
  · intro streamed
    have recalled : ∀ span ∈ platform.order 0 ((actionsOf records).map (finalSpan records)),
        ∃ recorded ∈ actionsOf records, finalSpan records recorded = span :=
      fun span mem => List.mem_map.mp (order.mem_iff.mp mem)
    have written := writeEvents_ok torchName
      (((spansOf records).map fun span => span.2.1).foldl min i64Max) _ ([], []) fun span mem => by
        rcases recalled span mem with ⟨recorded, among, rfl⟩
        rw [finalSpan_eq]
        exact streamed recorded among
    rcases written with ⟨hosts, events, run, shows⟩
    refine ⟨events, ?_, _, (platform.order 0 ((actionsOf records).map (finalSpan records))).map
      fun span => (span.id, span.action), isLeast_foldl_min _ _, ?_, ?_⟩
    · simp only [createEvents, bind_eq_ok, Prod.exists]
      exact ⟨hosts, events, run, rfl⟩
    · refine (order.map _).trans ?_
      simp [Function.comp_def, finalSpan_eq]
    · rw [List.forall₂_map_left_iff]
      refine (List.forall₂_and_left _ _ |>.mpr ⟨recalled, shows⟩).imp ?_
      rintro span event ⟨⟨recorded, among, rfl⟩, args, ts, dur⟩
      rw [finalSpan_eq] at args ts dur ⊢
      exact ⟨args, ts, dur⟩

end Visualizer

/-- The record that a log entry is written as. -/
def LogEntry.record? : LogEntry → Option Record
  | .action id what => some (.action id what)
  | .span id startTime endTime => some (.span id startTime endTime)
  | _ => none

/-- The call is that of a matched send. -/
def CudaCall.IsSend : CudaCall → Prop
  | .ncclSend _ _ _ _ _ => True
  | _ => False

namespace EventQueue

/-- The records that have been written, in order. -/
def timeline (queue : EventQueue) : List Record :=
  queue.log.reverse.filterMap LogEntry.record?

variable {queue : EventQueue}

theorem actionsOf_timeline : actionsOf queue.timeline = queue.actions.reverse := by
  rw [actionsOf, timeline, List.filterMap_filterMap, actions, ← List.filterMap_reverse]
  congr 1
  funext entry
  cases entry <;> rfl

theorem spansOf_timeline : spansOf queue.timeline = queue.spans.reverse := by
  rw [spansOf, timeline, List.filterMap_filterMap, spans, ← List.filterMap_reverse]
  congr 1
  funext entry
  cases entry <;> rfl

theorem Recording.regular (recording : Recording [] queue) :
    Visualizer.Regular queue.timeline := by
  refine ⟨?_, ?_⟩
  · rw [actionsOf_timeline, List.map_reverse, List.nodup_reverse]
    exact recording.distinct
  · rintro ⟨id, start, end_⟩ mem
    rw [spansOf_timeline, List.mem_reverse] at mem
    rw [actionsOf_timeline, List.map_reverse, List.mem_reverse]
    exact recording.spans mem

end EventQueue

theorem CudaCall.getCudaStream_ne_none_iff {call : CudaCall} (communicates : call.Communicates) :
    call.getCudaStream ≠ none ↔ ¬call.IsSend := by
  cases call <;> first | exact absurd communicates id | simp [getCudaStream, IsSend]

namespace Simulator

variable {env : Environment} {sim : Simulator}

/-- What the server has recorded is converted into one event for every action as long as no flow
of a matched send has been recorded. -/
theorem converts_iff {messages : List Message} (reached : Reached env messages sim)
    (platform : Platform) (torchName : Visualizer.TorchName) :
    (∃ events, Visualizer.convert platform torchName sim.queue.timeline = .ok events ∧
      Visualizer.Depicts sim.queue.timeline events) ↔
    ∀ id flow info, Record.action id (.communication flow info) ∈ sim.queue.timeline →
      ¬info.IsSend := by
  have chronicled := chronicled_of_reached reached
  have recording := chronicled.recorded.recording
  rw [Visualizer.convert_regular_iff recording.regular]
  have communicates : ∀ {id flow info},
      (id, Action.communication flow info) ∈ actionsOf sim.queue.timeline → info.Communicates := by
    intro id flow info mem
    rw [EventQueue.actionsOf_timeline, List.mem_reverse] at mem
    rcases recording.added mem with ⟨what, added, same⟩
    cases what with
    | computation => cases same
    | communication flow' info' =>
        cases same
        exact chronicled.communicates id flow' info added
  constructor
  · intro streamed id flow info mem
    have mem := mem_actionsOf.mpr mem
    exact (CudaCall.getCudaStream_ne_none_iff (communicates mem)).mp
      (streamed _ mem flow info rfl)
  · rintro noSend ⟨id, action⟩ mem flow info rfl
    exact (CudaCall.getCudaStream_ne_none_iff (communicates mem)).mpr
      (noSend id flow info (mem_actionsOf.mp mem))

/-- A copy on a stream, and a thread that waits for the stream. -/
def copied : List Message :=
  [.cuda ⟨leftThread 1, 3, .cudaMemcpyAsync 8 .hostToDevice ⟨0, 0⟩⟩,
    .cuda ⟨leftThread 1, 5, .cudaStreamSynchronize ⟨0, 0⟩⟩]

/-- The copy gets its event. -/
theorem converts_iff_copied : ∃ sim, Reached (.plain 20) copied sim ∧
    (actionsOf sim.queue.timeline).map Prod.fst = [0] ∧
    ∃ events, Visualizer.convert (.inOrder 0) (fun _ => "") sim.queue.timeline = .ok events ∧
      Visualizer.Depicts sim.queue.timeline events := by
  have read : ∃ sim, copied.foldlM (handle (.plain 20)) pair = .ok sim ∧
      (actionsOf sim.queue.timeline).map (fun recorded =>
        (recorded.1, (EventQueue.flowOf (some recorded.2)).isNone)) = [(0, true)] :=
    exists_ok_of_reading (by decide +kernel)
  rcases read with ⟨sim, run, recorded⟩
  have reached := reached_of_foldlM initial_pair run
  refine ⟨sim, reached, ?_, (converts_iff reached (.inOrder 0) (fun _ => "")).mpr ?_⟩
  · simpa [Function.comp_def] using congrArg (List.map Prod.fst) recorded
  · intro id flow info mem
    have listed := List.mem_map_of_mem (f := fun recorded : EventId × Action =>
      (recorded.1, (EventQueue.flowOf (some recorded.2)).isNone)) (mem_actionsOf.mpr mem)
    rw [recorded, List.mem_singleton] at listed
    cases listed

/-- A send that is matched, and a thread that waits for its stream. -/
def matchedSend : List Message :=
  [.cuda ⟨leftThread 1, 0, .ncclSend 4 .f32 1 ⟨0, unknownNcclId⟩ ⟨0, 0⟩⟩,
    .cuda ⟨rightThread 1, 0, .ncclRecv 4 .f32 0 ⟨1, unknownNcclId⟩ ⟨0, 0⟩⟩,
    .cuda ⟨leftThread 1, 5, .cudaStreamSynchronize ⟨0, 0⟩⟩]

/-- The visualizer does not find the stream of the send. -/
theorem not_converts_matchedSend : ¬∀ env messages sim, Reached env messages sim →
    ∀ platform torchName, ∃ events,
      Visualizer.convert platform torchName sim.queue.timeline = .ok events ∧
        Visualizer.Depicts sim.queue.timeline events := by
  intro claimed
  have read : ∃ sim, matchedSend.foldlM (handle (.plain 20)) pair = .ok sim ∧
      (Visualizer.convert (.inOrder 0) (fun _ => "") sim.queue.timeline).toOption.isNone = true :=
    exists_ok_of_reading (by decide +kernel)
  rcases read with ⟨sim, run, failed⟩
  rcases claimed _ _ sim (reached_of_foldlM initial_pair run) (.inOrder 0) fun _ => "" with
    ⟨events, converted, _⟩
  rw [converted] at failed
  cases failed

end Simulator

end Phantora
