import Phantora.EventQueue.Model
import Phantora.Lib.Codec

/-!
# The timeline file

The event queue writes every record of the timeline behind its length, as eight
bytes with the highest first. The visualizer reads a file that may have been cut
anywhere when the simulator was stopped.
-/

namespace Phantora

open Outcome

namespace Timeline

/-- An entry of the timeline. -/
inductive Record where
  | action (id : EventId) (action : Action)
  | span (id : EventId) (startTime endTime : ℤ)

/-- The serialization of single records. -/
structure Bincode where
  serializedSize : Record → UInt64
  serialize : Record → List UInt8
  deserialize : List UInt8 → Option Record

/-- What is relied on: the size is that of the bytes, and the record is read back from its bytes. -/
structure Bincode.RoundTrips (bincode : Bincode) (record : Record) : Prop where
  size_eq : (bincode.serializedSize record).toNat = (bincode.serialize record).length
  deserialize_serialize : bincode.deserialize (bincode.serialize record) = some record

/-- The bytes of a record in the file. -/
def frame (bincode : Bincode) (record : Record) : List UInt8 :=
  Bytes.bigEndian 8 (bincode.serializedSize record).toNat ++ bincode.serialize record

def write (bincode : Bincode) (file : List UInt8) (record : Record) : List UInt8 :=
  file ++ frame bincode record

/-- The file after some records have been written. -/
def written (bincode : Bincode) (records : List Record) : List UInt8 :=
  records.foldl (write bincode) []

/-- Why the visualizer reads no record. -/
inductive ReadFailure where
  | unexpectedEof
  | badRecord
deriving DecidableEq, Repr

/-- The rest of a file, and how much of it has been read. -/
structure TimelineReader where
  rest : List UInt8
  timelinePos : ℕ := 0

namespace TimelineReader

/-- Fill a buffer; the end of the file may come before. -/
def readExact (reader : TimelineReader) (count : ℕ) :
    Except ReadFailure (List UInt8 × TimelineReader) :=
  match Reader.take count reader.rest with
  | some (bytes, rest) => .ok (bytes, { reader with rest := rest })
  | none => .error .unexpectedEof

def nextRecord (bincode : Bincode) (reader : TimelineReader) :
    Except ReadFailure (Record × TimelineReader) := do
  let (lenBuf, reader) ← reader.readExact 8
  let len := Bytes.fromBigEndian lenBuf
  let (buf, reader) ← reader.readExact len
  let record ← unwrap (bincode.deserialize buf) .badRecord
  return (record, { reader with timelinePos := reader.timelinePos + 8 + len })

theorem rest_of_readExact {reader next : TimelineReader} {count : ℕ} {bytes : List UInt8}
    (read : reader.readExact count = .ok (bytes, next)) :
    reader.rest.length = count + next.rest.length := by
  by_cases short : reader.rest.length < count
  · simp [readExact, Reader.take, short] at read
  · simp only [readExact, Reader.take, short, if_false, Except.ok.injEq, Prod.mk.injEq] at read
    rw [← read.2, List.length_drop]
    omega

/-- A record that is read shortens the rest of the file. -/
theorem rest_lt_of_nextRecord {bincode : Bincode} {reader next : TimelineReader} {record : Record}
    (read : reader.nextRecord bincode = .ok (record, next)) :
    next.rest.length < reader.rest.length := by
  simp only [nextRecord, bind_eq_ok, unwrap_eq_ok, pure_eq_ok, Prod.mk.injEq, Prod.exists] at read
  rcases read with ⟨lenBuf, second, header, buf, third, body, _, _, _, rfl⟩
  have first := rest_of_readExact header
  have rest := rest_of_readExact body
  simp only
  omega

/-- Read records until that fails. -/
def records (bincode : Bincode) (reader : TimelineReader) : List Record × ReadFailure :=
  match _read : reader.nextRecord bincode with
  | .ok (record, next) =>
      let (later, failure) := records bincode next
      (record :: later, failure)
  | .error failure => ([], failure)
termination_by reader.rest.length
decreasing_by exact rest_lt_of_nextRecord _read

end TimelineReader

/-- The records whose frames are all within the bytes of a file that has been cut. -/
structure LongestComplete (bincode : Bincode) (records : List Record) (cut : ℕ)
    (complete : List Record) : Prop where
  isPrefix : complete.IsPrefix records
  fits : (written bincode complete).length ≤ cut
  longest : ∀ longer : List Record, longer.IsPrefix records →
    (written bincode longer).length ≤ cut → longer.IsPrefix complete

variable {bincode : Bincode} {record : Record} {records : List Record} {cut : ℕ}

theorem foldl_write (file : List UInt8) :
    records.foldl (write bincode) file = file ++ records.flatMap (frame bincode) := by
  induction records generalizing file with
  | nil => simp
  | cons record records ih => simp [ih, write]

@[simp]
theorem written_nil : written bincode [] = [] := rfl

@[simp]
theorem written_cons :
    written bincode (record :: records) = frame bincode record ++ written bincode records := by
  simp [written, foldl_write, write]

/-- The header of a frame is read, whatever is left of the body. -/
theorem readExact_header (body : List UInt8) (pos : ℕ) :
    TimelineReader.readExact
        ⟨Bytes.bigEndian 8 (bincode.serializedSize record).toNat ++ body, pos⟩ 8 =
      .ok (Bytes.bigEndian 8 (bincode.serializedSize record).toNat, ⟨body, pos⟩) := by
  simp [TimelineReader.readExact, Reader.take_append Bytes.length_bigEndian]

theorem readExact_eof {rest : List UInt8} {pos count : ℕ} (short : rest.length < count) :
    TimelineReader.readExact ⟨rest, pos⟩ count = .error .unexpectedEof := by
  simp [TimelineReader.readExact, Reader.take, short]

theorem fromBigEndian_header : Bytes.fromBigEndian
    (Bytes.bigEndian 8 (bincode.serializedSize record).toNat) =
      (bincode.serializedSize record).toNat :=
  Bytes.fromBigEndian_bigEndian (bincode.serializedSize record).toNat_lt

/-- A whole frame is read back. -/
theorem nextRecord_frame (roundTrips : bincode.RoundTrips record) (rest : List UInt8) (pos : ℕ) :
    TimelineReader.nextRecord bincode ⟨frame bincode record ++ rest, pos⟩ =
      .ok (record, ⟨rest, pos + (frame bincode record).length⟩) := by
  have size := roundTrips.size_eq
  have body : TimelineReader.readExact ⟨bincode.serialize record ++ rest, pos⟩
      (bincode.serializedSize record).toNat = .ok (bincode.serialize record, ⟨rest, pos⟩) := by
    simp [TimelineReader.readExact, Reader.take_append size.symm]
  have header : TimelineReader.readExact ⟨frame bincode record ++ rest, pos⟩ 8 =
      .ok (Bytes.bigEndian 8 (bincode.serializedSize record).toNat,
        ⟨bincode.serialize record ++ rest, pos⟩) := by
    rw [frame, List.append_assoc]
    exact readExact_header _ _
  simp only [TimelineReader.nextRecord, bind_eq_ok, unwrap_eq_ok, pure_eq_ok]
  refine ⟨_, header, (bincode.serialize record, ⟨rest, pos⟩), ?_, record,
    roundTrips.deserialize_serialize, ?_⟩
  · rw [fromBigEndian_header]
    exact body
  · rw [fromBigEndian_header]
    simp [frame, size, Nat.add_assoc]

/-- A frame that has been cut, in its header or in its body, is the end of the file. -/
theorem nextRecord_cut (roundTrips : bincode.RoundTrips record) (rest : List UInt8) (pos : ℕ)
    (short : cut < (frame bincode record).length) :
    TimelineReader.nextRecord bincode ⟨(frame bincode record ++ rest).take cut, pos⟩ =
      .error .unexpectedEof := by
  have size := roundTrips.size_eq
  rw [frame, List.length_append, Bytes.length_bigEndian, ← size] at short
  simp only [TimelineReader.nextRecord, bind_eq_error]
  by_cases inHeader : cut < 8
  · left
    apply readExact_eof
    exact (List.length_take_le _ _).trans_lt inHeader
  · right
    have split : (frame bincode record ++ rest).take cut =
        Bytes.bigEndian 8 (bincode.serializedSize record).toNat ++
          (bincode.serialize record ++ rest).take (cut - 8) := by
      rw [frame, List.append_assoc, List.take_append, List.take_of_length_le (by simp; omega),
        Bytes.length_bigEndian]
    rw [split]
    refine ⟨_, readExact_header _ _, .inl ?_⟩
    rw [fromBigEndian_header]
    apply readExact_eof
    apply (List.length_take_le _ _).trans_lt
    omega

theorem records_of_ok {reader next : TimelineReader}
    (read : reader.nextRecord bincode = .ok (record, next)) :
    reader.records bincode = (record :: (next.records bincode).1, (next.records bincode).2) := by
  rw [TimelineReader.records]
  split
  · rename_i record' next' read'
    rw [read] at read'
    cases read'
    rfl
  · rename_i failure read'
    rw [read] at read'
    cases read'

theorem records_of_error {reader : TimelineReader} {failure : ReadFailure}
    (read : reader.nextRecord bincode = .error failure) :
    reader.records bincode = ([], failure) := by
  rw [TimelineReader.records]
  split
  · rename_i record' next' read'
    rw [read] at read'
    cases read'
  · rename_i failure' read'
    rw [read] at read'
    cases read'
    rfl

/-- Reading a file that has been cut gives the records whose frames are complete, and then the end
of the file. -/
theorem records_take (bincode : Bincode) (records : List Record) (cut pos : ℕ)
    (roundTrips : ∀ record ∈ records, bincode.RoundTrips record) :
    ∃ complete, LongestComplete bincode records cut complete ∧
      TimelineReader.records bincode ⟨(written bincode records).take cut, pos⟩ =
        (complete, .unexpectedEof) := by
  induction records generalizing cut pos with
  | nil =>
      refine ⟨[], ⟨List.prefix_rfl, Nat.zero_le _, fun longer isPrefix _ => isPrefix⟩, ?_⟩
      rw [written_nil, List.take_nil]
      apply records_of_error
      simp only [TimelineReader.nextRecord, bind_eq_error]
      exact .inl (readExact_eof (by decide))
  | cons record records ih =>
      have first := roundTrips record List.mem_cons_self
      rw [written_cons]
      by_cases whole : (frame bincode record).length ≤ cut
      · rcases ih (cut - (frame bincode record).length) (pos + (frame bincode record).length)
          (fun other mem => roundTrips other (List.mem_cons_of_mem record mem)) with
          ⟨complete, longest, read⟩
        refine ⟨record :: complete, ⟨?_, ?_, ?_⟩, ?_⟩
        · exact List.cons_prefix_cons.mpr ⟨rfl, longest.isPrefix⟩
        · have fits := longest.fits
          rw [written_cons, List.length_append]
          omega
        · intro longer isPrefix fits
          rcases longer with _ | ⟨head, longer⟩
          · exact List.nil_prefix
          · rw [List.cons_prefix_cons] at isPrefix ⊢
            rcases isPrefix with ⟨rfl, isPrefix⟩
            rw [written_cons, List.length_append] at fits
            exact ⟨rfl, longest.longest longer isPrefix (by omega)⟩
        · rw [List.take_append, List.take_of_length_le whole,
            records_of_ok (nextRecord_frame first _ pos), read]
      · rw [not_le] at whole
        refine ⟨[], ⟨List.nil_prefix, Nat.zero_le _, ?_⟩, ?_⟩
        · intro longer isPrefix fits
          rcases longer with _ | ⟨head, longer⟩
          · exact List.prefix_rfl
          · rcases (List.cons_prefix_cons.mp isPrefix).1 with rfl
            rw [written_cons, List.length_append] at fits
            omega
        · exact records_of_error (nextRecord_cut first _ pos whole)

/-- A serialization of spans: the variant, the identifier and the two times. -/
def spanBincode : Bincode where
  serializedSize _ := 28
  serialize
    | .span id startTime endTime => Codec.u32.write 1 ++ Codec.u64.write (.ofNat id) ++
        Codec.i64.write (.ofInt startTime) ++ Codec.i64.write (.ofInt endTime)
    | .action _ _ => []
  deserialize bytes := do
    let ((tag, id, startTime, endTime), _) ← (do
      let tag ← Codec.u32.read
      let id ← Codec.u64.read
      let startTime ← Codec.i64.read
      let endTime ← Codec.i64.read
      return (tag, id, startTime, endTime) : Reader (UInt32 × UInt64 × Int64 × Int64)) bytes
    if tag = 1 then some (.span id.toNat startTime.toInt endTime.toInt) else none

/-- A file of two spans that has been cut in the body of the second one. -/
theorem records_take_inBody : ∃ complete,
    LongestComplete spanBincode [.span 3 5 7, .span 4 6 9] 60 complete ∧
      TimelineReader.records spanBincode
          ⟨(written spanBincode [.span 3 5 7, .span 4 6 9]).take 60, 0⟩ =
        (complete, .unexpectedEof) := by
  apply records_take
  intro record mem
  rcases List.mem_cons.mp mem with rfl | mem
  · exact ⟨by decide, rfl⟩
  · rw [List.mem_singleton.mp mem]
    exact ⟨by decide, rfl⟩

end Timeline

end Phantora
