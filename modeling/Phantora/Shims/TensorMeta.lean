import Mathlib.Algebra.Order.Ring.Int
import Phantora.Lib.Outcome

/-!
# Pipeline metadata

A pipeline stage tells the next one the kind, the types and the shapes of the
tensors that it is about to send, as numbers in a buffer of a fixed size. The
receiver follows the records with a running offset; it asks for buffers of the
same kind, types and shapes and reads nothing behind the records.
-/

namespace Phantora.PipelineMeta

open Outcome

/-- Why sending or receiving fails. -/
inductive MetaError where
  | keyError | notImplemented | tooLong | overflow | indexError
deriving DecidableEq, Repr

/-- `DTYPE_TO_ID` and `ID_TO_DTYPE`. -/
structure DtypeTable (δ : Type) where
  dtypeToId : δ → Option ℤ
  idToDtype : ℤ → Option δ

/-- The two tables are inverse to each other. -/
def DtypeTable.Inverse {δ : Type} (table : DtypeTable δ) : Prop :=
  ∀ dtype id, table.dtypeToId dtype = some id ↔ table.idToDtype id = some dtype

structure Tensor (δ : Type) where
  dtype : δ
  shape : List ℕ
deriving DecidableEq

/-- What a stage may be asked to send. -/
inductive Buffer (δ : Type) where
  | tensor (tensor : Tensor δ)
  | tuple (tensors : List (Tensor δ))
  | other

/-- A call of `_allocate_or_extend_buffers`. -/
structure Request (δ : Type) where
  idx : ℕ
  shape : List ℤ
  dtype : δ
deriving DecidableEq

/-- What receiving returns: the buffers asked for, on their own, in a list or in a tuple. -/
inductive Received (δ : Type) where
  | single (request : Request δ)
  | list (requests : List (Request δ))
  | tuple (requests : List (Request δ))
deriving DecidableEq

variable {δ : Type}

/-- The type, the rank and the dimensions of a tensor. -/
def metaOf (table : DtypeTable δ) (tensor : Tensor δ) : Except MetaError (List ℤ) := do
  let id ← unwrap (table.dtypeToId tensor.dtype) .keyError
  return id :: (tensor.shape.length : ℤ) :: tensor.shape.map Nat.cast

def metaList (table : DtypeTable δ) : Buffer δ → Except MetaError (List ℤ)
  | .tensor tensor => do
      let record ← metaOf table tensor
      return 0 :: record
  | .tuple tensors => do
      let records ← tensors.mapM (metaOf table)
      return 2 :: (tensors.length : ℤ) :: records.flatten
  | .other => .error .notImplemented

/-- The value has a place in a tensor of type `int32`. -/
def FitsInt32 (value : ℤ) : Prop :=
  -2 ^ 31 ≤ value ∧ value < 2 ^ 31

instance : DecidablePred FitsInt32 :=
  fun value => inferInstanceAs (Decidable (-2 ^ 31 ≤ value ∧ value < 2 ^ 31))

/-- The buffer that `_send_tensor_meta` hands to `dist.send`; `size` is `TENSOR_META_SIZE`. -/
def sendTensorMeta (table : DtypeTable δ) (size : ℕ) (buffer : Buffer δ) :
    Except MetaError (List ℤ) := do
  let record ← metaList table buffer
  assert (record.length ≤ size) .tooLong
  assert (∀ value ∈ record, FitsInt32 value) .overflow
  return record ++ List.replicate (size - record.length) 0

/-- Reading a buffer; the state lists the positions read. -/
abbrev Reading (α : Type) := StateT (List ℕ) (Except MetaError) α

/-- A negative index counts from the end. -/
def position (size : ℕ) (index : ℤ) : ℤ :=
  if index < 0 then index + size else index

/-- `meta_buffer[index].item()`. -/
def item (buffer : List ℤ) (index : ℤ) : Reading ℤ := fun reads =>
  let i := position buffer.length index
  if 0 ≤ i ∧ i < buffer.length then .ok (buffer.getD i.toNat 0, reads ++ [i.toNat])
  else .error .indexError

/-- `meta_buffer[low:high].tolist()`. -/
def slice (buffer : List ℤ) (low high : ℤ) : Reading (List ℤ) := fun reads =>
  let bound := fun index => (min (max (position buffer.length index) 0) buffer.length).toNat
  .ok ((buffer.drop (bound low)).take (bound high - bound low),
    reads ++ List.range' (bound low) (bound high - bound low))

/-- `self.ID_TO_DTYPE[id]`. -/
def lookup (table : DtypeTable δ) (id : ℤ) : Reading δ :=
  StateT.lift (unwrap (table.idToDtype id) .keyError)

/-- The loop over the tensors of a container. -/
def recvTensors (table : DtypeTable δ) (buffer : List ℤ) :
    ℕ → ℕ → ℤ → Reading (List (Request δ))
  | 0, _, _ => pure []
  | left + 1, idx, offset => do
      let dtype ← lookup table (← item buffer offset)
      let ndims ← item buffer (offset + 1)
      let shape ← slice buffer (offset + 2) (offset + 2 + ndims)
      let rest ← recvTensors table buffer left (idx + 1) (offset + (2 + ndims))
      return ⟨idx, shape, dtype⟩ :: rest

def recvTensorMeta (table : DtypeTable δ) (buffer : List ℤ) : Reading (Received δ) := do
  let recvType ← item buffer 0
  if recvType = 0 then
    let dtype ← lookup table (← item buffer 1)
    let ndims ← item buffer 2
    let shape ← slice buffer 3 (3 + ndims)
    return .single ⟨0, shape, dtype⟩
  else if recvType = 1 ∨ recvType = 2 then
    let count ← item buffer 1
    let buffers ← recvTensors table buffer count.toNat 0 2
    return if recvType = 2 then .tuple buffers else .list buffers
  else fun _ => .error .notImplemented

def Tensor.request (idx : ℕ) (tensor : Tensor δ) : Request δ :=
  ⟨idx, tensor.shape.map Nat.cast, tensor.dtype⟩

/-- The buffers for a number of tensors. -/
def requestsFrom : ℕ → List (Tensor δ) → List (Request δ)
  | _, [] => []
  | idx, tensor :: tensors => tensor.request idx :: requestsFrom (idx + 1) tensors

/-- What the receiver has to ask for. -/
def Buffer.wanted : Buffer δ → Option (Received δ)
  | .tensor sole => some (.single (sole.request 0))
  | .tuple tensors => some (.tuple (requestsFrom 0 tensors))
  | .other => none

/-- The computation succeeds and reads positions of a range only. -/
def Reads {α : Type} (reading : Reading α) (low high : ℕ) (result : α) : Prop :=
  ∀ reads, ∃ more, reading reads = .ok (result, reads ++ more) ∧
    ∀ i ∈ more, low ≤ i ∧ i < high

namespace Reads

variable {α β : Type} {reading : Reading α} {result : α} {low high low' high' : ℕ}

theorem pure (result : α) : Reads (Pure.pure result) low high result := by
  intro reads
  refine ⟨[], ?_, by simp⟩
  rw [List.append_nil]
  rfl

theorem bind {next : α → Reading β} {final : β} (first : Reads reading low high result)
    (second : Reads (next result) low high final) : Reads (reading >>= next) low high final := by
  intro reads
  rcases first reads with ⟨more, ran, inside⟩
  rcases second (reads ++ more) with ⟨others, ran', inside'⟩
  refine ⟨more ++ others, ?_, ?_⟩
  · rw [← List.append_assoc]
    simp only [Bind.bind, StateT.bind, ran, Except.bind, ran']
  · intro i mem
    exact (List.mem_append.mp mem).elim (inside i) (inside' i)

theorem mono (reads : Reads reading low high result) (lower : low' ≤ low) (upper : high ≤ high') :
    Reads reading low' high' result := by
  intro before
  rcases reads before with ⟨more, ran, inside⟩
  exact ⟨more, ran, fun i mem => ⟨lower.trans (inside i mem).1, (inside i mem).2.trans_le upper⟩⟩

end Reads

variable {table : DtypeTable δ}

theorem position_natCast (size i : ℕ) : position size i = i :=
  if_neg (by omega)

/-- The number behind some others is read at their count. -/
theorem item_reads (done rest : List ℤ) (value : ℤ) :
    Reads (item (done ++ value :: rest) done.length) done.length (done.length + 1) value := by
  intro reads
  refine ⟨[done.length], ?_, ?_⟩
  · have inside : 0 ≤ (done.length : ℤ) ∧ (done.length : ℤ) < (done ++ value :: rest).length := by
      rw [List.length_append, List.length_cons]
      omega
    simp only [item, position_natCast]
    rw [if_pos inside]
    simp [List.getD_eq_getElem?_getD]
  · intro i mem
    rw [List.mem_singleton.mp mem]
    omega

theorem slice_reads (done middle rest : List ℤ) :
    Reads (slice (done ++ (middle ++ rest)) done.length (done.length + middle.length))
      done.length (done.length + middle.length) middle := by
  intro reads
  refine ⟨List.range' done.length middle.length, ?_, ?_⟩
  · have size : (done ++ (middle ++ rest)).length =
        done.length + (middle.length + rest.length) := by simp
    have low : (min (max (position (done ++ (middle ++ rest)).length done.length) 0)
        ((done ++ (middle ++ rest)).length : ℤ)).toNat = done.length := by
      rw [position_natCast, size]
      omega
    have high : (min (max (position (done ++ (middle ++ rest)).length
        (done.length + middle.length)) 0) ((done ++ (middle ++ rest)).length : ℤ)).toNat =
          done.length + middle.length := by
      rw [← Nat.cast_add, position_natCast, size]
      omega
    simp only [slice]
    rw [low, high, Nat.add_sub_cancel_left, List.drop_left, List.take_left]
  · intro i mem
    rw [List.mem_range'_1] at mem
    exact mem

theorem lookup_reads {dtype : δ} {id : ℤ} {low high : ℕ} (known : table.idToDtype id = some dtype) :
    Reads (lookup table id) low high dtype := by
  intro reads
  refine ⟨[], ?_, by simp⟩
  simp [lookup, StateT.lift, known, unwrap, Bind.bind, Except.bind, Pure.pure, Except.pure]

theorem metaOf_eq_ok {tensor : Tensor δ} {record : List ℤ}
    (run : metaOf table tensor = .ok record) :
    ∃ id, table.dtypeToId tensor.dtype = some id ∧
      record = id :: (tensor.shape.length : ℤ) :: tensor.shape.map Nat.cast := by
  simp only [metaOf, bind_eq_ok, unwrap_eq_ok, pure_eq_ok] at run
  rcases run with ⟨id, known, rfl⟩
  exact ⟨id, known, rfl⟩

/-- The three parts of a record are read one after another. -/
theorem record_reads (inverse : table.Inverse) {tensor : Tensor δ} {id : ℤ}
    (known : table.dtypeToId tensor.dtype = some id) (done rest : List ℤ) {buffer : List ℤ}
    (whole : buffer = done ++ (id :: (tensor.shape.length : ℤ) ::
      tensor.shape.map Nat.cast ++ rest)) {α : Type} {next : List ℤ → δ → ℤ → Reading α}
    {result : α} {high : ℕ} (enough : done.length + (2 + tensor.shape.length) ≤ high)
    (continues : Reads (next (tensor.shape.map Nat.cast) tensor.dtype tensor.shape.length)
      done.length high result) :
    Reads (do
      let dtype ← lookup table (← item buffer done.length)
      let ndims ← item buffer (done.length + 1)
      let shape ← slice buffer (done.length + 2) (done.length + 2 + ndims)
      next shape dtype ndims) done.length high result := by
  subst whole
  have first := item_reads done ((tensor.shape.length : ℤ) :: tensor.shape.map Nat.cast ++ rest) id
  have second := item_reads (done ++ [id]) (tensor.shape.map Nat.cast ++ rest) tensor.shape.length
  have third := slice_reads (done ++ [id, (tensor.shape.length : ℤ)])
    (tensor.shape.map Nat.cast) rest
  simp only [List.append_assoc, List.cons_append, List.nil_append, List.length_append,
    List.length_cons, List.length_nil, List.length_map, Nat.cast_add, Nat.cast_one, Nat.cast_ofNat,
    zero_add, Nat.reduceAdd] at first second third ⊢
  refine .bind (first.mono le_rfl (by omega)) ?_
  refine .bind (lookup_reads ((inverse _ _).mp known)) ?_
  refine .bind (second.mono (by omega) (by omega)) ?_
  exact .bind (third.mono (by omega) (by omega)) continues

/-- The running offset follows the records. -/
theorem recvTensors_reads (inverse : table.Inverse) {tensors : List (Tensor δ)}
    {records : List (List ℤ)} (run : tensors.mapM (metaOf table) = .ok records)
    (done rest : List ℤ) (idx : ℕ) :
    Reads (recvTensors table (done ++ (records.flatten ++ rest)) tensors.length idx done.length)
      done.length (done.length + records.flatten.length) (requestsFrom idx tensors) := by
  induction tensors generalizing records done idx with
  | nil => exact .pure _
  | cons tensor tensors ih =>
      simp only [List.mapM_cons, bind_eq_ok, pure_eq_ok] at run
      rcases run with ⟨record, made, records, others, rfl⟩
      rcases metaOf_eq_ok made with ⟨id, known, rfl⟩
      have later := ih others (done ++ (id :: (tensor.shape.length : ℤ) ::
        tensor.shape.map Nat.cast)) (idx + 1)
      have size : (done ++ (id :: (tensor.shape.length : ℤ) ::
          tensor.shape.map Nat.cast)).length = done.length + (2 + tensor.shape.length) := by
        simp only [List.length_append, List.length_cons, List.length_map]
        omega
      have whole : done ++ ((id :: (tensor.shape.length : ℤ) :: tensor.shape.map Nat.cast) ++
          (records.flatten ++ rest)) = done ++ (((id :: (tensor.shape.length : ℤ) ::
            tensor.shape.map Nat.cast) :: records).flatten ++ rest) := by
        rw [List.flatten_cons, List.append_assoc]
      have total : ((id :: (tensor.shape.length : ℤ) ::
          tensor.shape.map Nat.cast) :: records).flatten.length =
            2 + tensor.shape.length + records.flatten.length := by
        simp only [List.flatten_cons, List.length_append, List.length_cons, List.length_map]
        omega
      rw [List.append_assoc, whole, size] at later
      rw [total]
      refine record_reads inverse known done (records.flatten ++ rest) whole.symm (by omega) ?_
      refine .bind (.mono later (by omega) (by omega)) (.pure _)

/-- For every tensor and every tuple of tensors whose record fits, the receiver of the padded record
asks for the same buffers and reads no position behind the record. -/
theorem recvTensorMeta_sendTensorMeta (table : DtypeTable δ) (inverse : table.Inverse) (size : ℕ)
    (buffer : Buffer δ) (record : List ℤ) (encoded : metaList table buffer = .ok record)
    (fits : record.length ≤ size) (values : ∀ value ∈ record, FitsInt32 value) :
    ∃ message received reads, sendTensorMeta table size buffer = .ok message ∧
      message.length = size ∧ buffer.wanted = some received ∧
      (recvTensorMeta table message).run [] = .ok (received, reads) ∧
      ∀ i ∈ reads, i < record.length := by
  have sent : sendTensorMeta table size buffer =
      .ok (record ++ List.replicate (size - record.length) 0) := by
    have long : assert (record.length ≤ size) MetaError.tooLong = .ok ⟨⟩ := if_pos fits
    have wide : assert (∀ value ∈ record, FitsInt32 value) MetaError.overflow = .ok ⟨⟩ :=
      if_pos values
    rw [sendTensorMeta, encoded]
    simp only [Bind.bind, Except.bind]
    rw [long, wide]
    rfl
  suffices received : ∃ received, buffer.wanted = some received ∧
      ∀ padding, Reads (recvTensorMeta table (record ++ padding)) 0 record.length received by
    rcases received with ⟨received, wanted, reading⟩
    rcases reading (List.replicate (size - record.length) 0) [] with ⟨reads, ran, inside⟩
    refine ⟨_, received, reads, sent, ?_, wanted, ran, fun i mem => (inside i mem).2⟩
    rw [List.length_append, List.length_replicate]
    omega
  cases buffer with
  | tensor sole =>
      simp only [metaList, bind_eq_ok, pure_eq_ok] at encoded
      rcases encoded with ⟨rest, made, rfl⟩
      rcases metaOf_eq_ok made with ⟨id, known, rfl⟩
      refine ⟨_, rfl, ?_⟩
      intro padding
      have kind := item_reads [] (id :: (sole.shape.length : ℤ) ::
        sole.shape.map Nat.cast ++ padding) 0
      refine .bind (kind.mono (by simp) (by simp)) ?_
      rw [if_pos rfl]
      refine Reads.mono ?_ (Nat.zero_le [(0 : ℤ)].length) le_rfl
      exact record_reads inverse known [0] padding rfl (by simp; omega) (.pure _)
  | tuple tensors =>
      simp only [metaList, bind_eq_ok, pure_eq_ok] at encoded
      rcases encoded with ⟨records, made, rfl⟩
      refine ⟨_, rfl, ?_⟩
      intro padding
      have kind := item_reads [] ((tensors.length : ℤ) :: records.flatten ++ padding) 2
      have count := item_reads [2] (records.flatten ++ padding) tensors.length
      have later := recvTensors_reads inverse made [2, (tensors.length : ℤ)] padding 0
      refine .bind (kind.mono (by simp) (by simp)) ?_
      rw [if_neg (by decide), if_pos (by decide)]
      refine .bind (count.mono (by simp) (by simp)) ?_
      refine .bind (.mono later (by simp) (by simp; omega)) ?_
      rw [if_pos rfl]
      exact .pure _
  | other => simp [metaList] at encoded

/-- Types that are their own identifiers. -/
def plainTable : DtypeTable ℕ where
  dtypeToId dtype := some dtype
  idToDtype id := if 0 ≤ id then some id.toNat else none

theorem inverse_plainTable : plainTable.Inverse := by
  intro dtype id
  simp only [plainTable, Option.some.injEq]
  split
  · simp only [Option.some.injEq]
    omega
  · simp only [reduceCtorEq, iff_false]
    omega

/-- A scalar and a matrix. -/
theorem recvTensorMeta_sendTensorMeta_pair :
    ∃ message received reads,
      sendTensorMeta plainTable 12 (.tuple [⟨5, []⟩, ⟨7, [2, 3]⟩]) = .ok message ∧
      message.length = 12 ∧ received = .tuple [⟨0, [], 5⟩, ⟨1, [2, 3], 7⟩] ∧
      (recvTensorMeta plainTable message).run [] = .ok (received, reads) ∧ ∀ i ∈ reads, i < 8 := by
  rcases recvTensorMeta_sendTensorMeta plainTable inverse_plainTable 12
    (.tuple [⟨5, []⟩, ⟨7, [2, 3]⟩]) [2, 2, 5, 0, 7, 2, 2, 3] (by decide) (by decide)
    (by decide) with
    ⟨message, received, reads, sent, length, wanted, ran, inside⟩
  exact ⟨message, received, reads, sent, length, (Option.some.inj wanted).symm, ran, inside⟩

end Phantora.PipelineMeta
