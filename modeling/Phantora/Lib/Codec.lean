import Mathlib.Data.Nat.Digits.Defs
import Mathlib.Data.List.Basic

/-!
# Codecs

A codec writes values as bytes and reads them back from the front of longer
bytes. Numbers of a fixed width are written with the lowest or with the highest
byte first.
-/

namespace Bytes

/-- The bytes of a number, the lowest first. -/
def littleEndian : ℕ → ℕ → List UInt8
  | 0, _ => []
  | width + 1, value => UInt8.ofNat value :: littleEndian width (value / 256)

/-- The bytes of a number, the highest first. -/
def bigEndian (width value : ℕ) : List UInt8 :=
  (littleEndian width value).reverse

def fromLittleEndian (bytes : List UInt8) : ℕ :=
  Nat.ofDigits 256 (bytes.map UInt8.toNat)

def fromBigEndian (bytes : List UInt8) : ℕ :=
  fromLittleEndian bytes.reverse

variable {width value : ℕ}

@[simp]
theorem length_littleEndian : (littleEndian width value).length = width := by
  induction width generalizing value with
  | zero => rfl
  | succ width ih => simp [littleEndian, ih]

@[simp]
theorem length_bigEndian : (bigEndian width value).length = width := by
  simp [bigEndian]

theorem fromLittleEndian_littleEndian (fits : value < 256 ^ width) :
    fromLittleEndian (littleEndian width value) = value := by
  induction width generalizing value with
  | zero =>
      have zero : value = 0 := by simpa using fits
      simp [littleEndian, fromLittleEndian, zero]
  | succ width ih =>
      have rest : value / 256 < 256 ^ width := by
        apply Nat.div_lt_of_lt_mul
        rwa [pow_succ, mul_comm] at fits
      have higher := ih rest
      simp only [fromLittleEndian, littleEndian, List.map_cons, Nat.ofDigits_cons] at higher ⊢
      rw [higher, UInt8.toNat_ofNat']
      have split := Nat.mod_add_div value 256
      omega

theorem fromBigEndian_bigEndian (fits : value < 256 ^ width) :
    fromBigEndian (bigEndian width value) = value := by
  rw [fromBigEndian, bigEndian, List.reverse_reverse, fromLittleEndian_littleEndian fits]

end Bytes

/-- Reads a value from the front of the bytes; fails when they are no such value. -/
abbrev Reader (α : Type) : Type :=
  StateT (List UInt8) Option α

namespace Reader

variable {α β : Type} {bytes rest : List UInt8} {value : α}

theorem bind_apply (read : Reader α) (next : α → Reader β) :
    (read >>= next) bytes = (read bytes).bind fun result => next result.1 result.2 :=
  rfl

@[simp]
theorem pure_apply : (pure value : Reader α) bytes = some (value, bytes) :=
  rfl

theorem map_apply (read : Reader α) (f : α → β) :
    (f <$> read) bytes = (read bytes).map fun result => (f result.1, result.2) := by
  change (read bytes).bind (fun result => some (f result.1, result.2)) = _
  cases read bytes with
  | none => rfl
  | some result => rfl

/-- Read a value, if there is one. -/
def ofOption (value : Option α) : Reader α :=
  fun bytes => value.map fun value => (value, bytes)

@[simp]
theorem ofOption_some : ofOption (some value) bytes = some (value, bytes) :=
  rfl

/-- Read a number of bytes. -/
def take (count : ℕ) : Reader (List UInt8) :=
  fun bytes => if bytes.length < count then none else some (bytes.take count, bytes.drop count)

theorem take_append {front : List UInt8} {count : ℕ} (length : front.length = count) :
    take count (front ++ rest) = some (front, rest) := by
  simp [take, ← length]

/-- Read a number of values one after the other. -/
def many (read : Reader α) : ℕ → Reader (List α)
  | 0 => pure []
  | count + 1 => do
      let value ← read
      let values ← many read count
      return value :: values

/-- Values that are read one at a time are read together. -/
theorem many_flatMap {write : β → List UInt8} {read : Reader α} {image : β → α} {values : List β}
    (each : ∀ value ∈ values, ∀ rest, read (write value ++ rest) = some (image value, rest)) :
    many read values.length (values.flatMap write ++ rest) = some (values.map image, rest) := by
  induction values with
  | nil => rfl
  | cons value values ih =>
      have first := each value List.mem_cons_self
      have later := ih fun other mem => each other (List.mem_cons_of_mem value mem)
      simp [many, bind_apply, map_apply, first, later]

end Reader

/-- A way to write values as bytes such that they are read back, whatever follows. -/
structure Codec (α : Type) where
  write : α → List UInt8
  read : Reader α
  read_write : ∀ value rest, read (write value ++ rest) = some (value, rest)

attribute [simp] Codec.read_write

namespace Codec

variable {α β : Type}

@[simp]
theorem bind_read_write (codec : Codec α) (next : α → Reader β) (value : α) (rest : List UInt8) :
    (codec.read >>= next) (codec.write value ++ rest) = next value rest := by
  rw [Reader.bind_apply, codec.read_write, Option.bind_some]

@[simp]
theorem map_read_write (codec : Codec α) (f : α → β) (value : α) (rest : List UInt8) :
    (f <$> codec.read) (codec.write value ++ rest) = some (f value, rest) := by
  rw [Reader.map_apply, codec.read_write, Option.map_some]

/-- Numbers of a fixed width, the lowest byte first. -/
def number (width : ℕ) (toNat : α → ℕ) (ofNat : ℕ → α)
    (fits : ∀ value, toNat value < 256 ^ width) (inverse : ∀ value, ofNat (toNat value) = value) :
    Codec α where
  write value := Bytes.littleEndian width (toNat value)
  read := do
    let bytes ← Reader.take width
    return ofNat (Bytes.fromLittleEndian bytes)
  read_write := by
    intro value rest
    simp [Reader.map_apply, Reader.take_append Bytes.length_littleEndian,
      Bytes.fromLittleEndian_littleEndian (fits value), inverse]

def u32 : Codec UInt32 :=
  number 4 UInt32.toNat UInt32.ofNat (fun value => value.toNat_lt) fun _ => UInt32.ofNat_toNat

def u64 : Codec UInt64 :=
  number 8 UInt64.toNat UInt64.ofNat (fun value => value.toNat_lt) fun _ => UInt64.ofNat_toNat

/-- The values of a type in the place of those of another one. -/
def via (codec : Codec α) (into : β → α) (back : α → β)
    (inverse : ∀ value, back (into value) = value) : Codec β where
  write value := codec.write (into value)
  read := do
    let value ← codec.read
    return back value
  read_write := by
    intro value rest
    simp [inverse]

def i32 : Codec Int32 :=
  u32.via Int32.toUInt32 UInt32.toInt32 fun _ => rfl

def i64 : Codec Int64 :=
  u64.via Int64.toUInt64 UInt64.toInt64 fun _ => rfl

/-- One of finitely many values, as its place in their list. -/
def enumeration [DecidableEq α] (values : List α) (all : ∀ value, value ∈ values)
    (few : values.length < 2 ^ 32) : Codec α where
  write value := u32.write (UInt32.ofNat (values.idxOf value))
  read := do
    let place ← u32.read
    Reader.ofOption values[place.toNat]?
  read_write := by
    intro value rest
    have below := List.idxOf_lt_length_of_mem (all value)
    have place : (UInt32.ofNat (values.idxOf value)).toNat = values.idxOf value := by
      rw [UInt32.toNat_ofNat', Nat.mod_eq_of_lt (below.trans few)]
    simp [place, List.getElem?_idxOf (all value)]

def bool : Codec Bool where
  write value := [if value then 1 else 0]
  read := do
    let bytes ← Reader.take 1
    Reader.ofOption (if bytes = [0] then some false else if bytes = [1] then some true else none)
  read_write := by
    intro value rest
    cases value <;> rfl

/-- Bytes whose number is not written. -/
def array (count : ℕ) : Codec { bytes : List UInt8 // bytes.length = count } where
  write bytes := bytes.1
  read := do
    let bytes ← Reader.take count
    Reader.ofOption (if length : bytes.length = count then some ⟨bytes, length⟩ else none)
  read_write := by
    intro bytes rest
    simp [Reader.bind_apply, Reader.take_append bytes.2, bytes.2]

/-- Texts whose length fits in a word. -/
abbrev Text : Type :=
  { text : String // text.utf8ByteSize < 2 ^ 64 }

/-- A text behind the number of its bytes. -/
def text : Codec Text where
  write text := u64.write (UInt64.ofNat text.1.utf8ByteSize) ++ text.1.toByteArray.data.toList
  read := do
    let length ← u64.read
    let bytes ← Reader.take length.toNat
    let text ← Reader.ofOption (String.fromUTF8? ⟨bytes.toArray⟩)
    Reader.ofOption (if fits : text.utf8ByteSize < 2 ^ 64 then some ⟨text, fits⟩ else none)
  read_write := by
    intro text rest
    have length : (UInt64.ofNat text.1.utf8ByteSize).toNat = text.1.utf8ByteSize := by
      rw [UInt64.toNat_ofNat', Nat.mod_eq_of_lt text.2]
    have bytes : text.1.toByteArray.data.toList.length = text.1.utf8ByteSize := by
      rw [Array.length_toList]
      exact String.size_toByteArray
    have decoded : String.fromUTF8? text.1.toByteArray = some text.1 := by
      rw [String.fromUTF8?, dif_pos text.1.isValidUTF8]
      rfl
    have fits : text.1.utf8ByteSize < 18446744073709551616 := text.2
    simp [Reader.bind_apply, length, Reader.take_append bytes, decoded, fits]

end Codec
