import Mjlib.Base.Ptime
import Mjlib.Base.Stream

/-!
# The telemetry binary format

The constants of `telemetry::Format` and the primitive readers and writers of `telemetry/format.h`.
A stream that is read is the list of the bytes not yet read; every reader returns what it found and
the bytes left over.  `base::ReadStream::read` hands over as many bytes as there are, so a reader
that finds too few has used them up.
-/

namespace Mjlib.Telemetry

/-- The bytes of a text. -/
def ascii (s : String) : Bytes := s.toList.map fun c => UInt8.ofNat c.toNat

/-- How a telemetry routine fails: a failed assertion, an exception, or a step that C++ leaves
undefined. -/
inductive Error
  /-- `MJ_ASSERT(false)` or `AssertNotReached()`. -/
  | assertion
  /-- `.value()` of an empty optional, which throws `std::bad_optional_access`. -/
  | badOptionalAccess
  /-- `.at()` past the end, which throws `std::out_of_range`. -/
  | outOfRange
  /-- `errc::kInvalidType`, "type {} unknown". -/
  | invalidType (type : UInt64)
  /-- `errc::kInvalidUnionIndex`, "Unknown union index {}". -/
  | invalidUnionIndex (index : UInt64)
  /-- `errc::kTypeMismatch`. -/
  | typeMismatch
  /-- `errc::kInvalidHeader`. -/
  | invalidHeader
  /-- `errc::kInvalidHeaderFlags`. -/
  | invalidHeaderFlags
  /-- `errc::kInvalidBlockType`. -/
  | invalidBlockType
  /-- `errc::kUnknownBlockSchemaFlag`. -/
  | unknownBlockSchemaFlag
  /-- `errc::kUnknownBlockDataFlag`. -/
  | unknownBlockDataFlag
  /-- `errc::kUnknownIndexFlag`. -/
  | unknownIndexFlag
  /-- `errc::kUnknownSeekMarkerFlag`. -/
  | unknownSeekMarkerFlag
  /-- `errc::kDecompressionError`. -/
  | decompressionError
  /-- `errc::kDataChecksumMismatch`, "Expected checksum 0x{:08x} got 0x{:08x}". -/
  | dataChecksumMismatch (expected got : BitVec 32)
  /-- `system_error::throw_if`: a call of the operating system failed. -/
  | systemError
  /-- `resize` past a container's largest size, which throws `std::length_error`. -/
  | lengthError
  /-- `std::terminate`: an exception left a destructor. -/
  | terminated
  /-- Undefined: an index past the end of a vector. -/
  | pastTheEnd
  /-- Undefined: a stream is asked for a negative number of bytes. -/
  | negativeSize
  /-- Undefined: a time outside the years of `boost::posix_time::ptime`. -/
  | undefinedTime
  /-- No outcome of the code: the bound on the depth of a recursion was too small. -/
  | outOfFuel
deriving DecidableEq, Repr

namespace Format

/-- `Format::kMaxStringSize`. -/
def kMaxStringSize : ℕ := 2 ^ 24

/-- `Format::Type`. -/
inductive TypeCode
  | kFinal
  | kNull
  | kBoolean
  | kFixedInt
  | kFixedUInt
  | kVarint
  | kVaruint
  | kFloat32
  | kFloat64
  | kBytes
  | kString
  | kObject
  | kEnum
  | kArray
  | kFixedArray
  | kMap
  | kUnion
  | kTimestamp
  | kDuration
deriving DecidableEq, Repr

/-- The enumerators' values. -/
def TypeCode.toUInt64 : TypeCode → UInt64
  | kFinal => 0
  | kNull => 1
  | kBoolean => 2
  | kFixedInt => 3
  | kFixedUInt => 4
  | kVarint => 5
  | kVaruint => 6
  | kFloat32 => 7
  | kFloat64 => 8
  | kBytes => 9
  | kString => 10
  | kObject => 16
  | kEnum => 17
  | kArray => 18
  | kFixedArray => 19
  | kMap => 20
  | kUnion => 21
  | kTimestamp => 22
  | kDuration => 23

/-- The enumerator of a value, if it has one. -/
def TypeCode.ofUInt64 : UInt64 → Option TypeCode
  | 0 => some kFinal
  | 1 => some kNull
  | 2 => some kBoolean
  | 3 => some kFixedInt
  | 4 => some kFixedUInt
  | 5 => some kVarint
  | 6 => some kVaruint
  | 7 => some kFloat32
  | 8 => some kFloat64
  | 9 => some kBytes
  | 10 => some kString
  | 16 => some kObject
  | 17 => some kEnum
  | 18 => some kArray
  | 19 => some kFixedArray
  | 20 => some kMap
  | 21 => some kUnion
  | 22 => some kTimestamp
  | 23 => some kDuration
  | _ => none

/-- `Format::Type::kLastType`. -/
def kLastType : TypeCode := .kDuration

theorem TypeCode.ofUInt64_toUInt64 (t : TypeCode) : ofUInt64 t.toUInt64 = some t := by
  cases t <;> rfl

theorem TypeCode.toUInt64_le (t : TypeCode) : t.toUInt64 ≤ kLastType.toUInt64 := by
  cases t <;> decide

/-- `Format::BlockType`. -/
inductive BlockType
  | kSchema
  | kData
  | kIndex
  | kCompressionDictionary
  | kSeekMarker
deriving DecidableEq, Repr

/-- The enumerators' values. -/
def BlockType.toUInt64 : BlockType → UInt64
  | kSchema => 1
  | kData => 2
  | kIndex => 3
  | kCompressionDictionary => 4
  | kSeekMarker => 5

/-- The enumerator of a value; there is none above `kNumTypes`, and none for zero. -/
def BlockType.ofUInt64 : UInt64 → Option BlockType
  | 1 => some kSchema
  | 2 => some kData
  | 3 => some kIndex
  | 4 => some kCompressionDictionary
  | 5 => some kSeekMarker
  | _ => none

@[simp] theorem BlockType.ofUInt64_toUInt64 (t : BlockType) : ofUInt64 t.toUInt64 = some t := by
  cases t <;> rfl

/-! `Format::BlockDataFlags`. -/

/-- The number of bytes back to the previous data block of the same identifier. -/
def kPreviousOffset : UInt64 := 1

/-- The time the object was written at. -/
def kTimestamp : UInt64 := 2

/-- The CRC-32 of the entire block. -/
def kChecksum : UInt64 := 4

/-- The object is compressed. -/
def kSnappy : UInt64 := 16

/-- The loop of `GetVaruintSize`. -/
def getVaruintSizeLoop : ℕ → UInt64 → ℕ
  | 0, _ => 0
  | n + 1, value =>
    1 + if value ≤ 0x7f then 0
      else let value := value >>> 7; if value ≠ 0 then getVaruintSizeLoop n value else 0

/-- `GetVaruintSize`. -/
def getVaruintSize (value : UInt64) : ℕ := getVaruintSizeLoop 10 value

/-- `Format::kHeader`: "TLOG0003". -/
def kHeader : Bytes := [0x54, 0x4c, 0x4f, 0x47, 0x30, 0x30, 0x30, 0x33]

/-- The text that ends an index: "TLOGIDEX". -/
def kIndexTrailer : Bytes := [0x54, 0x4c, 0x4f, 0x47, 0x49, 0x44, 0x45, 0x58]

end Format

/-! ### Sequences -/

/-- A sequence whose size is a `size_t`. -/
abbrev Seq (α : Type) := {l : List α // l.length < 2 ^ 64}

namespace Seq

/-- `size()`. -/
def size {α : Type} (s : Seq α) : UInt64 := UInt64.ofNat s.val.length

/-- `std::vector::resize`. -/
def resize {α : Type} (fresh : α) (size : UInt64) (s : Seq α) : Seq α :=
  ⟨s.val.take size.toNat ++ List.replicate (size.toNat - s.val.length) fresh, by
    have := size.toNat_lt
    simp only [List.length_append, List.length_take, List.length_replicate]
    omega⟩

/-- Copy items over the front of a sequence that has room for them. -/
def overwrite {α : Type} (items : List α) (s : Seq α) : Seq α :=
  ⟨(items ++ s.val.drop items.length).take s.val.length,
    lt_of_le_of_lt (List.length_take_le _ _) s.property⟩

theorem toNat_size {α : Type} (s : Seq α) : s.size.toNat = s.val.length := by
  rw [size, UInt64.toNat_ofNat', Nat.mod_eq_of_lt s.property]

@[simp] theorem length_resize {α : Type} (fresh : α) (size : UInt64) (s : Seq α) :
    (s.resize fresh size).val.length = size.toNat := by
  simp only [resize, List.length_append, List.length_take, List.length_replicate]
  omega

/-- Items that fill a sequence replace it. -/
theorem overwrite_of_length_eq {α : Type} {items : List α} {s : Seq α}
    (h : items.length = s.val.length) : (overwrite items s).val = items := by
  show (items ++ s.val.drop items.length).take s.val.length = items
  rw [h, List.drop_length, List.append_nil, List.take_of_length_le (Nat.le_of_eq h)]

end Seq

/-! ### Writing -/

/-- The loop of `WriteVaruintReal`; a 64-bit value leaves after ten iterations at the latest. -/
def writeVaruintLoop : ℕ → UInt64 → Bytes
  | 0, _ => []
  | n + 1, value =>
    let word := (value &&& 0x7f).toUInt8
    let word := if value > 0x7f then word ||| 0x80 else word
    let value := value >>> 7
    word :: (if value ≠ 0 then writeVaruintLoop n value else [])

/-- `WriteVaruint`. -/
def writeVaruint (value : UInt64) : Bytes := writeVaruintLoop 10 value

/-- `WriteVarint`, of the bits of a value. -/
def writeVarint (value : BitVec 64) : Bytes :=
  writeVaruint (UInt64.ofBitVec (value.sshiftRight 63 ^^^ value <<< 1))

/-- `Write(bool)`. -/
def writeBool (value : Bool) : Bytes := [if value then 1 else 0]

/-- `WriteScalar`: the bytes of the value in memory. -/
def writeScalar (size : ℕ) (value : BitVec (8 * size)) : Bytes := scalarBytes size value.toNat

/-- `WriteVaruint` of an enumerator of `Format::Type`. -/
def writeType (type : Format.TypeCode) : Bytes := writeVaruint type.toUInt64

/-- `Write(ptime)`. -/
def writeTimestamp (timestamp : Base.Ptime) : Bytes :=
  writeScalar 8 (Base.convertPtimeToEpochMicroseconds timestamp)

/-- `WriteString`. -/
def writeString (data : Bytes) : Bytes := writeVaruint (UInt64.ofNat data.length) ++ data

/-! ### Reading -/

/-- `RawRead`: the bytes that were there, whether they were enough, and the rest. -/
def rawRead (size : ℕ) (s : Bytes) : Bytes × Bool × Bytes :=
  (s.take size, decide (size ≤ s.length), s.drop size)

/-- `ReadScalar<T>`, as the bits of the value. -/
def readScalar (size : ℕ) (s : Bytes) : Option (BitVec (8 * size)) × Bytes :=
  if size ≤ s.length then (some (BitVec.ofNat _ (LittleEndian.decode (s.take size))), s.drop size)
  else (none, [])

/-- `Read<uint8_t>`. -/
def readU8 : Bytes → Option UInt8 × Bytes
  | [] => (none, [])
  | b :: s => (some b, s)

/-- The loop of `ReadVaruint`.  From the eleventh byte on, the shift is by 64 or more, which C++
leaves undefined and the machine takes modulo 64. -/
def readVaruintLoop (result : UInt64) (position : ℕ) : Bytes → Option UInt64 × Bytes
  | [] => (none, [])
  | value :: s =>
    let result := result ||| ((value &&& 0x7f).toUInt64 <<< UInt64.ofNat position)
    if value ≥ 0x80 then readVaruintLoop result (position + 7) s else (some result, s)

/-- `ReadVaruint`. -/
def readVaruint (s : Bytes) : Option UInt64 × Bytes := readVaruintLoop 0 0 s

/-- `ReadVarint`. -/
def readVarint (s : Bytes) : Option (BitVec 64) × Bytes :=
  match readVaruint s with
  | (none, s) => (none, s)
  | (some encoded, s) => (some ((encoded >>> 1) - (encoded &&& 1) * encoded).toBitVec, s)

/-- `ReadString`. -/
def readString (s : Bytes) : Except Error (Option (Seq UInt8) × Bytes) :=
  match readVaruint s with
  | (none, s) => .ok (none, s)
  | (some size, s) =>
    if size.toNat > Format.kMaxStringSize then .error .assertion
    else match rawRead size.toNat s with
      | (data, true, s) => .ok (some (Seq.overwrite data (Seq.resize 0 size ⟨[], by simp⟩)), s)
      | (_, false, s) => .ok (none, s)

/-- The conversion of a `uint64_t` to the stream's signed `std::streamsize`. -/
def streamsize (size : UInt64) : ℤ := size.toBitVec.toInt

/-- `Ignore(size)`, which stops at the end of the stream. -/
def ignoreBytes (size : ℤ) (s : Bytes) : Except Error Bytes :=
  if size < 0 then .error .negativeSize else .ok (s.drop size.toNat)

/-- `.value()` of an optional that a reader returned. -/
def value {α : Type} : Option α × Bytes → Except Error (α × Bytes)
  | (some x, s) => .ok (x, s)
  | (none, _) => .error .badOptionalAccess

end Mjlib.Telemetry
