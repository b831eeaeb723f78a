import Mjlib.Micro.Flash
import Mjlib.Telemetry.BinaryReadArchive
import Mjlib.Telemetry.BinaryWriteArchive

/-!
# `PersistentConfig`: the write command and `Load`

The registered elements are a list in the order of registration, as the linear `PoolMap` keeps them.
The flash section is the bytes from `info.start` to `info.end`.  A program's classes, and so the
schema of each element, are given by what newly made objects hold; the checksum of
`boost::crc_32_type` is a parameter.  The `updated` callbacks run after the values are in place and
are left out, as are the texts of the command's responses.
-/

namespace Mjlib.Micro.PersistentConfig

open Telemetry

/-- A registered element: its name and the object that its `SerializableHandler` points to. -/
structure Element where
  name : Seq UInt8
  tag : ℕ
  fields : Fields
  value : fields.Vals

namespace Element

/-- The type of the object. -/
def ty (element : Element) : Ty := .object element.tag element.fields

/-- `SerializableHandler::WriteBinary`. -/
def writeBinary (element : Element) : Bytes :=
  BinaryWriteArchive.accept element.fields element.value

/-- `SerializableHandler::WriteSchema`, of an object made for it. -/
def writeSchema (fresh : Fresh) (element : Element) : Bytes :=
  BinarySchemaArchive.visit fresh true element.ty (fresh.defaultInit element.ty)

/-- `SerializableHandler::ReadBinary`: the element and the rest of the stream.  Its result only
says that an error occurred, which `DoLoad` passes over. -/
def readBinary (fresh : Fresh) (element : Element) (s : Bytes) : Except Error (Element × Bytes) := do
  let (value, st) ← BinaryReadArchive.accept fresh element.fields element.value ⟨s, false⟩
  return ({ element with value := value }, st.stream)

end Element

section

variable (fresh : Fresh) (crc32 : Bytes → BitVec 32)

/-- `CalculateSchemaCrc`. -/
def calculateSchemaCrc (element : Element) : BitVec 32 := crc32 (element.writeSchema fresh)

/-! ### The write command -/

/-- The record of an element. -/
def writeRecord (element : Element) : Bytes :=
  writeString element.name.val ++ (writeScalar 4 (calculateSchemaCrc fresh crc32 element) ++
    (writeScalar 4 (BitVec.ofNat 32 element.writeBinary.length) ++ element.writeBinary))

/-- The bytes that `Write` programs: the records and a 32-bit zero. -/
def written (elements : List Element) : Bytes :=
  elements.flatMap (writeRecord fresh crc32) ++ writeScalar 4 (0 : BitVec 32)

/-- What the flash section holds after `Write`, when it reads as `erased` once it is erased.  Bytes
that are programmed behind `info.end` are not part of it. -/
def write (elements : List Element) (erased : Bytes) : Bytes :=
  (written fresh crc32 elements ++ erased.drop (written fresh crc32 elements).length).take
    erased.length

/-- The writes for one element. -/
def writeElement (stream : FlashWriteStream) (element : Element) : FlashWriteStream :=
  let stream := stream.write (writeString element.name.val)
  let stream := stream.write (writeScalar 4 (calculateSchemaCrc fresh crc32 element))
  -- what `SizeCountingStream` has counted
  let dataSize : BitVec 32 := BitVec.ofNat 32 element.writeBinary.length
  let stream := stream.write (writeScalar 4 dataSize)
  stream.write element.writeBinary

/-- `Write` into the flash. -/
def writeFlash (info : FlashInfo) (elements : List Element) : FlashWriteStream :=
  (elements.foldl (writeElement fresh crc32) { position := info.start }).write
    (writeScalar 4 (0 : BitVec 32))

/-! ### Loading -/

/-- `DoLoad` with one record behind its header: the search through the elements, and what is done
with the one that is found. -/
def loadRecord (name : Bytes) (expectedCrc dataSize : BitVec 32) (s : Bytes) :
    List Element → Except Error (List Element × Bytes)
  | [] => .ok ([], s.drop dataSize.toNat)
  | element :: elements =>
    if element.name.val = name then
      if calculateSchemaCrc fresh crc32 element ≠ expectedCrc then
        .ok (element :: elements, s.drop dataSize.toNat)
      else do
        let (element, s) ← element.readBinary fresh s
        return (element :: elements, s)
    else do
      let (elements, s) ← loadRecord name expectedCrc dataSize s elements
      return (element :: elements, s)

/-- The loop of `DoLoad`, to the given number of records. -/
def loadLoop : ℕ → List Element → Bytes → Except Error (List Element)
  | 0, _, _ => .error .outOfFuel
  | n + 1, elements, s =>
    match readVaruint s with
    | (none, _) => .ok elements
    | (some nameSize, s) =>
      if nameSize = 0 ∨ nameSize.toNat ≥ Format.kMaxStringSize then .ok elements
      else
        let name := s.take nameSize.toNat
        let s := s.drop nameSize.toNat
        if s.length < 8 then .ok elements
        else
          match readScalar 4 s with
          | (none, _) => .ok elements
          | (some expectedCrc, s) =>
            match readScalar 4 s with
            | (none, _) => .ok elements
            | (some dataSize, s) => do
              let (elements, s) ← loadRecord fresh crc32 name expectedCrc dataSize s elements
              loadLoop n elements s

/-- `DoLoad`. -/
def load (elements : List Element) (flash : Bytes) : Except Error (List Element) :=
  loadLoop fresh crc32 (flash.length + 1) elements flash

end

end Mjlib.Micro.PersistentConfig
