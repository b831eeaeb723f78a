import Mjlib.Base.Crc
import Mjlib.Base.ThreadWriter
import Mjlib.Lib.SortedMap
import Mjlib.Telemetry.Format

/-!
# The log file writer

`telemetry::FileWriter`: a log file is a header followed by blocks, which `WriteSchema`, `WriteData`
and the closing `WriteIndex` compose in a buffer whose front is kept free for the block's header.
Every call is a function of the writer's state that is `none` where the code ends the process
(`Fail`, a failed assertion, a loop that never ends).  The files that were closed are kept in the
state.
-/

namespace Mjlib.Telemetry.FileWriter

open Base

/-! ### Buffers -/

/-- `ThreadWriter::OStream`: the bytes of the buffer, and where the ones to be written start. -/
structure Buffer where
  data : Bytes
  start : ℕ

/-- `kBufferStartPadding`. -/
def kBufferStartPadding : ℕ := 32

namespace Buffer

/-- `size()`. -/
def size (buffer : Buffer) : ℕ := buffer.data.length - buffer.start

/-- The bytes that `ThreadWriter` writes. -/
def view (buffer : Buffer) : Bytes := buffer.data.drop buffer.start

/-- `write`: append. -/
def write (buffer : Buffer) (data : Bytes) : Buffer := { buffer with data := buffer.data ++ data }

/-- Bytes written over those at an offset. -/
def overwrite (buffer : Buffer) (offset : ℕ) (data : Bytes) : Buffer :=
  { buffer with
    data := buffer.data.take offset ++ data ++ buffer.data.drop (offset + data.length) }

/-- Write a header of the given size into the padding.  The padding has to be large enough, and the
header may not be longer than its size. -/
def prepend (buffer : Buffer) (headerSize : ℕ) (header : Bytes) : Option Buffer :=
  if headerSize ≤ buffer.start ∧ header.length ≤ headerSize then
    some { buffer.overwrite (buffer.start - headerSize) header with
      start := buffer.start - headerSize }
  else none

end Buffer

/-- `GetBuffer`. -/
def getBuffer : Buffer := ⟨List.replicate kBufferStartPadding 0, kBufferStartPadding⟩

/-! ### The state of a writer -/

/-- `FilePosition`, an `int64_t`. -/
abbrev FilePosition := ℤ

/-- What the writer uses besides its own code. -/
structure Platform where
  /-- `snappy::RawCompress`. -/
  rawCompress : Bytes → Bytes
  /-- What is found in a `FilePosition` that was never set. -/
  indeterminate : FilePosition

/-- `FileWriter::Options`.  A seek block period of `0.0` is none. -/
structure Options where
  writePreviousOffsets : Bool := true
  defaultCompression : Bool := true
  defaultChecksumData : Bool := true
  indexBlock : Bool := true
  seekBlockPeriod : Option Duration := some (.finite 1000000 (by decide))
  timestampsSystem : Bool := true

/-- `FileWriter::Override`. -/
structure Override where
  require : Bool := false
  disable : Bool := false

/-- `Override::evaluate`. -/
def Override.evaluate (o : Override) (defaultValue : Bool) : Bool :=
  if o.require then true else if o.disable then false else defaultValue

/-- `FileWriter::WriteFlags`. -/
structure WriteFlags where
  compression : Override := {}
  checksum : Override := {}

/-- `SchemaRecord`. -/
structure SchemaRecord where
  name : Bytes := []
  identifier : UInt64 := 0
  blockSchemaFlags : UInt64 := 0
  schema : Bytes := []
  schemaPosition : FilePosition
  lastPosition : FilePosition := -1

/-- `FileWriter::Impl`, and the files it has closed. -/
structure State where
  writer : Option ThreadWriter := none
  identifierMap : SortedMap Bytes UInt64 := ∅
  reverseIdentifierMap : SortedMap UInt64 Bytes := ∅
  nextId : UInt64 := 1
  schema : SortedMap UInt64 SchemaRecord := ∅
  lastSeekBlock : Ptime := .notADateTime
  closed : List (List Bytes) := []

variable (platform : Platform) (options : Options)

namespace State

variable (s : State)

/-! ### Identifiers -/

/-- The search of `AllocateIdentifier` for an identifier that is not used yet, of at most the given
number of steps. -/
def findFree : ℕ → UInt64 → Option UInt64
  | 0, _ => none
  | n + 1, nextId =>
    if s.reverseIdentifierMap.contains nextId then findFree n (nextId + 1) else some nextId

/-- `AllocateIdentifier`; one of more identifiers than are in use is free. -/
def allocateIdentifier (recordName : Bytes) : Option (UInt64 × State) :=
  match s.identifierMap.get? recordName with
  | some identifier => some (identifier, s)
  | none => do
    let result ← s.findFree (s.reverseIdentifierMap.size + 1) s.nextId
    return (result, { s with
      nextId := result + 1
      identifierMap := s.identifierMap.insert recordName result
      reverseIdentifierMap := s.reverseIdentifierMap.insert result recordName })

/-- `ReserveIdentifier`. -/
def reserveIdentifier (recordName : Bytes) (identifier : UInt64) : Option (Bool × State) :=
  match s.identifierMap.get? recordName with
  | some i => if i = identifier then some (true, s) else none
  | none =>
    if s.reverseIdentifierMap.contains identifier then some (false, s)
    else some (true, { s with
      identifierMap := s.identifierMap.insert recordName identifier
      reverseIdentifierMap := s.reverseIdentifierMap.insert identifier recordName })

/-! ### Blocks -/

/-- `Write(Buffer)`. -/
def write (buffer : Buffer) : Option State :=
  match s.writer with
  | none => some s
  | some writer => (writer.write buffer.view).map fun writer => { s with writer := some writer }

/-- `position`. -/
def position : FilePosition := ((s.writer.map ThreadWriter.position).getD 0 : ℕ)

/-- `WriteBlock`, with the buffer's header put in front. -/
def writeBlock (blockType : Format.BlockType) (buffer : Buffer) : Option State :=
  match s.writer with
  | none => some s
  | some _ => do
    let blockSize := 1 + Format.getVaruintSize (UInt64.ofNat buffer.size)
    let buffer ← buffer.prepend blockSize
      (writeVaruint blockType.toUInt64 ++ writeVaruint (UInt64.ofNat buffer.size))
    s.write buffer

/-- `WriteSchema`. -/
def writeSchema (identifier : UInt64) (schema : Bytes) : Option State := do
  let name ← s.reverseIdentifierMap.get? identifier
  let s := { s with
    schema := s.schema.insert identifier
      { name, identifier, blockSchemaFlags := 0, schema, schemaPosition := s.position } }
  let body := writeVaruint identifier ++ writeVaruint 0 ++ writeString name ++ schema
  s.write (getBuffer.write (writeVaruint Format.BlockType.kSchema.toUInt64 ++
    writeVaruint (UInt64.ofNat body.length) ++ body))

/-- The distance from a position in the file back to an earlier one, as `WriteVaruint` takes it. -/
def distance (position : ℕ) (lastPosition : FilePosition) : UInt64 :=
  UInt64.ofInt (position - lastPosition)

/-- `GetPreviousOffset`. -/
def getPreviousOffset (writer : ThreadWriter) (identifier : UInt64) : UInt64 :=
  match s.schema.get? identifier with
  | none => 0
  | some record =>
    if record.lastPosition < 0 then 0 else distance writer.position record.lastPosition

/-- The records of the identifiers that have data. -/
def withData : List (UInt64 × SchemaRecord) :=
  s.schema.entries.filter fun x => x.2.lastPosition ≥ 0

/-- The body of a seek marker at a position, with the CRC and the header size still zero. -/
def seekBlockBody (position : ℕ) (timestamp : Ptime) : Bytes :=
  writeScalar 8 0xfdcab9a897867564#64 ++ writeScalar 4 0#32 ++ writeScalar 1 0#8 ++
    writeVaruint 0 ++ writeTimestamp timestamp ++
    writeVaruint (UInt64.ofNat s.withData.length) ++
    s.withData.flatMap fun x =>
      writeVaruint x.1 ++ writeVaruint (distance position x.2.lastPosition)

/-- `WriteSeekBlock`. -/
def writeSeekBlock (timestamp : Ptime) : Option State :=
  match s.writer with
  | none => some s
  | some writer => do
    let buffer := getBuffer.write (s.seekBlockBody writer.position timestamp)
    let bodySize := buffer.size
    let headerSize := 1 + Format.getVaruintSize (UInt64.ofNat bodySize)
    let crcPos := buffer.start + 8
    let buffer ← buffer.prepend headerSize
      (writeVaruint Format.BlockType.kSeekMarker.toUInt64 ++ writeVaruint (UInt64.ofNat bodySize))
    let buffer := buffer.overwrite (crcPos + 4) (writeScalar 1 (BitVec.ofNat 8 headerSize))
    let crc := crc32 ((buffer.data.drop buffer.start).take (headerSize + bodySize))
    s.write (buffer.overwrite crcPos (writeScalar 4 crc))

/-- The body of the index, without the two fields that end it. -/
def indexRecords : Bytes :=
  writeVaruint 0 ++ writeVaruint (UInt64.ofNat s.schema.size) ++
    s.schema.entries.flatMap fun x =>
      writeVaruint x.1 ++ writeScalar 8 (BitVec.ofInt 64 x.2.schemaPosition) ++
        writeScalar 8 (BitVec.ofInt 64 x.2.lastPosition)

/-- `WriteIndex`. -/
def writeIndex : Option State :=
  let buffer := getBuffer.write s.indexRecords
  let trailingSize := buffer.size + 1 +
    Format.getVaruintSize (UInt64.ofNat (buffer.size + 4 + 8)) + 4 + 8
  let buffer := (buffer.write (writeScalar 4 (BitVec.ofNat 32 trailingSize))).write Format.kIndexTrailer
  s.writeBlock .kIndex buffer

end State

/-! ### Data blocks -/

/-- What a data block carries besides its data. -/
structure DataFields where
  identifier : UInt64
  previousOffset : Option UInt64
  timestamp : Option Ptime
  checksum : Bool
  snappy : Bool

namespace DataFields

variable (fields : DataFields)

/-- `block_data_flags`. -/
def flags : UInt64 :=
  (if fields.previousOffset.isSome then Format.kPreviousOffset else 0) |||
    (if fields.timestamp.isSome then Format.kTimestamp else 0) |||
    (if fields.checksum then Format.kChecksum else 0) |||
    (if fields.snappy then Format.kSnappy else 0)

/-- `flag_header_size`. -/
def flagHeaderSize : ℕ :=
  (fields.previousOffset.elim 0 Format.getVaruintSize) +
    (if fields.timestamp.isSome then 8 else 0) + (if fields.checksum then 4 else 0)

/-- `body_size`, for data of a given size. -/
def bodySize (dataSize : ℕ) : ℕ :=
  Format.getVaruintSize fields.identifier + Format.getVaruintSize fields.flags +
    fields.flagHeaderSize + dataSize

/-- `header_size`, for data of a given size. -/
def headerSize (dataSize : ℕ) : ℕ :=
  Format.getVaruintSize fields.identifier + Format.getVaruintSize fields.flags +
    fields.flagHeaderSize + Format.getVaruintSize (UInt64.ofNat (fields.bodySize dataSize)) + 1

/-- The header up to the checksum. -/
def headerStart (dataSize : ℕ) : Bytes :=
  writeVaruint Format.BlockType.kData.toUInt64 ++
    writeVaruint (UInt64.ofNat (fields.bodySize dataSize)) ++ writeVaruint fields.identifier ++
    writeVaruint fields.flags ++ (fields.previousOffset.elim [] writeVaruint) ++
    (fields.timestamp.elim [] writeTimestamp)

/-- The header; the checksum is that of the block with zeros in its place. -/
def header (data : Bytes) : Bytes :=
  let start := fields.headerStart data.length
  start ++
    if fields.checksum then writeScalar 4 (crc32 (start ++ writeScalar 4 0#32 ++ data)) else []

end DataFields

namespace State

variable (s : State)

/-- Compress the data of a buffer, if that makes it smaller. -/
def compress (buffer : Buffer) : Bool × Buffer :=
  let compressed := platform.rawCompress buffer.view
  if compressed.length < buffer.size then (true, getBuffer.write compressed) else (false, buffer)

/-- The seek marker that may follow a data block. -/
def maybeWriteSeekBlock (timestamp : Ptime) : Option State :=
  match options.seekBlockPeriod with
  | none => some s
  | some period =>
    if s.lastSeekBlock = .notADateTime then some { s with lastSeekBlock := timestamp }
    else if timestamp ≠ .notADateTime ∧ (timestamp.sub s.lastSeekBlock).ge period then do
      let s ← s.writeSeekBlock timestamp
      return { s with lastSeekBlock := timestamp }
    else some s

/-- `WriteData`, at a time of the system's clock. -/
def writeData (timestamp : Ptime) (identifier : UInt64) (serializedData : Bytes)
    (writeFlags : WriteFlags) (now : Ptime) : Option State :=
  match s.writer with
  | none => some s
  | some writer => do
    let previousOffset :=
      if options.writePreviousOffsets then some (s.getPreviousOffset writer identifier) else none
    let timestampToWrite :=
      if timestamp ≠ .notADateTime then some timestamp
      else if options.timestampsSystem then some now else none
    let buffer := getBuffer.write serializedData
    let (snappy, buffer) :=
      if writeFlags.compression.evaluate options.defaultCompression then compress platform buffer
      else (false, buffer)
    let fields : DataFields :=
      { identifier, previousOffset, timestamp := timestampToWrite
        checksum := writeFlags.checksum.evaluate options.defaultChecksumData, snappy }
    let buffer ← buffer.prepend (fields.headerSize buffer.size) (fields.header buffer.view)
    -- an identifier without a schema gets a record here
    let record := (s.schema.get? identifier).getD { schemaPosition := platform.indeterminate }
    let s := { s with
      schema := s.schema.insert identifier { record with lastPosition := writer.position } }
    let s ← s.write buffer
    s.maybeWriteSeekBlock options timestamp

/-! ### Opening and closing -/

/-- The header of a file. -/
def fileHeader : Bytes := Format.kHeader ++ writeVaruint 0

/-- `PostOpen`.  Writing the schemas changes the records that the loop walks over, but none that it
has yet to reach. -/
def postOpen : Option State := do
  let s ← s.write (getBuffer.write fileHeader)
  s.schema.entries.foldlM (fun s x => s.writeSchema x.2.identifier x.2.schema) s

/-- `Open`. -/
def openFile : Option State :=
  match s.writer with
  | some _ => none
  | none => { s with writer := some ThreadWriter.empty }.postOpen

/-- `Close`. -/
def close : Option State :=
  match s.writer with
  | none => some s
  | some _ => do
    let s ← if options.indexBlock then s.writeIndex else some s
    return { s with
      writer := none
      lastSeekBlock := .notADateTime
      closed := s.closed ++ (s.writer.map ThreadWriter.buffers).toList }

end State

/-! ### Runs -/

/-- A call of the writer's interface. -/
inductive Call
  | openFile
  | close
  | allocateIdentifier (recordName : Bytes)
  | reserveIdentifier (recordName : Bytes) (identifier : UInt64)
  | writeSchema (identifier : UInt64) (schema : Bytes)
  | writeData (timestamp : Ptime) (identifier : UInt64) (serializedData : Bytes)
      (writeFlags : WriteFlags) (now : Ptime)

/-- The state after a call; `none` if the call does not return. -/
def step (s : State) : Call → Option State
  | .openFile => s.openFile
  | .close => s.close options
  | .allocateIdentifier recordName => (s.allocateIdentifier recordName).map Prod.snd
  | .reserveIdentifier recordName identifier =>
    (s.reserveIdentifier recordName identifier).map Prod.snd
  | .writeSchema identifier schema => s.writeSchema identifier schema
  | .writeData timestamp identifier serializedData writeFlags now =>
    s.writeData platform options timestamp identifier serializedData writeFlags now

end Mjlib.Telemetry.FileWriter
