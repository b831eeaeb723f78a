import Mjlib.Base.Crc
import Mjlib.Lib.SortedMap
import Mjlib.Telemetry.BinarySchemaParser

/-!
# The log file reader

`telemetry::FileReader`: opening a log file, which reads the index that may end it, and iterating
over its items.  A member function is a computation on the reader's state that may end in an error
and keeps what it has changed by then.  Of the streams that are stacked on the file, the state has
the position of the `FILE`, what the `CrcReadStream` has seen, if there is one, and what is left of
the `BlockStream` in scope.
-/

namespace Mjlib.Telemetry.FileReader

open Base

/-! ### The state of a reader -/

/-- `FileReader::Record`. -/
structure Record where
  identifier : UInt64 := 0
  name : Bytes := []
  rawSchema : Bytes := []
  flags : UInt64 := 0
deriving DecidableEq, Repr

/-- `FileReader::Item`. -/
structure Item where
  index : ℤ
  timestamp : Ptime := .notADateTime
  data : Bytes
  flags : UInt64
  record : Record
deriving DecidableEq, Repr

/-- `FileReader::ItemsOptions`. -/
structure ItemsOptions where
  records : List Bytes := []
  start : ℤ := -1
  stop : ℤ := -1

/-- `FileReader::Options`. -/
structure Options where
  verifyChecksums : Bool := true

/-- `FileReader::Impl` and its streams. -/
structure State where
  /-- The position of the `FILE`. -/
  pos : ℕ := 0
  /-- What the `CrcReadStream` on the file has seen; none while the file is read directly. -/
  crc : Option Bytes := none
  /-- `size_` of the `BlockStream` in scope. -/
  blockSize : ℤ := 0
  records : List Record := []
  idToRecord : SortedMap UInt64 Record := ∅
  nameToRecord : SortedMap Bytes Record := ∅
  finalItem : ℤ := -1
  hasIndex : Bool := false
  allRecordsFound : Bool := false
  start : ℤ := 0

/-- A computation on the reader's state. -/
abbrev M := ExceptT Error (StateM State)

/-- `.value()`. -/
def M.value {α : Type} : Option α → M α
  | some a => pure a
  | none => throw .badOptionalAccess

/-- `snappy::GetUncompressedLength` and `RawUncompress`; none where one of them fails. -/
abbrev RawUncompress := Bytes → Option Bytes

variable (file : Bytes) (options : Options) (rawUncompress : RawUncompress)

/-! ### The file and the CRC stream -/

/-- The bytes from the position on. -/
def rest (st : State) : Bytes := file.drop st.pos

/-- Step over bytes that were read. -/
def State.advance (st : State) (data : Bytes) : State :=
  { st with pos := st.pos + data.length, crc := st.crc.map (· ++ data) }

/-- Step over so many bytes; they are there. -/
def consume (n : ℕ) : M PUnit := modify fun st => st.advance ((rest file st).take n)

/-- `FilePtr::Seek`. -/
def seek (index : ℤ) : M PUnit :=
  if index < 0 then throw .systemError else modify fun st => { st with pos := index.toNat }

/-- `ReadVaruint` on the file or the CRC stream. -/
def readVaruint : M (Option UInt64) := do
  let s := rest file (← get)
  let (v, s') := Telemetry.readVaruint s
  consume file (s.length - s'.length)
  return v

/-- `ReadScalar` on the file or the CRC stream. -/
def readScalar (size : ℕ) : M (Option (BitVec (8 * size))) := do
  let s := rest file (← get)
  let (v, s') := Telemetry.readScalar size s
  consume file (s.length - s'.length)
  return v

/-- `ignore` on the file, which seeks, or on the CRC stream, which reads. -/
def ignoreBelow (size : ℕ) : M PUnit := do
  let st ← get
  match st.crc with
  | some _ => consume file size
  | none => if st.pos + size < 2 ^ 63 then set { st with pos := st.pos + size } else throw .systemError

/-! ### The block stream -/

/-- The assertion of `BlockStream::read`: so many bytes are asked for. -/
def ask (size : ℕ) : M PUnit := do
  let st ← get
  if size ≤ st.blockSize then set { st with blockSize := st.blockSize - size } else throw .assertion

namespace Block

/-- `ReadVaruint` on the block stream: a byte at a time, and one more where the file ends. -/
def readVaruint : M (Option UInt64) := do
  let s := rest file (← get)
  let (v, s') := Telemetry.readVaruint s
  ask (s.length - s'.length + if v.isSome then 0 else 1)
  consume file (s.length - s'.length)
  return v

/-- `ReadScalar` on the block stream. -/
def readScalar (size : ℕ) : M (Option (BitVec (8 * size))) := do
  let s := rest file (← get)
  let (v, s') := Telemetry.readScalar size s
  ask size
  consume file (s.length - s'.length)
  return v

/-- `RawRead` on the block stream: what was there, and whether it was enough. -/
def rawRead (size : ℕ) : M (Bytes × Bool) := do
  let (data, complete, _) := Telemetry.rawRead size (rest file (← get))
  ask size
  consume file data.length
  return (data, complete)

/-- `ReadString` on the block stream. -/
def readString : M (Option Bytes) := do
  match ← readVaruint file with
  | none => return none
  | some size =>
    if size.toNat > Format.kMaxStringSize then throw .assertion
    else
      let (data, complete) ← rawRead file size.toNat
      return if complete then some data else none

/-- `resize(remaining())` and `read`: the rest of the block, with zeros for what the file lacks. -/
def readRemaining : M Bytes := do
  let remaining := (← get).blockSize
  if remaining < 0 then throw .lengthError
  else
    let (data, _) ← rawRead file remaining.toNat
    return data ++ List.replicate (remaining.toNat - data.length) 0

/-- `shrink`. -/
def shrink (size : ℕ) : M PUnit := modify fun st => { st with blockSize := st.blockSize - size }

/-- `~BlockStream`. -/
def destroy : M PUnit := do
  let size := (← get).blockSize
  if size > 0 then ignoreBelow file size.toNat else pure ()

/-- Run a computation with a block stream in scope.  The destructor runs when it returns and when it
throws, but not when it fails an assertion. -/
def inScope {α : Type} (size : UInt64) (body : M α) : M α := fun st =>
  match body { st with blockSize := streamsize size } with
  | (.error .assertion, st) => (.error .assertion, st)
  | (result, st) =>
    match destroy file st with
    | (.ok _, st) => (result, st)
    | (.error _, st) => (.error .terminated, st)

end Block

/-! ### Filters -/

/-- `ItemRangeContext`. -/
structure ItemRangeContext where
  unknownNames : List Bytes := []
  ids : List UInt64 := []
  options : ItemsOptions := {}

/-- `Filter`: that of an item range, or one that lets nothing pass. -/
inductive Filter
  | range (context : ItemRangeContext)
  | noFilter

/-- `Filter::check`. -/
def Filter.check (identifier : UInt64) : Filter → Bool
  | .range context => context.options.records.isEmpty || context.ids.contains identifier
  | .noFilter => false

/-- `Filter::new_schema`. -/
def Filter.newSchema (identifier : UInt64) (name : Bytes) : Filter → Filter
  | .range context =>
    if context.unknownNames.contains name then
      .range { context with
        unknownNames := context.unknownNames.filter (· ≠ name)
        ids := identifier :: context.ids }
    else .range context
  | .noFilter => .noFilter

/-! ### Blocks -/

/-- `ReadHeader` on the file or the CRC stream: the type and the size of a block. -/
def readHeader (throwOnError : Bool) : M (Option (Format.BlockType × UInt64)) := do
  match ← readVaruint file with
  | none => return none
  | some type =>
    match Format.BlockType.ofUInt64 type with
    | none => if throwOnError then throw .invalidBlockType else return none
    | some blockType =>
      let size ← M.value (← readVaruint file)
      return some (blockType, size)

/-- Change the last record. -/
def modifyLast (f : Record → Record) : M PUnit := modify fun st =>
  { st with records := st.records.modify (st.records.length - 1) f }

/-- `ProcessSchema`. -/
def processSchema (filter : Filter) : M (Record × Filter) := do
  let identifier ← M.value (← Block.readVaruint file)
  match (← get).idToRecord.get? identifier with
  | some record => return (record, filter)
  | none =>
    modify fun st => { st with records := st.records ++ [{ identifier }] }
    let flags ← M.value (← Block.readVaruint file)
    modifyLast fun record => { record with flags }
    if flags ≠ 0 then throw .unknownBlockSchemaFlag
    else
      let name ← M.value (← Block.readString file)
      modifyLast fun record => { record with name }
      let rawSchema ← Block.readRemaining file
      modifyLast fun record => { record with rawSchema }
      match BinarySchemaParser.parse rawSchema name with
      | .error e => throw e
      | .ok _ =>
        let record : Record := { identifier, name, rawSchema, flags }
        modify fun st => { st with
          idToRecord := st.idToRecord.insert identifier record
          nameToRecord := st.nameToRecord.insert name record }
        return (record, filter.newSchema identifier name)

/-- One pass of the loop of `ReadUntil` over a block that starts at the given position: the item
that was looked for and the position after it, if this is one. -/
def processBlock (start : ℤ) (blockType : Format.BlockType) (filter : Filter) :
    M (Option (ℤ × ℤ) × Filter) :=
  match blockType with
  | .kData => do
    modify fun st => { st with finalItem := if start > st.finalItem then start else st.finalItem }
    let identifier ← M.value (← Block.readVaruint file)
    if filter.check identifier then
      let st ← get
      return (some (start, st.pos + st.blockSize), filter)
    else return (none, filter)
  | .kSchema => do
    let (_, filter) ← processSchema file filter
    return (none, filter)
  | .kIndex => return (none, filter)
  | .kCompressionDictionary => return (none, filter)
  | .kSeekMarker => return (none, filter)

/-- The loop of `ReadUntil`, of at most the given number of passes. -/
def readUntilLoop : ℕ → Filter → M ((ℤ × ℤ) × Filter)
  | 0, _ => throw .outOfFuel
  | n + 1, filter => do
    let start : ℤ := (← get).pos
    match ← readHeader file true with
    | none => return ((-1, -1), filter)
    | some (blockType, size) =>
      match ← Block.inScope file size (processBlock file start blockType filter) with
      | (some found, filter) => return (found, filter)
      | (none, filter) => readUntilLoop n filter

/-- `ReadUntil`: the next item that the filter lets pass, and where the block after it starts.  Each
pass reads at least one byte. -/
def readUntil (start : ℤ) (filter : Filter) : M ((ℤ × ℤ) × Filter) := do
  seek start
  modify fun st => { st with crc := none }
  readUntilLoop file (file.length + 1) filter

/-- `check_flags`: whether a flag is set, and the flags without it. -/
def checkFlags (flags flag : UInt64) : Bool × UInt64 :=
  if flags &&& flag ≠ 0 then (true, flags &&& ~~~flag) else (false, flags)

/-- The previous offset of a data block, which is read and dropped. -/
def skipPreviousOffset (present : Bool) : M PUnit :=
  if present then do
    let _ ← Block.readVaruint file
    return ⟨⟩
  else pure ⟨⟩

/-- `ReadTimestamp().value()`, if there is one. -/
def readTimestamp (present : Bool) : M Ptime :=
  if present then do
    let data ← M.value (← Block.readScalar file 8)
    match convertEpochMicrosecondsToPtime data with
    | some timestamp => return timestamp
    | none => throw .undefinedTime
  else pure .notADateTime

/-- The CRC of a block, if there is one: the CRC stream is given zeros for it, and it is read from
the file below. -/
def readChecksum (present : Bool) : M (Option (BitVec 32)) :=
  if present then do
    modify fun st => { st with crc := st.crc.map (· ++ [0, 0, 0, 0]) }
    let s := rest file (← get)
    let (v, s') := Telemetry.readScalar 4 s
    modify fun st => { st with pos := st.pos + (s.length - s'.length) }
    let checksum ← M.value v
    Block.shrink 4
    return some checksum
  else pure none

/-- The data of a block, decompressed if it has to be. -/
def uncompress (snappy : Bool) (stored : Bytes) : M Bytes :=
  if snappy then
    match rawUncompress stored with
    | some data => pure data
    | none => throw .decompressionError
  else pure stored

/-- The comparison of a block's CRC with what the CRC stream has seen. -/
def verifyChecksum (checksum : Option (BitVec 32)) : M PUnit := do
  let actual := crc32 ((← get).crc.getD [])
  match checksum with
  | some checksum =>
    if options.verifyChecksums && checksum ≠ actual then
      throw (.dataChecksumMismatch actual checksum)
    else pure ⟨⟩
  | none => pure ⟨⟩

/-- The body of `Read`, for the item at an index. -/
def readItem (index : ℤ) : M Item := do
  let identifier ← M.value (← Block.readVaruint file)
  let flags ← M.value (← Block.readVaruint file)
  let (hasOffset, unknown) := checkFlags flags Format.kPreviousOffset
  let (hasTimestamp, unknown) := checkFlags unknown Format.kTimestamp
  let (hasChecksum, unknown) := checkFlags unknown Format.kChecksum
  let (snappy, unknown) := checkFlags unknown Format.kSnappy
  skipPreviousOffset file hasOffset
  let timestamp ← readTimestamp file hasTimestamp
  let checksum ← readChecksum file hasChecksum
  if unknown ≠ 0 then throw .unknownBlockDataFlag
  else
    let stored ← Block.readRemaining file
    let data ← uncompress rawUncompress snappy stored
    verifyChecksum options checksum
    match (← get).idToRecord.get? identifier with
    | some record => return { index, timestamp, data, flags, record }
    | none => throw .outOfRange

/-- `Read`. -/
def read (index : ℤ) : M Item := do
  seek index
  modify fun st => { st with crc := some [] }
  match ← readHeader file true with
  | none => throw .assertion
  | some (blockType, size) =>
    if blockType ≠ .kData then throw .assertion
    else Block.inScope file size (readItem file options rawUncompress index)

/-! ### Opening -/

/-- An index's record of an identifier. -/
structure LocalRecord where
  identifier : UInt64
  schemaLocation : ℤ
  finalRecord : ℤ

/-- The records of an index. -/
def readLocalRecords : ℕ → M (List LocalRecord)
  | 0 => return []
  | n + 1 => do
    let identifier ← M.value (← readVaruint file)
    let schemaLocation ← M.value (← readScalar file 8)
    let finalRecord ← M.value (← readScalar file 8)
    let rest ← readLocalRecords n
    return { identifier, schemaLocation := schemaLocation.toInt, finalRecord := finalRecord.toInt }
      :: rest

/-- Read the schema that an index's record points at. -/
def loadLocalRecord (localRecord : LocalRecord) : M PUnit := do
  seek localRecord.schemaLocation
  let (_, size) ← M.value (← readHeader file true)
  Block.inScope file size do
    let (record, _) ← processSchema file .noFilter
    if record.identifier ≠ localRecord.identifier then throw .assertion
    else modify fun st => { st with finalItem :=
      if localRecord.finalRecord > st.finalItem then localRecord.finalRecord else st.finalItem }

/-- The index, from its flags on. -/
def processIndex : M PUnit := do
  let flags ← M.value (← readVaruint file)
  if flags ≠ 0 then throw .unknownIndexFlag
  else
    let nelements ← M.value (← readVaruint file)
    let localRecords ← readLocalRecords file nelements.toNat
    if (← get).records ≠ [] then throw .assertion
    else
      modify fun st => { st with finalItem := 0 }
      localRecords.forM (loadLocalRecord file)
      modify fun st => { st with hasIndex := true, allRecordsFound := true }

/-- `MaybeProcessIndex`. -/
def maybeProcessIndex : M PUnit := do
  seek (file.length - 8)
  let trailer := (rest file (← get)).take 8
  consume file 8
  if trailer ≠ Format.kIndexTrailer then return ⟨⟩
  else
    seek (file.length - 12)
    let trailerSize ← M.value (← readScalar file 4)
    if trailerSize.toNat ≥ file.length - (← get).start then return ⟨⟩
    else
      seek (file.length - trailerSize.toNat)
      match ← readHeader file true with
      | some (.kIndex, _) => processIndex file
      | _ => return ⟨⟩

/-- `FileReader::Impl::Impl`. -/
def openFile : M PUnit := do
  let header := (rest file (← get)).take 8
  consume file 8
  if header ≠ Format.kHeader then throw .invalidHeader
  else if (← readVaruint file) ≠ some 0 then throw .invalidHeaderFlags
  else
    modify fun st => { st with start := st.pos }
    maybeProcessIndex file

/-! ### Items -/

/-- `items`: the context of an item range. -/
def itemRangeContext (options : ItemsOptions) (st : State) : ItemRangeContext :=
  { unknownNames := options.records.filter fun name => !st.nameToRecord.contains name
    ids := options.records.filterMap fun name =>
      (st.nameToRecord.get? name).map Record.identifier
    options }

/-- The loop over the iterators of an item range, of at most the given number of passes. -/
def iterate : ℕ → ℤ → Filter → M (List Item)
  | 0, _, _ => throw .outOfFuel
  | n + 1, index, filter => do
    if index = -1 then return []
    else
      -- `operator*`
      let item ← read file options rawUncompress index
      -- `operator++`: the first call finds the item that the iterator is at
      let ((_, after), filter) ← readUntil file index filter
      let ((advanced, _), filter) ← readUntil file after filter
      let items ← iterate n advanced filter
      return item :: items

/-- The items of `items()`, in the order of a loop over it. -/
def items (itemsOptions : ItemsOptions) : M (List Item) := do
  let st ← get
  let context := itemRangeContext itemsOptions st
  let start := if itemsOptions.start < 0 then st.start else itemsOptions.start
  let ((first, _), filter) ← readUntil file start (.range context)
  iterate file options rawUncompress (file.length + 1) first filter

end Mjlib.Telemetry.FileReader
