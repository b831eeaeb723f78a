import Mjlib.Telemetry.Reader

/-!
# `file_reader.py`

The reader of log files in Python.  A generator is the list of what it yields, with the exception
that ends it, if one does.  The blocks do not depend on what is made of them, so they are a list of
their own.
-/

namespace Mjlib.Telemetry.Reader.FileReader

/-- `_HEADER`. -/
def HEADER : Bytes := ascii "TLOG0003"

/-! `DataFlags`. -/

def previousOffset : ℕ := 1
def timestamp : ℕ := 2
def checksum : ℕ := 4
def snappy : ℕ := 16

/-! `BlockType`. -/

def Schema : ℕ := 1
def Data : ℕ := 2

/-! ### Blocks -/

/-- `FileReader.Block`. -/
structure Block where
  btype : ℕ
  position : ℕ
  data : Bytes
deriving DecidableEq, Repr

/-- The type and the size of a block. -/
def readHead (s : Bytes) : Except Exception (ℕ × ℕ × Bytes) := do
  let (btype, s) ← readVaruint s
  let (blockSize, s) ← readVaruint s
  return (btype, blockSize, s)

/-- The loop of `_read_blocks`, from a position of the file; every block takes some of the file. -/
def readBlocksLoop (file : Bytes) (stop : Option ℕ) : ℕ → ℕ → List Block × Option Exception
  | 0, _ => ([], some .outOfFuel)
  | n + 1, position =>
    if stop.any (· ≤ position) then ([], none)
    else match readHead (file.drop position) with
      | .error .eof => ([], none)
      | .error e => ([], some e)
      | .ok (btype, blockSize, s) =>
        let data := s.take blockSize
        -- an incomplete read is called done
        if data.length ≠ blockSize then ([], none)
        else
          let rest := readBlocksLoop file stop n (file.length - (s.drop blockSize).length)
          ({ btype, position, data } :: rest.1, rest.2)

/-- `_read_blocks`. -/
def readBlocks (file : Bytes) (start stop : Option ℕ) : List Block × Option Exception :=
  let position := match start with
    | some start => if start ≠ 0 then start else HEADER.length
    | none => HEADER.length
  match readVaruint (file.drop position) with
  | .error e => ([], some e)
  | .ok (fileFlags, s) =>
    if fileFlags ≠ 0 then ([], some .assertion)
    else readBlocksLoop file stop (file.length + 1) (file.length - s.length)

/-! ### Schemas and items -/

/-- `FileReader.Schema`. -/
structure SchemaRecord where
  identifier : ℕ
  flags : ℕ
  name : Bytes
  reader : TypeClass
  serializedSchema : Bytes

/-- `FileReader.Item`. -/
structure Item where
  identifier : ℕ
  flags : ℕ
  /-- "A token that can be used as an argument to 'start' or 'end'". -/
  position : Option ℕ := none
  timestamp : Option ℤ := none
  data : Value
  serializedData : Bytes
  schema : SchemaRecord

/-- `_records`, with what was set last in front. -/
abbrev Records := List (ℕ × SchemaRecord)

variable (lib : Names) (uncompress : Bytes → Option Bytes)

/-- `_parse_schema`. -/
def parseSchema (blockData : Bytes) : Except Exception SchemaRecord := do
  let (identifier, s) ← readVaruint blockData
  let (flags, s) ← readVaruint s
  if flags ≠ 0 then throw .assertion
  let (name, s) ← readString s
  let reader ← ofSchema lib s
  return { identifier, flags, name, reader, serializedSchema := s }

/-- A part of the data block that is there if its flag is set, and the flags without it. -/
def optional {α : Type} (flag flags : ℕ) (read : Bytes → Except Exception (α × Bytes)) (s : Bytes) :
    Except Exception (Option α × ℕ × Bytes) :=
  if flags &&& flag ≠ 0 then do
    let (x, s) ← read s
    return (some x, flags ^^^ flag, s)
  else return (none, flags, s)

/-- The data, uncompressed if their flag is set, and the flags without it. -/
def uncompressed (flags : ℕ) (s : Bytes) : Except Exception (Bytes × ℕ) :=
  if flags &&& snappy ≠ 0 then
    match uncompress s with
    | some data => .ok (data, flags ^^^ snappy)
    | none => .error .uncompress
  else .ok (s, flags)

/-- `_parse_data`; nothing for what is not asked for, or has no schema. -/
def parseData (records : Records) (idSet : Option (List ℕ)) (blockData : Bytes) :
    Except Exception (Option Item) := do
  let (identifier, s) ← readVaruint blockData
  if idSet.any (identifier ∉ ·) then return none
  let (itemFlags, s) ← readVaruint s
  match records.lookup identifier with
  | none => return none
  | some schema =>
    let (_, flags, s) ← optional previousOffset itemFlags readVaruint s
    let (time, flags, s) ← optional timestamp flags (readSigned 8) s
    let (_checksum, flags, s) ← optional checksum flags (readUnsigned 4) s
    let (serializedData, flags) ← uncompressed uncompress flags s
    let (data, _) ← schema.reader.read serializedData
    if flags ≠ 0 then throw .assertion
    return some { identifier, flags := itemFlags, timestamp := time, data, serializedData, schema }

/-- What an iteration has come to: the items, each with the position of its block, the exception that
ended it, if one did, and `_records`. -/
structure Iteration where
  items : List (ℕ × Item) := []
  raised : Option Exception := none
  records : Records

/-- The loop of `items` over the blocks, which end with an exception or without one. -/
def itemsLoop (names : List Bytes) (raised : Option Exception) :
    Records → Option (List ℕ) → List Block → Iteration
  | records, _, [] => { raised, records }
  | records, idSet, block :: blocks =>
    if block.btype = Schema then
      match parseSchema lib block.data with
      | .error e => { raised := some e, records }
      | .ok record =>
        itemsLoop names raised ((record.identifier, record) :: records)
          (if record.name ∈ names then idSet.map (record.identifier :: ·) else idSet) blocks
    else if block.btype = Data then
      match parseData uncompress records idSet block.data with
      | .error e => { raised := some e, records }
      | .ok none => itemsLoop names raised records idSet blocks
      | .ok (some item) =>
        let rest := itemsLoop names raised records idSet blocks
        { rest with items := (block.position, item) :: rest.items }
    else itemsLoop names raised records idSet blocks

/-- `items`, of a reader that has come to know `records`. -/
def items (file : Bytes) (records : Records) (names : List Bytes) (start stop : Option ℕ) :
    Iteration :=
  let blocks := readBlocks file start stop
  itemsLoop lib uncompress names blocks.2 records (if names.isEmpty then none else some []) blocks.1

end Mjlib.Telemetry.Reader.FileReader
