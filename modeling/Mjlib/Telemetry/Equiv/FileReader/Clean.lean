import Mjlib.Lib.Precondition
import Mjlib.Telemetry.FileReaderSeek

/-!
# Files that the reader copes with

What must not be in a file for `FileReader` to end well on it, with what was asked for or with an
exception: `Clean`, which goes over the blocks of the file as the reader comes to them.  A predicate
`At…` looks at what is at a place of the file; what has to be true behind it is given to it as `P`.
-/

namespace Mjlib.Telemetry

/-- The failures that are exceptions; all others are assertions, exceptions out of a destructor,
steps that C++ leaves undefined, or no end at all. -/
def Error.IsException : Error → Prop
  | .assertion | .terminated | .pastTheEnd | .negativeSize | .undefinedTime | .outOfFuel => False
  | _ => True

namespace FileReader

open Base

variable (file : Bytes) (options : Options) (rawUncompress : RawUncompress)

/-! ### Places -/

/-- A place in a block: a position of the file, and how much of the block is left there. -/
structure Place where
  pos : ℕ
  left : ℤ

namespace Place

/-- The place after so many bytes have been read of so many that were asked for. -/
def after (pl : Place) (there asked : ℕ) : Place := ⟨pl.pos + there, pl.left - asked⟩

/-- The position behind the block. -/
def stop (pl : Place) : ℕ := pl.pos + pl.left.toNat

/-- What is left of the block can be stepped over: it ends below 2^63. -/
def Closes (pl : Place) : Prop := 0 < pl.left → pl.pos + pl.left < 2 ^ 63

end Place

/-- A number in a block, or none where the file ends in it, which is noticed one byte later.  All of
it is in the block. -/
def AtVaruint (P : Option UInt64 → Place → Prop) (pl : Place) : Prop :=
  let s := file.drop pl.pos
  let v := (Telemetry.readVaruint s).1
  let there := s.length - (Telemetry.readVaruint s).2.length
  let asked := there + if v.isSome then 0 else 1
  asked ≤ pl.left ∧ P v (pl.after there asked)

/-- A number that has to be there. -/
def AtNumber (thrown : Place → Prop) (P : UInt64 → Place → Prop) : Place → Prop :=
  AtVaruint file fun v pl =>
    match v with
    | some x => P x pl
    | none => thrown pl

/-- So many bytes of the block, or as many as the file has. -/
def AtBytes (size : ℕ) (P : Bytes → Place → Prop) (pl : Place) : Prop :=
  let data := (file.drop pl.pos).take size
  size ≤ pl.left ∧ P data (pl.after data.length size)

/-- A string that has to be there.  It is not too long. -/
def AtString (thrown : Place → Prop) (P : Bytes → Place → Prop) : Place → Prop :=
  AtNumber file thrown fun size pl =>
    size.toNat ≤ Format.kMaxStringSize ∧
      AtBytes file size.toNat
        (fun data pl => if data.length = size.toNat then P data pl else thrown pl) pl

/-- The rest of the block, with zeros for what the file lacks. -/
def AtRemaining (thrown : Place → Prop) (P : Bytes → Place → Prop) (pl : Place) : Prop :=
  if pl.left < 0 then thrown pl
  else AtBytes file pl.left.toNat
    (fun data pl' => P (data ++ List.replicate (pl.left.toNat - data.length) 0) pl') pl

/-! ### Blocks -/

/-- A schema block, with the identifiers that are known before it and after it. -/
def AtSchema (known : List UInt64) (P : UInt64 → List UInt64 → Place → Prop) : Place → Prop :=
  AtNumber file Place.Closes fun identifier pl =>
    if identifier ∈ known then P identifier known pl
    else AtNumber file Place.Closes (fun flags pl =>
      if flags ≠ 0 then pl.Closes
      else AtString file Place.Closes (fun name pl =>
        AtRemaining file Place.Closes (fun rawSchema pl =>
          (∀ e, BinarySchemaParser.parse rawSchema name = .error e → e.IsException) ∧
            ((∃ root, BinarySchemaParser.parse rawSchema name = .ok root) →
              P identifier (identifier :: known) pl)) pl) pl) pl

/-- A block of a type, with the identifiers that are known after it and the position behind it. -/
def AtBlock (known : List UInt64) (type : Format.BlockType) (P : List UInt64 → ℕ → Prop) :
    Place → Prop :=
  match type with
  | .kData => AtNumber file Place.Closes fun _ pl => pl.Closes ∧ P known pl.stop
  | .kSchema => AtSchema file known fun _ known pl => pl.Closes ∧ P known pl.stop
  | .kIndex | .kCompressionDictionary | .kSeekMarker => fun pl => pl.Closes ∧ P known pl.stop

/-- A position of the file: the file ends, or something throws, or there is a block of a type. -/
def AtHeader (ends : Prop) (P : Format.BlockType → Place → Prop) (pos : ℕ) : Prop :=
  match Telemetry.readVaruint (file.drop pos) with
  | (none, _) => ends
  | (some type, s) =>
    ∀ blockType size s', Format.BlockType.ofUInt64 type = some blockType →
      Telemetry.readVaruint s = (some size, s') →
      P blockType ⟨pos + ((file.drop pos).length - s'.length), streamsize size⟩

/-- The blocks from a position on, at most so many. -/
def CleanBlocks (ends : List UInt64 → Prop) : ℕ → List UInt64 → ℕ → Prop
  | 0, _, _ => True
  | n + 1, known, pos =>
    AtHeader file (ends known) (fun type => AtBlock file known type (CleanBlocks ends n)) pos

/-! ### Items -/

/-- The previous offset of a data block. -/
def AtPreviousOffset (present : Bool) (P : Place → Prop) (pl : Place) : Prop :=
  if present then AtVaruint file (fun _ => P) pl else P pl

/-- The timestamp of a data block is one that `ptime` has. -/
def AtTimestamp (present : Bool) (P : Place → Prop) (pl : Place) : Prop :=
  if present then
    8 ≤ pl.left ∧ ∀ data, (Telemetry.readScalar 8 (file.drop pl.pos)).1 = some data →
      (convertEpochMicrosecondsToPtime data).isSome ∧ P (pl.after 8 8)
  else P pl

/-- The CRC of a data block. -/
def AtChecksum (present : Bool) (P : Option (BitVec 32) → Place → Prop) (pl : Place) : Prop :=
  if present then
    ∀ checksum, (Telemetry.readScalar 4 (file.drop pl.pos)).1 = some checksum →
      P (some checksum) (pl.after 4 4)
  else P none pl

/-- What the CRC is over: the block from its first byte to its last that the file has, with zeros
where it has its own CRC, if it has one. -/
def checked (pos crcPos : ℕ) (data : Bytes) : Bytes :=
  (file.drop pos).take (crcPos - pos) ++ [0, 0, 0, 0] ++ data

/-- The data of an item can be had: the rest of the block, whose CRC is right. -/
def HasData (pos : ℕ) (snappy : Bool) (checksum : Option (BitVec 32)) (pl : Place) : Prop :=
  let data := (file.drop pl.pos).take pl.left.toNat
  (snappy → (rawUncompress (data ++ List.replicate (pl.left.toNat - data.length) 0)).isSome) ∧
    ∀ crc, checksum = some crc → options.verifyChecksums →
      crc = crc32 (checked file pos (pl.pos - 4) data)

/-- The data block at a position, as `Read` takes it; `P` is for what comes after the item, if
nothing throws. -/
def AtItem (known : List UInt64) (pos : ℕ) (P : Prop) : Place → Prop :=
  AtNumber file (fun _ => True) fun identifier =>
    AtNumber file (fun _ => True) fun flags =>
      let (hasOffset, unknown) := checkFlags flags Format.kPreviousOffset
      let (hasTimestamp, unknown) := checkFlags unknown Format.kTimestamp
      let (hasChecksum, unknown) := checkFlags unknown Format.kChecksum
      let (snappy, unknown) := checkFlags unknown Format.kSnappy
      AtPreviousOffset file hasOffset <| AtTimestamp file hasTimestamp <|
        AtChecksum file hasChecksum fun checksum pl =>
          unknown = 0 → 0 ≤ pl.left → HasData file options rawUncompress pos snappy checksum pl →
            identifier ∈ known → P

/-- The items from a position on, in at most so many blocks. -/
def CleanItems : ℕ → List UInt64 → ℕ → Prop
  | 0, _, _ => True
  | n + 1, known, pos =>
    AtHeader file True (fun type pl => AtBlock file known type (fun known next =>
      match type with
      | .kData => AtItem file options rawUncompress known pos (CleanItems n known next) pl
      | _ => CleanItems n known next) pl) pos

/-! ### Files -/

/-- A number outside of a block. -/
def AtFileNumber (P : UInt64 → ℕ → Prop) (pos : ℕ) : Prop :=
  ∀ x s, Telemetry.readVaruint (file.drop pos) = (some x, s) →
    P x (pos + ((file.drop pos).length - s.length))

/-- The records of an index. -/
def localRecords : ℕ → Bytes → Option (List LocalRecord)
  | 0, _ => some []
  | n + 1, s => do
    let identifier ← (Telemetry.readVaruint s).1
    let s := (Telemetry.readVaruint s).2
    let schemaLocation ← (Telemetry.readScalar 8 s).1
    let s := s.drop 8
    let finalRecord ← (Telemetry.readScalar 8 s).1
    let rest ← localRecords n (s.drop 8)
    return { identifier, schemaLocation := schemaLocation.toInt, finalRecord := finalRecord.toInt }
      :: rest

/-- The schemas that the records of an index point at are theirs. -/
def CleanRecords (P : List UInt64 → Prop) : List UInt64 → List LocalRecord → Prop
  | known, [] => P known
  | known, localRecord :: localRecords =>
    0 ≤ localRecord.schemaLocation →
      AtHeader file True (fun _ => AtSchema file known fun identifier known pl =>
        identifier = localRecord.identifier ∧ pl.Closes ∧ CleanRecords P known localRecords)
      localRecord.schemaLocation.toNat

/-- The end of a file whose blocks start at a position: it is an index, with the identifiers that
are known by it, or none. -/
def AtTrailer (start : ℕ) (P : List UInt64 → Bool → Prop) : Prop :=
  if (file.drop (file.length - 8)).take 8 ≠ Format.kIndexTrailer then P [] false
  else 12 ≤ file.length → ∀ size,
    (Telemetry.readScalar 4 (file.drop (file.length - 12))).1 = some size →
    if file.length ≤ start + size.toNat then P [] false
    else AtHeader file (P [] false) (fun type pl =>
      if type = .kIndex then
        AtFileNumber file (fun flags pos => flags = 0 → AtFileNumber file (fun nelements pos =>
          ∀ l, localRecords nelements.toNat (file.drop pos) = some l →
            CleanRecords file (P · true) [] l) pos) pl.pos
      else P [] false) (file.length - size.toNat)

/-- **A file that the reader copes with**, from its header on: the index, if it has one, and the
items; and without an index all blocks, and the items with all records known. -/
def Clean : Prop :=
  file.take 8 = Format.kHeader → AtFileNumber file (fun flags start => flags = 0 →
    AtTrailer file start fun known indexed =>
      CleanItems file options rawUncompress (file.length + 1) known start ∧
        (indexed = false → CleanBlocks file
          (fun known => CleanItems file options rawUncompress (file.length + 1) known start)
          (file.length + 1) known start)) 8

end FileReader

end Mjlib.Telemetry
