import Mjlib.Telemetry.FileReader

/-!
# Scans of a log file

The calls of `telemetry::FileReader` that need all records: `records`, `record` and `final_item`, which
go over the whole file unless an index has told them, and `Seek`.  `Seek` bisects the file by its seek
markers, which it finds by their signature, and goes over the items from the last one at or before the
time on.
-/

namespace Mjlib.Base

/-- `ptime < ptime`: nothing is before or after `not_a_date_time`. -/
def Ptime.lt : Ptime → Ptime → Bool
  | .notADateTime, _ => false
  | _, .notADateTime => false
  | .negInfin, t => t ≠ .negInfin
  | .posInfin, _ => false
  | .finite .., .negInfin => false
  | .finite .., .posInfin => true
  | .finite us _, .finite us' _ => us < us'

/-- `ptime <= ptime`, which boost takes for the negation of `>`. -/
def Ptime.le (t t' : Ptime) : Bool := !t'.lt t

end Mjlib.Base

namespace Mjlib.Telemetry.FileReader

open Base

variable (file : Bytes) (options : Options) (rawUncompress : RawUncompress)

/-! ### All records -/

/-- `FullScan`. -/
def fullScan : M PUnit := do
  let _ ← readUntil file (← get).start .noFilter
  modify fun st => { st with allRecordsFound := true }

/-- `FullScan`, unless all records are known. -/
def findAllRecords : M PUnit := do
  if (← get).allRecordsFound then return ⟨⟩ else fullScan file

/-- `record`. -/
def record (name : Bytes) : M (Option Record) := do
  match (← get).nameToRecord.get? name with
  | some record => return some record
  | none =>
    if (← get).allRecordsFound then return none
    else
      fullScan file
      return (← get).nameToRecord.get? name

/-- `records`. -/
def records : M (List Record) := do
  findAllRecords file
  return (← get).records

/-- `final_item`. -/
def finalItem : M ℤ := do
  findAllRecords file
  return (← get).finalItem

/-! ### Seek markers -/

/-- `SeekResult`, by the identifiers of the records. -/
abbrev SeekResult := SortedMap UInt64 ℤ

/-- `SeekMarkerResult`. -/
structure SeekMarkerResult where
  timestamp : Ptime
  index : ℤ
  seekResult : SeekResult

/-- `std::map::insert`, which leaves an entry that is there. -/
def SeekResult.insertNew (result : SeekResult) (identifier : UInt64) (index : ℤ) : SeekResult :=
  if result.contains identifier then result else result.insert identifier index

/-- The elements of a seek marker. -/
def readElements (possibleStart : ℤ) : ℕ → SeekResult → M SeekResult
  | 0, result => return result
  | n + 1, result => do
    let identifier ← M.value (← Block.readVaruint file)
    let previousOffset ← M.value (← Block.readVaruint file)
    if (← get).idToRecord.contains identifier then
      readElements possibleStart n
        (result.insertNew identifier (BitVec.ofInt 64 (possibleStart - previousOffset.toNat)).toInt)
    else throw .outOfRange

/-- The body of a seek marker; none where it is no marker after all. -/
def readSeekMarker (possibleStart : ℤ) : M (Option SeekMarkerResult) := do
  let _ ← M.value (← Block.readScalar file 8)
  let crc ← readChecksum file true
  let _ ← M.value (← Block.readScalar file 1)
  let flags ← M.value (← Block.readVaruint file)
  if flags ≠ 0 then throw .unknownSeekMarkerFlag
  else
    let timestamp ← readTimestamp file true
    let nelements ← M.value (← Block.readVaruint file)
    let seekResult ← readElements file possibleStart nelements.toNat ∅
    let st ← get
    if st.blockSize ≠ 0 then return none
    else if crc ≠ some (crc32 (st.crc.getD [])) then return none
    else return some { timestamp, index := possibleStart, seekResult }

/-- `EvaluateSeekMarker`, with the file behind the last byte of a signature, which is at an index. -/
def evaluateSeekMarker (index : ℤ) : M (Option SeekMarkerResult) := do
  let _ ← readScalar file 4
  let headerLen ← M.value (← readScalar file 1)
  if headerLen.toNat > 10 then return none
  else
    let possibleStart := index - 7 - headerLen.toNat
    if possibleStart < (← get).start then return none
    else
      seek possibleStart
      modify fun st => { st with crc := some [] }
      match ← readHeader file false with
      | none => return none
      | some (blockType, size) =>
        if blockType ≠ .kSeekMarker then return none
        else Block.inScope file size (readSeekMarker file possibleStart)

/-- `to_match`. -/
def toMatch : Bytes := [0x64, 0x75, 0x86, 0x97, 0xa8, 0xb9, 0xca, 0xfd]

/-- The loop of `FindSeekMarker`, of at most the given number of passes, at an index and with so many
bytes matched. -/
def findSeekMarkerLoop (stopPoint : ℤ) : ℕ → ℤ → ℕ → M (Option SeekMarkerResult)
  | 0, _, _ => throw .outOfFuel
  | n + 1, index, matched => do
    -- at the end of the file nothing is read
    let c := (rest file (← get)).headD 0
    consume file 1
    let matched := if toMatch[matched]? = some c then matched + 1 else 0
    let next (matched : ℕ) : M (Option SeekMarkerResult) :=
      if index + 1 ≥ stopPoint then return none
      else findSeekMarkerLoop stopPoint n (index + 1) matched
    if matched = 8 then
      match ← evaluateSeekMarker file index with
      | some result => return some result
      | none =>
        seek index
        modify fun st => { st with crc := none }
        next 0
    else next matched

/-- `FindSeekMarker`. -/
def findSeekMarker (index stop : ℤ) : M (Option SeekMarkerResult) := do
  seek index
  modify fun st => { st with crc := none }
  findSeekMarkerLoop file (min file.length stop) (file.length + 1) index 0

/-! ### `Seek` -/

/-- `kMinSpacing`. -/
def kMinSpacing : ℤ := 2 ^ 16

/-- The bisection of `Seek`, of at most the given number of passes: the lower end, and what is known
there. -/
def bisect (timestamp : Ptime) : ℕ → ℤ → ℤ → SeekResult → M (ℤ × SeekResult)
  | 0, _, _, _ => throw .outOfFuel
  | n + 1, low, high, result => do
    if high - low > kMinSpacing then
      match ← findSeekMarker file (low + (high - low) / 2) high with
      | none => return (low, result)
      | some found =>
        if found.timestamp.le timestamp then bisect timestamp n found.index high found.seekResult
        else bisect timestamp n low found.index result
    else return (low, result)

/-- The loop of `Seek` over the items, of at most the given number of passes. -/
def scan (timestamp : Ptime) : ℕ → ℤ → Filter → SeekResult → M SeekResult
  | 0, _, _, _ => throw .outOfFuel
  | n + 1, index, filter, result => do
    if index = -1 then return result
    else
      let item ← read file options rawUncompress index
      if item.timestamp = .notADateTime then return result
      else if timestamp.lt item.timestamp then return result
      else
        let currentLast := (result.get? item.record.identifier).getD 0
        let result := result.insert item.record.identifier
          (if item.index > currentLast then item.index else currentLast)
        let ((_, after), filter) ← readUntil file index filter
        let ((advanced, _), filter) ← readUntil file after filter
        scan timestamp n advanced filter result

/-- `Seek`. -/
def seekTo (timestamp : Ptime) : M SeekResult := do
  findAllRecords file
  let st ← get
  let (low, result) ← bisect file timestamp (file.length + 1) st.start st.finalItem ∅
  let itemsOptions : ItemsOptions := { start := low }
  let context := itemRangeContext itemsOptions (← get)
  let start := if itemsOptions.start < 0 then st.start else itemsOptions.start
  let ((first, _), filter) ← readUntil file start (.range context)
  scan file options rawUncompress timestamp (file.length + 1) first filter result

end Mjlib.Telemetry.FileReader
