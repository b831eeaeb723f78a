import Mjlib.Telemetry.Equiv.FileWriter.Blocks

/-!
# When the header of a data block fits the padding

`WriteData` composes the header of a data block in the `kBufferStartPadding` bytes in front of its
body.  The header has three numbers of variable size: the identifier, the offset of the previous
block and the size of the body, which counts the other two.  `HasRoom` says for which of them the
header fits, by their numbers of digits in base 128; where it does not, the writer ends the process
(`writeData_eq_none`).
-/

namespace Mjlib.Telemetry.FileWriter

open Base

/-- The header of a data block is composed in the padding, and its size field counts what follows
it. -/
structure HeaderFits (fields : DataFields) (data : Bytes) : Prop where
  length_le : (fields.header data).length ≤ kBufferStartPadding
  size_eq : ∃ size rest, dataBlock fields data =
      writeVaruint Format.BlockType.kData.toUInt64 ++ writeVaruint size ++ rest ∧
    size.toNat = rest.length

/-- The bytes of a header whose number does not depend on the numbers in it, less the type. -/
def fixedSize (timestamp checksum : Bool) : ℕ :=
  1 + (if timestamp then 8 else 0) + (if checksum then 4 else 0)

/-- With at most `a` digits for the identifier, `b` for the previous offset, where there is one, and
`c` for the size of the body, the padding is enough. -/
def HasRoom (identifier : UInt64) (previousOffset : Option UInt64) (timestamp checksum : Bool)
    (dataSize : ℕ) : Prop :=
  ∃ a b c, 0 < a ∧ identifier.toNat < 128 ^ a ∧
    (∀ offset ∈ previousOffset, 0 < b ∧ offset.toNat < 128 ^ b) ∧
    0 < c ∧ a + b + fixedSize timestamp checksum + dataSize < 128 ^ c ∧
    1 + a + b + c + fixedSize timestamp checksum ≤ kBufferStartPadding

namespace DataFields

variable (fields : DataFields)

theorem getVaruintSize_flags : Format.getVaruintSize fields.flags = 1 := by
  have hlt : fields.flags.toNat < 128 ^ 1 := by
    obtain ⟨_, previousOffset, timestamp, checksum, snappy⟩ := fields
    cases previousOffset <;> cases timestamp <;> cases checksum <;> cases snappy <;>
      simp only [flags, Option.isSome_none, Option.isSome_some, if_true, Bool.false_eq_true,
        if_false] <;> decide
  exact le_antisymm ((getVaruintSize_le_iff one_pos).mpr hlt) (getVaruintSize_pos _)

/-- The size of the previous offset in a header. -/
def offsetSize : ℕ := fields.previousOffset.elim 0 Format.getVaruintSize

theorem bodySize_eq (dataSize : ℕ) : fields.bodySize dataSize =
    Format.getVaruintSize fields.identifier + fields.offsetSize +
      fixedSize fields.timestamp.isSome fields.checksum + dataSize := by
  rw [bodySize, flagHeaderSize, getVaruintSize_flags, offsetSize, fixedSize]
  omega

theorem headerSize_eq (dataSize : ℕ) : fields.headerSize dataSize =
    1 + Format.getVaruintSize fields.identifier + fields.offsetSize +
      Format.getVaruintSize (UInt64.ofNat (fields.bodySize dataSize)) +
      fixedSize fields.timestamp.isSome fields.checksum := by
  rw [headerSize, flagHeaderSize, getVaruintSize_flags, offsetSize, fixedSize]
  omega

theorem offsetSize_le : fields.offsetSize ≤ 10 := by
  unfold offsetSize
  cases fields.previousOffset with
  | none => exact Nat.zero_le _
  | some offset => exact getVaruintSize_le offset

/-- The previous offset has at most `b` digits, if the header has `b` bytes for it. -/
theorem offsetSize_le_iff (b : ℕ) : fields.offsetSize ≤ b ↔
    ∀ offset ∈ fields.previousOffset, 0 < b ∧ offset.toNat < 128 ^ b := by
  unfold offsetSize
  cases fields.previousOffset with
  | none => simp
  | some offset =>
    simp only [Option.elim_some, Option.mem_def, Option.some.injEq, forall_eq']
    constructor
    · intro h
      have hb := (getVaruintSize_pos offset).trans_le h
      exact ⟨hb, (getVaruintSize_le_iff hb).mp h⟩
    · rintro ⟨hb, h⟩
      exact (getVaruintSize_le_iff hb).mpr h

/-- The body of a data block is a little larger than its data. -/
theorem bodySize_lt {dataSize : ℕ} (hsize : dataSize < 2 ^ 63) :
    fields.bodySize dataSize < 2 ^ 64 := by
  have hid := getVaruintSize_le fields.identifier
  have hoffset := fields.offsetSize_le
  have hfixed : fixedSize fields.timestamp.isSome fields.checksum ≤ 13 := by
    unfold fixedSize
    split_ifs <;> omega
  rw [bodySize_eq]
  omega

/-- The size of the body has at most `c` digits, if the header has `c` bytes for it. -/
theorem getVaruintSize_bodySize_le_iff {dataSize c : ℕ} (hsize : dataSize < 2 ^ 63) (hc : 0 < c) :
    Format.getVaruintSize (UInt64.ofNat (fields.bodySize dataSize)) ≤ c ↔
      fields.bodySize dataSize < 128 ^ c := by
  rw [getVaruintSize_le_iff hc, UInt64.toNat_ofNat', Nat.mod_eq_of_lt (fields.bodySize_lt hsize)]

/-- `HasRoom` says that the header is not larger than the padding. -/
theorem headerSize_le_iff {dataSize : ℕ} (hsize : dataSize < 2 ^ 63) :
    fields.headerSize dataSize ≤ kBufferStartPadding ↔
      HasRoom fields.identifier fields.previousOffset fields.timestamp.isSome fields.checksum
        dataSize := by
  rw [headerSize_eq]
  constructor
  · intro h
    -- the bytes that the header really has are numbers of digits that do
    refine ⟨Format.getVaruintSize fields.identifier, fields.offsetSize,
      Format.getVaruintSize (UInt64.ofNat (fields.bodySize dataSize)), getVaruintSize_pos _,
      (getVaruintSize_le_iff (getVaruintSize_pos _)).mp le_rfl,
      (fields.offsetSize_le_iff _).mp le_rfl, getVaruintSize_pos _, ?_, h⟩
    rw [← bodySize_eq]
    exact (fields.getVaruintSize_bodySize_le_iff hsize (getVaruintSize_pos _)).mp le_rfl
  · rintro ⟨a, b, c, ha, hid, hoffset, hc, hbody, hroom⟩
    -- each varuint is no longer than the digits that were allowed for it
    have hida := (getVaruintSize_le_iff ha).mpr hid
    have hoffsetb := (fields.offsetSize_le_iff b).mpr hoffset
    have hbodyc : fields.bodySize dataSize < 128 ^ c := by
      rw [bodySize_eq]
      omega
    have hsizec := (fields.getVaruintSize_bodySize_le_iff hsize hc).mpr hbodyc
    omega

end DataFields

/-- The size field of a data block counts the bytes that follow it. -/
theorem dataBlock_size_eq (fields : DataFields) {data : Bytes} (hsize : data.length < 2 ^ 63) :
    ∃ size rest, dataBlock fields data =
        writeVaruint Format.BlockType.kData.toUInt64 ++ writeVaruint size ++ rest ∧
      size.toNat = rest.length := by
  refine ⟨_, _, dataBlock_eq fields data, ?_⟩
  rw [List.length_append, DataFields.length_bodyStart, UInt64.toNat_ofNat',
    Nat.mod_eq_of_lt (fields.bodySize_lt hsize)]

theorem headerFits_iff_hasRoom (fields : DataFields) {data : Bytes} (hsize : data.length < 2 ^ 63) :
    HeaderFits fields data ↔
      HasRoom fields.identifier fields.previousOffset fields.timestamp.isSome fields.checksum
        data.length := by
  rw [← fields.headerSize_le_iff hsize, ← length_header]
  exact ⟨fun h => h.length_le, fun h => ⟨h, dataBlock_size_eq fields hsize⟩⟩

theorem length_storedData_le (platform : Platform) (compression : Bool) (data : Bytes) :
    (storedData platform
      (compression && decide ((platform.rawCompress data).length < data.length)) data).length
      ≤ data.length := by
  unfold storedData
  split_ifs with h
  · rw [Bool.and_eq_true, decide_eq_true_eq] at h
    exact h.2.le
  · exact le_rfl

/-! ### The blocks of `WriteData` -/

section

variable (platform : Platform) (options : Options) (s : State) (writer : ThreadWriter)
  (timestamp : Ptime) (identifier : UInt64) (serializedData : Bytes) (writeFlags : WriteFlags)
  (now : Ptime)

theorem isSome_dataFields_timestamp :
    (dataFields platform options s writer timestamp identifier serializedData writeFlags
      now).timestamp.isSome = (decide (timestamp ≠ .notADateTime) || options.timestampsSystem) := by
  show (if timestamp ≠ .notADateTime then some timestamp
    else if options.timestampsSystem then some now else none).isSome = _
  split_ifs with h hsystem
  · simp [h]
  · simp [hsystem]
  · simp [h, hsystem]

/-- Where the header of the data block does not fit the padding, `WriteData` ends the process. -/
theorem writeData_eq_none (hw : s.writer = some writer)
    (h : ¬ HeaderFits (dataFields platform options s writer timestamp identifier serializedData
        writeFlags now)
      (storedData platform (dataFields platform options s writer timestamp identifier
        serializedData writeFlags now).snappy serializedData))
    (hsize : serializedData.length < 2 ^ 63) :
    s.writeData platform options timestamp identifier serializedData writeFlags now = none := by
  have hstored := (length_storedData_le platform
    (writeFlags.compression.evaluate options.defaultCompression) serializedData).trans_lt hsize
  obtain ⟨_, identifierMap, reverseIdentifierMap, nextId, schema, lastSeekBlock, closed⟩ := s
  subst hw
  unfold State.writeData
  dsimp only
  rw [maybeCompress_eq]
  dsimp only
  refine Option.bind_eq_none_iff.mpr fun buffer hbuffer => absurd ?_ h
  rw [Buffer.prepend, size_getBuffer_write, view_getBuffer_write] at hbuffer
  have hfits := (Option.ite_none_right_eq_some.mp hbuffer).1
  exact ⟨hfits.2.trans hfits.1, dataBlock_size_eq _ hstored⟩

/-- The header of a data block fits the padding if the digits of its numbers leave room. -/
theorem headerFits_iff (hsize : serializedData.length < 2 ^ 63) :
    HeaderFits (dataFields platform options s writer timestamp identifier serializedData writeFlags
        now)
      (storedData platform (dataFields platform options s writer timestamp identifier
        serializedData writeFlags now).snappy serializedData) ↔
    HasRoom identifier
      (if options.writePreviousOffsets then some (s.getPreviousOffset writer identifier) else none)
      (decide (timestamp ≠ .notADateTime) || options.timestampsSystem)
      (writeFlags.checksum.evaluate options.defaultChecksumData)
      (storedData platform (dataFields platform options s writer timestamp identifier
        serializedData writeFlags now).snappy serializedData).length := by
  have hstored := (length_storedData_le platform
    (writeFlags.compression.evaluate options.defaultCompression) serializedData).trans_lt hsize
  rw [← isSome_dataFields_timestamp platform options s writer timestamp identifier serializedData
    writeFlags now]
  exact headerFits_iff_hasRoom _ hstored

end

/-- A first block of three bytes. -/
theorem headerFits_iff_first : ([1, 2, 3] : Bytes).length < 2 ^ 63 ∧
    (HeaderFits (dataFields ⟨id, 0⟩ {} { writer := some .empty } .empty .notADateTime 1 [1, 2, 3] {}
        .notADateTime)
      (storedData ⟨id, 0⟩ (dataFields ⟨id, 0⟩ {} { writer := some .empty } .empty .notADateTime 1
        [1, 2, 3] {} .notADateTime).snappy [1, 2, 3]) ↔
    HasRoom 1 (some 0) true true [1, 2, 3].length) :=
  ⟨by decide, headerFits_iff ⟨id, 0⟩ {} { writer := some .empty } .empty .notADateTime 1 [1, 2, 3] {}
    .notADateTime (by decide)⟩

/-! ### A log with a long way back -/

/-- The file of a log that has `n` bytes after its header. -/
def farWriter (n : ℕ) (h : n < 2 ^ 62) : ThreadWriter where
  buffers := [State.fileHeader, List.replicate n 0]
  length_lt := by
    have hheader : State.fileHeader.length = 9 := rfl
    rw [List.flatten_cons, List.flatten_singleton, List.length_append, List.length_replicate]
    omega

/-- The writer of such a log, with data of a reserved identifier right after the header. -/
def farState (writer : ThreadWriter) : State where
  writer := some writer
  identifierMap := (∅ : SortedMap Bytes UInt64).insert [0x61] 0x8000000000000000
  reverseIdentifierMap := (∅ : SortedMap UInt64 Bytes).insert 0x8000000000000000 [0x61]
  schema := (∅ : SortedMap UInt64 SchemaRecord).insert 0x8000000000000000
    { name := [0x61], identifier := 0x8000000000000000, schemaPosition := 0, lastPosition := 9 }

theorem toNat_getPreviousOffset_farState {n : ℕ} (h : n < 2 ^ 62) :
    ((farState (farWriter n h)).getPreviousOffset (farWriter n h) 0x8000000000000000).toNat = n := by
  have hposition : (farWriter n h).position = n + 9 := by
    show (State.fileHeader ++ (List.replicate n (0 : UInt8) ++ [])).length = _
    rw [List.length_append, List.append_nil, List.length_replicate, Nat.add_comm]
    rfl
  rw [State.getPreviousOffset, hposition, farState, SortedMap.get?_insert_self]
  show (State.distance (n + 9) 9).toNat = n
  rw [State.distance, UInt64.ofInt, UInt64.toNat_ofNat']
  omega

theorem lt_of_pow_le_of_lt {n k m : ℕ} (hk : 128 ^ k ≤ n) (hm : n < 128 ^ m) : k < m :=
  (Nat.pow_lt_pow_iff_right (by decide)).mp (hk.trans_lt hm)

/-- The largest identifiers leave no room for five digits of the previous offset and four of the
size. -/
theorem not_hasRoom {identifier offset : UInt64} {dataSize : ℕ}
    (hidentifier : 2 ^ 63 ≤ identifier.toNat) (hoffset : 2 ^ 28 ≤ offset.toNat)
    (hsize : 2 ^ 21 ≤ dataSize) : ¬ HasRoom identifier (some offset) true true dataSize := by
  rintro ⟨a, b, c, -, ha, hb, -, hc, hroom⟩
  -- ten, five and four digits, and the other 14 bytes
  have ha' : 9 < a := lt_of_pow_le_of_lt hidentifier ha
  have hb' : 4 < b := lt_of_pow_le_of_lt hoffset (hb offset rfl).2
  have hc' : 3 < c := lt_of_pow_le_of_lt hsize ((Nat.le_add_left _ _).trans_lt hc)
  rw [show fixedSize true true = 13 from rfl, kBufferStartPadding] at hroom
  omega

/-- Two megabytes under a reserved identifier, with a timestamp and a checksum, after 256 megabytes
of other data: the header has 33 bytes. -/
theorem not_headerFits_farState {n : ℕ} (h : n < 2 ^ 62) (hn : 2 ^ 28 ≤ n) {data : Bytes}
    (hle : 2 ^ 21 ≤ data.length) (hlt : data.length < 2 ^ 63) :
    ¬ HeaderFits (dataFields ⟨id, 0⟩ { defaultCompression := false } (farState (farWriter n h))
      (farWriter n h) .notADateTime 0x8000000000000000 data {} .notADateTime) data := by
  have hidentifier : 2 ^ 63 ≤ (0x8000000000000000 : UInt64).toNat := by decide
  rw [headerFits_iff_hasRoom _ hlt]
  refine not_hasRoom hidentifier ?_ hle
  exact hn.trans_eq (toNat_getPreviousOffset_farState h).symm

/-- The header does not always fit. -/
theorem not_headerFits_far : ¬ ∀ (platform : Platform) (options : Options) (s : State)
    (writer : ThreadWriter) (timestamp : Ptime) (identifier : UInt64) (serializedData : Bytes)
    (writeFlags : WriteFlags) (now : Ptime), s.writer = some writer →
    serializedData.length < 2 ^ 63 →
    HeaderFits (dataFields platform options s writer timestamp identifier serializedData writeFlags
        now)
      (storedData platform (dataFields platform options s writer timestamp identifier
        serializedData writeFlags now).snappy serializedData) := by
  intro h
  have hlen : (List.replicate (2 ^ 21) (0 : UInt8)).length = 2 ^ 21 := List.length_replicate
  have hlt : (List.replicate (2 ^ 21) (0 : UInt8)).length < 2 ^ 63 := by
    rw [hlen]
    decide
  have hfar : 2 ^ 28 < 2 ^ 62 := by decide
  exact not_headerFits_farState hfar le_rfl hlen.ge hlt
    (h ⟨id, 0⟩ { defaultCompression := false } (farState (farWriter (2 ^ 28) hfar))
      (farWriter (2 ^ 28) hfar) .notADateTime 0x8000000000000000 (List.replicate (2 ^ 21) 0) {}
      .notADateTime rfl hlt)

end Mjlib.Telemetry.FileWriter
