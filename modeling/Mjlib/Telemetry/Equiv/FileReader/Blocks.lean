import Mjlib.Telemetry.Equiv.FileReader.Streams

/-!
# Reading the blocks of a log file

`readHeader_of_rest` reads the header of a block, `processSchema_known` and `processSchema_new` read
a schema block and `read_eq` reads a data block: it returns the item that was written, and the
CRC that it computes is the one in the block.
-/

namespace Mjlib.Telemetry.FileReader

open Base FileWriter

variable {file : Bytes} {st : State}

/-- What comes before the body of a block. -/
def blockHead (blockType : Format.BlockType) (n : ℕ) : Bytes :=
  writeVaruint blockType.toUInt64 ++ writeVaruint (UInt64.ofNat n)

theorem block_eq (blockType : Format.BlockType) (body : Bytes) :
    block blockType body = blockHead blockType body.length ++ body := rfl

/-- The header of a block. -/
theorem readHeader_of_rest {blockType : Format.BlockType} {body s : Bytes} (throwOnError : Bool)
    (h : rest file st = block blockType body ++ s) :
    readHeader file throwOnError st = (.ok (some (blockType, UInt64.ofNat body.length)),
      st.advance (blockHead blockType body.length)) := by
  unfold block at h
  rw [List.append_assoc, List.append_assoc] at h
  unfold readHeader
  rw [bind_ok (readVaruint_of_rest h)]
  dsimp only
  rw [Format.BlockType.ofUInt64_toUInt64]
  dsimp only
  rw [bind_ok (readVaruint_of_rest (rest_advance h)), value_some_bind, advance_advance]
  rfl

/-- The end of the file. -/
theorem readHeader_of_nil (throwOnError : Bool) (h : rest file st = []) :
    readHeader file throwOnError st = (.ok none, st) := by
  unfold readHeader
  rw [bind_ok (readVaruint_of_nil h)]
  rfl

/-! ### Schema blocks -/

/-- The body of a schema block. -/
def schemaBody (identifier : UInt64) (name schema : Bytes) : Bytes :=
  writeVaruint identifier ++ writeVaruint 0 ++ writeString name ++ schema

/-- The schema of an identifier that is known already. -/
theorem processSchema_known {identifier : UInt64} {name schema s : Bytes} {record : Record}
    (filter : Filter) (h : rest file st = schemaBody identifier name schema ++ s)
    (hsize : st.blockSize = (schemaBody identifier name schema).length)
    (hknown : st.idToRecord.get? identifier = some record) :
    processSchema file filter st =
      (.ok (record, filter), st.eat (writeVaruint identifier)) := by
  unfold schemaBody at h hsize
  simp only [List.append_assoc] at h
  simp only [List.length_append, Nat.cast_add] at hsize
  unfold processSchema
  rw [bind_ok (Block.readVaruint_of_rest h (by omega)), value_some_bind, get_bind]
  rw [idToRecord_eat, hknown]
  rfl

/-- The record of a schema block. -/
def schemaRecord (identifier : UInt64) (name schema : Bytes) : Record :=
  { identifier, name, rawSchema := schema, flags := 0 }

/-- The state after the schema of an identifier that was not known. -/
def State.withRecord (st : State) (record : Record) : State :=
  { st with
    records := st.records ++ [record]
    idToRecord := st.idToRecord.insert record.identifier record
    nameToRecord := st.nameToRecord.insert record.name record }

theorem modify_concat (records : List Record) (record : Record) (f : Record → Record) :
    (records ++ [record]).modify ((records ++ [record]).length - 1) f = records ++ [f record] := by
  rw [List.length_append, List.length_singleton, Nat.add_sub_cancel]
  induction records with
  | nil => rfl
  | cons r records ih => rw [List.cons_append, List.length_cons, List.modify_succ_cons, ih]; rfl

/-- The state with other records. -/
def State.withRecords (st : State) (records : List Record) : State := { st with records }

theorem eat_withRecords (records : List Record) (data : Bytes) :
    (st.withRecords records).eat data = (st.eat data).withRecords records := rfl

theorem rest_withRecords (records : List Record) :
    rest file (st.withRecords records) = rest file st := rfl

theorem push_bind {α : Type} (record : Record) (g : PUnit → M α) :
    ((modify fun st => { st with records := st.records ++ [record] } : M PUnit) >>= g) st =
      g ⟨⟩ (st.withRecords (st.records ++ [record])) := rfl

theorem modifyLast_bind {α : Type} {records : List Record} {record : Record}
    (f : Record → Record) (g : PUnit → M α) :
    (modifyLast f >>= g) (st.withRecords (records ++ [record])) =
      g ⟨⟩ (st.withRecords (records ++ [f record])) := by
  unfold modifyLast
  rw [modify_bind, ← modify_concat records record f]
  rfl

/-- The schema of an identifier that was not known. -/
theorem processSchema_new {identifier : UInt64} {name schema s : Bytes} (filter : Filter)
    {root : BinarySchemaParser.Element} (h : rest file st = schemaBody identifier name schema ++ s)
    (hsize : st.blockSize = (schemaBody identifier name schema).length)
    (hnew : st.idToRecord.get? identifier = none)
    (hname : name.length ≤ Format.kMaxStringSize)
    (hschema : BinarySchemaParser.parse schema name = .ok root) :
    processSchema file filter st =
      (.ok (schemaRecord identifier name schema, filter.newSchema identifier name),
        (st.eat (schemaBody identifier name schema)).withRecord
          (schemaRecord identifier name schema)) := by
  unfold schemaBody at h hsize
  simp only [List.append_assoc] at h
  simp only [List.length_append, Nat.cast_add] at hsize
  unfold processSchema
  rw [bind_ok (Block.readVaruint_of_rest h (by omega)), value_some_bind, get_bind, idToRecord_eat,
    hnew]
  dsimp only
  have h₁ := rest_eat h
  have h₂ := rest_eat h₁
  have h₃ := rest_eat h₂
  -- the records change beside the streams
  rw [push_bind, bind_ok (Block.readVaruint_of_rest ((rest_withRecords _).trans h₁)
      (by show _ ≤ (st.eat _).blockSize; rw [blockSize_eat]; omega)),
    value_some_bind, eat_withRecords, modifyLast_bind, if_neg (by simp),
    bind_ok (Block.readString_of_rest ((rest_withRecords _).trans h₂) hname
      (by show _ ≤ ((st.eat _).eat _).blockSize; simp only [blockSize_eat]; omega)),
    value_some_bind, eat_withRecords, modifyLast_bind,
    bind_ok (Block.readRemaining_of_rest ((rest_withRecords _).trans h₃)
      (by show (((st.eat _).eat _).eat _).blockSize = _; simp only [blockSize_eat]; omega)),
    eat_withRecords, modifyLast_bind, hschema]
  dsimp only
  rw [modify_bind, eat_eat, eat_eat, eat_eat]
  unfold schemaBody
  simp only [List.append_assoc]
  rfl

/-! ### Data blocks -/

/-- The flags of a data block are taken off one by one. -/
theorem checkFlags_kPreviousOffset (a b c d : Bool) :
    checkFlags ((if a then Format.kPreviousOffset else 0) ||| (if b then Format.kTimestamp else 0)
      ||| (if c then Format.kChecksum else 0) ||| (if d then Format.kSnappy else 0))
      Format.kPreviousOffset = (a, (if b then Format.kTimestamp else 0) |||
        (if c then Format.kChecksum else 0) ||| (if d then Format.kSnappy else 0)) := by
  cases a <;> cases b <;> cases c <;> cases d <;> rfl

theorem checkFlags_kTimestamp (b c d : Bool) :
    checkFlags ((if b then Format.kTimestamp else 0) ||| (if c then Format.kChecksum else 0) |||
      (if d then Format.kSnappy else 0)) Format.kTimestamp =
        (b, (if c then Format.kChecksum else 0) ||| (if d then Format.kSnappy else 0)) := by
  cases b <;> cases c <;> cases d <;> rfl

theorem checkFlags_kChecksum (c d : Bool) :
    checkFlags ((if c then Format.kChecksum else 0) ||| (if d then Format.kSnappy else 0))
      Format.kChecksum = (c, if d then Format.kSnappy else 0) := by
  cases c <;> cases d <;> rfl

theorem checkFlags_kSnappy (d : Bool) :
    checkFlags (if d then Format.kSnappy else 0) Format.kSnappy = (d, 0) := by
  cases d <;> rfl

theorem skipPreviousOffset_of_rest {s : Bytes} {offset : Option UInt64}
    (h : rest file st = offset.elim [] writeVaruint ++ s)
    (hle : ((offset.elim [] writeVaruint).length : ℤ) ≤ st.blockSize) :
    skipPreviousOffset file offset.isSome st = (.ok ⟨⟩, st.eat (offset.elim [] writeVaruint)) := by
  cases offset with
  | none =>
    show (Except.ok PUnit.unit, st) = (Except.ok PUnit.unit, st.eat [])
    simp [State.eat]
  | some offset =>
    unfold skipPreviousOffset
    rw [Option.isSome_some, if_pos rfl, bind_ok (Block.readVaruint_of_rest h hle)]
    rfl

theorem readTimestamp_of_rest {s : Bytes} {timestamp : Option Ptime}
    (h : rest file st = timestamp.elim [] writeTimestamp ++ s)
    (hle : ((timestamp.elim [] writeTimestamp).length : ℤ) ≤ st.blockSize) :
    readTimestamp file timestamp.isSome st =
      (.ok (timestamp.getD .notADateTime), st.eat (timestamp.elim [] writeTimestamp)) := by
  cases timestamp with
  | none =>
    show (Except.ok Ptime.notADateTime, st) = (Except.ok Ptime.notADateTime, st.eat [])
    simp [State.eat]
  | some timestamp =>
    unfold readTimestamp
    have h' : rest file st = writeScalar 8 (convertPtimeToEpochMicroseconds timestamp) ++ s := h
    rw [Option.elim_some, length_writeTimestamp] at hle
    rw [Option.isSome_some, if_pos rfl, bind_ok (Block.readScalar_of_rest h' hle), value_some_bind,
      convertEpochMicrosecondsToPtime_convert]
    rfl

/-- The CRC field of a data block. -/
def checksumField (checksum : Bool) (crc : BitVec 32) : Bytes :=
  if checksum then writeScalar 4 crc else []

theorem length_checksumField (checksum : Bool) (crc crc' : BitVec 32) :
    (checksumField checksum crc).length = (checksumField checksum crc').length := by
  cases checksum <;> rfl

/-- The CRC is read beside the CRC stream, which sees zeros instead. -/
theorem readChecksum_of_rest {s : Bytes} {checksum : Bool} {crc : BitVec 32}
    (h : rest file st = checksumField checksum crc ++ s) :
    readChecksum file checksum st = (.ok (if checksum then some crc else none),
      st.eat (checksumField checksum 0#32)) ∧
      rest file (st.eat (checksumField checksum 0#32)) = s := by
  cases checksum with
  | false =>
    constructor
    · show (Except.ok none, st) = (Except.ok none, st.eat [])
      simp [State.eat]
    · exact rest_eat h
  | true =>
    have hlen : (writeScalar 4 crc).length = 4 := length_writeScalar 4 crc
    constructor
    · unfold readChecksum
      rw [if_pos rfl, modify_bind, get_bind]
      have hrest : rest file { st with crc := st.crc.map (· ++ [0, 0, 0, 0]) } =
          writeScalar 4 crc ++ s := h
      rw [hrest, readScalar_writeScalar]
      dsimp only
      rw [modify_bind, value_some_bind]
      unfold Block.shrink
      rw [modify_bind, List.length_append, Nat.add_sub_cancel, hlen]
      rfl
    · unfold rest at h ⊢
      rw [pos_eat, ← List.drop_drop, h]
      exact List.drop_left' rfl

theorem uncompress_eq {rawUncompress : RawUncompress} {snappy : Bool} {stored data : Bytes}
    (h : (if snappy then rawUncompress stored else some stored) = some data) :
    uncompress rawUncompress snappy stored st = (.ok data, st) := by
  unfold uncompress
  cases snappy with
  | false =>
    cases h
    rfl
  | true =>
    rw [if_pos rfl] at h ⊢
    rw [h]
    rfl

theorem verifyChecksum_eq {options : Options} {checksum : Bool} {crc : BitVec 32} {data : Bytes}
    (hcrc : st.crc = some data) (h : crc = crc32 data) :
    verifyChecksum options (if checksum then some crc else none) st = (.ok ⟨⟩, st) := by
  unfold verifyChecksum
  rw [get_bind, hcrc]
  cases checksum with
  | false => rfl
  | true =>
    show (if (options.verifyChecksums && crc ≠ crc32 data) = true then _ else _ : M PUnit) st = _
    rw [if_neg (by simp [h])]
    rfl

/-- The item that a data block at an index holds. -/
def itemOf (index : ℤ) (fields : DataFields) (data : Bytes) (record : Record) : Item where
  index
  timestamp := fields.timestamp.getD .notADateTime
  data
  flags := fields.flags
  record

/-- The result for an item: its record has to be known. -/
def withKnown (record : Option Record) (item : Record → Item) : Except Error Item :=
  match record with
  | some record => .ok (item record)
  | none => .error .outOfRange

/-- The body of a data block, with the CRC stream's view of the header before it. -/
theorem readItem_of_rest {options : Options} {rawUncompress : RawUncompress} {fields : DataFields}
    {stored data s head : Bytes} (index : ℤ)
    (h : rest file st = fields.bodyStart (fields.crc stored) ++ stored ++ s)
    (hsize : st.blockSize = (fields.bodyStart (fields.crc stored) ++ stored).length)
    (hcrc : st.crc = some head)
    (hhead : head ++ (fields.bodyStart 0#32 ++ stored) = block .kData (fields.bodyStart 0#32 ++ stored))
    (hdata : (if fields.snappy then rawUncompress stored else some stored) = some data) :
    readItem file options rawUncompress index st =
      (withKnown (st.idToRecord.get? fields.identifier) (itemOf index fields data),
        st.eat (fields.bodyStart 0#32 ++ stored)) := by
  unfold DataFields.bodyStart at h hsize hhead ⊢
  simp only [← checksumField.eq_def] at h hsize hhead ⊢
  simp only [List.append_assoc] at h hsize hhead ⊢
  simp only [List.length_append, Nat.cast_add] at hsize
  have hlen := length_checksumField fields.checksum (fields.crc stored) 0#32
  have h₁ := rest_eat h
  have h₂ := rest_eat h₁
  have h₃ := rest_eat h₂
  have h₄ := rest_eat h₃
  obtain ⟨hchecksum, h₅⟩ := readChecksum_of_rest h₄
  unfold readItem
  rw [bind_ok (Block.readVaruint_of_rest h (by omega)), value_some_bind,
    bind_ok (Block.readVaruint_of_rest h₁ (by rw [blockSize_eat]; omega)), value_some_bind]
  have hflags : fields.flags = (if fields.previousOffset.isSome then Format.kPreviousOffset else 0) |||
    (if fields.timestamp.isSome then Format.kTimestamp else 0) |||
    (if fields.checksum then Format.kChecksum else 0) |||
    (if fields.snappy then Format.kSnappy else 0) := rfl
  rw [hflags, checkFlags_kPreviousOffset]
  dsimp only
  rw [checkFlags_kTimestamp]
  dsimp only
  rw [checkFlags_kChecksum]
  dsimp only
  rw [checkFlags_kSnappy, ← hflags]
  dsimp only
  rw [bind_ok (skipPreviousOffset_of_rest h₂ (by simp only [blockSize_eat]; omega)),
    bind_ok (readTimestamp_of_rest h₃ (by simp only [blockSize_eat]; omega)),
    bind_ok hchecksum, if_neg (by simp),
    bind_ok (Block.readRemaining_of_rest h₅ (by simp only [blockSize_eat]; omega)),
    bind_ok (uncompress_eq hdata)]
  simp only [eat_eat, List.append_assoc]
  rw [bind_ok (verifyChecksum_eq (by rw [crc_eat, hcrc]; rfl) ?_), get_bind, idToRecord_eat]
  · cases st.idToRecord.get? fields.identifier with
    | none => rfl
    | some record => rfl
  · show fields.crc stored = crc32 (head ++ _)
    rw [hhead]
    unfold DataFields.crc DataFields.bodyStart
    simp only [← checksumField.eq_def, List.append_assoc]

/-- **A data block is read as the item that was written**, if its record is known. -/
theorem read_eq {options : Options} {rawUncompress : RawUncompress} {fields : DataFields}
    {stored data s : Bytes} {index : ℕ} (h : file.drop index = dataBlock fields stored ++ s)
    (hlt : (dataBlock fields stored).length < 2 ^ 63)
    (hdata : (if fields.snappy then rawUncompress stored else some stored) = some data) :
    ∃ pos crc blockSize, read file options rawUncompress index st =
      (withKnown (st.idToRecord.get? fields.identifier) (itemOf index fields data),
        { st with pos, crc, blockSize }) := by
  have hlen : ∀ crc, (fields.bodyStart crc ++ stored).length = fields.bodySize stored.length := by
    intro crc
    rw [List.length_append, DataFields.length_bodyStart]
  rw [dataBlock_eq] at h hlt
  have hbody : fields.bodySize stored.length < 2 ^ 63 := by
    rw [block_eq, List.length_append, hlen] at hlt
    omega
  unfold read
  rw [bind_ok (seek_of_nonneg (Int.natCast_nonneg index)), modify_bind, Int.toNat_natCast]
  -- the state at the block, and then at its body
  generalize hst₀ : ({ st with pos := index, crc := some [] } : State) = st₀
  have h₀ : rest file st₀ = block .kData (fields.bodyStart (fields.crc stored) ++ stored) ++ s := by
    rw [← hst₀]
    exact h
  rw [bind_ok (readHeader_of_rest true h₀)]
  dsimp only
  rw [if_neg (by simp), hlen]
  rw [block_eq, List.append_assoc, hlen] at h₀
  generalize hst₁ : ({ st₀.advance (blockHead .kData (fields.bodySize stored.length)) with
    blockSize := streamsize (UInt64.ofNat (fields.bodySize stored.length)) } : State) = st₁
  have hrest : rest file st₁ = fields.bodyStart (fields.crc stored) ++ stored ++ s := by
    rw [← hst₁]
    exact rest_advance h₀
  have hsize : st₁.blockSize = (fields.bodySize stored.length : ℕ) := by
    rw [← hst₁]
    exact Block.streamsize_ofNat hbody
  have hitem : readItem file options rawUncompress index st₁ = _ :=
    readItem_of_rest index hrest (hsize.trans (by rw [hlen])) (by rw [← hst₁, ← hst₀]; rfl)
      (by rw [block_eq, hlen]; rfl) hdata
  have hdestroy : (st₁.eat (fields.bodyStart 0#32 ++ stored)).blockSize ≤ 0 := by
    rw [blockSize_eat, hsize, hlen]
    omega
  have hknown : st₁.idToRecord = st.idToRecord := by
    rw [← hst₁, ← hst₀]
    rfl
  rw [hknown] at hitem
  subst hst₁ hst₀
  cases hrecord : st.idToRecord.get? fields.identifier with
  | some record =>
    rw [hrecord] at hitem
    rw [Block.inScope_of_ok hitem (Block.destroy_of_nonpos hdestroy)]
    exact ⟨_, _, _, rfl⟩
  | none =>
    rw [hrecord] at hitem
    rw [Block.inScope_of_error hitem nofun (Block.destroy_of_nonpos hdestroy)]
    exact ⟨_, _, _, rfl⟩

end Mjlib.Telemetry.FileReader
