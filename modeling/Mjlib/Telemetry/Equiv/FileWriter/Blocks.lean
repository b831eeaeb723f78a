import Mjlib.Telemetry.Equiv.Format
import Mjlib.Telemetry.FileWriter

/-!
# What the calls of the log file writer append

Every block that the writer composes in its buffers is one of `schemaBlock`, `dataBlock`,
`seekBlock` and `indexBlock`: a block type, the size of the body, the body.  `writeSchema_eq_some`,
`writeData_eq_some`, `writeIndex_eq_some` and `close_eq_some` say which blocks a call appends to the
file and what becomes of the state; later proofs use these and never look into a call.
-/

namespace Mjlib.Telemetry.FileWriter

open Base

/-! ### Buffers -/

theorem Buffer.data_overwrite {buffer : Buffer} (a : Bytes) {b b' c : Bytes} {offset : ℕ}
    (h : buffer.data = a ++ (b ++ c)) (ha : a.length = offset) (hb : b'.length = b.length) :
    (buffer.overwrite offset b').data = a ++ (b' ++ c) := by
  show buffer.data.take offset ++ b' ++ buffer.data.drop (offset + b'.length) = _
  rw [h, List.take_left' ha, hb, ← ha, ← List.length_append, ← List.append_assoc a,
    List.drop_left' rfl, List.append_assoc]

/-- A header that fits the padding comes right before what the buffer held. -/
theorem Buffer.prepend_eq_some {buffer buffer' : Buffer} {n : ℕ} {header : Bytes}
    (hlen : header.length = n) (hstart : buffer.start ≤ buffer.data.length)
    (h : buffer.prepend n header = some buffer') :
    ∃ padding, buffer'.data = padding ++ (header ++ buffer.view) ∧
      buffer'.start = padding.length ∧ padding.length + n = buffer.start := by
  unfold Buffer.prepend at h
  split_ifs at h with hfits
  cases h
  refine ⟨buffer.data.take (buffer.start - n), ?_, ?_, ?_⟩
  · show buffer.data.take (buffer.start - n) ++ header ++
      buffer.data.drop (buffer.start - n + header.length) = _
    rw [hlen, Nat.sub_add_cancel hfits.1, List.append_assoc, Buffer.view]
  · show buffer.start - n = _
    rw [List.length_take]
    omega
  · rw [List.length_take]
    omega

@[simp] theorem view_getBuffer_write (data : Bytes) : (getBuffer.write data).view = data :=
  List.drop_left' (List.length_replicate ..)

@[simp] theorem size_getBuffer_write (data : Bytes) : (getBuffer.write data).size = data.length := by
  simp [Buffer.size, getBuffer, Buffer.write]

@[simp] theorem start_getBuffer_write (data : Bytes) : (getBuffer.write data).start = 32 := rfl

theorem start_le_getBuffer_write (data : Bytes) :
    (getBuffer.write data).start ≤ (getBuffer.write data).data.length := by
  simp [getBuffer, Buffer.write]

/-! ### Blocks -/

/-- A block: its type, the size of its body and the body. -/
def block (blockType : Format.BlockType) (body : Bytes) : Bytes :=
  writeVaruint blockType.toUInt64 ++ writeVaruint (UInt64.ofNat body.length) ++ body

theorem length_writeVaruint_blockType (blockType : Format.BlockType) :
    (writeVaruint blockType.toUInt64).length = 1 := by
  cases blockType <;> rfl

/-- What `WriteSchema` writes. -/
def schemaBlock (identifier : UInt64) (name schema : Bytes) : Bytes :=
  block .kSchema (writeVaruint identifier ++ writeVaruint 0 ++ writeString name ++ schema)

/-- What `WriteData` writes. -/
def dataBlock (fields : DataFields) (data : Bytes) : Bytes := fields.header data ++ data

/-- What `WriteSeekBlock` writes, after the CRC and the header's size. -/
def seekBlockRest (s : State) (position : ℕ) (timestamp : Ptime) : Bytes :=
  writeVaruint 0 ++ writeTimestamp timestamp ++ writeVaruint (UInt64.ofNat s.withData.length) ++
    s.withData.flatMap fun x =>
      writeVaruint x.1 ++ writeVaruint (State.distance position x.2.lastPosition)

/-- The body of a seek marker with a given CRC. -/
def seekBlockBody (s : State) (position : ℕ) (timestamp : Ptime) (crc : BitVec 32) : Bytes :=
  let rest := seekBlockRest s position timestamp
  writeScalar 8 0xfdcab9a897867564#64 ++ writeScalar 4 crc ++
    writeScalar 1 (BitVec.ofNat 8 (1 + Format.getVaruintSize (UInt64.ofNat (13 + rest.length)))) ++
    rest

/-- The body of a seek marker with its CRC. -/
def sealedBody (s : State) (position : ℕ) (timestamp : Ptime) : Bytes :=
  seekBlockBody s position timestamp
    (crc32 (block .kSeekMarker (seekBlockBody s position timestamp 0#32)))

/-- What `WriteSeekBlock` writes: the CRC is that of the block with zeros in its place. -/
def seekBlock (s : State) (position : ℕ) (timestamp : Ptime) : Bytes :=
  block .kSeekMarker (seekBlockBody s position timestamp
    (crc32 (block .kSeekMarker (seekBlockBody s position timestamp 0#32))))

/-- The body of an index. -/
def indexBody (s : State) : Bytes :=
  s.indexRecords ++ writeScalar 4 (BitVec.ofNat 32 (s.indexRecords.length + 1 +
    Format.getVaruintSize (UInt64.ofNat (s.indexRecords.length + 4 + 8)) + 4 + 8)) ++
    Format.kIndexTrailer

/-- What `WriteIndex` writes. -/
def indexBlock (s : State) : Bytes := block .kIndex (indexBody s)

namespace DataFields

variable (fields : DataFields)

/-- A data block's body, up to the data. -/
def bodyStart (crc : BitVec 32) : Bytes :=
  writeVaruint fields.identifier ++ writeVaruint fields.flags ++
    (fields.previousOffset.elim [] writeVaruint) ++ (fields.timestamp.elim [] writeTimestamp) ++
    if fields.checksum then writeScalar 4 crc else []

theorem length_bodyStart (crc : BitVec 32) (n : ℕ) :
    (fields.bodyStart crc).length + n = fields.bodySize n := by
  have hoffset : (fields.previousOffset.elim [] writeVaruint).length =
      fields.previousOffset.elim 0 Format.getVaruintSize := by
    cases fields.previousOffset with
    | none => rfl
    | some offset => exact length_writeVaruint offset
  have htime : (fields.timestamp.elim [] writeTimestamp).length =
      if fields.timestamp.isSome then 8 else 0 := by
    cases fields.timestamp with
    | none => rfl
    | some timestamp => exact length_writeTimestamp timestamp
  have hcrc : (if fields.checksum then writeScalar 4 crc else []).length =
      if fields.checksum then 4 else 0 := by
    split_ifs
    · exact length_writeScalar 4 crc
    · rfl
  unfold bodyStart bodySize flagHeaderSize
  simp only [List.length_append, hoffset, htime, hcrc, length_writeVaruint]
  omega

/-- The CRC that a data block with a checksum carries. -/
def crc (data : Bytes) : BitVec 32 :=
  crc32 (block .kData (fields.bodyStart 0#32 ++ data))

end DataFields

/-- A data block is laid out like the others. -/
theorem dataBlock_eq (fields : DataFields) (data : Bytes) :
    dataBlock fields data = block .kData (fields.bodyStart (fields.crc data) ++ data) := by
  have hlen : ∀ crc, (fields.bodyStart crc ++ data).length = fields.bodySize data.length := by
    intro crc
    rw [List.length_append, DataFields.length_bodyStart]
  unfold dataBlock DataFields.header DataFields.crc block DataFields.headerStart
  rw [hlen, hlen]
  cases hc : fields.checksum <;>
    simp [DataFields.bodyStart, hc, List.append_assoc]

/-- `header_size` is the size of the header. -/
theorem length_header (fields : DataFields) (data : Bytes) :
    (fields.header data).length = fields.headerSize data.length := by
  have h := congrArg List.length (dataBlock_eq fields data)
  have hlen := fields.length_bodyStart (fields.crc data) data.length
  have htype := length_writeVaruint_blockType .kData
  unfold dataBlock block at h
  rw [List.length_append, List.length_append, @List.length_append _ _ data, hlen] at h
  simp only [List.length_append, length_writeVaruint] at h htype
  unfold DataFields.headerSize
  have hsize : fields.bodySize data.length = Format.getVaruintSize fields.identifier +
    Format.getVaruintSize fields.flags + fields.flagHeaderSize + data.length := rfl
  omega

/-! ### Calls -/

/-- `s'` is `s` with more buffers in the file, if one is open. -/
def Appends (s : State) (buffers : List Bytes) (s' : State) : Prop :=
  match s.writer with
  | none => s' = s
  | some writer => ∃ writer' : ThreadWriter,
      writer'.buffers = writer.buffers ++ buffers ∧ s' = { s with writer := some writer' }

/-- An open file stays open. -/
theorem Appends.exists_writer {s s' : State} {buffers : List Bytes} {writer : ThreadWriter}
    (h : Appends s buffers s') (hw : s.writer = some writer) :
    ∃ writer', s'.writer = some writer' := by
  unfold Appends at h
  rw [hw] at h
  obtain ⟨writer', -, rfl⟩ := h
  exact ⟨writer', rfl⟩

theorem write_eq_some {s s' : State} {buffer : Buffer} (h : s.write buffer = some s') :
    Appends s [buffer.view] s' := by
  unfold State.write at h
  unfold Appends
  cases hw : s.writer with
  | none =>
    rw [hw] at h
    exact (Option.some.inj h).symm
  | some writer =>
    rw [hw] at h
    obtain ⟨writer', hwrite, rfl⟩ := Option.map_eq_some_iff.mp h
    exact ⟨writer', ThreadWriter.write_eq_some hwrite, rfl⟩

/-- The record that `WriteSchema` makes. -/
def State.withSchema (s : State) (identifier : UInt64) (name schema : Bytes) : State :=
  { s with
    schema := s.schema.insert identifier
      { name, identifier, blockSchemaFlags := 0, schema, schemaPosition := s.position } }

/-- **`WriteSchema`** appends a schema block and makes a new record. -/
theorem writeSchema_eq_some {s s' : State} {identifier : UInt64} {schema : Bytes}
    (h : s.writeSchema identifier schema = some s') :
    ∃ name, s.reverseIdentifierMap.get? identifier = some name ∧
      Appends (s.withSchema identifier name schema) [schemaBlock identifier name schema] s' := by
  unfold State.writeSchema at h
  obtain ⟨name, hname, h⟩ := Option.bind_eq_some_iff.mp h
  refine ⟨name, hname, ?_⟩
  have := write_eq_some h
  rw [view_getBuffer_write] at this
  exact this

/-- `WriteBlock` puts the block's header before the buffer. -/
theorem writeBlock_eq_some {s s' : State} {blockType : Format.BlockType} {body : Bytes}
    (h : s.writeBlock blockType (getBuffer.write body) = some s') :
    Appends s [block blockType body] s' := by
  unfold State.writeBlock at h
  cases hw : s.writer with
  | none =>
    rw [hw] at h
    unfold Appends
    rw [hw]
    exact (Option.some.inj h).symm
  | some writer =>
    rw [hw] at h
    obtain ⟨buffer', hprepend, h⟩ := Option.bind_eq_some_iff.mp h
    have hlen : (writeVaruint blockType.toUInt64 ++
        writeVaruint (UInt64.ofNat (getBuffer.write body).size)).length =
          1 + Format.getVaruintSize (UInt64.ofNat (getBuffer.write body).size) := by
      rw [List.length_append, length_writeVaruint_blockType, length_writeVaruint]
    obtain ⟨padding, hdata, hstart, _⟩ :=
      Buffer.prepend_eq_some hlen (start_le_getBuffer_write body) hprepend
    have hview : buffer'.view = block blockType body := by
      rw [Buffer.view, hdata, hstart, List.drop_left' rfl, view_getBuffer_write,
        size_getBuffer_write]
      rfl
    rw [← hview]
    exact write_eq_some h

/-- **`WriteIndex`** appends the index. -/
theorem writeIndex_eq_some {s s' : State} (h : s.writeIndex = some s') :
    Appends s [indexBlock s] s' := by
  unfold State.writeIndex at h
  have hbuffer : ∀ a b c : Bytes, ((getBuffer.write a).write b).write c =
      getBuffer.write (a ++ b ++ c) := by
    intro a b c
    simp [Buffer.write, List.append_assoc]
  simp only [hbuffer, size_getBuffer_write] at h
  exact writeBlock_eq_some h

/-- The last two fields of a seek marker that are written are the header's size and the CRC. -/
theorem view_overwrite_placeholders {buffer : Buffer} {padding header a b c rest b' c' : Bytes}
    (h : buffer.data = padding ++ (header ++ (a ++ (b ++ (c ++ rest)))))
    (hstart : buffer.start = padding.length) (hpad : padding.length + header.length = 32)
    (ha : a.length = 8) (hb : b.length = 4) (hb' : b'.length = 4) (hc : c'.length = c.length) :
    (buffer.overwrite (32 + 8 + 4) c').view = header ++ (a ++ (b ++ (c' ++ rest))) ∧
      ((buffer.overwrite (32 + 8 + 4) c').overwrite (32 + 8) b').view =
        header ++ (a ++ (b' ++ (c' ++ rest))) := by
  have h1 : (buffer.overwrite (32 + 8 + 4) c').data =
      padding ++ (header ++ (a ++ (b ++ (c' ++ rest)))) := by
    have := @Buffer.data_overwrite buffer (padding ++ header ++ a ++ b) c c' rest (32 + 8 + 4)
      (by rw [h]; simp only [List.append_assoc])
      (by simp only [List.length_append]; omega) hc
    simpa only [List.append_assoc] using this
  have h2 : ((buffer.overwrite (32 + 8 + 4) c').overwrite (32 + 8) b').data =
      padding ++ (header ++ (a ++ (b' ++ (c' ++ rest)))) := by
    have := @Buffer.data_overwrite (buffer.overwrite (32 + 8 + 4) c') (padding ++ header ++ a) b b'
      (c' ++ rest) (32 + 8) (by rw [h1]; simp only [List.append_assoc])
      (by simp only [List.length_append]; omega) (hb'.trans hb.symm)
    simpa only [List.append_assoc] using this
  constructor
  · rw [Buffer.view, h1]
    exact List.drop_left' hstart.symm
  · rw [Buffer.view, h2]
    exact List.drop_left' hstart.symm

/-- **`WriteSeekBlock`** appends a seek marker. -/
theorem writeSeekBlock_eq_some {s s' : State} {writer : ThreadWriter} {timestamp : Ptime}
    (hw : s.writer = some writer) (h : s.writeSeekBlock timestamp = some s') :
    Appends s [seekBlock s writer.position timestamp] s' := by
  unfold State.writeSeekBlock at h
  rw [hw] at h
  obtain ⟨buffer, hprepend, h⟩ := Option.bind_eq_some_iff.mp h
  dsimp only at h
  have hbody : s.seekBlockBody writer.position timestamp =
      writeScalar 8 0xfdcab9a897867564#64 ++ (writeScalar 4 0#32 ++ (writeScalar 1 0#8 ++
        seekBlockRest s writer.position timestamp)) := by
    simp [State.seekBlockBody, seekBlockRest, List.append_assoc]
  have hsize : (s.seekBlockBody writer.position timestamp).length =
      13 + (seekBlockRest s writer.position timestamp).length := by
    rw [hbody]
    simp only [List.length_append, length_writeScalar]
    omega
  rw [size_getBuffer_write, hsize] at h hprepend
  rw [start_getBuffer_write] at h
  generalize hheader : writeVaruint Format.BlockType.kSeekMarker.toUInt64 ++ writeVaruint
    (UInt64.ofNat (13 + (seekBlockRest s writer.position timestamp).length)) = header at hprepend
  have hlen : header.length = 1 + Format.getVaruintSize (UInt64.ofNat
      (13 + (seekBlockRest s writer.position timestamp).length)) := by
    rw [← hheader, List.length_append, length_writeVaruint_blockType, length_writeVaruint]
  obtain ⟨padding, hdata, hstart, hpad⟩ :=
    Buffer.prepend_eq_some hlen (start_le_getBuffer_write _) hprepend
  rw [view_getBuffer_write, hbody] at hdata
  rw [start_getBuffer_write, ← hlen] at hpad
  have hblock : ∀ crc, block .kSeekMarker (seekBlockBody s writer.position timestamp crc) =
      header ++ (writeScalar 8 0xfdcab9a897867564#64 ++ (writeScalar 4 crc ++
        (writeScalar 1 (BitVec.ofNat 8 header.length) ++
          seekBlockRest s writer.position timestamp))) := by
    intro crc
    have hl : (seekBlockBody s writer.position timestamp crc).length =
        13 + (seekBlockRest s writer.position timestamp).length := by
      simp only [seekBlockBody, List.length_append, length_writeScalar]
    rw [block, hl, hheader, seekBlockBody, hlen]
    simp only [List.append_assoc]
  rw [← hlen] at h
  have hview := fun crc : BitVec 32 =>
    @view_overwrite_placeholders buffer padding header _ _ _ _ (writeScalar 4 crc)
      (writeScalar 1 (BitVec.ofNat 8 header.length)) hdata hstart hpad (length_writeScalar 8 _)
      (length_writeScalar 4 _) (length_writeScalar 4 _) rfl
  simp only [← hblock] at hview
  have hwrite := write_eq_some h
  rw [(hview _).2] at hwrite
  have hcrc : ((buffer.overwrite (32 + 8 + 4) (writeScalar 1 (BitVec.ofNat 8 header.length))).data.drop
      (buffer.overwrite (32 + 8 + 4) (writeScalar 1 (BitVec.ofNat 8 header.length))).start).take
        (header.length + (13 + (seekBlockRest s writer.position timestamp).length)) =
      block .kSeekMarker (seekBlockBody s writer.position timestamp 0#32) := by
    show (Buffer.view _).take _ = _
    rw [(hview 0#32).1]
    refine List.take_of_length_le ?_
    rw [hblock]
    simp only [List.length_append, length_writeScalar]
    omega
  rw [hcrc] at hwrite
  exact hwrite

/-! ### Data -/

/-- The fields of the data block that `WriteData` writes. -/
def dataFields (platform : Platform) (options : Options) (s : State) (writer : ThreadWriter)
    (timestamp : Ptime) (identifier : UInt64) (serializedData : Bytes) (writeFlags : WriteFlags)
    (now : Ptime) : DataFields where
  identifier
  previousOffset :=
    if options.writePreviousOffsets then some (s.getPreviousOffset writer identifier) else none
  timestamp :=
    if timestamp ≠ .notADateTime then some timestamp
    else if options.timestampsSystem then some now else none
  checksum := writeFlags.checksum.evaluate options.defaultChecksumData
  snappy := writeFlags.compression.evaluate options.defaultCompression &&
    decide ((platform.rawCompress serializedData).length < serializedData.length)

/-- The data as it is stored. -/
def storedData (platform : Platform) (snappy : Bool) (serializedData : Bytes) : Bytes :=
  if snappy then platform.rawCompress serializedData else serializedData

/-- Compression is used where it makes the data smaller. -/
theorem maybeCompress_eq (platform : Platform) (compression : Bool) (data : Bytes) :
    (if compression then State.compress platform (getBuffer.write data)
      else (false, getBuffer.write data)) =
      (compression && decide ((platform.rawCompress data).length < data.length),
        getBuffer.write (storedData platform
          (compression && decide ((platform.rawCompress data).length < data.length)) data)) := by
  unfold State.compress storedData
  rw [view_getBuffer_write, size_getBuffer_write]
  cases compression with
  | false => rfl
  | true =>
    by_cases hl : (platform.rawCompress data).length < data.length <;> simp [hl]

/-- The record of an identifier after `WriteData` at a position. -/
def State.withPosition (platform : Platform) (s : State) (identifier : UInt64)
    (position : FilePosition) : State :=
  { s with
    schema := s.schema.insert identifier
      { (s.schema.get? identifier).getD { schemaPosition := platform.indeterminate } with
        lastPosition := position } }

/-- A seek marker or nothing follows a data block. -/
theorem maybeWriteSeekBlock_eq_some {options : Options} {s s' : State} {writer : ThreadWriter}
    {timestamp : Ptime} (hw : s.writer = some writer)
    (h : s.maybeWriteSeekBlock options timestamp = some s') :
    ∃ lastSeekBlock : Ptime, ∃ markers, (markers = [] ∨
        timestamp ≠ .notADateTime ∧ markers = [seekBlock s writer.position timestamp]) ∧
      Appends { s with lastSeekBlock := lastSeekBlock } markers s' := by
  have hnone : ∀ l : Ptime, Appends { s with lastSeekBlock := l } [] { s with lastSeekBlock := l } := by
    intro l
    unfold Appends
    rw [show ({ s with lastSeekBlock := l } : State).writer = some writer from hw]
    exact ⟨writer, (List.append_nil _).symm, by rw [← hw]⟩
  unfold State.maybeWriteSeekBlock at h
  split at h
  · cases h
    exact ⟨s.lastSeekBlock, [], Or.inl rfl, hnone _⟩
  · split_ifs at h with hfirst hdue
    · cases h
      exact ⟨_, [], Or.inl rfl, hnone _⟩
    · obtain ⟨s₁, hseek, h⟩ := Option.bind_eq_some_iff.mp h
      cases h
      refine ⟨timestamp, _, Or.inr ⟨hdue.1, rfl⟩, ?_⟩
      have happ := writeSeekBlock_eq_some hw hseek
      unfold Appends at happ ⊢
      rw [hw] at happ
      rw [show ({ s with lastSeekBlock := timestamp } : State).writer = some writer from hw]
      obtain ⟨writer', hwriter', rfl⟩ := happ
      exact ⟨writer', hwriter', rfl⟩
    · cases h
      exact ⟨s.lastSeekBlock, [], Or.inl rfl, hnone _⟩

/-- **`WriteData`** appends a data block, and perhaps a seek marker after it. -/
theorem writeData_eq_some {platform : Platform} {options : Options} {s s' : State}
    {writer : ThreadWriter} {timestamp : Ptime} {identifier : UInt64} {serializedData : Bytes}
    {writeFlags : WriteFlags} {now : Ptime} (hw : s.writer = some writer)
    (h : s.writeData platform options timestamp identifier serializedData writeFlags now =
      some s') :
    ∃ fields, fields = dataFields platform options s writer timestamp identifier serializedData
        writeFlags now ∧
      ∃ s₁, Appends (s.withPosition platform identifier writer.position)
          [dataBlock fields (storedData platform fields.snappy serializedData)] s₁ ∧
        s₁.maybeWriteSeekBlock options timestamp = some s' := by
  refine ⟨_, rfl, ?_⟩
  obtain ⟨_, identifierMap, reverseIdentifierMap, nextId, schema, lastSeekBlock, closed⟩ := s
  subst hw
  unfold State.writeData at h
  dsimp only at h
  rw [maybeCompress_eq] at h
  dsimp only at h
  obtain ⟨buffer, hprepend, h⟩ := Option.bind_eq_some_iff.mp h
  obtain ⟨s₁, hwrite, h⟩ := Option.bind_eq_some_iff.mp h
  refine ⟨s₁, ?_, h⟩
  rw [size_getBuffer_write, view_getBuffer_write] at hprepend
  obtain ⟨padding, hdata, hstart, _⟩ :=
    Buffer.prepend_eq_some (length_header _ _) (start_le_getBuffer_write _) hprepend
  have happ := write_eq_some hwrite
  rw [Buffer.view, hdata, hstart, List.drop_left' rfl, view_getBuffer_write] at happ
  exact happ

end Mjlib.Telemetry.FileWriter
