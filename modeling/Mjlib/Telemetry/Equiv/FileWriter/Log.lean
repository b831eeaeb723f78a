import Mjlib.Lib.Run
import Mjlib.Telemetry.Equiv.FileReader.Items

/-!
# The writer's files are logs

While a file is open, what has been written to it is the image of a list of blocks (`Logs`): every
record of the writer has its schema block where the record says, and every data block comes after
the schema of its identifier.  `Logs.step` says which blocks a call adds, and what the data blocks
among them hold.
-/

namespace Mjlib.Telemetry.FileWriter

open Base FileReader

/-- What a call of `WriteData` writes: the identifier, the time and the data. -/
def written (options : FileWriter.Options) : Call → Option (UInt64 × Ptime × Bytes)
  | .writeData timestamp identifier serializedData _ now =>
    some (identifier,
      if timestamp ≠ .notADateTime then timestamp
      else if options.timestampsSystem then now else .notADateTime, serializedData)
  | .openFile => none
  | .close => none
  | .allocateIdentifier _ => none
  | .reserveIdentifier .. => none
  | .writeSchema .. => none

/-- The calls on an open file that a log is made of: every schema is valid and written once, data is
written after the schema of its identifier. -/
def WellFormed (s : FileWriter.State) : Call → Prop
  | .openFile => False
  | .close => False
  | .allocateIdentifier _ => True
  | .reserveIdentifier .. => True
  | .writeSchema identifier schema => s.schema.get? identifier = none ∧
      ∀ name, s.reverseIdentifierMap.get? identifier = some name →
        ∃ root, BinarySchemaParser.parse schema name = .ok root
  | .writeData _ identifier .. => (s.schema.get? identifier).isSome

/-- The names of the schemas that are written are short enough for `ReadString`. -/
def ShortName (s : FileWriter.State) : Call → Prop
  | .writeSchema identifier _ => ∀ name, s.reverseIdentifierMap.get? identifier = some name →
      name.length ≤ Format.kMaxStringSize
  | _ => True

/-- Whether a schema parses can be computed. -/
instance (schema name : Bytes) : Decidable (∃ root, BinarySchemaParser.parse schema name = .ok root) :=
  match h : BinarySchemaParser.parse schema name with
  | .ok root => isTrue ⟨root, rfl⟩
  | .error _ => isFalse nofun

instance (s : FileWriter.State) (call : Call) : Decidable (WellFormed s call) :=
  match call with
  | .openFile => inferInstanceAs (Decidable False)
  | .close => inferInstanceAs (Decidable False)
  | .allocateIdentifier _ => inferInstanceAs (Decidable True)
  | .reserveIdentifier .. => inferInstanceAs (Decidable True)
  | .writeSchema identifier schema => inferInstanceAs (Decidable
      (s.schema.get? identifier = none ∧ ∀ name ∈ s.reverseIdentifierMap.get? identifier,
        ∃ root, BinarySchemaParser.parse schema name = .ok root))
  | .writeData _ identifier .. => inferInstanceAs (Decidable (s.schema.get? identifier).isSome)

instance (s : FileWriter.State) (call : Call) : Decidable (ShortName s call) :=
  match call with
  | .openFile => inferInstanceAs (Decidable True)
  | .close => inferInstanceAs (Decidable True)
  | .allocateIdentifier _ => inferInstanceAs (Decidable True)
  | .reserveIdentifier .. => inferInstanceAs (Decidable True)
  | .writeSchema identifier _ => inferInstanceAs (Decidable
      (∀ name ∈ s.reverseIdentifierMap.get? identifier, name.length ≤ Format.kMaxStringSize))
  | .writeData .. => inferInstanceAs (Decidable True)

variable {rawUncompress : RawUncompress}

/-- The open file is a log, and the writer's records are about it. -/
structure Logs (rawUncompress : RawUncompress) (s : FileWriter.State) (blocks : List LogBlock) :
    Prop where
  writer : ∃ writer, s.writer = some writer ∧ writer.buffers.flatten = image blocks
  closed : s.closed = []
  schema : ∀ identifier record, s.schema.get? identifier = some record →
    s.reverseIdentifierMap.get? identifier = some record.name ∧
    ∃ before after, blocks = before ++ .schema identifier record.name record.schema :: after ∧
      record.schemaPosition = (image before).length
  known : ∀ identifier name rawSchema, .schema identifier name rawSchema ∈ blocks →
    (∃ record, s.schema.get? identifier = some record ∧ record.name = name ∧
      record.schema = rawSchema) ∧
    name.length ≤ Format.kMaxStringSize ∧
      ∃ root, BinarySchemaParser.parse rawSchema name = .ok root
  data : ∀ before fields stored after, blocks = before ++ .data fields stored :: after →
    (∃ record ∈ recordsOf before, record.identifier = fields.identifier) ∧
      (fields.snappy = true → ∃ data, rawUncompress stored = some data)

/-- What a well-formed call adds to a file that is open at a position. -/
inductive Adds (s s' : FileWriter.State) (position : ℕ) : List LogBlock → Prop
  | nothing (hschema : s'.schema = s.schema) : Adds s s' position []
  | schema (identifier : UInt64) (name rawSchema : Bytes)
      (hnew : s.schema.get? identifier = none)
      (hschema : s'.schema = (s.withSchema identifier name rawSchema).schema) :
      Adds s s' position [.schema identifier name rawSchema]
  | data (fields : DataFields) (stored : Bytes) (record : SchemaRecord) (markers : List LogBlock)
      (hrecord : s.schema.get? fields.identifier = some record)
      (hschema : s'.schema =
        s.schema.insert fields.identifier { record with lastPosition := position })
      (hmarkers : markers = [] ∨ ∃ timestamp s₁, fields.timestamp = some timestamp ∧
        timestamp ≠ .notADateTime ∧ s₁.schema = s'.schema ∧
          markers = [.seekMarker (sealedBody s₁
            (position + (LogBlock.data fields stored).encode.length) timestamp)]) :
      Adds s s' position (.data fields stored :: markers)

/-- The records of a log are those of its schema blocks. -/
theorem mem_recordsOf {blocks : List LogBlock} {record : Record} :
    record ∈ recordsOf blocks ↔ ∃ identifier name rawSchema,
      .schema identifier name rawSchema ∈ blocks ∧
        record = schemaRecord identifier name rawSchema := by
  unfold recordsOf
  rw [List.mem_filterMap]
  constructor
  · rintro ⟨b, hb, hrecord⟩
    cases b with
    | schema identifier name rawSchema => exact ⟨_, _, _, hb, (Option.some.inj hrecord).symm⟩
    | _ => cases hrecord
  · rintro ⟨identifier, name, rawSchema, hb, rfl⟩
    exact ⟨_, hb, rfl⟩

/-- A log that the writer made is a valid one. -/
theorem Logs.validLog {s : FileWriter.State} {blocks : List LogBlock}
    (h : Logs rawUncompress s blocks) : ValidLog rawUncompress blocks := by
  constructor
  · obtain ⟨writer, _, hfile⟩ := h.writer
    rw [← hfile]
    exact writer.length_lt
  · intro identifier name rawSchema hmem
    exact (h.known identifier name rawSchema hmem).2
  · intro record hrecord record' hrecord' hid
    obtain ⟨i, name, rawSchema, hmem, rfl⟩ := mem_recordsOf.mp hrecord
    obtain ⟨i', name', rawSchema', hmem', rfl⟩ := mem_recordsOf.mp hrecord'
    obtain rfl : i = i' := hid
    obtain ⟨r, hget, rfl, rfl⟩ := (h.known i name rawSchema hmem).1
    obtain ⟨r', hget', rfl, rfl⟩ := (h.known i name' rawSchema' hmem').1
    obtain rfl := Option.some.inj (hget.symm.trans hget')
    rfl
  · exact h.data

/-! ### One more block -/

/-- The splits of a list with one more block. -/
theorem concat_eq_append_cons {α : Type} {blocks before after : List α} {b c : α}
    (h : blocks ++ [b] = before ++ c :: after) :
    (before = blocks ∧ c = b ∧ after = []) ∨
      ∃ after', after = after' ++ [b] ∧ blocks = before ++ c :: after' := by
  rcases List.eq_nil_or_concat after with rfl | ⟨after', d, rfl⟩
  · obtain ⟨rfl, hc⟩ := List.append_inj' h rfl
    exact Or.inl ⟨rfl, (List.cons.inj hc).1.symm, rfl⟩
  · rw [List.concat_eq_append, ← List.cons_append, ← List.append_assoc] at h
    obtain ⟨hblocks, hd⟩ := List.append_inj' h rfl
    refine Or.inr ⟨after', ?_, hblocks⟩
    rw [List.concat_eq_append, (List.cons.inj hd).1]

/-- The file after one more block. -/
theorem Appends.image {s s' : FileWriter.State} {blocks : List LogBlock} {b : LogBlock}
    (happ : Appends s [b.encode] s')
    (hwriter : ∃ writer, s.writer = some writer ∧ writer.buffers.flatten = image blocks) :
    (∃ writer, s'.writer = some writer ∧ writer.buffers.flatten = Telemetry.image (blocks ++ [b])) ∧
      s'.closed = s.closed ∧ s'.schema = s.schema ∧
      s'.reverseIdentifierMap = s.reverseIdentifierMap := by
  obtain ⟨writer, hw, hfile⟩ := hwriter
  unfold Appends at happ
  rw [hw] at happ
  obtain ⟨writer', hbuffers, rfl⟩ := happ
  refine ⟨⟨writer', rfl, ?_⟩, rfl, rfl, rfl⟩
  rw [hbuffers, List.flatten_append, hfile, image_append, List.flatten_singleton,
    List.flatMap_singleton]

/-- A block that is neither a schema nor data. -/
theorem Logs.concat_of_other {s s' : FileWriter.State} {blocks : List LogBlock} {b : LogBlock}
    (h : Logs rawUncompress s blocks) (happ : Appends s [b.encode] s')
    (hschema : b.blockType ≠ .kSchema) (hdata : b.blockType ≠ .kData) :
    Logs rawUncompress s' (blocks ++ [b]) ∧ dataOf rawUncompress [b] = [] := by
  obtain ⟨hwriter, hc, hs, hr⟩ := happ.image h.writer
  constructor
  · refine ⟨hwriter, hc.trans h.closed, ?_, ?_, ?_⟩
    · intro identifier record hget
      obtain ⟨hname, before, after, rfl, hpos⟩ := h.schema identifier record (hs ▸ hget)
      refine ⟨hr ▸ hname, before, after ++ [b], ?_, hpos⟩
      rw [List.append_assoc, List.cons_append]
    · intro identifier name rawSchema hmem
      rcases List.mem_append.mp hmem with hmem | hmem
      · rw [hs]
        exact h.known identifier name rawSchema hmem
      · rw [← List.mem_singleton.mp hmem] at hschema
        exact absurd rfl hschema
    · intro before fields stored after hblocks
      rcases concat_eq_append_cons hblocks with ⟨_, rfl, _⟩ | ⟨after', _, hblocks⟩
      · exact absurd rfl hdata
      · exact h.data before fields stored after' hblocks
  · cases b with
    | data => exact absurd rfl hdata
    | _ => rfl

/-- A state that differs in other ways. -/
theorem Logs.of_eq {s s' : FileWriter.State} {blocks : List LogBlock}
    (h : Logs rawUncompress s blocks) (hwriter : s'.writer = s.writer)
    (hclosed : s'.closed = s.closed) (hschema : s'.schema = s.schema)
    (hnames : ∀ identifier name, s.reverseIdentifierMap.get? identifier = some name →
      s'.reverseIdentifierMap.get? identifier = some name) : Logs rawUncompress s' blocks := by
  refine ⟨hwriter ▸ h.writer, hclosed.trans h.closed, ?_, ?_, h.data⟩
  · intro identifier record hget
    obtain ⟨hname, hblock⟩ := h.schema identifier record (hschema ▸ hget)
    exact ⟨hnames _ _ hname, hblock⟩
  · intro identifier name rawSchema hmem
    rw [hschema]
    exact h.known identifier name rawSchema hmem

/-- `WriteSchema`. -/
theorem Logs.writeSchema {s s' : FileWriter.State} {blocks : List LogBlock}
    {identifier : UInt64} {schema : Bytes} (h : Logs rawUncompress s blocks)
    (hwell : WellFormed s (.writeSchema identifier schema))
    (hshort : ShortName s (.writeSchema identifier schema))
    (hstep : s.writeSchema identifier schema = some s') :
    ∃ more, Logs rawUncompress s' (blocks ++ more) ∧ dataOf rawUncompress more = [] ∧
      Adds s s' (image blocks).length more := by
  obtain ⟨name, hname, happ⟩ := writeSchema_eq_some hstep
  obtain ⟨hnew, hvalid⟩ := hwell
  have happ : Appends (s.withSchema identifier name schema)
    [(LogBlock.schema identifier name schema).encode] s' := happ
  obtain ⟨hwriter, hc, hs, hr⟩ := happ.image h.writer
  refine ⟨[.schema identifier name schema], ⟨hwriter, hc.trans h.closed, ?_, ?_, ?_⟩, rfl,
    .schema identifier name schema hnew hs⟩
  · intro i record hget
    rw [hs, State.withSchema, SortedMap.get?_insert] at hget
    rw [hr]
    split_ifs at hget with hi
    · obtain rfl := Option.some.inj hget
      refine ⟨hi ▸ hname, blocks, [], by rw [hi], ?_⟩
      obtain ⟨writer, hw, hfile⟩ := h.writer
      show s.position = _
      unfold State.position ThreadWriter.position
      rw [hw, ← hfile]
      rfl
    · obtain ⟨hiname, before, after, rfl, hpos⟩ := h.schema i record hget
      refine ⟨hiname, before, after ++ [.schema identifier name schema], ?_, hpos⟩
      rw [List.append_assoc, List.cons_append]
  · intro i name' rawSchema hmem
    rw [hs, State.withSchema, SortedMap.get?_insert]
    rcases List.mem_append.mp hmem with hmem | hmem
    · obtain ⟨⟨record, hget, hrecord⟩, hrest⟩ := h.known i name' rawSchema hmem
      have hi : i ≠ identifier := by
        rintro rfl
        rw [hnew] at hget
        cases hget
      rw [if_neg hi]
      exact ⟨⟨record, hget, hrecord⟩, hrest⟩
    · obtain ⟨rfl, rfl, rfl⟩ : i = identifier ∧ name' = name ∧ rawSchema = schema := by
        simpa using hmem
      rw [if_pos rfl]
      exact ⟨⟨_, rfl, rfl, rfl⟩, hshort _ hname, hvalid _ hname⟩
  · intro before fields stored after hblocks
    rcases concat_eq_append_cons hblocks with ⟨_, hc, _⟩ | ⟨after', _, hblocks⟩
    · cases hc
    · exact h.data before fields stored after' hblocks

/-- The seek marker that may follow a data block. -/
theorem Logs.maybeWriteSeekBlock {options : FileWriter.Options} {s s' : FileWriter.State}
    {blocks : List LogBlock} {timestamp : Ptime} (h : Logs rawUncompress s blocks)
    (hstep : s.maybeWriteSeekBlock options timestamp = some s') :
    ∃ more, Logs rawUncompress s' (blocks ++ more) ∧ dataOf rawUncompress more = [] ∧
      s'.schema = s.schema ∧ (more = [] ∨ timestamp ≠ .notADateTime ∧
        more = [.seekMarker (sealedBody s (image blocks).length timestamp)]) := by
  obtain ⟨writer, hw, hfile⟩ := h.writer
  obtain ⟨lastSeekBlock, markers, hmarkers, happ⟩ := maybeWriteSeekBlock_eq_some hw hstep
  have hl : Logs rawUncompress { s with lastSeekBlock := lastSeekBlock } blocks :=
    h.of_eq rfl rfl rfl fun _ _ hn => hn
  rcases hmarkers with rfl | ⟨htimestamp, rfl⟩
  · unfold Appends at happ
    rw [show ({ s with lastSeekBlock := lastSeekBlock } : State).writer = some writer from hw]
      at happ
    obtain ⟨writer', hbuffers, rfl⟩ := happ
    rw [List.append_nil] at hbuffers
    refine ⟨[], ?_, rfl, rfl, Or.inl rfl⟩
    rw [List.append_nil]
    exact ⟨⟨writer', rfl, by rw [hbuffers, hfile]⟩, hl.closed, hl.schema, hl.known, hl.data⟩
  · have hposition : writer.position = (image blocks).length := by
      rw [← hfile]
      rfl
    have happ' : Appends { s with lastSeekBlock := lastSeekBlock }
        [(LogBlock.seekMarker (sealedBody s (image blocks).length timestamp)).encode] s' := by
      rw [← hposition]
      exact happ
    obtain ⟨h₁, hdata⟩ := hl.concat_of_other happ' (by simp [LogBlock.blockType])
      (by simp [LogBlock.blockType])
    exact ⟨_, h₁, hdata, (happ'.image hl.writer).2.2.1, Or.inr ⟨htimestamp, rfl⟩⟩

/-- What a data block stores is the data that was given. -/
theorem plainData_storedData {platform : Platform} {options : FileWriter.Options}
    {s : FileWriter.State} {writer : ThreadWriter} {timestamp : Ptime} {identifier : UInt64}
    {serializedData : Bytes} {writeFlags : WriteFlags} {now : Ptime}
    (hsnappy : ∀ data, rawUncompress (platform.rawCompress data) = some data) :
    let fields := dataFields platform options s writer timestamp identifier serializedData
      writeFlags now
    plainData rawUncompress fields (storedData platform fields.snappy serializedData) =
      serializedData := by
  intro fields
  unfold plainData storedData
  cases fields.snappy with
  | false => rfl
  | true => rw [if_pos rfl, if_pos rfl, hsnappy, Option.getD_some]

/-- `WriteData`. -/
theorem Logs.writeData {platform : Platform} {options : FileWriter.Options}
    {s s' : FileWriter.State} {blocks : List LogBlock} {timestamp : Ptime} {identifier : UInt64}
    {serializedData : Bytes} {writeFlags : WriteFlags} {now : Ptime}
    (hsnappy : ∀ data, rawUncompress (platform.rawCompress data) = some data)
    (h : Logs rawUncompress s blocks)
    (hwell : WellFormed s (.writeData timestamp identifier serializedData writeFlags now))
    (hstep : s.writeData platform options timestamp identifier serializedData writeFlags now =
      some s') :
    ∃ more, Logs rawUncompress s' (blocks ++ more) ∧ dataOf rawUncompress more =
        (written options (.writeData timestamp identifier serializedData writeFlags now)).toList ∧
      Adds s s' (image blocks).length more := by
  obtain ⟨writer, hw, hfile⟩ := h.writer
  obtain ⟨fields, hfields, s₁, happ, hseek⟩ := writeData_eq_some hw hstep
  obtain ⟨record₀, hget₀⟩ := Option.isSome_iff_exists.mp hwell
  rw [← LogBlock.encode_data] at happ
  obtain ⟨hwriter, hc, hs, hr⟩ := happ.image ⟨writer, hw, hfile⟩
  -- the identifier's record, which keeps its schema
  have hrecords : ∀ i record, s₁.schema.get? i = some record → ∃ r, s.schema.get? i = some r ∧
      record.name = r.name ∧ record.schema = r.schema ∧
        record.schemaPosition = r.schemaPosition := by
    intro i record hget
    rw [hs, State.withPosition, SortedMap.get?_insert] at hget
    split_ifs at hget with hi
    · rw [hget₀, Option.getD_some] at hget
      obtain rfl := Option.some.inj hget
      exact ⟨record₀, hi ▸ hget₀, rfl, rfl, rfl⟩
    · exact ⟨record, hget, rfl, rfl, rfl⟩
  have hkept : ∀ i r, s.schema.get? i = some r → ∃ record, s₁.schema.get? i = some record ∧
      record.name = r.name ∧ record.schema = r.schema := by
    intro i r hget
    rw [hs, State.withPosition, SortedMap.get?_insert]
    split_ifs with hi
    · rw [hi, hget₀] at hget
      obtain rfl := Option.some.inj hget
      rw [hget₀]
      exact ⟨_, rfl, rfl, rfl⟩
    · exact ⟨r, hget, rfl, rfl⟩
  have h₁ : Logs rawUncompress s₁
      (blocks ++ [.data fields (storedData platform fields.snappy serializedData)]) := by
    refine ⟨hwriter, hc.trans h.closed, ?_, ?_, ?_⟩
    · intro i record hget
      obtain ⟨r, hr', hname, hschema, hposition⟩ := hrecords i record hget
      obtain ⟨hiname, before, after, rfl, hpos⟩ := h.schema i r hr'
      rw [hr, hname, hschema, hposition]
      exact ⟨hiname, before, _, by rw [List.append_assoc, List.cons_append], hpos⟩
    · intro i name rawSchema hmem
      rcases List.mem_append.mp hmem with hmem | hmem
      · obtain ⟨⟨r, hget, rfl, rfl⟩, hrest⟩ := h.known i name rawSchema hmem
        exact ⟨hkept i r hget, hrest⟩
      · cases List.mem_singleton.mp hmem
    · intro before fields' stored after hblocks
      rcases concat_eq_append_cons hblocks with ⟨rfl, hc, _⟩ | ⟨after', _, hblocks⟩
      · cases hc
        constructor
        · obtain ⟨_, before, after, rfl, _⟩ := h.schema identifier record₀ hget₀
          refine ⟨schemaRecord identifier record₀.name record₀.schema, ?_, by rw [hfields]; rfl⟩
          exact mem_recordsOf.mpr ⟨_, _, _, List.mem_append_right _ List.mem_cons_self, rfl⟩
        · intro hs'
          refine ⟨serializedData, ?_⟩
          unfold storedData
          rw [if_pos hs', hsnappy]
      · exact h.data before fields' stored after' hblocks
  obtain ⟨more, h₂, hmore, hs₂, hmarkers⟩ := h₁.maybeWriteSeekBlock hseek
  rw [List.append_assoc] at h₂
  have hidentifier : fields.identifier = identifier := by rw [hfields]; rfl
  have hadds : Adds s s' (image blocks).length
      (.data fields (storedData platform fields.snappy serializedData) :: more) := by
    refine .data fields _ record₀ more (by rw [hidentifier, hget₀]) ?_ ?_
    · rw [hs₂, hs, hidentifier, State.withPosition, hget₀, Option.getD_some]
      unfold ThreadWriter.position
      rw [hfile]
    · refine hmarkers.imp id ?_
      rintro ⟨htimestamp, rfl⟩
      refine ⟨timestamp, s₁, ?_, htimestamp, hs₂.symm, ?_⟩
      · rw [hfields]
        exact if_pos htimestamp
      · rw [length_image_concat]
  refine ⟨_, h₂, ?_, hadds⟩
  rw [dataOf_append, hmore, List.append_nil]
  have hplain := @plainData_storedData rawUncompress platform options s writer timestamp identifier
    serializedData writeFlags now hsnappy
  rw [← hfields] at hplain
  show [(fields.identifier, fields.timestamp.getD .notADateTime, plainData rawUncompress fields
    (storedData platform fields.snappy serializedData))] = _
  rw [hplain, hfields]
  show [(identifier, (if timestamp ≠ .notADateTime then some timestamp
    else if options.timestampsSystem then some now else none : Option Ptime).getD .notADateTime,
      serializedData)] = [(identifier, if timestamp ≠ .notADateTime then timestamp
        else if options.timestampsSystem then now else .notADateTime, serializedData)]
  split_ifs <;> rfl

/-- A free identifier is not in use. -/
theorem findFree_eq_some {s : FileWriter.State} {result : UInt64} : ∀ {n : ℕ} {nextId : UInt64},
    s.findFree n nextId = some result → s.reverseIdentifierMap.contains result = false := by
  intro n
  induction n with
  | zero => exact fun h => absurd h nofun
  | succ n ih =>
    intro nextId h
    rw [State.findFree] at h
    split_ifs at h with hused
    · exact ih h
    · cases h
      exact Bool.eq_false_iff.mpr hused

/-- A new name takes none away. -/
theorem get?_insert_of_not_contains {m : SortedMap UInt64 Bytes} {i identifier : UInt64}
    {name recordName : Bytes} (hfree : m.contains identifier = false)
    (hget : m.get? i = some name) : (m.insert identifier recordName).get? i = some name := by
  rw [SortedMap.get?_insert, if_neg]
  · exact hget
  · rintro rfl
    rw [SortedMap.contains, hget] at hfree
    cases hfree

theorem allocateIdentifier_names {s s' : FileWriter.State} {recordName : Bytes}
    {identifier : UInt64} (h : s.allocateIdentifier recordName = some (identifier, s')) :
    s'.writer = s.writer ∧ s'.closed = s.closed ∧ s'.schema = s.schema ∧ ∀ i name,
      s.reverseIdentifierMap.get? i = some name → s'.reverseIdentifierMap.get? i = some name := by
  unfold State.allocateIdentifier at h
  split at h
  · cases h
    exact ⟨rfl, rfl, rfl, fun _ _ hn => hn⟩
  · obtain ⟨result, hfree, h⟩ := Option.bind_eq_some_iff.mp h
    cases h
    exact ⟨rfl, rfl, rfl, fun _ _ hn => get?_insert_of_not_contains (findFree_eq_some hfree) hn⟩

theorem reserveIdentifier_names {s s' : FileWriter.State} {recordName : Bytes}
    {identifier : UInt64} {b : Bool}
    (h : s.reserveIdentifier recordName identifier = some (b, s')) :
    s'.writer = s.writer ∧ s'.closed = s.closed ∧ s'.schema = s.schema ∧ ∀ i name,
      s.reverseIdentifierMap.get? i = some name → s'.reverseIdentifierMap.get? i = some name := by
  unfold State.reserveIdentifier at h
  split at h
  · split_ifs at h
    cases h
    exact ⟨rfl, rfl, rfl, fun _ _ hn => hn⟩
  · split_ifs at h with hused
    · cases h
      exact ⟨rfl, rfl, rfl, fun _ _ hn => hn⟩
    · cases h
      exact ⟨rfl, rfl, rfl, fun _ _ hn =>
        get?_insert_of_not_contains (Bool.eq_false_iff.mpr hused) hn⟩

variable {platform : Platform} {options : FileWriter.Options}

/-- **Every well-formed call** adds blocks to the log: data blocks for what it writes. -/
theorem Logs.step {s s' : FileWriter.State} {blocks : List LogBlock} {call : Call}
    (hsnappy : ∀ data, rawUncompress (platform.rawCompress data) = some data)
    (h : Logs rawUncompress s blocks) (hcall : WellFormed s call ∧ ShortName s call)
    (hstep : FileWriter.step platform options s call = some s') :
    ∃ more, Logs rawUncompress s' (blocks ++ more) ∧
      dataOf rawUncompress more = (written options call).toList ∧
        Adds s s' (image blocks).length more := by
  have hsame : Logs rawUncompress s' blocks → s'.schema = s.schema →
      ∃ more, Logs rawUncompress s' (blocks ++ more) ∧ dataOf rawUncompress more = [] ∧
        Adds s s' (image blocks).length more := by
    intro h' hschema
    refine ⟨[], ?_, rfl, .nothing hschema⟩
    rwa [List.append_nil]
  cases call with
  | openFile => exact absurd hcall.1 not_false
  | close => exact absurd hcall.1 not_false
  | allocateIdentifier recordName =>
    obtain ⟨⟨_, _⟩, hcall, rfl⟩ := Option.map_eq_some_iff.mp hstep
    obtain ⟨hwriter, hclosed, hschema, hnames⟩ := allocateIdentifier_names hcall
    exact hsame (h.of_eq hwriter hclosed hschema hnames) hschema
  | reserveIdentifier recordName identifier =>
    obtain ⟨⟨_, _⟩, hcall, rfl⟩ := Option.map_eq_some_iff.mp hstep
    obtain ⟨hwriter, hclosed, hschema, hnames⟩ := reserveIdentifier_names hcall
    exact hsame (h.of_eq hwriter hclosed hschema hnames) hschema
  | writeSchema identifier schema => exact h.writeSchema hcall.1 hcall.2 hstep
  | writeData timestamp identifier serializedData writeFlags now =>
    exact h.writeData hsnappy hcall.1 hstep

end Mjlib.Telemetry.FileWriter
