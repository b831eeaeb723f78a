import Mjlib.Telemetry.Equiv.FileWriter.Positions

/-!
# What the writer knows after any calls

`Logs` and `Positions` are for runs that write every schema once and before its data.  After any
calls on an open file, the file is a list of blocks all the same, and what the writer's records have
is a matter of these blocks (`Remembers`): of the schema that was written last, and of the data since
then.  `remembers_run` is about a run of calls, whose schemas and data are the blocks' (`Event`).
-/

namespace Mjlib.Telemetry

open Base FileWriter FileReader

/-! ### The schemas and the data of an identifier -/

/-- The name and the schema of an identifier's schema block. -/
def LogBlock.schemaOf? (identifier : UInt64) : LogBlock → Option (Bytes × Bytes)
  | .schema i name rawSchema => if i = identifier then some (name, rawSchema) else none
  | .data .. => none
  | .seekMarker _ => none
  | .index _ => none

/-- Whether a block is a schema of an identifier. -/
def LogBlock.isSchemaOf (identifier : UInt64) (b : LogBlock) : Bool :=
  (b.schemaOf? identifier).isSome

/-- The names and schemas of an identifier's schema blocks, in order. -/
def schemasOf (identifier : UInt64) (blocks : List LogBlock) : List (Bytes × Bytes) :=
  blocks.filterMap (LogBlock.schemaOf? identifier)

/-- The position of the last data block of an identifier since its last schema block, or -1. -/
def lastSince (identifier : UInt64) (blocks : List LogBlock) : ℤ :=
  if lastWhere (LogBlock.isSchemaOf identifier) blocks < lastPosition identifier blocks
  then lastPosition identifier blocks else -1

theorem lastWhere_lt (p : LogBlock → Bool) (blocks : List LogBlock) :
    lastWhere p blocks < (image blocks).length := by
  rcases lastWhere_cases p blocks with ⟨hlast, _⟩ | ⟨before, b, after, rfl, _, hlast, _⟩
  · omega
  · have hpos := b.length_encode_pos
    rw [hlast, image_append, List.flatMap_cons, List.length_append, List.length_append]
    omega

theorem lastSince_concat (identifier : UInt64) (blocks : List LogBlock) (b : LogBlock) :
    lastSince identifier (blocks ++ [b]) =
      if b.isDataOf identifier then ((image blocks).length : ℤ)
      else if b.isSchemaOf identifier then -1 else lastSince identifier blocks := by
  have hschema := lastWhere_lt (LogBlock.isSchemaOf identifier) blocks
  have hdata := lastWhere_lt (LogBlock.isDataOf identifier) blocks
  unfold lastSince lastPosition
  rw [lastWhere_concat, lastWhere_concat]
  by_cases hd : b.isDataOf identifier = true
  · have hs : b.isSchemaOf identifier = false := by
      cases b with
      | data fields stored => rfl
      | _ => cases hd
    rw [if_pos hd, hs, if_neg Bool.false_ne_true, if_pos hschema, if_pos hd]
  · rw [if_neg hd, if_neg hd]
    by_cases hs : b.isSchemaOf identifier = true
    · rw [if_pos hs, if_neg (by omega), if_pos hs]
    · rw [if_neg hs, if_neg hs]

theorem schemasOf_concat (identifier : UInt64) (blocks : List LogBlock) (b : LogBlock) :
    schemasOf identifier (blocks ++ [b]) =
      schemasOf identifier blocks ++ (b.schemaOf? identifier).toList := by
  unfold schemasOf
  rw [List.filterMap_append]
  cases h : b.schemaOf? identifier with
  | none => rw [List.filterMap_cons_none h]; rfl
  | some schema => rw [List.filterMap_cons_some h]; rfl

/-! ### What is written -/

/-- What a log is about: a schema of an identifier, or data of one. -/
inductive Event
  | schema (identifier : UInt64) (rawSchema : Bytes)
  | data (identifier : UInt64)
deriving DecidableEq

/-- What a block is about. -/
def LogBlock.event? : LogBlock → Option Event
  | .schema identifier _ rawSchema => some (.schema identifier rawSchema)
  | .data fields _ => some (.data fields.identifier)
  | .seekMarker _ => none
  | .index _ => none

namespace FileWriter

/-- What a call writes. -/
def event? : Call → Option Event
  | .writeSchema identifier schema => some (.schema identifier schema)
  | .writeData _ identifier .. => some (.data identifier)
  | .openFile => none
  | .close => none
  | .allocateIdentifier _ => none
  | .reserveIdentifier .. => none

/-- The calls on an open file, with schemas that a reader can parse. -/
def Parses (s : FileWriter.State) : Call → Prop
  | .openFile => False
  | .close => False
  | .allocateIdentifier _ => True
  | .reserveIdentifier .. => True
  | .writeSchema identifier schema => ∀ name, s.reverseIdentifierMap.get? identifier = some name →
      name.length ≤ Format.kMaxStringSize ∧ ∃ root, BinarySchemaParser.parse schema name = .ok root
  | .writeData .. => True

instance (s : FileWriter.State) (call : Call) : Decidable (Parses s call) :=
  match call with
  | .openFile => inferInstanceAs (Decidable False)
  | .close => inferInstanceAs (Decidable False)
  | .allocateIdentifier _ => inferInstanceAs (Decidable True)
  | .reserveIdentifier .. => inferInstanceAs (Decidable True)
  | .writeSchema identifier schema => inferInstanceAs (Decidable
      (∀ name ∈ s.reverseIdentifierMap.get? identifier, name.length ≤ Format.kMaxStringSize ∧
        ∃ root, BinarySchemaParser.parse schema name = .ok root))
  | .writeData .. => inferInstanceAs (Decidable True)

/-! ### The records of the writer -/

/-- The open file is a list of blocks, and the writer's records are about the last schemas in them
and about the data since. -/
structure Remembers (s : FileWriter.State) (blocks : List LogBlock) : Prop where
  writer : ∃ writer, s.writer = some writer ∧ writer.buffers.flatten = image blocks
  closed : s.closed = []
  readable : ∀ b ∈ blocks, Readable b
  name : ∀ identifier name rawSchema, .schema identifier name rawSchema ∈ blocks →
    s.reverseIdentifierMap.get? identifier = some name
  known : ∀ identifier, (s.schema.get? identifier).isSome = true ↔
    ∃ b ∈ blocks, b.isSchemaOf identifier = true ∨ b.isDataOf identifier = true
  lastPosition : ∀ identifier record, s.schema.get? identifier = some record →
    record.lastPosition = lastSince identifier blocks
  schema : ∀ identifier record, s.schema.get? identifier = some record →
    ∀ schema ∈ (schemasOf identifier blocks).getLast?, schema = (record.name, record.schema) ∧
      record.schemaPosition = lastWhere (LogBlock.isSchemaOf identifier) blocks

variable {platform : Platform} {options : FileWriter.Options} {s s' : FileWriter.State}
  {blocks : List LogBlock}

/-- A state that differs in other ways. -/
theorem Remembers.of_eq (h : Remembers s blocks) (hwriter : s'.writer = s.writer)
    (hclosed : s'.closed = s.closed) (hschema : s'.schema = s.schema)
    (hnames : ∀ identifier name, s.reverseIdentifierMap.get? identifier = some name →
      s'.reverseIdentifierMap.get? identifier = some name) : Remembers s' blocks where
  writer := hwriter ▸ h.writer
  closed := hclosed.trans h.closed
  readable := h.readable
  name identifier name rawSchema hmem := hnames _ _ (h.name identifier name rawSchema hmem)
  known := hschema ▸ h.known
  lastPosition := hschema ▸ h.lastPosition
  schema := hschema ▸ h.schema

theorem exists_mem_concat_iff {p : LogBlock → Prop} {b : LogBlock} :
    (∃ b' ∈ blocks ++ [b], p b') ↔ (∃ b' ∈ blocks, p b') ∨ p b := by
  simp only [List.mem_append, List.mem_singleton, or_and_right, exists_or, exists_eq_left]

/-- A block that is neither a schema nor data. -/
theorem Remembers.concat_of_other {b : LogBlock} (h : Remembers s blocks)
    (happ : Appends s [b.encode] s') (hb : b.event? = none) : Remembers s' (blocks ++ [b]) := by
  obtain ⟨hwriter, hc, hs, hr⟩ := happ.image h.writer
  -- it is nothing to any identifier
  have hdata : ∀ identifier, b.isDataOf identifier = false := by
    intro identifier
    cases b with
    | data => cases hb
    | _ => rfl
  have hschema : ∀ identifier, b.schemaOf? identifier = none := by
    intro identifier
    cases b with
    | schema => cases hb
    | _ => rfl
  have hschema' : ∀ identifier, b.isSchemaOf identifier = false := by
    intro identifier
    rw [LogBlock.isSchemaOf, hschema]
    rfl
  refine ⟨hwriter, hc.trans h.closed, ?_, ?_, ?_, ?_, ?_⟩
  · intro b' hb'
    rcases List.mem_append.mp hb' with hb' | hb'
    · exact h.readable b' hb'
    · rw [List.mem_singleton.mp hb']
      cases b with
      | schema => cases hb
      | _ => trivial
  · intro identifier name rawSchema hmem
    rw [hr]
    rcases List.mem_append.mp hmem with hmem | hmem
    · exact h.name identifier name rawSchema hmem
    · rw [← List.mem_singleton.mp hmem] at hb
      cases hb
  · intro identifier
    rw [hs, exists_mem_concat_iff, hdata, hschema', h.known]
    simp
  · intro identifier record hget
    rw [lastSince_concat, hdata, hschema', h.lastPosition identifier record (hs ▸ hget)]
    rfl
  · intro identifier record hget schema hschemas
    rw [schemasOf_concat, hschema, Option.toList_none, List.append_nil] at hschemas
    rw [lastWhere_concat, hschema', if_neg Bool.false_ne_true]
    exact h.schema identifier record (hs ▸ hget) schema hschemas

/-- `WriteSchema`. -/
theorem Remembers.writeSchema {identifier : UInt64} {schema : Bytes} (h : Remembers s blocks)
    (hparses : Parses s (.writeSchema identifier schema))
    (hstep : s.writeSchema identifier schema = some s') :
    ∃ name, Remembers s' (blocks ++ [.schema identifier name schema]) := by
  obtain ⟨name, hname, happ⟩ := writeSchema_eq_some hstep
  have happ : Appends (s.withSchema identifier name schema)
    [(LogBlock.schema identifier name schema).encode] s' := happ
  obtain ⟨hwriter, hc, hs, hr⟩ := happ.image h.writer
  have hschema : ∀ i, (LogBlock.schema identifier name schema).schemaOf? i =
      if identifier = i then some (name, schema) else none := fun _ => rfl
  refine ⟨name, hwriter, hc.trans h.closed, ?_, ?_, ?_, ?_, ?_⟩
  · intro b hb
    rcases List.mem_append.mp hb with hb | hb
    · exact h.readable b hb
    · rw [List.mem_singleton.mp hb]
      exact hparses name hname
  · intro i name' rawSchema hmem
    rw [hr]
    rcases List.mem_append.mp hmem with hmem | hmem
    · exact h.name i name' rawSchema hmem
    · obtain ⟨rfl, rfl, rfl⟩ : i = identifier ∧ name' = name ∧ rawSchema = schema := by
        simpa using hmem
      exact hname
  · intro i
    rw [hs, State.withSchema, SortedMap.get?_insert, exists_mem_concat_iff, ← h.known,
      LogBlock.isSchemaOf, hschema]
    by_cases hi : i = identifier
    · simp [hi]
    · simp [hi, Ne.symm hi, LogBlock.isDataOf]
  · intro i record hget
    rw [lastSince_concat, LogBlock.isSchemaOf, hschema]
    rw [hs, State.withSchema, SortedMap.get?_insert] at hget
    split_ifs at hget with hi
    · obtain rfl := Option.some.inj hget
      rw [if_pos hi.symm]
      rfl
    · rw [if_neg (Ne.symm hi), h.lastPosition i record hget]
      rfl
  · intro i record hget schema' hschemas
    rw [schemasOf_concat, hschema] at hschemas
    rw [lastWhere_concat, LogBlock.isSchemaOf, hschema]
    rw [hs, State.withSchema, SortedMap.get?_insert] at hget
    split_ifs at hget with hi
    · obtain rfl := Option.some.inj hget
      rw [if_pos hi.symm, Option.toList_some, List.getLast?_concat] at hschemas
      obtain rfl := Option.some.inj hschemas
      refine ⟨rfl, ?_⟩
      rw [if_pos hi.symm, Option.isSome_some, if_pos rfl]
      obtain ⟨writer, hw, hfile⟩ := h.writer
      show s.position = _
      unfold State.position ThreadWriter.position
      rw [hw, ← hfile]
      rfl
    · rw [if_neg (Ne.symm hi), Option.toList_none, List.append_nil] at hschemas
      rw [if_neg (Ne.symm hi)]
      exact h.schema i record hget schema' hschemas

theorem schemasOf_eq_nil {identifier : UInt64}
    (h : ∀ b ∈ blocks, b.isSchemaOf identifier = false) : schemasOf identifier blocks = [] :=
  List.filterMap_eq_nil_iff.mpr fun b hb =>
    Option.isNone_iff_eq_none.mp (Option.isSome_eq_false_iff.mp (h b hb))

/-- The data block of `WriteData`. -/
theorem Remembers.concat_data {fields : DataFields} {stored : Bytes} {writer : ThreadWriter}
    (h : Remembers s blocks) (hw : s.writer = some writer)
    (happ : Appends (s.withPosition platform fields.identifier writer.position)
      [dataBlock fields stored] s') : Remembers s' (blocks ++ [.data fields stored]) := by
  rw [← LogBlock.encode_data] at happ
  obtain ⟨hwriter, hc, hs, hr⟩ := happ.image (by exact h.writer)
  have hposition : writer.position = (image blocks).length := by
    obtain ⟨writer', hw', hfile⟩ := h.writer
    obtain rfl := Option.some.inj (hw.symm.trans hw')
    rw [← hfile]
    rfl
  refine ⟨hwriter, hc.trans h.closed, ?_, ?_, ?_, ?_, ?_⟩
  · intro b hb
    rcases List.mem_append.mp hb with hb | hb
    · exact h.readable b hb
    · rw [List.mem_singleton.mp hb]
      trivial
  · intro i name rawSchema hmem
    rw [hr]
    rcases List.mem_append.mp hmem with hmem | hmem
    · exact h.name i name rawSchema hmem
    · cases List.mem_singleton.mp hmem
  · intro i
    rw [hs, State.withPosition, SortedMap.get?_insert, exists_mem_concat_iff, ← h.known]
    by_cases hi : i = fields.identifier
    · simp [hi, LogBlock.isDataOf]
    · simp [hi, Ne.symm hi, LogBlock.isDataOf, LogBlock.isSchemaOf, LogBlock.schemaOf?]
  · intro i record hget
    rw [lastSince_concat]
    rw [hs, State.withPosition, SortedMap.get?_insert] at hget
    split_ifs at hget with hi
    · obtain rfl := Option.some.inj hget
      rw [LogBlock.isDataOf, if_pos (decide_eq_true hi.symm)]
      exact congrArg Nat.cast hposition
    · rw [LogBlock.isDataOf, if_neg (by simpa using Ne.symm hi), h.lastPosition i record hget]
      rfl
  · intro i record hget schema hschemas
    rw [schemasOf_concat, LogBlock.schemaOf?, Option.toList_none, List.append_nil] at hschemas
    rw [lastWhere_concat, LogBlock.isSchemaOf, LogBlock.schemaOf?]
    show _ ∧ _ = lastWhere (LogBlock.isSchemaOf i) blocks
    rw [hs, State.withPosition, SortedMap.get?_insert] at hget
    split_ifs at hget with hi
    · obtain rfl := Option.some.inj hget
      subst hi
      cases hold : s.schema.get? fields.identifier with
      | some record => exact h.schema fields.identifier record hold schema hschemas
      | none =>
        -- there is no schema that the record could have
        have hnone : ∀ b ∈ blocks, b.isSchemaOf fields.identifier = false := by
          intro b hb
          by_contra hne
          have := (h.known fields.identifier).mpr ⟨b, hb, Or.inl (by simpa using hne)⟩
          rw [hold] at this
          cases this
        rw [schemasOf_eq_nil hnone] at hschemas
        cases hschemas
    · exact h.schema i record hget schema hschemas

/-- The seek marker that may follow a data block. -/
theorem Remembers.maybeWriteSeekBlock {timestamp : Ptime} (h : Remembers s blocks)
    (hstep : s.maybeWriteSeekBlock options timestamp = some s') :
    ∃ more, Remembers s' (blocks ++ more) ∧ more.filterMap LogBlock.event? = [] := by
  obtain ⟨writer, hw, hfile⟩ := h.writer
  obtain ⟨lastSeekBlock, markers, hmarkers, happ⟩ := maybeWriteSeekBlock_eq_some hw hstep
  have hl : Remembers { s with lastSeekBlock := lastSeekBlock } blocks :=
    h.of_eq rfl rfl rfl fun _ _ hn => hn
  rcases hmarkers with rfl | ⟨-, rfl⟩
  · refine ⟨[], ?_, rfl⟩
    unfold Appends at happ
    rw [show ({ s with lastSeekBlock := lastSeekBlock } : State).writer = some writer from hw]
      at happ
    obtain ⟨writer', hbuffers, rfl⟩ := happ
    rw [List.append_nil] at hbuffers ⊢
    exact ⟨⟨writer', rfl, by rw [hbuffers, hfile]⟩, hl.closed, hl.readable, hl.name, hl.known,
      hl.lastPosition, hl.schema⟩
  · exact ⟨[.seekMarker (sealedBody s writer.position timestamp)],
      hl.concat_of_other happ rfl, rfl⟩

/-- **Every call on an open file** adds the blocks for what it writes. -/
theorem Remembers.step {call : Call} (h : Remembers s blocks) (hcall : Parses s call)
    (hstep : FileWriter.step platform options s call = some s') :
    ∃ more, Remembers s' (blocks ++ more) ∧
      more.filterMap LogBlock.event? = (event? call).toList ∧ (event? call = none → more = []) := by
  cases call with
  | openFile => exact hcall.elim
  | close => exact hcall.elim
  | allocateIdentifier recordName =>
    obtain ⟨⟨_, _⟩, hcall, rfl⟩ := Option.map_eq_some_iff.mp hstep
    obtain ⟨hwriter, hclosed, hschema, hnames⟩ := allocateIdentifier_names hcall
    refine ⟨[], ?_, rfl, fun _ => rfl⟩
    rw [List.append_nil]
    exact h.of_eq hwriter hclosed hschema hnames
  | reserveIdentifier recordName identifier =>
    obtain ⟨⟨_, _⟩, hcall, rfl⟩ := Option.map_eq_some_iff.mp hstep
    obtain ⟨hwriter, hclosed, hschema, hnames⟩ := reserveIdentifier_names hcall
    refine ⟨[], ?_, rfl, fun _ => rfl⟩
    rw [List.append_nil]
    exact h.of_eq hwriter hclosed hschema hnames
  | writeSchema identifier schema =>
    obtain ⟨name, h'⟩ := h.writeSchema hcall hstep
    exact ⟨_, h', rfl, nofun⟩
  | writeData timestamp identifier serializedData writeFlags now =>
    obtain ⟨writer, hw, _⟩ := h.writer
    obtain ⟨fields, hfields, s₁, happ, hseek⟩ := writeData_eq_some hw hstep
    obtain rfl : fields.identifier = identifier := by rw [hfields]; rfl
    obtain ⟨more, h', hmore⟩ := (h.concat_data hw happ).maybeWriteSeekBlock hseek
    rw [List.append_assoc] at h'
    refine ⟨_, h', ?_, nofun⟩
    rw [List.singleton_append, List.filterMap_cons, hmore]
    rfl

/-- A run of calls on an open file. -/
theorem remembers_run {calls : List Call} : ∀ {s s' : FileWriter.State} {blocks : List LogBlock},
    Remembers s blocks → Run.Guarded (FileWriter.step platform options) Parses s calls →
    Run.run (FileWriter.step platform options) s calls = some s' →
    ∃ more, Remembers s' (blocks ++ more) ∧
      more.filterMap LogBlock.event? = calls.filterMap event? ∧
      (calls.filterMap event? = [] → more = []) := by
  induction calls with
  | nil =>
    intro s s' blocks h _ hrun
    cases hrun
    exact ⟨[], by rwa [List.append_nil], rfl, fun _ => rfl⟩
  | cons call calls ih =>
    intro s s' blocks h hguard hrun
    obtain ⟨s₁, hstep, hrun⟩ := (Run.run_cons_eq_some _).mp hrun
    obtain ⟨more, h₁, hmore, hnil⟩ := h.step hguard.1 hstep
    obtain ⟨more', h₂, hmore', hnil'⟩ := ih h₁ (hguard.2 s₁ hstep) hrun
    refine ⟨more ++ more', by rwa [← List.append_assoc], ?_, ?_⟩
    · rw [List.filterMap_append, hmore, hmore', List.filterMap_cons]
      cases event? call <;> rfl
    · intro hevents
      cases hcall : event? call with
      | none =>
        rw [List.filterMap_cons_none hcall] at hevents
        rw [hnil hcall, hnil' hevents]
        rfl
      | some e =>
        rw [List.filterMap_cons_some hcall] at hevents
        exact nomatch hevents

end FileWriter

end Mjlib.Telemetry
