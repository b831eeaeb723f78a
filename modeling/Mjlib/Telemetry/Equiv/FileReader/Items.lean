import Mjlib.Telemetry.Equiv.FileReader.Walk

/-!
# The items of a log

The loop over an item range without record names goes over all blocks: `iterateFrom_eq` is the
induction over the blocks that are left, for a reader in any state, and `itemsKnown` says what the
loop returns, item by item, if the records are known.  `Knows` is what a reader of a log knows:
`items_eq` says that the items of an open reader are those of the log.
-/

namespace Mjlib.Telemetry.FileReader

open Base FileWriter

variable {file s : Bytes} {rawUncompress : RawUncompress} {all before after : List LogBlock}
  {st : State}

/-- The reader knows records of the log, and those of the blocks before it. -/
structure Knows (all before : List LogBlock) (st : State) : Prop where
  sound : ∀ identifier record, st.idToRecord.get? identifier = some record →
    record.identifier = identifier ∧ record ∈ recordsOf all
  complete : ∀ record ∈ recordsOf before, st.idToRecord.get? record.identifier = some record

/-- Less that has to be known. -/
theorem Knows.of_append {b : List LogBlock} (h : Knows all (before ++ b) st) :
    Knows all before st :=
  ⟨h.sound, fun record hr => h.complete record (by
    rw [recordsOf_append]
    exact List.mem_append_left _ hr)⟩

theorem Knows.of_eq {st' : State} (h : Knows all before st)
    (heq : st'.idToRecord = st.idToRecord) : Knows all before st' :=
  ⟨heq ▸ h.sound, heq ▸ h.complete⟩

/-- A block without a record needs no more knowledge. -/
theorem Knows.concat_of_none {b : LogBlock} (h : Knows all before st) (hb : b.record? = none) :
    Knows all (before ++ [b]) st := by
  refine ⟨h.sound, fun record hr => ?_⟩
  rw [recordsOf_append] at hr
  rcases List.mem_append.mp hr with hr | hr
  · exact h.complete record hr
  · simp [recordsOf, hb] at hr

theorem mem_recordsOf_schema {identifier : UInt64} {name schema : Bytes} {record : Record} :
    record ∈ recordsOf [.schema identifier name schema] ↔
      record = schemaRecord identifier name schema :=
  List.mem_singleton

/-- A schema that is known already. -/
theorem Knows.concat_known {identifier : UInt64} {name schema : Bytes} {record : Record}
    (hvalid : ValidLog rawUncompress all) (h : Knows all before st)
    (hmem : .schema identifier name schema ∈ all)
    (hknown : st.idToRecord.get? identifier = some record) :
    Knows all (before ++ [.schema identifier name schema]) st := by
  refine ⟨h.sound, fun r hr => ?_⟩
  rw [recordsOf_append] at hr
  rcases List.mem_append.mp hr with hr | hr
  · exact h.complete r hr
  · obtain rfl := mem_recordsOf_schema.mp hr
    obtain ⟨hid, hrecord⟩ := h.sound identifier record hknown
    have : record = schemaRecord identifier name schema :=
      hvalid.unique record hrecord _ (List.mem_filterMap.mpr ⟨_, hmem, rfl⟩) hid
    rw [← this, hid]
    exact hknown

/-- A schema that is new. -/
theorem Knows.concat_new {identifier : UInt64} {name schema : Bytes} (h : Knows all before st)
    (hmem : .schema identifier name schema ∈ all)
    (hnew : st.idToRecord.get? identifier = none) :
    Knows all (before ++ [.schema identifier name schema])
      (st.withRecord (schemaRecord identifier name schema)) := by
  have hrecord : schemaRecord identifier name schema ∈ recordsOf all :=
    List.mem_filterMap.mpr ⟨_, hmem, rfl⟩
  constructor
  · intro i record hget
    unfold State.withRecord at hget
    rw [SortedMap.get?_insert] at hget
    split_ifs at hget with hi
    · obtain rfl := Option.some.inj hget
      exact ⟨hi.symm, hrecord⟩
    · exact h.sound i record hget
  · intro record hr
    unfold State.withRecord
    rw [SortedMap.get?_insert]
    rw [recordsOf_append] at hr
    rcases List.mem_append.mp hr with hr | hr
    · have hget := h.complete record hr
      rw [if_neg]
      · exact hget
      · intro hi
        rw [hi] at hget
        cases hnew.symm.trans hget
    · obtain rfl := mem_recordsOf_schema.mp hr
      rw [if_pos rfl]

theorem Knows.core (h : Knows all before st) : Knows all before st.core := h.of_eq rfl

/-- Going past a block of the log. -/
theorem Knows.learn {b : LogBlock} (hvalid : ValidLog rawUncompress all) (h : Knows all before st)
    (hmem : b ∈ all) (pos : ℕ) : Knows all (before ++ [b]) (st.learn pos b) := by
  cases b with
  | schema identifier name rawSchema =>
    cases hget : st.idToRecord.get? identifier with
    | some record =>
      rw [State.learn, if_pos (by rw [hget]; rfl)]
      exact h.concat_known hvalid hmem hget
    | none =>
      rw [State.learn, if_neg (by rw [hget]; exact Bool.false_ne_true)]
      exact h.concat_new hmem hget
  | data fields stored => exact (h.concat_of_none rfl).of_eq rfl
  | seekMarker body => exact h.concat_of_none rfl
  | index body => exact h.concat_of_none rfl

/-! ### What the reader learns -/

/-- A property of the records of a reader that holds on, whatever blocks of the log it goes past. -/
structure Stable (all : List LogBlock) (P : State → Prop) : Prop where
  of_eq : ∀ st st' : State, st'.idToRecord = st.idToRecord → st'.nameToRecord = st.nameToRecord →
    P st → P st'
  learn : ∀ (st : State) (pos : ℕ) (b : LogBlock), b ∈ all → P st → P (st.learn pos b)

/-- A reader that has gone past blocks of the log since. -/
def Learned (all : List LogBlock) (st st' : State) : Prop := ∀ P, Stable all P → P st → P st'

theorem Learned.refl (all : List LogBlock) (st : State) : Learned all st st := fun _ _ => id

theorem Learned.trans {st₁ st₂ st₃ : State} (h : Learned all st₁ st₂) (h' : Learned all st₂ st₃) :
    Learned all st₁ st₃ := fun P hP hst => h' P hP (h P hP hst)

theorem Learned.of_eq {st' : State} (hid : st'.idToRecord = st.idToRecord)
    (hname : st'.nameToRecord = st.nameToRecord) : Learned all st st' :=
  fun _ hP => hP.of_eq st st' hid hname

theorem Learned.of_core {st' : State} {b : LogBlock} {pos : ℕ} (hb : b ∈ all)
    (hcore : st'.core = st.core.learn pos b) : Learned all st st' := by
  intro P hP hst
  have hcore' : P st'.core := hcore ▸ hP.learn _ pos b hb (hP.of_eq st _ rfl rfl hst)
  exact hP.of_eq st'.core st' rfl rfl hcore'

/-- A known record stays known. -/
theorem stable_known (identifier : UInt64) (record : Record) :
    Stable all fun st => st.idToRecord.get? identifier = some record := by
  refine ⟨fun st st' hid _ h => hid ▸ h, fun st pos b _ h => ?_⟩
  cases b with
  | schema i name rawSchema =>
    unfold State.learn
    dsimp only
    split_ifs with hknown
    · exact h
    · show (st.idToRecord.insert i _).get? identifier = _
      rw [SortedMap.get?_insert, if_neg]
      · exact h
      · rintro rfl
        exact hknown (by rw [h]; rfl)
  | _ => exact h

theorem stable_knows (hvalid : ValidLog rawUncompress all) :
    Stable all (Knows all []) := by
  refine ⟨fun st st' hid _ h => h.of_eq hid, fun st pos b hb h => ?_⟩
  exact ⟨(h.learn hvalid hb pos).sound, nofun⟩

/-- The records by their names are those by their identifiers. -/
structure Cached (st : State) : Prop where
  sound : ∀ name record, st.nameToRecord.get? name = some record →
    record.name = name ∧ st.idToRecord.get? record.identifier = some record
  complete : ∀ identifier record, st.idToRecord.get? identifier = some record →
    st.nameToRecord.contains record.name = true

theorem stable_cached : Stable all Cached := by
  refine ⟨fun st st' hid hname h => ⟨hid ▸ hname ▸ h.sound, hid ▸ hname ▸ h.complete⟩,
    fun st pos b _ h => ?_⟩
  cases b with
  | schema i name rawSchema =>
    unfold State.learn
    dsimp only
    split_ifs with hknown
    · exact h
    · constructor
      · intro name' record hget
        change (st.nameToRecord.insert name _).get? name' = _ at hget
        show _ ∧ (st.idToRecord.insert i _).get? record.identifier = _
        rw [SortedMap.get?_insert] at hget ⊢
        split_ifs at hget with hname
        · obtain rfl := Option.some.inj hget
          exact ⟨hname.symm, if_pos rfl⟩
        · obtain ⟨hrecord, hid⟩ := h.sound name' record hget
          refine ⟨hrecord, (if_neg ?_).trans hid⟩
          intro heq
          exact hknown (by rw [← heq, hid]; rfl)
      · intro identifier record hget
        change (st.idToRecord.insert i _).get? identifier = _ at hget
        show ((st.nameToRecord.insert name _).get? record.name).isSome = true
        rw [SortedMap.get?_insert] at hget ⊢
        split_ifs at hget with hid
        · obtain rfl := Option.some.inj hget
          exact Option.isSome_iff_exists.mpr ⟨_, if_pos rfl⟩
        · split_ifs
          · rfl
          · exact h.complete identifier record hget
  | _ => exact ⟨h.sound, h.complete⟩

/-! ### A log's file -/

/-- The file from the block that the reader is at. -/
theorem rest_of_pos {b : LogBlock} (hpos : st.pos = (image before).length)
    (hall : all = before ++ b :: after) :
    rest (image all) st = b.encode ++ after.flatMap LogBlock.encode := by
  unfold rest
  rw [hpos, hall, drop_image, List.flatMap_cons]

theorem rest_of_append (hpos : st.pos = (image before).length) (hall : all = before ++ after) :
    rest (image all) st = after.flatMap LogBlock.encode := by
  unfold rest
  rw [hpos, hall, drop_image]

/-- There are no more blocks than bytes. -/
theorem length_le_flatMap (blocks : List LogBlock) :
    blocks.length ≤ (blocks.flatMap LogBlock.encode).length :=
  length_le_length_flatMap LogBlock.length_encode_pos blocks

theorem length_lt_image (blocks : List LogBlock) : blocks.length < (image blocks).length := by
  have h := length_le_flatMap blocks
  have hheader : 0 < FileWriter.State.fileHeader.length := by decide
  unfold image
  rw [List.length_append]
  omega

theorem readable_of_mem (hvalid : ValidLog rawUncompress all) : ∀ b ∈ all, Readable b := by
  intro b hb
  cases b with
  | schema identifier name rawSchema => exact hvalid.schema identifier name rawSchema hb
  | _ => trivial

/-- Stored data that the reader can decompress. -/
def Decompressible (rawUncompress : RawUncompress) : LogBlock → Prop
  | .data fields stored => fields.snappy = true → ∃ data, rawUncompress stored = some data
  | .schema .. => True
  | .seekMarker _ => True
  | .index _ => True

theorem decompressible_of_mem (hvalid : ValidLog rawUncompress all) :
    ∀ b ∈ all, Decompressible rawUncompress b := by
  intro b hb
  obtain ⟨before, after, hall⟩ := List.append_of_mem hb
  cases b with
  | data fields stored => exact (hvalid.data before fields stored after hall).2
  | _ => trivial

/-! ### The loop over an item range -/

/-- The filter of an item range without record names. -/
def unfiltered (itemsOptions : ItemsOptions) : Filter := .range { options := itemsOptions }

theorem learn_unfiltered (itemsOptions : ItemsOptions) (st : State) (b : LogBlock) :
    (unfiltered itemsOptions).learn st b = unfiltered itemsOptions := by
  cases b with
  | schema identifier name rawSchema => exact ite_self _
  | _ => rfl

/-- It stops at all data blocks. -/
theorem stops_unfiltered {itemsOptions : ItemsOptions} (h : itemsOptions.records = [])
    (b : LogBlock) : (unfiltered itemsOptions).stops b = decide (b.blockType = .kData) := by
  cases b with
  | data fields stored =>
    show (itemsOptions.records.isEmpty || _) = true
    rw [h]
    rfl
  | _ => rfl

/-- The reader after it has gone past blocks that start at a position. -/
def State.learnAll (st : State) : ℕ → List LogBlock → State
  | _, [] => st
  | pos, b :: blocks => (st.learn pos b).learnAll (pos + b.encode.length) blocks

theorem Learned.learnAll {blocks : List LogBlock} : ∀ (st : State) (pos : ℕ), (∀ b ∈ blocks, b ∈ all) →
    Learned all st (st.learnAll pos blocks) := by
  induction blocks with
  | nil => exact fun _ _ _ => .refl _ _
  | cons b blocks ih =>
    intro st pos hmem
    obtain ⟨hb, hblocks⟩ := List.forall_mem_cons.mp hmem
    exact Learned.trans (fun P hP => hP.learn st pos b hb) (ih _ _ hblocks)

theorem Knows.learnAll (hvalid : ValidLog rawUncompress all) : ∀ {blocks before : List LogBlock}
    {st : State} (pos : ℕ), (∀ b ∈ blocks, b ∈ all) → Knows all before st →
    Knows all (before ++ blocks) (st.learnAll pos blocks) := by
  intro blocks
  induction blocks with
  | nil => exact fun _ _ h => (List.append_nil _).symm ▸ h
  | cons b blocks ih =>
    intro before st pos hmem h
    obtain ⟨hb, hblocks⟩ := List.forall_mem_cons.mp hmem
    have hnext := ih (pos + b.encode.length) hblocks (h.learn hvalid hb pos)
    rwa [List.append_assoc] at hnext

/-- The items of blocks that start at a position, for a reader that may not know their records. -/
def itemsKnown (rawUncompress : RawUncompress) (st : State) :
    ℕ → List LogBlock → Except Error (List Item)
  | _, [] => .ok []
  | pos, .data fields stored :: blocks => do
    let item ← withKnown (st.idToRecord.get? fields.identifier)
      (itemOf pos fields (plainData rawUncompress fields stored))
    let items ← itemsKnown rawUncompress (st.learn pos (.data fields stored))
      (pos + (LogBlock.data fields stored).encode.length) blocks
    return item :: items
  | pos, .schema identifier name rawSchema :: blocks =>
    itemsKnown rawUncompress (st.learn pos (.schema identifier name rawSchema))
      (pos + (LogBlock.schema identifier name rawSchema).encode.length) blocks
  | pos, .seekMarker body :: blocks =>
    itemsKnown rawUncompress st (pos + (LogBlock.seekMarker body).encode.length) blocks
  | pos, .index body :: blocks =>
    itemsKnown rawUncompress st (pos + (LogBlock.index body).encode.length) blocks

/-- Only data blocks hold items. -/
theorem itemsKnown_cons_of_ne {blocks : List LogBlock} {b : LogBlock} (pos : ℕ)
    (h : b.blockType ≠ .kData) : itemsKnown rawUncompress st pos (b :: blocks) =
      itemsKnown rawUncompress (st.learn pos b) (pos + b.encode.length) blocks := by
  cases b with
  | data fields stored => exact absurd rfl h
  | _ => rfl

/-- A data block whose record is known. -/
theorem itemsKnown_cons_data {blocks : List LogBlock} {fields : DataFields} {stored : Bytes}
    {record : Record} (pos : ℕ) (hget : st.idToRecord.get? fields.identifier = some record) :
    itemsKnown rawUncompress st pos (.data fields stored :: blocks) =
      (itemsKnown rawUncompress (st.learn pos (.data fields stored))
        (pos + (LogBlock.data fields stored).encode.length) blocks).map
        (itemOf pos fields (plainData rawUncompress fields stored) record :: ·) := by
  rw [itemsKnown, hget]
  rfl

/-- **A reader that knows the records finds the items.** -/
theorem itemsKnown_eq (hvalid : ValidLog rawUncompress all) : ∀ {after before known : List LogBlock}
    {st : State} (pos : ℕ), all = before ++ after → Knows all known st →
    (∀ record ∈ recordsOf before, record ∈ recordsOf known) →
    itemsKnown rawUncompress st pos after = .ok (itemsFrom rawUncompress all pos after) := by
  intro after
  induction after with
  | nil => exact fun _ _ _ _ => rfl
  | cons b after ih =>
    intro before known st pos hall h hsub
    have hmem : b ∈ all := hall ▸ List.mem_append_right _ List.mem_cons_self
    have hall' : all = (before ++ [b]) ++ after := by rw [hall, List.append_assoc]; rfl
    have hsub' : ∀ record ∈ recordsOf (before ++ [b]), record ∈ recordsOf (known ++ [b]) := by
      intro record hrecord
      rw [recordsOf_append] at hrecord ⊢
      exact (List.mem_append.mp hrecord).elim (fun h => List.mem_append_left _ (hsub record h))
        (List.mem_append_right _)
    have hrest := ih (pos + b.encode.length) hall' (h.learn hvalid hmem pos) hsub'
    by_cases hb : b.blockType = .kData
    · cases b with
      | data fields stored =>
        obtain ⟨⟨record, hrecord, hid⟩, -⟩ := hvalid.data before fields stored after hall
        have hget : st.idToRecord.get? fields.identifier =
            some (recordFor all fields.identifier) := by
          have hmem : record ∈ recordsOf all := by
            rw [hall, recordsOf_append]
            exact List.mem_append_left _ hrecord
          rw [← hid, hvalid.recordFor_eq hmem]
          exact h.complete record (hsub record hrecord)
        rw [itemsKnown_cons_data _ hget, hrest]
        rfl
      | _ => cases hb
    · rw [itemsKnown_cons_of_ne _ hb, itemsFrom_cons_of_ne _ hb, hrest]

variable (options : Options)

/-- The loop over an item range, from the block that the reader is at. -/
def iterateFrom (rawUncompress : RawUncompress) (file : Bytes) (itemsOptions : ItemsOptions)
    (m n : ℕ) : M (List Item) := do
  let ((first, _), filter) ← readUntilLoop file m (unfiltered itemsOptions)
  iterate file options rawUncompress n first filter

theorem learn_learn_data (pos : ℕ) (fields : DataFields) (stored : Bytes) :
    (st.learn pos (.data fields stored)).learn pos (.data fields stored) =
      st.learn pos (.data fields stored) := by
  unfold State.learn
  dsimp only
  congr 1
  split_ifs <;> rfl

/-- Items in front of those that a computation returns. -/
def prepend (items : List Item) (result : Except Error (List Item) × State) :
    Except Error (List Item) × State :=
  (result.1.map (items ++ ·), result.2)

theorem prepend_prepend (items items' : List Item) (result : Except Error (List Item) × State) :
    prepend items (prepend items' result) = prepend (items ++ items') result := by
  obtain ⟨_ | items'', st'⟩ := result
  · rfl
  · show (Except.ok (items ++ (items' ++ items'')), st') = (Except.ok (items ++ items' ++ items''), st')
    rw [List.append_assoc]

theorem prepend_nil (result : Except Error (List Item) × State) : prepend [] result = result := by
  obtain ⟨_ | items, st'⟩ := result <;> rfl

/-- The reader behind blocks that start where it was. -/
structure Behind (file : Bytes) (st st' : State) (blocks : List LogBlock) (s : Bytes) : Prop where
  core : st'.core = st.core.learnAll st.pos blocks
  pos : st'.pos = st.pos + (blocks.flatMap LogBlock.encode).length
  crc : st'.crc = none
  rest : rest file st' = s

theorem Behind.cons {st₁ st₂ : State} {blocks : List LogBlock} {s' : Bytes}
    (h : Behind file st st₁ [b] s') (h' : Behind file st₁ st₂ blocks s) :
    Behind file st st₂ (b :: blocks) s := by
  have hpos : st₁.pos = st.pos + b.encode.length := by
    rw [h.pos, List.flatMap_singleton]
  have hcore : st₁.core = st.core.learn st.pos b := h.core
  refine ⟨?_, ?_, h'.crc, h'.rest⟩
  · rw [h'.core, hcore, hpos]
    rfl
  · rw [h'.pos, hpos, List.flatMap_cons, List.length_append, Nat.add_assoc]

variable {itemsOptions : ItemsOptions}

/-- A block that is not data is one pass of `ReadUntil`. -/
theorem iterateFrom_of_ne (ho : itemsOptions.records = []) (hlt : file.length < 2 ^ 63)
    (hb : Readable b) (hne : b.blockType ≠ .kData) (hcrc : st.crc = none)
    (hrest : rest file st = b.encode ++ s) (m n : ℕ) :
    ∃ st₁, Behind file st st₁ [b] s ∧
      iterateFrom options rawUncompress file itemsOptions (m + 1) n st =
        iterateFrom options rawUncompress file itemsOptions m n st₁ := by
  obtain ⟨st₁, hcore, hpos, hcrc₁, hrest₁, hloop⟩ :=
    readUntilLoop_block (unfiltered itemsOptions) hrest hb hcrc hlt m
  rw [stops_unfiltered ho, learn_unfiltered, if_neg (by simpa using hne)] at hloop
  refine ⟨st₁, ⟨hcore, ?_, hcrc₁, hrest₁⟩, bind_congr_left _ hloop⟩
  rw [hpos, List.flatMap_singleton]

/-- `operator*`, at a data block. -/
theorem read_of_block {fields : DataFields} {stored : Bytes} {pos : ℕ} (hlt : file.length < 2 ^ 63)
    (hplain : Decompressible rawUncompress (.data fields stored))
    (hdrop : file.drop pos = (LogBlock.data fields stored).encode ++ s) (st : State) :
    ∃ pos' crc blockSize, read file options rawUncompress pos st =
      (withKnown (st.idToRecord.get? fields.identifier)
        (itemOf pos fields (plainData rawUncompress fields stored)),
        { st with pos := pos', crc, blockSize }) := by
  have hle : pos + (LogBlock.data fields stored).encode.length + s.length ≤ file.length :=
    @length_le_file file s { st with pos } _ hdrop
  rw [LogBlock.encode_data] at hle hdrop
  refine read_eq hdrop (by omega) ?_
  unfold plainData
  cases hs : fields.snappy with
  | false => rfl
  | true =>
    obtain ⟨data, hdata⟩ := hplain hs
    rw [if_pos rfl, if_pos rfl, hdata, Option.getD_some]

/-- A data block is one pass of the loop, which ends it if the record is not known. -/
theorem iterateFrom_data (ho : itemsOptions.records = []) (hlt : file.length < 2 ^ 63)
    {fields : DataFields} {stored : Bytes}
    (hplain : Decompressible rawUncompress (.data fields stored)) (hcrc : st.crc = none)
    (hrest : rest file st = (LogBlock.data fields stored).encode ++ s) (m n : ℕ) :
    match st.core.idToRecord.get? fields.identifier with
    | none => ∃ st', iterateFrom options rawUncompress file itemsOptions (m + 1) (n + 1) st =
        (.error .outOfRange, st')
    | some record => ∃ st₁, Behind file st st₁ [.data fields stored] s ∧
      iterateFrom options rawUncompress file itemsOptions (m + 1) (n + 1) st =
        prepend [itemOf st.pos fields (plainData rawUncompress fields stored) record]
          (iterateFrom options rawUncompress file itemsOptions (file.length + 1) n st₁) := by
  have hdata : decide ((LogBlock.data fields stored).blockType = .kData) = true := rfl
  -- the block is found, and read
  obtain ⟨st₁, hcore, hpos, hcrc₁, hrest₁, hloop⟩ :=
    readUntilLoop_block (unfiltered itemsOptions) hrest trivial hcrc hlt m
  rw [stops_unfiltered ho, learn_unfiltered, if_pos hdata] at hloop
  obtain ⟨pos, crc, blockSize, hread⟩ := read_of_block options hlt hplain hrest st₁
  have hknown : st₁.idToRecord = st.core.idToRecord := by
    rw [← core_idToRecord, hcore]
    rfl
  rw [← hknown]
  have hfirst : iterateFrom options rawUncompress file itemsOptions (m + 1) (n + 1) st =
      iterate file options rawUncompress (n + 1) st.pos (unfiltered itemsOptions) st₁ := by
    unfold iterateFrom
    exact bind_ok hloop
  cases hget : st₁.idToRecord.get? fields.identifier with
  | none =>
    rw [hget] at hread
    refine ⟨{ st₁ with pos, crc, blockSize }, ?_⟩
    rw [hfirst, iterate, if_neg (by omega)]
    exact bind_error hread
  | some record =>
    rw [hget] at hread
    -- `operator++`: the block is found again, and then what is behind it
    have hrest₂ : rest file { st₁ with pos := st.pos, crc := none, blockSize } =
        (LogBlock.data fields stored).encode ++ s := hrest
    obtain ⟨st₃, hcore₃, hpos₃, hcrc₃, hrest₃, hagain⟩ := readUntilLoop_block
      (unfiltered itemsOptions) hrest₂ trivial rfl hlt file.length
    rw [stops_unfiltered ho, learn_unfiltered, if_pos hdata] at hagain
    have hagain' := (@readUntil_eq file { st₁ with pos, crc, blockSize }
      (unfiltered itemsOptions) st.pos).trans hagain
    have hcore₃' : st₃.core = st.core.learn st.pos (.data fields stored) := by
      rw [hcore₃]
      show st₁.core.learn st.pos _ = _
      rw [hcore]
      exact learn_learn_data _ _ _
    let st₄ : State := { st₃ with
      pos := st.pos + (LogBlock.data fields stored).encode.length, crc := none }
    have hbehind : Behind file st st₄ [.data fields stored] s := by
      refine ⟨hcore₃', ?_, rfl, ?_⟩
      · rw [List.flatMap_singleton]
      · show file.drop (st.pos + _) = s
        rw [← hrest₃, ← hpos₃]
        rfl
    refine ⟨st₄, hbehind, hfirst.trans ?_⟩
    rw [iterate, if_neg (by omega), bind_ok hread, bind_ok hagain']
    dsimp only
    rw [bind_congr_left _ (readUntil_eq _ _)]
    unfold iterateFrom
    rcases hnext : readUntilLoop file (file.length + 1) (unfiltered itemsOptions) st₄
      with ⟨_ | ⟨⟨first, next⟩, filter⟩, st₅⟩
    · rw [bind_error hnext, bind_error hnext]
      rfl
    · rw [bind_ok hnext, bind_ok hnext]
      dsimp only
      rcases hitems : iterate file options rawUncompress n first filter st₅
        with ⟨_ | items, st₆⟩
      · exact bind_error hitems
      · exact bind_ok hitems

/-- **The loop goes over the blocks that are left.**  Induction over these blocks. -/
theorem iterateFrom_append (ho : itemsOptions.records = []) (hlt : file.length < 2 ^ 63) :
    ∀ {blocks : List LogBlock} {st : State} {m n : ℕ},
    (∀ b ∈ blocks, Readable b) → (∀ b ∈ blocks, Decompressible rawUncompress b) →
    st.crc = none → rest file st = blocks.flatMap LogBlock.encode ++ s → blocks.length + 2 ≤ m →
    blocks.length + 1 ≤ n →
    match itemsKnown rawUncompress st.core st.pos blocks with
    | .error e => ∃ st', iterateFrom options rawUncompress file itemsOptions m n st = (.error e, st')
    | .ok items => ∃ st' m' n', Behind file st st' blocks s ∧
        iterateFrom options rawUncompress file itemsOptions m n st = prepend items
          (iterateFrom options rawUncompress file itemsOptions (m' + 2) (n' + 1) st') := by
  intro blocks
  induction blocks with
  | nil =>
    intro st m n _ _ hcrc hrest hm hn
    obtain ⟨m, rfl⟩ := Nat.exists_eq_add_of_le' hm
    obtain ⟨n, rfl⟩ := Nat.exists_eq_add_of_le' hn
    exact ⟨st, m, n, ⟨rfl, rfl, hcrc, hrest⟩, (prepend_nil _).symm⟩
  | cons b blocks ih =>
    intro st m n hb hplain hcrc hrest hm hn
    obtain ⟨m, rfl⟩ : ∃ k, m = k + 1 := ⟨m - 1, by omega⟩
    obtain ⟨n, rfl⟩ : ∃ k, n = k + 1 := ⟨n - 1, by omega⟩
    rw [List.length_cons] at hm hn
    rw [List.flatMap_cons, List.append_assoc] at hrest
    obtain ⟨hb₀, hbs⟩ := List.forall_mem_cons.mp hb
    obtain ⟨hplain₀, hplains⟩ := List.forall_mem_cons.mp hplain
    by_cases hdata : b.blockType = .kData
    · cases b with
      | data fields stored =>
        have hpass := iterateFrom_data options ho hlt hplain₀ hcrc hrest m n
        cases hget : st.core.idToRecord.get? fields.identifier with
        | none =>
          rw [hget] at hpass
          rw [itemsKnown, hget]
          exact hpass
        | some record =>
          rw [hget] at hpass
          obtain ⟨st₁, hbehind, hpass⟩ := hpass
          have hfuel : blocks.length + 2 ≤ file.length + 1 := by
            have h₁ := length_le_flatMap blocks
            have h₂ := length_le_file hrest
            have h₃ := (LogBlock.data fields stored).length_encode_pos
            rw [List.length_append] at h₂
            omega
          have hnext := @ih st₁ (file.length + 1) n hbs hplains hbehind.crc hbehind.rest hfuel
            (by omega)
          have hcore : st₁.core = st.core.learn st.pos (.data fields stored) := hbehind.core
          have hpos := hbehind.pos
          rw [List.flatMap_singleton] at hpos
          rw [hcore, hpos] at hnext
          rw [itemsKnown_cons_data _ hget, hpass]
          cases hitems : itemsKnown rawUncompress (st.core.learn st.pos (.data fields stored))
              (st.pos + (LogBlock.data fields stored).encode.length) blocks with
          | error e =>
            rw [hitems] at hnext
            obtain ⟨st', hnext⟩ := hnext
            exact ⟨st', by rw [hnext]; rfl⟩
          | ok items =>
            rw [hitems] at hnext
            obtain ⟨st', m', n', hbehind', hnext⟩ := hnext
            exact ⟨st', m', n', hbehind.cons hbehind', by rw [hnext, prepend_prepend]; rfl⟩
      | _ => cases hdata
    · obtain ⟨st₁, hbehind, hpass⟩ :=
        iterateFrom_of_ne options ho hlt hb₀ hdata hcrc hrest m (n + 1)
      have hnext := @ih st₁ m (n + 1) hbs hplains hbehind.crc hbehind.rest (by omega) (by omega)
      have hcore : st₁.core = st.core.learn st.pos b := hbehind.core
      have hpos := hbehind.pos
      rw [List.flatMap_singleton] at hpos
      rw [hcore, hpos] at hnext
      rw [itemsKnown_cons_of_ne _ hdata, hpass]
      cases hitems : itemsKnown rawUncompress (st.core.learn st.pos b) (st.pos + b.encode.length)
          blocks with
      | error e =>
        rw [hitems] at hnext
        exact hnext
      | ok items =>
        rw [hitems] at hnext
        obtain ⟨st', m', n', hbehind', hnext⟩ := hnext
        exact ⟨st', m', n', hbehind.cons hbehind', hnext⟩

/-- The loop, on a file that ends with the blocks. -/
theorem iterateFrom_eq (ho : itemsOptions.records = []) (hlt : file.length < 2 ^ 63)
    {blocks : List LogBlock} {m n : ℕ} (hb : ∀ b ∈ blocks, Readable b)
    (hplain : ∀ b ∈ blocks, Decompressible rawUncompress b) (hcrc : st.crc = none)
    (hrest : rest file st = blocks.flatMap LogBlock.encode) (hm : blocks.length + 2 ≤ m)
    (hn : blocks.length + 1 ≤ n) :
    ∃ st', iterateFrom options rawUncompress file itemsOptions m n st =
        (itemsKnown rawUncompress st.core st.pos blocks, st') ∧
      ∀ items, itemsKnown rawUncompress st.core st.pos blocks = .ok items →
        st'.core = st.core.learnAll st.pos blocks := by
  have h := @iterateFrom_append file [] rawUncompress options itemsOptions ho hlt blocks st m n hb
    hplain hcrc (by rw [hrest, List.append_nil]) hm hn
  cases hitems : itemsKnown rawUncompress st.core st.pos blocks with
  | error e =>
    rw [hitems] at h
    obtain ⟨st', h⟩ := h
    exact ⟨st', h, nofun⟩
  | ok items =>
    rw [hitems] at h
    obtain ⟨st', m', n', hbehind, h⟩ := h
    refine ⟨st', ?_, fun _ _ => hbehind.core⟩
    have hend : iterateFrom options rawUncompress file itemsOptions (m' + 2) (n' + 1) st' =
        (.ok [], st') := bind_ok (readUntilLoop_nil _ hbehind.rest (m' + 1))
    rw [h, hend]
    show (Except.ok (items ++ []), _) = _
    rw [List.append_nil]

/-- `items` runs the loop from where the range starts. -/
theorem items_eq_iterateFrom (ho : itemsOptions.records = []) {start : ℕ} (st : State)
    (hstart : (if itemsOptions.start < 0 then st.start else itemsOptions.start) = start) :
    items file options rawUncompress itemsOptions st =
      iterateFrom options rawUncompress file itemsOptions (file.length + 1) (file.length + 1)
        { st with pos := start, crc := none } := by
  have hcontext : itemRangeContext itemsOptions st = { options := itemsOptions } := by
    unfold itemRangeContext
    rw [ho]
    rfl
  unfold items
  rw [get_bind]
  dsimp only
  rw [hcontext, hstart]
  exact bind_congr_left _ (readUntil_eq _ _)

/-- **The items from a block of the log on**, for any reader. -/
theorem items_from_eq {itemsOptions : ItemsOptions} (ho : itemsOptions.records = [])
    (hvalid : ValidLog rawUncompress all) (hall : all = before ++ after) (st : State)
    (hstart : (if itemsOptions.start < 0 then st.start else itemsOptions.start) =
      (image before).length) :
    ∃ st', items (image all) options rawUncompress itemsOptions st =
        (itemsKnown rawUncompress st.core (image before).length after, st') ∧
      ∀ items, itemsKnown rawUncompress st.core (image before).length after = .ok items →
        st'.core = st.core.learnAll (image before).length after := by
  have hmem : ∀ b ∈ after, b ∈ all := fun b hb => hall ▸ List.mem_append_right _ hb
  have hle : after.length + 2 ≤ (image all).length + 1 := by
    have := length_lt_image all
    rw [hall, List.length_append] at this
    rw [hall]
    omega
  obtain ⟨st', hiterate, hcore⟩ := @iterateFrom_eq (image all) rawUncompress
    { st with pos := (image before).length, crc := none } options itemsOptions ho hvalid.length_lt
    after _ _ (fun b hb => readable_of_mem hvalid b (hmem b hb))
    (fun b hb => decompressible_of_mem hvalid b (hmem b hb)) rfl (rest_of_append rfl hall) hle
    (Nat.le_of_succ_le hle)
  exact ⟨st', (items_eq_iterateFrom options ho st hstart).trans hiterate, hcore⟩

/-- **The items of a log are found**, in order, by a reader that is open and knows records of the
log only. -/
theorem items_eq (hvalid : ValidLog rawUncompress all) (h : Knows all [] st)
    (hstart : st.start = (image []).length) :
    ∃ st', items (image all) options rawUncompress {} st =
      (.ok (itemsFrom rawUncompress all (image []).length all), st') := by
  obtain ⟨st', hitems, -⟩ := @items_from_eq _ _ [] all options {} rfl hvalid rfl st hstart
  refine ⟨st', hitems.trans ?_⟩
  rw [itemsKnown_eq hvalid _ rfl h.core (fun _ => id)]

end Mjlib.Telemetry.FileReader
