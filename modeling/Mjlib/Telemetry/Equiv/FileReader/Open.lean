import Mjlib.Telemetry.Equiv.FileWriter.Positions

/-!
# Opening a log

Opening a log file leaves a reader that knows records of the log only (`Opened`): `openFile_eq` for a
file whose end is no index, and `openFile_index` for one that ends in the index that the writer makes,
from which the reader loads the schemas (`loadLocalRecord_eq`).
-/

namespace Mjlib.Telemetry.FileReader

open Base FileWriter

variable {rawUncompress : RawUncompress} {all before after blocks : List LogBlock} {st : State}
  {file : Bytes}

theorem length_fileHeader : FileWriter.State.fileHeader.length = 9 := rfl

theorem nine_le_length_image (blocks : List LogBlock) : 9 ≤ (image blocks).length := by
  unfold image
  rw [List.length_append, length_fileHeader]
  omega

/-- The state after a file's header. -/
def atStart : State := { pos := 9, start := 9 }

/-- What an open reader knows of a log: records of it, all of them if it says so, and where the last
item is at most. -/
structure Opened (all : List LogBlock) (st : State) : Prop where
  knows : Knows all [] st
  found : st.allRecordsFound = true → Knows all all st
  cached : Cached st
  start : st.start = (image []).length
  finalItem : st.finalItem ≤ max 0 (lastWhere LogBlock.isData all)

/-- A reader that has seen no block. -/
theorem Opened.of_core (all : List LogBlock) (h : st.core = atStart.core) : Opened all st := by
  have hmap : st.idToRecord = ∅ := congrArg State.idToRecord h
  have hname : st.nameToRecord = ∅ := congrArg State.nameToRecord h
  have hfinal : st.finalItem = -1 := congrArg State.finalItem h
  have hfound : st.allRecordsFound = false := congrArg State.allRecordsFound h
  refine ⟨⟨?_, fun _ hr => absurd hr List.not_mem_nil⟩, ?_, ⟨?_, ?_⟩, congrArg State.start h, ?_⟩
  · rw [hmap]
    nofun
  · rw [hfound]
    nofun
  · rw [hname]
    nofun
  · rw [hmap]
    nofun
  · rw [hfinal]
    exact (by decide : (-1 : ℤ) ≤ 0).trans (le_max_left _ _)

theorem rest_fileHeader (s : Bytes) : rest (FileWriter.State.fileHeader ++ s) {} =
    Format.kHeader ++ (writeVaruint 0 ++ s) := by
  show (FileWriter.State.fileHeader ++ s).drop 0 = _
  rw [List.drop_zero, FileWriter.State.fileHeader, List.append_assoc]

theorem take_kHeader (s : Bytes) : (Format.kHeader ++ s).take 8 = Format.kHeader := rfl

/-- The header of a file. -/
theorem openFile_of_header (s : Bytes) : openFile (FileWriter.State.fileHeader ++ s) {} =
    maybeProcessIndex (FileWriter.State.fileHeader ++ s) atStart := by
  have hrest := rest_fileHeader s
  have hconsume : consume (FileWriter.State.fileHeader ++ s) 8 {} =
      (.ok ⟨⟩, State.advance {} Format.kHeader) := consume_of_rest hrest
  unfold openFile
  rw [get_bind, hrest, take_kHeader, bind_ok hconsume, if_neg (by simp),
    bind_ok (readVaruint_of_rest (rest_advance hrest)), if_neg (by simp), modify_bind]
  rfl

/-- The last eight bytes of a file. -/
theorem take_drop_last (file : Bytes) (h : 8 ≤ file.length) :
    (file.drop (file.length - 8)).take 8 = file.drop (file.length - 8) := by
  refine List.take_of_length_le ?_
  rw [List.length_drop]
  omega

theorem drop_last_eq_iff (trailer : Bytes) (ht : trailer.length = 8) :
    file.drop (file.length - 8) = trailer ↔ trailer <:+ file := by
  constructor
  · rintro rfl
    exact List.drop_suffix _ _
  · rintro ⟨s, rfl⟩
    rw [List.length_append, ht, Nat.add_sub_cancel]
    exact List.drop_left' rfl

/-- The first part of `MaybeProcessIndex`: the text at the end. -/
theorem maybeProcessIndex_of_not_suffix (h : 8 ≤ file.length)
    (htrailer : ¬Format.kIndexTrailer <:+ file) :
    ∃ st', maybeProcessIndex file st = (.ok ⟨⟩, st') ∧ st'.core = st.core := by
  unfold maybeProcessIndex
  rw [bind_ok (seek_of_nonneg (by omega : (0 : ℤ) ≤ file.length - 8)), get_bind]
  have hpos : ((file.length : ℤ) - 8).toNat = file.length - 8 := by omega
  have hrest : (rest file { st with pos := ((file.length : ℤ) - 8).toNat }).take 8 =
      file.drop (file.length - 8) := by
    unfold rest
    dsimp only
    rw [hpos, take_drop_last file h]
  rw [hrest, if_pos (fun ht => htrailer ((drop_last_eq_iff Format.kIndexTrailer rfl).mp ht))]
  exact ⟨_, rfl, rfl⟩

/-! ### The index -/

/-- An entry of an index. -/
def indexEntry (x : UInt64 × SchemaRecord) : Bytes :=
  writeVaruint x.1 ++ writeScalar 8 (BitVec.ofInt 64 x.2.schemaPosition) ++
    writeScalar 8 (BitVec.ofInt 64 x.2.lastPosition)

/-- What an entry of an index is read as. -/
def localRecord (x : UInt64 × SchemaRecord) : LocalRecord where
  identifier := x.1
  schemaLocation := (BitVec.ofInt 64 x.2.schemaPosition).toInt
  finalRecord := (BitVec.ofInt 64 x.2.lastPosition).toInt

theorem readLocalRecords_of_rest : ∀ {l : List (UInt64 × SchemaRecord)} {st : State} {s : Bytes},
    rest file st = l.flatMap indexEntry ++ s →
    readLocalRecords file l.length st =
      (.ok (l.map localRecord), st.advance (l.flatMap indexEntry)) := by
  intro l
  induction l with
  | nil =>
    intro st s _
    show (Except.ok [], st) = (Except.ok [], st.advance [])
    rw [advance_nil]
  | cons x l ih =>
    intro st s h
    rw [List.flatMap_cons, indexEntry] at h
    simp only [List.append_assoc] at h
    have h₁ := rest_advance h
    have h₂ := rest_advance h₁
    have h₃ := rest_advance h₂
    rw [List.length_cons, readLocalRecords, bind_ok (readVaruint_of_rest h), value_some_bind,
      bind_ok (readScalar_of_rest h₁), value_some_bind, bind_ok (readScalar_of_rest h₂),
      value_some_bind, bind_ok (ih h₃)]
    simp only [advance_advance, List.append_assoc]
    rw [List.flatMap_cons, indexEntry]
    simp only [List.append_assoc]
    rfl

/-- A reader that has loaded records of an index. -/
structure Loaded (all : List LogBlock) (l : List LocalRecord) (st st' : State) : Prop where
  learned : Learned all st st'
  known : ∀ loc ∈ l, (st'.idToRecord.get? loc.identifier).isSome = true
  finalItem : ∀ last, st.finalItem ≤ last → (∀ loc ∈ l, loc.finalRecord ≤ last) → st'.finalItem ≤ last
  start : st'.start = st.start
  crc : st'.crc = none

theorem Loaded.cons {loc : LocalRecord} {l : List LocalRecord} {st₁ st₂ : State}
    (h : Loaded all [loc] st st₁) (h' : Loaded all l st₁ st₂) : Loaded all (loc :: l) st st₂ := by
  refine ⟨h.learned.trans h'.learned, ?_, ?_, h'.start.trans h.start, h'.crc⟩
  · refine List.forall_mem_cons.mpr ⟨?_, h'.known⟩
    obtain ⟨record, hrecord⟩ := Option.isSome_iff_exists.mp (h.known loc List.mem_cons_self)
    exact Option.isSome_iff_exists.mpr ⟨record, h'.learned _ (stable_known _ _) hrecord⟩
  · intro last hst hl
    obtain ⟨hloc, hl⟩ := List.forall_mem_cons.mp hl
    exact h'.finalItem last (h.finalItem last hst (List.forall_mem_singleton.mpr hloc)) hl

/-- The reader with another final item. -/
def State.withFinalItem (st : State) (finalItem : ℤ) : State := { st with finalItem }

/-- What a record of the index points at is loaded. -/
theorem loadLocalRecord_of_block {identifier : UInt64} {name rawSchema : Bytes} {loc : LocalRecord}
    (hlt : (image all).length < 2 ^ 63)
    (hall : all = before ++ .schema identifier name rawSchema :: after)
    (hreadable : Readable (.schema identifier name rawSchema))
    (hid : loc.identifier = identifier) (hloc : loc.schemaLocation = (image before).length)
    (h : ∀ record, st.idToRecord.get? identifier = some record → record.identifier = identifier)
    (hcrc : st.crc = none) :
    ∃ st', loadLocalRecord (image all) loc st = (.ok ⟨⟩, st') ∧ st'.crc = none ∧
      st'.core = (st.core.learn (image before).length (.schema identifier name rawSchema)).withFinalItem
        (max st.finalItem loc.finalRecord) := by
  let b : LogBlock := .schema identifier name rawSchema
  let st₀ : State := { st with pos := (image before).length }
  have hrest : rest (image all) st₀ = b.encode ++ after.flatMap LogBlock.encode := rest_of_pos rfl hall
  obtain ⟨st₁, hprocess, hcore, hend⟩ := processSchema_eq .noFilter hrest hreadable hcrc
  have hrecord : ((st₀.idToRecord.get? identifier).getD
      (schemaRecord identifier name rawSchema)).identifier = identifier := by
    cases hget : st₀.idToRecord.get? identifier with
    | none => rfl
    | some record => exact h record hget
  have hbody : (processSchema (image all) .noFilter >>= fun r =>
      if r.1.identifier ≠ loc.identifier then throw .assertion
      else modify fun st => { st with finalItem :=
        if loc.finalRecord > st.finalItem then loc.finalRecord else st.finalItem } : M PUnit)
      (atBody st₀ b) = (.ok ⟨⟩, { st₁ with finalItem :=
        if loc.finalRecord > st₁.finalItem then loc.finalRecord else st₁.finalItem }) := by
    rw [bind_ok hprocess, if_neg (by rw [hrecord, hid]; exact fun h => h rfl)]
    rfl
  have hend' : AtEnd st₀ { st₁ with finalItem :=
      if loc.finalRecord > st₁.finalItem then loc.finalRecord else st₁.finalItem } b :=
    ⟨hend.crc, hend.nonneg, hend.pos⟩
  refine ⟨_, Eq.trans ?_ (inScope_block hrest hlt hbody hend'), hend.crc, ?_⟩
  · unfold loadLocalRecord
    rw [hloc, bind_ok (seek_of_nonneg (Int.natCast_nonneg _)), Int.toNat_natCast,
      bind_ok (readHeader_of_rest true hrest), value_some_bind]
  · have hfinal : st₁.finalItem = st.finalItem :=
      (congrArg State.finalItem hcore).trans (finalItem_learn_of_ne _ _ (b := b) nofun)
    have hmax : (if loc.finalRecord > st₁.finalItem then loc.finalRecord else st₁.finalItem) =
        max st.finalItem loc.finalRecord := by
      rw [hfinal]
      split_ifs <;> omega
    rw [hmax]
    exact congrArg (State.withFinalItem · (max st.finalItem loc.finalRecord)) hcore

/-- The schema that a record of the index points at is loaded. -/
theorem loadLocalRecord_eq {identifier : UInt64} {name rawSchema : Bytes} {loc : LocalRecord}
    (hvalid : ValidLog rawUncompress all)
    (hall : all = before ++ .schema identifier name rawSchema :: after)
    (hid : loc.identifier = identifier) (hloc : loc.schemaLocation = (image before).length)
    (h : Knows all [] st) (hcrc : st.crc = none) :
    ∃ st', loadLocalRecord (image all) loc st = (.ok ⟨⟩, st') ∧ Loaded all [loc] st st' := by
  let b : LogBlock := .schema identifier name rawSchema
  have hmem : b ∈ all := hall ▸ List.mem_append_right _ List.mem_cons_self
  obtain ⟨st', hload, hcrc', hcore⟩ := loadLocalRecord_of_block hvalid.length_lt hall
    (readable_of_mem hvalid _ hmem) hid hloc (fun record hget => (h.sound _ record hget).1) hcrc
  have hlearned : Knows all ([] ++ [b]) (st.core.learn (image before).length b) :=
    (h.of_eq rfl : Knows all [] st.core).learn hvalid hmem _
  have hrecords : st'.core.idToRecord = (st.core.learn (image before).length b).idToRecord := by
    rw [hcore]
    rfl
  have hnames : st'.core.nameToRecord = (st.core.learn (image before).length b).nameToRecord := by
    rw [hcore]
    rfl
  refine ⟨st', hload, ?_, ?_, ?_, ?_, hcrc'⟩
  · intro P hP hst
    have hnext := hP.learn _ (image before).length b hmem (hP.of_eq st st.core rfl rfl hst)
    exact hP.of_eq _ st' hrecords hnames hnext
  · refine List.forall_mem_singleton.mpr (Option.isSome_iff_exists.mpr
      ⟨schemaRecord identifier name rawSchema, ?_⟩)
    rw [hid, ← core_idToRecord, hrecords]
    exact hlearned.complete (schemaRecord identifier name rawSchema) (mem_recordsOf_schema.mpr rfl)
  · intro last hst hl
    have hfinal : st'.finalItem = max st.finalItem loc.finalRecord :=
      congrArg State.finalItem hcore
    rw [hfinal]
    exact max_le hst (hl loc List.mem_cons_self)
  · exact (congrArg State.start hcore).trans (start_learn _ _ _)

/-- All of them. -/
theorem forM_loadLocalRecord (hvalid : ValidLog rawUncompress all) :
    ∀ {l : List LocalRecord} {st : State},
    (∀ loc ∈ l, ∃ before name rawSchema after,
      all = before ++ .schema loc.identifier name rawSchema :: after ∧
        loc.schemaLocation = (image before).length) →
    Knows all [] st → st.crc = none →
    ∃ st', l.forM (loadLocalRecord (image all)) st = (.ok ⟨⟩, st') ∧ Loaded all l st st' := by
  intro l
  induction l with
  | nil => exact fun _ _ hcrc => ⟨_, rfl, .refl _ _, nofun, fun _ h _ => h, rfl, hcrc⟩
  | cons loc l ih =>
    intro st hl h hcrc
    obtain ⟨before, name, rawSchema, after, hall, hloc⟩ := hl loc List.mem_cons_self
    obtain ⟨st₁, hload, h₁⟩ := loadLocalRecord_eq hvalid hall rfl hloc h hcrc
    obtain ⟨st₂, hrest, h₂⟩ := ih (fun loc' hloc' => hl loc' (List.mem_cons_of_mem _ hloc'))
      (h₁.learned _ (stable_knows hvalid) h) h₁.crc
    exact ⟨st₂, (bind_ok hload).trans hrest, h₁.cons h₂⟩

/-- The index is read, and then the schemas that its records point at. -/
theorem processIndex_of_rest {s : FileWriter.State} (hsize : s.schema.size < 2 ^ 64) {tail : Bytes}
    (hrest : rest file st = s.indexRecords ++ tail) (h : st.records = []) :
    processIndex file st = (do
        (s.schema.entries.map localRecord).forM (loadLocalRecord file)
        modify fun st => { st with hasIndex := true, allRecordsFound := true } : M PUnit)
      { st.advance s.indexRecords with finalItem := 0 } := by
  unfold State.indexRecords at hrest ⊢
  simp only [List.append_assoc] at hrest ⊢
  have h₁ := rest_advance hrest
  have h₂ := rest_advance h₁
  have hn : (UInt64.ofNat s.schema.size).toNat = s.schema.entries.length := by
    rw [UInt64.toNat_ofNat', Nat.mod_eq_of_lt hsize]
    rfl
  have hentry : (fun x : UInt64 × SchemaRecord => writeVaruint x.1 ++
      (writeScalar 8 (BitVec.ofInt 64 x.2.schemaPosition) ++
        writeScalar 8 (BitVec.ofInt 64 x.2.lastPosition))) = indexEntry := by
    funext x
    rw [indexEntry, List.append_assoc]
  rw [hentry] at h₂ ⊢
  unfold processIndex
  rw [bind_ok (readVaruint_of_rest hrest), value_some_bind, if_neg (by simp),
    bind_ok (readVaruint_of_rest h₁), value_some_bind, hn, bind_ok (readLocalRecords_of_rest h₂),
    get_bind, advance_advance, advance_advance, if_neg (fun hne => hne h), modify_bind]

/-- The index that the writer makes for a log. -/
theorem processIndex_eq {s : FileWriter.State} (hlogs : Logs rawUncompress s blocks)
    (hpositions : Positions s blocks) (hvalid : ValidLog rawUncompress all)
    (hall : all = blocks ++ [.index (indexBody s)])
    (hsize : s.schema.size < 2 ^ 64) {tail : Bytes}
    (hrest : rest (image all) st = s.indexRecords ++ tail)
    (h : st.core = atStart.core) (hcrc : st.crc = none) :
    ∃ st', processIndex (image all) st = (.ok ⟨⟩, st') ∧ Opened all st' := by
  have hlt := hvalid.length_lt
  have hle : (image blocks).length ≤ (image all).length := by
    rw [hall, image_append, List.length_append]
    exact Nat.le_add_right _ _
  -- every record of the index points at the schema block of its identifier
  have hlocs : ∀ loc ∈ s.schema.entries.map localRecord, ∃ before name rawSchema after',
      all = before ++ .schema loc.identifier name rawSchema :: after' ∧
        loc.schemaLocation = (image before).length := by
    intro loc hloc
    obtain ⟨⟨identifier, record⟩, hmem, rfl⟩ := List.mem_map.mp hloc
    obtain ⟨_, before, after', rfl, hposition⟩ :=
      hlogs.schema identifier record (SortedMap.get?_eq_some_iff.mpr hmem)
    refine ⟨before, record.name, record.schema, after' ++ [.index (indexBody s)], ?_, ?_⟩
    · rw [hall, List.append_assoc, List.cons_append]
      rfl
    · rw [image_append, List.length_append] at hle
      show (BitVec.ofInt 64 record.schemaPosition).toInt = _
      rw [hposition, toInt_ofInt (by omega)]
  -- and has the position of its last data block
  have hfinal : ∀ loc ∈ s.schema.entries.map localRecord,
      loc.finalRecord ≤ max 0 (lastWhere LogBlock.isData all) := by
    intro loc hloc
    obtain ⟨⟨identifier, record⟩, hmem, rfl⟩ := List.mem_map.mp hloc
    have hlast := hpositions.lastPosition identifier record (SortedMap.get?_eq_some_iff.mpr hmem)
    have hrange := lastPosition_range identifier blocks
    have hdata : lastPosition identifier blocks ≤ lastWhere LogBlock.isData blocks :=
      lastPosition_le identifier blocks
    show (BitVec.ofInt 64 record.lastPosition).toInt ≤ _
    rw [hlast, toInt_ofInt (by omega), hall, lastWhere_concat]
    exact hdata.trans (le_max_right _ _)
  rw [processIndex_of_rest hsize hrest (congrArg State.records h)]
  generalize hst₁ : st.advance s.indexRecords = st₁
  have hcore₁ : st₁.core = atStart.core := by
    rw [← hst₁]
    exact h
  have hc₁ : st₁.crc = none := by
    rw [← hst₁]
    show st.crc.map _ = none
    rw [hcrc]
    rfl
  have hopened := Opened.of_core all hcore₁
  obtain ⟨st₂, hload, hloaded⟩ := @forM_loadLocalRecord _ all hvalid _
    { st₁ with finalItem := 0 } hlocs (hopened.knows.of_eq rfl) hc₁
  rw [bind_ok hload]
  have hknows : Knows all [] st₂ :=
    hloaded.learned _ (stable_knows hvalid) (hopened.knows.of_eq rfl)
  have hcached : Cached st₂ :=
    hloaded.learned _ stable_cached ⟨hopened.cached.sound, hopened.cached.complete⟩
  refine ⟨_, rfl, ⟨hknows.sound, nofun⟩, fun _ => ⟨hknows.sound, fun record hrecord => ?_⟩,
    ⟨hcached.sound, hcached.complete⟩, hloaded.start.trans hopened.start,
    hloaded.finalItem _ (le_max_left _ _) hfinal⟩
  -- the records that the writer knows are those of the log
  show st₂.idToRecord.get? record.identifier = some record
  obtain ⟨identifier, name, rawSchema, hmem, rfl⟩ := mem_recordsOf.mp hrecord
  have hmem' : .schema identifier name rawSchema ∈ blocks := by
    rw [hall] at hmem
    exact (List.mem_append.mp hmem).elim id (fun h => nomatch List.mem_singleton.mp h)
  obtain ⟨⟨r, hr, -, -⟩, -⟩ := hlogs.known identifier name rawSchema hmem'
  obtain ⟨record', hrecord'⟩ := Option.isSome_iff_exists.mp (hloaded.known
    (localRecord (identifier, r)) (List.mem_map_of_mem (SortedMap.get?_eq_some_iff.mp hr)))
  obtain ⟨hid, hin⟩ := hknows.sound _ _ hrecord'
  rw [← hvalid.unique record' hin _ hrecord hid]
  exact hid ▸ hrecord'

/-- The size that the index says it has. -/
def trailingSize (s : FileWriter.State) : BitVec 32 :=
  BitVec.ofNat 32 (s.indexRecords.length + 1 +
    Format.getVaruintSize (UInt64.ofNat (s.indexRecords.length + 4 + 8)) + 4 + 8)

theorem indexBody_eq (s : FileWriter.State) :
    indexBody s = s.indexRecords ++ (writeScalar 4 (trailingSize s) ++ Format.kIndexTrailer) := by
  unfold indexBody trailingSize
  rw [List.append_assoc]

/-- It is the size of the block, if 32 bits are enough for it. -/
theorem toNat_trailingSize {s : FileWriter.State} (hsmall : (indexBlock s).length < 2 ^ 32) :
    (trailingSize s).toNat = (indexBlock s).length := by
  have hbody : (indexBody s).length = s.indexRecords.length + 4 + 8 := by
    rw [indexBody_eq, List.length_append, List.length_append, length_writeScalar]
    rfl
  have hlen : (indexBlock s).length = s.indexRecords.length + 1 +
      Format.getVaruintSize (UInt64.ofNat (s.indexRecords.length + 4 + 8)) + 4 + 8 := by
    unfold indexBlock
    rw [block_eq, List.length_append, blockHead, List.length_append, length_writeVaruint_blockType,
      length_writeVaruint, hbody]
    omega
  unfold trailingSize
  rw [← hlen, BitVec.toNat_ofNat, Nat.mod_eq_of_lt hsmall]

/-- There are no more entries in an index than bytes. -/
theorem size_le_indexBlock (s : FileWriter.State) : s.schema.size ≤ (indexBlock s).length := by
  have hentry : ∀ x, 0 < (indexEntry x).length := by
    intro x
    have := length_writeVaruint_pos x.1
    rw [indexEntry, List.length_append, List.length_append]
    omega
  have hle : s.schema.size ≤ (s.schema.entries.flatMap indexEntry).length :=
    length_le_length_flatMap hentry s.schema.entries
  have hrecords : (s.schema.entries.flatMap indexEntry).length ≤ s.indexRecords.length := by
    unfold State.indexRecords
    rw [List.length_append]
    exact Nat.le_add_left _ _
  rw [indexBlock, block_eq, List.length_append, indexBody_eq, List.length_append]
  omega

/-- `MaybeProcessIndex`, on a log that ends in its index.  An index right behind the header of the
file passes for one that is larger than the log. -/
theorem maybeProcessIndex_cases {s : FileWriter.State} (hall : all = blocks ++ [.index (indexBody s)])
    (hsmall : (indexBlock s).length < 2 ^ 32) :
    ∃ st', st'.core = atStart.core ∧ st'.crc = none ∧
      ((blocks = [] ∧ maybeProcessIndex (image all) atStart = (.ok ⟨⟩, st')) ∨
        (blocks ≠ [] ∧ ∃ tail, rest (image all) st' = s.indexRecords ++ tail ∧
          maybeProcessIndex (image all) atStart = processIndex (image all) st')) := by
  have hfile : image all = image blocks ++ indexBlock s := by
    rw [hall, image_append, List.flatMap_singleton]
    rfl
  obtain ⟨front, hfront⟩ : ∃ front, image all =
      front ++ (writeScalar 4 (trailingSize s) ++ Format.kIndexTrailer) := by
    rw [hfile, indexBlock, block_eq]
    refine ⟨image blocks ++ (blockHead .kIndex (indexBody s).length ++ s.indexRecords), ?_⟩
    rw [indexBody_eq]
    simp only [List.append_assoc]
  have hlen : (image all).length = front.length + 12 := by
    rw [hfront, List.length_append, List.length_append, length_writeScalar]
    rfl
  have hlen' : (image all).length = (image blocks).length + (indexBlock s).length := by
    rw [hfile, List.length_append]
  -- the text at the end
  have htrailer : (rest (image all) { atStart with pos := (((image all).length : ℤ) - 8).toNat }).take
      8 = Format.kIndexTrailer := by
    have hpos : (((image all).length : ℤ) - 8).toNat = (image all).length - 8 := by omega
    unfold rest
    dsimp only
    rw [hpos, take_drop_last _ (by omega), drop_last_eq_iff _ rfl, hfront]
    exact ⟨front ++ writeScalar 4 (trailingSize s), by rw [List.append_assoc]⟩
  unfold maybeProcessIndex
  rw [bind_ok (seek_of_nonneg (by omega : (0 : ℤ) ≤ (image all).length - 8)), get_bind, htrailer,
    bind_ok (rfl : consume (image all) 8 _ = _), if_neg (by simp),
    bind_ok (seek_of_nonneg (by omega : (0 : ℤ) ≤ (image all).length - 12))]
  generalize hst₁ : ({ State.advance { atStart with pos := (((image all).length : ℤ) - 8).toNat } _
    with pos := (((image all).length : ℤ) - 12).toNat } : State) = st₁
  have hrest : rest (image all) st₁ = writeScalar 4 (trailingSize s) ++ Format.kIndexTrailer := by
    have hpos : (((image all).length : ℤ) - 12).toNat = front.length := by omega
    rw [← hst₁]
    unfold rest
    dsimp only
    rw [hpos, hfront, List.drop_left' rfl]
  have hcore : st₁.core = atStart.core := by
    rw [← hst₁]
    rfl
  have hcrc : st₁.crc = none := by
    rw [← hst₁]
    rfl
  have hstart : (st₁.advance (writeScalar 4 (trailingSize s))).start = 9 :=
    congrArg State.start hcore
  rw [bind_ok (readScalar_of_rest hrest), value_some_bind, get_bind, toNat_trailingSize hsmall,
    hstart]
  split_ifs with hbig
  · -- nothing but the index is in the file
    refine ⟨st₁.advance (writeScalar 4 (trailingSize s)), hcore, ?_, Or.inl ⟨?_, rfl⟩⟩
    · show st₁.crc.map _ = none
      rw [hcrc]
      rfl
    · rw [hlen'] at hbig
      have hlength := length_lt_image blocks
      have hheader := length_image blocks
      have hnine : (image []).length = 9 := rfl
      have hle := length_le_flatMap blocks
      exact List.eq_nil_of_length_eq_zero (by omega)
  · rw [bind_ok (seek_of_nonneg
      (by omega : (0 : ℤ) ≤ (image all).length - (indexBlock s).length))]
    have hne : blocks ≠ [] := by
      rintro rfl
      have hnine : (image []).length = 9 := rfl
      omega
    have hpos : (((image all).length : ℤ) - (indexBlock s).length).toNat =
        (image blocks).length := by omega
    rw [hpos]
    generalize hst₂ : ({ st₁.advance (writeScalar 4 (trailingSize s)) with
      pos := (image blocks).length } : State) = st₂
    have hblock : rest (image all) st₂ = block .kIndex (indexBody s) ++ [] := by
      rw [← hst₂, List.append_nil]
      unfold rest
      rw [hfile, List.drop_left' rfl]
      rfl
    have hbody : rest (image all) (st₂.advance (blockHead .kIndex (indexBody s).length)) =
        s.indexRecords ++ (writeScalar 4 (trailingSize s) ++ Format.kIndexTrailer) := by
      rw [block_eq, List.append_assoc, List.append_nil] at hblock
      rw [rest_advance hblock, indexBody_eq]
    rw [bind_ok (readHeader_of_rest true hblock)]
    have hcrc₂ : (st₂.advance (blockHead .kIndex (indexBody s).length)).crc = none := by
      rw [← hst₂]
      show (st₁.crc.map _).map _ = none
      rw [hcrc]
      rfl
    exact ⟨_, by rw [← hst₂]; exact hcore, hcrc₂, Or.inr ⟨hne, _, hbody, rfl⟩⟩

/-- `MaybeProcessIndex`, on a log that ends in its index. -/
theorem maybeProcessIndex_eq {s : FileWriter.State} (hlogs : Logs rawUncompress s blocks)
    (hpositions : Positions s blocks) (hall : all = blocks ++ [.index (indexBody s)])
    (hvalid : ValidLog rawUncompress all) (hsmall : (indexBlock s).length < 2 ^ 32) :
    ∃ st', maybeProcessIndex (image all) atStart = (.ok ⟨⟩, st') ∧ Opened all st' := by
  have hsize : s.schema.size < 2 ^ 64 := by
    have := size_le_indexBlock s
    omega
  obtain ⟨st, hcore, hcrc, ⟨-, hindex⟩ | ⟨-, tail, hrest, hindex⟩⟩ :=
    maybeProcessIndex_cases hall hsmall
  · exact ⟨st, hindex, .of_core all hcore⟩
  · rw [hindex]
    exact processIndex_eq hlogs hpositions hvalid hall hsize hrest hcore hcrc

/-- A file whose end is no index is opened. -/
theorem openFile_of_not_suffix {s : Bytes}
    (htrailer : ¬Format.kIndexTrailer <:+ FileWriter.State.fileHeader ++ s) :
    ∃ st', openFile (FileWriter.State.fileHeader ++ s) {} = (.ok ⟨⟩, st') ∧
      st'.core = atStart.core := by
  have hle : 8 ≤ (FileWriter.State.fileHeader ++ s).length := by
    rw [List.length_append, length_fileHeader]
    omega
  obtain ⟨st', hindex, hcore⟩ := maybeProcessIndex_of_not_suffix hle htrailer
  exact ⟨st', (openFile_of_header s).trans hindex, hcore⟩

/-- **A log without an index is opened.** -/
theorem openFile_eq (blocks : List LogBlock) (htrailer : ¬Format.kIndexTrailer <:+ image blocks) :
    ∃ st', openFile (image blocks) {} = (.ok ⟨⟩, st') ∧ Opened blocks st' := by
  obtain ⟨st', hopen, hcore⟩ := openFile_of_not_suffix htrailer
  exact ⟨st', hopen, .of_core blocks hcore⟩

/-- **A log that ends in its index is opened.** -/
theorem openFile_index {s : FileWriter.State} (hlogs : Logs rawUncompress s blocks)
    (hpositions : Positions s blocks) (hall : all = blocks ++ [.index (indexBody s)])
    (hvalid : ValidLog rawUncompress all) (hsmall : (indexBlock s).length < 2 ^ 32) :
    ∃ st', openFile (image all) {} = (.ok ⟨⟩, st') ∧ Opened all st' := by
  obtain ⟨st', hindex, hopened⟩ := maybeProcessIndex_eq hlogs hpositions hall hvalid hsmall
  exact ⟨st', (openFile_of_header _).trans hindex, hopened⟩

end Mjlib.Telemetry.FileReader
