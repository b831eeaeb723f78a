import Mjlib.Lib.Run
import Mjlib.Telemetry.Equiv.FileWriter.Blocks

/-!
# Back links of a log file

A data block says how far back the previous data block of its identifier starts, and a seek marker
says so for every identifier.  `BackLinks` is what a file's blocks say when they are read.  The
writer keeps one position for each identifier, in the record that `WriteSchema` makes anew: a schema
that is written again in the middle of a file loses the position, and an identifier that never had a
schema keeps its position from one file to the next.  Where neither happens (`Allowed`), every file
has its back links right (`backLinks_of_guarded`).
-/

namespace Mjlib.Telemetry.FileWriter

open Base

/-! ### Reading a block -/

/-- A varuint and what follows it. -/
def varuint? (s : Bytes) : Option (UInt64 × Bytes) :=
  match readVaruint s with
  | (some v, s) => some (v, s)
  | (none, _) => none

/-- A block's type, and what follows its type and size. -/
def blockHeader? (b : Bytes) : Option (Format.BlockType × Bytes) := do
  let (type, s) ← varuint? b
  let blockType ← Format.BlockType.ofUInt64 type
  let (_, s) ← varuint? s
  return (blockType, s)

/-- A block's type. -/
def blockType? (b : Bytes) : Option Format.BlockType := (blockHeader? b).map (·.1)

/-- The identifier of a data block, and the offset back to the previous one if it has one. -/
def dataBlock? (b : Bytes) : Option (UInt64 × Option UInt64) := do
  let (blockType, s) ← blockHeader? b
  if blockType ≠ .kData then none
  else
    let (identifier, s) ← varuint? s
    let (flags, s) ← varuint? s
    if flags &&& Format.kPreviousOffset = 0 then return (identifier, none)
    else
      let (offset, _) ← varuint? s
      return (identifier, some offset)

/-- The given number of entries of a seek marker. -/
def entries? : ℕ → Bytes → Option (List (UInt64 × UInt64))
  | 0, _ => some []
  | n + 1, s => do
    let (identifier, s) ← varuint? s
    let (offset, s) ← varuint? s
    let rest ← entries? n s
    return (identifier, offset) :: rest

/-- The entries of a seek marker: an identifier and an offset each.  The signature, the CRC, the
header's size, the flags and the timestamp come before them. -/
def seekMarker? (b : Bytes) : Option (List (UInt64 × UInt64)) := do
  let (blockType, s) ← blockHeader? b
  if blockType ≠ .kSeekMarker then none
  else
    let (_, s) ← varuint? (s.drop 13)
    let (n, s) ← varuint? (s.drop 8)
    entries? n.toNat s

/-! ### What the links have to say -/

/-- Whether a block is a data block of an identifier. -/
def IsDataOf (identifier : UInt64) (b : Bytes) : Prop :=
  (dataBlock? b).map (·.1) = some identifier

instance (identifier : UInt64) (b : Bytes) : Decidable (IsDataOf identifier b) := by
  unfold IsDataOf
  infer_instance

/-- Where the data blocks of an identifier start, in a file from a position on. -/
def dataStarts (identifier : UInt64) : ℕ → List Bytes → List ℕ
  | _, [] => []
  | position, b :: file =>
    if IsDataOf identifier b then position :: dataStarts identifier (position + b.length) file
    else dataStarts identifier (position + b.length) file

/-- Where the last data block of an identifier starts. -/
def lastData (file : List Bytes) (identifier : UInt64) : Option ℕ :=
  (dataStarts identifier 0 file).getLast?

/-- The links of a block that comes after a given part of a file. -/
structure LinksTo (file : List Bytes) (b : Bytes) : Prop where
  /-- A data block's offset: zero if there is no earlier data block of its identifier. -/
  data : blockType? b = some .kData → ∃ identifier offset,
    dataBlock? b = some (identifier, some offset) ∧
      offset.toNat = (lastData file identifier).elim 0 (file.flatten.length - ·)
  /-- A seek marker's entries: one for each identifier that has data. -/
  seekMarker : blockType? b = some .kSeekMarker → ∃ entries, seekMarker? b = some entries ∧
    ∀ identifier offset, (identifier, offset) ∈ entries ↔
      ∃ start, lastData file identifier = some start ∧ offset.toNat = file.flatten.length - start

/-- Every block of a file has its links right. -/
def BackLinks (file : List Bytes) : Prop :=
  ∀ before b after, file = before ++ b :: after → LinksTo before b

/-- All files of the writer, the open one included, have their links right. -/
def BackLinked (s : State) : Prop :=
  (∀ file ∈ s.closed, BackLinks file) ∧ ∀ writer, s.writer = some writer → BackLinks writer.buffers

/-- The calls that keep the links right: no schema for an identifier that has data in the open file,
and no file opened while an identifier was given data but never a schema. -/
def Allowed (s : State) : Call → Prop
  | .writeSchema identifier _ =>
    ∀ writer, s.writer = some writer → lastData writer.buffers identifier = none
  | .openFile => ∀ x ∈ s.schema.entries, x.2.identifier = x.1
  | _ => True

instance (s : State) (call : Call) : Decidable (Allowed s call) :=
  match call with
  | .writeSchema identifier _ =>
    decidable_of_iff (∀ writer ∈ s.writer, lastData writer.buffers identifier = none) Iff.rfl
  | .openFile => inferInstanceAs (Decidable (∀ x ∈ s.schema.entries, x.2.identifier = x.1))
  | .close => isTrue trivial
  | .allocateIdentifier _ => isTrue trivial
  | .reserveIdentifier .. => isTrue trivial
  | .writeData .. => isTrue trivial

/-! ### Reading what was written -/

@[simp] theorem varuint?_writeVaruint (v : UInt64) (s : Bytes) :
    varuint? (writeVaruint v ++ s) = some (v, s) := by
  unfold varuint?
  rw [readVaruint_writeVaruint]

@[simp] theorem blockHeader?_block (blockType : Format.BlockType) (body : Bytes) :
    blockHeader? (block blockType body) = some (blockType, body) := by
  unfold blockHeader? block
  rw [List.append_assoc, varuint?_writeVaruint]
  simp only [Option.bind_eq_bind, Option.bind_some, Format.BlockType.ofUInt64_toUInt64,
    varuint?_writeVaruint]
  rfl

@[simp] theorem blockType?_block (blockType : Format.BlockType) (body : Bytes) :
    blockType? (block blockType body) = some blockType := by
  unfold blockType?
  rw [blockHeader?_block]
  rfl

theorem dataBlock?_block_of_ne {blockType : Format.BlockType} {body : Bytes}
    (h : blockType ≠ .kData) : dataBlock? (block blockType body) = none := by
  unfold dataBlock?
  rw [blockHeader?_block]
  exact if_pos h

theorem flags_and_kPreviousOffset {fields : DataFields} {offset : UInt64}
    (h : fields.previousOffset = some offset) :
    fields.flags &&& Format.kPreviousOffset ≠ 0 := by
  unfold DataFields.flags
  rw [h, Option.isSome_some]
  cases fields.timestamp.isSome <;> cases fields.checksum <;> cases fields.snappy <;> decide

/-- A data block is read as its identifier and its previous offset. -/
theorem dataBlock?_dataBlock {fields : DataFields} {offset : UInt64} (data : Bytes)
    (h : fields.previousOffset = some offset) :
    dataBlock? (dataBlock fields data) = some (fields.identifier, some offset) := by
  rw [dataBlock_eq]
  unfold dataBlock? DataFields.bodyStart
  rw [blockHeader?_block]
  simp only [List.append_assoc, Option.bind_eq_bind, Option.bind_some, varuint?_writeVaruint,
    ne_eq, not_true_eq_false, if_false, if_neg (flags_and_kPreviousOffset h), h, Option.elim_some]
  rfl

theorem entries?_flatMap (position : ℕ) (l : List (UInt64 × SchemaRecord)) :
    entries? l.length (l.flatMap fun x =>
      writeVaruint x.1 ++ writeVaruint (State.distance position x.2.lastPosition)) =
      some (l.map fun x => (x.1, State.distance position x.2.lastPosition)) := by
  induction l with
  | nil => rfl
  | cons x l ih =>
    rw [List.length_cons, entries?, List.flatMap_cons, List.append_assoc, varuint?_writeVaruint]
    simp only [Option.bind_eq_bind, Option.bind_some, varuint?_writeVaruint, ih]
    rfl

/-- The entries of a seek marker take room in the file. -/
theorem length_withData_le (s : State) (position : ℕ) (timestamp : Ptime) :
    s.withData.length ≤ (seekBlock s position timestamp).length := by
  have hentries : ∀ l : List (UInt64 × SchemaRecord), l.length ≤ (l.flatMap fun x =>
      writeVaruint x.1 ++ writeVaruint (State.distance position x.2.lastPosition)).length := by
    intro l
    induction l with
    | nil => exact Nat.zero_le _
    | cons x l ih =>
      have := length_writeVaruint_pos x.1
      simp only [List.flatMap_cons, List.length_cons, List.length_append] at ih ⊢
      omega
  have := hentries s.withData
  unfold seekBlock block seekBlockBody seekBlockRest
  simp only [List.length_append] at this ⊢
  omega

/-- A seek marker is read as the entries of the identifiers that have data. -/
theorem seekMarker?_seekBlock {s : State} {position : ℕ} {timestamp : Ptime}
    (h : (seekBlock s position timestamp).length < 2 ^ 63) :
    seekMarker? (seekBlock s position timestamp) =
      some (s.withData.map fun x => (x.1, State.distance position x.2.lastPosition)) := by
  have hsize : (UInt64.ofNat s.withData.length).toNat = s.withData.length := by
    have := length_withData_le s position timestamp
    rw [UInt64.toNat_ofNat', Nat.mod_eq_of_lt (by omega)]
  unfold seekMarker? seekBlock
  rw [blockHeader?_block]
  unfold seekBlockBody seekBlockRest
  simp only [Option.bind_eq_bind, Option.bind_some, ne_eq, not_true_eq_false, if_false]
  rw [List.drop_left' (by simp only [List.length_append, length_writeScalar])]
  simp only [List.append_assoc, varuint?_writeVaruint, Option.bind_some]
  rw [List.drop_left' (length_writeTimestamp timestamp)]
  simp only [varuint?_writeVaruint, Option.bind_some, hsize]
  exact entries?_flatMap position s.withData

/-! ### One more block -/

theorem dataStarts_concat (identifier : UInt64) (b : Bytes) : ∀ (file : List Bytes) (position : ℕ),
    dataStarts identifier position (file ++ [b]) = dataStarts identifier position file ++
      if IsDataOf identifier b then [position + file.flatten.length] else [] := by
  intro file
  induction file with
  | nil =>
    intro position
    by_cases h : IsDataOf identifier b <;> simp [dataStarts, h]
  | cons c file ih =>
    intro position
    rw [List.cons_append, dataStarts, dataStarts, ih, List.flatten_cons, List.length_append,
      Nat.add_assoc]
    by_cases h : IsDataOf identifier c
    · rw [if_pos h, if_pos h, List.cons_append]
    · rw [if_neg h, if_neg h]

theorem lastData_concat (file : List Bytes) (b : Bytes) (identifier : UInt64) :
    lastData (file ++ [b]) identifier =
      if IsDataOf identifier b then some file.flatten.length else lastData file identifier := by
  unfold lastData
  rw [dataStarts_concat, Nat.zero_add]
  by_cases h : IsDataOf identifier b
  · rw [if_pos h, if_pos h, List.getLast?_concat]
  · rw [if_neg h, if_neg h, List.append_nil]

theorem backLinks_concat {file : List Bytes} {b : Bytes} (hfile : BackLinks file)
    (hb : LinksTo file b) : BackLinks (file ++ [b]) := by
  intro before c after h
  rcases List.eq_nil_or_concat after with rfl | ⟨after, d, rfl⟩
  · obtain ⟨rfl, hc⟩ := List.append_inj' h rfl
    exact (List.cons.inj hc).1 ▸ hb
  · rw [List.concat_eq_append, ← List.cons_append, ← List.append_assoc] at h
    exact hfile before c after (List.append_inj' h rfl).1

/-- A block that is neither data nor a seek marker. -/
theorem linksTo_of_ne {b : Bytes} (file : List Bytes) (hdata : blockType? b ≠ some .kData)
    (hseek : blockType? b ≠ some .kSeekMarker) : LinksTo file b :=
  ⟨fun h => absurd h hdata, fun h => absurd h hseek⟩

theorem not_isDataOf_of_ne {b : Bytes} (identifier : UInt64) (h : dataBlock? b = none) :
    ¬IsDataOf identifier b := by
  unfold IsDataOf
  rw [h]
  exact nofun

theorem dataStarts_lt {identifier : UInt64} {start : ℕ} : ∀ {file : List Bytes} {position : ℕ},
    start ∈ dataStarts identifier position file → start ≤ position + file.flatten.length := by
  intro file
  induction file with
  | nil => exact fun h => absurd h (List.not_mem_nil)
  | cons b file ih =>
    intro position h
    rw [dataStarts] at h
    rw [List.flatten_cons, List.length_append]
    split_ifs at h with hb
    · rcases List.mem_cons.mp h with rfl | h
      · omega
      · have := ih h
        omega
    · have := ih h
      omega

theorem lastData_le {file : List Bytes} {identifier : UInt64} {start : ℕ}
    (h : lastData file identifier = some start) : start ≤ file.flatten.length := by
  have := dataStarts_lt (List.mem_of_getLast? h)
  omega

/-! ### The invariant -/

/-- Where the writer thinks that the last data block of an identifier starts. -/
def State.lastPosition? (s : State) (identifier : UInt64) : Option ℕ :=
  (s.schema.get? identifier).bind fun record =>
    if record.lastPosition < 0 then none else some record.lastPosition.toNat

/-- The writer's positions are those of the open file, and the links are right. -/
structure Tracks (s : State) : Prop where
  backLinked : BackLinked s
  lastPosition : ∀ writer, s.writer = some writer → ∀ identifier,
    s.lastPosition? identifier = lastData writer.buffers identifier

theorem toNat_distance {position start : ℕ} (hle : start ≤ position) (hlt : position < 2 ^ 63) :
    (State.distance position start).toNat = position - start := by
  unfold State.distance UInt64.ofInt
  rw [UInt64.toNat_ofNat']
  omega

/-- The previous offset of a data block is the one it has to be. -/
theorem toNat_getPreviousOffset {s : State} {writer : ThreadWriter} (h : Tracks s)
    (hw : s.writer = some writer) (identifier : UInt64) :
    (s.getPreviousOffset writer identifier).toNat =
      (lastData writer.buffers identifier).elim 0 (writer.buffers.flatten.length - ·) := by
  have hlast := h.lastPosition writer hw identifier
  unfold State.lastPosition? at hlast
  unfold State.getPreviousOffset
  cases hget : s.schema.get? identifier with
  | none =>
    rw [hget] at hlast
    rw [← hlast]
    rfl
  | some record =>
    rw [hget, Option.bind_some] at hlast
    dsimp only
    split_ifs with hneg
    · rw [if_pos hneg] at hlast
      rw [← hlast]
      rfl
    · rw [if_neg hneg] at hlast
      rw [← hlast, Option.elim_some,
        ← toNat_distance (lastData_le hlast.symm) writer.length_lt,
        Int.toNat_of_nonneg (not_lt.mp hneg)]
      rfl

/-- The entries of a seek marker are the ones they have to be. -/
theorem mem_entries_iff {s : State} {writer : ThreadWriter} (h : Tracks s)
    (hw : s.writer = some writer) (identifier offset : UInt64) :
    (identifier, offset) ∈
        s.withData.map (fun x => (x.1, State.distance writer.position x.2.lastPosition)) ↔
      ∃ start, lastData writer.buffers identifier = some start ∧
        offset.toNat = writer.buffers.flatten.length - start := by
  rw [← h.lastPosition writer hw identifier]
  unfold State.lastPosition? State.withData
  have hdist : ∀ record : SchemaRecord, ¬record.lastPosition < 0 →
      s.schema.get? identifier = some record →
      (State.distance writer.position record.lastPosition).toNat =
        writer.buffers.flatten.length - record.lastPosition.toNat := by
    intro record hneg hget
    have hlast := h.lastPosition writer hw identifier
    unfold State.lastPosition? at hlast
    rw [hget, Option.bind_some, if_neg hneg] at hlast
    have hle := lastData_le hlast.symm
    rw [← toNat_distance hle writer.length_lt, Int.toNat_of_nonneg (not_lt.mp hneg)]
    rfl
  constructor
  · intro hmem
    obtain ⟨x, hx, heq⟩ := List.mem_map.mp hmem
    obtain ⟨hx, hpos⟩ := List.mem_filter.mp hx
    obtain ⟨rfl, rfl⟩ := Prod.mk.inj heq
    have hneg : ¬x.2.lastPosition < 0 := by simpa using hpos
    have hget : s.schema.get? x.1 = some x.2 := SortedMap.get?_eq_some_iff.mpr hx
    refine ⟨x.2.lastPosition.toNat, ?_, hdist x.2 hneg hget⟩
    rw [hget, Option.bind_some, if_neg hneg]
  · rintro ⟨start, hstart, hoffset⟩
    obtain ⟨record, hget, hrecord⟩ := Option.bind_eq_some_iff.mp hstart
    split_ifs at hrecord with hneg
    cases hrecord
    refine List.mem_map.mpr ⟨(identifier, record), List.mem_filter.mpr
      ⟨SortedMap.get?_eq_some_iff.mp hget, by simpa using hneg⟩, ?_⟩
    rw [← hdist record hneg hget] at hoffset
    rw [UInt64.toNat_inj.mp hoffset]

/-- A block that is neither data nor a seek marker changes no link and no position. -/
theorem Appends.quiet {s s' : State} {b : Bytes} (happ : Appends s [b] s')
    (hdata : blockType? b ≠ some .kData) (hseek : blockType? b ≠ some .kSeekMarker)
    (hnone : dataBlock? b = none) (hback : BackLinked s) :
    BackLinked s' ∧ s'.schema = s.schema ∧ ∀ writer', s'.writer = some writer' →
      ∃ writer, s.writer = some writer ∧
        ∀ identifier, lastData writer'.buffers identifier = lastData writer.buffers identifier := by
  unfold Appends at happ
  cases hw : s.writer with
  | none =>
    rw [hw] at happ
    subst happ
    exact ⟨hback, rfl, fun writer' hw' => absurd (hw.symm.trans hw') nofun⟩
  | some writer =>
    rw [hw] at happ
    obtain ⟨writer', hbuffers, rfl⟩ := happ
    refine ⟨⟨hback.1, ?_⟩, rfl, ?_⟩
    · rintro _ ⟨⟩
      rw [hbuffers]
      exact backLinks_concat (hback.2 writer hw) (linksTo_of_ne _ hdata hseek)
    · rintro _ ⟨⟩
      refine ⟨writer, rfl, fun identifier => ?_⟩
      rw [hbuffers, lastData_concat, if_neg (not_isDataOf_of_ne identifier hnone)]

/-- A block that is neither data nor a seek marker keeps the invariant. -/
theorem Tracks.appends_of_ne {s s' : State} {b : Bytes} (h : Tracks s)
    (hdata : blockType? b ≠ some .kData) (hseek : blockType? b ≠ some .kSeekMarker)
    (hnone : dataBlock? b = none) (happ : Appends s [b] s') : Tracks s' := by
  obtain ⟨hback, hschema, hwriter⟩ := happ.quiet hdata hseek hnone h.backLinked
  refine ⟨hback, fun writer' hw' identifier => ?_⟩
  obtain ⟨writer, hw, hlast⟩ := hwriter writer' hw'
  rw [hlast, ← h.lastPosition writer hw]
  unfold State.lastPosition?
  rw [hschema]

theorem Tracks.appends_block {s s' : State} {blockType : Format.BlockType} {body : Bytes}
    (h : Tracks s) (hdata : blockType ≠ .kData) (hseek : blockType ≠ .kSeekMarker)
    (happ : Appends s [block blockType body] s') : Tracks s' :=
  h.appends_of_ne (by simpa using hdata) (by simpa using hseek) (dataBlock?_block_of_ne hdata) happ

/-- A new schema is harmless where its identifier has no data. -/
theorem Tracks.withSchema {s : State} {identifier : UInt64} (h : Tracks s)
    (hnone : ∀ writer, s.writer = some writer → lastData writer.buffers identifier = none)
    (name schema : Bytes) : Tracks (s.withSchema identifier name schema) := by
  refine ⟨h.backLinked, ?_⟩
  intro writer hw i
  unfold State.lastPosition? State.withSchema
  rw [SortedMap.get?_insert]
  split_ifs with hi
  · rw [hi, hnone writer hw]
    rfl
  · exact h.lastPosition writer hw i

/-- `WriteSchema`. -/
theorem Tracks.writeSchema {s s' : State} {identifier : UInt64} {schema : Bytes} (h : Tracks s)
    (hnone : ∀ writer, s.writer = some writer → lastData writer.buffers identifier = none)
    (hstep : s.writeSchema identifier schema = some s') : Tracks s' := by
  obtain ⟨name, _, happ⟩ := writeSchema_eq_some hstep
  exact (h.withSchema hnone name schema).appends_block (by decide) (by decide) happ

/-- A data block, and the position that the writer notes for it. -/
theorem Tracks.appends_dataBlock {platform : Platform} {s s' : State} {writer : ThreadWriter}
    {fields : DataFields} (h : Tracks s) (hw : s.writer = some writer)
    (hoffset : fields.previousOffset = some (s.getPreviousOffset writer fields.identifier))
    (data : Bytes)
    (happ : Appends (s.withPosition platform fields.identifier writer.position)
      [dataBlock fields data] s') : Tracks s' := by
  have hread := dataBlock?_dataBlock data hoffset
  unfold Appends at happ
  rw [show (s.withPosition platform fields.identifier writer.position).writer = some writer
    from hw] at happ
  obtain ⟨writer', hbuffers, rfl⟩ := happ
  refine ⟨⟨h.backLinked.1, ?_⟩, ?_⟩
  · rintro _ ⟨⟩
    rw [hbuffers]
    refine backLinks_concat (h.backLinked.2 writer hw) ⟨fun _ => ⟨_, _, hread, ?_⟩, ?_⟩
    · exact toNat_getPreviousOffset h hw _
    · intro hseek
      rw [dataBlock_eq, blockType?_block] at hseek
      cases hseek
  · rintro _ ⟨⟩ identifier
    have hdata : IsDataOf identifier (dataBlock fields data) ↔ identifier = fields.identifier := by
      unfold IsDataOf
      rw [hread, Option.map_some, Option.some_inj]
      exact eq_comm
    rw [hbuffers, lastData_concat]
    unfold State.lastPosition? State.withPosition
    rw [SortedMap.get?_insert]
    by_cases hi : identifier = fields.identifier
    · rw [if_pos hi, if_pos (hdata.mpr hi), Option.bind_some]
      exact if_neg (not_lt.mpr (Int.natCast_nonneg writer.position))
    · rw [if_neg hi, if_neg (mt hdata.mp hi)]
      exact h.lastPosition writer hw identifier

/-- A seek marker. -/
theorem Tracks.appends_seekBlock {s s' : State} {writer : ThreadWriter} {timestamp : Ptime}
    (h : Tracks s) (hw : s.writer = some writer)
    (happ : Appends s [seekBlock s writer.position timestamp] s') : Tracks s' := by
  unfold Appends at happ
  rw [hw] at happ
  obtain ⟨writer', hbuffers, rfl⟩ := happ
  have hlt : (seekBlock s writer.position timestamp).length < 2 ^ 63 := by
    have := writer'.length_lt
    rw [hbuffers, List.flatten_append, List.length_append, List.flatten_singleton] at this
    omega
  have hread := seekMarker?_seekBlock hlt
  refine ⟨⟨h.backLinked.1, ?_⟩, ?_⟩
  · rintro _ ⟨⟩
    rw [hbuffers]
    refine backLinks_concat (h.backLinked.2 writer hw) ⟨?_, fun _ => ⟨_, hread, ?_⟩⟩
    · intro hdata
      rw [seekBlock, blockType?_block] at hdata
      cases hdata
    · exact mem_entries_iff h hw
  · rintro _ ⟨⟩ identifier
    have hnone : dataBlock? (seekBlock s writer.position timestamp) = none :=
      dataBlock?_block_of_ne (by decide)
    rw [hbuffers, lastData_concat, if_neg (not_isDataOf_of_ne identifier hnone)]
    exact h.lastPosition writer hw identifier

/-! ### Calls -/

/-- The seek marker that may follow a data block. -/
theorem Tracks.maybeWriteSeekBlock {options : Options} {s s' : State} {writer : ThreadWriter}
    {timestamp : Ptime} (h : Tracks s) (hw : s.writer = some writer)
    (hstep : s.maybeWriteSeekBlock options timestamp = some s') : Tracks s' := by
  obtain ⟨lastSeekBlock, markers, hmarkers, happ⟩ := maybeWriteSeekBlock_eq_some hw hstep
  have hl : Tracks { s with lastSeekBlock := lastSeekBlock } := ⟨h.backLinked, h.lastPosition⟩
  rcases hmarkers with rfl | ⟨-, rfl⟩
  · unfold Appends at happ
    rw [show ({ s with lastSeekBlock := lastSeekBlock } : State).writer = some writer from hw]
      at happ
    obtain ⟨writer', hbuffers, rfl⟩ := happ
    rw [List.append_nil] at hbuffers
    refine ⟨⟨h.backLinked.1, ?_⟩, ?_⟩
    · rintro _ ⟨⟩
      exact hbuffers ▸ h.backLinked.2 writer hw
    · rintro _ ⟨⟩ identifier
      rw [hbuffers]
      exact h.lastPosition writer hw identifier
  · exact hl.appends_seekBlock hw happ

/-- `WriteData`. -/
theorem Tracks.writeData {platform : Platform} {options : Options} {s s' : State}
    {timestamp : Ptime} {identifier : UInt64} {serializedData : Bytes} {writeFlags : WriteFlags}
    {now : Ptime} (hprev : options.writePreviousOffsets = true) (h : Tracks s)
    (hstep : s.writeData platform options timestamp identifier serializedData writeFlags now =
      some s') : Tracks s' := by
  cases hw : s.writer with
  | none =>
    unfold State.writeData at hstep
    rw [hw] at hstep
    exact Option.some.inj hstep ▸ h
  | some writer =>
    obtain ⟨fields, rfl, s₁, happ, hseek⟩ := writeData_eq_some hw hstep
    have h₁ := @Tracks.appends_dataBlock platform s s₁ writer
      (dataFields platform options s writer timestamp identifier serializedData writeFlags now)
      h hw (if_pos hprev) _ happ
    unfold Appends at happ
    rw [show (s.withPosition platform _ writer.position).writer = some writer from hw] at happ
    obtain ⟨writer', _, rfl⟩ := happ
    exact h₁.maybeWriteSeekBlock rfl hseek

/-- The loop of `PostOpen`: there is no data yet, and every record that still has a position has a
new one coming. -/
theorem tracks_foldlM_writeSchema {l : List (UInt64 × SchemaRecord)} : ∀ {s s' : State},
    (∀ x ∈ l, x.2.identifier = x.1) → BackLinked s →
    (∀ writer, s.writer = some writer → ∀ identifier, lastData writer.buffers identifier = none) →
    (∀ identifier, s.lastPosition? identifier ≠ none → ∃ x ∈ l, x.1 = identifier) →
    l.foldlM (fun s x => s.writeSchema x.2.identifier x.2.schema) s = some s' → Tracks s' := by
  induction l with
  | nil =>
    intro s s' _ hback hdata hpos h
    cases h
    refine ⟨hback, fun writer hw identifier => ?_⟩
    rw [hdata writer hw]
    by_contra hne
    obtain ⟨x, hx, _⟩ := hpos identifier hne
    exact absurd hx (List.not_mem_nil)
  | cons x l ih =>
    intro s s' hkeys hback hdata hpos h
    rw [List.foldlM_cons] at h
    obtain ⟨s₁, hstep, h⟩ := Option.bind_eq_some_iff.mp h
    rw [hkeys x (by simp)] at hstep
    obtain ⟨name, _, happ⟩ := writeSchema_eq_some hstep
    obtain ⟨hback₁, hschema, hwriter⟩ := happ.quiet
      (by rw [schemaBlock, blockType?_block]; decide)
      (by rw [schemaBlock, blockType?_block]; decide) (dataBlock?_block_of_ne (by decide)) hback
    refine ih (fun y hy => hkeys y (List.mem_cons_of_mem _ hy)) hback₁ ?_ ?_ h
    · intro writer' hw' identifier
      obtain ⟨writer, hw, hlast⟩ := hwriter writer' hw'
      rw [hlast, hdata writer hw]
    · -- the position of the schema's identifier is gone, the others are as before
      intro identifier hne
      unfold State.lastPosition? at hne
      rw [hschema, State.withSchema, SortedMap.get?_insert] at hne
      split_ifs at hne with hi
      · exact absurd rfl hne
      · obtain ⟨y, hy, hyi⟩ := hpos identifier hne
        rcases List.mem_cons.mp hy with rfl | hy
        · exact absurd hyi.symm hi
        · exact ⟨y, hy, hyi⟩

/-- `Open`. -/
theorem Tracks.openFile {s s' : State} (h : Tracks s)
    (hkeys : ∀ x ∈ s.schema.entries, x.2.identifier = x.1) (hstep : s.openFile = some s') :
    Tracks s' := by
  unfold State.openFile at hstep
  cases hw : s.writer with
  | some writer =>
    rw [hw] at hstep
    cases hstep
  | none =>
    rw [hw] at hstep
    dsimp only at hstep
    unfold State.postOpen at hstep
    obtain ⟨s₁, hheader, hfold⟩ := Option.bind_eq_some_iff.mp hstep
    have happ := write_eq_some hheader
    rw [view_getBuffer_write] at happ
    have hempty : BackLinked { s with writer := some ThreadWriter.empty } := by
      refine ⟨h.backLinked.1, ?_⟩
      rintro _ ⟨⟩ before b after hfile
      exact absurd (congrArg List.length hfile) (by simp [ThreadWriter.empty])
    obtain ⟨hback, hschema, hwriter⟩ :=
      happ.quiet (by decide) (by decide) (by decide) hempty
    refine tracks_foldlM_writeSchema (hschema ▸ hkeys) hback ?_ ?_ hfold
    · intro writer' hw' identifier
      obtain ⟨_, ⟨⟩, hlast⟩ := hwriter writer' hw'
      exact hlast identifier
    · intro identifier hne
      obtain ⟨_, hlast⟩ := Option.ne_none_iff_exists'.mp hne
      obtain ⟨record, hget, _⟩ := Option.bind_eq_some_iff.mp hlast
      exact ⟨_, SortedMap.get?_eq_some_iff.mp hget, rfl⟩

/-- A file that is closed has the links it had. -/
theorem Tracks.closed {s : State} (h : Tracks s) : Tracks { s with
    writer := none
    lastSeekBlock := .notADateTime
    closed := s.closed ++ (s.writer.map ThreadWriter.buffers).toList } := by
  refine ⟨⟨?_, nofun⟩, nofun⟩
  intro file hfile
  rcases List.mem_append.mp hfile with hfile | hfile
  · exact h.backLinked.1 file hfile
  · obtain ⟨writer, hw, rfl⟩ := Option.map_eq_some_iff.mp (Option.mem_toList.mp hfile)
    exact h.backLinked.2 writer hw

/-- `Close`. -/
theorem Tracks.close {options : Options} {s s' : State} (h : Tracks s)
    (hstep : s.close options = some s') : Tracks s' := by
  unfold State.close at hstep
  cases hw : s.writer with
  | none =>
    rw [hw] at hstep
    exact Option.some.inj hstep ▸ h
  | some writer =>
    rw [hw] at hstep
    dsimp only at hstep
    split_ifs at hstep with hblock
    · obtain ⟨s₁, hindex, hstep⟩ := Option.bind_eq_some_iff.mp hstep
      cases hstep
      exact (h.appends_block (by decide) (by decide) (writeIndex_eq_some hindex)).closed
    · cases hstep
      exact h.closed

/-- Calls that only deal with identifiers. -/
theorem Tracks.of_eq {s s' : State} (h : Tracks s) (hwriter : s'.writer = s.writer)
    (hschema : s'.schema = s.schema) (hclosed : s'.closed = s.closed) : Tracks s' := by
  refine ⟨⟨hclosed ▸ h.backLinked.1, hwriter ▸ h.backLinked.2⟩, ?_⟩
  intro writer hw identifier
  rw [← h.lastPosition writer (hwriter ▸ hw)]
  unfold State.lastPosition?
  rw [hschema]

theorem allocateIdentifier_eq_some {s s' : State} {recordName : Bytes} {identifier : UInt64}
    (h : s.allocateIdentifier recordName = some (identifier, s')) :
    s'.writer = s.writer ∧ s'.schema = s.schema ∧ s'.closed = s.closed := by
  unfold State.allocateIdentifier at h
  split at h
  · cases h
    exact ⟨rfl, rfl, rfl⟩
  · obtain ⟨_, _, h⟩ := Option.bind_eq_some_iff.mp h
    cases h
    exact ⟨rfl, rfl, rfl⟩

theorem reserveIdentifier_eq_some {s s' : State} {recordName : Bytes} {identifier : UInt64}
    {b : Bool} (h : s.reserveIdentifier recordName identifier = some (b, s')) :
    s'.writer = s.writer ∧ s'.schema = s.schema ∧ s'.closed = s.closed := by
  unfold State.reserveIdentifier at h
  split at h
  · split_ifs at h
    cases h
    exact ⟨rfl, rfl, rfl⟩
  · split_ifs at h <;> (cases h; exact ⟨rfl, rfl, rfl⟩)

variable {platform : Platform} {options : Options}

/-- Every allowed call keeps the invariant. -/
theorem Tracks.step {s s' : State} {call : Call} (hprev : options.writePreviousOffsets = true)
    (h : Tracks s) (hallowed : Allowed s call)
    (hstep : FileWriter.step platform options s call = some s') : Tracks s' := by
  cases call with
  | openFile => exact h.openFile hallowed hstep
  | close => exact h.close hstep
  | allocateIdentifier recordName =>
    obtain ⟨⟨_, _⟩, hcall, rfl⟩ := Option.map_eq_some_iff.mp hstep
    obtain ⟨hwriter, hschema, hclosed⟩ := allocateIdentifier_eq_some hcall
    exact h.of_eq hwriter hschema hclosed
  | reserveIdentifier recordName identifier =>
    obtain ⟨⟨_, _⟩, hcall, rfl⟩ := Option.map_eq_some_iff.mp hstep
    obtain ⟨hwriter, hschema, hclosed⟩ := reserveIdentifier_eq_some hcall
    exact h.of_eq hwriter hschema hclosed
  | writeSchema identifier schema => exact h.writeSchema hallowed hstep
  | writeData timestamp identifier serializedData writeFlags now => exact h.writeData hprev hstep

/-- A new writer. -/
theorem tracks_new : Tracks {} := ⟨⟨nofun, nofun⟩, nofun⟩

/-- **The back links are right** in every file of a run whose calls are all allowed. -/
theorem backLinked_of_guarded {calls : List Call} (hprev : options.writePreviousOffsets = true)
    (hallowed : Run.Guarded (step platform options) Allowed {} calls) :
    Run.Always (step platform options) BackLinked {} calls :=
  Run.always_of_guarded (fun _ h => h.backLinked) (fun _ _ _ h => h.step hprev) tracks_new hallowed

/-- Two files, with two data blocks in the first one. -/
theorem backLinked_two_files :
    Run.Always (step ⟨fun data => data, 0⟩ {}) BackLinked {}
      [.openFile, .allocateIdentifier [0x61], .writeSchema 1 [0x02],
        .writeData .notADateTime 1 [0x01] {} .notADateTime,
        .writeData .notADateTime 1 [0x00] {} .notADateTime, .close, .openFile,
        .writeData .notADateTime 1 [0x01] {} .notADateTime] :=
  backLinked_of_guarded rfl (by decide +kernel)

/-- A schema that is written again cuts the chain: the data block after it says that there is none
before it. -/
theorem not_backLinked :
    ¬∀ (platform : Platform) (options : Options) (calls : List Call),
      options.writePreviousOffsets = true →
        Run.Always (step platform options) BackLinked {} calls := by
  intro h
  let options : Options :=
    { defaultCompression := false, defaultChecksumData := false, seekBlockPeriod := none,
      timestampsSystem := false }
  let calls : List Call :=
    [.openFile, .allocateIdentifier [0x61], .writeSchema 1 [],
      .writeData .notADateTime 1 [] {} .notADateTime, .writeSchema 1 [],
      .writeData .notADateTime 1 [] {} .notADateTime]
  have hfile : ((Run.run (step ⟨id, 0⟩ options) {} calls).bind State.writer).map
      ThreadWriter.buffers = some ([State.fileHeader, [1, 4, 1, 0, 1, 0x61], [2, 3, 1, 1, 0],
        [1, 4, 1, 0, 1, 0x61]] ++ [2, 3, 1, 1, 0] :: []) := by
    decide +kernel
  obtain ⟨writer, hw, hbuffers⟩ := Option.map_eq_some_iff.mp hfile
  obtain ⟨s, hrun, hw⟩ := Option.bind_eq_some_iff.mp hw
  have hback := ((h ⟨id, 0⟩ options calls rfl).last hrun).2 writer hw
  obtain ⟨identifier, offset, hread, hoffset⟩ := (hback _ _ _ hbuffers).data (by decide +kernel)
  have hread' : dataBlock? [2, 3, 1, 1, 0] = some (1, some 0) := by decide +kernel
  obtain ⟨rfl, rfl⟩ : 1 = identifier ∧ 0 = offset := by simpa using hread'.symm.trans hread
  exact absurd hoffset (by decide +kernel)

end Mjlib.Telemetry.FileWriter
