import Mjlib.Telemetry.Equiv.FileReader.Blocks

/-!
# A log, as a list of blocks

A log file is a header followed by blocks, and says what items it holds: `LogBlock` is a block,
`image` the file of a list of blocks, and `itemsFrom` the items of such a list, each with the
position of its block as its index.  `ValidLog` is what a reader relies on.  The writer's files are
images of valid logs, and a reader of an image finds the items of the log.
-/

namespace Mjlib.Telemetry

open Base FileWriter FileReader

/-- There are no more elements than bytes, if each has one. -/
theorem length_le_length_flatMap {α β : Type} {f : α → List β} (h : ∀ x, 0 < (f x).length) :
    ∀ l : List α, l.length ≤ (l.flatMap f).length := by
  intro l
  induction l with
  | nil => exact Nat.zero_le _
  | cons x l ih =>
    have := h x
    rw [List.flatMap_cons, List.length_cons, List.length_append]
    omega

/-- A block of a log file. -/
inductive LogBlock
  | schema (identifier : UInt64) (name rawSchema : Bytes)
  | data (fields : DataFields) (stored : Bytes)
  | seekMarker (body : Bytes)
  | index (body : Bytes)

namespace LogBlock

/-- The type of a block. -/
def blockType : LogBlock → Format.BlockType
  | schema .. => .kSchema
  | data .. => .kData
  | seekMarker _ => .kSeekMarker
  | index _ => .kIndex

/-- The body of a block. -/
def body : LogBlock → Bytes
  | schema identifier name rawSchema => schemaBody identifier name rawSchema
  | data fields stored => fields.bodyStart (fields.crc stored) ++ stored
  | seekMarker body => body
  | index body => body

/-- A block's bytes. -/
def encode (b : LogBlock) : Bytes := block b.blockType b.body

/-- The record that a schema block makes. -/
def record? : LogBlock → Option Record
  | schema identifier name rawSchema => some (schemaRecord identifier name rawSchema)
  | data .. => none
  | seekMarker _ => none
  | index _ => none

theorem encode_data (fields : DataFields) (stored : Bytes) :
    (data fields stored).encode = dataBlock fields stored := (dataBlock_eq fields stored).symm

theorem length_encode_pos (b : LogBlock) : 0 < b.encode.length := by
  have := length_writeVaruint_blockType b.blockType
  unfold encode block
  simp only [List.length_append]
  omega

end LogBlock

/-- The file of a list of blocks. -/
def image (blocks : List LogBlock) : Bytes :=
  FileWriter.State.fileHeader ++ blocks.flatMap LogBlock.encode

/-- The records of a list of blocks. -/
def recordsOf (blocks : List LogBlock) : List Record := blocks.filterMap LogBlock.record?

/-- The record of an identifier. -/
def recordFor (blocks : List LogBlock) (identifier : UInt64) : Record :=
  ((recordsOf blocks).find? (·.identifier = identifier)).getD {}

variable (rawUncompress : RawUncompress)

/-- What a reader relies on. -/
structure ValidLog (blocks : List LogBlock) : Prop where
  length_lt : (image blocks).length < 2 ^ 63
  schema : ∀ identifier name rawSchema, .schema identifier name rawSchema ∈ blocks →
    name.length ≤ Format.kMaxStringSize ∧
      ∃ root, BinarySchemaParser.parse rawSchema name = .ok root
  unique : ∀ record ∈ recordsOf blocks, ∀ record' ∈ recordsOf blocks,
    record.identifier = record'.identifier → record = record'
  data : ∀ before fields stored after, blocks = before ++ .data fields stored :: after →
    (∃ record ∈ recordsOf before, record.identifier = fields.identifier) ∧
      (fields.snappy = true → ∃ data, rawUncompress stored = some data)

/-- The data that a data block stores. -/
def plainData (fields : DataFields) (stored : Bytes) : Bytes :=
  if fields.snappy then (rawUncompress stored).getD [] else stored

/-- What the data blocks of a list of blocks hold: identifiers, times and data. -/
def dataOf (blocks : List LogBlock) : List (UInt64 × Ptime × Bytes) :=
  blocks.filterMap fun b => match b with
    | .data fields stored => some (fields.identifier, fields.timestamp.getD .notADateTime,
        plainData rawUncompress fields stored)
    | .schema .. => none
    | .seekMarker _ => none
    | .index _ => none

/-- The items of a list of blocks of the log `all`, from a position on. -/
def itemsFrom (all : List LogBlock) : ℕ → List LogBlock → List Item
  | _, [] => []
  | position, .data fields stored :: blocks =>
    itemOf position fields (plainData rawUncompress fields stored)
        (recordFor all fields.identifier) ::
      itemsFrom all (position + (LogBlock.data fields stored).encode.length) blocks
  | position, .schema identifier name rawSchema :: blocks =>
    itemsFrom all (position + (LogBlock.schema identifier name rawSchema).encode.length) blocks
  | position, .seekMarker body :: blocks =>
    itemsFrom all (position + (LogBlock.seekMarker body).encode.length) blocks
  | position, .index body :: blocks =>
    itemsFrom all (position + (LogBlock.index body).encode.length) blocks

variable {rawUncompress}

theorem image_append (before after : List LogBlock) :
    image (before ++ after) = image before ++ after.flatMap LogBlock.encode := by
  unfold image
  rw [List.flatMap_append, List.append_assoc]

theorem length_image_concat (before : List LogBlock) (b : LogBlock) :
    (image (before ++ [b])).length = (image before).length + b.encode.length := by
  rw [image_append, List.length_append, List.flatMap_singleton]

/-- The file from a block on. -/
theorem drop_image (before after : List LogBlock) :
    (image (before ++ after)).drop (image before).length = after.flatMap LogBlock.encode := by
  rw [image_append, List.drop_left' rfl]

theorem recordsOf_append (before after : List LogBlock) :
    recordsOf (before ++ after) = recordsOf before ++ recordsOf after := List.filterMap_append

/-- The record of an identifier is the one with that identifier. -/
theorem ValidLog.recordFor_eq {blocks : List LogBlock} (h : ValidLog rawUncompress blocks)
    {record : Record} (hrecord : record ∈ recordsOf blocks) :
    recordFor blocks record.identifier = record := by
  unfold recordFor
  cases hfind : (recordsOf blocks).find? (·.identifier = record.identifier) with
  | none =>
    have := List.find?_eq_none.mp hfind record hrecord
    simp at this
  | some record' =>
    have hid := List.find?_some hfind
    exact h.unique record' (List.mem_of_find?_eq_some hfind) record hrecord (by simpa using hid)

/-- The items of a log. -/
def itemsOf (rawUncompress : RawUncompress) (all : List LogBlock) : List Item :=
  itemsFrom rawUncompress all (image []).length all

/-- Only data blocks hold items. -/
theorem itemsFrom_cons_of_ne {all blocks : List LogBlock} {b : LogBlock} (position : ℕ)
    (h : b.blockType ≠ .kData) : itemsFrom rawUncompress all position (b :: blocks) =
      itemsFrom rawUncompress all (position + b.encode.length) blocks := by
  cases b with
  | data fields stored => exact absurd rfl h
  | _ => rfl

theorem itemsFrom_append (all : List LogBlock) : ∀ (before after : List LogBlock) (position : ℕ),
    itemsFrom rawUncompress all position (before ++ after) =
      itemsFrom rawUncompress all position before ++ itemsFrom rawUncompress all
        (position + (before.flatMap LogBlock.encode).length) after := by
  intro before
  induction before with
  | nil => exact fun _ _ => rfl
  | cons b before ih =>
    intro after position
    rw [List.flatMap_cons, List.length_append, ← Nat.add_assoc, List.cons_append]
    cases b with
    | data fields stored =>
      rw [itemsFrom, itemsFrom, ih]
      rfl
    | _ => exact ih after _

/-- The index of an item is the position of its block. -/
theorem mem_itemsFrom_iff {all : List LogBlock} {item : Item} :
    ∀ {blocks : List LogBlock} {position : ℕ}, item ∈ itemsFrom rawUncompress all position blocks ↔
      ∃ before fields stored after, blocks = before ++ .data fields stored :: after ∧
        item = itemOf (position + (before.flatMap LogBlock.encode).length : ℕ) fields
          (plainData rawUncompress fields stored) (recordFor all fields.identifier) := by
  intro blocks
  induction blocks with
  | nil => simp [itemsFrom]
  | cons b blocks ih =>
    intro position
    -- an item of the blocks behind the first one
    have htail : item ∈ itemsFrom rawUncompress all (position + b.encode.length) blocks ↔
        ∃ before fields stored after, b :: blocks = b :: before ++ .data fields stored :: after ∧
          item = itemOf (position + ((b :: before).flatMap LogBlock.encode).length : ℕ) fields
            (plainData rawUncompress fields stored) (recordFor all fields.identifier) := by
      rw [ih]
      simp only [List.flatMap_cons, List.length_append, Nat.add_assoc, List.cons_append,
        List.cons.injEq, true_and]
    constructor
    · intro h
      by_cases hb : b.blockType = .kData
      · cases b with
        | data fields stored =>
          rw [itemsFrom] at h
          rcases List.mem_cons.mp h with rfl | h
          · exact ⟨[], fields, stored, blocks, rfl, rfl⟩
          · obtain ⟨before, rest⟩ := htail.mp h
            exact ⟨_ :: before, rest⟩
        | _ => cases hb
      · rw [itemsFrom_cons_of_ne _ hb] at h
        obtain ⟨before, rest⟩ := htail.mp h
        exact ⟨_ :: before, rest⟩
    · rintro ⟨before, fields, stored, after, hsplit, rfl⟩
      cases before with
      | nil =>
        obtain ⟨rfl, rfl⟩ := List.cons.inj hsplit
        exact List.mem_cons_self
      | cons b' before =>
        obtain ⟨rfl, hsplit'⟩ := List.cons.inj hsplit
        have h := htail.mpr ⟨before, fields, stored, after, hsplit, rfl⟩
        by_cases hb : b.blockType = .kData
        · cases b with
          | data fields' stored' => exact List.mem_cons_of_mem _ h
          | _ => cases hb
        · rw [itemsFrom_cons_of_ne _ hb]
          exact h

/-- The items hold what the data blocks hold. -/
theorem map_itemsFrom {α : Type} (f : Record → Ptime → Bytes → α) (all : List LogBlock) :
    ∀ (blocks : List LogBlock) (position : ℕ),
      (itemsFrom rawUncompress all position blocks).map (fun i => f i.record i.timestamp i.data) =
        (dataOf rawUncompress blocks).map fun x => f (recordFor all x.1) x.2.1 x.2.2 := by
  intro blocks
  induction blocks with
  | nil => exact fun _ => rfl
  | cons b blocks ih =>
    intro position
    cases b with
    | data fields stored =>
      rw [itemsFrom, List.map_cons, ih]
      rfl
    | _ => exact ih _

theorem dataOf_append (before after : List LogBlock) :
    dataOf rawUncompress (before ++ after) =
      dataOf rawUncompress before ++ dataOf rawUncompress after := List.filterMap_append

/-- The beginning of a valid log is one. -/
theorem ValidLog.of_append {blocks after : List LogBlock}
    (h : ValidLog rawUncompress (blocks ++ after)) :
    ValidLog rawUncompress blocks := by
  have hsub : ∀ record ∈ recordsOf blocks, record ∈ recordsOf (blocks ++ after) := by
    intro record hrecord
    rw [recordsOf_append]
    exact List.mem_append_left _ hrecord
  refine ⟨?_, ?_, ?_, ?_⟩
  · have := h.length_lt
    rw [image_append, List.length_append] at this
    omega
  · exact fun identifier name rawSchema hmem =>
      h.schema identifier name rawSchema (List.mem_append_left _ hmem)
  · exact fun record hrecord record' hrecord' =>
      h.unique record (hsub record hrecord) record' (hsub record' hrecord')
  · rintro before fields stored after' rfl
    exact h.data before fields stored (after' ++ after) (by
      rw [List.append_assoc, List.cons_append])

end Mjlib.Telemetry
