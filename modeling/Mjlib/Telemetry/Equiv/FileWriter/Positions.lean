import Mathlib
import Mjlib.Telemetry.Equiv.FileWriter.Log

/-!
# What the writer knows of a log's data

The writer's records have the positions of the last data blocks (`Positions`), so a seek marker says
for each identifier with data where its last data block before the marker is (`IsMarker`).
`positions_run` is about a run of well-formed calls.
-/

namespace Mjlib.Telemetry

open Base FileWriter FileReader

/-- Whether a block is data of an identifier. -/
def LogBlock.isDataOf (identifier : UInt64) : LogBlock → Bool
  | .data fields _ => fields.identifier = identifier
  | .schema .. => false
  | .seekMarker _ => false
  | .index _ => false

/-- Whether a block is data. -/
def LogBlock.isData (b : LogBlock) : Bool := b.blockType = .kData

theorem LogBlock.isData_data (fields : DataFields) (stored : Bytes) :
    (LogBlock.data fields stored).isData = true := rfl

/-- The position of the last block of a kind in blocks that start at a position. -/
def lastWhereFrom (p : LogBlock → Bool) : ℕ → ℤ → List LogBlock → ℤ
  | _, last, [] => last
  | position, last, b :: blocks =>
    lastWhereFrom p (position + b.encode.length) (if p b then position else last) blocks

/-- The position of the last block of a kind, or -1. -/
def lastWhere (p : LogBlock → Bool) (blocks : List LogBlock) : ℤ :=
  lastWhereFrom p (image []).length (-1) blocks

/-- The position of the last data block of an identifier, or -1. -/
def lastPosition (identifier : UInt64) (blocks : List LogBlock) : ℤ :=
  lastWhere (LogBlock.isDataOf identifier) blocks

section

variable (p : LogBlock → Bool)

theorem lastWhereFrom_append (after : List LogBlock) :
    ∀ (before : List LogBlock) (position : ℕ) (last : ℤ),
      lastWhereFrom p position last (before ++ after) =
        lastWhereFrom p (position + (before.flatMap LogBlock.encode).length)
          (lastWhereFrom p position last before) after := by
  intro before
  induction before with
  | nil => exact fun _ _ => rfl
  | cons b before ih =>
    intro position last
    rw [List.cons_append, lastWhereFrom, ih, List.flatMap_cons, List.length_append,
      ← Nat.add_assoc]
    rfl

theorem length_image (blocks : List LogBlock) :
    (image blocks).length = (image []).length + (blocks.flatMap LogBlock.encode).length := by
  unfold image
  rw [List.length_append, List.flatMap_nil, List.append_nil]

theorem lastWhere_concat (blocks : List LogBlock) (b : LogBlock) :
    lastWhere p (blocks ++ [b]) = if p b then ((image blocks).length : ℤ) else lastWhere p blocks := by
  unfold lastWhere
  rw [lastWhereFrom_append, ← length_image]
  rfl

/-- There is no such block, or the last one is behind the start, whatever there was before it. -/
theorem lastWhereFrom_cases : ∀ (blocks : List LogBlock) (position : ℕ),
    (∀ last, lastWhereFrom p position last blocks = last) ∨
      ∃ n : ℕ, position ≤ n ∧ ∀ last, lastWhereFrom p position last blocks = n := by
  intro blocks
  induction blocks with
  | nil => exact fun _ => Or.inl fun _ => rfl
  | cons b blocks ih =>
    intro position
    rcases ih (position + b.encode.length) with h | ⟨n, hn, h⟩
    · by_cases hb : p b = true
      · refine Or.inr ⟨position, le_rfl, fun last => ?_⟩
        rw [lastWhereFrom, h, if_pos hb]
      · refine Or.inl fun last => ?_
        rw [lastWhereFrom, h, if_neg hb]
    · exact Or.inr ⟨n, (Nat.le_add_right _ _).trans hn, fun last => by rw [lastWhereFrom, h]⟩

/-- The last position is that of a block of the kind, if there is one. -/
theorem lastWhere_cases (blocks : List LogBlock) :
    (lastWhere p blocks = -1 ∧ ∀ b ∈ blocks, p b = false) ∨
      ∃ before b after, blocks = before ++ b :: after ∧ p b = true ∧
        lastWhere p blocks = (image before).length ∧ ∀ b' ∈ after, p b' = false := by
  induction blocks using List.reverseRecOn with
  | nil => exact Or.inl ⟨by unfold lastWhere; rw [lastWhereFrom], fun _ h => nomatch h⟩
  | append_singleton blocks b ih =>
    rw [lastWhere_concat]
    by_cases hb : p b = true
    · rw [if_pos hb]
      exact Or.inr ⟨blocks, b, [], rfl, hb, rfl, fun _ h => nomatch h⟩
    · rw [if_neg hb]
      have hconcat : ∀ {after : List LogBlock}, (∀ b' ∈ after, p b' = false) →
          ∀ b' ∈ after ++ [b], p b' = false := by
        intro after hafter b' hb'
        rcases List.mem_append.mp hb' with hb' | hb'
        · exact hafter b' hb'
        · rw [List.mem_singleton.mp hb']
          exact Bool.eq_false_iff.mpr hb
      rcases ih with ⟨hlast, hblocks⟩ | ⟨before, b', after, rfl, hb', hlast, hafter⟩
      · exact Or.inl ⟨hlast, hconcat hblocks⟩
      · exact Or.inr ⟨before, b', after ++ [b], by rw [List.append_assoc, List.cons_append], hb',
          hlast, hconcat hafter⟩

/-- Fewer blocks are of a kind that is part of another one. -/
theorem lastWhere_le {q : LogBlock → Bool} (h : ∀ b, p b = true → q b = true)
    (blocks : List LogBlock) : lastWhere p blocks ≤ lastWhere q blocks := by
  induction blocks using List.reverseRecOn with
  | nil => exact le_rfl
  | append_singleton blocks b ih =>
    have hlt : lastWhere p blocks ≤ (image blocks).length := by
      rcases lastWhere_cases p blocks with ⟨hlast, _⟩ | ⟨before, b, after, rfl, _, hlast, _⟩
      · omega
      · rw [hlast, image_append, List.length_append]
        omega
    rw [lastWhere_concat, lastWhere_concat]
    by_cases hp : p b = true
    · rw [if_pos hp, if_pos (h b hp)]
    · rw [if_neg hp]
      split_ifs
      · exact hlt
      · exact ih

end

theorem lastPosition_concat (identifier : UInt64) (blocks : List LogBlock) (b : LogBlock) :
    lastPosition identifier (blocks ++ [b]) =
      if b.isDataOf identifier then ((image blocks).length : ℤ)
      else lastPosition identifier blocks := lastWhere_concat _ blocks b

theorem lastPosition_cases (identifier : UInt64) (blocks : List LogBlock) :
    (lastPosition identifier blocks = -1 ∧ ∀ b ∈ blocks, b.isDataOf identifier = false) ∨
      ∃ before b after, blocks = before ++ b :: after ∧ b.isDataOf identifier = true ∧
        lastPosition identifier blocks = (image before).length ∧
          ∀ b' ∈ after, b'.isDataOf identifier = false := lastWhere_cases _ blocks

/-- It is not behind the last data block. -/
theorem lastPosition_le (identifier : UInt64) (blocks : List LogBlock) :
    lastPosition identifier blocks ≤ lastWhere LogBlock.isData blocks := by
  refine lastWhere_le _ (fun b hb => ?_) blocks
  cases b with
  | data fields stored => rfl
  | _ => cases hb

theorem lastPosition_range (identifier : UInt64) (blocks : List LogBlock) :
    -1 ≤ lastPosition identifier blocks ∧ lastPosition identifier blocks < (image blocks).length := by
  rcases lastPosition_cases identifier blocks with ⟨hlast, _⟩ | ⟨before, b, after, hsplit, _, hlast, _⟩
  · omega
  · have hpos := b.length_encode_pos
    rw [hlast, hsplit, image_append, List.flatMap_cons, List.length_append, List.length_append]
    omega

/-! ### Seek markers -/

/-- What is in a seek marker, after the CRC and the header's size. -/
def markerRest (timestamp : Ptime) (elements : List (UInt64 × UInt64)) : Bytes :=
  writeVaruint 0 ++ writeTimestamp timestamp ++ writeVaruint (UInt64.ofNat elements.length) ++
    elements.flatMap fun x => writeVaruint x.1 ++ writeVaruint x.2

/-- The size of the header of a block. -/
def headerSize (bodySize : ℕ) : ℕ := 1 + Format.getVaruintSize (UInt64.ofNat bodySize)

/-- The body of a seek marker. -/
def markerBody (timestamp : Ptime) (elements : List (UInt64 × UInt64)) (crc : BitVec 32) : Bytes :=
  let rest := markerRest timestamp elements
  writeScalar 8 0xfdcab9a897867564#64 ++ writeScalar 4 crc ++
    writeScalar 1 (BitVec.ofNat 8 (headerSize (13 + rest.length))) ++ rest

/-- The body of a seek marker, with its CRC. -/
def sealedMarker (timestamp : Ptime) (elements : List (UInt64 × UInt64)) : Bytes :=
  markerBody timestamp elements
    (crc32 (block .kSeekMarker (markerBody timestamp elements 0#32)))

/-- A seek marker behind blocks: it has the time of the data block before it, and the distance to
the last data block of each identifier that has data. -/
structure IsMarker (before : List LogBlock) (body : Bytes) (timestamp : Ptime)
    (elements : List (UInt64 × UInt64)) : Prop where
  body : body = sealedMarker timestamp elements
  data : ∃ before' fields stored, before = before' ++ [.data fields stored] ∧
    fields.timestamp = some timestamp
  timestamp : timestamp ≠ .notADateTime
  nodup : (elements.map Prod.fst).Nodup
  elements : ∀ identifier distance, (identifier, distance) ∈ elements ↔
    0 ≤ lastPosition identifier before ∧
      distance = State.distance (image before).length (lastPosition identifier before)

/-- All seek markers of a log are right. -/
def MarkersRight (blocks : List LogBlock) : Prop :=
  ∀ before body after, blocks = before ++ .seekMarker body :: after →
    ∃ timestamp elements, IsMarker before body timestamp elements

theorem MarkersRight.concat {blocks : List LogBlock} {b : LogBlock} (h : MarkersRight blocks)
    (hb : ∀ body, b = .seekMarker body → ∃ timestamp elements,
      IsMarker blocks body timestamp elements) : MarkersRight (blocks ++ [b]) := by
  intro before body after hsplit
  rcases concat_eq_append_cons hsplit with ⟨rfl, hc, _⟩ | ⟨after', _, hblocks⟩
  · exact hb body hc.symm
  · exact h before body after' hblocks

namespace FileWriter

variable {rawUncompress : RawUncompress} {s s' : FileWriter.State} {blocks more : List LogBlock}

/-- The writer knows the last data blocks of the open file, and so do its seek markers. -/
structure Positions (s : FileWriter.State) (blocks : List LogBlock) : Prop where
  lastPosition : ∀ identifier record, s.schema.get? identifier = some record →
    record.lastPosition = Telemetry.lastPosition identifier blocks
  markers : MarkersRight blocks

/-- The elements of a seek marker that is written now. -/
def elementsOf (s : FileWriter.State) (position : ℕ) : List (UInt64 × UInt64) :=
  s.withData.map fun x => (x.1, State.distance position x.2.lastPosition)

theorem sealedBody_eq (s : FileWriter.State) (position : ℕ) (timestamp : Ptime) :
    sealedBody s position timestamp = sealedMarker timestamp (elementsOf s position) := by
  have hrest : seekBlockRest s position timestamp = markerRest timestamp (elementsOf s position) := by
    unfold seekBlockRest markerRest elementsOf
    rw [List.length_map, List.flatMap_map]
  have hbody : ∀ crc, seekBlockBody s position timestamp crc =
      markerBody timestamp (elementsOf s position) crc := by
    intro crc
    unfold seekBlockBody markerBody headerSize
    rw [hrest]
  unfold sealedBody sealedMarker
  rw [hbody, hbody]

/-- An identifier with data has a record. -/
theorem exists_record_of_data (hlogs : Logs rawUncompress s blocks) {b : LogBlock}
    {identifier : UInt64} (hmem : b ∈ blocks) (hb : b.isDataOf identifier = true) :
    ∃ record, s.schema.get? identifier = some record := by
  cases b with
  | data fields stored =>
    obtain rfl : fields.identifier = identifier := by simpa [LogBlock.isDataOf] using hb
    obtain ⟨before, after, hsplit⟩ := List.append_of_mem hmem
    obtain ⟨⟨r, hr, hid⟩, _⟩ := hlogs.data before fields stored after hsplit
    obtain ⟨i, name, rawSchema, hschema, rfl⟩ := mem_recordsOf.mp hr
    obtain rfl : i = fields.identifier := hid
    obtain ⟨⟨record, hrecord, _⟩, _⟩ :=
      hlogs.known _ _ _ (hsplit ▸ List.mem_append_left _ hschema)
    exact ⟨record, hrecord⟩
  | _ => cases hb

/-- **A seek marker that is written is right.** -/
theorem Positions.isMarker (h : Positions s blocks)
    (hrecords : ∀ b ∈ blocks, ∀ identifier, b.isDataOf identifier = true →
      ∃ record, s.schema.get? identifier = some record)
    {before' : List LogBlock} {fields : DataFields} {stored : Bytes} {timestamp : Ptime}
    (hdata : blocks = before' ++ [.data fields stored]) (hfields : fields.timestamp = some timestamp)
    (htimestamp : timestamp ≠ .notADateTime) :
    IsMarker blocks (sealedBody s (image blocks).length timestamp) timestamp
      (elementsOf s (image blocks).length) := by
  refine ⟨sealedBody_eq _ _ _, ⟨before', fields, stored, hdata, hfields⟩, htimestamp, ?_, ?_⟩
  · unfold elementsOf
    rw [List.map_map]
    refine List.Nodup.sublist ((List.filter_sublist).map _) ?_
    refine List.pairwise_map.mpr (s.schema.sorted.imp fun hlt heq => ?_)
    exact UInt64.lt_irrefl _ (lt_of_lt_of_eq hlt heq.symm)
  · intro identifier distance
    have hget : (identifier, distance) ∈ elementsOf s (image blocks).length ↔
        ∃ record, s.schema.get? identifier = some record ∧ 0 ≤ record.lastPosition ∧
          distance = State.distance (image blocks).length record.lastPosition := by
      unfold elementsOf
      rw [List.mem_map]
      constructor
      · rintro ⟨⟨i, record⟩, hmem, heq⟩
        obtain ⟨rfl, rfl⟩ := Prod.mk.inj heq
        obtain ⟨hmem, hpos⟩ := List.mem_filter.mp hmem
        exact ⟨record, SortedMap.get?_eq_some_iff.mpr hmem, by simpa using hpos, rfl⟩
      · rintro ⟨record, hget, hpos, rfl⟩
        refine ⟨(identifier, record), List.mem_filter.mpr ⟨?_, by simpa using hpos⟩, rfl⟩
        exact SortedMap.get?_eq_some_iff.mp hget
    rw [hget]
    constructor
    · rintro ⟨record, hrecord, hpos, rfl⟩
      rw [h.lastPosition identifier record hrecord] at hpos ⊢
      exact ⟨hpos, rfl⟩
    · rintro ⟨hpos, rfl⟩
      -- an identifier with data has a schema
      rcases lastPosition_cases identifier blocks with ⟨hlast, _⟩ | ⟨before, b, after, hsplit, hb, _⟩
      · rw [hlast] at hpos
        exact absurd hpos (by decide)
      · obtain ⟨record, hrecord⟩ :=
          hrecords b (hsplit ▸ List.mem_append_right _ List.mem_cons_self) identifier hb
        exact ⟨record, hrecord, by rw [h.lastPosition _ _ hrecord]; exact ⟨hpos, rfl⟩⟩

/-- **What a call adds keeps the positions.** -/
theorem Positions.adds (h : Positions s blocks) (hlogs : Logs rawUncompress s blocks)
    (hlogs' : Logs rawUncompress s' (blocks ++ more))
    (hadds : Adds s s' (image blocks).length more) : Positions s' (blocks ++ more) := by
  cases hadds with
  | nothing hschema =>
    rw [List.append_nil]
    exact ⟨fun identifier record hget => h.lastPosition identifier record (hschema ▸ hget), h.markers⟩
  | schema identifier name rawSchema hnew hschema =>
    refine ⟨fun i record hget => ?_, h.markers.concat fun _ h => by cases h⟩
    rw [lastPosition_concat]
    show record.lastPosition = Telemetry.lastPosition i blocks
    rw [hschema, State.withSchema, SortedMap.get?_insert] at hget
    split_ifs at hget with hi
    · obtain rfl := Option.some.inj hget
      -- a new identifier has no data yet
      rcases lastPosition_cases i blocks with ⟨hlast, _⟩ | ⟨before, b, after, hsplit, hb, _⟩
      · exact hlast.symm
      · obtain ⟨r, hr⟩ := exists_record_of_data hlogs
          (hsplit ▸ List.mem_append_right _ List.mem_cons_self) hb
        rw [hi, hnew] at hr
        cases hr
    · exact h.lastPosition i record hget
  | data fields stored record markers hrecord hschema hmarkers =>
    have hdata : Positions s' (blocks ++ [.data fields stored]) := by
      refine ⟨fun i r hget => ?_, h.markers.concat fun _ h => by cases h⟩
      rw [lastPosition_concat]
      rw [hschema, SortedMap.get?_insert] at hget
      show r.lastPosition = if (decide (fields.identifier = i)) = true then _ else _
      split_ifs at hget with hi
      · obtain rfl := Option.some.inj hget
        rw [if_pos (decide_eq_true hi.symm)]
      · rw [if_neg (by simpa using fun hi' => hi hi'.symm)]
        exact h.lastPosition i r hget
    rcases hmarkers with rfl | ⟨timestamp, s₁, hfields, htimestamp, hs₁, rfl⟩
    · exact hdata
    · have hdata₁ : Positions s₁ (blocks ++ [.data fields stored]) :=
        ⟨fun i r hget => hdata.lastPosition i r (hs₁ ▸ hget), hdata.markers⟩
      have hmarker := hdata₁.isMarker (fun b hb identifier hid => ?_) rfl hfields htimestamp
      · rw [length_image_concat] at hmarker
        have hall : blocks ++ [LogBlock.data fields stored, .seekMarker (sealedBody s₁
            ((image blocks).length + (LogBlock.data fields stored).encode.length) timestamp)] =
            (blocks ++ [.data fields stored]) ++ [.seekMarker (sealedBody s₁
              ((image blocks).length + (LogBlock.data fields stored).encode.length) timestamp)] := by
          rw [List.append_assoc]
          rfl
        rw [hall]
        refine ⟨fun i r hget => ?_, hdata.markers.concat ?_⟩
        · rw [lastPosition_concat]
          exact hdata.lastPosition i r hget
        · intro body hbody
          obtain rfl := LogBlock.seekMarker.inj hbody
          exact ⟨timestamp, _, hmarker⟩
      · obtain ⟨r, hr⟩ := exists_record_of_data hlogs' (b := b) (by
          rcases List.mem_append.mp hb with hb | hb
          · exact List.mem_append_left _ hb
          · rw [List.mem_singleton.mp hb]
            exact List.mem_append_right _ List.mem_cons_self) hid
        exact ⟨r, hs₁ ▸ hr⟩

variable {platform : Platform} {options : FileWriter.Options}

/-- A run of well-formed calls, with the positions. -/
theorem positions_run {calls : List Call} : ∀ {s s' : FileWriter.State} {blocks : List LogBlock},
    (∀ data, rawUncompress (platform.rawCompress data) = some data) →
    Logs rawUncompress s blocks → Positions s blocks →
    Run.Guarded (FileWriter.step platform options) (fun s call => WellFormed s call ∧ ShortName s call)
      s calls →
    Run.run (FileWriter.step platform options) s calls = some s' →
    ∃ more, Logs rawUncompress s' (blocks ++ more) ∧ Positions s' (blocks ++ more) ∧
      dataOf rawUncompress more = calls.filterMap (written options) := by
  induction calls with
  | nil =>
    intro s s' blocks _ h hpositions _ hrun
    cases hrun
    exact ⟨[], by rwa [List.append_nil], by rwa [List.append_nil], rfl⟩
  | cons call calls ih =>
    intro s s' blocks hsnappy h hpositions hguard hrun
    obtain ⟨s₁, hstep, hrun⟩ := (Run.run_cons_eq_some _).mp hrun
    obtain ⟨more, h₁, hmore, hadds⟩ := h.step hsnappy hguard.1 hstep
    obtain ⟨more', h₂, hpositions₂, hmore'⟩ :=
      ih hsnappy h₁ (hpositions.adds h h₁ hadds) (hguard.2 s₁ hstep) hrun
    refine ⟨more ++ more', by rwa [← List.append_assoc], by rwa [← List.append_assoc], ?_⟩
    rw [dataOf_append, hmore, hmore', List.filterMap_cons]
    cases written options call <;> rfl

end FileWriter

end Mjlib.Telemetry
