import Mjlib.Telemetry.Equiv.FileReader.IndexPath

/-!
# When the index tells what a scan tells

The log of a writer that was opened, given any calls with parsable schemas, and closed: what its index
tells is what a scan of its blocks tells exactly if the calls are `Indexed` (`sameAsScan_iff`).  It
is not so for a schema that is written and never used, as a reader takes the index to have an item at
zero (`not_sameAsScan`).
-/

namespace Mjlib.Telemetry

open Base FileWriter FileReader

/-! ### The condition -/

/-- The schemas of an identifier that are written, in order. -/
def schemasIn (identifier : UInt64) (events : List Event) : List Bytes :=
  events.filterMap fun e => match e with
    | .schema i rawSchema => if i = identifier then some rawSchema else none
    | .data _ => none

/-- What is written comes out of the index as it does out of a scan: it is nothing at all, or every
identifier with data has a schema, the last schema of an identifier is its first one, and there is
data behind which nothing is written but schemas of other identifiers. -/
def Indexed (events : List Event) : Prop :=
  events = [] ∨
    (∀ identifier, .data identifier ∈ events → ∃ rawSchema, .schema identifier rawSchema ∈ events) ∧
    (∀ identifier, (schemasIn identifier events).head? = (schemasIn identifier events).getLast?) ∧
    ∃ before identifier after, events = before ++ .data identifier :: after ∧
      ∀ e ∈ after, ∃ i rawSchema, e = .schema i rawSchema ∧ i ≠ identifier

/-! ### The last data block -/

variable {blocks all : List LogBlock} {s : FileWriter.State}

/-- There is data, and no schema of its identifier behind the last of it. -/
def DataKept (blocks : List LogBlock) : Prop :=
  ∃ before fields stored after, blocks = before ++ .data fields stored :: after ∧
    ∀ b ∈ after, b.isData = false ∧ b.isSchemaOf fields.identifier = false

/-- Blocks of other kinds change nothing. -/
theorem lastWhere_append_of_false {p : LogBlock → Bool} {before after : List LogBlock}
    (hafter : ∀ b ∈ after, p b = false) : lastWhere p (before ++ after) = lastWhere p before := by
  induction after using List.reverseRecOn with
  | nil => rw [List.append_nil]
  | append_singleton after b ih =>
    have hb : p b = false := hafter b (List.mem_append_right _ List.mem_cons_self)
    rw [← List.append_assoc, lastWhere_concat, hb, if_neg Bool.false_ne_true]
    exact ih fun b' hb' => hafter b' (List.mem_append_left _ hb')

theorem lastWhere_of_split {p : LogBlock → Bool} {before after : List LogBlock} {b : LogBlock}
    (hb : p b = true) (hafter : ∀ b' ∈ after, p b' = false) :
    lastWhere p (before ++ b :: after) = (image before).length := by
  rw [← List.singleton_append, ← List.append_assoc, lastWhere_append_of_false hafter,
    lastWhere_concat, if_pos hb]

/-- The last position is not before any block of the kind. -/
theorem le_lastWhere {p : LogBlock → Bool} {before after : List LogBlock} {b : LogBlock}
    (hb : p b = true) : ((image before).length : ℤ) ≤ lastWhere p (before ++ b :: after) := by
  induction after using List.reverseRecOn with
  | nil => rw [lastWhere_concat, if_pos hb]
  | append_singleton after b' ih =>
    rw [← List.cons_append, ← List.append_assoc, lastWhere_concat]
    split_ifs
    · rw [image_append, List.length_append]
      omega
    · exact ih

theorem neg_one_le_lastSince (identifier : UInt64) (blocks : List LogBlock) :
    -1 ≤ lastSince identifier blocks := by
  have hrange := lastPosition_range identifier blocks
  unfold lastSince
  split_ifs <;> omega

theorem lastSince_le (identifier : UInt64) (blocks : List LogBlock) :
    lastSince identifier blocks ≤ lastWhere LogBlock.isData blocks := by
  have hrange := lastPosition_range identifier blocks
  have hle := lastPosition_le identifier blocks
  unfold lastSince
  split_ifs <;> omega

/-- **The last data block of all** is the last one of an identifier since its schema exactly if it
is kept. -/
theorem dataKept_iff : DataKept blocks ↔ 0 ≤ lastWhere LogBlock.isData blocks ∧
    ∃ identifier, lastSince identifier blocks = lastWhere LogBlock.isData blocks := by
  constructor
  · rintro ⟨before, fields, stored, after, rfl, hafter⟩
    have hdata : lastWhere LogBlock.isData (before ++ .data fields stored :: after) =
        (image before).length :=
      lastWhere_of_split (LogBlock.isData_data fields stored) fun b hb => (hafter b hb).1
    have hposition : lastPosition fields.identifier (before ++ .data fields stored :: after) =
        (image before).length := by
      refine lastWhere_of_split (decide_eq_true rfl) fun b hb => ?_
      cases b with
      | data => exact absurd (hafter _ hb).1 (by simp [LogBlock.isData_data])
      | _ => rfl
    have hschema : lastWhere (LogBlock.isSchemaOf fields.identifier)
        (before ++ .data fields stored :: after) < (image before).length := by
      rw [lastWhere_append_of_false]
      · exact lastWhere_lt _ before
      · exact List.forall_mem_cons.mpr ⟨rfl, fun b hb => (hafter b hb).2⟩
    refine ⟨hdata ▸ Int.natCast_nonneg _, fields.identifier, ?_⟩
    rw [lastSince, hposition, if_pos hschema, hdata]
  · rintro ⟨hnonneg, identifier, hlast⟩
    rcases lastWhere_cases LogBlock.isData blocks with
      ⟨hnone, _⟩ | ⟨before, b, after, rfl, hb, hposition, hafter⟩
    · omega
    · cases b with
      | data fields stored =>
        rw [hposition, lastSince] at hlast
        split_ifs at hlast with hschema
        · -- the block is data of this identifier
          have hid : fields.identifier = identifier := by
            by_contra hne
            have hbefore : lastPosition identifier (before ++ .data fields stored :: after) =
                lastPosition identifier before := by
              refine lastWhere_append_of_false (List.forall_mem_cons.mpr
                ⟨decide_eq_false hne, fun b hb => ?_⟩)
              cases b with
              | data => exact absurd (hafter _ hb) (by simp [LogBlock.isData_data])
              | _ => rfl
            have hlt := lastWhere_lt (LogBlock.isDataOf identifier) before
            rw [hlast] at hbefore
            exact absurd hbefore (Int.ne_of_gt hlt)
          subst hid
          refine ⟨before, fields, stored, after, rfl, fun b hb => ⟨hafter b hb, ?_⟩⟩
          by_contra hne
          obtain ⟨between, rest, rfl⟩ := List.append_of_mem hb
          have hle := @le_lastWhere _ (before ++ .data fields stored :: between) rest b
            (Bool.eq_true_of_not_eq_false hne)
          rw [List.append_assoc, List.cons_append, image_append, List.length_append] at hle
          omega
      | _ => cases hb

/-! ### A log and its index -/

/-- A log of blocks, with the index that its writer makes of them. -/
structure IndexedLog (s : FileWriter.State) (blocks all : List LogBlock) : Prop where
  remembers : Remembers s blocks
  eq : all = blocks ++ [.index (indexBody s)]
  length_lt : (image all).length < 2 ^ 63
  small : (indexBlock s).length < 2 ^ 32

theorem IndexedLog.readable (h : IndexedLog s blocks all) : ∀ b ∈ all, Readable b := by
  rw [h.eq]
  exact fun b hb => (List.mem_append.mp hb).elim (h.remembers.readable b)
    fun hb => List.mem_singleton.mp hb ▸ trivial

theorem IndexedLog.schemasOf_eq (h : IndexedLog s blocks all) (identifier : UInt64) :
    schemasOf identifier all = schemasOf identifier blocks := by
  rw [h.eq, schemasOf_concat]
  exact List.append_nil _

theorem IndexedLog.lastWhere_isData (h : IndexedLog s blocks all) :
    lastWhere LogBlock.isData all = lastWhere LogBlock.isData blocks := by
  rw [h.eq]
  exact lastWhere_append_of_false (List.forall_mem_singleton.mpr rfl)

theorem IndexedLog.length_le (h : IndexedLog s blocks all) :
    (image blocks).length ≤ (image all).length := by
  rw [h.eq, image_append, List.length_append]
  exact Nat.le_add_right _ _

/-- The position of the last data that an index has is the writer's. -/
theorem IndexedLog.finalRecord_eq (h : IndexedLog s blocks all) {identifier : UInt64}
    {record : SchemaRecord} (hget : s.schema.get? identifier = some record) :
    (localRecord (identifier, record)).finalRecord = lastSince identifier blocks := by
  have hlt := h.length_lt
  have hle := h.length_le
  have hlower := neg_one_le_lastSince identifier blocks
  have hupper := lastSince_le identifier blocks
  have hdata := lastWhere_lt LogBlock.isData blocks
  show (BitVec.ofInt 64 record.lastPosition).toInt = _
  rw [h.remembers.lastPosition identifier record hget, toInt_ofInt (by omega)]

/-- An identifier with a schema has an entry of the index, which points at the last one. -/
theorem IndexedLog.pointsAt (h : IndexedLog s blocks all) {identifier : UInt64}
    {record : SchemaRecord} (hget : s.schema.get? identifier = some record)
    (hne : schemasOf identifier blocks ≠ []) :
    (schemasOf identifier blocks).getLast? = some (record.name, record.schema) ∧
      PointsAt all (identifier, record) := by
  obtain ⟨schema, hlast⟩ := Option.ne_none_iff_exists'.mp (mt List.getLast?_eq_none_iff.mp hne)
  obtain ⟨rfl, hposition⟩ := h.remembers.schema identifier record hget schema hlast
  refine ⟨hlast, ?_⟩
  rcases lastWhere_cases (LogBlock.isSchemaOf identifier) blocks with
    ⟨_, hnone⟩ | ⟨before, b, after, hsplit, hb, hlastWhere, hafter⟩
  · exact absurd (schemasOf_eq_nil hnone) hne
  · -- the last schema block is the one of the record
    have hschemas : schemasOf identifier blocks =
        schemasOf identifier (before ++ [b]) ++ schemasOf identifier after := by
      rw [hsplit, ← List.singleton_append, ← List.append_assoc]
      exact List.filterMap_append
    rw [hschemas, schemasOf_eq_nil hafter, List.append_nil, schemasOf_concat] at hlast
    cases b with
    | schema i name rawSchema =>
      obtain rfl : i = identifier := by
        by_contra hne
        rw [LogBlock.isSchemaOf, LogBlock.schemaOf?, if_neg hne] at hb
        cases hb
      rw [LogBlock.schemaOf?, if_pos rfl, Option.toList_some, List.getLast?_concat] at hlast
      obtain ⟨rfl, rfl⟩ := Prod.mk.inj (Option.some.inj hlast)
      refine ⟨before, after ++ [.index (indexBody s)], ?_, ?_⟩
      · rw [h.eq, hsplit, List.append_assoc, List.cons_append]
      · have hlt := h.length_lt
        have hle := h.length_le
        rw [hsplit, image_append, List.length_append] at hle
        show (BitVec.ofInt 64 record.schemaPosition).toInt = _
        rw [hposition, hlastWhere, toInt_ofInt (by omega)]
    | _ => cases hb

theorem le_foldl_max : ∀ (l : List ℤ) (n : ℤ), n ≤ l.foldl max n ∧ ∀ x ∈ l, x ≤ l.foldl max n := by
  intro l
  induction l with
  | nil => exact fun n => ⟨le_rfl, nofun⟩
  | cons x l ih =>
    intro n
    obtain ⟨hmax, hl⟩ := ih (max n x)
    exact ⟨(le_max_left n x).trans hmax, List.forall_mem_cons.mpr ⟨(le_max_right n x).trans hmax, hl⟩⟩

theorem foldl_max_mem : ∀ (l : List ℤ) (n : ℤ), l.foldl max n = n ∨ l.foldl max n ∈ l := by
  intro l
  induction l with
  | nil => exact fun n => Or.inl rfl
  | cons x l ih =>
    intro n
    rw [List.foldl_cons]
    rcases ih (max n x) with h | h
    · rw [h]
      rcases max_choice n x with hmax | hmax
      · exact Or.inl hmax
      · exact Or.inr (hmax.symm ▸ List.mem_cons_self)
    · exact Or.inr (List.mem_cons_of_mem _ h)

/-- **The final item of the index** is the last data block exactly if that is kept. -/
theorem IndexedLog.finalItem_eq_iff (h : IndexedLog s blocks all) :
    (s.schema.entries.map fun x => (localRecord x).finalRecord).foldl max 0 =
      lastWhere LogBlock.isData blocks ↔ DataKept blocks := by
  have hentry : ∀ n, n ∈ (s.schema.entries.map fun x => (localRecord x).finalRecord) ↔
      ∃ identifier record, s.schema.get? identifier = some record ∧
        lastSince identifier blocks = n := by
    intro n
    rw [List.mem_map]
    constructor
    · rintro ⟨⟨identifier, record⟩, hmem, rfl⟩
      have hget := SortedMap.get?_eq_some_iff.mpr hmem
      exact ⟨identifier, record, hget, (h.finalRecord_eq hget).symm⟩
    · rintro ⟨identifier, record, hget, rfl⟩
      exact ⟨(identifier, record), SortedMap.get?_eq_some_iff.mp hget, h.finalRecord_eq hget⟩
  rw [dataKept_iff]
  constructor
  · intro heq
    have hnonneg := (le_foldl_max (s.schema.entries.map fun x => (localRecord x).finalRecord) 0).1
    rw [heq] at hnonneg
    refine ⟨hnonneg, ?_⟩
    rcases foldl_max_mem (s.schema.entries.map fun x => (localRecord x).finalRecord) 0 with
      hzero | hmem
    · -- no data is at the start of the file
      rw [heq] at hzero
      rcases lastWhere_cases LogBlock.isData blocks with ⟨hlast, _⟩ | ⟨before, _, _, _, _, hlast, _⟩
      · omega
      · have hnine := nine_le_length_image before
        omega
    · rw [heq, hentry] at hmem
      obtain ⟨identifier, _, _, hlast⟩ := hmem
      exact ⟨identifier, hlast⟩
  · rintro ⟨hnonneg, identifier, hlast⟩
    obtain ⟨record, hget⟩ : ∃ record, s.schema.get? identifier = some record := by
      refine Option.isSome_iff_exists.mp ((h.remembers.known identifier).mpr ?_)
      rcases lastPosition_cases identifier blocks with ⟨hnone, _⟩ | ⟨before, b, after, hsplit, hb, _⟩
      · rw [lastSince, hnone] at hlast
        split_ifs at hlast <;> omega
      · exact ⟨b, hsplit ▸ List.mem_append_right _ List.mem_cons_self, Or.inr hb⟩
    refine le_antisymm ?_ ?_
    · rcases foldl_max_mem (s.schema.entries.map fun x => (localRecord x).finalRecord) 0 with
        hzero | hmem
      · rw [hzero]
        exact hnonneg
      · obtain ⟨i, _, _, hi⟩ := (hentry _).mp hmem
        rw [← hi]
        exact lastSince_le i blocks
    · exact (le_foldl_max _ 0).2 _ ((hentry _).mpr ⟨identifier, record, hget, hlast⟩)

/-- The blocks of a log, of which the index tells what a scan does. -/
def IndexedBlocks (blocks : List LogBlock) : Prop :=
  (∀ identifier, (∃ b ∈ blocks, b.isDataOf identifier = true) → schemasOf identifier blocks ≠ []) ∧
    (∀ identifier, (schemasOf identifier blocks).head? = (schemasOf identifier blocks).getLast?) ∧
    DataKept blocks

theorem IndexedLog.schemasOf_ne_nil (h : IndexedLog s blocks all)
    (hdata : ∀ identifier, (∃ b ∈ blocks, b.isDataOf identifier = true) →
      schemasOf identifier blocks ≠ []) {identifier : UInt64}
    (hknown : (s.schema.get? identifier).isSome = true) : schemasOf identifier blocks ≠ [] := by
  obtain ⟨b, hb, hschema | hb'⟩ := (h.remembers.known identifier).mp hknown
  · obtain ⟨schema, hschema⟩ := Option.isSome_iff_exists.mp hschema
    exact List.ne_nil_of_mem (List.mem_filterMap.mpr ⟨b, hb, hschema⟩)
  · exact hdata identifier ⟨b, hb, hb'⟩

/-- The index has the last schema of each identifier. -/
theorem IndexedLog.map_get?_eq (h : IndexedLog s blocks all)
    (hdata : ∀ identifier, (∃ b ∈ blocks, b.isDataOf identifier = true) →
      schemasOf identifier blocks ≠ []) (identifier : UInt64) :
    (s.schema.get? identifier).map (fun x => schemaRecord identifier x.name x.schema) =
      (schemasOf identifier blocks).getLast?.map (recordFrom identifier) := by
  cases hget : s.schema.get? identifier with
  | some record =>
    rw [(h.pointsAt hget (h.schemasOf_ne_nil hdata (by rw [hget]; rfl))).1]
    rfl
  | none =>
    rw [schemasOf_eq_nil fun b hb => ?_]
    · rfl
    · by_contra hne
      have hknown := (h.remembers.known identifier).mpr ⟨b, hb, Or.inl (by simpa using hne)⟩
      rw [hget] at hknown
      cases hknown

theorem recordFrom_injective (identifier : UInt64) : Function.Injective (recordFrom identifier) :=
  fun _ _ heq => Prod.ext (congrArg Record.name heq) (congrArg Record.rawSchema heq)

/-- **The index and the scan agree** exactly on such blocks. -/
theorem IndexedLog.agree_iff (h : IndexedLog s blocks all) (hne : blocks ≠ []) :
    SameAsScan (image all) ↔ IndexedBlocks blocks := by
  obtain ⟨scanned, hscan, hscanned⟩ := viaScan_eq h.length_lt h.readable
  simp only [h.schemasOf_eq] at hscanned
  rw [h.lastWhere_isData] at hscan
  -- what the index tells, if all of its entries point at schemas
  have htold : (∀ identifier, (∃ b ∈ blocks, b.isDataOf identifier = true) →
      schemasOf identifier blocks ≠ []) → ∃ told, viaIndex (image all) = .ok (told,
        (s.schema.entries.map fun x => (localRecord x).finalRecord).foldl max 0) ∧
      ∀ record, record ∈ told ↔ (schemasOf record.identifier blocks).getLast?.map
        (recordFrom record.identifier) = some record := by
    intro hdata
    obtain ⟨told, hindex, htold⟩ := viaIndex_eq h.eq h.length_lt h.readable h.small hne fun x hx => by
      have hget := SortedMap.get?_eq_some_iff.mpr hx
      exact (h.pointsAt hget (h.schemasOf_ne_nil hdata (by rw [hget]; rfl))).2
    exact ⟨told, hindex, fun record => by rw [htold, h.map_get?_eq hdata]⟩
  constructor
  · rintro ⟨a, b, hindex, hscan', hsame, hfinal⟩
    obtain rfl := Except.ok.inj (hscan.symm.trans hscan')
    have hdata : ∀ identifier, (∃ b ∈ blocks, b.isDataOf identifier = true) →
        schemasOf identifier blocks ≠ [] := by
      rintro identifier ⟨b, hb, hb'⟩ hnil
      obtain ⟨record, hrecord, rfl⟩ := viaIndex_ok h.eq h.small hne hindex
        ((h.remembers.known identifier).mpr ⟨b, hb, Or.inr hb'⟩)
      have hfirst := (hscanned record).mp ((hsame record).mp hrecord)
      rw [hnil] at hfirst
      cases hfirst
    obtain ⟨told, hindex', htold⟩ := htold hdata
    obtain rfl := Except.ok.inj (hindex.symm.trans hindex')
    refine ⟨hdata, fun identifier => ?_, h.finalItem_eq_iff.mp hfinal⟩
    cases hlast : (schemasOf identifier blocks).getLast? with
    | none =>
      rw [List.getLast?_eq_none_iff.mp hlast]
      rfl
    | some schema =>
      have hmem : recordFrom identifier schema ∈ told :=
        (htold _).mpr (congrArg (Option.map (recordFrom identifier)) hlast)
      have hfirst := (hscanned _).mp ((hsame _).mp hmem)
      obtain ⟨schema', hhead, heq⟩ := Option.map_eq_some_iff.mp hfirst
      rw [← recordFrom_injective identifier heq]
      exact hhead
  · rintro ⟨hdata, hschemas, hkept⟩
    obtain ⟨told, hindex, htold⟩ := htold hdata
    rw [h.finalItem_eq_iff.mpr hkept] at hindex
    refine ⟨_, _, hindex, hscan, fun record => ?_, rfl⟩
    show record ∈ told ↔ record ∈ scanned
    rw [htold, hscanned, hschemas]

/-! ### Blocks and what they are about -/

theorem event?_eq_data_iff {b : LogBlock} {identifier : UInt64} :
    b.event? = some (.data identifier) ↔ b.isDataOf identifier = true := by
  cases b with
  | data fields stored => simp [LogBlock.event?, LogBlock.isDataOf]
  | _ => simp [LogBlock.event?, LogBlock.isDataOf]

theorem schemaOf?_map_snd (identifier : UInt64) (b : LogBlock) :
    (b.schemaOf? identifier).map Prod.snd = b.event?.bind fun e => match e with
      | .schema i rawSchema => if i = identifier then some rawSchema else none
      | .data _ => none := by
  cases b with
  | schema i name rawSchema =>
    show (if i = identifier then some (name, rawSchema) else none).map Prod.snd =
      if i = identifier then some rawSchema else none
    split_ifs
    · rfl
    · rfl
  | _ => rfl

theorem map_schemasOf (identifier : UInt64) (blocks : List LogBlock) :
    (schemasOf identifier blocks).map Prod.snd =
      schemasIn identifier (blocks.filterMap LogBlock.event?) := by
  unfold schemasOf schemasIn
  rw [List.map_filterMap, List.filterMap_filterMap]
  exact congrArg (List.filterMap · blocks) (funext (schemaOf?_map_snd identifier))

theorem schemasOf_ne_nil_iff {identifier : UInt64} : schemasOf identifier blocks ≠ [] ↔
    ∃ rawSchema, .schema identifier rawSchema ∈ blocks.filterMap LogBlock.event? := by
  constructor
  · intro hne
    obtain ⟨schema, hmem⟩ := List.exists_mem_of_ne_nil _ hne
    obtain ⟨b, hb, hschema⟩ := List.mem_filterMap.mp hmem
    cases b with
    | schema i name rawSchema =>
      obtain rfl : i = identifier := by
        by_contra hi
        rw [LogBlock.schemaOf?, if_neg hi] at hschema
        cases hschema
      exact ⟨rawSchema, List.mem_filterMap.mpr ⟨_, hb, rfl⟩⟩
    | _ => cases hschema
  · rintro ⟨rawSchema, hmem⟩
    obtain ⟨b, hb, he⟩ := List.mem_filterMap.mp hmem
    cases b with
    | schema i name rawSchema' =>
      obtain ⟨rfl, rfl⟩ := Event.schema.inj (Option.some.inj he)
      exact List.ne_nil_of_mem (List.mem_filterMap.mpr ⟨_, hb, if_pos rfl⟩)
    | data => cases Option.some.inj he
    | _ => cases he

theorem dataKept_iff_events : DataKept blocks ↔
    ∃ before identifier after, blocks.filterMap LogBlock.event? =
        before ++ .data identifier :: after ∧
      ∀ e ∈ after, ∃ i rawSchema, e = .schema i rawSchema ∧ i ≠ identifier := by
  constructor
  · rintro ⟨before, fields, stored, after, rfl, hafter⟩
    refine ⟨before.filterMap LogBlock.event?, fields.identifier, after.filterMap LogBlock.event?,
      ?_, fun e he => ?_⟩
    · rw [List.filterMap_append, List.filterMap_cons]
      rfl
    · obtain ⟨b, hb, he⟩ := List.mem_filterMap.mp he
      obtain ⟨hdata, hschema⟩ := hafter b hb
      cases b with
      | schema i name rawSchema =>
        refine ⟨i, rawSchema, (Option.some.inj he).symm, fun hi => ?_⟩
        rw [LogBlock.isSchemaOf, LogBlock.schemaOf?, if_pos hi] at hschema
        cases hschema
      | data => exact absurd hdata (by simp [LogBlock.isData_data])
      | _ => cases he
  · rintro ⟨before, identifier, after, hevents, hafter⟩
    obtain ⟨l₁, l₂, rfl, -, hl₂⟩ := List.filterMap_eq_append_iff.mp hevents
    obtain ⟨between, b, rest, rfl, -, hb, rfl⟩ := List.filterMap_eq_cons_iff.mp hl₂
    cases b with
    | data fields stored =>
      obtain rfl : fields.identifier = identifier := by simpa [LogBlock.event?] using hb
      refine ⟨l₁ ++ between, fields, stored, rest, by rw [List.append_assoc], fun b' hb' => ?_⟩
      have hevent : ∀ e, b'.event? = some e → ∃ i rawSchema, e = .schema i rawSchema ∧
          i ≠ fields.identifier := fun e he => hafter e (List.mem_filterMap.mpr ⟨b', hb', he⟩)
      cases b' with
      | schema i name rawSchema =>
        obtain ⟨_, _, heq, hi⟩ := hevent _ rfl
        obtain ⟨rfl, rfl⟩ := Event.schema.inj heq
        exact ⟨rfl, Option.isSome_eq_false_iff.mpr (Option.isNone_iff_eq_none.mpr (if_neg hi))⟩
      | data =>
        obtain ⟨_, _, heq, _⟩ := hevent _ rfl
        cases heq
      | _ => exact ⟨rfl, rfl⟩
    | _ => cases hb

/-- The schema blocks of an identifier have one name. -/
theorem FileWriter.Remembers.fst_eq (h : Remembers s blocks) {identifier : UInt64}
    {schema : Bytes × Bytes} (hmem : schema ∈ schemasOf identifier blocks) :
    s.reverseIdentifierMap.get? identifier = some schema.1 := by
  obtain ⟨b, hb, hschema⟩ := List.mem_filterMap.mp hmem
  cases b with
  | schema i name rawSchema =>
    rw [LogBlock.schemaOf?] at hschema
    split_ifs at hschema with hi
    subst hi
    obtain rfl := Option.some.inj hschema
    exact h.name i name rawSchema hb
  | _ => cases hschema

theorem head?_eq_getLast?_iff (h : Remembers s blocks) (identifier : UInt64) :
    (schemasOf identifier blocks).head? = (schemasOf identifier blocks).getLast? ↔
      (schemasIn identifier (blocks.filterMap LogBlock.event?)).head? =
        (schemasIn identifier (blocks.filterMap LogBlock.event?)).getLast? := by
  rw [← map_schemasOf, List.head?_map, List.getLast?_map]
  refine ⟨congrArg _, fun heq => ?_⟩
  cases hhead : (schemasOf identifier blocks).head? with
  | none =>
    rw [List.head?_eq_none_iff.mp hhead]
    rfl
  | some x =>
    cases hlast : (schemasOf identifier blocks).getLast? with
    | none =>
      rw [List.getLast?_eq_none_iff.mp hlast] at hhead
      cases hhead
    | some y =>
      rw [hhead, hlast] at heq
      have hx := h.fst_eq (List.mem_of_head? hhead)
      have hy := h.fst_eq (List.mem_of_getLast? hlast)
      have hfst : x.1 = y.1 := Option.some.inj (hx.symm.trans hy)
      rw [Prod.ext hfst (Option.some.inj heq)]

theorem indexedBlocks_iff (h : Remembers s blocks) (hne : blocks.filterMap LogBlock.event? ≠ []) :
    IndexedBlocks blocks ↔ Indexed (blocks.filterMap LogBlock.event?) := by
  have hdata : ∀ identifier, (∃ b ∈ blocks, b.isDataOf identifier = true) ↔
      .data identifier ∈ blocks.filterMap LogBlock.event? := by
    intro identifier
    simp only [List.mem_filterMap, event?_eq_data_iff]
  unfold IndexedBlocks Indexed
  rw [or_iff_right hne, ← dataKept_iff_events]
  simp only [hdata, schemasOf_ne_nil_iff, head?_eq_getLast?_iff h]

/-! ### Runs -/

variable {platform : Platform} {options : FileWriter.Options}

theorem remembers_opened : Remembers opened [] where
  writer := ⟨_, rfl, rfl⟩
  closed := rfl
  readable _ h := nomatch h
  name _ _ _ h := nomatch h
  known _ := iff_of_false Bool.false_ne_true (fun ⟨_, h, _⟩ => nomatch h)
  lastPosition _ _ h := nomatch h
  schema _ _ h := nomatch h

/-- Closing makes the index. -/
theorem indexedLog_of_close {s' : FileWriter.State} (h : Remembers s blocks)
    (hindex : options.indexBlock = true) (hclose : s.close options = some s')
    (hsmall : (indexBlock s').length < 2 ^ 32) :
    IndexedLog s blocks (blocks ++ [.index (indexBody s)]) ∧
      closedFile s' = image (blocks ++ [.index (indexBody s)]) := by
  obtain ⟨writer, hw, hfile⟩ := h.writer
  unfold State.close at hclose
  rw [hw] at hclose
  dsimp only at hclose
  rw [if_pos hindex] at hclose
  obtain ⟨s₁, hwrite, hclose⟩ := Option.bind_eq_some_iff.mp hclose
  cases hclose
  have happ : Appends s [(LogBlock.index (indexBody s)).encode] s₁ := writeIndex_eq_some hwrite
  obtain ⟨⟨writer₁, hw₁, hfile₁⟩, hclosed, hschema, -⟩ := happ.image ⟨writer, hw, hfile⟩
  refine ⟨⟨h, rfl, ?_, ?_⟩, ?_⟩
  · rw [← hfile₁]
    exact writer₁.length_lt
  · rw [indexBlock, ← indexBody_congr hschema]
    exact hsmall
  · rw [← hfile₁]
    unfold closedFile
    dsimp only
    rw [hclosed, h.closed, hw₁]
    simp

/-- **The index tells what a scan tells exactly if what was written is indexed**, for the log of any
calls with parsable schemas. -/
theorem sameAsScan_iff {calls : List Call} {s : FileWriter.State}
    (hrun : Run.run (FileWriter.step platform options) {} (.openFile :: (calls ++ [.close])) = some s)
    (hcalls : Run.Guarded (FileWriter.step platform options) Parses opened calls)
    (hindex : options.indexBlock = true) (hsmall : (indexBlock s).length < 2 ^ 32) :
    SameAsScan (closedFile s) ↔ Indexed (calls.filterMap event?) := by
  obtain ⟨_, ⟨⟩, hrun⟩ := (Run.run_cons_eq_some _).mp hrun
  obtain ⟨s₁, hrun, hclose⟩ := (Run.run_append_eq_some _).mp hrun
  obtain ⟨_, hclose, ⟨⟩⟩ := (Run.run_cons_eq_some _).mp hclose
  obtain ⟨blocks, h, hevents, hnil⟩ := remembers_run remembers_opened hcalls hrun
  rw [List.nil_append] at h
  obtain ⟨hlog, hfile⟩ := indexedLog_of_close h hindex hclose hsmall
  rw [hfile, ← hevents]
  by_cases hne : blocks.filterMap LogBlock.event? = []
  · obtain rfl := hnil (hevents ▸ hne)
    obtain ⟨scanned, hscan, _⟩ := viaScan_eq hlog.length_lt hlog.readable
    have hsame := viaIndex_of_nil hlog.eq hlog.small hlog.length_lt
    exact iff_of_true ⟨_, _, hsame.trans hscan, hscan, fun _ => Iff.rfl, rfl⟩ (Or.inl rfl)
  · rw [hlog.agree_iff (fun hblocks => hne (by rw [hblocks]; rfl)), indexedBlocks_iff h hne]

/-- A schema and data of it. -/
theorem sameAsScan_one : ∃ s, Run.run (FileWriter.step ⟨id, 0⟩ {}) {}
      [.openFile, .allocateIdentifier [0x61], .writeSchema 1 [0x02],
        .writeData (.finite 5 (by decide)) 1 [0x01] {} .notADateTime, .close] = some s ∧
    SameAsScan (closedFile s) := by
  let calls : List Call := [.allocateIdentifier [0x61], .writeSchema 1 [0x02],
    .writeData (.finite 5 (by decide)) 1 [0x01] {} .notADateTime]
  let final := Run.run (FileWriter.step ⟨id, 0⟩ {}) {} (.openFile :: (calls ++ [.close]))
  have hfinal : final.map (fun s => decide ((indexBlock s).length < 2 ^ 32)) = some true := by
    decide +kernel
  obtain ⟨s, hrun, hs⟩ := Option.map_eq_some_iff.mp hfinal
  refine ⟨s, hrun, (sameAsScan_iff hrun (by decide +kernel : Run.Guarded _ _ opened calls) rfl
    (of_decide_eq_true hs)).mpr (Or.inr ⟨?_, ?_, ?_⟩)⟩
  · intro identifier hmem
    exact ⟨[0x02], by simpa [calls, event?] using hmem⟩
  · intro identifier
    show (schemasIn identifier [.schema 1 [0x02], .data 1]).head? =
      (schemasIn identifier [.schema 1 [0x02], .data 1]).getLast?
    by_cases hid : 1 = identifier
    · simp [schemasIn, hid]
    · simp [schemasIn, hid]
  · exact ⟨[.schema 1 [0x02]], 1, [], rfl, fun _ h => by cases h⟩

/-- A schema that no data is written of. -/
theorem not_sameAsScan : ∃ s, Run.run (FileWriter.step ⟨id, 0⟩ {}) {}
      [.openFile, .allocateIdentifier [0x61], .writeSchema 1 [0x02], .close] = some s ∧
    ¬SameAsScan (closedFile s) := by
  let final := Run.run (FileWriter.step ⟨id, 0⟩ {}) {}
    [.openFile, .allocateIdentifier [0x61], .writeSchema 1 [0x02], .close]
  have hfinal : final.map (fun s => ((viaIndex (closedFile s)).toOption.map Prod.snd,
      (viaScan (closedFile s)).toOption.map Prod.snd)) = some (some 0, some (-1)) := by
    decide +kernel
  obtain ⟨s, hrun, hs⟩ := Option.map_eq_some_iff.mp hfinal
  refine ⟨s, hrun, ?_⟩
  rintro ⟨a, b, hindex, hscan, -, hsame⟩
  rw [hindex, hscan] at hs
  obtain ⟨ha, hb⟩ := Prod.mk.inj hs
  have hzero : a.2 = 0 := Option.some.inj ha
  have hnone : b.2 = -1 := Option.some.inj hb
  omega

end Mjlib.Telemetry
