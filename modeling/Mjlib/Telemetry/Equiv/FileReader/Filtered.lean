import Mjlib.Telemetry.Equiv.FileReader.Moves
import Mjlib.Telemetry.FileReaderShared

/-!
# What a range with record names finds

A range has the identifiers of its names that it knows, and the names that it waits for.  `Waits`
says that it has those of all names whose records the reader knows; a range that reads on keeps this
up, and finds the next item with one of its names (`readUntil_of_waits`).
-/

namespace Mjlib.Telemetry.FileReader

open Base FileWriter

variable {rawUncompress : RawUncompress} {all before after blocks : List LogBlock}
  {st st' : State} {context : ItemRangeContext} {names : List Bytes}

/-- The items with one of some names. -/
def selected (names : List Bytes) (items : List Item) : List Item :=
  items.filter fun item => item.record.name ∈ names

/-- Those in the first blocks of a log. -/
def selectedIn (rawUncompress : RawUncompress) (all : List LogBlock) (names : List Bytes)
    (blocks : List LogBlock) : List Item :=
  selected names (itemsFrom rawUncompress all (image []).length blocks)

theorem selectedIn_append (blocks after : List LogBlock) :
    selectedIn rawUncompress all names (blocks ++ after) =
      selectedIn rawUncompress all names blocks ++
        selected names (itemsFrom rawUncompress all (image blocks).length after) := by
  unfold selectedIn selected
  rw [itemsFrom_append, List.filter_append, ← length_image]

theorem selectedIn_concat_of_ne (blocks : List LogBlock) {b : LogBlock}
    (h : b.blockType ≠ .kData) : selectedIn rawUncompress all names (blocks ++ [b]) =
      selectedIn rawUncompress all names blocks := by
  rw [selectedIn_append, itemsFrom_cons_of_ne _ h]
  exact List.append_nil _

theorem selectedIn_concat_data (blocks : List LogBlock) (fields : DataFields) (stored : Bytes) :
    selectedIn rawUncompress all names (blocks ++ [.data fields stored]) =
      selectedIn rawUncompress all names blocks ++
        if (recordFor all fields.identifier).name ∈ names then
          [itemOf (image blocks).length fields (plainData rawUncompress fields stored)
            (recordFor all fields.identifier)]
        else [] := by
  rw [selectedIn_append]
  congr 1
  show selected names [itemOf _ _ _ _] = _
  unfold selected
  split_ifs with h
  · exact List.filter_cons_of_pos (decide_eq_true h)
  · exact List.filter_cons_of_neg fun hmem => h (of_decide_eq_true hmem)

/-! ### What a range waits for -/

/-- The names of the records tell them apart. -/
def NamesUnique (all : List LogBlock) : Prop :=
  ∀ record ∈ recordsOf all, ∀ record' ∈ recordsOf all, record.name = record'.name →
    record = record'

/-- A range has the identifiers of its names, but for those that it waits for, which the reader does
not know yet.  Names without items do not matter. -/
structure Waits (rawUncompress : RawUncompress) (all : List LogBlock) (st : State)
    (context : ItemRangeContext) : Prop where
  unknown : ∀ name ∈ context.unknownNames, name ∈ context.options.records
  sound : ∀ identifier ∈ context.ids, ∃ record ∈ recordsOf all,
    record.identifier = identifier ∧ record.name ∈ context.options.records
  complete : ∀ item ∈ itemsOf rawUncompress all, item.record.name ∈ context.options.records →
    item.record.identifier ∈ context.ids ∨ (item.record.name ∈ context.unknownNames ∧
      st.idToRecord.get? item.record.identifier = none)

/-- A reader that knows as much. -/
theorem Waits.of_eq (h : Waits rawUncompress all st context)
    (heq : st'.idToRecord = st.idToRecord) : Waits rawUncompress all st' context :=
  ⟨h.unknown, h.sound, heq ▸ h.complete⟩

/-- The reader knows no record with items that a range waits for. -/
def Informed (rawUncompress : RawUncompress) (all : List LogBlock) (st : State)
    (context : ItemRangeContext) : Prop :=
  ∀ item ∈ itemsOf rawUncompress all, item.record.name ∈ context.unknownNames →
    st.idToRecord.get? item.record.identifier = none

theorem Waits.of_informed (h : Waits rawUncompress all st context)
    (hinformed : Informed rawUncompress all st' context) : Waits rawUncompress all st' context := by
  refine ⟨h.unknown, h.sound, fun item hitem hname => ?_⟩
  exact (h.complete item hitem hname).imp_right fun hwaits =>
    ⟨hwaits.1, hinformed item hitem hwaits.1⟩

/-- What a reader does not know in the end, it did not know before. -/
theorem Informed.of_moved (h : Informed rawUncompress all st' context) (hmoved : Moved all st st') :
    Informed rawUncompress all st context := by
  intro item hitem hname
  by_contra hknown
  obtain ⟨record, hknown⟩ := Option.ne_none_iff_exists'.mp hknown
  have hknown' := hmoved.learned _ (stable_known _ record) hknown
  rw [h item hitem hname] at hknown'
  exact nomatch hknown'

theorem record_mem_recordsOf (hvalid : ValidLog rawUncompress all) {item : Item}
    (h : item ∈ itemsOf rawUncompress all) : item.record ∈ recordsOf all := by
  obtain ⟨before, fields, stored, after, hall, rfl⟩ := mem_itemsFrom_iff.mp h
  exact (recordFor_identifier hvalid hall).2

/-- A new range. -/
theorem waits_itemRangeContext (hvalid : ValidLog rawUncompress all) (hnames : NamesUnique all)
    (h : Sound all st) (itemsOptions : ItemsOptions) :
    Waits rawUncompress all st (itemRangeContext itemsOptions st) := by
  refine ⟨fun name hname => (List.mem_filter.mp hname).1, ?_, ?_⟩
  · intro identifier hid
    obtain ⟨name, hname, hget⟩ := List.mem_filterMap.mp hid
    obtain ⟨record, hrecord, rfl⟩ := Option.map_eq_some_iff.mp hget
    obtain ⟨rfl, hknown⟩ := h.cached.sound name record hrecord
    exact ⟨record, (h.knows.sound _ record hknown).2, rfl, hname⟩
  · intro item hitem hname
    have hmem := record_mem_recordsOf hvalid hitem
    cases hget : st.nameToRecord.get? item.record.name with
    | some record =>
      refine .inl (List.mem_filterMap.mpr ⟨_, hname, ?_⟩)
      obtain ⟨hrecord, hknown⟩ := h.cached.sound _ record hget
      rw [hget, hnames record (h.knows.sound _ record hknown).2 _ hmem hrecord]
      rfl
    | none =>
      have hnot : st.nameToRecord.contains item.record.name = false := by
        unfold SortedMap.contains
        rw [hget]
        rfl
      refine .inr ⟨List.mem_filter.mpr ⟨hname, by rw [hnot]; rfl⟩, ?_⟩
      by_contra hknown
      obtain ⟨record, hknown⟩ := Option.ne_none_iff_exists'.mp hknown
      obtain ⟨hid, hrecord⟩ := h.knows.sound _ record hknown
      have hname' := h.cached.complete _ record hknown
      rw [hvalid.unique record hrecord _ hmem hid, hnot] at hname'
      exact nomatch hname'

/-- The range after the reader has gone past a block. -/
def ItemRangeContext.learn (context : ItemRangeContext) (st : State) (b : LogBlock) :
    ItemRangeContext := ((Filter.range context).learn st b).context

theorem learn_range (context : ItemRangeContext) (st : State) (b : LogBlock) :
    (Filter.range context).learn st b = .range (context.learn st b) := by
  unfold ItemRangeContext.learn
  cases b with
  | schema identifier name rawSchema =>
    unfold Filter.learn Filter.newSchema
    dsimp only
    split_ifs
    · rfl
    · rfl
    · rfl
  | _ => rfl

theorem options_learn (context : ItemRangeContext) (st : State) (b : LogBlock) :
    (context.learn st b).options = context.options := by
  unfold ItemRangeContext.learn
  cases b with
  | schema identifier name rawSchema =>
    unfold Filter.learn Filter.newSchema
    dsimp only
    split_ifs
    · rfl
    · rfl
    · rfl
  | _ => rfl

/-- **A range that goes past a block.**  The name of a new schema is waited for no more. -/
theorem Waits.learn (hvalid : ValidLog rawUncompress all) (hnames : NamesUnique all)
    (h : Waits rawUncompress all st context) {b : LogBlock} (hb : b ∈ all) (pos : ℕ) :
    Waits rawUncompress all (st.learn pos b) (context.learn st b) := by
  cases b with
  | schema identifier name rawSchema =>
    have hrecord : schemaRecord identifier name rawSchema ∈ recordsOf all :=
      List.mem_filterMap.mpr ⟨_, hb, rfl⟩
    unfold State.learn ItemRangeContext.learn Filter.learn Filter.newSchema
    dsimp only
    split_ifs with hknown hwaits
    · exact h
    · have hname := h.unknown name (by simpa using hwaits)
      refine ⟨fun name' hname' => h.unknown name' (List.mem_filter.mp hname').1, ?_, ?_⟩
      · intro i hi
        rcases List.mem_cons.mp hi with rfl | hi
        · exact ⟨_, hrecord, rfl, hname⟩
        · exact h.sound i hi
      · intro item hitem hin
        have hmem := record_mem_recordsOf hvalid hitem
        by_cases hid : item.record.identifier = identifier
        · exact .inl (hid ▸ List.mem_cons_self)
        · refine (h.complete item hitem hin).imp (List.mem_cons_of_mem _) fun hwaits' => ⟨?_, ?_⟩
          · refine List.mem_filter.mpr ⟨hwaits'.1, decide_eq_true fun heq => hid ?_⟩
            exact congrArg Record.identifier (hnames _ hmem _ hrecord heq)
          · show (st.idToRecord.insert identifier _).get? _ = none
            rw [SortedMap.get?_insert, if_neg hid]
            exact hwaits'.2
    · refine ⟨h.unknown, h.sound, fun item hitem hin => ?_⟩
      refine (h.complete item hitem hin).imp_right fun hwaits' => ⟨hwaits'.1, ?_⟩
      have hid : item.record.identifier ≠ identifier := by
        intro hid
        have hrecord' := hvalid.unique _ (record_mem_recordsOf hvalid hitem) _ hrecord hid
        have hname : name ∈ context.unknownNames := by
          have := hwaits'.1
          rwa [hrecord'] at this
        exact hwaits (by simpa using hname)
      show (st.idToRecord.insert identifier _).get? _ = none
      rw [SortedMap.get?_insert, if_neg hid]
      exact hwaits'.2
  | _ => exact h.of_eq rfl

/-- **A range stops at the items with its names**, once the reader has gone past what is before. -/
theorem stops_of_waits (hvalid : ValidLog rawUncompress all)
    (h : Waits rawUncompress all st context) (hne : context.options.records ≠ [])
    {fields : DataFields} {stored : Bytes} (hall : all = before ++ .data fields stored :: after)
    (hknows : Knows all before st) :
    (Filter.range context).stops (.data fields stored) =
      decide ((recordFor all fields.identifier).name ∈ context.options.records) := by
  obtain ⟨hid, hmem⟩ := recordFor_identifier hvalid hall
  have hempty : context.options.records.isEmpty = false := by
    rwa [List.isEmpty_eq_false_iff]
  show (context.options.records.isEmpty || context.ids.contains fields.identifier) = _
  rw [hempty, Bool.false_or, List.contains_eq_mem, decide_eq_decide]
  constructor
  · intro hin
    obtain ⟨record, hrecord, hid', hname⟩ := h.sound _ hin
    rwa [hvalid.unique _ hmem record hrecord (hid.trans hid'.symm)]
  · intro hname
    have hitem : itemOf ((image []).length + (before.flatMap LogBlock.encode).length : ℕ) fields
        (plainData rawUncompress fields stored) (recordFor all fields.identifier) ∈
          itemsOf rawUncompress all :=
      mem_itemsFrom_iff.mpr ⟨before, fields, stored, after, hall, rfl⟩
    rcases h.complete _ hitem hname with hin | ⟨-, hnone⟩
    · rwa [← hid]
    · obtain ⟨⟨record, hrecord, hid'⟩, -⟩ := hvalid.data before fields stored after hall
      change st.idToRecord.get? (recordFor all fields.identifier).identifier = none at hnone
      rw [hid, ← hid', hknows.complete record hrecord] at hnone
      exact nomatch hnone

/-! ### `ReadUntil` -/

/-- A range stays one. -/
theorem exists_context_of_find : ∀ (blocks : List LogBlock) (st : State)
    (context : ItemRangeContext) (pos : ℕ), ∃ context',
    (find st (.range context) pos blocks).2.1 = .range context' ∧
      context'.options = context.options := by
  intro blocks
  induction blocks with
  | nil => exact fun _ context _ => ⟨context, rfl, rfl⟩
  | cons b blocks ih =>
    intro st context pos
    rw [find, learn_range]
    split_ifs
    · exact ⟨_, rfl, options_learn context st b⟩
    · obtain ⟨context', hfind, hoptions⟩ := ih (st.learn pos b) (context.learn st b)
        (pos + b.encode.length)
      exact ⟨context', hfind, hoptions.trans (options_learn context st b)⟩

theorem waits_find (hvalid : ValidLog rawUncompress all) (hnames : NamesUnique all)
    {context' : ItemRangeContext} : ∀ {blocks : List LogBlock} {st : State}
    {context : ItemRangeContext} {pos : ℕ}, (∀ b ∈ blocks, b ∈ all) →
    Waits rawUncompress all st context →
    (find st (.range context) pos blocks).2.1 = .range context' →
    Waits rawUncompress all (find st (.range context) pos blocks).2.2 context' := by
  intro blocks
  induction blocks with
  | nil =>
    intro st context pos _ h hfind
    cases hfind
    exact h
  | cons b blocks ih =>
    intro st context pos hmem h hfind
    obtain ⟨hb, hblocks⟩ := List.forall_mem_cons.mp hmem
    rw [find, learn_range] at hfind ⊢
    split_ifs at hfind ⊢
    · cases hfind
      exact h.learn hvalid hnames hb pos
    · exact ih hblocks (h.learn hvalid hnames hb pos) hfind

/-- What is found behind some blocks: the next item with one of the names, or that there is none. -/
inductive Next (rawUncompress : RawUncompress) (all : List LogBlock) (names : List Bytes)
    (before : List LogBlock) (st : State) : Option (ℕ × ℕ) → Prop
  | none (h : selectedIn rawUncompress all names all = selectedIn rawUncompress all names before) :
      Next rawUncompress all names before st none
  | some (skipped : List LogBlock) (fields : DataFields) (stored : Bytes) (rest : List LogBlock)
      (hall : all = before ++ skipped ++ .data fields stored :: rest)
      (hskipped : selectedIn rawUncompress all names (before ++ skipped) =
        selectedIn rawUncompress all names before)
      (hname : (recordFor all fields.identifier).name ∈ names)
      (hknows : Knows all (before ++ skipped) st) :
      Next rawUncompress all names before st (some ((image (before ++ skipped)).length,
        (image (before ++ skipped)).length + (LogBlock.data fields stored).encode.length))

theorem Next.of_eq {found : Option (ℕ × ℕ)} (h : Next rawUncompress all names before st found)
    (heq : st'.idToRecord = st.idToRecord) : Next rawUncompress all names before st' found := by
  cases h with
  | none h => exact .none h
  | some skipped fields stored rest hall hskipped hname hknows =>
    exact .some skipped fields stored rest hall hskipped hname (hknows.of_eq heq)

/-- What is found behind one more block is found behind those before it. -/
theorem Next.of_concat {b : LogBlock} {found : Option (ℕ × ℕ)}
    (h : Next rawUncompress all names (before ++ [b]) st found)
    (hb : selectedIn rawUncompress all names (before ++ [b]) =
      selectedIn rawUncompress all names before) :
    Next rawUncompress all names before st found := by
  cases h with
  | none h => exact .none (h.trans hb)
  | some skipped fields stored rest hall hskipped hname hknows =>
    have hassoc : before ++ [b] ++ skipped = before ++ (b :: skipped) := by
      rw [List.append_assoc]
      rfl
    rw [hassoc] at hall hskipped hknows ⊢
    exact .some (b :: skipped) fields stored rest hall (hskipped.trans hb) hname hknows

/-- **The walk of a range.**  Induction over the blocks that are left. -/
theorem next_find (hvalid : ValidLog rawUncompress all) (hnames : NamesUnique all) :
    ∀ {after before : List LogBlock} {st : State} {context : ItemRangeContext},
    all = before ++ after → Knows all before st → Waits rawUncompress all st context →
    context.options.records ≠ [] →
    Next rawUncompress all context.options.records before
      (find st (.range context) (image before).length after).2.2
      (find st (.range context) (image before).length after).1 := by
  intro after
  induction after with
  | nil =>
    intro before st context hall _ _ _
    rw [List.append_nil] at hall
    exact .none (by rw [hall])
  | cons b after ih =>
    intro before st context hall hknows hwaits hne
    have hmem : b ∈ all := hall ▸ List.mem_append_right _ List.mem_cons_self
    have hall' : all = (before ++ [b]) ++ after := by rw [hall, List.append_assoc]; rfl
    have hlearned := hknows.learn hvalid hmem (image before).length
    have hskip : selectedIn rawUncompress all context.options.records (before ++ [b]) =
        selectedIn rawUncompress all context.options.records before →
        Next rawUncompress all context.options.records before
          (find (st.learn (image before).length b) (.range (context.learn st b))
            ((image before).length + b.encode.length) after).2.2
          (find (st.learn (image before).length b) (.range (context.learn st b))
            ((image before).length + b.encode.length) after).1 := by
      intro hb
      have hnext := ih hall' hlearned
        (hwaits.learn hvalid hnames hmem (image before).length)
        (by rw [options_learn]; exact hne)
      rw [options_learn, length_image_concat] at hnext
      exact hnext.of_concat hb
    rw [find, learn_range]
    by_cases hdata : b.blockType = .kData
    · cases b with
      | data fields stored =>
        rw [stops_of_waits hvalid hwaits hne hall hknows]
        split_ifs with hname
        · have hnil : before ++ [] = before := List.append_nil before
          have hknows' : Knows all before (st.learn (image before).length (.data fields stored)) :=
            hknows.of_eq rfl
          have hfound : Next rawUncompress all context.options.records before _ _ :=
            .some [] fields stored after (by rw [hnil]; exact hall) (by rw [hnil])
              (of_decide_eq_true hname) (by rw [hnil]; exact hknows')
          rwa [hnil] at hfound
        · refine hskip ?_
          rw [selectedIn_concat_data, if_neg (by simpa using hname), List.append_nil]
      | _ => cases hdata
    · have hstops : (Filter.range context).stops b = false := by
        cases b with
        | data fields stored => exact absurd rfl hdata
        | _ => rfl
      rw [if_neg (by rw [hstops]; exact Bool.false_ne_true)]
      exact hskip (selectedIn_concat_of_ne before hdata)

end Mjlib.Telemetry.FileReader
