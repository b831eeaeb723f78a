import Mjlib.Telemetry.Equiv.FileReader.Open

/-!
# Item ranges with a start and an end

`FileReader` starts at the start of an item range, and goes on to the last item of the log: nothing
reads `ItemsOptions::end`.  So a range never has exactly the items from its start to its end
(`items_range_ne`).
-/

namespace Mjlib.Telemetry.FileReader

open Base FileWriter

variable {rawUncompress : RawUncompress} {all : List LogBlock} {st st' : State} {options : Options}

/-- What a reader returns has the indices of the items that are there. -/
theorem map_index_itemsKnown (all : List LogBlock) : ∀ {blocks : List LogBlock} {st : State}
    {pos : ℕ} {items : List Item}, itemsKnown rawUncompress st pos blocks = .ok items →
    items.map Item.index = (itemsFrom rawUncompress all pos blocks).map Item.index := by
  intro blocks
  induction blocks with
  | nil =>
    intro st pos items h
    cases h
    rfl
  | cons b blocks ih =>
    intro st pos items h
    by_cases hb : b.blockType = .kData
    · cases b with
      | data fields stored =>
        cases hget : st.idToRecord.get? fields.identifier with
        | none =>
          rw [itemsKnown, hget] at h
          cases h
        | some record =>
          rw [itemsKnown_cons_data _ hget] at h
          cases hitems : itemsKnown rawUncompress (st.learn pos (.data fields stored))
            (pos + (LogBlock.data fields stored).encode.length) blocks with
          | error e =>
            rw [hitems] at h
            cases h
          | ok items' =>
            rw [hitems] at h
            cases h
            rw [itemsFrom, List.map_cons, List.map_cons, ih hitems]
            rfl
      | _ => cases hb
    · rw [itemsKnown_cons_of_ne _ hb] at h
      rw [itemsFrom_cons_of_ne _ hb]
      exact ih h

/-- The items from a block on are those with an index that is not smaller. -/
theorem filter_itemsOf {before after : List LogBlock} (hall : all = before ++ after) :
    (itemsOf rawUncompress all).filter (fun i => ((image before).length : ℤ) ≤ i.index) =
      itemsFrom rawUncompress all (image before).length after := by
  have hlen : (image []).length + (before.flatMap LogBlock.encode).length =
      (image before).length := by
    unfold image
    rw [List.length_append, List.length_append]
    rfl
  have hsplit : itemsOf rawUncompress all =
      itemsFrom rawUncompress all (image []).length before ++
        itemsFrom rawUncompress all (image before).length after := by
    have happend := @itemsFrom_append rawUncompress all before after (image []).length
    rwa [hlen, ← hall] at happend
  rw [hsplit, List.filter_append, List.filter_eq_nil_iff.mpr, List.nil_append,
    List.filter_eq_self.mpr]
  · intro i hi
    obtain ⟨_, fields, stored, _, _, rfl⟩ := mem_itemsFrom_iff.mp hi
    exact decide_eq_true (Int.ofNat_le.mpr (Nat.le_add_right _ _))
  · intro i hi
    obtain ⟨before', fields, stored, after', hbefore, rfl⟩ := mem_itemsFrom_iff.mp hi
    have hlt : (before'.flatMap LogBlock.encode).length < (before.flatMap LogBlock.encode).length := by
      have := (LogBlock.data fields stored).length_encode_pos
      rw [hbefore, List.flatMap_append, List.flatMap_cons, List.length_append, List.length_append]
      omega
    simp only [decide_eq_true_eq, not_le]
    show (((image []).length + (before'.flatMap LogBlock.encode).length : ℕ) : ℤ) < _
    omega

/-- **A range goes on to the last item.** -/
theorem map_index_items {start : Item} {itemsOptions : ItemsOptions} {result : List Item}
    (hvalid : ValidLog rawUncompress all) (hstart : start ∈ itemsOf rawUncompress all)
    (ho : itemsOptions.records = []) (ho' : itemsOptions.start = start.index)
    (h : items (image all) options rawUncompress itemsOptions st = (.ok result, st')) :
    result.map Item.index = ((itemsOf rawUncompress all).filter
      fun i => start.index ≤ i.index).map Item.index := by
  obtain ⟨before, fields, stored, after, hall, rfl⟩ := mem_itemsFrom_iff.mp hstart
  have hindex : ((image []).length + (before.flatMap LogBlock.encode).length : ℕ) =
      (image before).length := by
    unfold image
    rw [List.length_append, List.length_append]
    rfl
  rw [hindex] at ho' ⊢
  obtain ⟨_, hitems, -⟩ := items_from_eq options ho hvalid hall st
    ((if_neg (by rw [ho']; exact not_lt.mpr (Int.natCast_nonneg _))).trans ho')
  obtain ⟨hitems, -⟩ := Prod.mk.inj (hitems.symm.trans h)
  rw [map_index_itemsKnown all hitems, ← filter_itemsOf hall]
  rfl

/-- What a range yields is not what ends before an item of the log. -/
theorem not_filter_of_items {start stop : Item} (hvalid : ValidLog rawUncompress all)
    (hstart : start ∈ itemsOf rawUncompress all) (hstop : stop ∈ itemsOf rawUncompress all)
    (hle : start.index ≤ stop.index) :
    items (image all) options rawUncompress { start := start.index, stop := stop.index } st ≠
      (.ok ((itemsOf rawUncompress all).filter fun i =>
        start.index ≤ i.index ∧ i.index < stop.index), st') := by
  intro h
  have hindices := map_index_items hvalid hstart rfl rfl h
  have hmem : stop.index ∈ ((itemsOf rawUncompress all).filter
      fun i => start.index ≤ i.index).map Item.index :=
    List.mem_map_of_mem (List.mem_filter.mpr ⟨hstop, decide_eq_true hle⟩)
  rw [← hindices] at hmem
  obtain ⟨i, hi, hindex⟩ := List.mem_map.mp hmem
  have hlt := (of_decide_eq_true (List.mem_filter.mp hi).2).2
  omega

/-- **No range has the items from its start to its end**: whatever the reader has done before, and for
every start and end, the result is an error or goes on to the last item. -/
theorem items_range_ne (options : Options) (st : State) {start stop : Item}
    (hvalid : ValidLog rawUncompress all) (hstart : start ∈ itemsOf rawUncompress all)
    (hstop : stop ∈ itemsOf rawUncompress all) (hle : start.index ≤ stop.index) :
    ¬∃ st', items (image all) options rawUncompress
      { start := start.index, stop := stop.index } st =
        (.ok ((itemsOf rawUncompress all).filter fun i =>
          start.index ≤ i.index ∧ i.index < stop.index), st') :=
  fun ⟨_, h⟩ => not_filter_of_items hvalid hstart hstop hle h

/-- A log of one item. -/
def logOfOne : List LogBlock := [.schema 1 [0x61] [0x02], .data ⟨1, none, none, true, false⟩ [0x01]]

theorem validLog_logOfOne : ValidLog some logOfOne := by
  refine ⟨by decide +kernel, ?_, ?_, ?_⟩
  · intro identifier name rawSchema hmem
    rcases List.mem_cons.mp hmem with h | h
    · cases h
      refine ⟨by decide, ?_⟩
      have hparse : (BinarySchemaParser.parse [0x02] [0x61]).isOk := by decide +kernel
      cases h : BinarySchemaParser.parse [0x02] [0x61] with
      | error e =>
        rw [h] at hparse
        cases hparse
      | ok root => exact ⟨root, rfl⟩
    · cases List.mem_singleton.mp h
  · rintro record hrecord record' hrecord' -
    rw [List.mem_singleton.mp hrecord, List.mem_singleton.mp hrecord']
  · intro before fields stored after h
    cases before with
    | nil => cases (List.cons.inj h).1
    | cons b before =>
      obtain ⟨rfl, hrest⟩ := List.cons.inj h
      cases before with
      | nil =>
        obtain ⟨rfl, -⟩ := LogBlock.data.inj (List.cons.inj hrest).1
        exact ⟨⟨_, List.mem_singleton.mpr rfl, rfl⟩, nofun⟩
      | cons b' before => exact absurd (List.cons.inj hrest).2 (by simp)

/-- Its item. -/
theorem itemsOf_logOfOne : ∃ item, itemsOf some logOfOne = [item] := ⟨_, rfl⟩

/-- The range from the only item to itself. -/
theorem items_range_ne_one : ∃ item ∈ itemsOf some logOfOne,
    ¬∃ st', items (image logOfOne) {} some { start := item.index, stop := item.index } {} =
      (.ok ((itemsOf some logOfOne).filter fun i => item.index ≤ i.index ∧ i.index < item.index),
        st') := by
  obtain ⟨item, hitem⟩ := itemsOf_logOfOne
  have hmem : item ∈ itemsOf some logOfOne := hitem ▸ List.mem_cons_self
  exact ⟨item, hmem, items_range_ne {} {} validLog_logOfOne hmem hmem le_rfl⟩

/-- A reader that was just opened, and the range from the only item to itself. -/
theorem not_items_range : ¬∀ (rawUncompress : RawUncompress) (all : List LogBlock)
    (options : Options) (st : State) (start stop : Item), ValidLog rawUncompress all →
    openFile (image all) {} = (.ok ⟨⟩, st) → start ∈ itemsOf rawUncompress all →
    stop ∈ itemsOf rawUncompress all → start.index ≤ stop.index →
    ∃ st', items (image all) options rawUncompress
      { start := start.index, stop := stop.index } st =
        (.ok ((itemsOf rawUncompress all).filter fun i =>
          start.index ≤ i.index ∧ i.index < stop.index), st') := by
  intro h
  obtain ⟨item, hitem⟩ := itemsOf_logOfOne
  have hmem : item ∈ itemsOf some logOfOne := hitem ▸ List.mem_cons_self
  obtain ⟨st, hopen, -⟩ := openFile_eq logOfOne (by decide +kernel)
  obtain ⟨_, hitems⟩ := h some logOfOne {} st item item validLog_logOfOne hopen hmem hmem le_rfl
  exact not_filter_of_items validLog_logOfOne hmem hmem le_rfl hitems

end Mjlib.Telemetry.FileReader
