import Mjlib.Telemetry.Equiv.FileReader.FindSeekMarker
import Mjlib.Telemetry.Equiv.FileWriter.BackLinks

/-!
# `Seek` agrees with a linear scan

In a log in which the signature is nowhere but in the markers, or `EvaluateSeekMarker` makes nothing
of the others, every search finds a marker that the writer has made, or nothing
(`findSeekMarker_of_markers`).  The invariant of the bisection is `Low`:
the items before its lower end are at or before the time, and what is known there is the last one of
every record (`RightFor`).  The items from there on are added one by one (`scanFrom_eq`).
-/

namespace Mjlib.Base.Ptime

/-- Something before a time is before a time that is not earlier. -/
theorem lt_of_lt_of_not_lt {t i m : Ptime} (h : t.lt i = true) (hm : m ≠ .notADateTime)
    (hle : m.lt i = false) : t.lt m = true := by
  cases t <;> cases i <;> cases m <;> simp_all [Ptime.lt]
  omega

end Mjlib.Base.Ptime

namespace Mjlib.Telemetry.FileReader

open Base FileWriter

variable {file : Bytes} {rawUncompress : RawUncompress} {all before after : List LogBlock}
  {st : State} {timestamp : Ptime} {identifier : UInt64}

/-! ### Finding markers -/

theorem readsOnly_findSeekMarkerLoop (stop : ℤ) : ∀ (n : ℕ) (index : ℤ) (m : ℕ),
    ReadsOnly (findSeekMarkerLoop file stop n index m) := by
  intro n
  induction n with
  | zero => exact fun _ _ => readsOnly_throw _
  | succ n ih =>
    intro index m
    have hnext : ∀ m, ReadsOnly (nextPass file stop n index m) := fun m => by
      unfold nextPass
      split_ifs
      · exact readsOnly_pure _
      · exact ih _ _
    refine readsOnly_get.bind fun st => (readsOnly_consume 1).bind fun _ => ?_
    dsimp only
    generalize (if toMatch[m]? = some ((rest file st).headD 0) then m + 1 else 0) = m'
    by_cases hm : m' = 8
    · rw [if_pos hm]
      refine (readsOnly_evaluateSeekMarker _).bind fun found => ?_
      cases found with
      | none =>
        exact (readsOnly_seek _).bind fun _ => .bind (readsOnly_modify fun _ => rfl) fun _ =>
          hnext 0
      | some r => exact readsOnly_pure _
    · rw [if_neg hm]
      exact hnext m'

theorem readsOnly_findSeekMarker (index stop : ℤ) : ReadsOnly (findSeekMarker file index stop) :=
  (readsOnly_seek _).bind fun _ => .bind (readsOnly_modify fun _ => rfl) fun _ =>
    readsOnly_findSeekMarkerLoop _ _ _ _

/-- A position is that of the signature of a marker. -/
def SignatureOfMarker (all : List LogBlock) (p : ℕ) : Prop :=
  ∃ before body after, all = before ++ .seekMarker body :: after ∧
    p = (image before).length + (blockHead .kSeekMarker body.length).length

/-- The signature of the markers is nowhere else. -/
def SignaturesInMarkers (all : List LogBlock) : Prop :=
  ∀ p, SignatureAt (image all) p → SignatureOfMarker all p

/-- `EvaluateSeekMarker` makes nothing of signatures that are not a marker's, nor of any with an
index that is one too high. -/
def Harmless (all : List LogBlock) (st : State) : Prop :=
  ∀ p, SignatureAt (image all) p → evaluated (image all) st p (p + 8) = .ok none ∧
    (¬ SignatureOfMarker all p → evaluated (image all) st p (p + 7) = .ok none)

/-- What is read of a marker of the log, behind some blocks. -/
def IsMarkerOf (all before : List LogBlock) (r : SeekMarkerResult) : Prop :=
  ∃ body after elements, all = before ++ .seekMarker body :: after ∧
    IsMarker before body r.timestamp elements ∧ r.index = (image before).length ∧
    r.seekResult = markerResult (image before).length elements

theorem recordFor_identifier (hvalid : ValidLog rawUncompress all) {fields : DataFields}
    {stored : Bytes} (hall : all = before ++ .data fields stored :: after) :
    (recordFor all fields.identifier).identifier = fields.identifier ∧
      recordFor all fields.identifier ∈ recordsOf all := by
  obtain ⟨⟨record, hrecord, hid⟩, -⟩ := hvalid.data before fields stored after hall
  have hmem : record ∈ recordsOf all := by
    rw [hall, recordsOf_append]
    exact List.mem_append_left _ hrecord
  rw [← hid, hvalid.recordFor_eq hmem]
  exact ⟨rfl, hmem⟩

/-- A reader that knows all records knows that of a data block. -/
theorem Knows.get?_of_data (h : Knows all all st) (hvalid : ValidLog rawUncompress all)
    {fields : DataFields} {stored : Bytes} (hall : all = before ++ .data fields stored :: after) :
    st.idToRecord.get? fields.identifier = some (recordFor all fields.identifier) := by
  obtain ⟨hid, hmem⟩ := recordFor_identifier hvalid hall
  have := h.complete _ hmem
  rwa [hid] at this

theorem length_marker_lt {body : Bytes} (hvalid : ValidLog rawUncompress all)
    (hall : all = before ++ .seekMarker body :: after) :
    (image before).length + body.length < 2 ^ 63 := by
  have hlt := hvalid.length_lt
  rw [hall, image_append, List.flatMap_cons, List.length_append, List.length_append] at hlt
  have hencode : (LogBlock.seekMarker body).encode.length =
      (blockHead .kSeekMarker body.length).length + body.length := by
    show (block .kSeekMarker body).length = _
    rw [block_eq, List.length_append]
  omega

/-- What the search for markers needs of a reader. -/
structure Scanned (all : List LogBlock) (st : State) : Prop where
  knows : Knows all all st
  start : st.start = (image []).length
  signatures : SignaturesInMarkers all ∨ Harmless all st

theorem evaluated_of_core {st' : State} (hcore : st'.core = st.core) (p : ℕ) (index : ℤ) :
    evaluated file st' p index = evaluated file st p index :=
  Reads.evaluate (s := st'.toPos (p + 8)) ⟨rfl, rfl, hcore⟩ index

theorem Scanned.of_core {st' : State} (h : Scanned all st) (hcore : st'.core = st.core) :
    Scanned all st' := by
  have hstart : st'.core.start = st.core.start := congrArg State.start hcore
  have hid : st'.core.idToRecord = st.core.idToRecord := congrArg State.idToRecord hcore
  refine ⟨h.knows.of_eq hid, hstart.trans h.start, h.signatures.imp_right fun hharmless p hp => ?_⟩
  rw [evaluated_of_core hcore, evaluated_of_core hcore]
  exact hharmless p hp

/-- **A search finds a marker of the log, or nothing.** -/
theorem findSeekMarker_of_markers (hvalid : ValidLog rawUncompress all)
    (hmarkers : MarkersRight all) (hscanned : Scanned all st) (start : ℕ) (stop : ℤ) :
    ∃ found st', findSeekMarker (image all) start stop st = (.ok found, st') ∧
      st'.core = st.core ∧ ∀ r, found = some r →
        ∃ before, IsMarkerOf all before r ∧ (start : ℤ) ≤ r.index + 10 ∧ r.index < stop := by
  have hmarker : ∀ q, SignatureOfMarker all q → ∃ before r, IsMarkerOf all before r ∧
      ReadsMarker (image all) st q r ∧ (q : ℤ) ≤ r.index + 10 ∧ r.index ≤ q := by
    rintro q ⟨before, body, after, hall, hp⟩
    obtain ⟨timestamp, elements, hmarker⟩ := hmarkers before body after hall
    have hknown : ∀ x ∈ elements, st.idToRecord.contains x.1 = true := by
      rintro ⟨identifier, distance⟩ hx
      obtain ⟨hpos, -⟩ := (hmarker.elements identifier distance).mp hx
      rcases lastPosition_cases identifier before with
        ⟨hlast, -⟩ | ⟨before', b, after', hbefore, hb, -⟩
      · omega
      · cases b with
        | data fields stored =>
          obtain rfl : fields.identifier = identifier := by simpa [LogBlock.isDataOf] using hb
          rw [hbefore, List.append_assoc] at hall
          unfold SortedMap.contains
          rw [hscanned.knows.get?_of_data hvalid hall]
          rfl
        | _ => cases hb
    have hread := (readsMarker_of_isMarker hvalid hall hmarker hknown hscanned.start hp).2
    refine ⟨before, _, ⟨body, after, elements, hall, hmarker, rfl, rfl⟩, hread, ?_, ?_⟩
    · have hhead : (blockHead .kSeekMarker body.length).length ≤ 10 := by
        rw [length_blockHead]
        have := length_marker_lt hvalid hall
        exact headerSize_le (by omega)
      show (q : ℤ) ≤ (image before).length + 10
      omega
    · show ((image before).length : ℤ) ≤ q
      omega
  have hcore : (findSeekMarker (image all) start stop st).2.core = st.core :=
    readsOnly_findSeekMarker _ _ st
  have hs : Reads st start (st.toPos start) := ⟨rfl, rfl, rfl⟩
  have hstop : min ((image all).length : ℤ) stop ≤ (image all).length := min_le_left _ _
  have hfuel : min ((image all).length : ℤ) stop - start < ((image all).length + 1 : ℕ) := by
    push_cast
    omega
  rw [findSeekMarker_eq_loop] at hcore ⊢
  rcases search_spec hstop hs (Nat.succ_pos _) hfuel with
    ⟨⟨s', hloop⟩, -⟩ | ⟨q, hq, hend, hne, hloop⟩ | ⟨q₁, q, hq₁, hresult, hq, -, -, hne, -⟩
  · rw [hloop] at hcore
    exact ⟨none, s', hloop, hcore, fun r h => by cases h⟩
  · have hof : SignatureOfMarker all q := by
      rcases hscanned.signatures with hsignatures | hharmless
      · exact hsignatures q hq.1.2.1
      · by_contra hnot
        exact hne ((hharmless q hq.1.2.1).2 hnot)
    obtain ⟨before, r, hof, hread, hle, hge⟩ := hmarker q hof
    have hge' := hq.1.1
    have hend' := hend.trans (min_le_right _ _)
    refine ⟨some r, _, Prod.ext (hloop.trans hread) rfl, hcore, fun r' h => ?_⟩
    obtain rfl := Option.some.inj h
    clear hread hloop hcore
    exact ⟨before, hof, by omega, by omega⟩
  · rcases hscanned.signatures with hsignatures | hharmless
    · obtain ⟨_, r, -, hread, -⟩ := hmarker q₁ (hsignatures q₁ hq₁.1.2.1)
      cases hread.symm.trans hresult
    · exact absurd (hharmless q hq.2.1).1 hne

/-! ### The last items -/

/-- The index of the last item of a record. -/
def lastIndex (identifier : UInt64) (items : List Item) : Option ℤ :=
  ((items.filter fun i => i.record.identifier = identifier).getLast?).map Item.index

/-- A result has the last items of the records that have any. -/
def RightFor (items : List Item) (result : SeekResult) : Prop :=
  ∀ identifier, result.get? identifier = lastIndex identifier items

theorem lastIndex_concat (identifier : UInt64) (items : List Item) (i : Item) :
    lastIndex identifier (items ++ [i]) =
      if i.record.identifier = identifier then some i.index else lastIndex identifier items := by
  unfold lastIndex
  rw [List.filter_append]
  by_cases h : i.record.identifier = identifier
  · rw [if_pos h, List.filter_cons_of_pos (by simpa using h), List.filter_nil,
      List.getLast?_concat]
    rfl
  · rw [if_neg h, List.filter_cons_of_neg (by simpa using h), List.filter_nil, List.append_nil]

theorem exists_of_lastIndex {items : List Item} {index : ℤ}
    (h : lastIndex identifier items = some index) : ∃ i ∈ items, i.index = index := by
  obtain ⟨i, hi, hindex⟩ := Option.map_eq_some_iff.mp h
  exact ⟨i, (List.mem_filter.mp (List.mem_of_getLast? hi)).1, hindex⟩

/-- Where the last data block of an identifier is, if there is one. -/
def lastPosition? (identifier : UInt64) (blocks : List LogBlock) : Option ℤ :=
  if 0 ≤ lastPosition identifier blocks then some (lastPosition identifier blocks) else none

/-- The items of the blocks before a place in the log. -/
theorem lastIndex_itemsFrom (hvalid : ValidLog rawUncompress all) (identifier : UInt64) :
    ∀ {before after : List LogBlock}, all = before ++ after →
      lastIndex identifier (itemsFrom rawUncompress all (image []).length before) =
        lastPosition? identifier before := by
  intro before
  induction before using List.reverseRecOn with
  | nil => exact fun _ => rfl
  | append_singleton before b ih =>
    intro after hall
    rw [List.append_assoc] at hall
    unfold lastPosition?
    rw [itemsFrom_append, ← length_image, lastPosition_concat]
    by_cases hdata : b.blockType = .kData
    · cases b with
      | data fields stored =>
        have hid := (recordFor_identifier hvalid hall).1
        show lastIndex identifier (_ ++ [itemOf _ _ _ _]) = _
        rw [lastIndex_concat, ih hall]
        show (if (recordFor all fields.identifier).identifier = identifier then _ else _) = _
        rw [hid]
        by_cases h : fields.identifier = identifier
        · have hb : (LogBlock.data fields stored).isDataOf identifier = true := by
            simpa [LogBlock.isDataOf] using h
          rw [if_pos h, if_pos hb, if_pos (Int.natCast_nonneg _)]
          rfl
        · have hb : ¬ (LogBlock.data fields stored).isDataOf identifier = true := by
            simpa [LogBlock.isDataOf] using h
          rw [if_neg h, if_neg hb]
          rfl
      | _ => cases hdata
    · have hb : ¬ b.isDataOf identifier = true := by
        cases b with
        | data fields stored => exact absurd rfl hdata
        | _ => exact Bool.false_ne_true
      rw [itemsFrom_cons_of_ne _ hdata, if_neg hb]
      show lastIndex identifier (_ ++ []) = _
      rw [List.append_nil, ih hall]
      rfl

/-- What a marker's elements add. -/
theorem get?_foldl_addElement (possibleStart index : ℤ) (identifier : UInt64) :
    ∀ {elements : List (UInt64 × UInt64)} {result : SeekResult},
      (elements.map Prod.fst).Nodup → (∀ x ∈ elements, result.get? x.1 = none) →
      ((elements.foldl (addElement possibleStart) result).get? identifier = some index ↔
        result.get? identifier = some index ∨ ∃ distance, (identifier, distance) ∈ elements ∧
          index = (BitVec.ofInt 64 (possibleStart - distance.toNat)).toInt) := by
  intro elements
  induction elements with
  | nil => simp
  | cons x elements ih =>
    intro result hnodup hnone
    obtain ⟨hx, hnodup⟩ := List.nodup_cons.mp hnodup
    obtain ⟨hnone₀, hnone⟩ := List.forall_mem_cons.mp hnone
    have hadd : addElement possibleStart result x =
        result.insert x.1 (BitVec.ofInt 64 (possibleStart - x.2.toNat)).toInt := by
      unfold addElement SeekResult.insertNew SortedMap.contains
      rw [hnone₀]
      rfl
    have hnone' : ∀ y ∈ elements, (addElement possibleStart result x).get? y.1 = none := by
      intro y hy
      rw [hadd, SortedMap.get?_insert, if_neg]
      · exact hnone y hy
      · rintro h
        exact hx (h ▸ List.mem_map_of_mem hy)
    rw [List.foldl_cons, ih hnodup hnone', hadd, SortedMap.get?_insert]
    by_cases hid : identifier = x.1
    · subst hid
      have hnot : ∀ distance, (x.1, distance) ∉ elements := fun distance hmem =>
        hx (List.mem_map.mpr ⟨_, hmem, rfl⟩)
      rw [if_pos rfl, hnone₀]
      constructor
      · rintro (h | ⟨distance, hmem, -⟩)
        · exact Or.inr ⟨x.2, List.mem_cons_self, (Option.some.inj h).symm⟩
        · exact absurd hmem (hnot distance)
      · rintro (h | ⟨distance, hmem, rfl⟩)
        · cases h
        · rcases List.mem_cons.mp hmem with h | hmem
          · exact Or.inl (by rw [← h])
          · exact absurd hmem (hnot distance)
    · rw [if_neg hid]
      constructor
      · rintro (h | ⟨distance, hmem, h⟩)
        · exact Or.inl h
        · exact Or.inr ⟨distance, List.mem_cons_of_mem _ hmem, h⟩
      · rintro (h | ⟨distance, hmem, h⟩)
        · exact Or.inl h
        · rcases List.mem_cons.mp hmem with heq | hmem
          · exact absurd (congrArg Prod.fst heq) hid
          · exact Or.inr ⟨distance, hmem, h⟩

/-- A position and the distance back to it. -/
theorem toInt_sub_distance {position : ℕ} {last : ℤ} (hlast : 0 ≤ last) (hle : last ≤ position)
    (hlt : position < 2 ^ 63) :
    (BitVec.ofInt 64 (position - (FileWriter.State.distance position last).toNat)).toInt =
      last := by
  obtain ⟨last, rfl⟩ := Int.eq_ofNat_of_zero_le hlast
  have hdistance := @FileWriter.toNat_distance position last (by omega) (by omega)
  rw [hdistance, show (position : ℤ) - ((position - last : ℕ) : ℤ) = (last : ℕ) by omega,
    BitVec.toInt_ofInt]
  exact Int.bmod_eq_of_le (by omega) (by omega)

/-- **A marker has the last items before it.** -/
theorem rightFor_marker (hvalid : ValidLog rawUncompress all) {r : SeekMarkerResult}
    (h : IsMarkerOf all before r) :
    RightFor (itemsFrom rawUncompress all (image []).length before) r.seekResult := by
  obtain ⟨body, after, elements, hall, hmarker, -, hresult⟩ := h
  have hlt := length_marker_lt hvalid hall
  intro identifier
  rw [lastIndex_itemsFrom hvalid identifier hall, hresult]
  refine Option.ext fun index => ?_
  unfold markerResult lastPosition?
  rw [get?_foldl_addElement _ _ _ hmarker.nodup fun _ _ => rfl]
  obtain ⟨-, hrange⟩ := lastPosition_range identifier before
  constructor
  · rintro (h | ⟨distance, hmem, rfl⟩)
    · exact nomatch h
    · obtain ⟨hpos, rfl⟩ := (hmarker.elements identifier distance).mp hmem
      rw [if_pos hpos, toInt_sub_distance hpos hrange.le (by omega)]
  · intro h
    split_ifs at h with hpos
    · refine Or.inr ⟨_, (hmarker.elements identifier _).mpr ⟨hpos, rfl⟩, ?_⟩
      rw [toInt_sub_distance hpos hrange.le (by omega)]
      exact (Option.some.inj h).symm

/-! ### The loop over the items -/

/-- An item at or before the time becomes the last one of its record. -/
def addItem (result : SeekResult) (item : Item) : SeekResult :=
  let currentLast := (result.get? item.record.identifier).getD 0
  result.insert item.record.identifier
    (if item.index > currentLast then item.index else currentLast)

/-- What the loop makes of items: it ends at one without a time and at one behind the time. -/
def scanned (timestamp : Ptime) : List Item → SeekResult → SeekResult
  | [], result => result
  | item :: items, result =>
    if item.timestamp = .notADateTime then result
    else if timestamp.lt item.timestamp then result
    else scanned timestamp items (addItem result item)

/-- The loop, from the block that the reader is at. -/
def scanFrom (options : Options) (rawUncompress : RawUncompress) (file : Bytes)
    (itemsOptions : ItemsOptions) (timestamp : Ptime) (m n : ℕ) (result : SeekResult) :
    M SeekResult := do
  let ((first, _), filter) ← readUntilLoop file m (unfiltered itemsOptions)
  scan file options rawUncompress timestamp n first filter result

theorem Knows.learn_all {b : LogBlock} (h : Knows all all st) (hvalid : ValidLog rawUncompress all)
    (hmem : b ∈ all) (pos : ℕ) : Knows all all (st.learn pos b) :=
  (h.learn hvalid hmem pos).of_append

variable (options : Options)

/-- **The loop goes over the items of the blocks that are left.**  Induction over these blocks. -/
theorem scanFrom_eq (hvalid : ValidLog rawUncompress all) {itemsOptions : ItemsOptions}
    (ho : itemsOptions.records = []) : ∀ {blocks before : List LogBlock} {st : State} {m n : ℕ}
    (result : SeekResult), all = before ++ blocks → Knows all all st → st.crc = none →
    st.pos = (image before).length → blocks.length + 2 ≤ m → blocks.length + 1 ≤ n →
    ∃ st', scanFrom options rawUncompress (image all) itemsOptions timestamp m n result st =
      (.ok (scanned timestamp (itemsFrom rawUncompress all st.pos blocks) result), st') := by
  have hlt := hvalid.length_lt
  intro blocks
  induction blocks with
  | nil =>
    intro before st m n result hall _ hcrc hpos hm hn
    obtain ⟨m, rfl⟩ : ∃ k, m = k + 1 := ⟨m - 1, by omega⟩
    obtain ⟨n, rfl⟩ : ∃ k, n = k + 1 := ⟨n - 1, by omega⟩
    exact ⟨st, bind_ok (readUntilLoop_nil _ (rest_of_append hpos hall) m)⟩
  | cons b blocks ih =>
    intro before st m n result hall hknows hcrc hpos hm hn
    obtain ⟨m, rfl⟩ : ∃ k, m = k + 1 := ⟨m - 1, by omega⟩
    obtain ⟨n, rfl⟩ : ∃ k, n = k + 1 := ⟨n - 1, by omega⟩
    rw [List.length_cons] at hm hn
    have hmem : b ∈ all := hall ▸ List.mem_append_right _ List.mem_cons_self
    have hall' : all = (before ++ [b]) ++ blocks := by rw [hall, List.append_assoc]; rfl
    have hrest := rest_of_pos hpos hall
    obtain ⟨st₁, hcore, hpos₁, hcrc₁, hrest₁, hloop⟩ := readUntilLoop_block
      (unfiltered itemsOptions) hrest (readable_of_mem hvalid b hmem) hcrc hlt m
    have hknows₁ : Knows all all st₁ :=
      (hcore ▸ hknows.core.learn_all hvalid hmem st.pos : Knows all all st₁.core).of_eq rfl
    have hnext : st.pos + b.encode.length = (image (before ++ [b])).length := by
      rw [length_image_concat, hpos]
    rw [stops_unfiltered ho, learn_unfiltered] at hloop
    by_cases hdata : b.blockType = .kData
    · cases b with
      | data fields stored =>
        rw [if_pos (decide_eq_true hdata)] at hloop
        obtain ⟨pos, crc, blockSize, hread⟩ := read_of_block options hlt
          (decompressible_of_mem hvalid _ hmem) hrest st₁
        rw [hknows₁.get?_of_data hvalid hall] at hread
        have hfirst : scanFrom options rawUncompress (image all) itemsOptions timestamp (m + 1)
            (n + 1) result st = scan (image all) options rawUncompress timestamp (n + 1) st.pos
              (unfiltered itemsOptions) result st₁ := by
          unfold scanFrom
          exact bind_ok hloop
        rw [hfirst, scan, if_neg (by omega), bind_ok hread, itemsFrom, scanned]
        split_ifs
        · exact ⟨_, rfl⟩
        · exact ⟨_, rfl⟩
        · -- `operator++`: the block is found again, and then what is behind it
          have hrest₂ : rest (image all) { st₁ with pos := st.pos, crc := none, blockSize } =
              (LogBlock.data fields stored).encode ++ blocks.flatMap LogBlock.encode := hrest
          obtain ⟨st₃, hcore₃, hpos₃, hcrc₃, hrest₃, hagain⟩ := readUntilLoop_block
            (unfiltered itemsOptions) hrest₂ trivial rfl hlt (image all).length
          rw [stops_unfiltered ho, learn_unfiltered, if_pos (decide_eq_true hdata)] at hagain
          have hagain' := (@readUntil_eq (image all) { st₁ with pos, crc, blockSize }
            (unfiltered itemsOptions) st.pos).trans hagain
          have hknows₃ : Knows all all st₃ :=
            (hcore₃ ▸ hknows₁.core.learn_all hvalid hmem st.pos : Knows all all st₃.core).of_eq rfl
          have hfuel : blocks.length + 2 ≤ (image all).length + 1 := by
            have := length_lt_image all
            rw [hall, List.length_append, List.length_cons] at this
            rw [hall]
            omega
          let st₄ : State := { st₃ with
            pos := st.pos + (LogBlock.data fields stored).encode.length, crc := none }
          obtain ⟨st', hscan⟩ := @ih (before ++ [.data fields stored]) st₄
            ((image all).length + 1) n
            (addItem result (itemOf st.pos fields (plainData rawUncompress fields stored)
              (recordFor all fields.identifier))) hall' (hknows₃.of_eq rfl) rfl hnext hfuel
            (by omega)
          refine ⟨st', ?_⟩
          rw [bind_ok hagain']
          dsimp only
          rw [bind_congr_left _ (readUntil_eq _ _)]
          exact hscan
      | _ => cases hdata
    · rw [if_neg (by simpa using hdata)] at hloop
      obtain ⟨st', hscan⟩ := @ih (before ++ [b]) st₁ m (n + 1) result hall' hknows₁ hcrc₁
        (hpos₁.trans hnext) (by omega) (by omega)
      refine ⟨st', ?_⟩
      rw [itemsFrom_cons_of_ne _ hdata, ← hpos₁, ← hscan]
      exact bind_congr_left _ hloop

/-- Every item has a time, and the times never decrease. -/
structure InOrder (items : List Item) : Prop where
  timestamp : ∀ i ∈ items, i.timestamp ≠ .notADateTime
  sorted : items.Pairwise fun i j => j.timestamp.lt i.timestamp = false

/-- The items at or before a time. -/
def atMost (timestamp : Ptime) (items : List Item) : List Item :=
  items.filter fun i => i.timestamp.le timestamp

theorem RightFor.addItem {items : List Item} {result : SeekResult} {i : Item}
    (h : RightFor items result) (hlt : ∀ j ∈ items, j.index < i.index) (hpos : 0 < i.index) :
    RightFor (items ++ [i]) (addItem result i) := by
  intro identifier
  have hcurrent : (result.get? i.record.identifier).getD 0 < i.index := by
    rw [h]
    cases hlast : lastIndex i.record.identifier items with
    | none => exact hpos
    | some index =>
      obtain ⟨j, hj, rfl⟩ := exists_of_lastIndex hlast
      exact hlt j hj
  unfold FileReader.addItem
  dsimp only
  rw [if_pos hcurrent, SortedMap.get?_insert, lastIndex_concat]
  by_cases hid : i.record.identifier = identifier
  · rw [if_pos hid, if_pos hid.symm]
  · rw [if_neg hid, if_neg (fun h => hid h.symm), h]

/-- **The loop has the last items in the end**, of those before it and those it goes over. -/
theorem rightFor_scanned : ∀ {items done : List Item} {result : SeekResult}, RightFor done result →
    InOrder items → (done ++ items).Pairwise (fun i j => i.index < j.index) →
    (∀ i ∈ items, 0 < i.index) →
    RightFor (done ++ atMost timestamp items) (scanned timestamp items result) := by
  intro items
  induction items with
  | nil =>
    intro done result h _ _ _
    show RightFor (done ++ []) result
    rwa [List.append_nil]
  | cons i items ih =>
    intro done result h horder hindex hpos
    obtain ⟨htime, htimes⟩ := List.forall_mem_cons.mp horder.timestamp
    obtain ⟨hfirst, hsorted⟩ := List.pairwise_cons.mp horder.sorted
    rw [scanned, if_neg htime]
    by_cases hlt : timestamp.lt i.timestamp = true
    · -- everything from here on is behind the time
      have hnone : atMost timestamp (i :: items) = [] := by
        refine List.filter_eq_nil_iff.mpr fun j hj => ?_
        have hj' : timestamp.lt j.timestamp = true := by
          rcases List.mem_cons.mp hj with rfl | hj
          · exact hlt
          · exact Ptime.lt_of_lt_of_not_lt hlt (htimes j hj) (hfirst j hj)
        unfold Ptime.le
        rw [hj']
        exact Bool.false_ne_true
      rw [if_pos hlt, hnone, List.append_nil]
      exact h
    · have hle : i.timestamp.le timestamp = true := by
        unfold Ptime.le
        rw [Bool.eq_false_iff.mpr hlt]
        rfl
      have hcons : done ++ atMost timestamp (i :: items) =
          (done ++ [i]) ++ atMost timestamp items := by
        rw [List.append_assoc]
        exact congrArg (done ++ ·) (List.filter_cons_of_pos hle)
      have hdone : ∀ j ∈ done, j.index < i.index := fun j hj =>
        (List.pairwise_append.mp hindex).2.2 j hj i List.mem_cons_self
      obtain ⟨hpos₀, hpos⟩ := List.forall_mem_cons.mp hpos
      rw [if_neg hlt, hcons]
      exact ih (h.addItem hdone hpos₀) ⟨htimes, hsorted⟩
        (by rwa [List.append_assoc]) hpos

/-! ### The bisection -/

/-- What is known at the lower end: the items before it are at or before the time, and the result
has the last ones. -/
structure Low (rawUncompress : RawUncompress) (all : List LogBlock) (timestamp : Ptime)
    (before : List LogBlock) (low : ℤ) (result : SeekResult) : Prop where
  split : ∃ after, all = before ++ after
  low : low = (image before).length
  atMost : ∀ i ∈ itemsFrom rawUncompress all (image []).length before,
    timestamp.lt i.timestamp = false
  right : RightFor (itemsFrom rawUncompress all (image []).length before) result

/-- The items before a marker are not behind its time. -/
theorem not_lt_of_marker (horder : InOrder (itemsOf rawUncompress all)) {r : SeekMarkerResult}
    (h : IsMarkerOf all before r) :
    ∀ i ∈ itemsFrom rawUncompress all (image []).length before,
      r.timestamp.lt i.timestamp = false := by
  obtain ⟨body, after, elements, hall, hmarker, -⟩ := h
  obtain ⟨before', fields, stored, rfl, htimestamp⟩ := hmarker.data
  have hitems : itemsFrom rawUncompress all (image []).length (before' ++ [.data fields stored]) =
      itemsFrom rawUncompress all (image []).length before' ++
        [itemOf (image before').length fields (plainData rawUncompress fields stored)
          (recordFor all fields.identifier)] := by
    rw [itemsFrom_append, ← length_image]
    rfl
  have hsorted := horder.sorted
  unfold itemsOf at hsorted
  nth_rewrite 2 [hall] at hsorted
  rw [itemsFrom_append] at hsorted
  have hbefore := (List.pairwise_append.mp hsorted).1
  rw [hitems] at hbefore ⊢
  have hlast : (itemOf (image before').length fields (plainData rawUncompress fields stored)
      (recordFor all fields.identifier)).timestamp = r.timestamp := by
    show fields.timestamp.getD .notADateTime = _
    rw [htimestamp]
    rfl
  intro i hi
  rcases List.mem_append.mp hi with hi | hi
  · rw [← hlast]
    exact (List.pairwise_append.mp hbefore).2.2 i hi _ (List.mem_singleton.mpr rfl)
  · rw [List.mem_singleton.mp hi, hlast]
    cases r.timestamp <;> simp [Ptime.lt]

theorem Low.of_marker (hvalid : ValidLog rawUncompress all)
    (horder : InOrder (itemsOf rawUncompress all)) {r : SeekMarkerResult}
    (h : IsMarkerOf all before r) (hle : r.timestamp.le timestamp = true) :
    Low rawUncompress all timestamp before r.index r.seekResult := by
  have hright := rightFor_marker hvalid h
  have hnot := not_lt_of_marker horder h
  obtain ⟨body, after, elements, hall, hmarker, hindex, -⟩ := h
  refine ⟨⟨_, hall⟩, hindex, fun i hi => Bool.eq_false_iff.mpr fun hlt => ?_, hright⟩
  have := Ptime.lt_of_lt_of_not_lt hlt hmarker.timestamp (hnot i hi)
  unfold Ptime.le at hle
  rw [this] at hle
  exact nomatch hle

/-- **The bisection ends, with a lower end that is known.**  Every pass makes the range smaller. -/
theorem bisect_spec (hvalid : ValidLog rawUncompress all) (hmarkers : MarkersRight all)
    (horder : InOrder (itemsOf rawUncompress all)) :
    ∀ {n : ℕ} {low high : ℤ} {result : SeekResult} {before : List LogBlock} {st : State},
    Low rawUncompress all timestamp before low result → Scanned all st → 0 < n → high - low < n →
    ∃ before' low' result' st', bisect (image all) timestamp n low high result st =
        (.ok (low', result'), st') ∧
      Low rawUncompress all timestamp before' low' result' ∧ Scanned all st' := by
  intro n
  induction n with
  | zero => exact fun _ _ h => absurd h (lt_irrefl 0)
  | succ n ih =>
    intro low high result before st hlow hscanned _ hfuel
    have hspacing : kMinSpacing = 65536 := rfl
    have hnonneg : 0 ≤ low := hlow.low ▸ Int.natCast_nonneg _
    rw [bisect]
    split_ifs with hfar
    · obtain ⟨start, hstart⟩ := Int.eq_ofNat_of_zero_le
        (show 0 ≤ low + (high - low) / 2 by omega)
      obtain ⟨found, st₁, hfind, hcore, hfound⟩ := findSeekMarker_of_markers hvalid hmarkers
        hscanned start high
      have hscanned₁ := hscanned.of_core hcore
      rw [hstart, bind_ok hfind]
      cases found with
      | none => exact ⟨before, low, result, st₁, rfl, hlow, hscanned₁⟩
      | some r =>
        obtain ⟨before', hof, hge, hlt⟩ := hfound r rfl
        dsimp only
        split_ifs with hle
        · exact ih (.of_marker hvalid horder hof hle) hscanned₁ (by omega) (by omega)
        · have hpos : 0 ≤ r.index := by
            obtain ⟨_, _, _, -, -, hindex, -⟩ := hof
            omega
          exact ih hlow hscanned₁ (by omega) (by omega)
    · exact ⟨before, low, result, st, rfl, hlow, hscanned⟩

/-! ### `Seek` -/

/-- Once all records are found, the reader knows them, and where the last item is at most. -/
theorem findAllRecords_eq (hvalid : ValidLog rawUncompress all) (hopened : Opened all st) :
    ∃ st', findAllRecords (image all) st = (.ok ⟨⟩, st') ∧ Knows all all st' ∧
      st'.start = (image []).length ∧ st'.finalItem ≤ (image all).length := by
  have hlast : lastWhere LogBlock.isData all ≤ (image all).length := by
    rcases lastWhere_cases LogBlock.isData all with
      ⟨hlast, -⟩ | ⟨before, b, after, hall, -, hlast, -⟩
    · omega
    · rw [hlast, hall, image_append, List.length_append]
      omega
  have hfinal := hopened.finalItem
  cases hfound : st.allRecordsFound with
  | true =>
    refine ⟨st, ?_, hopened.found hfound, hopened.start, by omega⟩
    unfold findAllRecords
    rw [get_bind, if_pos hfound]
    rfl
  | false =>
    obtain ⟨st', hscan, hcore⟩ := fullScan_core hvalid.length_lt
      (fun b hb => readable_of_mem hvalid b hb) hopened.start
    have hknows := hopened.knows.core.learnAll hvalid 9 fun _ hb => hb
    have hid : st'.core.idToRecord = (st.core.learnAll 9 all).idToRecord := by rw [hcore]
    have hstart : st'.core.start = (st.core.learnAll 9 all).start := by rw [hcore]
    have hfinal' : st'.core.finalItem = (st.core.learnAll 9 all).finalItem := by rw [hcore]
    refine ⟨st', ?_, hknows.of_eq hid, ?_, ?_⟩
    · unfold findAllRecords
      rw [get_bind, hfound]
      exact hscan
    · show st'.core.start = _
      rw [hstart, start_learnAll]
      exact hopened.start
    · have hnone : st.core.finalItem ≤ (image all).length := by
        show st.finalItem ≤ _
        omega
      show st'.core.finalItem ≤ _
      rw [hfinal', finalItem_learnAll]
      refine max_le hnone ?_
      rcases lastWhereFrom_cases LogBlock.isData all 9 with h | ⟨n, -, h⟩
      · rw [h]
        exact hnone
      · rw [h]
        exact (h (-1)).symm.le.trans hlast

/-- The items are in the order of their blocks. -/
theorem pairwise_itemsFrom (all : List LogBlock) : ∀ (blocks : List LogBlock) (pos : ℕ),
    (itemsFrom rawUncompress all pos blocks).Pairwise (fun i j => i.index < j.index) := by
  intro blocks
  induction blocks with
  | nil => exact fun _ => .nil
  | cons b blocks ih =>
    intro pos
    by_cases hdata : b.blockType = .kData
    · cases b with
      | data fields stored =>
        rw [itemsFrom]
        refine List.pairwise_cons.mpr ⟨fun j hj => ?_, ih _⟩
        obtain ⟨before, fields', stored', after, -, rfl⟩ := mem_itemsFrom_iff.mp hj
        have := (LogBlock.data fields stored).length_encode_pos
        show (pos : ℤ) < ((pos + (LogBlock.data fields stored).encode.length +
          (before.flatMap LogBlock.encode).length : ℕ) : ℤ)
        omega
      | _ => cases hdata
    · rw [itemsFrom_cons_of_ne _ hdata]
      exact ih _

/-- **`Seek` agrees with a linear scan**, for a reader that was opened. -/
theorem seekTo_eq (hvalid : ValidLog rawUncompress all) (hmarkers : MarkersRight all)
    (horder : InOrder (itemsOf rawUncompress all)) (hopened : Opened all st)
    (hsignatures : SignaturesInMarkers all ∨
      ∀ st', findAllRecords (image all) st = (.ok ⟨⟩, st') → Harmless all st')
    (timestamp : Ptime) :
    ∃ result st', seekTo (image all) options rawUncompress timestamp st = (.ok result, st') ∧
      RightFor (atMost timestamp (itemsOf rawUncompress all)) result := by
  obtain ⟨st₁, hfind, hknows, hstart, hfinal⟩ := findAllRecords_eq hvalid hopened
  have hscanned : Scanned all st₁ := ⟨hknows, hstart, hsignatures.imp_right fun h => h st₁ hfind⟩
  have hlow₀ : Low rawUncompress all timestamp [] st₁.start ∅ :=
    ⟨⟨all, rfl⟩, hscanned.start, fun i hi => absurd hi List.not_mem_nil, fun _ => rfl⟩
  have hfuel : st₁.finalItem - st₁.start < ((image all).length + 1 : ℕ) := by
    push_cast
    omega
  obtain ⟨before, low, result, st₂, hbisect, hlow, hscanned₂⟩ := bisect_spec hvalid hmarkers
    horder hlow₀ hscanned (Nat.succ_pos _) hfuel
  obtain ⟨after, hall⟩ := hlow.split
  have hle : after.length + 2 ≤ (image all).length + 1 := by
    have := length_lt_image all
    rw [hall, List.length_append] at this
    rw [hall]
    omega
  obtain ⟨st₃, hscan⟩ := @scanFrom_eq rawUncompress all timestamp options hvalid { start := low }
    rfl after before { st₂ with pos := (image before).length, crc := none } _ _ result hall
    (hscanned₂.knows.of_eq rfl) rfl rfl hle (Nat.le_of_succ_le hle)
  refine ⟨scanned timestamp (itemsFrom rawUncompress all (image before).length after) result, st₃,
    ?_, ?_⟩
  · have hnonneg : ¬ low < 0 := by
      rw [hlow.low]
      exact not_lt.mpr (Int.natCast_nonneg _)
    unfold seekTo
    rw [bind_ok hfind, get_bind, bind_ok hbisect]
    dsimp only
    rw [get_bind, if_neg hnonneg, hlow.low, bind_congr_left _ (readUntil_eq _ _)]
    rw [← hlow.low]
    exact hscan
  · have hsplit : itemsOf rawUncompress all =
        itemsFrom rawUncompress all (image []).length before ++
          itemsFrom rawUncompress all (image before).length after := by
      have happend := @itemsFrom_append rawUncompress all before after (image []).length
      rwa [← length_image, ← hall] at happend
    have hindex := @pairwise_itemsFrom rawUncompress all all (image []).length
    change (itemsOf rawUncompress all).Pairwise _ at hindex
    have horder' : InOrder (itemsFrom rawUncompress all (image before).length after) :=
      ⟨fun i hi => horder.timestamp i (hsplit ▸ List.mem_append_right _ hi),
        (List.pairwise_append.mp (hsplit ▸ horder.sorted)).2.1⟩
    have hpos : ∀ i ∈ itemsFrom rawUncompress all (image before).length after, 0 < i.index := by
      intro i hi
      obtain ⟨before', fields, stored, after', -, rfl⟩ := mem_itemsFrom_iff.mp hi
      have := nine_le_length_image before
      show (0 : ℤ) < ((image before).length + (before'.flatMap LogBlock.encode).length : ℕ)
      omega
    have hbefore : atMost timestamp (itemsFrom rawUncompress all (image []).length before) =
        itemsFrom rawUncompress all (image []).length before :=
      List.filter_eq_self.mpr fun i hi => by
        unfold Ptime.le
        rw [hlow.atMost i hi]
        rfl
    have hatMost : atMost timestamp (itemsOf rawUncompress all) =
        itemsFrom rawUncompress all (image []).length before ++
          atMost timestamp (itemsFrom rawUncompress all (image before).length after) := by
      rw [hsplit, atMost, List.filter_append]
      exact congrArg (· ++ _) hbefore
    rw [hatMost]
    exact rightFor_scanned hlow.right horder' (hsplit ▸ hindex) hpos

/-! ### The log of a writer -/

theorem signaturesInMarkers_of_not_mem (h : 0x64 ∉ image all) : SignaturesInMarkers all :=
  fun _ hp => absurd (List.mem_of_getElem? (hp 0 (by decide))) h

/-- Data in the order of their times make items in this order. -/
theorem inOrder_itemsOf (htimestamp : ∀ x ∈ dataOf rawUncompress all, x.2.1 ≠ .notADateTime)
    (hsorted : (dataOf rawUncompress all).Pairwise fun x y => y.2.1.lt x.2.1 = false) :
    InOrder (itemsOf rawUncompress all) := by
  have hmap : (itemsOf rawUncompress all).map Item.timestamp =
      (dataOf rawUncompress all).map fun x => x.2.1 :=
    map_itemsFrom (fun _ timestamp _ => timestamp) all all _
  constructor
  · intro i hi
    have hmem : i.timestamp ∈ (dataOf rawUncompress all).map fun x => x.2.1 :=
      hmap ▸ List.mem_map_of_mem hi
    obtain ⟨x, hx, heq⟩ := List.mem_map.mp hmem
    exact heq ▸ htimestamp x hx
  · have hpairwise : ((dataOf rawUncompress all).map fun x => x.2.1).Pairwise
        fun t t' => t'.lt t = false := List.pairwise_map.mpr hsorted
    rw [← hmap] at hpairwise
    exact List.pairwise_map.mp hpairwise

/-- Open a file and seek. -/
def openAndSeek (options : Options) (rawUncompress : RawUncompress) (file : Bytes)
    (timestamp : Ptime) : M SeekResult := do
  openFile file
  seekTo file options rawUncompress timestamp

/-- **`Seek` agrees with a linear scan**: it ends, and its result has the last item at or before the
time of every record that has one. -/
theorem seekTo_of_run {platform : FileWriter.Platform} {writerOptions : FileWriter.Options}
    {calls : List FileWriter.Call} {s : FileWriter.State}
    (hsnappy : ∀ data, rawUncompress (platform.rawCompress data) = some data)
    (hrun : Run.run (FileWriter.step platform writerOptions) {} (.openFile :: (calls ++ [.close])) =
      some s)
    (hcalls : Run.Guarded (FileWriter.step platform writerOptions) (fun s call =>
      FileWriter.WellFormed s call ∧ FileWriter.ShortName s call) opened calls)
    (htimestamp : ∀ x ∈ calls.filterMap (written writerOptions), x.2.1 ≠ .notADateTime)
    (hsorted : (calls.filterMap (written writerOptions)).Pairwise
      fun x y => y.2.1.lt x.2.1 = false)
    (hindex : writerOptions.indexBlock = true → (indexBlock s).length < 2 ^ 32)
    (hnone : writerOptions.indexBlock = false → ¬Format.kIndexTrailer <:+ closedFile s) :
    (∃ all, ClosedLog rawUncompress writerOptions calls s all) ∧
      ∀ all, ClosedLog rawUncompress writerOptions calls s all → SignaturesInMarkers all →
        ∀ timestamp, ∃ result st,
          openAndSeek options rawUncompress (closedFile s) timestamp {} = (.ok result, st) ∧
          RightFor (atMost timestamp (itemsOf rawUncompress all)) result := by
  refine ⟨closedLog_of_run hsnappy hrun hcalls, fun all hclosed hsignatures timestamp => ?_⟩
  have horder : InOrder (itemsOf rawUncompress all) :=
    inOrder_itemsOf (hclosed.data ▸ htimestamp) (hclosed.data ▸ hsorted)
  rw [hclosed.file] at hnone ⊢
  obtain ⟨st, hopen, hopened⟩ := hclosed.opens hindex hnone
  obtain ⟨result, st', hseek, hright⟩ := seekTo_eq options hclosed.valid hclosed.markers
    horder hopened (Or.inl hsignatures) timestamp
  exact ⟨result, st', (bind_ok hopen).trans hseek, hright⟩

/-- A log of one item: it does not end like an index, and the signature is not in it. -/
theorem run_callsOfThree : ∃ s, Run.run (FileWriter.step ⟨id, 0⟩ plainOptions) {}
      (.openFile :: (callsOfThree ++ [.close])) = some s ∧
    ¬Format.kIndexTrailer <:+ closedFile s ∧ 0x64 ∉ closedFile s := by
  let final := Run.run (FileWriter.step ⟨id, 0⟩ plainOptions) {}
    (.openFile :: (callsOfThree ++ [.close]))
  have hfinal : final.map (fun s => (decide (Format.kIndexTrailer <:+ closedFile s),
      decide (0x64 ∉ closedFile s))) = some (false, true) := by
    decide +kernel
  obtain ⟨s, hrun, hs⟩ := Option.map_eq_some_iff.mp hfinal
  obtain ⟨hnone, hmem⟩ := Prod.mk.inj hs
  exact ⟨s, hrun, of_decide_eq_false hnone, of_decide_eq_true hmem⟩

/-- This log, and every time. -/
theorem seekTo_of_run_three : ∃ s all, Run.run (FileWriter.step ⟨id, 0⟩ plainOptions) {}
      (.openFile :: (callsOfThree ++ [.close])) = some s ∧
    ClosedLog some plainOptions callsOfThree s all ∧ ∀ timestamp, ∃ result st,
      openAndSeek {} some (closedFile s) timestamp {} = (.ok result, st) ∧
      RightFor (atMost timestamp (itemsOf some all)) result := by
  obtain ⟨s, hrun, hnone, hmem⟩ := run_callsOfThree
  obtain ⟨⟨all, hclosed⟩, hall⟩ := seekTo_of_run {} (fun _ => rfl) hrun (by decide +kernel)
    (by decide +kernel) (by decide +kernel) nofun (fun _ => hnone)
  exact ⟨s, all, hrun, hclosed, hall all hclosed
    (signaturesInMarkers_of_not_mem (hclosed.file ▸ hmem))⟩

/-- Data that end like an index whose flags are not known. -/
def callsOfTrailer : List FileWriter.Call := [.allocateIdentifier [0x61], .writeSchema 1 [0x02],
  .writeData timeOfData 1 ([3, 13, 1, 15, 0, 0, 0] ++ Format.kIndexTrailer) {} .notADateTime]

theorem run_callsOfTrailer : ∃ s, Run.run (FileWriter.step ⟨id, 0⟩ plainOptions) {}
      (.openFile :: (callsOfTrailer ++ [.close])) = some s ∧
    0x64 ∉ closedFile s ∧ ∀ st, openFile (closedFile s) {} ≠ (.ok ⟨⟩, st) := by
  let final := Run.run (FileWriter.step ⟨id, 0⟩ plainOptions) {}
    (.openFile :: (callsOfTrailer ++ [.close]))
  have hfinal : final.map (fun s => ((openFile (closedFile s) {}).1.isOk,
      decide (0x64 ∉ closedFile s))) = some (false, true) := by
    decide +kernel
  obtain ⟨s, hrun, hs⟩ := Option.map_eq_some_iff.mp hfinal
  obtain ⟨hopen, hmem⟩ := Prod.mk.inj hs
  refine ⟨s, hrun, of_decide_eq_true hmem, fun st hopened => ?_⟩
  rw [hopened] at hopen
  exact nomatch hopen

/-- A log without an index whose last bytes are the trailer of one is not opened. -/
theorem not_seekTo_of_run : ¬∀ (platform : FileWriter.Platform) (writerOptions : FileWriter.Options)
    (options : Options) (rawUncompress : RawUncompress) (calls : List FileWriter.Call)
    (s : FileWriter.State), (∀ data, rawUncompress (platform.rawCompress data) = some data) →
    Run.run (FileWriter.step platform writerOptions) {} (.openFile :: (calls ++ [.close])) =
      some s →
    Run.Guarded (FileWriter.step platform writerOptions) (fun s call =>
      FileWriter.WellFormed s call ∧ FileWriter.ShortName s call) opened calls →
    (∀ x ∈ calls.filterMap (written writerOptions), x.2.1 ≠ .notADateTime) →
    (calls.filterMap (written writerOptions)).Pairwise (fun x y => y.2.1.lt x.2.1 = false) →
    (∃ all, ClosedLog rawUncompress writerOptions calls s all) ∧
      ∀ all, ClosedLog rawUncompress writerOptions calls s all → SignaturesInMarkers all →
        ∀ timestamp, ∃ result st,
          openAndSeek options rawUncompress (closedFile s) timestamp {} = (.ok result, st) ∧
          RightFor (atMost timestamp (itemsOf rawUncompress all)) result := by
  intro h
  obtain ⟨s, hrun, hmem, hopen⟩ := run_callsOfTrailer
  obtain ⟨⟨all, hclosed⟩, hall⟩ := h ⟨id, 0⟩ plainOptions {} some callsOfTrailer s (fun _ => rfl)
    hrun (by decide +kernel) (by decide +kernel) (by decide +kernel)
  obtain ⟨result, st, hseek, -⟩ := hall all hclosed
    (signaturesInMarkers_of_not_mem (hclosed.file ▸ hmem)) .notADateTime
  obtain ⟨_, st', hopened, -⟩ := exists_of_bind_ok hseek
  exact hopen st' hopened

/-! ### Any data -/

end Mjlib.Telemetry.FileReader
