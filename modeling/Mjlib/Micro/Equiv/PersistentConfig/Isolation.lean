import Mjlib.Micro.Equiv.PersistentConfig
import Mjlib.Telemetry.Equiv.BinaryReadArchive.Skim

/-!
# What a bad record does to the others

The records of a flash section are found by their declared sizes (`records`).  `DoLoad` skips a
record that no element matches to its declared end; one that matches is read by the type of the
element, and where that ends is the start of the next record.  So `DoLoad` treats the records apart
exactly when every one that matches an element is read to its declared end (`isolates_iff`).
-/

namespace Mjlib.Micro.PersistentConfig

open Telemetry

/-! ### The records of a section -/

/-- A record behind its header. -/
structure Record where
  nameSize : UInt64
  name : Bytes
  expectedCrc : BitVec 32
  dataSize : BitVec 32
  /-- The section from the data of the record on. -/
  data : Bytes

/-- The section behind the declared end of a record, which may be the end of the section. -/
def Record.rest (r : Record) : Bytes := r.data.drop r.dataSize.toNat

/-- The header that `DoLoad` reads; none where its loop ends. -/
def readHeader (s : Bytes) : Option Record :=
  match readVaruint s with
  | (none, _) => none
  | (some nameSize, s) =>
    if nameSize = 0 ∨ nameSize.toNat ≥ Format.kMaxStringSize then none
    else if (s.drop nameSize.toNat).length < 8 then none
    else match readScalar 4 (s.drop nameSize.toNat) with
      | (none, _) => none
      | (some expectedCrc, s') =>
        match readScalar 4 s' with
        | (none, _) => none
        | (some dataSize, s'') =>
          some ⟨nameSize, s.take nameSize.toNat, expectedCrc, dataSize, s''⟩

/-- The records of a section, each behind the declared end of the one before. -/
def recordsLoop : ℕ → Bytes → List Record
  | 0, _ => []
  | n + 1, s =>
    match readHeader s with
    | none => []
    | some r => r :: recordsLoop n r.rest

/-- The records of a section. -/
def records (flash : Bytes) : List Record := recordsLoop (flash.length + 1) flash

/-- A header lies in the section, with the whole of the name. -/
theorem readHeader_eq_some {s : Bytes} {r : Record} (h : readHeader s = some r) :
    r.nameSize.toNat = r.name.length ∧ r.name ≠ [] ∧
      ∃ size words : Bytes, s = size ++ (r.name ++ (words ++ r.data)) := by
  obtain ⟨size, hsize⟩ : (readVaruint s).2 <:+ s := readVaruint_isSuffix s
  unfold readHeader at h
  generalize readVaruint s = found at h hsize
  obtain ⟨found, s₁⟩ := found
  cases found with
  | none => exact nomatch h
  | some nameSize =>
    dsimp only at h hsize
    split_ifs at h with hname hroom
    rw [List.length_drop] at hroom
    rw [readScalar, if_pos (by rw [List.length_drop]; omega)] at h
    dsimp only at h
    rw [readScalar, if_pos (by simp only [List.length_drop]; omega)] at h
    obtain rfl := Option.some.inj h
    have hlength : (s₁.take nameSize.toNat).length = nameSize.toNat := by
      rw [List.length_take]
      omega
    refine ⟨hlength.symm, fun hnil => hname (Or.inl ?_), size,
      (s₁.drop nameSize.toNat).take 8, ?_⟩
    · dsimp only at hnil
      rw [hnil] at hlength
      exact UInt64.toNat_inj.mp hlength.symm
    · show s = size ++ (s₁.take nameSize.toNat ++ ((s₁.drop nameSize.toNat).take 8 ++
        ((s₁.drop nameSize.toNat).drop 4).drop 4))
      have height : ((s₁.drop nameSize.toNat).drop 4).drop 4 = (s₁.drop nameSize.toNat).drop 8 :=
        List.drop_drop
      rw [height, List.take_append_drop, List.take_append_drop, hsize]

/-- A record takes room. -/
theorem length_rest_lt {s : Bytes} {r : Record} (h : readHeader s = some r) :
    r.rest.length < s.length := by
  obtain ⟨-, hname, size, words, hs⟩ := readHeader_eq_some h
  have hpos : 0 < r.name.length := List.length_pos_of_ne_nil hname
  rw [Record.rest, List.length_drop, hs]
  simp only [List.length_append]
  omega

/-! ### `DoLoad`, record by record -/

variable {fresh : Fresh} {crc32 : Bytes → BitVec 32}

theorem loadLoop_succ (n : ℕ) (elements : List Element) (s : Bytes) :
    loadLoop fresh crc32 (n + 1) elements s =
      match readHeader s with
      | none => .ok elements
      | some r => loadRecord fresh crc32 r.name r.expectedCrc r.dataSize r.data elements >>=
          fun x => loadLoop fresh crc32 n x.1 x.2 := by
  rw [loadLoop, readHeader]
  obtain ⟨found, s₁⟩ := readVaruint s
  cases found with
  | none => rfl
  | some nameSize =>
    dsimp only
    split_ifs
    · rfl
    · rfl
    · obtain ⟨found, s₂⟩ := readScalar 4 (s₁.drop nameSize.toNat)
      cases found with
      | none => rfl
      | some expectedCrc =>
        dsimp only
        obtain ⟨found, s₃⟩ := readScalar 4 s₂
        cases found with
        | none => rfl
        | some dataSize => rfl

variable (fresh crc32)

/-- The section behind each record, as the loop of `DoLoad` comes to it. -/
def loadPositions : ℕ → List Element → Bytes → Except Error (List Bytes)
  | 0, _, _ => .error .outOfFuel
  | n + 1, elements, s =>
    match readHeader s with
    | none => .ok []
    | some r => do
      let (elements, s) ←
        loadRecord fresh crc32 r.name r.expectedCrc r.dataSize r.data elements
      let positions ← loadPositions n elements s
      return s :: positions

/-- What a record does to an element, if it matches. -/
def applied (e : Element) (r : Record) : Element :=
  if e.name.val = r.name ∧ calculateSchemaCrc fresh crc32 e = r.expectedCrc then
    match e.readBinary fresh r.data with
    | .ok (e', _) => e'
    | .error _ => e
  else e

/-- What is promised about a section of any contents. -/
structure Isolates (elements : List Element) (flash : Bytes) : Prop where
  /-- `DoLoad` stays in the section: the names it looks up are part of it. -/
  inside : ∀ r ∈ records flash, r.nameSize.toNat = r.name.length ∧ r.name <:+: flash
  /-- It is positioned at the declared end of each record. -/
  positions : loadPositions fresh crc32 (flash.length + 1) elements flash =
    .ok ((records flash).map Record.rest)
  /-- It ends, and an element is only changed by the records of its own name. -/
  own : load fresh crc32 elements flash = .ok (elements.map fun e =>
    ((records flash).filter fun r => r.name = e.name.val).foldl (applied fresh crc32) e)

/-- Read by the type of the element, the record ends where it says. -/
def Decodes (e : Element) (r : Record) : Prop :=
  e.name.val = r.name → calculateSchemaCrc fresh crc32 e = r.expectedCrc →
    (BinaryReadArchive.skimFields e.fields ⟨r.data, false⟩).map BinaryReadArchive.State.stream =
      .ok r.rest

variable {fresh crc32}

/-- The element after a record has its name and its type. -/
theorem sameClass_applied (e : Element) (r : Record) : SameClass e (applied fresh crc32 e r) := by
  unfold applied
  split
  · split
    · rename_i e' s' h
      exact sameClass_readBinary h
    · exact SameClass.refl e
  · exact SameClass.refl e

theorem SameClass.decodes_iff {e e' : Element} (h : SameClass e e') (r : Record) :
    Decodes fresh crc32 e' r ↔ Decodes fresh crc32 e r := by
  obtain ⟨v, rfl⟩ := h
  exact Iff.rfl

theorem applied_of_name_ne {e : Element} {r : Record} (h : e.name.val ≠ r.name) :
    applied fresh crc32 e r = e :=
  if_neg fun hm => h hm.1

/-- Where reading an element ends. -/
theorem readBinary_map (e : Element) (s : Bytes) :
    (e.readBinary fresh s).map Prod.snd =
      (BinaryReadArchive.skimFields e.fields ⟨s, false⟩).map BinaryReadArchive.State.stream := by
  rw [← BinaryReadArchive.skimFields_eq fresh e.fields e.value, Element.readBinary]
  cases BinaryReadArchive.accept fresh e.fields e.value ⟨s, false⟩ with
  | error err => rfl
  | ok r => rfl

/-- **One record**: the search ends at its declared end exactly when the elements it matches are
read to that end, and then nothing but these has changed. -/
theorem loadRecord_iff {elements : List Element} (hnames : (elements.map Element.name).Nodup)
    (r : Record) :
    (∃ after, loadRecord fresh crc32 r.name r.expectedCrc r.dataSize r.data elements =
      .ok (after, r.rest)) ↔ ∀ e ∈ elements, Decodes fresh crc32 e r := by
  induction elements with
  | nil => exact iff_of_true ⟨[], rfl⟩ (List.forall_mem_nil _)
  | cons e elements ih =>
    obtain ⟨hne, hnames⟩ := List.nodup_cons.mp hnames
    rw [loadRecord, List.forall_mem_cons]
    split_ifs with hname hcrc
    · refine iff_of_true ⟨_, rfl⟩ ⟨fun _ h => absurd h hcrc, fun e' he' hname' => ?_⟩
      have heq : e'.name = e.name := Subtype.ext (hname'.trans hname.symm)
      exact absurd (heq ▸ List.mem_map_of_mem he') hne
    · rw [not_not] at hcrc
      have hothers : ∀ e' ∈ elements, Decodes fresh crc32 e' r := by
        intro e' he' hname'
        have heq : e'.name = e.name := Subtype.ext (hname'.trans hname.symm)
        exact absurd (heq ▸ List.mem_map_of_mem he') hne
      have hdecodes : Decodes fresh crc32 e r ↔
          (e.readBinary fresh r.data).map Prod.snd = .ok r.rest := by
        rw [readBinary_map]
        exact ⟨fun h => h hname hcrc, fun h _ _ => h⟩
      rw [and_iff_left hothers, hdecodes]
      cases e.readBinary fresh r.data with
      | error err =>
        refine iff_of_false ?_ ?_
        · rintro ⟨_, h⟩
          cases h
        · intro h
          cases h
      | ok x =>
        constructor
        · rintro ⟨after, h⟩
          exact congrArg Except.ok (Prod.mk.inj (Except.ok.inj h)).2
        · intro h
          exact ⟨x.1 :: elements, congrArg Except.ok (congrArg (Prod.mk _) (Except.ok.inj h))⟩
    · have hdecodes : Decodes fresh crc32 e r := fun h => absurd h hname
      rw [and_iff_right hdecodes, ← ih hnames]
      constructor
      · rintro ⟨after, h⟩
        obtain ⟨x, hx, h⟩ := bind_eq_ok.mp h
        obtain ⟨-, hrest⟩ := Prod.mk.inj (Except.ok.inj h)
        exact ⟨x.1, by rw [hx, ← hrest]⟩
      · rintro ⟨after, h⟩
        rw [h]
        exact ⟨e :: after, rfl⟩

theorem loadRecord_eq_map {elements after : List Element} {r : Record} {s : Bytes}
    (hnames : (elements.map Element.name).Nodup)
    (h : loadRecord fresh crc32 r.name r.expectedCrc r.dataSize r.data elements =
      .ok (after, s)) : after = elements.map fun e => applied fresh crc32 e r := by
  induction elements generalizing after with
  | nil => exact (Prod.mk.inj (Except.ok.inj h)).1.symm
  | cons e elements ih =>
    obtain ⟨hne, hnames⟩ := List.nodup_cons.mp hnames
    -- no other element has the name of the record
    have hothers : e.name.val = r.name →
        (elements.map fun e' => applied fresh crc32 e' r) = elements := by
      intro hname
      refine (List.map_congr_left fun e' he' => ?_).trans (List.map_id _)
      refine applied_of_name_ne fun hname' => ?_
      have heq : e'.name = e.name := Subtype.ext (hname'.trans hname.symm)
      exact absurd (heq ▸ List.mem_map_of_mem he') hne
    rw [loadRecord] at h
    rw [List.map_cons]
    split_ifs at h with hname hcrc
    · obtain ⟨rfl, -⟩ := Prod.mk.inj (Except.ok.inj h)
      rw [hothers hname, applied, if_neg fun hm => hcrc hm.2]
    · rw [not_not] at hcrc
      obtain ⟨x, hx, h⟩ := bind_eq_ok.mp h
      obtain ⟨rfl, -⟩ := Prod.mk.inj (Except.ok.inj h)
      rw [hothers hname, applied, if_pos ⟨hname, hcrc⟩, hx]
    · obtain ⟨⟨after', s'⟩, hx, h⟩ := bind_eq_ok.mp h
      obtain ⟨rfl, rfl⟩ := Prod.mk.inj (Except.ok.inj h)
      rw [← ih hnames hx, applied_of_name_ne hname]

theorem map_name_applied (elements : List Element) (r : Record) :
    (elements.map fun e => applied fresh crc32 e r).map Element.name =
      elements.map Element.name := by
  rw [List.map_map]
  exact List.map_congr_left fun e _ => (sameClass_applied e r).name_eq

/-- A condition on the elements that only looks at names and types outlasts a record. -/
theorem decodes_map_applied {elements : List Element} {r r' : Record} :
    (∀ e ∈ elements.map fun e => applied fresh crc32 e r, Decodes fresh crc32 e r') ↔
      ∀ e ∈ elements, Decodes fresh crc32 e r' := by
  rw [List.forall_mem_map]
  exact forall₂_congr fun e _ => (sameClass_applied e r).decodes_iff r'

/-! ### All records -/

/-- **The loop** comes to the declared end of every record exactly when every record that matches an
element decodes. -/
theorem loadPositions_iff {n : ℕ} : ∀ {elements : List Element} {s : Bytes}, s.length < n →
    (elements.map Element.name).Nodup →
    (loadPositions fresh crc32 n elements s = .ok ((recordsLoop n s).map Record.rest) ↔
      ∀ r ∈ recordsLoop n s, ∀ e ∈ elements, Decodes fresh crc32 e r) := by
  induction n with
  | zero => exact fun h => absurd h (Nat.not_lt_zero _)
  | succ n ih =>
    intro elements s hn hnames
    rw [loadPositions, recordsLoop]
    cases hheader : readHeader s with
    | none => exact ⟨fun _ => nofun, fun _ => rfl⟩
    | some r =>
      have hrest : r.rest.length < n := by
        have hlt := length_rest_lt hheader
        omega
      simp only [List.forall_mem_cons, List.map_cons]
      rw [← loadRecord_iff hnames]
      constructor
      · intro h
        obtain ⟨⟨after, s'⟩, hrecord, h⟩ := bind_eq_ok.mp h
        obtain ⟨positions, hpositions, h⟩ := bind_eq_ok.mp h
        obtain ⟨rfl, rfl⟩ := List.cons.inj (Except.ok.inj h)
        obtain rfl := loadRecord_eq_map hnames hrecord
        refine ⟨⟨_, hrecord⟩, fun r' hr' => ?_⟩
        exact decodes_map_applied.mp
          ((ih hrest (by rwa [map_name_applied])).mp hpositions r' hr')
      · rintro ⟨⟨after, hrecord⟩, hothers⟩
        obtain rfl := loadRecord_eq_map hnames hrecord
        have hpositions := (ih hrest (by rwa [map_name_applied elements r])).mpr fun r' hr' =>
          decodes_map_applied.mpr (hothers r' hr')
        rw [hrecord]
        refine bind_eq_ok.mpr ⟨_, rfl, bind_eq_ok.mpr ⟨_, hpositions, rfl⟩⟩

/-- The records of another name leave an element as it is. -/
theorem foldl_applied (rs : List Record) (e : Element) :
    rs.foldl (applied fresh crc32) e =
      (rs.filter fun r => r.name = e.name.val).foldl (applied fresh crc32) e := by
  induction rs generalizing e with
  | nil => rfl
  | cons r rs ih =>
    rw [List.foldl_cons, ih, (sameClass_applied e r).name_eq]
    by_cases hname : r.name = e.name.val
    · rw [List.filter_cons_of_pos (by simpa using hname), List.foldl_cons]
    · rw [List.filter_cons_of_neg (by simpa using hname),
        applied_of_name_ne fun h => hname h.symm]

/-- The elements that the loop leaves, when every record that matches one decodes. -/
theorem loadLoop_eq_map {n : ℕ} : ∀ {elements : List Element} {s : Bytes}, s.length < n →
    (elements.map Element.name).Nodup →
    (∀ r ∈ recordsLoop n s, ∀ e ∈ elements, Decodes fresh crc32 e r) →
    loadLoop fresh crc32 n elements s =
      .ok (elements.map fun e => (recordsLoop n s).foldl (applied fresh crc32) e) := by
  induction n with
  | zero => exact fun h => absurd h (Nat.not_lt_zero _)
  | succ n ih =>
    intro elements s hn hnames h
    rw [loadLoop_succ]
    rw [recordsLoop] at h ⊢
    cases hheader : readHeader s with
    | none => simp
    | some r =>
      have hrest : r.rest.length < n := by
        have hlt := length_rest_lt hheader
        omega
      rw [hheader] at h
      simp only [List.forall_mem_cons] at h
      obtain ⟨after, hrecord⟩ := (loadRecord_iff hnames r).mpr h.1
      obtain rfl := loadRecord_eq_map hnames hrecord
      have hloop := ih hrest (by rwa [map_name_applied elements r]) fun r' hr' =>
        decodes_map_applied.mpr (h.2 r' hr')
      show (loadRecord fresh crc32 r.name r.expectedCrc r.dataSize r.data elements >>=
        fun x => loadLoop fresh crc32 n x.1 x.2) = _
      rw [hrecord]
      refine hloop.trans (congrArg Except.ok ?_)
      rw [List.map_map]
      exact List.map_congr_left fun e _ => rfl

/-- The names of the records lie in the section. -/
theorem recordsLoop_inside {n : ℕ} {s : Bytes} {r : Record} (hr : r ∈ recordsLoop n s) :
    r.nameSize.toNat = r.name.length ∧ r.name <:+: s := by
  induction n generalizing s with
  | zero => exact nomatch hr
  | succ n ih =>
    rw [recordsLoop] at hr
    cases hheader : readHeader s with
    | none =>
      rw [hheader] at hr
      exact nomatch hr
    | some first =>
      rw [hheader] at hr
      obtain ⟨hsize, -, size, words, hs⟩ := readHeader_eq_some hheader
      obtain rfl | hr := List.mem_cons.mp hr
      · exact ⟨hsize, size, words ++ r.data, by rw [hs, List.append_assoc]⟩
      · obtain ⟨hsize', hinfix⟩ := ih hr
        have hdata : first.data <:+ s := by
          rw [hs]
          exact ⟨size ++ (first.name ++ words), by simp⟩
        exact ⟨hsize', hinfix.trans ((List.drop_suffix _ _).trans hdata).isInfix⟩

variable (fresh crc32)

/-- **Bad records.** On a section of any contents `DoLoad` stays in the section, is positioned at the
declared end of each record and changes an element only by the records of its own name, exactly
when every record with the name and the schema checksum of an element, read by the type of the
element, ends where it says. -/
theorem isolates_iff (elements : List Element) (flash : Bytes)
    (hnames : (elements.map Element.name).Nodup) :
    Isolates fresh crc32 elements flash ↔
      ∀ r ∈ records flash, ∀ e ∈ elements, Decodes fresh crc32 e r := by
  constructor
  · intro h
    exact (loadPositions_iff (Nat.lt_succ_self _) hnames).mp h.positions
  · intro h
    refine ⟨fun r hr => recordsLoop_inside hr,
      (loadPositions_iff (Nat.lt_succ_self _) hnames).mpr h, ?_⟩
    rw [load, loadLoop_eq_map (Nat.lt_succ_self _) hnames h]
    exact congrArg Except.ok (List.map_congr_left fun e _ => foldl_applied _ e)

/-- A section that is erased. -/
theorem isolates_erased :
    Isolates .zero Base.crc32 [optionalElement none] [0, 255, 255] :=
  (isolates_iff .zero Base.crc32 [optionalElement none] [0, 255, 255] (by simp)).mpr nofun

/-- The record of "x" says that it has two bytes of data; one is read. -/
theorem not_isolates :
    ¬Isolates .zero Base.crc32 [optionalElement none] ([1, 120] ++
      (writeScalar 4 (calculateSchemaCrc .zero Base.crc32 (optionalElement none)) ++
        [2, 0, 0, 0, 0, 7])) := by
  intro h
  generalize hcrc : calculateSchemaCrc .zero Base.crc32 (optionalElement none) = crc at h
  have hheader : readHeader ([1, 120] ++ (writeScalar 4 crc ++ [2, 0, 0, 0, 0, 7])) =
      some ⟨1, [120], crc, 2, [0, 7]⟩ := by
    have hsize : readVaruint ([1, 120] ++ (writeScalar 4 crc ++ [2, 0, 0, 0, 0, 7])) =
        (some 1, 120 :: (writeScalar 4 crc ++ [2, 0, 0, 0, 0, 7])) := rfl
    have hroom : ¬(writeScalar 4 crc ++ [2, 0, 0, 0, 0, 7]).length < 8 := by
      simp
    unfold readHeader
    rw [hsize]
    dsimp only
    rw [if_neg (by decide)]
    show (if (writeScalar 4 crc ++ [2, 0, 0, 0, 0, 7]).length < 8 then none
      else match readScalar 4 (writeScalar 4 crc ++ [2, 0, 0, 0, 0, 7]) with
        | (none, _) => none
        | (some expectedCrc, s') =>
          match readScalar 4 s' with
          | (none, _) => none
          | (some dataSize, s'') => some (⟨1, [120], expectedCrc, dataSize, s''⟩ : Record)) = _
    rw [if_neg hroom, readScalar_writeScalar]
    rfl
  have hmem : (⟨1, [120], crc, 2, [0, 7]⟩ : Record) ∈
      records ([1, 120] ++ (writeScalar 4 crc ++ [2, 0, 0, 0, 0, 7])) := by
    rw [records, recordsLoop, hheader]
    exact .head _
  have hdecodes : (BinaryReadArchive.skimFields (optionalElement none).fields
      ⟨[0, 7], false⟩).map BinaryReadArchive.State.stream = .ok [] :=
    (isolates_iff .zero Base.crc32 [optionalElement none] _ (by simp)).mp h _ hmem
      _ (.head _) rfl hcrc
  exact absurd (Except.ok.inj hdecodes) (by decide)

end Mjlib.Micro.PersistentConfig
