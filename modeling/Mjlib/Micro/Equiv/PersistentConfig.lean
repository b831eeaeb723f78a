import Mathlib
import Mjlib.Base.Crc
import Mjlib.Micro.PersistentConfig
import Mjlib.Telemetry.Equiv.BinaryReadArchive

/-!
# What `Load` restores

A flash section written by one program and loaded by another.  `Load` walks over the records one by
one (`loadRecord_eq_ok`, `loadLoop_eq_ok`): an element whose name and schema checksum match a record
is read from it, all others stay as they are.  Reading goes through `BinaryReadArchive`, so the
element ends with the value that was written exactly when that archive replaces what the element
holds (`load_write_iff`).
-/

namespace Mjlib.Micro.PersistentConfig

open Telemetry

variable (fresh : Fresh) (crc32 : Bytes → BitVec 32)

/-! ### What is to be restored -/

/-- The name and the schema checksum of the element match the record of `stored`. -/
def Matches (element stored : Element) : Prop :=
  element.name = stored.name ∧
    calculateSchemaCrc fresh crc32 element = calculateSchemaCrc fresh crc32 stored

/-- The element `after` a load of what was stored: one with a matching record has the value it had
when it was written, and any other is unchanged. -/
def Restored (stored : List Element) (element after : Element) : Prop :=
  (∀ r ∈ stored, Matches fresh crc32 element r → after = r) ∧
    ((∀ r ∈ stored, ¬Matches fresh crc32 element r) → after = element)

/-- The records that `DoLoad` gets to: those before the first name of `kMaxStringSize` bytes. -/
def reached (stored : List Element) : List Element :=
  stored.takeWhile fun r => decide (r.name.val.length < Format.kMaxStringSize)

/-- A record is of the element's own type, its strings fit, and reading its value leaves nothing of
what the element holds. -/
def Restorable (element stored : Element) : Prop :=
  ∃ v : element.fields.Vals, stored = { element with value := v } ∧
    BinaryReadArchive.StringsFitFields element.fields v ∧
    BinaryReadArchive.ReplacesFields fresh element.fields element.value v

/-! ### The parts of an element that a load keeps -/

/-- The same element with another value. -/
def SameClass (element after : Element) : Prop :=
  ∃ v : element.fields.Vals, after = { element with value := v }

theorem SameClass.refl (element : Element) : SameClass element element := ⟨element.value, rfl⟩

theorem SameClass.trans {e₁ e₂ e₃ : Element} (h₁ : SameClass e₁ e₂) (h₂ : SameClass e₂ e₃) :
    SameClass e₁ e₃ := by
  obtain ⟨v, rfl⟩ := h₁
  obtain ⟨w, rfl⟩ := h₂
  exact ⟨w, rfl⟩

theorem SameClass.name_eq {element after : Element} (h : SameClass element after) :
    after.name = element.name := by
  obtain ⟨v, rfl⟩ := h
  rfl

variable {fresh crc32} in
theorem SameClass.matches_iff {element after stored : Element} (h : SameClass element after) :
    Matches fresh crc32 after stored ↔ Matches fresh crc32 element stored := by
  obtain ⟨v, rfl⟩ := h
  exact Iff.rfl

theorem SameClass.sameClass_iff {element after stored : Element} (h : SameClass element after) :
    SameClass after stored ↔ SameClass element stored := by
  obtain ⟨v, rfl⟩ := h
  exact Iff.rfl

theorem map_name_of_sameClass {elements after : List Element}
    (h : List.Forall₂ SameClass elements after) :
    after.map Element.name = elements.map Element.name := by
  induction h with
  | nil => rfl
  | cons h _ ih => rw [List.map_cons, List.map_cons, h.name_eq, ih]

theorem forall₂_sameClass_refl (elements : List Element) :
    List.Forall₂ SameClass elements elements :=
  List.forall₂_same.mpr fun e _ => SameClass.refl e

variable {fresh} in
theorem sameClass_readBinary {element after : Element} {s s' : Bytes}
    (h : element.readBinary fresh s = .ok (after, s')) : SameClass element after := by
  obtain ⟨r, -, h⟩ := bind_eq_ok.mp h
  obtain ⟨rfl, -⟩ := Prod.mk.inj (Except.ok.inj h)
  exact ⟨r.1, rfl⟩

variable {fresh crc32}

/-- A record leaves every element in its place, with its name and its type. -/
theorem sameClass_loadRecord {name : Bytes} {expectedCrc dataSize : BitVec 32} {s s' : Bytes}
    {elements : List Element} : ∀ {after : List Element},
    loadRecord fresh crc32 name expectedCrc dataSize s elements = .ok (after, s') →
      List.Forall₂ SameClass elements after := by
  induction elements with
  | nil =>
    intro after h
    obtain ⟨rfl, -⟩ := Prod.mk.inj (Except.ok.inj h)
    exact .nil
  | cons element elements ih =>
    intro after h
    rw [loadRecord] at h
    split_ifs at h with hname hcrc
    · obtain ⟨rfl, -⟩ := Prod.mk.inj (Except.ok.inj h)
      exact forall₂_sameClass_refl _
    · obtain ⟨r, hr, h⟩ := bind_eq_ok.mp h
      obtain ⟨rfl, -⟩ := Prod.mk.inj (Except.ok.inj h)
      exact .cons (sameClass_readBinary hr) (forall₂_sameClass_refl _)
    · obtain ⟨r, hr, h⟩ := bind_eq_ok.mp h
      obtain ⟨rfl, rfl⟩ := Prod.mk.inj (Except.ok.inj h)
      exact .cons (SameClass.refl _) (ih hr)

theorem forall₂_sameClass_trans {l₁ l₂ l₃ : List Element} (h₁ : List.Forall₂ SameClass l₁ l₂)
    (h₂ : List.Forall₂ SameClass l₂ l₃) : List.Forall₂ SameClass l₁ l₃ := by
  induction h₁ generalizing l₃ with
  | nil => exact h₂
  | cons h _ ih =>
    cases h₂ with
    | cons h' h₂ => exact .cons (h.trans h') (ih h₂)

theorem sameClass_loadLoop {n : ℕ} : ∀ {elements after : List Element} {s : Bytes},
    loadLoop fresh crc32 n elements s = .ok after → List.Forall₂ SameClass elements after := by
  induction n with
  | zero => intro elements after s h; exact absurd h nofun
  | succ n ih =>
    intro elements after s h
    have hstop : Except.ok elements = Except.ok (ε := Error) after →
        List.Forall₂ SameClass elements after := by
      intro h
      rw [← Except.ok.inj h]
      exact forall₂_sameClass_refl _
    rw [loadLoop] at h
    split at h
    · exact hstop h
    · dsimp only at h
      split_ifs at h
      · exact hstop h
      · exact hstop h
      · split at h
        · exact hstop h
        · split at h
          · exact hstop h
          · obtain ⟨r, hr, h⟩ := bind_eq_ok.mp h
            exact forall₂_sameClass_trans (sameClass_loadRecord hr) (ih h)

/-! ### One record -/

variable (fresh crc32)

/-- The element after a record of its own type has been read into it. -/
def Overlaid (element stored after : Element) : Prop :=
  ∃ v : element.fields.Vals, stored = { element with value := v } ∧
    after = { element with
      value := BinaryReadArchive.overlayFields fresh element.fields element.value v }

/-- What the records do to an element: it is read from the one that matches, if one does. -/
def Overlays (stored : List Element) (element after : Element) : Prop :=
  (∀ r ∈ stored, Matches fresh crc32 element r → Overlaid fresh element r after) ∧
    ((∀ r ∈ stored, ¬Matches fresh crc32 element r) → after = element)

/-- The strings of the record fit, if it is of the element's type. -/
def Fits (element stored : Element) : Prop :=
  ∀ v : element.fields.Vals, stored = { element with value := v } →
    BinaryReadArchive.StringsFitFields element.fields v

variable {fresh crc32}

theorem SameClass.fits_iff {element after stored : Element} (h : SameClass element after) :
    Fits after stored ↔ Fits element stored := by
  obtain ⟨v, rfl⟩ := h
  exact Iff.rfl

theorem Overlaid.sameClass {element stored after : Element} (h : Overlaid fresh element stored after) :
    SameClass element after := by
  obtain ⟨v, -, rfl⟩ := h
  exact ⟨_, rfl⟩

/-- Elements with another name than the record stay as they are. -/
theorem forall₂_overlays_of_name_ne {r : Element} {elements : List Element}
    (h : ∀ e ∈ elements, e.name ≠ r.name) :
    List.Forall₂ (Overlays fresh crc32 [r]) elements elements := by
  refine List.forall₂_same.mpr fun e he => ⟨fun r' hr' hm => ?_, fun _ => rfl⟩
  rw [List.mem_singleton] at hr'
  exact absurd (hr' ▸ hm.1) (h e he)

theorem overlays_self_of_not_matches {r e : Element} (h : ¬Matches fresh crc32 e r) :
    Overlays fresh crc32 [r] e e :=
  ⟨fun _ hr' hm => absurd (List.mem_singleton.mp hr' ▸ hm) h, fun _ => rfl⟩

/-- The search for the record's element. -/
theorem loadRecord_eq_ok {r : Element} (hdata : r.writeBinary.length < 2 ^ 32)
    {elements : List Element} (s : Bytes) (hnames : (elements.map Element.name).Nodup)
    (htype : ∀ e ∈ elements, Matches fresh crc32 e r → SameClass e r)
    (hfits : ∀ e ∈ elements, Matches fresh crc32 e r → Fits e r) :
    ∃ after, loadRecord fresh crc32 r.name.val (calculateSchemaCrc fresh crc32 r)
        (BitVec.ofNat 32 r.writeBinary.length) (r.writeBinary ++ s) elements = .ok (after, s) ∧
      List.Forall₂ (Overlays fresh crc32 [r]) elements after := by
  have hskip : (r.writeBinary ++ s).drop (BitVec.ofNat 32 r.writeBinary.length).toNat = s := by
    rw [BitVec.toNat_ofNat, Nat.mod_eq_of_lt hdata, List.drop_left' rfl]
  induction elements with
  | nil => exact ⟨[], by rw [loadRecord, hskip], .nil⟩
  | cons e elements ih =>
    rw [List.map_cons, List.nodup_cons] at hnames
    rw [loadRecord]
    by_cases hname : e.name.val = r.name.val
    · -- the record names this element, so it names no later one
      have hne : ∀ e' ∈ elements, e'.name ≠ r.name := fun e' he' h =>
        hnames.1 (Subtype.ext hname ▸ h ▸ List.mem_map_of_mem he')
      rw [if_pos hname]
      by_cases hcrc : calculateSchemaCrc fresh crc32 e = calculateSchemaCrc fresh crc32 r
      · have hm : Matches fresh crc32 e r := ⟨Subtype.ext hname, hcrc⟩
        obtain ⟨v, rfl⟩ := htype e (by simp) hm
        have hread : e.readBinary fresh (BinaryWriteArchive.accept e.fields v ++ s) =
            .ok ({ e with
              value := BinaryReadArchive.overlayFields fresh e.fields e.value v }, s) := by
          rw [Element.readBinary,
            BinaryReadArchive.accept_write fresh e.fields e.value v (hfits e (by simp) hm v rfl)]
          rfl
        refine ⟨{ e with value := BinaryReadArchive.overlayFields fresh e.fields e.value v } ::
          elements, ?_, .cons ⟨fun r' hr' _ => ?_, fun h => absurd hm (h _ (by simp))⟩
          (forall₂_overlays_of_name_ne hne)⟩
        · rw [if_neg (not_not.mpr hcrc)]
          show (e.readBinary fresh (BinaryWriteArchive.accept e.fields v ++ s) >>= _) = _
          rw [hread]
          rfl
        · rw [List.mem_singleton.mp hr']
          exact ⟨v, rfl, rfl⟩
      · refine ⟨e :: elements, by rw [if_pos hcrc, hskip], .cons ?_ (forall₂_overlays_of_name_ne hne)⟩
        exact overlays_self_of_not_matches fun hm => hcrc hm.2
    · obtain ⟨after, hload, hafter⟩ := ih hnames.2 (fun e he => htype e (List.mem_cons_of_mem _ he))
        (fun e he => hfits e (List.mem_cons_of_mem _ he))
      refine ⟨e :: after, by rw [if_neg hname, hload]; rfl, .cons ?_ hafter⟩
      exact overlays_self_of_not_matches fun hm => hname (congrArg Subtype.val hm.1)

/-- A record with a string that is too long for its element fails an assertion. -/
theorem loadRecord_error {r : Element} {elements : List Element} (s : Bytes)
    (hnames : (elements.map Element.name).Nodup)
    (htype : ∀ e ∈ elements, Matches fresh crc32 e r → SameClass e r)
    (hlong : ∃ e ∈ elements, Matches fresh crc32 e r ∧ ¬Fits e r) :
    loadRecord fresh crc32 r.name.val (calculateSchemaCrc fresh crc32 r)
      (BitVec.ofNat 32 r.writeBinary.length) (r.writeBinary ++ s) elements = .error .assertion := by
  induction elements with
  | nil => simp at hlong
  | cons e elements ih =>
    rw [List.map_cons, List.nodup_cons] at hnames
    obtain ⟨e', he', hm, hfit⟩ := hlong
    rw [loadRecord]
    rcases List.mem_cons.mp he' with rfl | he'
    · obtain ⟨v, rfl⟩ := htype e' (by simp) hm
      have hread : e'.readBinary fresh (BinaryWriteArchive.accept e'.fields v ++ s) =
          .error .assertion := by
        rw [Element.readBinary, BinaryReadArchive.accept_write_error fresh e'.fields e'.value v]
        · rfl
        · intro h
          refine hfit fun w hw => ?_
          have : v = w := by injection hw
          exact this ▸ h
      rw [if_pos (congrArg Subtype.val hm.1), if_neg (not_not.mpr hm.2)]
      show (e'.readBinary fresh (BinaryWriteArchive.accept e'.fields v ++ s) >>= _) = _
      rw [hread]
      rfl
    · have hne : e.name.val ≠ r.name.val := fun h =>
        hnames.1 (Subtype.ext h ▸ hm.1 ▸ List.mem_map_of_mem he')
      rw [if_neg hne, ih hnames.2 (fun e he => htype e (List.mem_cons_of_mem _ he))
        ⟨e', he', hm, hfit⟩]
      rfl

/-! ### All records -/

/-- The header of a record, and then its element. -/
theorem loadLoop_writeRecord {n : ℕ} {elements : List Element} {r : Element}
    (hne : r.name.val ≠ []) (hlt : r.name.val.length < Format.kMaxStringSize) (s : Bytes) :
    loadLoop fresh crc32 (n + 1) elements (writeRecord fresh crc32 r ++ s) =
      (loadRecord fresh crc32 r.name.val (calculateSchemaCrc fresh crc32 r)
        (BitVec.ofNat 32 r.writeBinary.length) (r.writeBinary ++ s) elements >>=
          fun x => loadLoop fresh crc32 n x.1 x.2) := by
  have hsize : (UInt64.ofNat r.name.val.length).toNat = r.name.val.length := Seq.toNat_size r.name
  have hsize_ne : UInt64.ofNat r.name.val.length ≠ 0 := by
    intro h
    rw [h] at hsize
    exact hne (List.length_eq_zero_iff.mp hsize.symm)
  have hroom : ¬(writeScalar 4 (calculateSchemaCrc fresh crc32 r) ++
      (writeScalar 4 (BitVec.ofNat 32 r.writeBinary.length) ++ (r.writeBinary ++ s))).length < 8 := by
    simp only [List.length_append, length_writeScalar]
    omega
  simp only [writeRecord, writeString, List.append_assoc]
  rw [loadLoop, readVaruint_writeVaruint]
  dsimp only
  rw [if_neg (by rw [hsize]; exact not_or.mpr ⟨hsize_ne, Nat.not_le.mpr hlt⟩), hsize,
    List.take_left' rfl, List.drop_left' rfl, if_neg hroom, readScalar_writeScalar]
  dsimp only
  rw [readScalar_writeScalar]

/-- A name of `kMaxStringSize` bytes ends the loop. -/
theorem loadLoop_longName {n : ℕ} {elements : List Element} {r : Element}
    (hlong : ¬r.name.val.length < Format.kMaxStringSize) (s : Bytes) :
    loadLoop fresh crc32 (n + 1) elements (writeRecord fresh crc32 r ++ s) = .ok elements := by
  have hsize : (UInt64.ofNat r.name.val.length).toNat = r.name.val.length := Seq.toNat_size r.name
  simp only [writeRecord, writeString, List.append_assoc]
  rw [loadLoop, readVaruint_writeVaruint]
  dsimp only
  rw [if_pos (.inr (by rw [hsize]; omega))]

/-- The terminator ends the loop. -/
theorem loadLoop_terminator {n : ℕ} {elements : List Element} (s : Bytes) :
    loadLoop fresh crc32 (n + 1) elements (writeScalar 4 (0 : BitVec 32) ++ s) = .ok elements := by
  have hzero : readVaruint (writeScalar 4 (0 : BitVec 32) ++ s) = (some 0, [0, 0, 0] ++ s) := rfl
  rw [loadLoop, hzero]
  exact if_pos (.inl rfl)

variable (fresh crc32) in
theorem length_writeRecord_pos (r : Element) : 0 < (writeRecord fresh crc32 r).length := by
  have := length_writeVaruint_pos (UInt64.ofNat r.name.val.length)
  simp only [writeRecord, writeString, List.length_append]
  omega

/-- The effects of a record and of those behind it. -/
theorem Overlays.cons {r : Element} {records : List Element} {e e₁ e₂ : Element}
    (hnames : ∀ r' ∈ records, r'.name ≠ r.name) (h₁ : Overlays fresh crc32 [r] e e₁)
    (h₂ : Overlays fresh crc32 records e₁ e₂) : Overlays fresh crc32 (r :: records) e e₂ := by
  by_cases hm : Matches fresh crc32 e r
  · -- the other records have other names
    obtain ⟨v, hv, he₁⟩ := h₁.1 r (by simp) hm
    have hclass : SameClass e e₁ := ⟨_, he₁⟩
    have hother : ∀ r' ∈ records, ¬Matches fresh crc32 e r' := fun r' hr' hm' =>
      hnames r' hr' (hm'.1.symm.trans hm.1)
    have he₂ : e₂ = e₁ := h₂.2 fun r' hr' hm' => hother r' hr' (hclass.matches_iff.mp hm')
    refine ⟨fun r' hr' hm' => ?_, fun h => absurd hm (h r (by simp))⟩
    rcases List.mem_cons.mp hr' with rfl | hr'
    · exact ⟨v, hv, he₂.trans he₁⟩
    · exact absurd hm' (hother r' hr')
  · have he₁ : e₁ = e := h₁.2 fun r' hr' => List.mem_singleton.mp hr' ▸ hm
    subst he₁
    refine ⟨fun r' hr' hm' => ?_, fun h => h₂.2 fun r' hr' => h r' (List.mem_cons_of_mem _ hr')⟩
    rcases List.mem_cons.mp hr' with rfl | hr'
    · exact absurd hm' hm
    · exact h₂.1 r' hr' hm'

theorem forall₂_overlays_cons {r : Element} {records l l₁ l₂ : List Element}
    (hnames : ∀ r' ∈ records, r'.name ≠ r.name)
    (h₁ : List.Forall₂ (Overlays fresh crc32 [r]) l l₁)
    (h₂ : List.Forall₂ (Overlays fresh crc32 records) l₁ l₂) :
    List.Forall₂ (Overlays fresh crc32 (r :: records)) l l₂ := by
  induction h₁ generalizing l₂ with
  | nil => cases h₂; exact .nil
  | cons h _ ih =>
    cases h₂ with
    | cons h' h₂ => exact .cons (h.cons hnames h') (ih h₂)

theorem forall₂_overlays_nil (l : List Element) : List.Forall₂ (Overlays fresh crc32 []) l l :=
  List.forall₂_same.mpr fun _ _ => ⟨fun _ h => absurd h (by simp), fun _ => rfl⟩

/-- An element of the list after a record has the class of one before it. -/
theorem exists_sameClass_of_mem {l l' : List Element} (h : List.Forall₂ SameClass l l')
    {e : Element} (he : e ∈ l') : ∃ e₀ ∈ l, SameClass e₀ e := by
  induction h with
  | nil => simp at he
  | cons h _ ih =>
    rcases List.mem_cons.mp he with rfl | he
    · exact ⟨_, by simp, h⟩
    · obtain ⟨e₀, h₀, hc⟩ := ih he
      exact ⟨e₀, List.mem_cons_of_mem _ h₀, hc⟩

/-- An element of the list before a record has its successor after it. -/
theorem exists_sameClass_of_mem' {l l' : List Element} (h : List.Forall₂ SameClass l l')
    {e : Element} (he : e ∈ l) : ∃ e' ∈ l', SameClass e e' := by
  induction h with
  | nil => simp at he
  | cons h _ ih =>
    rcases List.mem_cons.mp he with rfl | he
    · exact ⟨_, by simp, h⟩
    · obtain ⟨e₀, h₀, hc⟩ := ih he
      exact ⟨e₀, List.mem_cons_of_mem _ h₀, hc⟩

theorem reached_cons_of_lt {r : Element} {stored : List Element}
    (h : r.name.val.length < Format.kMaxStringSize) :
    reached (r :: stored) = r :: reached stored := by
  rw [reached, List.takeWhile_cons_of_pos (by simpa using h)]
  rfl

theorem reached_cons_of_not_lt {r : Element} {stored : List Element}
    (h : ¬r.name.val.length < Format.kMaxStringSize) : reached (r :: stored) = [] :=
  List.takeWhile_cons_of_neg (by simpa using h)

/-- What the other records need of an element is the same once one record has been read. -/
theorem nodup_of_sameClass {l l' : List Element} (h : List.Forall₂ SameClass l l')
    (hnames : (l.map Element.name).Nodup) : (l'.map Element.name).Nodup := by
  rw [map_name_of_sameClass h]
  exact hnames

/-- What was stored: names that are distinct and not empty, and data whose size has 32 bits. -/
structure Storable (stored : List Element) : Prop where
  nodup : (stored.map Element.name).Nodup
  name_ne : ∀ r ∈ stored, r.name.val ≠ []
  data_lt : ∀ r ∈ stored, r.writeBinary.length < 2 ^ 32

theorem Storable.tail {r : Element} {stored : List Element} (h : Storable (r :: stored)) :
    Storable stored :=
  ⟨(List.nodup_cons.mp h.nodup).2, fun r hr => h.name_ne r (List.mem_cons_of_mem _ hr),
    fun r hr => h.data_lt r (List.mem_cons_of_mem _ hr)⟩

theorem Storable.name_ne_of_mem {r r' : Element} {stored : List Element}
    (h : Storable (r :: stored)) (hr' : r' ∈ stored) : r'.name ≠ r.name := fun hn =>
  (List.nodup_cons.mp h.nodup).1 (hn ▸ List.mem_map_of_mem hr')

theorem mem_of_mem_reached {r : Element} {stored : List Element} (h : r ∈ reached stored) :
    r ∈ stored := (List.takeWhile_sublist _).subset h

/-- **The loop over the records**: each element is read from the record that matches it. -/
theorem loadLoop_eq_ok {stored : List Element} : ∀ {elements : List Element} {n : ℕ} (s : Bytes),
    Storable stored → (elements.map Element.name).Nodup →
    (∀ e ∈ elements, ∀ r ∈ reached stored, Matches fresh crc32 e r → SameClass e r ∧ Fits e r) →
    (stored.flatMap (writeRecord fresh crc32) ++ (writeScalar 4 (0 : BitVec 32) ++ s)).length < n →
    ∃ after, loadLoop fresh crc32 n elements
        (stored.flatMap (writeRecord fresh crc32) ++ (writeScalar 4 (0 : BitVec 32) ++ s)) =
          .ok after ∧
      List.Forall₂ (Overlays fresh crc32 (reached stored)) elements after := by
  induction stored with
  | nil =>
    intro elements n s _ _ _ hn
    obtain ⟨n, rfl⟩ : ∃ m, n = m + 1 := ⟨n - 1, by omega⟩
    exact ⟨elements, loadLoop_terminator s, forall₂_overlays_nil elements⟩
  | cons r stored ih =>
    intro elements n s hst hnames hok hn
    obtain ⟨n, rfl⟩ : ∃ m, n = m + 1 := ⟨n - 1, by omega⟩
    rw [List.flatMap_cons, List.append_assoc] at hn ⊢
    by_cases hlt : r.name.val.length < Format.kMaxStringSize
    · rw [reached_cons_of_lt hlt] at hok ⊢
      obtain ⟨l₁, hload, hl₁⟩ := loadRecord_eq_ok (hst.data_lt r (by simp))
        (stored.flatMap (writeRecord fresh crc32) ++ (writeScalar 4 (0 : BitVec 32) ++ s)) hnames
        (fun e he hm => (hok e he r (by simp) hm).1) (fun e he hm => (hok e he r (by simp) hm).2)
      have hclass := sameClass_loadRecord hload
      obtain ⟨after, hloop, hafter⟩ := @ih l₁ n s hst.tail
        (nodup_of_sameClass hclass hnames)
        (fun e he r' hr' hm => by
          obtain ⟨e₀, he₀, hc⟩ := exists_sameClass_of_mem hclass he
          have := hok e₀ he₀ r' (List.mem_cons_of_mem _ hr') (hc.matches_iff.mp hm)
          exact ⟨hc.sameClass_iff.mpr this.1, hc.fits_iff.mpr this.2⟩)
        (by
          have := length_writeRecord_pos fresh crc32 r
          rw [List.length_append] at hn
          omega)
      refine ⟨after, ?_, forall₂_overlays_cons
        (fun r' hr' => hst.name_ne_of_mem (mem_of_mem_reached hr')) hl₁ hafter⟩
      rw [loadLoop_writeRecord (hst.name_ne r (by simp)) hlt, hload]
      exact hloop
    · rw [reached_cons_of_not_lt hlt]
      exact ⟨elements, loadLoop_longName hlt _, forall₂_overlays_nil elements⟩

/-- A record that is reached, matches an element and has a string that is too long. -/
theorem loadLoop_error {stored : List Element} : ∀ {elements : List Element} {n : ℕ} (s : Bytes),
    Storable stored → (elements.map Element.name).Nodup →
    (∀ e ∈ elements, ∀ r ∈ reached stored, Matches fresh crc32 e r → SameClass e r) →
    (∃ e ∈ elements, ∃ r ∈ reached stored, Matches fresh crc32 e r ∧ ¬Fits e r) →
    (stored.flatMap (writeRecord fresh crc32) ++ (writeScalar 4 (0 : BitVec 32) ++ s)).length < n →
    loadLoop fresh crc32 n elements
      (stored.flatMap (writeRecord fresh crc32) ++ (writeScalar 4 (0 : BitVec 32) ++ s)) =
        .error .assertion := by
  induction stored with
  | nil =>
    intro elements n s _ _ _ hlong _
    obtain ⟨_, _, _, hr, _⟩ := hlong
    simp [reached] at hr
  | cons r stored ih =>
    intro elements n s hst hnames htype hlong hn
    obtain ⟨n, rfl⟩ : ∃ m, n = m + 1 := ⟨n - 1, by omega⟩
    rw [List.flatMap_cons, List.append_assoc] at hn ⊢
    by_cases hlt : r.name.val.length < Format.kMaxStringSize
    · rw [reached_cons_of_lt hlt] at htype hlong
      rw [loadLoop_writeRecord (hst.name_ne r (by simp)) hlt]
      by_cases hhead : ∃ e ∈ elements, Matches fresh crc32 e r ∧ ¬Fits e r
      · rw [loadRecord_error _ hnames (fun e he hm => htype e he r (by simp) hm) hhead]
        rfl
      · -- this record is read, so it is a later one that fails
        obtain ⟨l₁, hload, hl₁⟩ := loadRecord_eq_ok (hst.data_lt r (by simp))
          (stored.flatMap (writeRecord fresh crc32) ++ (writeScalar 4 (0 : BitVec 32) ++ s)) hnames
          (fun e he hm => htype e he r (by simp) hm)
          (fun e he hm => by_contra fun hfit => hhead ⟨e, he, hm, hfit⟩)
        have hclass := sameClass_loadRecord hload
        rw [hload]
        refine @ih l₁ n s hst.tail (nodup_of_sameClass hclass hnames) ?_ ?_ ?_
        · intro e he r' hr' hm
          obtain ⟨e₀, he₀, hc⟩ := exists_sameClass_of_mem hclass he
          exact hc.sameClass_iff.mpr
            (htype e₀ he₀ r' (List.mem_cons_of_mem _ hr') (hc.matches_iff.mp hm))
        · obtain ⟨e, he, r', hr', hm, hfit⟩ := hlong
          rcases List.mem_cons.mp hr' with rfl | hr'
          · exact absurd ⟨e, he, hm, hfit⟩ hhead
          · obtain ⟨e', he', hc⟩ := exists_sameClass_of_mem' hclass he
            exact ⟨e', he', r', hr', hc.matches_iff.mpr hm, fun h => hfit (hc.fits_iff.mp h)⟩
        · have := length_writeRecord_pos fresh crc32 r
          rw [List.length_append] at hn
          omega
    · rw [reached_cons_of_not_lt hlt] at hlong
      obtain ⟨_, _, _, hr, _⟩ := hlong
      simp at hr

/-- What a restorable record leaves in the element is the record. -/
theorem restorable_iff {e r after : Element} (h : Overlaid fresh e r after) (hfit : Fits e r) :
    after = r ↔ Restorable fresh e r := by
  obtain ⟨v, rfl, rfl⟩ := h
  have hover := BinaryReadArchive.overlayFields_eq_iff fresh e.fields e.value v
  constructor
  · intro h
    refine ⟨v, rfl, hfit v rfl, hover.mp ?_⟩
    injection h
  · rintro ⟨w, hw, -, hrep⟩
    have hvw : v = w := by injection hw
    rw [hover.mpr (hvw ▸ hrep)]

theorem Restorable.sameClass {e r : Element} (h : Restorable fresh e r) : SameClass e r := by
  obtain ⟨v, rfl, -⟩ := h
  exact ⟨v, rfl⟩

theorem Restorable.fits {e r : Element} (h : Restorable fresh e r) : Fits e r := by
  obtain ⟨v, rfl, hfit, -⟩ := h
  intro w hw
  have hvw : v = w := by injection hw
  exact hvw ▸ hfit

theorem Storable.eq_of_name_eq {stored : List Element} (h : Storable stored) {r r' : Element}
    (hr : r ∈ stored) (hr' : r' ∈ stored) (hn : r.name = r'.name) : r = r' :=
  List.inj_on_of_nodup_map h.nodup hr hr' hn

theorem forall₂_imp_of_mem {R S : Element → Element → Prop} {l l' : List Element}
    (h : List.Forall₂ R l l') (himp : ∀ e ∈ l, ∀ e', R e e' → S e e') : List.Forall₂ S l l' := by
  induction h with
  | nil => exact .nil
  | cons h _ ih =>
    exact .cons (himp _ (by simp) _ h) (ih fun e he => himp e (List.mem_cons_of_mem _ he))

theorem exists_right_of_mem {R : Element → Element → Prop} {l l' : List Element}
    (h : List.Forall₂ R l l') {e : Element} (he : e ∈ l) : ∃ e', R e e' := by
  induction h with
  | nil => simp at he
  | cons h _ ih =>
    rcases List.mem_cons.mp he with rfl | he
    · exact ⟨_, h⟩
    · exact ih he

theorem forall₂_and {R S : Element → Element → Prop} {l l' : List Element}
    (h : List.Forall₂ R l l') (h' : List.Forall₂ S l l') :
    List.Forall₂ (fun e e' => R e e' ∧ S e e') l l' := by
  induction h with
  | nil => exact .nil
  | cons h _ ih =>
    cases h' with
    | cons h' hs => exact .cons ⟨h, h'⟩ (ih hs)

variable (fresh crc32)

/-- What the records of a section that has room for them are followed by. -/
theorem write_eq {stored : List Element} {erased : Bytes}
    (hfits : (written fresh crc32 stored).length ≤ erased.length) :
    write fresh crc32 stored erased = stored.flatMap (writeRecord fresh crc32) ++
      (writeScalar 4 (0 : BitVec 32) ++ erased.drop (written fresh crc32 stored).length) := by
  rw [write, List.take_of_length_le (by
    rw [List.length_append, List.length_drop]
    omega)]
  exact List.append_assoc _ _ _

/-- **Save and restore.**  What one program has written is loaded by another, whose elements are in
any order and hold anything: every element whose name and schema checksum match a record ends with
the value of the record, and every other is unchanged, if and only if every matching record that
`DoLoad` reaches is restorable (and what it does not reach is what the element holds anyway). -/
theorem load_write_iff {stored elements : List Element} {erased : Bytes} (hstored : Storable stored)
    (hfits : (written fresh crc32 stored).length ≤ erased.length)
    (hnames : (elements.map Element.name).Nodup) :
    (∃ after, load fresh crc32 elements (write fresh crc32 stored erased) = .ok after ∧
      List.Forall₂ (Restored fresh crc32 stored) elements after) ↔
    ∀ e ∈ elements, ∀ r ∈ stored, Matches fresh crc32 e r →
      (r ∈ reached stored → Restorable fresh e r) ∧ (r ∉ reached stored → e = r) := by
  have hread := write_eq fresh crc32 hfits
  generalize erased.drop (written fresh crc32 stored).length = tail at hread
  constructor
  · rintro ⟨after, hload, hafter⟩ e he r hr hm
    have hclass := sameClass_loadLoop hload
    rw [load, hread] at hload
    have htype : ∀ e ∈ elements, ∀ r ∈ stored, Matches fresh crc32 e r → SameClass e r := by
      intro e he r hr hm
      obtain ⟨e', h⟩ := exists_right_of_mem (forall₂_and hclass hafter) he
      rw [← h.2.1 r hr hm]
      exact h.1
    by_cases hlong : ∃ e ∈ elements, ∃ r ∈ reached stored, Matches fresh crc32 e r ∧ ¬Fits e r
    · have herror := loadLoop_error tail hstored hnames
        (fun e he r hr => htype e he r (mem_of_mem_reached hr)) hlong (Nat.lt_succ_self _)
      exact absurd (herror.symm.trans hload) nofun
    · have hfit : ∀ e ∈ elements, ∀ r ∈ reached stored, Matches fresh crc32 e r → Fits e r :=
        fun e he r hr hm => by_contra fun h => hlong ⟨e, he, r, hr, hm, h⟩
      obtain ⟨after', hload', hover⟩ := loadLoop_eq_ok tail hstored hnames
        (fun e he r hr hm => ⟨htype e he r (mem_of_mem_reached hr) hm, hfit e he r hr hm⟩)
        (Nat.lt_succ_self _)
      obtain rfl := Except.ok.inj (hload'.symm.trans hload)
      obtain ⟨e', hrestored, hover⟩ := exists_right_of_mem (forall₂_and hafter hover) he
      refine ⟨fun hmem => ?_, fun hmem => ?_⟩
      · exact (restorable_iff (hover.1 r hmem hm) (hfit e he r hmem hm)).mp (hrestored.1 r hr hm)
      · rw [← hrestored.1 r hr hm]
        refine (hover.2 fun r' hr' hm' => hmem ?_).symm
        rwa [hstored.eq_of_name_eq hr (mem_of_mem_reached hr') (hm.1.symm.trans hm'.1)]
  · intro h
    obtain ⟨after, hload, hover⟩ := loadLoop_eq_ok tail hstored hnames
      (fun e he r hr hm =>
        have hr' := ((h e he r (mem_of_mem_reached hr) hm).1 hr)
        ⟨hr'.sameClass, hr'.fits⟩)
      (Nat.lt_succ_self _)
    refine ⟨after, by rw [load, hread]; exact hload, forall₂_imp_of_mem hover ?_⟩
    intro e he e' hover
    refine ⟨fun r hr hm => ?_, fun hno => hover.2 fun r hr => hno r (mem_of_mem_reached hr)⟩
    by_cases hmem : r ∈ reached stored
    · have hrest := (h e he r hr hm).1 hmem
      exact (restorable_iff (hover.1 r hmem hm) hrest.fits).mpr hrest
    · rw [hover.2 fun r' hr' hm' => hmem ?_]
      · exact (h e he r hr hm).2 hmem
      · rwa [hstored.eq_of_name_eq hr (mem_of_mem_reached hr') (hm.1.symm.trans hm'.1)]

/-- An element "x" with one member, a `std::optional<uint8_t>`. -/
def optionalElement (value : Option (Word .one)) : Element :=
  ⟨⟨[120], by decide⟩, 0, .cons ⟨[118], by decide⟩ (.optional (.int false .one)) .nil, (value, ())⟩

/-- A present value loaded over an empty one. -/
theorem load_write_iff_present :
    (∃ after, load .zero Base.crc32 [optionalElement none]
        (write .zero Base.crc32 [optionalElement (some 5)] (List.replicate 20 255)) = .ok after ∧
      List.Forall₂ (Restored .zero Base.crc32 [optionalElement (some 5)]) [optionalElement none]
        after) ↔
    ∀ e ∈ [optionalElement none], ∀ r ∈ [optionalElement (some 5)],
      Matches .zero Base.crc32 e r →
      (r ∈ reached [optionalElement (some 5)] → Restorable .zero e r) ∧
        (r ∉ reached [optionalElement (some 5)] → e = r) :=
  load_write_iff .zero Base.crc32
    ⟨by simp, by simp [optionalElement], by simp [optionalElement, Element.writeBinary]; decide⟩
    (by decide : 16 ≤ 20) (by simp)

/-- An empty optional loaded over one that holds 7: the 7 stays. -/
theorem not_load_write :
    ¬∃ crc32 : Bytes → BitVec 32, ∀ (fresh : Fresh) (stored elements : List Element)
        (erased : Bytes), Storable stored →
      (written fresh crc32 stored).length ≤ erased.length →
      (elements.map Element.name).Nodup →
      ∃ after, load fresh crc32 elements (write fresh crc32 stored erased) = .ok after ∧
        List.Forall₂ (Restored fresh crc32 stored) elements after := by
  rintro ⟨crc32, h⟩
  have hstored : Storable [optionalElement none] := ⟨by simp, by simp [optionalElement], by
    intro r hr
    rw [List.mem_singleton.mp hr]
    decide⟩
  have hnames : ([optionalElement (some 7)].map Element.name).Nodup := by simp
  have hfits : (written .zero crc32 [optionalElement none]).length ≤
      (List.replicate 20 (255 : UInt8)).length := (by decide : 15 ≤ 20)
  have hok : ∀ e ∈ [optionalElement (some 7)], ∀ r ∈ reached [optionalElement none],
      Matches .zero crc32 e r → SameClass e r ∧ Fits e r := by
    intro e he r hr _
    obtain rfl := List.mem_singleton.mp he
    obtain rfl := List.mem_singleton.mp (mem_of_mem_reached hr)
    exact ⟨⟨(none, ()), rfl⟩, fun v hv => by
      have hvn : ((none, ()) : (optionalElement (some 7)).fields.Vals) = v := by injection hv
      exact hvn ▸ ⟨trivial, trivial⟩⟩
  obtain ⟨after, hload, hrestored⟩ := h .zero [optionalElement none] [optionalElement (some 7)]
    (List.replicate 20 255) hstored hfits hnames
  rw [load, write_eq .zero crc32 hfits] at hload
  obtain ⟨after', hload', hover⟩ := loadLoop_eq_ok _ hstored hnames hok (Nat.lt_succ_self _)
  obtain rfl := Except.ok.inj (hload'.symm.trans hload)
  obtain ⟨e', hboth⟩ := exists_right_of_mem (forall₂_and hrestored hover) (List.mem_singleton_self _)
  -- so the empty optional would have to replace the 7
  have hm : Matches .zero crc32 (optionalElement (some 7)) (optionalElement none) := ⟨rfl, rfl⟩
  have hmem : optionalElement none ∈ reached [optionalElement none] := by
    rw [reached_cons_of_lt (by decide)]
    exact List.mem_cons_self
  obtain ⟨v, hv, -, hrep⟩ := (restorable_iff (hboth.2.1 _ hmem hm)
    (hok _ (by simp) _ hmem hm).2).mp (hboth.1.1 _ (by simp) hm)
  have hvn : ((none, ()) : (optionalElement (some 7)).fields.Vals) = v := by injection hv
  subst hvn
  exact absurd hrep.1 nofun

end Mjlib.Micro.PersistentConfig
