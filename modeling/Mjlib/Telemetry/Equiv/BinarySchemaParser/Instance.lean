import Mjlib.Telemetry.Equiv.BinarySchemaParser

/-!
# Instances of a schema

The data that the README describes for each type, over the elements of a schema.  What a reader asks
of them beyond that is a `Limits`: an instance within limits is an instance (`Element.Instance.mono`),
and `Ignore` steps over exactly those whose keys of maps are not too long (`Element.ignore_instance`).
-/

namespace Mjlib.Telemetry.BinarySchemaParser

open Base128 (Encodes)

/-! ### What is written -/

/-- A number of 64 bits, in up to ten bytes. -/
def IsVaruint (x : UInt64) (ds : Bytes) : Prop := Encodes ds x.toNat ∧ ds.length ≤ 10

/-- Bytes or a string: their number and then they themselves. -/
def IsText (text ds : Bytes) : Prop :=
  ∃ size digits, IsVaruint size digits ∧ size.toNat = text.length ∧ ds = digits ++ text

/-- What is said of one is true of `n` in turn. -/
def InTurn (P : Bytes → Prop) : ℕ → Bytes → Prop
  | 0, d => d = []
  | n + 1, d => ∃ first rest, d = first ++ rest ∧ P first ∧ InTurn P n rest

/-- What may be in the data beyond what the types say: of each type and its data, and of each key of
a map. -/
structure Limits where
  node : Shape → Bytes → Prop := fun _ _ => True
  key : Bytes → Prop := fun _ => True

mutual

/-- The data are an instance, within the limits. -/
def Element.Instance (L : Limits) : Element → Bytes → Prop
  | .mk _ _ _ shape, d => L.node shape d ∧ shape.Instance L d

def Shape.Instance (L : Limits) : Shape → Bytes → Prop
  | .final, _ | .unnamed _, _ => False
  | .null, d => d = []
  | .boolean, d => d = [0] ∨ d = [1]
  | .fixedInt intSize, d | .fixedUInt intSize, d => d.length = intSize.toNat
  | .varint, d | .varuint, d => ∃ x, IsVaruint x d
  | .float32, d => d.length = 4
  | .float64, d | .timestamp, d | .duration, d => d.length = 8
  | .bytes, d | .string, d => ∃ text, IsText text d
  | .object _ fields, d => FieldsInstance L fields d
  | .enum child _, d => child.Instance L d
  | .array child, d => ∃ n digits items, d = digits ++ items ∧ IsVaruint n digits ∧
      InTurn (child.Instance L) n.toNat items
  | .fixedArray arraySize child, d => InTurn (child.Instance L) arraySize.toNat d
  | .map child, d => ∃ n digits entries, d = digits ++ entries ∧ IsVaruint n digits ∧
      InTurn (fun d => ∃ key k v, d = k ++ v ∧ IsText key k ∧ L.key key ∧ child.Instance L v)
        n.toNat entries
  | .union children, d => ∃ index digits chosen, d = digits ++ chosen ∧ IsVaruint index digits ∧
      NthInstance L children index.toNat chosen

/-- An instance of each field in turn. -/
def FieldsInstance (L : Limits) : List Field → Bytes → Prop
  | [], d => d = []
  | .mk _ _ _ element _ :: fields, d =>
    ∃ first rest, d = first ++ rest ∧ element.Instance L first ∧ FieldsInstance L fields rest

/-- An instance of the alternative with the index. -/
def NthInstance (L : Limits) : List Element → ℕ → Bytes → Prop
  | [], _, _ => False
  | child :: _, 0, d => child.Instance L d
  | _ :: children, index + 1, d => NthInstance L children index d

end

/-! ### Limits -/

theorem InTurn.mono {P Q : Bytes → Prop} (h : ∀ d, P d → Q d) {n : ℕ} :
    ∀ {d : Bytes}, InTurn P n d → InTurn Q n d := by
  induction n with
  | zero => exact id
  | succ n ih =>
    rintro d ⟨first, rest, rfl, hfirst, hrest⟩
    exact ⟨first, rest, rfl, h first hfirst, ih hrest⟩

/-- One pair of limits within another. -/
structure Limits.Within (L M : Limits) : Prop where
  node : ∀ shape d, L.node shape d → M.node shape d
  key : ∀ key, L.key key → M.key key

variable {L M : Limits}

mutual

/-- What is within limits is within wider ones. -/
theorem Element.Instance.mono (hLM : L.Within M) : (element : Element) → (d : Bytes) →
    element.Instance L d → element.Instance M d
  | .mk _ _ _ shape, d, h => ⟨hLM.node shape d h.1, Shape.Instance.mono hLM shape d h.2⟩

theorem Shape.Instance.mono (hLM : L.Within M) : (shape : Shape) → (d : Bytes) →
    shape.Instance L d → shape.Instance M d
  | .null, _, h | .boolean, _, h | .fixedInt _, _, h | .fixedUInt _, _, h | .varint, _, h
  | .varuint, _, h | .float32, _, h | .float64, _, h | .timestamp, _, h | .duration, _, h
  | .bytes, _, h | .string, _, h => h
  | .object _ fields, d, h => FieldsInstance.mono hLM fields d h
  | .enum child _, d, h => Element.Instance.mono hLM child d h
  | .array child, _, h => by
    obtain ⟨n, digits, items, rfl, hn, hitems⟩ := h
    exact ⟨n, digits, items, rfl, hn, hitems.mono (Element.Instance.mono hLM child)⟩
  | .fixedArray _ child, _, h => InTurn.mono (Element.Instance.mono hLM child) h
  | .map child, _, h => by
    obtain ⟨n, digits, entries, rfl, hn, hentries⟩ := h
    refine ⟨n, digits, entries, rfl, hn, hentries.mono ?_⟩
    rintro d ⟨key, k, v, rfl, hk, hlimit, hv⟩
    exact ⟨key, k, v, rfl, hk, hLM.key key hlimit, Element.Instance.mono hLM child v hv⟩
  | .union children, _, h => by
    obtain ⟨index, digits, chosen, rfl, hindex, hchosen⟩ := h
    exact ⟨index, digits, chosen, rfl, hindex,
      NthInstance.mono hLM children index.toNat chosen hchosen⟩

theorem FieldsInstance.mono (hLM : L.Within M) : (fields : List Field) → (d : Bytes) →
    FieldsInstance L fields d → FieldsInstance M fields d
  | [], _, h => h
  | .mk _ _ _ element _ :: fields, _, h => by
    obtain ⟨first, rest, rfl, hfirst, hrest⟩ := h
    exact ⟨first, rest, rfl, Element.Instance.mono hLM element first hfirst,
      FieldsInstance.mono hLM fields rest hrest⟩

theorem NthInstance.mono (hLM : L.Within M) : (children : List Element) → (index : ℕ) →
    (d : Bytes) → NthInstance L children index d → NthInstance M children index d
  | child :: _, 0, d, h => Element.Instance.mono hLM child d h
  | _ :: children, index + 1, d, h => NthInstance.mono hLM children index d h

end

/-! ### Sizes -/

/-- The size of every instance of a type, where it is known. -/
def Shape.fixedSize : Shape → Option ℕ
  | .null => some 0
  | .boolean => some 1
  | .fixedInt intSize | .fixedUInt intSize => some intSize.toNat
  | .float32 => some 4
  | .float64 | .timestamp | .duration => some 8
  | .object _ fields => fieldsFixedSize fields
  | .enum child _ => child.maybeFixedSize
  | _ => none

mutual

/-- The elements have the sizes that go with their types. -/
def Element.Sized : Element → Prop
  | .mk _ _ maybeFixedSize shape => maybeFixedSize = shape.fixedSize ∧ shape.Sized

def Shape.Sized : Shape → Prop
  | .object _ fields => FieldsSized fields
  | .enum child _ | .array child | .fixedArray _ child | .map child => child.Sized
  | .union children => ElementsSized children
  | _ => True

def FieldsSized : List Field → Prop
  | [] => True
  | .mk _ _ _ element _ :: fields => element.Sized ∧ FieldsSized fields

def ElementsSized : List Element → Prop
  | [] => True
  | child :: children => child.Sized ∧ ElementsSized children

end

mutual

/-- All instances of an element of known size have it. -/
theorem Element.length_of_instance : (element : Element) → {n : ℕ} → {d : Bytes} →
    element.Sized → element.maybeFixedSize = some n → element.Instance L d → d.length = n
  | .mk _ _ _ shape, _, _, hsized, hn, h =>
    shape.length_of_instance hsized.2 (hsized.1.symm.trans hn) h.2

theorem Shape.length_of_instance : (shape : Shape) → {n : ℕ} → {d : Bytes} → shape.Sized →
    shape.fixedSize = some n → shape.Instance L d → d.length = n
  | .null, _, _, _, hn, h => by
    cases hn
    exact congrArg List.length h
  | .boolean, _, _, _, hn, h => by
    cases hn
    rcases h with rfl | rfl <;> rfl
  | .fixedInt _, _, _, _, hn, h | .fixedUInt _, _, _, _, hn, h | .float32, _, _, _, hn, h
  | .float64, _, _, _, hn, h | .timestamp, _, _, _, hn, h | .duration, _, _, _, hn, h => by
    cases hn
    exact h
  | .object _ fields, n, d, hsized, hn, h => by
    have hlen := lengthOfFieldsInstance fields (some 0) hsized hn h
    obtain ⟨a, ha, hlen⟩ := hlen
    cases ha
    omega
  | .enum child _, n, d, hsized, hn, h => child.length_of_instance hsized hn h

theorem lengthOfFieldsInstance : (fields : List Field) → (maybeSize : Option ℕ) → {n : ℕ} →
    {d : Bytes} → FieldsSized fields → fields.foldl addFieldSize maybeSize = some n →
    FieldsInstance L fields d → ∃ a, maybeSize = some a ∧ a + d.length = n
  | [], _, n, _, _, hn, h => ⟨n, hn, by rw [h]; rfl⟩
  | .mk _ _ _ element _ :: fields, maybeSize, n, _, hsized, hn, h => by
    obtain ⟨first, rest, rfl, hfirst, hrest⟩ := h
    obtain ⟨b, hb, hlen⟩ := lengthOfFieldsInstance fields _ hsized.2 hn hrest
    rw [addFieldSize] at hb
    cases hsize : element.maybeFixedSize with
    | none =>
      simp only [Field.element, hsize] at hb
      exact nomatch hb
    | some size =>
      simp only [Field.element, hsize, Option.map_eq_some_iff] at hb
      obtain ⟨a, ha, rfl⟩ := hb
      have hlength := element.length_of_instance hsized.1 hsize hfirst
      exact ⟨a, ha, by rw [List.length_append]; omega⟩

end

/-! ### Stepping over an instance -/

/-- No key of a map is longer than what `ReadString` reads. -/
def keysFit : Limits where
  key key := key.length ≤ Format.kMaxStringSize

theorem IsVaruint.read {x : UInt64} {ds : Bytes} (h : IsVaruint x ds) (s : Bytes) :
    readVaruint (ds ++ s) = (some x, s) := by
  rw [readVaruint_append h.1 h.2, UInt64.ofNat_toNat]

theorem IsVaruint.value_read {x : UInt64} {ds : Bytes} (h : IsVaruint x ds) (s : Bytes) :
    value (readVaruint (ds ++ s)) = .ok (x, s) := by
  rw [h.read]
  rfl

theorem IsText.ignore {text ds : Bytes} (h : IsText text ds) (s : Bytes)
    (hlen : (ds ++ s).length < 2 ^ 63) :
    (do
      let (size, s) ← value (readVaruint (ds ++ s))
      ignoreBytes (streamsize size) s) = .ok s := by
  obtain ⟨size, digits, hdigits, hsize, rfl⟩ := h
  rw [List.append_assoc] at hlen ⊢
  rw [hdigits.value_read]
  refine ignoreBytes_append hsize s ?_
  rw [List.length_append] at hlen
  omega

/-- A string that is not too long is read, whatever follows it. -/
theorem IsText.readString {text ds : Bytes} (h : IsText text ds)
    (hfits : text.length ≤ Format.kMaxStringSize) (s : Bytes) :
    ∃ data : Seq UInt8, data.val = text ∧ readString (ds ++ s) = .ok (some data, s) := by
  obtain ⟨size, digits, hdigits, hsize, rfl⟩ := h
  have hle : size.toNat ≤ (text ++ s).length := by
    rw [List.length_append]
    omega
  rw [Telemetry.readString, List.append_assoc, hdigits.read]
  dsimp only
  rw [if_neg (by omega), rawRead, decide_eq_true hle]
  refine ⟨_, ?_, by rw [List.drop_left' hsize.symm]⟩
  rw [List.take_left' hsize.symm, Seq.overwrite_of_length_eq (by rw [Seq.length_resize, hsize])]

/-- A string that `ReadString` reads is not too long. -/
theorem IsText.of_readString {text d s rest : Bytes} {data : Seq UInt8} (h : IsText text d)
    (hread : (do value (← Telemetry.readString (d ++ s))) = .ok (data, rest)) :
    text.length ≤ Format.kMaxStringSize ∧ data.val = text ∧ rest = s := by
  have hfits : text.length ≤ Format.kMaxStringSize := by
    by_contra hlong
    obtain ⟨size, digits, hdigits, hsize, rfl⟩ := h
    rw [List.append_assoc, Telemetry.readString, hdigits.read] at hread
    simp only [bind, Except.bind, if_pos (show size.toNat > Format.kMaxStringSize by omega)] at hread
    cases hread
  obtain ⟨data', rfl, hdata⟩ := h.readString hfits s
  rw [hdata] at hread
  obtain ⟨rfl, rfl⟩ := Prod.mk.inj (Except.ok.inj hread)
  exact ⟨hfits, rfl, rfl⟩

section Items

variable {P : Bytes → Prop} {ignore : Bytes → Except Error Bytes}

theorem InTurn.repeatIgnore
    (hignore : ∀ d s, P d → (d ++ s).length < 2 ^ 63 → ignore (d ++ s) = .ok s) {n : ℕ} :
    ∀ {d s : Bytes}, InTurn P n d → (d ++ s).length < 2 ^ 63 →
      repeatIgnore ignore n (d ++ s) = .ok s := by
  induction n with
  | zero =>
    rintro d s rfl _
    rfl
  | succ n ih =>
    rintro d s ⟨first, rest, rfl, hfirst, hrest⟩ hlen
    rw [List.append_assoc] at hlen ⊢
    rw [BinarySchemaParser.repeatIgnore, hignore first _ hfirst hlen]
    exact ih hrest (by rw [List.length_append] at hlen; omega)

theorem InTurn.length {m : ℕ} (h : ∀ d, P d → d.length = m) {n : ℕ} :
    ∀ {d : Bytes}, InTurn P n d → d.length = n * m := by
  induction n with
  | zero =>
    rintro d rfl
    rw [Nat.zero_mul, List.length_nil]
  | succ n ih =>
    rintro d ⟨first, rest, rfl, hfirst, hrest⟩
    rw [List.length_append, h first hfirst, ih hrest, Nat.succ_mul, Nat.add_comm]

/-- Both ways of `ignoreItems` step over the items. -/
theorem InTurn.ignoreItems {size : Option ℕ} {n : UInt64} {d s : Bytes}
    (hsize : ∀ m, size = some m → ∀ d, P d → d.length = m)
    (hignore : ∀ d s, P d → (d ++ s).length < 2 ^ 63 → ignore (d ++ s) = .ok s)
    (h : InTurn P n.toNat d) (hlen : (d ++ s).length < 2 ^ 63) :
    ignoreItems n size ignore (d ++ s) = .ok s := by
  cases size with
  | none => exact h.repeatIgnore hignore hlen
  | some m =>
    have hd := h.length (hsize m rfl)
    refine ignoreBytes_append ?_ s hlen
    rw [List.length_append] at hlen
    rw [UInt64.toNat_mul, UInt64.toNat_ofNat', Nat.mul_mod_mod, ← hd, Nat.mod_eq_of_lt (by omega)]

end Items

mutual

/-- **`Ignore` steps over an instance**, and not a byte further. -/
theorem Element.ignore_instance : (element : Element) → (d s : Bytes) → element.Sized →
    element.Instance keysFit d → (d ++ s).length < 2 ^ 63 → element.ignore (d ++ s) = .ok s
  | .mk name schema (some n) shape, d, s, hsized, h, hlen =>
    ignore_of_fixedSize (Element.length_of_instance (.mk name schema (some n) shape) hsized rfl h) s
  | .mk _ _ none shape, d, s, hsized, h, hlen => by
    rw [Element.ignore]
    exact shape.ignore_instance d s hsized.1.symm hsized.2 h.2 hlen

theorem Shape.ignore_instance : (shape : Shape) → (d s : Bytes) → shape.fixedSize = none →
    shape.Sized → shape.Instance keysFit d → (d ++ s).length < 2 ^ 63 →
    shape.ignore (d ++ s) = .ok s
  | .varint, d, s, _, _, h, _ | .varuint, d, s, _, _, h, _ => by
    obtain ⟨x, hx⟩ := h
    rw [Shape.ignore, hx.read]
  | .bytes, d, s, _, _, h, hlen | .string, d, s, _, _, h, hlen => by
    obtain ⟨text, htext⟩ := h
    rw [Shape.ignore]
    exact htext.ignore s hlen
  | .object _ fields, d, s, _, hsized, h, hlen => by
    rw [Shape.ignore]
    exact ignoreFieldsInstance fields d s hsized h hlen
  | .enum child _, d, s, _, hsized, h, hlen => by
    rw [Shape.ignore]
    exact child.ignore_instance d s hsized h hlen
  | .array child, d, s, _, hsized, h, hlen => by
    obtain ⟨n, digits, items, rfl, hn, hitems⟩ := h
    rw [List.append_assoc] at hlen ⊢
    rw [Shape.ignore, hn.value_read]
    exact hitems.ignoreItems (fun m hm d hd => child.length_of_instance hsized hm hd)
      (fun d s hd hlen => child.ignore_instance d s hsized hd hlen)
      (by rw [List.length_append] at hlen; omega)
  | .fixedArray _ child, d, s, _, hsized, h, hlen => by
    rw [Shape.ignore]
    exact InTurn.ignoreItems (fun m hm d hd => child.length_of_instance hsized hm hd)
      (fun d s hd hlen => child.ignore_instance d s hsized hd hlen) h hlen
  | .map child, d, s, _, hsized, h, hlen => by
    obtain ⟨n, digits, entries, rfl, hn, hentries⟩ := h
    rw [List.append_assoc] at hlen ⊢
    rw [Shape.ignore, hn.value_read]
    refine hentries.repeatIgnore ?_ (by rw [List.length_append] at hlen; omega)
    rintro d s ⟨key, k, v, rfl, hk, hfits, hv⟩ hlen
    rw [List.append_assoc] at hlen ⊢
    obtain ⟨data, -, hread⟩ := hk.readString hfits (v ++ s)
    rw [hread]
    exact child.ignore_instance v s hsized hv (by rw [List.length_append] at hlen; omega)
  | .union children, d, s, _, hsized, h, hlen => by
    obtain ⟨index, digits, chosen, rfl, hindex, hchosen⟩ := h
    obtain ⟨hlt, hignore⟩ := ignoreNthInstance children index.toNat chosen s hsized hchosen
      (by rw [List.length_append, List.length_append] at hlen; rw [List.length_append]; omega)
    rw [List.append_assoc, Shape.ignore, hindex.value_read]
    simp only [bind, Except.bind, if_neg (Nat.not_lt.mpr hlt.le)]
    exact hignore

theorem ignoreFieldsInstance : (fields : List Field) → (d s : Bytes) → FieldsSized fields →
    FieldsInstance keysFit fields d → (d ++ s).length < 2 ^ 63 →
    ignoreFields fields (d ++ s) = .ok s
  | [], d, s, _, h, _ => by
    rw [ignoreFields, h]
    rfl
  | .mk _ _ _ element _ :: fields, d, s, hsized, h, hlen => by
    obtain ⟨first, rest, rfl, hfirst, hrest⟩ := h
    rw [List.append_assoc] at hlen ⊢
    rw [ignoreFields, element.ignore_instance first (rest ++ s) hsized.1 hfirst hlen]
    exact ignoreFieldsInstance fields rest s hsized.2 hrest
      (by rw [List.length_append] at hlen; omega)

theorem ignoreNthInstance : (children : List Element) → (index : ℕ) → (d s : Bytes) →
    ElementsSized children → NthInstance keysFit children index d → (d ++ s).length < 2 ^ 63 →
    index < children.length ∧ ignoreNth children index (d ++ s) = .ok s
  | child :: _, 0, d, s, hsized, h, hlen => by
    rw [ignoreNth]
    exact ⟨Nat.succ_pos _, child.ignore_instance d s hsized.1 h hlen⟩
  | _ :: children, index + 1, d, s, hsized, h, hlen => by
    obtain ⟨hlt, hignore⟩ := ignoreNthInstance children index d s hsized.2 h hlen
    rw [ignoreNth]
    exact ⟨Nat.succ_lt_succ hlt, hignore⟩

end

end Mjlib.Telemetry.BinarySchemaParser
