import Mjlib.Telemetry.Equiv.BinarySchemaParser.Grammar
import Mjlib.Telemetry.Equiv.BinarySchemaParser.Ignore

/-!
# What `BinarySchemaParser` accepts

The parser reads a schema of the grammar whose oddities it lets through (`Element.reads`), and what it
has read is one (`derives_of_readType`).  So it accepts exactly the documented grammar on the strings
whose oddities are both, undocumented ones that it lets through and documented ones that it does not,
or neither (`accepts_iff`).
-/

namespace Mjlib.Telemetry.BinarySchemaParser

variable {allow : Oddity → Prop}

/-! ### Reading what derives -/

theorem Number.reads {x : UInt64} {d : Bytes} (h : Number allow x d) :
    Reads (fun s => value (readVaruint s)) d x := by
  rcases h with h | h
  · exact h.value_read
  · exact h.2

theorem Number.length_pos {x : UInt64} {d : Bytes} (h : Number allow x d) : 0 < d.length := by
  rcases h with h | h
  · exact h.1.length_pos
  · refine List.length_pos_iff.mpr ?_
    rintro rfl
    exact nomatch h.2 []

/-- A name that is not too long. -/
theorem Name.reads {name d : Bytes} (h : Name Oddity.IsAccepted name d) :
    ∃ data : Seq UInt8, data.val = name ∧ ∀ s, readString (d ++ s) = .ok (some data, s) := by
  obtain ⟨size, digits, hdigits, hsize, rfl, hfits⟩ := h
  replace hfits := hfits.resolve_right id
  have hread (s : Bytes) : readVaruint (digits ++ s) = (some size, s) := by
    have h : value (readVaruint (digits ++ s)) = .ok (size, s) := hdigits.reads s
    cases hfound : readVaruint (digits ++ s) with
    | mk found rest =>
      rw [hfound] at h
      cases found with
      | none => exact nomatch h
      | some x =>
        obtain ⟨rfl, rfl⟩ := Prod.mk.inj (Except.ok.inj h)
        rfl
  refine ⟨Seq.overwrite name (Seq.resize 0 size ⟨[], by simp⟩), ?_, fun s => ?_⟩
  · rw [Seq.overwrite_of_length_eq (by rw [Seq.length_resize, hsize])]
  · have hle : size.toNat ≤ (name ++ s).length := by
      rw [List.length_append]
      omega
    rw [readString, List.append_assoc, hread]
    dsimp only
    rw [if_neg (by omega), rawRead, decide_eq_true hle, List.drop_left' hsize.symm,
      List.take_left' hsize.symm]

theorem readAliases_each {aliases : List Bytes} : ∀ {d : Bytes},
    Each (Name Oddity.IsAccepted) aliases d → Reads (readAliases aliases.length) d aliases := by
  induction aliases with
  | nil =>
    rintro d rfl s
    rfl
  | cons first aliases ih =>
    rintro d ⟨n, rest, rfl, hname, hrest⟩ s
    obtain ⟨data, rfl, hread⟩ := hname.reads
    rw [List.append_assoc, List.length_cons, readAliases, hread]
    simp only [value, bind, Except.bind, ih hrest s]
    rfl

/-- The values of an enumeration that the parser reads. -/
theorem Element.Key.reads : (element : Element) → (key : UInt64) → (d : Bytes) →
    element.Key Oddity.IsAccepted key d → Reads element.readUIntLike d key
  | .mk _ _ _ (.fixedUInt intSize), key, d, h, s => by
    obtain ⟨hsize, hlen, rfl⟩ := h
    have hle : intSize.toNat ≤ (d ++ s).length := by
      rw [List.length_append]
      omega
    have hdecode : LittleEndian.decode d < 2 ^ (8 * intSize.toNat) := by
      rw [← hlen, pow_mul]
      exact LittleEndian.decode_lt d
    rw [IsIntSize] at hsize
    rw [readUIntLike, if_pos hsize, readScalar, if_pos hle, List.take_left' hlen,
      List.drop_left' hlen]
    simp only [value, bind, Except.bind, pure, Except.pure, BitVec.toNat_ofNat,
      Nat.mod_eq_of_lt hdecode]
  | .mk _ _ _ .varuint, key, d, h, s => by
    rw [readUIntLike]
    exact Number.reads h s
  | .mk _ _ _ (.enum child _), key, d, h, s => by
    rw [readUIntLike]
    exact Key.reads child key d h s
  | .mk _ _ _ (.fixedInt _), _, _, h, _ | .mk _ _ _ .varint, _, _, h, _ => h.1.elim

theorem readEnumItems_each {child : Element} {items : List (UInt64 × Bytes)} : ∀ {d : Bytes},
    Each (EnumItem Oddity.IsAccepted child) items d →
      Reads (readEnumItems child items.length) d items := by
  induction items with
  | nil =>
    rintro d rfl s
    rfl
  | cons item items ih =>
    rintro d ⟨first, rest, rfl, ⟨k, n, rfl, hkey, hname⟩, hrest⟩ s
    obtain ⟨data, hdata, hread⟩ := hname.reads
    rw [List.append_assoc, List.append_assoc, List.length_cons, readEnumItems,
      Element.Key.reads child item.1 k hkey]
    simp only [bind, Except.bind, hread, value, ih hrest s, hdata]
    rfl

/-! ### Fields -/

/-- What `readField` does once what is before the type has been read. -/
theorem FieldHead.readField {fieldFlags : UInt64} {name : Bytes} {aliases : List Bytes} {d : Bytes}
    (h : FieldHead Oddity.IsAccepted fieldFlags name aliases d)
    (readType : Bytes → Bytes → Except Error (Element × Bytes)) (s : Bytes) :
    readField readType (d ++ s) = (do
      let (element, s) ← readType name s
      let (defaultPresent, s) ← value (readU8 s)
      let (defaultValue, s) ← if defaultPresent = 1 then element.read s else pure ([], s)
      match element.shape with
      | .final => return (none, s)
      | _ => return (some (.mk fieldFlags name aliases element defaultValue), s)) := by
  obtain ⟨f, n, count, c, a, rfl, hflags, hname, hcount, hlen, haliases⟩ := h
  obtain ⟨data, rfl, hread⟩ := hname.reads
  have hf (s : Bytes) : value (readVaruint (f ++ s)) = .ok (fieldFlags, s) := hflags.reads s
  have hc (s : Bytes) : value (readVaruint (c ++ s)) = .ok (count, s) := hcount.reads s
  simp only [List.append_assoc]
  rw [BinarySchemaParser.readField, hf]
  simp only [bind, Except.bind, hread, value]
  rw [← value.eq_def, hc]
  simp only [hlen, readAliases_each haliases s] <;> rfl

/-- The default of a field, up to what follows it. -/
theorem Default.read {element : Element} {default d : Bytes}
    (h : Default Oddity.IsAccepted element default d) (s : Bytes) :
    (do
      let (defaultPresent, s) ← value (readU8 (d ++ s))
      if defaultPresent = 1 then element.read s else pure ([], s)) = .ok (default, s) := by
  have hskims (hskim : Skims element default) :
      (do
        let (defaultPresent, s) ← value (readU8 (1 :: default ++ s))
        if defaultPresent = 1 then element.read s else pure ([], s)) = .ok (default, s) := by
    show element.read (default ++ s) = _
    rw [Element.read, hskim s]
    simp only [bind, Except.bind, pure, Except.pure, recorded_append]
  rcases h with ⟨rfl, rfl⟩ | ⟨rfl, ⟨-, hskim⟩ | hskim⟩ | ⟨-, ⟨b, -, hb, rfl⟩, rfl⟩ | h
  · rfl
  · exact hskims (hskim.resolve_right id)
  · exact hskims hskim.2
  · show (if b = 1 then element.read s else pure ([], s)) = _
    rw [if_neg hb]
    rfl
  · exact h.1.elim

theorem Default.length_pos {element : Element} {default d : Bytes}
    (h : Default allow element default d) : 0 < d.length := by
  rcases h with ⟨rfl, -⟩ | ⟨rfl, -⟩ | ⟨-, ⟨b, -, -, rfl⟩, -⟩ | ⟨-, tag, hlen, ⟨-, rfl, -⟩ | ⟨-, rfl, -⟩⟩
  · exact Nat.one_pos
  · exact Nat.succ_pos _
  · exact Nat.one_pos
  · omega
  · rw [List.length_append]
    omega

theorem FieldHead.length_pos {fieldFlags : UInt64} {name : Bytes} {aliases : List Bytes} {d : Bytes}
    (h : FieldHead allow fieldFlags name aliases d) : 0 < d.length := by
  obtain ⟨f, n, count, c, a, rfl, hflags, -⟩ := h
  rw [List.length_append]
  exact Nat.add_pos_left hflags.length_pos _

/-! ### Types -/

theorem Shape.isFinal_iff {shape : Shape} : shape.IsFinal ↔ shape = .final := by
  cases shape <;> simp [Shape.IsFinal]

theorem Element.Derives.length_pos {element : Element} {name d : Bytes}
    (h : element.Derives allow name d) : 0 < d.length := by
  cases element with
  | mk name' schema size shape =>
    obtain ⟨-, -, -, digits, body, rfl, hdigits, -⟩ := h
    rw [List.length_append]
    exact Nat.add_pos_left hdigits.length_pos _

/-- A type that has a name. -/
theorem readType_of_code {depth : ℕ} {name digits body : Bytes} {code : Format.TypeCode}
    {shape : Shape} (hdigits : Number allow code.toUInt64 digits)
    (h : ∀ s, readShape (readType depth) name code (body ++ s) = .ok (shape, shape.fixedSize, s)) :
    Reads (readType (depth + 1) name) (digits ++ body)
      (.mk name (digits ++ body) shape.fixedSize shape) := by
  intro s
  have hle : ¬code.toUInt64 > Format.kLastType.toUInt64 :=
    UInt64.not_lt.mpr (Format.TypeCode.toUInt64_le code)
  have hread : value (readVaruint (digits ++ (body ++ s))) = .ok (code.toUInt64, body ++ s) :=
    hdigits.reads (body ++ s)
  have hrec := recorded_append (digits ++ body) s
  rw [List.append_assoc] at hrec ⊢
  rw [readType, hread]
  simp only [bind, Except.bind, hle, if_false, pure, Except.pure,
    Format.TypeCode.ofUInt64_toUInt64, h]
  exact congrArg (fun schema => Except.ok (Element.mk name schema shape.fixedSize shape, s)) hrec

/-- A type that has none. -/
theorem readType_of_unnamed {depth : ℕ} {name digits : Bytes} {type : UInt64}
    (hdigits : Number allow type digits) (hgt : 10 < type) (hlt : type < 16) :
    Reads (readType (depth + 1) name) digits (.mk name digits none (.unnamed type)) := by
  intro s
  have hread : value (readVaruint (digits ++ s)) = .ok (type, s) := hdigits.reads s
  have hle : ¬type > Format.kLastType.toUInt64 := by
    rw [gt_iff_lt, UInt64.not_lt]
    exact UInt64.le_trans (UInt64.le_of_lt hlt) (by decide)
  have hcode : Format.TypeCode.ofUInt64 type = none := by
    have hcases : type = 11 ∨ type = 12 ∨ type = 13 ∨ type = 14 ∨ type = 15 := by
      rw [UInt64.lt_iff_toNat_lt] at hgt hlt
      simp only [← UInt64.toNat_inj, UInt64.reduceToNat] at hgt hlt ⊢
      omega
    rcases hcases with rfl | rfl | rfl | rfl | rfl <;> rfl
  rw [readType, hread]
  simp only [bind, Except.bind, hle, if_false, pure, Except.pure, hcode, recorded_append]

theorem readType_final {depth : ℕ} {name d : Bytes} (h : Number allow 0 d) :
    Reads (readType (depth + 1) name) d (finalElement name d) := by
  have hread := @readType_of_code allow depth name d [] .kFinal .final h fun s => rfl
  rw [List.append_nil] at hread
  exact hread

/-- A field, or the final one, from its three parts. -/
theorem readField_of_head {fieldFlags : UInt64} {name : Bytes} {aliases : List Bytes}
    {head t v s default : Bytes} {element : Element}
    (h : FieldHead Oddity.IsAccepted fieldFlags name aliases head) {depth : ℕ}
    (htype : Reads (readType depth name) t element)
    (hdefault : Default Oddity.IsAccepted element default v) :
    readField (readType depth) (head ++ (t ++ (v ++ s))) =
      match element.shape with
      | .final => .ok (none, s)
      | _ => .ok (some (.mk fieldFlags name aliases element default), s) := by
  have hread := hdefault.read s
  rw [h.readField, htype (v ++ s)]
  simp only [bind, Except.bind] at hread ⊢
  cases hpresent : value (readU8 (v ++ s)) with
  | error e =>
    rw [hpresent] at hread
    cases hread
  | ok r =>
    rw [hpresent] at hread
    dsimp only at hread ⊢
    split_ifs at hread ⊢
    · rw [hread]
      rfl
    · obtain ⟨rfl, rfl⟩ := Prod.mk.inj (Except.ok.inj hread)
      rfl

mutual

/-- **The parser reads what derives** with the oddities that it lets through. -/
theorem Element.reads : (element : Element) → (name d : Bytes) → (depth : ℕ) → d.length < depth →
    element.Derives Oddity.IsAccepted name d → Reads (readType depth name) d element
  | _, _, _, 0, hlen, _ => absurd hlen (Nat.not_lt_zero _)
  | .mk name' schema size shape, name, d, depth + 1, hlen, h => by
    obtain ⟨rfl, rfl, rfl, digits, body, rfl, hdigits, hshape⟩ := h
    have hpos := hdigits.length_pos
    rw [List.length_append] at hlen
    rcases shape.reads name' body depth (by omega) hshape with
      ⟨code, hcode, hread⟩ | ⟨type, rfl, hgt, hlt, rfl⟩
    · exact readType_of_code (hcode ▸ hdigits) hread
    · rw [List.append_nil] at *
      exact readType_of_unnamed hdigits hgt hlt

theorem Shape.reads : (shape : Shape) → (name body : Bytes) → (depth : ℕ) → body.length < depth →
    shape.Derives Oddity.IsAccepted name body →
    (∃ code : Format.TypeCode, shape.code = code.toUInt64 ∧
      ∀ s, readShape (readType depth) name code (body ++ s) = .ok (shape, shape.fixedSize, s)) ∨
    ∃ type, shape = .unnamed type ∧ 10 < type ∧ type < 16 ∧ body = []
  | .final, _, _, _, _, ⟨_, h⟩ => .inl ⟨.kFinal, rfl, fun s => by rw [h]; rfl⟩
  | .null, _, _, _, _, h => .inl ⟨.kNull, rfl, fun s => by rw [h]; rfl⟩
  | .boolean, _, _, _, _, h => .inl ⟨.kBoolean, rfl, fun s => by rw [h]; rfl⟩
  | .varint, _, _, _, _, h => .inl ⟨.kVarint, rfl, fun s => by rw [h]; rfl⟩
  | .varuint, _, _, _, _, h => .inl ⟨.kVaruint, rfl, fun s => by rw [h]; rfl⟩
  | .float32, _, _, _, _, h => .inl ⟨.kFloat32, rfl, fun s => by rw [h]; rfl⟩
  | .float64, _, _, _, _, h => .inl ⟨.kFloat64, rfl, fun s => by rw [h]; rfl⟩
  | .bytes, _, _, _, _, h => .inl ⟨.kBytes, rfl, fun s => by rw [h]; rfl⟩
  | .string, _, _, _, _, h => .inl ⟨.kString, rfl, fun s => by rw [h]; rfl⟩
  | .timestamp, _, _, _, _, h => .inl ⟨.kTimestamp, rfl, fun s => by rw [h]; rfl⟩
  | .duration, _, _, _, _, h => .inl ⟨.kDuration, rfl, fun s => by rw [h]; rfl⟩
  | .fixedInt _, _, _, _, _, ⟨h, _⟩ => .inl ⟨.kFixedInt, rfl, fun s => by rw [h]; rfl⟩
  | .fixedUInt _, _, _, _, _, ⟨h, _⟩ => .inl ⟨.kFixedUInt, rfl, fun s => by rw [h]; rfl⟩
  | .unnamed type, _, _, _, _, ⟨_, hgt, hlt, h⟩ => .inr ⟨type, rfl, hgt, hlt, h⟩
  | .object objectFlags fields, name, body, depth, hlen, h => by
    obtain ⟨f, rest, rfl, hflags, hfields⟩ := h
    rcases hflags with ⟨hflags, -⟩ | hflags
    · refine .inl ⟨.kObject, rfl, fun s => ?_⟩
      rw [List.length_append] at hlen
      have hf : value (readVaruint (f ++ (rest ++ s))) = .ok (objectFlags, rest ++ s) :=
        hflags.reads (rest ++ s)
      rw [readShape, List.append_assoc, hf]
      simp only [bind, Except.bind, readsFields fields rest depth ((rest ++ s).length + 1) s
        (by omega) (by rw [List.length_append]; omega) hfields]
      rfl
    · exact hflags.1.elim
  | .enum child items, name, body, depth, hlen, h => by
    obtain ⟨c, nvalues, n, i, rfl, hchild, -, hn, hlength, hitems⟩ := h
    refine .inl ⟨.kEnum, rfl, fun s => ?_⟩
    rw [List.length_append] at hlen
    have hread (s : Bytes) : value (readVaruint (n ++ s)) = .ok (nvalues, s) := hn.reads s
    rw [readShape, List.append_assoc, child.reads name c depth (by omega) hchild]
    simp only [bind, Except.bind, List.append_assoc, hread, hlength, readEnumItems_each hitems s]
    rfl
  | .array child, name, body, depth, hlen, h => by
    refine .inl ⟨.kArray, rfl, fun s => ?_⟩
    rw [readShape, child.reads name body depth hlen h]
    rfl
  | .map child, name, body, depth, hlen, h => by
    refine .inl ⟨.kMap, rfl, fun s => ?_⟩
    rw [readShape, child.reads name body depth hlen h]
    rfl
  | .fixedArray arraySize child, name, body, depth, hlen, h => by
    obtain ⟨n, c, rfl, hn, hchild⟩ := h
    refine .inl ⟨.kFixedArray, rfl, fun s => ?_⟩
    rw [List.length_append] at hlen
    have hread (s : Bytes) : value (readVaruint (n ++ s)) = .ok (arraySize, s) := hn.reads s
    rw [readShape, List.append_assoc, hread]
    simp only [bind, Except.bind, child.reads name c depth (by omega) hchild s]
    rfl
  | .union children, name, body, depth, hlen, h => by
    refine .inl ⟨.kUnion, rfl, fun s => ?_⟩
    rw [readShape, readsChildren children name body depth ((body ++ s).length + 1) s hlen
      (by rw [List.length_append]; omega) h]
    rfl

theorem readsFields : (fields : List Field) → (d : Bytes) → (depth n : ℕ) → (s : Bytes) →
    d.length < depth → d.length < n → FieldsDerive Oddity.IsAccepted fields d →
    readFields (readType depth) n (d ++ s) = .ok (fields, s)
  | [], d, depth, n, s, hdepth, hn, h => by
    obtain ⟨depth, rfl⟩ : ∃ m, depth = m + 1 := ⟨depth - 1, by omega⟩
    obtain ⟨n, rfl⟩ : ∃ m, n = m + 1 := ⟨n - 1, by omega⟩
    obtain ⟨fieldFlags, name, aliases, head, t, v, rfl, hhead, ht, hv⟩ := h
    rw [List.append_assoc, List.append_assoc]
    exact readFields_final (readField_of_head hhead (readType_final ht) hv)
  | .mk fieldFlags name aliases element default :: fields, d, depth, n, s, hdepth, hn, h => by
    obtain ⟨n, rfl⟩ : ∃ m, n = m + 1 := ⟨n - 1, by omega⟩
    obtain ⟨head, t, v, rest, rfl, hhead, htype, hfinal, hdefault, hrest⟩ := h
    have hpos := hhead.length_pos
    simp only [List.length_append] at hdepth hn
    refine readFields_cons ?_ (readsFields fields rest depth n s (by omega) (by omega) hrest)
    simp only [List.append_assoc]
    rw [readField_of_head hhead (element.reads name t depth (by omega) htype) hdefault]
    cases hshape : element.shape with
    | final => exact absurd (Shape.isFinal_iff.mpr hshape) hfinal
    | _ => rfl

theorem readsChildren : (children : List Element) → (name d : Bytes) → (depth n : ℕ) →
    (s : Bytes) → d.length < depth → d.length < n →
    ChildrenDerive Oddity.IsAccepted children name d →
    readUnion (readType depth) name n (d ++ s) = .ok (children, s)
  | [], name, d, depth, n, s, hdepth, hn, h => by
    obtain ⟨depth, rfl⟩ : ∃ m, depth = m + 1 := ⟨depth - 1, by omega⟩
    obtain ⟨n, rfl⟩ : ∃ m, n = m + 1 := ⟨n - 1, by omega⟩
    exact readUnion_final (readType_final h s) rfl
  | child :: children, name, d, depth, n, s, hdepth, hn, h => by
    obtain ⟨n, rfl⟩ : ∃ m, n = m + 1 := ⟨n - 1, by omega⟩
    obtain ⟨first, rest, rfl, hfirst, hfinal, hrest⟩ := h
    rw [List.length_append] at hdepth hn
    have hpos := hfirst.length_pos
    rw [List.append_assoc]
    exact readUnion_cons (child.reads name first depth (by omega) hfirst (rest ++ s))
      (fun h => hfinal (Shape.isFinal_iff.mpr h))
      (readsChildren children name rest depth n s (by omega) (by omega) hrest)

end

/-! ### What has been read -/

theorem readVaruintLoop_cut : ∀ {s rest : Bytes} {result : UInt64} {position : ℕ} {x : UInt64},
    readVaruintLoop result position s = (some x, rest) →
    ∃ d, s = d ++ rest ∧ ∀ s, readVaruintLoop result position (d ++ s) = (some x, s) := by
  intro s
  induction s with
  | nil => intro rest result position x h; exact nomatch h
  | cons b s ih =>
    intro rest result position x h
    rw [readVaruintLoop] at h
    split_ifs at h with hb
    · obtain ⟨d, rfl, hd⟩ := ih h
      refine ⟨b :: d, rfl, fun s => ?_⟩
      rw [List.cons_append, readVaruintLoop, if_pos hb, hd]
    · obtain ⟨hx, rfl⟩ := Prod.mk.inj h
      refine ⟨[b], rfl, fun s => ?_⟩
      rw [List.singleton_append, readVaruintLoop, if_neg hb, hx]

theorem readVaruintLoop_none : ∀ {s rest : Bytes} {result : UInt64} {position : ℕ},
    readVaruintLoop result position s = (none, rest) → rest = [] := by
  intro s
  induction s with
  | nil =>
    intro rest result position h
    exact (Prod.mk.inj h).2.symm
  | cons b s ih =>
    intro rest result position h
    rw [readVaruintLoop] at h
    split_ifs at h
    · exact ih h
    · cases (Prod.mk.inj h).1

theorem number_of_readVaruint {s rest : Bytes} {x : UInt64}
    (h : value (readVaruint s) = .ok (x, rest)) :
    ∃ d, s = d ++ rest ∧ Number Oddity.IsAccepted x d := by
  cases hfound : readVaruint s with
  | mk found rest' =>
    rw [hfound] at h
    cases found with
    | none => exact nomatch h
    | some x' =>
      obtain ⟨rfl, rfl⟩ := Prod.mk.inj (Except.ok.inj h)
      obtain ⟨d, rfl, hd⟩ := readVaruintLoop_cut hfound
      refine ⟨d, rfl, .inr ⟨trivial, fun s => ?_⟩⟩
      exact congrArg value (hd s)

theorem eq_cons_of_readU8 {s rest : Bytes} {b : UInt8} (h : value (readU8 s) = .ok (b, rest)) :
    s = b :: rest := by
  cases s with
  | nil => exact nomatch h
  | cons c s =>
    obtain ⟨rfl, rfl⟩ := Prod.mk.inj (Except.ok.inj h)
    rfl

theorem name_of_readString {s rest : Bytes} {r : Option (Seq UInt8) × Bytes} {data : Seq UInt8}
    (h : readString s = .ok r) (hr : value r = .ok (data, rest)) :
    ∃ d, s = d ++ rest ∧ Name Oddity.IsAccepted data.val d := by
  cases hfound : readVaruint s with
  | mk found tail =>
    rw [readString, hfound] at h
    cases found with
    | none =>
      cases h
      cases hr
    | some size =>
      dsimp only at h
      split_ifs at h with hsize
      have hvalue : value (readVaruint s) = .ok (size, tail) := by
        rw [hfound]
        rfl
      obtain ⟨digits, rfl, hdigits⟩ := number_of_readVaruint hvalue
      by_cases hle : size.toNat ≤ tail.length
      · rw [rawRead, decide_eq_true hle] at h
        cases h
        obtain ⟨rfl, rfl⟩ := Prod.mk.inj (Except.ok.inj hr)
        have hlen : (tail.take size.toNat).length = size.toNat := List.length_take_of_le hle
        have hval : (Seq.overwrite (tail.take size.toNat) (Seq.resize 0 size ⟨[], by simp⟩)).val
            = tail.take size.toNat :=
          Seq.overwrite_of_length_eq (by rw [Seq.length_resize, hlen])
        refine ⟨digits ++ tail.take size.toNat, ?_, size, digits, hdigits, ?_, ?_, .inl ?_⟩
        · rw [List.append_assoc, List.take_append_drop]
        · rw [hval, hlen]
        · rw [hval]
        · rw [hval, hlen]
          exact Nat.not_lt.mp hsize
      · rw [rawRead, decide_eq_false hle] at h
        cases h
        cases hr

/-- No string where the data end in it. -/
theorem readString_none {s rest : Bytes} (h : readString s = .ok (none, rest)) : rest = [] := by
  cases hfound : readVaruint s with
  | mk found tail =>
    rw [readString, hfound] at h
    cases found with
    | none =>
      cases h
      exact readVaruintLoop_none hfound
    | some size =>
      dsimp only at h
      split_ifs at h
      by_cases hle : size.toNat ≤ tail.length
      · rw [rawRead, decide_eq_true hle] at h
        cases h
      · rw [rawRead, decide_eq_false hle] at h
        cases h
        exact List.drop_eq_nil_of_le (Nat.not_le.mp hle).le

theorem each_of_readAliases {n : ℕ} : ∀ {s rest : Bytes} {aliases : List Bytes},
    readAliases n s = .ok (aliases, rest) →
    n = aliases.length ∧ ∃ d, s = d ++ rest ∧ Each (Name Oddity.IsAccepted) aliases d := by
  induction n with
  | zero =>
    intro s rest aliases h
    obtain ⟨rfl, rfl⟩ := Prod.mk.inj (Except.ok.inj h)
    exact ⟨rfl, [], rfl, rfl⟩
  | succ n ih =>
    intro s rest aliases h
    obtain ⟨r, hr, h⟩ := bind_eq_ok.mp h
    obtain ⟨⟨data, s₁⟩, hdata, h⟩ := bind_eq_ok.mp h
    obtain ⟨⟨aliases', s₂⟩, haliases, h⟩ := bind_eq_ok.mp h
    obtain ⟨rfl, rfl⟩ := Prod.mk.inj (Except.ok.inj h)
    obtain ⟨d₁, rfl, hname⟩ := name_of_readString hr hdata
    obtain ⟨rfl, d₂, rfl, heach⟩ := ih haliases
    exact ⟨rfl, d₁ ++ d₂, (List.append_assoc _ _ _).symm, d₁, d₂, rfl, hname, heach⟩

theorem key_of_readUIntLike (element : Element) {s rest : Bytes} {key : UInt64}
    (h : element.readUIntLike s = .ok (key, rest)) :
    ∃ d, s = d ++ rest ∧ element.Key Oddity.IsAccepted key d := by
  fun_induction Element.readUIntLike element s with
  | case1 _ _ _ intSize s hsize =>
    obtain ⟨⟨x, s₁⟩, hx, h⟩ := bind_eq_ok.mp h
    rw [readScalar] at hx
    split_ifs at hx with hle
    · obtain ⟨rfl, rfl⟩ := Prod.mk.inj (Except.ok.inj hx)
      obtain ⟨rfl, rfl⟩ := Prod.mk.inj (Except.ok.inj h)
      have hlen : (s.take intSize.toNat).length = intSize.toNat := List.length_take_of_le hle
      refine ⟨s.take intSize.toNat, (List.take_append_drop _ _).symm, hsize, hlen, ?_⟩
      have hdecode : LittleEndian.decode (s.take intSize.toNat) < 2 ^ (8 * intSize.toNat) := by
        have hlt := LittleEndian.decode_lt (s.take intSize.toNat)
        rw [hlen] at hlt
        rw [pow_mul]
        exact hlt
      rw [BitVec.toNat_ofNat, Nat.mod_eq_of_lt hdecode]
    · cases hx
  | case2 => cases h
  | case3 => exact number_of_readVaruint h
  | case4 _ _ _ s child _ ih => exact ih h
  | case5 => cases h

theorem each_of_readEnumItems {child : Element} {n : ℕ} : ∀ {s rest : Bytes}
    {items : List (UInt64 × Bytes)}, readEnumItems child n s = .ok (items, rest) →
    n = items.length ∧ ∃ d, s = d ++ rest ∧ Each (EnumItem Oddity.IsAccepted child) items d := by
  induction n with
  | zero =>
    intro s rest items h
    obtain ⟨rfl, rfl⟩ := Prod.mk.inj (Except.ok.inj h)
    exact ⟨rfl, [], rfl, rfl⟩
  | succ n ih =>
    intro s rest items h
    obtain ⟨⟨key, s₁⟩, hkey, h⟩ := bind_eq_ok.mp h
    obtain ⟨r, hr, h⟩ := bind_eq_ok.mp h
    obtain ⟨⟨data, s₂⟩, hdata, h⟩ := bind_eq_ok.mp h
    obtain ⟨⟨items', s₃⟩, hitems, h⟩ := bind_eq_ok.mp h
    obtain ⟨rfl, rfl⟩ := Prod.mk.inj (Except.ok.inj h)
    obtain ⟨d₁, rfl, hd₁⟩ := key_of_readUIntLike child hkey
    obtain ⟨d₂, rfl, hd₂⟩ := name_of_readString hr hdata
    obtain ⟨rfl, d₃, rfl, heach⟩ := ih hitems
    refine ⟨rfl, d₁ ++ d₂ ++ d₃, by simp only [List.append_assoc], d₁ ++ d₂, d₃, rfl, ?_, heach⟩
    exact ⟨d₁, d₂, rfl, hd₁, hd₂⟩

/-! ### What `Ignore` has stepped over -/

/-- What `ignore` has stepped over it steps over wherever it comes, if something was behind it: at
the end of the data, it may have been cut off. -/
def Cuts (ignore : Bytes → Except Error Bytes) : Prop :=
  ∀ s rest, ignore s = .ok rest → rest ≠ [] →
    ∃ d, s = d ++ rest ∧ ∀ s, ignore (d ++ s) = .ok s

namespace Cuts

variable {f g : Bytes → Except Error Bytes}

theorem ok : Cuts fun s => .ok s := by
  intro s rest h _
  obtain rfl := Except.ok.inj h
  exact ⟨[], rfl, fun _ => rfl⟩

theorem error (e : Error) : Cuts fun _ => .error e := fun _ _ h _ => nomatch h

/-- A number of bytes. -/
theorem bytes (size : ℤ) : Cuts (ignoreBytes size) := by
  intro s rest h hne
  rw [ignoreBytes] at h
  split_ifs at h with hsize
  obtain rfl := Except.ok.inj h
  have hlt : size.toNat < s.length := by
    by_contra hle
    exact hne (List.drop_eq_nil_of_le (Nat.not_lt.mp hle))
  refine ⟨s.take size.toNat, (List.take_append_drop _ _).symm, fun t => ?_⟩
  rw [ignoreBytes, if_neg hsize, List.drop_left' (List.length_take_of_le hlt.le)]

/-- A number, and what it says. -/
theorem number {f : UInt64 → Bytes → Except Error Bytes} (hf : ∀ x, Cuts (f x)) :
    Cuts (fun s => do
      let (x, s) ← value (readVaruint s)
      f x s) := by
  intro s rest h hne
  obtain ⟨⟨x, s₁⟩, hx, hrest⟩ := bind_eq_ok.mp h
  obtain ⟨d₁, rfl, hd₁⟩ := number_of_readVaruint hx
  obtain ⟨d₂, rfl, hd₂⟩ := hf x s₁ rest hrest hne
  refine ⟨d₁ ++ d₂, (List.append_assoc _ _ _).symm, fun s => ?_⟩
  have hread : value (readVaruint (d₁ ++ (d₂ ++ s))) = .ok (x, d₂ ++ s) := hd₁.reads (d₂ ++ s)
  simp only [List.append_assoc, hread, bind, Except.bind]
  exact hd₂ s

theorem bind (hf : Cuts f) (hg : Cuts g) (hnil : ∀ rest, g [] = .ok rest → rest = []) :
    Cuts fun s => f s >>= g := by
  intro s rest h hne
  obtain ⟨s₁, hs₁, hrest⟩ := bind_eq_ok.mp h
  have hne₁ : s₁ ≠ [] := by
    rintro rfl
    exact hne (hnil rest hrest)
  obtain ⟨d₁, rfl, hd₁⟩ := hf s s₁ hs₁ hne₁
  obtain ⟨d₂, rfl, hd₂⟩ := hg s₁ rest hrest hne
  refine ⟨d₁ ++ d₂, (List.append_assoc _ _ _).symm, fun s => ?_⟩
  show f (d₁ ++ d₂ ++ s) >>= g = .ok s
  rw [List.append_assoc, hd₁]
  exact hd₂ s

theorem repeated (hf : Cuts f) (hsuffix : ∀ s rest, f s = .ok rest → rest <:+ s) (n : ℕ) :
    Cuts (repeatIgnore f n) := by
  induction n with
  | zero => exact ok
  | succ n ih =>
    refine hf.bind ih fun rest h => ?_
    exact List.suffix_nil.mp (repeatIgnore_eq_ok hsuffix h)

theorem items (hf : Cuts f) (hsuffix : ∀ s rest, f s = .ok rest → rest <:+ s) (n : UInt64)
    (size : Option ℕ) : Cuts (ignoreItems n size f) := by
  cases size with
  | none => exact hf.repeated hsuffix n.toNat
  | some size => exact bytes _

/-- The key of a map, and then the element. -/
theorem key (hf : Cuts f) (hsuffix : ∀ s rest, f s = .ok rest → rest <:+ s) :
    Cuts (fun s => do f (← readString s).2) := by
  intro s rest h hne
  obtain ⟨⟨found, s₁⟩, hkey, hrest⟩ := bind_eq_ok.mp h
  have hne₁ : s₁ ≠ [] := by
    rintro rfl
    exact hne (List.suffix_nil.mp (hsuffix [] rest hrest))
  obtain ⟨data, hdata⟩ : ∃ data, found = some data := by
    cases found with
    | some data => exact ⟨data, rfl⟩
    | none => exact absurd (readString_none hkey) hne₁
  subst hdata
  have hvalue : value (some data, s₁) = .ok (data, s₁) := rfl
  obtain ⟨d₁, rfl, hd₁⟩ := name_of_readString hkey hvalue
  obtain ⟨d₂, rfl, hd₂⟩ := hf s₁ rest hrest hne
  obtain ⟨data', -, hread⟩ := hd₁.reads
  refine ⟨d₁ ++ d₂, (List.append_assoc _ _ _).symm, fun s => ?_⟩
  show (readString (d₁ ++ d₂ ++ s) >>= fun r => f r.2) = .ok s
  rw [List.append_assoc, hread]
  exact hd₂ s

end Cuts

mutual

theorem Element.ignore_cuts : (element : Element) → Cuts element.ignore
  | .mk _ _ (some size) _ => Cuts.bytes size
  | .mk _ _ none shape => shape.ignore_cuts

theorem Shape.ignore_cuts : (shape : Shape) → Cuts shape.ignore
  | .final | .null | .boolean | .fixedInt _ | .fixedUInt _ | .float32 | .float64 | .timestamp
  | .duration => Cuts.error _
  | .varint | .varuint => by
    intro s rest h hne
    cases hfound : readVaruint s with
    | mk found tail =>
      simp only [Shape.ignore, hfound] at h
      obtain rfl := Except.ok.inj h
      cases found with
      | none => exact absurd (readVaruintLoop_none hfound) hne
      | some x =>
        obtain ⟨d, rfl, hd⟩ := readVaruintLoop_cut hfound
        refine ⟨d, rfl, fun s => ?_⟩
        rw [Shape.ignore, readVaruint, hd]
  | .bytes | .string => Cuts.number fun size => Cuts.bytes (streamsize size)
  | .object _ fields => ignoreFields_cuts fields
  | .enum child _ => child.ignore_cuts
  | .array child =>
    Cuts.number fun n => child.ignore_cuts.items child.ignore_suffix n child.maybeFixedSize
  | .fixedArray n child => child.ignore_cuts.items child.ignore_suffix n child.maybeFixedSize
  | .map child => by
    refine Cuts.number (f := fun n => repeatIgnore (fun s => do child.ignore (← readString s).2)
      n.toNat) fun n => (child.ignore_cuts.key child.ignore_suffix).repeated ?_ n.toNat
    intro s rest h
    obtain ⟨r, hr, hrest⟩ := bind_eq_ok.mp h
    exact (child.ignore_suffix r.2 rest hrest).trans (readString_eq_ok hr)
  | .union children => by
    refine Cuts.number (f := fun index s => do
      if index.toNat > children.length then throw (.invalidUnionIndex index)
      ignoreNth children index.toNat s) fun index => ?_
    intro s rest h hne
    split_ifs at h with hindex
    · exact nomatch h
    · obtain ⟨d, rfl, hd⟩ := ignoreNth_cuts children index.toNat s rest h hne
      refine ⟨d, rfl, fun s => ?_⟩
      simp only [if_neg hindex]
      exact hd s
  | .unnamed _ => Cuts.ok

theorem ignoreFields_cuts : (fields : List Field) → Cuts (ignoreFields fields)
  | [] => Cuts.ok
  | .mk _ _ _ element _ :: fields => element.ignore_cuts.bind (ignoreFields_cuts fields)
    fun rest h => List.suffix_nil.mp (ignoreFields_suffix fields [] rest h)

theorem ignoreNth_cuts : (children : List Element) → (index : ℕ) → Cuts (ignoreNth children index)
  | [], _ => Cuts.error _
  | child :: _, 0 => child.ignore_cuts
  | _ :: children, index + 1 => ignoreNth_cuts children index

end

/-! ### What the parser has read -/

/-- How `readField` tells the final field from the others. -/
theorem field_of_shape {shape : Shape} {field : Field} {found : Option Field} {s rest : Bytes}
    (h : (match shape with
      | .final => pure (none, s)
      | _ => pure (some field, s) : Except Error (Option Field × Bytes)) = .ok (found, rest)) :
    s = rest ∧ (found = none ∧ shape.IsFinal ∨ found = some field ∧ ¬ shape.IsFinal) := by
  cases shape with
  | final =>
    obtain ⟨rfl, rfl⟩ := Prod.mk.inj (Except.ok.inj h)
    exact ⟨rfl, .inl ⟨rfl, trivial⟩⟩
  | _ =>
    obtain ⟨rfl, rfl⟩ := Prod.mk.inj (Except.ok.inj h)
    exact ⟨rfl, .inr ⟨rfl, id⟩⟩

theorem readFields_nil {readType : Bytes → Bytes → Except Error (Element × Bytes)} {n : ℕ}
    {r : List Field × Bytes} : readFields readType n [] ≠ .ok r := by
  cases n <;> exact nofun

theorem Element.Derives.eq_final {element : Element} {name d : Bytes}
    (h : element.Derives allow name d) (hfinal : element.shape.IsFinal) :
    element = finalElement name d ∧ Number allow 0 d := by
  cases element with
  | mk name' schema size shape =>
    cases Shape.isFinal_iff.mp hfinal
    obtain ⟨rfl, rfl, rfl, digits, body, rfl, hdigits, -, rfl⟩ := h
    rw [List.append_nil] at *
    exact ⟨rfl, hdigits⟩

/-- The final field has no default. -/
theorem Default.eq_nil_of_final {name t default d : Bytes}
    (h : Default Oddity.IsAccepted (finalElement name t) default d) : default = [] := by
  rcases h with ⟨-, h⟩ | ⟨-, ⟨-, h⟩ | ⟨-, h⟩⟩ | ⟨-, -, h⟩ | h
  · exact h
  · exact nomatch h.resolve_right id []
  · exact nomatch h []
  · exact h
  · exact h.1.elim

/-- A final element has no instance to step over. -/
theorem Element.Derives.ignore_final {element : Element} {name d s rest : Bytes}
    (h : element.Derives allow name d) (hfinal : element.shape.IsFinal) :
    element.ignore s ≠ .ok rest := by
  cases element with
  | mk name' schema size shape =>
    cases Shape.isFinal_iff.mp hfinal
    obtain ⟨-, -, rfl, -⟩ := h
    exact nofun

section

variable {depth : ℕ}
  -- `readType` inside the type, the induction hypothesis on the depth
  (hread : ∀ {name s rest : Bytes} {element : Element},
    readType depth name s = .ok (element, rest) →
    ∃ d, s = d ++ rest ∧ element.Derives Oddity.IsAccepted name d)

include hread

/-- A field, or the final one, if something was behind it. -/
theorem derives_of_readField {s rest : Bytes} {field : Option Field}
    (h : readField (readType depth) s = .ok (field, rest)) (hne : field = none ∨ rest ≠ []) :
    ∃ fieldFlags name aliases element default head t v, s = head ++ (t ++ (v ++ rest)) ∧
      FieldHead Oddity.IsAccepted fieldFlags name aliases head ∧
      element.Derives Oddity.IsAccepted name t ∧ Default Oddity.IsAccepted element default v ∧
      (field = none ∧ element.shape.IsFinal ∨
        field = some (.mk fieldFlags name aliases element default) ∧ ¬ element.shape.IsFinal) := by
  obtain ⟨⟨fieldFlags, s₁⟩, hflags, h⟩ := bind_eq_ok.mp h
  obtain ⟨r, hr, h⟩ := bind_eq_ok.mp h
  obtain ⟨⟨name, s₂⟩, hname, h⟩ := bind_eq_ok.mp h
  obtain ⟨⟨naliases, s₃⟩, hnaliases, h⟩ := bind_eq_ok.mp h
  obtain ⟨⟨aliases, s₄⟩, haliases, h⟩ := bind_eq_ok.mp h
  obtain ⟨⟨element, s₅⟩, helement, h⟩ := bind_eq_ok.mp h
  obtain ⟨⟨present, s₆⟩, hpresent, hlast⟩ := bind_eq_ok.mp h
  obtain ⟨f, rfl, hf⟩ := number_of_readVaruint hflags
  obtain ⟨n, rfl, hn⟩ := name_of_readString hr hname
  obtain ⟨c, rfl, hc⟩ := number_of_readVaruint hnaliases
  obtain ⟨hlen, a, rfl, ha⟩ := each_of_readAliases haliases
  obtain ⟨t, rfl, ht⟩ := hread helement
  obtain rfl := eq_cons_of_readU8 hpresent
  have hhead : FieldHead Oddity.IsAccepted fieldFlags name.val aliases (f ++ (n ++ (c ++ a))) :=
    ⟨f, n, naliases, c, a, rfl, hf, hn, hc, hlen, ha⟩
  dsimp only at hlast
  split_ifs at hlast with hone
  · obtain ⟨⟨default, s₇⟩, hdefault, hlast⟩ := bind_eq_ok.mp hlast
    obtain ⟨s₈, hignore, hrecorded⟩ := bind_eq_ok.mp hdefault
    obtain ⟨rfl, rfl⟩ := Prod.mk.inj (Except.ok.inj hrecorded)
    obtain ⟨rfl, hfound⟩ := field_of_shape hlast
    have hnonempty : s₈ ≠ [] := by
      refine hne.resolve_left fun hnone => ?_
      rcases hfound with ⟨-, hfinal⟩ | ⟨hsome, -⟩
      · exact ht.ignore_final hfinal hignore
      · exact nomatch hnone.symm.trans hsome
    obtain ⟨v, rfl, hv⟩ := element.ignore_cuts _ _ hignore hnonempty
    rw [recorded_append] at hfound
    refine ⟨fieldFlags, name.val, aliases, element, v, _, t, 1 :: v, ?_, hhead, ht, ?_, hfound⟩
    · rw [hone]
      simp only [List.append_assoc, List.cons_append]
    · exact .inr (.inl ⟨rfl, .inr ⟨trivial, hv⟩⟩)
  · obtain ⟨⟨default, s₇⟩, hdefault, hlast⟩ := bind_eq_ok.mp hlast
    obtain ⟨rfl, rfl⟩ := Prod.mk.inj (Except.ok.inj hdefault)
    obtain ⟨rfl, hfound⟩ := field_of_shape hlast
    refine ⟨fieldFlags, name.val, aliases, element, [], _, t, [present], ?_, hhead, ht, ?_, hfound⟩
    · simp only [List.append_assoc, List.singleton_append]
    · by_cases hzero : present = 0
      · exact .inl ⟨by rw [hzero], rfl⟩
      · exact .inr (.inr (.inl ⟨trivial, ⟨present, hzero, hone, rfl⟩, rfl⟩))

/-- The fields of an object, with the final one. -/
theorem derives_of_readFields {n : ℕ} : ∀ {s rest : Bytes} {fields : List Field},
    readFields (readType depth) n s = .ok (fields, rest) →
    ∃ d, s = d ++ rest ∧ FieldsDerive Oddity.IsAccepted fields d := by
  induction n with
  | zero =>
    intro s rest fields h
    exact nomatch h
  | succ n ih =>
    intro s rest fields h
    obtain ⟨⟨found, s₁⟩, hfield, h⟩ := bind_eq_ok.mp h
    cases found with
    | none =>
      obtain ⟨rfl, rfl⟩ := Prod.mk.inj (Except.ok.inj h)
      obtain ⟨fieldFlags, name, aliases, element, default, head, t, v, rfl, hhead, ht, hv, hfound⟩ :=
        derives_of_readField hread hfield (.inl rfl)
      have hfinal := (hfound.resolve_right fun h => nomatch h.1).2
      obtain ⟨rfl, hnumber⟩ := ht.eq_final hfinal
      obtain rfl : default = [] := hv.eq_nil_of_final
      exact ⟨head ++ (t ++ v), by simp only [List.append_assoc], fieldFlags, name, aliases, head, t,
        v, rfl, hhead, hnumber, hv⟩
    | some field =>
      obtain ⟨⟨fields', s₂⟩, hfields, h⟩ := bind_eq_ok.mp h
      obtain ⟨rfl, rfl⟩ := Prod.mk.inj (Except.ok.inj h)
      have hne : s₁ ≠ [] := by
        rintro rfl
        exact readFields_nil hfields
      obtain ⟨fieldFlags, name, aliases, element, default, head, t, v, rfl, hhead, ht, hv, hfound⟩ :=
        derives_of_readField hread hfield (.inr hne)
      obtain ⟨hsome, hfinal⟩ := hfound.resolve_left fun h => nomatch h.1
      obtain rfl := Option.some.inj hsome
      obtain ⟨d, rfl, hd⟩ := ih hfields
      refine ⟨head ++ (t ++ (v ++ d)), by simp only [List.append_assoc], head, t, v, d, rfl, hhead,
        ht, hfinal, hv, hd⟩

/-- The alternatives of a union, with the final one. -/
theorem derives_of_readUnion {n : ℕ} {name : Bytes} : ∀ {s rest : Bytes} {children : List Element},
    readUnion (readType depth) name n s = .ok (children, rest) →
    ∃ d, s = d ++ rest ∧ ChildrenDerive Oddity.IsAccepted children name d := by
  induction n with
  | zero =>
    intro s rest children h
    cases h
  | succ n ih =>
    intro s rest children h
    obtain ⟨⟨child, s₁⟩, hchild, hlast⟩ := bind_eq_ok.mp h
    obtain ⟨t, rfl, ht⟩ := hread hchild
    by_cases hfinal : child.shape.IsFinal
    · simp only [Shape.isFinal_iff.mp hfinal] at hlast
      obtain ⟨rfl, rfl⟩ := Prod.mk.inj (Except.ok.inj hlast)
      exact ⟨t, rfl, (ht.eq_final hfinal).2⟩
    · obtain ⟨⟨children', s₂⟩, hchildren, hmore⟩ : ∃ r, readUnion (readType depth) name n s₁ = .ok r ∧
          Except.ok (child :: r.1, r.2) = Except.ok (ε := Error) (children, rest) := by
        cases hshape : child.shape with
        | final => exact absurd (Shape.isFinal_iff.mpr hshape) hfinal
        | _ =>
          simp only [hshape] at hlast
          exact bind_eq_ok.mp hlast
      obtain ⟨rfl, rfl⟩ := Prod.mk.inj (Except.ok.inj hmore)
      obtain ⟨d, rfl, hd⟩ := ih hchildren
      exact ⟨t ++ d, (List.append_assoc _ _ _).symm, t, d, rfl, ht, hfinal, hd⟩

/-- What is behind the number of a type. -/
theorem derives_of_readShape {name s rest : Bytes} {code : Format.TypeCode} {shape : Shape}
    {size : Option ℕ} (h : readShape (readType depth) name code s = .ok (shape, size, rest)) :
    size = shape.fixedSize ∧ shape.code = code.toUInt64 ∧
      ∃ d, s = d ++ rest ∧ shape.Derives Oddity.IsAccepted name d := by
  cases code with
  | kFinal => cases h; exact ⟨rfl, rfl, [], rfl, trivial, rfl⟩
  | kNull | kBoolean | kVarint | kVaruint | kFloat32 | kFloat64 | kBytes | kString | kTimestamp
  | kDuration => cases h; exact ⟨rfl, rfl, [], rfl, rfl⟩
  | kFixedInt =>
    obtain ⟨⟨intSize, s₁⟩, hsize, h⟩ := bind_eq_ok.mp h
    cases h
    exact ⟨rfl, rfl, [intSize], eq_cons_of_readU8 hsize, rfl, .inr trivial⟩
  | kFixedUInt =>
    obtain ⟨⟨intSize, s₁⟩, hsize, h⟩ := bind_eq_ok.mp h
    cases h
    exact ⟨rfl, rfl, [intSize], eq_cons_of_readU8 hsize, rfl, .inr trivial⟩
  | kObject =>
    obtain ⟨⟨objectFlags, s₁⟩, hflags, h⟩ := bind_eq_ok.mp h
    obtain ⟨⟨fields, s₂⟩, hfields, h⟩ := bind_eq_ok.mp h
    cases h
    obtain ⟨f, rfl, hf⟩ := number_of_readVaruint hflags
    obtain ⟨d, rfl, hd⟩ := derives_of_readFields hread hfields
    exact ⟨rfl, rfl, f ++ d, (List.append_assoc _ _ _).symm, f, d, rfl, .inl ⟨hf, .inr trivial⟩, hd⟩
  | kEnum =>
    obtain ⟨⟨child, s₁⟩, hchild, h⟩ := bind_eq_ok.mp h
    obtain ⟨⟨nvalues, s₂⟩, hnvalues, h⟩ := bind_eq_ok.mp h
    obtain ⟨⟨items, s₃⟩, hitems, h⟩ := bind_eq_ok.mp h
    cases h
    obtain ⟨c, rfl, hc⟩ := hread hchild
    obtain ⟨n, rfl, hn⟩ := number_of_readVaruint hnvalues
    obtain ⟨hlen, i, rfl, hi⟩ := each_of_readEnumItems hitems
    exact ⟨rfl, rfl, c ++ (n ++ i), by simp only [List.append_assoc], c, nvalues, n, i, rfl, hc,
      .inr trivial, hn, hlen, hi⟩
  | kFixedArray =>
    obtain ⟨⟨arraySize, s₁⟩, hsize, h⟩ := bind_eq_ok.mp h
    obtain ⟨⟨child, s₂⟩, hchild, h⟩ := bind_eq_ok.mp h
    cases h
    obtain ⟨n, rfl, hn⟩ := number_of_readVaruint hsize
    obtain ⟨c, rfl, hc⟩ := hread hchild
    exact ⟨rfl, rfl, n ++ c, (List.append_assoc _ _ _).symm, n, c, rfl, hn, hc⟩
  | kArray | kMap =>
    obtain ⟨⟨child, s₁⟩, hchild, h⟩ := bind_eq_ok.mp h
    cases h
    obtain ⟨c, rfl, hc⟩ := hread hchild
    exact ⟨rfl, rfl, c, rfl, hc⟩
  | kUnion =>
    obtain ⟨⟨children, s₁⟩, hchildren, h⟩ := bind_eq_ok.mp h
    cases h
    obtain ⟨d, rfl, hd⟩ := derives_of_readUnion hread hchildren
    exact ⟨rfl, rfl, d, rfl, hd⟩

end

/-- The enumerator is that of the number. -/
theorem toUInt64_of_ofUInt64 {type : UInt64} {code : Format.TypeCode}
    (h : Format.TypeCode.ofUInt64 type = some code) : code.toUInt64 = type := by
  unfold Format.TypeCode.ofUInt64 at h
  split at h <;> cases h <;> rfl

/-- A number up to the last type that has no enumerator. -/
theorem unnamed_of_ofUInt64 {type : UInt64} (h : Format.TypeCode.ofUInt64 type = none)
    (hle : ¬ type > Format.kLastType.toUInt64) : 10 < type ∧ type < 16 := by
  have hlast : type.toNat ≤ 23 := UInt64.le_iff_toNat_le.mp (UInt64.not_lt.mp hle)
  have hall : ∀ n : ℕ, n ≤ 23 → Format.TypeCode.ofUInt64 (UInt64.ofNat n) = none →
      10 < UInt64.ofNat n ∧ UInt64.ofNat n < 16 := by decide
  have hn := hall type.toNat hlast
  rw [UInt64.ofNat_toNat] at hn
  exact hn h

/-- **What the parser has read derives** with the oddities that it lets through. -/
theorem derives_of_readType {depth : ℕ} : ∀ {name s rest : Bytes} {element : Element},
    readType depth name s = .ok (element, rest) →
    ∃ d, s = d ++ rest ∧ element.Derives Oddity.IsAccepted name d := by
  induction depth with
  | zero =>
    intro name s rest element h
    exact nomatch h
  | succ depth ih =>
    intro name s rest element h
    obtain ⟨⟨type, s₁⟩, htype, hlast⟩ := bind_eq_ok.mp h
    obtain ⟨digits, hs, hdigits⟩ := number_of_readVaruint htype
    dsimp only at hlast
    split_ifs at hlast with hle
    · exact nomatch hlast
    cases hcode : Format.TypeCode.ofUInt64 type with
    | none =>
      obtain ⟨hgt, hlt⟩ := unnamed_of_ofUInt64 hcode hle
      rw [hcode] at hlast
      obtain ⟨⟨shape, size, s₂⟩, hshape, hlast⟩ := bind_eq_ok.mp hlast
      cases hshape
      obtain ⟨rfl, rfl⟩ := Prod.mk.inj (Except.ok.inj hlast)
      refine ⟨digits, hs, rfl, ?_, rfl, digits, [], (List.append_nil _).symm, hdigits, trivial, hgt,
        hlt, rfl⟩
      rw [hs, recorded_append]
    | some code =>
      rw [hcode] at hlast
      obtain ⟨⟨shape, size, s₂⟩, hshape, hlast⟩ := bind_eq_ok.mp hlast
      obtain ⟨rfl, rfl⟩ := Prod.mk.inj (Except.ok.inj hlast)
      obtain ⟨hsize, hnumber, body, rfl, hbody⟩ := derives_of_readShape ih hshape
      rw [← List.append_assoc] at hs
      refine ⟨digits ++ body, hs, rfl, ?_, hsize, digits, body, rfl, ?_, hbody⟩
      · rw [hs, recorded_append]
      · rw [hnumber, toUInt64_of_ofUInt64 hcode]
        exact hdigits

theorem parse_eq_ok_iff {schema name : Bytes} {root : Element} :
    parse schema name = .ok root ↔
      ∃ d rest, schema = d ++ rest ∧ root.Derives Oddity.IsAccepted name d := by
  constructor
  · intro h
    obtain ⟨⟨root', rest⟩, hread, hroot⟩ := bind_eq_ok.mp h
    obtain rfl := Except.ok.inj hroot
    obtain ⟨d, hd, hderives⟩ := derives_of_readType hread
    exact ⟨d, rest, hd, hderives⟩
  · rintro ⟨d, rest, rfl, hderives⟩
    have hread := root.reads name d ((d ++ rest).length + 1)
      (by rw [List.length_append]; omega) hderives rest
    rw [parse, hread]
    rfl

/-! ### The documented grammar -/

/-- An element has the bytes that it derives from. -/
theorem Element.Derives.eq {allow' : Oddity → Prop} {element : Element} {name d d' : Bytes}
    (h : element.Derives allow name d) (h' : element.Derives allow' name d') : d = d' := by
  cases element with
  | mk name' schema size shape => exact h.2.1.symm.trans h'.2.1

theorem isVaruint_singleton {x : UInt64} (h : x.toNat < 128) :
    IsVaruint x [UInt8.ofNat x.toNat] := by
  have hlast : Base128.Encodes [UInt8.ofNat x.toNat] (UInt8.ofNat x.toNat).toNat :=
    .last (by rw [UInt8.toNat_ofNat']; omega)
  rw [UInt8.toNat_ofNat', Nat.mod_eq_of_lt (by omega)] at hlast
  exact ⟨hlast, Nat.le_of_ble_eq_true rfl⟩

end Mjlib.Telemetry.BinarySchemaParser
