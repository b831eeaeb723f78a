import Mjlib.Telemetry.Equiv.Reader

/-!
# Schemas in Python and in C++

`ElementImports` is what `Type.from_binary` makes of the documented grammar: names in UTF-8 that
`namedtuple` and `enum` take, and defaults that Python reads.  It returns the type class of the element
there (`fromBinary_of_imports`) and nowhere else (`imports_of_fromBinary`).
-/

namespace Mjlib.Telemetry.Reader

open BinarySchemaParser (Element Shape IsVaruint IsText InTurn IsIntSize Each Oddity FieldHead
  FinalField FieldsDerive ChildrenDerive Default Name)

/-! ### The grammar -/

/-- What both the README and the parser let through. -/
def IsCommon (o : Oddity) : Prop := o.IsDocumented ∧ o.IsAccepted

theorem not_isCommon (o : Oddity) : ¬ IsCommon o := by
  cases o with
  | signedItem | longName | version | paddedTag | longDefault => exact fun h => h.2
  | _ => exact fun h => h.1

/-- A string in a schema. -/
def TextImports (text d : Bytes) : Prop := IsText text d ∧ isUtf8 text

def HeadImports (fieldFlags : UInt64) (name : Bytes) (aliases : List Bytes) (d : Bytes) : Prop :=
  ∃ f n count c a, d = f ++ (n ++ (c ++ a)) ∧ IsVaruint fieldFlags f ∧ TextImports name n ∧
    IsVaruint count c ∧ count.toNat = aliases.length ∧ Each TextImports aliases a

/-- A value of an enumeration and its name. -/
def ItemImports (child : Element) (item : UInt64 × Bytes) (d : Bytes) : Prop :=
  ∃ k n, d = k ++ n ∧ child.Key IsCommon item.1 k ∧ TextImports item.2 n

variable (lib : Names)

mutual

/-- The schemas that Python takes. -/
def ElementImports (className : Bytes) : Element → Bytes → Prop
  | .mk _ _ _ shape, d => ∃ digits body, d = digits ++ body ∧ IsVaruint shape.code digits ∧
      ShapeImports className shape body

def ShapeImports (className : Bytes) : Shape → Bytes → Prop
  | .final, _ | .unnamed _, _ => False
  | .null, d | .boolean, d | .varint, d | .varuint, d | .float32, d | .float64, d | .bytes, d
  | .string, d | .timestamp, d | .duration, d => d = []
  | .fixedInt intSize, d | .fixedUInt intSize, d => d = [intSize] ∧ IsIntSize intSize
  | .object objectFlags fields, d => ∃ f rest, d = f ++ rest ∧ IsVaruint objectFlags f ∧
      FieldsImport fields rest ∧
      namedtuple lib (fields.map fun field => escapePython3Identifier field.name) = .ok ()
  | .enum child items, d => ∃ c nvalues n i, d = c ++ (n ++ i) ∧
      ElementImports (ascii "_") child c ∧ child.shape.IsInt ∧ IsVaruint nvalues n ∧
      nvalues.toNat = items.length ∧ Each (ItemImports child) items i ∧
      intEnum className (itemNames items) = .ok (members className items)
  | .array child, d | .map child, d => ElementImports (ascii "_") child d
  | .fixedArray arraySize child, d => ∃ n c, d = n ++ c ∧ IsVaruint arraySize n ∧
      ElementImports (ascii "_") child c
  | .union children, d => ChildrenImport children d

def FieldsImport : List BinarySchemaParser.Field → Bytes → Prop
  | [], d => ∃ fieldFlags name aliases h t, d = h ++ (t ++ [0]) ∧
      HeadImports fieldFlags name aliases h ∧ IsVaruint 0 t
  | .mk fieldFlags name aliases element default :: fields, d => ∃ h t v rest,
      d = h ++ (t ++ (v ++ rest)) ∧ HeadImports fieldFlags name aliases h ∧
      ElementImports name element t ∧
      (v = [0] ∨ v = 1 :: default ∧ ElementReadable False name element default) ∧
      FieldsImport fields rest

def ChildrenImport : List Element → Bytes → Prop
  | [], d => IsVaruint 0 d
  | child :: children, d => ∃ first rest, d = first ++ rest ∧
      ElementImports (ascii "_") child first ∧ ChildrenImport children rest

end

/-! ### Pieces of a schema -/

variable {lib}

theorem repeatRead_of_each {α β : Type} {P : β → Bytes → Prop} (f : β → α)
    {read : Bytes → Except Exception (α × Bytes)}
    (h : ∀ x d, P x d → ∀ s, read (d ++ s) = .ok (f x, s)) :
    ∀ {xs : List β} {d : Bytes}, Each P xs d → ∀ s,
      repeatRead read xs.length (d ++ s) = .ok (xs.map f, s)
  | [], _, hd, s => by
    rw [hd]
    rfl
  | x :: xs, _, ⟨first, rest, hd, hfirst, hrest⟩, s => by
    rw [hd, List.append_assoc, List.length_cons, repeatRead, h x first hfirst]
    simp only [bind, Except.bind, repeatRead_of_each f h hrest s]
    rfl

/-- The other way round: what was read one after the other was fit to be read. -/
theorem each_of_repeatRead {α β : Type} {P Q : β → Bytes → Prop} (f : β → α)
    {read : Bytes → Except Exception (α × Bytes)}
    (h : ∀ x d, Q x d → ∀ s, read (d ++ s) = .ok (f x, s))
    (hback : ∀ x d s p, P x d → read (d ++ s) = .ok p → Q x d) :
    ∀ {xs : List β} {d s : Bytes} {p : List α × Bytes}, Each P xs d →
      repeatRead read xs.length (d ++ s) = .ok p → Each Q xs d
  | [], _, _, _, hd, _ => hd
  | x :: xs, _, s, p, ⟨first, rest, hd, hfirst, hrest⟩, hread => by
    rw [hd, List.append_assoc, List.length_cons, repeatRead] at hread
    obtain ⟨y, hy, hread⟩ := bind_eq_ok.mp hread
    have hQ := hback x first _ _ hfirst hy
    rw [h x first hQ] at hy
    cases hy
    obtain ⟨ys, hys, -⟩ := bind_eq_ok.mp hread
    exact ⟨first, rest, hd, hQ, each_of_repeatRead f h hback hrest hys⟩

theorem TextImports.read {text d : Bytes} (h : TextImports text d) (s : Bytes) :
    readString (d ++ s) = .ok (text, s) := readString_append h.1 h.2 s

/-- The value of an enumeration, as Python reads it. -/
theorem read_of_key {child : Element} {key : UInt64} {k : Bytes} (h : child.Key IsCommon key k)
    (hint : child.shape.IsInt) (s : Bytes) :
    (typeClassOf (ascii "_") child).read (k ++ s) = .ok (.int key.toNat, s) := by
  cases child with
  | mk name schema size shape =>
    cases shape with
    | fixedUInt intSize =>
      obtain ⟨hsize, hlen, rfl⟩ := h
      have hlt := EmitJson.decode_lt_of_isIntSize hsize hlen
      rw [typeClassOf, shapeClass, TypeClass.read, readUnsigned_append hlen]
      refine congrArg (fun n : ℕ => Except.ok (Value.int n, s)) ?_
      rw [EmitJson.toNat_scalarBits hlen, UInt64.toNat_ofNat', Nat.mod_eq_of_lt hlt]
    | varuint =>
      have hkey : IsVaruint key k := h.resolve_right fun h => not_isCommon _ h.1
      rw [typeClassOf, shapeClass, TypeClass.read, readVaruint_append hkey]
      rfl
    | fixedInt _ | varint => exact absurd h.1 (not_isCommon _)
    | _ => exact hint.elim

theorem ItemImports.read {child : Element} {item : UInt64 × Bytes} {d : Bytes}
    (h : ItemImports child item d) (hint : child.shape.IsInt) (s : Bytes) :
    enumItem (typeClassOf (ascii "_") child) (d ++ s) = .ok ((.int item.1.toNat, item.2), s) := by
  obtain ⟨k, n, rfl, hkey, hname⟩ := h
  rw [List.append_assoc, enumItem, read_of_key hkey hint]
  simp only [bind, Except.bind, hname.read]
  rfl

/-- The members of an enumeration: all values are integers. -/
theorem enumMembers_eq (className : Bytes) (items : List (UInt64 × Bytes)) :
    enumMembers className (items.map fun item => (Value.int item.1.toNat, item.2))
      = intEnum className (itemNames items) := by
  have hall : ∀ items : List (UInt64 × Bytes),
      (items.map fun item => (Value.int item.1.toNat, item.2)).mapM (fun item => enumInt item.1)
        = .ok (items.map fun item => (item.1.toNat : ℤ)) := by
    intro items
    induction items with
    | nil => rfl
    | cons item items ih =>
      rw [List.map_cons, List.mapM_cons, ih]
      rfl
  rw [enumMembers, hall, itemNames]
  cases items with
  | nil => rfl
  | cons item items =>
    simp only [bind, Except.bind, List.map_cons, List.isEmpty_cons, List.map_map]
    rfl

/-- What `intEnum` returns are the members. -/
theorem intEnum_eq_members {className : Bytes} {items : List (UInt64 × Bytes)} {ms : List Bytes}
    (h : intEnum className (itemNames items) = .ok ms) : ms = members className items := by
  rw [intEnum] at h
  split_ifs at h
  dsimp only at h
  split_ifs at h
  exact (Except.ok.inj h).symm

theorem names_fieldClasses (fields : List BinarySchemaParser.Field) :
    (fieldClasses fields).map (fun field => escapePython3Identifier field.name)
      = fields.map fun field => escapePython3Identifier field.name := by
  induction fields with
  | nil => rfl
  | cons field fields ih =>
    cases field
    rw [fieldClasses, List.map_cons, List.map_cons, ih]
    rfl

theorem typeClassOf_ne_final {className : Bytes} {element : Element} {d : Bytes}
    (h : ElementImports lib className element d) (name : Bytes) : typeClassOf name element ≠ .final := by
  cases element with
  | mk name' schema size shape =>
    obtain ⟨digits, body, -, -, hshape⟩ := h
    rw [typeClassOf]
    cases shape with
    | final | unnamed _ => exact hshape.elim
    | _ =>
      rw [shapeClass]
      exact TypeClass.noConfusion

/-- The flag in front of a default, and the default. -/
theorem length_pos_of_default {v default : Bytes} {P : Prop}
    (h : v = [0] ∨ v = 1 :: default ∧ P) : 0 < v.length := by
  rcases h with rfl | ⟨rfl, -⟩
  · exact Nat.one_pos
  · exact Nat.succ_pos _

theorem length_pos_of_imports {className : Bytes} {element : Element} {d : Bytes}
    (h : ElementImports lib className element d) : 0 < d.length := by
  cases element with
  | mk name schema size shape =>
    obtain ⟨digits, body, rfl, hdigits, -⟩ := h
    have hpos := hdigits.1.length_pos
    rw [List.length_append]
    omega

mutual

/-- What imports is proper. -/
theorem proper_of_imports {className : Bytes} : (element : Element) → {d : Bytes} →
    ElementImports lib className element d → element.Proper
  | .mk _ _ _ shape, _, ⟨_, _, _, _, hshape⟩ => shapeProper_of_imports shape hshape

theorem shapeProper_of_imports {className : Bytes} : (shape : Shape) → {d : Bytes} →
    ShapeImports lib className shape d → shape.Proper
  | .null, _, _ | .boolean, _, _ | .varint, _, _ | .varuint, _, _ | .float32, _, _
  | .float64, _, _ | .bytes, _, _ | .string, _, _ | .timestamp, _, _ | .duration, _, _ => trivial
  | .fixedInt _, _, h | .fixedUInt _, _, h => h.2
  | .object _ fields, _, ⟨_, _, _, _, hfields, _⟩ => fieldsProper_of_imports fields hfields
  | .enum child _, _, ⟨_, _, _, _, _, hchild, hint, _⟩ => ⟨hint, proper_of_imports child hchild⟩
  | .array child, _, h | .map child, _, h => proper_of_imports child h
  | .fixedArray _ child, _, ⟨_, _, _, _, hchild⟩ => proper_of_imports child hchild
  | .union children, _, h => childrenProper_of_imports children h

theorem fieldsProper_of_imports : (fields : List BinarySchemaParser.Field) → {d : Bytes} →
    FieldsImport lib fields d → BinarySchemaParser.FieldsProper fields
  | [], _, _ => trivial
  | .mk _ _ _ element _ :: fields, _, ⟨_, _, _, _, _, _, ht, _, hrest⟩ =>
    ⟨proper_of_imports element ht, fieldsProper_of_imports fields hrest⟩

theorem childrenProper_of_imports : (children : List Element) → {d : Bytes} →
    ChildrenImport lib children d → BinarySchemaParser.ElementsProper children
  | [], _, _ => trivial
  | child :: children, _, ⟨_, _, _, hfirst, hrest⟩ =>
    ⟨proper_of_imports child hfirst, childrenProper_of_imports children hrest⟩

end

section

variable {fromBinary : Bytes → Bytes → Except Exception (TypeClass × Bytes)}

/-- What `readField` does once the flags, the name and the aliases have been read. -/
theorem readField_of_head {fieldFlags : UInt64} {name : Bytes} {aliases : List Bytes} {d : Bytes}
    (h : HeadImports fieldFlags name aliases d) (s : Bytes) :
    readField fromBinary (d ++ s) = (do
      let (typeClass, s) ← fromBinary name s
      let (isDefault, s) ← readUnsigned 1 s
      let s ← if isDefault ≠ 0 then do
          let (_, s) ← typeClass.read s
          pure s
        else pure s
      match typeClass with
      | .final => return (none, s)
      | _ => return (some (.mk name typeClass), s)) := by
  obtain ⟨f, n, count, c, a, rfl, hflags, hname, hcount, hlen, haliases⟩ := h
  have hread := repeatRead_of_each id (fun _ _ h => TextImports.read h) haliases s
  rw [← hlen] at hread
  simp only [List.append_assoc]
  rw [readField, readVaruint_append hflags]
  simp only [bind, Except.bind, hname.read, readVaruint_append hcount, hread] <;> rfl

theorem readUnsigned_cons (b : UInt8) (s : Bytes) : readUnsigned 1 (b :: s) = .ok (b.toNat, s) := by
  have hlen : [b].length = 1 := rfl
  have hread := readUnsigned_append hlen s
  rw [EmitJson.toNat_scalarBits hlen] at hread
  exact hread

/-- A field with or without a default. -/
theorem readField_some {fieldFlags : UInt64} {name : Bytes} {aliases : List Bytes}
    {h t v s : Bytes} {typeClass : TypeClass} (hhead : HeadImports fieldFlags name aliases h)
    (hclass : fromBinary name (t ++ (v ++ s)) = .ok (typeClass, v ++ s)) (hne : typeClass ≠ .final)
    (hv : v = [0] ∨ ∃ default x, v = 1 :: default ∧ typeClass.read (default ++ s) = .ok (x, s)) :
    readField fromBinary (h ++ (t ++ (v ++ s))) = .ok (some (.mk name typeClass), s) := by
  rw [readField_of_head hhead, hclass]
  rcases hv with rfl | ⟨default, x, rfl, hread⟩
  · simp only [bind, Except.bind, List.singleton_append, readUnsigned_cons]
    cases typeClass with
    | final => exact absurd rfl hne
    | _ => rfl
  · simp only [bind, Except.bind, List.cons_append, readUnsigned_cons]
    rw [if_pos (by decide), hread]
    cases typeClass with
    | final => exact absurd rfl hne
    | _ => rfl

end

/-! ### What imports is taken -/

mutual

/-- **Python makes its type class of what imports**, whatever follows it. -/
theorem fromBinary_of_imports (className : Bytes) : (element : Element) → (d : Bytes) →
    (depth : ℕ) → d.length < depth → ElementImports lib className element d → ∀ s,
    fromBinary lib depth className (d ++ s) = .ok (typeClassOf className element, s)
  | _, _, 0, hlen, _, _ => absurd hlen (Nat.not_lt_zero _)
  | .mk name schema size shape, d, depth + 1, hlen, ⟨digits, body, hd, hdigits, hshape⟩, s => by
    have hpos := hdigits.1.length_pos
    rw [hd, List.length_append] at hlen
    rw [hd, List.append_assoc, fromBinary, readVaruint_append hdigits]
    exact typeFromBinary_of_imports className shape body depth (by omega) hshape s

theorem typeFromBinary_of_imports (className : Bytes) : (shape : Shape) → (body : Bytes) →
    (depth : ℕ) → body.length < depth → ShapeImports lib className shape body → ∀ s,
    typeFromBinary lib (fromBinary lib depth) className shape.code.toNat (body ++ s)
      = .ok (shapeClass className shape, s)
  | .null, _, _, _, h, s | .boolean, _, _, _, h, s | .varint, _, _, _, h, s
  | .varuint, _, _, _, h, s | .float32, _, _, _, h, s | .float64, _, _, _, h, s
  | .bytes, _, _, _, h, s | .string, _, _, _, h, s | .timestamp, _, _, _, h, s
  | .duration, _, _, _, h, s => by
    rw [h]
    rfl
  | .fixedInt intSize, _, _, _, ⟨h, hsize⟩, s | .fixedUInt intSize, _, _, _, ⟨h, hsize⟩, s => by
    rw [h]
    rcases hsize with rfl | rfl | rfl | rfl <;> rfl
  | .object objectFlags fields, body, depth, hlen, h, s => by
    obtain ⟨f, rest, rfl, hflags, hfields, hnames⟩ := h
    rw [List.length_append] at hlen
    have hread := objectFields_of_imports fields rest depth ((rest ++ s).length + 1) (by omega)
      (by rw [List.length_append]; omega) hfields s
    show typeFromBinary lib (fromBinary lib depth) className 16 _ = _
    rw [List.append_assoc, typeFromBinary, readVaruint_append hflags]
    simp only [bind, Except.bind, hread, names_fieldClasses, hnames]
    rfl
  | .enum child items, body, depth, hlen, h, s => by
    obtain ⟨c, nvalues, n, i, rfl, hchild, hint, hn, hlength, hitems, hmembers⟩ := h
    rw [List.length_append] at hlen
    have hread := repeatRead_of_each (fun item : UInt64 × Bytes => (Value.int item.1.toNat, item.2))
      (fun _ _ h => ItemImports.read h hint) hitems s
    show typeFromBinary lib (fromBinary lib depth) className 17 _ = _
    rw [List.append_assoc, typeFromBinary,
      fromBinary_of_imports (ascii "_") child c depth (by omega) hchild]
    simp only [bind, Except.bind, List.append_assoc, readVaruint_append hn, hlength, hread,
      enumMembers_eq, hmembers]
    rfl
  | .array child, body, depth, hlen, h, s => by
    show typeFromBinary lib (fromBinary lib depth) className 18 _ = _
    rw [typeFromBinary, fromBinary_of_imports (ascii "_") child body depth hlen h]
    rfl
  | .map child, body, depth, hlen, h, s => by
    show typeFromBinary lib (fromBinary lib depth) className 20 _ = _
    rw [typeFromBinary, fromBinary_of_imports (ascii "_") child body depth hlen h]
    rfl
  | .fixedArray arraySize child, body, depth, hlen, ⟨n, c, hd, hn, hchild⟩, s => by
    rw [hd, List.length_append] at hlen
    show typeFromBinary lib (fromBinary lib depth) className 19 _ = _
    rw [hd, List.append_assoc, typeFromBinary, readVaruint_append hn]
    simp only [bind, Except.bind, fromBinary_of_imports (ascii "_") child c depth (by omega) hchild s]
    rfl
  | .union children, body, depth, hlen, h, s => by
    have hread := unionItems_of_imports children body depth ((body ++ s).length + 1) hlen
      (by rw [List.length_append]; omega) h s
    show typeFromBinary lib (fromBinary lib depth) className 21 _ = _
    rw [typeFromBinary, hread]
    rfl

theorem objectFields_of_imports : (fields : List BinarySchemaParser.Field) → (d : Bytes) →
    (depth n : ℕ) → d.length < depth → d.length < n → FieldsImport lib fields d → ∀ s,
    objectFields (fromBinary lib depth) n (d ++ s) = .ok (fieldClasses fields, s)
  | _, _, _, 0, _, hn, _, _ => absurd hn (Nat.not_lt_zero _)
  | [], d, depth, n + 1, hlen, _, ⟨fieldFlags, name, aliases, head, t, hd, hhead, ht⟩, s => by
    have hfinal : fromBinary lib depth name (t ++ ([0] ++ s)) = .ok (.final, [0] ++ s) := by
      cases depth with
      | zero => exact absurd hlen (Nat.not_lt_zero _)
      | succ depth =>
        rw [fromBinary, readVaruint_append ht]
        rfl
    rw [hd, List.append_assoc, List.append_assoc, objectFields, readField_of_head hhead, hfinal]
    rfl
  | .mk fieldFlags name aliases element default :: fields, d, depth, n + 1, hlen, hn,
    ⟨head, t, v, rest, hd, hhead, ht, hv, hrest⟩, s => by
    have hposv := length_pos_of_default hv
    rw [hd] at hlen hn
    simp only [List.length_append] at hlen hn
    have hclass := fromBinary_of_imports name element t depth (by omega) ht (v ++ (rest ++ s))
    have hmore := objectFields_of_imports fields rest depth n (by omega) (by omega) hrest s
    have hne := typeClassOf_ne_final ht name
    rw [hd]
    have hdefault : v = [0] ∨ ∃ default x, v = 1 :: default ∧
        (typeClassOf name element).read (default ++ (rest ++ s)) = .ok (x, rest ++ s) := by
      refine hv.imp id fun ⟨hv, hreadable⟩ => ?_
      obtain ⟨x, hx, -⟩ := read_of_readable name element default (proper_of_imports element ht)
        hreadable (rest ++ s)
      exact ⟨default, x, hv, hx⟩
    simp only [List.append_assoc]
    rw [objectFields, readField_some hhead hclass hne hdefault, fieldClasses]
    simp only [bind, Except.bind, hmore]
    rfl

theorem unionItems_of_imports : (children : List Element) → (d : Bytes) → (depth n : ℕ) →
    d.length < depth → d.length < n → ChildrenImport lib children d → ∀ s,
    unionItems (fromBinary lib depth) n (d ++ s) = .ok (childClasses children, s)
  | _, _, _, 0, _, hn, _, _ => absurd hn (Nat.not_lt_zero _)
  | [], d, depth, n + 1, hlen, _, h, s => by
    have hfinal : fromBinary lib depth (ascii "_") (d ++ s) = .ok (.final, s) := by
      cases depth with
      | zero => exact absurd hlen (Nat.not_lt_zero _)
      | succ depth =>
        rw [fromBinary, readVaruint_append h]
        rfl
    rw [unionItems, hfinal]
    rfl
  | child :: children, d, depth, n + 1, hlen, hn, ⟨first, rest, hd, hfirst, hrest⟩, s => by
    rw [hd, List.length_append] at hlen hn
    have hpos := length_pos_of_imports hfirst
    have hclass := fromBinary_of_imports (ascii "_") child first depth (by omega) hfirst (rest ++ s)
    have hmore := unionItems_of_imports children rest depth n (by omega) (by omega) hrest s
    have hne := typeClassOf_ne_final hfirst (ascii "_")
    rw [hd, List.append_assoc, unionItems, hclass, childClasses]
    simp only [bind, Except.bind]
    generalize typeClassOf (ascii "_") child = typeClass at hne
    cases typeClass with
    | final => exact absurd rfl hne
    | _ =>
      rw [hmore]
      rfl

end

/-! ### What was taken imports -/

section

variable {fieldFlags : UInt64} {name : Bytes} {aliases : List Bytes} {d s : Bytes}

theorem isVaruint_of_common {x : UInt64} (h : BinarySchemaParser.Number IsCommon x d) :
    IsVaruint x d :=
  h.resolve_right fun h => not_isCommon _ h.1

theorem isText_of_common (h : Name IsCommon name d) : IsText name d := by
  obtain ⟨size, digits, hdigits, hsize, hd, -⟩ := h
  exact ⟨size, digits, isVaruint_of_common hdigits, hsize, hd⟩

theorem default_of_common {element : Element} {default v : Bytes}
    (h : Default IsCommon element default v) :
    v = [0] ∨ v = 1 :: default ∧ element.Instance {} default := by
  rcases h with ⟨hv, -⟩ | ⟨hv, ⟨hinstance, -⟩ | h⟩ | h | h
  · exact .inl hv
  · exact .inr ⟨hv, hinstance⟩
  · exact absurd h.1 (not_isCommon _)
  · exact absurd h.1 (not_isCommon _)
  · exact absurd h.1 (not_isCommon _)

theorem textImports_of_readString {p : Bytes × Bytes} (h : Name IsCommon name d)
    (hread : readString (d ++ s) = .ok p) : TextImports name d :=
  ⟨isText_of_common h, isUtf8_of_readString (isText_of_common h) hread⟩

theorem headImports_of_readField {fromBinary : Bytes → Bytes → Except Exception (TypeClass × Bytes)}
    {p : Option Field × Bytes} (h : FieldHead IsCommon fieldFlags name aliases d)
    (hread : readField fromBinary (d ++ s) = .ok p) :
    HeadImports fieldFlags name aliases d := by
  obtain ⟨f, n, count, c, a, rfl, hflags, hname, hcount, hlen, haliases⟩ := h
  have hflags := isVaruint_of_common hflags
  have hcount := isVaruint_of_common hcount
  simp only [List.append_assoc] at hread
  rw [readField, readVaruint_append hflags] at hread
  obtain ⟨_, hf, hread⟩ := bind_eq_ok.mp hread
  cases hf
  obtain ⟨text, htext, hread⟩ := bind_eq_ok.mp hread
  have hname := textImports_of_readString hname htext
  rw [hname.read] at htext
  cases htext
  obtain ⟨_, hc, hread⟩ := bind_eq_ok.mp hread
  rw [readVaruint_append hcount] at hc
  cases hc
  obtain ⟨names, hnames, -⟩ := bind_eq_ok.mp hread
  rw [hlen] at hnames
  exact ⟨f, n, count, c, a, rfl, hflags, hname, hcount, hlen, each_of_repeatRead id
    (fun _ _ h => TextImports.read h) (fun _ _ _ _ => textImports_of_readString) haliases hnames⟩

/-- The item of an enumeration that was read imports. -/
theorem itemImports_of_enumItem {child : Element} {item : UInt64 × Bytes}
    {p : (Value × Bytes) × Bytes} (hint : child.shape.IsInt)
    (h : BinarySchemaParser.EnumItem IsCommon child item d)
    (hread : enumItem (typeClassOf (ascii "_") child) (d ++ s) = .ok p) :
    ItemImports child item d := by
  obtain ⟨k, n, rfl, hkey, hname⟩ := h
  rw [List.append_assoc, enumItem, read_of_key hkey hint] at hread
  obtain ⟨_, hk, hread⟩ := bind_eq_ok.mp hread
  cases hk
  obtain ⟨text, htext, -⟩ := bind_eq_ok.mp hread
  exact ⟨k, n, rfl, hkey, textImports_of_readString hname htext⟩

end

mutual

/-- **What Python took imports**, where the string is of the documented grammar. -/
theorem imports_of_fromBinary (className : Bytes) : (element : Element) → {name d s : Bytes} →
    {depth : ℕ} → {p : TypeClass × Bytes} → d.length < depth → element.Derives IsCommon name d →
    fromBinary lib depth className (d ++ s) = .ok p → ElementImports lib className element d
  | _, _, _, _, 0, _, hlen, _, _ => absurd hlen (Nat.not_lt_zero _)
  | .mk name' schema size shape, name, d, s, depth + 1, p, hlen,
    ⟨_, _, _, digits, body, hd, hdigits, hshape⟩, hread => by
    have hdigits := isVaruint_of_common hdigits
    have hpos := hdigits.1.length_pos
    rw [hd, List.length_append] at hlen
    rw [hd, List.append_assoc, fromBinary, readVaruint_append hdigits] at hread
    exact ⟨digits, body, hd, hdigits,
      imports_of_typeFromBinary className shape (by omega) hshape hread⟩

theorem imports_of_typeFromBinary (className : Bytes) : (shape : Shape) → {name body s : Bytes} →
    {depth : ℕ} → {p : TypeClass × Bytes} → body.length < depth →
    shape.Derives IsCommon name body →
    typeFromBinary lib (fromBinary lib depth) className shape.code.toNat (body ++ s) = .ok p →
    ShapeImports lib className shape body
  | .final, _, _, _, _, _, _, h, _ | .unnamed _, _, _, _, _, _, _, h, _ =>
    absurd h.1 (not_isCommon _)
  | .null, _, _, _, _, _, _, h, _ | .boolean, _, _, _, _, _, _, h, _
  | .varint, _, _, _, _, _, _, h, _ | .varuint, _, _, _, _, _, _, h, _
  | .float32, _, _, _, _, _, _, h, _ | .float64, _, _, _, _, _, _, h, _
  | .bytes, _, _, _, _, _, _, h, _ | .string, _, _, _, _, _, _, h, _
  | .timestamp, _, _, _, _, _, _, h, _ | .duration, _, _, _, _, _, _, h, _ => h
  | .fixedInt _, _, _, _, _, _, _, h, _ | .fixedUInt _, _, _, _, _, _, _, h, _ =>
    ⟨h.1, h.2.resolve_right (not_isCommon _)⟩
  | .object objectFlags fields, name, body, s, depth, p, hlen, ⟨f, rest, hd, hflags, hfields⟩,
    hread => by
    have hflags : IsVaruint objectFlags f := by
      rcases hflags with hflags | hversion
      · exact isVaruint_of_common hflags.1
      · exact absurd hversion.1 (not_isCommon _)
    replace hread : typeFromBinary lib (fromBinary lib depth) className 16 (body ++ s) = .ok p := hread
    rw [hd, List.append_assoc, typeFromBinary, readVaruint_append hflags] at hread
    rw [hd, List.length_append] at hlen
    obtain ⟨_, hf, hread⟩ := bind_eq_ok.mp hread
    cases hf
    obtain ⟨found, hfound, hread⟩ := bind_eq_ok.mp hread
    have hfields := fieldsImport_of_objectFields fields (by omega)
      (by rw [List.length_append]; omega) hfields hfound
    rw [objectFields_of_imports fields rest depth _ (by omega) (by rw [List.length_append]; omega)
      hfields] at hfound
    cases hfound
    obtain ⟨⟨⟩, hnames, -⟩ := bind_eq_ok.mp hread
    rw [names_fieldClasses] at hnames
    exact ⟨f, rest, hd, hflags, hfields, hnames⟩
  | .enum child items, name, body, s, depth, p, hlen,
    ⟨c, nvalues, n, i, hd, hchild, hint, hn, hlength, hitems⟩, hread => by
    have hn := isVaruint_of_common hn
    have hint := hint.resolve_right (not_isCommon _)
    replace hread : typeFromBinary lib (fromBinary lib depth) className 17 (body ++ s) = .ok p := hread
    rw [hd, List.append_assoc, typeFromBinary] at hread
    rw [hd, List.length_append] at hlen
    obtain ⟨_, hclass, hread⟩ := bind_eq_ok.mp hread
    have hchild := imports_of_fromBinary (ascii "_") child (by omega) hchild hclass
    rw [fromBinary_of_imports (ascii "_") child c depth (by omega) hchild] at hclass
    cases hclass
    dsimp only at hread
    rw [List.append_assoc, readVaruint_append hn] at hread
    obtain ⟨_, hsize, hread⟩ := bind_eq_ok.mp hread
    cases hsize
    obtain ⟨found, hfound, hread⟩ := bind_eq_ok.mp hread
    rw [hlength] at hfound
    have hitems := each_of_repeatRead (fun item : UInt64 × Bytes => (Value.int item.1.toNat, item.2))
      (fun _ _ h => ItemImports.read h hint)
      (fun _ _ _ _ h hread => itemImports_of_enumItem hint h hread) hitems hfound
    rw [repeatRead_of_each (fun item : UInt64 × Bytes => (Value.int item.1.toNat, item.2))
      (fun _ _ h => ItemImports.read h hint) hitems] at hfound
    cases hfound
    obtain ⟨ms, hms, -⟩ := bind_eq_ok.mp hread
    rw [enumMembers_eq] at hms
    have hmembers := intEnum_eq_members hms
    exact ⟨c, nvalues, n, i, hd, hchild, hint, hn, hlength, hitems, hmembers ▸ hms⟩
  | .array child, name, body, s, depth, p, hlen, h, hread => by
    replace hread : typeFromBinary lib (fromBinary lib depth) className 18 (body ++ s) = .ok p := hread
    rw [typeFromBinary] at hread
    obtain ⟨_, hclass, -⟩ := bind_eq_ok.mp hread
    exact imports_of_fromBinary (ascii "_") child hlen h hclass
  | .map child, name, body, s, depth, p, hlen, h, hread => by
    replace hread : typeFromBinary lib (fromBinary lib depth) className 20 (body ++ s) = .ok p := hread
    rw [typeFromBinary] at hread
    obtain ⟨_, hclass, -⟩ := bind_eq_ok.mp hread
    exact imports_of_fromBinary (ascii "_") child hlen h hclass
  | .fixedArray arraySize child, name, body, s, depth, p, hlen, ⟨n, c, hd, hn, hchild⟩, hread => by
    have hn := isVaruint_of_common hn
    replace hread : typeFromBinary lib (fromBinary lib depth) className 19 (body ++ s) = .ok p := hread
    rw [hd, List.append_assoc, typeFromBinary, readVaruint_append hn] at hread
    rw [hd, List.length_append] at hlen
    obtain ⟨_, hsize, hread⟩ := bind_eq_ok.mp hread
    cases hsize
    obtain ⟨_, hclass, -⟩ := bind_eq_ok.mp hread
    exact ⟨n, c, hd, hn, imports_of_fromBinary (ascii "_") child (by omega) hchild hclass⟩
  | .union children, name, body, s, depth, p, hlen, h, hread => by
    replace hread : typeFromBinary lib (fromBinary lib depth) className 21 (body ++ s) = .ok p := hread
    rw [typeFromBinary] at hread
    obtain ⟨found, hfound, -⟩ := bind_eq_ok.mp hread
    exact childrenImport_of_unionItems children hlen (by rw [List.length_append]; omega) h hfound

theorem fieldsImport_of_objectFields : (fields : List BinarySchemaParser.Field) → {d s : Bytes} →
    {depth n : ℕ} → {p : List Field × Bytes} → d.length < depth → d.length < n →
    FieldsDerive IsCommon fields d → objectFields (fromBinary lib depth) n (d ++ s) = .ok p →
    FieldsImport lib fields d
  | _, _, _, _, 0, _, _, hn, _, _ => absurd hn (Nat.not_lt_zero _)
  | [], d, s, depth, n + 1, p, _, _, ⟨fieldFlags, name, aliases, h, t, v, hd, hhead, ht, hv⟩,
    hread => by
    rw [hd, List.append_assoc, objectFields] at hread
    obtain ⟨found, hfound, -⟩ := bind_eq_ok.mp hread
    have hv : v = [0] :=
      (default_of_common hv).resolve_right fun hv => hv.2.2
    refine ⟨fieldFlags, name, aliases, h, t, hv ▸ hd, headImports_of_readField hhead hfound,
      isVaruint_of_common ht⟩
  | .mk fieldFlags name aliases element default :: fields, d, s, depth, n + 1, p, hlen, hn,
    ⟨h, t, v, rest, hd, hhead, ht, _, hv, hrest⟩, hread => by
    have hv := default_of_common hv
    have hposv := length_pos_of_default hv
    rw [hd] at hlen hn
    simp only [List.length_append] at hlen hn
    rw [hd, objectFields] at hread
    simp only [List.append_assoc] at hread
    obtain ⟨found, hfound, hread⟩ := bind_eq_ok.mp hread
    have hhead := headImports_of_readField hhead hfound
    have hfield := hfound
    rw [readField_of_head hhead] at hfield
    obtain ⟨_, hclass, hfield⟩ := bind_eq_ok.mp hfield
    have ht := imports_of_fromBinary name element (by omega) ht hclass
    rw [fromBinary_of_imports name element t depth (by omega) ht] at hclass
    cases hclass
    have hdefault : v = [0] ∨ v = 1 :: default ∧ ElementReadable False name element default := by
      refine hv.imp id fun ⟨hv, hinstance⟩ => ⟨hv, ?_⟩
      dsimp only at hfield
      rw [hv, List.cons_append, readUnsigned_cons] at hfield
      obtain ⟨_, htag, hfield⟩ := bind_eq_ok.mp hfield
      cases htag
      dsimp only at hfield
      rw [if_pos (by decide)] at hfield
      obtain ⟨x, hx, -⟩ := bind_eq_ok.mp hfield
      exact readable_of_read name element default (rest ++ s) (proper_of_imports element ht)
        hinstance ⟨⟨x, hx⟩, False.elim⟩
    have hdefault' : v = [0] ∨ ∃ default x, v = 1 :: default ∧
        (typeClassOf name element).read (default ++ (rest ++ s)) = .ok (x, rest ++ s) := by
      refine hdefault.imp id fun ⟨hv, hreadable⟩ => ?_
      obtain ⟨x, hx, -⟩ := read_of_readable name element default (proper_of_imports element ht)
        hreadable (rest ++ s)
      exact ⟨default, x, hv, hx⟩
    rw [readField_some hhead
      (fromBinary_of_imports name element t depth (by omega) ht (v ++ (rest ++ s)))
      (typeClassOf_ne_final ht name) hdefault'] at hfound
    cases hfound
    obtain ⟨more, hmore, -⟩ := bind_eq_ok.mp hread
    exact ⟨h, t, v, rest, hd, hhead, ht, hdefault,
      fieldsImport_of_objectFields fields (by omega) (by omega) hrest hmore⟩

theorem childrenImport_of_unionItems : (children : List Element) → {name d s : Bytes} →
    {depth n : ℕ} → {p : List TypeClass × Bytes} → d.length < depth → d.length < n →
    ChildrenDerive IsCommon children name d →
    unionItems (fromBinary lib depth) n (d ++ s) = .ok p → ChildrenImport lib children d
  | _, _, _, _, _, 0, _, _, hn, _, _ => absurd hn (Nat.not_lt_zero _)
  | [], _, _, _, _, n + 1, _, _, _, h, _ => isVaruint_of_common h
  | child :: children, name, d, s, depth, n + 1, p, hlen, hn, ⟨first, rest, hd, hfirst, _, hrest⟩,
    hread => by
    rw [hd, List.length_append] at hlen hn
    rw [hd, List.append_assoc, unionItems] at hread
    obtain ⟨found, hclass, hread⟩ := bind_eq_ok.mp hread
    have hfirst := imports_of_fromBinary (ascii "_") child (by omega) hfirst hclass
    have hpos := length_pos_of_imports hfirst
    rw [fromBinary_of_imports (ascii "_") child first depth (by omega) hfirst] at hclass
    cases hclass
    have hne := typeClassOf_ne_final hfirst (ascii "_")
    dsimp only at hread
    generalize typeClassOf (ascii "_") child = typeClass at hne hread
    have hmore : ∃ more, unionItems (fromBinary lib depth) n (rest ++ s) = .ok more := by
      cases typeClass with
      | final => exact absurd rfl hne
      | _ =>
        obtain ⟨more, hmore, -⟩ := bind_eq_ok.mp hread
        exact ⟨more, hmore⟩
    obtain ⟨more, hmore⟩ := hmore
    exact ⟨first, rest, hd, hfirst,
      childrenImport_of_unionItems children (by omega) (by omega) hrest hmore⟩

end

/-! ### Agreement -/

/-- `from_binary` takes the schema, `read` takes the instance and stops where `Ignore` does, and what
it returns is the value of the element. -/
def Agrees (lib : Names) (schema : Bytes) (root : Element) (d s : Bytes) : Prop :=
  ∃ typeClass x, ofSchema lib schema = .ok typeClass ∧ typeClass.read (d ++ s) = .ok (x, s) ∧
    root.ignore (d ++ s) = .ok s ∧ elementValue root (d ++ s) = .ok (x, s)

/-- Arrays of numbers. -/
def numbers : Element := .mk [] [18, 6] none (.array (.mk [] [6] none .varuint))

end Mjlib.Telemetry.Reader
