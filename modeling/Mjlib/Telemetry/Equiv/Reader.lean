import Mjlib.Telemetry.Equiv.EmitJson
import Mjlib.Telemetry.Reader

/-!
# Values in Python and in C++

An element of the C++ schema stands for a type class of the Python reader (`typeClassOf`), and the
readers of the element for a value (`elementValue`).  `ElementReadable` is what both can read: there
the values are the same and both stop behind the instance (`read_of_readable`), and where both read an
instance it was readable (`readable_of_read`).
-/

namespace Mjlib.Telemetry.Reader

open BinarySchemaParser (Element Shape IsVaruint IsText InTurn IsIntSize FieldsInstance NthInstance
  FieldsProper ElementsProper)
open EmitJson (IsUnsigned scalarBits value_readScalar)

/-! ### The type class of an element -/

/-- The names that an enumeration is made of. -/
def itemNames (items : List (UInt64 × Bytes)) : List Bytes :=
  if items.isEmpty then [ascii "_empty"] else items.map Prod.snd

/-- Those of them that are names of members. -/
def members (className : Bytes) (items : List (UInt64 × Bytes)) : List Bytes :=
  (itemNames items).filter fun name => !isPrivate className name && !isDunder name

mutual

/-- The type class of an element; an enumeration's own class is named by the field that it is in. -/
def typeClassOf (className : Bytes) : Element → TypeClass
  | .mk _ _ _ shape => shapeClass className shape

def shapeClass (className : Bytes) : Shape → TypeClass
  | .final | .unnamed _ => .final
  | .null => .null
  | .boolean => .boolean
  | .fixedInt intSize => .fixedInt intSize.toNat
  | .fixedUInt intSize => .fixedUInt intSize.toNat
  | .varint => .varint
  | .varuint => .varuint
  | .float32 => .float32
  | .float64 => .float64
  | .bytes => .bytes
  | .string => .string
  | .object _ fields => .object (fieldClasses fields)
  | .enum child items => .enum (typeClassOf (ascii "_") child) (members className items)
  | .array child => .array (typeClassOf (ascii "_") child)
  | .fixedArray arraySize child => .fixedArray arraySize.toNat (typeClassOf (ascii "_") child)
  | .map child => .map (typeClassOf (ascii "_") child)
  | .union children => .union (childClasses children)
  | .timestamp => .timestamp
  | .duration => .duration

def fieldClasses : List BinarySchemaParser.Field → List Field
  | [] => []
  | .mk _ name _ element _ :: fields => .mk name (typeClassOf name element) :: fieldClasses fields

def childClasses : List Element → List TypeClass
  | [] => []
  | child :: children => typeClassOf (ascii "_") child :: childClasses children

end

/-! ### The value of an element -/

/-- Read one after the other. -/
def repeatValue {α : Type} (read : Bytes → Except Error (α × Bytes)) :
    ℕ → Bytes → Except Error (List α × Bytes)
  | 0, s => .ok ([], s)
  | n + 1, s => do
    let (x, s) ← read s
    let (xs, s) ← repeatValue read n s
    return (x :: xs, s)

mutual

/-- What the readers of an element return, part by part; a map has none, and is read as `Ignore`
does it.  A number of microseconds stands for its seconds, and a float is its bits. -/
def elementValue : Element → Bytes → Except Error (Value × Bytes)
  | .mk name binarySchema maybeFixedSize shape, s =>
    let element : Element := .mk name binarySchema maybeFixedSize shape
    shapeValue element shape s

def shapeValue (element : Element) : Shape → Bytes → Except Error (Value × Bytes)
  | .null, s => .ok (.none, s)
  | .boolean, s => do
    let (x, s) ← element.readBoolean s
    return (.bool x, s)
  | .fixedInt _, s | .varint, s => do
    let (x, s) ← element.readIntLike s
    return (.int x.toInt, s)
  | .fixedUInt _, s | .varuint, s | .enum _ _, s => do
    let (x, s) ← element.readUIntLike s
    return (.int x.toNat, s)
  | .float32, s => do
    let (bits, s) ← value (readScalar 4 s)
    return (.float 4 bits, s)
  | .float64, s => do
    let (bits, s) ← value (readScalar 8 s)
    return (.float 8 bits, s)
  | .bytes, s => do
    let (raw, s) ← element.readString s
    return (.bytes raw.val, s)
  | .string, s => do
    let (text, s) ← element.readString s
    return (.str text.val, s)
  | .object _ fields, s => do
    let (values, s) ← fieldsValue fields s
    return (.tuple values, s)
  | .array child, s => do
    let (arraySize, s) ← value (Telemetry.readVaruint s)
    let (values, s) ← repeatValue (elementValue child) arraySize.toNat s
    return (.list values, s)
  | .fixedArray arraySize child, s => do
    let (values, s) ← repeatValue (elementValue child) arraySize.toNat s
    return (.list values, s)
  | .map child, s => do
    let (nitems, s) ← value (Telemetry.readVaruint s)
    let (entries, s) ← repeatValue (fun s => do
      let (key, s) ← value (← Telemetry.readString s)
      let (x, s) ← elementValue child s
      return ((key.val, x), s)) nitems.toNat s
    return (.dict entries, s)
  | .union children, s => do
    let (index, s) ← value (Telemetry.readVaruint s)
    nthValue children index.toNat s
  | .timestamp, s | .duration, s => do
    let (us, s) ← element.readIntLike s
    return (.seconds us.toInt, s)
  | .final, _ | .unnamed _, _ => throw .assertion

def fieldsValue : List BinarySchemaParser.Field → Bytes → Except Error (List Value × Bytes)
  | [], s => .ok ([], s)
  | .mk _ _ _ element _ :: fields, s => do
    let (x, s) ← elementValue element s
    let (xs, s) ← fieldsValue fields s
    return (x :: xs, s)

/-- The value of the chosen alternative. -/
def nthValue : List Element → ℕ → Bytes → Except Error (Value × Bytes)
  | [], _, _ => throw .outOfRange
  | child :: _, 0, s => elementValue child s
  | _ :: children, index + 1, s => nthValue children index s

end

/-! ### What can be read -/

-- whether the element readers are asked too, or Python only
variable (both : Prop)

mutual

/-- The instances that Python reads, and the element readers if they are asked: no `varint`, which is
not implemented in Python; strings in UTF-8 and, in C++, of no more than `kMaxStringSize` bytes;
enumerations with members and, in C++, of unsigned integers. -/
def ElementReadable (className : Bytes) : Element → Bytes → Prop
  | .mk _ _ _ shape, d => ShapeReadable className shape d

def ShapeReadable (className : Bytes) : Shape → Bytes → Prop
  | .final, _ | .unnamed _, _ | .varint, _ => False
  | .null, d => d = []
  | .boolean, d => d = [0] ∨ d = [1]
  | .fixedInt intSize, d | .fixedUInt intSize, d => d.length = intSize.toNat
  | .varuint, d => ∃ x, IsVaruint x d
  | .float32, d => d.length = 4
  | .float64, d | .timestamp, d | .duration, d => d.length = 8
  | .bytes, d => ∃ raw, IsText raw d ∧ (both → raw.length ≤ Format.kMaxStringSize)
  | .string, d => ∃ text, IsText text d ∧ isUtf8 text ∧
      (both → text.length ≤ Format.kMaxStringSize)
  | .object _ fields, d => FieldsReadable fields d
  | .enum child items, d => members className items ≠ [] ∧ (both → IsUnsigned child.shape) ∧
      ElementReadable (ascii "_") child d
  | .array child, d => ∃ n digits items, d = digits ++ items ∧ IsVaruint n digits ∧
      InTurn (ElementReadable (ascii "_") child) n.toNat items
  | .fixedArray arraySize child, d => InTurn (ElementReadable (ascii "_") child) arraySize.toNat d
  | .map child, d => ∃ n digits entries, d = digits ++ entries ∧ IsVaruint n digits ∧
      InTurn (fun d => ∃ key k v, d = k ++ v ∧ IsText key k ∧ isUtf8 key ∧
        (both → key.length ≤ Format.kMaxStringSize) ∧ ElementReadable (ascii "_") child v)
        n.toNat entries
  | .union children, d => ∃ index digits chosen, d = digits ++ chosen ∧ IsVaruint index digits ∧
      NthReadable children index.toNat chosen

def FieldsReadable : List BinarySchemaParser.Field → Bytes → Prop
  | [], d => d = []
  | .mk _ name _ element _ :: fields, d => ∃ first rest, d = first ++ rest ∧
      ElementReadable name element first ∧ FieldsReadable fields rest

def NthReadable : List Element → ℕ → Bytes → Prop
  | [], _, _ => False
  | child :: _, 0, d => ElementReadable (ascii "_") child d
  | _ :: children, index + 1, d => NthReadable children index d

end

/-! ### The stream -/

theorem readVaruintLoop_append {ds : Bytes} {n : ℕ} (h : Base128.Encodes ds n) (s : Bytes) :
    ∀ {result fk : ℕ}, result + fk * n < 2 ^ 64 →
      readVaruintLoop result fk (ds ++ s) = .ok (result + fk * n, s) := by
  induction h with
  | @last b hb =>
    intro result fk _
    rw [List.singleton_append, readVaruintLoop, Base128.and_0x7f_toNat, Nat.mod_eq_of_lt hb,
      if_pos (UInt8.lt_iff_toNat_lt.mpr hb)]
  | @more b ds n hb _ ih =>
    intro result fk hlt
    have hsum : result + fk * (b.toNat % 128) + fk * 128 * n
        = result + fk * (b.toNat % 128 + 128 * n) := by ring
    have hle : result + fk * (b.toNat % 128) ≤ result + fk * (b.toNat % 128) + fk * 128 * n :=
      Nat.le_add_right _ _
    rw [List.cons_append, readVaruintLoop, Base128.and_0x7f_toNat,
      if_neg (show ¬ b < 0x80 from
        fun hlast => absurd (UInt8.lt_iff_toNat_lt.mp hlast) (not_lt.mpr hb)),
      if_neg (by omega), ih (by omega), hsum]

theorem readVaruint_append {x : UInt64} {ds : Bytes} (h : IsVaruint x ds) (s : Bytes) :
    readVaruint (ds ++ s) = .ok (x.toNat, s) := by
  have hlt := x.toNat_lt
  have hloop := readVaruintLoop_append h.1 s (by omega : 0 + 1 * x.toNat < 2 ^ 64)
  rwa [Nat.one_mul, Nat.zero_add] at hloop

theorem readBytes_append {text ds : Bytes} (h : IsText text ds) (s : Bytes) :
    readBytes (ds ++ s) = .ok (text, s) := by
  obtain ⟨size, digits, hdigits, hsize, rfl⟩ := h
  rw [List.append_assoc, readBytes, readVaruint_append hdigits]
  simp only [bind, Except.bind, List.take_left' hsize.symm, List.drop_left' hsize.symm]
  rfl

theorem readString_append {text ds : Bytes} (h : IsText text ds) (hutf8 : isUtf8 text) (s : Bytes) :
    readString (ds ++ s) = .ok (text, s) := by
  rw [readString, readBytes_append h]
  simp only [bind, Except.bind, hutf8, if_true]
  rfl

/-- A string that was read is in UTF-8. -/
theorem isUtf8_of_readString {text ds s : Bytes} {p : Bytes × Bytes} (h : IsText text ds)
    (hread : readString (ds ++ s) = .ok p) : isUtf8 text := by
  by_contra hutf8
  rw [readString, readBytes_append h] at hread
  simp only [bind, Except.bind, if_neg hutf8] at hread
  exact nomatch hread

theorem readFormat_append {size : ℕ} {d : Bytes} (h : d.length = size) (s : Bytes) :
    readFormat size (d ++ s) = .ok (scalarBits size d, s) := by
  have hle : ¬ (d ++ s).length < size := by
    rw [List.length_append]
    omega
  rw [readFormat, if_neg hle, List.take_left' h, List.drop_left' h]
  rfl

theorem readUnsigned_append {size : ℕ} {d : Bytes} (h : d.length = size) (s : Bytes) :
    readUnsigned size (d ++ s) = .ok ((scalarBits size d).toNat, s) := by
  rw [readUnsigned, readFormat_append h]
  rfl

theorem readSigned_append {size : ℕ} {d : Bytes} (h : d.length = size) (s : Bytes) :
    readSigned size (d ++ s) = .ok ((scalarBits size d).toInt, s) := by
  rw [readSigned, readFormat_append h]
  rfl

/-! ### One after the other -/

variable {both : Prop}

/-- What both readers make of an instance: the same, and not a byte of what follows. -/
def SameRead {α : Type} (both : Prop) (python : Bytes → Except Exception (α × Bytes))
    (cpp : Bytes → Except Error (α × Bytes)) (d : Bytes) : Prop :=
  ∀ s, ∃ x, python (d ++ s) = .ok (x, s) ∧ (both → cpp (d ++ s) = .ok (x, s))

/-- Both readers make something of it, if they are asked. -/
def CanRead {α : Type} (both : Prop) (python : Bytes → Except Exception (α × Bytes))
    (cpp : Bytes → Except Error (α × Bytes)) (d : Bytes) : Prop :=
  (∃ p, python d = .ok p) ∧ (both → ∃ p, cpp d = .ok p)

section

variable {α : Type} {python : Bytes → Except Exception (α × Bytes)}
  {cpp : Bytes → Except Error (α × Bytes)} {P R : Bytes → Prop}

theorem sameRead_of_inTurn (h : ∀ d, R d → SameRead both python cpp d) {n : ℕ} :
    ∀ {d : Bytes}, InTurn R n d → SameRead both (repeatRead python n) (repeatValue cpp n) d := by
  induction n with
  | zero =>
    rintro d rfl s
    exact ⟨[], rfl, fun _ => rfl⟩
  | succ n ih =>
    rintro d ⟨first, rest, rfl, hfirst, hrest⟩ s
    obtain ⟨x, hpython, hcpp⟩ := h first hfirst (rest ++ s)
    obtain ⟨xs, hpythons, hcpps⟩ := ih hrest s
    refine ⟨x :: xs, ?_, fun hboth => ?_⟩
    · rw [List.append_assoc, repeatRead, hpython]
      simp only [bind, Except.bind, hpythons]
      rfl
    · rw [List.append_assoc, repeatValue, hcpp hboth]
      simp only [bind, Except.bind, hcpps hboth]
      rfl

theorem inTurn_of_canRead (h : ∀ d, R d → SameRead both python cpp d)
    (hback : ∀ d s, P d → CanRead both python cpp (d ++ s) → R d) {n : ℕ} :
    ∀ {d s : Bytes}, InTurn P n d →
      CanRead both (repeatRead python n) (repeatValue cpp n) (d ++ s) → InTurn R n d := by
  induction n with
  | zero => exact fun hd _ => hd
  | succ n ih =>
    rintro d s ⟨first, rest, rfl, hfirst, hrest⟩ ⟨⟨p, hp⟩, hcan⟩
    rw [List.append_assoc] at hp hcan
    obtain ⟨⟨y, s₁⟩, hy, hp⟩ := bind_eq_ok.mp hp
    have hR : R first := by
      refine hback first (rest ++ s) hfirst ⟨⟨_, hy⟩, fun hboth => ?_⟩
      obtain ⟨q, hq⟩ := hcan hboth
      obtain ⟨y', hy', -⟩ := bind_eq_ok.mp hq
      exact ⟨y', hy'⟩
    -- so both are behind the first now
    obtain ⟨x, hpython, hcpp⟩ := h first hR (rest ++ s)
    rw [hpython] at hy
    obtain ⟨rfl, rfl⟩ := Prod.mk.inj (Except.ok.inj hy)
    obtain ⟨ys, hys, -⟩ := bind_eq_ok.mp hp
    refine ⟨first, rest, rfl, hR, ih (s := s) hrest ⟨⟨ys, hys⟩, fun hboth => ?_⟩⟩
    obtain ⟨q, hq⟩ := hcan hboth
    obtain ⟨z, hz, hq⟩ := bind_eq_ok.mp hq
    rw [hcpp hboth] at hz
    cases hz
    obtain ⟨zs, hzs, -⟩ := bind_eq_ok.mp hq
    exact ⟨zs, hzs⟩

end

/-! ### Readable instances -/

/-- An integer is read by both. -/
theorem sameRead_int {className name schema d : Bytes} {size : Option ℕ} {intSize : UInt8}
    (hsize : IsIntSize intSize) (h : d.length = intSize.toNat) :
    SameRead both (typeClassOf className (.mk name schema size (.fixedInt intSize))).read
      (elementValue (.mk name schema size (.fixedInt intSize))) d := by
  intro s
  have hsize' : intSize = 1 ∨ intSize = 2 ∨ intSize = 4 ∨ intSize = 8 := hsize
  refine ⟨.int (scalarBits intSize.toNat d).toInt, ?_, fun _ => ?_⟩
  · rw [typeClassOf, shapeClass, TypeClass.read, readSigned_append h]
    rfl
  · rw [elementValue, shapeValue, Element.readIntLike, if_pos hsize', value_readScalar h]
    exact congrArg (fun z => Except.ok (Value.int z, s))
      (EmitJson.toInt_signExtend_scalarBits hsize d)

theorem sameRead_uint {className name schema d : Bytes} {size : Option ℕ} {intSize : UInt8}
    (hsize : IsIntSize intSize) (h : d.length = intSize.toNat) :
    SameRead both (typeClassOf className (.mk name schema size (.fixedUInt intSize))).read
      (elementValue (.mk name schema size (.fixedUInt intSize))) d := by
  intro s
  have hsize' : intSize = 1 ∨ intSize = 2 ∨ intSize = 4 ∨ intSize = 8 := hsize
  refine ⟨.int (scalarBits intSize.toNat d).toNat, ?_, fun _ => ?_⟩
  · rw [typeClassOf, shapeClass, TypeClass.read, readUnsigned_append h]
    rfl
  · rw [elementValue, shapeValue, Element.readUIntLike, if_pos hsize', value_readScalar h]
    refine congrArg (fun n : ℕ => Except.ok (Value.int n, s)) ?_
    have hlt := EmitJson.decode_lt_of_isIntSize hsize h
    rw [EmitJson.toNat_scalarBits h, UInt64.toNat_ofNat', Nat.mod_eq_of_lt hlt]

/-- The value of an unsigned integer is what `ReadUIntLike` reads. -/
theorem readUIntLike_of_elementValue {child : Element} (hunsigned : IsUnsigned child.shape)
    {s : Bytes} {p : Value × Bytes} (h : elementValue child s = .ok p) :
    ∃ x : UInt64, child.readUIntLike s = .ok (x, p.2) ∧ p.1 = .int x.toNat := by
  cases child with
  | mk name schema size shape =>
    cases shape with
    | fixedUInt _ | varuint =>
      rw [elementValue, shapeValue] at h
      obtain ⟨⟨x, s₁⟩, hx, h⟩ := bind_eq_ok.mp h
      cases h
      exact ⟨x, hx, rfl⟩
    | _ => exact hunsigned.elim

theorem elementValue_of_readUIntLike {child : Element} (hunsigned : IsUnsigned child.shape)
    {s : Bytes} {p : UInt64 × Bytes} (h : child.readUIntLike s = .ok p) :
    ∃ q, elementValue child s = .ok q := by
  cases child with
  | mk name schema size shape =>
    cases shape with
    | fixedUInt _ | varuint =>
      rw [elementValue, shapeValue, h]
      exact ⟨_, rfl⟩
    | _ => exact hunsigned.elim

/-- What Python makes of an integer is an integer. -/
theorem enumInt_of_read {className : Bytes} {child : Element} (hint : child.shape.IsInt)
    {s : Bytes} {p : Value × Bytes} (h : (typeClassOf className child).read s = .ok p) :
    ∃ z, p.1 = .int z := by
  cases child with
  | mk name schema size shape =>
    cases shape with
    | fixedInt _ | fixedUInt _ | varuint =>
      rw [typeClassOf, shapeClass, TypeClass.read] at h
      obtain ⟨⟨x, s₁⟩, hx, h⟩ := bind_eq_ok.mp h
      cases h
      exact ⟨_, rfl⟩
    | varint =>
      rw [typeClassOf, shapeClass, TypeClass.read] at h
      exact nomatch h
    | _ => exact hint.elim

section

variable {α : Type} {python : Bytes → Except Exception (α × Bytes)}
  {cpp : Bytes → Except Error (α × Bytes)} {P R : Bytes → Prop}

/-- An entry of a map is read by both. -/
theorem entryRead_of_readable (h : ∀ d, R d → SameRead both python cpp d) (d : Bytes)
    (hd : ∃ key k v, d = k ++ v ∧ IsText key k ∧ isUtf8 key ∧
      (both → key.length ≤ Format.kMaxStringSize) ∧ R v) :
    SameRead both
      (fun s => do
        let (key, s) ← readString s
        let (x, s) ← python s
        return ((key, x), s))
      (fun s => do
        let (key, s) ← value (← Telemetry.readString s)
        let (x, s) ← cpp s
        return ((key.val, x), s)) d := by
  obtain ⟨key, k, v, rfl, hk, hutf8, hfits, hv⟩ := hd
  intro s
  obtain ⟨x, hpython, hcpp⟩ := h v hv s
  refine ⟨(key, x), ?_, fun hboth => ?_⟩
  · rw [List.append_assoc]
    simp only [readString_append hk hutf8, bind, Except.bind, hpython]
    rfl
  · obtain ⟨data, rfl, hread⟩ := hk.readString (hfits hboth) (v ++ s)
    rw [List.append_assoc]
    simp only [hread, bind, Except.bind, value, hcpp hboth]
    rfl

end

mutual

/-- **Both read what is readable**: the same value, and nothing of what follows. -/
theorem read_of_readable (className : Bytes) : (element : Element) → (d : Bytes) →
    element.Proper → ElementReadable both className element d →
    SameRead both (typeClassOf className element).read (elementValue element) d
  | .mk name schema size shape, d, hproper, h =>
    shapeRead_of_readable className name schema size shape d hproper h

theorem shapeRead_of_readable (className name schema : Bytes) (size : Option ℕ) :
    (shape : Shape) → (d : Bytes) → shape.Proper → ShapeReadable both className shape d →
    SameRead both (typeClassOf className (.mk name schema size shape)).read
      (elementValue (.mk name schema size shape)) d
  | .null, d, _, h => by
    intro s
    rw [h, typeClassOf, shapeClass]
    exact ⟨.none, by rw [TypeClass.read]; rfl, fun _ => by rw [elementValue, shapeValue]; rfl⟩
  | .boolean, d, _, h => by
    intro s
    rw [typeClassOf, shapeClass]
    rcases h with rfl | rfl
    · exact ⟨.bool false, by rw [TypeClass.read]; rfl,
        fun _ => by rw [elementValue, shapeValue]; rfl⟩
    · exact ⟨.bool true, by rw [TypeClass.read]; rfl,
        fun _ => by rw [elementValue, shapeValue]; rfl⟩
  | .fixedInt _, d, hproper, h => sameRead_int hproper h
  | .fixedUInt _, d, hproper, h => sameRead_uint hproper h
  | .varuint, d, _, ⟨x, hx⟩ => by
    intro s
    refine ⟨.int x.toNat, ?_, fun _ => ?_⟩
    · rw [typeClassOf, shapeClass, TypeClass.read, readVaruint_append hx]
      rfl
    · rw [elementValue, shapeValue, Element.readUIntLike, hx.value_read]
      rfl
  | .float32, d, _, h => by
    intro s
    refine ⟨.float 4 (scalarBits 4 d), ?_, fun _ => ?_⟩
    · rw [typeClassOf, shapeClass, TypeClass.read, readFormat_append h]
      rfl
    · rw [elementValue, shapeValue, value_readScalar h]
      rfl
  | .float64, d, _, h => by
    intro s
    refine ⟨.float 8 (scalarBits 8 d), ?_, fun _ => ?_⟩
    · rw [typeClassOf, shapeClass, TypeClass.read, readFormat_append h]
      rfl
    · rw [elementValue, shapeValue, value_readScalar h]
      rfl
  | .timestamp, d, _, h | .duration, d, _, h => by
    intro s
    refine ⟨.seconds (scalarBits 8 d).toInt, ?_, fun _ => ?_⟩
    · rw [typeClassOf, shapeClass, TypeClass.read, readSigned_append h]
      rfl
    · rw [elementValue, shapeValue, Element.readIntLike, value_readScalar h]
      rfl
  | .bytes, d, _, ⟨raw, hraw, hfits⟩ => by
    intro s
    refine ⟨.bytes raw, ?_, fun hboth => ?_⟩
    · rw [typeClassOf, shapeClass, TypeClass.read, readBytes_append hraw]
      rfl
    · obtain ⟨data, rfl, hread⟩ := hraw.readString (hfits hboth) s
      rw [elementValue, shapeValue, Element.readString, hread]
      rfl
  | .string, d, _, ⟨text, htext, hutf8, hfits⟩ => by
    intro s
    refine ⟨.str text, ?_, fun hboth => ?_⟩
    · rw [typeClassOf, shapeClass, TypeClass.read, readString_append htext hutf8]
      rfl
    · obtain ⟨data, rfl, hread⟩ := htext.readString (hfits hboth) s
      rw [elementValue, shapeValue, Element.readString, hread]
      rfl
  | .object _ fields, d, hproper, h => by
    intro s
    obtain ⟨values, hpython, hcpp⟩ := fieldsRead_of_readable fields d hproper h s
    refine ⟨.tuple values, ?_, fun hboth => ?_⟩
    · rw [typeClassOf, shapeClass, TypeClass.read, hpython]
      rfl
    · rw [elementValue, shapeValue, hcpp hboth]
      rfl
  | .enum child items, d, hproper, ⟨hmembers, hunsigned, h⟩ => by
    intro s
    obtain ⟨x, hpython, hcpp⟩ := read_of_readable (ascii "_") child d hproper.2 h s
    obtain ⟨z, rfl⟩ := enumInt_of_read hproper.1 hpython
    refine ⟨.int z, ?_, fun hboth => ?_⟩
    · rw [typeClassOf, shapeClass, TypeClass.read, hpython]
      have hempty : (members className items).isEmpty = false := by
        rw [List.isEmpty_eq_false_iff]
        exact hmembers
      simp only [bind, Except.bind, enumInt, hempty]
      rfl
    · obtain ⟨key, hkey, hz⟩ := readUIntLike_of_elementValue (hunsigned hboth) (hcpp hboth)
      rw [elementValue, shapeValue, Element.readUIntLike, hkey]
      exact congrArg (fun x => Except.ok (x, s)) hz.symm
  | .array child, d, hproper, ⟨n, digits, items, hd, hn, hitems⟩ => by
    intro s
    obtain ⟨values, hpython, hcpp⟩ := sameRead_of_inTurn
      (fun d h => read_of_readable (ascii "_") child d hproper h) hitems s
    refine ⟨.list values, ?_, fun hboth => ?_⟩
    · rw [hd, List.append_assoc, typeClassOf, shapeClass, TypeClass.read, readVaruint_append hn]
      simp only [bind, Except.bind, hpython]
      rfl
    · rw [hd, List.append_assoc, elementValue, shapeValue, hn.value_read]
      simp only [bind, Except.bind, hcpp hboth]
      rfl
  | .fixedArray arraySize child, d, hproper, hitems => by
    intro s
    obtain ⟨values, hpython, hcpp⟩ := sameRead_of_inTurn
      (fun d h => read_of_readable (ascii "_") child d hproper h) hitems s
    refine ⟨.list values, ?_, fun hboth => ?_⟩
    · rw [typeClassOf, shapeClass, TypeClass.read, hpython]
      rfl
    · rw [elementValue, shapeValue, hcpp hboth]
      rfl
  | .map child, d, hproper, ⟨n, digits, entries, hd, hn, hentries⟩ => by
    intro s
    obtain ⟨values, hpython, hcpp⟩ := sameRead_of_inTurn
      (entryRead_of_readable fun d h => read_of_readable (ascii "_") child d hproper h) hentries s
    refine ⟨.dict values, ?_, fun hboth => ?_⟩
    · rw [hd, List.append_assoc, typeClassOf, shapeClass, TypeClass.read, readVaruint_append hn]
      simp only [bind, Except.bind] at hpython ⊢
      rw [hpython]
      rfl
    · rw [hd, List.append_assoc, elementValue, shapeValue, hn.value_read]
      have h := hcpp hboth
      simp only [bind, Except.bind] at h ⊢
      rw [h]
      rfl
  | .union children, d, hproper, ⟨index, digits, chosen, hd, hindex, hchosen⟩ => by
    intro s
    obtain ⟨x, hpython, hcpp⟩ := nthRead_of_readable children index.toNat chosen hproper hchosen s
    refine ⟨x, ?_, fun hboth => ?_⟩
    · rw [hd, List.append_assoc, typeClassOf, shapeClass, TypeClass.read, readVaruint_append hindex]
      exact hpython
    · rw [hd, List.append_assoc, elementValue, shapeValue, hindex.value_read]
      exact hcpp hboth

theorem fieldsRead_of_readable : (fields : List BinarySchemaParser.Field) → (d : Bytes) →
    FieldsProper fields → FieldsReadable both fields d →
    SameRead both (readFields (fieldClasses fields)) (fieldsValue fields) d
  | [], d, _, h => by
    intro s
    rw [h, fieldClasses]
    exact ⟨[], by rw [readFields]; rfl, fun _ => by rw [fieldsValue]; rfl⟩
  | .mk _ name _ element _ :: fields, d, hproper, ⟨first, rest, hd, hfirst, hrest⟩ => by
    intro s
    obtain ⟨x, hpython, hcpp⟩ := read_of_readable name element first hproper.1 hfirst (rest ++ s)
    obtain ⟨xs, hpythons, hcpps⟩ := fieldsRead_of_readable fields rest hproper.2 hrest s
    refine ⟨x :: xs, ?_, fun hboth => ?_⟩
    · rw [hd, List.append_assoc, fieldClasses, readFields, hpython]
      simp only [bind, Except.bind, hpythons]
      rfl
    · rw [hd, List.append_assoc, fieldsValue, hcpp hboth]
      simp only [bind, Except.bind, hcpps hboth]
      rfl

theorem nthRead_of_readable : (children : List Element) → (index : ℕ) → (d : Bytes) →
    ElementsProper children → NthReadable both children index d →
    SameRead both (readNth (childClasses children) index) (nthValue children index) d
  | child :: _, 0, d, hproper, h => by
    intro s
    obtain ⟨x, hpython, hcpp⟩ := read_of_readable (ascii "_") child d hproper.1 h s
    refine ⟨x, ?_, fun hboth => ?_⟩
    · rw [childClasses, readNth]
      exact hpython
    · rw [nthValue]
      exact hcpp hboth
  | _ :: children, index + 1, d, hproper, h => by
    intro s
    obtain ⟨x, hpython, hcpp⟩ := nthRead_of_readable children index d hproper.2 h s
    refine ⟨x, ?_, fun hboth => ?_⟩
    · rw [childClasses, readNth]
      exact hpython
    · rw [nthValue]
      exact hcpp hboth

end

/-! ### What was read was readable -/

/-- A string that `ReadString` reads is not too long. -/
theorem fits_of_elementReadString {text d s name schema : Bytes} {size : Option ℕ} {shape : Shape}
    {p : Seq UInt8 × Bytes} (h : IsText text d)
    (hread : Element.readString (.mk name schema size shape) (d ++ s) = .ok p) :
    text.length ≤ Format.kMaxStringSize := by
  cases shape with
  | bytes | string => exact (h.of_readString hread).1
  | _ => exact nomatch hread

/-- The readers of integers fail for the types of an enumeration that are signed. -/
theorem isUnsigned_of_readUIntLike {child : Element} (hint : child.shape.IsInt) {s : Bytes}
    {p : UInt64 × Bytes} (h : child.readUIntLike s = .ok p) : IsUnsigned child.shape := by
  by_contra hunsigned
  rw [EmitJson.readUIntLike_of_not_unsigned hint hunsigned] at h
  exact nomatch h

section

variable {α : Type} {python : Bytes → Except Exception (α × Bytes)}
  {cpp : Bytes → Except Error (α × Bytes)} {P R : Bytes → Prop}

/-- An entry of a map that was read was readable. -/
theorem entryReadable_of_canRead (hback : ∀ d s, P d → CanRead both python cpp (d ++ s) → R d)
    (d s : Bytes) (hd : ∃ key k v, d = k ++ v ∧ IsText key k ∧ True ∧ P v)
    (h : CanRead both
      (fun s => do
        let (key, s) ← readString s
        let (x, s) ← python s
        return ((key, x), s))
      (fun s => do
        let (key, s) ← value (← Telemetry.readString s)
        let (x, s) ← cpp s
        return ((key.val, x), s)) (d ++ s)) :
    ∃ key k v, d = k ++ v ∧ IsText key k ∧ isUtf8 key ∧
      (both → key.length ≤ Format.kMaxStringSize) ∧ R v := by
  obtain ⟨key, k, v, rfl, hk, -, hv⟩ := hd
  obtain ⟨⟨p, hp⟩, hcan⟩ := h
  rw [List.append_assoc] at hp hcan
  obtain ⟨⟨key', s₁⟩, hkey, hp⟩ := bind_eq_ok.mp hp
  have hutf8 := isUtf8_of_readString hk hkey
  rw [readString_append hk hutf8] at hkey
  obtain ⟨rfl, rfl⟩ := Prod.mk.inj (Except.ok.inj hkey)
  obtain ⟨x, hx, -⟩ := bind_eq_ok.mp hp
  have hcpp (hboth : both) : key.length ≤ Format.kMaxStringSize ∧ ∃ y, cpp (v ++ s) = .ok y := by
    obtain ⟨q, hq⟩ := hcan hboth
    obtain ⟨found, hfound, hq⟩ := bind_eq_ok.mp hq
    obtain ⟨⟨data, s₂⟩, hdata, hq⟩ := bind_eq_ok.mp hq
    obtain ⟨hfits, -, rfl⟩ := hk.of_readString (bind_eq_ok.mpr ⟨found, hfound, hdata⟩)
    obtain ⟨y, hy, -⟩ := bind_eq_ok.mp hq
    exact ⟨hfits, y, hy⟩
  exact ⟨key, k, v, rfl, hk, hutf8, fun hboth => (hcpp hboth).1,
    hback v s hv ⟨⟨x, hx⟩, fun hboth => (hcpp hboth).2⟩⟩

end

mutual

/-- **What was read was readable.** -/
theorem readable_of_read (className : Bytes) : (element : Element) → (d s : Bytes) →
    element.Proper → element.Instance {} d →
    CanRead both (typeClassOf className element).read (elementValue element) (d ++ s) →
    ElementReadable both className element d
  | .mk name schema size shape, d, s, hproper, h, hcan =>
    shapeReadable_of_read className name schema size shape d s hproper h.2 hcan

theorem shapeReadable_of_read (className name schema : Bytes) (size : Option ℕ) :
    (shape : Shape) → (d s : Bytes) → shape.Proper → shape.Instance {} d →
    CanRead both (typeClassOf className (.mk name schema size shape)).read
      (elementValue (.mk name schema size shape)) (d ++ s) →
    ShapeReadable both className shape d
  | .null, _, _, _, h, _ | .boolean, _, _, _, h, _ | .fixedInt _, _, _, _, h, _
  | .fixedUInt _, _, _, _, h, _ | .varuint, _, _, _, h, _ | .float32, _, _, _, h, _
  | .float64, _, _, _, h, _ | .timestamp, _, _, _, h, _ | .duration, _, _, _, h, _ => h
  | .varint, d, s, _, _, ⟨⟨p, hp⟩, _⟩ => by
    rw [typeClassOf, shapeClass, TypeClass.read] at hp
    exact nomatch hp
  | .bytes, d, s, _, ⟨raw, hraw⟩, ⟨_, hcan⟩ => by
    refine ⟨raw, hraw, fun hboth => ?_⟩
    obtain ⟨q, hq⟩ := hcan hboth
    rw [elementValue, shapeValue] at hq
    obtain ⟨data, hdata, -⟩ := bind_eq_ok.mp hq
    exact fits_of_elementReadString hraw hdata
  | .string, d, s, _, ⟨text, htext⟩, ⟨⟨p, hp⟩, hcan⟩ => by
    rw [typeClassOf, shapeClass, TypeClass.read] at hp
    obtain ⟨x, hx, -⟩ := bind_eq_ok.mp hp
    refine ⟨text, htext, isUtf8_of_readString htext hx, fun hboth => ?_⟩
    obtain ⟨q, hq⟩ := hcan hboth
    rw [elementValue, shapeValue] at hq
    obtain ⟨data, hdata, -⟩ := bind_eq_ok.mp hq
    exact fits_of_elementReadString htext hdata
  | .object _ fields, d, s, hproper, h, ⟨⟨p, hp⟩, hcan⟩ => by
    rw [typeClassOf, shapeClass, TypeClass.read] at hp
    obtain ⟨x, hx, -⟩ := bind_eq_ok.mp hp
    refine fieldsReadable_of_read fields d s hproper h ⟨⟨x, hx⟩, fun hboth => ?_⟩
    obtain ⟨q, hq⟩ := hcan hboth
    rw [elementValue, shapeValue] at hq
    obtain ⟨y, hy, -⟩ := bind_eq_ok.mp hq
    exact ⟨y, hy⟩
  | .enum child items, d, s, hproper, h, ⟨⟨p, hp⟩, hcan⟩ => by
    rw [typeClassOf, shapeClass, TypeClass.read] at hp
    obtain ⟨x, hx, hp⟩ := bind_eq_ok.mp hp
    obtain ⟨z, hz, hp⟩ := bind_eq_ok.mp hp
    have hmembers : members className items ≠ [] := by
      intro hempty
      dsimp only at hp
      rw [hempty] at hp
      exact nomatch hp
    have hcpp (hboth : both) : ∃ q, child.readUIntLike (d ++ s) = .ok q := by
      obtain ⟨q, hq⟩ := hcan hboth
      rw [elementValue, shapeValue] at hq
      obtain ⟨key, hkey, -⟩ := bind_eq_ok.mp hq
      exact ⟨key, hkey⟩
    have hunsigned (hboth : both) : IsUnsigned child.shape := by
      obtain ⟨q, hq⟩ := hcpp hboth
      exact isUnsigned_of_readUIntLike hproper.1 hq
    refine ⟨hmembers, hunsigned, readable_of_read (ascii "_") child d s hproper.2 h
      ⟨⟨x, hx⟩, fun hboth => ?_⟩⟩
    obtain ⟨q, hq⟩ := hcpp hboth
    exact elementValue_of_readUIntLike (hunsigned hboth) hq
  | .array child, d, s, hproper, ⟨n, digits, items, hd, hn, hitems⟩, ⟨⟨p, hp⟩, hcan⟩ => by
    rw [hd, List.append_assoc] at hp hcan
    rw [typeClassOf, shapeClass, TypeClass.read, readVaruint_append hn] at hp
    obtain ⟨_, hsize, hp⟩ := bind_eq_ok.mp hp
    cases hsize
    obtain ⟨x, hx, -⟩ := bind_eq_ok.mp hp
    refine ⟨n, digits, items, hd, hn, inTurn_of_canRead
      (fun d h => read_of_readable (ascii "_") child d hproper h)
      (fun d s h hcan => readable_of_read (ascii "_") child d s hproper h hcan)
      (s := s) hitems ⟨⟨x, hx⟩, fun hboth => ?_⟩⟩
    obtain ⟨q, hq⟩ := hcan hboth
    rw [elementValue, shapeValue, hn.value_read] at hq
    obtain ⟨_, hsize, hq⟩ := bind_eq_ok.mp hq
    cases hsize
    obtain ⟨y, hy, -⟩ := bind_eq_ok.mp hq
    exact ⟨y, hy⟩
  | .fixedArray arraySize child, d, s, hproper, hitems, ⟨⟨p, hp⟩, hcan⟩ => by
    rw [typeClassOf, shapeClass, TypeClass.read] at hp
    obtain ⟨x, hx, -⟩ := bind_eq_ok.mp hp
    refine inTurn_of_canRead (fun d h => read_of_readable (ascii "_") child d hproper h)
      (fun d s h hcan => readable_of_read (ascii "_") child d s hproper h hcan)
      (s := s) hitems ⟨⟨x, hx⟩, fun hboth => ?_⟩
    obtain ⟨q, hq⟩ := hcan hboth
    rw [elementValue, shapeValue] at hq
    obtain ⟨y, hy, -⟩ := bind_eq_ok.mp hq
    exact ⟨y, hy⟩
  | .map child, d, s, hproper, ⟨n, digits, entries, hd, hn, hentries⟩, ⟨⟨p, hp⟩, hcan⟩ => by
    rw [hd, List.append_assoc] at hp hcan
    rw [typeClassOf, shapeClass, TypeClass.read, readVaruint_append hn] at hp
    obtain ⟨_, hsize, hp⟩ := bind_eq_ok.mp hp
    cases hsize
    obtain ⟨x, hx, -⟩ := bind_eq_ok.mp hp
    refine ⟨n, digits, entries, hd, hn, inTurn_of_canRead
      (entryRead_of_readable fun d h => read_of_readable (ascii "_") child d hproper h)
      (entryReadable_of_canRead fun d s h hcan =>
        readable_of_read (ascii "_") child d s hproper h hcan)
      (s := s) hentries ⟨⟨x, hx⟩, fun hboth => ?_⟩⟩
    obtain ⟨q, hq⟩ := hcan hboth
    rw [elementValue, shapeValue, hn.value_read] at hq
    obtain ⟨_, hsize, hq⟩ := bind_eq_ok.mp hq
    cases hsize
    obtain ⟨y, hy, -⟩ := bind_eq_ok.mp hq
    exact ⟨y, hy⟩
  | .union children, d, s, hproper, ⟨index, digits, chosen, hd, hindex, hchosen⟩,
    ⟨⟨p, hp⟩, hcan⟩ => by
    rw [hd, List.append_assoc] at hp hcan
    rw [typeClassOf, shapeClass, TypeClass.read, readVaruint_append hindex] at hp
    refine ⟨index, digits, chosen, hd, hindex, nthReadable_of_read children index.toNat chosen s
      hproper hchosen ⟨⟨p, hp⟩, fun hboth => ?_⟩⟩
    obtain ⟨q, hq⟩ := hcan hboth
    rw [elementValue, shapeValue, hindex.value_read] at hq
    exact ⟨q, hq⟩

theorem fieldsReadable_of_read : (fields : List BinarySchemaParser.Field) → (d s : Bytes) →
    FieldsProper fields → FieldsInstance {} fields d →
    CanRead both (readFields (fieldClasses fields)) (fieldsValue fields) (d ++ s) →
    FieldsReadable both fields d
  | [], _, _, _, h, _ => h
  | .mk _ name _ element _ :: fields, d, s, hproper, ⟨first, rest, hd, hfirst, hrest⟩,
    ⟨⟨p, hp⟩, hcan⟩ => by
    rw [hd, List.append_assoc] at hp hcan
    rw [fieldClasses, readFields] at hp
    obtain ⟨⟨y, s₁⟩, hy, hp⟩ := bind_eq_ok.mp hp
    have hcpp (hboth : both) : ∃ q, elementValue element (first ++ (rest ++ s)) = .ok q := by
      obtain ⟨q, hq⟩ := hcan hboth
      rw [fieldsValue] at hq
      obtain ⟨y', hy', -⟩ := bind_eq_ok.mp hq
      exact ⟨y', hy'⟩
    have hreadable := readable_of_read name element first (rest ++ s) hproper.1 hfirst
      ⟨⟨_, hy⟩, hcpp⟩
    obtain ⟨x, hpython, hsame⟩ := read_of_readable name element first hproper.1 hreadable (rest ++ s)
    rw [hpython] at hy
    obtain ⟨rfl, rfl⟩ := Prod.mk.inj (Except.ok.inj hy)
    obtain ⟨ys, hys, -⟩ := bind_eq_ok.mp hp
    refine ⟨first, rest, hd, hreadable, fieldsReadable_of_read fields rest s hproper.2 hrest
      ⟨⟨ys, hys⟩, fun hboth => ?_⟩⟩
    obtain ⟨q, hq⟩ := hcan hboth
    rw [fieldsValue, hsame hboth] at hq
    obtain ⟨_, hvalue, hq⟩ := bind_eq_ok.mp hq
    cases hvalue
    obtain ⟨zs, hzs, -⟩ := bind_eq_ok.mp hq
    exact ⟨zs, hzs⟩

theorem nthReadable_of_read : (children : List Element) → (index : ℕ) → (d s : Bytes) →
    ElementsProper children → NthInstance {} children index d →
    CanRead both (readNth (childClasses children) index) (nthValue children index) (d ++ s) →
    NthReadable both children index d
  | child :: _, 0, d, s, hproper, h, ⟨hpython, hcan⟩ => by
    rw [childClasses, readNth] at hpython
    refine readable_of_read (ascii "_") child d s hproper.1 h ⟨hpython, fun hboth => ?_⟩
    have hcpp := hcan hboth
    rwa [nthValue] at hcpp
  | _ :: children, index + 1, d, s, hproper, h, ⟨hpython, hcan⟩ => by
    rw [childClasses, readNth] at hpython
    refine nthReadable_of_read children index d s hproper.2 h ⟨hpython, fun hboth => ?_⟩
    have hcpp := hcan hboth
    rwa [nthValue] at hcpp

end

mutual

/-- What is readable in C++ is an instance that `Ignore` steps over. -/
theorem instance_of_readable (hboth : both) {className : Bytes} : (element : Element) → {d : Bytes} →
    ElementReadable both className element d → element.Instance BinarySchemaParser.keysFit d
  | .mk _ _ _ shape, _, h => ⟨trivial, shapeInstance_of_readable hboth shape h⟩

theorem shapeInstance_of_readable (hboth : both) {className : Bytes} : (shape : Shape) →
    {d : Bytes} → ShapeReadable both className shape d →
    shape.Instance BinarySchemaParser.keysFit d
  | .null, _, h | .boolean, _, h | .fixedInt _, _, h | .fixedUInt _, _, h | .varuint, _, h
  | .float32, _, h | .float64, _, h | .timestamp, _, h | .duration, _, h => h
  | .bytes, _, ⟨raw, hraw, _⟩ => ⟨raw, hraw⟩
  | .string, _, ⟨text, htext, _⟩ => ⟨text, htext⟩
  | .object _ fields, _, h => fieldsInstance_of_readable hboth fields h
  | .enum child _, _, ⟨_, _, h⟩ => instance_of_readable hboth child h
  | .array child, _, ⟨n, digits, items, hd, hn, hitems⟩ =>
    ⟨n, digits, items, hd, hn, hitems.mono fun _ h => instance_of_readable hboth child h⟩
  | .fixedArray _ child, _, h => InTurn.mono (fun _ h => instance_of_readable hboth child h) h
  | .map child, _, ⟨n, digits, entries, hd, hn, hentries⟩ => by
    refine ⟨n, digits, entries, hd, hn, hentries.mono ?_⟩
    rintro d ⟨key, k, v, rfl, hk, -, hfits, hv⟩
    exact ⟨key, k, v, rfl, hk, hfits hboth, instance_of_readable hboth child hv⟩
  | .union children, _, ⟨index, digits, chosen, hd, hindex, hchosen⟩ =>
    ⟨index, digits, chosen, hd, hindex, nthInstance_of_readable hboth children index.toNat hchosen⟩

theorem fieldsInstance_of_readable (hboth : both) : (fields : List BinarySchemaParser.Field) →
    {d : Bytes} → FieldsReadable both fields d →
    FieldsInstance BinarySchemaParser.keysFit fields d
  | [], _, h => h
  | .mk _ _ _ element _ :: fields, _, ⟨first, rest, hd, hfirst, hrest⟩ =>
    ⟨first, rest, hd, instance_of_readable hboth element hfirst,
      fieldsInstance_of_readable hboth fields hrest⟩

theorem nthInstance_of_readable (hboth : both) : (children : List Element) → (index : ℕ) →
    {d : Bytes} → NthReadable both children index d →
    NthInstance BinarySchemaParser.keysFit children index d
  | child :: _, 0, _, h => instance_of_readable hboth child h
  | _ :: children, index + 1, _, h => nthInstance_of_readable hboth children index h

end

end Mjlib.Telemetry.Reader
