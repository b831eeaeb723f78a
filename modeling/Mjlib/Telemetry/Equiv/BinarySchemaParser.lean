import Mjlib.Telemetry.BinarySchemaParser
import Mjlib.Telemetry.BinaryWriteArchive
import Mjlib.Telemetry.Equiv.Format

/-!
# A written schema describes the data

`elementOf` is the element of a type.  `BinarySchemaParser` makes it of the schema that
`BinarySchemaArchive` writes (`readType_visit`), and its `Ignore` steps over exactly the bytes that
`BinaryWriteArchive` writes for a value of the type (`ignore_elementOf`).
-/

namespace Mjlib.Telemetry.BinarySchemaParser

/-! ### The size of an instance -/

mutual

/-- The size of every value of the type, where `BinarySchemaParser` knows it. -/
def fixedSize : Ty → Option ℕ
  | .bool => some 1
  | .int _ size => some size.bytes
  | .float32 => some 4
  | .float64 => some 8
  | .object _ fields => fixedSizeFields fields
  | .timestamp => some 8
  | .duration => some 8
  | .bytes | .string | .vector _ | .array _ _ | .optional _ | .enum _ => none

/-- The sum of the sizes of the fields, where all of them are known. -/
def fixedSizeFields : Fields → Option ℕ
  | .nil => some 0
  | .cons _ ty rest =>
    match fixedSize ty, fixedSizeFields rest with
    | some m, some n => some (m + n)
    | _, _ => none

end

mutual

theorem length_visit_of_fixedSize : (t : Ty) → {n : ℕ} → fixedSize t = some n → (v : t.Val) →
    (BinaryWriteArchive.visit t v).length = n
  | .bool, _, h, _ => Option.some.inj h
  | .int _ size, _, h, v => (length_writeScalar size.bytes v).trans (Option.some.inj h)
  | .float32, _, h, v => (length_writeScalar 4 v).trans (Option.some.inj h)
  | .float64, _, h, v => (length_writeScalar 8 v).trans (Option.some.inj h)
  | .object _ fields, _, h, v => length_accept_of_fixedSize fields h v
  | .timestamp, _, h, _ => (length_writeScalar 8 _).trans (Option.some.inj h)
  | .duration, _, h, _ => (length_writeScalar 8 _).trans (Option.some.inj h)
  | .bytes, _, h, _ | .string, _, h, _ | .vector _, _, h, _ | .array _ _, _, h, _
  | .optional _, _, h, _ | .enum _, _, h, _ => by simp [fixedSize] at h

theorem length_accept_of_fixedSize : (fields : Fields) → {n : ℕ} →
    fixedSizeFields fields = some n → (v : fields.Vals) →
    (BinaryWriteArchive.accept fields v).length = n
  | .nil, _, h, _ => Option.some.inj h
  | .cons _ ty rest, n, h, v => by
    rw [fixedSizeFields] at h
    cases hty : fixedSize ty with
    | none => simp [hty] at h
    | some k =>
      cases hrest : fixedSizeFields rest with
      | none => simp [hty, hrest] at h
      | some m =>
        simp only [hty, hrest, Option.some.injEq] at h
        rw [BinaryWriteArchive.accept, List.length_append, length_visit_of_fixedSize ty hty v.1,
          length_accept_of_fixedSize rest hrest v.2, h]

end

/-! ### The element of a type -/

section

variable (fresh : Fresh) (emitDefault : Bool)

mutual

/-- The shape of the element of a type, read from the schema that was written visiting `v`. -/
def shapeOf (name : Bytes) : (t : Ty) → (v : t.Val) → Shape
  | .bool, _ => .boolean
  | .int true size, _ => .fixedInt (UInt8.ofNat size.bytes)
  | .int false size, _ => .fixedUInt (UInt8.ofNat size.bytes)
  | .float32, _ => .float32
  | .float64, _ => .float64
  | .bytes, _ => .bytes
  | .string, _ => .string
  | .vector elem, _ =>
    .array (.mk name (BinarySchemaArchive.visit fresh emitDefault elem (fresh.valueInit elem))
      (fixedSize elem) (shapeOf name elem (fresh.valueInit elem)))
  | .array elem n, _ =>
    .fixedArray n
      (.mk name (BinarySchemaArchive.visit fresh emitDefault elem (fresh.valueInit elem))
        (fixedSize elem) (shapeOf name elem (fresh.valueInit elem)))
  | .optional elem, _ =>
    .union [.mk name (writeType .kNull) (some 0) .null,
      .mk name (BinarySchemaArchive.visit fresh emitDefault elem (fresh.defaultInit elem))
        (fixedSize elem) (shapeOf name elem (fresh.defaultInit elem))]
  | .enum e, _ =>
    .enum (.mk name (writeType .kVaruint) none .varuint)
      (e.items.val.map fun pair => (e.toUInt64 pair.1, pair.2.val))
  | .object _ fields, v => .object 0 (fieldsOf fields v)
  | .timestamp, _ => .timestamp
  | .duration, _ => .duration

/-- The fields of the element of an object. -/
def fieldsOf : (fields : Fields) → (v : fields.Vals) → List Field
  | .nil, _ => []
  | .cons name ty rest, v =>
    .mk 0 name.val []
      (.mk name.val (BinarySchemaArchive.visit fresh emitDefault ty v.1) (fixedSize ty)
        (shapeOf name.val ty v.1))
      (if emitDefault then BinaryWriteArchive.visit ty v.1 else []) :: fieldsOf rest v.2

end

/-- The element of a type. -/
def elementOf (name : Bytes) (t : Ty) (v : t.Val) : Element :=
  .mk name (BinarySchemaArchive.visit fresh emitDefault t v) (fixedSize t)
    (shapeOf fresh emitDefault name t v)

end

/-! ### Stepping over a value -/

@[simp] theorem value_readVaruint_writeVaruint (v : UInt64) (s : Bytes) :
    value (readVaruint (writeVaruint v ++ s)) = .ok (v, s) := by
  rw [readVaruint_writeVaruint, value]

theorem streamsize_of_lt {size : UInt64} (h : size.toNat < 2 ^ 63) : streamsize size = size.toNat :=
  BitVec.toInt_eq_toNat_of_lt (by
    rw [show size.toBitVec.toNat = size.toNat from rfl]
    omega)

theorem ignoreBytes_natCast (n : ℕ) (s : Bytes) : ignoreBytes n s = .ok (s.drop n) := by
  rw [ignoreBytes, if_neg (by omega), Int.toNat_natCast]

theorem ignoreBytes_append {size : UInt64} {data : Bytes} (hsize : size.toNat = data.length)
    (s : Bytes) (hlen : (data ++ s).length < 2 ^ 63) :
    ignoreBytes (streamsize size) (data ++ s) = .ok s := by
  rw [List.length_append] at hlen
  rw [streamsize_of_lt (by omega), ignoreBytes_natCast, hsize, List.drop_left' rfl]

section Items

variable {α : Type} {write : α → Bytes} {ignore : Bytes → Except Error Bytes} {items : List α}

theorem repeatIgnore_append
    (hignore : ∀ x ∈ items, ∀ s, (write x ++ s).length < 2 ^ 63 → ignore (write x ++ s) = .ok s)
    (s : Bytes) (hlen : (items.flatMap write ++ s).length < 2 ^ 63) :
    repeatIgnore ignore items.length (items.flatMap write ++ s) = .ok s := by
  induction items with
  | nil => rfl
  | cons x items ih =>
    rw [List.flatMap_cons, List.append_assoc] at hlen ⊢
    rw [List.length_cons, repeatIgnore, hignore x (by simp) _ hlen]
    exact ih (fun x hx => hignore x (List.mem_cons_of_mem _ hx))
      (by rw [List.length_append] at hlen; omega)

/-- The bytes of items of one size. -/
theorem length_flatMap_of_forall {n : ℕ} (h : ∀ x ∈ items, (write x).length = n) :
    (items.flatMap write).length = items.length * n := by
  induction items with
  | nil => simp
  | cons x items ih =>
    rw [List.flatMap_cons, List.length_append, h x (by simp),
      ih (fun x hx => h x (List.mem_cons_of_mem _ hx)), List.length_cons, Nat.succ_mul, Nat.add_comm]

/-- Both ways of `ignoreItems` step over exactly the items. -/
theorem ignoreItems_append {size : Option ℕ} {n : UInt64} (hn : n.toNat = items.length)
    (hsize : ∀ m, size = some m → ∀ x ∈ items, (write x).length = m)
    (hignore : ∀ x ∈ items, ∀ s, (write x ++ s).length < 2 ^ 63 → ignore (write x ++ s) = .ok s)
    (s : Bytes) (hlen : (items.flatMap write ++ s).length < 2 ^ 63) :
    ignoreItems n size ignore (items.flatMap write ++ s) = .ok s := by
  cases size with
  | none =>
    rw [ignoreItems, hn]
    exact repeatIgnore_append hignore s hlen
  | some m =>
    -- the product does not wrap: it is a number of bytes that are there
    have hflat := length_flatMap_of_forall (hsize m rfl)
    rw [ignoreItems]
    refine ignoreBytes_append ?_ s hlen
    rw [List.length_append] at hlen
    rw [UInt64.toNat_mul, UInt64.toNat_ofNat', Nat.mul_mod_mod, hn, ← hflat,
      Nat.mod_eq_of_lt (by omega)]

end Items

/-- An element of known size, whatever its shape. -/
theorem ignore_of_fixedSize {name schema data : Bytes} {n : ℕ} {shape : Shape}
    (h : data.length = n) (s : Bytes) :
    Element.ignore (.mk name schema (some n) shape) (data ++ s) = .ok s := by
  rw [Element.ignore, ignoreBytes_natCast, List.drop_left' h]

/-- Bytes and strings. -/
theorem ignore_lengthPrefixed (v : Seq UInt8) (s : Bytes)
    (hlen : (writeVaruint v.size ++ v.val ++ s).length < 2 ^ 63) :
    Shape.ignore .bytes (writeVaruint v.size ++ v.val ++ s) = .ok s := by
  rw [List.append_assoc] at hlen ⊢
  rw [Shape.ignore, value_readVaruint_writeVaruint]
  refine ignoreBytes_append (Seq.toNat_size v) s ?_
  rw [List.length_append] at hlen
  omega

variable (fresh : Fresh) (emitDefault : Bool)

mutual

/-- **The schema describes the data**: the element of a type, whatever value its schema was written
from, steps over exactly the bytes of any value of the type. -/
theorem ignore_elementOf : (t : Ty) → (name : Bytes) → (v₀ v : t.Val) → (s : Bytes) →
    (BinaryWriteArchive.visit t v ++ s).length < 2 ^ 63 →
    (elementOf fresh emitDefault name t v₀).ignore (BinaryWriteArchive.visit t v ++ s) = .ok s
  | .bool, _, _, v, s, _ => ignore_of_fixedSize (length_visit_of_fixedSize .bool rfl v) s
  | .int sg size, _, _, v, s, _ =>
    ignore_of_fixedSize (length_visit_of_fixedSize (.int sg size) rfl v) s
  | .float32, _, _, v, s, _ => ignore_of_fixedSize (length_visit_of_fixedSize .float32 rfl v) s
  | .float64, _, _, v, s, _ => ignore_of_fixedSize (length_visit_of_fixedSize .float64 rfl v) s
  | .timestamp, _, _, v, s, _ => ignore_of_fixedSize (length_visit_of_fixedSize .timestamp rfl v) s
  | .duration, _, _, v, s, _ => ignore_of_fixedSize (length_visit_of_fixedSize .duration rfl v) s
  | .bytes, _, _, v, s, h => ignore_lengthPrefixed v s h
  | .string, _, _, v, s, h => ignore_lengthPrefixed v s h
  | .vector elem, name, _, v, s, h => by
    rw [BinaryWriteArchive.visit, List.append_assoc] at h ⊢
    rw [elementOf, fixedSize, Element.ignore, shapeOf, Shape.ignore,
      value_readVaruint_writeVaruint]
    refine ignoreItems_append (Seq.toNat_size v)
      (fun m hm x _ => length_visit_of_fixedSize elem hm x)
      (fun x _ s hs => ignore_elementOf elem name _ x s hs) s ?_
    rw [List.length_append] at h
    omega
  | .array elem n, name, _, v, s, h => by
    rw [BinaryWriteArchive.visit] at h ⊢
    rw [elementOf, fixedSize, Element.ignore, shapeOf, Shape.ignore]
    exact ignoreItems_append v.property.symm
      (fun m hm x _ => length_visit_of_fixedSize elem hm x)
      (fun x _ s hs => ignore_elementOf elem name _ x s hs) s h
  | .optional elem, name, _, none, s, _ => rfl
  | .optional elem, name, _, some x, s, h => by
    rw [BinaryWriteArchive.visit, List.append_assoc] at h ⊢
    rw [elementOf, fixedSize, Element.ignore, shapeOf, Shape.ignore,
      value_readVaruint_writeVaruint]
    refine ignore_elementOf elem name _ x s ?_
    rw [List.length_append] at h
    omega
  | .enum e, _, _, v, s, _ => by
    rw [elementOf, fixedSize, Element.ignore, shapeOf, Shape.ignore, Element.ignore, Shape.ignore,
      BinaryWriteArchive.visit, readVaruint_writeVaruint]
  | .object tag fields, name, v₀, v, s, h => by
    cases hsize : fixedSizeFields fields with
    | some n =>
      rw [elementOf, fixedSize, hsize]
      exact ignore_of_fixedSize (length_accept_of_fixedSize fields hsize v) s
    | none =>
      rw [elementOf, fixedSize, hsize, Element.ignore, shapeOf, Shape.ignore]
      exact ignoreFields_fieldsOf fields v₀ v s h

/-- The same for the fields of an object. -/
theorem ignoreFields_fieldsOf : (fields : Fields) → (v₀ v : fields.Vals) → (s : Bytes) →
    (BinaryWriteArchive.accept fields v ++ s).length < 2 ^ 63 →
    ignoreFields (fieldsOf fresh emitDefault fields v₀) (BinaryWriteArchive.accept fields v ++ s) =
      .ok s
  | .nil, _, _, s, _ => rfl
  | .cons name ty rest, v₀, v, s, h => by
    rw [BinaryWriteArchive.accept, List.append_assoc] at h ⊢
    have hfirst := ignore_elementOf ty name.val v₀.1 v.1 _ h
    rw [elementOf] at hfirst
    rw [fieldsOf, ignoreFields, hfirst]
    exact ignoreFields_fieldsOf rest v₀.2 v.2 s (by rw [List.length_append] at h; omega)

end

/-! ### Parsing a written schema -/

mutual

/-- No name in the type is longer than `ReadString` allows. -/
def NamesFit : Ty → Prop
  | .vector elem | .array elem _ | .optional elem => NamesFit elem
  | .enum e => ∀ pair ∈ e.items.val, pair.2.val.length ≤ Format.kMaxStringSize
  | .object _ fields => NamesFitFields fields
  | .bool | .int _ _ | .float32 | .float64 | .bytes | .string | .timestamp | .duration => True

/-- No name in the fields is longer than `ReadString` allows. -/
def NamesFitFields : Fields → Prop
  | .nil => True
  | .cons name ty rest =>
    name.val.length ≤ Format.kMaxStringSize ∧ NamesFit ty ∧ NamesFitFields rest

end

theorem readString_of_fits {data : Seq UInt8} (h : data.val.length ≤ Format.kMaxStringSize)
    (s : Bytes) : readString (writeString data.val ++ s) = .ok (some data, s) := by
  rw [readString_writeString, if_pos h]

@[simp] theorem recorded_append (data s : Bytes) : recorded (data ++ s) s = data := by
  rw [recorded, List.length_append, Nat.add_sub_cancel, List.take_left' rfl]

/-- What is left to show of a type once its code is read. -/
theorem readType_eq {depth : ℕ} {name schema body s : Bytes} {code : Format.TypeCode}
    {shape : Shape} {size : Option ℕ} (hschema : schema = writeType code ++ body)
    (h : readShape (readType depth) name code (body ++ s) = .ok (shape, size, s)) :
    readType (depth + 1) name (schema ++ s) = .ok (.mk name schema size shape, s) := by
  subst hschema
  have hle : ¬code.toUInt64 > Format.kLastType.toUInt64 :=
    UInt64.not_lt.mpr (Format.TypeCode.toUInt64_le code)
  have hrec := recorded_append (writeType code ++ body) s
  rw [List.append_assoc] at hrec ⊢
  rw [readType, writeType, value_readVaruint_writeVaruint]
  simp only [bind, Except.bind, hle, if_false, pure, Except.pure,
    Format.TypeCode.ofUInt64_toUInt64, h]
  exact congrArg (fun schema => Except.ok (Element.mk name schema size shape, s)) hrec

/-- A type that is nothing but its code. -/
theorem readType_code {depth : ℕ} {name s : Bytes} {code : Format.TypeCode}
    {shape : Shape} {size : Option ℕ}
    (h : readShape (readType depth) name code s = .ok (shape, size, s)) :
    readType (depth + 1) name (writeType code ++ s) = .ok (.mk name (writeType code) size shape, s) :=
  readType_eq (List.append_nil _).symm h

/-- `readEnumItems` on what `VisitEnumeration` wrote, the child being a varuint. -/
theorem readEnumItems_append (name : Bytes) {α : Type} (key : α → UInt64) (text : α → Seq UInt8)
    {items : List α} (hfit : ∀ x ∈ items, (text x).val.length ≤ Format.kMaxStringSize) (s : Bytes) :
    readEnumItems (.mk name (writeType .kVaruint) none .varuint) items.length
        (items.flatMap (fun x => writeVaruint (key x) ++ writeString (text x).val) ++ s) =
      .ok (items.map fun x => (key x, (text x).val), s) := by
  induction items with
  | nil => rfl
  | cons x items ih =>
    have hrest := ih (fun x hx => hfit x (List.mem_cons_of_mem _ hx))
    rw [List.length_cons, readEnumItems, List.flatMap_cons, List.append_assoc, List.append_assoc,
      Element.readUIntLike, value_readVaruint_writeVaruint]
    simp only [bind, Except.bind]
    rw [readString_of_fits (hfit x (by simp))]
    simp only [value]
    rw [hrest]
    rfl

theorem elementOf_ne_final (name : Bytes) (t : Ty) (v : t.Val) :
    (elementOf fresh emitDefault name t v).shape ≠ .final := by
  show shapeOf fresh emitDefault name t v ≠ .final
  intro h
  cases t with
  | int signed size => cases signed <;> simp [shapeOf] at h
  | _ => simp [shapeOf] at h

/-- The sum over the fields, started with the sum `acc` of the fields before them. -/
theorem foldl_addFieldSize_fieldsOf : (fields : Fields) → (v : fields.Vals) → (acc : Option ℕ) →
    (fieldsOf fresh emitDefault fields v).foldl addFieldSize acc =
      acc.bind fun a => (fixedSizeFields fields).map (a + ·)
  | .nil, v, acc => by cases acc <;> rfl
  | .cons name ty rest, v, acc => by
    rw [fieldsOf, List.foldl_cons, foldl_addFieldSize_fieldsOf rest, fixedSizeFields]
    cases hty : fixedSize ty with
    | none => cases acc <;> simp [addFieldSize, Field.element, Element.maybeFixedSize]
    | some n =>
      cases fixedSizeFields rest with
      | none => cases acc <;> simp [addFieldSize, Field.element, Element.maybeFixedSize]
      | some m =>
        cases acc <;> simp [addFieldSize, Field.element, Element.maybeFixedSize, Nat.add_assoc]

/-- The code's sum over the fields is that of the field types. -/
theorem fieldsFixedSize_fieldsOf (fields : Fields) (v : fields.Vals) :
    fieldsFixedSize (fieldsOf fresh emitDefault fields v) = fixedSizeFields fields := by
  rw [fieldsFixedSize, foldl_addFieldSize_fieldsOf, Option.bind_some]
  cases fixedSizeFields fields <;> simp

/-- What `readField` does once the flags, the name and no aliases are read. -/
theorem readField_append (readType : Bytes → Bytes → Except Error (Element × Bytes))
    (name : Seq UInt8) (hname : name.val.length ≤ Format.kMaxStringSize) (s : Bytes) :
    readField readType (writeVaruint 0 ++ (writeString name.val ++ (writeVaruint 0 ++ s))) = (do
      let (element, s) ← readType name.val s
      let (defaultPresent, s) ← value (readU8 s)
      let (defaultValue, s) ← if defaultPresent = 1 then element.read s else pure ([], s)
      match element.shape with
      | .final => return (none, s)
      | _ => return (some (.mk 0 name.val [] element defaultValue), s)) := by
  rw [readField, value_readVaruint_writeVaruint]
  simp only [bind, Except.bind, readString_of_fits hname, value, readVaruint_writeVaruint]
  rfl

/-- The record that ends an object. -/
theorem readField_finish {depth : ℕ} (s : Bytes) :
    readField (readType (depth + 1)) (BinarySchemaArchive.finish ++ s) = .ok (none, s) := by
  simp only [BinarySchemaArchive.finish, List.append_assoc]
  rw [readField_append _ ⟨[], by simp⟩ (by simp), readType_code rfl]
  rfl

section Loops

variable {readType : Bytes → Bytes → Except Error (Element × Bytes)} {n : ℕ} {s s' : Bytes}

theorem readUnion_cons {name : Bytes} {child : Element} {children : List Element} {rest : Bytes}
    (hchild : readType name s = .ok (child, s')) (hne : child.shape ≠ .final)
    (hrest : readUnion readType name n s' = .ok (children, rest)) :
    readUnion readType name (n + 1) s = .ok (child :: children, rest) := by
  rw [readUnion, hchild]
  simp only [bind, Except.bind, hrest]
  rfl

theorem readUnion_final {name : Bytes} {child : Element} (hchild : readType name s = .ok (child, s'))
    (hfinal : child.shape = .final) : readUnion readType name (n + 1) s = .ok ([], s') := by
  rw [readUnion, hchild]
  simp only [bind, Except.bind, hfinal]
  rfl

theorem readFields_cons {field : Field} {fields : List Field} {rest : Bytes}
    (hfield : readField readType s = .ok (some field, s'))
    (hrest : readFields readType n s' = .ok (fields, rest)) :
    readFields readType (n + 1) s = .ok (field :: fields, rest) := by
  rw [readFields, hfield]
  simp only [bind, Except.bind, hrest]
  rfl

theorem readFields_final (hfield : readField readType s = .ok (none, s')) :
    readFields readType (n + 1) s = .ok ([], s') := by
  rw [readFields, hfield]
  rfl

/-- A field that is not the final one, with its default value or without. -/
theorem readField_some {name : Seq UInt8} (hname : name.val.length ≤ Format.kMaxStringSize)
    {element : Element} (hne : element.shape ≠ .final) {default : Bytes}
    (helement : readType name.val s =
      .ok (element, (if emitDefault then writeVaruint 1 ++ default else writeVaruint 0) ++ s'))
    (hdefault : emitDefault = true → element.ignore (default ++ s') = .ok s') :
    readField readType (writeVaruint 0 ++ (writeString name.val ++ (writeVaruint 0 ++ s))) =
      .ok (some (.mk 0 name.val [] element (if emitDefault then default else [])), s') := by
  rw [readField_append readType name hname, helement]
  cases emitDefault with
  | false =>
    simp only [bind, Except.bind, Bool.false_eq_true, if_false]
    rw [show readU8 (writeVaruint 0 ++ s') = (some 0, s') from rfl]
    simp only [value, show ¬(0 : UInt8) = 1 by decide, if_false, pure, Except.pure]
  | true =>
    simp only [bind, Except.bind, if_true, List.append_assoc]
    rw [show readU8 (writeVaruint 1 ++ (default ++ s')) = (some 1, default ++ s') from rfl]
    simp only [value, if_true, Element.read, bind, Except.bind, hdefault rfl, pure, Except.pure,
      recorded_append]

end Loops

mutual

/-- **Parsing the schema of a type** gives its element and stops behind it. -/
theorem readType_visit : (t : Ty) → NamesFit t → (v : t.Val) → (depth : ℕ) → (name s : Bytes) →
    (BinarySchemaArchive.visit fresh emitDefault t v ++ s).length < depth →
    (BinarySchemaArchive.visit fresh emitDefault t v ++ s).length < 2 ^ 63 →
    readType depth name (BinarySchemaArchive.visit fresh emitDefault t v ++ s) =
      .ok (elementOf fresh emitDefault name t v, s)
  | _, _, _, 0, _, _, h, _ => absurd h (Nat.not_lt_zero _)
  | .bool, _, _, _ + 1, _, _, _, _ => readType_code rfl
  | .float32, _, _, _ + 1, _, _, _, _ => readType_code rfl
  | .float64, _, _, _ + 1, _, _, _, _ => readType_code rfl
  | .bytes, _, _, _ + 1, _, _, _, _ => readType_code rfl
  | .string, _, _, _ + 1, _, _, _, _ => readType_code rfl
  | .timestamp, _, _, _ + 1, _, _, _, _ => readType_code rfl
  | .duration, _, _, _ + 1, _, _, _, _ => readType_code rfl
  | .int true size, _, _, depth + 1, name, s, _, _ => by
    cases size <;> exact readType_eq rfl rfl
  | .int false size, _, _, depth + 1, name, s, _, _ => by
    cases size <;> exact readType_eq rfl rfl
  | .vector elem, hn, _, depth + 1, name, s, h, h63 => by
    have hpos := length_writeVaruint_pos Format.TypeCode.kArray.toUInt64
    simp only [BinarySchemaArchive.visit, writeType, List.length_append] at h h63
    have helem := readType_visit elem hn (fresh.valueInit elem) depth name s
      (by rw [List.length_append]; omega) (by rw [List.length_append]; omega)
    refine readType_eq rfl ?_
    rw [readShape, helem]
    rfl
  | .array elem n, hn, _, depth + 1, name, s, h, h63 => by
    have hpos := length_writeVaruint_pos Format.TypeCode.kFixedArray.toUInt64
    simp only [BinarySchemaArchive.visit, writeType, List.length_append] at h h63
    have helem := readType_visit elem hn (fresh.valueInit elem) depth name s
      (by rw [List.length_append]; omega) (by rw [List.length_append]; omega)
    refine readType_eq (List.append_assoc _ _ _) ?_
    rw [readShape, List.append_assoc, value_readVaruint_writeVaruint]
    simp only [bind, Except.bind]
    rw [helem]
    rfl
  | .optional elem, hn, v, depth + 1, name, s, h, h63 => by
    have hpos := length_writeVaruint_pos Format.TypeCode.kUnion.toUInt64
    have hnull := length_writeVaruint_pos Format.TypeCode.kNull.toUInt64
    simp only [BinarySchemaArchive.visit, writeType, List.length_append] at h h63
    have helem := readType_visit elem hn (fresh.defaultInit elem) depth name
      (writeType .kFinal ++ s)
      (by simp only [writeType, List.length_append]; omega)
      (by simp only [writeType, List.length_append]; omega)
    obtain ⟨depth, rfl⟩ : ∃ d, depth = d + 1 := ⟨depth - 1, by omega⟩
    have hschema : BinarySchemaArchive.visit fresh emitDefault (.optional elem) v =
        writeType .kUnion ++ (writeType .kNull ++
          (BinarySchemaArchive.visit fresh emitDefault elem (fresh.defaultInit elem) ++
            writeType .kFinal)) := by
      rw [BinarySchemaArchive.visit, List.append_assoc, List.append_assoc]
    -- null, the type and the final mark: three turns of the loop
    have hunion : ∀ n, readUnion (readType (depth + 1)) name (n + 3)
        (writeType .kNull ++ (BinarySchemaArchive.visit fresh emitDefault elem
          (fresh.defaultInit elem) ++ (writeType .kFinal ++ s))) =
          .ok ([.mk name (writeType .kNull) (some 0) .null,
            elementOf fresh emitDefault name elem (fresh.defaultInit elem)], s) := fun n =>
      readUnion_cons (readType_code rfl) nofun
        (readUnion_cons helem (elementOf_ne_final fresh emitDefault name elem _)
          (readUnion_final (readType_code rfl) rfl))
    refine readType_eq hschema ?_
    have hfinal := length_writeVaruint_pos Format.TypeCode.kFinal.toUInt64
    obtain ⟨n, hn⟩ := Nat.exists_eq_add_of_le' (show 3 ≤ (writeType .kNull ++
      (BinarySchemaArchive.visit fresh emitDefault elem (fresh.defaultInit elem) ++
        writeType .kFinal) ++ s).length + 1 by simp only [writeType, List.length_append]; omega)
    rw [readShape, hn]
    simp only [List.append_assoc, hunion]
    rfl
  | .enum e, hn, v, depth + 1, name, s, h, h63 => by
    have hpos := length_writeVaruint_pos Format.TypeCode.kEnum.toUInt64
    simp only [BinarySchemaArchive.visit, BinarySchemaArchive.visitEnumeration, writeType,
      List.length_append] at h h63
    obtain ⟨depth, rfl⟩ : ∃ d, depth = d + 1 := ⟨depth - 1, by
      have := length_writeVaruint_pos Format.TypeCode.kVaruint.toUInt64
      omega⟩
    have hschema : BinarySchemaArchive.visit fresh emitDefault (.enum e) v =
        writeType .kEnum ++ (writeType .kVaruint ++ (writeVaruint e.items.size ++
          e.items.val.flatMap fun pair =>
            writeVaruint (e.toUInt64 pair.1) ++ writeString pair.2.val)) := by
      rw [BinarySchemaArchive.visit, BinarySchemaArchive.visitEnumeration, List.append_assoc,
        List.append_assoc]
    refine readType_eq hschema ?_
    have hfit : ∀ pair ∈ e.items.val, pair.2.val.length ≤ Format.kMaxStringSize := hn
    have hitems := readEnumItems_append name (fun pair => e.toUInt64 pair.1)
      (fun pair : Word e.size × Seq UInt8 => pair.2) hfit s
    rw [readShape, List.append_assoc, readType_code rfl]
    simp only [bind, Except.bind, List.append_assoc, value_readVaruint_writeVaruint,
      Seq.toNat_size, hitems]
    rfl
  | .object tag fields, hn, v, depth + 1, name, s, h, h63 => by
    have hpos := length_writeVaruint_pos Format.TypeCode.kObject.toUInt64
    simp only [BinarySchemaArchive.visit, writeType, List.length_append] at h h63
    have hschema : BinarySchemaArchive.visit fresh emitDefault (.object tag fields) v =
        writeType .kObject ++ (writeVaruint 0 ++
          (BinarySchemaArchive.visitFields fresh emitDefault fields v ++
            BinarySchemaArchive.finish)) := by
      rw [BinarySchemaArchive.visit, List.append_assoc, List.append_assoc]
    refine readType_eq hschema ?_
    rw [readShape, List.append_assoc, value_readVaruint_writeVaruint]
    simp only [bind, Except.bind, List.append_assoc]
    rw [readFields_visitFields fields hn v depth _ s (by simp only [List.length_append]; omega)
      (Nat.lt_succ_self _) (by simp only [List.length_append]; omega)]
    simp only [fieldsFixedSize_fieldsOf]
    rfl

/-- The same for the fields of an object, up to the final one. -/
theorem readFields_visitFields : (fields : Fields) → NamesFitFields fields → (v : fields.Vals) →
    (depth n : ℕ) → (s : Bytes) →
    (BinarySchemaArchive.visitFields fresh emitDefault fields v ++ (BinarySchemaArchive.finish ++ s)).length
      < depth →
    (BinarySchemaArchive.visitFields fresh emitDefault fields v ++ (BinarySchemaArchive.finish ++ s)).length
      < n →
    (BinarySchemaArchive.visitFields fresh emitDefault fields v ++ (BinarySchemaArchive.finish ++ s)).length
      < 2 ^ 63 →
    readFields (readType depth) n
        (BinarySchemaArchive.visitFields fresh emitDefault fields v ++ (BinarySchemaArchive.finish ++ s)) =
      .ok (fieldsOf fresh emitDefault fields v, s)
  | .nil, _, _, depth, n, s, hd, hn, _ => by
    obtain ⟨depth, rfl⟩ : ∃ d, depth = d + 1 := ⟨depth - 1, by omega⟩
    obtain ⟨n, rfl⟩ : ∃ m, n = m + 1 := ⟨n - 1, by omega⟩
    exact readFields_final (readField_finish s)
  | .cons fieldName ty rest, hfit, v, depth, n, s, hd, hn, h63 => by
    obtain ⟨n, rfl⟩ : ∃ m, n = m + 1 := ⟨n - 1, by omega⟩
    simp only [BinarySchemaArchive.visitFields, List.append_assoc] at hd hn h63 ⊢
    have hpos := length_writeVaruint_pos 0
    generalize htail : BinarySchemaArchive.visitFields fresh emitDefault rest v.2 ++
      (BinarySchemaArchive.finish ++ s) = tail at *
    have htype := readType_visit ty hfit.2.1 v.1 depth fieldName.val
      ((if emitDefault then writeVaruint 1 ++ BinaryWriteArchive.visit ty v.1 else writeVaruint 0) ++
        tail)
      (by simp only [List.length_append] at hd ⊢; omega)
      (by simp only [List.length_append] at h63 ⊢; omega)
    have hrest := readFields_visitFields rest hfit.2.2 v.2 depth n s
      (by rw [htail]; simp only [List.length_append] at hd; omega)
      (by rw [htail]; simp only [List.length_append] at hn; omega)
      (by rw [htail]; simp only [List.length_append] at h63; omega)
    rw [htail] at hrest
    refine readFields_cons (readField_some emitDefault hfit.1
      (elementOf_ne_final fresh emitDefault _ ty _) htype (fun hdefault => ?_)) hrest
    refine ignore_elementOf fresh emitDefault ty _ _ _ _ ?_
    simp only [hdefault, if_true, List.length_append] at h63 ⊢
    omega

end

/-- **A written schema describes the data**: for a type whose names fit, the parser accepts the
schema, and `Ignore` of its root steps over exactly the bytes of any value of the type.  A string in
memory is shorter than `2 ^ 63`. -/
theorem parse_write (t : Ty) (hnames : NamesFit t) (v : t.Val) (name suffix : Bytes)
    (hschema : (BinarySchemaArchive.write fresh emitDefault t).length < 2 ^ 63)
    (hdata : (BinaryWriteArchive.visit t v ++ suffix).length < 2 ^ 63) :
    ∃ root, parse (BinarySchemaArchive.write fresh emitDefault t) name = .ok root ∧
      root.ignore (BinaryWriteArchive.visit t v ++ suffix) = .ok suffix := by
  refine ⟨elementOf fresh emitDefault name t (fresh.defaultInit t), ?_,
    ignore_elementOf fresh emitDefault t name _ v suffix hdata⟩
  have hread := readType_visit fresh emitDefault t hnames (fresh.defaultInit t)
    ((BinarySchemaArchive.write fresh emitDefault t).length + 1) name []
    (by rw [List.append_nil]; exact Nat.lt_succ_self _) (by rw [List.append_nil]; exact hschema)
  rw [List.append_nil] at hread
  rw [parse, BinarySchemaArchive.write] at *
  rw [hread]
  rfl

theorem parse_write_optional :
    ∃ root, parse (BinarySchemaArchive.write .zero true
        (.object 0 (.cons ⟨[120], by decide⟩ (.optional (.vector .bool)) .nil))) [] = .ok root ∧
      root.ignore ([1, 2, 0, 1] ++ [9]) = .ok [9] := by
  have h := parse_write .zero true
    (.object 0 (.cons ⟨[120], by decide⟩ (.optional (.vector .bool)) .nil))
    ⟨by decide, trivial, trivial⟩ (some ⟨[false, true], by decide⟩, ()) [] [9] (by decide) (by decide)
  exact h

/-! ### A name that does not fit -/

theorem readFields_error {depth n : ℕ} {name : Seq UInt8}
    (hlong : Format.kMaxStringSize < name.val.length) (s : Bytes) :
    readFields (readType depth) (n + 1) (writeVaruint 0 ++ (writeString name.val ++ s)) =
      .error .assertion := by
  rw [readFields, readField, value_readVaruint_writeVaruint]
  simp only [bind, Except.bind, readString_writeString, Nat.not_le.mpr hlong, if_false]

theorem readType_error {depth : ℕ} {name s : Bytes} {code : Format.TypeCode} {e : Error}
    (h : readShape (readType depth) name code s = .error e) :
    readType (depth + 1) name (writeType code ++ s) = .error e := by
  have hle : ¬code.toUInt64 > Format.kLastType.toUInt64 :=
    UInt64.not_lt.mpr (Format.TypeCode.toUInt64_le code)
  rw [readType, writeType, value_readVaruint_writeVaruint]
  simp only [bind, Except.bind, hle, if_false, Format.TypeCode.ofUInt64_toUInt64, h]

/-- A class with one member, whose name has `2 ^ 24 + 1` characters. -/
def longName : Fields := .cons ⟨List.replicate (2 ^ 24 + 1) 97, by rw [List.length_replicate]; omega⟩ .bool .nil

/-- The schema of a class with a name of more than `kMaxStringSize` characters is not accepted. -/
theorem not_parse_write :
    ¬∀ (fresh : Fresh) (emitDefault : Bool) (t : Ty) (v : t.Val) (name suffix : Bytes),
      (BinarySchemaArchive.write fresh emitDefault t).length < 2 ^ 63 →
      (BinaryWriteArchive.visit t v ++ suffix).length < 2 ^ 63 →
      ∃ root, parse (BinarySchemaArchive.write fresh emitDefault t) name = .ok root ∧
        root.ignore (BinaryWriteArchive.visit t v ++ suffix) = .ok suffix := by
  intro h
  obtain ⟨name, hlong, hname⟩ : ∃ name : Seq UInt8, name.val.length = 2 ^ 24 + 1 ∧
      longName = .cons name .bool .nil := ⟨_, List.length_replicate, rfl⟩
  have hschema : BinarySchemaArchive.write .zero false (.object 0 longName) =
      writeType .kObject ++ (writeVaruint 0 ++ (writeVaruint 0 ++ (writeString name.val ++
        (writeVaruint 0 ++ (writeType .kBoolean ++ (writeVaruint 0 ++
          BinarySchemaArchive.finish)))))) := by
    rw [hname]
    simp only [BinarySchemaArchive.write, BinarySchemaArchive.visit,
      BinarySchemaArchive.visitFields, List.append_assoc, Bool.false_eq_true, if_false,
      List.append_nil]
  have hlen : (BinarySchemaArchive.write .zero false (.object 0 longName)).length < 2 ^ 63 := by
    have h16 := length_writeVaruint_le Format.TypeCode.kObject.toUInt64
    have h2 := length_writeVaruint_le Format.TypeCode.kBoolean.toUInt64
    have h0 := length_writeVaruint_le 0
    have hsize := length_writeVaruint_le (UInt64.ofNat name.val.length)
    have hfinish : BinarySchemaArchive.finish.length = 5 := by decide
    rw [hschema]
    simp only [writeType, writeString, List.length_append]
    omega
  obtain ⟨root, hroot, -⟩ := h .zero false (.object 0 longName) (false, ()) [] [] hlen (by decide)
  have herror : readType ((BinarySchemaArchive.write .zero false (.object 0 longName)).length + 1) []
      (BinarySchemaArchive.write .zero false (.object 0 longName)) = .error .assertion := by
    rw [hschema]
    refine readType_error ?_
    rw [readShape, value_readVaruint_writeVaruint]
    simp only [bind, Except.bind]
    rw [readFields_error (by rw [hlong]; decide)]
  rw [parse, herror] at hroot
  cases hroot

end Mjlib.Telemetry.BinarySchemaParser
