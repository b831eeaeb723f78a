import Mjlib.Telemetry.Equiv.BinarySchemaParser.Instance

/-!
# The grammar of schemas

The binary form of a schema as the README describes it, over the elements that it stands for.  The
grammar has a place for everything that either the README or the parser lets through; what only one
of them does is an `Oddity`, and `Element.Derives` takes the oddities that are allowed.  The
documented grammar is the one without those that the README does not know (`IsDocumented`).
-/

namespace Mjlib.Telemetry.BinarySchemaParser

/-- What the README and the parser differ about. -/
inductive Oddity
  /-- A number in more than ten bytes, or beyond 64 bits. -/
  | longNumber
  /-- One of the types 11 to 15, which are undefined. -/
  | unnamedType
  /-- A final type where there is no list to end. -/
  | finalType
  /-- An integer of a size other than 1, 2, 4 and 8. -/
  | intSize
  /-- An enumeration of values that are no integers. -/
  | enumType
  /-- Flags of an object without the data that go with them. -/
  | objectFlags
  /-- A default that is there by a byte which is neither 0 nor 1. -/
  | defaultTag
  /-- A default that is no instance of the type of its field. -/
  | defaultValue
  /-- The items of an enumeration of signed integers. -/
  | signedItem
  /-- A name of more than `kMaxStringSize` bytes. -/
  | longName
  /-- The version of an object. -/
  | version
  /-- The index of a default in more bytes than one. -/
  | paddedTag
  /-- A default that is an instance which `Ignore` does not step over: one with a key of more than
  `kMaxStringSize` bytes, or of 2^63 bytes. -/
  | longDefault

namespace Oddity

/-- The README has a meaning for it. -/
def IsDocumented : Oddity → Prop
  | signedItem | longName | version | paddedTag | longDefault => True
  | _ => False

/-- The parser lets it through. -/
def IsAccepted : Oddity → Prop
  | longNumber | unnamedType | finalType | intSize | enumType | objectFlags | defaultTag
  | defaultValue => True
  | _ => False

end Oddity

/-! ### Pieces of a schema -/

/-- The bytes are read as the value, and none of those that follow them. -/
def Reads {α : Type} (read : Bytes → Except Error (α × Bytes)) (d : Bytes) (x : α) : Prop :=
  ∀ s, read (d ++ s) = .ok (x, s)

/-- `Ignore` steps over the bytes, and none of those that follow them. -/
def Skims (element : Element) (d : Bytes) : Prop := ∀ s, element.ignore (d ++ s) = .ok s

section

variable (allow : Oddity → Prop)

/-- A number. -/
def Number (x : UInt64) (d : Bytes) : Prop :=
  IsVaruint x d ∨ allow .longNumber ∧ Reads (fun s => value (readVaruint s)) d x

/-- A name. -/
def Name (name d : Bytes) : Prop :=
  ∃ size digits, Number allow size digits ∧ size.toNat = name.length ∧ d = digits ++ name ∧
    (name.length ≤ Format.kMaxStringSize ∨ allow .longName)

/-- One after the other. -/
def Each {α : Type} (P : α → Bytes → Prop) : List α → Bytes → Prop
  | [], d => d = []
  | x :: xs, d => ∃ first rest, d = first ++ rest ∧ P x first ∧ Each P xs rest

/-- The sizes of integers. -/
def IsIntSize (intSize : UInt8) : Prop := intSize = 1 ∨ intSize = 2 ∨ intSize = 4 ∨ intSize = 8

/-- The type of an enumeration is one of the integers. -/
def Shape.IsInt : Shape → Prop
  | .fixedInt _ | .fixedUInt _ | .varint | .varuint => True
  | _ => False

/-- A value of an enumeration, as 64 bits. -/
def Element.Key : Element → UInt64 → Bytes → Prop
  | .mk _ _ _ (.fixedUInt intSize), key, d =>
    IsIntSize intSize ∧ d.length = intSize.toNat ∧ key = UInt64.ofNat (LittleEndian.decode d)
  | .mk _ _ _ .varuint, key, d => Number allow key d
  | .mk _ _ _ (.fixedInt intSize), key, d =>
    allow .signedItem ∧ d.length = intSize.toNat ∧ key = UInt64.ofNat
      ((BitVec.ofNat (8 * intSize.toNat) (LittleEndian.decode d)).signExtend 64).toNat
  -- zig-zag: the lowest bit is the sign
  | .mk _ _ _ .varint, key, d =>
    allow .signedItem ∧ ∃ x, IsVaruint x d ∧ key = x >>> 1 ^^^ (0 - (x &&& 1))
  | .mk _ _ _ (.enum child _), key, d => child.Key key d
  | _, _, _ => False

/-- A value of an enumeration and its name. -/
def EnumItem (child : Element) (item : UInt64 × Bytes) (d : Bytes) : Prop :=
  ∃ k n, d = k ++ n ∧ child.Key allow item.1 k ∧ Name allow item.2 n

/-- The default of a field, a union of null and its type. -/
def Default (element : Element) (default d : Bytes) : Prop :=
  d = [0] ∧ default = [] ∨
  d = 1 :: default ∧ (element.Instance {} default ∧ (Skims element default ∨ allow .longDefault) ∨
    allow .defaultValue ∧ Skims element default) ∨
  allow .defaultTag ∧ (∃ b, b ≠ 0 ∧ b ≠ 1 ∧ d = [b]) ∧ default = [] ∨
  allow .paddedTag ∧ ∃ tag, 2 ≤ tag.length ∧
    (IsVaruint 0 tag ∧ d = tag ∧ default = [] ∨
      IsVaruint 1 tag ∧ d = tag ++ default ∧ element.Instance {} default)

/-- What a field has before its type: its flags, its name and its aliases. -/
def FieldHead (fieldFlags : UInt64) (name : Bytes) (aliases : List Bytes) (d : Bytes) : Prop :=
  ∃ f n count c a, d = f ++ (n ++ (c ++ a)) ∧ Number allow fieldFlags f ∧ Name allow name n ∧
    Number allow count c ∧ count.toNat = aliases.length ∧ Each (Name allow) aliases a

/-- The element of the final field. -/
def finalElement (name schema : Bytes) : Element := .mk name schema none .final

/-- The final field of an object. -/
def FinalField (d : Bytes) : Prop :=
  ∃ fieldFlags name aliases h t v, d = h ++ (t ++ v) ∧ FieldHead allow fieldFlags name aliases h ∧
    Number allow 0 t ∧ Default allow (finalElement name t) [] v

/-- The flags of an object, with the data that go with them. -/
def ObjectFlags (objectFlags : UInt64) (d : Bytes) : Prop :=
  Number allow objectFlags d ∧ (objectFlags = 0 ∨ allow .objectFlags) ∨
  allow .version ∧ objectFlags = 1 ∧ ∃ f version v, d = f ++ v ∧ Number allow 1 f ∧
    IsVaruint version v

end

/-- The number of a type. -/
def Shape.code : Shape → UInt64
  | .final => 0
  | .null => 1
  | .boolean => 2
  | .fixedInt _ => 3
  | .fixedUInt _ => 4
  | .varint => 5
  | .varuint => 6
  | .float32 => 7
  | .float64 => 8
  | .bytes => 9
  | .string => 10
  | .object _ _ => 16
  | .enum _ _ => 17
  | .array _ => 18
  | .fixedArray _ _ => 19
  | .map _ => 20
  | .union _ => 21
  | .timestamp => 22
  | .duration => 23
  | .unnamed type => type

/-- The type that ends a list. -/
def Shape.IsFinal : Shape → Prop
  | .final => True
  | _ => False

/-! ### Types -/

mutual

/-- The bytes are a schema of the element, with the oddities that are allowed. -/
def Element.Derives (allow : Oddity → Prop) : Element → Bytes → Bytes → Prop
  | .mk name' binarySchema maybeFixedSize shape, name, d =>
    name' = name ∧ binarySchema = d ∧ maybeFixedSize = shape.fixedSize ∧
      ∃ digits body, d = digits ++ body ∧ Number allow shape.code digits ∧
        shape.Derives allow name body

def Shape.Derives (allow : Oddity → Prop) : Shape → Bytes → Bytes → Prop
  | .final, _, d => allow .finalType ∧ d = []
  | .unnamed type, _, d => allow .unnamedType ∧ 10 < type ∧ type < 16 ∧ d = []
  | .null, _, d | .boolean, _, d | .varint, _, d | .varuint, _, d | .float32, _, d
  | .float64, _, d | .bytes, _, d | .string, _, d | .timestamp, _, d | .duration, _, d => d = []
  | .fixedInt intSize, _, d | .fixedUInt intSize, _, d =>
    d = [intSize] ∧ (IsIntSize intSize ∨ allow .intSize)
  | .object objectFlags fields, _, d => ∃ f rest, d = f ++ rest ∧ ObjectFlags allow objectFlags f ∧
      FieldsDerive allow fields rest
  | .enum child items, name, d => ∃ c nvalues n i, d = c ++ (n ++ i) ∧ child.Derives allow name c ∧
      (child.shape.IsInt ∨ allow .enumType) ∧ Number allow nvalues n ∧
      nvalues.toNat = items.length ∧ Each (EnumItem allow child) items i
  | .array child, name, d | .map child, name, d => child.Derives allow name d
  | .fixedArray arraySize child, name, d => ∃ n c, d = n ++ c ∧ Number allow arraySize n ∧
      child.Derives allow name c
  | .union children, name, d => ChildrenDerive allow children name d

/-- The fields of an object, ended by the final one. -/
def FieldsDerive (allow : Oddity → Prop) : List Field → Bytes → Prop
  | [], d => FinalField allow d
  | .mk fieldFlags name aliases element default :: fields, d => ∃ h t v rest,
    d = h ++ (t ++ (v ++ rest)) ∧ FieldHead allow fieldFlags name aliases h ∧
      element.Derives allow name t ∧ ¬ element.shape.IsFinal ∧ Default allow element default v ∧
      FieldsDerive allow fields rest

/-- The alternatives of a union, ended by the final one. -/
def ChildrenDerive (allow : Oddity → Prop) : List Element → Bytes → Bytes → Prop
  | [], _, d => Number allow 0 d
  | child :: children, name, d => ∃ first rest, d = first ++ rest ∧
      child.Derives allow name first ∧ ¬ child.shape.IsFinal ∧
      ChildrenDerive allow children name rest

end

/-- The documented grammar: a start of the string derives the element. -/
def Element.IsDocumented (root : Element) (name schema : Bytes) : Prop :=
  ∃ d rest, schema = d ++ rest ∧ root.Derives Oddity.IsDocumented name d

/-! ### More oddities -/

section

variable {allow allow' : Oddity → Prop}

theorem Number.mono (hall : ∀ o, allow o → allow' o) {x : UInt64} {d : Bytes}
    (h : Number allow x d) : Number allow' x d :=
  h.imp id fun h => ⟨hall _ h.1, h.2⟩

theorem Name.mono (hall : ∀ o, allow o → allow' o) {name d : Bytes} (h : Name allow name d) :
    Name allow' name d := by
  obtain ⟨size, digits, hdigits, hsize, hd, hfits⟩ := h
  exact ⟨size, digits, hdigits.mono hall, hsize, hd, hfits.imp id (hall _)⟩

theorem Each.mono {α : Type} {P Q : α → Bytes → Prop} (h : ∀ x d, P x d → Q x d) :
    ∀ {xs : List α} {d : Bytes}, Each P xs d → Each Q xs d
  | [], _, hd => hd
  | x :: _, _, ⟨first, rest, hd, hfirst, hrest⟩ =>
    ⟨first, rest, hd, h x first hfirst, Each.mono h hrest⟩

theorem Element.Key.mono (hall : ∀ o, allow o → allow' o) : (element : Element) →
    {key : UInt64} → {d : Bytes} → element.Key allow key d → element.Key allow' key d
  | .mk _ _ _ (.fixedUInt _), _, _, h => h
  | .mk _ _ _ .varuint, _, _, h => Number.mono hall h
  | .mk _ _ _ (.fixedInt _), _, _, h | .mk _ _ _ .varint, _, _, h => ⟨hall _ h.1, h.2⟩
  | .mk _ _ _ (.enum child _), _, _, h => Key.mono hall child h

theorem EnumItem.mono (hall : ∀ o, allow o → allow' o) {child : Element} {item : UInt64 × Bytes}
    {d : Bytes} (h : EnumItem allow child item d) : EnumItem allow' child item d := by
  obtain ⟨k, n, hd, hkey, hname⟩ := h
  exact ⟨k, n, hd, Element.Key.mono hall child hkey, hname.mono hall⟩

theorem Default.mono (hall : ∀ o, allow o → allow' o) {element : Element} {default d : Bytes}
    (h : Default allow element default d) : Default allow' element default d := by
  rcases h with h | ⟨hd, h⟩ | ⟨ho, h⟩ | ⟨ho, h⟩
  · exact .inl h
  · exact .inr (.inl ⟨hd, h.imp (fun h => ⟨h.1, h.2.imp id (hall _)⟩) fun h => ⟨hall _ h.1, h.2⟩⟩)
  · exact .inr (.inr (.inl ⟨hall _ ho, h⟩))
  · exact .inr (.inr (.inr ⟨hall _ ho, h⟩))

theorem FieldHead.mono (hall : ∀ o, allow o → allow' o) {fieldFlags : UInt64} {name : Bytes}
    {aliases : List Bytes} {d : Bytes} (h : FieldHead allow fieldFlags name aliases d) :
    FieldHead allow' fieldFlags name aliases d := by
  obtain ⟨f, n, count, c, a, hd, hflags, hname, hcount, hlen, haliases⟩ := h
  exact ⟨f, n, count, c, a, hd, hflags.mono hall, hname.mono hall, hcount.mono hall, hlen,
    haliases.mono fun _ _ => Name.mono hall⟩

theorem FinalField.mono (hall : ∀ o, allow o → allow' o) {d : Bytes} (h : FinalField allow d) :
    FinalField allow' d := by
  obtain ⟨fieldFlags, name, aliases, head, t, v, hd, hhead, ht, hv⟩ := h
  exact ⟨fieldFlags, name, aliases, head, t, v, hd, hhead.mono hall, ht.mono hall, hv.mono hall⟩

theorem ObjectFlags.mono (hall : ∀ o, allow o → allow' o) {objectFlags : UInt64} {d : Bytes}
    (h : ObjectFlags allow objectFlags d) : ObjectFlags allow' objectFlags d := by
  rcases h with ⟨hflags, h⟩ | ⟨ho, hone, f, version, v, hd, hf, hv⟩
  · exact .inl ⟨hflags.mono hall, h.imp id (hall _)⟩
  · exact .inr ⟨hall _ ho, hone, f, version, v, hd, hf.mono hall, hv⟩

mutual

/-- What derives still does with more oddities allowed. -/
theorem Element.Derives.mono (hall : ∀ o, allow o → allow' o) : (element : Element) →
    (name d : Bytes) → element.Derives allow name d → element.Derives allow' name d
  | .mk _ _ _ shape, name, _, ⟨hname, hschema, hsize, digits, body, hd, hdigits, hshape⟩ =>
    ⟨hname, hschema, hsize, digits, body, hd, hdigits.mono hall,
      Shape.Derives.mono hall shape name body hshape⟩

theorem Shape.Derives.mono (hall : ∀ o, allow o → allow' o) : (shape : Shape) →
    (name d : Bytes) → shape.Derives allow name d → shape.Derives allow' name d
  | .final, _, _, h | .unnamed _, _, _, h => ⟨hall _ h.1, h.2⟩
  | .null, _, _, h | .boolean, _, _, h | .varint, _, _, h | .varuint, _, _, h | .float32, _, _, h
  | .float64, _, _, h | .bytes, _, _, h | .string, _, _, h | .timestamp, _, _, h
  | .duration, _, _, h => h
  | .fixedInt _, _, _, h | .fixedUInt _, _, _, h => ⟨h.1, h.2.imp id (hall _)⟩
  | .object _ fields, _, _, ⟨f, rest, hd, hflags, hfields⟩ =>
    ⟨f, rest, hd, hflags.mono hall, FieldsDerive.mono hall fields rest hfields⟩
  | .enum child _, name, _, ⟨c, nvalues, n, i, hd, hchild, hint, hn, hlen, hitems⟩ =>
    ⟨c, nvalues, n, i, hd, Element.Derives.mono hall child name c hchild, hint.imp id (hall _),
      hn.mono hall, hlen, hitems.mono fun _ _ => EnumItem.mono hall⟩
  | .array child, name, d, h | .map child, name, d, h => Element.Derives.mono hall child name d h
  | .fixedArray _ child, name, _, ⟨n, c, hd, hn, hchild⟩ =>
    ⟨n, c, hd, hn.mono hall, Element.Derives.mono hall child name c hchild⟩
  | .union children, name, d, h => ChildrenDerive.mono hall children name d h

theorem FieldsDerive.mono (hall : ∀ o, allow o → allow' o) : (fields : List Field) → (d : Bytes) →
    FieldsDerive allow fields d → FieldsDerive allow' fields d
  | [], _, h => FinalField.mono hall h
  | .mk _ name _ element _ :: fields, _,
    ⟨head, t, v, rest, hd, hhead, ht, hfinal, hdefault, hrest⟩ =>
    ⟨head, t, v, rest, hd, hhead.mono hall, Element.Derives.mono hall element name t ht, hfinal,
      hdefault.mono hall, FieldsDerive.mono hall fields rest hrest⟩

theorem ChildrenDerive.mono (hall : ∀ o, allow o → allow' o) : (children : List Element) →
    (name d : Bytes) → ChildrenDerive allow children name d → ChildrenDerive allow' children name d
  | [], _, _, h => Number.mono hall h
  | child :: children, name, _, ⟨first, rest, hd, hfirst, hfinal, hrest⟩ =>
    ⟨first, rest, hd, Element.Derives.mono hall child name first hfirst, hfinal,
      ChildrenDerive.mono hall children name rest hrest⟩

end

end

/-! ### Documented types -/

mutual

/-- The integers have one of the four sizes, and the enumerations are of integers. -/
def Element.Proper : Element → Prop
  | .mk _ _ _ shape => shape.Proper

def Shape.Proper : Shape → Prop
  | .fixedInt intSize | .fixedUInt intSize => IsIntSize intSize
  | .object _ fields => FieldsProper fields
  | .enum child _ => child.shape.IsInt ∧ child.Proper
  | .array child | .fixedArray _ child | .map child => child.Proper
  | .union children => ElementsProper children
  | _ => True

def FieldsProper : List Field → Prop
  | [] => True
  | .mk _ _ _ element _ :: fields => element.Proper ∧ FieldsProper fields

def ElementsProper : List Element → Prop
  | [] => True
  | child :: children => child.Proper ∧ ElementsProper children

end

section

variable {allow : Oddity → Prop}

mutual

theorem Element.Derives.sized : (element : Element) → {name d : Bytes} →
    element.Derives allow name d → element.Sized
  | .mk _ _ _ shape, _, _, ⟨_, _, hsize, _, _, _, _, hshape⟩ =>
    ⟨hsize, Shape.Derives.sized shape hshape⟩

theorem Shape.Derives.sized : (shape : Shape) → {name d : Bytes} → shape.Derives allow name d →
    shape.Sized
  | .final, _, _, _ | .unnamed _, _, _, _ | .null, _, _, _ | .boolean, _, _, _ | .varint, _, _, _
  | .varuint, _, _, _ | .float32, _, _, _ | .float64, _, _, _ | .bytes, _, _, _ | .string, _, _, _
  | .timestamp, _, _, _ | .duration, _, _, _ | .fixedInt _, _, _, _ | .fixedUInt _, _, _, _ => trivial
  | .object _ fields, _, _, ⟨_, _, _, _, hfields⟩ => FieldsDerive.sized fields hfields
  | .enum child _, _, _, ⟨_, _, _, _, _, hchild, _⟩ => Element.Derives.sized child hchild
  | .array child, _, _, h | .map child, _, _, h => Element.Derives.sized child h
  | .fixedArray _ child, _, _, ⟨_, _, _, _, hchild⟩ => Element.Derives.sized child hchild
  | .union children, _, _, h => ChildrenDerive.sized children h

theorem FieldsDerive.sized : (fields : List Field) → {d : Bytes} → FieldsDerive allow fields d →
    FieldsSized fields
  | [], _, _ => trivial
  | .mk _ _ _ element _ :: fields, _, ⟨_, _, _, _, _, _, ht, _, _, hrest⟩ =>
    ⟨Element.Derives.sized element ht, FieldsDerive.sized fields hrest⟩

theorem ChildrenDerive.sized : (children : List Element) → {name d : Bytes} →
    ChildrenDerive allow children name d → ElementsSized children
  | [], _, _, _ => trivial
  | child :: children, _, _, ⟨_, _, _, hfirst, _, hrest⟩ =>
    ⟨Element.Derives.sized child hfirst, ChildrenDerive.sized children hrest⟩

end

mutual

/-- The types that the README knows are proper. -/
theorem Element.Derives.proper : (element : Element) → {name d : Bytes} →
    element.Derives Oddity.IsDocumented name d → element.Proper
  | .mk _ _ _ shape, _, _, ⟨_, _, _, _, _, _, _, hshape⟩ => Shape.Derives.proper shape hshape

theorem Shape.Derives.proper : (shape : Shape) → {name d : Bytes} →
    shape.Derives Oddity.IsDocumented name d → shape.Proper
  | .null, _, _, _ | .boolean, _, _, _ | .varint, _, _, _ | .varuint, _, _, _ | .float32, _, _, _
  | .float64, _, _, _ | .bytes, _, _, _ | .string, _, _, _ | .timestamp, _, _, _
  | .duration, _, _, _ => trivial
  | .fixedInt _, _, _, h | .fixedUInt _, _, _, h => h.2.resolve_right id
  | .object _ fields, _, _, ⟨_, _, _, _, hfields⟩ => FieldsDerive.proper fields hfields
  | .enum child _, _, _, ⟨_, _, _, _, _, hchild, hint, _⟩ =>
    ⟨hint.resolve_right id, Element.Derives.proper child hchild⟩
  | .array child, _, _, h | .map child, _, _, h => Element.Derives.proper child h
  | .fixedArray _ child, _, _, ⟨_, _, _, _, hchild⟩ => Element.Derives.proper child hchild
  | .union children, _, _, h => ChildrenDerive.proper children h

theorem FieldsDerive.proper : (fields : List Field) → {d : Bytes} →
    FieldsDerive Oddity.IsDocumented fields d → FieldsProper fields
  | [], _, _ => trivial
  | .mk _ _ _ element _ :: fields, _, ⟨_, _, _, _, _, _, ht, _, _, hrest⟩ =>
    ⟨Element.Derives.proper element ht, FieldsDerive.proper fields hrest⟩

theorem ChildrenDerive.proper : (children : List Element) → {name d : Bytes} →
    ChildrenDerive Oddity.IsDocumented children name d → ElementsProper children
  | [], _, _, _ => trivial
  | child :: children, _, _, ⟨_, _, _, hfirst, _, hrest⟩ =>
    ⟨Element.Derives.proper child hfirst, ChildrenDerive.proper children hrest⟩

end

end

end Mjlib.Telemetry.BinarySchemaParser
