import Mjlib.Telemetry.Format

/-!
# `BinarySchemaParser`

Parsing a binary schema into a tree of elements, and stepping over an instance of one.  The elements
of the model hold what their types use; the pointers to the parents serve the iteration over all
elements only and are left out.

`readType` calls itself through the readers of fields, of unions and of children; the model counts
its depth down, from a start that no schema exhausts.
-/

namespace Mjlib.Telemetry

namespace BinarySchemaParser

mutual

/-- `BinarySchemaParser::Element`: what all types have, and the rest by its type. -/
inductive Element
  | mk (name binarySchema : Bytes) (maybeFixedSize : Option ℕ) (shape : Shape)

/-- The type of an element with what is there for this type. -/
inductive Shape
  | final
  | null
  | boolean
  | fixedInt (intSize : UInt8)
  | fixedUInt (intSize : UInt8)
  | varint
  | varuint
  | float32
  | float64
  | bytes
  | string
  | object (objectFlags : UInt64) (fields : List Field)
  | enum (child : Element) (enumItems : List (UInt64 × Bytes))
  | array (child : Element)
  | fixedArray (arraySize : UInt64) (child : Element)
  | map (child : Element)
  | union (children : List Element)
  | timestamp
  | duration
  /-- A value up to `kLastType` that is none of the enumerators: 11 to 15. -/
  | unnamed (type : UInt64)

/-- `BinarySchemaParser::Field`. -/
inductive Field
  | mk (fieldFlags : UInt64) (name : Bytes) (aliases : List Bytes) (element : Element)
    (defaultValue : Bytes)

end

namespace Element

def name : Element → Bytes
  | mk name _ _ _ => name

/-- The bytes that the element was read from. -/
def binarySchema : Element → Bytes
  | mk _ binarySchema _ _ => binarySchema

/-- The size of every instance, where it is known. -/
def maybeFixedSize : Element → Option ℕ
  | mk _ _ maybeFixedSize _ => maybeFixedSize

def shape : Element → Shape
  | mk _ _ _ shape => shape

end Element

namespace Field

def name : Field → Bytes
  | mk _ name _ _ _ => name

def element : Field → Element
  | mk _ _ _ element _ => element

end Field

/-! ### Stepping over an instance -/

/-- The loops of `Ignore` over a number of elements. -/
def repeatIgnore (ignore : Bytes → Except Error Bytes) : ℕ → Bytes → Except Error Bytes
  | 0, s => .ok s
  | n + 1, s => ignore s >>= repeatIgnore ignore n

/-- `Ignore` of an array: in one step where the size of an element is known. -/
def ignoreItems (nelements : UInt64) (maybeFixedSize : Option ℕ)
    (ignore : Bytes → Except Error Bytes) (s : Bytes) : Except Error Bytes :=
  match maybeFixedSize with
  | some size => ignoreBytes (streamsize (nelements * UInt64.ofNat size)) s
  | none => repeatIgnore ignore nelements.toNat s

mutual

/-- `Element::Ignore`. -/
def Element.ignore : Element → Bytes → Except Error Bytes
  | .mk _ _ (some size) _, s => ignoreBytes size s
  | .mk _ _ none shape, s => shape.ignore s

/-- The `switch` of `Element::Ignore`. -/
def Shape.ignore : Shape → Bytes → Except Error Bytes
  | .final, _ | .null, _ | .boolean, _ | .fixedInt _, _ | .fixedUInt _, _ | .float32, _
  | .float64, _ | .timestamp, _ | .duration, _ => .error .assertion
  | .varint, s | .varuint, s => .ok (readVaruint s).2
  | .bytes, s | .string, s => do
    let (size, s) ← value (readVaruint s)
    ignoreBytes (streamsize size) s
  | .object _ fields, s => ignoreFields fields s
  | .enum child _, s => child.ignore s
  | .array child, s => do
    let (nelements, s) ← value (readVaruint s)
    ignoreItems nelements child.maybeFixedSize child.ignore s
  | .fixedArray arraySize child, s => ignoreItems arraySize child.maybeFixedSize child.ignore s
  | .map child, s => do
    let (nitems, s) ← value (readVaruint s)
    -- the key is read, and an incomplete one goes unnoticed
    repeatIgnore (fun s => do child.ignore (← readString s).2) nitems.toNat s
  | .union children, s => do
    let (index, s) ← value (readVaruint s)
    if index.toNat > children.length then throw (.invalidUnionIndex index)
    ignoreNth children index.toNat s
  | .unnamed _, s => .ok s

/-- `Ignore` of each field in turn. -/
def ignoreFields : List Field → Bytes → Except Error Bytes
  | [], s => .ok s
  | .mk _ _ _ element _ :: fields, s => do ignoreFields fields (← element.ignore s)

/-- `children[index]->Ignore`; the index one past the end gets here as well. -/
def ignoreNth : List Element → ℕ → Bytes → Except Error Bytes
  | [], _, _ => .error .pastTheEnd
  | child :: _, 0, s => child.ignore s
  | _ :: children, index + 1, s => ignoreNth children index s

end

/-- What a `RecordingStream` records between two positions of the stream. -/
def recorded (s rest : Bytes) : Bytes := s.take (s.length - rest.length)

/-- `Element::Read`. -/
def Element.read (element : Element) (s : Bytes) : Except Error (Bytes × Bytes) := do
  let rest ← element.ignore s
  return (recorded s rest, rest)

/-- `Element::ReadUIntLike`. -/
def Element.readUIntLike : Element → Bytes → Except Error (UInt64 × Bytes)
  | .mk _ _ _ (.fixedUInt intSize), s =>
    if intSize = 1 ∨ intSize = 2 ∨ intSize = 4 ∨ intSize = 8 then do
      let (x, s) ← value (readScalar intSize.toNat s)
      return (UInt64.ofNat x.toNat, s)
    else throw .assertion
  | .mk _ _ _ .varuint, s => value (readVaruint s)
  | .mk _ _ _ (.enum child _), s => child.readUIntLike s
  | _, _ => throw .assertion

/-! ### Parsing -/

/-- The aliases of a field. -/
def readAliases : ℕ → Bytes → Except Error (List Bytes × Bytes)
  | 0, s => .ok ([], s)
  | n + 1, s => do
    let (first, s) ← value (← readString s)
    let (aliases, s) ← readAliases n s
    return (first.val :: aliases, s)

/-- The values and names of an enumeration. -/
def readEnumItems (child : Element) : ℕ → Bytes → Except Error (List (UInt64 × Bytes) × Bytes)
  | 0, s => .ok ([], s)
  | n + 1, s => do
    let (key, s) ← child.readUIntLike s
    let (name, s) ← value (← readString s)
    let (items, s) ← readEnumItems child n s
    return ((key, name.val) :: items, s)

section

-- `ReadType` for what is inside a type, given the name of the new element and the stream
variable (readType : Bytes → Bytes → Except Error (Element × Bytes))

/-- `ReadField`; nothing for the final field, which is read to its end all the same. -/
def readField (s : Bytes) : Except Error (Option Field × Bytes) := do
  let (fieldFlags, s) ← value (readVaruint s)
  let (name, s) ← value (← readString s)
  let (naliases, s) ← value (readVaruint s)
  let (aliases, s) ← readAliases naliases.toNat s
  let (element, s) ← readType name.val s
  let (defaultPresent, s) ← value (readU8 s)
  let (defaultValue, s) ← if defaultPresent = 1 then element.read s else pure ([], s)
  match element.shape with
  | .final => return (none, s)
  | _ => return (some (.mk fieldFlags name.val aliases element defaultValue), s)

/-- The loop over the fields of an object, up to the final one. -/
def readFields : ℕ → Bytes → Except Error (List Field × Bytes)
  | 0, _ => .error .outOfFuel
  | n + 1, s => do
    match ← readField readType s with
    | (none, s) => return ([], s)
    | (some field, s) =>
      let (fields, s) ← readFields n s
      return (field :: fields, s)

/-- The loop over the children of a union, up to the final one. -/
def readUnion (name : Bytes) : ℕ → Bytes → Except Error (List Element × Bytes)
  | 0, _ => .error .outOfFuel
  | n + 1, s => do
    let (child, s) ← readType name s
    match child.shape with
    | .final => return ([], s)
    | _ =>
      let (children, s) ← readUnion name n s
      return (child :: children, s)

/-- One field's part in the size of an object. -/
def addFieldSize (maybeSize : Option ℕ) (field : Field) : Option ℕ :=
  match field.element.maybeFixedSize with
  | none => none
  | some size => maybeSize.map (· + size)

/-- The size of an object whose fields all have one. -/
def fieldsFixedSize (fields : List Field) : Option ℕ := fields.foldl addFieldSize (some 0)

/-- The `switch` of `ReadType`: the shape, the size of the instances and the rest of the stream. -/
def readShape (name : Bytes) (type : Format.TypeCode) (s : Bytes) :
    Except Error (Shape × Option ℕ × Bytes) :=
  match type with
  | .kFinal => .ok (.final, none, s)
  | .kNull => .ok (.null, some 0, s)
  | .kBoolean => .ok (.boolean, some 1, s)
  | .kFloat32 => .ok (.float32, some 4, s)
  | .kFloat64 => .ok (.float64, some 8, s)
  | .kVarint => .ok (.varint, none, s)
  | .kVaruint => .ok (.varuint, none, s)
  | .kBytes => .ok (.bytes, none, s)
  | .kString => .ok (.string, none, s)
  | .kFixedInt => do
    let (intSize, s) ← value (readU8 s)
    return (.fixedInt intSize, some intSize.toNat, s)
  | .kFixedUInt => do
    let (intSize, s) ← value (readU8 s)
    return (.fixedUInt intSize, some intSize.toNat, s)
  | .kObject => do
    let (objectFlags, s) ← value (readVaruint s)
    let (fields, s) ← readFields readType (s.length + 1) s
    return (.object objectFlags fields, fieldsFixedSize fields, s)
  | .kEnum => do
    let (child, s) ← readType name s
    let (nvalues, s) ← value (readVaruint s)
    let (items, s) ← readEnumItems child nvalues.toNat s
    return (.enum child items, child.maybeFixedSize, s)
  | .kFixedArray => do
    let (arraySize, s) ← value (readVaruint s)
    let (child, s) ← readType name s
    return (.fixedArray arraySize child, none, s)
  | .kArray => do
    let (child, s) ← readType name s
    return (.array child, none, s)
  | .kMap => do
    let (child, s) ← readType name s
    return (.map child, none, s)
  | .kUnion => do
    let (children, s) ← readUnion readType name (s.length + 1) s
    return (.union children, none, s)
  | .kTimestamp => .ok (.timestamp, some 8, s)
  | .kDuration => .ok (.duration, some 8, s)

end

/-- `ReadType`, to the given depth. -/
def readType : ℕ → Bytes → Bytes → Except Error (Element × Bytes)
  | 0, _, _ => .error .outOfFuel
  | depth + 1, name, s => do
    let (type, rest) ← value (readVaruint s)
    if type > Format.kLastType.toUInt64 then throw (.invalidType type)
    let (shape, maybeFixedSize, rest) ←
      match Format.TypeCode.ofUInt64 type with
      | some code => readShape (readType depth) name code rest
      | none => pure (.unnamed type, none, rest)
    return (.mk name (recorded s rest) maybeFixedSize shape, rest)

/-- `BinarySchemaParser(schema, name)` and its `root()`. -/
def parse (schema name : Bytes) : Except Error Element := do
  let (root, _) ← readType (schema.length + 1) name schema
  return root

end BinarySchemaParser

end Mjlib.Telemetry
