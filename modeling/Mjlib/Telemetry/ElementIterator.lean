import Mjlib.Telemetry.BinarySchemaParser

/-!
# `BinarySchemaParser::elements`

`ReadType` keeps the elements in `elements_`, each with a pointer to its parent and pointers to those
inside of it, and `NextElement` goes over them through these pointers.  A pointer is a place in
`elements_`.  The readers of this module are those of `BinarySchemaParser` with `elements_` and the
parent; the final markers are stored, but not listed.
-/

namespace Mjlib.Telemetry.BinarySchemaParser

/-- An element with its pointers. -/
structure Stored where
  element : Element := .mk [] [] none .final
  parent : Option ℕ
  children : List ℕ := []
  /-- The elements of the fields. -/
  fields : List ℕ := []

/-- `elements_.push_back({})`, with the parent. -/
def pushElement (parent : Option ℕ) (elements : List Stored) : List Stored :=
  elements ++ [{ parent := parent }]

/-- What was read of an element is stored. -/
def setElement (result : ℕ) (element : Element) (elements : List Stored) : List Stored :=
  elements.modify result fun stored => { stored with element := element }

/-- `result->children.push_back(child)`. -/
def pushChild (result child : ℕ) (elements : List Stored) : List Stored :=
  elements.modify result fun stored => { stored with children := stored.children ++ [child] }

/-- `result->fields.push_back(*maybe_field)`. -/
def pushField (result field : ℕ) (elements : List Stored) : List Stored :=
  elements.modify result fun stored => { stored with fields := stored.fields ++ [field] }

section

-- `ReadType` for what is inside a type, given the parent, the name, `elements_` and the stream
variable (readTypeAt :
  Option ℕ → Bytes → List Stored → Bytes → Except Error (Element × ℕ × List Stored × Bytes))

/-- `ReadField`. -/
def readFieldAt (parent : ℕ) (elements : List Stored) (s : Bytes) :
    Except Error (Option (Field × ℕ) × List Stored × Bytes) := do
  let (fieldFlags, s) ← value (readVaruint s)
  let (name, s) ← value (← readString s)
  let (naliases, s) ← value (readVaruint s)
  let (aliases, s) ← readAliases naliases.toNat s
  let (element, pointer, elements, s) ← readTypeAt (some parent) name.val elements s
  let (defaultPresent, s) ← value (readU8 s)
  let (defaultValue, s) ← if defaultPresent = 1 then element.read s else pure ([], s)
  match element.shape with
  | .final => return (none, elements, s)
  | _ => return (some (.mk fieldFlags name.val aliases element defaultValue, pointer), elements, s)

/-- The loop over the fields of an object, up to the final one. -/
def readFieldsAt (result : ℕ) : ℕ → List Stored → Bytes →
    Except Error (List Field × List Stored × Bytes)
  | 0, _, _ => .error .outOfFuel
  | n + 1, elements, s => do
    match ← readFieldAt readTypeAt result elements s with
    | (none, elements, s) => return ([], elements, s)
    | (some (field, pointer), elements, s) =>
      let (fields, elements, s) ← readFieldsAt result n (pushField result pointer elements) s
      return (field :: fields, elements, s)

/-- The loop over the children of a union, up to the final one. -/
def readUnionAt (result : ℕ) (name : Bytes) : ℕ → List Stored → Bytes →
    Except Error (List Element × List Stored × Bytes)
  | 0, _, _ => .error .outOfFuel
  | n + 1, elements, s => do
    let (child, pointer, elements, s) ← readTypeAt (some result) name elements s
    match child.shape with
    | .final => return ([], elements, s)
    | _ =>
      let (children, elements, s) ← readUnionAt result name n (pushChild result pointer elements) s
      return (child :: children, elements, s)

/-- The `switch` of `ReadType`. -/
def readShapeAt (result : ℕ) (name : Bytes) (type : Format.TypeCode) (elements : List Stored)
    (s : Bytes) : Except Error (Shape × Option ℕ × List Stored × Bytes) :=
  match type with
  | .kObject => do
    let (objectFlags, s) ← value (readVaruint s)
    let (fields, elements, s) ← readFieldsAt readTypeAt result (s.length + 1) elements s
    return (.object objectFlags fields, fieldsFixedSize fields, elements, s)
  | .kEnum => do
    let (child, pointer, elements, s) ← readTypeAt (some result) name elements s
    let elements := pushChild result pointer elements
    let (nvalues, s) ← value (readVaruint s)
    let (items, s) ← readEnumItems child nvalues.toNat s
    return (.enum child items, child.maybeFixedSize, elements, s)
  | .kFixedArray => do
    let (arraySize, s) ← value (readVaruint s)
    let (child, pointer, elements, s) ← readTypeAt (some result) name elements s
    return (.fixedArray arraySize child, none, pushChild result pointer elements, s)
  | .kArray => do
    let (child, pointer, elements, s) ← readTypeAt (some result) name elements s
    return (.array child, none, pushChild result pointer elements, s)
  | .kMap => do
    let (child, pointer, elements, s) ← readTypeAt (some result) name elements s
    return (.map child, none, pushChild result pointer elements, s)
  | .kUnion => do
    let (children, elements, s) ← readUnionAt readTypeAt result name (s.length + 1) elements s
    return (.union children, none, elements, s)
  -- nothing is inside of the others
  | _ => do
    let (shape, maybeFixedSize, s) ← readShape (fun _ _ => .error .outOfFuel) name type s
    return (shape, maybeFixedSize, elements, s)

end

/-- `ReadType`, to the given depth. -/
def readTypeAt : ℕ → Option ℕ → Bytes → List Stored → Bytes →
    Except Error (Element × ℕ × List Stored × Bytes)
  | 0, _, _, _, _ => .error .outOfFuel
  | depth + 1, parent, name, elements, s => do
    let result := elements.length
    let elements := pushElement parent elements
    let (type, rest) ← value (readVaruint s)
    if type > Format.kLastType.toUInt64 then throw (.invalidType type)
    let (shape, maybeFixedSize, elements, rest) ←
      match Format.TypeCode.ofUInt64 type with
      | some code => readShapeAt (readTypeAt depth) result name code elements rest
      | none => pure (.unnamed type, none, elements, rest)
    let element := .mk name (recorded s rest) maybeFixedSize shape
    return (element, result, setElement result element elements, rest)

/-- `BinarySchemaParser(schema, name)`: the root, and `elements_`. -/
def parseElements (schema name : Bytes) : Except Error (Element × List Stored) := do
  let (root, _, elements, _) ← readTypeAt (schema.length + 1) none name [] schema
  return (root, elements)

/-! ### Iteration -/

section

variable (elements : List Stored)

/-- A pointer is followed. -/
def deref (pointer : ℕ) : Except Error Stored :=
  match elements[pointer]? with
  | some stored => .ok stored
  | none => .error .pastTheEnd

/-- The element after the child, if there is one; the child has to be there. -/
def nextSibling (siblings : List ℕ) (child : ℕ) : Except Error (Option ℕ) :=
  match siblings.dropWhile (· ≠ child) with
  | [] => .error .assertion
  | _ :: siblings => .ok siblings.head?

/-- The loop of `NextElement`, up to a number of parents. -/
def climb : ℕ → ℕ → Except Error (Option ℕ)
  | 0, _ => .error .outOfFuel
  | n + 1, child => do
    match (← deref elements child).parent with
    | none => return none
    | some parent =>
      let stored ← deref elements parent
      if stored.children.length ≠ 0 then
        match ← nextSibling stored.children child with
        | none => climb n parent
        | some sibling => return some sibling
      else if stored.fields.length ≠ 0 then
        match ← nextSibling stored.fields child with
        | none => climb n parent
        | some sibling => return some sibling
      else climb n parent

/-- `NextElement`. -/
def nextElement (element : ℕ) : Except Error (Option ℕ) := do
  let stored ← deref elements element
  match stored.children with
  | child :: _ => return some child
  | [] =>
    match stored.fields with
    | field :: _ => return some field
    | [] => climb elements elements.length element

/-- An `ElementIterator`, up to `end()`, for a number of elements. -/
def iterate : ℕ → Option ℕ → Except Error (List ℕ)
  | _, none => .ok []
  | 0, some _ => .error .outOfFuel
  | n + 1, some element => do
    let elements ← iterate n (← nextElement elements element)
    return element :: elements

end

/-- A loop over `elements()`. -/
def visited (elements : List Stored) : Except Error (List ℕ) :=
  iterate elements elements.length (some 0)

end Mjlib.Telemetry.BinarySchemaParser
