import Mjlib.Base.Json5ReadArchive
import Mjlib.Lib.SortedMap

/-!
# Values in `Json5ReadArchive`

A reader of a type is a function of the value that is read into: `Value(&value)` changes some of it.
The readers of the containers are functions of the reader of what they hold, so that a reader of any
C++ type is composed of the ones here (`IsReader`).  What the C++ library makes of the text of a
number or of a time is a parameter.
-/

namespace Mjlib.Base.Json5ReadArchive

variable {α β : Type}

/-! ### The names of members -/

/-- `IsIdentifierFirstCharacter`. -/
def isIdentifierFirstCharacter (c : UInt8) : Bool :=
  (0x41 ≤ c ∧ c ≤ 0x5a) ∨ (0x61 ≤ c ∧ c ≤ 0x7a) ∨ c = 0x24 ∨ c = 0x5f

/-- `IsIdentifierCharacter`. -/
def isIdentifierCharacter (c : UInt8) : Bool :=
  isIdentifierFirstCharacter c ∨ (0x30 ≤ c ∧ c ≤ 0x39)

/-- `Read_JSON5Identifier`. -/
def readIdentifier : M Bytes := do
  let first ← get
  if isIdentifierFirstCharacter first then return first :: (← readWhile isIdentifierCharacter)
  else error ("Incorrect first character of identifer: " ++ inQuotes first)

/-- `Read_JSON5MemberName`. -/
def readMemberName : M Bytes := do
  ignoreWhitespace
  let c ← peek
  if c = some 0x22 then readString else readIdentifier

/-! ### Values that are ignored -/

-- `Options::permissive_nan`
variable (permissiveNan : Bool)

/-- The loop of `Ignore_JSON5Array`; every pass but the last takes a comma. -/
def ignoreArrayLoop (ignoreValue : M Unit) : ℕ → M Unit
  | 0 => error "Array syntax error"
  | n + 1 => do
    ignoreWhitespace
    let next ← peek
    if next = some 0x5d then
      let _ ← get
      return ()
    else
      ignoreValue
      ignoreWhitespace
      let next ← peek
      if next = some 0x2c then
        let _ ← get
        ignoreArrayLoop ignoreValue n
      else if next = some 0x5d then
        let _ ← get
        return ()
      else error "Array syntax error"

/-- `Ignore_JSON5Array`. -/
def ignoreArray (ignoreValue : M Unit) : M Unit := do
  readLiteral [0x5b]
  fun s => ignoreArrayLoop ignoreValue (s.input.length + 1) s

/-- The loop of `Ignore_JSON5Object`; every pass but the last takes a comma. -/
def ignoreObjectLoop (ignoreValue : M Unit) : ℕ → M Unit
  | 0 => error "Object syntax error"
  | n + 1 => do
    ignoreWhitespace
    let next ← peek
    if next = some 0x7d then
      let _ ← get
      return ()
    else
      let _ ← readMemberName
      ignoreWhitespace
      readLiteral [0x3a]
      ignoreWhitespace
      ignoreValue
      ignoreWhitespace
      let next ← peek
      if next = some 0x2c then
        let _ ← get
        ignoreObjectLoop ignoreValue n
      else if next = some 0x7d then
        let _ ← get
        return ()
      else error "Object syntax error"

/-- `Ignore_JSON5Object`. -/
def ignoreObject (ignoreValue : M Unit) : M Unit := do
  readLiteral [0x7b]
  fun s => ignoreObjectLoop ignoreValue (s.input.length + 1) s

/-- `Ignore_JSON5Value`, of a value of at most some depth. -/
def ignoreValueLoop : ℕ → M Unit
  | 0 => error "EOF"
  | n + 1 => do
    let next ← peek
    if next = some 0x22 then
      let _ ← readString
    else if next = some 0x5b then ignoreArray (ignoreValueLoop n)
    else if next = some 0x7b then ignoreObject (ignoreValueLoop n)
    else if next = some 0x74 then readLiteral [0x74, 0x72, 0x75, 0x65]
    else if next = some 0x66 then readLiteral [0x66, 0x61, 0x6c, 0x73, 0x65]
    else if next = some 0x6e then readLiteral [0x6e, 0x75, 0x6c, 0x6c]
    else
      let _ ← readNumber permissiveNan

/-- `Ignore_JSON5Value`; every level below the first starts with a bracket or a brace. -/
def ignoreValue : M Unit := fun s => ignoreValueLoop permissiveNan (s.input.length + 1) s

/-! ### Scalars -/

/-- `VisitHelper`, of a `bool`. -/
def readBool (_ : Bool) : M Bool := do
  let next ← peek
  if next = some 0x74 then
    readLiteral [0x74, 0x72, 0x75, 0x65]
    return true
  else if next = some 0x66 then
    readLiteral [0x66, 0x61, 0x6c, 0x73, 0x65]
    return false
  else error "Unknown boolean value"

/-- A type of floating point numbers, with what `std::stod` makes of a text, converted to it. -/
structure FloatType where
  Value : Type
  infinity : Value
  negInfinity : Value
  quietNan : Value
  stod : Bytes → Except StoFailure Value

/-- `ToFloat`. -/
def toFloat (F : FloatType) (str : Bytes) : M F.Value :=
  let infinity : Bytes := [0x49, 0x6e, 0x66, 0x69, 0x6e, 0x69, 0x74, 0x79]
  if str = infinity ∨ str = 0x2b :: infinity then return F.infinity
  else if str = 0x2d :: infinity then return F.negInfinity
  else if str = [0x4e, 0x61, 0x4e] then return F.quietNan
  else
    match F.stod str with
    | .error .invalidArgument => error "Error parsing number: stod"
    | .error .outOfRange => error "Number out of range: stod"
    | .ok value => return value

/-- `VisitHelper`, of a `float` or a `double`. -/
def readFloat (F : FloatType) (_ : F.Value) : M F.Value := do
  toFloat F (← readNumber permissiveNan).text

/-- `VisitHelper`, of a string, and of a time, which `parse` makes of it. -/
def readParsed (parse : Bytes → Except Failure α) (_ : α) : M α := do
  let text ← readString
  match parse text with
  | .error e => throw e
  | .ok value => return value

/-- `VisitEnumeration`, for the names of the values. -/
def readEnumeration (enumerationMapper : List (α × Bytes)) (_ : α) : M α := do
  let text ← readString
  match enumerationMapper.find? fun pair => pair.2 = text with
  | none => error ("Invalid enumeration value " ++ quoted text)
  | some pair => return pair.1

/-! ### Containers -/

variable (read : α → M α)

/-- `VisitHelper`, of an `std::optional`. -/
def readOptional (fresh : α) (value : Option α) : M (Option α) := do
  let next ← peek
  if next = some 0x6e then
    readLiteral [0x6e, 0x75, 0x6c, 0x6c]
    return none
  else return some (← read (value.getD fresh))

/-- The comma after an element, if there is one. -/
def skipComma : M Unit := do
  let maybeComma ← peek
  if maybeComma = some 0x2c then
    let _ ← get

/-- The loop of `ReadArray`, which reads elements into `values`, from a position on; and the position
behind the last.  Every pass takes at least one character. -/
def readArrayLoop (element : ℕ → β → M β) : ℕ → ℕ → β → M (ℕ × β)
  | 0, _, _ => error "EOF"
  | n + 1, pos, values => do
    ignoreWhitespace
    let maybeEnd ← peek
    if maybeEnd = some 0x5d then
      let _ ← get
      return (pos, values)
    else
      let values ← element pos values
      ignoreWhitespace
      skipComma
      ignoreWhitespace
      let maybeEnd ← peek
      if maybeEnd = some 0x5d then
        let _ ← get
        return (pos + 1, values)
      else readArrayLoop element n (pos + 1) values

/-- `ReadArray`. -/
def readArray (element : ℕ → β → M β) (values : β) : M (ℕ × β) := do
  readLiteral [0x5b]
  fun s => readArrayLoop element s.input.length 0 values s

/-- The element of an `std::vector` at an index, which is added if it is the next one. -/
def vectorElement (fresh : α) (index : ℕ) (values : List α) : M (List α) := do
  let values := if index ≥ values.length then values ++ [fresh] else values
  return values.set index (← read (values.getD index fresh))

/-- `VisitHelper`, of an `std::vector`. -/
def readVector (fresh : α) (values : List α) : M (List α) := do
  return (← readArray (vectorElement read fresh) values).2

/-- The element of an `std::array` at an index. -/
def arrayElement {n : ℕ} (index : ℕ) (values : Vector α n) : M (Vector α n) :=
  if h : index < n then return values.set index (← read values[index])
  else error "Too many elements in array"

/-- `VisitHelper`, of an `std::array`. -/
def readStdArray {n : ℕ} (values : Vector α n) : M (Vector α n) := do
  let (pos, values) ← readArray (arrayElement read) values
  if pos < n then error "Too few elements in array" else return values

/-- The loop of `VisitHelper`, of an `std::map`; every pass takes a comma or is the last one. -/
def readMapLoop (fresh : α) : ℕ → SortedMap Bytes α → M (SortedMap Bytes α)
  | 0, _ => error "EOF"
  | n + 1, value => do
    ignoreWhitespace
    let next ← peek
    if next = some 0x7d then
      readLiteral [0x7d]
      return value
    else
      let name ← readMemberName
      readLiteral [0x3a]
      ignoreWhitespace
      let item ← read fresh
      let value := if value.contains name then value else value.insert name item
      ignoreWhitespace
      let next ← peek
      if next ≠ some 0x2c then
        readLiteral [0x7d]
        return value
      else
        readLiteral [0x2c]
        readMapLoop fresh n value

/-- `VisitHelper`, of an `std::map`. -/
def readMap (fresh : α) (_ : SortedMap Bytes α) : M (SortedMap Bytes α) := do
  readLiteral [0x7b]
  fun s => readMapLoop read fresh s.input.length ∅ s

/-- A value that is read by way of another one: a field of an object, or what an external serializer
gives for it. -/
def readVia (get : β → α) (set : β → α → β) (value : β) : M β := do
  return set value (← read (get value))

/-! ### Objects -/

/-- A field that `Serialize` visits: its name, and the reader of the object that reads it. -/
structure Field (α : Type) where
  name : Bytes
  read : α → M α

/-- `Prepare_JSON5Member`: `current_field_name_`, and none where the object is done. -/
def prepareMember : M (Option Bytes) := do
  ignoreWhitespace
  let next ← peek
  if next = some 0x7d then
    readLiteral [0x7d]
    return none
  else
    let name ← readMemberName
    readLiteral [0x3a]
    ignoreWhitespace
    return some name

/-- The end of a member, and the start of the next one. -/
def finishMember : M (Option Bytes) := do
  ignoreWhitespace
  let next ← peek
  if next ≠ some 0x2c then
    readLiteral [0x7d]
    return none
  else
    let _ ← get
    prepareMember

/-- The object, `current_field_name_` while the object is not done, and `any_found_`. -/
structure Progress (α : Type) where
  value : α
  currentFieldName : Option Bytes
  anyFound : Bool := false

/-- `Visit`, of a field. -/
def visit (progress : Progress α) (field : Field α) : M (Progress α) :=
  if progress.currentFieldName ≠ some field.name then return progress
  else do
    let value ← field.read progress.value
    return ⟨value, ← finishMember, true⟩

/-- The loop of `Accept`; every pass takes a comma or the brace. -/
def acceptLoop (fields : List (Field α)) : ℕ → α → Option Bytes → M α
  | _, value, none => return value
  | 0, _, some _ => error "EOF"
  | n + 1, value, some currentFieldName => do
    let progress ← fields.foldlM visit ⟨value, some currentFieldName, false⟩
    if progress.anyFound then acceptLoop fields n progress.value progress.currentFieldName
    else
      ignoreValue permissiveNan
      let next ← finishMember
      acceptLoop fields n progress.value next

/-- `Accept`, of a class with some fields. -/
def accept (fields : List (Field α)) (value : α) : M α := do
  readLiteral [0x7b]
  let currentFieldName ← prepareMember
  fun s => acceptLoop permissiveNan fields s.input.length value currentFieldName s

/-- `VisitSerializable`: an archive of its own on the same stream, which counts from the start. -/
def visitSerializable (fields : List (Field α)) (value : α) : M α := fun s =>
  match accept permissiveNan fields value { input := s.input } with
  | .error e => .error e
  | .ok (value, s') => .ok (value, { s with input := s'.input })

/-! ### The reader of a type -/

/-- The readers that the archive has for C++ types, and whether what they read is an object or an
array. -/
inductive IsReader : Bool → {α : Type} → (α → M α) → Prop
  | bool : IsReader false readBool
  | integer (t : IntType) : IsReader false fun _ => readInteger permissiveNan t
  | float (F : FloatType) : IsReader false (readFloat permissiveNan F)
  | parsed {α : Type} (parse : Bytes → Except Failure α) : IsReader false (readParsed parse)
  | enumeration {α : Type} (enumerationMapper : List (α × Bytes)) :
      IsReader false (readEnumeration enumerationMapper)
  | optional {α : Type} {nested : Bool} {read : α → M α} (fresh : α) (h : IsReader nested read) :
      IsReader nested (readOptional read fresh)
  | vector {α : Type} {nested : Bool} {read : α → M α} (fresh : α) (h : IsReader nested read) :
      IsReader true (readVector read fresh)
  | array {α : Type} {nested : Bool} {read : α → M α} (n : ℕ) (h : IsReader nested read) :
      IsReader true (readStdArray (n := n) read)
  | map {α : Type} {nested : Bool} {read : α → M α} (fresh : α) (h : IsReader nested read) :
      IsReader true (readMap read fresh)
  | via {α β : Type} {nested : Bool} {read : α → M α} (get : β → α) (set : β → α → β)
      (h : IsReader nested read) : IsReader nested (readVia read get set)
  | serializable {α : Type} (fields : List (Field α)) (nested : Field α → Bool)
      (h : ∀ field ∈ fields, IsReader (nested field) field.read) :
      IsReader true (visitSerializable permissiveNan fields)

end Mjlib.Base.Json5ReadArchive
