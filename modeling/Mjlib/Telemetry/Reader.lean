import Mjlib.Telemetry.Format

/-!
# `reader.py`

The reader of schemas and of their instances in Python.  A stream is the list of the bytes not yet
read, and `read` of its base returns as many as there are.  What raises has an `Exception`.

A type class is an object of the Python type, with what `read` uses of it; `Type.from_binary` calls
itself through the types inside a type, and the model counts its depth down, as for the
`BinarySchemaParser`.  Of what `struct` unpacks as a float, the model has the bits.
-/

namespace Mjlib.Telemetry.Reader

/-- What Python raises. -/
inductive Exception
  /-- `EOFError`. -/
  | eof
  /-- `ParseError`. -/
  | parse
  /-- `RuntimeError`: "not implemented", or an unknown type. -/
  | runtime
  /-- `TypeError`: `None` is called, or an enumeration without members. -/
  | type
  /-- `IndexError`. -/
  | index
  /-- `UnicodeDecodeError`. -/
  | unicode
  /-- `struct.error`. -/
  | struct
  /-- `ValueError`. -/
  | value
  /-- `KeyError`. -/
  | key
  /-- `AssertionError`. -/
  | assertion
  /-- What `snappy.uncompress` raises. -/
  | uncompress
  /-- No outcome of the code: the bound on the depth of a recursion was too small. -/
  | outOfFuel
deriving DecidableEq, Repr

/-! ### `Stream` -/

/-- The loop of `read_varuint`. -/
def readVaruintLoop (result fk : ℕ) : Bytes → Except Exception (ℕ × Bytes)
  | [] => .error .eof
  | value :: s =>
    let result := result + fk * (value &&& 0x7f).toNat
    if value < 0x80 then .ok (result, s)
    else if result ≥ 2 ^ 64 then .error .parse
    else readVaruintLoop result (fk * 128) s

/-- `read_varuint`. -/
def readVaruint (s : Bytes) : Except Exception (ℕ × Bytes) := readVaruintLoop 0 1 s

/-- `read_bytes`. -/
def readBytes (s : Bytes) : Except Exception (Bytes × Bytes) := do
  let (size, s) ← readVaruint s
  return (s.take size, s.drop size)

/-- A byte of a character that is not its first one. -/
def isTail (b : UInt8) : Bool := 0x80 ≤ b ∧ b ≤ 0xbf

/-- The second byte of three, by the first one: no surrogates, and nothing that two would do for. -/
def isSecondOf3 (a b : UInt8) : Bool :=
  0xe0 ≤ a ∧ a ≤ 0xef ∧ isTail b ∧ (a = 0xe0 → 0xa0 ≤ b) ∧ (a = 0xed → b ≤ 0x9f)

/-- The second byte of four, by the first one. -/
def isSecondOf4 (a b : UInt8) : Bool :=
  0xf0 ≤ a ∧ a ≤ 0xf4 ∧ isTail b ∧ (a = 0xf0 → 0x90 ≤ b) ∧ (a = 0xf4 → b ≤ 0x8f)

/-- What `decode('utf8')` accepts. -/
def isUtf8 : Bytes → Bool
  | [] => true
  | a :: s =>
    if a < 0x80 then isUtf8 s
    else match s with
      | [] => false
      | b :: s =>
        if 0xc2 ≤ a ∧ a ≤ 0xdf then isTail b && isUtf8 s
        else match s with
          | [] => false
          | c :: s =>
            if a ≤ 0xef then isSecondOf3 a b && isTail c && isUtf8 s
            else match s with
              | [] => false
              | d :: s => isSecondOf4 a b && isTail c && isTail d && isUtf8 s

/-- `read_string`. -/
def readString (s : Bytes) : Except Exception (Bytes × Bytes) := do
  let (data, s) ← readBytes s
  if isUtf8 data then return (data, s) else throw .unicode

/-- `_read_format`, as the bits of the value. -/
def readFormat (size : ℕ) (s : Bytes) : Except Exception (BitVec (8 * size) × Bytes) :=
  if s.length < size then .error .struct
  else .ok (BitVec.ofNat _ (LittleEndian.decode (s.take size)), s.drop size)

/-- `read_u8` and the like. -/
def readUnsigned (size : ℕ) (s : Bytes) : Except Exception (ℕ × Bytes) := do
  let (bits, s) ← readFormat size s
  return (bits.toNat, s)

/-- `read_i8` and the like. -/
def readSigned (size : ℕ) (s : Bytes) : Except Exception (ℤ × Bytes) := do
  let (bits, s) ← readFormat size s
  return (bits.toInt, s)

/-! ### Values -/

/-- What `read` returns. -/
inductive Value
  | none
  | bool (value : Bool)
  | int (value : ℤ)
  | float (size : ℕ) (bits : BitVec (8 * size))
  | bytes (value : Bytes)
  | str (value : Bytes)
  /-- A `namedtuple`. -/
  | tuple (values : List Value)
  | list (values : List Value)
  /-- A `dict`, as the keys and values that it is made from: a key that comes again has the value
  that came last. -/
  | dict (entries : List (Bytes × Value))
  /-- Microseconds over 1000000.0. -/
  | seconds (us : ℤ)

/-- Read one after the other. -/
def repeatRead {α : Type} (read : Bytes → Except Exception (α × Bytes)) :
    ℕ → Bytes → Except Exception (List α × Bytes)
  | 0, s => .ok ([], s)
  | n + 1, s => do
    let (x, s) ← read s
    let (xs, s) ← repeatRead read n s
    return (x :: xs, s)

/-! ### What Python's library asks of names -/

/-- The library's view of names.  Which names beyond ASCII are identifiers is in the tables of
Unicode. -/
structure Names where
  /-- `str.isidentifier`. -/
  isidentifier : Bytes → Bool

/-- `_RESERVED_KEYWORDS`. -/
def RESERVED_KEYWORDS : List Bytes := ["False", "None", "True", "and", "as", "assert", "break",
  "class", "continue", "def", "del", "elif", "else", "except", "finally", "for", "from", "global",
  "if", "import", "in", "is", "lambda", "nonlocal", "not", "or", "pass", "raise", "return", "try",
  "while", "with", "yield"].map ascii

/-- `_escape_python3_identifier`. -/
def escapePython3Identifier (name : Bytes) : Bytes :=
  if name ∈ RESERVED_KEYWORDS then ascii "py_" ++ name else name

/-- `keyword.kwlist`. -/
def kwlist : List Bytes := RESERVED_KEYWORDS ++ ["async", "await"].map ascii

/-- `collections.namedtuple`, which raises where a name is no identifier, or a keyword, or starts
with an underscore, or is there twice. -/
def namedtuple (lib : Names) (names : List Bytes) : Except Exception Unit :=
  if (∀ name ∈ names, lib.isidentifier name ∧ name ∉ kwlist ∧ name.head? ≠ some 0x5f) ∧ names.Nodup
  then .ok ()
  else .error .value

/-- A name like `_this_`, which `enum` reserves. -/
def isSunder (name : Bytes) : Bool :=
  name.length > 2 ∧ name.head? = some 0x5f ∧ name.getLast? = some 0x5f ∧
    name[1]? ≠ some 0x5f ∧ name[name.length - 2]? ≠ some 0x5f

/-- A name like `__this__`, which is an attribute of the class and no member. -/
def isDunder (name : Bytes) : Bool :=
  name.length > 4 ∧ name.take 2 = [0x5f, 0x5f] ∧ name.drop (name.length - 2) = [0x5f, 0x5f] ∧
    name[2]? ≠ some 0x5f ∧ name[name.length - 3]? ≠ some 0x5f

/-- A name like `__this` in the class: no member either. -/
def isPrivate (className name : Bytes) : Bool :=
  let pattern := 0x5f :: className ++ [0x5f, 0x5f]
  pattern.length < name.length ∧ pattern.isPrefixOf name ∧
    (name.getLast? ≠ some 0x5f ∨ name[name.length - 2]? ≠ some 0x5f)

/-- `IntEnum(name, items)`: the names of the members. -/
def intEnum (className : Bytes) (names : List Bytes) : Except Exception (List Bytes) :=
  if 0 ∈ className then .error .value
  else
    let members := names.filter fun name => !isPrivate className name && !isDunder name
    if ∃ name ∈ members, isSunder name ∨ name = [] ∨ name = ascii "mro" then .error .value
    else .ok members

/-- The integer that a value of an enumeration is made from; what `int` makes of a float or a text
is left out. -/
def enumInt : Value → Except Exception ℤ
  | .int value => .ok value
  | .bool value => .ok (if value then 1 else 0)
  | _ => .error .value

/-! ### Types -/

mutual

/-- The type classes. -/
inductive TypeClass
  | final
  | null
  | boolean
  | fixedInt (fieldSize : ℕ)
  | fixedUInt (fieldSize : ℕ)
  | varint
  | varuint
  | float32
  | float64
  | bytes
  | string
  | object (fields : List Field)
  /-- An enumeration, with the names of its members. -/
  | enum (typeClass : TypeClass) (members : List Bytes)
  | array (typeClass : TypeClass)
  | fixedArray (size : ℕ) (typeClass : TypeClass)
  | map (typeClass : TypeClass)
  | union (items : List TypeClass)
  | timestamp
  | duration

/-- `Field`. -/
inductive Field
  | mk (name : Bytes) (typeClass : TypeClass)

end

namespace Field

def name : Field → Bytes
  | mk name _ => name

def typeClass : Field → TypeClass
  | mk _ typeClass => typeClass

end Field

mutual

/-- `read`. -/
def TypeClass.read : TypeClass → Bytes → Except Exception (Value × Bytes)
  | .final, _ => .error .parse
  | .null, s => .ok (.none, s)
  | .boolean, s => do
    let (value, s) ← readUnsigned 1 s
    return (.bool (value ≠ 0), s)
  | .fixedInt fieldSize, s => do
    let (value, s) ← readSigned fieldSize s
    return (.int value, s)
  | .fixedUInt fieldSize, s => do
    let (value, s) ← readUnsigned fieldSize s
    return (.int value, s)
  | .varint, _ => .error .runtime
  | .varuint, s => do
    let (value, s) ← readVaruint s
    return (.int value, s)
  | .float32, s => do
    let (bits, s) ← readFormat 4 s
    return (.float 4 bits, s)
  | .float64, s => do
    let (bits, s) ← readFormat 8 s
    return (.float 8 bits, s)
  | .bytes, s => do
    let (value, s) ← readBytes s
    return (.bytes value, s)
  | .string, s => do
    let (value, s) ← readString s
    return (.str value, s)
  | .object fields, s => do
    let (values, s) ← readFields fields s
    return (.tuple values, s)
  | .enum typeClass members, s => do
    let (value, s) ← typeClass.read s
    let value ← enumInt value
    if members.isEmpty then throw .type
    return (.int value, s)
  | .array typeClass, s => do
    let (nvalues, s) ← readVaruint s
    let (values, s) ← repeatRead typeClass.read nvalues s
    return (.list values, s)
  | .fixedArray size typeClass, s => do
    let (values, s) ← repeatRead typeClass.read size s
    return (.list values, s)
  | .map typeClass, s => do
    let (nitems, s) ← readVaruint s
    let (entries, s) ← repeatRead (fun s => do
      let (key, s) ← readString s
      let (value, s) ← typeClass.read s
      return ((key, value), s)) nitems s
    return (.dict entries, s)
  | .union items, s => do
    let (index, s) ← readVaruint s
    readNth items index s
  | .timestamp, s | .duration, s => do
    let (us, s) ← readSigned 8 s
    return (.seconds us, s)

/-- `read` of each field in turn. -/
def readFields : List Field → Bytes → Except Exception (List Value × Bytes)
  | [], s => .ok ([], s)
  | .mk _ typeClass :: fields, s => do
    let (value, s) ← typeClass.read s
    let (values, s) ← readFields fields s
    return (value :: values, s)

/-- `items[index].read`. -/
def readNth : List TypeClass → ℕ → Bytes → Except Exception (Value × Bytes)
  | [], _, _ => .error .index
  | typeClass :: _, 0, s => typeClass.read s
  | _ :: items, index + 1, s => readNth items index s

end

/-! ### `from_binary` -/

section

variable (lib : Names)
-- `Type.from_binary` for what is inside a type, given the `name` and the stream
variable (fromBinary : Bytes → Bytes → Except Exception (TypeClass × Bytes))

/-- One pass of the loop of `ObjectType.from_binary`; nothing for the final field. -/
def readField (s : Bytes) : Except Exception (Option Field × Bytes) := do
  let (_flags, s) ← readVaruint s
  let (name, s) ← readString s
  let (naliases, s) ← readVaruint s
  let (_aliases, s) ← repeatRead readString naliases s
  let (typeClass, s) ← fromBinary name s
  let (isDefault, s) ← readUnsigned 1 s
  let s ← if isDefault ≠ 0 then do
      let (_, s) ← typeClass.read s
      pure s
    else pure s
  match typeClass with
  | .final => return (none, s)
  | _ => return (some (.mk name typeClass), s)

/-- The loop of `ObjectType.from_binary`. -/
def objectFields : ℕ → Bytes → Except Exception (List Field × Bytes)
  | 0, _ => .error .outOfFuel
  | n + 1, s => do
    match ← readField fromBinary s with
    | (none, s) => return ([], s)
    | (some field, s) =>
      let (fields, s) ← objectFields n s
      return (field :: fields, s)

/-- The loop of `UnionType.from_binary`. -/
def unionItems : ℕ → Bytes → Except Exception (List TypeClass × Bytes)
  | 0, _ => .error .outOfFuel
  | n + 1, s => do
    match ← fromBinary (ascii "_") s with
    | (.final, s) => return ([], s)
    | (typeClass, s) =>
      let (items, s) ← unionItems n s
      return (typeClass :: items, s)

/-- A value and a name of an enumeration. -/
def enumItem (typeClass : TypeClass) (s : Bytes) : Except Exception ((Value × Bytes) × Bytes) := do
  let (value, s) ← typeClass.read s
  let (name, s) ← readString s
  return ((value, name), s)

/-- `EnumType`: the class of the members, for one without any of one `_empty`. -/
def enumMembers (name : Bytes) (items : List (Value × Bytes)) : Except Exception (List Bytes) := do
  let _ ← items.mapM fun item => enumInt item.1
  if items.isEmpty then intEnum name [ascii "_empty"]
  else intEnum name (items.map Prod.snd)

/-- The `from_binary` of each type, by its index in `TYPES`. -/
def typeFromBinary (name : Bytes) (typeIndex : ℕ) (s : Bytes) :
    Except Exception (TypeClass × Bytes) :=
  match typeIndex with
  | 0 => .ok (.final, s)
  | 1 => .ok (.null, s)
  | 2 => .ok (.boolean, s)
  | 3 => do
    let (fieldSize, s) ← readUnsigned 1 s
    if fieldSize ∈ [1, 2, 4, 8] then return (.fixedInt fieldSize, s) else throw .parse
  | 4 => do
    let (fieldSize, s) ← readUnsigned 1 s
    if fieldSize ∈ [1, 2, 4, 8] then return (.fixedUInt fieldSize, s) else throw .parse
  | 5 => .ok (.varint, s)
  | 6 => .ok (.varuint, s)
  | 7 => .ok (.float32, s)
  | 8 => .ok (.float64, s)
  | 9 => .ok (.bytes, s)
  | 10 => .ok (.string, s)
  | 16 => do
    let (_objectFlags, s) ← readVaruint s
    let (fields, s) ← objectFields fromBinary (s.length + 1) s
    namedtuple lib (fields.map fun field => escapePython3Identifier field.name)
    return (.object fields, s)
  | 17 => do
    let (typeClass, s) ← fromBinary (ascii "_") s
    let (nvalues, s) ← readVaruint s
    let (items, s) ← repeatRead (enumItem typeClass) nvalues s
    let members ← enumMembers name items
    return (.enum typeClass members, s)
  | 18 => do
    let (typeClass, s) ← fromBinary (ascii "_") s
    return (.array typeClass, s)
  | 19 => do
    let (size, s) ← readVaruint s
    let (typeClass, s) ← fromBinary (ascii "_") s
    return (.fixedArray size typeClass, s)
  | 20 => do
    let (typeClass, s) ← fromBinary (ascii "_") s
    return (.map typeClass, s)
  | 21 => do
    let (items, s) ← unionItems fromBinary (s.length + 1) s
    return (.union items, s)
  | 22 => .ok (.timestamp, s)
  | 23 => .ok (.duration, s)
  -- `None` is called, or the index is past the end
  | n => if n < 24 then .error .type else .error .runtime

end

/-- `Type.from_binary`, to the given depth. -/
def fromBinary (lib : Names) : ℕ → Bytes → Bytes → Except Exception (TypeClass × Bytes)
  | 0, _, _ => .error .outOfFuel
  | depth + 1, name, s => do
    let (typeIndex, s) ← readVaruint s
    typeFromBinary lib (fromBinary lib depth) name typeIndex s

/-- `Type.from_binary` of a whole schema. -/
def ofSchema (lib : Names) (schema : Bytes) : Except Exception TypeClass := do
  let (typeClass, _) ← fromBinary lib (schema.length + 1) (ascii "_") schema
  return typeClass

end Mjlib.Telemetry.Reader
