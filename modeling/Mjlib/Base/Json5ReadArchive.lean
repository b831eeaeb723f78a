import Mjlib.Base.EscapeJsonString
import Mjlib.Base.Strtol

/-!
# Strings and integers in `Json5ReadArchive`

`Get` takes a character off the stream and counts lines and columns for the errors.
`readTerminatedString` is the loop over the characters of a string, with an escape taken in one
pass.  `readNumber` copies the text of a number, which the C library converts; a text that starts
out as `0b`, `0o` or `0x` is written over from its first character on.
-/

namespace Mjlib.Base.Json5ReadArchive

/-- What is thrown, and the end of the process in an assertion. -/
inductive Failure
  /-- `Error`, with its text. -/
  | error (text : String)
  /-- `std::invalid_argument`, which `std::stol` throws where there is no number. -/
  | invalidArgument
  /-- `std::out_of_range`, which `std::stoull` throws. -/
  | outOfRange
  | assertNotReached
deriving DecidableEq, Repr

/-- The stream and the position in it. -/
structure State where
  input : Bytes
  line : ℕ := 1
  column : ℕ := 0
deriving DecidableEq, Repr

abbrev M := StateT State (Except Failure)

/-- `Error`. -/
def error {α : Type} (text : String) : M α := fun s =>
  .error (.error (toString s.line ++ ":" ++ toString s.column ++ " " ++ text))

/-- The state behind a character. -/
def State.next (c : UInt8) (input : Bytes) (s : State) : State :=
  if c = 0x0a then { input, line := s.line + 1, column := 0 }
  else { input, line := s.line, column := s.column + 1 }

/-- `Get`. -/
def get : M UInt8 := fun s =>
  match s.input with
  | [] => error "EOF" s
  | c :: input => .ok (c, s.next c input)

/-- A character in the text of an error. -/
def inQuotes (c : UInt8) : String := "'" ++ (Char.ofNat c.toNat).toString ++ "'"

/-- The character of an escape `\x`: `std::stol` of two digits. -/
def hexChar (char1 char2 : UInt8) : M UInt8 :=
  match parseNumber 16 [char1, char2] with
  | none => throw .invalidArgument
  | some _ => pure (UInt8.ofBitVec (BitVec.ofInt 8 (strtol 16 [char1, char2]).1))

/-- `Read_EscapeSequence`. -/
def readEscapeSequence : M UInt8 := do
  let first ← get
  if first = 0x5c then return 0x5c
  else if first = 0x27 then return 0x27
  else if first = 0x22 then return 0x22
  else if first = 0x62 then return 0x08
  else if first = 0x66 then return 0x0c
  else if first = 0x6e then return 0x0a
  else if first = 0x72 then return 0x0d
  else if first = 0x74 then return 0x09
  else if first = 0x76 then return 0x0b
  else if first = 0x78 then
    let char1 ← get
    let char2 ← get
    hexChar char1 char2
  else error ("Escape not handled " ++ inQuotes first)

/-- One pass of the loop of `Read_JSON5TerminatedString`; none at the terminator. -/
def readChar (terminator : UInt8) : M (Option UInt8) := do
  let c ← get
  if c = terminator then return none
  else if c = 0x5c then return some (← readEscapeSequence)
  else if c ≥ 0x80 then throw .assertNotReached
  else return some c

/-- The loop; every pass takes at least one character, and without one `Get` fails. -/
def readTerminatedLoop (terminator : UInt8) : ℕ → M Bytes
  | 0 => error "EOF"
  | n + 1 => do
    match ← readChar terminator with
    | none => return []
    | some c => return c :: (← readTerminatedLoop terminator n)

/-- `Read_JSON5TerminatedString`. -/
def readTerminatedString (terminator : UInt8) : M Bytes := fun s =>
  readTerminatedLoop terminator s.input.length s

/-- `Read_JSON5String`. -/
def readString : M Bytes := do
  let first ← get
  if first = 0x22 then readTerminatedString 0x22
  else if first = 0x27 then readTerminatedString 0x27
  else error ("Unexpected start of string " ++ inQuotes first)

/-! ### Blanks and literals -/

/-- `Peek`; none at the end of the stream. -/
def peek : M (Option UInt8) := fun s => .ok (s.input.head?, s)

/-- `IsWhitespace`. -/
def isWhitespace (c : UInt8) : Bool := c ∈ [0x09, 0x0a, 0x0b, 0x0c, 0x0d, 0x20, 0xa0]

/-- The loop of `ReadUntilOneOf`; `strchr` finds the zero that ends the text too. -/
def readUntilOneOf (possible : Bytes) : ℕ → M Unit
  | 0 => error "EOF"
  | n + 1 => do
    let c ← get
    if c ∈ possible ∨ c = 0 then return () else readUntilOneOf possible n

/-- The loop of `ReadUntil`, with what is left from `current` on. -/
def readUntil (terminus : Bytes) : ℕ → (current : Bytes) → M Unit
  | 0, _ => error "EOF"
  | n + 1, current => do
    let c ← get
    if current.head? = some c then
      if current.tail = [] then return () else readUntil terminus n current.tail
    else readUntil terminus n terminus

/-- The loop of `IgnoreWhitespace`; every pass takes at least one character. -/
def ignoreWhitespaceLoop : ℕ → M Unit
  | 0 => return ()
  | n + 1 => do
    match ← peek with
    | none => return ()
    | some c =>
      if isWhitespace c then
        let _ ← get
        ignoreWhitespaceLoop n
      else if c = 0x2f then
        let _ ← get
        let next ← get
        if next = 0x2f then
          readUntilOneOf [0x0a, 0x0d] n
          ignoreWhitespaceLoop n
        else if next = 0x2a then
          readUntil [0x2a, 0x2f] n [0x2a, 0x2f]
          ignoreWhitespaceLoop n
        else error ("Unexpected '/' character followed by " ++ inQuotes next)
      else return ()

/-- `IgnoreWhitespace`. -/
def ignoreWhitespace : M Unit := fun s => ignoreWhitespaceLoop s.input.length s

/-- A text in the text of an error. -/
def quoted (text : Bytes) : String :=
  "'" ++ String.ofList (text.map fun c => Char.ofNat c.toNat) ++ "'"

/-- `ReadLiteral`. -/
def readLiteral (literal : Bytes) : M Unit := do
  ignoreWhitespace
  for expected in literal do
    let c ← get
    if c ≠ expected then error ("Didn't find expected " ++ quoted literal)

/-! ### The text of a number -/

/-- `Number`. -/
structure Number where
  text : Bytes
  base : ℕ := 0
deriving DecidableEq, Repr

/-- Characters of one kind, as many as there are. -/
def readWhileLoop (accept : UInt8 → Bool) : ℕ → M Bytes
  | 0 => return []
  | n + 1 => do
    match ← peek with
    | none => return []
    | some c =>
      if accept c then
        let c ← get
        return c :: (← readWhileLoop accept n)
      else return []

def readWhile (accept : UInt8 → Bool) : M Bytes := fun s => readWhileLoop accept s.input.length s

/-- What characters put into a stream that starts out with a text, from its start on, make of it. -/
def overwrite (initial chars : Bytes) : Bytes := chars ++ initial.drop chars.length

/-- `Read_DecimalDigits`. -/
def readDecimalDigits : M Bytes := readWhile fun c => 0x30 ≤ c ∧ c ≤ 0x39

/-- `Read_BinaryIntegerLiteral`. -/
def readBinaryIntegerLiteral : M Bytes := do
  return overwrite [0x30, 0x62] (← readWhile fun c => c = 0x30 ∨ c = 0x31)

/-- `Read_OctalIntegerLiteral`. -/
def readOctalIntegerLiteral : M Bytes := do
  return overwrite [0x30, 0x6f] (← readWhile fun c => 0x30 ≤ c ∧ c ≤ 0x37)

/-- `Read_HexIntegerLiteral`. -/
def readHexIntegerLiteral : M Bytes := do
  return overwrite [0x30, 0x78] (← readWhile fun c =>
    (0x30 ≤ c ∧ c ≤ 0x39) ∨ (0x61 ≤ c ∧ c ≤ 0x66) ∨ (0x41 ≤ c ∧ c ≤ 0x46))

/-- `Read_SignedInteger`, of an exponent. -/
def readSignedInteger : M Bytes := do
  let c ← peek
  if c = some 0x2b ∨ c = some 0x2d then
    let first ← get
    return first :: (← readDecimalDigits)
  else readDecimalDigits

/-- `Read_ExponentPart`. -/
def readExponentPart : M Bytes := do
  let c ← peek
  if c = some 0x65 ∨ c = some 0x45 then
    let first ← get
    return first :: (← readSignedInteger)
  else return []

/-- `Read_DecimalIntegerLiteral`. -/
def readDecimalIntegerLiteral (initialZero : Bool) : M Bytes :=
  if initialZero then return [0x30] else readDecimalDigits

/-- `Read_DecimalLiteral`. -/
def readDecimalLiteral (initialZero : Bool) : M Bytes := do
  let first ← if initialZero then pure (some 0x30) else peek
  let integer ← if first = some 0x2e then pure [] else readDecimalIntegerLiteral initialZero
  let next ← peek
  if next = some 0x2e then
    let point ← get
    let digits ← readDecimalDigits
    return integer ++ point :: digits ++ (← readExponentPart)
  else if next = some 0x65 ∨ next = some 0x45 then return integer ++ (← readExponentPart)
  else return integer

-- `Options::permissive_nan`
variable (permissiveNan : Bool)

/-- `Read_NumericLiteral`. -/
def readNumericLiteral : M Number := do
  let first ← peek
  if first = some 0x49 then
    readLiteral [0x49, 0x6e, 0x66, 0x69, 0x6e, 0x69, 0x74, 0x79]
    return ⟨[0x49, 0x6e, 0x66, 0x69, 0x6e, 0x69, 0x74, 0x79], 0⟩
  else if first = some 0x4e then
    readLiteral [0x4e, 0x61, 0x4e]
    return ⟨[0x4e, 0x61, 0x4e], 0⟩
  else if permissiveNan ∧ first = some 0x6e then
    readLiteral [0x6e, 0x75, 0x6c, 0x6c]
    return ⟨[0x4e, 0x61, 0x4e], 0⟩
  else if first ≠ some 0x30 then return ⟨← readDecimalLiteral false, 0⟩
  else
    let _ ← get
    let next ← peek
    if next = some 0x62 ∨ next = some 0x42 then
      let _ ← get
      return ⟨← readBinaryIntegerLiteral, 2⟩
    else if next = some 0x6f ∨ next = some 0x4f then
      let _ ← get
      return ⟨← readOctalIntegerLiteral, 8⟩
    else if next = some 0x78 ∨ next = some 0x58 then
      let _ ← get
      return ⟨← readHexIntegerLiteral, 16⟩
    else return ⟨← readDecimalLiteral true, 0⟩

/-- `Read_JSON5Number`. -/
def readNumber : M Number := do
  let first ← peek
  if first = some 0x2b ∨ first = some 0x2d then
    let sign ← get
    let result ← readNumericLiteral permissiveNan
    return { result with text := sign :: result.text }
  else readNumericLiteral permissiveNan

/-! ### Integers -/

/-- `Read_JSON5SignedInteger`. -/
def readJson5SignedInteger : M ℤ := do
  let number ← readNumber permissiveNan
  match stoll number.base number.text with
  | .error .invalidArgument => error "Error parsing integer: stoll"
  | .error .outOfRange => error "Integer out of range: stoll"
  | .ok (result, pos) =>
    if pos ≠ number.text.length then
      error ("Could not interpret " ++ quoted number.text ++ " as an integer")
    else return result

/-- `Read_JSON5UnsignedInteger`. -/
def readJson5UnsignedInteger : M ℕ := do
  let number ← readNumber permissiveNan
  match stoull number.base number.text with
  | .error .invalidArgument => throw .invalidArgument
  | .error .outOfRange => throw .outOfRange
  | .ok (result, pos) =>
    if pos ≠ number.text.length then
      error ("Could not interpret " ++ quoted number.text ++ " as an integer")
    else return result

/-- The type of an integer. -/
structure IntType where
  signed : Bool
  bits : ℕ
  bits_mem : bits ∈ [8, 16, 32, 64]

/-- `std::numeric_limits<T>::min()`. -/
def IntType.min (t : IntType) : ℤ := if t.signed then -2 ^ (t.bits - 1) else 0

/-- `std::numeric_limits<T>::max()`. -/
def IntType.max (t : IntType) : ℤ := if t.signed then 2 ^ (t.bits - 1) - 1 else 2 ^ t.bits - 1

/-- `CheckLimit`. -/
def checkLimit (t : IntType) (value : ℤ) : M ℤ :=
  if value < t.min ∨ value > t.max then error "Value out of bounds" else return value

/-- `VisitHelper`, of an integer. -/
def readInteger (t : IntType) : M ℤ := do
  if t.signed then checkLimit t (← readJson5SignedInteger permissiveNan)
  else checkLimit t (← readJson5UnsignedInteger permissiveNan)

end Mjlib.Base.Json5ReadArchive
