import Mjlib.Base.EscapeJsonString
import Mjlib.Base.Snprintf
import Mjlib.Telemetry.BinarySchemaParser

/-!
# `EmitJson`

Writing an instance of a schema as JSON.  The output is what has been written when `EmitJson`
returns.  What the streams of C++ and boost make of floats and times, and boost's base64, are a
`Printing`; a float is its bits.
-/

namespace Mjlib.Telemetry

open Base (Ptime Duration decimal formatInt escapeJsonString)

/-- What is printed outside of this repository. -/
structure Printing where
  /-- `ostr << double`. -/
  double : BitVec 64 → Bytes
  /-- The conversion of a `float`. -/
  toDouble : BitVec 32 → BitVec 64
  /-- `ostr << ptime`. -/
  ptime : Ptime → Bytes
  /-- `ostr << time_duration`. -/
  duration : Duration → Bytes
  /-- `base64::encode`. -/
  base64 : Bytes → Bytes

namespace BinarySchemaParser

/-! ### The readers of an element -/

/-- `Element::ReadBoolean`. -/
def Element.readBoolean : Element → Bytes → Except Error (Bool × Bytes)
  | .mk _ _ _ .boolean, s => do
    let (x, s) ← value (readU8 s)
    return (x ≠ 0, s)
  | _, _ => throw .assertion

/-- `Element::ReadIntLike`. -/
def Element.readIntLike : Element → Bytes → Except Error (BitVec 64 × Bytes)
  | .mk _ _ _ (.fixedInt intSize), s =>
    if intSize = 1 ∨ intSize = 2 ∨ intSize = 4 ∨ intSize = 8 then do
      let (x, s) ← value (readScalar intSize.toNat s)
      return (x.signExtend 64, s)
    else throw .assertion
  | .mk _ _ _ .varint, s => value (readVarint s)
  | .mk _ _ _ .timestamp, s | .mk _ _ _ .duration, s => value (readScalar 8 s)
  | _, _ => throw .assertion

/-- `Element::ReadFloatLike`. -/
def Element.readFloatLike (print : Printing) : Element → Bytes → Except Error (BitVec 64 × Bytes)
  | .mk _ _ _ .float32, s => do
    let (x, s) ← value (readScalar 4 s)
    return (print.toDouble x, s)
  | .mk _ _ _ .float64, s => value (readScalar 8 s)
  | _, _ => throw .assertion

/-- `Element::ReadString`. -/
def Element.readString : Element → Bytes → Except Error (Seq UInt8 × Bytes)
  | .mk _ _ _ .bytes, s | .mk _ _ _ .string, s => do value (← Telemetry.readString s)
  | _, _ => throw .assertion

end BinarySchemaParser

namespace EmitJson

open BinarySchemaParser

/-- A text in quotation marks. -/
def quoted (text : Bytes) : Bytes := 0x22 :: (text ++ [0x22])

/-- What stands between the entries of an array or the members of an object, so many being left. -/
def separator (n : ℕ) : Bytes := if n = 0 then [] else ascii ", "

/-- The loop of `WriteArray`. -/
def writeItems (emit : Bytes → Except Error (Bytes × Bytes)) :
    ℕ → Bytes → Except Error (Bytes × Bytes)
  | 0, s => .ok ([], s)
  | n + 1, s => do
    let (text, s) ← emit s
    let (rest, s) ← writeItems emit n s
    return (text ++ (separator n ++ rest), s)

/-- `WriteArray`. -/
def writeArray (emit : Bytes → Except Error (Bytes × Bytes)) (arraySize : UInt64) (s : Bytes) :
    Except Error (Bytes × Bytes) := do
  let (items, s) ← writeItems emit arraySize.toNat s
  return (ascii "[" ++ (items ++ ascii "]"), s)

/-- The name or the number of an enumeration's value. -/
def enumText (enumItems : List (UInt64 × Bytes)) (enumIndex : UInt64) : Bytes :=
  match enumItems.lookup enumIndex with
  | some name => name
  | none => decimal enumIndex.toNat

variable (print : Printing)

mutual

/-- `EmitJson`: what it writes, and the rest of the data. -/
def emitJson : Element → Bytes → Except Error (Bytes × Bytes)
  | .mk name binarySchema maybeFixedSize shape, s =>
    let schema : Element := .mk name binarySchema maybeFixedSize shape
    emitShape schema shape s

/-- The `switch` of `EmitJson`. -/
def emitShape (schema : Element) : Shape → Bytes → Except Error (Bytes × Bytes)
  | .null, s => .ok (ascii "null", s)
  | .boolean, s => do
    let (x, s) ← schema.readBoolean s
    return (if x then ascii "true" else ascii "false", s)
  | .varint, s | .fixedInt _, s => do
    let (x, s) ← schema.readIntLike s
    return (formatInt x.toInt, s)
  | .varuint, s | .fixedUInt _, s => do
    let (x, s) ← schema.readUIntLike s
    return (decimal x.toNat, s)
  | .float32, s | .float64, s => do
    let (x, s) ← schema.readFloatLike print s
    return (print.double x, s)
  | .bytes, s => do
    let (rawBytes, s) ← schema.readString s
    -- `&base64[0]`
    if rawBytes.val = [] then throw .pastTheEnd
    return (quoted (print.base64 rawBytes.val), s)
  | .string, s => do
    let (text, s) ← schema.readString s
    return (quoted (escapeJsonString text.val), s)
  | .object _ fields, s => do
    let (members, s) ← emitFields fields s
    return (ascii "\x7b" ++ (members ++ ascii "\x7d"), s)
  | .enum child enumItems, s => do
    let (enumIndex, s) ← child.readUIntLike s
    return (quoted (enumText enumItems enumIndex), s)
  | .array child, s => do
    let (arraySize, s) ← value (readVaruint s)
    writeArray (emitJson child) arraySize s
  | .fixedArray arraySize child, s => writeArray (emitJson child) arraySize s
  -- "TODO"
  | .map _, s => .ok ([], s)
  | .union children, s => do
    let (index, s) ← value (readVaruint s)
    emitNth children index.toNat s
  | .timestamp, s => do
    let (usSinceEpoch, s) ← schema.readIntLike s
    match Base.convertEpochMicrosecondsToPtime usSinceEpoch with
    | some time => return (quoted (print.ptime time), s)
    | none => throw .undefinedTime
  | .duration, s => do
    let (us, s) ← schema.readIntLike s
    return (quoted (print.duration (Base.convertMicrosecondsToDuration us)), s)
  | .final, _ => throw .assertion
  | .unnamed _, s => .ok ([], s)

/-- The loop over the fields of an object. -/
def emitFields : List Field → Bytes → Except Error (Bytes × Bytes)
  | [], s => .ok ([], s)
  | .mk _ name _ element _ :: fields, s => do
    let (text, s) ← emitJson element s
    let (rest, s) ← emitFields fields s
    return (quoted name ++ (ascii " : " ++ (text ++ (separator fields.length ++ rest))), s)

/-- `EmitJson` of `children.at(index)`. -/
def emitNth : List Element → ℕ → Bytes → Except Error (Bytes × Bytes)
  | [], _, _ => throw .outOfRange
  | child :: _, 0, s => emitJson child s
  | _ :: children, index + 1, s => emitNth children index s

end

end EmitJson

end Mjlib.Telemetry
