import Mjlib.Telemetry.Types

/-!
# `BinaryWriteArchive` and `BinarySchemaArchive`

The data bytes of a value and the schema bytes of a type.  The schema archive visits an object: the
one it is handed for the fields of an object, and a newly made one for what a vector, an array or an
optional holds.
-/

namespace Mjlib.Telemetry

namespace BinaryWriteArchive

mutual

/-- `Visit`, by the type of the value: the overloads of `VisitHelper`, `VisitEnumeration` and
`VisitSerializable`. -/
def visit : (t : Ty) → t.Val → Bytes
  | .bool, value => writeBool value
  | .int _ size, value => writeScalar size.bytes value
  | .float32, value => writeScalar 4 value
  | .float64, value => writeScalar 8 value
  | .bytes, value => writeVaruint value.size ++ value.val
  | .string, value => writeString value.val
  | .vector elem, value => writeVaruint value.size ++ value.val.flatMap (visit elem)
  | .array elem _, value => value.val.flatMap (visit elem)
  | .optional _, none => writeVaruint 0
  | .optional elem, some value => writeVaruint 1 ++ visit elem value
  | .enum e, value => writeVaruint (e.toUInt64 value)
  | .object _ fields, value => accept fields value
  | .timestamp, value => writeScalar 8 (Base.convertPtimeToEpochMicroseconds value)
  | .duration, value => writeScalar 8 (Base.convertDurationToMicroseconds value)

/-- `Accept`: the fields one after the other. -/
def accept : (fields : Fields) → fields.Vals → Bytes
  | .nil, _ => []
  | .cons _ ty rest, value => visit ty value.1 ++ accept rest value.2

end

end BinaryWriteArchive

namespace BinarySchemaArchive

/-- `VisitEnumeration`; only enumerations of type varuint are provided. -/
def visitEnumeration (e : EnumType) : Bytes :=
  writeType .kEnum ++ writeType .kVaruint ++
    writeVaruint e.items.size ++
    e.items.val.flatMap fun pair => writeVaruint (e.toUInt64 pair.1) ++ writeString pair.2.val

/-- `Finish`: the "final" record. -/
def finish : Bytes :=
  writeVaruint 0 ++ writeString [] ++ writeVaruint 0 ++ writeType .kFinal ++
    writeVaruint 0

variable (fresh : Fresh) (emitDefault : Bool)

mutual

/-- `VisitArchive::Visit`, by the type of the value, which is the schema of the type. -/
def visit : (t : Ty) → t.Val → Bytes
  | .bool, _ => writeType .kBoolean
  | .int true size, _ => writeType .kFixedInt ++ writeVaruint (UInt64.ofNat size.bytes)
  | .int false size, _ => writeType .kFixedUInt ++ writeVaruint (UInt64.ofNat size.bytes)
  | .float32, _ => writeType .kFloat32
  | .float64, _ => writeType .kFloat64
  | .bytes, _ => writeType .kBytes
  | .string, _ => writeType .kString
  | .vector elem, _ => writeType .kArray ++ visit elem (fresh.valueInit elem)
  | .array elem n, _ =>
    writeType .kFixedArray ++ writeVaruint n ++ visit elem (fresh.valueInit elem)
  | .optional elem, _ =>
    writeType .kUnion ++ writeType .kNull ++
      visit elem (fresh.defaultInit elem) ++ writeType .kFinal
  | .enum e, _ => visitEnumeration e
  | .object _ fields, value =>
    writeType .kObject ++ writeVaruint 0 ++ visitFields fields value ++ finish
  | .timestamp, _ => writeType .kTimestamp
  | .duration, _ => writeType .kDuration

/-- `BinarySchemaArchive::Visit` for each field: its flags, name, aliases, type and default. -/
def visitFields : (fields : Fields) → fields.Vals → Bytes
  | .nil, _ => []
  | .cons name ty rest, value =>
    writeVaruint 0 ++ writeString name.val ++ writeVaruint 0 ++ visit ty value.1 ++
      (if emitDefault then writeVaruint 1 ++ BinaryWriteArchive.visit ty value.1
        else writeVaruint 0) ++
      visitFields rest value.2

end

/-- `BinarySchemaArchive::Write<T>()`. -/
def write (t : Ty) : Bytes := visit fresh emitDefault t (fresh.defaultInit t)

end BinarySchemaArchive

end Mjlib.Telemetry
