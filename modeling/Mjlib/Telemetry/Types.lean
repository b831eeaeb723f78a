import Mjlib.Telemetry.Format

/-!
# Serializable types

The C++ types that the telemetry archives can visit, as a universe: `Ty` is a type and `Ty.Val` its
values.  An object type is what its `Serialize` method visits, the list of its fields by name, and
carries a tag, so that two classes with the same fields stay apart.  Types with an
`ExternalSerializer` are visited as the type they expose and need no code of their own.

Integers, enumerators and floating point numbers are the bits of their machine words; strings,
names and vectors carry the bound of `size_t` on their length.
-/

namespace Mjlib.Telemetry

/-- The size of a machine integer. -/
inductive IntSize
  | one
  | two
  | four
  | eight
deriving DecidableEq, Repr

/-- `sizeof`. -/
def IntSize.bytes : IntSize → ℕ
  | one => 1
  | two => 2
  | four => 4
  | eight => 8

/-- The values of an integer type. -/
abbrev Word (size : IntSize) := BitVec (8 * size.bytes)

/-- An enumeration: its underlying type and what `IsEnum<T>::map()` lists. -/
structure EnumType where
  signed : Bool
  size : IntSize
  items : Seq (Word size × Seq UInt8)
deriving DecidableEq, Repr

/-- `static_cast<uint64_t>` of an enumerator. -/
def EnumType.toUInt64 (e : EnumType) (value : Word e.size) : UInt64 :=
  ⟨if e.signed then value.signExtend 64 else value.setWidth 64⟩

/-- `static_cast` of a `uint64_t` to the enumeration. -/
def EnumType.ofUInt64 (e : EnumType) (value : UInt64) : Word e.size :=
  value.toBitVec.setWidth _

mutual

/-- A serializable type. -/
inductive Ty
  | bool
  | int (signed : Bool) (size : IntSize)
  | float32
  | float64
  /-- `base::Bytes`. -/
  | bytes
  /-- `std::string`. -/
  | string
  /-- `std::vector<T>`. -/
  | vector (elem : Ty)
  /-- `std::array<T, N>`. -/
  | array (elem : Ty) (n : UInt64)
  /-- `std::optional<T>`. -/
  | optional (elem : Ty)
  | enum (e : EnumType)
  | object (tag : ℕ) (fields : Fields)
  /-- `boost::posix_time::ptime`. -/
  | timestamp
  /-- `boost::posix_time::time_duration`. -/
  | duration

/-- The fields of an object, in the order `Serialize` visits them. -/
inductive Fields
  | nil
  | cons (name : Seq UInt8) (ty : Ty) (rest : Fields)

end

mutual

/-- The values of a type. -/
@[reducible]
def Ty.Val : Ty → Type
  | .bool => Bool
  | .int _ size => Word size
  | .float32 => BitVec 32
  | .float64 => BitVec 64
  | .bytes => Seq UInt8
  | .string => Seq UInt8
  | .vector elem => Seq elem.Val
  | .array elem n => {l : List elem.Val // l.length = n.toNat}
  | .optional elem => Option elem.Val
  | .enum e => Word e.size
  | .object _ fields => fields.Vals
  | .timestamp => Base.Ptime
  | .duration => Base.Duration

/-- The values of the fields of an object. -/
@[reducible]
def Fields.Vals : Fields → Type
  | .nil => Unit
  | .cons _ ty rest => ty.Val × rest.Vals

end

/-- What a newly made object of each type holds: its class's own initialisers, for a class. -/
structure Fresh where
  /-- `T item{}`, also the elements that `resize` adds. -/
  valueInit : ∀ t : Ty, t.Val
  /-- `T value;`. -/
  defaultInit : ∀ t : Ty, t.Val

mutual

/-- The value of a type whose classes leave every member to its own default constructor. -/
def Ty.zero : (t : Ty) → t.Val
  | .bool => false
  | .int _ _ => 0
  | .float32 => 0#32
  | .float64 => 0#64
  | .bytes => ⟨[], by simp⟩
  | .string => ⟨[], by simp⟩
  | .vector _ => ⟨[], by simp⟩
  | .array elem n => ⟨List.replicate n.toNat elem.zero, List.length_replicate⟩
  | .optional _ => none
  | .enum _ => 0
  | .object _ fields => fields.zero
  | .timestamp => .notADateTime
  | .duration => .finite 0 (by decide)

/-- The values of the fields of such a class. -/
def Fields.zero : (fields : Fields) → fields.Vals
  | .nil => ()
  | .cons _ ty rest => (ty.zero, rest.zero)

end

/-- Classes without initialisers of their own. -/
def Fresh.zero : Fresh := ⟨Ty.zero, Ty.zero⟩

end Mjlib.Telemetry
