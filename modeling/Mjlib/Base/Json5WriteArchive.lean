import Mathlib
import Mjlib.Base.EscapeJsonString
import Mjlib.Base.Snprintf

/-!
# `Json5WriteArchive`

A writer of a type makes a text of the options and a value; there is none where an exception is
thrown.  The writers of the containers are functions of the writer of what they hold.  What `fmt`
makes of a floating point number and `boost::date_time` of a time is a parameter.
-/

namespace Mjlib.Base.Json5WriteArchive

variable {α β : Type}

/-- `Options`. -/
structure Options where
  indent : ℤ := 0
  standard : Bool := false
deriving DecidableEq, Repr

/-- A writer of a type. -/
abbrev Writer (α : Type) := Options → α → Option Bytes

/-- `Indent`; a string has no negative length (`std::length_error`). -/
def indent (options : Options) (extra : ℤ) : Option Bytes :=
  let size := options.indent + extra + 2
  if size < 0 then none else some (List.replicate size.toNat 0x20)

/-! ### Scalars -/

/-- `VisitHelper`, of a `bool`. -/
def writeBool : Writer Bool := fun _ value =>
  some (if value then [0x74, 0x72, 0x75, 0x65] else [0x66, 0x61, 0x6c, 0x73, 0x65])

/-- `VisitHelper`, of an integer: `{:d}`. -/
def writeInteger : Writer ℤ := fun _ value => some (formatInt value)

/-- The kinds of numbers that `FormatFloat` tells apart. -/
inductive FloatClass
  | finite
  | infinity
  | negInfinity
  | nan
deriving DecidableEq, Repr

/-- A type of floating point numbers, with what `fmt` makes of a finite one. -/
structure FormattedFloat (α : Type) where
  classify : α → FloatClass
  format : α → Bytes

/-- `FormatFloat`. -/
def writeFloat (F : FormattedFloat α) : Writer α := fun options value =>
  let null : Bytes := [0x6e, 0x75, 0x6c, 0x6c]
  let infinity : Bytes := [0x49, 0x6e, 0x66, 0x69, 0x6e, 0x69, 0x74, 0x79]
  match F.classify value with
  | .infinity => some (if options.standard then null else infinity)
  | .negInfinity => some (if options.standard then null else 0x2d :: infinity)
  | .nan => some (if options.standard then null else [0x4e, 0x61, 0x4e])
  | .finite => some (F.format value)

/-- A text between quotation marks, as it is. -/
def inQuotes (text : Bytes) : Bytes := 0x22 :: (text ++ [0x22])

/-- `VisitHelper`, of a time, which `format` makes a text of. -/
def writeFormatted (format : α → Bytes) : Writer α := fun _ value => some (inQuotes (format value))

/-- `VisitEnumeration`, for the names of the values; `at` throws for a value without one. -/
def writeEnumeration [DecidableEq α] (enumerationMapper : List (α × Bytes)) : Writer α :=
  fun _ value =>
    (enumerationMapper.find? fun pair => pair.1 = value).map fun pair => inQuotes pair.2

/-! ### Containers -/

variable (write : Writer α)

/-- `VisitHelper`, of an `std::optional`. -/
def writeOptional : Writer (Option α) := fun options value =>
  match value with
  | none => some [0x6e, 0x75, 0x6c, 0x6c]
  | some value => write options value

/-- The loop of `WriteArray`. -/
def writeItems (options : Options) : (first : Bool) → List α → Option Bytes
  | _, [] => some []
  | first, item :: items => do
    let pad ← indent options 2
    let text ← write options item
    let more ← writeItems options false items
    return (if first then [] else [0x2c, 0x0a]) ++ pad ++ text ++ more

/-- `WriteArray`, of an `std::vector`. -/
def writeArray : Writer (List α) := fun options values => do
  let items ← writeItems write options true values
  let pad ← indent options 0
  return [0x5b, 0x0a] ++ items ++ 0x0a :: pad ++ [0x5d]

/-- `VisitArray`, of an `std::array`. -/
def visitArray {n : ℕ} : Writer (Vector α n) := fun options values =>
  writeArray write options values.toList

/-- A value that is written by way of another one: a field of an object, or what an external
serializer gives for it. -/
def writeVia (get : β → α) : Writer β := fun options value => write options (get value)

/-! ### Objects -/

/-- A field that `Serialize` visits: its name, and the writer of the object that writes it. -/
structure Field (α : Type) where
  name : Bytes
  write : Writer α

/-- `Visit`, of the fields in turn. -/
def visit (options : Options) (value : α) : (first : Bool) → List (Field α) → Option Bytes
  | _, [] => some []
  | first, field :: fields => do
    let pad ← indent options 0
    let text ← field.write options value
    let more ← visit options value false fields
    return (if first then [] else [0x2c, 0x0a]) ++ pad ++
      (0x22 :: (field.name ++ [0x22, 0x20, 0x3a, 0x20])) ++ text ++ more

/-- `Accept`. -/
def accept (fields : List (Field α)) : Writer α := fun options value => do
  let members ← visit options value true fields
  let pad ← indent options (-2)
  return [0x7b, 0x0a] ++ members ++ 0x0a :: pad ++ [0x7d]

/-- `VisitSerializable`: an archive of its own on the same stream. -/
def visitSerializable (fields : List (Field α)) : Writer α := fun options value =>
  accept fields { options with indent := options.indent + 2 } value

end Mjlib.Base.Json5WriteArchive
