import Mjlib.Base.Strtol
import Mjlib.Base.Tokenizer
import Mjlib.Micro.EnumerateArchive

/-!
# `SerializableHandler::Set` and `Read`

`ItemArchive` looks a leaf up by its dotted path: each archive takes the first component of its key,
visits the field of that name and hands the rest of the key on.  An index of an array is read with
`strtol`, and the value of a leaf with its relatives, from the text in memory: `beyond` is what
follows the key there, and the value.  The conversions of floating point numbers are parameters.
-/

namespace Mjlib.Micro

open Base Telemetry

/-- The C library's conversions to floating point numbers. -/
structure FloatParse where
  strtof : Bytes → BitVec 32
  strtod : Bytes → BitVec 64
  /-- The conversion of an `unsigned long long` to `float`. -/
  toFloat32 : ℕ → BitVec 32
  toFloat64 : ℕ → BitVec 64

namespace ItemArchive

/-- `my_key_` and `remaining_key_`. -/
def keys (key : Bytes) : Bytes × Bytes :=
  let (myKey, tokenizer) := (Tokenizer.mk [0x2e] key).next
  (myKey.getD [], tokenizer.remaining)

/-- What became of an archive: `found()`, the object, and what `ReadArchive` has emitted. -/
structure Result (α : Type) where
  found : Bool
  value : α
  emitted : Option Bytes := none
deriving DecidableEq, Repr

/-- The result for an object that has the object in it. -/
def Result.map {α β : Type} (f : α → β) (result : Result α) : Result β :=
  { result with value := f result.value }

/-- What an archive does with a scalar or an enumerator; none where the process ends. -/
abbrev Leaf := (t : Ty) → t.Val → Option (Result t.Val)

variable (beyond : Bytes) (leaf : Leaf)

mutual

/-- `VisitArchive::Visit` of the element that `my_key_` names, by its type; none where the process
ends. -/
def visit : (t : Ty) → t.Val → (remainingKey : Bytes) → Option (Result t.Val)
  | .object _ fields, value, remainingKey =>
    let (myKey, remaining) := keys remainingKey
    accept fields value myKey remaining
  | .array elem _, value, remainingKey =>
    match (Tokenizer.mk [0x2e] remainingKey).next with
    -- `strtol` of a null pointer
    | (none, _) => none
    | (some indexStr, tokenizer) =>
      let text := remainingKey ++ beyond
      let (number, strEnd) := strtol 0 text
      let index := (BitVec.ofInt 64 number).toNat
      if hindex : index < value.val.length then
        if text.length - strEnd.length ≠ indexStr.length then some ⟨false, value, none⟩
        else
          -- with the delimiter before it, so that the first component is empty
          let mapped :=
            if tokenizer.remaining = [] then [] else remainingKey.drop indexStr.length
          let (myKey, remaining) := keys mapped
          if myKey ≠ [] then some ⟨false, value, none⟩
          else (visit elem value.val[index] remaining).map
            (·.map fun item =>
              ⟨value.val.set index item, by rw [List.length_set]; exact value.property⟩)
      else some ⟨false, value, none⟩
  | t, value, _ => leaf t value

/-- `Accept`: the field that `my_key_` names is visited. -/
def accept : (fields : Fields) → fields.Vals → (myKey remainingKey : Bytes) →
    Option (Result fields.Vals)
  | .nil, _, _, _ => some ⟨false, (), none⟩
  | .cons name ty rest, value, myKey, remainingKey =>
    if myKey = name.val then
      (visit ty value.1 remainingKey).map (·.map fun item => (item, value.2))
    else (accept rest value.2 myKey remainingKey).map (·.map fun items => (value.1, items))

end

/-- An archive with a key, on an object. -/
def acceptKey (fields : Fields) (value : fields.Vals) (key : Bytes) : Option (Result fields.Vals) :=
  let (myKey, remaining) := keys key
  accept beyond leaf fields value myKey remaining

end ItemArchive

/-! ### `SetArchive` -/

namespace SetArchive

variable (floats : FloatParse)

/-- `ParseValue` of an optional: an `unsigned long long`, which is converted. -/
def ofUnsigned (n : ℕ) : (t : Ty) → Option t.Val
  | .bool => some (n ≠ 0)
  | .int _ _ => some (BitVec.ofNat _ n)
  | .float32 => some (floats.toFloat32 n)
  | .float64 => some (floats.toFloat64 n)
  | _ => none

/-- `ParseValue`, of the text in memory; none for a type that it does not compile for. -/
def parseValue (text : Bytes) : (t : Ty) → Option t.Val
  | .bool => some ((strtoull 0 text).1 ≠ 0)
  | .int true _ => some (BitVec.ofInt _ (strtol 0 text).1)
  | .int false _ => some (BitVec.ofNat _ (strtoull 0 text).1)
  | .float32 => some (floats.strtof text)
  | .float64 => some (floats.strtod text)
  | .enum _ => some ((BitVec.ofInt 32 (strtol 0 text).1).signExtend _)
  | .optional elem => (ofUnsigned floats (strtoull 0 text).1 elem).map some
  | _ => none

/-- `VisitEnumeration` and `VisitScalar`. -/
def leaf (text : Bytes) : ItemArchive.Leaf := fun t value =>
  match parseValue floats text t with
  | some value => some ⟨true, value, none⟩
  | none => some ⟨false, value, none⟩

end SetArchive

/-! ### `ReadArchive` -/

namespace ReadArchive

/-- `VisitEnumeration` and `VisitScalar`, with a buffer of a given size; `EmitValue` relies on it to
be larger than the text. -/
def leaf (floats : FloatFormat) (size : ℕ) : ItemArchive.Leaf := fun t value =>
  match formatValue floats t value with
  | some text => if text.length < size then some ⟨true, value, some text⟩ else none
  | none => some ⟨false, value, none⟩

end ReadArchive

namespace SerializableHandler

variable {fields : Fields}

/-- `Set`; the key and the value are followed by other bytes in memory. -/
def set (floats : FloatParse) (beyondKey beyondValue : Bytes) (value : fields.Vals)
    (key text : Bytes) : Option (ItemArchive.Result fields.Vals) :=
  ItemArchive.acceptKey beyondKey (SetArchive.leaf floats (text ++ beyondValue)) fields value key

/-- `Read`, with a buffer of a given size. -/
def read (floats : FloatFormat) (beyondKey : Bytes) (size : ℕ) (value : fields.Vals) (key : Bytes) :
    Option (ItemArchive.Result fields.Vals) :=
  ItemArchive.acceptKey beyondKey (ReadArchive.leaf floats size) fields value key

end SerializableHandler

end Mjlib.Micro
