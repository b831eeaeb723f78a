import Mathlib
import Mjlib.Telemetry.BinaryReadArchive
import Mjlib.Telemetry.BinarySchemaParser
import Mjlib.Telemetry.BinaryWriteArchive

/-!
# `MappedBinaryReader`

Reading data of one schema into an object of a class whose own schema may differ.  A reader is made
for a class and an element of the schema, `setup` says whether its constructor returns, and `read`
decides at every level as the constructor did: by `BinaryReadArchive` where the schemas are the
same, and otherwise by the fields or the items.  The names of the fields of a class are different
from each other, so that each field has the reader that was made for it.
-/

namespace Mjlib.Telemetry

namespace MappedBinaryReader

open BinarySchemaParser

/-- Whether the type is `kNull`. -/
def isNull : Element → Bool
  | .mk _ _ _ .null => true
  | _ => false

/-- What `element_map_` has for a name: `std::map::insert` keeps the first field. -/
def findElement (elements : List Field) (name : Bytes) : Option Element :=
  (elements.find? (·.name == name)).map Field.element

/-- What `field_data` has for a name. -/
def findData (data : List (Bytes × Bytes)) (name : Bytes) : Option Bytes :=
  (data.find? (·.1 == name)).map Prod.snd

/-- The fields of the data, read in an unstructured manner. -/
def readFieldData : List Field → Bytes → Except Error (List (Bytes × Bytes) × Bytes)
  | [], s => .ok ([], s)
  | field :: fields, s => do
    let (bytes, s) ← field.element.read s
    let (data, s) ← readFieldData fields s
    return ((field.name, bytes) :: data, s)

/-- The loops of `ReadContainer` over the items. -/
def readItems {α : Type} (read : α → Bytes → Except Error (α × Bytes)) :
    List α → Bytes → Except Error (List α × Bytes)
  | [], s => .ok ([], s)
  | item :: items, s => do
    let (item, s) ← read item s
    let (items, s) ← readItems read items s
    return (item :: items, s)

theorem length_of_readItems {α : Type} {read : α → Bytes → Except Error (α × Bytes)}
    {items : List α} : ∀ {items' : List α} {s s' : Bytes},
      readItems read items s = .ok (items', s') → items'.length = items.length := by
  induction items with
  | nil =>
    intro items' s s' h
    obtain ⟨rfl, -⟩ := Prod.mk.inj (Except.ok.inj h)
    rfl
  | cons item items ih =>
    intro items' s s' h
    rw [readItems] at h
    cases hread : read item s with
    | error e => simp [hread, bind, Except.bind] at h
    | ok r =>
      cases hrest : readItems read items r.2 with
      | error e => simp [hread, hrest, bind, Except.bind] at h
      | ok r' =>
        simp only [hread, hrest, bind, Except.bind, pure, Except.pure] at h
        obtain ⟨rfl, -⟩ := Prod.mk.inj (Except.ok.inj h)
        rw [List.length_cons, List.length_cons, ih hrest]

/-- `ReadContainer` of a container whose size it keeps. -/
def readContainer {α : Type} {P : ℕ → Prop} (read : α → Bytes → Except Error (α × Bytes))
    (items : {l : List α // P l.length}) (s : Bytes) :
    Except Error ({l : List α // P l.length} × Bytes) :=
  match h : readItems read items.val s with
  | .ok (items', s) => .ok (⟨items', length_of_readItems h ▸ items.property⟩, s)
  | .error e => .error e

variable (fresh : Fresh)

/-- `schemas_same_`. -/
def schemasSame (t : Ty) (element : Element) : Bool :=
  element.binarySchema == BinarySchemaArchive.write fresh true t

mutual

/-- `MappedBinaryReader(element)`. -/
def setup : Ty → Element → Except Error Unit
  | .object tag fields, element =>
    if schemasSame fresh (.object tag fields) element then .ok () else
      match element.shape with
      | .object _ elements => setupFields fields elements
      | _ => .error .typeMismatch
  | .vector elem, element =>
    if schemasSame fresh (.vector elem) element then .ok () else
      match element.shape with
      | .array child => setup elem child
      | _ => .error .typeMismatch
  | .array elem n, element =>
    if schemasSame fresh (.array elem n) element then .ok () else
      match element.shape with
      | .fixedArray arraySize child =>
        if n ≠ arraySize then .error .typeMismatch else setup elem child
      | _ => .error .typeMismatch
  | .optional elem, element =>
    if schemasSame fresh (.optional elem) element then .ok () else
      match element.shape with
      | .union children =>
        match children.head?, children[1]? with
        | none, _ => .error .pastTheEnd
        | some front, child =>
          if children.length ≠ 2 ∧ ¬isNull front then .error .typeMismatch
          else match child with
            | none => .error .outOfRange
            | some child => setup elem child
      | _ => .error .typeMismatch
  | .enum e, element =>
    if schemasSame fresh (.enum e) element then .ok () else
      match element.shape with
      | .enum _ _ => .ok ()
      | _ => .error .typeMismatch
  | t, element => if schemasSame fresh t element then .ok () else .error .typeMismatch

/-- `SchemaArchive`, which makes a reader for every field that the schema has. -/
def setupFields : Fields → List Field → Except Error Unit
  | .nil, _ => .ok ()
  | .cons name ty rest, elements => do
    match findElement elements name.val with
    | some element => setup ty element
    | none => .ok ()
    setupFields rest elements

end

/-- `BinaryReadArchive(stream).Value(value)`; nobody asks for its `error()`. -/
def readValue (t : Ty) (target : t.Val) (s : Bytes) : Except Error (t.Val × Bytes) := do
  let (v, st) ← BinaryReadArchive.visit fresh t target ⟨s, false⟩
  return (v, st.stream)

mutual

/-- `Read`, of a reader that was made. -/
def read : (t : Ty) → Element → t.Val → Bytes → Except Error (t.Val × Bytes)
  | .object tag fields, element, target, s =>
    if schemasSame fresh (.object tag fields) element then
      readValue fresh (.object tag fields) target s
    else match element.shape with
      | .object _ elements => do
        let (data, s) ← readFieldData elements s
        let v ← readFields fields elements data target
        return (v, s)
      | _ => .error .assertion
  | .vector elem, element, target, s =>
    if schemasSame fresh (.vector elem) element then readValue fresh (.vector elem) target s
    else match element.shape with
      | .array child => do
        let (size, s) ← value (readVaruint s)
        readContainer (P := (· < 2 ^ 64)) (read elem child)
          (Seq.resize (fresh.valueInit elem) size target) s
      | _ => .error .assertion
  | .array elem n, element, target, s =>
    if schemasSame fresh (.array elem n) element then readValue fresh (.array elem n) target s
    else match element.shape with
      | .fixedArray _ child => readContainer (P := (· = n.toNat)) (read elem child) target s
      | _ => .error .assertion
  | .optional elem, element, target, s =>
    if schemasSame fresh (.optional elem) element then readValue fresh (.optional elem) target s
    else match element.shape with
      | .union children =>
        match children[1]?, readVaruint s with
        | none, _ => .error .outOfRange
        | some _, (some 0, s) => .ok (none, s)
        -- also where there is no index
        | some child, (_, s) => do
          let (item, s) ← read elem child (fresh.defaultInit elem) s
          return (some item, s)
      | _ => .error .assertion
  | .enum e, element, target, s =>
    if schemasSame fresh (.enum e) element then readValue fresh (.enum e) target s
    else match element.shape with
      | .enum _ _ => do
        let (v, s) ← value (readVaruint s)
        return (e.ofUInt64 v, s)
      | _ => .error .assertion
  | t, element, target, s =>
    if schemasSame fresh t element then readValue fresh t target s else .error .assertion

/-- `DataArchive`: each field from its own data, with what is left over there ignored. -/
def readFields : (fields : Fields) → List Field → List (Bytes × Bytes) → fields.Vals →
    Except Error fields.Vals
  | .nil, _, _, _ => .ok ()
  | .cons name ty rest, elements, data, target => do
    let first ← match findElement elements name.val, findData data name.val with
      | some element, some bytes => do
        let (v, _) ← read ty element target.1 bytes
        pure v
      | _, _ => pure target.1
    let others ← readFields rest elements data target.2
    return (first, others)

end

end MappedBinaryReader

end Mjlib.Telemetry
