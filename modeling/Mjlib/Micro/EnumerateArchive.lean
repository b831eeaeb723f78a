import Mjlib.Base.Snprintf
import Mjlib.Telemetry.Types

/-!
# `SerializableHandler::Enumerate`

Enumeration is a walk that is resumed: `EnumerateArchive` visits the object from the start, emits the
leaf whose index is `current_field_index_to_write` and is `done`; when the line of that leaf is
written, the index is increased and the object is visited again, until a visit finds no leaf.

The fields of an object are those of `Telemetry.Types`.  A type that no `FormatSpecifier` has a
format for does not compile here, and has no leaf.
-/

namespace Mjlib.Micro

open Base Telemetry

/-- `static_cast<int32_t>` of an enumerator. -/
def enumToInt32 (e : EnumType) (value : Word e.size) : BitVec 32 :=
  if e.signed then value.signExtend 32 else value.setWidth 32

variable (floats : FloatFormat)

/-- What `FormatSpecifier` and `snprintf` make of a scalar or an enumerator; an optional without a
value is `Empty`. -/
def formatValue : (t : Ty) → t.Val → Option Bytes
  | .bool, value => some (decimal value.toNat)
  | .int true _, value => some (formatInt value.toInt)
  | .int false _, value => some (decimal value.toNat)
  | .float32, value => some (floats.float32 value)
  | .float64, value => some (floats.float64 value)
  | .enum e, value => some (formatInt (enumToInt32 e value).toInt)
  | .optional _, none => some []
  | .optional elem, some value => formatValue elem value
  | .bytes, _ => none
  | .string, _ => none
  | .vector _, _ => none
  | .array .., _ => none
  | .object .., _ => none
  | .timestamp, _ => none
  | .duration, _ => none

namespace EnumerateArchive

/-- A leaf that is visited: the prefixes of the archives above it, its name and its text. -/
structure Line where
  prefixes : List Bytes
  name : Bytes
  text : Bytes
deriving DecidableEq, Repr

/-! ### `FormatField` -/

/-- `FormatPrefix`, of all archives from the outermost one on: what is in a buffer of the given size,
and whether the prefix of the last archive was written. -/
def formatPrefix (size : ℕ) : List Bytes → Bytes × Bool → Bytes × Bool
  | [], result => result
  | level :: levels, (written, _) =>
    -- the result for the archive above is not looked at
    formatPrefix size levels
      (if level.length + 2 > size - written.length then (written, false)
        else (written ++ level ++ [0x2e], true))

/-- `FormatField`: the line of a leaf, or nothing if its prefix or its name does not fit; none where
it writes past the end of the buffer. -/
def formatField (size : ℕ) (line : Line) : Option Bytes :=
  match formatPrefix size line.prefixes ([], true) with
  | (_, false) => some []
  | (written, true) =>
    if line.name.length + 3 > size - written.length then some []
    else
      let data := written ++ line.name ++ [0x20] ++ line.text ++ [0x0d, 0x0a]
      if data.length ≤ size then some data else none

/-! ### The walk -/

/-- `*current_index_`, and the leaf that was emitted; `*done_` says whether there is one. -/
structure Walk where
  currentIndex : UInt16 := 0
  emitted : Option Line := none
deriving DecidableEq, Repr

/-- `*done_`. -/
def Walk.done (walk : Walk) : Bool := walk.emitted.isSome

/-- `EmitValue`. -/
def emitValue (target : UInt16) (line : Line) (walk : Walk) : Walk :=
  { currentIndex := walk.currentIndex + 1
    emitted := if walk.currentIndex = target then some line else walk.emitted }

variable (target : UInt16)

mutual

/-- `Visit`, by the type of the value. -/
def visit (prefixes : List Bytes) : (t : Ty) → t.Val → (name : Bytes) → Walk → Walk
  | .object _ fields, value, name, walk =>
    if walk.done then walk else accept (prefixes ++ [name]) fields value walk
  | .array elem _, value, name, walk =>
    if walk.done then walk
    else value.val.zipIdx.foldl
      (fun walk item => visit (prefixes ++ [name]) elem item.1 (decimal item.2) walk) walk
  | t, value, name, walk =>
    if walk.done then walk
    else
      match formatValue floats t value with
      | some text => emitValue target ⟨prefixes, name, text⟩ walk
      | none => walk

/-- `Accept`: the fields one after the other. -/
def accept (prefixes : List Bytes) : (fields : Fields) → fields.Vals → Walk → Walk
  | .nil, _, walk => walk
  | .cons name ty rest, value, walk =>
    accept prefixes rest value.2 (visit prefixes ty value.1 name.val walk)

end

/-! ### The enumeration -/

/-- `Context`, the write that is in progress, and what came of the enumeration. -/
structure State where
  /-- `current_field_index_to_write`. -/
  target : UInt16 := 0
  /-- What `AsyncWrite` has left to write, while it is in progress. -/
  writing : Option Bytes := none
  /-- What the stream has taken. -/
  written : Bytes := []
  /-- How often the callback was called. -/
  called : ℕ := 0
  /-- A line was written past the end of the buffer. -/
  failed : Bool := false
deriving DecidableEq, Repr

/-- The arguments of `Enumerate`, with the object of the handler. -/
structure Request where
  fields : Fields
  value : fields.Vals
  rootPrefix : Bytes
  /-- The size of the buffer. -/
  size : ℕ

variable (request : Request)

/-- `evaluate_enumerate_archive`: the state after it, and its result. -/
def evaluate (s : State) : State × Bool :=
  match (accept floats s.target [request.rootPrefix] request.fields request.value {}).emitted with
  | none => (s, false)
  | some line =>
    match formatField request.size line with
    | some data => ({ s with writing := some data }, true)
    | none => ({ s with failed := true }, true)

/-- What happens: the call of `Enumerate`, and an `AsyncWriteSome` that takes so many bytes.  An empty
line takes no byte. -/
inductive Action
  | enumerate
  | writeSome (n : ℕ)
deriving DecidableEq, Repr

/-- The stream took the whole line. -/
def lineWritten (s : State) : State :=
  let (s, done) := evaluate floats request { s with target := s.target + 1, writing := none }
  if done then s else { s with called := s.called + 1 }

/-- One step; none where the action is not possible. -/
def step (s : State) : Action → Option State
  | .enumerate =>
    if s.writing.isSome then none else some (evaluate floats request { s with target := 0 }).1
  | .writeSome n =>
    match s.writing with
    | none => none
    | some data =>
      if s.failed ∨ n > data.length ∨ (n = 0 ∧ data ≠ []) then none
      else
        let s := { s with written := s.written ++ data.take n, writing := some (data.drop n) }
        some (if data.drop n = [] then lineWritten floats request s else s)

end EnumerateArchive

end Mjlib.Micro
