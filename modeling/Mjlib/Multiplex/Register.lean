import Mjlib.Multiplex.Stream

/-!
# `RegisterRequest` and `ParseRegisterReply`

The client's side of the register service.  A request whose assertion fails has no result.
`ParseRegisterReply` is the form that fills a vector.
-/

namespace Mjlib.Multiplex

/-- `RegisterRequest`. -/
structure RegisterRequest where
  buffer : Bytes := []
  requestReply : Bool := false
deriving DecidableEq, Repr

namespace RegisterRequest

/-- `ExpectResponse`. -/
def expectResponse (value : Bool) (r : RegisterRequest) : RegisterRequest :=
  { r with requestReply := value }

/-- `ReadSingle`. -/
def readSingle (reg : Register) (typeIndex : ℕ) (r : RegisterRequest) : Option RegisterRequest :=
  if typeIndex ≤ 3 then
    some {
      buffer := r.buffer ++ writeVaruint (UInt32.ofNat (Subframe.kReadBase + typeIndex * 4 + 1))
        ++ writeVaruint reg
      requestReply := true }
  else none

/-- `encoded_length`, for a number of registers. -/
def encodedLength (n : ℕ) : ℕ := if n < 4 then n else 0

/-- The type of a subframe about `n` registers, and `n` if it is not in the low bits. -/
def writeHead (base typeIndex n : ℕ) : Bytes :=
  writeVaruint (UInt32.ofNat (base + typeIndex * 4 + encodedLength n))
    ++ if encodedLength n = 0 then writeVaruint (UInt32.ofNat n) else []

/-- `ReadMultiple`. -/
def readMultiple (reg : Register) (numRegisters : UInt32) (typeIndex : ℕ) (r : RegisterRequest) :
    Option RegisterRequest :=
  if numRegisters > 0 ∧ typeIndex ≤ 3 then
    some {
      buffer := r.buffer ++ writeHead Subframe.kReadBase typeIndex numRegisters.toNat
        ++ writeVaruint reg
      requestReply := true }
  else none

/-- `WriteSingle`. -/
def writeSingle (reg : Register) (value : Value) (r : RegisterRequest) : Option RegisterRequest :=
  some { r with
    buffer := r.buffer ++ writeVaruint (UInt32.ofNat (Subframe.kWriteBase + value.index * 4 + 1))
      ++ writeVaruint reg ++ value.bytes }

/-- `WriteMultiple`; the type is that of the first value. -/
def writeMultiple (startReg : Register) (values : List Value) (r : RegisterRequest) :
    Option RegisterRequest :=
  match values with
  | [] => none
  | front :: _ =>
    some { r with
      buffer := r.buffer ++ writeHead Subframe.kWriteBase front.index values.length
        ++ writeVaruint startReg ++ values.flatMap Value.bytes }

/-- `clear`. -/
def clear (_ : RegisterRequest) : RegisterRequest := {}

/-- A call that adds to a request. -/
inductive Op
  | readSingle (reg : Register) (typeIndex : ℕ)
  | readMultiple (reg : Register) (numRegisters : UInt32) (typeIndex : ℕ)
  | writeSingle (reg : Register) (value : Value)
  | writeMultiple (startReg : Register) (values : List Value)
deriving DecidableEq, Repr

/-- Make a call. -/
def apply (r : RegisterRequest) : Op → Option RegisterRequest
  | .readSingle reg typeIndex => r.readSingle reg typeIndex
  | .readMultiple reg numRegisters typeIndex => r.readMultiple reg numRegisters typeIndex
  | .writeSingle reg value => r.writeSingle reg value
  | .writeMultiple startReg values => r.writeMultiple startReg values

/-- The request built by a sequence of calls. -/
def build (ops : List Op) : Option RegisterRequest := ops.foldlM apply {}

end RegisterRequest

/-! ### Replies -/

/-- `RegisterValue`. -/
abbrev RegisterValue := Register × ReadResult

namespace RegisterReply

/-- `ReadValue`. -/
def readValue (typeIndex : ℕ) (s : Bytes) : Option Value × Bytes :=
  let (maybeScalar, s) := ReadStream.readScalar (Value.sizeOfType typeIndex) s
  (maybeScalar.map (Value.ofScalar typeIndex), s)

/-- The loop over the values of a reply, with the number of registers to go. -/
def readValues (typeIndex : ℕ) : ℕ → Register → Bytes → Option (List RegisterValue) × Bytes
  | 0, _, s => (some [], s)
  | n + 1, reg, s =>
    match readValue typeIndex s with
    | (none, s) => (none, s)
    | (some value, s) =>
      match readValues typeIndex n (reg + 1) s with
      | (none, s) => (none, s)
      | (some values, s) => (some ((reg, .value value) :: values), s)

/-- `ParseSubframe`: what it adds to the output, or nothing if it fails, with the bytes left over. -/
def parseSubframe (s : Bytes) : Option (List RegisterValue) × Bytes :=
  match ReadStream.readVaruint s with
  | (none, s) => (none, s)
  | (some subframeId, s) =>
    let id := subframeId.toNat
    if id ≥ Subframe.kReplyBase ∧ id < Subframe.kReplyBase + 16 then
      let encodedLength := id % 4
      let type := (id - Subframe.kReplyBase) / 4
      match (if encodedLength = 0 then ReadStream.readVaruint s
          else (some (UInt32.ofNat encodedLength), s)) with
      | (none, s) => (none, s)
      | (some numRegisters, s) =>
        match ReadStream.readVaruint s with
        | (none, s) => (none, s)
        | (some startReg, s) => readValues type numRegisters.toNat startReg s
    else if id = Subframe.kWriteError ∨ id = Subframe.kReadError then
      let (maybeThisReg, s) := ReadStream.readVaruint s
      let (maybeThisErr, s) := ReadStream.readVaruint s
      match maybeThisReg, maybeThisErr with
      | some thisReg, some thisErr => (some [(thisReg, .error thisErr)], s)
      | _, _ => (none, s)
    else (none, s)

/-- The loop of `ParseRegisterReply`; every subframe that is parsed takes at least one byte, and
without one there is none. -/
def parseRegisterReplyLoop : ℕ → Bytes → List RegisterValue
  | 0, _ => []
  | n + 1, s =>
    match parseSubframe s with
    | (none, _) => []
    | (some values, s) => values ++ parseRegisterReplyLoop n s

/-- `ParseRegisterReply`. -/
def parseRegisterReply (s : Bytes) : List RegisterValue := parseRegisterReplyLoop s.length s

end RegisterReply

end Mjlib.Multiplex
