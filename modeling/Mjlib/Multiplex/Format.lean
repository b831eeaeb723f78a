import Mjlib.Base.Stream

/-!
# The multiplex format: constants, register values

The constants of `struct Format` that the modelled code uses, and the values a register can have.
A `float` is represented by its bit pattern.
-/

namespace Mjlib.Multiplex

/-- `Format::kHeader`. -/
def kHeader : ℕ := 0xab54
/-- `kHeader & 0xff`, the first byte of a frame. -/
def kHeaderLowByte : UInt8 := 0x54
/-- `(kHeader >> 8) & 0xff`, the second byte of a frame. -/
def kHeaderHighByte : UInt8 := 0xab
def kHeaderSize : ℕ := 4
def kMaxVaruintSize : ℕ := 5
def kMinVaruintSize : ℕ := 1
def kCrcSize : ℕ := 2
def kBroadcastId : ℕ := 0x7f

/-! ### Subframe types -/

namespace Subframe

def kWriteBase : ℕ := 0x00
def kReadBase : ℕ := 0x10
def kReplyBase : ℕ := 0x20
def kWriteError : ℕ := 0x30
def kReadError : ℕ := 0x31
def kClientToServer : ℕ := 0x40
def kServerToClient : ℕ := 0x41
def kClientPollServer : ℕ := 0x42
def kNop : ℕ := 0x50

end Subframe

/-! ### Registers and values -/

/-- `Format::Register`. -/
abbrev Register := UInt32

/-- `Format::Value`; the constructors are in the order of the variant. -/
inductive Value
  | int8 (v : Int8)
  | int16 (v : Int16)
  | int32 (v : Int32)
  | float (bits : UInt32)
deriving DecidableEq, Repr

namespace Value

/-- `value.index()`. -/
def index : Value → ℕ
  | int8 _ => 0
  | int16 _ => 1
  | int32 _ => 2
  | float _ => 3

/-- The bytes of the value in memory. -/
def bytes : Value → Bytes
  | int8 v => scalarBytes 1 v.toUInt8.toNat
  | int16 v => scalarBytes 2 v.toUInt16.toNat
  | int32 v => scalarBytes 4 v.toUInt32.toNat
  | float v => scalarBytes 4 v.toNat

/-- `sizeof` the type with the given index. -/
def sizeOfType : ℕ → ℕ
  | 0 => 1
  | 1 => 2
  | _ => 4

/-- The value of the type with the given index that an unsigned scalar of its size stands for. -/
def ofScalar (type n : ℕ) : Value :=
  match type with
  | 0 => int8 (UInt8.ofNat n).toInt8
  | 1 => int16 (UInt16.ofNat n).toInt16
  | 2 => int32 (UInt32.ofNat n).toInt32
  | _ => float (UInt32.ofNat n)

theorem length_bytes (v : Value) : v.bytes.length = sizeOfType v.index := by
  cases v <;> simp [bytes, sizeOfType, index, scalarBytes]

theorem index_lt (v : Value) : v.index < 4 := by
  cases v <;> simp [index]

/-- A value is recovered from its bytes and the index of its type. -/
theorem ofScalar_decode_bytes (v : Value) :
    ofScalar v.index (LittleEndian.decode v.bytes) = v := by
  cases v with
  | int8 v =>
    rw [bytes, scalarBytes, LittleEndian.decode_encode (by simpa using v.toUInt8.toNat_lt)]
    simp [ofScalar, index]
  | int16 v =>
    rw [bytes, scalarBytes, LittleEndian.decode_encode (by simpa using v.toUInt16.toNat_lt)]
    simp [ofScalar, index]
  | int32 v =>
    rw [bytes, scalarBytes, LittleEndian.decode_encode (by simpa using v.toUInt32.toNat_lt)]
    simp [ofScalar, index]
  | float v =>
    rw [bytes, scalarBytes, LittleEndian.decode_encode (by simpa using v.toNat_lt)]
    simp [ofScalar, index]

end Value

/-- `Format::ReadResult`: a value or an error code. -/
inductive ReadResult
  | value (v : Value)
  | error (code : UInt32)
deriving DecidableEq, Repr

end Mjlib.Multiplex
