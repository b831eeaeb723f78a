import Mjlib.Multiplex.Format

/-!
# Multiplex streams: scalars and varuints

`ReadStream<Base>` reads through `base::ReadStream`, which hands over as many bytes as it has;
`ReadStream<base::BufferReadStream>` reads from the buffer itself and leaves it alone when a scalar
does not fit.  Every reader returns what it found and the bytes left over.
-/

namespace Mjlib.Multiplex

/-! ### Reading through `base::ReadStream` -/

namespace ReadStream

/-- `ReadScalar<T>` for an unsigned `T` of the given size: a short read uses up what is there. -/
def readScalar (size : ℕ) (s : Bytes) : Option ℕ × Bytes :=
  if s.length < size then (none, [])
  else (some (LittleEndian.decode (s.take size)), s.drop size)

/-- `Read<uint8_t>`. -/
def readU8 : Bytes → Option UInt8 × Bytes
  | [] => (none, [])
  | b :: s => (some b, s)

/-- The loop of `ReadVaruint`, with `n` of its five iterations to go. -/
def readVaruintLoop : ℕ → UInt32 → UInt32 → Bytes → Option UInt32 × Bytes
  | 0, _, _, s => (some 0xffffffff, s)
  | n + 1, pos, result, s =>
    match readU8 s with
    | (none, s) => (none, s)
    | (some thisByte, s) =>
      let result := result ||| ((thisByte &&& 0x7f).toUInt32 <<< pos)
      if thisByte &&& 0x80 = 0 then (some result, s)
      else readVaruintLoop n (pos + 7) result s

/-- `ReadVaruint`: a number of more than five bytes reads as the largest one. -/
def readVaruint (s : Bytes) : Option UInt32 × Bytes := readVaruintLoop 5 0 0 s

end ReadStream

/-! ### Reading from a `base::BufferReadStream` -/

namespace BufferReadStream

/-- `ReadScalar<T>` for an unsigned `T` of the given size. -/
def readScalar (size : ℕ) (s : Bytes) : Option ℕ × Bytes :=
  if s.length < size then (none, s)
  else (some (LittleEndian.decode (s.take size)), s.drop size)

/-- `Read<uint8_t>`. -/
def readU8 : Bytes → Option UInt8 × Bytes
  | [] => (none, [])
  | b :: s => (some b, s)

/-- The loop of the specialised `ReadVaruint`: `i` counts the bytes looked at, `fast_ignore` steps
over them on every way out. -/
def readVaruintLoop (s : Bytes) : ℕ → ℕ → UInt32 → UInt32 → Option UInt32 × Bytes
  | 0, i, _, _ => (some 0xffffffff, s.drop i)
  | n + 1, i, pos, result =>
    match s.drop i with
    | [] => (none, s.drop i)
    | thisByte :: _ =>
      let result := result ||| ((thisByte &&& 0x7f).toUInt32 <<< pos)
      if thisByte &&& 0x80 = 0 then (some result, s.drop (i + 1))
      else readVaruintLoop s n (i + 1) (pos + 7) result

/-- `ReadStream<base::BufferReadStream>::ReadVaruint`. -/
def readVaruint (s : Bytes) : Option UInt32 × Bytes := readVaruintLoop s 5 0 0 0

end BufferReadStream

/-! ### Writing -/

/-- The loop of `WriteVaruint`; a 32-bit value leaves after five iterations at the latest. -/
def writeVaruintLoop : ℕ → UInt32 → Bytes
  | 0, _ => []
  | n + 1, value =>
    let thisByte := (value &&& 0x7f).toUInt8
    let value := value >>> 7
    if value ≠ 0 then (thisByte ||| 0x80) :: writeVaruintLoop n value else [thisByte]

/-- `WriteVaruint`. -/
def writeVaruint (value : UInt32) : Bytes := writeVaruintLoop 5 value

/-- The loop of the specialised `WriteVaruint`: what is stored from `start_position` on. -/
def BufferWriteStream.writeVaruintLoop : ℕ → UInt32 → Bytes → Bytes
  | 0, _, stored => stored
  | n + 1, value, stored =>
    let thisByte := (value &&& 0x7f).toUInt8
    let value := value >>> 7
    let stored := stored ++ [thisByte ||| if value ≠ 0 then 0x80 else 0x00]
    if value ≠ 0 then writeVaruintLoop n value stored else stored

/-- `WriteStream<base::BufferWriteStream>::WriteVaruint`, which skips over what it has stored. -/
def BufferWriteStream.writeVaruint (value : UInt32) (w : Base.BufferWriteStream) :
    Base.BufferWriteStream :=
  w.put (BufferWriteStream.writeVaruintLoop 5 value [])

/-- The loop of `GetVaruintSize`. -/
def getVaruintSizeLoop : ℕ → UInt32 → ℕ
  | 0, _ => 0
  | n + 1, value => if value >>> 7 ≠ 0 then 1 + getVaruintSizeLoop n (value >>> 7) else 1

/-- `GetVaruintSize`. -/
def getVaruintSize (value : UInt32) : ℕ := getVaruintSizeLoop 5 value

end Mjlib.Multiplex
