import Mathlib
import Mjlib.Lib.LittleEndian

/-!
# Byte streams

A stream that is being read is the list of the bytes not yet read; one that is being written is the
list of the bytes written so far.  `base::BufferWriteStream` writes into a fixed buffer through an
unchecked position, so its model keeps the size of the buffer and the highest position reached.
-/

namespace Mjlib

/-- A byte string. -/
abbrev Bytes := List UInt8

-- what the maps with byte strings for keys and the tests for membership rest on
instance : Std.LawfulOrderLT Bytes := inferInstance
instance : LawfulBEq Bytes := inferInstance

/-- The `sizeof(T)` bytes of an unsigned scalar in memory (the code supports little-endian targets
only). -/
abbrev scalarBytes (size n : ℕ) : Bytes := LittleEndian.encode size n

namespace Base

/-- `base::BufferWriteStream`: `size` is `buffer_.size()`, `data` the bytes before `offset_`, and
`highWater` the largest `offset_` so far, so that every byte written went below it. -/
structure BufferWriteStream where
  size : ℕ
  data : Bytes
  highWater : ℕ
deriving DecidableEq, Repr

namespace BufferWriteStream

/-- A stream at the start of a buffer of the given size. -/
def new (size : ℕ) : BufferWriteStream := ⟨size, [], 0⟩

/-- `offset()`. -/
def offset (w : BufferWriteStream) : ℕ := w.data.length

/-- `remaining()`; negative once the position has left the buffer. -/
def remaining (w : BufferWriteStream) : ℤ := (w.size : ℤ) - w.offset

/-- Store bytes at `position()` and `skip` over them, without a check. -/
def put (w : BufferWriteStream) (bytes : Bytes) : BufferWriteStream :=
  { w with
    data := w.data ++ bytes
    highWater := max w.highWater (w.data.length + bytes.length) }

/-- `reset(position)`, for a position that was reached before. -/
def reset (w : BufferWriteStream) (position : ℕ) : BufferWriteStream :=
  { w with data := w.data.take position }

end BufferWriteStream

end Base

end Mjlib
