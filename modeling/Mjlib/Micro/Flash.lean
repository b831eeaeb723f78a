import Mjlib.Base.Stream

/-!
# Flash

What is programmed into a flash is the list of the calls of `ProgramByte`: an address and a byte
each.
-/

namespace Mjlib.Micro

/-- `FlashInterface::Info`: the managed section. -/
structure FlashInfo where
  start : ℕ
  end_ : ℕ
deriving DecidableEq, Repr

/-- `FlashWriteStream`. -/
structure FlashWriteStream where
  position : ℕ
  programmed : List (ℕ × UInt8) := []
deriving DecidableEq, Repr

namespace FlashWriteStream

/-- `flash_.ProgramByte(position_, c)`, and the position behind it. -/
def programByte (s : FlashWriteStream) (c : UInt8) : FlashWriteStream :=
  { position := s.position + 1, programmed := s.programmed ++ [(s.position, c)] }

/-- `write`. -/
def write (data : Bytes) (s : FlashWriteStream) : FlashWriteStream := data.foldl programByte s

/-- A write programs its bytes one after the other. -/
theorem write_eq (data : Bytes) (s : FlashWriteStream) :
    s.write data =
      { position := s.position + data.length
        programmed := s.programmed ++ (data.zipIdx s.position).map Prod.swap } := by
  induction data generalizing s with
  | nil => simp [write]
  | cons c data ih =>
    show (s.programByte c).write data = _
    rw [ih]
    simp [programByte, Nat.add_assoc, Nat.add_comm 1]

/-- Two writes are one. -/
theorem write_write (a b : Bytes) (s : FlashWriteStream) :
    (s.write a).write b = s.write (a ++ b) := by
  simp [write, List.foldl_append]

end FlashWriteStream

end Mjlib.Micro
