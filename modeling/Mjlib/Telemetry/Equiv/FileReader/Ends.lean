import Mjlib.Telemetry.Equiv.FileReader.Clean
import Mjlib.Telemetry.Equiv.FileReader.Walk

/-!
# How the reader's computations end

A computation of the reader ends well if it ends with a result or with an exception (`Ends`).  Of a
reader that is at a place (`At`), each primitive ends well exactly where the predicate about that
place says: what is put in for its result and for its exceptions has to be the same on both sides.
The rules go through a computation from its first step on, and leave the conditions on the file.
-/

namespace Mjlib.Telemetry.FileReader

open Base Precondition

variable {α β : Type} {file : Bytes} {start : ℕ} {known : List UInt64} {seen : Bool}
  {origin : ℕ} {st : State} {pl : Place} {thrown : State → Prop}

/-- A computation ends with a result or with an exception, and leaves the reader as it should be. -/
def Ends (x : M α) (thrown : State → Prop) (Q : α → State → Prop) (st : State) : Prop :=
  wp x (fun e st => e.IsException ∧ thrown st) Q st

/-- What a reader knows: where the blocks start, and records of some identifiers. -/
structure Has (start : ℕ) (known : List UInt64) (st : State) : Prop where
  start : st.start = start
  known : ∀ identifier, identifier ∈ known ↔ (st.idToRecord.get? identifier).isSome
  keyed : ∀ identifier record, st.idToRecord.get? identifier = some record →
    record.identifier = identifier

/-- A reader is at a place, behind where it was before; it reads the file directly, or through a CRC
stream that has seen the file from there on. -/
structure At (file : Bytes) (start : ℕ) (known : List UInt64) (seen : Bool) (origin : ℕ)
    (st : State) (pl : Place) : Prop where
  has : Has start known st
  pos : st.pos = pl.pos
  left : st.blockSize = pl.left
  crc : st.crc = if seen then some ((file.drop origin).take (pl.pos - origin)) else none
  le : origin ≤ pl.pos

/-! ### Computations -/

theorem At.shrink (h : At file start known seen origin st pl) (asked : ℕ) :
    At file start known seen origin { st with blockSize := st.blockSize - asked }
      ⟨pl.pos, pl.left - asked⟩ := by
  refine ⟨⟨h.has.start, h.has.known, h.has.keyed⟩, h.pos, ?_, h.crc, h.le⟩
  show st.blockSize - _ = pl.left - _
  rw [h.left]

/-- A step over bytes that are there. -/
theorem At.advance (h : At file start known seen origin st pl) {n : ℕ}
    (hn : n ≤ (file.drop pl.pos).length) :
    At file start known seen origin (st.advance ((file.drop pl.pos).take n))
      ⟨pl.pos + n, pl.left⟩ := by
  have hlen : ((file.drop pl.pos).take n).length = n := List.length_take_of_le hn
  refine ⟨⟨h.has.start, h.has.known, h.has.keyed⟩, ?_, h.left, ?_, ?_⟩
  · show st.pos + _ = pl.pos + n
    rw [h.pos, hlen]
  · show st.crc.map _ = _
    rw [h.crc]
    cases seen with
    | false => rfl
    | true =>
      have hle := h.le
      show some ((file.drop origin).take (pl.pos - origin) ++ _) =
        some ((file.drop origin).take (pl.pos + n - origin))
      rw [show pl.pos + n - origin = pl.pos - origin + n by omega, List.take_add, List.drop_drop,
        show origin + (pl.pos - origin) = pl.pos by omega]
  · exact h.le.trans (Nat.le_add_right _ _)

theorem At.rest (h : At file start known seen origin st pl) : rest file st = file.drop pl.pos := by
  unfold FileReader.rest
  rw [h.pos]

/-- A reader between two blocks, or before one. -/
structure Outside (start : ℕ) (known : List UInt64) (st : State) (pos : ℕ) : Prop where
  has : Has start known st
  pos : st.pos = pos
  crc : st.crc = none

end Mjlib.Telemetry.FileReader
