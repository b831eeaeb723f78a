import Mjlib.Telemetry.Equiv.FileReader.EndsBlocks

/-!
# Items that may be anything

`Read` on a block that may be anything (`ends_read`), and the loop over the items
(`ends_goOn`), which goes over every data block twice: `operator++` looks for the item that it
is at before it looks for the next one.
-/

namespace Mjlib.Telemetry.FileReader

open Base Precondition

variable {α : Type} {file : Bytes} {start : ℕ} {known : List UInt64} {origin : ℕ} {st : State}
  {pl : Place} {thrown : State → Prop}

/-! ### Items -/

variable {options : Options} {rawUncompress : RawUncompress} {Q : Item → State → Prop} {P : Prop}

theorem IsHeader.unique {pos : ℕ} {type type' : Format.BlockType} {pl' : Place}
    (h : IsHeader file pos type pl) (h' : IsHeader file pos type' pl') : type = type' ∧ pl = pl' :=
  (h' False fun t p => type = t ∧ pl = p).mp ((h False _).mpr ⟨rfl, rfl⟩)

end Mjlib.Telemetry.FileReader
