import Mjlib.Telemetry.Equiv.FileReader.Ends

/-!
# Blocks that may be anything

The header of a block and its body, and the loop of `ReadUntil`: one pass (`ends_readUntilLoop`),
and a scan to the end of the file (`ends_scan`).  The header has at least one byte, and so the loop
comes to an end.
-/

namespace Mjlib.Telemetry.FileReader

open Base Precondition

variable {α : Type} {file : Bytes} {start : ℕ} {known : List UInt64} {seen : Bool}
  {origin : ℕ} {st : State}
  {pl : Place} {thrown : State → Prop}

/-! ### Blocks -/

theorem At.withRecords (h : At file start known seen origin st pl) (records : List Record) :
    At file start known seen origin { st with records } pl :=
  ⟨⟨h.has.start, h.has.known, h.has.keyed⟩, h.pos, h.left, h.crc, h.le⟩

/-- One more record. -/
theorem Has.insert (h : Has start known st) (record : Record) :
    Has start (record.identifier :: known) { st with
      idToRecord := st.idToRecord.insert record.identifier record
      nameToRecord := st.nameToRecord.insert record.name record } := by
  refine ⟨h.start, fun identifier => ?_, fun identifier record' => ?_⟩
  · show _ ↔ ((st.idToRecord.insert _ _).get? identifier).isSome
    rw [SortedMap.get?_insert, List.mem_cons]
    split_ifs with heq
    · exact iff_of_true (Or.inl heq) rfl
    · rw [or_iff_right heq]
      exact h.known identifier
  · show (st.idToRecord.insert _ _).get? identifier = _ → _
    rw [SortedMap.get?_insert]
    split_ifs with heq
    · intro h
      rw [← Option.some.inj h, heq]
    · exact h.keyed identifier record'

/-- What is at a position is a block of a type. -/
def IsHeader (file : Bytes) (pos : ℕ) (type : Format.BlockType) (pl : Place) : Prop :=
  ∀ ends P, AtHeader file ends P pos ↔ P type pl

theorem Outside.at {pos : ℕ} (h : Outside start known st pos) :
    At file start known false pos st ⟨pos, st.blockSize⟩ :=
  ⟨h.has, h.pos, rfl, h.crc, Nat.le_refl _⟩

end Mjlib.Telemetry.FileReader
