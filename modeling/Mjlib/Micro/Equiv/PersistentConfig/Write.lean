import Mjlib.Micro.Equiv.PersistentConfig

/-!
# Where the write command programs

The command programs the records and a terminator from `info.start` on, without a look at
`info.end`, and stores the size of a record in 32 bits (`writeFlash_eq`).  So it keeps to its section
exactly when there is room for the records and every record is shorter than `2 ^ 32` bytes
(`inRegion_iff`).
-/

namespace Mjlib.Micro.PersistentConfig

open Telemetry

section

variable (fresh : Fresh) (crc32 : Bytes → BitVec 32)

/-- What the write command is to do. -/
structure InRegion (info : FlashInfo) (elements : List Element) : Prop where
  /-- It programs a contiguous run of addresses, each once. -/
  contiguous : (writeFlash fresh crc32 info elements).programmed.map Prod.fst =
    List.range' info.start (writeFlash fresh crc32 info elements).programmed.length
  /-- All of them are in the section. -/
  inside : ∀ p ∈ (writeFlash fresh crc32 info elements).programmed,
    info.start ≤ p.1 ∧ p.1 < info.end_
  /-- The size in a record is the number of bytes of its data, which follow. -/
  sizes : ∀ before element after, elements = before ++ element :: after →
    ∃ (dataSize : BitVec 32) (rest : Bytes), dataSize.toNat = element.writeBinary.length ∧
      (writeFlash fresh crc32 info elements).programmed.map Prod.snd =
        before.flatMap (writeRecord fresh crc32) ++ (writeString element.name.val ++
          (writeScalar 4 (calculateSchemaCrc fresh crc32 element) ++
            (writeScalar 4 dataSize ++ (element.writeBinary ++ rest))))
  /-- Behind the records `DoLoad` finds the end of the list. -/
  terminated : ∃ rest : Bytes, (writeFlash fresh crc32 info elements).programmed.map Prod.snd =
      elements.flatMap (writeRecord fresh crc32) ++ rest ∧
    ∀ n loaded s, loadLoop fresh crc32 (n + 1) loaded (rest ++ s) = .ok loaded

/-- The bytes of a record: its name, two words and the data. -/
def recordSize (element : Element) : ℕ :=
  (writeString element.name.val).length + 8 + element.writeBinary.length

/-! ### What is programmed -/

theorem writeElement_eq (stream : FlashWriteStream) (element : Element) :
    writeElement fresh crc32 stream element = stream.write (writeRecord fresh crc32 element) := by
  simp only [writeElement, FlashWriteStream.write_write, writeRecord, List.append_assoc]

theorem foldl_writeElement (elements : List Element) (stream : FlashWriteStream) :
    elements.foldl (writeElement fresh crc32) stream =
      stream.write (elements.flatMap (writeRecord fresh crc32)) := by
  induction elements generalizing stream with
  | nil => rfl
  | cons element elements ih =>
    rw [List.foldl_cons, ih, writeElement_eq, FlashWriteStream.write_write, List.flatMap_cons]

/-- **The write command** programs its bytes one after the other. -/
theorem writeFlash_eq (info : FlashInfo) (elements : List Element) :
    (writeFlash fresh crc32 info elements).programmed =
      ((written fresh crc32 elements).zipIdx info.start).map Prod.swap := by
  rw [writeFlash, foldl_writeElement, FlashWriteStream.write_write, FlashWriteStream.write_eq]
  exact List.nil_append _

theorem map_fst_programmed (info : FlashInfo) (elements : List Element) :
    (writeFlash fresh crc32 info elements).programmed.map Prod.fst =
      List.range' info.start (written fresh crc32 elements).length := by
  rw [writeFlash_eq, List.map_map]
  exact List.zipIdx_map_snd _ _

theorem map_snd_programmed (info : FlashInfo) (elements : List Element) :
    (writeFlash fresh crc32 info elements).programmed.map Prod.snd =
      written fresh crc32 elements := by
  rw [writeFlash_eq, List.map_map]
  exact List.zipIdx_map_fst _ _

theorem length_programmed (info : FlashInfo) (elements : List Element) :
    (writeFlash fresh crc32 info elements).programmed.length =
      (written fresh crc32 elements).length := by
  rw [← map_snd_programmed fresh crc32 info elements, List.length_map]

theorem length_writeRecord (element : Element) :
    (writeRecord fresh crc32 element).length = recordSize element := by
  simp only [writeRecord, List.length_append, length_writeScalar, recordSize]
  omega

theorem length_written (elements : List Element) :
    (written fresh crc32 elements).length = (elements.map recordSize).sum + 4 := by
  rw [written, List.length_append, length_writeScalar, List.length_flatMap]
  simp only [length_writeRecord]

/-! ### The section -/

/-- All addresses are in the section exactly when the last one is. -/
theorem inside_iff (info : FlashInfo) (elements : List Element) :
    (∀ p ∈ (writeFlash fresh crc32 info elements).programmed,
      info.start ≤ p.1 ∧ p.1 < info.end_) ↔
    info.start + ((elements.map recordSize).sum + 4) ≤ info.end_ := by
  have hmem : ∀ address, (∃ p ∈ (writeFlash fresh crc32 info elements).programmed,
      p.1 = address) ↔ info.start ≤ address ∧
        address < info.start + ((elements.map recordSize).sum + 4) := by
    intro address
    rw [← length_written fresh crc32, ← List.mem_range'_1,
      ← map_fst_programmed fresh crc32 info elements, List.mem_map]
  constructor
  · intro h
    obtain ⟨p, hp, haddress⟩ := (hmem (info.start + (elements.map recordSize).sum + 3)).mpr
      (by omega)
    have hlast := (h p hp).2
    omega
  · intro h p hp
    obtain ⟨hle, hlt⟩ := (hmem p.1).mp ⟨p, hp, rfl⟩
    exact ⟨hle, by omega⟩

/-- What follows the records before an element. -/
theorem written_split (before after : List Element) (element : Element) :
    written fresh crc32 (before ++ element :: after) =
      before.flatMap (writeRecord fresh crc32) ++ (writeString element.name.val ++
        (writeScalar 4 (calculateSchemaCrc fresh crc32 element) ++
          (writeScalar 4 (BitVec.ofNat 32 element.writeBinary.length) ++ (element.writeBinary ++
            written fresh crc32 after)))) := by
  simp only [written, List.flatMap_append, List.flatMap_cons, writeRecord, List.append_assoc]

/-- **The write command** keeps to its section, and its records can be told apart, exactly when the
section has room for the records and a word, and the data of each element is shorter than `2 ^ 32`
bytes. -/
theorem inRegion_iff (info : FlashInfo) (elements : List Element) :
    InRegion fresh crc32 info elements ↔
      info.start + ((elements.map recordSize).sum + 4) ≤ info.end_ ∧
        ∀ element ∈ elements, element.writeBinary.length < 2 ^ 32 := by
  constructor
  · intro h
    refine ⟨(inside_iff fresh crc32 info elements).mp h.inside, fun element helement => ?_⟩
    obtain ⟨before, after, rfl⟩ := List.append_of_mem helement
    obtain ⟨dataSize, rest, hsize, -⟩ := h.sizes before element after rfl
    rw [← hsize]
    exact dataSize.isLt
  · rintro ⟨hroom, hdata⟩
    refine ⟨?_, (inside_iff fresh crc32 info elements).mpr hroom, ?_, ?_⟩
    · rw [map_fst_programmed, length_programmed]
    · rintro before element after rfl
      refine ⟨BitVec.ofNat 32 element.writeBinary.length, written fresh crc32 after, ?_, ?_⟩
      · rw [BitVec.toNat_ofNat, Nat.mod_eq_of_lt (hdata element (by simp))]
      · rw [map_snd_programmed, written_split]
    · refine ⟨writeScalar 4 (0 : BitVec 32), ?_, fun n loaded s => loadLoop_terminator s⟩
      rw [map_snd_programmed, written]

end

/-- The element "x" does not fit into a section of eight bytes. -/
theorem not_inRegion :
    ¬InRegion .zero Base.crc32 ⟨0x1000, 0x1008⟩ [optionalElement none] := by
  intro h
  have hroom := (inside_iff .zero Base.crc32 ⟨0x1000, 0x1008⟩ [optionalElement none]).mp h.inside
  exact absurd hroom (by decide)

end Mjlib.Micro.PersistentConfig
