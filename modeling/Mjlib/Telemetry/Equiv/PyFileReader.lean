import Mjlib.Telemetry.Equiv.Format
import Mjlib.Telemetry.FileReader
import Mjlib.Telemetry.PyFileReader

/-!
# Ranges of the Python reader

`_read_blocks` reads the flags of the file wherever it starts.  At a position of an item it finds the
type of the block there, which is not zero, so every range with such a start fails at once
(`items_of_start`), and no range is the part of the full iteration that was asked for
(`not_rangeAgrees`).  Nor does an item tell its position (`position_eq_none`).
-/

namespace Mjlib.Telemetry.Reader.FileReader

variable {lib : Names} {uncompress : Bytes → Option Bytes} {file : Bytes}

/-! ### Agreement -/

/-- The items that the C++ reader returns for the file. -/
def itemsInCpp (options : Telemetry.FileReader.Options) (uncompress : Bytes → Option Bytes)
    (file : Bytes) : Except Error (List Telemetry.FileReader.Item) :=
  ((do
    Telemetry.FileReader.openFile file
    Telemetry.FileReader.items file options uncompress {} :
      Telemetry.FileReader.M (List Telemetry.FileReader.Item)) {}).1

/-- All items of a reader that has just been opened. -/
def full (lib : Names) (uncompress : Bytes → Option Bytes) (file : Bytes) : Iteration :=
  items lib uncompress file [] [] none none

/-- The positions that the items of an iteration are at. -/
def Iteration.positions (iteration : Iteration) : List ℕ := iteration.items.map Prod.fst

/-- The range from a start to an end is that part of the full iteration, which finds the same as the
C++ reader does. -/
structure Agrees (lib : Names) (uncompress : Bytes → Option Bytes)
    (options : Telemetry.FileReader.Options) (file : Bytes) (start stop : ℕ) : Prop where
  finishes : (full lib uncompress file).raised = none
  same : ∃ found, itemsInCpp options uncompress file = .ok found ∧
    (full lib uncompress file).items.map (fun p => (p.2.schema.name, p.2.serializedData))
      = found.map fun item => (item.record.name, item.data)
  rangeFinishes : (items lib uncompress file (full lib uncompress file).records [] (some start)
    (some stop)).raised = none
  range : (items lib uncompress file (full lib uncompress file).records [] (some start)
      (some stop)).items
    = (full lib uncompress file).items.filter fun p => start ≤ p.1 ∧ p.1 < stop

/-! ### Where the items are -/

theorem readVaruintLoop_length_lt : ∀ {s rest : Bytes} {result fk n : ℕ},
    readVaruintLoop result fk s = .ok (n, rest) → rest.length < s.length := by
  intro s
  induction s with
  | nil =>
    intro rest result fk n h
    exact nomatch h
  | cons value s ih =>
    intro rest result fk n h
    simp only [readVaruintLoop] at h
    split_ifs at h
    · obtain ⟨-, rfl⟩ := Prod.mk.inj (Except.ok.inj h)
      exact Nat.lt_succ_self _
    · exact (ih h).trans (Nat.lt_succ_self _)

/-- At the position of a block is its type, which is what `_read_blocks` reads there. -/
theorem readVaruint_of_mem {stop : Option ℕ} {n : ℕ} : ∀ {position : ℕ} {block : Block},
    block ∈ (readBlocksLoop file stop n position).1 → 0 < position →
    0 < block.position ∧
      ∃ s, readVaruint (file.drop block.position) = .ok (block.btype, s) := by
  induction n with
  | zero =>
    intro position block h _
    exact nomatch h
  | succ n ih =>
    intro position block h hpos
    rw [readBlocksLoop] at h
    split_ifs at h
    · exact nomatch h
    cases hhead : readHead (file.drop position) with
    | error e =>
      rw [hhead] at h
      cases e <;> exact nomatch h
    | ok head =>
      obtain ⟨btype, blockSize, s⟩ := head
      rw [hhead] at h
      dsimp only at h
      split_ifs at h with hdata
      · exact nomatch h
      -- the reader of the head has read the type first
      obtain ⟨⟨b, s₁⟩, hb, hhead⟩ := bind_eq_ok.mp hhead
      obtain ⟨⟨size, s₂⟩, hsize, hhead⟩ := bind_eq_ok.mp hhead
      cases hhead
      cases h with
      | head => exact ⟨hpos, s₁, hb⟩
      | tail _ h =>
        refine ih h ?_
        have h₁ := readVaruintLoop_length_lt hb
        have h₂ := readVaruintLoop_length_lt hsize
        simp only [List.length_drop] at h₁ ⊢
        omega

theorem position_of_parseData {records : Records} {idSet : Option (List ℕ)} {blockData : Bytes}
    {item : Item} (h : parseData uncompress records idSet blockData = .ok (some item)) :
    item.position = none := by
  unfold parseData at h
  obtain ⟨⟨identifier, s⟩, -, h⟩ := bind_eq_ok.mp h
  dsimp only at h
  split_ifs at h
  · exact nomatch Except.ok.inj h
  obtain ⟨⟨itemFlags, s⟩, -, h⟩ := bind_eq_ok.mp h
  split at h
  · exact nomatch Except.ok.inj h
  · obtain ⟨offset, _, h⟩ := bind_eq_ok.mp h
    obtain ⟨time, _, h⟩ := bind_eq_ok.mp h
    obtain ⟨checksum, _, h⟩ := bind_eq_ok.mp h
    obtain ⟨serialized, _, h⟩ := bind_eq_ok.mp h
    obtain ⟨data, _, h⟩ := bind_eq_ok.mp h
    split_ifs at h
    · exact nomatch h
    obtain rfl := Option.some.inj (Except.ok.inj h)
    rfl

/-- An item is one of a data block, and has not been given its position. -/
theorem exists_block_of_mem {names : List Bytes} {raised : Option Exception} {blocks : List Block} :
    ∀ {records : Records} {idSet : Option (List ℕ)} {p : ℕ × Item},
    p ∈ (itemsLoop lib uncompress names raised records idSet blocks).items →
    p.2.position = none ∧ ∃ block ∈ blocks, block.position = p.1 ∧ block.btype = Data := by
  induction blocks with
  | nil =>
    intro records idSet p h
    exact nomatch h
  | cons block blocks ih =>
    intro records idSet p h
    have hlater {records : Records} {idSet : Option (List ℕ)}
        (h : p ∈ (itemsLoop lib uncompress names raised records idSet blocks).items) :
        p.2.position = none ∧
          ∃ b ∈ block :: blocks, b.position = p.1 ∧ b.btype = Data := by
      obtain ⟨hnone, b, hb, hfound⟩ := ih h
      exact ⟨hnone, b, List.mem_cons_of_mem _ hb, hfound⟩
    rw [itemsLoop] at h
    split_ifs at h with hschema hdata
    · split at h
      · exact nomatch h
      · exact hlater h
    · split at h
      · exact nomatch h
      · exact hlater h
      · next item hitem =>
        cases h with
        | head => exact ⟨position_of_parseData hitem, block, by simp, rfl, hdata⟩
        | tail _ h => exact hlater h
    · exact hlater h

/-- Where an item is, the type of a data block is read. -/
theorem readVaruint_of_mem_positions {position : ℕ}
    (h : position ∈ (full lib uncompress file).positions) :
    0 < position ∧ ∃ s, readVaruint (file.drop position) = .ok (Data, s) := by
  obtain ⟨p, hp, rfl⟩ := List.mem_map.mp h
  obtain ⟨-, block, hblock, hposition, hdata⟩ := exists_block_of_mem hp
  rw [← hposition, ← hdata]
  unfold readBlocks at hblock
  dsimp only at hblock
  split at hblock
  · exact nomatch hblock
  · next fileFlags s hflags =>
    split_ifs at hblock
    · exact nomatch hblock
    refine readVaruint_of_mem hblock ?_
    have hlt := readVaruintLoop_length_lt hflags
    rw [List.length_drop] at hlt
    omega

/-! ### Ranges -/

/-- A range that starts at an item fails on the flags of the file, before any of it is found. -/
theorem items_of_start {start : ℕ} (h : start ∈ (full lib uncompress file).positions)
    (records : Records) (names : List Bytes) (stop : Option ℕ) :
    items lib uncompress file records names (some start) stop
      = { raised := some .assertion, records } := by
  obtain ⟨hpos, s, hread⟩ := readVaruint_of_mem_positions h
  have hblocks : readBlocks file (some start) stop = ([], some .assertion) := by
    simp only [readBlocks, if_pos (Nat.ne_of_gt hpos), hread]
    rfl
  rw [items, hblocks]
  rfl

/-- **No range from one item to another** is what it should be. -/
theorem not_rangeAgrees (options : Telemetry.FileReader.Options) {start stop : ℕ}
    (hstart : start ∈ (full lib uncompress file).positions) :
    ¬ Agrees lib uncompress options file start stop := by
  intro hagrees
  have hfinishes := hagrees.rangeFinishes
  rw [items_of_start hstart] at hfinishes
  exact nomatch hfinishes

/-- A log of one boolean. -/
def sampleLog : Bytes :=
  HEADER ++ [0x00,
    0x01, 0x08, 0x01, 0x00, 0x04, 0x74, 0x65, 0x73, 0x74, 0x02,
    0x02, 0x0c, 0x01, 0x03, 0x00, 0x00, 0x20, 0x07, 0xcd, 0x74, 0x0a, 0x05, 0x00, 0x01,
    0x03, 0x1f, 0x00, 0x01, 0x01, 0x09, 0x00, 0x00, 0x00, 0x00, 0x00, 0x00, 0x00,
    0x13, 0x00, 0x00, 0x00, 0x00, 0x00, 0x00, 0x00, 0x21, 0x00, 0x00, 0x00,
    0x54, 0x4c, 0x4f, 0x47, 0x49, 0x44, 0x45, 0x58]

theorem positions_sampleLog :
    (full ⟨fun _ => true⟩ (fun _ => none) sampleLog).positions = [19] := by
  rfl

/-- The range from the item of the log to itself. -/
theorem not_rangeAgrees_sampleLog :
    ¬ Agrees ⟨fun _ => true⟩ (fun _ => none) {} sampleLog 19 19 :=
  not_rangeAgrees {} (by rw [positions_sampleLog]; exact List.mem_singleton_self _)

/-- The log has an item, which does not tell where it is, and a range from there fails. -/
theorem not_items_sampleLog :
    ∃ item, (full ⟨fun _ => true⟩ (fun _ => none) sampleLog).items = [(19, item)] ∧
      item.position = none ∧
      (items ⟨fun _ => true⟩ (fun _ => none) sampleLog
        (full ⟨fun _ => true⟩ (fun _ => none) sampleLog).records [] (some 19) (some 19)).raised
        = some .assertion ∧
      ¬ Agrees ⟨fun _ => true⟩ (fun _ => none) {} sampleLog 19 19 :=
  ⟨_, rfl, rfl, rfl, fun hagrees => nomatch hagrees.rangeFinishes⟩

end Mjlib.Telemetry.Reader.FileReader
