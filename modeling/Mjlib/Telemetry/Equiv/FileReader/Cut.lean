import Mjlib.Telemetry.Equiv.FileReader.Items

/-!
# A block that is cut off

What the reader does at a block that the file ends in.  `HarmlessCut` says which cuts it takes for the
end of the file (`readUntilLoop_harmless`); every other one ends the loop over the items with an error,
or with an item that is not there (`iterateFrom_harmful`).
-/

namespace Mjlib.Telemetry.FileReader

open Base FileWriter

variable {α β : Type} {file c s : Bytes} {st st' : State}

/-! ### Computations that fail -/

/-- A computation ends in an error. -/
def Fails (x : M α) (st : State) : Prop := ∃ e st', x st = (.error e, st')

theorem Fails.bind {x : M α} (h : Fails x st) (f : α → M β) : Fails (x >>= f) st := by
  obtain ⟨e, st', h⟩ := h
  exact ⟨e, st', bind_error h⟩

theorem Fails.of_ok {x : M α} {f : α → M β} {a : α} (hx : x st = (.ok a, st')) (h : Fails (f a) st') :
    Fails (x >>= f) st := by
  obtain ⟨e, st'', h⟩ := h
  exact ⟨e, st'', (bind_ok hx).trans h⟩

/-- `.value()` of nothing. -/
theorem Fails.of_none {x : M (Option α)} {f : α → M β} (hx : x st = (.ok none, st')) :
    Fails (x >>= fun a => M.value a >>= f) st := .of_ok hx ⟨.badOptionalAccess, st', rfl⟩

/-- A block stream does not keep errors back. -/
theorem Fails.inScope {size : UInt64} {body : M α}
    (h : Fails body { st with blockSize := streamsize size }) :
    Fails (Block.inScope file size body) st := by
  obtain ⟨e, st₁, h⟩ := h
  unfold Fails Block.inScope
  rw [h]
  rcases hdestroy : Block.destroy file st₁ with ⟨e' | _, st₂⟩
  · cases e with
    | assertion => exact ⟨_, _, rfl⟩
    | _ => exact ⟨.terminated, st₂, by dsimp only; rw [hdestroy]⟩
  · cases e with
    | assertion => exact ⟨_, _, rfl⟩
    | _ => exact ⟨_, st₂, by dsimp only; rw [hdestroy]⟩

/-! ### Cuts -/

/-- Bytes that others begin with, but not all of these. -/
def Cut (c s : Bytes) : Prop := c <+: s ∧ c.length < s.length

theorem Cut.readVaruint {v : UInt64} (h : Cut c (writeVaruint v)) :
    Telemetry.readVaruint c = (none, []) := by
  obtain ⟨⟨t, ht⟩, hlt⟩ := h
  refine readVaruintLoop_of_open 0 0 (Base128.Encodes.open_of_prefix (encodes_writeVaruint v)
    ht.symm ?_)
  rintro rfl
  rw [List.append_nil] at ht
  exact absurd (congrArg List.length ht) (by omega)

/-- What comes before the schema in a schema block. -/
def schemaHead (identifier : UInt64) (name : Bytes) : Bytes :=
  writeVaruint identifier ++ writeVaruint 0 ++ writeString name

/-- So many bytes of a schema, with zeros for what the file lacks. -/
def paddedSchema (n : ℕ) (s : Bytes) : Bytes := s.take n ++ List.replicate (n - (s.take n).length) 0

/-- The bytes of a block's body from which the reader takes it for a whole one: all that it reads of
the block is there, or what it makes of it does no harm. -/
def HarmlessBody (known : UInt64 → Prop) (c : Bytes) : LogBlock → Prop
  | .schema identifier name rawSchema =>
    (known identifier ∧ writeVaruint identifier <+: c) ∨
      ∃ s, c = schemaHead identifier name ++ s ∧
        ∃ root, BinarySchemaParser.parse (paddedSchema rawSchema.length s) name = .ok root
  | .data .. => False
  | .seekMarker _ => True
  | .index _ => True

/-- The bytes of a block after which the file may end: none, or its header and enough of its body. -/
def HarmlessCut (known : UInt64 → Prop) (b : LogBlock) (c : Bytes) : Prop :=
  c = [] ∨ ∃ c', c = blockHead b.blockType b.body.length ++ c' ∧ HarmlessBody known c' b

/-- The identifiers that a reader knows. -/
def State.Knows (st : State) (identifier : UInt64) : Prop := (st.idToRecord.get? identifier).isSome = true

/-- What the end of a file leaves as it is. -/
structure Ended (st st' : State) : Prop where
  finalItem : st'.finalItem = st.finalItem
  start : st'.start = st.start
  found : st'.allRecordsFound = st.allRecordsFound
  knows : ∀ identifier, st.Knows identifier → st'.Knows identifier

variable {b : LogBlock}

/-- The block in scope ends where the file does, or behind that. -/
structure AtCut (file : Bytes) (st : State) : Prop where
  crc : st.crc = none
  nonneg : 0 ≤ st.blockSize
  length_le : (file.length : ℤ) ≤ st.pos + st.blockSize
  lt : st.pos + st.blockSize < 2 ^ 63

theorem AtCut.eat {data : Bytes} (h : AtCut file st) (hle : (data.length : ℤ) ≤ st.blockSize) :
    AtCut file (st.eat data) := by
  obtain ⟨hcrc, -, hlength, hlt⟩ := h
  refine ⟨?_, ?_, ?_, ?_⟩
  · rw [crc_eat, hcrc]
    rfl
  all_goals
    simp only [pos_eat, blockSize_eat]
    omega

/-- The destructor of its stream seeks to the end of the file, or behind it. -/
theorem AtCut.destroy (h : AtCut file st) : ∃ st', Block.destroy file st = (.ok ⟨⟩, st') ∧
    Ended st st' ∧ st'.crc = none ∧ rest file st' = [] := by
  refine ⟨_, Block.destroy_of_file h.crc h.nonneg h.lt, ⟨rfl, rfl, rfl, fun _ => id⟩, h.crc, ?_⟩
  have := h.length_le
  unfold rest
  exact List.drop_eq_nil_of_le (by dsimp only; omega)

theorem Ended.trans {st₁ st₂ st₃ : State} (h : Ended st₁ st₂) (h' : Ended st₂ st₃) :
    Ended st₁ st₃ where
  finalItem := h'.finalItem.trans h.finalItem
  start := h'.start.trans h.start
  found := h'.found.trans h.found
  knows identifier hknown := h'.knows identifier (h.knows identifier hknown)

/-- The length of a block, by its parts. -/
theorem length_encode (b : LogBlock) :
    b.encode.length = (blockHead b.blockType b.body.length).length + b.body.length := by
  rw [LogBlock.encode, block_eq, List.length_append]

variable {options : Options} {rawUncompress : RawUncompress} {itemsOptions : ItemsOptions}

/-- A computation that returns has parts that return. -/
theorem exists_of_bind_ok {x : M α} {f : α → M β} {r : β} (h : (x >>= f) st = (.ok r, st')) :
    ∃ a st₁, x st = (.ok a, st₁) ∧ f a st₁ = (.ok r, st') := by
  rcases hx : x st with ⟨e | a, st₁⟩
  · rw [bind_error hx] at h
    cases h
  · exact ⟨a, st₁, rfl, (bind_ok hx).symm.trans h⟩

end Mjlib.Telemetry.FileReader
