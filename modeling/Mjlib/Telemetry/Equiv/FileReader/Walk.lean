import Mjlib.Telemetry.Equiv.Log

/-!
# Walking over blocks

`ReadUntil` on a file that goes on with blocks, for any filter: what one pass of the loop does to the
reader and to the filter is `State.learn` and `Filter.learn` (`readUntilLoop_block`), and what the
loop finds in a list of blocks is `find` (`readUntilLoop_eq`).  Behind the blocks the file may have
anything.
-/

namespace Mjlib.Telemetry.FileReader

open Base FileWriter

variable {file s : Bytes} {st : State} {b : LogBlock} {filter : Filter}

/-- What the reader keeps between its calls. -/
def State.core (st : State) : State := { st with pos := 0, crc := none, blockSize := 0 }

/-- A schema that the reader can parse. -/
def Readable : LogBlock → Prop
  | .schema _ name rawSchema =>
    name.length ≤ Format.kMaxStringSize ∧ ∃ root, BinarySchemaParser.parse rawSchema name = .ok root
  | .data .. => True
  | .seekMarker _ => True
  | .index _ => True

/-- The reader after it has gone past a block at a position. -/
def State.learn (st : State) (pos : ℕ) : LogBlock → State
  | .schema identifier name rawSchema =>
    if (st.idToRecord.get? identifier).isSome then st
    else st.withRecord (schemaRecord identifier name rawSchema)
  | .data .. => { st with finalItem := if pos > st.finalItem then pos else st.finalItem }
  | .seekMarker _ => st
  | .index _ => st

/-- The filter after the reader has gone past a block. -/
def Filter.learn (filter : Filter) (st : State) : LogBlock → Filter
  | .schema identifier name _ =>
    if (st.idToRecord.get? identifier).isSome then filter else filter.newSchema identifier name
  | .data .. => filter
  | .seekMarker _ => filter
  | .index _ => filter

/-- Whether the reader stops at a block. -/
def Filter.stops (filter : Filter) : LogBlock → Bool
  | .data fields _ => filter.check fields.identifier
  | .schema .. => false
  | .seekMarker _ => false
  | .index _ => false

@[simp] theorem core_idToRecord (st : State) : st.core.idToRecord = st.idToRecord := rfl

theorem start_learn (st : State) (pos : ℕ) (b : LogBlock) : (st.learn pos b).start = st.start := by
  cases b with
  | schema identifier name rawSchema =>
    unfold State.learn
    dsimp only
    split_ifs
    · rfl
    · rfl
  | _ => rfl

theorem finalItem_learn_of_ne (st : State) (pos : ℕ) {b : LogBlock} (h : b.blockType ≠ .kData) :
    (st.learn pos b).finalItem = st.finalItem := by
  cases b with
  | data fields stored => exact absurd rfl h
  | schema identifier name rawSchema =>
    unfold State.learn
    dsimp only
    split_ifs
    · rfl
    · rfl
  | _ => rfl

theorem learn_core (b : LogBlock) : filter.learn st.core b = filter.learn st b := by
  cases b <;> rfl

/-! ### One block -/

/-- The state at the body of a block. -/
def atBody (st : State) (b : LogBlock) : State :=
  { st.advance (blockHead b.blockType b.body.length) with blockSize := b.body.length }

theorem rest_atBody (hrest : rest file st = b.encode ++ s) : rest file (atBody st b) = b.body ++ s := by
  rw [LogBlock.encode, block_eq, List.append_assoc] at hrest
  exact rest_advance hrest

theorem crc_atBody (hcrc : st.crc = none) (b : LogBlock) : (atBody st b).crc = none := by
  show st.crc.map _ = none
  rw [hcrc]
  rfl

/-- What comes before the body, and the body, make up the block. -/
theorem pos_atBody (st : State) (b : LogBlock) :
    ((atBody st b).pos : ℤ) + (atBody st b).blockSize = (st.pos + b.encode.length : ℕ) := by
  show ((st.pos + (blockHead b.blockType b.body.length).length : ℕ) : ℤ) + (b.body.length : ℕ) = _
  rw [LogBlock.encode, block_eq, List.length_append]
  omega

/-- A file that goes on with a block is as long as that. -/
theorem length_le_file (hrest : rest file st = b.encode ++ s) :
    st.pos + b.encode.length + s.length ≤ file.length := by
  have hlen := congrArg List.length hrest
  have hpos := b.length_encode_pos
  unfold rest at hlen
  rw [List.length_drop, List.length_append] at hlen
  omega

theorem length_body_lt (hrest : rest file st = b.encode ++ s) (hlt : file.length < 2 ^ 63) :
    b.body.length < 2 ^ 63 := by
  have hle := length_le_file hrest
  rw [LogBlock.encode, block_eq, List.length_append] at hle
  omega

/-- A computation on the body of a block leaves the reader at its end. -/
structure AtEnd (st₀ st : State) (b : LogBlock) : Prop where
  crc : st.crc = none
  nonneg : 0 ≤ st.blockSize
  pos : (st.pos : ℤ) + st.blockSize = (st₀.pos + b.encode.length : ℕ)

theorem AtEnd.eat {st₁ : State} {data : Bytes} (h : AtEnd st st₁ b)
    (hle : (data.length : ℤ) ≤ st₁.blockSize) : AtEnd st (st₁.eat data) b := by
  refine ⟨?_, ?_, ?_⟩
  · rw [crc_eat, h.crc]
    rfl
  · rw [blockSize_eat]
    omega
  · rw [← h.pos, pos_eat, blockSize_eat]
    omega

theorem atEnd_atBody (hcrc : st.crc = none) (b : LogBlock) : AtEnd st (atBody st b) b :=
  ⟨crc_atBody hcrc b, Int.natCast_nonneg _, pos_atBody st b⟩

/-- A block is looked at with its body in scope, and left at its end. -/
theorem inScope_block {α : Type} {body : M α} {a : α} {st₁ : State}
    (hrest : rest file st = b.encode ++ s) (hlt : file.length < 2 ^ 63)
    (hbody : body (atBody st b) = (.ok a, st₁)) (hend : AtEnd st st₁ b) :
    Block.inScope file (UInt64.ofNat b.body.length) body
        (st.advance (blockHead b.blockType b.body.length)) =
      (.ok a, { st₁ with pos := st.pos + b.encode.length }) := by
  have hle := length_le_file hrest
  have hdestroy : Block.destroy file st₁ = _ := Block.destroy_of_file hend.crc hend.nonneg (by
    rw [hend.pos]
    omega)
  rw [hend.pos, Int.toNat_natCast] at hdestroy
  refine Block.inScope_of_ok ?_ hdestroy
  rw [Block.streamsize_ofNat (length_body_lt hrest hlt)]
  exact hbody

/-- A schema block: the record is found or made. -/
theorem processSchema_eq {identifier : UInt64} {name rawSchema : Bytes} (filter : Filter)
    (hrest : rest file st = (LogBlock.schema identifier name rawSchema).encode ++ s)
    (hb : Readable (.schema identifier name rawSchema)) (hcrc : st.crc = none) :
    ∃ st', processSchema file filter (atBody st (.schema identifier name rawSchema)) =
        (.ok ((st.idToRecord.get? identifier).getD (schemaRecord identifier name rawSchema),
          filter.learn st (.schema identifier name rawSchema)), st') ∧
      st'.core = st.core.learn st.pos (.schema identifier name rawSchema) ∧
      AtEnd st st' (.schema identifier name rawSchema) := by
  let b : LogBlock := .schema identifier name rawSchema
  have hbody := rest_atBody hrest
  have hend : AtEnd st (atBody st b) b := atEnd_atBody hcrc b
  cases hget : st.idToRecord.get? identifier with
  | some record =>
    have hle : ((writeVaruint identifier).length : ℤ) ≤ (atBody st b).blockSize := by
      show _ ≤ ((schemaBody identifier name rawSchema).length : ℤ)
      simp only [schemaBody, List.length_append]
      omega
    have hlearn : filter.learn st b = filter := if_pos (by rw [hget]; rfl)
    refine ⟨_, ?_, ?_, hend.eat hle⟩
    · rw [hlearn]
      exact processSchema_known filter hbody rfl hget
    · exact (if_pos (by rw [core_idToRecord, hget]; rfl)).symm
  | none =>
    obtain ⟨hname, root, hparse⟩ := hb
    have hlearn : filter.learn st b = filter.newSchema identifier name :=
      if_neg (by rw [hget]; exact Bool.false_ne_true)
    obtain ⟨hcrc', hnonneg, hpos⟩ := hend.eat (le_refl ((atBody st b).blockSize))
    have hnew : (st.core.idToRecord.get? identifier).isSome ≠ true := by
      rw [core_idToRecord, hget]
      exact Bool.false_ne_true
    refine ⟨((atBody st b).eat b.body).withRecord (schemaRecord identifier name rawSchema), ?_,
      (if_neg hnew).symm, ⟨hcrc', hnonneg, hpos⟩⟩
    rw [hlearn]
    exact processSchema_new filter hbody rfl hget hname hparse

/-- One pass of the loop over the body of a block. -/
theorem processBlock_eq (filter : Filter) (hrest : rest file st = b.encode ++ s) (hb : Readable b)
    (hcrc : st.crc = none) :
    ∃ st', processBlock file st.pos b.blockType filter (atBody st b) =
        (.ok (if filter.stops b then some (↑st.pos, ((st.pos + b.encode.length : ℕ) : ℤ)) else none,
          filter.learn st b), st') ∧
      st'.core = st.core.learn st.pos b ∧ AtEnd st st' b := by
  cases b with
  | seekMarker body => exact ⟨_, rfl, rfl, atEnd_atBody hcrc _⟩
  | index body => exact ⟨_, rfl, rfl, atEnd_atBody hcrc _⟩
  | schema identifier name rawSchema =>
    obtain ⟨st', hprocess, hcore, hend⟩ := processSchema_eq filter hrest hb hcrc
    exact ⟨st', bind_ok hprocess, hcore, hend⟩
  | data fields stored =>
    -- the body starts with the identifier
    obtain ⟨rest', hbody⟩ : ∃ s',
        (LogBlock.data fields stored).body = writeVaruint fields.identifier ++ s' := by
      simp only [LogBlock.body, DataFields.bodyStart, List.append_assoc]
      exact ⟨_, rfl⟩
    let st₁ : State := { atBody st (.data fields stored) with
      finalItem := if (st.pos : ℤ) > st.finalItem then st.pos else st.finalItem }
    have hle : ((writeVaruint fields.identifier).length : ℤ) ≤ st₁.blockSize := by
      show _ ≤ ((LogBlock.data fields stored).body.length : ℤ)
      rw [hbody, List.length_append]
      omega
    have hread : Block.readVaruint file st₁ =
        (.ok (some fields.identifier), st₁.eat (writeVaruint fields.identifier)) := by
      have hrest₁ : rest file st₁ = (LogBlock.data fields stored).body ++ s := rest_atBody hrest
      rw [hbody, List.append_assoc] at hrest₁
      exact Block.readVaruint_of_rest hrest₁ hle
    have hend : AtEnd st st₁ (.data fields stored) :=
      ⟨crc_atBody hcrc _, Int.natCast_nonneg _, pos_atBody st _⟩
    have hend' := hend.eat hle
    refine ⟨st₁.eat (writeVaruint fields.identifier), ?_, rfl, hend'⟩
    show processBlock file st.pos .kData filter _ = _
    unfold processBlock
    dsimp only
    rw [modify_bind]
    show (Block.readVaruint file >>= _ : M _) st₁ = _
    rw [bind_ok hread, value_some_bind, Filter.stops]
    split_ifs with hcheck
    · rw [get_bind, hend'.pos]
      rfl
    · rfl

/-- **One pass of the loop.** -/
theorem readUntilLoop_block (filter : Filter) (hrest : rest file st = b.encode ++ s)
    (hb : Readable b) (hcrc : st.crc = none) (hlt : file.length < 2 ^ 63) (n : ℕ) :
    ∃ st', st'.core = st.core.learn st.pos b ∧ st'.pos = st.pos + b.encode.length ∧
      st'.crc = none ∧ rest file st' = s ∧
      readUntilLoop file (n + 1) filter st =
        if filter.stops b then
          (.ok ((↑st.pos, ((st.pos + b.encode.length : ℕ) : ℤ)), filter.learn st b), st')
        else readUntilLoop file n (filter.learn st b) st' := by
  obtain ⟨st₁, hprocess, hcore, hend⟩ := processBlock_eq filter hrest hb hcrc
  refine ⟨{ st₁ with pos := st.pos + b.encode.length }, hcore, rfl, hend.crc, ?_, ?_⟩
  · unfold rest at hrest ⊢
    rw [← List.drop_drop, hrest, List.drop_left' rfl]
  · rw [readUntilLoop, get_bind, bind_ok (readHeader_of_rest true hrest)]
    refine (bind_ok (inScope_block hrest hlt hprocess hend)).trans ?_
    split_ifs
    · rfl
    · rfl

/-- The end of the file. -/
theorem readUntilLoop_nil (filter : Filter) (hrest : rest file st = []) (n : ℕ) :
    readUntilLoop file (n + 1) filter st = (.ok ((-1, -1), filter), st) := by
  rw [readUntilLoop, get_bind, bind_ok (readHeader_of_nil true hrest)]
  rfl

/-- `ReadUntil` runs the loop from a position. -/
theorem readUntil_eq (filter : Filter) (start : ℕ) :
    readUntil file start filter st =
      readUntilLoop file (file.length + 1) filter { st with pos := start, crc := none } := by
  unfold readUntil
  rw [bind_ok (seek_of_nonneg (Int.natCast_nonneg _)), modify_bind, Int.toNat_natCast]

/-! ### Several blocks -/

/-- What the loop finds in blocks that start at a position: the block where it stops, with the
position after it, and what it and the filter have learned by then. -/
def find (st : State) (filter : Filter) : ℕ → List LogBlock → Option (ℕ × ℕ) × Filter × State
  | _, [] => (none, filter, st)
  | pos, b :: blocks =>
    if filter.stops b then (some (pos, pos + b.encode.length), filter.learn st b, st.learn pos b)
    else find (st.learn pos b) (filter.learn st b) (pos + b.encode.length) blocks

/-- What `ReadUntil` returns for a block. -/
def ofFound (found : ℕ × ℕ) : ℤ × ℤ := (found.1, found.2)

/-- **The loop, on a file that goes on with blocks.**  Induction over the blocks. -/
theorem readUntilLoop_eq (hlt : file.length < 2 ^ 63) (n : ℕ) : ∀ {blocks : List LogBlock}
    {st : State} {filter : Filter}, (∀ b ∈ blocks, Readable b) → st.crc = none →
    rest file st = blocks.flatMap LogBlock.encode ++ s →
    ∃ st', st'.core = (find st.core filter st.pos blocks).2.2 ∧
      ((find st.core filter st.pos blocks).1 = none → st'.crc = none ∧ rest file st' = s ∧
        st'.pos = st.pos + (blocks.flatMap LogBlock.encode).length) ∧
      readUntilLoop file (blocks.length + n) filter st =
        match (find st.core filter st.pos blocks).1 with
        | some found => (.ok (ofFound found, (find st.core filter st.pos blocks).2.1), st')
        | none => readUntilLoop file n (find st.core filter st.pos blocks).2.1 st' := by
  intro blocks
  induction blocks with
  | nil => exact fun _ hcrc hrest => ⟨_, rfl, fun _ => ⟨hcrc, hrest, rfl⟩, by rw [List.length_nil, Nat.zero_add]; rfl⟩
  | cons b blocks ih =>
    intro st filter hb hcrc hrest
    rw [List.flatMap_cons, List.append_assoc] at hrest
    obtain ⟨st₁, hcore, hpos, hcrc₁, hrest₁, hloop⟩ := readUntilLoop_block filter hrest
      (hb b List.mem_cons_self) hcrc hlt (blocks.length + n)
    rw [List.length_cons, Nat.succ_add, Nat.succ_eq_add_one, hloop, find, learn_core]
    split_ifs with hstops
    · exact ⟨st₁, hcore, nofun, rfl⟩
    · obtain ⟨st', hcore', hnone, hrest'⟩ :=
        @ih st₁ (filter.learn st b) (fun b' hb' => hb b' (List.mem_cons_of_mem _ hb')) hcrc₁ hrest₁
      rw [hcore, hpos] at hcore' hnone hrest'
      refine ⟨st', hcore', fun h => ?_, hrest'⟩
      obtain ⟨hcrc', hrest'', hpos'⟩ := hnone h
      refine ⟨hcrc', hrest'', hpos'.trans ?_⟩
      rw [List.flatMap_cons, List.length_append, Nat.add_assoc]

end Mjlib.Telemetry.FileReader
