import Mjlib.Telemetry.Equiv.FileReader.Open
import Mjlib.Telemetry.FileReaderSeek

/-!
# Reading seek markers

A seek marker that the writer has made is read back: `drop_signature` says where its signature is,
and `evaluateSeekMarker_eq` that it is read, with its checksum, from behind the signature.
-/

namespace Mjlib.Telemetry.FileReader

open Base FileWriter

variable {file s : Bytes} {st : State}

/-! ### The elements -/

/-- The entry that an element of a seek marker makes. -/
def addElement (possibleStart : ℤ) (result : SeekResult) (x : UInt64 × UInt64) : SeekResult :=
  result.insertNew x.1 (BitVec.ofInt 64 (possibleStart - x.2.toNat)).toInt

/-- What a seek marker says. -/
def markerResult (possibleStart : ℤ) (elements : List (UInt64 × UInt64)) : SeekResult :=
  elements.foldl (addElement possibleStart) ∅

/-- An element in a seek marker. -/
def elementBytes (x : UInt64 × UInt64) : Bytes := writeVaruint x.1 ++ writeVaruint x.2

theorem readElements_of_rest (possibleStart : ℤ) :
    ∀ {elements : List (UInt64 × UInt64)} {st : State} (result : SeekResult),
    rest file st = elements.flatMap elementBytes ++ s →
    ((elements.flatMap elementBytes).length : ℤ) ≤ st.blockSize →
    (∀ x ∈ elements, st.idToRecord.contains x.1 = true) →
    readElements file possibleStart elements.length result st =
      (.ok (elements.foldl (addElement possibleStart) result),
        st.eat (elements.flatMap elementBytes)) := by
  intro elements
  induction elements with
  | nil =>
    intro st result _ _ _
    show (Except.ok result, st) = (Except.ok result, st.eat [])
    simp [State.eat]
  | cons x elements ih =>
    intro st result h hle hknown
    rw [List.flatMap_cons, elementBytes] at h hle
    simp only [List.append_assoc] at h
    simp only [List.length_append, Nat.cast_add] at hle
    obtain ⟨hx, helements⟩ := List.forall_mem_cons.mp hknown
    have h₁ := rest_eat h
    have h₂ := rest_eat h₁
    rw [List.length_cons, readElements, bind_ok (Block.readVaruint_of_rest h (by omega)),
      value_some_bind, bind_ok (Block.readVaruint_of_rest h₁ (by rw [blockSize_eat]; omega)),
      value_some_bind, get_bind]
    have hx' :
        ((st.eat (writeVaruint x.1)).eat (writeVaruint x.2)).idToRecord.contains x.1 = true := hx
    rw [if_pos hx', List.flatMap_cons, elementBytes, ← eat_eat, ← eat_eat]
    exact ih (addElement possibleStart result x) h₂ (by simp only [blockSize_eat]; omega) helements

/-! ### A marker -/

variable {all before after : List LogBlock} {body : Bytes} {timestamp : Ptime}
  {elements : List (UInt64 × UInt64)} {rawUncompress : RawUncompress}

/-- The bytes that a search for seek markers looks for. -/
theorem toMatch_eq : writeScalar 8 0xfdcab9a897867564#64 = toMatch := by decide

theorem length_markerBody (crc : BitVec 32) :
    (markerBody timestamp elements crc).length = 13 + (markerRest timestamp elements).length := by
  unfold markerBody
  simp only [List.length_append, length_writeScalar]

/-- A header's size fits into its byte, and is not too large for the reader. -/
theorem headerSize_le {n : ℕ} (h : n < 2 ^ 63) : headerSize n ≤ 10 := by
  unfold headerSize
  rw [← length_writeVaruint, writeVaruint_eq, UInt64.toNat_ofNat', Nat.mod_eq_of_lt (by omega)]
  have := @Base128.length_encode_le 8 n (lt_of_lt_of_le h (by decide))
  omega

theorem length_blockHead (blockType : Format.BlockType) (n : ℕ) :
    (blockHead blockType n).length = headerSize n := by
  unfold blockHead headerSize
  rw [List.length_append, length_writeVaruint_blockType, length_writeVaruint]

/-- The body of a seek marker is read, with a CRC stream that has seen its header. -/
theorem readSeekMarker_of_rest {possibleStart : ℤ} {crc : BitVec 32}
    (h : rest file st = markerBody timestamp elements crc ++ s)
    (hsize : st.blockSize = (markerBody timestamp elements crc).length)
    (hcrc : st.crc = some (blockHead .kSeekMarker (markerBody timestamp elements crc).length))
    (hsealed : crc = crc32 (block .kSeekMarker (markerBody timestamp elements 0#32)))
    (hn : elements.length < 2 ^ 64)
    (hknown : ∀ x ∈ elements, st.idToRecord.contains x.1 = true) :
    readSeekMarker file possibleStart st =
      (.ok (some { timestamp, index := possibleStart,
                   seekResult := markerResult possibleStart elements }),
        st.eat (markerBody timestamp elements 0#32)) := by
  have hlen := (@length_markerBody timestamp elements crc).trans
    (@length_markerBody timestamp elements 0#32).symm
  have hblock : blockHead .kSeekMarker (markerBody timestamp elements crc).length ++
      markerBody timestamp elements 0#32 =
        block .kSeekMarker (markerBody timestamp elements 0#32) := by
    rw [hlen, block_eq]
  have hn' : (UInt64.ofNat elements.length).toNat = elements.length := by
    rw [UInt64.toNat_ofNat', Nat.mod_eq_of_lt hn]
  unfold markerBody at h hsize
  dsimp only at h hsize
  generalize hhead :
    BitVec.ofNat 8 (headerSize (13 + (markerRest timestamp elements).length)) = head at h hsize
  unfold markerRest at h hsize
  simp only [List.append_assoc] at h
  simp only [List.length_append, Nat.cast_add] at hsize
  have h₁ := rest_eat h
  obtain ⟨hchecksum, h₂⟩ := @readChecksum_of_rest _ _ _ true crc h₁
  have h₃ := rest_eat h₂
  have h₄ := rest_eat h₃
  have h₅ := rest_eat h₄
  have h₆ := rest_eat h₅
  have hscalar : ∀ n (v : BitVec (8 * n)), (writeScalar n v).length = n := length_writeScalar
  have hzeros : (checksumField true 0#32).length = 4 := rfl
  simp only [hscalar, length_writeTimestamp] at hsize
  -- what has been read is the body, with zeros for the CRC
  have heat : ((((((st.eat (writeScalar 8 0xfdcab9a897867564#64)).eat (checksumField true 0#32)).eat
      (writeScalar 1 head)).eat (writeVaruint 0)).eat (writeTimestamp timestamp)).eat
      (writeVaruint (UInt64.ofNat elements.length))).eat (elements.flatMap elementBytes) =
      st.eat (markerBody timestamp elements 0#32) := by
    simp only [eat_eat]
    unfold markerBody
    dsimp only
    rw [hhead, markerRest]
    simp only [List.append_assoc]
    rfl
  have helements : (elements.flatMap fun x => writeVaruint x.1 ++ writeVaruint x.2).length =
      (elements.flatMap elementBytes).length := rfl
  have hdone : (st.eat (markerBody timestamp elements 0#32)).blockSize = 0 := by
    rw [← heat]
    simp only [blockSize_eat, hscalar, hzeros, length_writeTimestamp]
    omega
  have htime : readTimestamp file true ((((st.eat _).eat _).eat _).eat _) =
      (.ok timestamp, ((((st.eat _).eat _).eat _).eat _).eat (writeTimestamp timestamp)) :=
    @readTimestamp_of_rest _ _ _ (some timestamp) h₄ (by
      show ((writeTimestamp timestamp).length : ℤ) ≤ _
      simp only [blockSize_eat, hscalar, hzeros, length_writeTimestamp]
      omega)
  unfold readSeekMarker
  rw [bind_ok (Block.readScalar_of_rest h (by omega)), value_some_bind, bind_ok hchecksum,
    bind_ok (Block.readScalar_of_rest h₂
      (by simp only [blockSize_eat, hscalar, hzeros]; omega)), value_some_bind,
    bind_ok (Block.readVaruint_of_rest h₃
      (by simp only [blockSize_eat, hscalar, hzeros]; omega)), value_some_bind, if_neg (by simp),
    bind_ok htime,
    bind_ok (Block.readVaruint_of_rest h₅
      (by simp only [blockSize_eat, hscalar, hzeros, length_writeTimestamp]; omega)),
    value_some_bind, hn', bind_ok (readElements_of_rest possibleStart ∅ h₆
      (by simp only [blockSize_eat, hscalar, hzeros, length_writeTimestamp]; omega) hknown), heat,
    get_bind]
  have hseen : (st.eat (markerBody timestamp elements 0#32)).crc.getD [] =
      block .kSeekMarker (markerBody timestamp elements 0#32) := by
    rw [crc_eat, hcrc, ← hblock]
    rfl
  rw [if_neg (not_not.mpr hdone), hseen, if_pos rfl, if_neg (not_not.mpr (congrArg some hsealed))]
  rfl

/-- **A marker is read** from behind its signature. -/
theorem evaluateSeekMarker_eq (hvalid : ValidLog rawUncompress all)
    (hall : all = before ++ .seekMarker body :: after)
    (hmarker : IsMarker before body timestamp elements)
    (hknown : ∀ x ∈ elements, st.idToRecord.contains x.1 = true)
    (hstart : st.start = (image []).length)
    (hpos : st.pos = (image before).length + (blockHead .kSeekMarker body.length).length + 8) :
    ∃ st', evaluateSeekMarker (image all) (st.pos - 1) st =
        (.ok (some { timestamp, index := (image before).length,
                     seekResult := markerResult (image before).length elements }), st') ∧
      st'.core = st.core := by
  obtain ⟨crc, hcrc', hbody⟩ : ∃ crc, crc = crc32 (block .kSeekMarker
      (markerBody timestamp elements 0#32)) ∧ body = markerBody timestamp elements crc :=
    ⟨_, rfl, hmarker.body⟩
  have hlt := hvalid.length_lt
  have helements : elements.length ≤ (markerRest timestamp elements).length := by
    have hpos : ∀ x : UInt64 × UInt64, 0 < (writeVaruint x.1 ++ writeVaruint x.2).length := by
      intro x
      have := length_writeVaruint_pos x.1
      rw [List.length_append]
      omega
    unfold markerRest
    rw [List.length_append]
    exact (length_le_length_flatMap hpos elements).trans (Nat.le_add_left _ _)
  have hblock : (image all).drop (image before).length =
      block .kSeekMarker body ++ after.flatMap LogBlock.encode := by
    rw [hall, drop_image, List.flatMap_cons]
    rfl
  have hsize : (image before).length + ((blockHead .kSeekMarker body.length).length + body.length) ≤
      (image all).length := by
    rw [hall, image_append, List.flatMap_cons, List.length_append, List.length_append]
    show _ ≤ _ + ((block .kSeekMarker body).length + _)
    rw [block_eq, List.length_append]
    omega
  have hbodyLength : body.length = 13 + (markerRest timestamp elements).length := by
    rw [hbody, length_markerBody]
  have hheader : headerSize (13 + (markerRest timestamp elements).length) ≤ 10 :=
    headerSize_le (by omega)
  -- behind the signature
  have hrest : rest (image all) st = writeScalar 4 crc ++ (writeScalar 1 (BitVec.ofNat 8
      (headerSize (13 + (markerRest timestamp elements).length))) ++
        (markerRest timestamp elements ++ after.flatMap LogBlock.encode)) := by
    have hsplit : block .kSeekMarker body ++ after.flatMap LogBlock.encode =
        (blockHead .kSeekMarker body.length ++ writeScalar 8 0xfdcab9a897867564#64) ++
          (writeScalar 4 crc ++ (writeScalar 1 (BitVec.ofNat 8
            (headerSize (13 + (markerRest timestamp elements).length))) ++
              (markerRest timestamp elements ++ after.flatMap LogBlock.encode))) := by
      have hparts : body = writeScalar 8 0xfdcab9a897867564#64 ++ (writeScalar 4 crc ++
          (writeScalar 1 (BitVec.ofNat 8
            (headerSize (13 + (markerRest timestamp elements).length))) ++
              markerRest timestamp elements)) := by
        rw [hbody, markerBody]
        simp only [List.append_assoc]
      rw [block_eq]
      generalize blockHead .kSeekMarker body.length = head
      rw [hparts]
      simp only [List.append_assoc]
    unfold rest
    rw [hpos, Nat.add_assoc, ← List.drop_drop, hblock, hsplit]
    exact List.drop_left' (by rw [List.length_append, length_writeScalar])
  have htoNat : (BitVec.ofNat 8 (headerSize (13 + (markerRest timestamp elements).length))).toNat =
      headerSize (13 + (markerRest timestamp elements).length) := by
    rw [BitVec.toNat_ofNat, Nat.mod_eq_of_lt (by omega)]
  have hpossible : (st.pos : ℤ) - 1 - 7 -
      (headerSize (13 + (markerRest timestamp elements).length) : ℕ) = (image before).length := by
    rw [hpos, length_blockHead, hbodyLength]
    omega
  unfold evaluateSeekMarker
  rw [bind_ok (readScalar_of_rest hrest), bind_ok (readScalar_of_rest (rest_advance hrest)),
    value_some_bind, htoNat, if_neg (not_lt.mpr hheader)]
  rw [hpossible, get_bind]
  -- the whole block, from its start on
  generalize hst₀ : (st.advance (writeScalar 4 crc)).advance (writeScalar 1 (BitVec.ofNat 8
    (headerSize (13 + (markerRest timestamp elements).length)))) = st₀
  have hcore : st₀.core = st.core := by
    rw [← hst₀]
    rfl
  obtain ⟨st₁, hst₁⟩ : ∃ st₁ : State,
      st₁ = { st₀ with pos := (image before).length, crc := some [] } := ⟨_, rfl⟩
  have hrest₁ : rest (image all) st₁ =
      block .kSeekMarker body ++ after.flatMap LogBlock.encode := by
    rw [hst₁]
    exact hblock
  have hcore₁ : st₁.core = st.core := by
    rw [← hcore, hst₁]
    rfl
  have hstart' : ¬((image before).length : ℤ) < st₀.start := by
    have hlength := length_image before
    have hstart₀ : st₀.start = st.start := by
      show st₀.core.start = st.core.start
      rw [hcore]
    rw [hstart₀, hstart]
    omega
  obtain ⟨st₂, hst₂⟩ : ∃ st₂ : State, st₂ =
      { st₁.advance (blockHead .kSeekMarker body.length) with blockSize := body.length } := ⟨_, rfl⟩
  have hrest₂ : rest (image all) st₂ = body ++ after.flatMap LogBlock.encode := by
    rw [block_eq, List.append_assoc] at hrest₁
    rw [hst₂]
    exact rest_advance hrest₁
  have hsize₂ : st₂.blockSize = body.length := by rw [hst₂]
  have hcrc₂ : st₂.crc = some (blockHead .kSeekMarker body.length) := by
    rw [hst₂, hst₁]
    rfl
  have hcore₂ : st₂.core = st.core := by
    rw [← hcore₁, hst₂]
    rfl
  have hknown₂ : ∀ x ∈ elements, st₂.idToRecord.contains x.1 = true := by
    have hid : st₂.idToRecord = st.idToRecord := by
      show st₂.core.idToRecord = st.core.idToRecord
      rw [hcore₂]
    rw [hid]
    exact hknown
  have hread : readSeekMarker (image all) (image before).length st₂ = _ :=
    readSeekMarker_of_rest (hbody ▸ hrest₂) (hbody ▸ hsize₂) (hbody ▸ hcrc₂) hcrc' (by omega)
      hknown₂
  have hnonpos : (st₂.eat (markerBody timestamp elements 0#32)).blockSize ≤ 0 := by
    rw [blockSize_eat, hsize₂, length_markerBody, ← hbodyLength]
    exact (sub_self _).le
  refine ⟨st₂.eat (markerBody timestamp elements 0#32), ?_, hcore₂⟩
  rw [if_neg hstart', bind_ok (seek_of_nonneg (Int.natCast_nonneg _)), Int.toNat_natCast,
    modify_bind, ← hst₁, bind_ok (readHeader_of_rest false hrest₁)]
  dsimp only
  rw [if_neg (by decide)]
  refine Block.inScope_of_ok ?_ (Block.destroy_of_nonpos hnonpos)
  rw [Block.streamsize_ofNat (by omega), ← hst₂]
  exact hread

/-- Where the signature of a marker is. -/
theorem drop_signature (hall : all = before ++ .seekMarker body :: after)
    (hmarker : IsMarker before body timestamp elements) :
    ∃ t, (image all).drop ((image before).length + (blockHead .kSeekMarker body.length).length) =
      toMatch ++ t := by
  have hblock : (image all).drop (image before).length =
      block .kSeekMarker body ++ after.flatMap LogBlock.encode := by
    rw [hall, drop_image, List.flatMap_cons]
    rfl
  obtain ⟨t, ht⟩ : ∃ t, body = toMatch ++ t := by
    rw [hmarker.body, sealedMarker, ← toMatch_eq, markerBody]
    simp only [List.append_assoc]
    exact ⟨_, rfl⟩
  refine ⟨t ++ after.flatMap LogBlock.encode, ?_⟩
  rw [← List.drop_drop, hblock, block_eq, List.append_assoc, List.drop_left' rfl, ht,
    List.append_assoc]

end Mjlib.Telemetry.FileReader
