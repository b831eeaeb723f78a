import Mjlib.Lib.Resync
import Mjlib.Multiplex.Equiv.Stream
import Mjlib.Multiplex.Frame

/-!
# Correctness of `Frame::encode`

`Frame.encode_isFrame`: the encoder writes a frame of the format.  `IsFrame.unique_prefix`: a byte
string starts with at most one frame, so the format can be read back.
-/

namespace Mjlib.Multiplex

variable {crc : Bytes → UInt16} {source dest : UInt8} {payload e : Bytes}

@[simp] theorem length_frameBody (source dest : UInt8) (sizeBytes payload : Bytes) :
    (frameBody source dest sizeBytes payload).length
      = 4 + sizeBytes.length + payload.length := by
  simp only [frameBody, List.length_cons, List.length_append]
  omega

theorem scalarBytes_kHeader : scalarBytes 2 kHeader = [kHeaderLowByte, kHeaderHighByte] := by
  decide

theorem Frame.encode_eq (crc : Bytes → UInt16) (f : Frame) :
    f.encode crc
      = frameBody f.sourceByte f.destId (writeVaruint (UInt32.ofNat f.payload.length)) f.payload ++
        scalarBytes 2 (crc (frameBody f.sourceByte f.destId
          (writeVaruint (UInt32.ofNat f.payload.length)) f.payload)).toNat := by
  have h : scalarBytes 2 kHeader ++ [f.sourceByte] ++ [f.destId] ++
      writeVaruint (UInt32.ofNat f.payload.length) ++ f.payload
      = frameBody f.sourceByte f.destId (writeVaruint (UInt32.ofNat f.payload.length))
        f.payload := by
    rw [scalarBytes_kHeader]
    simp [frameBody]
  rw [Frame.encode, h]

/-- The encoder writes a frame of the format. -/
theorem Frame.encode_isFrame (crc : Bytes → UInt16) (f : Frame) (h : f.payload.length < 2 ^ 32) :
    IsFrame crc f.sourceByte f.destId f.payload (f.encode crc) := by
  refine ⟨h, writeVaruint (UInt32.ofNat f.payload.length), ?_, length_writeVaruint_le _,
    f.encode_eq crc⟩
  have := encodes_writeVaruint (UInt32.ofNat f.payload.length)
  rwa [UInt32.toNat_ofNat', Nat.mod_eq_of_lt h] at this

/-- The length of a frame: the header, the size, the payload and the checksum. -/
theorem IsFrame.length_eq (h : IsFrame crc source dest payload e) :
    ∃ k, 1 ≤ k ∧ k ≤ 5 ∧ e.length = 6 + k + payload.length := by
  obtain ⟨_, sizeBytes, he, hl, rfl⟩ := h
  refine ⟨sizeBytes.length, he.length_pos, hl, ?_⟩
  simp only [List.length_append, length_frameBody, LittleEndian.length_encode]
  omega

theorem IsFrame.ne_nil (h : IsFrame crc source dest payload e) : e ≠ [] := by
  obtain ⟨k, _, _, hl⟩ := h.length_eq
  intro h0
  rw [h0, List.length_nil] at hl
  omega

/-- A byte string starts with at most one frame. -/
theorem IsFrame.append_inj {source' dest' : UInt8} {payload' e' r r' : Bytes}
    (h : IsFrame crc source dest payload e) (h' : IsFrame crc source' dest' payload' e')
    (heq : e ++ r = e' ++ r') :
    source = source' ∧ dest = dest' ∧ payload = payload' ∧ e = e' ∧ r = r' := by
  obtain ⟨_, ds, hd, _, rfl⟩ := h
  obtain ⟨_, ds', hd', _, rfl⟩ := h'
  simp only [frameBody, List.cons_append, List.append_assoc, List.cons.injEq, true_and] at heq
  obtain ⟨rfl, rfl, heq⟩ := heq
  obtain ⟨rfl, hn, heq⟩ := hd.append_inj hd' heq
  obtain ⟨rfl, heq⟩ := List.append_inj heq hn
  obtain ⟨-, rfl⟩ := List.append_inj heq (by simp)
  exact ⟨rfl, rfl, rfl, rfl, rfl⟩

/-! ### Where a receiver looks for a frame and its checksum -/

/-- A buffer has no start byte, or splits at its first one. -/
theorem noise_split (b : Bytes) :
    kHeaderLowByte ∉ b ∨ ∃ noise t, b = noise ++ kHeaderLowByte :: t ∧ kHeaderLowByte ∉ noise := by
  by_cases h : kHeaderLowByte ∈ b
  · exact Or.inr (List.eq_append_cons_of_mem h)
  · exact Or.inl h

/-- The bytes the checksum is taken over, when the size numeral `ds` is followed by `data`. -/
theorem take_frameBody (source dest : UInt8) (ds data : Bytes) {m : ℕ} (hm : m ≤ data.length) :
    (kHeaderLowByte :: kHeaderHighByte :: source :: dest :: (ds ++ data)).take
        ((kHeaderLowByte :: kHeaderHighByte :: source :: dest :: (ds ++ data)).length
          - data.length + m)
      = frameBody source dest ds (data.take m) := by
  have hsplit : kHeaderLowByte :: kHeaderHighByte :: source :: dest :: (ds ++ data)
      = frameBody source dest ds (data.take m) ++ data.drop m := by
    simp only [frameBody, List.cons_append, List.append_assoc, List.take_append_drop]
  rw [hsplit]
  apply List.take_left'
  simp only [List.length_append, length_frameBody, List.length_take, List.length_drop]
  omega

/-- A frame at the front of a buffer whose size is followed by enough bytes has its checksum where a
receiver looks for it. -/
theorem checksum_of_isFrame {source dest source' dest' : UInt8} {ds data payload e later : Bytes}
    {size : UInt32} (hread : ∀ r, BufferReadStream.readVaruint (ds ++ r) = (some size, r))
    (hlen : size.toNat + 2 ≤ data.length) (hf : IsFrame crc source' dest' payload e)
    (hpre : e <+: kHeaderLowByte :: kHeaderHighByte :: source :: dest :: (ds ++ data) ++ later) :
    LittleEndian.decode ((data.drop size.toNat).take 2)
      = (crc (frameBody source dest ds (data.take size.toNat))).toNat := by
  obtain ⟨hlt, ds', hd', hl', rfl⟩ := hf
  obtain ⟨r, hr⟩ := hpre
  simp only [frameBody, List.cons_append, List.append_assoc, List.cons.injEq, true_and] at hr
  obtain ⟨rfl, rfl, hr⟩ := hr
  -- both numerals are read from the same bytes
  have hsame := BufferReadStream.readVaruint_append hd' hl' (payload ++
    (scalarBytes 2 (crc (frameBody source' dest' ds' payload)).toNat ++ r))
  rw [frameBody, hr, hread] at hsame
  simp only [Prod.mk.injEq, Option.some.injEq] at hsame
  obtain ⟨rfl, hdata⟩ := hsame
  obtain rfl : ds' = ds := List.append_cancel_right (by rw [hr, hdata])
  rw [UInt32.toNat_ofNat', Nat.mod_eq_of_lt hlt] at hlen ⊢
  have hpay : data.take payload.length = payload := by
    have := congrArg (List.take payload.length) hdata
    rwa [List.take_left, List.take_append_of_le_length (by omega)] at this
  have hcrc : (data.drop payload.length).take 2 = scalarBytes 2
      (crc (frameBody source' dest' ds' payload)).toNat := by
    have := congrArg (fun l => (l.drop payload.length).take 2) hdata
    simp only [List.drop_left, List.drop_append_of_le_length (show payload.length ≤ data.length by
      omega)] at this
    rwa [List.take_append_of_le_length (by rw [List.length_drop]; omega),
      List.take_left' (LittleEndian.length_encode 2 _)] at this
  rw [hpay, hcrc]
  exact LittleEndian.decode_encode (by simpa using UInt16.toNat_lt _)

/-- Two bytes that read as a checksum are the bytes of that checksum. -/
theorem eq_scalarBytes_of_decode {s : Bytes} {c : UInt16} (hs : s.length = 2)
    (h : LittleEndian.decode s = c.toNat) : s = scalarBytes 2 c.toNat := by
  rw [← h, ← hs]
  exact (LittleEndian.encode_decode s).symm

/-! ### What a receiver may throw away -/

open Resync (NoStart)

variable {admissible : ℕ → Prop}

end Mjlib.Multiplex
