import Mjlib.Multiplex.Equiv.Rs485FrameStream

/-!
# Is `ParseFrame` safe on every buffer?

`ParseFrame` waits while `stream.remaining() < (*maybe_payload_size + 2)`, and the sum is one of 32
bits: for a size of `2 ^ 32 - 2` or `2 ^ 32 - 1` it is 0 or 1.  With less behind the size than the
sum says without the wrap, the payload takes all that is there, and there is no checksum to
dereference.  The largest number is also what a varuint of more than five bytes reads as.

`Reaches` tells from the bytes alone where the loop comes to; `parseFrame_safe_iff`: `ParseFrame` is
safe when no header that it comes to wraps the sum.
-/

namespace Mjlib.Multiplex.Rs485FrameStream

variable {crc : Bytes → UInt16}

/-! ### Where the loop comes to -/

/-- A header with a wrong checksum: everything is there, but the last two bytes are not the checksum
of the ones before. -/
def Mismatch (crc : Bytes → UInt16) (buf : Bytes) : Prop :=
  ∃ source dest size t data, buf = kHeaderLowByte :: kHeaderHighByte :: source :: dest :: t ∧
    ReadStream.readVaruint t = (some size, data) ∧ size.toNat + 2 ≤ data.length ∧
    (crc (buf.take (buf.length - data.length + size.toNat))).toNat
      ≠ LittleEndian.decode ((data.drop size.toNat).take 2)

/-- A header with a size that wraps the sum of 32 bits: what is behind it is enough for the sum, but
not for the payload and its checksum. -/
def Wraps (buf : Bytes) : Prop :=
  ∃ source dest size t data, buf = kHeaderLowByte :: kHeaderHighByte :: source :: dest :: t ∧
    ReadStream.readVaruint t = (some size, data) ∧ (size + 2).toNat ≤ data.length ∧
    data.length < size.toNat + 2

/-- The loop comes from the first bytes to the second: it throws away what is no start byte, a start
byte with the byte behind it, and a header with a wrong checksum. -/
inductive Reaches (crc : Bytes → UInt16) : Bytes → Bytes → Prop
  | here {b : Bytes} : Reaches crc b b
  | noise {a : UInt8} {t b : Bytes} (ha : a ≠ kHeaderLowByte) (h : Reaches crc t b) :
      Reaches crc (a :: t) b
  | falseStart {x : UInt8} {t b : Bytes} (hx : x ≠ kHeaderHighByte) (h : Reaches crc t b) :
      Reaches crc (kHeaderLowByte :: x :: t) b
  | mismatch {t b : Bytes} (hm : Mismatch crc (kHeaderLowByte :: kHeaderHighByte :: t))
      (h : Reaches crc t b) : Reaches crc (kHeaderLowByte :: kHeaderHighByte :: t) b

theorem Reaches.of_noise {noise t b : Bytes} (hn : kHeaderLowByte ∉ noise)
    (h : Reaches crc t b) : Reaches crc (noise ++ t) b := by
  induction noise with
  | nil => exact h
  | cons a noise ih =>
    rw [List.mem_cons, not_or] at hn
    exact .noise (Ne.symm hn.1) (ih hn.2)

/-! ### One pass -/

theorem parsePass_noise {a : UInt8} (ha : a ≠ kHeaderLowByte) (frame : Frame) (t : Bytes) :
    parsePass crc frame (a :: t) = parsePass crc frame t := by
  have h : discardUntil kHeaderLowByte (a :: t) = discardUntil kHeaderLowByte t := by
    rw [discardUntil, discardUntil, List.dropWhile_cons_of_pos (by simpa using ha)]
  rw [parsePass, parsePass, h]

theorem parsePass_falseStart {x : UInt8} (hx : x ≠ kHeaderHighByte) (frame : Frame) (t : Bytes) :
    parsePass crc frame (kHeaderLowByte :: x :: t) = some (.again frame t) := by
  have hdiscard := discardUntil_noise (List.not_mem_nil (a := kHeaderLowByte)) (x :: t)
  rw [List.nil_append] at hdiscard
  rw [parsePass, hdiscard, readScalar_two]
  exact if_pos fun h => hx ((header_eq_iff x).mp h)

/-- What is done behind a header. -/
theorem parsePass_header (frame : Frame) {source dest : UInt8} {size : UInt32} {t data : Bytes}
    (hread : ReadStream.readVaruint t = (some size, data)) :
    let buf := kHeaderLowByte :: kHeaderHighByte :: source :: dest :: t
    let frame' : Frame :=
      ⟨source &&& 0x7f, source &&& 0x80 != 0, dest, data.take size.toNat⟩
    parsePass crc frame buf =
      if data.length < (size + 2).toNat then
        some (.wait { frame' with payload := frame.payload } buf)
      else if data.length < size.toNat + 2 then none
      else if (crc (buf.take (buf.length - data.length + size.toNat))).toNat
          ≠ LittleEndian.decode ((data.drop size.toNat).take 2) then
        some (.again frame' (source :: dest :: t))
      else some (.emit frame' ((data.drop size.toNat).drop 2)) := by
  intro buf frame'
  have hdiscard := discardUntil_noise (List.not_mem_nil (a := kHeaderLowByte))
    (kHeaderHighByte :: source :: dest :: t)
  rw [List.nil_append] at hdiscard
  have hdata : data.length ≤ t.length := by
    have := (BufferReadStream.readVaruint_suffix t).length_le
    rwa [BufferReadStream.readVaruint_eq_readVaruint, hread] at this
  rw [parsePass, hdiscard, readScalar_two]
  dsimp only
  rw [if_neg (not_not.mpr ((header_eq_iff kHeaderHighByte).mpr rfl))]
  simp only [ReadStream.readU8, hread]
  by_cases hwait : data.length < (size + 2).toNat
  · rw [if_pos hwait, if_pos hwait]
  rw [if_neg hwait, if_neg hwait, ReadStream.readScalar]
  by_cases hshort : data.length < size.toNat + 2
  · rw [if_pos hshort, if_pos (by rw [List.length_drop]; omega)]
  -- the bytes that the checksum has seen are those in front of it
  have hcount : (kHeaderLowByte :: kHeaderHighByte :: source :: dest :: t).length
      - (data.drop size.toNat).length = buf.length - data.length + size.toNat := by
    simp only [buf, List.length_cons, List.length_drop]
    omega
  rw [if_neg hshort, if_neg (by rw [List.length_drop]; omega)]
  dsimp only
  rw [hcount]
  rfl

theorem parsePass_of_mismatch {t : Bytes} (frame : Frame)
    (h : Mismatch crc (kHeaderLowByte :: kHeaderHighByte :: t)) :
    ∃ f, parsePass crc frame (kHeaderLowByte :: kHeaderHighByte :: t) = some (.again f t) := by
  obtain ⟨source, dest, size, t', data, hbuf, hread, hlen, hcrc⟩ := h
  obtain rfl : t = source :: dest :: t' := by simpa using hbuf
  have hwait : ¬ data.length < (size + 2).toNat := by
    rw [UInt32.toNat_add, show (2 : UInt32).toNat = 2 from rfl]
    have := Nat.mod_le (size.toNat + 2) (2 ^ 32)
    omega
  rw [parsePass_header frame hread, if_neg hwait, if_neg (by omega), if_pos hcrc]
  exact ⟨_, rfl⟩

theorem parsePass_of_wraps {buf : Bytes} (frame : Frame) (h : Wraps buf) :
    parsePass crc frame buf = none := by
  obtain ⟨source, dest, size, t, data, rfl, hread, hsum, hlen⟩ := h
  rw [parsePass_header frame hread, if_neg (by omega), if_pos hlen]

/-- The outcomes of a pass at a header: it waits or emits, or the header wraps, or its checksum is
wrong. -/
theorem parsePass_of_header (crc : Bytes → UInt16) (frame : Frame) (t : Bytes) :
    (∃ f b, parsePass crc frame (kHeaderLowByte :: kHeaderHighByte :: t) = some (.wait f b)) ∨
    (∃ f b, parsePass crc frame (kHeaderLowByte :: kHeaderHighByte :: t) = some (.emit f b)) ∨
    Wraps (kHeaderLowByte :: kHeaderHighByte :: t) ∨
    Mismatch crc (kHeaderLowByte :: kHeaderHighByte :: t) := by
  rcases t with _ | ⟨source, _ | ⟨dest, t⟩⟩
  · exact .inl ⟨_, _, rfl⟩
  · exact .inl ⟨_, _, rfl⟩
  rcases hread : ReadStream.readVaruint t with ⟨_ | size, data⟩
  · left
    have hdiscard := discardUntil_noise (List.not_mem_nil (a := kHeaderLowByte))
      (kHeaderHighByte :: source :: dest :: t)
    rw [List.nil_append] at hdiscard
    rw [parsePass, hdiscard, readScalar_two]
    dsimp only
    rw [if_neg (not_not.mpr ((header_eq_iff kHeaderHighByte).mpr rfl))]
    simp only [ReadStream.readU8, hread]
    exact ⟨_, _, rfl⟩
  rw [parsePass_header frame hread]
  by_cases hwait : data.length < (size + 2).toNat
  · rw [if_pos hwait]
    exact .inl ⟨_, _, rfl⟩
  by_cases hshort : data.length < size.toNat + 2
  · exact .inr (.inr (.inl ⟨source, dest, size, t, data, rfl, hread, by omega, hshort⟩))
  rw [if_neg hwait, if_neg hshort]
  split_ifs with hcrc
  · exact .inr (.inr (.inr ⟨source, dest, size, t, data, rfl, hread, by omega, hcrc⟩))
  · exact .inr (.inl ⟨_, _, rfl⟩)

/-- What a pass says about the way of the loop: where it tries again, the loop comes to what is left,
and where it goes wrong, to a header that wraps. -/
theorem reaches_of_parsePass (crc : Bytes → UInt16) (frame : Frame) (buf : Bytes) :
    (∀ f t b, parsePass crc frame buf = some (.again f t) → Reaches crc t b →
      Reaches crc buf b) ∧
    (parsePass crc frame buf = none → ∃ b, Reaches crc buf b ∧ Wraps b) := by
  induction buf with
  | nil => exact ⟨fun f t b h => (nomatch h), fun h => nomatch h⟩
  | cons a buf ih =>
    by_cases ha : a = kHeaderLowByte
    swap
    · -- noise is passed over within the pass
      rw [parsePass_noise ha]
      refine ⟨fun f t b h hb => .noise ha (ih.1 f t b h hb), fun h => ?_⟩
      obtain ⟨b, hb, hw⟩ := ih.2 h
      exact ⟨b, .noise ha hb, hw⟩
    subst ha
    cases buf with
    | nil => exact ⟨fun f t b h => (nomatch h), fun h => nomatch h⟩
    | cons x t =>
      by_cases hx : x = kHeaderHighByte
      swap
      · rw [parsePass_falseStart hx]
        refine ⟨fun f t' b h hb => ?_, fun h => nomatch h⟩
        obtain ⟨-, rfl⟩ := Pass.again.inj (Option.some.inj h)
        exact .falseStart hx hb
      subst hx
      rcases parsePass_of_header crc frame t with ⟨f, b, h⟩ | ⟨f, b, h⟩ | hw | hm
      · rw [h]
        exact ⟨fun f t b h => (nomatch h), fun h => nomatch h⟩
      · rw [h]
        exact ⟨fun f t b h => (nomatch h), fun h => nomatch h⟩
      · rw [parsePass_of_wraps frame hw]
        exact ⟨fun f t b h => (nomatch h), fun _ => ⟨_, .here, hw⟩⟩
      · obtain ⟨f, h⟩ := parsePass_of_mismatch frame hm
        rw [h]
        refine ⟨fun f' t' b h hb => ?_, fun h => nomatch h⟩
        obtain ⟨-, rfl⟩ := Pass.again.inj (Option.some.inj h)
        exact .mismatch hm hb

/-! ### The loop -/

theorem reaches_of_parseLoop {n : ℕ} : ∀ {frame : Frame} {buf : Bytes},
    parseLoop crc n frame buf = none → ∃ b, Reaches crc buf b ∧ Wraps b := by
  induction n with
  | zero => exact fun h => nomatch h
  | succ n ih =>
    intro frame buf h
    rw [parseLoop] at h
    have hpass := reaches_of_parsePass crc frame buf
    rcases hp : parsePass crc frame buf with _ | (⟨f, t⟩ | ⟨f, t⟩ | ⟨f, t⟩)
    · exact hpass.2 hp
    · simp [hp] at h
    · simp only [hp] at h
      obtain ⟨b, hb, hw⟩ := ih h
      exact ⟨b, hpass.1 f t b hp hb, hw⟩
    · simp [hp] at h

theorem parseLoop_of_reaches {buf b : Bytes} (hb : Reaches crc buf b) (hw : Wraps b) :
    ∀ {n : ℕ} {frame : Frame}, buf.length < n → parseLoop crc n frame buf = none := by
  induction hb with
  | here =>
    intro n frame hn
    obtain ⟨n, rfl⟩ : ∃ m, n = m + 1 := ⟨n - 1, by omega⟩
    rw [parseLoop, parsePass_of_wraps frame hw]
  | @noise a t b ha _ ih =>
    intro n frame hn
    obtain ⟨n, rfl⟩ : ∃ m, n = m + 1 := ⟨n - 1, by omega⟩
    have h : parseLoop crc (n + 1) frame t = none :=
      ih hw (by rw [List.length_cons] at hn; omega)
    rw [parseLoop] at h ⊢
    rwa [parsePass_noise ha]
  | @falseStart x t b hx _ ih =>
    intro n frame hn
    obtain ⟨n, rfl⟩ : ∃ m, n = m + 1 := ⟨n - 1, by omega⟩
    rw [parseLoop, parsePass_falseStart hx]
    exact ih hw (by simp only [List.length_cons] at hn; omega)
  | @mismatch t b hm _ ih =>
    intro n frame hn
    obtain ⟨n, rfl⟩ : ∃ m, n = m + 1 := ⟨n - 1, by omega⟩
    obtain ⟨f, hf⟩ := parsePass_of_mismatch frame hm
    rw [parseLoop, hf]
    exact ih hw (by simp only [List.length_cons] at hn; omega)

/-- What the loop emits was all there, with its checksum. -/
theorem emits_of_parseLoop {n : ℕ} : ∀ {frame f : Frame} {buf rest : Bytes},
    parseLoop crc n frame buf = some (.emit f rest) →
    ∃ before bytes, buf = before ++ bytes ++ rest ∧ Emits crc f bytes := by
  induction n with
  | zero => exact fun h => nomatch h
  | succ n ih =>
    intro frame f buf rest h
    rw [parseLoop] at h
    have hout := parsePass_outcome crc frame buf
    rcases hp : parsePass crc frame buf with _ | (⟨f', t⟩ | ⟨f', t⟩ | ⟨f', t⟩)
    · simp [hp] at h
    · simp [hp] at h
    · simp only [hp] at h
      rw [hp] at hout
      obtain ⟨before, bytes, rfl, he⟩ := ih h
      cases hout with
      | @falseStart noise _ x _ hb hn hx =>
        refine ⟨noise ++ kHeaderLowByte :: x :: before, bytes, ?_, he⟩
        rw [hb]
        simp
      | @mismatch noise _ _ hb hn hno =>
        refine ⟨noise ++ kHeaderLowByte :: kHeaderHighByte :: before, bytes, ?_, he⟩
        rw [hb]
        simp
    · simp only [hp, Option.some.injEq, Pass.emit.injEq] at h
      rw [hp] at hout
      obtain ⟨rfl, rfl⟩ := h
      cases hout with
      | emit hb hn hf => exact ⟨_, _, hb, _, hf, rfl, rfl⟩

/-! ### `ParseFrame` -/

/-- `ParseFrame` comes to an end without the checksum that is not there, and what it posts is a frame
that the buffer holds as a whole, with a checksum that matches. -/
def Safe (crc : Bytes → UInt16) (s : State) : Prop :=
  ∃ s', parseFrame crc s = some s' ∧ (s'.posted = s.posted ∨
    ∃ frame before bytes, s'.posted = s.posted ++ [frame] ∧
      s.streambuf = before ++ bytes ++ s'.streambuf ∧ Emits crc frame bytes)

/-- **`ParseFrame` is safe** when no header that its loop comes to has a size that wraps the sum of
32 bits with too little behind it, and only then. -/
theorem parseFrame_safe_iff {s : State} (h : s.currentFrame.isSome) :
    Safe crc s ↔ ∀ b, Reaches crc s.streambuf b → ¬ Wraps b := by
  obtain ⟨frame, hframe⟩ := Option.isSome_iff_exists.mp h
  constructor
  · rintro ⟨s', hs', -⟩ b hb hw
    rw [parseFrame, hframe] at hs'
    dsimp only at hs'
    rw [parseLoop_of_reaches hb hw (Nat.lt_succ_self _)] at hs'
    cases hs'
  · intro hsafe
    rw [Safe, parseFrame, hframe]
    dsimp only
    rcases hloop : parseLoop crc (s.streambuf.length + 1) frame s.streambuf with
      _ | (⟨f, t⟩ | ⟨f, t⟩ | ⟨f, t⟩)
    · obtain ⟨b, hb, hw⟩ := reaches_of_parseLoop hloop
      exact absurd hw (hsafe b hb)
    · exact ⟨_, rfl, .inl rfl⟩
    · exact ⟨_, rfl, .inl rfl⟩
    · obtain ⟨before, bytes, hbuf, he⟩ := emits_of_parseLoop hloop
      exact ⟨_, rfl, .inr ⟨f, before, bytes, rfl, hbuf, he⟩⟩

/-- A receiver that has read a header and a varuint of six bytes. -/
def overlong : State where
  streambuf := [0x54, 0xab, 0x01, 0x02, 0xff, 0xff, 0xff, 0xff, 0xff, 0x00]
  currentFrame := some ⟨0, false, 0, []⟩
  readOutstanding := true
  posted := []

/-- A header that reads a size of more than 32 bits. -/
theorem parseFrame_safe_iff_overlong :
    Safe (fun _ => 0) overlong ↔
      ∀ b, Reaches (fun _ => 0) overlong.streambuf b → ¬ Wraps b :=
  parseFrame_safe_iff (by decide)

/-- The size reads as `2 ^ 32 - 1`, one byte is behind it, and `ParseFrame` dereferences the checksum
that it does not find. -/
theorem not_safe : ¬ ∀ (crc : Bytes → UInt16) (s : State), s.currentFrame.isSome → Safe crc s := by
  intro h
  obtain ⟨s', hs', -⟩ := h (fun _ => 0) overlong (by decide)
  have hnone : parseFrame (fun _ => 0) overlong = none := by decide
  exact nomatch hnone.symm.trans hs'

end Mjlib.Multiplex.Rs485FrameStream
