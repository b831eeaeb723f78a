import Mjlib.Multiplex.Equiv.Frame
import Mjlib.Multiplex.MicroStreamDatagram

/-!
# What `TryEmitOneFrame` does

`tryEmitOneFrame_outcome` lists the outcomes: the buffer holds no start byte, the frame at the first
start byte is not complete, it is a false start, it declares a size that is too big, its checksum
does not match, or it is emitted.  Every property of the receiver is derived from these, none from
the body of the function.

`tryEmitOneFrame_frame` and `tryEmitOneFrame_incomplete` are the converse for a buffer that starts with
a frame, whole or cut.
-/

namespace Mjlib.Multiplex.MicroStreamDatagram

variable {crc : Bytes → UInt16} {o : Options}

/-! ### Predicates on the buffer -/

/-- The payload size is one that `TryEmitOneFrame` rejects. -/
def TooBig (o : Options) (n : ℕ) : Prop := 4096 < n ∨ sizeSub o.bufferSize 7 < n

instance (o : Options) (n : ℕ) : Decidable (TooBig o n) := inferInstanceAs (Decidable (_ ∨ _))

/-- The first start byte of the buffer is followed by a byte that is not the second one of a
header. -/
def FalseStart (b : Bytes) : Prop :=
  ∃ noise x t, b = noise ++ kHeaderLowByte :: x :: t ∧ kHeaderLowByte ∉ noise ∧
    x ≠ kHeaderHighByte

/-- The first start byte of the buffer is that of a header whose size is too big. -/
def Oversize (o : Options) (b : Bytes) : Prop :=
  ∃ noise source dest t size rest,
    b = noise ++ kHeaderLowByte :: kHeaderHighByte :: source :: dest :: t ∧
    kHeaderLowByte ∉ noise ∧ BufferReadStream.readVaruint t = (some size, rest) ∧
    TooBig o size.toNat

/-- The callback for a frame, given the size of the client's buffer. -/
def frameCallback (capacity : ℕ) (source dest : UInt8) (payload : Bytes) : Callback :=
  .datagram ⟨source.toNat, dest.toNat, payload.length⟩ (payload.take capacity)
    (capacity < payload.length)

/-! ### Finding the start byte -/

theorem findIdx?_noise_append {noise : Bytes} (h : kHeaderLowByte ∉ noise) (t : Bytes) :
    (noise ++ kHeaderLowByte :: t).findIdx? (· == kHeaderLowByte) = some noise.length := by
  induction noise with
  | nil => simp [List.findIdx?_cons]
  | cons a noise ih =>
    simp only [List.mem_cons, not_or] at h
    have ha : (a == kHeaderLowByte) = false := by simpa using Ne.symm h.1
    rw [List.cons_append, List.findIdx?_cons, ha, ih h.2]
    rfl

theorem findIdx?_cons (t : Bytes) :
    (kHeaderLowByte :: t).findIdx? (· == kHeaderLowByte) = some 0 :=
  findIdx?_noise_append (List.not_mem_nil) t

theorem findIdx?_of_not_mem {b : Bytes} (h : kHeaderLowByte ∉ b) :
    b.findIdx? (· == kHeaderLowByte) = none := by
  rw [List.findIdx?_eq_none_iff]
  intro x hx
  simp only [beq_eq_false_iff_ne, ne_eq]
  rintro rfl
  exact h hx

/-! ### The stages of the function -/

theorem tryEmitOneFrame_of_not_mem {s : State} (h : kHeaderLowByte ∉ s.readBuffer) :
    tryEmitOneFrame crc o s = (false, { s with readBuffer := [] }) := by
  unfold tryEmitOneFrame
  rw [findIdx?_of_not_mem h]

/-- Bytes before the first start byte make no difference. -/
theorem tryEmitOneFrame_noise {s : State} {noise t : Bytes}
    (hb : s.readBuffer = noise ++ kHeaderLowByte :: t) (h : kHeaderLowByte ∉ noise) :
    tryEmitOneFrame crc o s
      = tryEmitOneFrame crc o { s with readBuffer := kHeaderLowByte :: t } := by
  have h0 := findIdx?_cons t
  unfold tryEmitOneFrame
  rw [hb, findIdx?_noise_append h, h0]
  simp only [consume, hb, List.drop_zero, List.drop_left]

theorem tryEmitOneFrame_single {s : State} (hb : s.readBuffer = [kHeaderLowByte]) :
    tryEmitOneFrame crc o s = (false, s) := by
  unfold tryEmitOneFrame
  have h0 := findIdx?_cons []
  rw [hb, h0]
  simp only [consume, hb, List.drop_zero, List.length_singleton]
  rw [if_pos (by norm_num), ← hb]

theorem tryEmitOneFrame_falseStart {s : State} {x : UInt8} {t : Bytes}
    (hb : s.readBuffer = kHeaderLowByte :: x :: t) (hx : x ≠ kHeaderHighByte) :
    tryEmitOneFrame crc o s = (true, { s with readBuffer := t }) := by
  unfold tryEmitOneFrame
  have h0 := findIdx?_cons (x :: t)
  rw [hb, h0]
  simp only [consume, hb, List.drop_zero, List.length_cons]
  rw [if_neg (by omega), if_pos (by simpa using hx)]
  simp

theorem tryEmitOneFrame_short {s : State} {t : Bytes}
    (hb : s.readBuffer = kHeaderLowByte :: kHeaderHighByte :: t) (ht : t.length < 5) :
    tryEmitOneFrame crc o s = (false, s) := by
  unfold tryEmitOneFrame
  have h0 := findIdx?_cons (kHeaderHighByte :: t)
  rw [hb, h0]
  simp only [consume, hb, List.drop_zero, List.length_cons, kHeaderSize, kCrcSize,
    kMinVaruintSize]
  rw [if_neg (by omega), if_neg (by simp), if_pos (by omega), ← hb]

/-- The function on a header: what follows depends on the size varuint after the two ids. -/
theorem tryEmitOneFrame_header {s : State} {source dest : UInt8} {t : Bytes}
    (hb : s.readBuffer = kHeaderLowByte :: kHeaderHighByte :: source :: dest :: t)
    (ht : 3 ≤ t.length) :
    tryEmitOneFrame crc o s =
      match BufferReadStream.readVaruint t with
      | (none, _) => (false, s)
      | (some size, data) =>
        if TooBig o size.toNat then (false, { s with readBuffer := [] })
        else if data.length < size.toNat + 2 then (false, s)
        else if LittleEndian.decode ((data.drop size.toNat).take 2)
            = (crc (s.readBuffer.take (s.readBuffer.length - data.length + size.toNat))).toNat then
          (true, invokeReadCallback
            (frameCallback (s.currentRead.getD 0) source dest (data.take size.toNat))
            { s with readBuffer := data.drop (size.toNat + 2) })
        else
          (false, { s with
            readBuffer := s.readBuffer.drop 2, checksumMismatch := s.checksumMismatch + 1 }) := by
  have h0 := findIdx?_cons (kHeaderHighByte :: source :: dest :: t)
  unfold tryEmitOneFrame
  rw [hb, h0]
  simp only [consume, hb, List.drop_zero, List.length_cons, kHeaderSize, kCrcSize,
    kMinVaruintSize]
  rw [if_neg (by omega), if_neg (by simp), if_neg (by omega)]
  simp only [List.drop_succ_cons, List.drop_zero, BufferReadStream.readU8]
  have hsuf := BufferReadStream.readVaruint_suffix t
  rcases hv : BufferReadStream.readVaruint t with ⟨_ | size, data⟩
  · rw [← hb]
  · rw [hv] at hsuf
    have hle : data.length ≤ t.length := hsuf.length_le
    dsimp only
    by_cases hbig : TooBig o size.toNat
    · rw [if_pos hbig]
      by_cases h1 : size.toNat > 4096
      · rw [if_pos h1]
      · rw [if_neg h1, if_pos (hbig.resolve_left h1)]
    · have h1 : ¬ size.toNat > 4096 := fun h => hbig (Or.inl h)
      have h2 : ¬ size.toNat > sizeSub o.bufferSize 7 := fun h => hbig (Or.inr h)
      rw [if_neg hbig, if_neg h1, if_neg h2]
      by_cases h3 : data.length < size.toNat + 2
      · rw [if_pos h3, if_pos h3, ← hb]
      · rw [if_neg h3, if_neg h3]
        have hscalar : BufferReadStream.readScalar 2 (data.drop size.toNat)
            = (some (LittleEndian.decode ((data.drop size.toNat).take 2)),
              (data.drop size.toNat).drop 2) := by
          rw [BufferReadStream.readScalar, if_neg (by rw [List.length_drop]; omega)]
        rw [hscalar]
        dsimp only
        -- the buffer left after the frame
        obtain ⟨used, hused⟩ := hsuf
        change used ++ data = t at hused
        have hrest : (source :: dest :: t).drop
            (t.length + 1 + 1 + 1 + 1 - data.length + size.toNat)
            = data.drop (size.toNat + 2) := by
          have hpos : t.length + 1 + 1 + 1 + 1 - data.length + size.toNat
              = 2 + (used.length + (size.toNat + 2)) := by
            rw [← hused, List.length_append]
            omega
          rw [hpos, ← List.drop_drop, List.drop_succ_cons, List.drop_succ_cons, List.drop_zero,
            ← List.drop_drop, ← hused, List.drop_left]
        by_cases hcrc : LittleEndian.decode ((data.drop size.toNat).take 2)
            = (crc ((kHeaderLowByte :: kHeaderHighByte :: source :: dest :: t).take
                (t.length + 1 + 1 + 1 + 1 - data.length + size.toNat))).toNat
        · rw [if_neg (by rw [hcrc]; simp), if_pos hcrc, hrest]
          have hlen : (data.take size.toNat).length = size.toNat := by
            rw [List.length_take]; omega
          have hmin : data.take (min size.toNat (s.currentRead.getD 0))
              = (data.take size.toNat).take (s.currentRead.getD 0) := by
            rw [List.take_take, Nat.min_comm]
          have htrunc : decide (size.toNat > min size.toNat (s.currentRead.getD 0))
              = decide (s.currentRead.getD 0 < size.toNat) := by
            congr 1
            rw [eq_iff_iff]
            omega
          simp only [frameCallback, Option.getD_some, hlen, hmin, htrunc]
        · rw [if_pos (fun h => hcrc (Option.some.inj h).symm), if_neg hcrc]

/-! ### A buffer that starts with a frame -/

/-- A complete frame at the front of the buffer is emitted. -/
theorem tryEmitOneFrame_frame {s : State} {source dest : UInt8} {payload e rest : Bytes}
    (h : IsFrame crc source dest payload e) (hsize : ¬ TooBig o payload.length)
    (hb : s.readBuffer = e ++ rest) :
    tryEmitOneFrame crc o s = (true, invokeReadCallback
      (frameCallback (s.currentRead.getD 0) source dest payload)
      { s with readBuffer := rest }) := by
  obtain ⟨hlt, ds, hd, hl, rfl⟩ := h
  set body := frameBody source dest ds payload with hbody
  have hcons : s.readBuffer = kHeaderLowByte :: kHeaderHighByte :: source :: dest ::
      (ds ++ (payload ++ (scalarBytes 2 (crc body).toNat ++ rest))) := by
    rw [hb, hbody]
    simp [frameBody]
  have hpos := hd.length_pos
  have hval : (UInt32.ofNat payload.length).toNat = payload.length := by
    rw [UInt32.toNat_ofNat', Nat.mod_eq_of_lt hlt]
  have htake : s.readBuffer.take (s.readBuffer.length
      - (payload ++ (scalarBytes 2 (crc body).toNat ++ rest)).length + payload.length) = body := by
    rw [hb, List.append_assoc]
    apply List.take_left'
    simp only [List.length_append, hbody, length_frameBody, LittleEndian.length_encode]
    omega
  have hdec : LittleEndian.decode (scalarBytes 2 (crc body).toNat) = (crc body).toNat :=
    LittleEndian.decode_encode (by simpa using (crc body).toNat_lt)
  have hlen : (payload ++ (scalarBytes 2 (crc body).toNat ++ rest)).length
      = payload.length + (2 + rest.length) := by
    simp only [List.length_append, LittleEndian.length_encode]
  rw [tryEmitOneFrame_header hcons (by rw [List.length_append, hlen]; omega),
    BufferReadStream.readVaruint_append hd hl]
  dsimp only
  rw [hval, if_neg hsize, if_neg (by rw [hlen]; omega), htake, List.drop_left,
    List.take_left' (by simp), hdec, if_pos rfl, List.take_left, ← List.drop_drop, List.drop_left,
    List.drop_left' (by simp)]

/-- A frame cut short is left alone. -/
theorem tryEmitOneFrame_incomplete {s : State} {source dest : UInt8} {payload e t : Bytes}
    (h : IsFrame crc source dest payload e) (hsize : ¬ TooBig o payload.length)
    (hb : e = s.readBuffer ++ t) (ht : t ≠ []) :
    tryEmitOneFrame crc o s = (false, s) := by
  obtain ⟨hlt, ds, hd, hl, rfl⟩ := h
  rcases hs : s.readBuffer with _ | ⟨b0, _ | ⟨b1, _ | ⟨b2, _ | ⟨b3, tail⟩⟩⟩⟩
  · rw [tryEmitOneFrame_of_not_mem (by rw [hs]; simp), ← hs]
  all_goals
    rw [hs] at hb
    simp only [frameBody, List.cons_append, List.nil_append, List.cons.injEq] at hb
  · exact tryEmitOneFrame_single (by rw [hs, hb.1])
  · exact tryEmitOneFrame_short (t := []) (by rw [hs, hb.1, hb.2.1]) (by simp)
  · exact tryEmitOneFrame_short (t := [b2]) (by rw [hs, hb.1, hb.2.1]) (by simp)
  · obtain ⟨rfl, rfl, rfl, rfl, hb⟩ := hb
    by_cases hlen : tail.length < 3
    · exact tryEmitOneFrame_short hs (by simp only [List.length_cons]; omega)
    rw [tryEmitOneFrame_header hs (by omega)]
    have hval : (UInt32.ofNat payload.length).toNat = payload.length := by
      rw [UInt32.toNat_ofNat', Nat.mod_eq_of_lt hlt]
    have htpos := List.length_pos_iff.mpr ht
    rw [List.append_assoc] at hb
    rcases List.append_eq_append_iff.mp hb with ⟨data, rfl, hdata⟩ | ⟨r, hr, -⟩
    · -- the whole size is there, the payload or the checksum is not
      rw [BufferReadStream.readVaruint_append hd hl]
      dsimp only
      have hshort := congrArg List.length hdata
      simp only [List.length_append, LittleEndian.length_encode] at hshort
      rw [hval, if_neg hsize, if_pos (by omega)]
    · -- the buffer ends inside the size
      rcases eq_or_ne r [] with rfl | hne
      · rw [List.append_nil] at hr
        have happ := BufferReadStream.readVaruint_append hd hl []
        rw [List.append_nil, hr] at happ
        rw [happ]
        dsimp only
        rw [hval, if_neg hsize, if_pos (by simp)]
      · have hltail : tail.length < 5 := by
          have hrpos := List.length_pos_iff.mpr hne
          have := congrArg List.length hr
          rw [List.length_append] at this
          omega
        rw [BufferReadStream.readVaruint_of_open (hd.open_of_prefix hr hne) hltail]

/-! ### The outcomes -/

/-- The outcomes of `TryEmitOneFrame`: the value it returns and the state it leaves. -/
inductive Outcome (crc : Bytes → UInt16) (o : Options) (s : State) : Bool × State → Prop
  /-- No byte of the buffer can start a frame. -/
  | noHeader (h : kHeaderLowByte ∉ s.readBuffer) :
      Outcome crc o s (false, { s with readBuffer := [] })
  /-- The frame that may start at the first start byte is not all there. -/
  | wait {noise b : Bytes} (hb : s.readBuffer = noise ++ b) (hn : kHeaderLowByte ∉ noise)
      (hinc : ∀ source dest payload e rest, IsFrame crc source dest payload e →
        ¬ TooBig o payload.length → b ≠ e ++ rest) :
      Outcome crc o s (false, { s with readBuffer := b })
  | falseStart {noise t : Bytes} {x : UInt8}
      (hb : s.readBuffer = noise ++ kHeaderLowByte :: x :: t) (hn : kHeaderLowByte ∉ noise)
      (hx : x ≠ kHeaderHighByte) : Outcome crc o s (true, { s with readBuffer := t })
  | oversize (h : Oversize o s.readBuffer) : Outcome crc o s (false, { s with readBuffer := [] })
  /-- The checksum is not that of the frame, so no frame starts there, whatever follows. -/
  | mismatch {noise t : Bytes}
      (hb : s.readBuffer = noise ++ kHeaderLowByte :: kHeaderHighByte :: t)
      (hn : kHeaderLowByte ∉ noise)
      (hno : ∀ source dest payload e later, IsFrame crc source dest payload e →
        ¬ e <+: kHeaderLowByte :: kHeaderHighByte :: t ++ later) :
      Outcome crc o s (false, { s with
        readBuffer := t, checksumMismatch := s.checksumMismatch + 1 })
  | frame {noise payload bytes rest : Bytes} {source dest : UInt8}
      (hb : s.readBuffer = noise ++ bytes ++ rest) (hn : kHeaderLowByte ∉ noise)
      (hf : FrameBytes crc source dest payload bytes) (hbig : ¬ TooBig o payload.length) :
      Outcome crc o s (true, invokeReadCallback
        (frameCallback (s.currentRead.getD 0) source dest payload) { s with readBuffer := rest })

/-- Where the function returns false without touching the buffer, no complete frame is there. -/
theorem Outcome.wait_of_false {s : State} {noise b : Bytes} (hb : s.readBuffer = noise ++ b)
    (hn : kHeaderLowByte ∉ noise)
    (h : tryEmitOneFrame crc o { s with readBuffer := b } = (false, { s with readBuffer := b })) :
    Outcome crc o s (tryEmitOneFrame crc o { s with readBuffer := b }) := by
  have hinc : ∀ source dest payload e rest, IsFrame crc source dest payload e →
      ¬ TooBig o payload.length → b ≠ e ++ rest := by
    rintro source dest payload e rest hf hsize rfl
    rw [tryEmitOneFrame_frame hf hsize rfl] at h
    simp at h
  rw [h]
  exact .wait hb hn hinc

/-- **What `TryEmitOneFrame` does**, for every buffer. -/
theorem tryEmitOneFrame_outcome (crc : Bytes → UInt16) (o : Options) (s : State) : Outcome crc o s (tryEmitOneFrame crc o s) := by
  rcases noise_split s.readBuffer with h | ⟨noise, t, hb, hn⟩
  · rw [tryEmitOneFrame_of_not_mem h]
    exact .noHeader h
  rw [tryEmitOneFrame_noise hb hn]
  rcases t with _ | ⟨x, t⟩
  · exact .wait_of_false hb hn (tryEmitOneFrame_single rfl)
  by_cases hx : x = kHeaderHighByte
  swap
  · rw [tryEmitOneFrame_falseStart rfl hx]
    exact .falseStart hb hn hx
  subst hx
  by_cases ht : t.length < 5
  · exact .wait_of_false hb hn (tryEmitOneFrame_short rfl ht)
  obtain ⟨source, dest, t, rfl⟩ : ∃ source dest t', t = source :: dest :: t' := by
    match t, ht with
    | source :: dest :: t', _ => exact ⟨source, dest, t', rfl⟩
    | [], h => simp at h
    | [_], h => simp at h
  simp only [List.length_cons] at ht
  have heq : tryEmitOneFrame crc o { s with
      readBuffer := kHeaderLowByte :: kHeaderHighByte :: source :: dest :: t } = _ :=
    tryEmitOneFrame_header rfl (by omega)
  rcases hv : BufferReadStream.readVaruint t with ⟨_ | size, data⟩
  · rw [hv] at heq
    exact .wait_of_false hb hn heq
  rw [hv] at heq
  dsimp only at heq
  by_cases hbig : TooBig o size.toNat
  · rw [if_pos hbig] at heq
    rw [heq]
    exact .oversize ⟨noise, source, dest, t, size, data, hb, hn, hv, hbig⟩
  rw [if_neg hbig] at heq
  by_cases hshort : data.length < size.toNat + 2
  · rw [if_pos hshort] at heq
    exact .wait_of_false hb hn heq
  rw [if_neg hshort] at heq
  obtain ⟨ds, rfl, hread⟩ := BufferReadStream.readVaruint_split hv
  rw [take_frameBody source dest ds data (by omega)] at heq
  have hlen : (data.take size.toNat).length = size.toNat := by
    rw [List.length_take]; omega
  by_cases hcrc : LittleEndian.decode ((data.drop size.toNat).take 2)
      = (crc (frameBody source dest ds (data.take size.toNat))).toNat
  · rw [if_pos hcrc] at heq
    rw [heq]
    have hcrcBytes := eq_scalarBytes_of_decode (by rw [List.length_take, List.length_drop]; omega)
      hcrc
    have hsplit : s.readBuffer = noise ++ (frameBody source dest ds (data.take size.toNat) ++
        scalarBytes 2 (crc (frameBody source dest ds (data.take size.toNat))).toNat) ++
        data.drop (size.toNat + 2) := by
      rw [hb, ← hcrcBytes, ← List.drop_drop]
      simp only [frameBody, List.append_assoc, List.cons_append, List.take_append_drop]
    exact .frame hsplit hn ⟨ds, fun r => by rw [hread, hlen, UInt32.ofNat_toNat], rfl⟩
      (by rwa [hlen])
  · rw [if_neg hcrc] at heq
    rw [heq]
    refine .mismatch hb hn fun source' dest' payload e later hf hpre => hcrc ?_
    exact checksum_of_isFrame hread (by omega) hf hpre

end Mjlib.Multiplex.MicroStreamDatagram
