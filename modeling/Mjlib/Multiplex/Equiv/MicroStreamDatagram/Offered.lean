import Mjlib.Multiplex.Equiv.MicroStreamDatagram.NeverStalls

/-!
# Does the receiver ask for zero bytes?

`TryEmitOneFrame` rejects a payload that is longer than the buffer less seven bytes, for the header,
a size of one byte and the checksum.  The size may take up to five bytes, so a frame that is not
rejected may be longer than the buffer: it fills it, the receiver waits for the rest, and the space
that it offers to the stream has no byte.

- `always_offered_iff_guarded`: in a run from a new object, every space that is offered has a byte if
  and only if no step finds the buffer full of the start of such a frame.
- `accepted_fits_iff`: a frame that is not rejected always fits when the buffer has at least 4107
  bytes.
- `always_offered_iff`: both.
-/

namespace Mjlib.Multiplex.MicroStreamDatagram

variable {crc : Bytes → UInt16} {o : Options}

/-- Every `AsyncReadSome` that has not completed offers at least one byte. -/
def Offered (s : State) : Prop := ∀ space ∈ s.streamReads, 1 ≤ space

instance (s : State) : Decidable (Offered s) := inferInstanceAs (Decidable (∀ _ ∈ _, _))

/-- The buffer is full and starts with a header whose frame is not all there: the size has no end
yet, or it is not rejected and the payload and the checksum do not fit behind it. -/
def Outgrown (o : Options) (b : Bytes) : Prop :=
  o.bufferSize ≤ b.length ∧ ∃ source dest t,
    b = kHeaderLowByte :: kHeaderHighByte :: source :: dest :: t ∧
    ∀ size data, BufferReadStream.readVaruint t = (some size, data) →
      ¬ TooBig o size.toNat ∧ data.length < size.toNat + 2

/-- The buffer on which the step calls `TryEmitOneFrame` is not full of the start of a frame. -/
def NotOutgrown (o : Options) (s : State) : Action → Prop
  | .asyncRead _ => ¬ Outgrown o s.readBuffer
  | .readSome bytes => ¬ Outgrown o (s.readBuffer ++ bytes)
  | .readError => True

/-! ### `TryEmitOneFrame` -/

theorem length_tryEmitOneFrame_le (crc : Bytes → UInt16) (o : Options) (s : State) :
    (tryEmitOneFrame crc o s).2.readBuffer.length ≤ s.readBuffer.length := by
  have hout := tryEmitOneFrame_outcome crc o s
  generalize tryEmitOneFrame crc o s = r at hout
  cases hout with
  | noHeader | oversize => exact Nat.zero_le _
  | wait hb | falseStart hb | mismatch hb | frame hb =>
    simp only [invokeReadCallback, hb, List.length_append, List.length_cons]
    omega

/-- The outstanding stream reads are left alone, and so is the pending datagram read where nothing
is emitted. -/
theorem reads_tryEmitOneFrame (crc : Bytes → UInt16) (o : Options) (s : State) :
    (tryEmitOneFrame crc o s).2.streamReads = s.streamReads ∧
      ((tryEmitOneFrame crc o s).1 = false →
        (tryEmitOneFrame crc o s).2.currentRead = s.currentRead) := by
  have hout := tryEmitOneFrame_outcome crc o s
  generalize tryEmitOneFrame crc o s = r at hout
  cases hout with
  | noHeader | oversize | wait | mismatch => exact ⟨rfl, fun _ => rfl⟩
  | falseStart | frame => exact ⟨rfl, fun h => nomatch h⟩

theorem tryEmitOneFrame_of_outgrown {s : State} (h8 : 8 ≤ o.bufferSize)
    (h : Outgrown o s.readBuffer) : tryEmitOneFrame crc o s = (false, s) := by
  obtain ⟨hfull, source, dest, t, hb, hsize⟩ := h
  have hlen := congrArg List.length hb
  simp only [List.length_cons] at hlen
  rw [tryEmitOneFrame_header hb (by omega)]
  rcases hv : BufferReadStream.readVaruint t with ⟨_ | size, data⟩
  · rfl
  · obtain ⟨hbig, hshort⟩ := hsize size data hv
    dsimp only
    rw [if_neg hbig, if_pos hshort]

/-- Where nothing is emitted and the buffer stays full, it is full of the start of a frame. -/
theorem outgrown_of_tryEmitOneFrame {s : State} (h8 : 8 ≤ o.bufferSize)
    (hle : s.readBuffer.length ≤ o.bufferSize) (hfalse : (tryEmitOneFrame crc o s).1 = false)
    (hfull : o.bufferSize ≤ (tryEmitOneFrame crc o s).2.readBuffer.length) :
    Outgrown o s.readBuffer := by
  have hmono := length_tryEmitOneFrame_le crc o s
  refine ⟨by omega, ?_⟩
  rcases noise_split s.readBuffer with h | ⟨noise, t, hb, hn⟩
  · rw [tryEmitOneFrame_of_not_mem h] at hfull
    simp only [List.length_nil] at hfull
    omega
  -- nothing stands in front of the start byte
  have hlen := congrArg List.length hb
  simp only [List.length_append, List.length_cons] at hlen
  rw [tryEmitOneFrame_noise hb hn] at hfull hfalse
  have hrest := length_tryEmitOneFrame_le crc o { s with readBuffer := kHeaderLowByte :: t }
  simp only [List.length_cons] at hrest
  obtain rfl : noise = [] := List.length_eq_zero_iff.mp (by omega)
  rcases t with _ | ⟨x, _ | ⟨source, _ | ⟨dest, t⟩⟩⟩ <;>
    simp only [List.length_nil, List.length_cons] at hlen hrest
  · omega
  · omega
  · omega
  have ht : 3 ≤ t.length := by omega
  by_cases hx : x = kHeaderHighByte
  swap
  · rw [tryEmitOneFrame_falseStart rfl hx] at hfalse
    exact nomatch hfalse
  subst hx
  refine ⟨source, dest, t, hb, fun size data hv => ?_⟩
  rw [tryEmitOneFrame_header rfl ht, hv] at hfull hfalse
  dsimp only at hfull hfalse
  split_ifs at hfull hfalse with hbig hshort hcrc
  · simp only [List.length_nil] at hfull
    omega
  · exact ⟨hbig, hshort⟩
  · simp only [List.length_drop, List.length_cons] at hfull
    omega

/-! ### Steps -/

/-- The invariant: what is buffered fits, and at most one stream read is outstanding, for what is left
of the buffer. -/
structure Bounded (o : Options) (s : State) : Prop where
  length_le : s.readBuffer.length ≤ o.bufferSize
  reads : s.streamReads = [] ∨
    s.currentRead.isSome ∧ s.streamReads = [o.bufferSize - s.readBuffer.length]

theorem bounded_init (o : Options) : Bounded o init := ⟨Nat.zero_le _, .inl rfl⟩

/-- What is done with what is buffered, after a read or at the call of the client. -/
theorem emitOrRead_bounded {s : State} (hle : s.readBuffer.length ≤ o.bufferSize)
    (hr : s.streamReads = []) (hc : s.currentRead.isSome) :
    Bounded o (emitOrRead crc o s) := by
  have hmono := length_tryEmitOneFrame_le crc o s
  obtain ⟨hreads, hcurrent⟩ := reads_tryEmitOneFrame crc o s
  rw [emitOrRead]
  split_ifs with hemit
  · exact ⟨hmono.trans hle, .inl (hreads.trans hr)⟩
  · refine ⟨hmono.trans hle, .inr ⟨?_, ?_⟩⟩
    · have heq := hcurrent (Bool.eq_false_of_not_eq_true hemit)
      rwa [startReadFrame, heq]
    · rw [startReadFrame, hreads, hr]
      rfl

theorem emitOrRead_offered_iff {s : State} (h8 : 8 ≤ o.bufferSize)
    (hle : s.readBuffer.length ≤ o.bufferSize) (hr : s.streamReads = []) :
    Offered (emitOrRead crc o s) ↔ ¬ Outgrown o s.readBuffer := by
  obtain ⟨hreads, -⟩ := reads_tryEmitOneFrame crc o s
  have hmono := length_tryEmitOneFrame_le crc o s
  rw [emitOrRead, Offered]
  split_ifs with hemit
  · -- a frame or a false start, and no stream read
    rw [hreads, hr]
    refine ⟨fun _ h => ?_, fun _ _ h => absurd h List.not_mem_nil⟩
    rw [tryEmitOneFrame_of_outgrown h8 h] at hemit
    cases hemit
  · have hfalse := Bool.eq_false_of_not_eq_true hemit
    rw [startReadFrame, hreads, hr, List.nil_append, List.forall_mem_singleton]
    constructor
    · intro hspace h
      rw [tryEmitOneFrame_of_outgrown h8 h] at hspace
      have hfull : o.bufferSize ≤ s.readBuffer.length := h.1
      dsimp only at hspace
      omega
    · intro hgrown
      by_contra hspace
      exact hgrown (outgrown_of_tryEmitOneFrame h8 hle hfalse (by omega))

theorem Bounded.step_cases {s s' : State} {a : Action} (hs : Bounded o s)
    (h : step crc o s a = some s') :
    (∃ n, a = .asyncRead n ∧ s.streamReads = [] ∧
      s' = emitOrRead crc o { s with currentRead := some n }) ∨
    (∃ bytes, a = .readSome bytes ∧ s.currentRead.isSome ∧
      (s.readBuffer ++ bytes).length ≤ o.bufferSize ∧
      s' = emitOrRead crc o { s with streamReads := [], readBuffer := s.readBuffer ++ bytes }) ∨
    (a = .readError ∧ s'.readBuffer = [] ∧ s'.streamReads = []) := by
  cases a with
  | asyncRead n =>
    rw [step] at h
    split_ifs at h with hc
    refine .inl ⟨n, rfl, hs.reads.resolve_right fun hr => hc hr.1, (Option.some.inj h).symm⟩
  | readSome bytes =>
    rcases hs.reads with hr | ⟨hc, hr⟩
    · simp [step, hr] at h
    · simp only [step, hr] at h
      split_ifs at h with hbytes
      refine .inr (.inl ⟨bytes, rfl, hc, ?_, (Option.some.inj h).symm⟩)
      have := hs.length_le
      rw [List.length_append]
      omega
  | readError =>
    rcases hs.reads with hr | ⟨hc, hr⟩
    · simp [step, hr] at h
    · simp only [step, hr] at h
      rw [← Option.some.inj h]
      exact .inr (.inr ⟨rfl, rfl, rfl⟩)

theorem bounded_step {s s' : State} {a : Action} (hs : Bounded o s)
    (h : step crc o s a = some s') : Bounded o s' := by
  obtain ⟨n, rfl, hr, rfl⟩ | ⟨bytes, rfl, hc, hle, rfl⟩ | ⟨rfl, hb, hr⟩ := hs.step_cases h
  · exact emitOrRead_bounded hs.length_le hr rfl
  · exact emitOrRead_bounded hle rfl hc
  · exact ⟨by rw [hb]; exact Nat.zero_le _, .inl hr⟩

/-- A step offers at least one byte if and only if it does not find the buffer full. -/
theorem offered_step_iff {s s' : State} {a : Action} (h8 : 8 ≤ o.bufferSize) (hs : Bounded o s)
    (h : step crc o s a = some s') : Offered s' ↔ NotOutgrown o s a := by
  obtain ⟨n, rfl, hr, rfl⟩ | ⟨bytes, rfl, hc, hle, rfl⟩ | ⟨rfl, hb, hr⟩ := hs.step_cases h
  · exact emitOrRead_offered_iff h8 hs.length_le hr
  · exact emitOrRead_offered_iff h8 hle rfl
  · refine iff_of_true (fun space hspace => ?_) trivial
    rw [hr] at hspace
    exact absurd hspace List.not_mem_nil

/-! ### The frames that are not rejected -/

/-- A number of up to 14 bits in five bytes. -/
theorem encodes_padded {n : ℕ} (h : n < 128 * 128) :
    Base128.Encodes [UInt8.ofNat (n % 128 + 128), UInt8.ofNat (n / 128 + 128), 0x80, 0x80, 0x00]
      n := by
  have hb : (UInt8.ofNat (n % 128 + 128)).toNat = n % 128 + 128 := by
    rw [UInt8.toNat_ofNat', Nat.mod_eq_of_lt (by omega)]
  have hc : (UInt8.ofNat (n / 128 + 128)).toNat = n / 128 + 128 := by
    rw [UInt8.toNat_ofNat', Nat.mod_eq_of_lt (by omega)]
  have hzero : Base128.Encodes [0x80, 0x80, 0x00] 0 :=
    .more (by decide) (.more (by decide) (.last (by decide)))
  have hpadded := Base128.Encodes.more (b := UInt8.ofNat (n % 128 + 128)) (by omega)
    (.more (b := UInt8.ofNat (n / 128 + 128)) (by omega) hzero)
  rw [hb, hc] at hpadded
  convert hpadded using 1
  omega

/-- **Every frame that is not rejected fits** if and only if the buffer has room for a payload of
4096 bytes with a size of five bytes. -/
theorem accepted_fits_iff (crc : Bytes → UInt16) (h8 : 8 ≤ o.bufferSize) :
    (∀ source dest payload e, IsFrame crc source dest payload e → ¬ TooBig o payload.length →
      e.length ≤ o.bufferSize) ↔ 4107 ≤ o.bufferSize := by
  have hlt := o.bufferSize_lt
  have hsub : sizeSub o.bufferSize 7 = o.bufferSize - 7 := by
    rw [sizeSub]
    omega
  constructor
  · intro hfits
    -- the longest payload that is not rejected, with its size in five bytes
    set n := min 4096 (o.bufferSize - 7)
    have hlen : (List.replicate n (0 : UInt8)).length = n := List.length_replicate
    have hbody := hfits 0 0 (List.replicate n 0) _ ⟨by omega, _, by
      rw [hlen]; exact encodes_padded (by omega), le_rfl, rfl⟩ (by
        rw [TooBig, hsub, hlen]; omega)
    simp only [List.length_append, length_frameBody, scalarBytes, LittleEndian.length_encode, hlen,
      List.length_cons, List.length_nil] at hbody
    omega
  · intro hlarge source dest payload e hf hbig
    obtain ⟨k, -, hk, hlen⟩ := hf.length_eq
    rw [TooBig, not_or] at hbig
    omega

/-! ### Runs -/

/-- Along a run from a new object, every space that is offered has a byte if and only if no step finds
the buffer full of the start of a frame. -/
theorem always_offered_iff_guarded (h8 : 8 ≤ o.bufferSize) {as : List Action} {t : State}
    (h : Run.run (step crc o) init as = some t) :
    Run.Always (step crc o) Offered init as ↔ Run.Guarded (step crc o) (NotOutgrown o) init as :=
  Run.always_iff_guarded (I := fun s => Bounded o s ∧ Offered s) (fun _ hs => hs.2)
    (fun _ _ _ hs hG h => ⟨bounded_step hs.1 h, (offered_step_iff h8 hs.1 h).mpr hG⟩)
    (fun _ _ _ hs hG h => fun hoffered => hG ((offered_step_iff h8 hs.1 h).mp hoffered))
    ⟨bounded_init o, fun _ h => absurd h List.not_mem_nil⟩ h

/-- **When the receiver asks for zero bytes**: along a run when a step finds the buffer full of the
start of a frame, and at all when some frame that is not rejected is longer than the buffer. -/
theorem always_offered_iff (crc : Bytes → UInt16) {o : Options} (h8 : 8 ≤ o.bufferSize)
    {as : List Action} {t : State} (h : Run.run (step crc o) init as = some t) :
    (Run.Always (step crc o) Offered init as ↔
      Run.Guarded (step crc o) (NotOutgrown o) init as) ∧
    ((∀ source dest payload e, IsFrame crc source dest payload e → ¬ TooBig o payload.length →
      e.length ≤ o.bufferSize) ↔ 4107 ≤ o.bufferSize) :=
  ⟨always_offered_iff_guarded h8 h, accepted_fits_iff crc h8⟩

/-- A buffer of eight bytes, and a frame that fills it. -/
theorem always_offered_iff_eight :
    (Run.Always (step (fun _ => 0) { bufferSize := 8 }) Offered init
        [.asyncRead 16, .readSome [0x54, 0xab, 0, 1, 1, 0x50, 0, 0]] ↔
      Run.Guarded (step (fun _ => 0) { bufferSize := 8 }) (NotOutgrown { bufferSize := 8 }) init
        [.asyncRead 16, .readSome [0x54, 0xab, 0, 1, 1, 0x50, 0, 0]]) ∧
    ((∀ source dest payload e, IsFrame (fun _ => 0) source dest payload e →
      ¬ TooBig { bufferSize := 8 } payload.length → e.length ≤ 8) ↔ 4107 ≤ 8) :=
  always_offered_iff (fun _ => 0) (o := { bufferSize := 8 }) (by decide)
    (t := ⟨[], none, [], [.datagram ⟨0, 1, 1⟩ [0x50] false], 0⟩) (by decide +kernel)

/-- With a buffer of eight bytes and a size of one that is written in two, the last byte of the frame
has no room. -/
theorem not_always_offered : ¬ ∀ (crc : Bytes → UInt16) (o : Options) (as : List Action) (t : State),
    8 ≤ o.bufferSize → Run.run (step crc o) init as = some t → Offered t := by
  intro h
  have := h (fun _ => 0) { bufferSize := 8 }
    [.asyncRead 16, .readSome [0x54, 0xab, 0, 1, 0x81, 0x00, 0x50, 0]]
    ⟨[0x54, 0xab, 0, 1, 0x81, 0x00, 0x50, 0], some 16, [0], [], 0⟩ (by decide)
    (by decide +kernel)
  exact absurd this (by decide)

end Mjlib.Multiplex.MicroStreamDatagram
