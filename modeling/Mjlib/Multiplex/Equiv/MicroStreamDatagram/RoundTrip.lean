import Mjlib.Multiplex.Equiv.MicroStreamDatagram.NeverStalls

/-!
# Framing round trip

`delivers`: the concatenated encodings of a list of frames, cut into completions at any bytes, are
delivered as that list of frames, whenever the client asks.  The invariant `Delivering` says that
the frames delivered are the first ones of the list and that the buffer and the bytes still to come
are the encodings of the others.

`asyncWrite_eq` connects the two senders.
-/

namespace Mjlib.Multiplex.MicroStreamDatagram

variable {crc : Bytes → UInt16} {o : Options}

/-! ### The two senders -/

theorem length_encode (crc : Bytes → UInt16) (f : Frame) :
    (f.encode crc).length
      = 6 + (writeVaruint (UInt32.ofNat f.payload.length)).length + f.payload.length := by
  rw [Frame.encode_eq, List.length_append, length_frameBody, LittleEndian.length_encode]
  omega

/-- `AsyncWrite` sends what `Frame::encode` encodes, where its assertion holds. -/
theorem asyncWrite_eq (crc : Bytes → UInt16) (o : Options) (f : Frame) (size : ℕ) :
    asyncWrite crc o ⟨f.sourceByte.toNat, f.destId.toNat, size⟩ f.payload
      = if (f.encode crc).length < o.bufferSize then some (f.encode crc) else none := by
  have hlen : 2 + 1 + 1 + getVaruintSize (UInt32.ofNat f.payload.length) + kCrcSize
      + f.payload.length = (f.encode crc).length := by
    rw [length_encode, getVaruintSize_eq, kCrcSize]
    omega
  unfold asyncWrite
  simp only [hlen, UInt8.ofNat_toNat]
  rfl

/-! ### Admissible frames -/

/-- The receiver has room for the frame, and the format for its payload. -/
structure Admissible (crc : Bytes → UInt16) (o : Options) (f : Frame) : Prop where
  payload_le : f.payload.length ≤ 4096
  encode_le : (f.encode crc).length ≤ o.bufferSize

theorem Admissible.isFrame {f : Frame} (h : Admissible crc o f) :
    IsFrame crc f.sourceByte f.destId f.payload (f.encode crc) :=
  f.encode_isFrame crc (lt_of_le_of_lt h.payload_le (by decide))

theorem Admissible.not_tooBig {f : Frame} (h : Admissible crc o f) :
    ¬ TooBig o f.payload.length := by
  have hle := h.encode_le
  have hpos := length_writeVaruint_pos (UInt32.ofNat f.payload.length)
  have hsub : sizeSub o.bufferSize 7 = o.bufferSize - 7 := by
    have := o.bufferSize_lt
    unfold sizeSub
    rw [length_encode] at hle
    omega
  rw [TooBig, hsub]
  rw [length_encode] at hle
  have := h.payload_le
  omega

/-- The callback that delivers a frame whole. -/
def delivery (f : Frame) : Callback :=
  .datagram ⟨f.sourceByte.toNat, f.destId.toNat, f.payload.length⟩ f.payload false

theorem frameCallback_eq_delivery {f : Frame} {capacity : ℕ} (h : f.payload.length ≤ capacity) :
    frameCallback capacity f.sourceByte f.destId f.payload = delivery f := by
  rw [frameCallback, delivery, List.take_of_length_le h, decide_eq_false (by omega)]

/-- The datagram read that is pending, as a number. -/
def pending (s : State) : ℕ := if s.currentRead.isSome then 1 else 0

/-! ### The invariant -/

/-- `done` has been delivered, the buffer and the bytes to come are the encodings of `rest`, and a
pending read waits for a frame that is not all there. -/
structure Delivering (crc : Bytes → UInt16) (o : Options) (later : Bytes) (done rest : List Frame)
    (s : State) : Prop where
  callbacks : s.callbacks = done.map delivery
  bytes : s.readBuffer ++ later = rest.flatMap (Frame.encode crc)
  streamReads :
    s.streamReads = if s.currentRead.isSome then [o.bufferSize - s.readBuffer.length] else []
  waiting : s.currentRead.isSome → ∀ f rest', rest = f :: rest' →
    s.readBuffer.length < (f.encode crc).length

/-- The invariant of a run: the frames split into delivered ones and others, and every `AsyncRead`
so far was for one of the delivered frames or is pending. -/
structure Progress (crc : Bytes → UInt16) (o : Options) (frames : List Frame) (later : Bytes)
    (asked : ℕ) (s : State) : Prop where
  split : ∃ done rest, frames = done ++ rest ∧ Delivering crc o later done rest s
  capacity : ∀ n, s.currentRead = some n → ∀ f ∈ frames, f.payload.length ≤ n
  asked : s.callbacks.length + pending s = asked

theorem Progress.readsMatch {frames : List Frame} {later : Bytes} {asked : ℕ} {s : State}
    (h : Progress crc o frames later asked s) : ReadsMatch s := by
  obtain ⟨done, rest, -, hd⟩ := h.split
  rw [ReadsMatch, hd.streamReads]
  split_ifs <;> rfl

theorem progress_init (crc : Bytes → UInt16) (o : Options) (frames : List Frame) :
    Progress crc o frames (frames.flatMap (Frame.encode crc)) 0 init where
  split := ⟨[], frames, rfl, rfl, rfl, rfl, fun h => by simp [init] at h⟩
  capacity := fun n h => by simp [init] at h
  asked := rfl

/-- `TryEmitOneFrame` on the encodings of frames: it emits the first one if that is all there, and
changes nothing otherwise. -/
theorem tryEmitOneFrame_encodings {later : Bytes} {rest : List Frame} {s : State}
    (hrest : ∀ f ∈ rest, Admissible crc o f)
    (hbytes : s.readBuffer ++ later = rest.flatMap (Frame.encode crc)) :
    (tryEmitOneFrame crc o s = (false, s) ∧
      ∀ f rest', rest = f :: rest' → s.readBuffer.length < (f.encode crc).length) ∨
    ∃ f rest' b, rest = f :: rest' ∧ s.readBuffer = f.encode crc ++ b ∧
      b ++ later = rest'.flatMap (Frame.encode crc) ∧
      tryEmitOneFrame crc o s = (true, invokeReadCallback
        (frameCallback (s.currentRead.getD 0) f.sourceByte f.destId f.payload)
        { s with readBuffer := b }) := by
  cases rest with
  | nil =>
    have hnil : s.readBuffer = [] := (List.append_eq_nil_iff.mp hbytes).1
    refine Or.inl ⟨?_, fun f rest' h => by simp at h⟩
    rw [tryEmitOneFrame_of_not_mem (by rw [hnil]; simp), ← hnil]
  | cons f rest' =>
    have hf := hrest f (by simp)
    rw [List.flatMap_cons] at hbytes
    rcases List.append_eq_append_iff.mp hbytes with ⟨t, ht, -⟩ | ⟨b, hb, hlater⟩
    · -- the buffer is a part of the encoding
      by_cases hnil : t = []
      · subst hnil
        rw [List.append_nil] at ht
        refine Or.inr ⟨f, rest', [], rfl, by rw [List.append_nil, ht], ?_, ?_⟩
        · rw [ht] at hbytes
          exact List.append_cancel_left hbytes
        · exact tryEmitOneFrame_frame hf.isFrame hf.not_tooBig (by rw [List.append_nil, ht])
      · refine Or.inl ⟨tryEmitOneFrame_incomplete hf.isFrame hf.not_tooBig ht hnil, ?_⟩
        intro g rest'' hg
        obtain ⟨rfl, rfl⟩ := List.cons.inj hg
        have := List.length_pos_iff.mpr hnil
        rw [ht, List.length_append]
        omega
    · -- the encoding is at the front of the buffer
      exact Or.inr ⟨f, rest', b, rfl, hb, hlater.symm,
        tryEmitOneFrame_frame hf.isFrame hf.not_tooBig hb⟩

theorem emitOrRead_progress {frames done rest : List Frame} {later : Bytes} {n asked : ℕ}
    {s : State} (hframes : ∀ f ∈ frames, Admissible crc o f) (hsplit : frames = done ++ rest)
    (hcallbacks : s.callbacks = done.map delivery)
    (hbytes : s.readBuffer ++ later = rest.flatMap (Frame.encode crc)) (hr : s.streamReads = [])
    (hc : s.currentRead = some n) (hcap : ∀ f ∈ frames, f.payload.length ≤ n)
    (hasked : s.callbacks.length + 1 = asked) :
    Progress crc o frames later asked (emitOrRead crc o s) := by
  have hrest : ∀ f ∈ rest, Admissible crc o f := fun f hf => hframes f (by
    rw [hsplit]; exact List.mem_append_right _ hf)
  unfold emitOrRead
  obtain ⟨heq, hwait⟩ | ⟨f, rest', b, rfl, -, hb, heq⟩ := tryEmitOneFrame_encodings hrest hbytes
  · rw [heq, if_neg (by simp)]
    have hsome : (startReadFrame o s).currentRead = some n := hc
    dsimp only
    refine ⟨⟨done, rest, hsplit, hcallbacks, hbytes, ?_, fun _ => hwait⟩, ?_, ?_⟩
    · rw [hsome, if_pos Option.isSome_some, startReadFrame, hr, List.nil_append]
    · rintro m hm
      obtain rfl : n = m := Option.some.inj (hsome.symm.trans hm)
      exact hcap
    · rw [pending, hsome, if_pos Option.isSome_some]
      exact hasked
  · rw [heq, if_pos rfl]
    have hdeliver : frameCallback (s.currentRead.getD 0) f.sourceByte f.destId f.payload
        = delivery f := by
      rw [hc, Option.getD_some]
      exact frameCallback_eq_delivery (hcap f (by rw [hsplit]; simp))
    refine ⟨⟨done ++ [f], rest', by rw [hsplit]; simp, ?_, hb, ?_, ?_⟩, ?_, ?_⟩
    · simp only [invokeReadCallback, hcallbacks, hdeliver, List.map_append, List.map_cons,
        List.map_nil]
    · simpa [invokeReadCallback] using hr
    · intro h
      simp [invokeReadCallback] at h
    · intro m hm
      simp [invokeReadCallback] at hm
    · rw [← hasked]
      simp [invokeReadCallback, pending]

/-! ### Steps and runs -/

theorem Progress.asyncRead {frames : List Frame} {later : Bytes} {n asked : ℕ} {s s' : State}
    (hframes : ∀ f ∈ frames, Admissible crc o f) (hcap : ∀ f ∈ frames, f.payload.length ≤ n)
    (h : Progress crc o frames later asked s) (hstep : step crc o s (.asyncRead n) = some s') :
    Progress crc o frames later (asked + 1) s' := by
  obtain ⟨m, hm, hnone, hr, rfl⟩ | ⟨_, _, hm, -⟩ | ⟨hm, -⟩ := step_cases h.readsMatch hstep
  · obtain rfl : n = m := by simpa using hm
    obtain ⟨done, rest, hsplit, hd⟩ := h.split
    refine emitOrRead_progress hframes hsplit hd.callbacks hd.bytes hr rfl hcap ?_
    rw [← h.asked, pending, hnone]
    rfl
  · simp at hm
  · simp at hm

theorem Progress.readSome {frames : List Frame} {bytes later : Bytes} {asked : ℕ} {s s' : State}
    (hframes : ∀ f ∈ frames, Admissible crc o f)
    (h : Progress crc o frames (bytes ++ later) asked s)
    (hstep : step crc o s (.readSome bytes) = some s') : Progress crc o frames later asked s' := by
  obtain ⟨_, hm, -⟩ | ⟨b, _, hm, hc, hr, -, -, rfl⟩ | ⟨hm, -⟩ := step_cases h.readsMatch hstep
  · simp at hm
  · obtain rfl : bytes = b := by simpa using hm
    obtain ⟨done, rest, hsplit, hd⟩ := h.split
    obtain ⟨n, hn⟩ := Option.isSome_iff_exists.mp hc
    refine emitOrRead_progress hframes hsplit hd.callbacks ?_ rfl hn (h.capacity n hn) ?_
    · rw [← hd.bytes, List.append_assoc]
    · rw [← h.asked, pending, if_pos hc]
  · simp at hm

theorem progress_run {frames : List Frame} (hframes : ∀ f ∈ frames, Admissible crc o f)
    {as : List Action} : ∀ {s t : State} {later : Bytes} {asked : ℕ},
    (∀ n, .asyncRead n ∈ as → ∀ f ∈ frames, f.payload.length ≤ n) → .readError ∉ as →
    Progress crc o frames (supplied as ++ later) asked s → Run.run (step crc o) s as = some t →
    Progress crc o frames later (asked + requested as) t := by
  induction as with
  | nil =>
    rintro s t later asked - - h hrun
    cases hrun
    exact h
  | cons a as ih =>
    intro s t later asked hcap herr h hrun
    obtain ⟨s', h1, h2⟩ := (Run.run_cons_eq_some _).mp hrun
    have hcap' : ∀ n, .asyncRead n ∈ as → ∀ f ∈ frames, f.payload.length ≤ n :=
      fun n hn => hcap n (List.mem_cons_of_mem _ hn)
    have herr' : .readError ∉ as := fun h => herr (List.mem_cons_of_mem _ h)
    cases a with
    | asyncRead n =>
      have := ih hcap' herr' (Progress.asyncRead hframes (hcap n (by simp)) h h1) h2
      rwa [requested, List.countP_cons_of_pos rfl, Nat.add_comm _ 1, ← Nat.add_assoc]
    | readSome bytes =>
      rw [supplied, List.flatMap_cons, List.append_assoc] at h
      exact ih hcap' herr' (Progress.readSome hframes h h1) h2
    | readError => exact absurd (List.mem_cons_self) herr

/-- **Framing round trip**: `as` is any run from a new object in which the stream delivers the
encodings of `frames`, or all but the bytes `later` of them.  The frames are delivered in order;
all of them are once the stream has delivered everything and the client has asked often enough; and
until then a pending read always has room for another byte. -/
theorem delivers (crc : Bytes → UInt16) (o : Options) {frames : List Frame} {as : List Action}
    {later : Bytes} {t : State} (hframes : ∀ f ∈ frames, Admissible crc o f)
    (hcap : ∀ n, .asyncRead n ∈ as → ∀ f ∈ frames, f.payload.length ≤ n) (herr : .readError ∉ as)
    (hbytes : supplied as ++ later = frames.flatMap (Frame.encode crc))
    (hrun : Run.run (step crc o) init as = some t) :
    t.callbacks <+: frames.map delivery ∧
    (later = [] → frames.length ≤ requested as → t.callbacks = frames.map delivery) ∧
    (t.currentRead.isSome → later ≠ [] → ∃ space, 0 < space ∧ t.streamReads = [space]) ∧
    ∀ f ∈ frames, ∀ (sender : Options) (size : ℕ),
      asyncWrite crc sender ⟨f.sourceByte.toNat, f.destId.toNat, size⟩ f.payload
        = if (f.encode crc).length < sender.bufferSize then some (f.encode crc) else none := by
  have h := progress_run hframes hcap herr (hbytes ▸ progress_init crc o frames) hrun
  obtain ⟨done, rest, hsplit, hd⟩ := h.split
  have hpre : t.callbacks <+: frames.map delivery := by
    rw [hd.callbacks, hsplit, List.map_append]
    exact List.prefix_append _ _
  refine ⟨hpre, fun hl hreq => ?_, fun hc hl => ?_, fun f _ sender size =>
    asyncWrite_eq crc sender f size⟩
  · -- a pending read would wait for a frame that is not all there
    subst hl
    have hall : frames.length ≤ t.callbacks.length := by
      by_cases hc : t.currentRead.isSome
      · cases rest with
        | nil => rw [hd.callbacks, hsplit, List.append_nil, List.length_map]
        | cons f rest' =>
          have hlt := hd.waiting hc f rest' rfl
          have := congrArg List.length hd.bytes
          rw [List.append_nil, List.flatMap_cons, List.length_append] at this
          omega
      · have := h.asked
        rw [pending, if_neg hc] at this
        omega
    exact hpre.eq_of_length_le (by rwa [List.length_map])
  · have hr := hd.streamReads
    rw [if_pos hc] at hr
    refine ⟨_, ?_, hr⟩
    cases rest with
    | nil => exact absurd (List.append_eq_nil_iff.mp hd.bytes).2 hl
    | cons f rest' =>
      have hlt := hd.waiting hc f rest' rfl
      have hle := (hframes f (by rw [hsplit]; simp)).encode_le
      omega

/-- Two frames, the second with the start bytes in its payload, cut inside a header and inside the
size. -/
theorem delivers_two :
    ∃ t, Run.run (step (fun _ => 0) {}) init [.asyncRead 4, .readSome [0x54],
        .readSome [0xab, 0x81, 0x02, 0x01, 0x05, 0x00, 0x00, 0x54, 0xab, 0x03, 0x04],
        .asyncRead 4, .readSome [0x02, 0x54, 0xab, 0x00, 0x00]] = some t ∧
      t.callbacks = [Frame.mk 1 true 2 [0x05], Frame.mk 3 false 4 [0x54, 0xab]].map delivery := by
  have hframes : ∀ f ∈ [Frame.mk 1 true 2 [0x05], Frame.mk 3 false 4 [0x54, 0xab]],
      Admissible (fun _ => 0) {} f := by
    intro f hf
    simp only [List.mem_cons, List.not_mem_nil, or_false] at hf
    rcases hf with rfl | rfl <;> exact ⟨by decide, by decide⟩
  have hcap : ∀ n, Action.asyncRead n ∈ [.asyncRead 4, .readSome [0x54],
        .readSome [0xab, 0x81, 0x02, 0x01, 0x05, 0x00, 0x00, 0x54, 0xab, 0x03, 0x04],
        .asyncRead 4, .readSome [0x02, 0x54, 0xab, 0x00, 0x00]] →
      ∀ f ∈ [Frame.mk 1 true 2 [0x05], Frame.mk 3 false 4 [0x54, 0xab]], f.payload.length ≤ n := by
    simp
  have hrun : Run.run (step (fun _ => 0) {}) init [.asyncRead 4, .readSome [0x54],
        .readSome [0xab, 0x81, 0x02, 0x01, 0x05, 0x00, 0x00, 0x54, 0xab, 0x03, 0x04],
        .asyncRead 4, .readSome [0x02, 0x54, 0xab, 0x00, 0x00]]
      = some ⟨[], none, [], [.datagram ⟨0x81, 2, 1⟩ [0x05] false,
        .datagram ⟨3, 4, 2⟩ [0x54, 0xab] false], 0⟩ := rfl
  have hbytes : supplied [.asyncRead 4, .readSome [0x54],
        .readSome [0xab, 0x81, 0x02, 0x01, 0x05, 0x00, 0x00, 0x54, 0xab, 0x03, 0x04],
        .asyncRead 4, .readSome [0x02, 0x54, 0xab, 0x00, 0x00]] ++ []
      = [Frame.mk 1 true 2 [0x05], Frame.mk 3 false 4 [0x54, 0xab]].flatMap
        (Frame.encode fun _ => 0) := by decide
  exact ⟨_, hrun, (delivers (fun _ => 0) {} hframes hcap (by decide) hbytes hrun).2.1 rfl
    (by decide)⟩

end Mjlib.Multiplex.MicroStreamDatagram
