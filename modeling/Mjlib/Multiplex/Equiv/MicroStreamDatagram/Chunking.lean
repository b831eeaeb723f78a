import Mjlib.Lib.Incremental
import Mjlib.Multiplex.Equiv.MicroStreamDatagram.NeverStalls

/-!
# Does it matter where the stream's reads are cut?

`receiver` decodes the stream as the receiver does that is given one byte at a time.  The other ways
of cutting the stream make a difference on two exits of `TryEmitOneFrame` only (`Front.Rescans`): it
wipes the whole buffer where the size is too big, and where the checksum does not match it returns
without looking at the bytes behind.  `callbacks_eq_of_guarded` compares any two runs that take
neither exit with something behind; `not_callbacks_eq` is a good frame behind one with a wrong
checksum, which is delivered or not.
-/

namespace Mjlib.Multiplex.MicroStreamDatagram

variable (crc : Bytes → UInt16) (o : Options)

/-! ### What a start byte is the start of -/

/-- What a frame delivers. -/
structure Datagram where
  source : UInt8
  dest : UInt8
  payload : Bytes
deriving DecidableEq, Repr

/-- The callback for it, given the size of the client's buffer. -/
def Datagram.callback (capacity : ℕ) (d : Datagram) : Callback :=
  frameCallback capacity d.source d.dest d.payload

/-- What a buffer with a start byte at its front begins with, and the bytes behind that. -/
inductive Front
  | incomplete
  | falseStart
  | oversize (behind : Bytes)
  | mismatch (behind : Bytes)
  | frame (datagram : Datagram) (behind : Bytes)
deriving DecidableEq, Repr

/-- A header, the size that has been read behind it and the bytes after the size.  A size is looked
at when there are three bytes where it starts; these and the size are gone when it is too big. -/
def sized (source dest : UInt8) (t : Bytes) (size : UInt32) (data : Bytes) : Front :=
  if TooBig o size.toNat then .oversize (t.drop (max 3 (t.length - data.length)))
  else if data.length < size.toNat + 2 then .incomplete
  else if LittleEndian.decode ((data.drop size.toNat).take 2)
      = (crc ((kHeaderLowByte :: kHeaderHighByte :: source :: dest :: t).take
          (t.length + 4 - data.length + size.toNat))).toNat then
    .frame ⟨source, dest, data.take size.toNat⟩ (data.drop (size.toNat + 2))
  else .mismatch (source :: dest :: t)

/-- What follows the two header bytes. -/
def headed : Bytes → Front
  | [] => .incomplete
  | [_] => .incomplete
  | source :: dest :: t =>
    if t.length < 3 then .incomplete
    else
      match BufferReadStream.readVaruint t with
      | (none, _) => .incomplete
      | (some size, data) => sized crc o source dest t size data

/-- What follows the start byte `kHeaderLowByte`. -/
def front : Bytes → Front
  | [] => .incomplete
  | x :: t => if x ≠ kHeaderHighByte then .falseStart else headed crc o t

/-- The datagrams in what has been recognised, and the bytes behind it. -/
def Front.piece : Front → Option (List Datagram × Bytes)
  | .incomplete => none
  | .falseStart => none
  | .oversize behind => some ([], behind)
  | .mismatch behind => some ([], behind)
  | .frame datagram behind => some ([datagram], behind)

/-- What `TryEmitOneFrame` returns and leaves of `s`, whose buffer starts with the start byte. -/
def Front.result (s : State) : Front → Bool × State
  | .incomplete => (false, s)
  | .falseStart => (true, { s with readBuffer := s.readBuffer.drop 2 })
  | .oversize _ => (false, { s with readBuffer := [] })
  | .mismatch behind =>
    (false, { s with readBuffer := behind, checksumMismatch := s.checksumMismatch + 1 })
  | .frame datagram behind =>
    (true, invokeReadCallback (datagram.callback (s.currentRead.getD 0))
      { s with readBuffer := behind })

variable {crc o}

/-- `TryEmitOneFrame` on a buffer that starts with the start byte. -/
theorem tryEmitOneFrame_front {s : State} {t : Bytes} (hb : s.readBuffer = kHeaderLowByte :: t) :
    tryEmitOneFrame crc o s = (front crc o t).result s := by
  match t, hb with
  | [], hb => exact tryEmitOneFrame_single hb
  | x :: t, hb =>
    by_cases hx : x ≠ kHeaderHighByte
    · rw [tryEmitOneFrame_falseStart hb hx, front, if_pos hx, Front.result, hb]
      rfl
    obtain rfl := not_not.mp hx
    rw [front, if_neg hx]
    match t, hb with
    | [], hb => exact tryEmitOneFrame_short hb (by simp)
    | [_], hb => exact tryEmitOneFrame_short hb (by simp)
    | source :: dest :: t, hb =>
      rw [headed]
      by_cases hlen : t.length < 3
      · rw [if_pos hlen]
        exact tryEmitOneFrame_short hb (by simp only [List.length_cons]; omega)
      · rw [if_neg hlen, tryEmitOneFrame_header hb (by omega)]
        rcases BufferReadStream.readVaruint t with ⟨_ | size, data⟩
        · rfl
        · have hbytes : s.readBuffer.length = t.length + 4 := by rw [hb]; rfl
          dsimp only [sized]
          rw [hbytes, hb]
          split_ifs <;> rfl

/-! ### The decoder -/

theorem sized_piece_append {source dest : UInt8} {t data rest : Bytes} {size : UInt32}
    {outputs : List Datagram} (hsuf : data <:+ t) (ht : 3 ≤ t.length)
    (h : (sized crc o source dest t size data).piece = some (outputs, rest)) (later : Bytes) :
    (sized crc o source dest (t ++ later) size (data ++ later)).piece
      = some (outputs, rest ++ later) := by
  have hle := hsuf.length_le
  unfold sized at h ⊢
  by_cases hbig : TooBig o size.toNat
  · rw [if_pos hbig] at h ⊢
    simp only [Front.piece, Option.some.injEq, Prod.mk.injEq] at h ⊢
    obtain ⟨rfl, rfl⟩ := h
    have hsub : (t ++ later).length - (data ++ later).length = t.length - data.length := by
      simp only [List.length_append]
      omega
    rw [hsub, List.drop_append_of_le_length (by omega)]
    exact ⟨rfl, rfl⟩
  rw [if_neg hbig] at h ⊢
  by_cases hshort : data.length < size.toNat + 2
  · rw [if_pos hshort] at h
    exact absurd h nofun
  rw [if_neg hshort] at h
  -- the checksum is taken over the same bytes, and compared with the same two
  have hcrc : (kHeaderLowByte :: kHeaderHighByte :: source :: dest :: (t ++ later)).take
      ((t ++ later).length + 4 - (data ++ later).length + size.toNat)
      = (kHeaderLowByte :: kHeaderHighByte :: source :: dest :: t).take
        (t.length + 4 - data.length + size.toNat) := by
    have hpos : (t ++ later).length + 4 - (data ++ later).length + size.toNat
        = t.length + 4 - data.length + size.toNat := by
      simp only [List.length_append]
      omega
    rw [hpos, ← List.cons_append, ← List.cons_append, ← List.cons_append, ← List.cons_append,
      List.take_append_of_le_length]
    simp only [List.length_cons]
    omega
  have hsum : ((data ++ later).drop size.toNat).take 2 = (data.drop size.toNat).take 2 := by
    rw [List.drop_append_of_le_length (by omega),
      List.take_append_of_le_length (by rw [List.length_drop]; omega)]
  -- enough bytes are still enough
  rw [if_neg (by rw [List.length_append]; omega), hcrc, hsum]
  split_ifs at h ⊢ with hmatch
  · simp only [Front.piece, Option.some.injEq, Prod.mk.injEq] at h ⊢
    obtain ⟨rfl, rfl⟩ := h
    rw [List.take_append_of_le_length (by omega), List.drop_append_of_le_length (by omega)]
    exact ⟨rfl, rfl⟩
  · simp only [Front.piece, Option.some.injEq, Prod.mk.injEq] at h ⊢
    obtain ⟨rfl, rfl⟩ := h
    exact ⟨rfl, rfl⟩

theorem length_sized_piece {source dest : UInt8} {t data rest : Bytes} {size : UInt32}
    {outputs : List Datagram} (hsuf : data <:+ t)
    (h : (sized crc o source dest t size data).piece = some (outputs, rest)) :
    rest.length ≤ t.length + 2 := by
  have hle := hsuf.length_le
  unfold sized at h
  split_ifs at h
  all_goals
    simp only [Front.piece, Option.some.injEq, Prod.mk.injEq, reduceCtorEq] at h
  all_goals
    obtain ⟨-, rfl⟩ := h
    simp only [List.length_drop, List.length_cons]
    omega

/-- What is recognised is recognised in the first bytes of a longer buffer too. -/
theorem front_piece_append {t rest : Bytes} {outputs : List Datagram}
    (h : (front crc o t).piece = some (outputs, rest)) :
    rest.length < t.length ∧
      ∀ later, (front crc o (t ++ later)).piece = some (outputs, rest ++ later) := by
  match t, h with
  | x :: t, h =>
    rw [front] at h
    split_ifs at h with hx
    · exact absurd h nofun
    match t, h with
    | source :: dest :: t, h =>
      rw [headed] at h
      split_ifs at h with hlen
      · exact absurd h nofun
      have hsuf := BufferReadStream.readVaruint_suffix t
      rcases hv : BufferReadStream.readVaruint t with ⟨_ | size, data⟩
      · rw [hv] at h
        exact absurd h nofun
      rw [hv] at h hsuf
      refine ⟨?_, fun later => ?_⟩
      · have := length_sized_piece hsuf h
        simp only [List.length_cons]
        omega
      -- a size that has been read is read alike whatever follows it
      obtain ⟨ds, hds, hread⟩ := BufferReadStream.readVaruint_split hv
      have hlater : BufferReadStream.readVaruint (t ++ later) = (some size, data ++ later) := by
        rw [hds, List.append_assoc, hread]
      rw [List.cons_append, List.cons_append, List.cons_append, front, if_neg hx, headed,
        if_neg (by rw [List.length_append]; omega), hlater]
      exact sized_piece_append hsuf (by omega) h later

variable (crc o)

/-- The first piece of the stream: a byte that is no start byte, or what a start byte begins. -/
def nextPiece : Bytes → Option (List Datagram × Bytes)
  | [] => none
  | c :: t => if c ≠ kHeaderLowByte then some ([], t) else (front crc o t).piece

/-- The receiver that is given one byte at a time, as a decoder. -/
def receiver : Decoder UInt8 Datagram where
  next := nextPiece crc o
  length_lt := by
    intro input outputs rest h
    match input, h with
    | c :: t, h =>
      rw [nextPiece] at h
      split_ifs at h
      · simp only [Option.some.injEq, Prod.mk.injEq] at h
        rw [← h.2, List.length_cons]
        omega
      · have := (front_piece_append h).1
        rw [List.length_cons]
        omega
  next_append := by
    intro input outputs rest h later
    match input, h with
    | c :: t, h =>
      rw [nextPiece] at h
      rw [List.cons_append, nextPiece]
      split_ifs at h ⊢
      · simp only [Option.some.injEq, Prod.mk.injEq] at h
        rw [h.1, h.2]
      · exact (front_piece_append h).2 later

variable {crc o}

theorem receiver_next (c : UInt8) (t : Bytes) : (receiver crc o).next (c :: t)
    = if c ≠ kHeaderLowByte then some ([], t) else (front crc o t).piece := rfl

theorem receiver_next_front (crc : Bytes → UInt16) (o : Options) (t : Bytes) :
    (receiver crc o).next (kHeaderLowByte :: t) = (front crc o t).piece := by
  rw [receiver_next, if_neg (not_not.mpr rfl)]

/-- Noise stands for nothing. -/
theorem takes_noise (crc : Bytes → UInt16) (o : Options) {noise : Bytes}
    (h : kHeaderLowByte ∉ noise) (b : Bytes) :
    (receiver crc o).Takes (noise ++ b) [] b := by
  induction noise with
  | nil => exact .refl b
  | cons c noise ih =>
    rw [List.mem_cons, not_or] at h
    have hnext : (receiver crc o).next (c :: (noise ++ b)) = some ([], noise ++ b) := by
      rw [receiver_next, if_pos (Ne.symm h.1)]
    exact .head hnext (ih h.2)

/-! ### Scanning the buffer -/

/-- Nothing that matters is behind a header that is rejected: no start byte is wiped, no frame is
left to deliver. -/
def Front.Rescans (crc : Bytes → UInt16) (o : Options) : Front → Prop
  | .oversize behind => kHeaderLowByte ∉ behind
  | .mismatch behind => (receiver crc o).decode behind = []
  | _ => True

instance : DecidablePred (Front.Rescans crc o)
  | .incomplete => isTrue trivial
  | .falseStart => isTrue trivial
  | .oversize behind => inferInstanceAs (Decidable (kHeaderLowByte ∉ behind))
  | .mismatch behind => inferInstanceAs (Decidable ((receiver crc o).decode behind = []))
  | .frame _ _ => isTrue trivial

/-- So it is with the first start byte of the buffer. -/
def Rescans (crc : Bytes → UInt16) (o : Options) (b : Bytes) : Prop :=
  (front crc o (b.dropWhile (· ≠ kHeaderLowByte)).tail).Rescans crc o

instance (b : Bytes) : Decidable (Rescans crc o b) :=
  inferInstanceAs (Decidable (Front.Rescans crc o _))

theorem rescans_noise {noise t : Bytes} (hn : kHeaderLowByte ∉ noise) :
    Rescans crc o (noise ++ kHeaderLowByte :: t) ↔ (front crc o t).Rescans crc o := by
  have hdrop : (noise ++ kHeaderLowByte :: t).dropWhile (· ≠ kHeaderLowByte)
      = kHeaderLowByte :: t := by
    rw [List.dropWhile_append_of_pos, List.dropWhile_cons_of_neg (by simp)]
    intro a ha
    rw [decide_eq_true_iff]
    rintro rfl
    exact hn ha
  rw [Rescans, hdrop, List.tail_cons]

/-- The step calls `TryEmitOneFrame` on such a buffer. -/
def StepRescans (crc : Bytes → UInt16) (o : Options) (s : State) : Action → Prop
  | .asyncRead _ => Rescans crc o s.readBuffer
  | .readSome bytes => Rescans crc o (s.readBuffer ++ bytes)
  | .readError => True

instance (s : State) : DecidablePred (StepRescans crc o s)
  | .asyncRead _ => inferInstanceAs (Decidable (Rescans crc o _))
  | .readSome _ => inferInstanceAs (Decidable (Rescans crc o _))
  | .readError => isTrue trivial

/-- What a scan makes of the bytes in the buffer: it leaves some of them and waits, with nothing to
deliver in them, or it delivers a datagram. -/
inductive Scanned (crc : Bytes → UInt16) (o : Options) (s : State) : State → Prop
  /-- The bytes left are in the buffer and the stream is read, or nothing will ever be read. -/
  | waits {s' : State} {left : Bytes} (htakes : (receiver crc o).Takes s.readBuffer [] left)
      (hleft : (receiver crc o).decode left = []) (hread : s'.currentRead = s.currentRead)
      (hcallbacks : s'.callbacks = s.callbacks)
      (hbuffer : (s'.readBuffer = left ∧ s'.streamReads.length = 1) ∨ s'.streamReads = []) :
      Scanned crc o s s'
  | delivers {s' : State} {datagram : Datagram}
      (htakes : (receiver crc o).Takes s.readBuffer [datagram] s'.readBuffer)
      (hread : s'.currentRead = none)
      (hcallbacks : s'.callbacks = s.callbacks ++ [datagram.callback (s.currentRead.getD 0)])
      (hreads : s'.streamReads = []) : Scanned crc o s s'

theorem length_startReadFrame {s : State} (hr : s.streamReads = []) :
    (startReadFrame o s).streamReads.length = 1 := by
  rw [startReadFrame, hr]
  rfl

theorem emitOrRead_scanned {s : State} (hr : s.streamReads = [])
    (hG : Rescans crc o s.readBuffer) : Scanned crc o s (emitOrRead crc o s) := by
  unfold emitOrRead
  rcases noise_split s.readBuffer with hnone | ⟨noise, t, hb, hn⟩
  · rw [tryEmitOneFrame_of_not_mem hnone]
    have htakes := takes_noise crc o hnone []
    rw [List.append_nil] at htakes
    exact .waits htakes rfl rfl rfl (Or.inl ⟨rfl, length_startReadFrame hr⟩)
  rw [tryEmitOneFrame_noise hb hn, tryEmitOneFrame_front rfl]
  have hnoise := takes_noise crc o hn (kHeaderLowByte :: t)
  rw [← hb] at hnoise
  rw [hb, rescans_noise hn] at hG
  have hnext := receiver_next_front crc o t
  cases hfront : front crc o t with
  | incomplete =>
    rw [hfront] at hnext
    exact .waits hnoise (Decoder.decode_of_none hnext) rfl rfl
      (Or.inl ⟨rfl, length_startReadFrame hr⟩)
  | falseStart =>
    rw [hfront] at hnext
    -- true is returned without a callback, and no read of the stream is outstanding
    exact .waits hnoise (Decoder.decode_of_none hnext) rfl rfl (Or.inr hr)
  | oversize behind =>
    rw [hfront] at hnext hG
    -- wiping the bytes behind the size is dropping noise
    have hbehind := takes_noise crc o hG []
    rw [List.append_nil] at hbehind
    exact .waits (hnoise.trans ((Decoder.Takes.single hnext).trans hbehind)) rfl rfl rfl
      (Or.inl ⟨rfl, length_startReadFrame hr⟩)
  | mismatch behind =>
    rw [hfront] at hnext hG
    -- the bytes behind are not looked at, but there is nothing to deliver in them
    exact .waits (hnoise.trans (.single hnext)) hG rfl rfl
      (Or.inl ⟨rfl, length_startReadFrame hr⟩)
  | frame datagram behind =>
    rw [hfront] at hnext
    exact .delivers (hnoise.trans (.single hnext)) rfl rfl hr

/-! ### Runs -/

/-- The sizes of the buffers with which the client has called `AsyncRead`. -/
def requests (as : List Action) : List ℕ :=
  as.filterMap fun
    | .asyncRead dataSize => some dataSize
    | _ => none

theorem requests_append (as bs : List Action) : requests (as ++ bs) = requests as ++ requests bs :=
  List.filterMap_append

/-- The receiver has delivered the datagrams `emitted` into buffers of the sizes `answered`, and has
`left` of the bytes received. -/
structure Delivered (crc : Bytes → UInt16) (o : Options) (received : Bytes) (asked : List ℕ)
    (s : State) (emitted : List Datagram) (answered : List ℕ) (left : Bytes) : Prop where
  takes : (receiver crc o).Takes received emitted left
  asked_eq : asked = answered ++ s.currentRead.toList
  length_eq : answered.length = emitted.length
  callbacks_eq : s.callbacks = List.zipWith Datagram.callback answered emitted
  /-- While a read is pending, nothing is left to deliver. -/
  settled : s.currentRead.isSome → (receiver crc o).decode left = []
  /-- What is left is in the buffer, or the receiver has stalled. -/
  left_eq : (s.readBuffer = left ∧ ReadsMatch s) ∨ (s.currentRead.isSome ∧ s.streamReads = [])

/-- The account of the receiver, for the bytes received and the buffers asked for. -/
def Follows (crc : Bytes → UInt16) (o : Options) (received : Bytes) (asked : List ℕ) (s : State) :
    Prop :=
  ∃ emitted answered left, Delivered crc o received asked s emitted answered left

theorem follows_init : Follows crc o [] [] init :=
  ⟨[], [], [], .refl [], rfl, rfl, rfl, nofun, Or.inl ⟨rfl, readsMatch_init⟩⟩

theorem follows_emitOrRead {received : Bytes} {emitted : List Datagram} {answered : List ℕ}
    {s : State} {n : ℕ} (hn : s.currentRead = some n) (hr : s.streamReads = [])
    (htakes : (receiver crc o).Takes received emitted s.readBuffer)
    (hlen : answered.length = emitted.length)
    (hcallbacks : s.callbacks = List.zipWith Datagram.callback answered emitted)
    (hG : Rescans crc o s.readBuffer) :
    Follows crc o received (answered ++ [n]) (emitOrRead crc o s) := by
  have hscan : Scanned crc o s (emitOrRead crc o s) := emitOrRead_scanned hr hG
  generalize emitOrRead crc o s = s' at hscan
  cases hscan with
  | @waits left hscan hleft hread hback hbuffer =>
    have hsome : s'.currentRead = some n := hread.trans hn
    refine ⟨emitted, answered, left, ?_, by rw [hsome]; rfl, hlen, hback.trans hcallbacks,
      fun _ => hleft, ?_⟩
    · have := htakes.trans hscan
      rwa [List.append_nil] at this
    · refine hbuffer.imp (fun h => ⟨h.1, ?_⟩) fun h => ⟨by rw [hsome]; rfl, h⟩
      rw [ReadsMatch, hsome]
      exact h.2
  | @delivers datagram hscan hread hback hreads =>
    refine ⟨emitted ++ [datagram], answered ++ [n], s'.readBuffer, htakes.trans hscan,
      by rw [hread]; simp, by simp [hlen], ?_, fun h => ?_, Or.inl ⟨rfl, ?_⟩⟩
    · rw [hback, hcallbacks, hn, List.zipWith_append hlen]
      rfl
    · rw [hread] at h
      cases h
    · rw [ReadsMatch, hread, hreads]
      rfl

theorem follows_step {received : Bytes} {asked : List ℕ} {s s' : State} {a : Action}
    (h : Follows crc o received asked s) (ha : a ≠ .readError) (hG : StepRescans crc o s a)
    (hstep : step crc o s a = some s') :
    Follows crc o (received ++ supplied [a]) (asked ++ requests [a]) s' := by
  obtain ⟨emitted, answered, left, h⟩ := h
  obtain ⟨rfl, hmatch⟩ | ⟨hc, hr⟩ := h.left_eq
  swap
  · -- a receiver that has stalled takes no step
    cases a <;> simp [step, hc, hr] at hstep
  obtain ⟨n, rfl, hnone, hr, rfl⟩ | ⟨bytes, space, rfl, hc, hr, -, -, rfl⟩ | ⟨rfl, -⟩ :=
    step_cases hmatch hstep
  · have hasked := h.asked_eq
    rw [hnone, Option.toList_none, List.append_nil] at hasked
    rw [hasked, show supplied [.asyncRead n] = [] from rfl, List.append_nil]
    exact follows_emitOrRead (s := { s with currentRead := some n }) rfl hr h.takes h.length_eq
      h.callbacks_eq hG
  · obtain ⟨n, hn⟩ := Option.isSome_iff_exists.mp hc
    have hasked := h.asked_eq
    rw [hn, Option.toList_some] at hasked
    rw [hasked, show requests [.readSome bytes] = [] from rfl, List.append_nil,
      show supplied [.readSome bytes] = bytes by simp [supplied]]
    exact follows_emitOrRead
      (s := { s with streamReads := [], readBuffer := s.readBuffer ++ bytes }) hn rfl
      (h.takes.append bytes) h.length_eq h.callbacks_eq hG
  · exact absurd rfl ha

theorem follows_run {as : List Action} : ∀ {received : Bytes} {asked : List ℕ} {s t : State},
    .readError ∉ as → Run.Guarded (step crc o) (StepRescans crc o) s as →
    Follows crc o received asked s → Run.run (step crc o) s as = some t →
    Follows crc o (received ++ supplied as) (asked ++ requests as) t := by
  induction as with
  | nil =>
    intro received asked s t _ _ h hrun
    cases hrun
    simpa [supplied, requests] using h
  | cons a as ih =>
    intro received asked s t ha hG h hrun
    obtain ⟨s', h1, h2⟩ := (Run.run_cons_eq_some _).mp hrun
    rw [List.mem_cons, not_or] at ha
    have := ih ha.2 (hG.2 s' h1) (follows_step h (Ne.symm ha.1) hG.1 h1) h2
    rwa [List.append_assoc, List.append_assoc, ← supplied_append, ← requests_append,
      List.singleton_append] at this

/-- A run from a new object in which the stream never fails, to where the client waits for the next
datagram. -/
structure Waits (crc : Bytes → UInt16) (o : Options) (as : List Action) (s : State) : Prop where
  run : Run.run (step crc o) init as = some s
  noError : .readError ∉ as
  pending : s.currentRead.isSome

/-- What such a run has delivered is what the decoder makes of the stream. -/
theorem Waits.callbacks_eq {as : List Action} {s : State} (h : Waits crc o as s)
    (hG : Run.Guarded (step crc o) (StepRescans crc o) init as) :
    ∃ answered n, requests as = answered ++ [n] ∧
      answered.length = ((receiver crc o).decode (supplied as)).length ∧
      s.callbacks
        = List.zipWith Datagram.callback answered ((receiver crc o).decode (supplied as)) := by
  -- the next read is pending, so all that is left has nothing to deliver
  obtain ⟨emitted, answered, left, hdel⟩ := follows_run h.noError hG follows_init h.run
  obtain ⟨n, hn⟩ := Option.isSome_iff_exists.mp h.pending
  have hasked := hdel.asked_eq
  rw [hn, List.nil_append] at hasked
  have hemitted := hdel.takes.eq_decode (hdel.settled h.pending)
  rw [List.nil_append] at hemitted
  exact ⟨answered, n, hasked, hemitted ▸ hdel.length_eq, hemitted ▸ hdel.callbacks_eq⟩

/-- **When it does not matter where reads are cut**: two runs on the same stream deliver the same, if
neither scans a buffer with something behind a header that is rejected.  The client's buffers are of
the same sizes. -/
theorem callbacks_eq_of_guarded (crc : Bytes → UInt16) (o : Options) {as bs : List Action}
    {s t : State} (hs : Waits crc o as s) (ht : Waits crc o bs t)
    (hGs : Run.Guarded (step crc o) (StepRescans crc o) init as)
    (hGt : Run.Guarded (step crc o) (StepRescans crc o) init bs)
    (hsupplied : supplied as = supplied bs)
    (hsizes : requests as <+: requests bs ∨ requests bs <+: requests as) :
    s.callbacks = t.callbacks := by
  obtain ⟨xs, m, hxs, hlen, hcs⟩ := hs.callbacks_eq hGs
  obtain ⟨ys, n, hys, hlen', hct⟩ := ht.callbacks_eq hGt
  -- as many datagrams, so as many requests
  have hlens : (requests as).length = (requests bs).length := by
    rw [hxs, hys, List.length_append, List.length_append, hlen, hlen', hsupplied]
    rfl
  have hrequests : requests as = requests bs :=
    hsizes.elim (fun h => h.eq_of_length hlens) fun h => (h.eq_of_length hlens.symm).symm
  have hxy : xs = ys := (List.append_inj' (hxs.symm.trans (hrequests.trans hys)) rfl).1
  rw [hcs, hct, hxy, hsupplied]

/-- A frame behind a noise byte, in one piece or in two. -/
theorem callbacks_eq_of_guarded_noise : ∃ s t,
    Waits (fun _ => 0) {} [.asyncRead 4,
      .readSome [0x01, 0x54, 0xab, 0x01, 0x02, 0x00, 0x00, 0x00], .asyncRead 4] s ∧
    Waits (fun _ => 0) {} [.asyncRead 4, .readSome [0x01, 0x54],
      .readSome [0xab, 0x01, 0x02, 0x00, 0x00, 0x00], .asyncRead 4] t ∧
    s.callbacks = t.callbacks :=
  have hs : Waits (fun _ => 0) {} [.asyncRead 4,
      .readSome [0x01, 0x54, 0xab, 0x01, 0x02, 0x00, 0x00, 0x00], .asyncRead 4]
      ⟨[], some 4, [256], [.datagram ⟨1, 2, 0⟩ [] false], 0⟩ := ⟨rfl, by decide, rfl⟩
  have ht : Waits (fun _ => 0) {} [.asyncRead 4, .readSome [0x01, 0x54],
      .readSome [0xab, 0x01, 0x02, 0x00, 0x00, 0x00], .asyncRead 4]
      ⟨[], some 4, [256], [.datagram ⟨1, 2, 0⟩ [] false], 0⟩ := ⟨rfl, by decide, rfl⟩
  ⟨_, _, hs, ht, callbacks_eq_of_guarded (fun _ => 0) {} hs ht (by decide) (by decide) rfl
    (by decide)⟩

/-- A good frame behind the same frame with a wrong checksum: read together with it, it stays in the
buffer; read by itself, it is delivered. -/
theorem not_callbacks_eq : ¬ ∀ (crc : Bytes → UInt16) (o : Options) (as bs : List Action)
    (s t : State), Waits crc o as s → Waits crc o bs t → supplied as = supplied bs →
    (requests as <+: requests bs ∨ requests bs <+: requests as) →
    s.callbacks = t.callbacks := by
  intro h
  have htogether : Waits (fun _ => 0x2803) {} [.asyncRead 4,
      .readSome ([0x54, 0xab, 0x01, 0x02, 0x00, 0xff, 0xff]
        ++ [0x54, 0xab, 0x01, 0x02, 0x00, 0x03, 0x28])]
      ⟨[0x01, 0x02, 0x00, 0xff, 0xff, 0x54, 0xab, 0x01, 0x02, 0x00, 0x03, 0x28], some 4, [244], [],
        1⟩ := ⟨by decide, by decide, rfl⟩
  have happart : Waits (fun _ => 0x2803) {} [.asyncRead 4,
      .readSome [0x54, 0xab, 0x01, 0x02, 0x00, 0xff, 0xff],
      .readSome [0x54, 0xab, 0x01, 0x02, 0x00, 0x03, 0x28], .asyncRead 4]
      ⟨[], some 4, [256], [.datagram ⟨1, 2, 0⟩ [] false], 1⟩ := ⟨by decide, by decide, rfl⟩
  exact absurd (h _ _ _ _ _ _ htogether happart rfl (by decide)) (by decide)

end Mjlib.Multiplex.MicroStreamDatagram
