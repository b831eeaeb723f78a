import Mjlib.Multiplex.Equiv.MicroServer.Lockstep

/-!
# How far a response reaches

The response is written without a check of the room that is left.  `replyPeak` is how far behind the
position at a head of the loop the answer to the next subframe reaches, from the answers of the
server and what the tunnels have to send; `response_processSubframe` says that one pass writes as far
as that.  `highWater_le_iff`: every byte of the response goes into the buffer exactly when, at every
head, what is there already and the peak of the next answer fit it.
-/

namespace Mjlib.Multiplex.MicroServer

open Base (BufferWriteStream)

variable {σ τ : Type*} (env : Env σ τ)

/-! ### The size of an answer -/

/-- The size of a write-error or read-error entry. -/
def errorSize (reg : Register) (error : UInt32) : ℕ := 1 + getVaruintSize reg + getVaruintSize error

/-- The size of the errors that a write to `n` registers is answered with. -/
def writeReplySize (type : ℕ) : ℕ → Register → Bytes → σ → ℕ
  | 0, _, _, _ => 0
  | n + 1, reg, str, server =>
    match readValue type str with
    | (none, _) => 0
    | (some value, str) =>
      match env.server.write server reg value with
      | (server, .success) => writeReplySize type n (reg + 1) str server
      | (server, .unknownRegister) => errorSize reg 1 + writeReplySize type n (reg + 1) str server
      | (server, .notWriteable) => errorSize reg 2 + writeReplySize type n (reg + 1) str server
      | (_, .discardRemaining) => 0

/-- The largest size of the reply to a read while `n` registers are added to `size` bytes: an error
takes the place of the whole reply. -/
def readReplyPeak (type : ℕ) (server : σ) : ℕ → Register → ℕ → ℕ
  | 0, _, size => size
  | n + 1, reg, size =>
    match env.server.read server reg type with
    | .value value => readReplyPeak type server n (reg + 1) (size + value.bytes.length)
    | .error error => max size (errorSize reg error)

/-- The size of the head of the reply to a read. -/
def readHeadSize (typeLength : ℕ) (count : UInt32) (start : Register) : ℕ :=
  1 + (if typeLength % 4 = 0 then getVaruintSize count else 0) + getVaruintSize start

/-- The size of a tunnel's response. -/
def tunnelReplySize (channel : UInt32) (maxBytes : Option UInt32) (i : ℕ) (s : State σ τ) : ℕ :=
  let size := toCopy env maxBytes i
    ((s.respondVaruint (UInt32.ofNat Subframe.kServerToClient)).respondVaruint channel)
  1 + getVaruintSize channel + getVaruintSize (UInt32.ofNat (size % 2 ^ 32).toNat) + size.toNat

/-- The state in which a client-to-server subframe is answered. -/
def received (bytes : UInt32) (i : ℕ) (str : Bytes) (s : State σ τ) : State σ τ :=
  let s :=
    if bytes.toNat > (s.tunnel i).remainingSpace then
      { s with stats.receiveOverrun := s.stats.receiveOverrun + 1 }
    else s.modifyTunnel i (·.receive (str.take bytes.toNat))
  { (doReadTransfer env i s).2 with anythingToDo := true }

/-- The size of the answer to a tunnel subframe, of which the type has been read. -/
def tunnelPeak (poll : Bool) (str : Bytes) (s : State σ τ) : ℕ :=
  let (maybeChannel, str) := BufferReadStream.readVaruint str
  let (maybeBytes, str) := BufferReadStream.readVaruint str
  match maybeChannel, maybeBytes with
  | some channel, some bytes =>
    match findTunnel channel s with
    | none => 0
    | some i =>
      if poll then tunnelReplySize env channel (some bytes) i s
      else if str.length < bytes.toNat then 0
      else tunnelReplySize env channel none i (received env bytes i str s)
  | _, _ => 0

/-- How far the answer to a register subframe reaches, of which the type has been read. -/
def registerPeak (write : Bool) (typeLength : ℕ) (str : Bytes) (s : State σ τ) : ℕ :=
  match readNumRegisters typeLength str with
  | (none, _) => 0
  | (some count, str) =>
    match BufferReadStream.readVaruint str with
    | (none, _) => 0
    | (some start, str) =>
      if write then writeReplySize env (typeLength / 4) count.toNat start str s.server
      else readReplyPeak env (typeLength / 4) s.server count.toNat start
        (readHeadSize typeLength count start)

/-- How far the answer to the next subframe reaches. -/
def replyPeak (str : Bytes) (s : State σ τ) : ℕ :=
  match BufferReadStream.readVaruint str with
  | (none, _) => 0
  | (some subframeType, str) =>
    let type := subframeType.toNat
    if type = Subframe.kClientToServer then tunnelPeak env false str s
    else if type = Subframe.kClientPollServer then tunnelPeak env true str s
    else if type < Subframe.kWriteBase + 16 then
      registerPeak env true (type - Subframe.kWriteBase) str s
    else if type ≥ Subframe.kReadBase ∧ type < Subframe.kReadBase + 16 then
      registerPeak env false (type - Subframe.kReadBase) str s
    else 0

/-! ### What is written since a position -/

/-- Since the stream was `w`, the response has grown by `size` bytes, and reached `peak` bytes behind
the position of `w`. -/
def Grew (w : BufferWriteStream) (size peak : ℕ) (s : State σ τ) : Prop :=
  ∃ w', s.response = some w' ∧ w.offset + size = w'.offset ∧
    w'.highWater = max w.highWater (w.offset + peak) ∧ size ≤ peak

variable {w : BufferWriteStream} {s : State σ τ} {size peak : ℕ}

theorem Grew.refl (h : s.response = some w) (hw : w.offset ≤ w.highWater) : Grew w 0 0 s :=
  ⟨w, h, rfl, (max_eq_left hw).symm, le_rfl⟩

theorem Grew.congr {s' : State σ τ} (h : Grew w size peak s) (hs : s'.response = s.response) :
    Grew w size peak s' := by
  rwa [Grew, hs]

theorem Grew.respond (h : Grew w size peak s) (bytes : Bytes) :
    Grew w (size + bytes.length) (max peak (size + bytes.length)) (s.respond bytes) := by
  obtain ⟨w', hs, hoff, hhigh, hle⟩ := h
  have hdata : w'.data.length = w.offset + size := hoff.symm
  refine ⟨w'.put bytes, by rw [State.respond, hs]; rfl, ?_, ?_, le_max_right _ _⟩
  · change w.offset + (size + bytes.length) = (w'.data ++ bytes).length
    rw [List.length_append]
    omega
  · change max w'.highWater (w'.data.length + bytes.length) = _
    omega

/-- Bytes behind the peak move it. -/
theorem Grew.append (h : Grew w size size s) {bytes : Bytes} {n : ℕ} (hn : bytes.length = n) :
    Grew w (size + n) (size + n) (s.respond bytes) := by
  have h' := h.respond bytes
  rwa [max_eq_right (by omega), hn] at h'

theorem Grew.varuint (h : Grew w size size s) (v : UInt32) :
    Grew w (size + getVaruintSize v) (size + getVaruintSize v) (s.respondVaruint v) :=
  h.append (getVaruintSize_eq v).symm

/-- The stream is set back to where it was. -/
theorem Grew.reset (h : Grew w size peak s) : Grew w 0 peak (s.resetResponse w.offset) := by
  obtain ⟨w', hs, hoff, hhigh, hle⟩ := h
  refine ⟨w'.reset w.offset, by rw [State.resetResponse, hs]; rfl, ?_, hhigh, Nat.zero_le _⟩
  rw [BufferWriteStream.offset] at hoff
  simp only [BufferWriteStream.offset, BufferWriteStream.reset, List.length_take] at hoff ⊢
  omega

/-! ### Registers -/

theorem getVaruintSize_of_lt {v : UInt32} (h : v.toNat < 128) : getVaruintSize v = 1 := by
  rw [getVaruintSize_eq, writeVaruint_of_lt h, List.length_singleton]

theorem grew_emitWriteError (h : Grew w size size s) (reg : Register) (error : UInt32) :
    Grew w (size + errorSize reg error) (size + errorSize reg error)
      (emitWriteError reg error s) := by
  have h' := ((h.varuint (UInt32.ofNat Subframe.kWriteError)).varuint reg).varuint error
  rw [getVaruintSize_of_lt (by decide)] at h'
  rwa [errorSize, ← add_assoc, ← add_assoc]

theorem grew_writeRegisters (type : ℕ) {n : ℕ} : ∀ {size : ℕ} {s : State σ τ} (reg : Register)
    (str : Bytes), Grew w size size s →
    Grew w (size + writeReplySize env type n reg str s.server)
      (size + writeReplySize env type n reg str s.server)
      (writeRegisters env type n reg str s).2.2 := by
  induction n with
  | zero => intro size s reg str h; exact h
  | succ n ih =>
    intro size s reg str h
    rw [writeRegisters, writeReplySize]
    rcases readValue type str with ⟨_ | value, str'⟩
    · exact h
    dsimp only
    rw [serverWrite]
    rcases env.server.write s.server reg value with ⟨server, _ | _ | _ | _⟩
    · exact ih (reg + 1) str' (h.congr rfl)
    · rw [← add_assoc]
      exact ih (reg + 1) str' (grew_emitWriteError (h.congr rfl) reg 1)
    · rw [← add_assoc]
      exact ih (reg + 1) str' (grew_emitWriteError (h.congr rfl) reg 2)
    · exact h.congr rfl

theorem grew_emitReadError (h : Grew w 0 peak s) (reg : Register) (error : UInt32) :
    Grew w (errorSize reg error) (max peak (errorSize reg error)) (emitReadError reg error s) := by
  have h' := ((h.respond (writeVaruint (UInt32.ofNat Subframe.kReadError))).respond
    (writeVaruint reg)).respond (writeVaruint error)
  simp only [← getVaruintSize_eq] at h'
  rw [getVaruintSize_of_lt (by decide), Nat.zero_add] at h'
  have hpeak : max peak (errorSize reg error) = max (max (max peak 1)
      (1 + getVaruintSize reg)) (1 + getVaruintSize reg + getVaruintSize error) := by
    rw [errorSize]
    omega
  rw [hpeak]
  exact h'

theorem grew_readRegisters (type : ℕ) {n : ℕ} : ∀ {size : ℕ} {s : State σ τ} (reg : Register),
    Grew w size size s → ∃ size', Grew w size' (readReplyPeak env type s.server n reg size)
      (readRegisters env type w.offset n reg s).2 := by
  induction n with
  | zero => intro size s reg h; exact ⟨size, h⟩
  | succ n ih =>
    intro size s reg h
    rw [readRegisters, readReplyPeak, serverRead]
    rcases env.server.read s.server reg type with value | error
    · exact ih (reg + 1) ((h.congr rfl).append rfl)
    · exact ⟨_, grew_emitReadError (h.congr rfl).reset reg error⟩

theorem grew_processSubframeWrite (h : s.response = some w) (hw : w.offset ≤ w.highWater)
    (typeLength : ℕ) (str : Bytes) :
    ∃ size, Grew w size (registerPeak env true typeLength str s)
      (processSubframeWrite env typeLength str s).2.2 := by
  rw [processSubframeWrite, registerPeak]
  rcases readNumRegisters typeLength str with ⟨_ | count, str1⟩
  · exact ⟨0, .refl h hw⟩
  dsimp only
  rcases BufferReadStream.readVaruint str1 with ⟨_ | start, str2⟩
  · exact ⟨0, .refl h hw⟩
  · have h' := grew_writeRegisters env (typeLength / 4) (n := count.toNat) start str2
      (.refl h hw)
    rw [Nat.zero_add] at h'
    exact ⟨_, h'⟩

theorem grew_processSubframeRead (h : s.response = some w) (hw : w.offset ≤ w.highWater)
    {typeLength : ℕ} (hlt : typeLength < 16) (str : Bytes) :
    ∃ size, Grew w size (registerPeak env false typeLength str s)
      (processSubframeRead env typeLength str s).2.2 := by
  have hpos : s.responsePosition = w.offset := by rw [State.responsePosition, h]; rfl
  have hid : getVaruintSize (UInt32.ofNat
      (Subframe.kReplyBase ||| (typeLength / 4 * 4) ||| (typeLength % 4))) = 1 := by
    have hall : ∀ n : Fin 16, (UInt32.ofNat
        (Subframe.kReplyBase ||| (n.val / 4 * 4) ||| (n.val % 4))).toNat < 128 := by decide
    exact getVaruintSize_of_lt (hall ⟨typeLength, hlt⟩)
  rw [processSubframeRead, registerPeak, h, if_neg (by simp)]
  rcases readNumRegisters typeLength str with ⟨_ | count, str1⟩
  · exact ⟨0, .refl h hw⟩
  dsimp only
  rcases BufferReadStream.readVaruint str1 with ⟨_ | start, str2⟩
  · exact ⟨0, .refl h hw⟩
  · dsimp only
    rw [if_neg (by decide), hpos, readHeadSize]
    have h' := (Grew.refl h hw).varuint (UInt32.ofNat
      (Subframe.kReplyBase ||| (typeLength / 4 * 4) ||| (typeLength % 4)))
    rw [hid, Nat.zero_add] at h'
    split_ifs with h0
    · exact grew_readRegisters env (typeLength / 4) start ((h'.varuint count).varuint start)
    · exact grew_readRegisters env (typeLength / 4) start (h'.varuint start)

/-! ### Tunnels -/

theorem grew_tunnelResponse (h : s.response = some w) (hw : w.offset ≤ w.highWater)
    (channel : UInt32) (maxBytes : Option UInt32) (i : ℕ) :
    ∃ size, Grew w size (tunnelReplySize env channel maxBytes i s)
      (tunnelResponse env channel maxBytes i s) := by
  rw [tunnelResponse, h, if_neg (by simp), tunnelReplySize]
  have h1 := ((Grew.refl h hw).varuint (UInt32.ofNat Subframe.kServerToClient)).varuint channel
  rw [getVaruintSize_of_lt (by decide), Nat.zero_add] at h1
  dsimp only
  generalize ((s.respondVaruint (UInt32.ofNat Subframe.kServerToClient)).respondVaruint channel)
    = s1 at h1 ⊢
  have h2 := h1.varuint (UInt32.ofNat (toCopy env maxBytes i s1 % 2 ^ 32).toNat)
  split_ifs with hpos
  · -- `to_copy` is at most the size of the tunnel's write buffer
    have hlen : (((s1.respondVaruint (UInt32.ofNat (toCopy env maxBytes i s1 % 2 ^ 32).toNat)).tunnel
        i).writeBuffer.take (toCopy env maxBytes i s1).toNat).length
        = (toCopy env maxBytes i s1).toNat := by
      have hle : toCopy env maxBytes i s1 ≤ ((s1.tunnel i).writeBuffer.length : ℤ) := by
        unfold toCopy
        cases maxBytes <;> dsimp only <;> omega
      rw [List.length_take]
      change min _ (s1.tunnel i).writeBuffer.length = _
      omega
    exact ⟨_, (h2.append hlen).congr (response_callback _ _)⟩
  · have hzero : (toCopy env maxBytes i s1).toNat = 0 := Int.toNat_of_nonpos (by omega)
    rw [hzero]
    exact ⟨_, h2⟩

theorem grew_processSubframeClientPollServer (h : s.response = some w)
    (hw : w.offset ≤ w.highWater) (str : Bytes) :
    ∃ size, Grew w size (tunnelPeak env true str s)
      (processSubframeClientPollServer env str s).2.2 := by
  rw [processSubframeClientPollServer, tunnelPeak]
  rcases BufferReadStream.readVaruint str with ⟨maybeChannel, str1⟩
  dsimp only
  rcases BufferReadStream.readVaruint str1 with ⟨maybeMaxBytes, str2⟩
  rcases maybeChannel with _ | channel <;> rcases maybeMaxBytes with _ | maxBytes
  · exact ⟨0, .refl h hw⟩
  · exact ⟨0, .refl h hw⟩
  · exact ⟨0, .refl h hw⟩
  dsimp only
  cases findTunnel channel s with
  | none => exact ⟨0, .refl h hw⟩
  | some i => exact grew_tunnelResponse env h hw channel (some maxBytes) i

theorem grew_processSubframeClientToServer (h : s.response = some w)
    (hw : w.offset ≤ w.highWater) (str : Bytes) :
    ∃ size, Grew w size (tunnelPeak env false str s)
      (processSubframeClientToServer env str s).2.2 := by
  rw [processSubframeClientToServer, tunnelPeak]
  rcases BufferReadStream.readVaruint str with ⟨maybeChannel, str1⟩
  dsimp only
  rcases BufferReadStream.readVaruint str1 with ⟨maybeBytes, str2⟩
  rcases maybeChannel with _ | channel <;> rcases maybeBytes with _ | bytes
  · exact ⟨0, .refl h hw⟩
  · exact ⟨0, .refl h hw⟩
  · exact ⟨0, .refl h hw⟩
  dsimp only
  by_cases hlen : str2.length < bytes.toNat
  · rw [if_pos hlen]
    cases findTunnel channel s with
    | none => exact ⟨0, .refl h hw⟩
    | some i =>
      dsimp only
      rw [if_neg (by decide), if_pos hlen]
      exact ⟨0, .refl h hw⟩
  rw [if_neg hlen]
  cases findTunnel channel s with
  | none => exact ⟨0, .refl h hw⟩
  | some i =>
    have hresp : (received env bytes i str2 s).response = s.response := by
      rw [received]
      dsimp only
      rw [response_doReadTransfer]
      split_ifs <;> rfl
    have h' := grew_tunnelResponse env (hresp.trans h) hw channel none i
    dsimp only
    rw [if_neg (by decide), if_neg hlen]
    rw [received] at h' ⊢
    split_ifs at h' ⊢ <;> exact h'

/-! ### One pass, and the loop -/

/-- **One pass** reaches as far as the peak of its answer. -/
theorem grew_processSubframe (h : s.response = some w) (hw : w.offset ≤ w.highWater)
    (str : Bytes) :
    ∃ size, Grew w size (replyPeak env str s) (processSubframe env str s).2.2 := by
  rw [processSubframe, replyPeak]
  rcases BufferReadStream.readVaruint str with ⟨_ | subframeType, str1⟩
  · exact ⟨0, .refl h hw⟩
  dsimp only
  have hwrite : (subframeType.toNat ≥ Subframe.kWriteBase ∧
      subframeType.toNat < Subframe.kWriteBase + 16) ↔
      subframeType.toNat < Subframe.kWriteBase + 16 := and_iff_right (Nat.zero_le _)
  rw [if_congr hwrite rfl rfl]
  by_cases h1 : subframeType.toNat = Subframe.kClientToServer
  · rw [if_pos h1, if_pos h1]
    have hr := grew_processSubframeClientToServer env h hw str1
    generalize processSubframeClientToServer env str1 s = r at hr ⊢
    obtain ⟨_ | _, str', s'⟩ := r <;> exact hr
  rw [if_neg h1, if_neg h1]
  by_cases h2 : subframeType.toNat = Subframe.kClientPollServer
  · rw [if_pos h2, if_pos h2]
    have hr := grew_processSubframeClientPollServer env h hw str1
    generalize processSubframeClientPollServer env str1 s = r at hr ⊢
    obtain ⟨_ | _, str', s'⟩ := r <;> exact hr
  rw [if_neg h2, if_neg h2]
  by_cases h3 : subframeType.toNat = Subframe.kNop
  · rw [if_pos h3, if_neg (by rw [h3]; decide), if_neg (by rw [h3]; decide)]
    exact ⟨0, .refl h hw⟩
  rw [if_neg h3]
  by_cases h4 : subframeType.toNat < Subframe.kWriteBase + 16
  · rw [if_pos h4, if_pos h4]
    have hr := grew_processSubframeWrite env h hw
      (subframeType.toNat - Subframe.kWriteBase) str1
    generalize processSubframeWrite env (subframeType.toNat - Subframe.kWriteBase) str1 s = r
      at hr ⊢
    obtain ⟨_ | _ | _, str', s'⟩ := r <;> exact hr
  rw [if_neg h4, if_neg h4]
  by_cases h5 : subframeType.toNat ≥ Subframe.kReadBase ∧
      subframeType.toNat < Subframe.kReadBase + 16
  · rw [if_pos h5, if_pos h5]
    have hr := grew_processSubframeRead env h hw
      (show subframeType.toNat - Subframe.kReadBase < 16 by omega) str1
    generalize processSubframeRead env (subframeType.toNat - Subframe.kReadBase) str1 s = r
      at hr ⊢
    obtain ⟨_ | _, str', s'⟩ := r <;> exact hr
  · rw [if_neg h5, if_neg h5]
    exact ⟨0, .refl h hw⟩

/-- The highest position in the response's buffer so far. -/
def State.highWater (s : State σ τ) : ℕ := (s.response.map (·.highWater)).getD 0

/-- The answer to the next subframe fits a buffer of the given size. -/
def AnswerFits (env : Env σ τ) (bufferSize : ℕ) (str : Bytes) (s : State σ τ) : Prop :=
  s.responsePosition + replyPeak env str s ≤ bufferSize

theorem highWater_processSubframes_le_iff {bufferSize : ℕ} (str : Bytes) (s : State σ τ) :
    ∀ w : BufferWriteStream, s.response = some w → w.offset ≤ w.highWater →
    ((processSubframes env str s).highWater ≤ bufferSize ↔
      w.highWater ≤ bufferSize ∧ AtHeads env (AnswerFits env bufferSize) str s) := by
  induction str, s using loop_induction env with
  | nil s =>
    intro w h hw
    rw [processSubframes_nil, State.highWater, h]
    simp
  | next str s str' s' hne hp ih =>
    intro w h hw
    have hpos : s.responsePosition = w.offset := by rw [State.responsePosition, h]; rfl
    obtain ⟨size, w', hs', hoff, hhigh, hle⟩ := grew_processSubframe env h hw str
    rw [hp] at hs'
    rw [processSubframes_of_next hne hp, atHeads_of_next hne hp,
      ih w' hs' (by omega), AnswerFits, hpos, hhigh, max_le_iff, and_assoc]
  | return' str s str' s' hne hp =>
    intro w h hw
    have hpos : s.responsePosition = w.offset := by rw [State.responsePosition, h]; rfl
    obtain ⟨size, w', hs', hoff, hhigh, hle⟩ := grew_processSubframe env h hw str
    rw [hp] at hs'
    dsimp only at hs'
    rw [processSubframes_of_return hne hp, atHeads_of_return hne hp, AnswerFits, hpos,
      State.highWater, hs']
    simp only [Option.map_some, Option.getD_some, hhigh, max_le_iff]

/-- **The response stays in its buffer** exactly when, at every head of the loop that is reached, what
is there already and the answer to the next subframe fit it. -/
theorem highWater_le_iff (env : Env σ τ) (bufferSize : ℕ) (subframes : Bytes) (s : State σ τ) :
    (processSubframes env subframes { s with response := some (.new bufferSize) }).highWater
        ≤ bufferSize ↔
      AtHeads env (AnswerFits env bufferSize) subframes
        { s with response := some (.new bufferSize) } := by
  rw [highWater_processSubframes_le_iff env subframes _ (.new bufferSize) rfl le_rfl]
  exact and_iff_right (Nat.zero_le _)

set_option maxRecDepth 4000 in
/-- A read of 70 `int32` registers is answered with 283 bytes in a buffer of 256. -/
theorem not_highWater_le : ¬ ∀ (env : Env Unit Unit) (bufferSize : ℕ) (subframes : Bytes)
    (s : State Unit Unit), (processSubframes env subframes
      { s with response := some (.new bufferSize) }).highWater ≤ bufferSize := by
  intro h
  have := h plainEnv 256 [0x18, 70, 0x00] { server := (), client := (), tunnels := [] }
  exact absurd this (by decide)

end Mjlib.Multiplex.MicroServer
