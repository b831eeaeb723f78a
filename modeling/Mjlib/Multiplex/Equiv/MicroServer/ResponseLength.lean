import Mjlib.Multiplex.Equiv.MicroServer.RegisterRpc
import Mjlib.Multiplex.Equiv.MicroServer.TunnelData
import Mjlib.Multiplex.Equiv.MicroServer.TunnelWrites

/-!
# Is the length of a tunnel's response the number of bytes that follow?

The number of bytes is the least of what is pending, what the client takes, and what the datagram and
the response have room for, less a reserve.  The last two can be negative.  No byte is copied then, and
the number is written as a varuint of 32 bits, some four billion.

`replyLength_iff`: in a frame, every tunnel's response has its true length if and only if at each of
them the datagram and the response have room for the reserve.  (A response that has run four gigabytes
over the end of its buffer is at zero again.)
-/

namespace Mjlib.Multiplex.MicroServer

open Base (BufferWriteStream)

variable {σ τ : Type*} {env : Env σ τ}

/-! ### The response of a pass -/

/-- A tunnel's response: the channel and the client's limit, if it gives one, the tunnel, and the state
in which the response is made. -/
structure TunnelReply (σ τ : Type*) where
  channel : UInt32
  maxBytes : Option UInt32
  tunnel : ℕ
  state : State σ τ

variable (env) in
/-- The response to a tunnel subframe, of which the type has been read. -/
def tunnelReplyOf (poll : Bool) (str : Bytes) (s : State σ τ) : Option (TunnelReply σ τ) :=
  let (maybeChannel, str) := BufferReadStream.readVaruint str
  let (maybeBytes, str) := BufferReadStream.readVaruint str
  match maybeChannel, maybeBytes with
  | some channel, some bytes =>
    match findTunnel channel s with
    | none => none
    | some i =>
      if poll then some ⟨channel, some bytes, i, s⟩
      else if str.length < bytes.toNat then none
      else some ⟨channel, none, i, received env bytes i str s⟩
  | _, _ => none

variable (env) in
/-- The tunnel's response that the next pass makes, if it makes one. -/
def tunnelReply (str : Bytes) (s : State σ τ) : Option (TunnelReply σ τ) :=
  if s.response.isNone then none
  else match BufferReadStream.readVaruint str with
    | (none, _) => none
    | (some subframeType, str) =>
      if subframeType.toNat = Subframe.kClientToServer then tunnelReplyOf env false str s
      else if subframeType.toNat = Subframe.kClientPollServer then tunnelReplyOf env true str s
      else none

/-- What a pass does that makes a tunnel's response. -/
theorem processSubframe_of_tunnelReply {str : Bytes} {s : State σ τ} {r : TunnelReply σ τ}
    (h : tunnelReply env str s = some r) :
    (processSubframe env str s).2.2
        = tunnelResponse env r.channel r.maxBytes r.tunnel r.state ∧
      r.state.response = s.response ∧ ∃ w, s.response = some w := by
  rw [tunnelReply] at h
  split_ifs at h with hresp
  have hw : ∃ w, s.response = some w := by
    rwa [← Option.isSome_iff_exists, Option.isSome_iff_ne_none, ← Option.isNone_iff_eq_none.ne]
  rcases htype : BufferReadStream.readVaruint str with ⟨_ | subframeType, str₁⟩
  · simp [htype] at h
  rw [htype] at h
  dsimp only at h
  split_ifs at h with h1 h2
  · rw [processSubframe_of_clientToServer env htype h1, processSubframeClientToServer]
    rw [tunnelReplyOf] at h
    generalize BufferReadStream.readVaruint str₁ = r₁ at h ⊢
    obtain ⟨maybeChannel, str₂⟩ := r₁
    dsimp only at h ⊢
    generalize BufferReadStream.readVaruint str₂ = r₂ at h ⊢
    obtain ⟨maybeBytes, str₃⟩ := r₂
    rcases maybeChannel with _ | channel <;> rcases maybeBytes with _ | bytes
    · cases h
    · cases h
    · cases h
    dsimp only at h ⊢
    cases hi : findTunnel channel s with
    | none => simp [hi] at h
    | some i =>
      simp only [hi, Bool.false_eq_true, ↓reduceIte] at h
      split_ifs at h with hlen
      obtain rfl := Option.some.inj h
      rw [if_neg hlen]
      refine ⟨?_, response_received env bytes i str₃ s, hw⟩
      dsimp only [received]
      split_ifs <;> rfl
  · rw [processSubframe_of_clientPollServer env htype h2, processSubframeClientPollServer]
    rw [tunnelReplyOf] at h
    generalize BufferReadStream.readVaruint str₁ = r₁ at h ⊢
    obtain ⟨maybeChannel, str₂⟩ := r₁
    dsimp only at h ⊢
    generalize BufferReadStream.readVaruint str₂ = r₂ at h ⊢
    obtain ⟨maybeBytes, str₃⟩ := r₂
    rcases maybeChannel with _ | channel <;> rcases maybeBytes with _ | bytes
    · cases h
    · cases h
    · cases h
    dsimp only at h ⊢
    cases hi : findTunnel channel s with
    | none => simp [hi] at h
    | some i =>
      simp only [hi, ↓reduceIte, Option.some.injEq] at h
      obtain rfl := h
      exact ⟨rfl, rfl, hw⟩

/-! ### The number of bytes -/

variable (env) in
/-- The room of the datagram and of the response, behind the subframe's type and channel, less the
reserve. -/
def room (channel : UInt32) (s : State σ τ) : ℤ :=
  min env.maxSize ((s.response.map (·.remaining)).getD 0 - (1 + getVaruintSize channel))
    - kNeededOverhead

/-- The state in which the number of bytes is computed. -/
def headed (channel : UInt32) (s : State σ τ) : State σ τ :=
  (s.respondVaruint (UInt32.ofNat Subframe.kServerToClient)).respondVaruint channel

theorem remaining_headed {s : State σ τ} {w : BufferWriteStream} (h : s.response = some w)
    (channel : UInt32) :
    (((headed channel s).response.map (·.remaining)).getD 0)
      = w.remaining - (1 + getVaruintSize channel) := by
  have hone : (writeVaruint (UInt32.ofNat Subframe.kServerToClient)).length = 1 := by decide
  rw [headed, State.respondVaruint, State.respondVaruint, State.respond, State.respond, h,
    getVaruintSize_eq]
  simp only [Option.map_some, Option.getD_some, BufferWriteStream.remaining,
    BufferWriteStream.offset, BufferWriteStream.put, List.length_append, hone]
  omega

variable (env) in
/-- Without the room, the number of bytes is what the room falls short by; with it, the number is
within all limits. -/
theorem toCopy_headed (channel : UInt32) (maxBytes : Option UInt32) (i : ℕ) {s : State σ τ}
    {w : BufferWriteStream} (h : s.response = some w) :
    let n := toCopy env maxBytes i (headed channel s)
    (room env channel s < 0 → n = room env channel s) ∧
    (0 ≤ room env channel s → 0 ≤ n) ∧ n ≤ env.maxSize - kNeededOverhead ∧
    n ≤ ((s.tunnel i).writeBuffer.length : ℤ) ∧ ∀ m, maxBytes = some m → n ≤ m.toNat := by
  intro n
  have hremaining := remaining_headed h channel
  have htunnel : (headed channel s).tunnel i = s.tunnel i := rfl
  have hroom : room env channel s
      = min env.maxSize (w.remaining - (1 + getVaruintSize channel)) - kNeededOverhead := by
    rw [room, h]
    rfl
  rw [hroom]
  cases maxBytes with
  | none =>
    have hn : n = min (env.maxSize - kNeededOverhead) (min ((s.tunnel i).writeBuffer.length : ℤ)
        (w.remaining - (1 + getVaruintSize channel) - kNeededOverhead)) := by
      simp only [n, toCopy, hremaining, htunnel]
    refine ⟨?_, ?_, ?_, ?_, fun m hm => nomatch hm⟩ <;> omega
  | some maxBytes =>
    have hn : n = min (env.maxSize - kNeededOverhead) (min (maxBytes.toNat : ℤ)
        (min ((s.tunnel i).writeBuffer.length : ℤ)
          (w.remaining - (1 + getVaruintSize channel) - kNeededOverhead))) := by
      simp only [n, toCopy, hremaining, htunnel]
    refine ⟨?_, ?_, ?_, ?_, fun m hm => ?_⟩
    · omega
    · omega
    · omega
    · omega
    · rw [← Option.some.inj hm]
      omega

/-- The bytes of a tunnel's response. -/
theorem reply_tunnelResponse (channel : UInt32) (maxBytes : Option UInt32) (i : ℕ) {s : State σ τ}
    {w : BufferWriteStream} (h : s.response = some w) :
    (tunnelResponse env channel maxBytes i s).reply = s.reply ++
      (writeVaruint (UInt32.ofNat Subframe.kServerToClient) ++ writeVaruint channel ++
        writeVaruint (UInt32.ofNat (toCopy env maxBytes i (headed channel s) % 2 ^ 32).toNat) ++
        (s.tunnel i).writeBuffer.take (toCopy env maxBytes i (headed channel s)).toNat) := by
  have hheaded : (headed channel s).hasResponse = true := by
    rw [headed, hasResponse_respondVaruint, hasResponse_respondVaruint, State.hasResponse, h]
    rfl
  have hreply : (headed channel s).reply = s.reply ++
      (writeVaruint (UInt32.ofNat Subframe.kServerToClient) ++ writeVaruint channel) := by
    have hs : s.hasResponse = true := by rw [State.hasResponse, h]; rfl
    rw [headed, State.respondVaruint, State.respondVaruint,
      reply_respond (by rw [hasResponse_respond, hs]), reply_respond hs, List.append_assoc]
  rw [tunnelResponse, if_neg (by rw [h]; simp)]
  dsimp only
  rw [show (s.respondVaruint (UInt32.ofNat Subframe.kServerToClient)).respondVaruint channel
    = headed channel s from rfl]
  have hnumber : ∀ v, (headed channel s |>.respondVaruint v).hasResponse = true := fun v => by
    rw [hasResponse_respondVaruint, hheaded]
  split_ifs with hpos
  · rw [State.reply, response_callback]
    change State.reply (State.respond ((s.tunnel i).writeBuffer.take _) _) = _
    rw [reply_respond (hnumber _), State.respondVaruint, reply_respond hheaded, hreply]
    simp only [List.append_assoc]
  · have hzero : (toCopy env maxBytes i (headed channel s)).toNat = 0 :=
      Int.toNat_of_nonpos (by omega)
    rw [State.respondVaruint, reply_respond hheaded, hreply, hzero, List.take_zero, List.append_nil]
    simp only [List.append_assoc]

/-! ### True lengths -/

/-- The subframe that a tunnel's response adds is its type, the channel, the number of the bytes that
follow, and these, which are as many as the client takes at most, and the first that are pending. -/
def HasTrueLength (env : Env σ τ) (r : TunnelReply σ τ) : Prop :=
  ∃ data : Bytes, data.length < 2 ^ 32 ∧
    (tunnelResponse env r.channel r.maxBytes r.tunnel r.state).reply = r.state.reply ++
      (writeVaruint (UInt32.ofNat Subframe.kServerToClient) ++ writeVaruint r.channel ++
        writeVaruint (UInt32.ofNat data.length) ++ data) ∧
    (∀ m, r.maxBytes = some m → data.length ≤ m.toNat) ∧
    data <+: (r.state.tunnel r.tunnel).writeBuffer

/-- The datagram and the response have room for the reserve, or are short of it by a multiple of
`2 ^ 32`. -/
def HasRoom (env : Env σ τ) (r : TunnelReply σ τ) : Prop :=
  0 ≤ room env r.channel r.state ∨ (2 ^ 32 : ℤ) ∣ room env r.channel r.state

theorem hasTrueLength_iff (hmax : env.maxSize < 2 ^ 31) {r : TunnelReply σ τ} {w : BufferWriteStream}
    (h : r.state.response = some w) : HasTrueLength env r ↔ HasRoom env r := by
  obtain ⟨hshort, hroom, hle, hpending, hlimit⟩ :=
    toCopy_headed env r.channel r.maxBytes r.tunnel h
  have hoverhead : kNeededOverhead = 23 := rfl
  rw [HasTrueLength, HasRoom, reply_tunnelResponse r.channel r.maxBytes r.tunnel h]
  generalize toCopy env r.maxBytes r.tunnel (headed r.channel r.state) = n at *
  generalize (r.state.tunnel r.tunnel).writeBuffer = pending at *
  constructor
  · rintro ⟨data, hlt, hreply, -, -⟩
    by_contra hnot
    rw [not_or] at hnot
    have hn := hshort (by omega)
    -- no byte is copied, so what is written is the number alone
    have hzero : n.toNat = 0 := Int.toNat_of_nonpos (by omega)
    have hnumber := List.append_cancel_left hreply
    rw [hzero, List.take_zero] at hnumber
    simp only [List.append_assoc] at hnumber
    have htail := List.append_cancel_left (List.append_cancel_left hnumber)
    obtain ⟨-, heq, hdata⟩ := (encodes_writeVaruint _).append_inj (encodes_writeVaruint _) htail
    obtain rfl := hdata.symm
    rw [List.length_nil, UInt32.toNat_ofNat', Nat.mod_eq_of_lt (by omega)] at heq
    have hmod : n % 2 ^ 32 = 0 := by
      have : (UInt32.ofNat 0).toNat = 0 := rfl
      omega
    exact hnot.2 (hn ▸ Int.dvd_of_emod_eq_zero hmod)
  · intro hsome
    by_cases hge : 0 ≤ room env r.channel r.state
    · have hn := hroom hge
      have hlen : (pending.take n.toNat).length = n.toNat := by
        rw [List.length_take]
        omega
      refine ⟨pending.take n.toNat, by omega, ?_, fun m hm => ?_, List.take_prefix _ _⟩
      · rw [hlen, Int.emod_eq_of_lt hn (by omega)]
      · have := hlimit m hm
        omega
    · -- the number is zero by wrapping around
      have hn := hshort (by omega)
      have hzero : n.toNat = 0 := Int.toNat_of_nonpos (by omega)
      refine ⟨[], by decide, ?_, fun _ _ => Nat.zero_le _, List.nil_prefix⟩
      rw [hzero, List.take_zero, hn, Int.emod_eq_zero_of_dvd (hsome.resolve_left hge)]
      rfl

/-! ### Frames -/

/-- If the next pass makes a tunnel's response, it has its true length. -/
def AnswersTruly (env : Env σ τ) (str : Bytes) (s : State σ τ) : Prop :=
  ∀ r, tunnelReply env str s = some r →
    (processSubframe env str s).2.2
        = tunnelResponse env r.channel r.maxBytes r.tunnel r.state ∧
      r.state.reply = s.reply ∧ HasTrueLength env r

/-- If the next pass makes a tunnel's response, there is room for it. -/
def AnswersWithRoom (env : Env σ τ) (str : Bytes) (s : State σ τ) : Prop :=
  ∀ r, tunnelReply env str s = some r → HasRoom env r

theorem answersTruly_iff (hmax : env.maxSize < 2 ^ 31) (str : Bytes) (s : State σ τ) :
    AnswersTruly env str s ↔ AnswersWithRoom env str s := by
  refine forall₂_congr fun r hr => ?_
  obtain ⟨hpass, hresp, w, hw⟩ := processSubframe_of_tunnelReply hr
  have hreply : r.state.reply = s.reply := by rw [State.reply, State.reply, hresp]
  rw [← hasTrueLength_iff hmax (hresp.trans hw)]
  exact ⟨fun h => h.2.2, fun h => ⟨hpass, hreply, h⟩⟩

/-- **The length of every tunnel's response in a frame is the number of bytes that follow**, if and only
if there is room for the reserve at each of them. -/
theorem replyLength_iff (env : Env σ τ) (hmax : env.maxSize < 2 ^ 31) (subframes : Bytes)
    (s : State σ τ) :
    AtHeads env (AnswersTruly env) subframes s ↔ AtHeads env (AnswersWithRoom env) subframes s := by
  have heq : AnswersTruly env = AnswersWithRoom env := by
    ext str s
    exact answersTruly_iff hmax str s
  rw [heq]

/-- A poll of a tunnel that has nothing to send. -/
theorem replyLength_iff_poll :
    AtHeads plainEnv (AnswersTruly plainEnv) [0x42, 0x01, 0x05]
        { oneTunnel [] (by decide) with response := some (.new 256) } ↔
      AtHeads plainEnv (AnswersWithRoom plainEnv) [0x42, 0x01, 0x05]
        { oneTunnel [] (by decide) with response := some (.new 256) } :=
  replyLength_iff plainEnv (by decide) [0x42, 0x01, 0x05] _

set_option maxRecDepth 8000 in
/-- A read of 58 `int32` registers is answered with 235 bytes of 256, and the poll behind it with a
length of `2 ^ 32 - 4` and no data. -/
theorem not_replyLength : ¬ ∀ (env : Env Unit Unit) (bufferSize : ℕ) (subframes : Bytes)
    (s : State Unit Unit), env.maxSize < 2 ^ 31 →
    AtHeads env (AnswersTruly env) subframes { s with response := some (.new bufferSize) } := by
  intro h
  set s : State Unit Unit := { oneTunnel [] (by decide) with response := some (.new 256) }
  have hheads := h plainEnv 256 [0x18, 58, 0x00, 0x42, 0x01, 0x05] (oneTunnel [] (by decide))
    (by decide)
  set s₁ : State Unit Unit :=
    (processSubframe plainEnv [0x18, 58, 0x00, 0x42, 0x01, 0x05] s).2.2 with hs₁
  have hread : processSubframe plainEnv [0x18, 58, 0x00, 0x42, 0x01, 0x05] s
      = (true, [0x42, 0x01, 0x05], s₁) :=
    Prod.ext (by decide) (Prod.ext (by decide) rfl)
  have hpoll := ((atHeads_of_next (by decide) hread).mp hheads).2.head (by decide)
  rw [answersTruly_iff (by decide)] at hpoll
  have hroom := hpoll ⟨1, some 5, 0, s₁⟩ (by
    have hsome : s₁.response.isNone = false := by decide
    rw [tunnelReply, hsome]
    rfl)
  have hshort : room plainEnv 1 s₁ = -4 := by decide
  rw [HasRoom] at hroom
  dsimp only at hroom
  rw [hshort] at hroom
  exact absurd hroom (by decide)

end Mjlib.Multiplex.MicroServer
