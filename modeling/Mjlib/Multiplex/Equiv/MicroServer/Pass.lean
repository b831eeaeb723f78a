import Mjlib.Multiplex.Equiv.MicroServer.ResponseSize

/-!
# What one pass does to the tunnels

`Pass` splits a pass of the loop into the ways it can touch the tunnels: the register subframes, and
everything that is not understood, leave them and their owner alone (`side`), and a tunnel subframe
stores what fits of its data, hands over what it can and answers (`pass_processSubframe`).
`processSubframes_induction` takes an invariant along the loop, `heads` lists its heads, and
`acceptedAt` is the data that a tunnel stores at one of them.
-/

namespace Mjlib.Multiplex.MicroServer

variable {σ τ : Type*} (env : Env σ τ)

/-! ### The tunnels and their owner -/

/-- The owner of the tunnels and the tunnels, with the flag for `Poll`. -/
def side (s : State σ τ) : τ × List TunnelStream × Bool := (s.client, s.tunnels, s.anythingToDo)

section
variable (s : State σ τ)

@[simp] theorem side_respond (bytes : Bytes) : side (s.respond bytes) = side s := rfl

@[simp] theorem side_respondVaruint (v : UInt32) : side (s.respondVaruint v) = side s := rfl

@[simp] theorem side_resetResponse (position : ℕ) : side (s.resetResponse position) = side s := rfl

@[simp] theorem side_emitWriteError (reg : Register) (error : UInt32) :
    side (emitWriteError reg error s) = side s := rfl

@[simp] theorem side_emitReadError (reg : Register) (error : UInt32) :
    side (emitReadError reg error s) = side s := rfl

@[simp] theorem side_serverWrite (reg : Register) (value : Value) :
    side (serverWrite env reg value s).2 = side s := rfl

end

theorem side_writeRegisters (type : ℕ) {n : ℕ} : ∀ (reg : Register) (str : Bytes) (s : State σ τ),
    side (writeRegisters env type n reg str s).2.2 = side s := by
  induction n with
  | zero => intro reg str s; rfl
  | succ n ih =>
    intro reg str s
    rw [writeRegisters]
    rcases readValue type str with ⟨_ | value, str'⟩
    · rfl
    dsimp only
    have hside := side_serverWrite env s reg value
    generalize serverWrite env reg value s = r at hside ⊢
    obtain ⟨action, s'⟩ := r
    cases action with
    | success => exact (ih _ _ _).trans hside
    | unknownRegister => exact (ih _ _ _).trans hside
    | notWriteable => exact (ih _ _ _).trans hside
    | discardRemaining => exact hside

theorem side_readRegisters (type start : ℕ) {n : ℕ} : ∀ (reg : Register) (s : State σ τ),
    side (readRegisters env type start n reg s).2 = side s := by
  induction n with
  | zero => intro reg s; rfl
  | succ n ih =>
    intro reg s
    rw [readRegisters, serverRead]
    rcases env.server.read s.server reg type with value | error
    · exact (ih _ _).trans rfl
    · rfl

theorem side_processSubframeWrite (typeLength : ℕ) (str : Bytes) (s : State σ τ) :
    side (processSubframeWrite env typeLength str s).2.2 = side s := by
  rw [processSubframeWrite]
  rcases readNumRegisters typeLength str with ⟨_ | n, str1⟩
  · rfl
  dsimp only
  rcases BufferReadStream.readVaruint str1 with ⟨_ | reg, str2⟩
  · rfl
  · exact side_writeRegisters env _ _ _ _

theorem side_processSubframeRead (typeLength : ℕ) (str : Bytes) (s : State σ τ) :
    side (processSubframeRead env typeLength str s).2.2 = side s := by
  rw [processSubframeRead]
  by_cases hr : s.response.isNone
  · rw [if_pos hr]
  rw [if_neg hr]
  rcases readNumRegisters typeLength str with ⟨_ | n, str1⟩
  · rfl
  dsimp only
  rcases BufferReadStream.readVaruint str1 with ⟨_ | reg, str2⟩
  · rfl
  dsimp only
  rw [side_readRegisters]
  by_cases h : typeLength % 4 = 0
  · rw [if_pos h]
    rfl
  · rw [if_neg h]
    rfl

/-! ### The data that is stored -/

/-- The data of the next subframe, if it is a client-to-server subframe on the channel whose tunnel
has room for it. -/
def acceptedAt (channel : UInt32) (str : Bytes) (s : State σ τ) : Bytes :=
  match BufferReadStream.readVaruint str with
  | (none, _) => []
  | (some subframeType, str) =>
    if subframeType.toNat = Subframe.kClientToServer then
      let (maybeChannel, str) := BufferReadStream.readVaruint str
      let (maybeBytes, str) := BufferReadStream.readVaruint str
      match maybeChannel, maybeBytes with
      | some channel', some bytes =>
        if channel' = channel ∧ bytes.toNat ≤ str.length then
          match findTunnel channel s with
          | none => []
          | some i => if bytes.toNat > (s.tunnel i).remainingSpace then [] else str.take bytes.toNat
        else []
      | _, _ => []
    else []

/-! ### The data that is sent -/

/-- The response to a tunnel's subframe takes data of the tunnel. -/
def HasData (channel : UInt32) (maxBytes : Option UInt32) (i : ℕ) (s : State σ τ) : Prop :=
  s.response.isSome = true ∧ 0 < toCopy env maxBytes i
    ((s.respondVaruint (UInt32.ofNat Subframe.kServerToClient)).respondVaruint channel)

/-- The answer to a tunnel subframe, of which the type has been read, takes data of the tunnel. -/
def TunnelTakesData (poll : Bool) (str : Bytes) (s : State σ τ) : Prop :=
  let (maybeChannel, str) := BufferReadStream.readVaruint str
  let (maybeBytes, str) := BufferReadStream.readVaruint str
  match maybeChannel, maybeBytes with
  | some channel, some bytes =>
    match findTunnel channel s with
    | none => False
    | some i =>
      if poll then HasData env channel (some bytes) i s
      else bytes.toNat ≤ str.length ∧ HasData env channel none i (received env bytes i str s)
  | _, _ => False

/-- The answer to the next subframe takes data of a tunnel. -/
def TakesData (str : Bytes) (s : State σ τ) : Prop :=
  match BufferReadStream.readVaruint str with
  | (none, _) => False
  | (some subframeType, str) =>
    if subframeType.toNat = Subframe.kClientToServer then TunnelTakesData env false str s
    else if subframeType.toNat = Subframe.kClientPollServer then TunnelTakesData env true str s
    else False

/-! ### The ways of a pass -/

/-- The two states have the same tunnels, owner and response. -/
def Alike (s s' : State σ τ) : Prop := side s = side s' ∧ s.response = s'.response

/-- What a pass from `s` does, which starts at `str` and ends in `s'`. -/
inductive Pass (str : Bytes) (s s' : State σ τ) : Prop
  | other (hnone : ∀ channel, acceptedAt channel str s = []) (h : Alike s' s)
  | write (hnone : ∀ channel, acceptedAt channel str s = []) (typeLength : ℕ) (str₁ : Bytes)
      (hlt : typeLength < 16) (h : Alike s' (processSubframeWrite env typeLength str₁ s).2.2)
  | read (hnone : ∀ channel, acceptedAt channel str s = []) (typeLength : ℕ) (str₁ : Bytes)
      (hlt : typeLength < 16) (h : Alike s' (processSubframeRead env typeLength str₁ s).2.2)
  | clientToServer (channel bytes : UInt32) (i : ℕ) (str₁ : Bytes)
      (haccept : ∀ channel', acceptedAt channel' str s = if channel = channel' ∧
        ¬ bytes.toNat > (s.tunnel i).remainingSpace then str₁.take bytes.toNat else [])
      (htakes : HasData env channel none i (received env bytes i str₁ s) → TakesData env str s)
      (hlen : bytes.toNat ≤ str₁.length) (hi : findTunnel channel s = some i)
      (h : s' = tunnelResponse env channel none i (received env bytes i str₁ s))
  | clientPollServer (hnone : ∀ channel, acceptedAt channel str s = []) (channel maxBytes : UInt32)
      (i : ℕ) (htakes : HasData env channel (some maxBytes) i s → TakesData env str s)
      (hi : findTunnel channel s = some i)
      (h : s' = tunnelResponse env channel (some maxBytes) i s)

variable {env}

variable (env) in
theorem pass_clientToServer {str str₁ : Bytes} {subframeType : UInt32} (s : State σ τ)
    (htype : BufferReadStream.readVaruint str = (some subframeType, str₁))
    (h : subframeType.toNat = Subframe.kClientToServer) :
    Pass env str s (processSubframeClientToServer env str₁ s).2.2 ∧
      ((processSubframeClientToServer env str₁ s).1 = true →
        Alike (processSubframeClientToServer env str₁ s).2.2 s ∧
          ∀ channel, acceptedAt channel str s = []) := by
  have haccept : ∀ channel, acceptedAt channel str s =
      match (BufferReadStream.readVaruint str₁).1,
        (BufferReadStream.readVaruint (BufferReadStream.readVaruint str₁).2).1 with
      | some channel', some bytes =>
        if channel' = channel ∧
            bytes.toNat ≤ (BufferReadStream.readVaruint (BufferReadStream.readVaruint str₁).2).2.length
        then match findTunnel channel s with
          | none => []
          | some i =>
            if bytes.toNat > (s.tunnel i).remainingSpace then []
            else (BufferReadStream.readVaruint (BufferReadStream.readVaruint str₁).2).2.take
              bytes.toNat
        else []
      | _, _ => [] := by
    intro channel
    rw [acceptedAt, htype]
    dsimp only
    rw [if_pos h]
  have htakes : TunnelTakesData env false str₁ s → TakesData env str s := by
    intro hdata
    rw [TakesData, htype]
    dsimp only
    rwa [if_pos h]
  rw [processSubframeClientToServer]
  rw [TunnelTakesData] at htakes
  generalize BufferReadStream.readVaruint str₁ = r₁ at haccept htakes ⊢
  obtain ⟨maybeChannel, str₂⟩ := r₁
  dsimp only at haccept htakes ⊢
  generalize BufferReadStream.readVaruint str₂ = r₂ at haccept htakes ⊢
  obtain ⟨maybeBytes, str₃⟩ := r₂
  have hother (hnone : ∀ channel, acceptedAt channel str s = []) :
      Pass env str s s ∧ (true = true → Alike s s ∧ ∀ channel, acceptedAt channel str s = []) :=
    ⟨.other hnone ⟨rfl, rfl⟩, fun _ => ⟨⟨rfl, rfl⟩, hnone⟩⟩
  rcases maybeChannel with _ | channel <;> rcases maybeBytes with _ | bytes
  · exact hother haccept
  · exact hother haccept
  · exact hother haccept
  dsimp only at haccept ⊢
  by_cases hlen : str₃.length < bytes.toNat
  · rw [if_pos hlen]
    exact hother fun channel' => (haccept channel').trans (if_neg (by omega))
  rw [if_neg hlen]
  rcases hi : findTunnel channel s with _ | i
  · refine hother fun channel' => (haccept channel').trans ?_
    split_ifs with hc
    · rw [← hc.1, hi]
    · rfl
  dsimp only at htakes
  rw [hi] at htakes
  refine ⟨.clientToServer channel bytes i str₃ (fun channel' => (haccept channel').trans ?_)
    (fun hdata => htakes ⟨not_lt.mp hlen, hdata⟩) (not_lt.mp hlen) hi ?_,
    fun hbad => absurd hbad (by simp)⟩
  · by_cases hc : channel = channel'
    · subst hc
      rw [if_pos ⟨rfl, not_lt.mp hlen⟩, hi]
      dsimp only
      by_cases hover : bytes.toNat > (s.tunnel i).remainingSpace
      · rw [if_pos hover, if_neg fun hc => hc.2 hover]
      · rw [if_neg hover, if_pos ⟨rfl, hover⟩]
    · rw [if_neg fun hc' => hc hc'.1, if_neg fun hc' => hc hc'.1]
  · dsimp only [received]
    split_ifs <;> rfl

variable (env) in
/-- **The ways of a pass.** -/
theorem pass_processSubframe (str : Bytes) (s : State σ τ) :
    Pass env str s (processSubframe env str s).2.2 := by
  have hother : ∀ channel, (∀ subframeType str₁,
      BufferReadStream.readVaruint str = (some subframeType, str₁) →
        subframeType.toNat ≠ Subframe.kClientToServer) → acceptedAt channel str s = [] := by
    intro channel hne
    rw [acceptedAt]
    rcases ht : BufferReadStream.readVaruint str with ⟨_ | subframeType, str₁⟩
    · rfl
    · dsimp only
      rw [if_neg (hne subframeType str₁ ht)]
  rw [processSubframe]
  rcases ht : BufferReadStream.readVaruint str with ⟨_ | subframeType, str₁⟩
  · exact .other (fun channel => hother channel fun _ _ h => by simp [ht] at h) ⟨rfl, rfl⟩
  have hnone (hne : subframeType.toNat ≠ Subframe.kClientToServer) (channel : UInt32) :
      acceptedAt channel str s = [] :=
    hother channel fun subframeType' str₁' h => by
      obtain ⟨rfl, -⟩ : subframeType = subframeType' ∧ str₁ = str₁' := by simpa [ht] using h
      exact hne
  dsimp only
  split_ifs with h1 h2 h3 h4 h5
  · obtain ⟨hpass, hmalformed⟩ := pass_clientToServer env s ht h1
    rcases hr : processSubframeClientToServer env str₁ s with ⟨_ | _, str₂, s'⟩
    · rw [hr] at hpass
      exact hpass
    · rw [hr] at hmalformed
      obtain ⟨halike, hnone'⟩ := hmalformed rfl
      exact .other hnone' halike
  · have hacc := hnone h1
    have htakes : TunnelTakesData env true str₁ s → TakesData env str s := by
      intro hdata
      rw [TakesData, ht]
      dsimp only
      rwa [if_neg h1, if_pos h2]
    rw [processSubframeClientPollServer]
    rw [TunnelTakesData] at htakes
    generalize BufferReadStream.readVaruint str₁ = r₁ at htakes ⊢
    obtain ⟨maybeChannel, str₂⟩ := r₁
    dsimp only at htakes ⊢
    generalize BufferReadStream.readVaruint str₂ = r₂ at htakes ⊢
    obtain ⟨maybeMaxBytes, str₃⟩ := r₂
    rcases maybeChannel with _ | channel <;> rcases maybeMaxBytes with _ | maxBytes
    · exact .other hacc ⟨rfl, rfl⟩
    · exact .other hacc ⟨rfl, rfl⟩
    · exact .other hacc ⟨rfl, rfl⟩
    dsimp only at htakes ⊢
    rcases hi : findTunnel channel s with _ | i
    · exact .other hacc ⟨rfl, rfl⟩
    · rw [hi] at htakes
      exact .clientPollServer hacc channel maxBytes i htakes hi rfl
  · exact .other (hnone h1) ⟨rfl, rfl⟩
  · refine .write (hnone h1) (subframeType.toNat - Subframe.kWriteBase) str₁ (by omega) ?_
    rcases processSubframeWrite env (subframeType.toNat - Subframe.kWriteBase) str₁ s with
      ⟨_ | _ | _, str₂, s'⟩ <;> exact ⟨rfl, rfl⟩
  · refine .read (hnone h1) (subframeType.toNat - Subframe.kReadBase) str₁ (by omega) ?_
    rcases processSubframeRead env (subframeType.toNat - Subframe.kReadBase) str₁ s with
      ⟨_ | _, str₂, s'⟩ <;> exact ⟨rfl, rfl⟩
  · exact .other (hnone h1) ⟨rfl, rfl⟩

/-! ### The loop -/

/-- An invariant of the passes is one of the loop, as far as the heads allow it. -/
theorem processSubframes_induction {C : Bytes → State σ τ → Prop} {P : State σ τ → Prop}
    (h : ∀ str s, C str s → P s → P (processSubframe env str s).2.2) {str : Bytes} {s : State σ τ}
    (hheads : AtHeads env C str s) (hs : P s) : P (processSubframes env str s) := by
  induction str, s using loop_induction env with
  | nil s => exact hs
  | next str s str' s' hstr hp ih =>
    obtain ⟨hC, hheads'⟩ := (atHeads_of_next hstr hp).mp hheads
    rw [processSubframes_of_next hstr hp]
    have hs' := h str s hC hs
    rw [hp] at hs'
    exact ih hheads' hs'
  | return' str s str' s' hstr hp =>
    rw [processSubframes_of_return hstr hp]
    have hs' := h str s ((atHeads_of_return hstr hp).mp hheads) hs
    rwa [hp] at hs'

theorem atHeads_of_forall {C : Bytes → State σ τ → Prop} (h : ∀ str s, C str s) (str : Bytes)
    (s : State σ τ) : AtHeads env C str s := by
  induction str, s using loop_induction env with
  | nil s => exact atHeads_nil C s
  | next str s str' s' hstr hp ih => exact (atHeads_of_next hstr hp).mpr ⟨h str s, ih⟩
  | return' str s str' s' hstr hp => exact (atHeads_of_return hstr hp).mpr (h str s)

/-- An invariant of all passes is one of the loop. -/
theorem processSubframes_invariant {P : State σ τ → Prop}
    (h : ∀ str s, P s → P (processSubframe env str s).2.2) {str : Bytes} {s : State σ τ} (hs : P s) :
    P (processSubframes env str s) :=
  processSubframes_induction (fun str s _ => h str s)
    (atHeads_of_forall (fun _ _ => trivial) str s) hs

variable (env) in
/-- The heads of the loop that are reached, with what is left of the frame there. -/
def headsLoop : ℕ → Bytes → State σ τ → List (Bytes × State σ τ)
  | 0, _, _ => []
  | n + 1, str, s =>
    if str = [] then []
    else (str, s) ::
      match processSubframe env str s with
      | (true, str, s) => headsLoop n str s
      | (false, _, _) => []

variable (env) in
/-- The states where `ProcessSubframes` starts to read a subframe. -/
def heads (subframes : Bytes) (s : State σ τ) : List (Bytes × State σ τ) :=
  headsLoop env subframes.length subframes s

theorem headsLoop_eq {n : ℕ} : ∀ {m : ℕ} {str : Bytes} {s : State σ τ}, str.length ≤ n →
    str.length ≤ m → headsLoop env n str s = headsLoop env m str s := by
  induction n with
  | zero =>
    intro m str s hn _
    obtain rfl := List.length_eq_zero_iff.mp (Nat.le_zero.mp hn)
    cases m <;> simp [headsLoop]
  | succ n ih =>
    intro m str s hn hm
    by_cases h : str = []
    · subst h
      cases m <;> simp [headsLoop]
    · have hpos := List.length_pos_iff.mpr h
      obtain ⟨m, rfl⟩ : ∃ m', m = m' + 1 := ⟨m - 1, by omega⟩
      have hlt := length_processSubframe_lt env h s
      rw [headsLoop, headsLoop, if_neg h, if_neg h]
      generalize processSubframe env str s = r at hlt ⊢
      rcases r with ⟨_ | _, str', s'⟩
      · rfl
      · dsimp only at hlt ⊢
        rw [ih (m := m) (by omega) (by omega)]

theorem heads_of_next {str str' : Bytes} {s s' : State σ τ} (h : str ≠ [])
    (hp : processSubframe env str s = (true, str', s')) :
    heads env str s = (str, s) :: heads env str' s' := by
  have hpos := List.length_pos_iff.mpr h
  have hlt := length_processSubframe_lt env h s
  rw [hp] at hlt
  obtain ⟨n, hn⟩ : ∃ n, str.length = n + 1 := ⟨str.length - 1, by omega⟩
  rw [heads, hn, headsLoop, if_neg h, hp]
  dsimp only at hlt ⊢
  rw [heads, headsLoop_eq (n := n) (m := str'.length) (by omega) le_rfl]

theorem heads_of_return {str str' : Bytes} {s s' : State σ τ} (h : str ≠ [])
    (hp : processSubframe env str s = (false, str', s')) : heads env str s = [(str, s)] := by
  have hpos := List.length_pos_iff.mpr h
  obtain ⟨n, hn⟩ : ∃ n, str.length = n + 1 := ⟨str.length - 1, by omega⟩
  rw [heads, hn, headsLoop, if_neg h, hp]

/-! ### Frames -/

/-- The datagram is for the server. -/
def Addressed (destination : ℕ) (id : UInt8) : Prop :=
  destination = (id &&& 0x7f).toNat ∨ destination = kBroadcastId

instance (destination : ℕ) (id : UInt8) : Decidable (Addressed destination id) :=
  inferInstanceAs (Decidable (_ ∨ _))

variable (env) in
/-- The state in which the subframes of a datagram are processed. -/
def frameStart (source destination : ℕ) (id : UInt8) (bufferSize : ℕ) (writeOutstanding : Bool)
    (s : State σ τ) : State σ τ :=
  { s with
    server := env.server.startFrame s.server
    stats.wrongId := if destination = (id &&& 0x7f).toNat ∧ destination ≠ kBroadcastId then
      s.stats.wrongId else s.stats.wrongId + 1
    response := if source &&& 0x80 ≠ 0 ∧ !writeOutstanding then some (.new bufferSize) else none }

variable (env) in
theorem processFrame_of_not_addressed (source : ℕ) {destination : ℕ} {id : UInt8} (bufferSize : ℕ)
    (writeOutstanding : Bool) (subframes : Bytes) (s : State σ τ) (h : ¬ Addressed destination id) :
    (processFrame env source destination id bufferSize writeOutstanding subframes s).1 = none ∧
      side (processFrame env source destination id bufferSize writeOutstanding subframes s).2
        = side s := by
  obtain ⟨hid, hbroadcast⟩ := not_or.mp h
  have hmine : ¬ (destination = (id &&& 0x7f).toNat ∧ destination ≠ kBroadcastId) := fun h => hid h.1
  rw [processFrame]
  simp only [hmine, if_false, not_false_eq_true, true_and]
  rw [if_pos hbroadcast]
  exact ⟨rfl, rfl⟩

variable (env) in
/-- What a datagram for the server does: its subframes are processed, and the response is sent if the
application accepts the frame. -/
theorem processFrame_of_addressed (source : ℕ) {destination : ℕ} {id : UInt8} (bufferSize : ℕ)
    (writeOutstanding : Bool) (subframes : Bytes) (s : State σ τ) {s' : State σ τ}
    (h : Addressed destination id) (hs' : s' = processSubframes env subframes
      (frameStart env source destination id bufferSize writeOutstanding s)) :
    (processFrame env source destination id bufferSize writeOutstanding subframes s).1
        = (if (env.server.completeFrame s'.server).2 = .discard then none
          else s'.response.map (·.data)) ∧
      side (processFrame env source destination id bufferSize writeOutstanding subframes s).2
        = side s' := by
  have hstart : frameStart env source destination id bufferSize writeOutstanding s
      = { (if destination = (id &&& 0x7f).toNat ∧ destination ≠ kBroadcastId then s
          else { s with stats.wrongId := s.stats.wrongId + 1 }) with
        server := env.server.startFrame s.server
        response := if source &&& 0x80 ≠ 0 ∧ !writeOutstanding then some (.new bufferSize)
          else none } := by
    unfold frameStart
    split_ifs <;> rfl
  rw [hstart] at hs'
  have hgo : ¬ (¬ (destination = (id &&& 0x7f).toNat ∧ destination ≠ kBroadcastId) ∧
      destination ≠ kBroadcastId) := by
    rintro ⟨hmine, hbroadcast⟩
    exact hmine ⟨h.resolve_right hbroadcast, hbroadcast⟩
  have hserver : (if destination = (id &&& 0x7f).toNat ∧ destination ≠ kBroadcastId then s
      else { s with stats.wrongId := s.stats.wrongId + 1 }).server = s.server := by
    split_ifs <;> rfl
  rw [processFrame]
  dsimp only
  rw [if_neg hgo, hserver, ← hs']
  split
  · rename_i haction
    exact ⟨(if_pos haction).symm, rfl⟩
  · rename_i haction
    exact ⟨(if_neg fun hbad => absurd (haction.symm.trans hbad) (by decide)).symm, rfl⟩

end Mjlib.Multiplex.MicroServer
