import Mjlib.Multiplex.Equiv.MicroServer.Lockstep
import Mjlib.Multiplex.Equiv.Register

/-!
# What `MicroServer` does with a well-formed subframe

One lemma for each kind of subframe: `processSubframe_write`, `processSubframe_read`,
`processSubframe_clientToServer`, `processSubframe_clientPollServer` and `processSubframe_nop`.  A
read without a response and tunnel data without room have lemmas of their own, as their arguments are
left where they are (`processSubframe_read_of_noResponse`, `processSubframe_of_overrun`).
-/

namespace Mjlib.Multiplex

/-! ### Reading varuints and heads -/

theorem IsVaruint.ne_nil {v : UInt32} {ds : Bytes} (h : IsVaruint v ds) : ds ≠ [] := h.1.ne_nil

theorem IsVaruint.read {v : UInt32} {ds : Bytes} (h : IsVaruint v ds) (rest : Bytes) :
    BufferReadStream.readVaruint (ds ++ rest) = (some v, rest) := by
  rw [BufferReadStream.readVaruint_append h.1 h.2, UInt32.ofNat_toNat]

theorem IsHead.ne_nil {base type count : ℕ} {explicit : Bool} {hs : Bytes}
    (h : IsHead base type count explicit hs) : hs ≠ [] := by
  cases h with
  | short _ _ h => exact h.ne_nil
  | long _ h _ => exact List.append_ne_nil_of_left_ne_nil h.ne_nil _

theorem IsHead.count_lt {base type count : ℕ} {explicit : Bool} {hs : Bytes}
    (h : IsHead base type count explicit hs) : count < 2 ^ 32 := by
  cases h with
  | short _ hlt _ => omega
  | long hlt _ _ => exact hlt

/-- Reading a head: the type, and the number of registers from the low bits `low` of the type or from
its own varuint. -/
theorem IsHead.read {base type count : ℕ} {explicit : Bool} {hs : Bytes}
    (h : IsHead base type count explicit hs) (rest : Bytes) :
    ∃ low tail, low < 4 ∧ explicit = decide (low = 0) ∧ (low ≠ 0 → low = count) ∧
      BufferReadStream.readVaruint (hs ++ rest)
        = (some (UInt32.ofNat (base + (type * 4 + low))), tail) ∧
      MicroServer.readNumRegisters (type * 4 + low) tail = (some (UInt32.ofNat count), rest) ∧
      rest.length ≤ tail.length := by
  cases h with
  | short hpos hlt h =>
    refine ⟨count, rest, hlt, by simp; omega, fun _ => rfl, h.read rest, ?_, le_rfl⟩
    have hmod : (type * 4 + count) % 4 = count := by omega
    rw [MicroServer.readNumRegisters, hmod, if_neg (by omega)]
  | @long ds es hlt h hc =>
    refine ⟨0, es ++ rest, by decide, rfl, fun h0 => absurd rfl h0, ?_, ?_, by simp⟩
    · rw [List.append_assoc, Nat.add_zero]
      exact h.read _
    · rw [MicroServer.readNumRegisters, if_pos (by omega), hc.read rest]

theorem RequestSubframe.Encodes.ne_nil {sf : RequestSubframe} {e : Bytes} (h : sf.Encodes e) :
    e ≠ [] := by
  cases h with
  | nop h => exact h.ne_nil
  | clientToServer h _ _ _ => exact List.append_ne_nil_of_left_ne_nil h.ne_nil _
  | clientPollServer h _ _ => exact List.append_ne_nil_of_left_ne_nil h.ne_nil _
  | write _ _ hh _ => exact List.append_ne_nil_of_left_ne_nil hh.ne_nil _
  | read _ hh _ => exact List.append_ne_nil_of_left_ne_nil hh.ne_nil _

namespace MicroServer

open RequestSubframe (Encodes)

variable {σ τ : Type*} (env : Env σ τ)

/-! ### The kinds of subframes -/

section
variable {str tail : Bytes} {subframeType : UInt32} {s : State σ τ}

theorem processSubframe_of_clientToServer
    (h : BufferReadStream.readVaruint str = (some subframeType, tail))
    (htype : subframeType.toNat = Subframe.kClientToServer) :
    processSubframe env str s = match processSubframeClientToServer env tail s with
      | (true, str, s) =>
        (false, str, { s with stats.malformedSubframe := s.stats.malformedSubframe + 1 })
      | (false, str, s) => (true, str, s) := by
  rw [processSubframe, h]
  dsimp only
  exact if_pos htype

theorem processSubframe_of_clientPollServer
    (h : BufferReadStream.readVaruint str = (some subframeType, tail))
    (htype : subframeType.toNat = Subframe.kClientPollServer) :
    processSubframe env str s = match processSubframeClientPollServer env tail s with
      | (true, str, s) =>
        (false, str, { s with stats.malformedSubframe := s.stats.malformedSubframe + 1 })
      | (false, str, s) => (true, str, s) := by
  rw [processSubframe, h]
  dsimp only
  rw [if_neg (by rw [htype]; decide)]
  exact if_pos htype

theorem processSubframe_of_nop (h : BufferReadStream.readVaruint str = (some subframeType, tail))
    (htype : subframeType.toNat = Subframe.kNop) : processSubframe env str s = (true, tail, s) := by
  rw [processSubframe, h]
  dsimp only
  rw [if_neg (by rw [htype]; decide), if_neg (by rw [htype]; decide), if_pos htype]

theorem processSubframe_of_write {typeLength : ℕ}
    (h : BufferReadStream.readVaruint str = (some subframeType, tail))
    (htype : subframeType.toNat = Subframe.kWriteBase + typeLength) (hlt : typeLength < 16) :
    processSubframe env str s = match processSubframeWrite env typeLength tail s with
      | (.kMalformed, str, s) =>
        (false, str, { s with stats.malformedSubframe := s.stats.malformedSubframe + 1 })
      | (.kDiscard, str, s) => (false, str, s)
      | (.kContinue, str, s) => (true, str, s) := by
  have hne : ∀ n, 16 ≤ n → Subframe.kWriteBase + typeLength ≠ n := by
    intro n hn
    rw [Subframe.kWriteBase]
    omega
  rw [processSubframe, h]
  dsimp only
  rw [htype, if_neg (hne _ (by decide)), if_neg (hne _ (by decide)), if_neg (hne _ (by decide)),
    Nat.add_sub_cancel_left]
  exact if_pos (by omega)

theorem processSubframe_of_read {typeLength : ℕ}
    (h : BufferReadStream.readVaruint str = (some subframeType, tail))
    (htype : subframeType.toNat = Subframe.kReadBase + typeLength) (hlt : typeLength < 16) :
    processSubframe env str s = match processSubframeRead env typeLength tail s with
      | (true, str, s) =>
        (false, str, { s with stats.malformedSubframe := s.stats.malformedSubframe + 1 })
      | (false, str, s) => (true, str, s) := by
  have hne : ∀ n, 32 ≤ n → Subframe.kReadBase + typeLength ≠ n := by
    intro n hn
    rw [Subframe.kReadBase]
    omega
  have hwrite : ¬ (Subframe.kReadBase + typeLength ≥ Subframe.kWriteBase ∧
      Subframe.kReadBase + typeLength < Subframe.kWriteBase + 16) := by
    rw [Subframe.kReadBase, Subframe.kWriteBase]
    omega
  rw [processSubframe, h]
  dsimp only
  rw [htype, if_neg (hne _ (by decide)), if_neg (hne _ (by decide)), if_neg (hne _ (by decide)),
    if_neg hwrite, Nat.add_sub_cancel_left]
  exact if_pos (by omega)

end

/-! ### Writes -/

theorem readValue_bytes {type : ℕ} {value : Value} (h : value.index = type) (rest : Bytes) :
    readValue type (value.bytes ++ rest) = (some value, rest) := by
  subst h
  have hlen := value.length_bytes
  rw [readValue, BufferReadStream.readScalar, if_neg (by rw [List.length_append]; omega)]
  rw [List.take_left' hlen, List.drop_left' hlen]
  simp only [Option.map_some, value.ofScalar_decode_bytes]

/-- Write values to consecutive registers; whether the server discards the rest of the frame. -/
def writeValues (env : Env σ τ) : List Value → Register → State σ τ → Bool × State σ τ
  | [], _, s => (false, s)
  | value :: values, reg, s =>
    match serverWrite env reg value s with
    | (.success, s) => writeValues env values (reg + 1) s
    | (.unknownRegister, s) => writeValues env values (reg + 1) (emitWriteError reg 1 s)
    | (.notWriteable, s) => writeValues env values (reg + 1) (emitWriteError reg 2 s)
    | (.discardRemaining, s) => (true, { s with stats.discards := s.stats.discards + 1 })

theorem writeRegisters_values {type : ℕ} {values : List Value} (rest : Bytes) :
    ∀ (reg : Register) (s : State σ τ), (∀ v ∈ values, v.index = type) →
    ∃ str, writeRegisters env type values.length reg (values.flatMap Value.bytes ++ rest) s
        = (if (writeValues env values reg s).1 then .kDiscard else .kContinue, str,
          (writeValues env values reg s).2) ∧
      ((writeValues env values reg s).1 = false → str = rest) := by
  induction values with
  | nil => intro reg s _; exact ⟨rest, rfl, fun _ => rfl⟩
  | cons value values ih =>
    intro reg s hvalues
    have hread := readValue_bytes (hvalues value (by simp)) (values.flatMap Value.bytes ++ rest)
    have htail : ∀ v ∈ values, v.index = type := fun v hv => hvalues v (List.mem_cons_of_mem _ hv)
    rw [List.flatMap_cons, List.append_assoc, List.length_cons, writeRegisters, hread, writeValues]
    dsimp only
    rcases serverWrite env reg value s with ⟨_ | _ | _ | _, s'⟩
    · exact ih (reg + 1) s' htail
    · exact ih (reg + 1) _ htail
    · exact ih (reg + 1) _ htail
    · exact ⟨_, rfl, fun h => by simp at h⟩

/-- A pass over a write: it goes on behind the values unless the server discards the rest. -/
theorem processSubframe_write {type : ℕ} {start : Register} {values : List Value} {e : Bytes}
    (h : Encodes (.write type start values) e) (rest : Bytes) (s : State σ τ) :
    ∃ str, processSubframe env (e ++ rest) s
        = (!(writeValues env values start s).1, str, (writeValues env values start s).2) ∧
      ((writeValues env values start s).1 = false → str = rest) := by
  cases h with
  | @write _ _ _ explicit hs rs htype hvalues hh hr =>
    obtain ⟨low, tail, hlow, -, -, htypeRead, hnum, -⟩ :=
      hh.read (rs ++ values.flatMap Value.bytes ++ rest)
    have hop := toNat_ofNat_of_lt (show Subframe.kWriteBase + (type * 4 + low) < 2 ^ 32 by
      rw [Subframe.kWriteBase]; omega)
    obtain ⟨str, hwrite, hstr⟩ := writeRegisters_values env rest start s hvalues
    refine ⟨str, ?_, hstr⟩
    have happ : hs ++ (rs ++ values.flatMap Value.bytes) ++ rest
        = hs ++ (rs ++ values.flatMap Value.bytes ++ rest) := by
      simp only [List.append_assoc]
    rw [happ, processSubframe_of_write env htypeRead hop (by omega), processSubframeWrite, hnum]
    dsimp only
    rw [List.append_assoc, hr.read]
    have hdiv : (type * 4 + low) / 4 = type := by omega
    dsimp only
    rw [hdiv, toNat_ofNat_of_lt hh.count_lt, hwrite]
    cases (writeValues env values start s).1 <;> rfl

/-! ### Reads -/

/-- The state in which the registers of a read are read: the head of the reply is written. -/
def respondHead (type : ℕ) (start : Register) (count : ℕ) (explicit : Bool) (s : State σ τ) :
    State σ τ :=
  let s := s.respondVaruint
    (UInt32.ofNat (Subframe.kReplyBase + (type * 4 + if explicit then 0 else count)))
  let s := if explicit then s.respondVaruint (UInt32.ofNat count) else s
  s.respondVaruint start

theorem or_or_eq {type low : ℕ} (htype : type < 4) (hlow : low < 4) :
    Subframe.kReplyBase ||| (type * 4) ||| low = Subframe.kReplyBase + (type * 4 + low) := by
  have h : ∀ type low : Fin 4, Subframe.kReplyBase ||| (type.val * 4) ||| low.val
      = Subframe.kReplyBase + (type.val * 4 + low.val) := by decide
  exact h ⟨type, htype⟩ ⟨low, hlow⟩

/-- A pass over a read with a response: it goes on behind the read unless a register fails. -/
theorem processSubframe_read {type : ℕ} {start : Register} {count : ℕ} {explicit : Bool}
    {e : Bytes} (h : Encodes (.read type start count explicit) e) (rest : Bytes) {s : State σ τ}
    (hs : s.hasResponse = true) :
    processSubframe env (e ++ rest) s =
      match readRegisters env type s.responsePosition count start
        (respondHead type start count explicit s) with
      | (true, s) =>
        (false, rest, { s with stats.malformedSubframe := s.stats.malformedSubframe + 1 })
      | (false, s) => (true, rest, s) := by
  cases h with
  | @read _ _ _ _ hs' rs htype hh hr =>
    obtain ⟨low, tail, hlow, hexp, hcount, htypeRead, hnum, -⟩ := hh.read (rs ++ rest)
    have hop := toNat_ofNat_of_lt (show Subframe.kReadBase + (type * 4 + low) < 2 ^ 32 by
      rw [Subframe.kReadBase]; omega)
    have hsome : s.response.isNone = false := by
      rw [← Option.not_isSome]
      exact congrArg (!·) hs
    rw [List.append_assoc, processSubframe_of_read env htypeRead hop (by omega), processSubframeRead,
      hsome, if_neg (by decide), hnum]
    dsimp only
    rw [hr.read]
    have hdiv : (type * 4 + low) / 4 = type := by omega
    have hmod : (type * 4 + low) % 4 = low := by omega
    have hlowCount : low = if explicit then 0 else count := by
      by_cases h0 : low = 0
      · rw [hexp, h0]
        simp
      · rw [hexp, decide_eq_false h0]
        simpa using hcount h0
    dsimp only
    rw [hdiv, hmod, toNat_ofNat_of_lt hh.count_lt, or_or_eq htype hlow]
    have hhead : State.respondVaruint start
        (if low = 0 then State.respondVaruint (UInt32.ofNat count)
          (State.respondVaruint (UInt32.ofNat (Subframe.kReplyBase + (type * 4 + low))) s)
        else State.respondVaruint (UInt32.ofNat (Subframe.kReplyBase + (type * 4 + low))) s)
        = respondHead type start count explicit s := by
      rw [respondHead, ← hlowCount, hexp]
      simp only [decide_eq_true_eq]
    rw [hhead]
    rcases readRegisters env type s.responsePosition count start
      (respondHead type start count explicit s) with ⟨_ | _, s'⟩ <;> rfl

/-- Without a response a read takes its type only. -/
theorem processSubframe_read_of_noResponse {type : ℕ} {start : Register} {count : ℕ}
    {explicit : Bool} {e : Bytes} (h : Encodes (.read type start count explicit) e) (rest : Bytes)
    {s : State σ τ} (hs : s.hasResponse = false) :
    ∃ str, processSubframe env (e ++ rest) s = (true, str, s) ∧ rest.length < str.length := by
  cases h with
  | @read _ _ _ _ hs' rs htype hh hr =>
    obtain ⟨low, tail, hlow, -, -, htypeRead, -, hlen⟩ := hh.read (rs ++ rest)
    have hop := toNat_ofNat_of_lt (show Subframe.kReadBase + (type * 4 + low) < 2 ^ 32 by
      rw [Subframe.kReadBase]; omega)
    have hnone : s.response.isNone = true := by
      rw [← Option.not_isSome]
      exact congrArg (!·) hs
    refine ⟨tail, ?_, ?_⟩
    · rw [List.append_assoc, processSubframe_of_read env htypeRead hop (by omega),
        processSubframeRead, if_pos hnone]
    · have := List.length_pos_iff.mpr hr.ne_nil
      rw [List.length_append] at hlen
      omega

/-! ### Tunnels -/

theorem processSubframe_nop {e : Bytes} (h : Encodes .nop e) (rest : Bytes) (s : State σ τ) :
    processSubframe env (e ++ rest) s = (true, rest, s) := by
  cases h with
  | nop h => exact processSubframe_of_nop env (h.read rest) (by decide)

theorem processSubframe_clientPollServer {channel maxBytes : UInt32} {e : Bytes}
    (h : Encodes (.clientPollServer channel maxBytes) e) (rest : Bytes) {s : State σ τ} {i : ℕ}
    (hi : findTunnel channel s = some i) :
    processSubframe env (e ++ rest) s
      = (true, rest, tunnelResponse env channel (some maxBytes) i s) := by
  cases h with
  | @clientPollServer _ _ ds cs ms h hc hm =>
    rw [List.append_assoc, List.append_assoc,
      processSubframe_of_clientPollServer env (h.read _) (by decide),
      processSubframeClientPollServer, hc.read]
    dsimp only
    rw [hm.read]
    dsimp only
    rw [hi]

/-- The arguments of a client-to-server subframe, up to the data. -/
theorem dataOverruns_eq {channel : UInt32} {data cs ls : Bytes} (hc : IsVaruint channel cs)
    (hlt : data.length < 2 ^ 32) (hl : IsVaruint (UInt32.ofNat data.length) ls) (rest : Bytes)
    {s : State σ τ} {i : ℕ} (hi : findTunnel channel s = some i) :
    dataOverruns (cs ++ (ls ++ (data ++ rest))) s
      = decide (data.length > (s.tunnel i).remainingSpace) := by
  rw [dataOverruns, hc.read]
  dsimp only
  rw [hl.read]
  dsimp only
  rw [toNat_ofNat_of_lt hlt, if_neg (by rw [List.length_append]; omega), hi]

theorem processSubframe_clientToServer {channel : UInt32} {data e : Bytes}
    (h : Encodes (.clientToServer channel data) e) (rest : Bytes) {s : State σ τ} {i : ℕ}
    (hi : findTunnel channel s = some i) (hover : overruns (e ++ rest) s = false) :
    processSubframe env (e ++ rest) s = (true, rest, tunnelResponse env channel none i
      { (doReadTransfer env i (s.modifyTunnel i (·.receive data))).2 with
        anythingToDo := true }) := by
  cases h with
  | @clientToServer _ _ ds cs ls h hc hlt hl =>
    simp only [List.append_assoc] at hover ⊢
    have hfits : ¬ data.length > (s.tunnel i).remainingSpace := by
      rw [overruns, h.read] at hover
      have htype : (UInt32.ofNat Subframe.kClientToServer).toNat = Subframe.kClientToServer := by
        decide
      simpa [htype, dataOverruns_eq hc hlt hl rest hi] using hover
    rw [processSubframe_of_clientToServer env (h.read _) (by decide),
      processSubframeClientToServer, hc.read]
    dsimp only
    rw [hl.read]
    dsimp only
    rw [toNat_ofNat_of_lt hlt, if_neg (by rw [List.length_append]; omega), hi]
    dsimp only
    rw [if_neg hfits, List.drop_left, List.take_left]

/-- Where the data does not fit the tunnel it is left where it is. -/
theorem processSubframe_of_overrun {channel : UInt32} {data e : Bytes}
    (h : Encodes (.clientToServer channel data) e) (rest : Bytes) {s : State σ τ}
    (hover : overruns (e ++ rest) s = true) :
    ∃ s', processSubframe env (e ++ rest) s = (true, data ++ rest, s') ∧
      rest.length < (data ++ rest).length := by
  cases h with
  | @clientToServer _ _ ds cs ls h hc hlt hl =>
    simp only [List.append_assoc] at hover ⊢
    have htype : (UInt32.ofNat Subframe.kClientToServer).toNat = Subframe.kClientToServer := by
      decide
    rw [overruns, h.read] at hover
    have hdata : dataOverruns (cs ++ (ls ++ (data ++ rest))) s = true := by
      simpa [htype] using hover
    obtain ⟨i, hi⟩ : ∃ i, findTunnel channel s = some i := by
      rw [dataOverruns, hc.read] at hdata
      dsimp only at hdata
      rw [hl.read] at hdata
      dsimp only at hdata
      rw [toNat_ofNat_of_lt hlt, if_neg (by rw [List.length_append]; omega)] at hdata
      cases hi : findTunnel channel s with
      | none => simp [hi] at hdata
      | some i => exact ⟨i, rfl⟩
    have hbig : data.length > (s.tunnel i).remainingSpace := by
      simpa [dataOverruns_eq hc hlt hl rest hi] using hdata
    rw [processSubframe_of_clientToServer env (h.read _) (by decide),
      processSubframeClientToServer, hc.read]
    dsimp only
    rw [hl.read]
    dsimp only
    rw [toNat_ofNat_of_lt hlt, if_neg (by rw [List.length_append]; omega), hi]
    dsimp only
    rw [if_pos hbig]
    exact ⟨_, rfl, by rw [List.length_append]; omega⟩

end MicroServer

end Mjlib.Multiplex
