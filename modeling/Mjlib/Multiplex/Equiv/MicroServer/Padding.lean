import Mjlib.Multiplex.Equiv.MicroServer.ResponseLength
import Mjlib.Multiplex.Equiv.Register.AnyBytes
import Mjlib.Multiplex.Equiv.FdcanusbFrameStream.Lines
import Mjlib.Multiplex.StreamAsioClient

/-!
# Is the padding of a payload neutral?

A payload is padded with `kNop` up to a length that a frame on the bus can have.  `padding_neutral`:
neither `MicroServer` nor the client sees it, behind a request or one tunnel frame and behind the
response.

A request whose bytes are those of `RegisterRequest` may end in the middle of a value, if the values
of a call are of different types; then the padding is taken for what is missing
(`not_padding_neutral`).
-/

namespace Mjlib.Multiplex

open FdcanusbFrameStream (roundUpDlc padded encodePayload parsePayload)

/-! ### Replies of the register service -/

theorem isNumber_writeVaruint (v : UInt32) : IsNumber v (writeVaruint v) :=
  .varuint (encodes_writeVaruint v) (length_writeVaruint_le v) UInt32.ofNat_toNat.symm

namespace RegisterReply

theorem isReply_append {values values' : List RegisterValue} {p q : Bytes} (h : IsReply values p)
    (h' : IsReply values' q) : IsReply (values ++ values') (p ++ q) := by
  induction h with
  | nil => exact h'
  | cons h _ ih =>
    rw [List.append_assoc, List.append_assoc]
    exact .cons h ih

theorem isReply_of_isSubframe {values : List RegisterValue} {e : Bytes} (h : IsSubframe values e) :
    IsReply values e := by
  simpa using IsReply.cons h .nil

theorem isSubframe_errorEntry {kind : ℕ}
    (h : kind = Subframe.kWriteError ∨ kind = Subframe.kReadError) (reg : Register)
    (error : UInt32) :
    IsSubframe [(reg, .error error)] (errorEntry kind reg error) :=
  .error h (isNumber_writeVaruint _) (isNumber_writeVaruint _) (isNumber_writeVaruint _)

theorem isSubframe_reply {type : ℕ} (start : Register) {values : List Value} {explicit : Bool}
    (htype : type < 4) (hvalues : ∀ v ∈ values, v.index = type) (hlt : values.length < 2 ^ 32)
    (hexp : explicit = false → 0 < values.length ∧ values.length < 4) :
    IsSubframe (named start values)
      (replyHead type start values.length explicit ++ values.flatMap Value.bytes) := by
  have hr := isNumber_writeVaruint start
  rw [replyHead]
  cases explicit with
  | false =>
    obtain ⟨hpos, h4⟩ := hexp rfl
    rw [if_neg Bool.false_ne_true, if_neg Bool.false_ne_true, List.nil_append, List.append_assoc]
    exact .reply htype hvalues (.short hpos h4 (isNumber_writeVaruint _)) hr
  | true =>
    rw [if_pos rfl, if_pos rfl, add_zero, List.append_assoc, List.append_assoc, ← List.append_assoc]
    exact .reply htype hvalues (.long hlt (isNumber_writeVaruint _) (isNumber_writeVaruint _)) hr

/-- No subframe of a reply starts with the padding. -/
theorem parseRegisterReply_replicate (k : ℕ) :
    parseRegisterReply (List.replicate k 0x50) = [] := by
  cases k with
  | zero => rfl
  | succ k =>
    have hread := ReadStream.readVaruint_writeVaruint 0x50 (List.replicate k 0x50)
    have hnone : parseSubframe (writeVaruint 0x50 ++ List.replicate k 0x50)
        = (none, List.replicate k 0x50) := by
      rw [parseSubframe, hread]
      rfl
    exact parseRegisterReply_of_none hnone

end RegisterReply

/-! ### What the client's tunnel takes -/

namespace StreamAsioClient

variable (env : Env) (t : Tunnel) (frame : Frame)

theorem tunnelData_of_type {payload rest : Bytes} {type : UInt32}
    (h : ReadStream.readVaruint payload = (some type, rest))
    (htype : type.toNat ≠ Subframe.kServerToClient) :
    tunnelData env t { frame with payload := payload } = none := by
  rw [tunnelData]
  split_ifs
  · rfl
  · dsimp only
    rw [h]
    exact if_pos htype

/-- A subframe of the register service starts with a type of its own. -/
theorem exists_type_of_isSubframe {values : List RegisterValue} {e : Bytes}
    (h : RegisterReply.IsSubframe values e) : ∃ type ds tail, e = ds ++ tail ∧ IsNumber type ds ∧
      type.toNat ≠ Subframe.kServerToClient := by
  cases h with
  | @reply type start values hs rs htype hvalues hh hr =>
    cases hh with
    | short hpos h4 h =>
      refine ⟨_, _, _, rfl, h, ?_⟩
      rw [toNat_ofNat_of_lt (by rw [Subframe.kReplyBase]; omega), Subframe.kReplyBase,
        Subframe.kServerToClient]
      omega
    | long hlt h hc =>
      refine ⟨_, _, _, List.append_assoc _ _ _, h, ?_⟩
      rw [toNat_ofNat_of_lt (by rw [Subframe.kReplyBase]; omega), Subframe.kReplyBase,
        Subframe.kServerToClient]
      omega
  | error hkind hk hr hc =>
    refine ⟨_, _, _, rfl, hk, ?_⟩
    rcases hkind with rfl | rfl <;> decide

/-- From a reply of the register service the tunnel takes nothing. -/
theorem tunnelData_padded_of_isReply {values : List RegisterValue} {reply : Bytes}
    (h : RegisterReply.IsReply values reply) :
    tunnelData env t { frame with payload := padded reply }
      = tunnelData env t { frame with payload := reply } := by
  cases h with
  | nil => rfl
  | @cons vs vs' e r h hr =>
    obtain ⟨type, ds, tail, rfl, hds, htype⟩ := exists_type_of_isSubframe h
    have hread := hds.read (tail ++ r)
    rw [← List.append_assoc] at hread
    obtain ⟨k, -, hpad⟩ := FdcanusbFrameStream.exists_padded (ds ++ tail ++ r)
    have hread' := hds.read (tail ++ (r ++ List.replicate k 0x50))
    rw [← List.append_assoc, ← List.append_assoc, ← hpad] at hread'
    rw [tunnelData_of_type env t frame hread htype, tunnelData_of_type env t frame hread' htype]

/-- The response of a tunnel, with the number of bytes as `MicroServer` computes it. -/
def IsTunnelReply (reply : Bytes) : Prop :=
  ∃ (channel : UInt32) (n : ℤ) (pending : Bytes), n ≤ pending.length ∧ -2 ^ 32 + 64 < n ∧
    n < 2 ^ 32 ∧
    reply = writeVaruint (UInt32.ofNat Subframe.kServerToClient) ++ (writeVaruint channel ++
      (writeVaruint (UInt32.ofNat (n % 2 ^ 32).toNat) ++ pending.take n.toNat))

/-- From the response of a tunnel the client takes the data, and from one without room nothing. -/
theorem tunnelData_padded_of_isTunnelReply {reply : Bytes} (h : IsTunnelReply reply) :
    tunnelData env t { frame with payload := padded reply }
      = tunnelData env t { frame with payload := reply } := by
  obtain ⟨k, hk, hpad⟩ := FdcanusbFrameStream.exists_padded reply
  obtain ⟨channel, n, pending, hle, hmin, hmax, rfl⟩ := h
  have hmod : (UInt32.ofNat (n % 2 ^ 32).toNat).toNat = (n % 2 ^ 32).toNat :=
    toNat_ofNat_of_lt (by omega)
  have hlen : (pending.take n.toNat).length = n.toNat := by
    rw [List.length_take]
    omega
  rw [hpad, tunnelData, tunnelData]
  dsimp only
  simp only [List.append_assoc, ReadStream.readVaruint_writeVaruint, hmod]
  rw [List.length_append, List.length_replicate, hlen]
  by_cases hneg : n < 0
  · -- the number is some four billion, with or without the padding
    have hbig : (n % 2 ^ 32).toNat > n.toNat + k := by omega
    have hbig' : (n % 2 ^ 32).toNat > n.toNat := by omega
    simp only [hbig, hbig', if_true]
  · have heq : (n % 2 ^ 32).toNat = n.toNat := by omega
    have hfits : ¬ n.toNat > n.toNat + k := by omega
    simp only [heq, hfits, gt_iff_lt, lt_irrefl, if_false]
    rw [List.take_append_of_le_length hlen.ge]

end StreamAsioClient

theorem RegisterReply.parseRegisterReply_padded_of_isReply {values : List RegisterValue}
    {reply : Bytes} (h : IsReply values reply) :
    parseRegisterReply (padded reply) = parseRegisterReply reply := by
  obtain ⟨k, -, hpad⟩ := FdcanusbFrameStream.exists_padded reply
  have hnil := parseRegisterReply_of_isReply h []
  rw [List.append_nil, parseRegisterReply_nil] at hnil
  rw [hpad, parseRegisterReply_of_isReply h, parseRegisterReply_replicate, hnil]

theorem RegisterReply.parseRegisterReply_padded_of_isTunnelReply {reply : Bytes}
    (h : StreamAsioClient.IsTunnelReply reply) :
    parseRegisterReply (padded reply) = parseRegisterReply reply := by
  obtain ⟨k, -, hpad⟩ := FdcanusbFrameStream.exists_padded reply
  obtain ⟨channel, n, pending, -, -, -, rfl⟩ := h
  have hnone : ∀ rest : Bytes, parseRegisterReply
      (writeVaruint (UInt32.ofNat Subframe.kServerToClient) ++ rest) = [] := by
    intro rest
    have hsubframe : parseSubframe (writeVaruint (UInt32.ofNat Subframe.kServerToClient) ++ rest)
        = (none, rest) := by
      rw [parseSubframe, ReadStream.readVaruint_writeVaruint]
      rfl
    exact parseRegisterReply_of_none hsubframe
  rw [hpad, List.append_assoc, hnone, hnone]

namespace MicroServer

open RequestSubframe (Encodes bytes registers)
open RegisterReply (parseRegisterReply replyHead errorEntry IsReply IsSubframe)
open StreamAsioClient (IsTunnelReply)

variable {σ τ : Type*} {env : Env σ τ} {s s' s'' : State σ τ}

/-! ### What follows -/

/-- The bytes take the server to `s'`, and from there it goes on with whatever follows, or with
nothing at all. -/
def Leads (env : Env σ τ) (e : Bytes) (s s' : State σ τ) : Prop :=
  (∀ rest, processSubframes env (e ++ rest) s = processSubframes env rest s') ∨
    ∀ rest, processSubframes env (e ++ rest) s = s'

theorem Leads.of_pass {e : Bytes} (next : Bool) (hne : e ≠ [])
    (h : ∀ rest, ∃ str, processSubframe env (e ++ rest) s = (next, str, s') ∧
      (next = true → str = rest)) : Leads env e s s' := by
  have hne' : ∀ rest, e ++ rest ≠ [] := fun rest => List.append_ne_nil_of_left_ne_nil hne rest
  cases next with
  | true =>
    refine Or.inl fun rest => ?_
    obtain ⟨str, hpass, hstr⟩ := h rest
    obtain rfl := hstr rfl
    exact processSubframes_of_next (hne' _) hpass
  | false =>
    refine Or.inr fun rest => ?_
    obtain ⟨str, hpass, -⟩ := h rest
    exact processSubframes_of_return (hne' _) hpass

theorem processSubframes_replicate (k : ℕ) (s : State σ τ) :
    processSubframes env (List.replicate k 0x50) s = s := by
  induction k with
  | zero => rfl
  | succ k ih =>
    have hnop : processSubframe env (0x50 :: List.replicate k 0x50) s
        = (true, List.replicate k 0x50, s) :=
      processSubframe_nop env (.nop (isVaruint_writeVaruint _)) (List.replicate k 0x50) s
    rw [List.replicate_succ, processSubframes_of_next (List.cons_ne_nil _ _) hnop, ih]

theorem Leads.eq {e : Bytes} (h : Leads env e s s') : processSubframes env e s = s' := by
  rcases h with h | h
  · simpa using h []
  · simpa using h []

theorem Leads.padded {e : Bytes} (h : Leads env e s s') :
    processSubframes env (padded e) s = s' := by
  obtain ⟨k, -, hpad⟩ := FdcanusbFrameStream.exists_padded e
  rw [hpad]
  rcases h with h | h
  · rw [h, processSubframes_replicate]
  · exact h _

/-! ### Requests -/

/-- The response is a sequence of replies. -/
def Answering (s : State σ τ) : Prop := s.hasResponse = true ∧ ∃ values, IsReply values s.reply

theorem Answering.append (h : Answering s) {values : List RegisterValue} {e : Bytes}
    (he : IsSubframe values e) (hresp : s'.hasResponse = true) (hreply : s'.reply = s.reply ++ e) :
    Answering s' := by
  obtain ⟨values', hvalues'⟩ := h.2
  refine ⟨hresp, values' ++ values, ?_⟩
  rw [hreply]
  exact RegisterReply.isReply_append hvalues' (RegisterReply.isReply_of_isSubframe he)

theorem reply_emitWriteError (h : s.hasResponse = true) (reg : Register) (error : UInt32) :
    (emitWriteError reg error s).reply
      = s.reply ++ errorEntry Subframe.kWriteError reg error := by
  rw [emitWriteError, State.respondVaruint, State.respondVaruint, State.respondVaruint,
    reply_respond (by rw [hasResponse_respond, hasResponse_respond, h]),
    reply_respond (by rw [hasResponse_respond, h]), reply_respond h, errorEntry, List.append_assoc,
    List.append_assoc]

theorem Answering.emitWriteError (h : Answering s) (reg : Register) (error : UInt32) :
    Answering (emitWriteError reg error s) :=
  h.append (RegisterReply.isSubframe_errorEntry (Or.inl rfl) reg error)
    ((hasResponse_emitWriteError s reg error).trans h.1) (reply_emitWriteError h.1 reg error)

theorem answering_writeValues (values : List Value) : ∀ (reg : Register) {s : State σ τ},
    Answering s → Answering (writeValues env values reg s).2 := by
  induction values with
  | nil => exact fun _ _ h => h
  | cons value values ih =>
    intro reg s h
    rw [writeValues, serverWrite]
    rcases env.server.write s.server reg value with ⟨st, _ | _ | _ | _⟩
    · exact ih (reg + 1) h
    · have h' : Answering { s with
          server := st, calls := s.calls ++ [.write reg value .unknownRegister] } := h
      exact ih (reg + 1) (h'.emitWriteError reg 1)
    · have h' : Answering { s with
          server := st, calls := s.calls ++ [.write reg value .notWriteable] } := h
      exact ih (reg + 1) (h'.emitWriteError reg 2)
    · exact h

/-- A pass over a subframe of a request, whatever follows it. -/
theorem leads_of_register (htyped : env.server.Typed) {sf : RequestSubframe} {e : Bytes}
    (he : sf.Encodes e) (hreg : sf.isRegister) (h : Answering s) :
    ∃ s', Answering s' ∧ Leads env e s s' := by
  cases sf with
  | nop => exact hreg.elim
  | clientToServer channel data => exact hreg.elim
  | clientPollServer channel maxBytes => exact hreg.elim
  | write type start values =>
    refine ⟨(writeValues env values start s).2, answering_writeValues values start h,
      .of_pass (!(writeValues env values start s).1) he.ne_nil fun rest => ?_⟩
    obtain ⟨str, hpass, hstr⟩ := processSubframe_write env he rest s
    exact ⟨str, hpass, fun hnext => hstr (by simpa using hnext)⟩
  | read type start count explicit =>
    obtain ⟨htype, hlt, hexp⟩ := bounds_of_encodes_read he
    have hhead : (respondHead type start count explicit s).hasResponse = true :=
      (hasResponse_respondHead type start count explicit).trans h.1
    have hserver := server_respondHead (s := s) type start count explicit
    have hpass := fun rest => processSubframe_read env he rest h.1
    by_cases hvalues : ∀ r ∈ registers start count, ∃ v,
        env.server.read s.server r type = .value v
    · obtain ⟨values, s', hrun, hlen, hindex, -, -, hresp', -, hreply⟩ :=
        readRegisters_of_values s.responsePosition hhead (fun r hr => by
          obtain ⟨v, hv⟩ := hvalues r hr
          rw [hserver]
          exact ⟨v, htyped s.server r type v htype hv, hv⟩)
      rw [hrun] at hpass
      subst hlen
      refine ⟨s', h.append (RegisterReply.isSubframe_reply start htype hindex hlt hexp) hresp' ?_,
        .of_pass true he.ne_nil fun rest => ⟨rest, hpass rest, fun _ => rfl⟩⟩
      rw [hreply, reply_respondHead h.1, List.append_assoc]
    · have hposition : s.responsePosition
          ≤ (respondHead type start count explicit s).reply.length := by
        rw [responsePosition_eq h.1, reply_respondHead h.1, List.length_append]
        omega
      obtain ⟨r, error, s', hrun, -, -, hreply⟩ :=
        readRegisters_of_error hhead hposition (by rwa [hserver])
      have hresp' : s'.hasResponse = true := by
        have hshape : shape (readRegisters env type s.responsePosition count start
              (respondHead type start count explicit s)).2
            = shape (respondHead type start count explicit s) :=
          shape_readRegisters _ _ _ _ _
        rw [hrun] at hshape
        exact (congrArg Prod.fst hshape).trans hhead
      rw [hrun] at hpass
      rw [responsePosition_eq h.1, reply_respondHead h.1, List.take_left] at hreply
      have hs' : Answering s' :=
        h.append (RegisterReply.isSubframe_errorEntry (Or.inr rfl) r error) hresp' hreply
      refine ⟨{ s' with stats.malformedSubframe := s'.stats.malformedSubframe + 1 }, hs',
        .of_pass false he.ne_nil fun rest => ⟨rest, hpass rest, ?_⟩⟩
      exact fun hnext => nomatch hnext

theorem leads_of_registers (htyped : env.server.Typed) {L : List (RequestSubframe × Bytes)} :
    ∀ {s : State σ τ}, (∀ p ∈ L, p.1.Encodes p.2) → (∀ p ∈ L, p.1.isRegister) → Answering s →
    ∃ s', Answering s' ∧ Leads env (bytes L) s s' := by
  induction L with
  | nil => exact fun {s} _ _ h => ⟨s, h, Or.inl fun _ => rfl⟩
  | cons p L ih =>
    intro s henc hreg h
    obtain ⟨s₁, h₁, hfirst⟩ := leads_of_register htyped (henc p (by simp)) (hreg p (by simp)) h
    obtain ⟨s₂, h₂, hrest⟩ := ih (fun q hq => henc q (List.mem_cons_of_mem _ hq))
      (fun q hq => hreg q (List.mem_cons_of_mem _ hq)) h₁
    rw [RequestSubframe.bytes_cons]
    rcases hfirst with hfirst | hfirst
    · have hgo : ∀ rest, processSubframes env (p.2 ++ bytes L ++ rest) s
          = processSubframes env (bytes L ++ rest) s₁ := fun rest => by
        rw [List.append_assoc, hfirst]
      refine ⟨s₂, h₂, hrest.imp ?_ ?_⟩
      · exact fun hrest rest => (hgo rest).trans (hrest rest)
      · exact fun hrest rest => (hgo rest).trans (hrest rest)
    · refine ⟨s₁, h₁, Or.inr fun rest => ?_⟩
      rw [List.append_assoc]
      exact hfirst _

/-- The payload of a `RegisterRequest`; the values of a call are of one type. -/
def IsRequest (payload : Bytes) : Prop :=
  ∃ ops r, RegisterRequest.build ops = some r ∧ (∀ op ∈ ops, op.OneType) ∧ r.buffer = payload

theorem leads_of_isRequest (htyped : env.server.Typed) {payload : Bytes}
    (hlen : payload.length ≤ 64) (h : IsRequest payload) (hs : Answering s) :
    ∃ s', Answering s' ∧ Leads env payload s s' := by
  obtain ⟨ops, r, hbuild, htype, rfl⟩ := h
  obtain ⟨L, hbytes, hmap, henc⟩ := RegisterRequest.encodes_of_build hbuild htype (by omega)
  have hreg : ∀ p ∈ L, p.1.isRegister := by
    intro p hp
    have hmem : p.1 ∈ ops.map RegisterRequest.Op.subframe := hmap ▸ List.mem_map_of_mem hp
    obtain ⟨op, -, hop⟩ := List.mem_map.mp hmem
    exact hop ▸ op.isRegister_subframe
  rw [hbytes]
  exact leads_of_registers htyped henc hreg hs

/-! ### Tunnel frames -/

/-- The payload is one tunnel frame, whose data fits the tunnel if there is one. -/
inductive IsTunnelFrame (s : State σ τ) : Bytes → Prop
  | clientToServer {channel : UInt32} {data e : Bytes}
      (h : Encodes (.clientToServer channel data) e)
      (hfits : ∀ i, findTunnel channel s = some i → data.length ≤ (s.tunnel i).remainingSpace) :
      IsTunnelFrame s e
  | clientPollServer {channel maxBytes : UInt32} {e : Bytes}
      (h : Encodes (.clientPollServer channel maxBytes) e) : IsTunnelFrame s e

theorem processSubframe_of_unknown {channel : UInt32} {sf : RequestSubframe} {e : Bytes}
    (h : sf.Encodes e)
    (hsf : (∃ data, sf = .clientToServer channel data) ∨ ∃ m, sf = .clientPollServer channel m)
    (hi : findTunnel channel s = none) (rest : Bytes) : ∃ str, processSubframe env (e ++ rest) s
      = (false, str, { s with stats.malformedSubframe := s.stats.malformedSubframe + 1 }) := by
  rcases hsf with ⟨data, rfl⟩ | ⟨m, rfl⟩
  · cases h with
    | @clientToServer _ _ ds cs ls h hc hlt hl =>
      refine ⟨data ++ rest, ?_⟩
      simp only [List.append_assoc]
      rw [processSubframe_of_clientToServer env (h.read _) (by decide),
        processSubframeClientToServer, hc.read]
      dsimp only
      rw [hl.read]
      dsimp only
      rw [toNat_ofNat_of_lt hlt, if_neg (by rw [List.length_append]; omega), hi]
  · cases h with
    | @clientPollServer _ _ ds cs ms h hc hm =>
      refine ⟨rest, ?_⟩
      rw [List.append_assoc, List.append_assoc,
        processSubframe_of_clientPollServer env (h.read _) (by decide),
        processSubframeClientPollServer, hc.read]
      dsimp only
      rw [hm.read]
      dsimp only
      rw [hi]

theorem overruns_of_fits {channel : UInt32} {data e : Bytes}
    (h : Encodes (.clientToServer channel data) e) (rest : Bytes) {i : ℕ}
    (hi : findTunnel channel s = some i) (hfits : data.length ≤ (s.tunnel i).remainingSpace) :
    overruns (e ++ rest) s = false := by
  cases h with
  | @clientToServer _ _ ds cs ls h hc hlt hl =>
    have hdata := dataOverruns_eq hc hlt hl rest hi
    rw [decide_eq_false (by omega)] at hdata
    simp only [List.append_assoc]
    rw [overruns, h.read]
    simpa using fun _ => hdata

theorem isTunnelReply_tunnelResponse (hmin : -2 ^ 31 ≤ env.maxSize) (hmax : env.maxSize < 2 ^ 31)
    (channel : UInt32) (maxBytes : Option UInt32) (i bufferSize : ℕ)
    (h : s.response = some (.new bufferSize)) :
    IsTunnelReply (tunnelResponse env channel maxBytes i s).reply := by
  have hnil : s.reply = [] := by
    rw [State.reply, h]
    rfl
  obtain ⟨hshort, hroom, hle, hpending, -⟩ := toCopy_headed env channel maxBytes i h
  have hsize : getVaruintSize channel ≤ 5 := by
    rw [getVaruintSize_eq]
    exact length_writeVaruint_le channel
  have hoverhead : kNeededOverhead = 23 := rfl
  have hremaining : ((s.response.map (·.remaining)).getD 0) = bufferSize := by
    rw [h]
    exact Int.sub_zero _
  rw [room, hremaining] at hshort hroom
  rw [reply_tunnelResponse channel maxBytes i h, hnil, List.nil_append]
  refine ⟨channel, _, (s.tunnel i).writeBuffer, hpending, ?_, by omega, by
    simp only [List.append_assoc]⟩
  omega

/-- A pass over a tunnel frame, whatever follows it. -/
theorem leads_of_isTunnelFrame (hmin : -2 ^ 31 ≤ env.maxSize) (hmax : env.maxSize < 2 ^ 31)
    {payload : Bytes} (h : IsTunnelFrame s payload) {bufferSize : ℕ}
    (hs : s.response = some (.new bufferSize)) :
    ∃ s', (s'.reply = [] ∨ IsTunnelReply s'.reply) ∧ Leads env payload s s' := by
  have hnil : s.reply = [] := by
    rw [State.reply, hs]
    rfl
  have hunknown : ∀ {channel : UInt32} {sf : RequestSubframe}, sf.Encodes payload →
      ((∃ data, sf = .clientToServer channel data) ∨ ∃ m, sf = .clientPollServer channel m) →
      findTunnel channel s = none →
      ∃ s', (s'.reply = [] ∨ IsTunnelReply s'.reply) ∧ Leads env payload s s' := by
    intro channel sf hsf hkind hi
    refine ⟨{ s with stats.malformedSubframe := s.stats.malformedSubframe + 1 }, Or.inl hnil,
      .of_pass false hsf.ne_nil fun rest => ?_⟩
    obtain ⟨str, hpass⟩ := processSubframe_of_unknown hsf hkind hi rest
    exact ⟨str, hpass, fun h => by cases h⟩
  cases h with
  | @clientToServer channel data _ henc hfits =>
    cases hi : findTunnel channel s with
    | none => exact hunknown henc (Or.inl ⟨data, rfl⟩) hi
    | some i =>
      have hpass := fun rest => processSubframe_clientToServer env henc rest hi
        (overruns_of_fits henc rest hi (hfits i hi))
      refine ⟨_, Or.inr ?_, .of_pass true henc.ne_nil fun rest => ⟨rest, hpass rest, fun _ => rfl⟩⟩
      refine isTunnelReply_tunnelResponse hmin hmax channel none i bufferSize ?_
      rw [← hs]
      exact response_doReadTransfer env _ i
  | @clientPollServer channel maxBytes _ henc =>
    cases hi : findTunnel channel s with
    | none => exact hunknown henc (Or.inr ⟨maxBytes, rfl⟩) hi
    | some i =>
      have hpass := fun rest => processSubframe_clientPollServer env henc rest hi
      refine ⟨_, Or.inr ?_, .of_pass true henc.ne_nil fun rest => ⟨rest, hpass rest, fun _ => rfl⟩⟩
      exact isTunnelReply_tunnelResponse hmin hmax channel (some maxBytes) i bufferSize hs

/-! ### Frames -/

/-- The state in which the subframes of a frame with a response are processed. -/
def opened (env : Env σ τ) (bufferSize : ℕ) (stats : Stats) (s : State σ τ) : State σ τ :=
  { s with
    stats := stats
    server := env.server.startFrame s.server
    response := some (.new bufferSize) }

/-- What is done when the subframes are processed. -/
def finished (env : Env σ τ) (s : State σ τ) : Option Bytes × State σ τ :=
  let (server, action) := env.server.completeFrame s.server
  let response := s.response.map (·.data)
  let s := { s with server := server, response := none }
  match action with
  | .discard => (none, { s with stats.discards := s.stats.discards + 1 })
  | .accept => (response, s)

variable (env) in
/-- A frame that asks for a response is not for this server, or is processed with one. -/
theorem processFrame_of_reply {source : ℕ} (hreply : source &&& 0x80 ≠ 0) (destination : ℕ)
    (id : UInt8) (bufferSize : ℕ) (s : State σ τ) :
    (∃ s', ∀ subframes, processFrame env source destination id bufferSize false subframes s
        = (none, s')) ∨
      ∃ stats, ∀ subframes, processFrame env source destination id bufferSize false subframes s
        = finished env (processSubframes env subframes (opened env bufferSize stats s)) := by
  by_cases hmine : destination = (id &&& 0x7f).toNat ∧ destination ≠ kBroadcastId
  · refine Or.inr ⟨s.stats, fun subframes => ?_⟩
    rw [processFrame]
    dsimp only
    rw [if_pos hmine, if_neg (fun h => h.1 hmine), if_pos ⟨hreply, rfl⟩]
    rfl
  · by_cases hbroadcast : destination = kBroadcastId
    · refine Or.inr ⟨{ s.stats with wrongId := s.stats.wrongId + 1 }, fun subframes => ?_⟩
      rw [processFrame]
      dsimp only
      rw [if_neg hmine, if_neg (fun h => h.2 hbroadcast), if_pos ⟨hreply, rfl⟩]
      rfl
    · refine Or.inl ⟨{ s with stats.wrongId := s.stats.wrongId + 1 }, fun subframes => ?_⟩
      rw [processFrame]
      dsimp only
      rw [if_neg hmine, if_pos ⟨hmine, hbroadcast⟩]

theorem reply_of_finished {reply : Bytes} (h : (finished env s).1 = some reply) :
    s.reply = reply := by
  rw [finished] at h
  rcases hcomplete : env.server.completeFrame s.server with ⟨server, _ | _⟩
  · rw [hcomplete] at h
    dsimp only at h
    rw [State.reply, h, Option.getD_some]
  · rw [hcomplete] at h
    cases h

/-- Neither `ParseRegisterReply` nor the client's tunnel sees the padding. -/
def Neutral (reply : Bytes) : Prop :=
  parseRegisterReply (padded reply) = parseRegisterReply reply ∧
    ∀ (client : StreamAsioClient.Env) (t : StreamAsioClient.Tunnel) (frame : Frame),
      StreamAsioClient.tunnelData client t { frame with payload := padded reply }
        = StreamAsioClient.tunnelData client t { frame with payload := reply }

theorem neutral_of_isReply {values : List RegisterValue} {reply : Bytes}
    (h : IsReply values reply) : Neutral reply :=
  ⟨RegisterReply.parseRegisterReply_padded_of_isReply h, fun client t frame =>
    StreamAsioClient.tunnelData_padded_of_isReply client t frame h⟩

theorem neutral_of_isTunnelReply {reply : Bytes} (h : IsTunnelReply reply) : Neutral reply :=
  ⟨RegisterReply.parseRegisterReply_padded_of_isTunnelReply h, fun client t frame =>
    StreamAsioClient.tunnelData_padded_of_isTunnelReply client t frame h⟩

/-- **Padding is neutral**: behind a request whose calls each write values of one type, or behind
one tunnel frame, `MicroServer` does the same with and without it; behind the response it changes
neither what `ParseRegisterReply` finds nor what the client's tunnel takes. -/
theorem padding_neutral (htyped : env.server.Typed) (hmin : -2 ^ 31 ≤ env.maxSize)
    (hmax : env.maxSize < 2 ^ 31) {source : ℕ} (hreply : source &&& 0x80 ≠ 0) (destination : ℕ)
    (id : UInt8) (bufferSize : ℕ) {payload : Bytes} (hlen : payload.length ≤ 64) {s : State σ τ}
    (h : IsRequest payload ∨ IsTunnelFrame s payload) :
    processFrame env source destination id bufferSize false (padded payload) s
        = processFrame env source destination id bufferSize false payload s ∧
      ∀ reply, (processFrame env source destination id bufferSize false payload s).1 = some reply →
        Neutral reply := by
  rcases processFrame_of_reply env hreply destination id bufferSize s with
    ⟨s', hs'⟩ | ⟨stats, hstats⟩
  · rw [hs', hs']
    exact ⟨rfl, fun reply hreply => nomatch hreply⟩
  · obtain ⟨s', hneutral, hleads⟩ : ∃ s', Neutral s'.reply ∧
        Leads env payload (opened env bufferSize stats s) s' := by
      rcases h with h | h
      · obtain ⟨s', ⟨-, values, hvalues⟩, hleads⟩ :=
          leads_of_isRequest htyped hlen h (s := opened env bufferSize stats s) ⟨rfl, [], .nil⟩
        exact ⟨s', neutral_of_isReply hvalues, hleads⟩
      · have h' : IsTunnelFrame (opened env bufferSize stats s) payload := by
          cases h with
          | clientToServer h hfits => exact .clientToServer h hfits
          | clientPollServer h => exact .clientPollServer h
        obtain ⟨s', hs', hleads⟩ := leads_of_isTunnelFrame hmin hmax h' rfl
        refine ⟨s', ?_, hleads⟩
        rcases hs' with hs' | hs'
        · rw [hs']
          exact neutral_of_isReply .nil
        · exact neutral_of_isTunnelReply hs'
    rw [hstats, hstats, hleads.padded, hleads.eq]
    refine ⟨rfl, fun reply hfinished => ?_⟩
    rw [← reply_of_finished hfinished]
    exact hneutral

/-- A read of four registers and a write, of nine bytes, answered with eleven. -/
theorem padding_neutral_readMultiple :
    processFrame plainEnv 0x80 1 1 256 false
        (padded [0x14, 0x04, 0x05, 0x09, 0x08, 0x00, 0x00, 0x00, 0x00])
        { server := (), client := (), tunnels := [] }
      = processFrame plainEnv 0x80 1 1 256 false
        [0x14, 0x04, 0x05, 0x09, 0x08, 0x00, 0x00, 0x00, 0x00]
        { server := (), client := (), tunnels := [] } ∧
    ∀ reply, (processFrame plainEnv 0x80 1 1 256 false
        [0x14, 0x04, 0x05, 0x09, 0x08, 0x00, 0x00, 0x00, 0x00]
        { server := (), client := (), tunnels := [] }).1 = some reply → Neutral reply := by
  have htype : ∀ op ∈ [RegisterRequest.Op.readMultiple 5 4 1, .writeSingle 8 (.int32 0)],
      op.OneType := by
    intro op hop
    simp only [List.mem_cons, List.not_mem_nil, or_false] at hop
    rcases hop with rfl | rfl <;> trivial
  exact padding_neutral plainEnv_typed (by decide) (by decide) (by decide) 1 1 256 (by decide)
    (Or.inl ⟨[.readMultiple 5 4 1, .writeSingle 8 (.int32 0)],
      ⟨[0x14, 0x04, 0x05, 0x09, 0x08, 0x00, 0x00, 0x00, 0x00], true⟩, by decide, htype, rfl⟩)

/-- The second value of a write is of a smaller type than the first: its missing byte is taken from
the padding, and the server is called once more. -/
theorem not_padding_neutral : ¬ ∀ (ops : List RegisterRequest.Op) (r : RegisterRequest),
    RegisterRequest.build ops = some r → r.buffer.length ≤ 64 →
    (processFrame plainEnv 0x80 1 1 256 false (padded r.buffer)
        { server := (), client := (), tunnels := [] }).2.calls
      = (processFrame plainEnv 0x80 1 1 256 false r.buffer
        { server := (), client := (), tunnels := [] }).2.calls := by
  intro h
  have hcalls := h [.writeSingle 1 (.int16 0), .writeMultiple 2 [.int16 0, .int8 1]]
    ⟨[0x05, 0x01, 0x00, 0x00, 0x06, 0x02, 0x00, 0x00, 0x01], false⟩ (by decide) (by decide)
  exact absurd hcalls (by decide)

end MicroServer

end Mjlib.Multiplex
