import Mjlib.Multiplex.Equiv.MicroServer.Subframe

/-!
# The register service from end to end

`registerRpc`: the calls that built a `RegisterRequest` are the accesses `MicroServer` makes for its
bytes, in the same order, and `ParseRegisterReply` finds in the response what the server returned for
each register that was read.  `readRegisters_of_values` and `readRegisters_of_error` say what one read
writes to the response, `writeValues_of_success` what one write does.
-/

namespace Mjlib.Multiplex

/-- What is asked of the server about one register. -/
inductive Access
  | write (reg : Register) (value : Value)
  | read (reg : Register) (type : ℕ)
deriving DecidableEq, Repr

namespace RequestSubframe

theorem registers_succ (start : Register) (n : ℕ) :
    registers start (n + 1) = start :: registers (start + 1) n := by
  rw [registers, registers, List.range_succ_eq_map, List.map_cons, List.map_map]
  congr 1
  · exact UInt32.add_zero start
  · apply List.map_congr_left
    intro i _
    rw [Function.comp_apply, Nat.succ_eq_add_one, UInt32.ofNat_add, UInt32.add_comm (UInt32.ofNat i),
      ← UInt32.add_assoc]
    rfl

theorem length_registers (start : Register) (n : ℕ) : (registers start n).length = n := by
  simp [registers]

/-- The accesses a subframe asks for. -/
def accesses : RequestSubframe → List Access
  | .write _ start values => List.zipWith Access.write (registers start values.length) values
  | .read type start count _ => (registers start count).map (Access.read · type)
  | _ => []

/-- The subframe is about registers. -/
def isRegister : RequestSubframe → Prop
  | .write _ _ _ => True
  | .read _ _ _ _ => True
  | _ => False

end RequestSubframe

/-- The accesses a call of the request asks for. -/
def RegisterRequest.Op.accesses : RegisterRequest.Op → List Access
  | .readSingle reg typeIndex => [.read reg typeIndex]
  | .readMultiple reg numRegisters typeIndex =>
    (RequestSubframe.registers reg numRegisters.toNat).map (Access.read · typeIndex)
  | .writeSingle reg value => [.write reg value]
  | .writeMultiple startReg values =>
    List.zipWith Access.write (RequestSubframe.registers startReg values.length) values

theorem RegisterRequest.Op.accesses_subframe (op : RegisterRequest.Op) :
    op.subframe.accesses = op.accesses := by
  cases op with
  | readSingle reg typeIndex =>
    rw [subframe, RequestSubframe.accesses, RequestSubframe.registers_succ]
    rfl
  | readMultiple reg numRegisters typeIndex => rfl
  | writeSingle reg value =>
    rw [subframe, RequestSubframe.accesses, List.length_singleton, RequestSubframe.registers_succ]
    rfl
  | writeMultiple startReg values => rfl

theorem RegisterRequest.Op.isRegister_subframe (op : RegisterRequest.Op) :
    op.subframe.isRegister := by
  cases op <;> trivial

namespace MicroServer

open RequestSubframe (Encodes bytes registers registers_succ)
open RegisterReply (parseRegisterReply named replyHead errorEntry)

variable {σ τ : Type*} {env : Env σ τ} {s : State σ τ}

/-! ### The response -/

/-- The response so far. -/
def State.reply (s : State σ τ) : Bytes := (s.response.map (·.data)).getD []

theorem exists_response (h : s.hasResponse = true) : ∃ w, s.response = some w :=
  Option.isSome_iff_exists.mp h

theorem responsePosition_eq (h : s.hasResponse = true) : s.responsePosition = s.reply.length := by
  obtain ⟨w, hw⟩ := exists_response h
  rw [State.responsePosition, State.reply, hw]
  rfl

theorem reply_respond (h : s.hasResponse = true) (bytes : Bytes) :
    (s.respond bytes).reply = s.reply ++ bytes := by
  obtain ⟨w, hw⟩ := exists_response h
  rw [State.reply, State.reply, State.respond, hw]
  rfl

theorem reply_resetResponse (position : ℕ) :
    (s.resetResponse position).reply = s.reply.take position := by
  rw [State.reply, State.reply, State.resetResponse]
  cases s.response with
  | none => exact List.take_nil.symm
  | some w => rfl

theorem reply_respondHead (h : s.hasResponse = true) (type : ℕ) (start : Register) (count : ℕ)
    (explicit : Bool) :
    (respondHead type start count explicit s).reply
      = s.reply ++ replyHead type start count explicit := by
  have h1 := reply_respond h (writeVaruint
    (UInt32.ofNat (Subframe.kReplyBase + (type * 4 + if explicit then 0 else count))))
  have hr1 : (s.respondVaruint (UInt32.ofNat
    (Subframe.kReplyBase + (type * 4 + if explicit then 0 else count)))).hasResponse = true := by
    rw [hasResponse_respondVaruint, h]
  rw [respondHead, replyHead]
  cases explicit with
  | false =>
    rw [if_neg (by decide), State.respondVaruint, reply_respond hr1, State.respondVaruint, h1,
      List.append_assoc]
    rfl
  | true =>
    rw [if_pos rfl, State.respondVaruint,
      reply_respond (by rw [hasResponse_respondVaruint, hr1]), State.respondVaruint,
      reply_respond hr1, State.respondVaruint, h1, List.append_assoc, List.append_assoc]
    rfl

theorem hasResponse_respondHead (type : ℕ) (start : Register) (count : ℕ) (explicit : Bool) :
    (respondHead type start count explicit s).hasResponse = s.hasResponse := by
  cases explicit <;> simp [respondHead]

theorem core_respondHead (type : ℕ) (start : Register) (count : ℕ) (explicit : Bool) :
    core (respondHead type start count explicit s) = core s := by
  cases explicit <;> rfl

theorem server_respondHead (type : ℕ) (start : Register) (count : ℕ) (explicit : Bool) :
    (respondHead type start count explicit s).server = s.server :=
  congrArg Prod.fst (core_respondHead type start count explicit)

theorem calls_respondHead (type : ℕ) (start : Register) (count : ℕ) (explicit : Bool) :
    (respondHead type start count explicit s).calls = s.calls :=
  congrArg (·.2.1) (core_respondHead (s := s) type start count explicit)

/-! ### One read -/

theorem serverRead_spec (reg : Register) (type : ℕ) (s : State σ τ) :
    ∃ s', serverRead env reg type s = (env.server.read s.server reg type, s') ∧
      s'.server = s.server ∧ s'.response = s.response ∧
      s'.calls = s.calls ++ [.read reg type (env.server.read s.server reg type)] :=
  ⟨_, rfl, rfl, rfl, rfl⟩

/-- What the registers of a read are answered with. -/
def readCalls (env : Env σ τ) (type : ℕ) (start : Register) (count : ℕ) (server : σ) : List Call :=
  (registers start count).map fun reg => .read reg type (env.server.read server reg type)

/-- A read of registers that all have a value writes the values. -/
theorem readRegisters_of_values {type n : ℕ} (start : ℕ) : ∀ {s : State σ τ} {reg : Register},
    s.hasResponse = true →
    (∀ r ∈ registers reg n, ∃ v, v.index = type ∧ env.server.read s.server r type = .value v) →
    ∃ (values : List Value) (s' : State σ τ), readRegisters env type start n reg s = (false, s') ∧
      values.length = n ∧ (∀ v ∈ values, v.index = type) ∧
      named reg values = (registers reg n).map (fun r => (r, env.server.read s.server r type)) ∧
      s'.server = s.server ∧ s'.hasResponse = true ∧
      s'.calls = s.calls ++ readCalls env type reg n s.server ∧
      s'.reply = s.reply ++ values.flatMap Value.bytes := by
  induction n with
  | zero =>
    intro s reg hresp _
    exact ⟨[], s, rfl, rfl, by simp, rfl, rfl, hresp, (List.append_nil _).symm,
      (List.append_nil _).symm⟩
  | succ n ih =>
    intro s reg hresp hread
    rw [registers_succ] at hread
    obtain ⟨value, hindex, hvalue⟩ := hread reg (by simp)
    obtain ⟨s₁, hcall, hserver₁, hresponse₁, hcalls₁⟩ := serverRead_spec reg type s
    have hresp₁ : s₁.hasResponse = true := (congrArg Option.isSome hresponse₁).trans hresp
    have hreply₁ : s₁.reply = s.reply := congrArg (fun r => (r.map (·.data)).getD []) hresponse₁
    rw [hvalue] at hcall hcalls₁
    obtain ⟨values, s', hrun, hlen, hvalues, hnamed, hserver, hresp', hcalls, hreply⟩ :=
      @ih (s₁.respond value.bytes) (reg + 1) (by rw [hasResponse_respond, hresp₁]) (fun r hr => by
        change ∃ v, v.index = type ∧ env.server.read s₁.server r type = .value v
        rw [hserver₁]
        exact hread r (List.mem_cons_of_mem _ hr))
    refine ⟨value :: values, s', ?_, by rw [List.length_cons, hlen], ?_, ?_, hserver.trans hserver₁,
      hresp', ?_, ?_⟩
    · rw [readRegisters, hcall]
      exact hrun
    · rintro v (_ | ⟨_, hv⟩)
      · exact hindex
      · exact hvalues v hv
    · rw [registers_succ, List.map_cons, hvalue, ← hserver₁]
      exact congrArg _ hnamed
    · rw [hcalls, readCalls, readCalls, registers_succ, List.map_cons, hvalue, ← hserver₁]
      change s₁.calls ++ _ = _
      rw [hcalls₁, List.append_assoc]
      rfl
    · rw [hreply, reply_respond hresp₁, hreply₁, List.flatMap_cons, ← List.append_assoc]

/-- A read of registers of which one has no value goes back to the position before its reply, and
writes an error there. -/
theorem readRegisters_of_error {type start n : ℕ} : ∀ {s : State σ τ} {reg : Register},
    s.hasResponse = true → start ≤ s.reply.length →
    (¬ ∀ r ∈ registers reg n, ∃ v, env.server.read s.server r type = .value v) →
    ∃ (r : Register) (error : UInt32) (s' : State σ τ),
      readRegisters env type start n reg s = (true, s') ∧
      r ∈ registers reg n ∧ env.server.read s.server r type = .error error ∧
      s'.reply = s.reply.take start ++ errorEntry Subframe.kReadError r error := by
  induction n with
  | zero => intro s reg _ _ h; exact absurd (by simp [registers]) h
  | succ n ih =>
    intro s reg hresp hstart hfail
    rw [registers_succ] at hfail ⊢
    obtain ⟨s₁, hcall, hserver₁, hresponse₁, -⟩ := serverRead_spec reg type s
    have hresp₁ : s₁.hasResponse = true := (congrArg Option.isSome hresponse₁).trans hresp
    have hreply₁ : s₁.reply = s.reply := congrArg (fun r => (r.map (·.data)).getD []) hresponse₁
    rw [readRegisters, hcall]
    rcases hv : env.server.read s.server reg type with value | error
    · have hreply : (s₁.respond value.bytes).reply = s.reply ++ value.bytes := by
        rw [reply_respond hresp₁, hreply₁]
      obtain ⟨r, error, s', hrun, hmem, herror, hr⟩ :=
        @ih (s₁.respond value.bytes) (reg + 1) (by rw [hasResponse_respond, hresp₁])
          (by rw [hreply, List.length_append]; omega) (fun hall => hfail (by
            rintro r (_ | ⟨_, hr⟩)
            · exact ⟨value, hv⟩
            · obtain ⟨v, hv'⟩ := hall r hr
              refine ⟨v, ?_⟩
              rw [← hserver₁]
              exact hv'))
      refine ⟨r, error, s', hrun, List.mem_cons_of_mem _ hmem, ?_, ?_⟩
      · rw [← hserver₁]
        exact herror
      · rw [hr, hreply, List.take_append_of_le_length hstart]
    · refine ⟨reg, error, _, rfl, by simp, hv, ?_⟩
      have hresp₂ : (s₁.resetResponse start).hasResponse = true := by
        rw [hasResponse_resetResponse, hresp₁]
      rw [emitReadError, State.respondVaruint, State.respondVaruint, State.respondVaruint,
        reply_respond (by rw [hasResponse_respond, hasResponse_respond, hresp₂]),
        reply_respond (by rw [hasResponse_respond, hresp₂]), reply_respond hresp₂,
        reply_resetResponse, hreply₁, errorEntry, List.append_assoc, List.append_assoc]

/-! ### One write -/

/-- The server stores whatever it is given, and has a value of the type asked for in every
register. -/
structure Server.Faultless (server : Server σ) : Prop where
  write : ∀ st reg value, (server.write st reg value).2 = .success
  read : ∀ st reg type, type < 4 → ∃ value : Value, value.index = type ∧
    server.read st reg type = .value value

/-- What is asked of the server by a call. -/
def Call.access : Call → Access
  | .write reg value _ => .write reg value
  | .read reg type _ => .read reg type

/-- A register that was read, with the result. -/
def Call.answer : Call → Option RegisterValue
  | .write _ _ _ => none
  | .read reg _ result => some (reg, result)

/-- A write of which every value is stored makes its calls and leaves the response alone. -/
theorem writeValues_of_success (hserver : env.server.Faultless) (values : List Value) :
    ∀ (reg : Register) (s : State σ τ), ∃ (calls : List Call) (s' : State σ τ),
      writeValues env values reg s = (false, s') ∧ s'.response = s.response ∧
      s'.calls = s.calls ++ calls ∧
      calls.map Call.access = List.zipWith Access.write (registers reg values.length) values ∧
      calls.filterMap Call.answer = [] := by
  induction values with
  | nil =>
    intro reg s
    exact ⟨[], s, rfl, rfl, (List.append_nil _).symm, by simp, rfl⟩
  | cons value values ih =>
    intro reg s
    have hsuccess := hserver.write s.server reg value
    rcases hw : env.server.write s.server reg value with ⟨server, action⟩
    rw [hw] at hsuccess
    dsimp only at hsuccess
    subst hsuccess
    obtain ⟨calls, s', hrun, hresp, hcalls, haccess, hanswer⟩ := ih (reg + 1) { s with
      server := server, calls := s.calls ++ [.write reg value .success] }
    refine ⟨.write reg value .success :: calls, s', ?_, hresp, ?_, ?_, ?_⟩
    · rw [writeValues, serverWrite, hw]
      exact hrun
    · rw [hcalls, List.append_assoc]
      rfl
    · rw [List.map_cons, haccess, List.length_cons, registers_succ, List.zipWith_cons_cons]
      rfl
    · rw [List.filterMap_cons, hanswer]
      rfl

/-! ### From end to end -/

theorem exists_read (hserver : env.server.Faultless) {type : ℕ} (htype : type < 4) (st : σ)
    (regs : List Register) :
    ∀ r ∈ regs, ∃ v, v.index = type ∧ env.server.read st r type = .value v :=
  fun r _ => hserver.read st r type htype

/-- The bounds on a read that its encoding gives. -/
theorem bounds_of_encodes_read {type : ℕ} {start : Register} {count : ℕ} {explicit : Bool}
    {e : Bytes} (h : Encodes (.read type start count explicit) e) :
    type < 4 ∧ count < 2 ^ 32 ∧ (explicit = false → 0 < count ∧ count < 4) := by
  cases h with
  | read htype hh _ =>
    refine ⟨htype, hh.count_lt, ?_⟩
    rintro rfl
    cases hh with
    | short hpos hlt _ => exact ⟨hpos, hlt⟩

/-- A pass over a read or a write makes its accesses and writes its reply. -/
theorem processSubframe_register (hserver : env.server.Faultless) {sf : RequestSubframe} {e : Bytes}
    (h : sf.Encodes e) (hreg : sf.isRegister) (rest : Bytes) (hresp : s.hasResponse = true) :
    ∃ (calls : List Call) (chunk : Bytes) (s' : State σ τ),
      processSubframe env (e ++ rest) s = (true, rest, s') ∧ s'.hasResponse = true ∧
      s'.calls = s.calls ++ calls ∧ s'.reply = s.reply ++ chunk ∧
      calls.map Call.access = sf.accesses ∧
      ∀ rest', parseRegisterReply (chunk ++ rest')
        = calls.filterMap Call.answer ++ parseRegisterReply rest' := by
  cases sf with
  | nop => exact hreg.elim
  | clientToServer channel data => exact hreg.elim
  | clientPollServer channel maxBytes => exact hreg.elim
  | write type start values =>
    obtain ⟨str, hpass, hstr⟩ := processSubframe_write env h rest s
    obtain ⟨calls, s', hrun, hr, hcalls, haccess, hanswer⟩ :=
      writeValues_of_success hserver values start s
    rw [hrun] at hpass hstr
    obtain rfl := hstr rfl
    refine ⟨calls, [], s', hpass, (congrArg Option.isSome hr).trans hresp, hcalls, ?_, haccess, ?_⟩
    · rw [List.append_nil]
      exact congrArg (fun r => (r.map (·.data)).getD []) hr
    · intro rest'
      rw [hanswer]
      rfl
  | read type start count explicit =>
    obtain ⟨htype, hlt, hexp⟩ := bounds_of_encodes_read h
    obtain ⟨values, s', hrun, hlen, hvalues, hnamed, -, hresp', hcalls, hreply⟩ :=
      readRegisters_of_values s.responsePosition
        ((hasResponse_respondHead type start count explicit).trans hresp)
        (exists_read hserver htype _ (registers start count))
    have hpass := processSubframe_read env h rest hresp
    rw [hrun] at hpass
    refine ⟨readCalls env type start count s.server,
      replyHead type start count explicit ++ values.flatMap Value.bytes, s', hpass, hresp', ?_, ?_,
      ?_, ?_⟩
    · rw [hcalls, server_respondHead, calls_respondHead]
    · rw [hreply, reply_respondHead hresp, List.append_assoc]
    · rw [readCalls, List.map_map]
      rfl
    · intro rest'
      subst hlen
      have hparse := RegisterReply.parseSubframe_reply start htype hvalues hlt hexp rest'
      rw [← List.append_assoc] at hparse
      rw [RegisterReply.parseRegisterReply_append (List.append_ne_nil_of_left_ne_nil
        (RegisterReply.replyHead_ne_nil type start _ explicit) _) hparse, hnamed, readCalls,
        List.filterMap_map, server_respondHead]
      congr 1
      rw [← List.filterMap_eq_map']
      rfl

/-- A frame of reads and writes. -/
theorem processSubframes_registers (hserver : env.server.Faultless)
    {L : List (RequestSubframe × Bytes)} : ∀ {s : State σ τ}, (∀ p ∈ L, p.1.Encodes p.2) →
    (∀ p ∈ L, p.1.isRegister) → s.hasResponse = true →
    ∃ (calls : List Call) (chunk : Bytes),
      (processSubframes env (bytes L) s).calls = s.calls ++ calls ∧
      (processSubframes env (bytes L) s).reply = s.reply ++ chunk ∧
      calls.map Call.access = L.flatMap (·.1.accesses) ∧
      parseRegisterReply chunk = calls.filterMap Call.answer := by
  induction L with
  | nil =>
    intro s _ _ _
    exact ⟨[], [], (List.append_nil _).symm, (List.append_nil _).symm, rfl, rfl⟩
  | cons p L ih =>
    intro s henc hreg hresp
    have he : p.1.Encodes p.2 := henc p (by simp)
    obtain ⟨calls₁, chunk₁, s₁, hpass, hresp₁, hcalls₁, hreply₁, haccess₁, hparse₁⟩ :=
      processSubframe_register hserver he (hreg p (by simp)) (bytes L) hresp
    obtain ⟨calls₂, chunk₂, hcalls₂, hreply₂, haccess₂, hparse₂⟩ :=
      ih (fun q hq => henc q (List.mem_cons_of_mem _ hq))
        (fun q hq => hreg q (List.mem_cons_of_mem _ hq)) hresp₁
    refine ⟨calls₁ ++ calls₂, chunk₁ ++ chunk₂, ?_, ?_, ?_, ?_⟩
    · rw [RequestSubframe.bytes_cons, processSubframes_of_next
        (List.append_ne_nil_of_left_ne_nil he.ne_nil _) hpass, hcalls₂, hcalls₁, List.append_assoc]
    · rw [RequestSubframe.bytes_cons, processSubframes_of_next
        (List.append_ne_nil_of_left_ne_nil he.ne_nil _) hpass, hreply₂, hreply₁, List.append_assoc]
    · rw [List.map_append, haccess₁, haccess₂, List.flatMap_cons]
    · rw [hparse₁, hparse₂, List.filterMap_append]

/-- **Register RPC**: for a server that stores everything and has a value in every register, the calls
that built a request are made of the server in order, and the reply that is parsed from the response
names the registers that were read, in order, with what the server returned. -/
theorem registerRpc (hserver : env.server.Faultless) {ops : List RegisterRequest.Op}
    {r : RegisterRequest} (hbuild : RegisterRequest.build ops = some r)
    (htype : ∀ op ∈ ops, op.OneType) (hfits : r.buffer.length < 2 ^ 31) (s : State σ τ)
    (bufferSize : ℕ) :
    ∃ calls : List Call,
      (processSubframes env r.buffer { s with response := some (.new bufferSize) }).calls
        = s.calls ++ calls ∧
      calls.map Call.access = ops.flatMap RegisterRequest.Op.accesses ∧
      parseRegisterReply
          (processSubframes env r.buffer { s with response := some (.new bufferSize) }).reply
        = calls.filterMap Call.answer := by
  obtain ⟨L, hbytes, hmap, henc⟩ := RegisterRequest.encodes_of_build hbuild htype hfits
  have hreg : ∀ p ∈ L, p.1.isRegister := by
    intro p hp
    have hmem : p.1 ∈ ops.map RegisterRequest.Op.subframe := hmap ▸ List.mem_map_of_mem hp
    obtain ⟨op, -, hop⟩ := List.mem_map.mp hmem
    exact hop ▸ op.isRegister_subframe
  obtain ⟨calls, chunk, hcalls, hreply, haccess, hparse⟩ := processSubframes_registers
    (s := { s with response := some (.new bufferSize) }) hserver henc hreg rfl
  refine ⟨calls, hbytes ▸ hcalls, ?_, ?_⟩
  · have hflat : L.flatMap (·.1.accesses) = (L.map Prod.fst).flatMap RequestSubframe.accesses := by
      rw [List.flatMap_map]
    rw [haccess, hflat, hmap, List.flatMap_map]
    simp only [RegisterRequest.Op.accesses_subframe]
  · rw [hbytes, hreply, ← hparse]
    rfl

theorem plainEnv_faultless : plainEnv.server.Faultless where
  write := fun _ _ _ => rfl
  read := fun _ _ type htype => by
    refine ⟨Value.ofScalar type 0, ?_, rfl⟩
    have h : ∀ t : Fin 4, (Value.ofScalar t.val 0).index = t.val := by decide
    exact h ⟨type, htype⟩

/-- A read of two registers and a write of one. -/
theorem registerRpc_readMultiple :
    ∃ calls : List Call,
      (processSubframes plainEnv [0x16, 0x05, 0x01, 0x07, 0x03]
        { server := (), client := (), tunnels := [], response := some (.new 256) }).calls
        = [] ++ calls ∧
      calls.map Call.access = [.read 5 1, .read 6 1, .write 7 (.int8 3)] ∧
      parseRegisterReply (processSubframes plainEnv [0x16, 0x05, 0x01, 0x07, 0x03]
        { server := (), client := (), tunnels := [], response := some (.new 256) }).reply
        = calls.filterMap Call.answer := by
  have hbuild : RegisterRequest.build [.readMultiple 5 2 1, .writeSingle 7 (.int8 3)]
      = some ⟨[0x16, 0x05, 0x01, 0x07, 0x03], true⟩ := by decide
  have htype : ∀ op ∈ [RegisterRequest.Op.readMultiple 5 2 1, .writeSingle 7 (.int8 3)],
      op.OneType := by
    intro op hop
    simp only [List.mem_cons, List.not_mem_nil, or_false] at hop
    rcases hop with rfl | rfl <;> trivial
  exact registerRpc plainEnv_faultless hbuild htype (by decide)
    { server := (), client := (), tunnels := [] } 256

end MicroServer

end Mjlib.Multiplex
