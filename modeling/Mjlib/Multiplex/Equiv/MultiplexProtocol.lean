import Mjlib.Multiplex.Equiv.MicroServer.RegisterRpc
import Mjlib.Multiplex.MultiplexProtocol

/-!
# Does the Python client speak the protocol of the server?

The types of the subframes in Python are those of an older protocol: the type of the value is in the
low two bits, where the server looks for the number of registers.  A write becomes a read, and a read
of one type a read of another.  The one first subframe that the server takes as it was meant is a
`read_multiple` of three floats, and the reply to it is none that `ParseRegisterReply` knows.

- `agrees_iff`: the server takes the bytes for the operations of the request, and the reply is parsed
  to what it read, only when the request is empty.
- `not_agrees`: a read of an `int16` is taken for one of an `int32`, and its reply parsed as an error.
-/

namespace Mjlib.Multiplex.MultiplexProtocol

open RequestSubframe (Encodes registers registers_succ)
open MicroServer (Env State Call processSubframes processSubframe)

/-! ### What the server should do -/

/-- The subframe asks for what the call stands for; the number of registers of a read may have a
varuint of its own. -/
def Op.Means : Op → RequestSubframe → Prop
  | .readSingle register regType, sf => ∃ explicit, sf = .read regType.index register 1 explicit
  | .readMultiple register length regType, sf =>
    ∃ explicit, sf = .read regType.index register length.toNat explicit
  | .writeSingle register regValue, sf => sf = .write regValue.index register [regValue]
  | .writeMultiple startRegister regValues, sf =>
    ∃ first, regValues.head? = some first ∧ sf = .write first.index startRegister regValues

/-- The bytes are, one after the other, encodings of subframes that ask for the operations. -/
def Interpreted (ops : List Op) (data : Bytes) : Prop :=
  ∃ subframes : List (RequestSubframe × Bytes),
    List.Forall₂ (fun op p => op.Means p.1 ∧ p.1.Encodes p.2) ops subframes ∧
    RequestSubframe.bytes subframes = data

/-- The registers that the server was asked to read, with what it answered. -/
def answers (calls : List Call) : Dict :=
  (calls.filterMap fun
    | .read reg _ (.value value) => some (some reg.toNat, Entry.value value)
    | .read reg _ (.error error) => some (some reg.toNat, Entry.error (some error.toNat))
    | .write _ _ _ => none).reverse

/-- For every server that answers, the reply is parsed to the registers it read, with its values. -/
def Parsed (data : Bytes) : Prop :=
  ∀ (σ τ : Type) (env : Env σ τ) (s : State σ τ) (bufferSize : ℕ), env.server.Faultless →
    s.calls = [] →
    let s' := processSubframes env data { s with response := some (.new bufferSize) }
    ∃ dict, parseRegisterReply s'.reply = some dict ∧
      ∀ key, dict.get key = (answers s'.calls).get key

/-- The two sides agree on a request. -/
structure Agrees (ops : List Op) (data : Bytes) : Prop where
  interpreted : Interpreted ops data
  parsed : Parsed data

/-! ### The first byte -/

theorem writeVaruint_eq (n : ℕ) : writeVaruint n = Base128.encode n := by
  induction n using Nat.strong_induction_on with
  | _ n ih =>
    rw [writeVaruint, Base128.encode]
    by_cases h : n < 128
    · rw [if_neg (by omega), if_pos h, Nat.mod_eq_of_lt h]
    · rw [if_pos (by omega), if_neg h, ih (n / 128) (by omega)]

/-- What the server reads where Python has written a small number. -/
theorem readVaruint_writeVaruint {n : ℕ} (h : n < 128) (rest : Bytes) :
    BufferReadStream.readVaruint (writeVaruint n ++ rest) = (some (UInt32.ofNat n), rest) := by
  rw [writeVaruint_eq]
  refine BufferReadStream.readVaruint_append (Base128.encodes_encode n) ?_ rest
  rw [Base128.encode_of_lt h]
  exact Nat.le_of_ble_eq_true rfl

/-- The type of the subframe that a call writes. -/
def Op.subframeType : Op → ℕ
  | .readSingle _ regType => REGISTER_READ_SINGLE_I8 + regType.index
  | .readMultiple _ _ regType => REGISTER_READ_MULTIPLE_I8 + regType.index
  | .writeSingle _ regValue => REGISTER_WRITE_SINGLE_I8 + regValue.index
  | .writeMultiple _ regValues =>
    REGISTER_WRITE_MULTIPLE_I8 + (regValues.head?.map Value.index).getD 0

theorem RegisterType.index_lt (regType : RegisterType) : regType.index < 4 := by
  cases regType <;> decide

/-- The types are all among those of the server's reads. -/
theorem Op.subframeType_bounds (op : Op) : 16 ≤ op.subframeType ∧ op.subframeType < 32 := by
  cases op with
  | readSingle register regType =>
    have := regType.index_lt
    simp only [subframeType, REGISTER_READ_SINGLE_I8]
    omega
  | readMultiple register length regType =>
    have := regType.index_lt
    simp only [subframeType, REGISTER_READ_MULTIPLE_I8]
    omega
  | writeSingle register regValue =>
    have := regValue.index_lt
    simp only [subframeType, REGISTER_WRITE_SINGLE_I8]
    omega
  | writeMultiple startRegister regValues =>
    cases regValues with
    | nil => exact ⟨Nat.le_of_ble_eq_true rfl, Nat.le_of_ble_eq_true rfl⟩
    | cons first regValues =>
      have := first.index_lt
      simp only [subframeType, REGISTER_WRITE_MULTIPLE_I8, List.head?_cons, Option.map_some,
        Option.getD_some]
      omega

theorem Op.bytes_eq {op : Op} {bytes : Bytes} (h : op.bytes = some bytes) :
    ∃ rest, bytes = writeVaruint op.subframeType ++ rest := by
  cases op with
  | readSingle register regType => exact ⟨_, (Option.some.inj h).symm⟩
  | readMultiple register length regType => exact ⟨_, (Option.some.inj h).symm⟩
  | writeSingle register regValue => exact ⟨_, (Option.some.inj h).symm⟩
  | writeMultiple startRegister regValues =>
    cases regValues with
    | nil => exact nomatch h
    | cons first regValues =>
      simp only [Op.bytes, MultiplexProtocol.writeMultiple] at h
      split at h
      · exact ⟨_, (Option.some.inj h).symm⟩
      · exact nomatch h

/-- **The first subframe.** Only a `read_multiple` of three floats is taken for what it is. -/
theorem Op.eq_of_means {op : Op} {sf : RequestSubframe} {e rest rest' : Bytes} (hmeans : op.Means sf)
    (he : sf.Encodes e) (hbytes : e ++ rest = writeVaruint op.subframeType ++ rest') :
    ∃ register, sf = .read 3 register 3 false := by
  obtain ⟨hle, hlt⟩ := op.subframeType_bounds
  have hread := readVaruint_writeVaruint (Nat.lt_trans hlt (by decide)) rest'
  rw [← hbytes] at hread
  cases he with
  | nop h => cases op <;> simp [Op.Means] at hmeans
  | clientToServer h hc hn hl => cases op <;> simp [Op.Means] at hmeans
  | clientPollServer h hc hm => cases op <;> simp [Op.Means] at hmeans
  | @write type start values explicit hs rs htype hvalues hh hr =>
    -- a write would start with a smaller type
    obtain ⟨low, tail, hlow, -, -, htypeRead, -⟩ := hh.read (rs ++ values.flatMap Value.bytes ++ rest)
    rw [List.append_assoc, List.append_assoc, ← List.append_assoc rs, htypeRead] at hread
    have heq := Option.some.inj (Prod.mk.inj hread).1
    have hnat := congrArg UInt32.toNat heq
    rw [toNat_ofNat_of_lt (by rw [Subframe.kWriteBase]; omega),
      toNat_ofNat_of_lt (by omega), Subframe.kWriteBase] at hnat
    omega
  | @read type start count explicit hs rs htype hh hr =>
    obtain ⟨low, tail, hlow, hexplicit, hcount, htypeRead, -⟩ := hh.read (rs ++ rest)
    rw [List.append_assoc, htypeRead] at hread
    have heq := Option.some.inj (Prod.mk.inj hread).1
    have hnat := congrArg UInt32.toNat heq
    rw [toNat_ofNat_of_lt (by rw [Subframe.kReadBase]; omega),
      toNat_ofNat_of_lt (by omega), Subframe.kReadBase] at hnat
    cases op with
    | readSingle register regType =>
      obtain ⟨explicit', hsf⟩ := hmeans
      obtain ⟨rfl, rfl, rfl, rfl⟩ := RequestSubframe.read.inj hsf
      simp only [Op.subframeType, REGISTER_READ_SINGLE_I8] at hnat
      omega
    | readMultiple register length regType =>
      obtain ⟨explicit', hsf⟩ := hmeans
      obtain ⟨rfl, rfl, rfl, rfl⟩ := RequestSubframe.read.inj hsf
      simp only [Op.subframeType, REGISTER_READ_MULTIPLE_I8] at hnat
      have h3 : regType.index = 3 ∧ low = 3 := by
        have := regType.index_lt
        omega
      refine ⟨start, ?_⟩
      rw [h3.1, ← hcount (by omega), hexplicit, h3.2]
      rfl
    | writeSingle register regValue => cases hmeans
    | writeMultiple startRegister regValues =>
      obtain ⟨first, -, hsf⟩ := hmeans
      cases hsf

/-! ### The reply -/

/-- The reply to a read of three floats is none that is known. -/
theorem parseRegisterReply_threeFloats (register : Register) (rest : Bytes) :
    parseRegisterReply (RegisterReply.replyHead 3 register 3 false ++ rest) = some [] := by
  rfl

theorem get_answers_ne_none {calls : List Call} {reg : Register} {type : ℕ} {value : Value}
    (h : Call.read reg type (.value value) ∈ calls) :
    (answers calls).get (some reg.toNat) ≠ none := by
  have hmem : (some reg.toNat, Entry.value value) ∈ answers calls := by
    rw [answers, List.mem_reverse, List.mem_filterMap]
    exact ⟨_, h, rfl⟩
  intro hnone
  have hne := List.lookup_eq_none_iff.mp hnone _ hmem
  simp at hne

/-- The reply to a request that starts with a read of three floats is not understood. -/
theorem not_parsed {register : Register} {e : Bytes}
    {subframes : List (RequestSubframe × Bytes)} (he : Encodes (.read 3 register 3 false) e)
    (henc : ∀ p ∈ subframes, p.1.Encodes p.2) (hreg : ∀ p ∈ subframes, p.1.isRegister) :
    ¬ Parsed (e ++ RequestSubframe.bytes subframes) := by
  intro hparsed
  have hserver := MicroServer.plainEnv_faultless
  obtain ⟨dict, hdict, hget⟩ := hparsed Unit Unit MicroServer.plainEnv
    { server := (), client := (), tunnels := [] } 0 hserver rfl
  set s : State Unit Unit :=
    { server := (), client := (), tunnels := [], response := some (.new 0) }
  have hresp : s.hasResponse = true := rfl
  -- the pass over the first subframe
  have hvalues := MicroServer.exists_read hserver (by decide : 3 < 4) () (registers register 3)
  obtain ⟨values, s', hrun, -, -, -, -, hresp', hcalls, hreply⟩ :=
    MicroServer.readRegisters_of_values s.responsePosition
      ((MicroServer.hasResponse_respondHead 3 register 3 false).trans hresp) hvalues
  have hpass := MicroServer.processSubframe_read MicroServer.plainEnv he
    (RequestSubframe.bytes subframes) hresp
  rw [hrun] at hpass
  have hnext := MicroServer.processSubframes_of_next
    (List.append_ne_nil_of_left_ne_nil he.ne_nil _) hpass
  -- and the passes over the others
  obtain ⟨calls, chunk, hcalls', hreply', -, -⟩ :=
    MicroServer.processSubframes_registers hserver henc hreg hresp'
  change parseRegisterReply
    (processSubframes MicroServer.plainEnv (e ++ RequestSubframe.bytes subframes) s).reply
      = some dict at hdict
  rw [hnext, hreply', hreply, MicroServer.reply_respondHead hresp, List.append_assoc,
    List.append_assoc] at hdict
  obtain rfl : ([] : Dict) = dict :=
    Option.some.inj ((parseRegisterReply_threeFloats register _).symm.trans hdict)
  -- nothing is parsed, but the first register was read
  have hcall : Call.read register 3 (.value (Value.ofScalar 3 0)) ∈ (processSubframes
      MicroServer.plainEnv (e ++ RequestSubframe.bytes subframes) s).calls := by
    rw [hnext, hcalls', hcalls, MicroServer.readCalls, registers_succ]
    simp [MicroServer.plainEnv]
  exact get_answers_ne_none hcall (hget (some register.toNat)).symm

/-! ### Agreement -/

theorem Op.isRegister_of_means {op : Op} {sf : RequestSubframe} (h : op.Means sf) :
    sf.isRegister := by
  cases op with
  | readSingle register regType =>
    obtain ⟨explicit, rfl⟩ := h
    trivial
  | readMultiple register length regType =>
    obtain ⟨explicit, rfl⟩ := h
    trivial
  | writeSingle register regValue =>
    obtain rfl := h
    trivial
  | writeMultiple startRegister regValues =>
    obtain ⟨first, -, rfl⟩ := h
    trivial

theorem forall_right_of_forall₂ {α β : Type*} {R : α → β → Prop} {P : β → Prop} {l : List α}
    {m : List β} (h : List.Forall₂ R l m) (hP : ∀ a b, R a b → P b) : ∀ b ∈ m, P b := by
  induction h with
  | nil => simp
  | cons hab _ ih => exact List.forall_mem_cons.mpr ⟨hP _ _ hab, ih⟩

/-- No request with an operation is understood on both sides. -/
theorem not_agrees_cons {op : Op} {ops : List Op} {data : Bytes}
    (h : build (op :: ops) = some data) : ¬ Agrees (op :: ops) data := by
  rintro ⟨⟨subframes, hsubframes, rfl⟩, hparsed⟩
  cases hsubframes with
  | @cons _ p _ subframes hp hrest =>
    -- the bytes start with the type that Python writes
    rw [build, Option.bind_eq_some_iff] at h
    obtain ⟨bytes, hop, htail⟩ := h
    obtain ⟨tail, -, hbytes⟩ := Option.map_eq_some_iff.mp htail
    obtain ⟨rest, rfl⟩ := Op.bytes_eq hop
    rw [RequestSubframe.bytes_cons, List.append_assoc] at hbytes
    obtain ⟨register, hsf⟩ := Op.eq_of_means hp.1 hp.2 hbytes.symm
    have he := hp.2
    rw [hsf] at he
    rw [RequestSubframe.bytes_cons] at hparsed
    exact not_parsed he (forall_right_of_forall₂ hrest fun _ _ hq => hq.2)
      (forall_right_of_forall₂ hrest fun _ _ hq => Op.isRegister_of_means hq.1) hparsed

theorem agrees_nil : Agrees [] [] where
  interpreted := ⟨[], .nil, rfl⟩
  parsed := by
    intro σ τ env s bufferSize _ hcalls
    refine ⟨[], rfl, fun key => ?_⟩
    change Dict.get [] key = (answers s.calls).get key
    rw [hcalls]
    rfl

/-- **The two sides agree on the empty request, and on no other**: of a request with an operation,
either the server makes something else of the bytes, or what it replies is not parsed. -/
theorem agrees_iff {ops : List Op} {data : Bytes} (h : build ops = some data) :
    Agrees ops data ↔ ops = [] := by
  constructor
  · intro hagrees
    cases ops with
    | nil => rfl
    | cons op ops => exact absurd hagrees (not_agrees_cons h)
  · rintro rfl
    obtain rfl := Option.some.inj h
    exact agrees_nil

theorem build_readSingle : build [.readSingle 1 .int16] = some [0x19, 0x01] := by
  simp only [build, Op.bytes, readSingle, writeVaruint_eq, Option.bind_some, Option.map_some]
  rw [Base128.encode_of_lt (by decide), Base128.encode_of_lt (by decide)]
  rfl

/-- A read of an `int16`. -/
theorem agrees_iff_readSingle :
    Agrees [.readSingle 1 .int16] [0x19, 0x01] ↔ [Op.readSingle 1 .int16] = [] :=
  agrees_iff build_readSingle

/-- A read of the `int16` in register 1 is one of its `int32` to the server, and what it answers is
parsed as an error of the register. -/
theorem not_agrees :
    build [.readSingle 1 .int16] = some [0x19, 0x01] ∧
    (let s' := processSubframes MicroServer.plainEnv [0x19, 0x01]
      { server := (), client := (), tunnels := [], response := some (.new 256) }
    s'.calls = [.read 1 2 (.value (.int32 0))] ∧
      parseRegisterReply s'.reply = some [(some 1, .error (some 0))]) ∧
    ¬ Agrees [.readSingle 1 .int16] [0x19, 0x01] := by
  refine ⟨build_readSingle, ?_, not_agrees_cons build_readSingle⟩
  decide

end Mjlib.Multiplex.MultiplexProtocol
