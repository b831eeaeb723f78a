import Mjlib.Multiplex.Equiv.Stream
import Mjlib.Multiplex.ReplySubframe
import Mjlib.Multiplex.RequestSubframe

/-!
# Requests and replies of the register service

* `encodes_of_build`: what `RegisterRequest` writes is a list of well-formed subframes, one for each
  call.
* `parseRegisterReply_append`: `ParseRegisterReply` goes from subframe to subframe;
  `parseSubframe_reply` and `parseSubframe_error` say what it makes of the two kinds of subframes a
  reply is made of.
-/

namespace Mjlib.Multiplex

open RequestSubframe (Encodes)

theorem isVaruint_writeVaruint (v : UInt32) : IsVaruint v (writeVaruint v) :=
  ⟨encodes_writeVaruint v, length_writeVaruint_le v⟩

theorem toNat_ofNat_of_lt {n : ℕ} (h : n < 2 ^ 32) : (UInt32.ofNat n).toNat = n := by
  rw [UInt32.toNat_ofNat', Nat.mod_eq_of_lt h]

/-! ### Requests -/

namespace RegisterRequest

/-- The subframe that a call asks for. -/
def Op.subframe : Op → RequestSubframe
  | .readSingle reg typeIndex => .read typeIndex reg 1 false
  | .readMultiple reg numRegisters typeIndex =>
    .read typeIndex reg numRegisters.toNat (decide (4 ≤ numRegisters.toNat))
  | .writeSingle reg value => .write value.index reg [value]
  | .writeMultiple startReg values => .write ((values.head?.map Value.index).getD 0) startReg values

/-- The values of a call are of one type. -/
def Op.OneType : Op → Prop
  | .writeMultiple _ values => ∀ v ∈ values, ∀ v' ∈ values, v.index = v'.index
  | _ => True

theorem isHead_writeHead (base type : ℕ) {n : ℕ} (hpos : 0 < n) (hlt : n < 2 ^ 32) :
    IsHead base type n (decide (4 ≤ n)) (writeHead base type n) := by
  rw [writeHead, encodedLength]
  by_cases h4 : n < 4
  · rw [if_pos h4, if_neg (by omega), List.append_nil, decide_eq_false (by omega), add_assoc]
    exact .short hpos h4 (isVaruint_writeVaruint _)
  · rw [if_neg h4, if_pos rfl, decide_eq_true (by omega), add_zero]
    exact .long hlt (isVaruint_writeVaruint _) (isVaruint_writeVaruint _)

theorem length_le_flatMap_bytes (values : List Value) :
    values.length ≤ (values.flatMap Value.bytes).length := by
  induction values with
  | nil => exact le_rfl
  | cons value values ih =>
    have hpos : 0 < value.bytes.length := by
      cases value <;> simp [Value.bytes]
    rw [List.flatMap_cons, List.length_append, List.length_cons]
    omega

/-- A call adds the bytes of its subframe. -/
theorem encodes_of_apply {r r' : RegisterRequest} {op : Op} (h : r.apply op = some r')
    (htype : op.OneType) (hlt : r'.buffer.length < 2 ^ 31) :
    ∃ e, r'.buffer = r.buffer ++ e ∧ op.subframe.Encodes e := by
  cases op with
  | readSingle reg typeIndex =>
    rw [apply, readSingle] at h
    split_ifs at h with ht
    obtain rfl := Option.some.inj h
    refine ⟨_, List.append_assoc _ _ _, .read (by omega) (.short (by omega) (by omega) ?_)
      (isVaruint_writeVaruint reg)⟩
    rw [← add_assoc]
    exact isVaruint_writeVaruint _
  | readMultiple reg numRegisters typeIndex =>
    rw [apply, readMultiple] at h
    split_ifs at h with ht
    obtain rfl := Option.some.inj h
    have hpos : 0 < numRegisters.toNat := by simpa [UInt32.lt_iff_toNat_lt] using ht.1
    exact ⟨_, List.append_assoc _ _ _, .read (by omega)
      (isHead_writeHead _ _ hpos numRegisters.toNat_lt) (isVaruint_writeVaruint reg)⟩
  | writeSingle reg value =>
    rw [apply, writeSingle] at h
    obtain rfl := Option.some.inj h
    have hhead : IsHead Subframe.kWriteBase value.index [value].length false
        (writeVaruint (UInt32.ofNat (Subframe.kWriteBase + value.index * 4 + 1))) := by
      refine .short (by simp) (by simp) ?_
      rw [← add_assoc]
      exact isVaruint_writeVaruint _
    refine ⟨_, ?_, .write value.index_lt (by simp) hhead (isVaruint_writeVaruint reg)⟩
    simp
  | writeMultiple startReg values =>
    cases values with
    | nil => simp [apply, writeMultiple] at h
    | cons front values =>
      rw [apply, writeMultiple] at h
      obtain rfl := Option.some.inj h
      have hlen := length_le_flatMap_bytes (front :: values)
      simp only [List.length_append] at hlt
      have hhead := isHead_writeHead Subframe.kWriteBase front.index
        (show 0 < (front :: values).length by simp) (by omega)
      refine ⟨_, ?_, .write front.index_lt (fun v hv => htype v hv front (by simp)) hhead
        (isVaruint_writeVaruint startReg)⟩
      simp

theorem encodes_of_foldlM {ops : List Op} : ∀ {r r' : RegisterRequest},
    ops.foldlM apply r = some r' → (∀ op ∈ ops, op.OneType) → r'.buffer.length < 2 ^ 31 →
    ∃ L : List (RequestSubframe × Bytes), r'.buffer = r.buffer ++ RequestSubframe.bytes L ∧
      L.map Prod.fst = ops.map Op.subframe ∧ ∀ p ∈ L, p.1.Encodes p.2 := by
  induction ops with
  | nil =>
    intro r r' h _ _
    obtain rfl := Option.some.inj h
    exact ⟨[], by simp, rfl, by simp⟩
  | cons op ops ih =>
    intro r r' h htype hlt
    rw [List.foldlM_cons] at h
    obtain ⟨r₁, h₁, h⟩ := Option.bind_eq_some_iff.mp h
    obtain ⟨L, hbuf, hmap, henc⟩ := ih h (fun op' hop => htype op' (List.mem_cons_of_mem _ hop)) hlt
    have hlt₁ : r₁.buffer.length < 2 ^ 31 := by
      rw [hbuf, List.length_append] at hlt
      omega
    obtain ⟨e, he, henc₁⟩ := encodes_of_apply h₁ (htype op (by simp)) hlt₁
    refine ⟨(op.subframe, e) :: L, ?_, by rw [List.map_cons, List.map_cons, hmap], ?_⟩
    · rw [hbuf, he, RequestSubframe.bytes_cons, List.append_assoc]
    · rintro p (_ | ⟨_, hp⟩)
      · exact henc₁
      · exact henc p hp

/-- **Requests**: a request that fits a frame is a list of well-formed subframes, one for each
call. -/
theorem encodes_of_build {ops : List Op} {r : RegisterRequest} (h : build ops = some r)
    (htype : ∀ op ∈ ops, op.OneType) (hlt : r.buffer.length < 2 ^ 31) :
    ∃ L : List (RequestSubframe × Bytes), r.buffer = RequestSubframe.bytes L ∧
      L.map Prod.fst = ops.map Op.subframe ∧ ∀ p ∈ L, p.1.Encodes p.2 := by
  simpa using encodes_of_foldlM h htype hlt

end RegisterRequest

/-! ### Replies -/

namespace RegisterReply

theorem length_readVaruint_le (s : Bytes) : (ReadStream.readVaruint s).2.length ≤ s.length := by
  rw [← BufferReadStream.readVaruint_eq_readVaruint]
  exact (BufferReadStream.readVaruint_suffix s).length_le

theorem length_readValues_le (typeIndex : ℕ) {n : ℕ} : ∀ (reg : Register) (s : Bytes),
    (readValues typeIndex n reg s).2.length ≤ s.length := by
  induction n with
  | zero => intro reg s; exact le_rfl
  | succ n ih =>
    intro reg s
    rw [readValues]
    have hle : (readValue typeIndex s).2.length ≤ s.length := by
      rw [readValue, ReadStream.readScalar]
      split_ifs
      · exact Nat.zero_le _
      · simp
    generalize readValue typeIndex s = r at hle ⊢
    obtain ⟨_ | value, s'⟩ := r
    · exact hle
    · have h := (ih (reg + 1) s').trans hle
      dsimp only
      generalize readValues typeIndex n (reg + 1) s' = r at h ⊢
      obtain ⟨_ | values, s''⟩ := r <;> exact h

/-- What is read behind the number of registers is shorter than what that was read from. -/
theorem length_readRegisters_lt (type : ℕ) {r : Option UInt32 × Bytes} {n : ℕ}
    (h : r.2.length < n) :
    (match r with
      | (none, s) => (none, s)
      | (some numRegisters, s) =>
        match ReadStream.readVaruint s with
        | (none, s) => (none, s)
        | (some startReg, s) => readValues type numRegisters.toNat startReg s).2.length < n := by
  obtain ⟨_ | numRegisters, t⟩ := r
  · exact h
  have ht := lt_of_le_of_lt (length_readVaruint_le t) h
  dsimp only
  generalize ReadStream.readVaruint t = r at ht ⊢
  obtain ⟨_ | startReg, t'⟩ := r
  · exact ht
  · exact lt_of_le_of_lt (length_readValues_le _ _ _) ht

/-- A subframe takes at least its type. -/
theorem length_parseSubframe_lt {s : Bytes} (hs : s ≠ []) :
    (parseSubframe s).2.length < s.length := by
  have h1 : (ReadStream.readVaruint s).2.length < s.length := by
    rw [← BufferReadStream.readVaruint_eq_readVaruint]
    exact BufferReadStream.length_readVaruint_lt hs
  rw [parseSubframe]
  generalize ReadStream.readVaruint s = r at h1 ⊢
  obtain ⟨_ | id, s1⟩ := r
  · exact h1
  dsimp only at h1 ⊢
  have h2 := length_readVaruint_le s1
  have h3 := length_readVaruint_le (ReadStream.readVaruint s1).2
  generalize ReadStream.readVaruint s1 = r1 at h2 h3 ⊢
  obtain ⟨arg, s2⟩ := r1
  dsimp only at h2 h3 ⊢
  have h4 := lt_of_le_of_lt h2 h1
  have h5 := lt_of_le_of_lt h3 h4
  split_ifs
  -- the number of registers is explicit, or part of the type
  · exact length_readRegisters_lt (r := (arg, s2)) _ h4
  · exact length_readRegisters_lt (r := (some _, s1)) _ h1
  · generalize ReadStream.readVaruint s2 = r2 at h5 ⊢
    obtain ⟨err, s3⟩ := r2
    rcases arg with _ | reg <;> rcases err with _ | err <;> exact h5
  · exact h1

theorem parseRegisterReplyLoop_eq {n : ℕ} : ∀ {m : ℕ} {s : Bytes}, s.length ≤ n → s.length ≤ m →
    parseRegisterReplyLoop n s = parseRegisterReplyLoop m s := by
  induction n with
  | zero =>
    intro m s hn _
    obtain rfl := List.length_eq_zero_iff.mp (Nat.le_zero.mp hn)
    cases m <;> rfl
  | succ n ih =>
    intro m s hn hm
    by_cases hs : s = []
    · subst hs
      cases m <;> rfl
    · have hlt := length_parseSubframe_lt hs
      have hpos := List.length_pos_iff.mpr hs
      obtain ⟨m, rfl⟩ : ∃ m', m = m' + 1 := ⟨m - 1, by omega⟩
      rw [parseRegisterReplyLoop, parseRegisterReplyLoop]
      generalize parseSubframe s = r at hlt ⊢
      obtain ⟨_ | values, s'⟩ := r
      · rfl
      · dsimp only at hlt ⊢
        exact congrArg _ (ih (by omega) (by omega))

@[simp] theorem parseRegisterReply_nil : parseRegisterReply [] = [] := rfl

/-- **Replies**: the loop goes on behind a subframe. -/
theorem parseRegisterReply_append {chunk rest : Bytes} {values : List RegisterValue}
    (hne : chunk ≠ []) (h : parseSubframe (chunk ++ rest) = (some values, rest)) :
    parseRegisterReply (chunk ++ rest) = values ++ parseRegisterReply rest := by
  have hpos := List.length_pos_iff.mpr hne
  have hlen : (chunk ++ rest).length = (chunk.length + rest.length - 1) + 1 := by
    rw [List.length_append]
    omega
  rw [parseRegisterReply, hlen, parseRegisterReplyLoop, h]
  dsimp only
  rw [parseRegisterReply]
  congr 1
  exact parseRegisterReplyLoop_eq (by omega) le_rfl

theorem readValue_bytes {type : ℕ} {value : Value} (h : value.index = type) (rest : Bytes) :
    readValue type (value.bytes ++ rest) = (some value, rest) := by
  subst h
  have hlen := value.length_bytes
  rw [readValue, ReadStream.readScalar, if_neg (by rw [List.length_append]; omega)]
  rw [List.take_left' hlen, List.drop_left' hlen]
  simp only [Option.map_some, value.ofScalar_decode_bytes]

theorem readValues_bytes {type : ℕ} {values : List Value} (rest : Bytes) : ∀ (reg : Register),
    (∀ v ∈ values, v.index = type) →
    readValues type values.length reg (values.flatMap Value.bytes ++ rest)
      = (some (named reg values), rest) := by
  induction values with
  | nil => intro reg _; rfl
  | cons value values ih =>
    intro reg hvalues
    rw [List.flatMap_cons, List.append_assoc, List.length_cons, readValues,
      readValue_bytes (hvalues value (by simp))]
    dsimp only
    rw [ih (reg + 1) (fun v hv => hvalues v (List.mem_cons_of_mem _ hv))]
    rfl

/-- The head of the reply to a read. -/
def replyHead (type : ℕ) (start : Register) (count : ℕ) (explicit : Bool) : Bytes :=
  writeVaruint (UInt32.ofNat (Subframe.kReplyBase + (type * 4 + if explicit then 0 else count)))
    ++ ((if explicit then writeVaruint (UInt32.ofNat count) else []) ++ writeVaruint start)

/-- The id of a reply with the number of its values in it. -/
theorem replyId_spec {type count : ℕ} (htype : type < 4) (hcount : count < 4) :
    (UInt32.ofNat (Subframe.kReplyBase + (type * 4 + count))).toNat
        = Subframe.kReplyBase + (type * 4 + count) ∧
      (Subframe.kReplyBase + (type * 4 + count)) % 4 = count := by
  refine ⟨toNat_ofNat_of_lt ?_, ?_⟩
  all_goals
    rw [Subframe.kReplyBase]
    omega

theorem replyHead_ne_nil (type : ℕ) (start : Register) (count : ℕ) (explicit : Bool) :
    replyHead type start count explicit ≠ [] :=
  List.append_ne_nil_of_left_ne_nil (encodes_writeVaruint _).ne_nil _

/-- A reply with the values of a read. -/
theorem parseSubframe_reply {type : ℕ} (start : Register) {values : List Value} {explicit : Bool}
    (htype : type < 4) (hvalues : ∀ v ∈ values, v.index = type) (hlt : values.length < 2 ^ 32)
    (hexp : explicit = false → 0 < values.length ∧ values.length < 4) (rest : Bytes) :
    parseSubframe (replyHead type start values.length explicit ++ (values.flatMap Value.bytes ++ rest))
      = (some (named start values), rest) := by
  have hread := readValues_bytes rest start hvalues
  rw [replyHead, List.append_assoc, parseSubframe, ReadStream.readVaruint_writeVaruint]
  dsimp only
  cases explicit with
  | true =>
    have hid : (UInt32.ofNat (Subframe.kReplyBase + (type * 4 + 0))).toNat
        = Subframe.kReplyBase + type * 4 := by
      rw [toNat_ofNat_of_lt (by rw [Subframe.kReplyBase]; omega), add_zero]
    rw [if_pos rfl, hid, if_pos ⟨by omega, by omega⟩,
      if_pos (show (Subframe.kReplyBase + type * 4) % 4 = 0 by rw [Subframe.kReplyBase]; omega),
      if_pos rfl, List.append_assoc, ReadStream.readVaruint_writeVaruint]
    dsimp only
    rw [ReadStream.readVaruint_writeVaruint]
    dsimp only
    rw [Nat.add_sub_cancel_left, Nat.mul_div_cancel _ (by decide), toNat_ofNat_of_lt hlt, hread]
  | false =>
    obtain ⟨hpos, h4⟩ := hexp rfl
    obtain ⟨hid, hmod⟩ := replyId_spec htype h4
    simp only [Bool.false_eq_true, if_false]
    rw [hid, if_pos ⟨by omega, by omega⟩, hmod, if_neg (by omega)]
    dsimp only
    rw [List.nil_append, ReadStream.readVaruint_writeVaruint]
    dsimp only
    rw [Nat.add_sub_cancel_left, toNat_ofNat_of_lt hlt,
      show (type * 4 + values.length) / 4 = type by omega, hread]

/-- An error entry. -/
def errorEntry (kind : ℕ) (reg : Register) (error : UInt32) : Bytes :=
  writeVaruint (UInt32.ofNat kind) ++ (writeVaruint reg ++ writeVaruint error)

theorem errorEntry_ne_nil (kind : ℕ) (reg : Register) (error : UInt32) :
    errorEntry kind reg error ≠ [] :=
  List.append_ne_nil_of_left_ne_nil (encodes_writeVaruint _).ne_nil _

theorem parseSubframe_error {kind : ℕ} (h : kind = Subframe.kWriteError ∨ kind = Subframe.kReadError)
    (reg : Register) (error : UInt32) (rest : Bytes) :
    parseSubframe (errorEntry kind reg error ++ rest) = (some [(reg, .error error)], rest) := by
  have hid : (UInt32.ofNat kind).toNat = kind := toNat_ofNat_of_lt (by
    rcases h with rfl | rfl <;> decide)
  have hnot : ¬ (kind ≥ Subframe.kReplyBase ∧ kind < Subframe.kReplyBase + 16) := by
    rcases h with rfl | rfl <;> decide
  rw [errorEntry, List.append_assoc, parseSubframe, ReadStream.readVaruint_writeVaruint]
  dsimp only
  rw [hid, if_neg hnot, if_pos h, List.append_assoc, ReadStream.readVaruint_writeVaruint]
  dsimp only
  rw [ReadStream.readVaruint_writeVaruint]

end RegisterReply

end Mjlib.Multiplex
