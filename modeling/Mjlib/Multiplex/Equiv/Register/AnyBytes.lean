import Mjlib.Multiplex.Equiv.Register

/-!
# `ParseRegisterReply` on any bytes

`ParseSubframe` appends values before it knows that the subframe is complete, and
`ParseRegisterReply` takes them back when it is not.  `parseSubframe_of_isSubframe` and
`isSubframe_of_parseSubframe` say that it succeeds on the complete subframes and on nothing else.

`parseRegisterReply_spec`: the loop comes to an end within the bytes, and what it puts out is what the
longest prefix stands for that is a sequence of complete subframes.  A prefix of the bytes gives a
prefix of the list.
-/

namespace Mjlib.Multiplex

/-! ### Numbers -/

variable {v : UInt32} {ds s rest : Bytes}

theorem IsNumber.ne_nil (h : IsNumber v ds) : ds ≠ [] := by
  cases h with
  | varuint h => exact h.ne_nil
  | tooLong _ hl =>
    rintro rfl
    exact nomatch hl

theorem IsNumber.read (h : IsNumber v ds) (rest : Bytes) :
    ReadStream.readVaruint (ds ++ rest) = (some v, rest) := by
  cases h with
  | varuint h hl hv =>
    rw [← BufferReadStream.readVaruint_eq_readVaruint, BufferReadStream.readVaruint_append h hl, hv]
  | tooLong h hl hv =>
    rw [ReadStream.readVaruint_eq, show (5 : ℕ) = kMaxVaruintSize from rfl,
      Base128.decode_append_of_open h hl, hv]
    rfl

theorem isNumber_of_read (h : ReadStream.readVaruint s = (some v, rest)) :
    ∃ ds, s = ds ++ rest ∧ IsNumber v ds := by
  rw [ReadStream.readVaruint_eq] at h
  cases hd : Base128.decode 5 s with
  | truncated => simp [hd, varuintOutcome] at h
  | tooLong rest' =>
    simp only [hd, varuintOutcome, Prod.mk.injEq, Option.some.injEq] at h
    obtain ⟨ds, hs, ho, hl⟩ := Base128.decode_tooLong hd
    exact ⟨ds, by rw [hs, h.2], .tooLong ho hl h.1.symm⟩
  | value n rest' =>
    simp only [hd, varuintOutcome, Prod.mk.injEq, Option.some.injEq] at h
    obtain ⟨ds, hs, he, hl⟩ := Base128.decode_eq_value hd
    exact ⟨ds, by rw [hs, h.2], .varuint he hl h.1.symm⟩

namespace RegisterReply

/-! ### Values -/

/-- A scalar has the bytes that it was read from. -/
theorem bytes_ofScalar {type : ℕ} (htype : type < 4) {bs : Bytes}
    (h : bs.length = Value.sizeOfType type) :
    (Value.ofScalar type (LittleEndian.decode bs)).bytes = bs := by
  have hlt := LittleEndian.decode_lt bs
  have hbytes : scalarBytes bs.length (LittleEndian.decode bs) = bs := LittleEndian.encode_decode bs
  rw [h] at hlt hbytes
  obtain rfl | rfl | rfl | rfl : type = 0 ∨ type = 1 ∨ type = 2 ∨ type = 3 := by omega
  all_goals
    simp only [Value.ofScalar, Value.bytes, Value.sizeOfType, UInt8.toUInt8_toInt8,
      UInt16.toUInt16_toInt16, UInt32.toUInt32_toInt32, UInt8.toNat_ofNat', UInt16.toNat_ofNat',
      UInt32.toNat_ofNat'] at hlt hbytes ⊢
    rw [Nat.mod_eq_of_lt (by omega), hbytes]

theorem index_ofScalar {type : ℕ} (htype : type < 4) (n : ℕ) :
    (Value.ofScalar type n).index = type := by
  obtain rfl | rfl | rfl | rfl : type = 0 ∨ type = 1 ∨ type = 2 ∨ type = 3 := by omega
  all_goals rfl

theorem values_of_readValues {type : ℕ} (htype : type < 4) {n : ℕ} :
    ∀ {reg : Register} {s rest : Bytes} {entries : List RegisterValue},
    readValues type n reg s = (some entries, rest) →
    ∃ values : List Value, values.length = n ∧ (∀ v ∈ values, v.index = type) ∧
      entries = named reg values ∧ s = values.flatMap Value.bytes ++ rest := by
  induction n with
  | zero =>
    intro reg s rest entries h
    obtain ⟨hentries, rfl⟩ := Prod.mk.inj h
    exact ⟨[], rfl, by simp, (Option.some.inj hentries).symm, rfl⟩
  | succ n ih =>
    intro reg s rest entries h
    rw [readValues, readValue, ReadStream.readScalar] at h
    by_cases hshort : s.length < Value.sizeOfType type
    · simp [hshort] at h
    rw [if_neg hshort] at h
    simp only [Option.map_some] at h
    rcases hr : readValues type n (reg + 1) (s.drop (Value.sizeOfType type)) with ⟨_ | entries', s'⟩
    · simp [hr] at h
    rw [hr] at h
    obtain ⟨hentries, rfl⟩ := Prod.mk.inj h
    obtain ⟨values, hlen, hvalues, rfl, hs⟩ := ih hr
    have htake : (s.take (Value.sizeOfType type)).length = Value.sizeOfType type := by
      rw [List.length_take]
      omega
    refine ⟨Value.ofScalar type (LittleEndian.decode (s.take (Value.sizeOfType type))) :: values,
      by rw [List.length_cons, hlen], ?_, (Option.some.inj hentries).symm, ?_⟩
    · rintro v (_ | ⟨_, hv⟩)
      · exact index_ofScalar htype _
      · exact hvalues v hv
    · rw [List.flatMap_cons, bytes_ofScalar htype htake, List.append_assoc, ← hs,
        List.take_append_drop]

/-! ### Subframes -/

theorem IsReplyHead.ne_nil {type count : ℕ} {hs : Bytes} (h : IsReplyHead type count hs) :
    hs ≠ [] := by
  cases h with
  | short _ _ h => exact h.ne_nil
  | long _ h _ => exact List.append_ne_nil_of_left_ne_nil h.ne_nil _

theorem IsSubframe.ne_nil {values : List RegisterValue} {e : Bytes} (h : IsSubframe values e) :
    e ≠ [] := by
  cases h with
  | reply _ _ hh _ => exact List.append_ne_nil_of_left_ne_nil hh.ne_nil _
  | error _ hk _ _ => exact List.append_ne_nil_of_left_ne_nil hk.ne_nil _

/-- A complete subframe is parsed, whatever follows. -/
theorem parseSubframe_of_isSubframe {values : List RegisterValue} {e : Bytes}
    (h : IsSubframe values e) (rest : Bytes) :
    parseSubframe (e ++ rest) = (some values, rest) := by
  cases h with
  | @reply type start values hs rs htype hvalues hh hr =>
    have hread := readValues_bytes rest start hvalues
    cases hh with
    | short hpos h4 h =>
      obtain ⟨hid, hmod⟩ := replyId_spec htype h4
      rw [parseSubframe, List.append_assoc, h.read]
      dsimp only
      rw [hid, if_pos ⟨by omega, by omega⟩, hmod, if_neg (by omega)]
      dsimp only
      rw [List.append_assoc, hr.read]
      dsimp only
      rw [Nat.add_sub_cancel_left, toNat_ofNat_of_lt (by omega),
        show (type * 4 + values.length) / 4 = type by omega, hread]
    | @long ds cs hlt h hc =>
      have hid : (UInt32.ofNat (Subframe.kReplyBase + type * 4)).toNat
          = Subframe.kReplyBase + type * 4 :=
        toNat_ofNat_of_lt (by rw [Subframe.kReplyBase]; omega)
      rw [parseSubframe, List.append_assoc, List.append_assoc, h.read]
      dsimp only
      rw [hid, if_pos ⟨by omega, by omega⟩,
        if_pos (show (Subframe.kReplyBase + type * 4) % 4 = 0 by rw [Subframe.kReplyBase]; omega),
        hc.read]
      dsimp only
      rw [List.append_assoc, hr.read]
      dsimp only
      rw [Nat.add_sub_cancel_left, Nat.mul_div_cancel _ (by decide), toNat_ofNat_of_lt hlt, hread]
  | @error kind reg code ks rs cs hkind hk hr hc =>
    have hid : (UInt32.ofNat kind).toNat = kind := toNat_ofNat_of_lt (by
      rcases hkind with rfl | rfl <;> decide)
    have hnot : ¬ (kind ≥ Subframe.kReplyBase ∧ kind < Subframe.kReplyBase + 16) := by
      rcases hkind with rfl | rfl <;> decide
    rw [parseSubframe, List.append_assoc, hk.read]
    dsimp only
    rw [hid, if_neg hnot, if_pos hkind, List.append_assoc, hr.read]
    dsimp only
    rw [hc.read]

/-- The number of values that is read behind the type of a reply. -/
theorem isReplyHead_of_read {id count : UInt32} {ks s₁ s₂ : Bytes}
    (hid : id.toNat ≥ Subframe.kReplyBase ∧ id.toNat < Subframe.kReplyBase + 16)
    (hk : IsNumber id ks)
    (h : (if id.toNat % 4 = 0 then ReadStream.readVaruint s₁
      else (some (UInt32.ofNat (id.toNat % 4)), s₁)) = (some count, s₂)) :
    ∃ hs, ks ++ s₁ = hs ++ s₂ ∧
      IsReplyHead ((id.toNat - Subframe.kReplyBase) / 4) count.toNat hs := by
  rw [Subframe.kReplyBase] at hid
  split_ifs at h with hlong
  · obtain ⟨cs, rfl, hc⟩ := isNumber_of_read h
    refine ⟨ks ++ cs, (List.append_assoc _ _ _).symm, .long count.toNat_lt ?_ ?_⟩
    · have heq : Subframe.kReplyBase + (id.toNat - Subframe.kReplyBase) / 4 * 4 = id.toNat := by
        rw [Subframe.kReplyBase]
        omega
      rwa [heq, UInt32.ofNat_toNat]
    · rwa [UInt32.ofNat_toNat]
  · obtain ⟨hcount, rfl⟩ := Prod.mk.inj h
    have hlow : count.toNat = id.toNat % 4 := by
      rw [← Option.some.inj hcount, toNat_ofNat_of_lt (by omega)]
    refine ⟨ks, rfl, .short (by omega) (by omega) ?_⟩
    have heq : Subframe.kReplyBase + ((id.toNat - Subframe.kReplyBase) / 4 * 4 + count.toNat)
        = id.toNat := by
      rw [Subframe.kReplyBase]
      omega
    rwa [heq, UInt32.ofNat_toNat]

/-- What is parsed is a complete subframe. -/
theorem isSubframe_of_parseSubframe {s rest : Bytes} {values : List RegisterValue}
    (h : parseSubframe s = (some values, rest)) : ∃ e, s = e ++ rest ∧ IsSubframe values e := by
  rw [parseSubframe] at h
  rcases hid : ReadStream.readVaruint s with ⟨_ | id, s₁⟩
  · simp [hid] at h
  rw [hid] at h
  obtain ⟨ks, rfl, hk⟩ := isNumber_of_read hid
  dsimp only at h
  by_cases hreply : id.toNat ≥ Subframe.kReplyBase ∧ id.toNat < Subframe.kReplyBase + 16
  · rw [if_pos hreply] at h
    set type := (id.toNat - Subframe.kReplyBase) / 4 with htype
    have htype4 : type < 4 := by omega
    rcases hcount : (if id.toNat % 4 = 0 then ReadStream.readVaruint s₁
        else (some (UInt32.ofNat (id.toNat % 4)), s₁)) with ⟨_ | count, s₂⟩
    · simp [hcount] at h
    rw [hcount] at h
    dsimp only at h
    obtain ⟨hs, hsplit, hh⟩ := isReplyHead_of_read hreply hk hcount
    rcases hstart : ReadStream.readVaruint s₂ with ⟨_ | start, s₃⟩
    · simp [hstart] at h
    rw [hstart] at h
    obtain ⟨rs, rfl, hr⟩ := isNumber_of_read hstart
    obtain ⟨vs, hlen, hvalues, rfl, rfl⟩ := values_of_readValues htype4 h
    refine ⟨hs ++ (rs ++ vs.flatMap Value.bytes), by rw [hsplit]; simp, ?_⟩
    exact .reply htype4 hvalues (hlen ▸ hh) hr
  · rw [if_neg hreply] at h
    split_ifs at h with hkind
    · rcases hreg : ReadStream.readVaruint s₁ with ⟨_ | reg, s₂⟩
      · simp [hreg] at h
      rw [hreg] at h
      dsimp only at h
      rcases hcode : ReadStream.readVaruint s₂ with ⟨_ | code, s₃⟩
      · simp [hcode] at h
      rw [hcode] at h
      obtain ⟨hvalues, rfl⟩ := Prod.mk.inj h
      obtain ⟨rs, rfl, hr⟩ := isNumber_of_read hreg
      obtain ⟨cs, rfl, hc⟩ := isNumber_of_read hcode
      rw [← Option.some.inj hvalues]
      refine ⟨ks ++ (rs ++ cs), by simp, .error hkind ?_ hr hc⟩
      rwa [UInt32.ofNat_toNat]
    · cases h

/-! ### The loop -/

/-- Behind a sequence of complete subframes the loop goes on. -/
theorem parseRegisterReply_of_isReply {values : List RegisterValue} {p : Bytes}
    (h : IsReply values p) (rest : Bytes) :
    parseRegisterReply (p ++ rest) = values ++ parseRegisterReply rest := by
  induction h with
  | nil => rfl
  | cons h _ ih =>
    rw [List.append_assoc, List.append_assoc, ← ih]
    exact parseRegisterReply_append h.ne_nil (parseSubframe_of_isSubframe h _)

/-- Where no complete subframe starts, nothing is put out. -/
theorem parseRegisterReply_of_none {s rest : Bytes} (h : parseSubframe s = (none, rest)) :
    parseRegisterReply s = [] := by
  rw [parseRegisterReply]
  cases s with
  | nil => rfl
  | cons b s =>
    rw [List.length_cons, parseRegisterReplyLoop, h]

/-- No complete subframe starts the bytes. -/
def Incomplete (s : Bytes) : Prop := ∀ values e rest, IsSubframe values e → s ≠ e ++ rest

theorem incomplete_of_none {s rest : Bytes} (h : parseSubframe s = (none, rest)) :
    Incomplete s := by
  rintro values e rest' he rfl
  rw [parseSubframe_of_isSubframe he] at h
  exact nomatch h

theorem readVaruint_suffix (s : Bytes) : (ReadStream.readVaruint s).2 <:+ s := by
  rw [← BufferReadStream.readVaruint_eq_readVaruint]
  exact BufferReadStream.readVaruint_suffix s

theorem readValues_suffix (type : ℕ) {n : ℕ} : ∀ (reg : Register) (s : Bytes),
    (readValues type n reg s).2 <:+ s := by
  induction n with
  | zero => exact fun _ s => List.suffix_refl s
  | succ n ih =>
    intro reg s
    rw [readValues]
    have hvalue : (readValue type s).2 <:+ s := by
      rw [readValue, ReadStream.readScalar]
      split_ifs
      · exact List.nil_suffix
      · exact List.drop_suffix _ s
    generalize readValue type s = r at hvalue ⊢
    obtain ⟨_ | value, s'⟩ := r
    · exact hvalue
    · have h := (ih (reg + 1) s').trans hvalue
      dsimp only
      generalize readValues type n (reg + 1) s' = r at h ⊢
      obtain ⟨_ | values, s''⟩ := r <;> exact h

/-- `ParseSubframe` stays within the bytes. -/
theorem parseSubframe_suffix (s : Bytes) : (parseSubframe s).2 <:+ s := by
  have h1 := readVaruint_suffix s
  rw [parseSubframe]
  generalize ReadStream.readVaruint s = r at h1 ⊢
  obtain ⟨_ | id, s₁⟩ := r
  · exact h1
  dsimp only at h1 ⊢
  split_ifs with hreply hlong hkind
  · have h2 := (readVaruint_suffix s₁).trans h1
    generalize ReadStream.readVaruint s₁ = r at h2 ⊢
    obtain ⟨_ | count, s₂⟩ := r
    · exact h2
    have h3 := (readVaruint_suffix s₂).trans h2
    dsimp only at h3 ⊢
    generalize ReadStream.readVaruint s₂ = r at h3 ⊢
    obtain ⟨_ | start, s₃⟩ := r
    · exact h3
    · exact (readValues_suffix _ _ _).trans h3
  · have h2 := (readVaruint_suffix s₁).trans h1
    dsimp only
    generalize ReadStream.readVaruint s₁ = r at h2 ⊢
    obtain ⟨_ | start, s₂⟩ := r
    · exact h2
    · exact (readValues_suffix _ _ _).trans h2
  · have h2 := (readVaruint_suffix s₁).trans h1
    generalize ReadStream.readVaruint s₁ = r at h2 ⊢
    obtain ⟨reg, s₂⟩ := r
    have h3 := (readVaruint_suffix s₂).trans h2
    dsimp only at h3 ⊢
    generalize ReadStream.readVaruint s₂ = r at h3 ⊢
    obtain ⟨code, s₃⟩ := r
    rcases reg with _ | reg <;> rcases code with _ | code <;> exact h3
  · exact h1

/-- The way of the loop: a sequence of complete subframes, and what no complete subframe starts. -/
theorem exists_runs (s : Bytes) : ∃ p r values rest, s = p ++ r ∧ IsReply values p ∧ Incomplete r ∧
    parseRegisterReply s = values ∧ Runs s values rest ∧ rest <:+ s := by
  induction hn : s.length using Nat.strong_induction_on generalizing s with
  | _ n ih =>
    rcases hp : parseSubframe s with ⟨_ | values, rest⟩
    · exact ⟨[], s, [], rest, rfl, .nil, incomplete_of_none hp, parseRegisterReply_of_none hp,
        .stop hp, by simpa [hp] using parseSubframe_suffix s⟩
    · obtain ⟨e, rfl, he⟩ := isSubframe_of_parseSubframe hp
      have hpos := List.length_pos_iff.mpr he.ne_nil
      rw [List.length_append] at hn
      obtain ⟨p, r, values', rest', hrest, hreply, hinc, hparse, hruns, hsuffix⟩ :=
        ih rest.length (by omega) rest rfl
      refine ⟨e ++ p, r, values ++ values', rest', by rw [hrest, List.append_assoc],
        .cons he hreply, hinc, ?_, .next hp hruns, hsuffix.trans (List.suffix_append e rest)⟩
      rw [parseRegisterReply_append he.ne_nil hp, hparse]

/-- A sequence of complete subframes that starts the bytes is part of the one behind which none is
complete. -/
theorem prefix_of_isReply {values' : List RegisterValue} {p' : Bytes}
    (h' : IsReply values' p') : ∀ {p r r' : Bytes} {values : List RegisterValue}, IsReply values p →
    Incomplete r → p' ++ r' = p ++ r → p' <+: p := by
  induction h' with
  | nil => exact fun _ _ _ => List.nil_prefix
  | @cons vs vs' e q he _ ih =>
    intro p r r' values h hinc heq
    cases h with
    | nil =>
      rw [List.append_assoc] at heq
      exact absurd heq.symm (hinc _ _ _ he)
    | @cons ws ws' e' q' he' hq' =>
      rw [List.append_assoc, List.append_assoc] at heq
      -- both first subframes are what is parsed
      have hfirst := parseSubframe_of_isSubframe he (q ++ r')
      rw [heq, parseSubframe_of_isSubframe he'] at hfirst
      have hrest : q' ++ r = q ++ r' := (Prod.mk.inj hfirst).2
      rw [← hrest] at heq
      obtain rfl := List.append_cancel_right heq
      exact (List.prefix_append_right_inj e).mpr (ih hq' hinc hrest.symm)

/-! ### `ParseRegisterReply` -/

/-- **`ParseRegisterReply` on any bytes.** The loop comes to an end within the bytes.  What it puts out
are the values and errors of a prefix that is a sequence of complete subframes and behind which none is
complete; every prefix that is such a sequence is a prefix of this one.  And the list for a prefix of
the bytes is a prefix of the list. -/
theorem parseRegisterReply_spec (s : Bytes) :
    (∃ rest, Runs s (parseRegisterReply s) rest ∧ rest <:+ s) ∧
    (∃ p r, s = p ++ r ∧ IsReply (parseRegisterReply s) p ∧ Incomplete r ∧
      ∀ p' values, p' <+: s → IsReply values p' → p' <+: p ∧ values <+: parseRegisterReply s) ∧
    ∀ p, p <+: s → parseRegisterReply p <+: parseRegisterReply s := by
  obtain ⟨p, r, values, rest, hs, hreply, hinc, rfl, hruns, hsuffix⟩ := exists_runs s
  have hlongest : ∀ p' values, p' <+: s → IsReply values p' →
      p' <+: p ∧ values <+: parseRegisterReply s := by
    rintro p' values ⟨r', hr'⟩ hvalues
    refine ⟨prefix_of_isReply hvalues hreply hinc (hr'.trans hs), parseRegisterReply r', ?_⟩
    rw [← parseRegisterReply_of_isReply hvalues, hr']
  refine ⟨⟨rest, hruns, hsuffix⟩, ⟨p, r, hs, hreply, hinc, hlongest⟩, fun q hq => ?_⟩
  -- the prefix's own sequence is one of the whole
  obtain ⟨p', r', values', rest', hsplit, hreply', -, rfl, -, -⟩ := exists_runs q
  refine (hlongest p' _ ?_ hreply').2
  exact (hsplit ▸ List.prefix_append p' r').trans hq

/-- A reply of one value, an error that is cut short behind it, and what is left of each. -/
example : parseRegisterReply [0x21, 0x01, 0x07, 0x31, 0x02] = [(1, .value (.int8 7))] := by decide

end RegisterReply

end Mjlib.Multiplex
