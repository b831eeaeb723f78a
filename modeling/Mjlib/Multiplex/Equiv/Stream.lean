import Mjlib.Lib.Base128
import Mjlib.Multiplex.Stream

/-!
# Correctness of the multiplex stream primitives

Both variants of `ReadVaruint` are `Base128.decode 5` on 32-bit words (`ReadStream.readVaruint_eq`,
`BufferReadStream.readVaruint_eq`), `WriteVaruint` writes the shortest numeral
(`writeVaruint_eq`), `GetVaruintSize` its length (`getVaruintSize_eq`), so reading what was written
returns the value and leaves the rest (`BufferReadStream.readVaruint_writeVaruint`).
-/

namespace Mjlib.Multiplex

open Base128 (Encodes and_0x7f_toNat and_0x80_eq_zero mark_ofNat)

/-! ### Bytes of a varuint -/

/-- What a 32-bit reader makes of a base-128 numeral of at most five bytes. -/
def varuintOutcome : Base128.Outcome → Option UInt32 × Bytes
  | .truncated => (none, [])
  | .tooLong rest => (some 0xffffffff, rest)
  | .value n rest => (some (UInt32.ofNat n), rest)

/-- One step of either loop: seven more bits above the `7 i` bits already there. -/
theorem or_shift_eq (result : UInt32) (b : UInt8) {i : ℕ} (hi : i ≤ 4)
    (hr : result.toNat < 2 ^ (7 * i)) :
    result ||| ((b &&& 0x7f).toUInt32 <<< UInt32.ofNat (7 * i))
      = UInt32.ofNat (result.toNat + 2 ^ (7 * i) * (b.toNat % 128)) := by
  have hpos : 7 * i ≤ 32 := by omega
  have hshift : (UInt32.ofNat (7 * i)).toNat % 32 = 7 * i := by
    rw [UInt32.toNat_ofNat']
    omega
  have h := Base128.or_shiftLeft_eq result.toBitVec (p := 7 * i) (by simpa using hr) hpos
    (b.toNat % 128)
  apply UInt32.toNat_inj.mp
  have h' := congrArg BitVec.toNat h
  rw [BitVec.toNat_or, BitVec.toNat_shiftLeft, BitVec.toNat_ofNat, BitVec.toNat_ofNat,
    Nat.mod_eq_of_lt (show b.toNat % 128 < 2 ^ 32 by omega)] at h'
  rw [UInt32.toNat_or, UInt32.toNat_shiftLeft, hshift, UInt8.toNat_toUInt32, and_0x7f_toNat,
    UInt32.toNat_ofNat']
  exact h'

/-- The number assembled after one more byte, when the loop can go on. -/
theorem toNat_ofNat_step {r x : ℕ} {i : ℕ} (hi : i ≤ 3) (hr : r < 2 ^ (7 * i)) (hx : x < 128) :
    (UInt32.ofNat (r + 2 ^ (7 * i) * x)).toNat = r + 2 ^ (7 * i) * x ∧
      r + 2 ^ (7 * i) * x < 2 ^ (7 * (i + 1)) := by
  have hlt : r + 2 ^ (7 * i) * x < 2 ^ (7 * (i + 1)) := Base128.add_digit_lt hr hx
  have h28 : (2 : ℕ) ^ (7 * (i + 1)) ≤ 2 ^ 28 := Nat.pow_le_pow_right (by norm_num) (by omega)
  refine ⟨?_, hlt⟩
  rw [UInt32.toNat_ofNat', Nat.mod_eq_of_lt (by omega)]

namespace ReadStream

/-- The invariant of the loop: `7 i` bits are assembled and `n` bytes may follow. -/
theorem readVaruintLoop_eq {n : ℕ} : ∀ {i : ℕ} {result : UInt32} (s : Bytes), n + i ≤ 5 →
    result.toNat < 2 ^ (7 * i) →
    readVaruintLoop n (UInt32.ofNat (7 * i)) result s = varuintOutcome
      (match Base128.decode n s with
        | .value v rest => .value (result.toNat + 2 ^ (7 * i) * v) rest
        | o => o) := by
  induction n with
  | zero => intro i result s _ _; rfl
  | succ n ih =>
    intro i result s hi hr
    cases s with
    | nil => rfl
    | cons b s =>
      rw [readVaruintLoop, readU8, Base128.decode]
      dsimp only
      rw [or_shift_eq result b (by omega) hr]
      by_cases hb : b.toNat < 128
      · rw [if_pos ((and_0x80_eq_zero b).mpr hb), if_pos hb, Nat.mod_eq_of_lt hb]
        rfl
      · rw [if_neg (fun h => hb ((and_0x80_eq_zero b).mp h)), if_neg hb]
        rw [show UInt32.ofNat (7 * i) + 7 = UInt32.ofNat (7 * (i + 1)) by
          rw [Nat.mul_add, UInt32.ofNat_add]; rfl]
        rcases Nat.eq_zero_or_pos n with rfl | hn
        · rfl
        · obtain ⟨hval, hlt⟩ := toNat_ofNat_step (i := i) (by omega) hr
            (Nat.mod_lt b.toNat (by norm_num : 0 < 128))
          rw [ih (i := i + 1) s (by omega) (by rw [hval]; exact hlt), hval]
          cases Base128.decode n s with
          | truncated => rfl
          | tooLong rest => rfl
          | value v rest =>
            dsimp only [varuintOutcome]
            congr 3
            rw [Nat.mul_add 7, pow_add]
            ring

theorem readVaruint_eq (s : Bytes) : readVaruint s = varuintOutcome (Base128.decode 5 s) := by
  have h : readVaruintLoop 5 (UInt32.ofNat (7 * 0)) 0 s =
      varuintOutcome (Base128.decode 5 s) := by
    rw [readVaruintLoop_eq s (by norm_num) (by norm_num)]
    cases Base128.decode 5 s <;> simp [varuintOutcome]
  exact h

end ReadStream

namespace BufferReadStream

/-- The specialised loop is the generic one on the bytes not yet looked at. -/
theorem readVaruintLoop_eq (s : Bytes) {n : ℕ} : ∀ (i : ℕ) (pos result : UInt32),
    readVaruintLoop s n i pos result = ReadStream.readVaruintLoop n pos result (s.drop i) := by
  induction n with
  | zero => intro i pos result; rfl
  | succ n ih =>
    intro i pos result
    rw [readVaruintLoop, ReadStream.readVaruintLoop]
    have htail : s.drop (i + 1) = (s.drop i).tail := by
      rw [← List.drop_drop, List.drop_one]
    cases h : s.drop i with
    | nil => rfl
    | cons b t =>
      rw [h, List.tail_cons] at htail
      simp only [ReadStream.readU8]
      rw [ih, htail]

theorem readVaruint_eq_readVaruint (s : Bytes) : readVaruint s = ReadStream.readVaruint s := by
  rw [readVaruint, readVaruintLoop_eq, List.drop_zero, ReadStream.readVaruint]

theorem readVaruint_eq (s : Bytes) : readVaruint s = varuintOutcome (Base128.decode 5 s) := by
  rw [readVaruint_eq_readVaruint, ReadStream.readVaruint_eq]

/-- A numeral of at most five bytes reads as its number modulo `2 ^ 32`. -/
theorem readVaruint_append {ds : Bytes} {n : ℕ} (h : Encodes ds n) (hl : ds.length ≤ 5)
    (rest : Bytes) : readVaruint (ds ++ rest) = (some (UInt32.ofNat n), rest) := by
  rw [readVaruint_eq, Base128.decode_append h hl]
  rfl

/-- Inside a numeral there is no number yet. -/
theorem readVaruint_of_open {s : Bytes} (h : Base128.Open s) (hl : s.length < 5) :
    readVaruint s = (none, []) := by
  rw [readVaruint_eq, Base128.decode_truncated.mpr ⟨h, hl⟩]
  rfl

@[simp] theorem readVaruint_nil : readVaruint [] = (none, []) := rfl

/-- What a number was read from reads as that number whatever follows. -/
theorem readVaruint_split {s rest : Bytes} {v : UInt32} (h : readVaruint s = (some v, rest)) :
    ∃ ds, s = ds ++ rest ∧ ∀ r, readVaruint (ds ++ r) = (some v, r) := by
  rw [readVaruint_eq] at h
  cases hd : Base128.decode 5 s with
  | truncated => simp [hd, varuintOutcome] at h
  | tooLong rest' =>
    simp only [hd, varuintOutcome, Prod.mk.injEq, Option.some.injEq] at h
    obtain ⟨ds, hs, ho, hl⟩ := Base128.decode_tooLong hd
    refine ⟨ds, by rw [hs, h.2], fun r => ?_⟩
    rw [readVaruint_eq, Base128.decode_append_of_open ho hl, ← h.1]
    rfl
  | value n rest' =>
    simp only [hd, varuintOutcome, Prod.mk.injEq, Option.some.injEq] at h
    obtain ⟨ds, hs, he, hl⟩ := Base128.decode_eq_value hd
    refine ⟨ds, by rw [hs, h.2], fun r => ?_⟩
    rw [readVaruint_append he hl, h.1]

/-- Whatever `readVaruint` returns, the bytes it leaves are a suffix; on a non-empty string it uses
at least one byte. -/
theorem readVaruint_suffix (s : Bytes) : (readVaruint s).2 <:+ s := by
  rw [readVaruint_eq]
  cases h : Base128.decode 5 s with
  | truncated => exact List.nil_suffix
  | tooLong rest =>
    obtain ⟨ds, rfl, _, _⟩ := Base128.decode_tooLong h
    exact List.suffix_append ds rest
  | value n rest =>
    obtain ⟨ds, rfl, _, _⟩ := Base128.decode_eq_value h
    exact List.suffix_append ds rest

theorem length_readVaruint_lt {s : Bytes} (hs : s ≠ []) : (readVaruint s).2.length < s.length := by
  rw [readVaruint_eq]
  cases h : Base128.decode 5 s with
  | truncated => exact List.length_pos_iff.mpr hs
  | tooLong rest =>
    obtain ⟨ds, rfl, _, hl⟩ := Base128.decode_tooLong h
    simp [varuintOutcome, hl]
  | value n rest =>
    obtain ⟨ds, rfl, he, _⟩ := Base128.decode_eq_value h
    have := he.length_pos
    simp only [varuintOutcome, List.length_append]
    omega

end BufferReadStream

/-! ### Writing -/

theorem low7_toNat (v : UInt32) : (v &&& 0x7f).toUInt8 = UInt8.ofNat (v.toNat % 128) := by
  apply UInt8.toNat_inj.mp
  rw [UInt32.toNat_toUInt8, UInt32.toNat_and, show (0x7f : UInt32).toNat = 2 ^ 7 - 1 from rfl,
    Nat.and_two_pow_sub_one_eq_mod, UInt8.toNat_ofNat']

theorem shiftRight7_toNat (v : UInt32) : (v >>> 7).toNat = v.toNat / 128 := by
  rw [UInt32.toNat_shiftRight, show (7 : UInt32).toNat % 32 = 7 from rfl,
    Nat.shiftRight_eq_div_pow]

theorem shiftRight7_ne_zero (v : UInt32) : v >>> 7 ≠ 0 ↔ 128 ≤ v.toNat := by
  rw [ne_eq, ← UInt32.toNat_inj, shiftRight7_toNat, UInt32.toNat_zero]
  omega

theorem writeVaruintLoop_eq {n : ℕ} : ∀ (v : UInt32), v.toNat < 128 ^ (n + 1) →
    writeVaruintLoop (n + 1) v = Base128.encode v.toNat := by
  induction n with
  | zero =>
    intro v hv
    have hv' : v.toNat < 128 := by simpa using hv
    rw [writeVaruintLoop, if_neg (fun h => by have := (shiftRight7_ne_zero v).mp h; omega), low7_toNat,
      Base128.encode_of_lt hv', Nat.mod_eq_of_lt hv']
  | succ n ih =>
    intro v hv
    rw [writeVaruintLoop, low7_toNat]
    by_cases h : 128 ≤ v.toNat
    · have hdiv : (v >>> 7).toNat < 128 ^ (n + 1) := by
        rw [shiftRight7_toNat, Nat.div_lt_iff_lt_mul (by norm_num), ← pow_succ]
        exact hv
      rw [if_pos ((shiftRight7_ne_zero v).mpr h), mark_ofNat (Nat.mod_lt _ (by norm_num)),
        ih _ hdiv, shiftRight7_toNat, Base128.encode_of_le h]
    · rw [if_neg (fun h' => h ((shiftRight7_ne_zero v).mp h')), Base128.encode_of_lt (by omega),
        Nat.mod_eq_of_lt (by omega)]

/-- `WriteVaruint` writes the shortest numeral. -/
theorem writeVaruint_eq (v : UInt32) : writeVaruint v = Base128.encode v.toNat :=
  writeVaruintLoop_eq v (lt_of_lt_of_le v.toNat_lt (by decide))

theorem encodes_writeVaruint (v : UInt32) : Encodes (writeVaruint v) v.toNat := by
  rw [writeVaruint_eq]
  exact Base128.encodes_encode _

theorem length_writeVaruint_le (v : UInt32) : (writeVaruint v).length ≤ 5 := by
  rw [writeVaruint_eq]
  exact Base128.length_encode_le (lt_of_lt_of_le v.toNat_lt (by decide))

theorem length_writeVaruint_pos (v : UInt32) : 0 < (writeVaruint v).length :=
  (encodes_writeVaruint v).length_pos

/-- A value below 128 is written as one byte. -/
theorem writeVaruint_of_lt {v : UInt32} (h : v.toNat < 128) :
    writeVaruint v = [UInt8.ofNat v.toNat] := by
  rw [writeVaruint_eq, Base128.encode_of_lt h]

theorem getVaruintSizeLoop_eq {n : ℕ} : ∀ v : UInt32,
    getVaruintSizeLoop n v = (writeVaruintLoop n v).length := by
  induction n with
  | zero => intro v; rfl
  | succ n ih =>
    intro v
    rw [getVaruintSizeLoop, writeVaruintLoop]
    split_ifs
    · rw [ih, List.length_cons, Nat.add_comm]
    · rfl

/-- `GetVaruintSize` is the number of bytes `WriteVaruint` writes. -/
theorem getVaruintSize_eq (v : UInt32) : getVaruintSize v = (writeVaruint v).length :=
  getVaruintSizeLoop_eq v

/-- Reading what was written returns the value and leaves the rest. -/
theorem BufferReadStream.readVaruint_writeVaruint (v : UInt32) (rest : Bytes) :
    readVaruint (writeVaruint v ++ rest) = (some v, rest) := by
  rw [readVaruint_append (encodes_writeVaruint v) (length_writeVaruint_le v), UInt32.ofNat_toNat]

theorem ReadStream.readVaruint_writeVaruint (v : UInt32) (rest : Bytes) :
    readVaruint (writeVaruint v ++ rest) = (some v, rest) := by
  rw [← BufferReadStream.readVaruint_eq_readVaruint, BufferReadStream.readVaruint_writeVaruint]

/-! ### The specialised varuint -/

theorem BufferWriteStream.writeVaruintLoop_eq {n : ℕ} (value : UInt32) (stored : Bytes) :
    BufferWriteStream.writeVaruintLoop n value stored
      = stored ++ Multiplex.writeVaruintLoop n value := by
  induction n generalizing value stored with
  | zero => exact (List.append_nil stored).symm
  | succ n ih =>
    rw [BufferWriteStream.writeVaruintLoop, Multiplex.writeVaruintLoop]
    by_cases hmore : value >>> 7 ≠ 0
    · rw [if_pos hmore, if_pos hmore, if_pos hmore, ih, List.append_assoc]
      rfl
    · rw [if_neg hmore, if_neg hmore, if_neg hmore]
      congr 2
      exact UInt8.or_zero

theorem BufferWriteStream.writeVaruint_eq (value : UInt32) (w : Base.BufferWriteStream) :
    BufferWriteStream.writeVaruint value w = w.put (Multiplex.writeVaruint value) := by
  rw [BufferWriteStream.writeVaruint, BufferWriteStream.writeVaruintLoop_eq, List.nil_append,
    Multiplex.writeVaruint]

/-- **The specialised varuint**: it is read and written as the generic one is, in as many bytes as
`GetVaruintSize` says, and what was written reads as the value. -/
theorem varuint_specialised :
    (∀ s, BufferReadStream.readVaruint s = ReadStream.readVaruint s) ∧
      (∀ value w, BufferWriteStream.writeVaruint value w = w.put (writeVaruint value) ∧
        (writeVaruint value).length = getVaruintSize value) ∧
      ∀ value rest, ReadStream.readVaruint (writeVaruint value ++ rest) = (some value, rest) ∧
        BufferReadStream.readVaruint (writeVaruint value ++ rest) = (some value, rest) :=
  ⟨BufferReadStream.readVaruint_eq_readVaruint,
    fun value w => ⟨BufferWriteStream.writeVaruint_eq value w, (getVaruintSize_eq value).symm⟩,
    fun value rest => ⟨ReadStream.readVaruint_writeVaruint value rest,
      BufferReadStream.readVaruint_writeVaruint value rest⟩⟩

/-! ### Numbers that are too big -/

/-- What should be read for a numeral of so many bytes. -/
def clamped (n length : ℕ) : UInt32 := if n < 2 ^ 32 ∧ length ≤ 5 then UInt32.ofNat n else 0xffffffff

/-- A numeral of `k` bytes is below `128 ^ k`. -/
theorem lt_of_encodes {ds : Bytes} {n : ℕ} (h : Encodes ds n) : n < 128 ^ ds.length := by
  induction h with
  | last hb => simpa using hb
  | more hb hds ih =>
    rw [List.length_cons, pow_succ]
    omega

/-- **Numbers that are too big.**  A numeral at the start of a string reads as its number, or as the
largest one if it is longer than five bytes or its number does not fit, if and only if it does not
have five bytes, or its number fits, or is the largest one modulo `2 ^ 32`. -/
theorem readVaruint_clamped_iff {ds : Bytes} {n : ℕ} (h : Encodes ds n) (rest : Bytes) :
    ((ReadStream.readVaruint (ds ++ rest)).1 = some (clamped n ds.length) ∧
        (BufferReadStream.readVaruint (ds ++ rest)).1 = some (clamped n ds.length)) ↔
      ds.length ≠ 5 ∨ n < 2 ^ 32 ∨ n % 2 ^ 32 = 2 ^ 32 - 1 := by
  rw [BufferReadStream.readVaruint_eq_readVaruint, and_self, ReadStream.readVaruint_eq]
  by_cases hlong : 5 < ds.length
  · -- the first five bytes all have the mark
    have hopen : Base128.Open (ds.take 5) := h.open_of_prefix (List.take_append_drop 5 ds).symm
      fun hnil => by
        have hzero := congrArg List.length hnil
        rw [List.length_drop, List.length_nil] at hzero
        omega
    have hsplit : ds ++ rest = ds.take 5 ++ (ds.drop 5 ++ rest) := by
      rw [← List.append_assoc, List.take_append_drop]
    have htake : (ds.take 5).length = 5 := by
      rw [List.length_take]
      omega
    rw [hsplit, Base128.decode_append_of_open hopen htake]
    have hclamped : clamped n ds.length = 0xffffffff := if_neg fun hfits => by omega
    rw [hclamped]
    exact iff_of_true rfl (Or.inl (by omega))
  rw [Base128.decode_append h (by omega)]
  change some (UInt32.ofNat n) = some (clamped n ds.length) ↔ _
  rw [Option.some_inj, clamped]
  by_cases hfits : n < 2 ^ 32
  · rw [if_pos ⟨hfits, by omega⟩]
    exact iff_of_true rfl (Or.inr (Or.inl hfits))
  · have hlength : ds.length = 5 := by
      by_contra hne
      have hlt := lt_of_encodes h
      have hle : 128 ^ ds.length ≤ 128 ^ 4 := Nat.pow_le_pow_right (by norm_num) (by omega)
      omega
    rw [if_neg fun hboth => hfits hboth.1, ← UInt32.toNat_inj, UInt32.toNat_ofNat']
    change n % 2 ^ 32 = 2 ^ 32 - 1 ↔ _
    constructor
    · exact fun hmax => Or.inr (Or.inr hmax)
    · rintro (hne | hlt | hmax)
      · exact absurd hlength hne
      · exact absurd hlt hfits
      · exact hmax

/-- Six bytes of 1 read as the largest number. -/
theorem readVaruint_clamped_iff_padded :
    ((ReadStream.readVaruint ([0x81, 0x80, 0x80, 0x80, 0x80, 0x00] ++ [7])).1
        = some (clamped 1 6) ∧
      (BufferReadStream.readVaruint ([0x81, 0x80, 0x80, 0x80, 0x80, 0x00] ++ [7])).1
        = some (clamped 1 6)) ↔ 6 ≠ 5 ∨ 1 < 2 ^ 32 ∨ 1 % 2 ^ 32 = 2 ^ 32 - 1 :=
  readVaruint_clamped_iff (.more (by decide) (.more (by decide) (.more (by decide)
    (.more (by decide) (.more (by decide) (.last (by decide))))))) [7]

/-- The fifth byte has a bit that is lost: `2 ^ 32` reads as 0. -/
theorem not_readVaruint_clamped : ¬ ∀ (ds : Bytes) (n : ℕ), Encodes ds n → ∀ rest : Bytes,
    (ReadStream.readVaruint (ds ++ rest)).1 = some (clamped n ds.length) := by
  intro hall
  have hencodes : Encodes [0x80, 0x80, 0x80, 0x80, 0x10] (2 ^ 32) :=
    .more (by decide) (.more (by decide) (.more (by decide) (.more (by decide)
      (.last (by decide)))))
  exact absurd (hall _ _ hencodes []) (by decide)

/-! ### Scalars -/

theorem BufferReadStream.readScalar_append {size n : ℕ} (h : n < 256 ^ size) (rest : Bytes) :
    readScalar size (scalarBytes size n ++ rest) = (some n, rest) := by
  rw [readScalar, if_neg (by simp), List.take_left' (by simp), List.drop_left' (by simp),
    LittleEndian.decode_encode h]

theorem ReadStream.readScalar_append {size n : ℕ} (h : n < 256 ^ size) (rest : Bytes) :
    readScalar size (scalarBytes size n ++ rest) = (some n, rest) := by
  rw [readScalar, if_neg (by simp), List.take_left' (by simp), List.drop_left' (by simp),
    LittleEndian.decode_encode h]

end Mjlib.Multiplex
