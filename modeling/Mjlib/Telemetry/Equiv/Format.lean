import Mjlib.Lib.Base128
import Mjlib.Telemetry.Format

/-!
# Correctness of the telemetry primitives

`WriteVaruint` writes the shortest base-128 numeral (`writeVaruint_eq`) and `ReadVaruint` reads any
numeral of at most ten bytes (`readVaruint_append`), so each primitive reader applied to what its
writer wrote returns the value and leaves the bytes behind it: `readVaruint_writeVaruint`,
`readVarint_writeVarint`, `readScalar_writeScalar`, `readU8_writeBool`, `readString_writeString`.
-/

namespace Mjlib.Telemetry

open Base128 (Encodes and_0x7f_toNat and_0x80_eq_zero mark_ofNat)

/-- A chain of fallible steps that succeeds. -/
theorem bind_eq_ok {ε α β : Type} {x : Except ε α} {f : α → Except ε β} {b : β} :
    x >>= f = .ok b ↔ ∃ a, x = .ok a ∧ f a = .ok b := by
  cases x with
  | error e => exact iff_of_false nofun (fun ⟨_, h, _⟩ => absurd h nofun)
  | ok a => exact ⟨fun h => ⟨a, rfl, h⟩, fun ⟨_, ha, h⟩ => by rw [Except.ok.inj ha]; exact h⟩

/-! ### Reading a varuint -/

/-- One step of the loop: seven more bits above the `7 i` bits already there. -/
theorem or_shift_eq (result : UInt64) (b : UInt8) {i : ℕ} (hi : i ≤ 9)
    (hr : result.toNat < 2 ^ (7 * i)) :
    result ||| ((b &&& 0x7f).toUInt64 <<< UInt64.ofNat (7 * i))
      = UInt64.ofNat (result.toNat + 2 ^ (7 * i) * (b.toNat % 128)) := by
  have hpos : 7 * i ≤ 64 := by omega
  have hshift : (UInt64.ofNat (7 * i)).toNat % 64 = 7 * i := by
    rw [UInt64.toNat_ofNat']
    omega
  have h := Base128.or_shiftLeft_eq result.toBitVec (p := 7 * i) (by simpa using hr) hpos
    (b.toNat % 128)
  apply UInt64.toNat_inj.mp
  have h' := congrArg BitVec.toNat h
  rw [BitVec.toNat_or, BitVec.toNat_shiftLeft, BitVec.toNat_ofNat, BitVec.toNat_ofNat,
    Nat.mod_eq_of_lt (show b.toNat % 128 < 2 ^ 64 by omega)] at h'
  rw [UInt64.toNat_or, UInt64.toNat_shiftLeft, hshift, UInt8.toNat_toUInt64, and_0x7f_toNat,
    UInt64.toNat_ofNat']
  exact h'

/-- The number assembled after one more byte, when the loop can go on. -/
theorem toNat_ofNat_step {r x : ℕ} {i : ℕ} (hi : i ≤ 8) (hr : r < 2 ^ (7 * i)) (hx : x < 128) :
    (UInt64.ofNat (r + 2 ^ (7 * i) * x)).toNat = r + 2 ^ (7 * i) * x ∧
      r + 2 ^ (7 * i) * x < 2 ^ (7 * (i + 1)) := by
  have hlt : r + 2 ^ (7 * i) * x < 2 ^ (7 * (i + 1)) := Base128.add_digit_lt hr hx
  have h63 : (2 : ℕ) ^ (7 * (i + 1)) ≤ 2 ^ 63 := Nat.pow_le_pow_right (by norm_num) (by omega)
  refine ⟨?_, hlt⟩
  rw [UInt64.toNat_ofNat', Nat.mod_eq_of_lt (by omega)]

/-- The byte that ends the loop. -/
theorem ge_0x80_iff (b : UInt8) : b ≥ 0x80 ↔ 128 ≤ b.toNat := UInt8.le_iff_toNat_le

/-- The invariant of the loop: `7 i` bits are assembled. -/
theorem readVaruintLoop_append {ds : Bytes} {n : ℕ} (h : Encodes ds n) :
    ∀ {i : ℕ} {result : UInt64} (rest : Bytes), ds.length + i ≤ 10 → result.toNat < 2 ^ (7 * i) →
      readVaruintLoop result (7 * i) (ds ++ rest) =
        (some (UInt64.ofNat (result.toNat + 2 ^ (7 * i) * n)), rest) := by
  induction h with
  | @last b hb =>
    intro i result rest hi hr
    rw [List.length_singleton] at hi
    rw [List.cons_append, readVaruintLoop]
    rw [if_neg (fun h => by have := (ge_0x80_iff b).mp h; omega), or_shift_eq result b (by omega) hr,
      Nat.mod_eq_of_lt hb, List.nil_append]
  | @more b ds n hb hds ih =>
    intro i result rest hi hr
    rw [List.length_cons] at hi
    have hpos := hds.length_pos
    obtain ⟨hval, hlt⟩ := toNat_ofNat_step (i := i) (by omega) hr
      (Nat.mod_lt b.toNat (by norm_num : 0 < 128))
    rw [List.cons_append, readVaruintLoop]
    rw [if_pos ((ge_0x80_iff b).mpr hb), or_shift_eq result b (by omega) hr,
      show 7 * i + 7 = 7 * (i + 1) by omega, ih rest (by omega) (by rw [hval]; exact hlt), hval]
    congr 3
    rw [Nat.mul_add 7, pow_add]
    ring

/-- A numeral of at most ten bytes reads as its number modulo `2 ^ 64`. -/
theorem readVaruint_append {ds : Bytes} {n : ℕ} (h : Encodes ds n) (hl : ds.length ≤ 10)
    (rest : Bytes) : readVaruint (ds ++ rest) = (some (UInt64.ofNat n), rest) := by
  have h' := @readVaruintLoop_append ds n h 0 0 rest hl (by norm_num)
  rw [UInt64.toNat_zero, Nat.mul_zero, pow_zero, Nat.one_mul, Nat.zero_add] at h'
  exact h'

/-- The end of the file inside a numeral. -/
theorem readVaruintLoop_of_open : ∀ {s : Bytes} (result : UInt64) (position : ℕ), Base128.Open s →
    readVaruintLoop result position s = (none, []) := by
  intro s
  induction s with
  | nil => exact fun _ _ _ => rfl
  | cons b s ih =>
    intro result position h
    rw [readVaruintLoop]
    rw [if_pos ((ge_0x80_iff b).mpr (h b List.mem_cons_self))]
    exact ih _ _ fun c hc => h c (List.mem_cons_of_mem _ hc)

theorem readVaruintLoop_isSuffix (result : UInt64) (position : ℕ) (s : Bytes) :
    (readVaruintLoop result position s).2 <:+ s := by
  induction s generalizing result position with
  | nil => exact List.suffix_refl _
  | cons value s ih =>
    rw [readVaruintLoop]
    split
    · exact (ih _ _).trans (List.suffix_cons value s)
    · exact List.suffix_cons value s

/-- A varuint is read off the front of the stream. -/
theorem readVaruint_isSuffix (s : Bytes) : (readVaruint s).2 <:+ s :=
  readVaruintLoop_isSuffix 0 0 s

theorem low7_toNat (v : UInt64) : (v &&& 0x7f).toUInt8 = UInt8.ofNat (v.toNat % 128) := by
  apply UInt8.toNat_inj.mp
  rw [UInt64.toNat_toUInt8, UInt64.toNat_and, show (0x7f : UInt64).toNat = 2 ^ 7 - 1 from rfl,
    Nat.and_two_pow_sub_one_eq_mod, UInt8.toNat_ofNat']

theorem shiftRight7_toNat (v : UInt64) : (v >>> 7).toNat = v.toNat / 128 := by
  rw [UInt64.toNat_shiftRight, show (7 : UInt64).toNat % 64 = 7 from rfl,
    Nat.shiftRight_eq_div_pow]

theorem shiftRight7_ne_zero (v : UInt64) : v >>> 7 ≠ 0 ↔ 128 ≤ v.toNat := by
  rw [ne_eq, ← UInt64.toNat_inj, shiftRight7_toNat, UInt64.toNat_zero]
  omega

theorem gt_0x7f_iff (v : UInt64) : v > 0x7f ↔ 128 ≤ v.toNat := by
  rw [gt_iff_lt, UInt64.lt_iff_toNat_lt, show (0x7f : UInt64).toNat = 127 from rfl]
  omega

theorem writeVaruintLoop_eq {n : ℕ} : ∀ v : UInt64, v.toNat < 128 ^ (n + 1) →
    writeVaruintLoop (n + 1) v = Base128.encode v.toNat := by
  induction n with
  | zero =>
    intro v hv
    have hv' : v.toNat < 128 := by simpa using hv
    rw [writeVaruintLoop, if_neg (fun h => by have := (gt_0x7f_iff v).mp h; omega),
      if_neg (fun h => by have := (shiftRight7_ne_zero v).mp h; omega), low7_toNat,
      Base128.encode_of_lt hv', Nat.mod_eq_of_lt hv']
  | succ n ih =>
    intro v hv
    rw [writeVaruintLoop, low7_toNat]
    by_cases h : 128 ≤ v.toNat
    · have hdiv : (v >>> 7).toNat < 128 ^ (n + 1) := by
        rw [shiftRight7_toNat, Nat.div_lt_iff_lt_mul (by norm_num), ← pow_succ]
        exact hv
      rw [if_pos ((gt_0x7f_iff v).mpr h), if_pos ((shiftRight7_ne_zero v).mpr h),
        mark_ofNat (Nat.mod_lt _ (by norm_num)), ih _ hdiv, shiftRight7_toNat,
        Base128.encode_of_le h]
    · rw [if_neg (fun h' => h ((gt_0x7f_iff v).mp h')),
        if_neg (fun h' => h ((shiftRight7_ne_zero v).mp h')), Base128.encode_of_lt (by omega),
        Nat.mod_eq_of_lt (by omega)]

/-- `WriteVaruint` writes the shortest numeral. -/
theorem writeVaruint_eq (v : UInt64) : writeVaruint v = Base128.encode v.toNat :=
  writeVaruintLoop_eq v (lt_of_lt_of_le v.toNat_lt (by decide))

theorem encodes_writeVaruint (v : UInt64) : Encodes (writeVaruint v) v.toNat := by
  rw [writeVaruint_eq]
  exact Base128.encodes_encode _

theorem length_writeVaruint_le (v : UInt64) : (writeVaruint v).length ≤ 10 := by
  rw [writeVaruint_eq]
  exact Base128.length_encode_le (lt_of_lt_of_le v.toNat_lt (by decide))

theorem length_writeVaruint_pos (v : UInt64) : 0 < (writeVaruint v).length :=
  (encodes_writeVaruint v).length_pos

/-- A value below 128 is written as one byte. -/
theorem writeVaruint_of_lt {v : UInt64} (h : v.toNat < 128) :
    writeVaruint v = [UInt8.ofNat v.toNat] := by
  rw [writeVaruint_eq, Base128.encode_of_lt h]

theorem getVaruintSizeLoop_eq {n : ℕ} : ∀ v : UInt64,
    Format.getVaruintSizeLoop n v = (writeVaruintLoop n v).length := by
  induction n with
  | zero => exact fun _ => rfl
  | succ n ih =>
    intro v
    rw [Format.getVaruintSizeLoop, writeVaruintLoop, List.length_cons, Nat.add_comm]
    by_cases h : v ≤ 0x7f
    · -- the value that is left is zero, so the writer's loop ends here as well
      have hz : v >>> 7 = 0 := by
        by_contra hz
        have := (shiftRight7_ne_zero v).mp hz
        have := UInt64.le_iff_toNat_le.mp h
        rw [show (0x7f : UInt64).toNat = 127 from rfl] at this
        omega
      rw [if_pos h, if_neg (not_not_intro hz)]
      rfl
    · rw [if_neg h]
      dsimp only
      split_ifs <;> simp [ih]

/-- `GetVaruintSize` is the size of what `WriteVaruint` writes. -/
theorem length_writeVaruint (v : UInt64) : (writeVaruint v).length = Format.getVaruintSize v :=
  (getVaruintSizeLoop_eq v).symm

theorem getVaruintSize_le (v : UInt64) : Format.getVaruintSize v ≤ 10 :=
  length_writeVaruint v ▸ length_writeVaruint_le v

theorem getVaruintSize_pos (v : UInt64) : 0 < Format.getVaruintSize v :=
  length_writeVaruint v ▸ length_writeVaruint_pos v

theorem getVaruintSize_le_iff {v : UInt64} {k : ℕ} (hk : 0 < k) :
    Format.getVaruintSize v ≤ k ↔ v.toNat < 128 ^ k := by
  rw [← length_writeVaruint, writeVaruint_eq, Base128.length_encode_le_iff hk]

/-! ### Zigzag -/

theorem toNat_and_one (x : UInt64) : (x &&& 1).toNat = x.toNat % 2 := by
  rw [UInt64.toNat_and]
  exact Nat.and_one_is_mod _

/-- All bits of the shifted word are the sign. -/
theorem sshiftRight_63 (x : BitVec 64) :
    x.sshiftRight 63 = if x.msb then BitVec.allOnes 64 else 0#64 := by
  have hx := x.isLt
  apply BitVec.eq_of_toNat_eq
  rw [BitVec.toNat_sshiftRight]
  cases hmsb : x.msb with
  | false =>
    have hsmall := BitVec.msb_eq_false_iff_two_mul_lt.mp hmsb
    simp only [Bool.false_eq_true, if_false, BitVec.toNat_zero, Nat.shiftRight_eq_div_pow]
    omega
  | true =>
    have hbig := BitVec.msb_eq_true_iff_two_mul_ge.mp hmsb
    simp only [if_true, BitVec.toNat_allOnes, Nat.shiftRight_eq_div_pow]
    omega

/-- The code of a number: twice its absolute value, less one if it is negative. -/
theorem toNat_zigzag (x : BitVec 64) : (x.sshiftRight 63 ^^^ x <<< 1).toNat
    = if x.msb then 2 ^ 65 - 1 - 2 * x.toNat else 2 * x.toNat := by
  have hx := x.isLt
  rw [sshiftRight_63]
  cases hmsb : x.msb with
  | false =>
    have hsmall := BitVec.msb_eq_false_iff_two_mul_lt.mp hmsb
    simp only [Bool.false_eq_true, if_false, BitVec.zero_xor, BitVec.toNat_shiftLeft,
      Nat.shiftLeft_eq]
    omega
  | true =>
    have hbig := BitVec.msb_eq_true_iff_two_mul_ge.mp hmsb
    simp only [if_true, BitVec.allOnes_xor, BitVec.toNat_not, BitVec.toNat_shiftLeft,
      Nat.shiftLeft_eq]
    omega

/-- `ReadVarint` undoes the zig-zag of `WriteVarint`. -/
theorem unzigzag_zigzag (x : BitVec 64) (encoded : UInt64)
    (hencoded : encoded = UInt64.ofBitVec (x.sshiftRight 63 ^^^ x <<< 1)) :
    ((encoded >>> 1) - (encoded &&& 1) * encoded).toBitVec = x := by
  have hx := x.isLt
  have hcode : encoded.toNat = if x.msb then 2 ^ 65 - 1 - 2 * x.toNat else 2 * x.toNat := by
    rw [hencoded]
    exact toNat_zigzag x
  have hhalf : (encoded >>> 1).toNat = encoded.toNat / 2 := by
    rw [UInt64.toNat_shiftRight, Nat.shiftRight_eq_div_pow]
    rfl
  apply BitVec.eq_of_toNat_eq
  change ((encoded >>> 1) - (encoded &&& 1) * encoded).toNat = _
  rw [UInt64.toNat_sub, UInt64.toNat_mul, toNat_and_one, hhalf]
  cases hmsb : x.msb with
  | false =>
    rw [hmsb, if_neg Bool.false_ne_true] at hcode
    rw [hcode, Nat.mul_mod_right, Nat.zero_mul]
    omega
  | true =>
    have hbig := BitVec.msb_eq_true_iff_two_mul_ge.mp hmsb
    rw [hmsb, if_pos rfl] at hcode
    have hodd : encoded.toNat % 2 = 1 := by omega
    rw [hodd, Nat.one_mul]
    omega

/-! ### Reading what was written -/

@[simp] theorem readVaruint_writeVaruint (v : UInt64) (rest : Bytes) :
    readVaruint (writeVaruint v ++ rest) = (some v, rest) := by
  rw [readVaruint_append (encodes_writeVaruint v) (length_writeVaruint_le v), UInt64.ofNat_toNat]

@[simp] theorem readVarint_writeVarint (v : BitVec 64) (rest : Bytes) :
    readVarint (writeVarint v ++ rest) = (some v, rest) := by
  rw [readVarint, writeVarint, readVaruint_writeVaruint]
  dsimp only
  rw [unzigzag_zigzag v _ rfl]

@[simp] theorem readU8_writeBool (v : Bool) (rest : Bytes) :
    readU8 (writeBool v ++ rest) = (some (if v then 1 else 0), rest) := rfl

@[simp] theorem length_writeScalar (size : ℕ) (v : BitVec (8 * size)) :
    (writeScalar size v).length = size := LittleEndian.length_encode _ _

@[simp] theorem length_writeTimestamp (timestamp : Base.Ptime) :
    (writeTimestamp timestamp).length = 8 := length_writeScalar 8 _

@[simp] theorem readScalar_writeScalar (size : ℕ) (v : BitVec (8 * size)) (rest : Bytes) :
    readScalar size (writeScalar size v ++ rest) = (some v, rest) := by
  have hlt : v.toNat < 256 ^ size := by
    have := v.isLt
    rwa [pow_mul] at this
  rw [readScalar, if_pos (by simp), List.take_left' (by simp), List.drop_left' (by simp),
    writeScalar, scalarBytes, LittleEndian.decode_encode hlt, BitVec.ofNat_toNat,
    BitVec.setWidth_eq]

/-- `ReadString` refuses a string that is longer than `kMaxStringSize`. -/
theorem readString_writeString (data : Seq UInt8) (rest : Bytes) :
    readString (writeString data.val ++ rest) =
      if data.val.length ≤ Format.kMaxStringSize then .ok (some data, rest)
      else .error .assertion := by
  have hsize : (UInt64.ofNat data.val.length).toNat = data.val.length := Seq.toNat_size data
  rw [readString, writeString, List.append_assoc, readVaruint_writeVaruint]
  dsimp only
  rw [hsize]
  by_cases h : data.val.length ≤ Format.kMaxStringSize
  · rw [if_neg (by omega), if_pos h, rawRead, List.take_left' rfl, List.drop_left' rfl]
    have hover : Seq.overwrite data.val (Seq.resize 0 (UInt64.ofNat data.val.length) ⟨[], by simp⟩)
        = data :=
      Subtype.ext (Seq.overwrite_of_length_eq (by rw [Seq.length_resize, hsize]))
    rw [decide_eq_true (by simp)]
    exact congrArg (fun d => Except.ok (some d, rest)) hover
  · rw [if_pos (by omega), if_neg h]

/-- **Varuints and varints**: what is written reads as the value and leaves what follows, for every
64-bit value, and `GetVaruintSize` is the number of bytes. -/
theorem varuint_varint_codec :
    (∀ (v : UInt64) (s : Bytes), readVaruint (writeVaruint v ++ s) = (some v, s) ∧
      (writeVaruint v).length = Format.getVaruintSize v) ∧
    ∀ (v : BitVec 64) (s : Bytes), readVarint (writeVarint v ++ s) = (some v, s) :=
  ⟨fun v s => ⟨readVaruint_writeVaruint v s, length_writeVaruint v⟩, readVarint_writeVarint⟩

end Mjlib.Telemetry
