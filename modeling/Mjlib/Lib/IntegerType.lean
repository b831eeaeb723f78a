import Mathlib

/-!
# The integer types of C and their conversions

An integer type is a width and whether it is signed.  A value that is converted to a type is kept
modulo `2 ^ bits`; one that the type has is left as it is (`convert_of_inRange`).  The operands of an
arithmetic operation are converted to a common type first, an `int` at least.
-/

/-- An integer type. -/
structure IntegerType where
  signed : Bool
  bits : ℕ
  bits_pos : 0 < bits
deriving DecidableEq, Repr

namespace IntegerType

/-- The least value. -/
def min (t : IntegerType) : ℤ := if t.signed then -2 ^ (t.bits - 1) else 0

/-- The largest value. -/
def max (t : IntegerType) : ℤ := if t.signed then 2 ^ (t.bits - 1) - 1 else 2 ^ t.bits - 1

/-- The type has the value. -/
def InRange (t : IntegerType) (value : ℤ) : Prop := t.min ≤ value ∧ value ≤ t.max

instance (t : IntegerType) (value : ℤ) : Decidable (t.InRange value) :=
  inferInstanceAs (Decidable (_ ∧ _))

/-- A value in a type. -/
def convert (t : IntegerType) (value : ℤ) : ℤ :=
  if t.signed then value.bmod (2 ^ t.bits) else value % 2 ^ t.bits

/-- `int`. -/
def int : IntegerType := ⟨true, 32, by decide⟩

/-- What is narrower than an `int` becomes one. -/
def promote (t : IntegerType) : IntegerType := if t.bits < int.bits then int else t

/-- The type of an operation: the wider one, of two of one width the unsigned one. -/
def common (t u : IntegerType) : IntegerType :=
  if u.promote.bits < t.promote.bits then t.promote
  else if t.promote.bits < u.promote.bits then u.promote
  else if t.promote.signed then u.promote else t.promote

/-- `a / b`; nothing for a division by zero, and for a quotient that the type does not have. -/
def divide (t : IntegerType) (a : ℤ) (u : IntegerType) (b : ℤ) : Option ℤ :=
  let c := common t u
  let quotient := (c.convert a).tdiv (c.convert b)
  if c.convert b = 0 ∨ ¬ c.InRange quotient then none else some quotient

variable {t u : IntegerType} {value a b : ℤ}

theorem two_pow_bits (t : IntegerType) : (2 : ℤ) ^ t.bits = 2 * 2 ^ (t.bits - 1) := by
  rw [← pow_succ', Nat.sub_add_cancel t.bits_pos]

theorem inRange_iff_of_signed (h : t.signed = true) :
    t.InRange value ↔ -2 ^ (t.bits - 1) ≤ value ∧ value < 2 ^ (t.bits - 1) := by
  rw [InRange, min, max, if_pos h, if_pos h, Int.le_sub_one_iff]

theorem inRange_iff_of_unsigned (h : t.signed = false) :
    t.InRange value ↔ 0 ≤ value ∧ value < 2 ^ t.bits := by
  rw [InRange, min, max, if_neg (by simp [h]), if_neg (by simp [h]), Int.le_sub_one_iff]

/-- A value that the type has is not changed. -/
theorem convert_of_inRange (h : t.InRange value) : t.convert value = value := by
  rw [convert]
  cases hs : t.signed with
  | true =>
    obtain ⟨hlow, hhigh⟩ := (inRange_iff_of_signed hs).mp h
    have htwo := two_pow_bits t
    refine Int.bmod_eq_of_le ?_ ?_
    all_goals
      push_cast
      omega
  | false =>
    obtain ⟨hlow, hhigh⟩ := (inRange_iff_of_unsigned hs).mp h
    exact Int.emod_eq_of_lt hlow hhigh

/-- What is converted is a value of the type. -/
theorem inRange_convert (t : IntegerType) (value : ℤ) : t.InRange (t.convert value) := by
  rw [convert]
  have htwo := two_pow_bits t
  have hpos : (0 : ℤ) < 2 ^ (t.bits - 1) := by positivity
  cases hs : t.signed with
  | true =>
    rw [inRange_iff_of_signed hs]
    have hle := Int.le_bmod (x := value) (m := 2 ^ t.bits) (by positivity)
    have hlt := Int.bmod_lt (x := value) (m := 2 ^ t.bits) (by positivity)
    push_cast at hle hlt
    rw [if_pos rfl]
    omega
  | false =>
    rw [inRange_iff_of_unsigned hs]
    exact ⟨Int.emod_nonneg _ (by omega), Int.emod_lt_of_pos _ (by omega)⟩

/-! ### Operands -/

theorem two_pow_le {m n : ℕ} (h : m ≤ n) : (2 : ℤ) ^ m ≤ 2 ^ n := pow_le_pow_right₀ (by decide) h

theorem inRange_promote (h : t.InRange value) : t.promote.InRange value := by
  rw [promote]
  split_ifs with hlt
  · have hbits : t.bits ≤ 31 := Nat.le_of_lt_succ hlt
    have hpow := two_pow_le hbits
    have htwo := two_pow_bits t
    rw [inRange_iff_of_signed (t := int) rfl]
    change -2 ^ 31 ≤ value ∧ value < 2 ^ 31
    cases hs : t.signed with
    | true =>
      obtain ⟨hlow, hhigh⟩ := (inRange_iff_of_signed hs).mp h
      omega
    | false =>
      obtain ⟨hlow, hhigh⟩ := (inRange_iff_of_unsigned hs).mp h
      omega
  · exact h

theorem signed_promote (h : u.signed = true) : u.promote.signed = true := by
  rw [promote]
  split_ifs
  · rfl
  · exact h

/-- A wider signed type has all values of a type. -/
theorem inRange_of_bits_lt (hu : u.signed = true) (hlt : t.bits < u.bits)
    (h : t.InRange value) : u.InRange value := by
  have hpow := two_pow_le (Nat.le_sub_one_of_lt hlt)
  have htwo := two_pow_bits t
  have hpos : (0 : ℤ) < 2 ^ (t.bits - 1) := by positivity
  rw [inRange_iff_of_signed hu]
  cases hs : t.signed with
  | true =>
    obtain ⟨hlow, hhigh⟩ := (inRange_iff_of_signed hs).mp h
    omega
  | false =>
    obtain ⟨hlow, hhigh⟩ := (inRange_iff_of_unsigned hs).mp h
    omega

/-- A wider type, and an unsigned one of the same width, has the natural numbers of a signed type. -/
theorem inRange_of_nonneg (hu : u.signed = true) (hle : u.bits ≤ t.bits) (hb : u.InRange b)
    (hnonneg : 0 ≤ b) : t.InRange b := by
  have hpow := two_pow_le (Nat.sub_le_sub_right hle 1)
  have htwo := two_pow_bits t
  obtain ⟨hlow, hhigh⟩ := (inRange_iff_of_signed hu).mp hb
  cases hs : t.signed with
  | true =>
    rw [inRange_iff_of_signed hs]
    omega
  | false =>
    rw [inRange_iff_of_unsigned hs]
    omega

/-- With a signed operand on the right, the common type has every value of the left one. -/
theorem inRange_common_left (hu : u.signed = true) (ha : t.InRange a) :
    (common t u).InRange a := by
  have ha' := inRange_promote ha
  have hu' := signed_promote hu
  rw [common]
  split_ifs with hlt hgt hs
  · exact ha'
  · exact inRange_of_bits_lt hu' hgt ha'
  · have hbits : t.promote.bits = u.promote.bits := le_antisymm (not_lt.mp hlt) (not_lt.mp hgt)
    rw [inRange_iff_of_signed hu', ← hbits]
    exact (inRange_iff_of_signed hs).mp ha'
  · exact ha'

/-- And the natural numbers of the right one. -/
theorem inRange_common_right (hu : u.signed = true) (hb : u.InRange b) (hnonneg : 0 ≤ b) :
    (common t u).InRange b := by
  have hb' := inRange_promote hb
  have hu' := signed_promote hu
  rw [common]
  split_ifs with hlt hgt hs
  · exact inRange_of_nonneg hu' hlt.le hb' hnonneg
  · exact hb'
  · exact hb'
  · exact inRange_of_nonneg hu' (not_lt.mp hgt) hb' hnonneg

/-- A quotient is not further from zero than the dividend. -/
theorem inRange_tdiv (ha : t.InRange a) (hpos : 0 < b) : t.InRange (a.tdiv b) := by
  have hzero : t.min ≤ 0 ∧ 0 ≤ t.max := by
    have hpow : (0 : ℤ) < 2 ^ (t.bits - 1) := by positivity
    have htwo := two_pow_bits t
    rw [min, max]
    split_ifs <;> omega
  obtain ⟨hlow, hhigh⟩ := ha
  rcases le_total 0 a with hnonneg | hneg
  · have hle : a.tdiv b ≤ a := Int.tdiv_le_self b hnonneg
    have hge : 0 ≤ a.tdiv b := Int.tdiv_nonneg hnonneg hpos.le
    exact ⟨by omega, by omega⟩
  · have hle : (-a).tdiv b ≤ -a := Int.tdiv_le_self b (by omega)
    have hge : 0 ≤ (-a).tdiv b := Int.tdiv_nonneg (by omega) hpos.le
    rw [Int.neg_tdiv] at hle hge
    exact ⟨by omega, by omega⟩

/-- Division by a positive value of a signed type is that of the integers. -/
theorem divide_of_pos (hu : u.signed = true) (ha : t.InRange a) (hb : u.InRange b)
    (hpos : 0 < b) : divide t a u b = some (a.tdiv b) := by
  have hca := inRange_common_left (u := u) hu ha
  have hcb := inRange_common_right (t := t) hu hb hpos.le
  rw [divide]
  rw [convert_of_inRange hca, convert_of_inRange hcb, if_neg]
  rintro (hzero | hrange)
  · omega
  · exact hrange (inRange_tdiv hca hpos)

end IntegerType
