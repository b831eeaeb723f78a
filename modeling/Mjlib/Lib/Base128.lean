import Mathlib

/-!
# Base-128 numerals

A base-128 numeral is a string of bytes, least significant group first, that carries seven bits of
the number in each byte and marks every byte but the last with the high bit.  `Encodes ds n` says
that `ds` is such a numeral of `n`; numerals may be padded, so a number has several.

* `encode n` is the shortest numeral (`encodes_encode`);
* `decode k s` reads a numeral of at most `k` bytes from the front of `s`; its three outcomes are
  characterised by `decode_eq_value` and `decode_append`, `decode_truncated` and `decode_tooLong`;
* numerals are prefix-free (`Encodes.append_inj`).

`or_shiftLeft_eq` is the machine-word step of every implementation that assembles the number with
shifts and ors; `and_0x7f_toNat`, `and_0x80_eq_zero` and `mark_ofNat` take the bytes apart.
-/

namespace Base128

/-! ### Numerals -/

/-- `ds` is a base-128 numeral of `n`. -/
inductive Encodes : List UInt8 → ℕ → Prop
  | last {b : UInt8} (hb : b.toNat < 128) : Encodes [b] b.toNat
  | more {b : UInt8} {ds : List UInt8} {n : ℕ} (hb : 128 ≤ b.toNat) (h : Encodes ds n) :
      Encodes (b :: ds) (b.toNat % 128 + 128 * n)

/-- Every byte carries the continuation mark: the string is a proper prefix of some numeral. -/
def Open (ds : List UInt8) : Prop := ∀ b ∈ ds, 128 ≤ b.toNat

theorem Encodes.ne_nil {ds : List UInt8} {n : ℕ} (h : Encodes ds n) : ds ≠ [] := by
  cases h <;> simp

theorem Encodes.length_pos {ds : List UInt8} {n : ℕ} (h : Encodes ds n) : 0 < ds.length :=
  List.length_pos_iff.mpr h.ne_nil

/-- Numerals are prefix-free: a string starts with at most one of them. -/
theorem Encodes.append_inj {ds es r t : List UInt8} {m n : ℕ} (hd : Encodes ds n)
    (he : Encodes es m) (h : ds ++ r = es ++ t) : ds = es ∧ n = m ∧ r = t := by
  induction hd generalizing es m with
  | @last b hb =>
    cases he with
    | last hb' =>
      simp only [List.cons_append, List.nil_append, List.cons.injEq] at h
      exact ⟨by rw [h.1], by rw [h.1], h.2⟩
    | more hb' he' =>
      simp only [List.cons_append, List.cons.injEq] at h
      rw [h.1] at hb
      omega
  | @more b ds n hb hd ih =>
    cases he with
    | last hb' =>
      simp only [List.cons_append, List.cons.injEq] at h
      rw [h.1] at hb
      omega
    | more hb' he' =>
      simp only [List.cons_append, List.cons.injEq] at h
      obtain ⟨h1, h2, h3⟩ := ih he' h.2
      exact ⟨by rw [h.1, h1], by rw [h.1, h2], h3⟩

/-- A prefix of a numeral is the whole numeral or carries the continuation mark throughout. -/
theorem Encodes.open_of_prefix {ds p t : List UInt8} {n : ℕ} (h : Encodes ds n)
    (hp : ds = p ++ t) (ht : t ≠ []) : Open p := by
  induction h generalizing p with
  | @last b hb =>
    cases p with
    | nil => simp [Open]
    | cons a p =>
      simp only [List.cons_append, List.cons.injEq, List.nil_eq, List.append_eq_nil_iff] at hp
      exact absurd hp.2.2 ht
  | @more b ds n hb h ih =>
    cases p with
    | nil => simp [Open]
    | cons a p =>
      simp only [List.cons_append, List.cons.injEq] at hp
      have hopen := ih hp.2
      intro c hc
      rcases List.mem_cons.mp hc with rfl | hc
      · rw [← hp.1]; exact hb
      · exact hopen c hc

/-! ### The shortest numeral -/

/-- The shortest numeral of `n`. -/
def encode (n : ℕ) : List UInt8 :=
  if n < 128 then [UInt8.ofNat n] else UInt8.ofNat (n % 128 + 128) :: encode (n / 128)

theorem encode_of_lt {n : ℕ} (h : n < 128) : encode n = [UInt8.ofNat n] := by
  rw [encode, if_pos h]

theorem encode_of_le {n : ℕ} (h : 128 ≤ n) :
    encode n = UInt8.ofNat (n % 128 + 128) :: encode (n / 128) := by
  rw [encode, if_neg (by omega)]

theorem encodes_encode (n : ℕ) : Encodes (encode n) n := by
  induction n using Nat.strong_induction_on with
  | _ n ih =>
    by_cases h : n < 128
    · have hb : (UInt8.ofNat n).toNat = n := by rw [UInt8.toNat_ofNat']; omega
      have := Encodes.last (b := UInt8.ofNat n) (by omega)
      rwa [hb, ← encode_of_lt h] at this
    · have hb : (UInt8.ofNat (n % 128 + 128)).toNat = n % 128 + 128 := by
        rw [UInt8.toNat_ofNat']; omega
      have := Encodes.more (b := UInt8.ofNat (n % 128 + 128)) (by omega) (ih (n / 128) (by omega))
      rw [hb, ← encode_of_le (by omega)] at this
      rwa [show (n % 128 + 128) % 128 + 128 * (n / 128) = n by omega] at this

/-- The shortest numeral of a number below `128 ^ (k + 1)` has at most `k + 1` bytes. -/
theorem length_encode_le {k : ℕ} : ∀ {n : ℕ}, n < 128 ^ (k + 1) → (encode n).length ≤ k + 1 := by
  induction k with
  | zero =>
    intro n h
    rw [encode_of_lt (by simpa using h)]
    simp
  | succ k ih =>
    intro n h
    by_cases hn : n < 128
    · rw [encode_of_lt hn]; simp
    · rw [encode_of_le (by omega), List.length_cons]
      have : n / 128 < 128 ^ (k + 1) := by
        rw [Nat.div_lt_iff_lt_mul (by norm_num), ← pow_succ]
        exact h
      have := ih this
      omega

/-- A number has at most as many digits as any of its numerals. -/
theorem Encodes.lt_pow {ds : List UInt8} {n : ℕ} (h : Encodes ds n) : n < 128 ^ ds.length := by
  induction h with
  | last hb => simpa using hb
  | @more b ds n hb h ih =>
    rw [List.length_cons, pow_succ]
    omega

/-- The shortest numeral of `n` fits `k` bytes where `n` has at most `k` digits. -/
theorem length_encode_le_iff {n k : ℕ} (hk : 0 < k) : (encode n).length ≤ k ↔ n < 128 ^ k := by
  constructor
  · intro h
    exact (encodes_encode n).lt_pow.trans_le (Nat.pow_le_pow_right (by decide) h)
  · intro h
    obtain ⟨k, rfl⟩ := Nat.exists_eq_succ_of_ne_zero hk.ne'
    exact length_encode_le h

/-! ### Reading a numeral -/

/-- What reading a numeral from the front of a string finds. -/
inductive Outcome
  /-- The string ends inside the numeral. -/
  | truncated
  /-- The numeral is longer than allowed; the bytes after the allowed ones. -/
  | tooLong (rest : List UInt8)
  /-- The number and the bytes after its numeral. -/
  | value (n : ℕ) (rest : List UInt8)
deriving DecidableEq

/-- Read a numeral of at most `k` bytes. -/
def decode : ℕ → List UInt8 → Outcome
  | 0, s => .tooLong s
  | _ + 1, [] => .truncated
  | k + 1, b :: s =>
    if b.toNat < 128 then .value b.toNat s
    else match decode k s with
      | .value n rest => .value (b.toNat % 128 + 128 * n) rest
      | .tooLong rest => .tooLong rest
      | .truncated => .truncated

theorem decode_append {ds : List UInt8} {n : ℕ} (h : Encodes ds n) :
    ∀ {k : ℕ}, ds.length ≤ k → ∀ rest, decode k (ds ++ rest) = .value n rest := by
  induction h with
  | @last b hb =>
    intro k hk rest
    obtain ⟨k, rfl⟩ : ∃ k', k = k' + 1 := ⟨k - 1, by simp at hk; omega⟩
    rw [List.cons_append, decode, if_pos hb, List.nil_append]
  | @more b ds n hb h ih =>
    intro k hk rest
    obtain ⟨k, rfl⟩ : ∃ k', k = k' + 1 := ⟨k - 1, by simp at hk; omega⟩
    rw [List.cons_append, decode, if_neg (by omega), ih (by simpa using hk)]

theorem decode_eq_value {k : ℕ} : ∀ {s rest : List UInt8} {n : ℕ}, decode k s = .value n rest →
    ∃ ds, s = ds ++ rest ∧ Encodes ds n ∧ ds.length ≤ k := by
  induction k with
  | zero => intro s rest n h; simp [decode] at h
  | succ k ih =>
    intro s rest n h
    cases s with
    | nil => simp [decode] at h
    | cons b s =>
      rw [decode] at h
      split_ifs at h with hb
      · simp only [Outcome.value.injEq] at h
        exact ⟨[b], by rw [h.2]; rfl, by rw [← h.1]; exact .last hb, by simp⟩
      · cases hd : decode k s with
        | truncated => simp [hd] at h
        | tooLong rest' => simp [hd] at h
        | value m rest' =>
          simp only [hd, Outcome.value.injEq] at h
          obtain ⟨ds, hs, he, hl⟩ := ih hd
          refine ⟨b :: ds, by rw [hs, h.2]; rfl, ?_, by simpa using hl⟩
          rw [← h.1]
          exact .more (by omega) he

theorem decode_truncated {k : ℕ} : ∀ {s : List UInt8},
    decode k s = .truncated ↔ Open s ∧ s.length < k := by
  induction k with
  | zero => intro s; simp [decode]
  | succ k ih =>
    intro s
    cases s with
    | nil => simp [decode, Open]
    | cons b s =>
      rw [decode]
      split_ifs with hb
      · simp only [false_iff, not_and]
        intro h
        have := h b (by simp)
        omega
      · have : (match decode k s with
            | .value n rest => Outcome.value (b.toNat % 128 + 128 * n) rest
            | .tooLong rest => .tooLong rest
            | .truncated => .truncated) = .truncated ↔ decode k s = .truncated := by
          cases decode k s <;> simp
        rw [this, ih]
        simp only [Open, List.mem_cons, forall_eq_or_imp, List.length_cons, Nat.add_lt_add_iff_right]
        constructor
        · rintro ⟨h1, h2⟩; exact ⟨⟨by omega, h1⟩, h2⟩
        · rintro ⟨⟨_, h1⟩, h2⟩; exact ⟨h1, h2⟩

theorem decode_tooLong {k : ℕ} : ∀ {s rest : List UInt8}, decode k s = .tooLong rest →
    ∃ ds, s = ds ++ rest ∧ Open ds ∧ ds.length = k := by
  induction k with
  | zero =>
    intro s rest h
    simp only [decode, Outcome.tooLong.injEq] at h
    exact ⟨[], by rw [h]; rfl, by simp [Open], rfl⟩
  | succ k ih =>
    intro s rest h
    cases s with
    | nil => simp [decode] at h
    | cons b s =>
      rw [decode] at h
      split_ifs at h with hb
      cases hd : decode k s with
      | truncated => simp [hd] at h
      | value m rest' => simp [hd] at h
      | tooLong rest' =>
        simp only [hd, Outcome.tooLong.injEq] at h
        obtain ⟨ds, hs, ho, hl⟩ := ih hd
        refine ⟨b :: ds, by rw [hs, h]; rfl, ?_, by simpa using hl⟩
        intro c hc
        rcases List.mem_cons.mp hc with rfl | hc
        · omega
        · exact ho c hc

theorem decode_append_of_open {k : ℕ} : ∀ {ds : List UInt8}, Open ds → ds.length = k →
    ∀ rest, decode k (ds ++ rest) = .tooLong rest := by
  induction k with
  | zero =>
    intro ds _ hl rest
    rw [List.length_eq_zero_iff.mp hl, decode, List.nil_append]
  | succ k ih =>
    intro ds ho hl rest
    cases ds with
    | nil => simp at hl
    | cons b ds =>
      have hb : 128 ≤ b.toNat := ho b (by simp)
      have hds : Open ds := fun c hc => ho c (List.mem_cons_of_mem _ hc)
      rw [List.cons_append, decode, if_neg (by omega), ih hds (by simpa using hl)]

/-! ### Machine words -/

theorem and_0x7f_toNat (b : UInt8) : (b &&& 0x7f).toNat = b.toNat % 128 := by
  rw [UInt8.toNat_and, show (0x7f : UInt8).toNat = 2 ^ 7 - 1 from rfl,
    Nat.and_two_pow_sub_one_eq_mod]

/-- The continuation mark of a byte. -/
theorem and_0x80_eq_zero (b : UInt8) : b &&& 0x80 = 0 ↔ b.toNat < 128 := by
  have h : ∀ n : Fin 256, n.val &&& 128 = 0 ↔ n.val < 128 := by decide +kernel
  rw [← UInt8.toNat_inj, UInt8.toNat_and]
  exact h ⟨b.toNat, b.toNat_lt⟩

theorem mark_ofNat {n : ℕ} (h : n < 128) : UInt8.ofNat n ||| 0x80 = UInt8.ofNat (n + 128) := by
  have h' : ∀ n : Fin 128, UInt8.ofNat n.val ||| 0x80 = UInt8.ofNat (n.val + 128) := by
    decide +kernel
  exact h' ⟨n, h⟩

/-- One more digit above the `7 i` bits already assembled. -/
theorem add_digit_lt {r x i : ℕ} (hr : r < 2 ^ (7 * i)) (hx : x < 128) :
    r + 2 ^ (7 * i) * x < 2 ^ (7 * (i + 1)) := by
  have hpow : (2 : ℕ) ^ (7 * (i + 1)) = 2 ^ (7 * i) * 128 := by
    rw [Nat.mul_add, pow_add]; rfl
  have hle : 2 ^ (7 * i) * (x + 1) ≤ 2 ^ (7 * i) * 128 := Nat.mul_le_mul_left _ hx
  rw [Nat.mul_add, Nat.mul_one] at hle
  omega

/-- Or-ing seven more bits in above the `p` bits already assembled adds them, modulo the word. -/
theorem or_shiftLeft_eq {w p : ℕ} (r : BitVec w) (hr : r.toNat < 2 ^ p) (hp : p ≤ w) (x : ℕ) :
    r ||| (BitVec.ofNat w x <<< p) = BitVec.ofNat w (r.toNat + 2 ^ p * x) := by
  apply BitVec.eq_of_toNat_eq
  have hsplit : (2 : ℕ) ^ w = 2 ^ p * 2 ^ (w - p) := by
    rw [← pow_add, Nat.add_sub_cancel' hp]
  have hx : (x % 2 ^ w) <<< p % 2 ^ w = 2 ^ p * (x % 2 ^ (w - p)) := by
    rw [Nat.shiftLeft_eq, Nat.mul_comm, hsplit, Nat.mul_mod_mul_left,
      Nat.mod_mod_of_dvd _ (Dvd.intro_left _ rfl)]
  rw [BitVec.toNat_or, BitVec.toNat_shiftLeft, BitVec.toNat_ofNat, BitVec.toNat_ofNat, hx,
    Nat.or_comm, ← Nat.two_pow_add_eq_or_of_lt hr]
  have hlt : 2 ^ p * (x % 2 ^ (w - p)) + r.toNat < 2 ^ w := by
    have h1 : x % 2 ^ (w - p) < 2 ^ (w - p) := Nat.mod_lt _ (Nat.two_pow_pos _)
    have h2 : 2 ^ p * (x % 2 ^ (w - p) + 1) ≤ 2 ^ p * 2 ^ (w - p) := Nat.mul_le_mul_left _ h1
    rw [hsplit]
    rw [Nat.mul_add, Nat.mul_one] at h2
    omega
  have hmod : r.toNat + 2 ^ p * x
      = 2 ^ w * (x / 2 ^ (w - p)) + (2 ^ p * (x % 2 ^ (w - p)) + r.toNat) := by
    conv_lhs => rw [← Nat.div_add_mod x (2 ^ (w - p))]
    rw [hsplit]
    ring
  rw [hmod, Nat.mul_add_mod, Nat.mod_eq_of_lt hlt]

end Base128
