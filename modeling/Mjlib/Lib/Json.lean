import Mathlib

/-!
# JSON texts

The grammar of JSON over bytes, and strings written with the escapes they need.  What is written so is
told apart from any other text by its first difference: `eq_of_escape_append` takes a string that was
written without escapes from the text that it should have been.
-/

namespace Json

/-! ### Strings -/

def quotationMark : UInt8 := 0x22
def reverseSolidus : UInt8 := 0x5c

/-- A character that stands for itself. -/
def IsPlain (c : UInt8) : Prop := 0x20 ≤ c ∧ c ≠ quotationMark ∧ c ≠ reverseSolidus

instance (c : UInt8) : Decidable (IsPlain c) := inferInstanceAs (Decidable (_ ∧ _))

def IsHex (c : UInt8) : Prop :=
  (0x30 ≤ c ∧ c ≤ 0x39) ∨ (0x41 ≤ c ∧ c ≤ 0x46) ∨ (0x61 ≤ c ∧ c ≤ 0x66)

instance (c : UInt8) : Decidable (IsHex c) := inferInstanceAs (Decidable (_ ∨ _))

/-- What may stand between the quotation marks. -/
inductive IsChars : List UInt8 → Prop
  | nil : IsChars []
  | plain {c : UInt8} {cs : List UInt8} (h : IsPlain c) (hcs : IsChars cs) : IsChars (c :: cs)
  | escape {c : UInt8} {cs : List UInt8}
      (h : c ∈ [quotationMark, reverseSolidus, 0x2f, 0x62, 0x66, 0x6e, 0x72, 0x74])
      (hcs : IsChars cs) : IsChars (reverseSolidus :: c :: cs)
  | unicode {a b c d : UInt8} {cs : List UInt8} (ha : IsHex a) (hb : IsHex b) (hc : IsHex c)
      (hd : IsHex d) (hcs : IsChars cs) :
      IsChars (reverseSolidus :: 0x75 :: a :: b :: c :: d :: cs)

def IsString (d : List UInt8) : Prop :=
  ∃ cs, IsChars cs ∧ d = quotationMark :: (cs ++ [quotationMark])

/-- A hexadecimal digit. -/
def hexDigit (n : UInt8) : UInt8 := if n < 10 then 0x30 + n else 0x57 + n

/-- A character with the escape that it needs. -/
def escapeChar (c : UInt8) : List UInt8 :=
  if IsPlain c then [c]
  else if c = quotationMark ∨ c = reverseSolidus then [reverseSolidus, c]
  else if c = 0x08 then [reverseSolidus, 0x62]
  else if c = 0x0c then [reverseSolidus, 0x66]
  else if c = 0x0a then [reverseSolidus, 0x6e]
  else if c = 0x0d then [reverseSolidus, 0x72]
  else if c = 0x09 then [reverseSolidus, 0x74]
  else [reverseSolidus, 0x75, 0x30, 0x30, hexDigit (c / 16), hexDigit (c % 16)]

def escape (s : List UInt8) : List UInt8 := s.flatMap escapeChar

/-- The text of a string. -/
def quote (s : List UInt8) : List UInt8 := quotationMark :: (escape s ++ [quotationMark])

theorem escapeChar_of_isPlain {c : UInt8} (h : IsPlain c) : escapeChar c = [c] := if_pos h

/-- What is not plain is written with a reverse solidus. -/
theorem escapeChar_of_not_isPlain {c : UInt8} (h : ¬ IsPlain c) :
    ∃ cs, escapeChar c = reverseSolidus :: cs ∧ (c = reverseSolidus → cs = [reverseSolidus]) := by
  rw [escapeChar, if_neg h]
  split_ifs with h₁ h₂ h₃ h₄ h₅ h₆
  · exact ⟨[c], rfl, fun hc => by rw [hc]⟩
  all_goals
    refine ⟨_, rfl, fun hc => ?_⟩
    exact absurd (.inr hc) h₁

theorem escape_of_forall_isPlain {s : List UInt8} (h : ∀ c ∈ s, IsPlain c) : escape s = s := by
  induction s with
  | nil => rfl
  | cons c s ih =>
    rw [escape, List.flatMap_cons, escapeChar_of_isPlain (h c (by simp))]
    exact congrArg (c :: ·) (ih fun c hc => h c (List.mem_cons_of_mem _ hc))

theorem isHex_hexDigit : ∀ n : UInt8, n < 16 → IsHex (hexDigit n) := by
  have hall : ∀ n < 16, IsHex (hexDigit (UInt8.ofNat n)) := by decide
  intro n hn
  have h := hall n.toNat (UInt8.lt_iff_toNat_lt.mp hn)
  rwa [UInt8.ofNat_toNat] at h

theorem isChars_escape (s : List UInt8) : IsChars (escape s) := by
  induction s with
  | nil => exact .nil
  | cons c s ih =>
    rw [escape, List.flatMap_cons, escapeChar]
    split_ifs with hplain h₁ h₂ h₃ h₄ h₅ h₆
    · exact .plain hplain ih
    · rcases h₁ with rfl | rfl
      · exact .escape (by decide) ih
      · exact .escape (by decide) ih
    · exact .escape (by decide) ih
    · exact .escape (by decide) ih
    · exact .escape (by decide) ih
    · exact .escape (by decide) ih
    · exact .escape (by decide) ih
    · refine .unicode (by decide) (by decide) (isHex_hexDigit _ ?_) (isHex_hexDigit _ ?_) ih
      · rw [UInt8.lt_iff_toNat_lt, UInt8.toNat_div]
        have := c.toNat_lt
        exact Nat.div_lt_of_lt_mul (by simpa using this)
      · rw [UInt8.lt_iff_toNat_lt, UInt8.toNat_mod]
        exact Nat.mod_lt _ (by decide)

theorem isString_quote (s : List UInt8) : IsString (quote s) :=
  ⟨escape s, isChars_escape s, rfl⟩

/-- The ways in which characters can start. -/
theorem isChars_cons_iff {c : UInt8} {cs : List UInt8} (hc : c ≠ reverseSolidus) :
    IsChars (c :: cs) ↔ IsPlain c ∧ IsChars cs := by
  constructor
  · intro h
    cases h with
    | plain h hcs => exact ⟨h, hcs⟩
    | escape h hcs => exact absurd rfl hc
    | unicode ha hb hc' hd hcs => exact absurd rfl hc
  · exact fun h => .plain h.1 h.2

theorem isChars_escape_iff {c : UInt8} {cs : List UInt8}
    (hc : c ∈ [quotationMark, reverseSolidus, 0x2f, 0x62, 0x66, 0x6e, 0x72, 0x74]) :
    IsChars (reverseSolidus :: c :: cs) ↔ IsChars cs := by
  constructor
  · intro h
    cases h with
    | plain h hcs => exact absurd rfl h.2.2
    | escape h hcs => exact hcs
    | unicode ha hb hc' hd hcs => exact absurd hc (by decide)
  · exact .escape hc

theorem isChars_unicode_iff {a b c d : UInt8} {cs : List UInt8} (ha : IsHex a) (hb : IsHex b)
    (hc : IsHex c) (hd : IsHex d) :
    IsChars (reverseSolidus :: 0x75 :: a :: b :: c :: d :: cs) ↔ IsChars cs := by
  constructor
  · intro h
    cases h with
    | plain h hcs => exact absurd rfl h.2.2
    | escape h hcs => exact absurd h (by decide)
    | unicode ha' hb' hc' hd' hcs => exact hcs
  · exact .unicode ha hb hc hd

/-- After one reverse solidus too many, the texts never meet again. -/
theorem ne_of_reverseSolidus {s : List UInt8} : ∀ {n : ℕ} {t u : List UInt8},
    s ++ quotationMark :: t
      ≠ List.replicate (n + 1) reverseSolidus ++ (escape s ++ quotationMark :: u) := by
  induction s with
  | nil =>
    intro n t u h
    exact absurd (List.cons.inj h).1 (by decide)
  | cons c s ih =>
    intro n t u h
    obtain ⟨rfl, h⟩ := List.cons.inj h
    -- two more are owed for the one that was there
    have hescape : escape (reverseSolidus :: s)
        = reverseSolidus :: reverseSolidus :: escape s := rfl
    rw [hescape] at h
    refine ih (n := n + 1) (t := t) (u := u) (h.trans ?_)
    rw [show n + 1 + 1 = n + 2 from rfl, List.replicate_add, List.append_assoc]
    rfl

/-- **A string written without escapes** is the text it should be only if it needs none. -/
theorem eq_of_escape_append {s : List UInt8} : ∀ {t u : List UInt8},
    s ++ quotationMark :: t = escape s ++ quotationMark :: u →
    (∀ c ∈ s, IsPlain c) ∧ t = u := by
  induction s with
  | nil =>
    intro t u h
    exact ⟨nofun, (List.cons.inj h).2⟩
  | cons c s ih =>
    intro t u h
    rw [escape, List.flatMap_cons] at h
    by_cases hplain : IsPlain c
    · rw [escapeChar_of_isPlain hplain] at h
      obtain ⟨hall, htu⟩ := ih (List.cons.inj h).2
      exact ⟨List.forall_mem_cons.mpr ⟨hplain, hall⟩, htu⟩
    · obtain ⟨cs, hcs, hsolidus⟩ := escapeChar_of_not_isPlain hplain
      rw [hcs] at h
      obtain ⟨hc, h⟩ := List.cons.inj h
      rw [hsolidus hc] at h
      exact absurd h (ne_of_reverseSolidus (n := 0))

/-! ### Numbers -/

def IsDigits (d : List UInt8) : Prop := d ≠ [] ∧ ∀ c ∈ d, 0x30 ≤ c ∧ c ≤ 0x39

/-- Digits without a leading zero. -/
def IsInt (d : List UInt8) : Prop := IsDigits d ∧ (d.head? = some 0x30 → d = [0x30])

def IsNumber (d : List UInt8) : Prop :=
  ∃ sign int frac exp, d = sign ++ (int ++ (frac ++ exp)) ∧ (sign = [] ∨ sign = [0x2d]) ∧
    IsInt int ∧ (frac = [] ∨ ∃ ds, IsDigits ds ∧ frac = 0x2e :: ds) ∧
    (exp = [] ∨ ∃ e s ds, (e = 0x65 ∨ e = 0x45) ∧ (s = [] ∨ s = [0x2b] ∨ s = [0x2d]) ∧
      IsDigits ds ∧ exp = e :: (s ++ ds))

theorem IsInt.isNumber {d : List UInt8} (h : IsInt d) : IsNumber d :=
  ⟨[], d, [], [], by simp, .inl rfl, h, .inl rfl, .inl rfl⟩

theorem IsInt.isNumber_minus {d : List UInt8} (h : IsInt d) : IsNumber (0x2d :: d) :=
  ⟨[0x2d], d, [], [], by simp, .inr rfl, h, .inl rfl, .inl rfl⟩

/-! ### Values -/

def IsWs (d : List UInt8) : Prop := ∀ c ∈ d, c = 0x20 ∨ c = 0x09 ∨ c = 0x0a ∨ c = 0x0d

mutual

inductive IsValue : List UInt8 → Prop
  | null : IsValue [0x6e, 0x75, 0x6c, 0x6c]
  | true : IsValue [0x74, 0x72, 0x75, 0x65]
  | false : IsValue [0x66, 0x61, 0x6c, 0x73, 0x65]
  | number {d : List UInt8} (h : IsNumber d) : IsValue d
  | string {d : List UInt8} (h : IsString d) : IsValue d
  | emptyArray {w : List UInt8} (h : IsWs w) : IsValue (0x5b :: (w ++ [0x5d]))
  | array {d : List UInt8} (h : IsElements d) : IsValue (0x5b :: (d ++ [0x5d]))
  | emptyObject {w : List UInt8} (h : IsWs w) : IsValue (0x7b :: (w ++ [0x7d]))
  | object {d : List UInt8} (h : IsMembers d) : IsValue (0x7b :: (d ++ [0x7d]))

/-- Values with commas between them. -/
inductive IsElements : List UInt8 → Prop
  | one {v d w : List UInt8} (hv : IsWs v) (h : IsValue d) (hw : IsWs w) : IsElements (v ++ (d ++ w))
  | cons {v d w e : List UInt8} (hv : IsWs v) (h : IsValue d) (hw : IsWs w) (he : IsElements e) :
      IsElements (v ++ (d ++ (w ++ 0x2c :: e)))

/-- Names with their values and commas between them. -/
inductive IsMembers : List UInt8 → Prop
  | one {v n w x d y : List UInt8} (hv : IsWs v) (hn : IsString n) (hw : IsWs w) (hx : IsWs x)
      (h : IsValue d) (hy : IsWs y) : IsMembers (v ++ (n ++ (w ++ 0x3a :: (x ++ (d ++ y)))))
  | cons {v n w x d y e : List UInt8} (hv : IsWs v) (hn : IsString n) (hw : IsWs w) (hx : IsWs x)
      (h : IsValue d) (hy : IsWs y) (he : IsMembers e) :
      IsMembers (v ++ (n ++ (w ++ 0x3a :: (x ++ (d ++ (y ++ 0x2c :: e))))))

end

theorem isWs_nil : IsWs [] := nofun

theorem isWs_space : IsWs [0x20] := fun _ hc => .inl (List.mem_singleton.mp hc)

end Json
