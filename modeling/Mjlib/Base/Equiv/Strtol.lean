import Mathlib
import Mjlib.Base.Snprintf
import Mjlib.Base.Strtol

/-!
# Numbers as text, and back

`strtol` and its relatives read what `snprintf` has written (`strtol_formatInt`,
`strtoull_decimal`, `strtol_hexadecimal`), whatever follows it in memory, as long as this cannot be
part of the number (`Ends`).  `strtol_append` is about a text of any form.
-/

namespace Mjlib.Base

variable {s after : Bytes}

/-- The text does not go on with a digit of any base, or a letter. -/
def Ends (s : Bytes) : Prop := ∀ c ∈ s.head?, digitValue c = none

/-! ### Digits of a base -/

/-- The byte of a digit of any base up to 16. -/
def numeralDigit (d : ℕ) : UInt8 := UInt8.ofNat (Nat.digitChar d).toNat

/-- A number in a base. -/
def numeral (base n : ℕ) : Bytes := (Nat.toDigits base n).map fun c => UInt8.ofNat c.toNat

theorem digitValue_numeralDigit {d : ℕ} (h : d < 16) : digitValue (numeralDigit d) = some d := by
  interval_cases d <;> decide

theorem isDigit_numeralDigit {base d : ℕ} (hbase : base ≤ 16) (h : d < base) :
    isDigit base (numeralDigit d) = true := by
  rw [isDigit, digitValue_numeralDigit (by omega)]
  exact decide_eq_true h

theorem numeral_of_lt {base n : ℕ} (h : n < base) : numeral base n = [numeralDigit n] := by
  unfold numeral
  rw [Nat.toDigits_of_lt_base h]
  rfl

theorem numeral_of_le {base n : ℕ} (hbase : 1 < base) (h : base ≤ n) :
    numeral base n = numeral base (n / base) ++ [numeralDigit (n % base)] := by
  unfold numeral
  rw [Nat.toDigits_of_base_le hbase h, List.map_append]
  rfl

/-- Induction over the digits of a number. -/
theorem numeral_induction {base : ℕ} (hbase : 1 < base) {motive : ℕ → Prop}
    (hlt : ∀ n < base, motive n) (hle : ∀ n, base ≤ n → motive (n / base) → motive n) (n : ℕ) :
    motive n := by
  induction n using Nat.strong_induction_on with
  | _ n ih =>
    by_cases h : n < base
    · exact hlt n h
    · exact hle n (not_lt.mp h) (ih _ (Nat.div_lt_self (by omega) hbase))

theorem isDigit_numeral {base : ℕ} (hlo : 1 < base) (hhi : base ≤ 16) (n : ℕ) :
    ∀ c ∈ numeral base n, isDigit base c := by
  induction n using numeral_induction hlo with
  | hlt n h =>
    rw [numeral_of_lt h]
    intro c hc
    rw [List.mem_singleton.mp hc]
    exact isDigit_numeralDigit hhi h
  | hle n h ih =>
    have hlt : n % base < base := Nat.mod_lt _ (by omega)
    rw [numeral_of_le hlo h]
    intro c hc
    rcases List.mem_append.mp hc with hc | hc
    · exact ih c hc
    · rw [List.mem_singleton.mp hc]
      exact isDigit_numeralDigit hhi hlt

/-- The digits stand for the number. -/
theorem digitsValue_numeral {base : ℕ} (hlo : 1 < base) (hhi : base ≤ 16) (n : ℕ) :
    digitsValue base (numeral base n) = n := by
  induction n using numeral_induction hlo with
  | hlt n h =>
    rw [numeral_of_lt h]
    show base * 0 + (digitValue (numeralDigit n)).getD 0 = n
    rw [digitValue_numeralDigit (by omega), Option.getD_some, Nat.mul_zero, Nat.zero_add]
  | hle n h ih =>
    have hlt : n % base < base := Nat.mod_lt _ (by omega)
    unfold digitsValue at ih ⊢
    rw [numeral_of_le hlo h, List.foldl_append, ih]
    show base * (n / base) + (digitValue (numeralDigit (n % base))).getD 0 = n
    rw [digitValue_numeralDigit (by omega), Option.getD_some]
    exact Nat.div_add_mod n base

theorem numeral_ne_nil (base n : ℕ) : numeral base n ≠ [] := by
  unfold numeral
  rw [Ne, List.map_eq_nil_iff]
  exact Nat.toDigits_ne_nil

/-! ### Decimal digits -/

/-- The byte of a decimal digit. -/
def digit (d : ℕ) : UInt8 := UInt8.ofNat (0x30 + d)

theorem digit_eq_zero_iff {d : ℕ} (h : d < 10) : digit d = 0x30 ↔ d = 0 := by
  interval_cases d <;> decide

theorem decimal_of_lt {n : ℕ} (h : n < 10) : decimal n = [digit n] := by
  unfold decimal
  rw [Nat.toDigits_of_lt_base h]
  interval_cases n <;> rfl

theorem decimal_of_le {n : ℕ} (h : 10 ≤ n) : decimal n = decimal (n / 10) ++ [digit (n % 10)] := by
  have hlt : n % 10 < 10 := Nat.mod_lt _ (by decide)
  have hlast := decimal_of_lt hlt
  unfold decimal at hlast ⊢
  rw [Nat.toDigits_of_base_le (by decide) h, List.map_append]
  rw [Nat.toDigits_of_lt_base hlt] at hlast
  rw [← hlast]

theorem isDigit_decimal (n : ℕ) : ∀ c ∈ decimal n, isDigit 10 c :=
  isDigit_numeral (by decide) (by decide) n

/-- **The digits stand for the number.** -/
theorem digitsValue_decimal (n : ℕ) : digitsValue 10 (decimal n) = n :=
  digitsValue_numeral (by decide) (by decide) n

/-- Only zero starts with a zero. -/
theorem head?_decimal (n : ℕ) : ∃ d < 10, (decimal n).head? = some (digit d) ∧ (d = 0 → n = 0) := by
  induction n using numeral_induction (by decide : 1 < 10) with
  | hlt n h => exact ⟨n, h, by rw [decimal_of_lt h]; rfl, id⟩
  | hle n h ih =>
    obtain ⟨d, hd, hhead, hzero⟩ := ih
    refine ⟨d, hd, ?_, fun h0 => ?_⟩
    · rw [decimal_of_le h, List.head?_append, hhead]
      rfl
    · have := hzero h0
      omega

theorem decimal_ne_nil (n : ℕ) : decimal n ≠ [] := numeral_ne_nil 10 n

theorem decimal_injective : Function.Injective decimal := by
  intro m n h
  rw [← digitsValue_decimal m, h, digitsValue_decimal]

/-! ### Reading a number -/

theorem isDigit_eq_false {base : ℕ} {c : UInt8} (h : digitValue c = none) :
    isDigit base c = false := by
  unfold isDigit
  rw [h]

/-- Digits end where the text does. -/
theorem takeWhile_append_of_ends {base : ℕ} (h : Ends after) (s : Bytes) :
    (s ++ after).takeWhile (isDigit base) = s.takeWhile (isDigit base) := by
  induction s with
  | nil =>
    cases after with
    | nil => rfl
    | cons c after =>
      rw [List.nil_append, List.takeWhile_cons, isDigit_eq_false (h c rfl)]
      rfl
  | cons c s ih =>
    rw [List.cons_append, List.takeWhile_cons, List.takeWhile_cons, ih]

theorem isHexPrefix_append (h : Ends after) (s : Bytes) :
    isHexPrefix (s ++ after) = isHexPrefix s := by
  match s, after, h with
  | [], [], _ => rfl
  | [], [_], h => rfl
  | [], [_, _], h => rfl
  | [], zero :: _ :: _ :: _, h =>
    have hzero : zero ≠ 0x30 := by
      rintro rfl
      exact absurd (h 0x30 rfl) (by decide)
    simp [isHexPrefix, hzero]
  | [_], [], _ => rfl
  | [_], [_], _ => rfl
  | [zero], x :: c :: _, h =>
    have hx : x ≠ 0x78 ∧ x ≠ 0x58 := by
      constructor
      · rintro rfl
        exact absurd (h 0x78 rfl) (by decide)
      · rintro rfl
        exact absurd (h 0x58 rfl) (by decide)
    simp [isHexPrefix, hx]
  | [_, _], [], _ => rfl
  | [_, _], c :: _, h => simp [isHexPrefix, isDigit_eq_false (h c rfl)]
  | _ :: _ :: _ :: _, _, _ => rfl

theorem takePrefix_zero (s : Bytes) : takePrefix 0 s =
    if isHexPrefix s then (16, s.drop 2) else (if s.head? = some 0x30 then 8 else 10, s) := by
  unfold takePrefix
  rw [if_pos rfl]
  exact if_congr (and_iff_right (Or.inl rfl)) rfl rfl

/-- The base of a text that is not empty. -/
theorem takePrefix_append (h : Ends after) {s : Bytes} (hs : s ≠ []) :
    takePrefix 0 (s ++ after) = ((takePrefix 0 s).1, (takePrefix 0 s).2 ++ after) := by
  have hhead : (s ++ after).head? = s.head? := by
    cases s with
    | nil => exact absurd rfl hs
    | cons c s => rfl
  rw [takePrefix_zero, takePrefix_zero, isHexPrefix_append h, hhead]
  cases hhex : isHexPrefix s with
  | false => rfl
  | true =>
    have hlen : 2 ≤ s.length := by
      match s, hhex with
      | _ :: _ :: _ :: _, _ => simp
    rw [if_pos rfl, if_pos rfl, List.drop_append_of_le_length hlen]

theorem takeSign_append {s : Bytes} (hs : s ≠ []) :
    takeSign (s ++ after) = ((takeSign s).1, (takeSign s).2 ++ after) := by
  cases s with
  | nil => exact absurd rfl hs
  | cons c s =>
    unfold takeSign
    rw [List.cons_append]
    dsimp only
    split_ifs
    · rfl
    · rfl
    · rfl

/-- What is behind the sign. -/
def parseMagnitude (base : ℕ) (s : Bytes) : Option (ℕ × Bytes) :=
  let (base, s) := takePrefix base s
  let digits := s.takeWhile (isDigit base)
  if digits = [] then none else some (digitsValue base digits, s.drop digits.length)

theorem parseNumber_eq (base : ℕ) (s : Bytes) : parseNumber base s =
    (parseMagnitude base (takeSign (s.dropWhile isSpace)).2).map
      fun r => ((takeSign (s.dropWhile isSpace)).1, r.1, r.2) := by
  unfold parseNumber parseMagnitude
  dsimp only
  split_ifs
  · rfl
  · rfl

theorem parseMagnitude_append (h : Ends after) (s : Bytes) :
    parseMagnitude 0 (s ++ after) = (parseMagnitude 0 s).map fun r => (r.1, r.2 ++ after) := by
  by_cases hs : s = []
  · -- nothing is there
    subst hs
    rw [List.nil_append]
    have hbegins : (takePrefix 0 after).2 = after := by
      have := isHexPrefix_append h []
      rw [List.nil_append] at this
      rw [takePrefix_zero, this]
      rfl
    unfold parseMagnitude
    dsimp only
    have hnone := @takeWhile_append_of_ends after (takePrefix 0 after).1 h []
    rw [List.nil_append] at hnone
    rw [hbegins, hnone]
    rfl
  · unfold parseMagnitude
    dsimp only
    rw [takePrefix_append h hs]
    dsimp only
    rw [takeWhile_append_of_ends h]
    split_ifs
    · rfl
    · rw [Option.map_some, List.drop_append_of_le_length (List.takeWhile_prefix _).length_le]

/-- A number takes at least a byte behind the white space. -/
theorem length_lt_of_parseNumber {base n : ℕ} {negative : Bool} {rest : Bytes}
    (h : parseNumber base s = some (negative, n, rest)) :
    rest.length < (s.dropWhile isSpace).length := by
  have hsign : ∀ u : Bytes, (takeSign u).2.length ≤ u.length := by
    intro u
    unfold takeSign
    split
    · rfl
    · split_ifs <;> simp
  have hbegins : ∀ u : Bytes, (takePrefix base u).2.length ≤ u.length := by
    intro u
    unfold takePrefix
    split_ifs <;> simp
  rw [parseNumber_eq] at h
  obtain ⟨r, hr, heq⟩ := Option.map_eq_some_iff.mp h
  obtain ⟨-, heq⟩ := Prod.mk.inj heq
  obtain ⟨-, rfl⟩ := Prod.mk.inj heq
  unfold parseMagnitude at hr
  dsimp only at hr
  split_ifs at hr with hdigits
  cases hr
  have hpos := List.length_pos_of_ne_nil hdigits
  have hle := (List.takeWhile_prefix (l := (takePrefix base (takeSign (s.dropWhile isSpace)).2).2)
    (isDigit (takePrefix base (takeSign (s.dropWhile isSpace)).2).1)).length_le
  have h₁ := hbegins (takeSign (s.dropWhile isSpace)).2
  have h₂ := hsign (s.dropWhile isSpace)
  show (List.drop _ _).length < _
  rw [List.length_drop]
  omega

/-- **What follows a number in memory does not matter**, if there is more than white space. -/
theorem parseNumber_append (h : Ends after) (hs : s.dropWhile isSpace ≠ []) :
    parseNumber 0 (s ++ after) = (parseNumber 0 s).map fun r => (r.1, r.2.1, r.2.2 ++ after) := by
  have hdrop : (s ++ after).dropWhile isSpace = s.dropWhile isSpace ++ after := by
    rw [List.dropWhile_append, if_neg (by simpa using hs)]
  rw [parseNumber_eq, parseNumber_eq, hdrop, takeSign_append hs, parseMagnitude_append h]
  cases parseMagnitude 0 (takeSign (s.dropWhile isSpace)).2 with
  | none => rfl
  | some r => rfl

/-- **Whether `strtol` takes a whole token** does not depend on what follows it, nor does the
number. -/
theorem strtol_append (h : Ends after) (hs : s ≠ []) :
    ((s ++ after).length - (strtol 0 (s ++ after)).2.length = s.length ↔ (strtol 0 s).2 = []) ∧
      ((strtol 0 s).2 = [] → (strtol 0 (s ++ after)).1 = (strtol 0 s).1) := by
  have hlen : 0 < s.length := List.length_pos_of_ne_nil hs
  by_cases hspace : s.dropWhile isSpace = []
  · -- white space only
    have hnone : parseNumber 0 s = none := by
      rw [parseNumber_eq, hspace]
      rfl
    have hstrtol : strtol 0 s = (0, s) := by
      unfold strtol
      rw [hnone]
    refine ⟨⟨fun heq => ?_, fun hnil => ?_⟩, fun hnil => ?_⟩
    · exfalso
      cases hafter : parseNumber 0 (s ++ after) with
      | none =>
        unfold strtol at heq
        rw [hafter] at heq
        dsimp only at heq
        omega
      | some r =>
        have hlt := length_lt_of_parseNumber hafter
        have hle : ((s ++ after).dropWhile isSpace).length ≤ after.length := by
          rw [List.dropWhile_append, if_pos (by simp [hspace])]
          exact (List.dropWhile_suffix _).length_le
        unfold strtol at heq
        rw [hafter] at heq
        dsimp only at heq
        rw [List.length_append] at heq
        omega
    · rw [hstrtol] at hnil
      exact absurd hnil hs
    · rw [hstrtol] at hnil
      exact absurd hnil hs
  · have happend := parseNumber_append h hspace
    unfold strtol
    rw [happend]
    cases hnumber : parseNumber 0 s with
    | none =>
      dsimp only [Option.map_none]
      refine ⟨⟨fun heq => ?_, fun hnil => absurd hnil hs⟩, fun _ => rfl⟩
      omega
    | some r =>
      dsimp only [Option.map_some]
      refine ⟨?_, fun _ => rfl⟩
      rw [List.length_append, List.length_append, Nat.add_sub_add_right, ← List.length_eq_zero_iff]
      refine ⟨fun heq => ?_, fun hzero => by rw [hzero, Nat.sub_zero]⟩
      by_contra hne
      exact (Nat.sub_lt hlen (Nat.pos_of_ne_zero hne)).ne heq

/-- No number starts with the end of a text. -/
theorem strtol_of_ends {c : UInt8} (hdigit : digitValue c = none) (hspace : isSpace c = false)
    (hsign : c ≠ 0x2d ∧ c ≠ 0x2b) : strtol 0 (c :: after) = (0, c :: after) := by
  have hnone : parseNumber 0 (c :: after) = none := by
    have hends : Ends (c :: after) := fun c' hc' => by
      cases hc'
      exact hdigit
    have hsign' : takeSign (c :: after) = (false, c :: after) := by
      unfold takeSign
      dsimp only
      rw [if_neg hsign.1, if_neg hsign.2]
    have hmagnitude := parseMagnitude_append hends []
    rw [List.nil_append] at hmagnitude
    rw [parseNumber_eq, List.dropWhile_cons_of_neg (by simp [hspace]), hsign', hmagnitude]
    rfl
  unfold strtol
  rw [hnone]

/-! ### Reading what was written -/

theorem parseMagnitude_decimal (h : Ends after) (n : ℕ) :
    parseMagnitude 0 (decimal n ++ after) = some (n, after) := by
  obtain ⟨d, hd, hhead, hzero⟩ := head?_decimal n
  have hhex : isHexPrefix (decimal n) = false := by
    by_cases hn : n < 10
    · rw [decimal_of_lt hn]
      rfl
    · cases hdecimal : decimal n with
      | nil => rfl
      | cons c s =>
        rw [hdecimal] at hhead
        have hne : c ≠ 0x30 := by
          obtain rfl := Option.some.inj hhead
          exact fun h => hn (by rw [hzero ((digit_eq_zero_iff hd).mp h)]; decide)
        match s with
        | [] => rfl
        | [_] => rfl
        | _ :: _ :: _ => simp [isHexPrefix, hne]
  rw [parseMagnitude_append h]
  unfold parseMagnitude
  dsimp only
  rw [takePrefix_zero, hhex, if_neg Bool.false_ne_true, hhead]
  dsimp only
  by_cases hd0 : d = 0
  · -- a zero is an octal digit
    obtain rfl := hzero hd0
    subst hd0
    rfl
  · have hne : some (digit d) ≠ some 0x30 :=
      fun h => hd0 ((digit_eq_zero_iff hd).mp (Option.some.inj h))
    rw [if_neg hne, List.takeWhile_eq_self_iff.mpr (isDigit_decimal n), if_neg (decimal_ne_nil n),
      digitsValue_decimal, List.drop_length]
    rfl

theorem parseNumber_formatInt (h : Ends after) (n : ℤ) :
    parseNumber 0 (formatInt n ++ after) = some (decide (n < 0), n.natAbs, after) := by
  obtain ⟨d, hd, hhead, _⟩ := head?_decimal n.natAbs
  obtain ⟨s, hs⟩ : ∃ s, decimal n.natAbs = digit d :: s := by
    cases hdecimal : decimal n.natAbs with
    | nil => exact absurd hdecimal (decimal_ne_nil _)
    | cons c s =>
      rw [hdecimal] at hhead
      exact ⟨s, by rw [Option.some.inj hhead]⟩
  have hdigit : isSpace (digit d) = false ∧ digit d ≠ 0x2d ∧ digit d ≠ 0x2b := by
    interval_cases d <;> decide
  have hmagnitude := parseMagnitude_decimal h n.natAbs
  unfold formatInt
  by_cases hn : n < 0
  · rw [if_pos hn, List.cons_append, parseNumber_eq, List.dropWhile_cons_of_neg (by decide)]
    show (parseMagnitude 0 (decimal n.natAbs ++ after)).map _ = _
    rw [hmagnitude, decide_eq_true hn]
    rfl
  · have hsign : takeSign (decimal n.natAbs ++ after) = (false, decimal n.natAbs ++ after) := by
      rw [hs, List.cons_append]
      unfold takeSign
      dsimp only
      rw [if_neg hdigit.2.1, if_neg hdigit.2.2]
    have hdrop : (decimal n.natAbs ++ after).dropWhile isSpace = decimal n.natAbs ++ after := by
      rw [hs, List.cons_append, List.dropWhile_cons_of_neg (by simp [hdigit.1])]
    rw [if_neg hn, parseNumber_eq, hdrop, hsign, hmagnitude, decide_eq_false hn]
    rfl

/-- **`strtol` reads what `snprintf` has written.** -/
theorem strtol_formatInt (h : Ends after) {n : ℤ} (hlo : -2 ^ 63 ≤ n) (hhi : n < 2 ^ 63) :
    strtol 0 (formatInt n ++ after) = (n, after) := by
  unfold strtol
  rw [parseNumber_formatInt h]
  dsimp only
  by_cases hn : n < 0
  · rw [if_pos (decide_eq_true hn)]
    congr 1
    omega
  · rw [if_neg (by simpa using hn)]
    congr 1
    omega

theorem formatInt_natCast (n : ℕ) : formatInt n = decimal n := by
  unfold formatInt
  rw [if_neg (by omega), Int.natAbs_natCast]

/-- `strtoull` does, too. -/
theorem strtoull_decimal (h : Ends after) {n : ℕ} (hlt : n < 2 ^ 64) :
    strtoull 0 (decimal n ++ after) = (n, after) := by
  have hnumber := parseNumber_formatInt h n
  rw [formatInt_natCast, decide_eq_false (by omega), Int.natAbs_natCast] at hnumber
  unfold strtoull
  rw [hnumber]
  dsimp only
  rw [if_neg (by omega), if_neg Bool.false_ne_true]

/-! ### Digits of a given base -/

theorem ne_of_digitValue_isSome {c : UInt8} (h : (digitValue c).isSome) :
    isSpace c = false ∧ c ≠ 0x2d ∧ c ≠ 0x2b := by
  unfold digitValue at h
  unfold isSpace
  grind

theorem digitValue_isSome_of_isDigit {base : ℕ} {c : UInt8} (h : isDigit base c = true) :
    (digitValue c).isSome := by
  unfold isDigit at h
  split at h
  case h_1 d hd => rw [hd, Option.isSome_some]
  case h_2 => cases h

/-- The digits of a number are all read, if they do not start with a prefix. -/
theorem parseNumber_digits {base base' : ℕ} {sign digits : Bytes}
    (hsign : sign ∈ [[], [0x2b], [0x2d]]) (hdigits : ∀ c ∈ digits, isDigit base' c)
    (hnil : digits ≠ []) (hafter : ∀ c ∈ after.head?, isDigit base' c = false)
    (hbase : takePrefix base (digits ++ after) = (base', digits ++ after)) :
    parseNumber base (sign ++ (digits ++ after))
      = some (decide (sign = [0x2d]), digitsValue base' digits, after) := by
  have htake : (digits ++ after).takeWhile (isDigit base') = digits := by
    rw [List.takeWhile_append_of_pos hdigits]
    cases after with
    | nil => exact List.append_nil _
    | cons c after =>
      rw [List.takeWhile_cons_of_neg (by rw [hafter c rfl]; decide), List.append_nil]
  obtain ⟨c, s, rfl⟩ := List.exists_cons_of_ne_nil hnil
  obtain ⟨hspace, hsign₀⟩ :=
    ne_of_digitValue_isSome (digitValue_isSome_of_isDigit (hdigits c List.mem_cons_self))
  have hmagnitude : parseMagnitude base (c :: s ++ after)
      = some (digitsValue base' (c :: s), after) := by
    unfold parseMagnitude
    dsimp only
    rw [hbase]
    dsimp only
    rw [htake, if_neg (List.cons_ne_nil c s), List.drop_left]
  rw [parseNumber_eq]
  simp only [List.mem_cons, List.not_mem_nil, or_false] at hsign
  rcases hsign with rfl | rfl | rfl
  · have hdrop : (c :: s ++ after).dropWhile isSpace = c :: s ++ after := by
      rw [List.cons_append, List.dropWhile_cons_of_neg (by rw [hspace]; decide)]
    have htakeSign : takeSign (c :: s ++ after) = (false, c :: s ++ after) := by
      rw [List.cons_append, takeSign]
      rw [if_neg hsign₀.1, if_neg hsign₀.2]
    rw [List.nil_append, hdrop, htakeSign, hmagnitude]
    rfl
  · rw [List.singleton_append, List.dropWhile_cons_of_neg (by decide)]
    show (parseMagnitude base (c :: s ++ after)).map _ = _
    rw [hmagnitude]
    rfl
  · rw [List.singleton_append, List.dropWhile_cons_of_neg (by decide)]
    show (parseMagnitude base (c :: s ++ after)).map _ = _
    rw [hmagnitude]
    rfl

theorem isHexPrefix_eq_false (h : ∀ x ∈ (s.drop 1).head?, x ≠ 0x78 ∧ x ≠ 0x58) :
    isHexPrefix s = false := by
  match s, h with
  | [], _ => rfl
  | [_], _ => rfl
  | [_, _], _ => rfl
  | zero :: x :: c :: s, h =>
    obtain ⟨hlower, hupper⟩ := h x rfl
    simp [isHexPrefix, hlower, hupper]

/-- `strtol` reads what `{:x}` has written. -/
theorem strtol_hexadecimal (h : Ends after) {n : ℕ} (hlt : n < 2 ^ 63) :
    strtol 16 (hexadecimal n ++ after) = ((n : ℤ), after) := by
  have hdigits : ∀ c ∈ hexadecimal n, isDigit 16 c := isDigit_numeral (by decide) (by decide) n
  have hvalue : digitsValue 16 (hexadecimal n) = n := digitsValue_numeral (by decide) (by decide) n
  have hx : isHexPrefix (hexadecimal n ++ after) = false := by
    refine isHexPrefix_eq_false fun x hx => ?_
    -- an `x` is no digit of base 16, and a digit of another one
    obtain ⟨c, t, ht⟩ : ∃ c t, hexadecimal n = c :: t :=
      List.exists_cons_of_ne_nil (numeral_ne_nil 16 n)
    rw [ht, List.cons_append, List.drop_one, List.tail_cons] at hx
    cases t with
    | nil =>
      have hvalue := h x hx
      constructor
      · rintro rfl
        exact absurd hvalue (by decide)
      · rintro rfl
        exact absurd hvalue (by decide)
    | cons c' t =>
      obtain rfl : c' = x := Option.some.inj hx
      have hdigit := hdigits c' (ht ▸ List.mem_cons_of_mem _ List.mem_cons_self)
      constructor
      · rintro rfl
        exact absurd hdigit (by decide)
      · rintro rfl
        exact absurd hdigit (by decide)
  have hbase : takePrefix 16 (hexadecimal n ++ after) = (16, hexadecimal n ++ after) := by
    unfold takePrefix
    rw [hx, if_neg (fun h => absurd h.2 nofun), if_neg (by decide)]
  have hnumber : parseNumber 16 (hexadecimal n ++ after) = some (false, n, after) := by
    have hall := @parseNumber_digits _ _ _ [] _ List.mem_cons_self hdigits (numeral_ne_nil 16 n)
      (fun c hc => isDigit_eq_false (h c hc)) hbase
    rwa [hvalue] at hall
  unfold strtol
  rw [hnumber]
  dsimp only
  rw [if_neg (by decide), min_eq_left (by omega)]

end Mjlib.Base
