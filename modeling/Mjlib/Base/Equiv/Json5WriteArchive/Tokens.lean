import Mathlib
import Mjlib.Base.Json5WriteArchive
import Mjlib.Base.Equiv.Json5ReadArchive.Inserted
import Mjlib.Base.Equiv.Json5ReadArchive.Integers
import Mjlib.Lib.Json

/-!
# The tokens that `Json5WriteArchive` writes

Blanks, texts between quotation marks and numbers, and how `Json5ReadArchive` reads each of them.
-/

namespace Mjlib.Base.Json5WriteArchive

open Json5ReadArchive

variable {α : Type} {s : State} {rest blanks : Bytes} {c : UInt8} {permissiveNan : Bool}

/-! ### Blanks and literals -/

/-- Blanks are skipped up to a value. -/
theorem reads_ignoreWhitespaceLoop (hrest : ∀ c ∈ rest.head?, ¬StartsBlank c) :
    ∀ {blanks : Bytes} {n : ℕ} {s : State}, s.input = blanks ++ rest → s.input.length ≤ n →
    (∀ c ∈ blanks, isWhitespace c = true) → Reads (ignoreWhitespaceLoop n) s () rest := by
  intro blanks
  induction blanks with
  | nil =>
    intro n s hs hn _
    cases n with
    | zero => exact reads_pure hs
    | succ n =>
      cases rest with
      | nil => exact (reads_peek hs).bind fun s hs => reads_pure hs
      | cons c rest => exact ⟨s, ignoreWhitespaceLoop_of_not_startsBlank hs (hrest c rfl), hs⟩
  | cons c blanks ih =>
    intro n s hs hn hblanks
    obtain ⟨hc, hblanks⟩ := List.forall_mem_cons.mp hblanks
    rw [hs, List.cons_append, List.length_cons] at hn
    obtain ⟨n, rfl⟩ : ∃ m, n = m + 1 := ⟨n - 1, by omega⟩
    have hinput := input_next c (blanks ++ rest) s
    obtain ⟨s', hok, hs'⟩ := ih hinput (n := n) (by rw [hinput]; omega) hblanks
    exact ⟨s', (ignoreWhitespaceLoop_of_isWhitespace hs hc).trans hok, hs'⟩

theorem reads_ignoreWhitespace (blanks : Bytes) (hs : s.input = blanks ++ rest)
    (hblanks : ∀ c ∈ blanks, isWhitespace c = true) (hrest : ∀ c ∈ rest.head?, ¬StartsBlank c) :
    Reads ignoreWhitespace s () rest :=
  reads_ignoreWhitespaceLoop hrest hs le_rfl hblanks

theorem reads_expect (whole : Bytes) : ∀ {literal : Bytes} {s : State},
    s.input = literal ++ rest → Reads (expect whole literal) s () rest := by
  intro literal
  induction literal with
  | nil => exact fun hs => reads_pure hs
  | cons c literal ih =>
    intro s hs
    refine (reads_get hs).bind fun s hs => ?_
    rw [if_neg (not_not_intro rfl)]
    exact ih hs

/-- A literal behind blanks. -/
theorem reads_readLiteral (blanks literal : Bytes)
    (hs : s.input = blanks ++ (c :: literal ++ rest))
    (hblanks : ∀ c ∈ blanks, isWhitespace c = true) (hc : ¬StartsBlank c) :
    Reads (readLiteral (c :: literal)) s () rest := by
  rw [readLiteral_eq]
  refine (reads_ignoreWhitespace blanks hs hblanks ?_).bind fun s hs => reads_expect _ hs
  intro d hd
  rw [List.cons_append, List.head?_cons] at hd
  rwa [← Option.some.inj hd]

/-- A literal. -/
theorem reads_literal (literal : Bytes) (hs : s.input = c :: literal ++ rest)
    (hc : ¬StartsBlank c) :
    Reads (readLiteral (c :: literal)) s () rest :=
  reads_readLiteral [] literal hs (List.forall_mem_nil _) hc

theorem Reads.congr {x y : M α} {a : α} (h : Reads x s a rest) (heq : y s = x s) :
    Reads y s a rest := by
  obtain ⟨s', hok, hs'⟩ := h
  exact ⟨s', heq.trans hok, hs'⟩

/-! ### Texts -/

/-- A character that stands for itself in a string. -/
def Plain (c : UInt8) : Prop := Readable c ∧ ¬HasEscape c

instance (c : UInt8) : Decidable (Plain c) := inferInstanceAs (Decidable (_ ∧ _))

theorem escapeJsonString_of_not {text : Bytes} (h : ∀ c ∈ text, ¬HasEscape c) :
    escapeJsonString text = text := by
  induction text with
  | nil => rfl
  | cons c text ih =>
    obtain ⟨hc, htext⟩ := List.forall_mem_cons.mp h
    rw [escapeJsonString_cons, escapeJsonChar_of_not hc, ih htext, List.singleton_append]

theorem writeString_of_not {text : Bytes} (h : ∀ c ∈ text, ¬HasEscape c) :
    writeString text = inQuotes text := by
  rw [writeString, escapeJsonString_of_not h, inQuotes]

/-- A string is read up to its end. -/
theorem reads_readString {text : Bytes} (htext : ∀ c ∈ text, Readable c)
    (hs : s.input = writeString text ++ rest) : Reads readString s text rest := by
  have hread := (roundTrips_iff_readable text).mpr htext rest s.line s.column
  obtain ⟨input, line, column⟩ := s
  dsimp only at hs
  subst hs
  exact hread

/-- A value starts with neither a blank, nor a comment, nor the end of an array. -/
def Starts (text : Bytes) : Prop :=
  ∃ c tail, text = c :: tail ∧ ¬StartsBlank c ∧ c ≠ 0x5d

theorem starts_cons {tail : Bytes} (h : ¬StartsBlank c ∧ c ≠ 0x5d) : Starts (c :: tail) :=
  ⟨c, tail, rfl, h⟩

theorem Starts.head {text : Bytes} (h : Starts text) (rest : Bytes) :
    ∀ c ∈ (text ++ rest).head?, ¬StartsBlank c ∧ c ≠ 0x5d := by
  obtain ⟨c, tail, rfl, hc⟩ := h
  intro d hd
  rw [List.cons_append, List.head?_cons] at hd
  rwa [← Option.some.inj hd]

theorem Starts.head_ne {text : Bytes} (h : Starts text) (rest : Bytes) :
    (text ++ rest).head? ≠ some 0x5d :=
  fun heq => (h.head rest _ heq).2 rfl

/-- The text behind a value does not go on with a number. -/
def Stops (rest : Bytes) : Prop :=
  ∀ c ∈ rest.head?, isDigit 10 c = false ∧
    c ∉ [0x2e, 0x65, 0x45, 0x62, 0x42, 0x6f, 0x4f, 0x78, 0x58]

instance (rest : Bytes) : Decidable (Stops rest) := inferInstanceAs (Decidable (∀ _ ∈ _, _))

theorem stops_cons (h : isDigit 10 c = false ∧
    c ∉ [0x2e, 0x65, 0x45, 0x62, 0x42, 0x6f, 0x4f, 0x78, 0x58]) : Stops (c :: rest) := by
  intro d hd
  rw [List.head?_cons] at hd
  rwa [← Option.some.inj hd]

/-! ### Indentation -/

theorem isWhitespace_of_indent {options : Options} {extra : ℤ} {pad : Bytes}
    (h : indent options extra = some pad) : ∀ c ∈ pad, isWhitespace c = true := by
  unfold indent at h
  dsimp only at h
  split_ifs at h
  cases h
  intro c hc
  rw [List.eq_of_mem_replicate hc]
  decide

/-- A line break and the blanks of the next line. -/
theorem isWhitespace_of_newline {pad : Bytes} (h : ∀ c ∈ pad, isWhitespace c = true) :
    ∀ c ∈ 0x0a :: pad, isWhitespace c = true :=
  List.forall_mem_cons.mpr ⟨by decide, h⟩

/-! ### Numbers -/

theorem reads_readDecimalDigits {digits : Bytes} (hs : s.input = digits ++ rest)
    (hdigits : ∀ c ∈ digits, isDigit 10 c = true) (hrest : ∀ c ∈ rest.head?, isDigit 10 c = false) :
    Reads readDecimalDigits s digits rest :=
  reads_readWhile hs (fun c hc => (isDigit_eq c).1 ▸ hdigits c hc)
    fun c hc => (isDigit_eq c).1 ▸ hrest c hc

/-- The text of an integer as a literal. -/
def literalOf (value : ℤ) : Literal where
  sign := if value < 0 then [0x2d] else []
  radix := .decimal
  marker := []
  digits := decimal value.natAbs
  sign_mem := by split_ifs <;> simp
  marker_mem := by simp [Radix.markers]
  digits_ne_nil := decimal_ne_nil _
  isDigit := isDigit_decimal _
  eq_zero := by
    intro _ hzero
    obtain ⟨d, hd, hhead, hvalue⟩ := head?_decimal value.natAbs
    have hdigit : d = 0 := by
      have heq := Option.some.inj (hhead.symm.trans hzero)
      interval_cases d
      all_goals first | rfl | exact absurd heq (by decide)
    rw [hvalue hdigit]
    rfl

theorem text_literalOf (value : ℤ) : (literalOf value).text = formatInt value := by
  unfold Literal.text literalOf formatInt
  split_ifs
  · rfl
  · rfl

theorem value_literalOf (value : ℤ) : (literalOf value).value = value := by
  have hmagnitude : (literalOf value).magnitude = value.natAbs := digitsValue_decimal _
  rw [Literal.value, hmagnitude]
  by_cases h : value < 0
  · rw [if_pos (by simp [literalOf, h])]
    omega
  · rw [if_neg (by simp [literalOf, h])]
    omega

/-- An integer of a type is read up to its end. -/
theorem reads_readInteger {t : IntType} {value : ℤ} (h : t.min ≤ value ∧ value ≤ t.max)
    (hrest : Stops rest) (hs : s.input = formatInt value ++ rest) :
    Reads (readInteger permissiveNan t) s value rest := by
  rw [← text_literalOf] at hs
  have hends : (literalOf value).EndsBefore rest := by
    intro c hc
    obtain ⟨hdigit, hnot⟩ := hrest c hc
    refine ⟨hdigit, fun _ hmem => hnot ?_, fun _ _ hmem => hnot ?_⟩
    · exact List.mem_append_left [0x62, 0x42, 0x6f, 0x4f, 0x78, 0x58] hmem
    · exact List.mem_append_right [0x2e, 0x65, 0x45] hmem
  have hshort : ¬(literalOf value).Shortened := fun h => h.1 rfl
  have hfits : (literalOf value).Fits t := by rwa [Literal.Fits, value_literalOf]
  cases ht : t.signed with
  | true =>
    have hread := @readInteger_of_signed s rest permissiveNan (literalOf value) t ht hends hs
    rw [Literal.outcome, if_neg hshort, if_pos ht, if_pos hfits, value_literalOf] at hread
    exact hread
  | false =>
    have hread := @readInteger_of_unsigned s rest permissiveNan (literalOf value) t ht hends hs
    have hmin := (t.min_max_of_unsigned ht).1
    have hsign : ¬(literalOf value).sign = [0x2d] := by
      have hnonneg : ¬value < 0 := by omega
      simp [literalOf, hnonneg]
    have hunsigned : ((literalOf value).unsigned : ℤ) = value := by
      have hvalue := value_literalOf value
      rw [Literal.value, if_neg hsign] at hvalue
      rw [Literal.unsigned, if_neg hsign, hvalue]
    have houtcome := (outcome_of_unsigned ht hshort).mpr fun h => hsign h.2.1
    rw [houtcome, if_pos hfits, value_literalOf] at hread
    exact hread

/-- What `fmt` makes of a finite floating point number: digits without a redundant zero, and perhaps
a fraction and an exponent. -/
structure FloatText where
  sign : Bytes
  integer : Bytes
  fraction : Option Bytes
  exponent : Option (Bytes × Bytes)
  sign_mem : sign ∈ [[], [0x2d]]
  integer_ne_nil : integer ≠ []
  isDigit_integer : ∀ c ∈ integer, isDigit 10 c = true
  eq_zero : integer.head? = some 0x30 → integer = [0x30]
  fraction_ne_nil : ∀ digits ∈ fraction, digits ≠ []
  isDigit_fraction : ∀ digits ∈ fraction, ∀ c ∈ digits, isDigit 10 c = true
  exponent_sign_mem : ∀ e ∈ exponent, e.1 ∈ [[], [0x2b], [0x2d]]
  exponent_ne_nil : ∀ e ∈ exponent, e.2 ≠ []
  isDigit_exponent : ∀ e ∈ exponent, ∀ c ∈ e.2, isDigit 10 c = true

namespace FloatText

variable (f : FloatText)

def exponentText : Bytes := f.exponent.elim [] fun e => 0x65 :: (e.1 ++ e.2)

def fractionText : Bytes := f.fraction.elim [] fun digits => 0x2e :: digits

def text : Bytes := f.sign ++ (f.integer ++ (f.fractionText ++ f.exponentText))

variable {f}

theorem Stops.head_ne (hrest : Stops rest)
    (hc : c ∈ [0x2e, 0x65, 0x45, 0x62, 0x42, 0x6f, 0x4f, 0x78, 0x58]) : rest.head? ≠ some c :=
  fun h => (hrest c h).2 hc

theorem reads_readExponentPart (hrest : Stops rest) (hs : s.input = f.exponentText ++ rest) :
    Reads readExponentPart s f.exponentText rest := by
  have hsign := f.exponent_sign_mem
  have hne := f.exponent_ne_nil
  have hdigits := f.isDigit_exponent
  have hstop : ∀ c ∈ rest.head?, isDigit 10 c = false := fun c hc => (hrest c hc).1
  unfold exponentText at hs ⊢
  unfold readExponentPart
  generalize f.exponent = exponent at *
  rcases exponent with _ | ⟨sign, digits⟩
  · refine (reads_peek hs).bind fun s hs => ?_
    rw [Option.elim_none, List.nil_append,
      if_neg (not_or_intro (Stops.head_ne hrest (by decide)) (Stops.head_ne hrest (by decide)))]
    exact reads_pure hs
  · specialize hsign _ rfl
    specialize hne _ rfl
    specialize hdigits _ rfl
    dsimp only at hsign hne hdigits
    rw [Option.elim_some, List.cons_append, List.append_assoc] at hs
    dsimp only at hs
    refine (reads_peek hs).bind fun s hs => ?_
    rw [List.head?_cons, if_pos (Or.inl rfl)]
    refine (reads_get hs).bind fun s hs => ?_
    suffices h : Reads readSignedInteger s (sign ++ digits) rest from
      h.bind fun s hs => reads_pure hs
    unfold readSignedInteger
    simp only [List.mem_cons, List.not_mem_nil, or_false] at hsign
    rcases hsign with rfl | rfl | rfl
    · obtain ⟨d, ds, rfl⟩ := List.exists_cons_of_ne_nil hne
      have hd : isDigit 10 d = true := hdigits d List.mem_cons_self
      refine (reads_peek hs).bind fun s hs => ?_
      rw [List.nil_append, List.nil_append, List.cons_append, List.head?_cons, if_neg]
      · exact reads_readDecimalDigits hs hdigits hstop
      · rintro (h | h)
        · rw [Option.some.inj h] at hd
          exact absurd hd (by decide)
        · rw [Option.some.inj h] at hd
          exact absurd hd (by decide)
    · refine (reads_peek hs).bind fun s hs => ?_
      rw [List.singleton_append] at hs ⊢
      rw [List.singleton_append, List.head?_cons, if_pos (Or.inl rfl)]
      exact (reads_get hs).bind fun s hs =>
        (reads_readDecimalDigits hs hdigits hstop).bind fun s hs => reads_pure hs
    · refine (reads_peek hs).bind fun s hs => ?_
      rw [List.singleton_append] at hs ⊢
      rw [List.singleton_append, List.head?_cons, if_pos (Or.inr rfl)]
      exact (reads_get hs).bind fun s hs =>
        (reads_readDecimalDigits hs hdigits hstop).bind fun s hs => reads_pure hs

/-- What stands behind the digits of the integer, or of the fraction, is no digit. -/
theorem isDigit_exponentText_eq_false (hrest : Stops rest) :
    ∀ c ∈ (f.exponentText ++ rest).head?, isDigit 10 c = false := by
  unfold exponentText
  cases f.exponent with
  | none => exact fun c hc => (hrest c hc).1
  | some e =>
    intro c hc
    obtain rfl : 0x65 = c := Option.some.inj hc
    decide

theorem reads_readDecimalLiteral (initialZero : Bool) (hrest : Stops rest)
    (hfirst : initialZero = false → s.input.head? ≠ some 0x2e)
    (hinteger : Reads (readDecimalIntegerLiteral initialZero) s f.integer
      (f.fractionText ++ (f.exponentText ++ rest))) :
    Reads (readDecimalLiteral initialZero) s (f.integer ++ (f.fractionText ++ f.exponentText))
      rest := by
  have htail : Reads (readDecimalIntegerLiteral initialZero >>= fun integer => do
      let next ← peek
      if next = some 0x2e then
        let point ← Json5ReadArchive.get
        let digits ← readDecimalDigits
        return integer ++ point :: digits ++ (← readExponentPart)
      else if next = some 0x65 ∨ next = some 0x45 then return integer ++ (← readExponentPart)
      else return integer) s (f.integer ++ (f.fractionText ++ f.exponentText)) rest := by
    refine hinteger.bind fun s hs => ?_
    have hfraction := f.isDigit_fraction
    unfold fractionText at hs ⊢
    cases hf : f.fraction with
    | some digits =>
      rw [hf] at hs
      refine (reads_peek hs).bind fun s hs => ?_
      rw [Option.elim_some, List.cons_append, List.head?_cons, if_pos rfl]
      refine (reads_get hs).bind fun s hs => ?_
      refine (reads_readDecimalDigits hs (hfraction _ hf)
        (isDigit_exponentText_eq_false hrest)).bind fun s hs => ?_
      refine (reads_readExponentPart hrest hs).bind fun s hs => ?_
      rw [List.append_assoc, List.cons_append]
      exact reads_pure hs
    | none =>
      rw [hf] at hs
      refine (reads_peek hs).bind fun s hs => ?_
      cases he : f.exponent with
      | some e =>
        have hexponent : f.exponentText = 0x65 :: (e.1 ++ e.2) := by
          rw [exponentText, he, Option.elim_some]
        rw [Option.elim_none, List.nil_append, hexponent, List.cons_append, List.head?_cons,
          if_neg (by decide), if_pos (Or.inl rfl)]
        rw [Option.elim_none, List.nil_append] at hs
        refine (reads_readExponentPart hrest hs).bind fun s hs => ?_
        rw [hexponent]
        exact reads_pure hs
      | none =>
        have hexponent : f.exponentText = [] := by rw [exponentText, he, Option.elim_none]
        simp only [Option.elim_none, List.nil_append, hexponent, List.append_nil] at hs ⊢
        rw [if_neg (Stops.head_ne hrest (by decide)),
          if_neg (not_or_intro (Stops.head_ne hrest (by decide)) (Stops.head_ne hrest (by decide)))]
        exact reads_pure hs
  unfold readDecimalLiteral
  cases initialZero with
  | false =>
    obtain ⟨s', hok, hs'⟩ := htail
    refine ⟨s', ?_, hs'⟩
    have hpeek : peek s = .ok (s.input.head?, s) := rfl
    dsimp only
    rw [if_neg Bool.false_ne_true, bind_ok hpeek, if_neg (hfirst rfl), ← hok]
  | true =>
    rw [if_pos rfl]
    exact htail

/-- What stands behind the digits of the integer is not the letter of a base. -/
theorem head_fractionText (hrest : Stops rest) (hc : c ∈ [0x62, 0x42, 0x6f, 0x4f, 0x78, 0x58]) :
    (f.fractionText ++ (f.exponentText ++ rest)).head? ≠ some c := by
  have hmem : c ∈ [0x2e, 0x65, 0x45, 0x62, 0x42, 0x6f, 0x4f, 0x78, 0x58] :=
    List.mem_append_right [0x2e, 0x65, 0x45] hc
  unfold fractionText exponentText
  cases f.fraction with
  | some digits =>
    intro h
    obtain rfl : 0x2e = c := Option.some.inj h
    exact absurd hc (by decide)
  | none =>
    cases f.exponent with
    | some e =>
      intro h
      obtain rfl : 0x65 = c := Option.some.inj h
      exact absurd hc (by decide)
    | none => exact Stops.head_ne hrest hmem

theorem isDigit_fractionText_eq_false (hrest : Stops rest) :
    ∀ c ∈ (f.fractionText ++ (f.exponentText ++ rest)).head?, isDigit 10 c = false := by
  unfold fractionText
  cases f.fraction with
  | none => exact isDigit_exponentText_eq_false hrest
  | some digits =>
    intro c hc
    obtain rfl : 0x2e = c := Option.some.inj hc
    decide

/-- The part behind the sign. -/
theorem reads_readNumericLiteral (hrest : Stops rest)
    (hs : s.input = f.integer ++ (f.fractionText ++ (f.exponentText ++ rest))) :
    Reads (readNumericLiteral permissiveNan) s ⟨f.integer ++ (f.fractionText ++ f.exponentText), 0⟩
      rest := by
  obtain ⟨d, ds, hds⟩ := List.exists_cons_of_ne_nil f.integer_ne_nil
  have hd : isDigit 10 d = true := f.isDigit_integer d (by rw [hds]; exact List.mem_cons_self)
  have hne : ∀ c : UInt8, isDigit 10 c = false → some d ≠ some c := by
    intro c hc h
    rw [Option.some.inj h, hc] at hd
    exact Bool.false_ne_true hd
  have hpeek : Reads peek s (some d) (f.integer ++ (f.fractionText ++ (f.exponentText ++ rest))) := by
    have h := reads_peek hs
    rwa [hds] at h ⊢
  unfold readNumericLiteral
  refine hpeek.bind fun s hs => ?_
  rw [if_neg (hne _ (by decide)), if_neg (hne _ (by decide)),
    if_neg (fun h => hne _ (by decide) h.2)]
  by_cases hzero : d = 0x30
  · -- the zero is taken before it is known to be the integer
    subst hzero
    have hone : f.integer = [0x30] := f.eq_zero (by rw [hds]; rfl)
    rw [hone, List.singleton_append] at hs
    rw [if_neg (not_not_intro rfl)]
    refine (reads_get hs).bind fun s hs => (reads_peek hs).bind fun s hs => ?_
    have hletters := fun c hc => head_fractionText (f := f) (c := c) hrest hc
    rw [if_neg (not_or_intro (hletters _ (by decide)) (hletters _ (by decide))),
      if_neg (not_or_intro (hletters _ (by decide)) (hletters _ (by decide))),
      if_neg (not_or_intro (hletters _ (by decide)) (hletters _ (by decide)))]
    refine (reads_readDecimalLiteral true hrest (fun h => absurd h (by decide)) ?_).bind fun s hs => reads_pure hs
    rw [hone]
    exact reads_pure hs
  · rw [if_pos (fun h => hzero (Option.some.inj h))]
    refine (reads_readDecimalLiteral false hrest (fun _ => ?_) ?_).bind fun s hs => reads_pure hs
    · rw [hs, hds]
      exact hne 0x2e (by decide)
    · exact reads_readDecimalDigits hs f.isDigit_integer (isDigit_fractionText_eq_false hrest)

/-- **A finite number is copied as it was written.** -/
theorem reads_readNumber (hrest : Stops rest) (hs : s.input = f.text ++ rest) :
    Reads (readNumber permissiveNan) s ⟨f.text, 0⟩ rest := by
  have hsign := f.sign_mem
  rw [text, List.append_assoc, List.append_assoc, List.append_assoc] at hs
  rw [text]
  unfold readNumber
  rcases List.mem_pair.mp hsign with hsign | hsign
  · rw [hsign, List.nil_append] at hs
    obtain ⟨d, ds, hds⟩ := List.exists_cons_of_ne_nil f.integer_ne_nil
    have hd : isDigit 10 d = true := f.isDigit_integer d (by rw [hds]; exact List.mem_cons_self)
    have hhead : (f.integer ++ (f.fractionText ++ (f.exponentText ++ rest))).head? = some d := by
      rw [hds]
      rfl
    refine (reads_peek hs).bind fun s hs => ?_
    rw [hhead, if_neg, hsign, List.nil_append]
    · exact reads_readNumericLiteral hrest hs
    · rintro (h | h)
      · rw [Option.some.inj h] at hd
        exact absurd hd (by decide)
      · rw [Option.some.inj h] at hd
        exact absurd hd (by decide)
  · rw [hsign, List.singleton_append] at hs
    refine (reads_peek hs).bind fun s hs => ?_
    rw [List.head?_cons, if_pos (Or.inr rfl), hsign, List.singleton_append]
    exact (reads_get hs).bind fun s hs =>
      (reads_readNumericLiteral hrest hs).bind fun s hs => reads_pure hs

/-- No number starts with a letter, but for those that are not finite. -/
theorem starts_text (f : FloatText) : ∃ d tail, f.text = d :: tail ∧
    (isDigit 10 d = true ∨ d = 0x2d) ∧ (d = 0x2d → ∃ d' tail', tail = d' :: tail' ∧
      isDigit 10 d' = true) := by
  obtain ⟨d, ds, hds⟩ := List.exists_cons_of_ne_nil f.integer_ne_nil
  have hd : isDigit 10 d = true := f.isDigit_integer d (by rw [hds]; exact List.mem_cons_self)
  rcases List.mem_pair.mp f.sign_mem with hsign | hsign
  · refine ⟨d, _, by rw [text, hsign, hds, List.nil_append, List.cons_append], Or.inl hd, ?_⟩
    rintro rfl
    exact absurd hd (by decide)
  · refine ⟨0x2d, _, by rw [text, hsign, List.singleton_append], Or.inr rfl, fun _ => ?_⟩
    exact ⟨d, _, by rw [hds, List.cons_append], hd⟩

end FloatText

end Mjlib.Base.Json5WriteArchive
