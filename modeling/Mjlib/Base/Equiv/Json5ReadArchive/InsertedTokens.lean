import Mjlib.Base.Equiv.Json5ReadArchive.Inserted
import Mjlib.Base.Equiv.Json5ReadArchive.Integers

/-!
# Names, numbers and strings in a text with inserted blanks

A scanner stops at the place where blanks are inserted, since it is next to punctuation, and goes on
in front of it; a string is read in the modes of `lexStep`.
-/

namespace Mjlib.Base.Json5ReadArchive

variable {α β : Type} {w suf : Bytes} {s t : State}

/-! ### Rules -/

/-- A program that does nothing with the state, or fails. -/
inductive Stateless : M α → Prop
  | error {x : M α} (h : ∀ s, ∃ e, x s = .error e) : Stateless x
  | pure (a : α) : Stateless (Pure.pure a)

theorem Stateless.simulates {P : State → State → Prop} {x : M α} (h : Stateless x) :
    Simulates P x x fun _ => P := by
  cases h with
  | error h => exact .of_error h
  | pure a => exact .pure a fun _ _ hst => hst

/-- The character that is got is the one that is there. -/
theorem simulates_get_cases {P : State → State → Prop} {f g : UInt8 → M α}
    {Q : α → State → State → Prop}
    (h : ∀ c, Simulates (At P (some c)) (get >>= f) (get >>= g) Q) :
    Simulates P (get >>= f) (get >>= g) Q := by
  intro s t hst a s' hok
  cases hinput : s.input with
  | nil =>
    obtain ⟨e, he⟩ := get_of_nil hinput
    exact nomatch (bind_error he).symm.trans hok
  | cons c rest => exact h c s t ⟨hst, by rw [hinput]; rfl⟩ a s' hok

theorem simulates_get_error {P : State → State → Prop} {c : UInt8} {f : UInt8 → M α} {y : M α}
    {Q : α → State → State → Prop} (h : ∀ s, ∃ e, f c s = .error e) :
    Simulates (At P (some c)) (get >>= f) y Q := by
  rintro s t ⟨-, hhead⟩ a s' hok
  obtain ⟨rest, hinput⟩ := List.head?_eq_some_iff.mp hhead
  obtain ⟨e, he⟩ := h (s.next c rest)
  rw [bind_ok (get_of_cons hinput), he] at hok
  cases hok

theorem simulates_bind_of_eq {P R : State → State → Prop} {c : α} {x y : M α} {f g : α → M β}
    {Q : β → State → State → Prop} (h : Simulates P x y fun a s t => a = c ∧ R s t)
    (hf : Simulates R (f c) (g c) Q) : Simulates P (x >>= f) (y >>= g) Q := by
  refine h.bind fun a => ?_
  refine .of_pre (fun _ _ hst => hst.1) fun hac => ?_
  rw [hac]
  exact hf.pre fun _ _ hst => hst.2

theorem Inserted.length_le {ahead : Bytes → Prop} (h : Inserted w suf ahead s t) :
    s.input.length ≤ t.input.length := by
  cases h with
  | behind h => rw [h]
  | ahead left hs ht _ =>
    rw [hs, ht]
    simp only [List.length_append]
    omega

/-! ### Scanners -/

/-- The characters that are not plain. -/
def notPlain : Bytes :=
  [0x09, 0x0a, 0x0b, 0x0c, 0x0d, 0x20, 0xa0, 0x2f, 0x7b, 0x7d, 0x5b, 0x5d, 0x3a, 0x2c, 0x22, 0x27]

theorem isPlain_of_notMem {c : UInt8} (h : c ∉ notPlain) : IsPlain c := by
  simp only [notPlain, List.mem_cons, List.not_mem_nil, or_false, not_or] at h
  simp only [IsPlain, IsStop, StartsBlank, isWhitespace, IsPunctuation, IsQuote, List.mem_cons,
    List.not_mem_nil, or_false, decide_eq_true_eq]
  tauto

theorem isPlain_of_accept {accept : UInt8 → Bool} (h : notPlain.any accept = false)
    {c : UInt8} (hc : accept c = true) : IsPlain c :=
  isPlain_of_notMem fun hmem => List.any_eq_false.mp h c hmem hc

theorem lexFrom_of_isPlain {chars : Bytes} (h : ∀ c ∈ chars, IsPlain c) :
    lexFrom true .code chars = .code := by
  induction chars with
  | nil => rfl
  | cons c chars ih =>
    obtain ⟨hc, hchars⟩ := List.forall_mem_cons.mp h
    rw [lexFrom_cons, lexStep_of_isPlain hc, ih hchars]

theorem Near.of_append {left chars : Bytes} (h : Near suf (chars ++ left))
    (hchars : ∀ c ∈ chars, IsPlain c) : Near suf left := by
  induction chars with
  | nil => exact h
  | cons c chars ih =>
    obtain ⟨hc, hchars⟩ := List.forall_mem_cons.mp hchars
    exact ih (h.tail fun _ hpunctuation => hc.1 (Or.inr hpunctuation)) hchars

theorem reads_eq_ok {x : M α} {a b : α} {s' : State} {rest : Bytes} (h : Reads x s a rest)
    (hok : x s = .ok (b, s')) : a = b ∧ s'.input = rest := by
  obtain ⟨s₁, hok', rfl⟩ := h
  obtain ⟨rfl, rfl⟩ := Prod.mk.inj (Except.ok.inj (hok'.symm.trans hok))
  exact ⟨rfl, rfl⟩

/-- A scanner of plain characters stops at the place, if it gets there. -/
theorem simulates_readWhile (hw : IsBlanks w) {accept : UInt8 → Bool}
    (haccept : notPlain.any accept = false) :
    Simulates (Within w suf .code) (readWhile accept) (readWhile accept)
      fun _ => Within w suf .code := by
  have hdrop : ∀ text : Bytes, ∀ c ∈ (text.dropWhile accept).head?, accept c = false := by
    intro text c hc
    have hhead := List.head?_dropWhile_not accept text
    rwa [hc] at hhead
  intro s t hst a s' hok
  cases hst with
  | behind heq =>
    have hreads : ∀ s : State, Reads (readWhile accept) s (s.input.takeWhile accept)
        (s.input.dropWhile accept) := fun s =>
      reads_readWhile List.takeWhile_append_dropWhile.symm (fun c hc => List.mem_takeWhile_imp hc)
        (hdrop s.input)
    obtain ⟨rfl, hs'⟩ := reads_eq_ok (hreads s) hok
    obtain ⟨t', hok', ht'⟩ := hreads t
    refine ⟨t', ?_, .behind ?_⟩
    · rw [hok', heq]
    · rw [hs', ht', heq]
  | ahead left hs ht hleft =>
    obtain ⟨hlex, hnear⟩ := hleft
    have hsplit := (List.takeWhile_append_dropWhile (p := accept) (l := left)).symm
    have hchars : ∀ c ∈ left.takeWhile accept, accept c = true := fun c hc =>
      List.mem_takeWhile_imp hc
    have hplain : ∀ c ∈ left.takeWhile accept, IsPlain c := fun c hc =>
      isPlain_of_accept haccept (hchars c hc)
    have hnear' : Near suf (left.dropWhile accept) := by
      rw [hsplit] at hnear
      exact hnear.of_append hplain
    -- both states have a character at the place that ends the scan
    have hstop : ∀ c, IsStop c → accept c = false := fun c hc => by
      by_contra haccepts
      exact (isPlain_of_accept haccept (Bool.not_eq_false _ ▸ haccepts)).1 hc
    -- the scanner reads the same characters of both, whatever follows them
    have hreads : ∀ (x : State) (rest : Bytes), x.input = left ++ rest →
        (left.dropWhile accept = [] → ∀ c ∈ rest.head?, IsStop c) →
        Reads (readWhile accept) x (left.takeWhile accept) (left.dropWhile accept ++ rest) := by
      intro x rest hx hrest
      refine reads_readWhile (by rw [hx, ← List.append_assoc, ← hsplit]) hchars fun c hc => ?_
      cases hleft' : left.dropWhile accept with
      | nil =>
        rw [hleft', List.nil_append] at hc
        exact hstop c (hrest hleft' c hc)
      | cons d left' =>
        rw [hleft'] at hc
        exact hdrop left c (hleft' ▸ hc)
    obtain ⟨rfl, hs'⟩ := reads_eq_ok (hreads s suf hs fun hnil c hc => by
      obtain ⟨d, hd, hpunctuation⟩ := (hnil ▸ hnear').exists_head
      exact Or.inr (Option.some.inj (hd.symm.trans hc) ▸ hpunctuation)) hok
    obtain ⟨t', hok', ht'⟩ := hreads t (w ++ suf) ht fun _ c hc => by
      obtain ⟨d, hd, hblank⟩ := hw.head?
      rw [List.head?_append, hd] at hc
      exact Or.inl (Option.some.inj hc ▸ hblank)
    refine ⟨t', hok', .ahead _ hs' ht' ⟨?_, hnear'⟩⟩
    rwa [hsplit, lexFrom_append, lexFrom_of_isPlain hplain] at hlex

/-- A character that is one of a number is taken. -/
theorem simulates_get_of_peek {c : Option UInt8} (hc : ∃ d, c = some d ∧ IsPlain d)
    {f g : UInt8 → M α} {Q : α → State → State → Prop}
    (h : ∀ a, Simulates (Within w suf .code) (f a) (g a) Q) :
    Simulates (At (Within w suf .code) c) (get >>= f) (get >>= g) Q := by
  obtain ⟨d, rfl, hd⟩ := hc
  exact simulates_bind_of_eq (simulates_get_plain hd) (h d)

/-! ### Numbers -/

section
variable (hw : IsBlanks w)
include hw

theorem simulates_readDecimalDigits :
    Simulates (Within w suf .code) readDecimalDigits readDecimalDigits fun _ => Within w suf .code :=
  simulates_readWhile hw (by decide)

theorem simulates_readBinaryIntegerLiteral :
    Simulates (Within w suf .code) readBinaryIntegerLiteral readBinaryIntegerLiteral
      fun _ => Within w suf .code := by
  refine Simulates.map _ (simulates_readWhile hw ?_)
  decide

theorem simulates_readOctalIntegerLiteral :
    Simulates (Within w suf .code) readOctalIntegerLiteral readOctalIntegerLiteral
      fun _ => Within w suf .code := by
  refine Simulates.map _ (simulates_readWhile hw ?_)
  decide

theorem simulates_readHexIntegerLiteral :
    Simulates (Within w suf .code) readHexIntegerLiteral readHexIntegerLiteral
      fun _ => Within w suf .code := by
  refine Simulates.map _ (simulates_readWhile hw ?_)
  decide

theorem simulates_readSignedInteger :
    Simulates (Within w suf .code) readSignedInteger readSignedInteger
      fun _ => Within w suf .code := by
  refine simulates_peek_within hw.head? (fun c => ?_) fun c hc => ?_
  · split_ifs with hsign
    · refine simulates_get_of_peek ?_ fun first => (simulates_readDecimalDigits hw).map _
      exact hsign.elim (fun h => ⟨_, h, by decide⟩) fun h => ⟨_, h, by decide⟩
    · exact (simulates_readDecimalDigits hw).pre fun _ _ hst => hst.1
  · rw [if_neg (not_or.mpr ⟨hc.ne (by decide), hc.ne (by decide)⟩), if_neg nofun]

theorem simulates_readExponentPart :
    Simulates (Within w suf .code) readExponentPart readExponentPart
      fun _ => Within w suf .code := by
  refine simulates_peek_within hw.head? (fun c => ?_) fun c hc => ?_
  · split_ifs with hexponent
    · refine simulates_get_of_peek ?_ fun first => (simulates_readSignedInteger hw).map _
      exact hexponent.elim (fun h => ⟨_, h, by decide⟩) fun h => ⟨_, h, by decide⟩
    · exact .pure _ fun _ _ hst => hst.1
  · rw [if_neg (not_or.mpr ⟨hc.ne (by decide), hc.ne (by decide)⟩), if_neg nofun]

/-- What follows the integer of a decimal literal. -/
theorem simulates_fraction (integer : Bytes) :
    Simulates (Within w suf .code)
      (do
        let next ← peek
        if next = some 0x2e then
          let point ← get
          let digits ← readDecimalDigits
          return integer ++ point :: digits ++ (← readExponentPart)
        else if next = some 0x65 ∨ next = some 0x45 then return integer ++ (← readExponentPart)
        else return integer)
      (do
        let next ← peek
        if next = some 0x2e then
          let point ← get
          let digits ← readDecimalDigits
          return integer ++ point :: digits ++ (← readExponentPart)
        else if next = some 0x65 ∨ next = some 0x45 then return integer ++ (← readExponentPart)
        else return integer)
      fun _ => Within w suf .code := by
  refine simulates_peek_within hw.head? (fun c => ?_) fun c hc => ?_
  · split_ifs with hpoint hexponent
    · refine simulates_get_of_peek ⟨_, hpoint, by decide⟩ fun point => ?_
      exact (simulates_readDecimalDigits hw).bind fun digits =>
        (simulates_readExponentPart hw).map _
    · exact ((simulates_readExponentPart hw).map _).pre fun _ _ hst => hst.1
    · exact .pure _ fun _ _ hst => hst.1
  · rw [if_neg (hc.ne (by decide)),
      if_neg (not_or.mpr ⟨hc.ne (by decide), hc.ne (by decide)⟩), if_neg nofun, if_neg nofun]

theorem simulates_readDecimalLiteral (initialZero : Bool) :
    Simulates (Within w suf .code) (readDecimalLiteral initialZero) (readDecimalLiteral initialZero)
      fun _ => Within w suf .code := by
  have hinteger : Simulates (Within w suf .code) (readDecimalIntegerLiteral initialZero)
      (readDecimalIntegerLiteral initialZero) fun _ => Within w suf .code := by
    unfold readDecimalIntegerLiteral
    split_ifs
    · exact .pure _ fun _ _ hst => hst
    · exact simulates_readDecimalDigits hw
  have hnone : Simulates (Within w suf .code) (pure [] : M Bytes) (pure []) fun _ =>
      Within w suf .code := .pure _ fun _ _ hst => hst
  unfold readDecimalLiteral
  cases initialZero with
  | true =>
    refine (Simulates.pure (Q := fun _ => Within w suf .code) (some 0x30) fun _ _ hst => hst).bind
      fun first => ?_
    dsimp only
    split_ifs
    · exact hnone.bind fun integer => simulates_fraction hw integer
    · exact hinteger.bind fun integer => simulates_fraction hw integer
  | false =>
    refine simulates_peek_within hw.head? (fun first => ?_) fun c hc => ?_
    · refine Simulates.pre (P := Within w suf .code) ?_ fun _ _ hst => hst.1
      dsimp only
      split_ifs
      · exact hnone.bind fun integer => simulates_fraction hw integer
      · exact hinteger.bind fun integer => simulates_fraction hw integer
    · dsimp only
      rw [if_neg (hc.ne (by decide)), if_neg nofun]

theorem simulates_word {literal : Bytes} (h : literal.all fun c => IsPlain c) (a : α) :
    Simulates (Within w suf .code)
      (do
        readLiteral literal
        return a)
      (do
        readLiteral literal
        return a) fun _ => Within w suf .code :=
  ((simulates_readLiteral_plain hw h).pre fun _ _ hst => hst.loose).bind fun _ =>
    .pure a fun _ _ hst => hst

theorem simulates_readNumericLiteral (permissiveNan : Bool) :
    Simulates (Within w suf .code) (readNumericLiteral permissiveNan)
      (readNumericLiteral permissiveNan) fun _ => Within w suf .code := by
  refine simulates_peek_within hw.head? (fun first => ?_) fun c hc => ?_
  · split_ifs with hinfinity hnan hnull hzero
    · exact (simulates_word hw (by decide) _).pre fun _ _ hst => hst.1
    · exact (simulates_word hw (by decide) _).pre fun _ _ hst => hst.1
    · exact (simulates_word hw (by decide) _).pre fun _ _ hst => hst.1
    · exact ((simulates_readDecimalLiteral hw false).map _).pre fun _ _ hst => hst.1
    · refine simulates_get_of_peek ⟨_, not_not.mp hzero, by decide⟩ fun _ => ?_
      refine simulates_peek_within hw.head? (fun next => ?_) fun c hc => ?_
      · split_ifs with hbinary hoctal hhex
        · refine simulates_get_of_peek ?_ fun _ => (simulates_readBinaryIntegerLiteral hw).map _
          exact hbinary.elim (fun h => ⟨_, h, by decide⟩) fun h => ⟨_, h, by decide⟩
        · refine simulates_get_of_peek ?_ fun _ => (simulates_readOctalIntegerLiteral hw).map _
          exact hoctal.elim (fun h => ⟨_, h, by decide⟩) fun h => ⟨_, h, by decide⟩
        · refine simulates_get_of_peek ?_ fun _ => (simulates_readHexIntegerLiteral hw).map _
          exact hhex.elim (fun h => ⟨_, h, by decide⟩) fun h => ⟨_, h, by decide⟩
        · exact ((simulates_readDecimalLiteral hw true).map _).pre fun _ _ hst => hst.1
      · simp only [hc.ne (show ¬IsStop 0x62 by decide), hc.ne (show ¬IsStop 0x42 by decide),
          hc.ne (show ¬IsStop 0x6f by decide), hc.ne (show ¬IsStop 0x4f by decide),
          hc.ne (show ¬IsStop 0x78 by decide), hc.ne (show ¬IsStop 0x58 by decide), reduceCtorEq]
  -- at the place no word, no sign and no prefix starts, as at the end of the text
  · simp only [hc.ne (show ¬IsStop 0x49 by decide), hc.ne (show ¬IsStop 0x4e by decide),
      hc.ne (show ¬IsStop 0x6e by decide), Ne, hc.ne (show ¬IsStop 0x30 by decide), reduceCtorEq]

theorem simulates_readNumber (permissiveNan : Bool) :
    Simulates (Within w suf .code) (readNumber permissiveNan) (readNumber permissiveNan)
      fun _ => Within w suf .code := by
  refine simulates_peek_within hw.head? (fun first => ?_) fun c hc => ?_
  · split_ifs with hsign
    · refine simulates_get_of_peek ?_ fun _ => (simulates_readNumericLiteral hw permissiveNan).map _
      exact hsign.elim (fun h => ⟨_, h, by decide⟩) fun h => ⟨_, h, by decide⟩
    · exact (simulates_readNumericLiteral hw permissiveNan).pre fun _ _ hst => hst.1
  · rw [if_neg (not_or.mpr ⟨hc.ne (by decide), hc.ne (by decide)⟩), if_neg nofun]

end

/-! ### Strings and names -/

/-- The modes in a string. -/
def LexMode.InString : LexMode → Prop
  | .string q => IsQuote q
  | .escape q => IsQuote q
  | .hexFirst q => IsQuote q
  | .hexSecond q => IsQuote q
  | _ => False

theorem IsQuote.not_isPunctuation {c : UInt8} (hc : IsQuote c) : ¬IsPunctuation c := by
  rcases hc with rfl | rfl <;> decide

theorem LexMode.InString.ne_code {mode : LexMode} (h : mode.InString) : mode ≠ .code := by
  rintro rfl
  exact h

/-- A string ends with its quotation mark. -/
theorem LexMode.InString.isQuote {mode : LexMode} (h : mode.InString) {c : UInt8}
    (hcode : lexStep true mode c = .code) : IsQuote c := by
  cases mode with
  | string q =>
    rw [lexStep] at hcode
    split_ifs at hcode with hq
    exact hq ▸ h
  | escape q =>
    rw [lexStep] at hcode
    split_ifs at hcode
  | hexFirst q => cases hcode
  | hexSecond q => cases hcode
  | code => exact h.elim
  | slash => exact h.elim
  | line => exact h.elim
  | block => exact h.elim
  | star => exact h.elim

/-- No blanks are inserted in a string. -/
theorem simulates_get_inString (mode : LexMode) (h : mode.InString) :
    Simulates (Within w suf mode) get get fun a => Within w suf (lexStep true mode a) := by
  refine simulates_get fun left hleft => ?_
  obtain ⟨hlex, hnear⟩ := hleft
  cases left with
  | nil => exact absurd hlex h.ne_code
  | cons c left =>
    refine ⟨c, left, rfl, hlex, hnear.tail fun hnil => ?_⟩
    rw [hnil] at hlex
    exact (h.isQuote hlex).not_isPunctuation

theorem simulates_hexChar {P : State → State → Prop} (char1 char2 : UInt8) :
    Simulates P (hexChar char1 char2) (hexChar char1 char2) fun _ => P := by
  refine Stateless.simulates ?_
  unfold hexChar
  split
  · exact .error fun s => ⟨_, rfl⟩
  · exact .pure _

section
variable {q : UInt8} (hq : IsQuote q)
include hq

theorem simulates_readEscapeSequence :
    Simulates (Within w suf (.escape q)) readEscapeSequence readEscapeSequence
      fun _ => Within w suf (.string q) := by
  refine (simulates_get_inString (.escape q) hq).bind fun first => ?_
  by_cases hhex : first = 0x78
  · rw [hhex]
    refine (simulates_get_inString (.hexFirst q) hq).bind fun char1 => ?_
    refine (simulates_get_inString (.hexSecond q) hq).bind fun char2 => ?_
    exact simulates_hexChar char1 char2
  · rw [lexStep, if_neg hhex, if_neg hhex]
    split_ifs
    · exact .pure _ fun _ _ hst => hst
    · exact .pure _ fun _ _ hst => hst
    · exact .pure _ fun _ _ hst => hst
    · exact .pure _ fun _ _ hst => hst
    · exact .pure _ fun _ _ hst => hst
    · exact .pure _ fun _ _ hst => hst
    · exact .pure _ fun _ _ hst => hst
    · exact .pure _ fun _ _ hst => hst
    · exact .pure _ fun _ _ hst => hst
    · exact .of_error fun s => ⟨_, rfl⟩

theorem simulates_readChar :
    Simulates (Within w suf (.string q)) (readChar q) (readChar q)
      fun c => Within w suf (c.elim .code fun _ => .string q) := by
  refine (simulates_get_inString (.string q) hq).bind fun c => ?_
  rw [lexStep]
  split_ifs with hend hescape
  · exact .pure _ fun _ _ hst => hst
  · exact (simulates_readEscapeSequence hq).bind fun _ => .pure _ fun _ _ hst => hst
  · exact .of_error fun s => ⟨_, rfl⟩
  · exact .pure _ fun _ _ hst => hst

theorem simulates_readTerminatedLoop : ∀ {m n : ℕ}, m ≤ n →
    Simulates (Within w suf (.string q)) (readTerminatedLoop q m) (readTerminatedLoop q n)
      fun _ => Within w suf .code := by
  intro m
  induction m with
  | zero => exact fun _ => .of_error fun s => ⟨_, rfl⟩
  | succ m ih =>
    intro n hmn
    obtain ⟨n, rfl⟩ : ∃ k, n = k + 1 := ⟨n - 1, by omega⟩
    refine (simulates_readChar hq).bind fun c => ?_
    cases c with
    | none => exact .pure _ fun _ _ hst => hst
    | some c => exact (ih (Nat.le_of_succ_le_succ hmn)).map _

theorem simulates_readTerminatedString :
    Simulates (Within w suf (.string q)) (readTerminatedString q) (readTerminatedString q)
      fun _ => Within w suf .code :=
  .of_forall (x := fun s => readTerminatedLoop q s.input.length)
    (y := fun t => readTerminatedLoop q t.input.length)
    fun _ _ hst => simulates_readTerminatedLoop hq hst.length_le

end

theorem simulates_readString :
    Simulates (Within w suf .code) readString readString fun _ => Within w suf .code := by
  refine simulates_get_cases fun c => ?_
  by_cases hquote : IsQuote c
  · refine simulates_bind_of_eq (simulates_get_not_punctuation hquote.not_isPunctuation) ?_
    have hstep : lexStep true .code c = .string c := by
      rcases hquote with rfl | rfl <;> rfl
    rw [hstep]
    rcases hquote with rfl | rfl
    · exact simulates_readTerminatedString (Or.inl rfl)
    · exact simulates_readTerminatedString (Or.inr rfl)
  · obtain ⟨hdouble, hsingle⟩ := not_or.mp hquote
    refine simulates_get_error fun s => ?_
    rw [if_neg hdouble, if_neg hsingle]
    exact ⟨_, rfl⟩

theorem simulates_checkLimit {P : State → State → Prop} (t : IntType) (value : ℤ) :
    Simulates P (checkLimit t value) (checkLimit t value) fun _ => P := by
  refine Stateless.simulates ?_
  unfold checkLimit
  split_ifs
  · exact .error fun s => ⟨_, rfl⟩
  · exact .pure _

section
variable (hw : IsBlanks w)
include hw

theorem simulates_readIdentifier :
    Simulates (Within w suf .code) readIdentifier readIdentifier fun _ => Within w suf .code := by
  refine simulates_get_cases fun c => ?_
  by_cases hfirst : isIdentifierFirstCharacter c = true
  · have hplain : IsPlain c := isPlain_of_accept (by decide) hfirst
    refine simulates_bind_of_eq (simulates_get_plain hplain) ?_
    rw [if_pos hfirst]
    refine Simulates.map _ (simulates_readWhile hw ?_)
    decide
  · refine simulates_get_error fun s => ?_
    rw [if_neg hfirst]
    exact ⟨_, rfl⟩

theorem simulates_readMemberName :
    Simulates (Loose w suf) readMemberName readMemberName fun _ => Within w suf .code := by
  refine (simulates_ignoreWhitespace hw).bind fun _ => simulates_peek_tight fun c => ?_
  split_ifs
  · exact simulates_readString.pre fun _ _ hst => hst.1.within
  · exact (simulates_readIdentifier hw).pre fun _ _ hst => hst.1.within

/-! ### Scalars -/

theorem simulates_readBool (old : Bool) :
    Simulates (Tight w suf) (readBool old) (readBool old) fun _ => Within w suf .code := by
  refine simulates_peek_tight fun c => ?_
  split_ifs
  · exact (simulates_word hw (by decide) true).pre fun _ _ hst => hst.1.within
  · exact (simulates_word hw (by decide) false).pre fun _ _ hst => hst.1.within
  · exact .of_error fun s => ⟨_, rfl⟩

theorem simulates_readJson5SignedInteger (permissiveNan : Bool) :
    Simulates (Within w suf .code) (readJson5SignedInteger permissiveNan)
      (readJson5SignedInteger permissiveNan) fun _ => Within w suf .code := by
  refine (simulates_readNumber hw permissiveNan).bind fun number => Stateless.simulates ?_
  split
  · exact .error fun s => ⟨_, rfl⟩
  · exact .error fun s => ⟨_, rfl⟩
  · split_ifs
    · exact .error fun s => ⟨_, rfl⟩
    · exact .pure _

theorem simulates_readJson5UnsignedInteger (permissiveNan : Bool) :
    Simulates (Within w suf .code) (readJson5UnsignedInteger permissiveNan)
      (readJson5UnsignedInteger permissiveNan) fun _ => Within w suf .code := by
  refine (simulates_readNumber hw permissiveNan).bind fun number => Stateless.simulates ?_
  split
  · exact .error fun s => ⟨_, rfl⟩
  · exact .error fun s => ⟨_, rfl⟩
  · split_ifs
    · exact .error fun s => ⟨_, rfl⟩
    · exact .pure _

theorem simulates_readInteger (permissiveNan : Bool) (t : IntType) :
    Simulates (Within w suf .code) (readInteger permissiveNan t) (readInteger permissiveNan t)
      fun _ => Within w suf .code := by
  unfold readInteger
  split_ifs
  · exact (simulates_readJson5SignedInteger hw permissiveNan).bind fun _ =>
      simulates_checkLimit t _
  · exact (simulates_readJson5UnsignedInteger hw permissiveNan).bind fun _ =>
      simulates_checkLimit t _

theorem simulates_readFloat (permissiveNan : Bool) (F : FloatType) (old : F.Value) :
    Simulates (Within w suf .code) (readFloat permissiveNan F old) (readFloat permissiveNan F old)
      fun _ => Within w suf .code := by
  refine (simulates_readNumber hw permissiveNan).bind fun number => Stateless.simulates ?_
  unfold toFloat
  dsimp only
  split_ifs
  · exact .pure _
  · exact .pure _
  · exact .pure _
  · split
    · exact .error fun s => ⟨_, rfl⟩
    · exact .error fun s => ⟨_, rfl⟩
    · exact .pure _

end

theorem simulates_readParsed (parse : Bytes → Except Failure α) (old : α) :
    Simulates (Within w suf .code) (readParsed parse old) (readParsed parse old)
      fun _ => Within w suf .code := by
  refine simulates_readString.bind fun text => Stateless.simulates ?_
  split
  · exact .error fun s => ⟨_, rfl⟩
  · exact .pure _

theorem simulates_readEnumeration (enumerationMapper : List (α × Bytes)) (old : α) :
    Simulates (Within w suf .code) (readEnumeration enumerationMapper old)
      (readEnumeration enumerationMapper old) fun _ => Within w suf .code := by
  refine simulates_readString.bind fun text => Stateless.simulates ?_
  split
  · exact .error fun s => ⟨_, rfl⟩
  · exact .pure _

end Mjlib.Base.Json5ReadArchive
