import Mjlib.Base.Equiv.Json5ReadArchive
import Mjlib.Base.Equiv.Strtol

/-!
# Does `Json5ReadArchive` read every integer?

A literal is copied by a scanner (`readNumber_literal`) and converted by the C library.  The scanner
leaves the letter of a base behind a single digit, and `std::stoull` takes a minus sign:
`readsExactly_iff` says for which literals and types the value is the right one, or the literal is
rejected.
-/

namespace Mjlib.Base.Json5ReadArchive

variable {s s' : State} {rest : Bytes} {permissiveNan : Bool}

/-! ### Literals -/

/-- The forms of an integer literal. -/
inductive Radix
  | decimal
  | binary
  | octal
  | hex
deriving DecidableEq, Repr

namespace Radix

/-- The base. -/
def base : Radix → ℕ
  | decimal => 10
  | binary => 2
  | octal => 8
  | hex => 16

/-- What may stand before the digits. -/
def markers : Radix → List Bytes
  | decimal => [[]]
  | binary => [[0x30, 0x62], [0x30, 0x42]]
  | octal => [[0x30, 0x6f], [0x30, 0x4f]]
  | hex => [[0x30, 0x78], [0x30, 0x58]]

/-- The text that the digits are put into. -/
def initial : Radix → Bytes
  | decimal => []
  | binary => [0x30, 0x62]
  | octal => [0x30, 0x6f]
  | hex => [0x30, 0x78]

/-- The scanner of the digits. -/
def scan : Radix → M Bytes
  | decimal => readDecimalDigits
  | binary => readBinaryIntegerLiteral
  | octal => readOctalIntegerLiteral
  | hex => readHexIntegerLiteral

/-- The base that the C library is given. -/
def stoBase : Radix → ℕ
  | decimal => 0
  | binary => 2
  | octal => 8
  | hex => 16

end Radix

/-- An integer literal. -/
structure Literal where
  sign : Bytes
  radix : Radix
  marker : Bytes
  digits : Bytes
  sign_mem : sign ∈ [[], [0x2b], [0x2d]]
  marker_mem : marker ∈ radix.markers
  digits_ne_nil : digits ≠ []
  isDigit : ∀ c ∈ digits, isDigit radix.base c = true
  /-- A decimal number has no redundant zero. -/
  eq_zero : radix = .decimal → digits.head? = some 0x30 → digits = [0x30]

namespace Literal

/-- The text of a literal. -/
def text (l : Literal) : Bytes := l.sign ++ (l.marker ++ l.digits)

/-- The number that its digits stand for. -/
def magnitude (l : Literal) : ℕ := digitsValue l.radix.base l.digits

/-- Its value. -/
def value (l : Literal) : ℤ := if l.sign = [0x2d] then -l.magnitude else l.magnitude

/-- The text behind a literal does not go on with it. -/
def EndsBefore (l : Literal) (rest : Bytes) : Prop :=
  ∀ c ∈ rest.head?, Base.isDigit l.radix.base c = false ∧
    (l.radix = .decimal → c ∉ [0x2e, 0x65, 0x45]) ∧
    (l.radix = .decimal → l.digits = [0x30] → c ∉ [0x62, 0x42, 0x6f, 0x4f, 0x78, 0x58])

instance (l : Literal) (rest : Bytes) : Decidable (l.EndsBefore rest) :=
  inferInstanceAs (Decidable (∀ _ ∈ _, _))

/-- A base is said before one digit, so that its letter stays behind the digit. -/
def Shortened (l : Literal) : Prop := l.marker ≠ [] ∧ l.digits.length = 1

instance (l : Literal) : Decidable l.Shortened := inferInstanceAs (Decidable (_ ∧ _))

/-- The value is one of the type's. -/
def Fits (t : IntType) (l : Literal) : Prop := t.min ≤ l.value ∧ l.value ≤ t.max

instance (t : IntType) (l : Literal) : Decidable (l.Fits t) := inferInstanceAs (Decidable (_ ∧ _))

/-- The value is negative, and is one of the unsigned type's modulo `2 ^ 64`. -/
def Wraps (t : IntType) (l : Literal) : Prop :=
  t.signed = false ∧ l.sign = [0x2d] ∧ 0 < l.magnitude ∧ l.magnitude < 2 ^ 64 ∧
    2 ^ 64 - l.magnitude ≤ t.max

instance (t : IntType) (l : Literal) : Decidable (l.Wraps t) :=
  inferInstanceAs (Decidable (_ ∧ _))

end Literal

/-- The value is read, up to the end of the literal, if it is one of the type's, and the literal is
rejected if it is not. -/
def ReadsExactly (permissiveNan : Bool) (t : IntType) (l : Literal) (rest : Bytes) (s : State) :
    Prop :=
  if l.Fits t then ∃ s', readInteger permissiveNan t s = .ok (l.value, s') ∧ s'.input = rest
  else ∃ e, readInteger permissiveNan t s = .error e

/-! ### The scanner -/

/-- A computation succeeds and leaves the given text. -/
def Reads {α : Type} (x : M α) (s : State) (a : α) (rest : Bytes) : Prop :=
  ∃ s', x s = .ok (a, s') ∧ s'.input = rest

section Reads

variable {α β : Type} {x : M α} {f : α → M β} {a : α} {b : β} {rest' : Bytes} {c : UInt8}

theorem Reads.bind (hx : Reads x s a rest)
    (hf : ∀ s', s'.input = rest → Reads (f a) s' b rest') : Reads (x >>= f) s b rest' := by
  obtain ⟨s₁, hok, hs₁⟩ := hx
  obtain ⟨s₂, hok', hs₂⟩ := hf s₁ hs₁
  exact ⟨s₂, by rw [bind_ok hok, hok'], hs₂⟩

theorem reads_pure (hs : s.input = rest) : Reads (pure a : M α) s a rest := ⟨s, rfl, hs⟩

theorem reads_peek (hs : s.input = rest) : Reads peek s rest.head? rest :=
  ⟨s, by rw [peek, hs], hs⟩

theorem reads_get (hs : s.input = c :: rest) : Reads get s c rest :=
  ⟨_, get_of_cons hs, input_next _ _ _⟩

/-- A scanner takes the characters that it accepts. -/
theorem reads_readWhileLoop {accept : UInt8 → Bool} {chars : Bytes} : ∀ {n : ℕ} {s : State},
    s.input = chars ++ rest → s.input.length ≤ n → (∀ c ∈ chars, accept c = true) →
    (∀ c ∈ rest.head?, accept c = false) → Reads (readWhileLoop accept n) s chars rest := by
  induction chars with
  | nil =>
    intro n s hs hn _ hrest
    cases n with
    | zero => exact reads_pure hs
    | succ n =>
      refine (reads_peek hs).bind fun s hs => ?_
      cases rest with
      | nil => exact reads_pure hs
      | cons c rest =>
        dsimp only [List.nil_append, List.head?_cons]
        rw [hrest c rfl, if_neg Bool.false_ne_true]
        exact reads_pure hs
  | cons c chars ih =>
    intro n s hs hn haccept hrest
    rw [List.cons_append] at hs
    obtain ⟨hc, hchars⟩ := List.forall_mem_cons.mp haccept
    rw [hs, List.length_cons] at hn
    obtain ⟨n, rfl⟩ : ∃ m, n = m + 1 := ⟨n - 1, by omega⟩
    refine (reads_peek hs).bind fun s hs => ?_
    dsimp only [List.head?_cons]
    rw [if_pos hc]
    refine (reads_get hs).bind fun s hs => ?_
    exact (ih hs (by rw [hs]; omega) hchars hrest).bind fun s hs => reads_pure hs

theorem reads_readWhile {accept : UInt8 → Bool} {chars : Bytes} (hs : s.input = chars ++ rest)
    (hchars : ∀ c ∈ chars, accept c = true) (hrest : ∀ c ∈ rest.head?, accept c = false) :
    Reads (readWhile accept) s chars rest :=
  reads_readWhileLoop hs le_rfl hchars hrest

end Reads

/-! ### The text of a literal -/

/-- The digits of each base, as the scanner tells them. -/
theorem isDigit_eq (c : UInt8) :
    Base.isDigit 10 c = decide (0x30 ≤ c ∧ c ≤ 0x39) ∧
      Base.isDigit 2 c = decide (c = 0x30 ∨ c = 0x31) ∧
      Base.isDigit 8 c = decide (0x30 ≤ c ∧ c ≤ 0x37) ∧
      Base.isDigit 16 c = decide ((0x30 ≤ c ∧ c ≤ 0x39) ∨ (0x61 ≤ c ∧ c ≤ 0x66) ∨
        (0x41 ≤ c ∧ c ≤ 0x46)) := by
  have h : ∀ n : Fin 256, let c := UInt8.ofNat n.val
      Base.isDigit 10 c = decide (0x30 ≤ c ∧ c ≤ 0x39) ∧
      Base.isDigit 2 c = decide (c = 0x30 ∨ c = 0x31) ∧
      Base.isDigit 8 c = decide (0x30 ≤ c ∧ c ≤ 0x37) ∧
      Base.isDigit 16 c = decide ((0x30 ≤ c ∧ c ≤ 0x39) ∨ (0x61 ≤ c ∧ c ≤ 0x66) ∨
        (0x41 ≤ c ∧ c ≤ 0x46)) := by decide +kernel
  have hc := h ⟨c.toNat, c.toNat_lt⟩
  rwa [UInt8.ofNat_toNat] at hc

/-- What the scanner copies of a literal. -/
def Literal.copied (l : Literal) : Bytes := overwrite l.radix.initial l.digits

/-- The digits behind a marker are put over the text that was there. -/
theorem reads_overwrite {accept : UInt8 → Bool} {initial digits : Bytes}
    (hs : s.input = digits ++ rest) (hdigits : ∀ c ∈ digits, accept c = true)
    (hrest : ∀ c ∈ rest.head?, accept c = false) :
    Reads (readWhile accept >>= fun chars => pure (overwrite initial chars)) s
      (overwrite initial digits) rest :=
  (reads_readWhile hs hdigits hrest).bind fun _ hs => reads_pure hs

namespace Literal

variable {l : Literal}

/-- The scanner of a base takes the digits, and no more. -/
theorem reads_scan (hrest : l.EndsBefore rest) (hs : s.input = l.digits ++ rest) :
    Reads l.radix.scan s l.copied rest := by
  have hdigits := l.isDigit
  have hstop : ∀ c ∈ rest.head?, Base.isDigit l.radix.base c = false := fun c hc => (hrest c hc).1
  unfold copied
  cases hradix : l.radix with
  | decimal =>
    rw [hradix] at hdigits hstop
    rw [Radix.initial, overwrite, List.drop_nil, List.append_nil]
    exact reads_readWhile hs (fun c hc => (isDigit_eq c).1 ▸ hdigits c hc)
      fun c hc => (isDigit_eq c).1 ▸ hstop c hc
  | binary =>
    rw [hradix] at hdigits hstop
    exact reads_overwrite hs (fun c hc => (isDigit_eq c).2.1 ▸ hdigits c hc)
      fun c hc => (isDigit_eq c).2.1 ▸ hstop c hc
  | octal =>
    rw [hradix] at hdigits hstop
    exact reads_overwrite hs (fun c hc => (isDigit_eq c).2.2.1 ▸ hdigits c hc)
      fun c hc => (isDigit_eq c).2.2.1 ▸ hstop c hc
  | hex =>
    rw [hradix] at hdigits hstop
    exact reads_overwrite hs (fun c hc => (isDigit_eq c).2.2.2 ▸ hdigits c hc)
      fun c hc => (isDigit_eq c).2.2.2 ▸ hstop c hc

/-- A text whose first character decides for a decimal literal. -/
theorem reads_decimalLiteral {c : UInt8} {digits : Bytes} (initialZero : Bool)
    (hfirst : initialZero = false → s.input.head? = some c) (hc : c ≠ 0x2e)
    (hinteger : Reads (readDecimalIntegerLiteral initialZero) s digits rest)
    (hnext : ∀ c ∈ rest.head?, c ∉ [0x2e, 0x65, 0x45]) :
    Reads (readDecimalLiteral initialZero) s digits rest := by
  have hrest : rest.head? ≠ some 0x2e ∧ ¬(rest.head? = some 0x65 ∨ rest.head? = some 0x45) :=
    ⟨fun h => hnext _ h (by decide), fun h => h.elim (fun h => hnext _ h (by decide))
      fun h => hnext _ h (by decide)⟩
  have htail : Reads (readDecimalIntegerLiteral initialZero >>= fun integer => do
      let next ← peek
      if next = some 0x2e then
        let point ← get
        let digits ← readDecimalDigits
        return integer ++ point :: digits ++ (← readExponentPart)
      else if next = some 0x65 ∨ next = some 0x45 then return integer ++ (← readExponentPart)
      else return integer) s digits rest := by
    refine hinteger.bind fun s hs => (reads_peek hs).bind fun s hs => ?_
    rw [if_neg hrest.1, if_neg hrest.2]
    exact reads_pure hs
  unfold readDecimalLiteral
  cases initialZero with
  | false =>
    have hpeek : peek s = .ok (some c, s) := by rw [peek, hfirst rfl]
    obtain ⟨s', hok, hs'⟩ := htail
    refine ⟨s', ?_, hs'⟩
    dsimp only
    rw [if_neg Bool.false_ne_true, bind_ok hpeek, if_neg (fun h => hc (Option.some.inj h)), ← hok]
  | true =>
    rw [if_pos rfl]
    exact htail

theorem copied_of_decimal (hradix : l.radix = .decimal) : l.copied = l.digits := by
  rw [copied, hradix, Radix.initial, overwrite, List.drop_nil, List.append_nil]

/-- A literal without a marker. -/
theorem reads_decimal (hradix : l.radix = .decimal) (hrest : l.EndsBefore rest)
    (hs : s.input = l.digits ++ rest) :
    Reads (readNumericLiteral permissiveNan) s ⟨l.copied, 0⟩ rest := by
  have hdigits := l.isDigit
  have hnext : ∀ c ∈ rest.head?, c ∉ [0x2e, 0x65, 0x45] := fun c hc => (hrest c hc).2.1 hradix
  have hscan := fun s hs => reads_scan (l := l) (s := s) hrest hs
  rw [copied_of_decimal hradix]
  rw [copied_of_decimal hradix, hradix] at hscan
  rw [hradix] at hdigits
  obtain ⟨d, ds, hds⟩ := List.exists_cons_of_ne_nil l.digits_ne_nil
  have hd : 0x30 ≤ d ∧ d ≤ 0x39 :=
    of_decide_eq_true ((isDigit_eq d).1 ▸ hdigits d (hds ▸ List.mem_cons_self))
  have hne : ∀ c : UInt8, ¬(0x30 ≤ c ∧ c ≤ 0x39) → some d ≠ some c :=
    fun c hc h => hc (Option.some.inj h ▸ hd)
  unfold readNumericLiteral
  have hpeek : Reads peek s (some d) (l.digits ++ rest) := by
    have h := reads_peek hs
    rwa [hds] at h ⊢
  refine hpeek.bind fun s hs => ?_
  rw [if_neg (hne _ (by decide)), if_neg (hne _ (by decide)),
    if_neg (fun h => hne _ (by decide) h.2)]
  by_cases hzero : d = 0x30
  · -- the zero is taken before it is known to be the literal
    subst hzero
    have hone : l.digits = [0x30] := l.eq_zero hradix (by rw [hds]; rfl)
    have hletters : ∀ c ∈ [0x62, 0x42, 0x6f, 0x4f, 0x78, 0x58], rest.head? ≠ some c :=
      fun c hc h => (hrest c h).2.2 hradix hone hc
    rw [hone, List.singleton_append] at hs
    rw [if_neg (by simp), hone]
    refine (reads_get hs).bind fun s hs => (reads_peek hs).bind fun s hs => ?_
    rw [if_neg (not_or_intro (hletters _ (by decide)) (hletters _ (by decide))),
      if_neg (not_or_intro (hletters _ (by decide)) (hletters _ (by decide))),
      if_neg (not_or_intro (hletters _ (by decide)) (hletters _ (by decide)))]
    refine (reads_decimalLiteral true nofun (c := 0x30) (by decide) (reads_pure hs)
      hnext).bind fun s hs => reads_pure hs
  · rw [if_pos (fun h => hzero (Option.some.inj h))]
    refine (reads_decimalLiteral false (c := d) (fun _ => ?_) (fun h => ?_) (hscan s hs) hnext).bind
      fun s hs => reads_pure hs
    · rw [hs, hds]
      rfl
    · exact hne 0x2e (by decide) (congrArg some h)

/-- A literal with a marker. -/
theorem reads_marked {radix : Radix} {marker tail text : Bytes} (hmarker : marker ∈ radix.markers)
    (hradix : radix ≠ .decimal) (hs : s.input = marker ++ tail)
    (hscan : ∀ s, s.input = tail → Reads radix.scan s text rest) :
    Reads (readNumericLiteral permissiveNan) s ⟨text, radix.stoBase⟩ rest := by
  obtain ⟨letter, rfl⟩ : ∃ letter, marker = [0x30, letter] := by
    cases radix with
    | decimal => exact absurd rfl hradix
    | binary | octal | hex =>
      rcases List.mem_pair.mp hmarker with h | h
      · exact ⟨_, h⟩
      · exact ⟨_, h⟩
  unfold readNumericLiteral
  refine (reads_peek hs).bind fun s hs => ?_
  rw [if_neg (by simp), if_neg (by simp), if_neg (by simp), if_neg (by simp)]
  refine (reads_get hs).bind fun s hs => (reads_peek hs).bind fun s hs => ?_
  have hread : Reads (get >>= fun _ => radix.scan >>= fun digits =>
      pure (⟨digits, radix.stoBase⟩ : Number)) s ⟨text, radix.stoBase⟩ rest :=
    (reads_get hs).bind fun s hs => (hscan s hs).bind fun s hs => reads_pure hs
  cases radix with
  | decimal => exact absurd rfl hradix
  | binary =>
    rw [if_pos (by simpa [Radix.markers] using hmarker)]
    exact hread
  | octal =>
    have hletter : letter = 0x6f ∨ letter = 0x4f := by simpa [Radix.markers] using hmarker
    rw [if_neg (by rcases hletter with rfl | rfl <;> simp), if_pos (by simpa using hletter)]
    exact hread
  | hex =>
    have hletter : letter = 0x78 ∨ letter = 0x58 := by simpa [Radix.markers] using hmarker
    rw [if_neg (by rcases hletter with rfl | rfl <;> simp),
      if_neg (by rcases hletter with rfl | rfl <;> simp), if_pos (by simpa using hletter)]
    exact hread

/-- No literal starts with a sign, but for its own. -/
theorem exists_head (l : Literal) (rest : Bytes) :
    ∃ c, (l.marker ++ (l.digits ++ rest)).head? = some c ∧ 0x30 ≤ c ∧ c ≤ 0x39 := by
  have hmarker := l.marker_mem
  have hdigits := l.isDigit
  obtain ⟨d, ds, hds⟩ := List.exists_cons_of_ne_nil l.digits_ne_nil
  cases hradix : l.radix with
  | decimal =>
    rw [hradix] at hmarker hdigits
    rw [Radix.markers, List.mem_singleton] at hmarker
    refine ⟨d, by rw [hmarker, hds]; rfl, ?_⟩
    exact of_decide_eq_true ((isDigit_eq d).1 ▸ hdigits d (hds ▸ List.mem_cons_self))
  | binary | octal | hex =>
    rw [hradix] at hmarker
    rcases List.mem_pair.mp hmarker with h | h
    · exact ⟨0x30, by rw [h]; rfl, by decide, by decide⟩
    · exact ⟨0x30, by rw [h]; rfl, by decide, by decide⟩

/-- **What the scanner makes of a literal.** -/
theorem reads_readNumber (permissiveNan : Bool) (hrest : l.EndsBefore rest) (hs : s.input = l.text ++ rest) :
    Reads (readNumber permissiveNan) s ⟨l.sign ++ l.copied, l.radix.stoBase⟩ rest := by
  have hliteral : ∀ s, s.input = l.marker ++ (l.digits ++ rest) →
      Reads (readNumericLiteral permissiveNan) s ⟨l.copied, l.radix.stoBase⟩ rest := by
    intro s hs
    by_cases hradix : l.radix = .decimal
    · have hmarker := l.marker_mem
      rw [hradix, Radix.markers, List.mem_singleton] at hmarker
      rw [hmarker, List.nil_append] at hs
      rw [hradix]
      exact reads_decimal hradix hrest hs
    · exact reads_marked l.marker_mem hradix hs fun s hs => reads_scan hrest hs
  have hsign := l.sign_mem
  rw [text, List.append_assoc, List.append_assoc] at hs
  unfold readNumber
  simp only [List.mem_cons, List.not_mem_nil, or_false] at hsign
  rcases hsign with hsign | hsign | hsign
  · rw [hsign] at hs ⊢
    obtain ⟨c, hc, hlo, hhi⟩ := l.exists_head rest
    refine (reads_peek hs).bind fun s hs => ?_
    rw [List.nil_append, hc, if_neg]
    · exact hliteral s hs
    · rintro (h | h)
      · exact absurd (Option.some.inj h ▸ hlo) (by decide)
      · exact absurd (Option.some.inj h ▸ hlo) (by decide)
  · rw [hsign] at hs ⊢
    refine (reads_peek hs).bind fun s hs => ?_
    rw [if_pos (by simp)]
    exact (reads_get hs).bind fun s hs => (hliteral s hs).bind fun s hs => reads_pure hs
  · rw [hsign] at hs ⊢
    refine (reads_peek hs).bind fun s hs => ?_
    rw [if_pos (by simp)]
    exact (reads_get hs).bind fun s hs => (hliteral s hs).bind fun s hs => reads_pure hs

/-! ### The conversion -/

/-- What stays behind the digits in the copy of a literal. -/
def left (l : Literal) : Bytes := l.radix.initial.drop l.digits.length

theorem left_eq_nil_iff : l.left = [] ↔ ¬l.Shortened := by
  have hmarker := l.marker_mem
  have hlen := List.length_pos_of_ne_nil l.digits_ne_nil
  rw [left, List.drop_eq_nil_iff, Shortened]
  cases hradix : l.radix with
  | decimal =>
    rw [hradix, Radix.markers, List.mem_singleton] at hmarker
    exact iff_of_true (Nat.zero_le _) fun h => h.1 hmarker
  | binary | octal | hex =>
    rw [hradix] at hmarker
    have hne : l.marker ≠ [] := by
      rcases List.mem_pair.mp hmarker with h | h
      · rw [h]
        exact List.cons_ne_nil _ _
      · rw [h]
        exact List.cons_ne_nil _ _
    show 2 ≤ l.digits.length ↔ _
    rw [and_iff_right hne]
    omega

/-- At most the letter stays. -/
theorem left_subset (l : Literal) : l.left ⊆ l.radix.initial.drop 1 := by
  have hlen := List.length_pos_of_ne_nil l.digits_ne_nil
  have hsplit : l.left = (l.radix.initial.drop 1).drop (l.digits.length - 1) := by
    rw [left, List.drop_drop]
    congr 1
    omega
  rw [hsplit]
  exact List.drop_subset _ _

/-- The digits are not taken for a prefix, or for one of no effect. -/
theorem takePrefix_copied (l : Literal) :
    ∃ base', takePrefix l.radix.stoBase l.copied = (base', l.copied) ∧
      (∀ c ∈ l.digits, Base.isDigit base' c = true) ∧
      (∀ c ∈ l.left.head?, Base.isDigit base' c = false) ∧
      digitsValue base' l.digits = l.magnitude := by
  have hdigits := l.isDigit
  have hleft : ∀ c ∈ l.left.head?, c ∈ l.radix.initial.drop 1 :=
    fun c hc => l.left_subset (List.mem_of_mem_head? hc)
  unfold magnitude
  cases hradix : l.radix with
  | decimal =>
    have hstop : ∀ c ∈ l.left.head?, False := by
      intro c hc
      have hmem := hleft c hc
      rw [hradix] at hmem
      cases hmem
    rw [copied_of_decimal hradix]
    by_cases hzero : l.digits.head? = some 0x30
    · -- zero is read as an octal number
      rw [l.eq_zero hradix hzero]
      exact ⟨8, rfl, fun c hc => List.mem_singleton.mp hc ▸ rfl,
        fun c hc => (hstop c hc).elim, rfl⟩
    · rw [hradix] at hdigits
      refine ⟨10, ?_, hdigits, fun c hc => (hstop c hc).elim, rfl⟩
      have hx : isHexPrefix l.digits = false := by
        rcases hd : l.digits with _ | ⟨zero, _ | ⟨x, _ | ⟨c, t⟩⟩⟩
        · rfl
        · rfl
        · rfl
        · have hne : zero ≠ 0x30 := fun h => hzero (by rw [hd, h]; rfl)
          simp [isHexPrefix, hne]
      show takePrefix 0 l.digits = _
      rw [takePrefix_zero, hx, if_neg Bool.false_ne_true, if_neg hzero]
  | binary =>
    rw [hradix] at hdigits hleft
    refine ⟨2, ?_, hdigits, fun c hc => ?_, rfl⟩
    · rw [takePrefix, if_neg (fun h => absurd h.1 (by decide)), if_neg (by decide)]
      rfl
    · rw [List.mem_singleton.mp (hleft c hc)]
      decide
  | octal =>
    rw [hradix] at hdigits hleft
    refine ⟨8, ?_, hdigits, fun c hc => ?_, rfl⟩
    · rw [takePrefix, if_neg (fun h => absurd h.1 (by decide)), if_neg (by decide)]
      rfl
    · rw [List.mem_singleton.mp (hleft c hc)]
      decide
  | hex =>
    rw [hradix] at hdigits hleft
    refine ⟨16, ?_, hdigits, fun c hc => ?_, rfl⟩
    · have hx : isHexPrefix l.copied = false := by
        rw [copied, hradix]
        rcases hd : l.digits with _ | ⟨d, _ | ⟨x, t⟩⟩
        · rfl
        · rfl
        · have hxdigit : Base.isDigit 16 x = true := hdigits x (by rw [hd]; simp)
          refine isHexPrefix_eq_false fun c hc => ?_
          obtain rfl : x = c := Option.some.inj hc
          constructor
          · rintro rfl
            exact absurd hxdigit (by decide)
          · rintro rfl
            exact absurd hxdigit (by decide)
      show takePrefix 16 l.copied = _
      rw [takePrefix, hx, if_neg (fun h => absurd h.2 Bool.false_ne_true), if_neg (by decide)]
    · rw [List.mem_singleton.mp (hleft c hc)]
      decide

/-- **The C library finds the digits in the copy.** -/
theorem parseNumber_copied (l : Literal) :
    parseNumber l.radix.stoBase (l.sign ++ l.copied)
      = some (decide (l.sign = [0x2d]), l.magnitude, l.left) := by
  obtain ⟨base', hbase, hdigits, hleft, hvalue⟩ := l.takePrefix_copied
  rw [← hvalue]
  exact parseNumber_digits l.sign_mem hdigits l.digits_ne_nil hleft hbase

/-- How many characters the number has. -/
theorem length_sub_left (l : Literal) :
    (l.sign ++ l.copied).length - l.left.length = (l.sign ++ l.copied).length ↔ ¬l.Shortened := by
  have hlen := List.length_pos_of_ne_nil l.digits_ne_nil
  have hle : l.left.length < (l.sign ++ l.copied).length := by
    rw [copied, overwrite, ← left, List.length_append, List.length_append]
    omega
  rw [← left_eq_nil_iff, ← List.length_eq_zero_iff]
  omega

end Literal

/-! ### Integers -/

section Integers

variable {l : Literal}

/-- A signed integer is the value of the literal. -/
theorem readJson5SignedInteger_spec (permissiveNan : Bool) (hrest : l.EndsBefore rest)
    (hs : s.input = l.text ++ rest) :
    if l.Shortened ∨ l.value < -2 ^ 63 ∨ l.value > 2 ^ 63 - 1 then
      ∃ e, readJson5SignedInteger permissiveNan s = .error e
    else Reads (readJson5SignedInteger permissiveNan) s l.value rest := by
  obtain ⟨s', hread, hs'⟩ := Literal.reads_readNumber permissiveNan hrest hs
  have hvalue : (if decide (l.sign = [0x2d]) = true then -(l.magnitude : ℤ) else l.magnitude)
      = l.value := by
    rw [Literal.value]
    exact if_congr decide_eq_true_iff rfl rfl
  have hsto : stoll l.radix.stoBase (l.sign ++ l.copied) =
      if l.value < -2 ^ 63 ∨ l.value > 2 ^ 63 - 1 then .error .outOfRange
      else .ok (l.value, (l.sign ++ l.copied).length - l.left.length) := by
    unfold stoll
    rw [l.parseNumber_copied]
    dsimp only
    rw [hvalue]
  have heq : readJson5SignedInteger permissiveNan s = _ := bind_ok hread
  dsimp only at heq
  rw [hsto] at heq
  by_cases hrange : l.value < -2 ^ 63 ∨ l.value > 2 ^ 63 - 1
  · rw [if_pos hrange] at heq
    rw [if_pos (Or.inr hrange)]
    exact ⟨_, heq⟩
  · rw [if_neg hrange] at heq
    dsimp only at heq
    by_cases hshort : l.Shortened
    · rw [if_pos (fun h => l.length_sub_left.mp h hshort)] at heq
      rw [if_pos (Or.inl hshort)]
      exact ⟨_, heq⟩
    · rw [if_neg (not_not_intro (l.length_sub_left.mpr hshort))] at heq
      rw [if_neg (not_or_intro hshort hrange)]
      exact ⟨s', heq, hs'⟩

/-- The value of a literal for `std::stoull`. -/
def Literal.unsigned (l : Literal) : ℕ :=
  if l.sign = [0x2d] then (2 ^ 64 - l.magnitude) % 2 ^ 64 else l.magnitude

/-- An unsigned one is the value modulo `2 ^ 64`. -/
theorem readJson5UnsignedInteger_spec (permissiveNan : Bool) (hrest : l.EndsBefore rest)
    (hs : s.input = l.text ++ rest) :
    if l.Shortened ∨ 2 ^ 64 ≤ l.magnitude then
      ∃ e, readJson5UnsignedInteger permissiveNan s = .error e
    else Reads (readJson5UnsignedInteger permissiveNan) s l.unsigned rest := by
  obtain ⟨s', hread, hs'⟩ := Literal.reads_readNumber permissiveNan hrest hs
  have hsto : stoull l.radix.stoBase (l.sign ++ l.copied) =
      if l.magnitude ≥ 2 ^ 64 then .error .outOfRange
      else .ok (l.unsigned, (l.sign ++ l.copied).length - l.left.length) := by
    unfold stoull Literal.unsigned
    rw [l.parseNumber_copied]
    simp only [decide_eq_true_eq]
  have heq : readJson5UnsignedInteger permissiveNan s = _ := bind_ok hread
  dsimp only at heq
  rw [hsto] at heq
  by_cases hrange : 2 ^ 64 ≤ l.magnitude
  · rw [if_pos hrange] at heq
    rw [if_pos (Or.inr hrange)]
    exact ⟨_, heq⟩
  · rw [if_neg hrange] at heq
    dsimp only at heq
    by_cases hshort : l.Shortened
    · rw [if_pos (fun h => l.length_sub_left.mp h hshort)] at heq
      rw [if_pos (Or.inl hshort)]
      exact ⟨_, heq⟩
    · rw [if_neg (not_not_intro (l.length_sub_left.mpr hshort))] at heq
      rw [if_neg (not_or_intro hshort hrange)]
      exact ⟨s', heq, hs'⟩

theorem checkLimit_of_mem {t : IntType} {value : ℤ} (h : t.min ≤ value ∧ value ≤ t.max)
    (s : State) : checkLimit t value s = .ok (value, s) := by
  rw [checkLimit, if_neg (by omega)]
  rfl

theorem checkLimit_of_not_mem {t : IntType} {value : ℤ} (h : ¬(t.min ≤ value ∧ value ≤ t.max))
    (s : State) : ∃ e, checkLimit t value s = .error e := by
  rw [checkLimit, if_pos (by omega)]
  exact ⟨_, rfl⟩

/-- The values of a signed type are in the range of `std::stoll`. -/
theorem IntType.mem_of_signed {t : IntType} {value : ℤ} (ht : t.signed = true)
    (h : t.min ≤ value ∧ value ≤ t.max) : ¬(value < -2 ^ 63 ∨ value > 2 ^ 63 - 1) := by
  obtain ⟨signed, bits, hbits⟩ := t
  obtain rfl : signed = true := ht
  rw [IntType.min, IntType.max, if_pos rfl, if_pos rfl] at h
  simp only [List.mem_cons, List.not_mem_nil, or_false] at hbits
  rcases hbits with rfl | rfl | rfl | rfl
  · norm_num at h ⊢
    omega
  · norm_num at h ⊢
    omega
  · norm_num at h ⊢
    omega
  · norm_num at h ⊢
    omega

theorem IntType.min_max_of_unsigned {t : IntType} (ht : t.signed = false) :
    t.min = 0 ∧ 0 ≤ t.max ∧ t.max < 2 ^ 64 := by
  obtain ⟨signed, bits, hbits⟩ := t
  obtain rfl : signed = false := ht
  rw [IntType.min, IntType.max, if_neg Bool.false_ne_true, if_neg Bool.false_ne_true]
  simp only [List.mem_cons, List.not_mem_nil, or_false] at hbits
  rcases hbits with rfl | rfl | rfl | rfl
  · norm_num
  · norm_num
  · norm_num
  · norm_num

/-- What is read into a type, if the literal is not rejected. -/
def Literal.outcome (t : IntType) (l : Literal) : Option ℤ :=
  if l.Shortened then none
  else if t.signed then if l.Fits t then some l.value else none
  else if 2 ^ 64 ≤ l.magnitude then none
  else if (l.unsigned : ℤ) ≤ t.max then some l.unsigned else none

/-- What an integer is read as, into a signed type. -/
theorem readInteger_of_signed {t : IntType} (ht : t.signed = true) (hrest : l.EndsBefore rest)
    (hs : s.input = l.text ++ rest) :
    match l.outcome t with
    | some value => Reads (readInteger permissiveNan t) s value rest
    | none => ∃ e, readInteger permissiveNan t s = .error e := by
  have hspec := readJson5SignedInteger_spec permissiveNan hrest hs
  have hread : readInteger permissiveNan t
      = readJson5SignedInteger permissiveNan >>= checkLimit t := by
    rw [readInteger, if_pos ht]
  rw [hread, Literal.outcome, if_pos ht]
  by_cases hshort : l.Shortened
  · rw [if_pos (Or.inl hshort)] at hspec
    obtain ⟨e, he⟩ := hspec
    rw [if_pos hshort]
    exact ⟨e, bind_error he⟩
  · rw [if_neg hshort]
    by_cases hfits : l.Fits t
    · rw [if_neg (not_or_intro hshort (t.mem_of_signed ht hfits))] at hspec
      rw [if_pos hfits]
      exact hspec.bind fun s hs => ⟨s, checkLimit_of_mem hfits s, hs⟩
    · rw [if_neg hfits]
      split_ifs at hspec with hrange
      · obtain ⟨e, he⟩ := hspec
        exact ⟨e, bind_error he⟩
      · obtain ⟨s', hok, -⟩ := hspec
        obtain ⟨e, he⟩ := checkLimit_of_not_mem hfits s'
        exact ⟨e, by rw [bind_ok hok, he]⟩

theorem readInteger_of_unsigned {t : IntType} (ht : t.signed = false)
    (hrest : l.EndsBefore rest) (hs : s.input = l.text ++ rest) :
    match l.outcome t with
    | some value => Reads (readInteger permissiveNan t) s value rest
    | none => ∃ e, readInteger permissiveNan t s = .error e := by
  have hspec := readJson5UnsignedInteger_spec permissiveNan hrest hs
  have hread : readInteger permissiveNan t
      = readJson5UnsignedInteger permissiveNan >>= fun value => checkLimit t value := by
    rw [readInteger, if_neg (by rw [ht]; decide)]
  rw [hread, Literal.outcome, if_neg (c := t.signed = true) (by rw [ht]; decide)]
  by_cases hshort : l.Shortened
  · rw [if_pos (Or.inl hshort)] at hspec
    obtain ⟨e, he⟩ := hspec
    rw [if_pos hshort]
    exact ⟨e, bind_error he⟩
  · rw [if_neg hshort]
    by_cases hlarge : 2 ^ 64 ≤ l.magnitude
    · rw [if_pos (Or.inr hlarge)] at hspec
      obtain ⟨e, he⟩ := hspec
      rw [if_pos hlarge]
      exact ⟨e, bind_error he⟩
    · rw [if_neg (not_or_intro hshort hlarge)] at hspec
      rw [if_neg hlarge]
      by_cases hle : (l.unsigned : ℤ) ≤ t.max
      · have hmem : t.min ≤ (l.unsigned : ℤ) ∧ (l.unsigned : ℤ) ≤ t.max :=
          ⟨(t.min_max_of_unsigned ht).1 ▸ Int.natCast_nonneg _, hle⟩
        rw [if_pos hle]
        exact hspec.bind fun s hs => ⟨s, checkLimit_of_mem hmem s, hs⟩
      · rw [if_neg hle]
        obtain ⟨s', hok, -⟩ := hspec
        obtain ⟨e, he⟩ := checkLimit_of_not_mem (fun h => hle h.2) s'
        exact ⟨e, by rw [bind_ok hok, he]⟩

/-- A literal is read exactly if the outcome is the right one. -/
theorem readsExactly_iff_outcome {t : IntType} (hrest : l.EndsBefore rest)
    (hs : s.input = l.text ++ rest) :
    ReadsExactly permissiveNan t l rest s ↔
      l.outcome t = if l.Fits t then some l.value else none := by
  have hspec : match l.outcome t with
      | some value => Reads (readInteger permissiveNan t) s value rest
      | none => ∃ e, readInteger permissiveNan t s = .error e := by
    cases ht : t.signed with
    | true => exact readInteger_of_signed ht hrest hs
    | false => exact readInteger_of_unsigned ht hrest hs
  unfold ReadsExactly
  cases houtcome : l.outcome t with
  | some value =>
    rw [houtcome] at hspec
    obtain ⟨s', hok, hs'⟩ := hspec
    split_ifs with hfits
    · constructor
      · rintro ⟨s'', hok', -⟩
        rw [hok] at hok'
        cases hok'
        rfl
      · intro heq
        exact ⟨s', by rw [hok, Option.some.inj heq], hs'⟩
    · exact iff_of_false (fun ⟨e, he⟩ => nomatch hok.symm.trans he) nofun
  | none =>
    rw [houtcome] at hspec
    obtain ⟨e, he⟩ := hspec
    split_ifs with hfits
    · exact iff_of_false (fun ⟨s', hok, _⟩ => nomatch he.symm.trans hok) nofun
    · exact iff_of_true ⟨e, he⟩ rfl

/-- The outcome of a literal for an unsigned type. -/
theorem outcome_of_unsigned {t : IntType} (ht : t.signed = false) (hshort : ¬l.Shortened) :
    (l.outcome t = if l.Fits t then some l.value else none) ↔ ¬l.Wraps t := by
  obtain ⟨hmin, hpos, hmax⟩ := t.min_max_of_unsigned ht
  have hfits : l.Fits t ↔ 0 ≤ l.value ∧ l.value ≤ t.max := by rw [Literal.Fits, hmin]
  rw [Literal.outcome, if_neg hshort, if_neg (c := t.signed = true) (by rw [ht]; decide),
    Literal.Wraps, and_iff_right ht]
  by_cases hsign : l.sign = [0x2d]
  · have hvalue : l.value = -l.magnitude := if_pos hsign
    have hunsigned : l.unsigned = (2 ^ 64 - l.magnitude) % 2 ^ 64 := if_pos hsign
    rw [hvalue] at hfits
    rw [and_iff_right hsign, hvalue, hunsigned]
    by_cases hzero : l.magnitude = 0
    · -- minus zero is zero
      rw [hzero] at hfits ⊢
      have hmem : l.Fits t := hfits.mpr (by norm_num; exact hpos)
      rw [if_neg (by norm_num), if_pos (by norm_num; exact hpos), if_pos hmem]
      simp
    · have hnot : ¬l.Fits t := fun h => hzero (by have := (hfits.mp h).1; omega)
      rw [if_neg hnot]
      by_cases hlarge : 2 ^ 64 ≤ l.magnitude
      · rw [if_pos hlarge]
        exact iff_of_true rfl fun h => absurd h.2.1 (not_lt.mpr hlarge)
      · rw [if_neg hlarge, Nat.mod_eq_of_lt (by omega), Nat.cast_sub (by omega)]
        push_cast
        split_ifs with hle
        · exact iff_of_false nofun fun h => h ⟨by omega, by omega, hle⟩
        · exact iff_of_true rfl fun h => hle h.2.2
  · have hvalue : l.value = l.magnitude := if_neg hsign
    have hunsigned : l.unsigned = l.magnitude := if_neg hsign
    rw [hvalue] at hfits
    rw [hvalue, hunsigned, iff_true_right (fun h => hsign h.1)]
    by_cases hle : (l.magnitude : ℤ) ≤ t.max
    · rw [if_neg (by omega), if_pos hle, if_pos (hfits.mpr ⟨by omega, hle⟩)]
    · rw [if_neg hle, if_neg (fun h => hle (hfits.mp h).2)]
      exact ite_self _

/-- **When a literal is read as it should be**: a literal of one digit behind the marker of its base
exactly if its value is not one of the type's, any other exactly if it is not a negative one that
becomes one of an unsigned type's. -/
theorem readsExactly_iff (permissiveNan : Bool) (t : IntType) (l : Literal)
    (hrest : l.EndsBefore rest) (hs : s.input = l.text ++ rest) :
    ReadsExactly permissiveNan t l rest s ↔
      (l.Shortened → ¬l.Fits t) ∧ (¬l.Shortened → ¬l.Wraps t) := by
  rw [readsExactly_iff_outcome hrest hs]
  by_cases hshort : l.Shortened
  · rw [Literal.outcome, if_pos hshort, and_iff_left (fun h => absurd hshort h)]
    split_ifs with hfits
    · exact iff_of_false nofun fun h => h hshort hfits
    · exact iff_of_true rfl fun _ => hfits
  · rw [and_iff_right (fun h => absurd h hshort), imp_iff_right hshort]
    cases ht : t.signed with
    | false => exact outcome_of_unsigned ht hshort
    | true =>
      rw [Literal.outcome, if_neg hshort, if_pos ht]
      exact iff_of_true rfl fun h => nomatch ht.symm.trans h.1

/-- `-0xff`, before the end of an object, into an `int16_t`. -/
def minusFf : Literal where
  sign := [0x2d]
  radix := .hex
  marker := [0x30, 0x78]
  digits := [0x66, 0x66]
  sign_mem := by decide
  marker_mem := by decide
  digits_ne_nil := by decide
  isDigit := by simp [Base.isDigit, digitValue, Radix.base]
  eq_zero := by decide

theorem readsExactly_iff_minusFf :
    ReadsExactly false ⟨true, 16, by decide⟩ minusFf [0x7d] ⟨minusFf.text ++ [0x7d], 1, 0⟩ ↔
      (minusFf.Shortened → ¬minusFf.Fits ⟨true, 16, by decide⟩) ∧
        (¬minusFf.Shortened → ¬minusFf.Wraps ⟨true, 16, by decide⟩) :=
  readsExactly_iff false ⟨true, 16, by decide⟩ minusFf
    (by simp [Literal.EndsBefore, Base.isDigit, digitValue, minusFf]) rfl

/-- `0x1`. -/
def hexOne : Literal where
  sign := []
  radix := .hex
  marker := [0x30, 0x78]
  digits := [0x31]
  sign_mem := by decide
  marker_mem := by decide
  digits_ne_nil := by decide
  isDigit := by simp [Base.isDigit, digitValue, Radix.base]
  eq_zero := by decide

/-- `0x1` is copied as `1x`, and rejected. -/
theorem not_readsExactly : ¬∀ (permissiveNan : Bool) (t : IntType) (l : Literal) (rest : Bytes)
    (s : State), l.EndsBefore rest → s.input = l.text ++ rest →
    ReadsExactly permissiveNan t l rest s := by
  intro h
  have hone := h false ⟨true, 32, by decide⟩ hexOne [] ⟨hexOne.text, 1, 0⟩ nofun rfl
  unfold ReadsExactly at hone
  rw [if_pos (by decide)] at hone
  obtain ⟨s', hok, -⟩ := hone
  exact nomatch hok

end Integers

end Mjlib.Base.Json5ReadArchive
