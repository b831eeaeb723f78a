import Mjlib.Base.Equiv.Json5ReadArchive.Blanks
import Mjlib.Base.Json5ReadValue
import Mjlib.Lib.Simulates

/-!
# Reading a text into which blanks are inserted

`Inserted` relates two states of the archive: what the second has left is what the first has left, with
blanks `w` in front of the rest `suf`, or both are behind that place.  The place is next to punctuation
(`Near`) and outside of strings and comments.  The programs of the archive keep this as long as they skip
blanks in front of a token (`Tight`), or look at most at a character that no token has in front of them
(`Within`).
-/

namespace Mjlib.Base.Json5ReadArchive

variable {α β : Type}

/-! ### Characters -/

/-- The tokens of punctuation. -/
def IsPunctuation (c : UInt8) : Prop := c ∈ [0x7b, 0x7d, 0x5b, 0x5d, 0x3a, 0x2c]

instance (c : UInt8) : Decidable (IsPunctuation c) := inferInstanceAs (Decidable (_ ∈ _))

/-- The characters at which a name, a number or a word ends. -/
def IsStop (c : UInt8) : Prop := StartsBlank c ∨ IsPunctuation c

instance (c : UInt8) : Decidable (IsStop c) := inferInstanceAs (Decidable (_ ∨ _))

/-- The characters of names, numbers and words. -/
def IsPlain (c : UInt8) : Prop := ¬IsStop c ∧ ¬IsQuote c

instance (c : UInt8) : Decidable (IsPlain c) := inferInstanceAs (Decidable (_ ∧ _))

theorem IsStop.ne {c d : UInt8} (hc : IsStop c) (hd : ¬IsStop d) : some c ≠ some d := by
  intro heq
  exact hd (Option.some.inj heq ▸ hc)

theorem lexStep_of_isPlain {c : UInt8} (hc : IsPlain c) : lexStep true .code c = .code := by
  rw [lexStep, if_neg fun h => hc.1 (Or.inl (Or.inr h)), if_neg hc.2]

theorem IsPunctuation.lexStep {c : UInt8} (hc : IsPunctuation c) :
    lexStep true .code c = .code := by
  simp only [IsPunctuation, List.mem_cons, List.not_mem_nil, or_false] at hc
  rcases hc with rfl | rfl | rfl | rfl | rfl | rfl <;> rfl

/-! ### Two states -/

/-- The place between `left` and `suf` is next to punctuation. -/
def Near (suf left : Bytes) : Prop :=
  (∃ c ∈ suf.head?, IsPunctuation c) ∨ ∃ c ∈ left.getLast?, IsPunctuation c

theorem Near.of_suffix {suf left left' : Bytes} {c : UInt8} (h : Near suf left)
    (hsuffix : c :: left' <:+ left) : Near suf (c :: left') := by
  obtain ⟨taken, rfl⟩ := hsuffix
  refine h.imp_right fun hlast => ?_
  rwa [List.getLast?_append_of_ne_nil _ (List.cons_ne_nil c left')] at hlast

/-- What is taken away does not matter, unless it is the punctuation. -/
theorem Near.tail {suf left : Bytes} {c : UInt8} (h : Near suf (c :: left))
    (hc : left = [] → ¬IsPunctuation c) : Near suf left := by
  cases left with
  | nil =>
    rcases h with hhead | ⟨d, hd, hpunctuation⟩
    · exact Or.inl hhead
    · obtain rfl := Option.some.inj hd
      exact absurd hpunctuation (hc rfl)
  | cons d left => exact h.of_suffix (List.suffix_cons c _)

theorem Near.exists_head {suf : Bytes} (h : Near suf []) :
    ∃ c ∈ suf.head?, IsPunctuation c := by
  rcases h with hhead | ⟨c, hc, -⟩
  · exact hhead
  · exact nomatch hc

/-- `t` has `w` to read where `s` has not, or both are behind that place. -/
inductive Inserted (w suf : Bytes) (ahead : Bytes → Prop) (s t : State) : Prop
  | behind (h : s.input = t.input)
  | ahead (left : Bytes) (hs : s.input = left ++ suf) (ht : t.input = left ++ (w ++ suf))
      (h : ahead left)

section
variable (w suf : Bytes)

/-- Blanks are skipped before anything else is read. -/
def Loose : State → State → Prop :=
  Inserted w suf fun left => lexFrom true .code left = .code ∧ (left = [] ∨ Near suf left)

/-- Inside of something, or behind a name, a number or a word. -/
def Within (mode : LexMode) : State → State → Prop :=
  Inserted w suf fun left => lexFrom true mode left = .code ∧ Near suf left

/-- Blanks have been skipped. -/
def Tight : State → State → Prop :=
  Inserted w suf fun left => lexFrom true .code left = .code ∧ Near suf left ∧
    ∃ c ∈ left.head?, ¬StartsBlank c

/-- The first state has a character to read next. -/
def At (P : State → State → Prop) (c : Option UInt8) (s t : State) : Prop := P s t ∧ s.input.head? = c

end

variable {w suf : Bytes} {s t : State}

theorem Inserted.mono {ahead ahead' : Bytes → Prop} (h : Inserted w suf ahead s t)
    (himp : ∀ left, ahead left → ahead' left) : Inserted w suf ahead' s t := by
  cases h with
  | behind h => exact .behind h
  | ahead left hs ht h => exact .ahead left hs ht (himp left h)

theorem Tight.within (h : Tight w suf s t) : Within w suf .code s t :=
  h.mono fun _ h => ⟨h.1, h.2.1⟩

theorem Within.loose (h : Within w suf .code s t) : Loose w suf s t :=
  h.mono fun _ h => ⟨h.1, Or.inr h.2⟩

theorem Tight.head?_eq (h : Tight w suf s t) : t.input.head? = s.input.head? := by
  cases h with
  | behind h => rw [h]
  | ahead left hs ht h =>
    obtain ⟨-, -, c, hc, -⟩ := h
    obtain ⟨left, rfl⟩ := List.head?_eq_some_iff.mp hc
    rw [hs, ht]
    rfl

/-- Where the two states have different characters to read, both end a name, a number or a word. -/
theorem Within.head?_eq_or (hw : ∃ c ∈ w.head?, StartsBlank c) (h : Within w suf .code s t) :
    t.input.head? = s.input.head? ∨
      ∃ c d, s.input.head? = some c ∧ t.input.head? = some d ∧ IsStop c ∧ IsStop d := by
  cases h with
  | behind h => exact Or.inl (congrArg List.head? h.symm)
  | ahead left hs ht h =>
    -- at the place itself there is punctuation in the one and a blank in the other
    cases left with
    | nil =>
      obtain ⟨c, hc, hpunctuation⟩ := h.2.exists_head
      obtain ⟨d, hd, hblank⟩ := hw
      refine Or.inr ⟨c, d, ?_, ?_, Or.inr hpunctuation, Or.inl hblank⟩
      · rw [hs]
        exact hc
      · rw [ht, List.nil_append, List.head?_append, hd]
        rfl
    | cons c left =>
      rw [hs, ht]
      exact Or.inl rfl

/-! ### `Get` and `Peek` -/

/-- `Get` takes the same character of both, if it is known. -/
theorem simulates_get_at {ahead ahead' : Bytes → Prop} {c : UInt8}
    (h : ∀ left, ahead left → (left ++ suf).head? = some c →
      ∃ left', left = c :: left' ∧ ahead' left') :
    Simulates (At (Inserted w suf ahead) (some c)) get get fun a s t =>
      a = c ∧ Inserted w suf ahead' s t := by
  rintro s t ⟨hst, hhead⟩ a s' hok
  obtain ⟨rest, hinput⟩ := List.head?_eq_some_iff.mp hhead
  obtain ⟨rfl, rfl⟩ := Prod.mk.inj (Except.ok.inj ((get_of_cons hinput).symm.trans hok))
  cases hst with
  | behind heq =>
    refine ⟨_, get_of_cons (heq ▸ hinput), rfl, .behind ?_⟩
    rw [input_next, input_next]
  | ahead left hs ht hleft =>
    obtain ⟨left, rfl, hahead⟩ := h left hleft (hs ▸ hhead)
    rw [hs, List.cons_append] at hinput
    obtain ⟨-, rfl⟩ := List.cons.inj hinput
    refine ⟨_, get_of_cons ht, rfl, .ahead left ?_ ?_ hahead⟩
    · rw [input_next]
    · rw [input_next]
      rfl

/-- `Get` takes the same character of both, if there is one in front of the place. -/
theorem simulates_get {ahead : Bytes → Prop} {ahead' : UInt8 → Bytes → Prop}
    (h : ∀ left, ahead left → ∃ c left', left = c :: left' ∧ ahead' c left') :
    Simulates (Inserted w suf ahead) get get fun a => Inserted w suf (ahead' a) := by
  intro s t hst a s' hok
  cases hinput : s.input with
  | nil =>
    obtain ⟨e, he⟩ := get_of_nil hinput
    exact nomatch he.symm.trans hok
  | cons c rest =>
    have hget : Simulates (At (Inserted w suf ahead) (some c)) get get fun a s t =>
        a = c ∧ Inserted w suf (ahead' c) s t := by
      refine simulates_get_at fun left hleft hhead => ?_
      obtain ⟨d, left, rfl, hahead⟩ := h left hleft
      obtain rfl := Option.some.inj hhead
      exact ⟨left, rfl, hahead⟩
    obtain ⟨t', hok', rfl, hst'⟩ := hget s t ⟨hst, by rw [hinput]; rfl⟩ a s' hok
    exact ⟨t', hok', hst'⟩

theorem simulates_peek_tight {f g : Option UInt8 → M α} {Q : α → State → State → Prop}
    (h : ∀ c, Simulates (At (Tight w suf) c) (f c) (g c) Q) :
    Simulates (Tight w suf) (peek >>= f) (peek >>= g) Q := by
  intro s t hst a s' hok
  obtain ⟨t', hg, hQ⟩ := h s.input.head? s t ⟨hst, rfl⟩ a s' hok
  refine ⟨t', ?_, hQ⟩
  show g t.input.head? t = _
  rw [hst.head?_eq]
  exact hg

/-- A program that takes a character that ends a name for the end of the text. -/
theorem simulates_peek_within (hw : ∃ c ∈ w.head?, StartsBlank c) {f g : Option UInt8 → M α}
    {Q : α → State → State → Prop}
    (h : ∀ c, Simulates (At (Within w suf .code) c) (f c) (g c) Q)
    (hstop : ∀ c, IsStop c → g (some c) = g none) :
    Simulates (Within w suf .code) (peek >>= f) (peek >>= g) Q := by
  intro s t hst a s' hok
  obtain ⟨t', hg, hQ⟩ := h s.input.head? s t ⟨hst, rfl⟩ a s' hok
  refine ⟨t', ?_, hQ⟩
  show g t.input.head? t = _
  rcases hst.head?_eq_or hw with heq | ⟨c, d, hc, hd, hstopc, hstopd⟩
  · rw [heq]
    exact hg
  · rw [hd, hstop d hstopd, ← hstop c hstopc, ← hc]
    exact hg

/-! ### Blanks and literals -/

/-- Blanks end outside of comments. -/
theorem lexFrom_of_skipBlanks {text : Bytes} (h : skipBlanks .code text = some []) :
    lexFrom true .code text = .code ∧
      ∀ rest, skipBlanks .code (text ++ rest) = skipBlanks .code rest := by
  rw [← List.append_nil text] at h
  cases skips (Or.inl rfl) text with
  | fails hskip => exact nomatch (hskip []).symm.trans h
  | stops c left _ _ _ hskip => exact nomatch (hskip []).symm.trans h
  | passes hmode hskip =>
    rw [hskip] at h
    rcases hmode with hmode | hmode | hmode | hmode | hmode
    · exact ⟨hmode, fun rest => (hskip rest).trans (by rw [hmode])⟩
    · exact nomatch (hmode ▸ h)
    · exact nomatch (hmode ▸ h)
    · exact nomatch (hmode ▸ h)
    · exact nomatch (hmode ▸ h)

/-- A text of blanks that the archive skips as a whole. -/
structure IsBlanks (w : Bytes) : Prop where
  skipBlanks_eq : skipBlanks .code w = some []
  ne_nil : w ≠ []

theorem IsBlanks.head? (h : IsBlanks w) : ∃ c ∈ w.head?, StartsBlank c := by
  obtain ⟨hskip, hne⟩ := h
  cases w with
  | nil => exact absurd rfl hne
  | cons c w =>
    refine ⟨c, rfl, ?_⟩
    by_contra hc
    obtain ⟨hspace, hslash⟩ := not_or.mp hc
    rw [skipBlanks, if_neg hspace, if_neg hslash] at hskip
    cases hskip

theorem ignoreWhitespace_eq_ok {s s' : State} (h : ignoreWhitespace s = .ok ((), s')) :
    skipBlanks .code s.input = some s'.input := by
  have hleaves := leaves_ignoreWhitespace s
  cases hskip : skipBlanks .code s.input with
  | none =>
    rw [hskip] at hleaves
    obtain ⟨e, he⟩ := hleaves
    exact nomatch he.symm.trans h
  | some rest =>
    rw [hskip] at hleaves
    obtain ⟨s₁, hok, rfl⟩ := hleaves
    obtain ⟨-, rfl⟩ := Prod.mk.inj (Except.ok.inj (hok.symm.trans h))
    rfl

theorem exists_ignoreWhitespace {t : State} {rest : Bytes}
    (h : skipBlanks .code t.input = some rest) :
    ∃ t', ignoreWhitespace t = .ok ((), t') ∧ t'.input = rest := by
  have hleaves := leaves_ignoreWhitespace t
  rwa [h] at hleaves

theorem simulates_ignoreWhitespace (hw : IsBlanks w) :
    Simulates (Loose w suf) ignoreWhitespace ignoreWhitespace fun _ => Tight w suf := by
  rintro s t hst ⟨⟩ s' hok
  have hskip := ignoreWhitespace_eq_ok hok
  cases hst with
  | behind heq =>
    rw [heq] at hskip
    obtain ⟨t', hok', ht'⟩ := exists_ignoreWhitespace hskip
    exact ⟨t', hok', .behind ht'.symm⟩
  | ahead left hs ht hleft =>
    obtain ⟨hlex, hnear⟩ := hleft
    rw [hs] at hskip
    cases skips (Or.inl rfl) left with
    | fails h => exact nomatch (h suf).symm.trans hskip
    -- the blanks end in front of the place, in both
    | stops c left' hc hsuffix hlex' h =>
      obtain ⟨t', hok', ht'⟩ := exists_ignoreWhitespace (ht ▸ h (w ++ suf))
      have hs' := Option.some.inj (hskip.symm.trans (h suf))
      have hne : left ≠ [] := fun hnil => by
        rw [hnil] at hsuffix
        exact List.cons_ne_nil _ _ (List.suffix_nil.mp hsuffix)
      exact ⟨t', hok', .ahead (c :: left') hs' ht'
        ⟨hlex'.trans hlex, (hnear.resolve_left hne).of_suffix hsuffix, c, rfl, hc⟩⟩
    -- they reach the place, so the other goes on through what was inserted
    | passes hmode h =>
      rw [hlex] at h
      rw [h suf] at hskip
      have hskip' : skipBlanks .code t.input = some s'.input := by
        rw [ht, h, (lexFrom_of_skipBlanks hw.skipBlanks_eq).2, hskip]
      obtain ⟨t', hok', ht'⟩ := exists_ignoreWhitespace hskip'
      exact ⟨t', hok', .behind ht'.symm⟩

/-- Punctuation is taken behind blanks. -/
theorem simulates_get_punctuation {c : UInt8} (hc : IsPunctuation c) :
    Simulates (At (Tight w suf) (some c)) get get fun a s t => a = c ∧ Loose w suf s t := by
  refine simulates_get_at fun left hleft hhead => ?_
  obtain ⟨hlex, hnear, d, hd, -⟩ := hleft
  obtain ⟨left, rfl⟩ := List.head?_eq_some_iff.mp hd
  obtain rfl := Option.some.inj hhead
  refine ⟨left, rfl, ?_, ?_⟩
  · rwa [lexFrom_cons, hc.lexStep] at hlex
  · cases left with
    | nil => exact Or.inl rfl
    | cons e left => exact Or.inr (hnear.of_suffix (List.suffix_cons d _))

/-- A character that is not punctuation is in front of the place. -/
theorem Near.exists_cons {left : Bytes} {c : UInt8} (h : Near suf left)
    (hhead : (left ++ suf).head? = some c) (hc : ¬IsPunctuation c) : ∃ left', left = c :: left' := by
  cases left with
  | nil =>
    obtain ⟨d, hd, hpunctuation⟩ := h.exists_head
    exact absurd (Option.some.inj (hhead.symm.trans hd) ▸ hpunctuation) hc
  | cons d left =>
    obtain rfl := Option.some.inj hhead
    exact ⟨left, rfl⟩

/-- The mode behind a character that is not punctuation. -/
theorem simulates_get_not_punctuation {c : UInt8} (hc : ¬IsPunctuation c) :
    Simulates (At (Within w suf .code) (some c)) get get fun a s t =>
      a = c ∧ Within w suf (lexStep true .code c) s t := by
  refine simulates_get_at fun left hleft hhead => ?_
  obtain ⟨hlex, hnear⟩ := hleft
  obtain ⟨left, rfl⟩ := hnear.exists_cons hhead hc
  exact ⟨left, rfl, hlex, hnear.tail fun _ => hc⟩

theorem simulates_get_plain {c : UInt8} (hc : IsPlain c) :
    Simulates (At (Within w suf .code) (some c)) get get fun a s t =>
      a = c ∧ Within w suf .code s t := by
  have hget : Simulates (At (Within w suf .code) (some c)) get get fun a s t =>
      a = c ∧ Within w suf (lexStep true .code c) s t :=
    simulates_get_not_punctuation fun h => hc.1 (Or.inr h)
  rwa [lexStep_of_isPlain hc] at hget

/-- What is left of the characters of a literal. -/
def expect (literal : Bytes) : Bytes → M Unit
  | [] => return ()
  | expected :: rest => do
    let c ← get
    if c ≠ expected then error ("Didn't find expected " ++ quoted literal)
    else expect literal rest

theorem forIn_eq_expect (literal rest : Bytes) :
    (do
      for expected in rest do
        let c ← get
        if c ≠ expected then error ("Didn't find expected " ++ quoted literal) : M Unit)
      = expect literal rest := by
  induction rest with
  | nil => rfl
  | cons expected rest ih =>
    rw [expect, ← ih, List.forIn_cons]
    simp only [bind_assoc]
    refine bind_congr fun c => ?_
    split_ifs
    · rfl
    · simp only [pure_bind]

theorem readLiteral_eq (literal : Bytes) :
    readLiteral literal = (ignoreWhitespace >>= fun _ => expect literal literal) :=
  bind_congr fun _ => forIn_eq_expect literal literal

/-- Where another character than the expected one is an error, the character is known. -/
theorem simulates_expect {P R : State → State → Prop} {Q : α → State → State → Prop}
    {expected : UInt8} {text : String} {f g : M α}
    (hget : Simulates (At P (some expected)) get get fun a s t => a = expected ∧ R s t)
    (h : Simulates R f g Q) :
    Simulates P (get >>= fun c => if c ≠ expected then error text else f)
      (get >>= fun c => if c ≠ expected then error text else g) Q := by
  intro s t hst a s' hok
  obtain ⟨c, s₁, hgets, hok⟩ := Simulates.bind_eq_ok hok
  by_cases hc : c = expected
  · rw [if_neg (not_not_intro hc)] at hok
    have hhead : s.input.head? = some expected := by
      cases hinput : s.input with
      | nil =>
        obtain ⟨e, he⟩ := get_of_nil hinput
        exact nomatch he.symm.trans hgets
      | cons d rest =>
        have heq := (get_of_cons hinput).symm.trans hgets
        rw [List.head?_cons, (Prod.mk.inj (Except.ok.inj heq)).1, hc]
    obtain ⟨t₁, hgett, -, hR⟩ := hget s t ⟨hst, hhead⟩ c s₁ hgets
    obtain ⟨t', hg, hQ⟩ := h s₁ t₁ hR a s' hok
    refine ⟨t', ?_, hQ⟩
    rw [bind_ok hgett, if_neg (not_not_intro hc)]
    exact hg
  · rw [if_pos hc] at hok
    exact nomatch hok

theorem simulates_expect_plain {literal rest : Bytes} (h : ∀ c ∈ rest, IsPlain c) :
    Simulates (Within w suf .code) (expect literal rest) (expect literal rest)
      fun _ => Within w suf .code := by
  induction rest with
  | nil => exact .pure () fun _ _ hst => hst
  | cons expected rest ih =>
    obtain ⟨hplain, hrest⟩ := List.forall_mem_cons.mp h
    exact simulates_expect (simulates_get_plain hplain) (ih hrest)

/-- A word behind blanks. -/
theorem simulates_readLiteral_plain (hw : IsBlanks w) {literal : Bytes}
    (h : literal.all fun c => IsPlain c) :
    Simulates (Loose w suf) (readLiteral literal) (readLiteral literal)
      fun _ => Within w suf .code := by
  have hplain : ∀ c ∈ literal, IsPlain c := fun c hc =>
    of_decide_eq_true (List.all_eq_true.mp h c hc)
  rw [readLiteral_eq]
  refine (simulates_ignoreWhitespace hw).bind fun _ => ?_
  exact (simulates_expect_plain hplain).pre fun _ _ hst => hst.within

/-- A token of punctuation behind blanks. -/
theorem simulates_readLiteral_punctuation (hw : IsBlanks w) {c : UInt8} (hc : IsPunctuation c) :
    Simulates (Loose w suf) (readLiteral [c]) (readLiteral [c]) fun _ => Loose w suf := by
  rw [readLiteral_eq]
  refine (simulates_ignoreWhitespace hw).bind fun _ => ?_
  exact simulates_expect (simulates_get_punctuation hc) (.pure () fun _ _ hst => hst)

end Mjlib.Base.Json5ReadArchive
