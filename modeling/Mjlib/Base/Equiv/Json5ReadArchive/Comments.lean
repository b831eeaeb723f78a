import Mathlib
import Mjlib.Base.Equiv.Json5ReadArchive.InsertedValues
import Mjlib.Base.Equiv.Json5ReadArchive.Vectors

/-!
# When whitespace and comments do not matter

A piece of whitespace or a comment between the tokens of a text changes nothing for the archive if it
`Closes`: a block comment must not have an odd number of asterisks in front of its end, and what follows a
zero in a line comment must be blank (`keepsResult_iff`).
-/

namespace Mjlib.Base.Json5ReadArchive

/-! ### Pieces -/

/-- What may stand between tokens: a whitespace character, or a comment with its end. -/
inductive Piece
  | whitespace (c : UInt8) (h : isWhitespace c = true)
  | lineComment (body : Bytes) (terminator : UInt8) (hbody : ∀ c ∈ body, c ≠ 0x0a ∧ c ≠ 0x0d)
      (h : terminator = 0x0a ∨ terminator = 0x0d)
  | blockComment (body : Bytes) (h : ¬[0x2a, 0x2f] <:+: body)

/-- The text of a piece. -/
def Piece.text : Piece → Bytes
  | .whitespace c _ => [c]
  | .lineComment body terminator _ _ => 0x2f :: 0x2f :: (body ++ [terminator])
  | .blockComment body _ => 0x2f :: 0x2a :: (body ++ [0x2a, 0x2f])

/-- The number of asterisks at the end of a text. -/
def trailingStars (body : Bytes) : ℕ := (body.rtakeWhile (· = 0x2a)).length

/-- What follows the first zero in a text. -/
def afterZero (body : Bytes) : Bytes := (body.dropWhile (· ≠ 0)).tail

/-- The archive finds the end of the piece where it is: behind a zero a line comment has only blanks,
and a block comment does not have an odd number of asterisks in front of its end. -/
def Piece.Closes : Piece → Prop
  | .whitespace _ _ => True
  | .lineComment body terminator _ _ =>
    0 ∈ body → skipBlanks .code (afterZero body ++ [terminator]) = some []
  | .blockComment body _ => Even (trailingStars body)

/-! ### Block comments -/

theorem trailingStars_concat_star (body : Bytes) :
    trailingStars (body ++ [0x2a]) = trailingStars body + 1 := by
  rw [trailingStars, List.rtakeWhile_concat_pos _ _ _ (by decide), List.length_append]
  rfl

theorem trailingStars_concat_of_ne (body : Bytes) {c : UInt8} (hc : c ≠ 0x2a) :
    trailingStars (body ++ [c]) = 0 := by
  rw [trailingStars, List.rtakeWhile_concat_neg _ _ _ (by simpa using hc), List.length_nil]

/-- A text with asterisks at its end has one there. -/
theorem exists_concat_star {body : Bytes} (h : trailingStars body ≠ 0) :
    ∃ start, body = start ++ [0x2a] := by
  induction body using List.reverseRecOn with
  | nil => exact absurd rfl h
  | append_singleton start c =>
    by_cases hc : c = 0x2a
    · exact ⟨start, by rw [hc]⟩
    · exact absurd (trailingStars_concat_of_ne start hc) h

/-- Two asterisks in a row are as good as none for the archive. -/
theorem skipBlanks_block {body : Bytes} (h : ¬[0x2a, 0x2f] <:+: body) (rest : Bytes) :
    skipBlanks .block (body ++ rest) =
      skipBlanks (if Even (trailingStars body) then .block else .star) rest := by
  induction body using List.reverseRecOn generalizing rest with
  | nil => rfl
  | append_singleton body c ih =>
    have hbody : ¬[0x2a, 0x2f] <:+: body := fun hinner =>
      h (hinner.trans (List.prefix_append body [c]).isInfix)
    rw [List.append_assoc, ih hbody, List.singleton_append]
    by_cases hc : c = 0x2a
    · subst hc
      rw [trailingStars_concat_star]
      by_cases heven : Even (trailingStars body)
      · rw [if_pos heven, if_neg (not_not_intro heven ∘ Nat.even_add_one.mp)]
        rfl
      · rw [if_neg heven, if_pos (Nat.even_add_one.mpr heven)]
        rfl
    · rw [trailingStars_concat_of_ne body hc, if_pos Even.zero]
      -- behind an odd number of asterisks a slash would have ended the comment before
      split_ifs with heven
      · rw [skipBlanks, lexStep, if_neg hc]
      · rw [skipBlanks, lexStep]
        split_ifs with hslash hagain
        · obtain ⟨start, rfl⟩ := exists_concat_star fun hzero => heven (hzero ▸ Even.zero)
          exact absurd ⟨start, [], by rw [hslash]; simp⟩ h
        · exact absurd rfl hagain.2
        · rfl

/-! ### Line comments -/

theorem afterZero_append {before : Bytes} (h : 0 ∉ before) (after : Bytes) :
    afterZero (before ++ 0 :: after) = after := by
  have hne : ∀ c ∈ before, decide (c ≠ 0) = true := fun c hc =>
    decide_eq_true fun heq => h (heq ▸ hc)
  rw [afterZero, List.dropWhile_append_of_pos hne]
  rfl

theorem skipBlanks_line {before : Bytes} (h : ∀ c ∈ before, c ≠ 0x0a ∧ c ≠ 0x0d)
    (hzero : 0 ∉ before) (rest : Bytes) :
    skipBlanks .line (before ++ rest) = skipBlanks .line rest := by
  induction before with
  | nil => rfl
  | cons c before ih =>
    obtain ⟨⟨hlf, hcr⟩, hbefore⟩ := List.forall_mem_cons.mp h
    have hc : c ≠ 0 := fun heq => hzero (heq ▸ List.mem_cons_self)
    have hend : ¬(c = 0x0a ∨ c = 0x0d ∨ true = true ∧ c = 0) := by
      rintro (heq | heq | ⟨-, heq⟩)
      · exact hlf heq
      · exact hcr heq
      · exact hc heq
    rw [List.cons_append, skipBlanks, lexStep, if_neg hend]
    exact ih hbefore fun hmem => hzero (List.mem_cons_of_mem c hmem)

/-- **The archive skips a piece** as a whole if it finds its end. -/
theorem Piece.closes_iff (piece : Piece) : piece.Closes ↔ skipBlanks .code piece.text = some [] := by
  cases piece with
  | whitespace c h =>
    refine iff_of_true trivial ?_
    rw [Piece.text, skipBlanks, if_pos h]
    rfl
  | lineComment body terminator hbody h =>
    show _ ↔ skipBlanks .line (body ++ [terminator]) = some []
    by_cases hzero : 0 ∈ body
    · obtain ⟨before, after, rfl, hbefore⟩ := List.eq_append_cons_of_mem hzero
      have hskip : skipBlanks .line (before ++ 0 :: after ++ [terminator])
          = skipBlanks .code (after ++ [terminator]) := by
        rw [List.append_assoc, skipBlanks_line (fun c hc => hbody c (List.mem_append_left _ hc))
          hbefore]
        rfl
      rw [hskip, Piece.Closes, afterZero_append hbefore]
      exact ⟨fun hcloses => hcloses hzero, fun hblank _ => hblank⟩
    · have hskip : skipBlanks .line (body ++ [terminator]) = some [] := by
        rw [skipBlanks_line hbody hzero]
        rcases h with rfl | rfl <;> rfl
      exact iff_of_true (fun hmem => absurd hmem hzero) hskip
  | blockComment body h =>
    show _ ↔ skipBlanks .block (body ++ [0x2a, 0x2f]) = some []
    rw [skipBlanks_block h, Piece.Closes]
    split_ifs with heven
    · exact iff_of_true heven rfl
    · exact iff_of_false heven (Option.some_ne_none _ ·.symm)

/-- Behind the body of a block comment. -/
theorem lexFrom_block {body : Bytes} (h : ¬[0x2a, 0x2f] <:+: body) :
    lexFrom false .block body = if trailingStars body = 0 then .block else .star := by
  induction body using List.reverseRecOn with
  | nil => rfl
  | append_singleton body c ih =>
    have hbody : ¬[0x2a, 0x2f] <:+: body := fun hinner =>
      h (hinner.trans (List.prefix_append body [c]).isInfix)
    rw [lexFrom_append, ih hbody, lexFrom_cons, lexFrom_nil]
    by_cases hc : c = 0x2a
    · subst hc
      rw [trailingStars_concat_star, if_neg (Nat.succ_ne_zero _)]
      split_ifs <;> rfl
    · rw [trailingStars_concat_of_ne body hc, if_pos rfl]
      split_ifs with hzero
      · rw [lexStep, if_neg hc]
      · have hslash : c ≠ 0x2f := by
          rintro rfl
          obtain ⟨start, rfl⟩ := exists_concat_star hzero
          exact absurd ⟨start, [], by simp⟩ h
        rw [lexStep, if_neg hslash, if_neg fun h => hc h.1]

theorem lexFrom_line {body : Bytes} (h : ∀ c ∈ body, c ≠ 0x0a ∧ c ≠ 0x0d) :
    lexFrom false .line body = .line := by
  induction body with
  | nil => rfl
  | cons c body ih =>
    obtain ⟨⟨hlf, hcr⟩, hbody⟩ := List.forall_mem_cons.mp h
    have hend : ¬(c = 0x0a ∨ c = 0x0d ∨ false = true ∧ c = 0) := by
      rintro (heq | heq | ⟨hfalse, -⟩)
      · exact hlf heq
      · exact hcr heq
      · exact nomatch hfalse
    rw [lexFrom_cons, lexStep, if_neg hend, ih hbody]

/-- In JSON5, a piece ends where it ends. -/
theorem Piece.lexFrom_json5 (piece : Piece) : lexFrom false .code piece.text = .code := by
  cases piece with
  | whitespace c h => exact lexStep_of_isWhitespace false h
  | lineComment body terminator hbody h =>
    show lexFrom false .line (body ++ [terminator]) = .code
    rw [lexFrom_append, lexFrom_line hbody]
    rcases h with rfl | rfl <;> rfl
  | blockComment body h =>
    show lexFrom false .block (body ++ [0x2a, 0x2f]) = .code
    rw [lexFrom_append, lexFrom_block h]
    split_ifs <;> rfl

/-- For the archive, a piece that closes does. -/
theorem Piece.lexFrom_archive {piece : Piece} (h : piece.Closes) :
    lexFrom true .code piece.text = .code :=
  (lexFrom_of_skipBlanks (piece.closes_iff.mp h)).1

/-! ### Texts -/

/-- `Value` takes a text, and reads a value from it. -/
def Accepts {α : Type} (read : α → M α) (old : α) (text : Bytes) (value : α) : Prop :=
  ∃ s, read old { input := text } = .ok (value, s)

/-- A place in a text next to a token of punctuation: outside of strings and comments, also for the
archive. -/
structure IsPlace (pre suf : Bytes) : Prop where
  json5 : lexFrom false .code pre = .code
  archive : lexFrom true .code pre = .code
  near : Near suf pre

/-- Inserted at any such place of any object or array that is accepted, for any type, a text changes
nothing. -/
def KeepsResult (w : Bytes) : Prop :=
  ∀ (permissiveNan : Bool) (α : Type) (read : α → M α), IsReader permissiveNan true read →
    ∀ (old value : α) (pre suf : Bytes), StartsContainer (pre ++ suf) → IsPlace pre suf →
      Accepts read old (pre ++ suf) value → Accepts read old (pre ++ (w ++ suf)) value

theorem keepsResult_of_isBlanks {w : Bytes} (hw : IsBlanks w) : KeepsResult w := by
  intro permissiveNan α read hread old value pre suf hstarts hplace ⟨s', hok⟩
  obtain ⟨t', hok', -⟩ := (readsAlike hw hread).container rfl old { input := pre ++ suf }
    { input := pre ++ (w ++ suf) }
    ⟨.ahead pre rfl rfl ⟨hplace.archive, Or.inr hplace.near⟩, hstarts⟩ value s' hok
  exact ⟨t', hok'⟩

/-! ### Arrays of integers -/

theorem readElementsLoop_eq_ok {α : Type} {read : α → M α} {previous : ℕ → α} {n pos : ℕ}
    {values : List α} {s s' : State}
    (h : readElementsLoop read previous (n + 1) pos s = .ok (values, s')) :
    ∃ rest, skipBlanks .code s.input = some rest ∧ (rest.head? = some 0x5d ↔ values = []) := by
  obtain ⟨⟨⟩, s₁, hblanks, h⟩ := Simulates.bind_eq_ok h
  refine ⟨s₁.input, ignoreWhitespace_eq_ok hblanks, ?_⟩
  rw [bind_ok (show peek s₁ = .ok (s₁.input.head?, s₁) from rfl)] at h
  split_ifs at h with hend
  · obtain ⟨_, _, _, h⟩ := Simulates.bind_eq_ok h
    cases h
    exact iff_of_true hend rfl
  · obtain ⟨value, _, _, h⟩ := Simulates.bind_eq_ok h
    obtain ⟨_, _, _, h⟩ := Simulates.bind_eq_ok h
    obtain ⟨_, _, _, h⟩ := Simulates.bind_eq_ok h
    obtain ⟨_, _, _, h⟩ := Simulates.bind_eq_ok h
    obtain ⟨_, _, _, h⟩ := Simulates.bind_eq_ok h
    refine iff_of_false hend ?_
    split_ifs at h
    · obtain ⟨_, _, _, h⟩ := Simulates.bind_eq_ok h
      cases h
      exact List.cons_ne_nil _ _
    · obtain ⟨more, _, _, h⟩ := Simulates.bind_eq_ok h
      cases h
      exact List.cons_ne_nil _ _

theorem readLiteral_bracket (text : Bytes) :
    readLiteral [0x5b] { input := 0x5b :: text } = .ok ((), { input := text, column := 1 }) := by
  have hblanks : ignoreWhitespace { input := 0x5b :: text }
      = .ok ((), { input := 0x5b :: text }) :=
    ignoreWhitespaceLoop_of_not_startsBlank rfl (by decide)
  rw [readLiteral_eq, bind_ok hblanks]
  rfl

/-- Behind the bracket of an array that is read, the archive finds the end of the array or an element. -/
theorem Accepts.skipBlanks {text : Bytes} {values : List ℤ}
    (h : Accepts (readVector readInt32 0) [] (0x5b :: text) values) :
    ∃ rest, skipBlanks .code text = some rest ∧ (rest.head? = some 0x5d ↔ values = []) := by
  obtain ⟨s', hok⟩ := h
  rw [readVector_eq] at hok
  obtain ⟨elements, s₁, helements, hok⟩ := Simulates.bind_eq_ok hok
  cases hok
  rw [List.drop_nil, List.append_nil]
  rw [readElements, bind_ok (readLiteral_bracket text)] at helements
  cases text with
  | nil => cases helements
  | cons c text => exact readElementsLoop_eq_ok helements

theorem isReader_readVector : IsReader false true (readVector readInt32 0) :=
  .vector 0 (.integer _)

/-- A text that changes neither the empty array nor one with an element is skipped as a whole. -/
theorem skipBlanks_of_keepsResult {w : Bytes} (h : KeepsResult w) :
    skipBlanks .code w = some [] := by
  -- the empty array and `[1]`, with the text behind their brackets
  have hempty : Accepts (readVector readInt32 0) [] (0x5b :: (w ++ [0x5d])) [] :=
    h false (List ℤ) (readVector readInt32 0) isReader_readVector [] [] [0x5b] [0x5d]
    ⟨_, _, rfl, Or.inr rfl⟩ ⟨rfl, rfl, Or.inl ⟨_, rfl, by decide⟩⟩
    ⟨{ input := [], column := 2 }, by decide +kernel⟩
  have hone : Accepts (readVector readInt32 0) [] (0x5b :: (w ++ [0x31, 0x5d])) [1] :=
    h false (List ℤ) (readVector readInt32 0) isReader_readVector [] [1] [0x5b] [0x31, 0x5d]
    ⟨_, _, rfl, Or.inr rfl⟩ ⟨rfl, rfl, Or.inr ⟨_, rfl, by decide⟩⟩
    ⟨{ input := [], column := 3 }, by decide +kernel⟩
  obtain ⟨rest, hrest, hend⟩ := hempty.skipBlanks
  obtain ⟨rest', hrest', hend'⟩ := hone.skipBlanks
  cases skips (Or.inl rfl) w with
  | fails hskip => exact nomatch (hskip _).symm.trans hrest
  | stops c left _ _ _ hskip =>
    -- the piece itself would have to end the first array, and then it ends the second one
    obtain rfl := Option.some.inj ((hskip _).symm.trans hrest)
    obtain rfl := Option.some.inj ((hskip _).symm.trans hrest')
    exact nomatch hend'.mp (hend.mpr rfl)
  | passes hmode hskip =>
    rw [hskip] at hrest
    rw [← List.append_nil w, hskip]
    -- in a comment that is still open the archive would not have found the bracket
    rcases hmode with hmode | hmode | hmode | hmode | hmode
    · rw [hmode]
      rfl
    · exact nomatch (hmode ▸ hrest)
    · exact nomatch (hmode ▸ hrest)
    · exact nomatch (hmode ▸ hrest)
    · exact nomatch (hmode ▸ hrest)

theorem Piece.text_ne_nil (piece : Piece) : piece.text ≠ [] := by
  cases piece <;> exact List.cons_ne_nil _ _

/-- **Whitespace and comments do not matter** for objects and arrays of any type, exactly if the
archive finds their end. -/
theorem keepsResult_iff (piece : Piece) : KeepsResult piece.text ↔ piece.Closes := by
  rw [piece.closes_iff]
  exact ⟨skipBlanks_of_keepsResult, fun h => keepsResult_of_isBlanks ⟨h, piece.text_ne_nil⟩⟩

/-- A block comment of one asterisk in an empty array: the archive reads on to the end of the text. -/
theorem not_keepsResult_star : ¬∀ piece : Piece, KeepsResult piece.text := by
  intro h
  obtain ⟨s, hs⟩ := h (.blockComment [0x2a] (by decide)) false (List ℤ) (readVector readInt32 0)
    (.vector 0 (.integer _)) [] [] [0x5b] [0x5d] ⟨_, _, rfl, Or.inr rfl⟩
    ⟨rfl, rfl, Or.inl ⟨_, rfl, by decide⟩⟩ ⟨{ input := [], column := 2 }, by decide +kernel⟩
  have herror : readVector readInt32 0 [] { input := [0x5b, 0x2f, 0x2a, 0x2a, 0x2a, 0x2f, 0x5d] }
      = .error (.error "1:7 EOF") := by decide +kernel
  exact nomatch herror.symm.trans hs

end Mjlib.Base.Json5ReadArchive
