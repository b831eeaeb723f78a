import Mjlib.Base.Equiv.Json5ReadArchive

/-!
# What `IgnoreWhitespace` takes

`lexStep` follows a text character by character: through strings and comments as JSON5 has them, and
as the archive reads them, which differ in two places.  `ReadUntil` starts over at the next character when a
character does not match, so an asterisk after an asterisk is lost; and `ReadUntilOneOf` ends a line
comment at a zero.  `skipBlanks` is what `IgnoreWhitespace` leaves of a text
(`ignoreWhitespace_spec`).
-/

namespace Mjlib.Base.Json5ReadArchive

/-! ### Modes -/

/-- Where in a text a character is. -/
inductive LexMode
  | code
  /-- Behind a slash. -/
  | slash
  | line
  | block
  /-- Behind an asterisk that may end a block comment. -/
  | star
  | string (terminator : UInt8)
  /-- Behind a backslash. -/
  | escape (terminator : UInt8)
  /-- In front of the digits of an escape `\x`. -/
  | hexFirst (terminator : UInt8)
  | hexSecond (terminator : UInt8)
deriving DecidableEq

/-- The characters that start a string. -/
def IsQuote (c : UInt8) : Prop := c = 0x22 ∨ c = 0x27

instance (c : UInt8) : Decidable (IsQuote c) := inferInstanceAs (Decidable (_ ∨ _))

/-- The mode behind a character, in JSON5 or as the archive has it. -/
def lexStep (archive : Bool) : LexMode → UInt8 → LexMode
  | .code, c => if c = 0x2f then .slash else if IsQuote c then .string c else .code
  | .slash, c => if c = 0x2f then .line else if c = 0x2a then .block else .code
  | .line, c => if c = 0x0a ∨ c = 0x0d ∨ (archive ∧ c = 0) then .code else .line
  | .block, c => if c = 0x2a then .star else .block
  | .star, c => if c = 0x2f then .code else if c = 0x2a ∧ ¬archive then .star else .block
  | .string q, c => if c = q then .code else if c = 0x5c then .escape q else .string q
  | .escape q, c => if c = 0x78 then .hexFirst q else .string q
  | .hexFirst q, _ => .hexSecond q
  | .hexSecond q, _ => .string q

/-- The mode behind a text. -/
def lexFrom (archive : Bool) (mode : LexMode) (text : Bytes) : LexMode :=
  text.foldl (lexStep archive) mode

@[simp] theorem lexFrom_nil (archive : Bool) (mode : LexMode) : lexFrom archive mode [] = mode :=
  rfl

@[simp] theorem lexFrom_cons (archive : Bool) (mode : LexMode) (c : UInt8) (text : Bytes) :
    lexFrom archive mode (c :: text) = lexFrom archive (lexStep archive mode c) text := rfl

theorem lexFrom_append (archive : Bool) (mode : LexMode) (text rest : Bytes) :
    lexFrom archive mode (text ++ rest) = lexFrom archive (lexFrom archive mode text) rest :=
  List.foldl_append

/-! ### Blanks -/

/-- What is left of a text behind whitespace and comments, for the archive; nothing where a comment
does not end. -/
def skipBlanks : LexMode → Bytes → Option Bytes
  | .code, [] => some []
  | .code, c :: rest =>
    if isWhitespace c then skipBlanks .code rest
    else if c = 0x2f then skipBlanks .slash rest
    else some (c :: rest)
  | .slash, c :: rest =>
    if c = 0x2f ∨ c = 0x2a then skipBlanks (lexStep true .slash c) rest else none
  | .line, c :: rest => skipBlanks (lexStep true .line c) rest
  | .block, c :: rest => skipBlanks (lexStep true .block c) rest
  | .star, c :: rest => skipBlanks (lexStep true .star c) rest
  | _, _ => none

/-- The characters at which blanks start. -/
def StartsBlank (c : UInt8) : Prop := isWhitespace c = true ∨ c = 0x2f

instance (c : UInt8) : Decidable (StartsBlank c) := inferInstanceAs (Decidable (_ ∨ _))

/-- The modes in blanks. -/
def LexMode.InBlanks (mode : LexMode) : Prop :=
  mode = .code ∨ mode = .slash ∨ mode = .line ∨ mode = .block ∨ mode = .star

theorem isWhitespace_ne_slash {c : UInt8} (h : isWhitespace c = true) : c ≠ 0x2f := by
  rintro rfl
  exact absurd h (by decide)

theorem isWhitespace_not_isQuote {c : UInt8} (h : isWhitespace c = true) : ¬IsQuote c := by
  rintro (rfl | rfl)
  · exact absurd h (by decide)
  · exact absurd h (by decide)

/-- The end of whitespace keeps the mode. -/
theorem lexStep_of_isWhitespace (archive : Bool) {c : UInt8} (h : isWhitespace c = true) :
    lexStep archive .code c = .code := by
  rw [lexStep, if_neg (isWhitespace_ne_slash h), if_neg (isWhitespace_not_isQuote h)]

/-- What happens to blanks at the start of a text, whatever follows it. -/
inductive Skips (mode : LexMode) (text : Bytes) : Prop
  /-- A slash starts no comment. -/
  | fails (h : ∀ rest, skipBlanks mode (text ++ rest) = none)
  /-- The blanks end in the text. -/
  | stops (c : UInt8) (left : Bytes) (hc : ¬StartsBlank c) (hsuffix : c :: left <:+ text)
      (hlex : lexFrom true .code (c :: left) = lexFrom true mode text)
      (h : ∀ rest, skipBlanks mode (text ++ rest) = some (c :: left ++ rest))
  /-- The text has nothing else. -/
  | passes (hmode : (lexFrom true mode text).InBlanks)
      (h : ∀ rest, skipBlanks mode (text ++ rest) = skipBlanks (lexFrom true mode text) rest)

theorem Skips.cons {mode mode' : LexMode} {c : UInt8} {text : Bytes} (hskips : Skips mode' text)
    (hstep : lexStep true mode c = mode')
    (heq : ∀ rest, skipBlanks mode (c :: (text ++ rest)) = skipBlanks mode' (text ++ rest)) :
    Skips mode (c :: text) := by
  cases hskips with
  | fails h => exact .fails fun rest => (heq rest).trans (h rest)
  | stops d left hd hsuffix hlex h =>
    refine .stops d left hd (hsuffix.trans (List.suffix_cons c text)) ?_ fun rest =>
      (heq rest).trans (h rest)
    rw [hlex, lexFrom_cons, hstep]
  | passes hmode h =>
    refine .passes ?_ fun rest => ?_
    · rwa [lexFrom_cons, hstep]
    · rw [lexFrom_cons, hstep]
      exact (heq rest).trans (h rest)

theorem skips : ∀ {mode : LexMode}, mode.InBlanks → ∀ text : Bytes, Skips mode text := by
  intro mode hmode text
  induction text generalizing mode with
  | nil => exact .passes hmode fun rest => rfl
  | cons c text ih =>
    rcases hmode with rfl | rfl | rfl | rfl | rfl
    -- the modes in the order of `InBlanks`: outside of a comment, behind a slash, in a comment
    · by_cases hspace : isWhitespace c = true
      · exact (ih (Or.inl rfl)).cons (lexStep_of_isWhitespace true hspace) fun rest => by
          rw [skipBlanks, if_pos hspace]
      by_cases hslash : c = 0x2f
      · exact (ih (Or.inr (Or.inl rfl))).cons (if_pos hslash) fun rest => by
          rw [skipBlanks, if_neg hspace, if_pos hslash]
      · refine .stops c text (not_or.mpr ⟨hspace, hslash⟩) (List.suffix_refl _) rfl fun rest => ?_
        rw [List.cons_append, skipBlanks, if_neg hspace, if_neg hslash]
    · by_cases hcomment : c = 0x2f ∨ c = 0x2a
      · have hmode' : (lexStep true .slash c).InBlanks := by
          rcases hcomment with rfl | rfl
          · exact Or.inr (Or.inr (Or.inl rfl))
          · exact Or.inr (Or.inr (Or.inr (Or.inl rfl)))
        exact (ih hmode').cons rfl fun rest => by rw [skipBlanks, if_pos hcomment]
      · exact .fails fun rest => by rw [List.cons_append, skipBlanks, if_neg hcomment]
    · have hmode' : (lexStep true .line c).InBlanks := by
        rw [lexStep]
        split_ifs
        · exact Or.inl rfl
        · exact Or.inr (Or.inr (Or.inl rfl))
      exact (ih hmode').cons rfl fun rest => rfl
    · have hmode' : (lexStep true .block c).InBlanks := by
        rw [lexStep]
        split_ifs
        · exact Or.inr (Or.inr (Or.inr (Or.inr rfl)))
        · exact Or.inr (Or.inr (Or.inr (Or.inl rfl)))
      exact (ih hmode').cons rfl fun rest => rfl
    -- the archive leaves this mode also where a second asterisk follows
    · have hmode' : (lexStep true .star c).InBlanks := by
        rw [lexStep]
        split_ifs with hslash hagain
        · exact Or.inl rfl
        · exact absurd rfl hagain.2
        · exact Or.inr (Or.inr (Or.inr (Or.inl rfl)))
      exact (ih hmode').cons rfl fun rest => rfl

/-! ### `IgnoreWhitespace` -/

/-- A program leaves a text, or fails where there is none. -/
def Leaves (x : M Unit) (s : State) : Option Bytes → Prop
  | none => ∃ e, x s = .error e
  | some rest => ∃ s', x s = .ok ((), s') ∧ s'.input = rest

section
variable {s : State} {k n n' : ℕ}

theorem peek_of_cons {c : UInt8} {rest : Bytes} (hs : s.input = c :: rest) :
    peek s = .ok (some c, s) := by
  rw [peek, hs]
  rfl

theorem get_of_nil (hs : s.input = []) : ∃ e, get s = .error e := by
  rw [get, hs]
  exact ⟨_, rfl⟩

theorem Leaves.of_eq {x y : M Unit} {s s' : State} {rest : Option Bytes} (h : Leaves y s' rest)
    (heq : x s = y s') : Leaves x s rest := by
  cases rest with
  | none => exact h.imp fun e he => heq.trans he
  | some rest => exact h.imp fun t ht => ⟨heq.trans ht.1, ht.2⟩

theorem readUntilOneOf_bind {possible : Bytes} {f : Unit → M Unit} {c : UInt8} {rest : Bytes}
    (hs : s.input = c :: rest) :
    (readUntilOneOf possible (n + 1) >>= f) s =
      if c ∈ possible ∨ c = 0 then f () (s.next c rest)
      else (readUntilOneOf possible n >>= f) (s.next c rest) := by
  rw [readUntilOneOf, bind_assoc, bind_ok (get_of_cons hs)]
  split_ifs
  · rfl
  · rfl

theorem lexStep_line {c : UInt8} (h : lexStep true .line c ≠ .code) :
    lexStep true .line c = .line := by
  rw [lexStep] at h ⊢
  split_ifs at h ⊢
  · exact absurd rfl h
  · rfl

theorem lexStep_line_eq_code_iff {c : UInt8} :
    lexStep true .line c = .code ↔ c ∈ [0x0a, 0x0d] ∨ c = 0 := by
  rw [List.mem_cons, List.mem_singleton, or_assoc, lexStep]
  split_ifs with h
  · exact iff_of_true rfl (by simpa using h)
  · exact iff_of_false nofun (by simpa using h)

theorem readUntilOneOf_bind_line {f : Unit → M Unit} {c : UInt8} {rest : Bytes}
    (hs : s.input = c :: rest) :
    (readUntilOneOf [0x0a, 0x0d] (n + 1) >>= f) s =
      if lexStep true .line c = .code then f () (s.next c rest)
      else (readUntilOneOf [0x0a, 0x0d] n >>= f) (s.next c rest) := by
  rw [readUntilOneOf_bind hs]
  simp only [lexStep_line_eq_code_iff]

theorem readUntil_bind (terminus after : Bytes) {f : Unit → M Unit} {c d : UInt8} {rest : Bytes}
    (hs : s.input = c :: rest) :
    (readUntil terminus (n + 1) (d :: after) >>= f) s =
      if c = d then
        if after = [] then f () (s.next c rest)
        else (readUntil terminus n after >>= f) (s.next c rest)
      else (readUntil terminus n terminus >>= f) (s.next c rest) := by
  rw [readUntil, bind_assoc, bind_ok (get_of_cons hs)]
  have hhead : (d :: after).head? = some c ↔ c = d := by
    rw [List.head?_cons, Option.some.injEq, eq_comm]
  by_cases hc : c = d
  · rw [if_pos hc, if_pos (hhead.mpr hc)]
    by_cases hafter : after = []
    · rw [if_pos hafter, if_pos (show (d :: after).tail = [] from hafter)]
      rfl
    · rw [if_neg hafter, if_neg (show ¬(d :: after).tail = [] from hafter)]
      rfl
  · rw [if_neg hc, if_neg (mt hhead.mp hc)]

/-- A loop that gets a character fails at the end of the text. -/
theorem readUntilOneOf_bind_of_nil {possible : Bytes} {f : Unit → M Unit} (hs : s.input = []) :
    ∃ e, (readUntilOneOf possible n >>= f) s = .error e := by
  cases n with
  | zero => exact ⟨_, rfl⟩
  | succ n =>
    obtain ⟨e, he⟩ := get_of_nil hs
    rw [readUntilOneOf, bind_assoc]
    exact ⟨e, bind_error he⟩

theorem readUntil_bind_of_nil {terminus current : Bytes} {f : Unit → M Unit} (hs : s.input = []) :
    ∃ e, (readUntil terminus n current >>= f) s = .error e := by
  cases n with
  | zero => exact ⟨_, rfl⟩
  | succ n =>
    obtain ⟨e, he⟩ := get_of_nil hs
    rw [readUntil, bind_assoc]
    exact ⟨e, bind_error he⟩

/-- The loop in a mode: outside of comments, or in a comment and then on. -/
def skipLoop (n n' : ℕ) : LexMode → M Unit
  | .line => readUntilOneOf [0x0a, 0x0d] n >>= fun _ => ignoreWhitespaceLoop n'
  | .block => readUntil [0x2a, 0x2f] n [0x2a, 0x2f] >>= fun _ => ignoreWhitespaceLoop n'
  | .star => readUntil [0x2a, 0x2f] n [0x2f] >>= fun _ => ignoreWhitespaceLoop n'
  | _ => ignoreWhitespaceLoop n

theorem ignoreWhitespaceLoop_of_isWhitespace {c : UInt8} {rest : Bytes} (hs : s.input = c :: rest)
    (hc : isWhitespace c = true) :
    ignoreWhitespaceLoop (n + 1) s = ignoreWhitespaceLoop n (s.next c rest) := by
  rw [ignoreWhitespaceLoop, bind_ok (peek_of_cons hs)]
  dsimp only
  rw [if_pos hc, bind_ok (get_of_cons hs)]

theorem ignoreWhitespaceLoop_of_not_startsBlank {c : UInt8} {rest : Bytes}
    (hs : s.input = c :: rest) (hc : ¬StartsBlank c) :
    ignoreWhitespaceLoop (n + 1) s = .ok ((), s) := by
  obtain ⟨hspace, hslash⟩ := not_or.mp hc
  rw [ignoreWhitespaceLoop, bind_ok (peek_of_cons hs)]
  dsimp only
  rw [if_neg hspace, if_neg hslash]
  rfl

theorem ignoreWhitespaceLoop_of_slash_nil {c : UInt8} (hs : s.input = [c]) (hc : c = 0x2f) :
    ∃ e, ignoreWhitespaceLoop (n + 1) s = .error e := by
  have hspace : ¬isWhitespace c = true := fun h => isWhitespace_ne_slash h hc
  obtain ⟨e, he⟩ := get_of_nil (input_next c [] s)
  rw [ignoreWhitespaceLoop, bind_ok (peek_of_cons hs)]
  dsimp only
  rw [if_neg hspace, if_pos hc, bind_ok (get_of_cons hs)]
  exact ⟨e, bind_error he⟩

theorem ignoreWhitespaceLoop_of_slash {c d : UInt8} {rest : Bytes} (hs : s.input = c :: d :: rest)
    (hc : c = 0x2f) :
    ignoreWhitespaceLoop (n + 1) s =
      if d = 0x2f then skipLoop n n .line ((s.next c (d :: rest)).next d rest)
      else if d = 0x2a then skipLoop n n .block ((s.next c (d :: rest)).next d rest)
      else error ("Unexpected '/' character followed by " ++ inQuotes d)
        ((s.next c (d :: rest)).next d rest) := by
  have hspace : ¬isWhitespace c = true := fun h => isWhitespace_ne_slash h hc
  rw [ignoreWhitespaceLoop, bind_ok (peek_of_cons hs)]
  dsimp only
  rw [if_neg hspace, if_pos hc, bind_ok (get_of_cons hs),
    bind_ok (get_of_cons (input_next c (d :: rest) s))]
  split_ifs
  · rfl
  · rfl
  · rfl

theorem leaves_skipLoop_nil {mode : LexMode} (hmode : mode.InBlanks) (hne : mode ≠ .slash)
    (hs : s.input = []) : Leaves (skipLoop n n' mode) s (skipBlanks mode s.input) := by
  rw [hs]
  rcases hmode with rfl | rfl | rfl | rfl | rfl
  · refine ⟨s, ?_, hs⟩
    cases n with
    | zero => rfl
    | succ n =>
      show (peek >>= _) s = _
      rw [bind_ok (show peek s = .ok (none, s) by rw [peek, hs]; rfl)]
      rfl
  · exact absurd rfl hne
  · exact readUntilOneOf_bind_of_nil hs
  · exact readUntil_bind_of_nil hs
  · exact readUntil_bind_of_nil hs

theorem leaves_skipLoop : ∀ {k : ℕ} {s : State}, s.input.length ≤ k → ∀ {n n' : ℕ}, k ≤ n →
    k ≤ n' → ∀ {mode : LexMode}, mode.InBlanks → mode ≠ .slash →
    Leaves (skipLoop n n' mode) s (skipBlanks mode s.input) := by
  intro k
  induction k with
  | zero =>
    intro s hs n n' _ _ mode hmode hne
    exact leaves_skipLoop_nil hmode hne (List.length_eq_zero_iff.mp (Nat.le_zero.mp hs))
  | succ k ih =>
    intro s hs n n' hn hn' mode hmode hne
    cases hinput : s.input with
    | nil => exact hinput ▸ leaves_skipLoop_nil hmode hne hinput
    | cons c rest =>
      obtain ⟨n, rfl⟩ : ∃ m, n = m + 1 := ⟨n - 1, by omega⟩
      rw [hinput, List.length_cons] at hs
      have hnext : ∀ {m m' : ℕ}, k ≤ m → k ≤ m' → ∀ {mode : LexMode}, mode.InBlanks →
          mode ≠ .slash → Leaves (skipLoop m m' mode) (s.next c rest) (skipBlanks mode rest) := by
        intro m m' hm hm' mode hmode hne
        have hleaves := ih (s := s.next c rest) (by rw [input_next]; omega) hm hm' hmode hne
        rwa [input_next] at hleaves
      -- `n` bounds the loop at hand, `n'` the one that goes on behind a comment
      have hk : k ≤ n := Nat.le_of_succ_le_succ hn
      have hk' : k ≤ n' := Nat.le_of_succ_le hn'
      rcases hmode with rfl | rfl | rfl | rfl | rfl
      · by_cases hspace : isWhitespace c = true
        · rw [skipBlanks, if_pos hspace]
          refine (hnext (m := n) hk hk' (Or.inl rfl) nofun).of_eq ?_
          exact ignoreWhitespaceLoop_of_isWhitespace hinput hspace
        by_cases hslash : c = 0x2f
        · rw [skipBlanks, if_neg hspace, if_pos hslash]
          cases rest with
          | nil => exact ignoreWhitespaceLoop_of_slash_nil hinput hslash
          | cons d rest =>
            rw [List.length_cons] at hs
            have hbehind : ∀ {mode : LexMode}, mode.InBlanks → mode ≠ .slash →
                Leaves (skipLoop n n mode) ((s.next c (d :: rest)).next d rest)
                  (skipBlanks mode rest) := by
              intro mode hmode hne
              have hleaves := ih (s := (s.next c (d :: rest)).next d rest)
                (by rw [input_next]; omega) hk hk hmode hne
              rwa [input_next] at hleaves
            have hloop := ignoreWhitespaceLoop_of_slash (n := n) hinput hslash
            by_cases hline : d = 0x2f
            · rw [skipBlanks, if_pos (Or.inl hline), lexStep, if_pos hline]
              rw [if_pos hline] at hloop
              exact (hbehind (Or.inr (Or.inr (Or.inl rfl))) nofun).of_eq hloop
            by_cases hblock : d = 0x2a
            · rw [skipBlanks, if_pos (Or.inr hblock), lexStep, if_neg hline, if_pos hblock]
              rw [if_neg hline, if_pos hblock] at hloop
              exact (hbehind (Or.inr (Or.inr (Or.inr (Or.inl rfl)))) nofun).of_eq hloop
            · rw [skipBlanks, if_neg (not_or.mpr ⟨hline, hblock⟩)]
              rw [if_neg hline, if_neg hblock] at hloop
              exact ⟨_, hloop⟩
        · rw [skipBlanks, if_neg hspace, if_neg hslash]
          exact ⟨s, ignoreWhitespaceLoop_of_not_startsBlank hinput (not_or.mpr ⟨hspace, hslash⟩),
            hinput⟩
      · exact absurd rfl hne
      · have hloop := readUntilOneOf_bind_line (n := n) (f := fun _ => ignoreWhitespaceLoop n') hinput
        rw [skipBlanks]
        by_cases hend : lexStep true .line c = .code
        · rw [hend]
          rw [if_pos hend] at hloop
          exact (hnext hk' hk' (Or.inl rfl) nofun).of_eq hloop
        · rw [lexStep_line hend]
          rw [if_neg hend] at hloop
          exact (hnext hk hk' (Or.inr (Or.inr (Or.inl rfl))) nofun).of_eq hloop
      · have hloop := readUntil_bind [0x2a, 0x2f] [0x2f] (n := n) (d := 0x2a)
          (f := fun _ => ignoreWhitespaceLoop n') hinput
        rw [skipBlanks, lexStep]
        by_cases hstar : c = 0x2a
        · rw [if_pos hstar]
          rw [if_pos hstar, if_neg (List.cons_ne_nil _ _)] at hloop
          exact (hnext hk hk' (Or.inr (Or.inr (Or.inr (Or.inr rfl)))) nofun).of_eq hloop
        · rw [if_neg hstar]
          rw [if_neg hstar] at hloop
          exact (hnext hk hk' (Or.inr (Or.inr (Or.inr (Or.inl rfl)))) nofun).of_eq hloop
      -- what is left of the terminus is the slash; any other character starts over
      · have hloop := readUntil_bind [0x2a, 0x2f] [] (n := n) (d := 0x2f)
          (f := fun _ => ignoreWhitespaceLoop n') hinput
        rw [skipBlanks, lexStep]
        by_cases hslash : c = 0x2f
        · rw [if_pos hslash]
          rw [if_pos hslash, if_pos rfl] at hloop
          exact (hnext hk' hk' (Or.inl rfl) nofun).of_eq hloop
        · rw [if_neg hslash, if_neg fun h => h.2 rfl]
          rw [if_neg hslash] at hloop
          exact (hnext hk hk' (Or.inr (Or.inr (Or.inr (Or.inl rfl)))) nofun).of_eq hloop

end

/-- **`IgnoreWhitespace`** leaves what `skipBlanks` leaves, and fails where it finds no end. -/
theorem leaves_ignoreWhitespace (s : State) :
    Leaves ignoreWhitespace s (skipBlanks .code s.input) :=
  show Leaves (skipLoop s.input.length s.input.length .code) s (skipBlanks .code s.input) from
    leaves_skipLoop le_rfl le_rfl le_rfl (Or.inl rfl) nofun

end Mjlib.Base.Json5ReadArchive
