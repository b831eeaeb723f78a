import Mjlib.Base.Json5ReadArchive
import Mjlib.Lib.Json

/-!
# Does a string survive `Json5WriteArchive` and `Json5ReadArchive`?

`EscapeJsonString` writes the characters that it does not know as they are, also control characters,
and NUL as an escape that `Read_EscapeSequence` does not know; and the reader takes no character
from 0x80 on.  `roundTrip_iff`: the text is a JSON string that is read back as it was, if and only if all
characters of the string are `Safe`.
-/

namespace Mjlib.Base

open Json5ReadArchive

/-! ### The text -/

/-- The characters that need an escape and get one. -/
def HasEscape (c : UInt8) : Prop := c ∈ [0x22, 0x5c, 0x08, 0x0c, 0x0a, 0x0d, 0x09, 0]

instance (c : UInt8) : Decidable (HasEscape c) := inferInstanceAs (Decidable (_ ∈ _))

theorem escapeJsonChar_of_not {c : UInt8} (h : ¬ HasEscape c) : escapeJsonChar c = [c] := by
  simp only [HasEscape, List.mem_cons, List.not_mem_nil, or_false, not_or] at h
  obtain ⟨h₁, h₂, h₃, h₄, h₅, h₆, h₇, h₈⟩ := h
  rw [escapeJsonChar, if_neg h₁, if_neg h₂, if_neg h₃, if_neg h₄, if_neg h₅, if_neg h₆, if_neg h₇,
    if_neg h₈]

theorem escapeJsonString_cons (c : UInt8) (s : Bytes) :
    escapeJsonString (c :: s) = escapeJsonChar c ++ escapeJsonString s := List.flatMap_cons

/-- A character that is written as it is stands for itself in a JSON string, or is a control
character. -/
theorem isPlain_iff {c : UInt8} (h : ¬ HasEscape c) : Json.IsPlain c ↔ 0x20 ≤ c := by
  simp only [HasEscape, List.mem_cons, List.not_mem_nil, or_false, not_or] at h
  exact ⟨fun hplain => hplain.1, fun hle => ⟨hle, h.1, h.2.1⟩⟩

theorem isChars_escapeJsonChar_iff (c : UInt8) (cs : Bytes) :
    Json.IsChars (escapeJsonChar c ++ cs) ↔ (HasEscape c ∨ 0x20 ≤ c) ∧ Json.IsChars cs := by
  by_cases h : HasEscape c
  · rw [and_iff_right (Or.inl h)]
    simp only [HasEscape, List.mem_cons, List.not_mem_nil, or_false] at h
    rcases h with rfl | rfl | rfl | rfl | rfl | rfl | rfl | rfl
    · exact Json.isChars_escape_iff (by decide)
    · exact Json.isChars_escape_iff (by decide)
    · exact Json.isChars_escape_iff (by decide)
    · exact Json.isChars_escape_iff (by decide)
    · exact Json.isChars_escape_iff (by decide)
    · exact Json.isChars_escape_iff (by decide)
    · exact Json.isChars_escape_iff (by decide)
    · exact Json.isChars_unicode_iff (by decide) (by decide) (by decide) (by decide)
  · have hc : c ≠ Json.reverseSolidus := fun hc => h (by rw [hc]; decide)
    rw [escapeJsonChar_of_not h, List.singleton_append, Json.isChars_cons_iff hc, isPlain_iff h]
    simp [h]

/-- What is written between the quotation marks is well formed if no control character is written as
it is. -/
theorem isChars_escapeJsonString_iff (str : Bytes) :
    Json.IsChars (escapeJsonString str) ↔ ∀ c ∈ str, HasEscape c ∨ 0x20 ≤ c := by
  induction str with
  | nil => exact iff_of_true .nil nofun
  | cons c str ih =>
    rw [escapeJsonString_cons, isChars_escapeJsonChar_iff, ih, List.forall_mem_cons]

theorem isString_writeString_iff (str : Bytes) :
    Json.IsString (Json5WriteArchive.writeString str) ↔ ∀ c ∈ str, HasEscape c ∨ 0x20 ≤ c := by
  rw [← isChars_escapeJsonString_iff]
  constructor
  · rintro ⟨cs, hcs, h⟩
    rwa [List.append_cancel_right (List.cons.inj h).2]
  · exact fun h => ⟨_, h, rfl⟩

namespace Json5ReadArchive

/-! ### Reading -/

variable {α β : Type} {s s' : State} {rest : Bytes} {c : UInt8}

theorem bind_ok {x : M α} {f : α → M β} {a : α} (h : x s = .ok (a, s')) : (x >>= f) s = f a s' := by
  show (x s >>= fun p => f p.1 p.2) = _
  rw [h]
  rfl

theorem bind_error {x : M α} {f : α → M β} {e : Failure} (h : x s = .error e) :
    (x >>= f) s = .error e := by
  show (x s >>= fun p => f p.1 p.2) = _
  rw [h]
  rfl

@[simp] theorem input_next (c : UInt8) (input : Bytes) (s : State) :
    (s.next c input).input = input := by
  rw [State.next]
  split_ifs <;> rfl

theorem get_of_cons (h : s.input = c :: rest) : get s = .ok (c, s.next c rest) := by
  rw [get, h]

/-- The characters that are read as they were written. -/
def Readable (c : UInt8) : Prop := c ≠ 0 ∧ c < 0x80

instance (c : UInt8) : Decidable (Readable c) := inferInstanceAs (Decidable (_ ∧ _))

theorem readChar_of_not_hasEscape (h : ¬ HasEscape c) (hs : s.input = c :: rest) :
    readChar 0x22 s
      = if c ≥ 0x80 then .error .assertNotReached else .ok (some c, s.next c rest) := by
  have hquote : c ≠ 0x22 := fun hc => h (by rw [hc]; decide)
  have hsolidus : c ≠ 0x5c := fun hc => h (by rw [hc]; decide)
  rw [readChar, bind_ok (get_of_cons hs), if_neg hquote, if_neg hsolidus]
  split_ifs <;> rfl

/-- An escape is read in one pass. -/
theorem readChar_of_hasEscape (h : HasEscape c) (h0 : c ≠ 0)
    (hs : s.input = escapeJsonChar c ++ rest) :
    ∃ s', readChar 0x22 s = .ok (some c, s') ∧ s'.input = rest := by
  obtain ⟨input, line, column⟩ := s
  dsimp only at hs
  subst hs
  simp only [HasEscape, List.mem_cons, List.not_mem_nil, or_false] at h
  rcases h with rfl | rfl | rfl | rfl | rfl | rfl | rfl | rfl
  · exact ⟨_, rfl, rfl⟩
  · exact ⟨_, rfl, rfl⟩
  · exact ⟨_, rfl, rfl⟩
  · exact ⟨_, rfl, rfl⟩
  · exact ⟨_, rfl, rfl⟩
  · exact ⟨_, rfl, rfl⟩
  · exact ⟨_, rfl, rfl⟩
  · exact absurd rfl h0

theorem readChar_of_readable (h : Readable c) (hs : s.input = escapeJsonChar c ++ rest) :
    ∃ s', readChar 0x22 s = .ok (some c, s') ∧ s'.input = rest := by
  by_cases hescape : HasEscape c
  · exact readChar_of_hasEscape hescape h.1 hs
  · rw [escapeJsonChar_of_not hescape, List.singleton_append] at hs
    have hlow : ¬ c ≥ 0x80 := UInt8.not_le.mpr h.2
    refine ⟨s.next c rest, ?_, input_next c rest s⟩
    rw [readChar_of_not_hasEscape hescape hs, if_neg hlow]

/-- The escape for NUL is not known, and a character from 0x80 on is asserted not to come. -/
theorem readChar_of_not_readable (h : ¬ Readable c) (hs : s.input = escapeJsonChar c ++ rest) :
    ∃ e, readChar 0x22 s = .error e := by
  by_cases h0 : c = 0
  · subst h0
    obtain ⟨input, line, column⟩ := s
    dsimp only at hs
    subst hs
    exact ⟨_, rfl⟩
  · have hhigh : c ≥ 0x80 := UInt8.not_lt.mp fun hlt => h ⟨h0, hlt⟩
    have hescape : ¬ HasEscape c := by
      intro hescape
      simp only [HasEscape, List.mem_cons, List.not_mem_nil, or_false] at hescape
      rcases hescape with rfl | rfl | rfl | rfl | rfl | rfl | rfl | rfl
      all_goals exact absurd hhigh (by decide)
    rw [escapeJsonChar_of_not hescape, List.singleton_append] at hs
    exact ⟨.assertNotReached, by rw [readChar_of_not_hasEscape hescape hs, if_pos hhigh]⟩

theorem escapeJsonChar_ne_nil (c : UInt8) : escapeJsonChar c ≠ [] := by
  rw [escapeJsonChar]
  split_ifs
  all_goals exact List.cons_ne_nil _ _

/-- A string is read back up to its terminator. -/
theorem readTerminatedLoop_of_readable {str : Bytes} : ∀ {n : ℕ} {s : State},
    s.input = escapeJsonString str ++ 0x22 :: rest → s.input.length ≤ n →
    (∀ c ∈ str, Readable c) →
    ∃ s', readTerminatedLoop 0x22 n s = .ok (str, s') ∧ s'.input = rest := by
  induction str with
  | nil =>
    intro n s hs hn _
    have hs' : s.input = 0x22 :: rest := hs
    obtain ⟨n, rfl⟩ : ∃ m, n = m + 1 := ⟨n - 1, by rw [hs', List.length_cons] at hn; omega⟩
    have hchar : readChar 0x22 s = .ok (none, s.next 0x22 rest) := by
      rw [readChar, bind_ok (get_of_cons hs'), if_pos rfl]
      rfl
    refine ⟨s.next 0x22 rest, ?_, input_next _ _ _⟩
    rw [readTerminatedLoop, bind_ok hchar]
    rfl
  | cons c str ih =>
    intro n s hs hn hreadable
    rw [escapeJsonString_cons, List.append_assoc] at hs
    have hpos := List.length_pos_iff.mpr (escapeJsonChar_ne_nil c)
    obtain ⟨hc, hstr⟩ := List.forall_mem_cons.mp hreadable
    obtain ⟨s₁, hchar, hs₁⟩ := readChar_of_readable hc hs
    rw [hs, List.length_append, ← hs₁] at hn
    obtain ⟨n, rfl⟩ : ∃ m, n = m + 1 := ⟨n - 1, by omega⟩
    obtain ⟨s', hloop, hs'⟩ := @ih n s₁ hs₁ (by omega) hstr
    refine ⟨s', ?_, hs'⟩
    rw [readTerminatedLoop, bind_ok hchar]
    dsimp only
    rw [bind_ok hloop]
    rfl

/-- A string with a character that is not read is not read. -/
theorem readTerminatedLoop_of_not_readable {str : Bytes} : ∀ {n : ℕ} {s : State},
    s.input = escapeJsonString str ++ rest → (¬ ∀ c ∈ str, Readable c) →
    ∃ e, readTerminatedLoop 0x22 n s = .error e := by
  induction str with
  | nil => exact fun _ h => absurd nofun h
  | cons c str ih =>
    intro n s hs hnot
    cases n with
    | zero => exact ⟨_, rfl⟩
    | succ n =>
      rw [escapeJsonString_cons, List.append_assoc] at hs
      by_cases hc : Readable c
      · obtain ⟨s₁, hchar, hs₁⟩ := readChar_of_readable hc hs
        obtain ⟨e, hloop⟩ := @ih n s₁ hs₁ fun hstr => hnot (List.forall_mem_cons.mpr ⟨hc, hstr⟩)
        refine ⟨e, ?_⟩
        rw [readTerminatedLoop, bind_ok hchar]
        dsimp only
        rw [bind_error hloop]
      · obtain ⟨e, hchar⟩ := readChar_of_not_readable hc hs
        exact ⟨e, by rw [readTerminatedLoop, bind_error hchar]⟩

/-! ### Round trips -/

/-- What is written for the string is read as the string, whatever follows it. -/
def RoundTrips (str : Bytes) : Prop :=
  ∀ rest line column, ∃ s',
    readString ⟨Json5WriteArchive.writeString str ++ rest, line, column⟩ = .ok (str, s') ∧
      s'.input = rest

theorem roundTrips_iff_readable (str : Bytes) : RoundTrips str ↔ ∀ c ∈ str, Readable c := by
  have hquote : ∀ rest line column,
      readString ⟨Json5WriteArchive.writeString str ++ rest, line, column⟩
        = readTerminatedString 0x22 ⟨escapeJsonString str ++ 0x22 :: rest, line, column + 1⟩ := by
    intro rest line column
    have happ : Json5WriteArchive.writeString str ++ rest
        = 0x22 :: (escapeJsonString str ++ 0x22 :: rest) := by
      rw [Json5WriteArchive.writeString, List.cons_append, List.append_assoc, List.singleton_append]
    rw [happ]
    rfl
  constructor
  · intro h
    by_contra hnot
    obtain ⟨s', hread, -⟩ := h [] 1 0
    obtain ⟨e, hloop⟩ := readTerminatedLoop_of_not_readable
      (n := (escapeJsonString str ++ [0x22]).length)
      (s := ⟨escapeJsonString str ++ [0x22], 1, 1⟩) rfl hnot
    rw [hquote] at hread
    exact nomatch hloop.symm.trans hread
  · intro h rest line column
    rw [hquote]
    exact readTerminatedLoop_of_readable rfl le_rfl h

/-- The characters that are written well and read back. -/
def Safe (c : UInt8) : Prop := c ∈ [0x08, 0x09, 0x0a, 0x0c, 0x0d] ∨ 0x20 ≤ c ∧ c < 0x80

instance (c : UInt8) : Decidable (Safe c) := inferInstanceAs (Decidable (_ ∨ _))

theorem safe_iff (c : UInt8) : Safe c ↔ Readable c ∧ (HasEscape c ∨ 0x20 ≤ c) := by
  have h : ∀ n : Fin 256, Safe (UInt8.ofNat n.val) ↔ Readable (UInt8.ofNat n.val) ∧
      (HasEscape (UInt8.ofNat n.val) ∨ 0x20 ≤ UInt8.ofNat n.val) := by
    decide +kernel
  have hc := h ⟨c.toNat, c.toNat_lt⟩
  rwa [UInt8.ofNat_toNat] at hc

/-- **A string survives**, in a text that is a JSON string, if and only if all of its characters are
safe. -/
theorem roundTrip_iff (str : Bytes) :
    RoundTrips str ∧ Json.IsString (Json5WriteArchive.writeString str) ↔ ∀ c ∈ str, Safe c := by
  rw [roundTrips_iff_readable, isString_writeString_iff, ← forall₂_and]
  exact forall₂_congr fun c _ => (safe_iff c).symm

/-- NUL is written as an escape that is not read. -/
theorem not_roundTrip :
    ¬ ∀ str, RoundTrips str ∧ Json.IsString (Json5WriteArchive.writeString str) := by
  intro h
  have hsafe := (roundTrips_iff_readable [0]).mp (h [0]).1 0 (by decide)
  exact hsafe.1 rfl

end Json5ReadArchive

end Mjlib.Base
