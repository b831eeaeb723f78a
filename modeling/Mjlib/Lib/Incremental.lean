import Mathlib

/-!
# Decoders that are given their input in pieces

A `Decoder` takes a piece off the front of its input and says what it stands for, or needs more.
What it takes does not depend on what follows (`next_append`), so whoever has taken some of the input
may go on with the rest of it and what has come meanwhile (`Takes.append`), and in the end everyone
has the same outputs, those of `decode` on the whole input (`Takes.eq_decode`).
-/

/-- A decoder: `next input` is what the first piece of the input stands for and what is behind it. -/
structure Decoder (α ε : Type*) where
  next : List α → Option (List ε × List α)
  length_lt : ∀ {input outputs rest}, next input = some (outputs, rest) →
    rest.length < input.length
  next_append : ∀ {input outputs rest}, next input = some (outputs, rest) →
    ∀ later, next (input ++ later) = some (outputs, rest ++ later)

namespace Decoder

variable {α ε : Type*} (D : Decoder α ε)

/-- Some pieces of the input have been taken: what they stand for, and the rest. -/
inductive Takes : List α → List ε → List α → Prop
  | refl (input : List α) : Takes input [] input
  | head {input outputs rest more rest'} (h : D.next input = some (outputs, rest))
      (t : Takes rest more rest') : Takes input (outputs ++ more) rest'

/-- `decode`, with at most so many pieces. -/
def decodeLoop : ℕ → List α → List ε
  | 0, _ => []
  | n + 1, input =>
    match D.next input with
    | none => []
    | some (outputs, rest) => outputs ++ decodeLoop n rest

/-- What all the pieces of the input stand for, up to where the decoder needs more. -/
def decode (input : List α) : List ε := D.decodeLoop input.length input

variable {D}

/-! ### Taking pieces -/

theorem Takes.single {input rest : List α} {outputs : List ε}
    (h : D.next input = some (outputs, rest)) : D.Takes input outputs rest := by
  have := Takes.head h (.refl rest)
  rwa [List.append_nil] at this

theorem Takes.trans {input rest rest' : List α} {outputs more : List ε}
    (h : D.Takes input outputs rest) (h' : D.Takes rest more rest') :
    D.Takes input (outputs ++ more) rest' := by
  induction h with
  | refl => exact h'
  | head hnext _ ih =>
    rw [List.append_assoc]
    exact .head hnext (ih h')

/-- What has been taken stays taken when more input comes. -/
theorem Takes.append {input rest : List α} {outputs : List ε} (h : D.Takes input outputs rest)
    (later : List α) : D.Takes (input ++ later) outputs (rest ++ later) := by
  induction h with
  | refl => exact .refl _
  | head hnext _ ih => exact .head (D.next_append hnext later) ih

/-! ### Decoding everything -/

/-- Further rounds find nothing: every piece has an element at least. -/
theorem decodeLoop_eq {n : ℕ} : ∀ {m : ℕ} {input : List α}, input.length ≤ n →
    input.length ≤ m → D.decodeLoop n input = D.decodeLoop m input := by
  -- there is no piece in an empty input, for want of something shorter
  have hnil : ∀ {input : List α}, input.length ≤ 0 → D.next input = none := by
    intro input h
    cases hnext : D.next input with
    | none => rfl
    | some p => exact absurd (D.length_lt hnext) (by omega)
  have hzero : ∀ {k : ℕ} {input : List α}, input.length ≤ 0 → D.decodeLoop k input = [] := by
    intro k input h
    cases k with
    | zero => rfl
    | succ k => rw [decodeLoop, hnil h]
  induction n with
  | zero =>
    intro m input hn _
    rw [hzero hn, hzero hn]
  | succ n ih =>
    intro m input hn hm
    cases m with
    | zero => rw [hzero hm, hzero hm]
    | succ m =>
      rw [decodeLoop, decodeLoop]
      cases hnext : D.next input with
      | none => rfl
      | some p =>
        have := D.length_lt hnext
        dsimp only
        rw [ih (m := m) (by omega) (by omega)]

theorem decode_of_none {input : List α} (h : D.next input = none) : D.decode input = [] := by
  rw [decode]
  cases input with
  | nil => rfl
  | cons a input => rw [List.length_cons, decodeLoop, h]

theorem decode_of_some {input rest : List α} {outputs : List ε}
    (h : D.next input = some (outputs, rest)) : D.decode input = outputs ++ D.decode rest := by
  have hlt := D.length_lt h
  obtain ⟨n, hn⟩ : ∃ n, input.length = n + 1 := ⟨input.length - 1, by omega⟩
  rw [decode, decode, hn, decodeLoop, h]
  dsimp only
  rw [decodeLoop_eq (m := rest.length) (by omega) (Nat.le_refl _)]

theorem Takes.decode_eq {input rest : List α} {outputs : List ε} (h : D.Takes input outputs rest) :
    D.decode input = outputs ++ D.decode rest := by
  induction h with
  | refl => rfl
  | head hnext _ ih => rw [decode_of_some hnext, ih, List.append_assoc]

/-- **Whoever has nothing left to take has the outputs of the whole input.** -/
theorem Takes.eq_decode {input rest : List α} {outputs : List ε} (h : D.Takes input outputs rest)
    (hrest : D.decode rest = []) : outputs = D.decode input := by
  rw [h.decode_eq, hrest, List.append_nil]

end Decoder
