import Mathlib
/-!
# Computations that go the same way

`SameOutcome R x y` says that `x` and `y` fail with the same error, or end with results that `R`
relates: two versions of a program of which one keeps more than the other.
-/

variable {ε α β γ δ : Type}

/-- The same error, or results that are related. -/
inductive SameOutcome (R : α → β → Prop) : Except ε α → Except ε β → Prop
  | error (e : ε) : SameOutcome R (.error e) (.error e)
  | ok {a b} (h : R a b) : SameOutcome R (.ok a) (.ok b)

namespace SameOutcome

variable {R : α → β → Prop} {S : γ → δ → Prop} {x : Except ε α} {y : Except ε β}

theorem bind {f : α → Except ε γ} {g : β → Except ε δ} (h : SameOutcome R x y)
    (hf : ∀ a b, R a b → SameOutcome S (f a) (g b)) : SameOutcome S (x >>= f) (y >>= g) := by
  cases h with
  | error e => exact .error e
  | ok h => exact hf _ _ h

/-- A part that is the same in both. -/
theorem bind_same {f : α → Except ε γ} {g : α → Except ε δ}
    (hf : ∀ a, SameOutcome S (f a) (g a)) : SameOutcome S (x >>= f) (x >>= g) := by
  cases x with
  | error e => exact .error e
  | ok a => exact hf a

/-- What the first ends with, the second does. -/
theorem exists_ok {a : α} (h : SameOutcome R x y) (hx : x = .ok a) : ∃ b, y = .ok b ∧ R a b := by
  cases h with
  | error e => cases hx
  | ok h =>
    cases hx
    exact ⟨_, rfl, h⟩

end SameOutcome
