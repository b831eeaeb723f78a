import Mathlib

/-!
# `ExclusiveCommand`

One command at a time.  A command is data here: its owner says what invoking it does.  Where the code
posts the invocation of a command, the functions return the command, for the owner to post.
-/

namespace Mjlib.Io

/-- `ExclusiveCommand::Concrete`: a command, with the identity of its object (the nonce). -/
structure Concrete (κ : Type*) where
  nonce : ℕ
  command : κ
deriving DecidableEq, Repr

/-- `ExclusiveCommand`. -/
structure ExclusiveCommand (κ : Type*) where
  waiting : Option (Concrete κ) := none
  queued : List (Concrete κ) := []
  /-- The number of objects made so far. -/
  made : ℕ := 0
deriving DecidableEq, Repr

namespace ExclusiveCommand

variable {κ : Type*}

/-- `MaybeStart`, with the command whose invocation is posted. -/
def maybeStart (l : ExclusiveCommand κ) : ExclusiveCommand κ × Option (Concrete κ) :=
  if l.waiting.isSome then (l, none)
  else match l.queued with
    | [] => (l, none)
    | front :: queued => ({ l with waiting := some front, queued := queued }, some front)

/-- `Invoke`, with the nonce and the command whose invocation is posted. -/
def invoke (command : κ) (l : ExclusiveCommand κ) :
    ℕ × ExclusiveCommand κ × Option (Concrete κ) :=
  (l.made, maybeStart { l with
    queued := l.queued ++ [⟨l.made, command⟩]
    made := l.made + 1 })

/-- `remove`, with whether there was anything to remove; no command has the null nonce. -/
def remove (nonce : Option ℕ) (l : ExclusiveCommand κ) : Bool × ExclusiveCommand κ :=
  (l.queued.any fun w => some w.nonce == nonce,
    { l with queued := l.queued.filter fun w => some w.nonce != nonce })

/-- `ItemDone`, with the command whose invocation is posted. -/
def itemDone (l : ExclusiveCommand κ) : Option (ExclusiveCommand κ × Option (Concrete κ)) :=
  if l.waiting.isSome then some (maybeStart { l with waiting := none }) else none

end ExclusiveCommand

end Mjlib.Io
