import Mjlib.Io.ExclusiveCommand
import Mjlib.Lib.Run

/-!
# Runs of `ExclusiveCommand`

The object with its executor and its users.  User code runs where the executor invokes a command and
where a release calls the completion handler; it may call `Invoke`, `remove` and the release of a
running command at any time, from there or from anywhere else, so these are actions of their own and
a release is two of them, with the completion handler between.
-/

namespace Mjlib.Io.ExclusiveCommand

variable {κ : Type*}

/-- What is posted to the executor. -/
inductive Task (κ : Type*)
  /-- `waiting->Invoke()`. -/
  | invoke (waiting : Concrete κ)
  /-- `ItemDone`. -/
  | itemDone
deriving DecidableEq, Repr

/-- The object, its executor, and what its users have seen. -/
structure State (κ : Type*) where
  object : ExclusiveCommand κ := {}
  posted : List (Task κ) := []
  /-- The commands that were started, in that order. -/
  started : List ℕ := []
  /-- The commands whose completion handler was called, in that order. -/
  handled : List ℕ := []
  /-- The commands whose completion handler is being called. -/
  handling : List ℕ := []
  /-- The commands for which `remove` has returned 1. -/
  removed : List ℕ := []
  /-- An assertion has failed. -/
  failed : Bool := false
deriving DecidableEq, Repr

/-- What can happen. -/
inductive Action (κ : Type*)
  /-- `Invoke`. -/
  | invoke (command : κ)
  /-- `remove`, perhaps with a null nonce. -/
  | remove (nonce : Option ℕ)
  /-- The executor takes up the given task. -/
  | run (i : ℕ)
  /-- A command that was started calls its release handler, for the first time: the completion
  handler is called. -/
  | release (nonce : ℕ)
  /-- The completion handler returns. -/
  | handled (nonce : ℕ)
deriving DecidableEq, Repr

namespace State

variable (s : State κ)

/-- The state after a call of the object that may post a command. -/
def withObject (r : ExclusiveCommand κ × Option (Concrete κ)) : State κ :=
  { s with object := r.1, posted := s.posted ++ r.2.toList.map .invoke }

/-- The executor performs a task. -/
def perform : Task κ → State κ
  | .invoke waiting => { s with started := s.started ++ [waiting.nonce] }
  | .itemDone =>
    match s.object.itemDone with
    | some r => s.withObject r
    | none => { s with failed := true }

end State

/-- One step; `none` where the action is not possible, as after a failed assertion. -/
def step (s : State κ) (a : Action κ) : Option (State κ) :=
  if s.failed then none
  else match a with
    | .invoke command => some (s.withObject (s.object.invoke command).2)
    | .remove nonce =>
      let (removed, object) := s.object.remove nonce
      some { s with object, removed := s.removed ++ if removed then nonce.toList else [] }
    | .run i => s.posted[i]?.map fun task =>
      { s with posted := s.posted.eraseIdx i }.perform task
    | .release nonce =>
      if nonce ∈ s.started ∧ nonce ∉ s.handled then
        some { s with handled := s.handled ++ [nonce], handling := s.handling ++ [nonce] }
      else none
    | .handled nonce =>
      if nonce ∈ s.handling then
        if s.object.waiting.isSome then
          some { s with handling := s.handling.erase nonce, posted := s.posted ++ [.itemDone] }
        else some { s with failed := true }
      else none

end Mjlib.Io.ExclusiveCommand
