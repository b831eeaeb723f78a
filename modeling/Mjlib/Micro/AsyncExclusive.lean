import Mjlib.Lib.Run

/-!
# `AsyncExclusive`

Exclusive ownership of a resource.  An operation is data here: where the code calls one, the
functions return it, for the caller to run.  Such a call is the last thing each of the functions
does, so that nothing is left to do when the operation returns.
-/

namespace Mjlib.Micro

/-- `AsyncExclusive`: an empty slot is `none`. -/
structure AsyncExclusive (Op : Type*) where
  outstanding : Bool := false
  callbacks : List (Option Op)
deriving DecidableEq, Repr

namespace AsyncExclusive

variable {Op : Type*}

/-- Put the operation into the first empty slot. -/
def queue (operation : Op) : List (Option Op) → Option (List (Option Op))
  | [] => none
  | none :: items => some (some operation :: items)
  | some item :: items => (queue operation items).map (some item :: ·)

/-- Take the operation out of the first slot that has one. -/
def unqueue : List (Option Op) → Option (Op × List (Option Op))
  | [] => none
  | none :: items => (unqueue items).map fun p => (p.1, none :: p.2)
  | some item :: items => some (item, none :: items)

/-- `AsyncStart`, with the operation that it calls; none where the assertion fails. -/
def asyncStart (operation : Op) (e : AsyncExclusive Op) :
    Option (AsyncExclusive Op × Option Op) :=
  if !e.outstanding then some ({ e with outstanding := true }, some operation)
  else (queue operation e.callbacks).map fun callbacks =>
    ({ e with callbacks := callbacks }, none)

/-- `MaybeStartQueued`. -/
def maybeStartQueued (e : AsyncExclusive Op) : Option (AsyncExclusive Op × Option Op) :=
  if e.outstanding then none
  else match unqueue e.callbacks with
    | some (copy, callbacks) => asyncStart copy { e with callbacks := callbacks }
    | none => some (e, none)

/-- The callback that `AsyncStart` hands to an operation, to relinquish ownership. -/
def release (e : AsyncExclusive Op) : Option (AsyncExclusive Op × Option Op) :=
  maybeStartQueued { e with outstanding := false }

/-- The operations that wait. -/
def waiting (e : AsyncExclusive Op) : List Op := e.callbacks.reduceOption

/-- A new object with that many slots. -/
def init (maxLockers : ℕ) : AsyncExclusive Op := { callbacks := List.replicate maxLockers none }

/-! ### Runs -/

/-- A call of `AsyncStart`: how many came before it, and its operation. -/
structure Call (Op : Type*) where
  number : ℕ
  operation : Op
deriving DecidableEq, Repr

/-- What the code around the object does: any of it may happen while operations are on the call
stack, and an operation may release before it returns. -/
inductive Action (Op : Type*)
  | asyncStart (operation : Op)
  /-- The release callback of the operation that this call of `AsyncStart` was given. -/
  | release (number : ℕ)
  /-- The operation on top of the call stack returns. -/
  | «return»
deriving DecidableEq, Repr

/-- The object, and what has become of the calls. -/
structure State (Op : Type*) where
  exclusive : AsyncExclusive (Call Op)
  /-- The calls that did not fail. -/
  accepted : List (Call Op) := []
  started : List (Call Op) := []
  released : List ℕ := []
  /-- The operations on the call stack. -/
  running : List (Call Op) := []
deriving DecidableEq, Repr

namespace State

/-- The object with that many slots, before any call. -/
def init (maxLockers : ℕ) : State Op := { exclusive := AsyncExclusive.init maxLockers }

/-- The operations that own the resource: started, and not released yet. -/
def owners (s : State Op) : List (Call Op) :=
  s.started.filter fun call => call.number ∉ s.released

/-- The object has moved on, and perhaps called an operation. -/
def called (s : State Op) (result : AsyncExclusive (Call Op) × Option (Call Op)) : State Op :=
  { s with
    exclusive := result.1
    started := s.started ++ result.2.toList
    running := result.2.toList ++ s.running }

end State

/-- One action.  It is impossible to release what has not been started, to release twice, and to
return from nothing; what is left are the failures of assertions. -/
def step (s : State Op) : Action Op → Option (State Op)
  | .asyncStart operation =>
    let call : Call Op := ⟨s.accepted.length, operation⟩
    (s.exclusive.asyncStart call).map fun result =>
      { s with accepted := s.accepted ++ [call] }.called result
  | .release number =>
    if s.owners.any fun call => call.number == number then
      s.exclusive.release.map fun result =>
        { s with released := number :: s.released }.called result
    else none
  | .return =>
    match s.running with
    | [] => none
    | _ :: running => some { s with running := running }

end AsyncExclusive

end Mjlib.Micro
