import Mathlib
import Mjlib.Lib.Run

/-!
# `AtomicEventQueue`

Functions queued from any context, and run by a single poller.  Every atomic operation of `Queue` and
of `Poll`, and every access to the function of an entry, is one step: `queueStep` and `pollStep`
perform the next operation of a call, whose place in the code is its `pc`.  An assertion that fails
is kept in the state, which has no further steps then.
-/

namespace Mjlib.Micro.AtomicEventQueue

/-- `Entry`; an `inplace_function` may be empty. -/
structure Entry (φ : Type*) where
  state : BitVec 32 := 0
  function : Option φ := none
deriving DecidableEq, Repr

/-- Where a call of `Queue` is: what it does next. -/
inductive QueuePc
  /-- `entry.state.load()`. -/
  | load (i : ℕ)
  /-- `entry.state.fetch_or(0x01)`. -/
  | claim (i : ℕ)
  /-- `entry.function = function`. -/
  | store (i : ℕ)
  /-- `entry.state.fetch_or(0x02)`. -/
  | publish (i : ℕ)
  /-- `count_++`. -/
  | count
  /-- It has returned, and taken the function or not. -/
  | done (accepted : Bool)
deriving DecidableEq, Repr

/-- A call of `Queue`. -/
structure Call (φ : Type*) where
  function : φ
  ignoreFull : Bool
  pc : QueuePc
deriving DecidableEq, Repr

/-- Where the poller is. -/
inductive PollPc (φ : Type*)
  /-- No call of `Poll` is in progress. -/
  | idle
  /-- `count_.load()`. -/
  | count (i : ℕ)
  /-- `entry.state.load()`. -/
  | load (i : ℕ)
  /-- `entry.state.fetch_or(0x04)`. -/
  | mark (i : ℕ)
  /-- `auto copy = entry.function`. -/
  | copy (i : ℕ)
  /-- `entry.function = {}`. -/
  | clear (i : ℕ) (copy : Option φ)
  /-- `entry.state.fetch_and(0)`. -/
  | free (i : ℕ) (copy : Option φ)
  /-- `copy()`. -/
  | run (i : ℕ) (copy : Option φ)
  /-- `count_--`. -/
  | uncount (i : ℕ)
deriving DecidableEq, Repr

/-- What may go wrong. -/
inductive Failure
  /-- `MJ_ASSERT(should_be_1 == 1)`. -/
  | shouldBe1
  /-- The assertion of a `Queue` that finds no entry. -/
  | full
  /-- `MJ_ASSERT(should_be_three == 0x03)`. -/
  | shouldBeThree
  /-- `MJ_ASSERT(should_be_7 == 0x07)`. -/
  | shouldBe7
  /-- The assertion of a `Poll` that meets another one. -/
  | otherPoller
  /-- An empty function is called. -/
  | emptyFunction
deriving DecidableEq, Repr

/-- The queue, the calls of `Queue` so far, the poller, and the functions that were run. -/
structure State (φ : Type*) where
  entries : List (Entry φ)
  /-- `count_`; there are no more increments on the way than entries. -/
  count : ℤ := 0
  calls : List (Call φ) := []
  poll : PollPc φ := .idle
  ran : List φ := []
  failure : Option Failure := none
deriving DecidableEq, Repr

/-- A queue of the given size. -/
def init (φ : Type*) (size : ℕ) : State φ := { entries := List.replicate size {} }

variable {φ : Type*}

namespace State

variable (s : State φ)

/-- Change the entry with an index. -/
def setEntry (i : ℕ) (entry : Entry φ) : State φ := { s with entries := s.entries.set i entry }

/-- Change where a call is. -/
def setPc (k : ℕ) (c : Call φ) (pc : QueuePc) : State φ :=
  { s with calls := s.calls.set k { c with pc } }

/-- Change where the poller is. -/
def setPoll (poll : PollPc φ) : State φ := { s with poll }

/-- End the run. -/
def fail (failure : Failure) : State φ := { s with failure := some failure }

/-- `Queue` goes on with an entry, or comes to the end of its loop. -/
def scan (k : ℕ) (c : Call φ) (i : ℕ) : State φ :=
  if i < s.entries.length then s.setPc k c (.load i)
  else if c.ignoreFull then s.setPc k c (.done false)
  else s.fail .full

/-- The next operation of a call of `Queue`. -/
def queueStep (k : ℕ) (c : Call φ) : Option (State φ) :=
  match c.pc with
  | .load i => do
    let entry ← s.entries[i]?
    if entry.state = 0 then return s.setPc k c (.claim i) else return s.scan k c (i + 1)
  | .claim i => do
    let entry ← s.entries[i]?
    let s := s.setEntry i { entry with state := entry.state ||| 0x01 }
    -- someone else got to it first
    if entry.state ≠ 0 then return s.scan k c (i + 1) else return s.setPc k c (.store i)
  | .store i => do
    let entry ← s.entries[i]?
    return (s.setEntry i { entry with function := some c.function }).setPc k c (.publish i)
  | .publish i => do
    let entry ← s.entries[i]?
    let s := s.setEntry i { entry with state := entry.state ||| 0x02 }
    if entry.state = 1 then return s.setPc k c .count else return s.fail .shouldBe1
  | .count => some ({ s with count := s.count + 1 }.setPc k c (.done true))
  | .done _ => none

/-- `Poll` goes on with an entry, or comes to the end of its loop. -/
def pollFrom (i : ℕ) : State φ := s.setPoll (if i < s.entries.length then .count i else .idle)

/-- The next operation of the poller. -/
def pollStep : Option (State φ) :=
  match s.poll with
  | .idle => none
  | .count i => some (s.setPoll (if s.count = 0 then .idle else .load i))
  | .load i => do
    let entry ← s.entries[i]?
    if entry.state = 0x03 then return s.setPoll (.mark i)
    else if entry.state = 0x07 then return s.fail .otherPoller
    else return s.pollFrom (i + 1)
  | .mark i => do
    let entry ← s.entries[i]?
    let s := s.setEntry i { entry with state := entry.state ||| 0x04 }
    if entry.state = 0x03 then return s.setPoll (.copy i) else return s.fail .shouldBeThree
  | .copy i => do
    let entry ← s.entries[i]?
    return s.setPoll (.clear i entry.function)
  | .clear i copy => do
    let entry ← s.entries[i]?
    return (s.setEntry i { entry with function := none }).setPoll (.free i copy)
  | .free i copy => do
    let entry ← s.entries[i]?
    let s := s.setEntry i { entry with state := entry.state &&& 0 }
    if entry.state = 0x07 then return s.setPoll (.run i copy) else return s.fail .shouldBe7
  | .run i copy =>
    match copy with
    | some function => some ({ s with ran := s.ran ++ [function] }.setPoll (.uncount i))
    | none => some (s.fail .emptyFunction)
  | .uncount i => some ({ s with count := s.count - 1 }.pollFrom (i + 1))

end State

/-! ### Runs -/

/-- What can happen. -/
inductive Action (φ : Type*)
  /-- `Queue` is called, in any context. -/
  | queue (function : φ) (ignoreFull : Bool)
  /-- The given call of `Queue` performs its next operation. -/
  | queueStep (k : ℕ)
  /-- `Poll` is called, by the single poller. -/
  | poll
  /-- The poller performs its next operation. -/
  | pollStep
deriving DecidableEq, Repr

/-- One step; `none` where the action is not possible, as after a failure. -/
def step (s : State φ) (a : Action φ) : Option (State φ) :=
  if s.failure.isSome then none
  else match a with
    | .queue function ignoreFull =>
      let c : Call φ := { function, ignoreFull, pc := .done false }
      some ({ s with calls := s.calls ++ [c] }.scan s.calls.length c 0)
    | .queueStep k => s.calls[k]?.bind (s.queueStep k)
    | .poll =>
      match s.poll with
      | .idle => some (s.pollFrom 0)
      | _ => none
    | .pollStep => s.pollStep

end Mjlib.Micro.AtomicEventQueue
