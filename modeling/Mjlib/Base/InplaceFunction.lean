import Mathlib

/-!
# `inplace_function`

Functions that keep a closure in a storage of their own.  The state has the objects in the storages:
what a placement new makes and a destructor call ends, with a number of its own for each.  An access
to an object that is not there, or of another type, and an object that is too large for its storage,
are undefined behaviour.
-/

namespace Mjlib.Base.InplaceFunction

/-- Where an object may be: in a function, in the parameter of `operator=`, in `tmp` of `swap`. -/
inductive Address
  | fn (i : ℕ)
  | other
  | tmp
deriving DecidableEq, Repr

-- the types of closures, and their values
variable {κ V : Type}

/-- An object of a closure type. -/
structure Object (κ V : Type) where
  number : ℕ
  type : κ
  value : V
deriving DecidableEq, Repr

/-- The members of an `inplace_function` of some capacity; `vtable_ptr_` is that of a closure type,
or `empty_vtable`. -/
structure Members (κ : Type) where
  capacity : ℕ
  size : ℕ := 0
  vtable : Option κ := none
deriving DecidableEq, Repr

/-- The functions and the objects. -/
structure State (κ V : Type) where
  members : Address → Option (Members κ) := fun _ => none
  storage : Address → Option (Object κ V) := fun _ => none
  /-- How many objects there have been. -/
  constructed : ℕ := 0
  /-- The objects that have ended, by their numbers. -/
  destroyed : List ℕ := []
  /-- An `MJ_ASSERT` has failed. -/
  aborted : Bool := false
  undefined : Bool := false

-- `sizeof`
variable (size : κ → ℕ)

namespace State

/-- Assign to the members of a function, or create or end it. -/
def setMembers (a : Address) (members : Option (Members κ)) (s : State κ V) : State κ V :=
  { s with members := Function.update s.members a members }

/-- A placement new in a storage of some capacity. -/
def construct (capacity : ℕ) (type : κ) (a : Address) (value : V) (s : State κ V) : State κ V :=
  if size type ≤ capacity then
    { s with
      storage := Function.update s.storage a (some ⟨s.constructed, type, value⟩)
      constructed := s.constructed + 1 }
  else { s with undefined := true }

variable [DecidableEq κ]

/-- The destructor of a closure type. -/
def destroy (type : κ) (a : Address) (s : State κ V) : State κ V :=
  match s.storage a with
  | none => { s with undefined := true }
  | some object =>
    if object.type = type then
      { s with
        storage := Function.update s.storage a none
        destroyed := s.destroyed ++ [object.number] }
    else { s with undefined := true }

/-! ### `vtable` -/

/-- `copy_ptr`, to a storage of some capacity. -/
def copyPtr (vtable : Option κ) (capacity : ℕ) (dst src : Address) (s : State κ V) : State κ V :=
  match vtable with
  | none => s
  | some type =>
    match s.storage src with
    | none => { s with undefined := true }
    | some object =>
      if object.type = type then s.construct size capacity type dst object.value
      else { s with undefined := true }

/-- `destructor_ptr`. -/
def destructorPtr (vtable : Option κ) (a : Address) (s : State κ V) : State κ V :=
  match vtable with
  | none => s
  | some type => s.destroy type a

/-- `relocate_ptr`, to a storage of some capacity. -/
def relocatePtr (vtable : Option κ) (capacity : ℕ) (dst src : Address) (s : State κ V) :
    State κ V :=
  (s.copyPtr size vtable capacity dst src).destructorPtr vtable src

/-! ### Members -/

/-- `inplace_function()` and `inplace_function(nullptr)`. -/
def constructEmpty (a : Address) (capacity : ℕ) (s : State κ V) : State κ V :=
  s.setMembers a (some { capacity })

/-- `inplace_function(T&&)`, of a closure. -/
def constructClosure (a : Address) (capacity : ℕ) (type : κ) (value : V) (s : State κ V) :
    State κ V :=
  (s.setMembers a (some ⟨capacity, size type, some type⟩)).construct size capacity type a value

/-- The copy constructors; that from another capacity asserts afterwards that the closure fits. -/
def copyConstruct (a : Address) (capacity : ℕ) (b : Address) (other : Members κ) (s : State κ V) :
    State κ V :=
  let s := (s.setMembers a (some ⟨capacity, other.size, other.vtable⟩)).copyPtr size other.vtable
    capacity a b
  -- `MJ_ASSERT`, when the closure is already there
  if capacity = other.capacity ∨ other.size ≤ capacity then s else { s with aborted := true }

/-- The move constructors, likewise. -/
def moveConstruct (a : Address) (capacity : ℕ) (b : Address) (other : Members κ) (s : State κ V) :
    State κ V :=
  let s := (s.setMembers a (some ⟨capacity, other.size, other.vtable⟩)).relocatePtr size
    other.vtable capacity a b
  if capacity = other.capacity ∨ other.size ≤ capacity then
    -- `other.size_` stays
    s.setMembers b (some { other with vtable := none })
  else { s with aborted := true }

/-- `operator=(nullptr)`. -/
def assignNull (a : Address) (this : Members κ) (s : State κ V) : State κ V :=
  (s.destructorPtr this.vtable a).setMembers a (some { this with size := 0, vtable := none })

/-- `operator=`, of a parameter. -/
def assign (a : Address) (this other : Members κ) (s : State κ V) : State κ V :=
  let s := s.destructorPtr this.vtable a
  let s := s.setMembers .other (some { other with vtable := none })
  let s := s.relocatePtr size other.vtable this.capacity a .other
  s.setMembers a (some { this with size := other.size, vtable := other.vtable })

/-- `~inplace_function`. -/
def destruct (a : Address) (this : Members κ) (s : State κ V) : State κ V :=
  (s.destructorPtr this.vtable a).setMembers a none

/-- `swap`, of two different functions of the same capacity. -/
def swap (a b : Address) (this other : Members κ) (s : State κ V) : State κ V :=
  let s := s.relocatePtr size this.vtable this.capacity .tmp a
  let s := s.relocatePtr size other.vtable this.capacity a b
  let s := s.relocatePtr size this.vtable this.capacity b .tmp
  (s.setMembers a (some { this with size := other.size, vtable := other.vtable })).setMembers b
    (some { other with size := this.size, vtable := this.vtable })

/-- The assignment from the parameter, and its end. -/
def assignParameter (a : Address) (this : Members κ) (s : State κ V) : State κ V :=
  match s.members .other with
  | none => s
  | some other =>
    if s.aborted then s
    else (s.assign size a this other).destruct .other { other with vtable := none }

end State

/-! ### Runs -/

/-- What a program does with its functions. -/
inductive Op (κ V : Type)
  | constructEmpty (i capacity : ℕ)
  | constructClosure (i capacity : ℕ) (type : κ) (value : V)
  | copyConstruct (i capacity j : ℕ)
  | moveConstruct (i capacity j : ℕ)
  | assignNull (i : ℕ)
  | assignClosure (i : ℕ) (type : κ) (value : V)
  | copyAssign (i j : ℕ)
  | moveAssign (i j : ℕ)
  | swap (i j : ℕ)
  | destruct (i : ℕ)

variable [DecidableEq κ]

/-- An operation; it needs that the functions are there, or not, as the language and the
`static_assert`s want it. -/
def step (s : State κ V) (op : Op κ V) : Option (State κ V) :=
  if s.aborted then none
  else
    match op with
    | .constructEmpty i capacity =>
      if s.members (.fn i) = none then some (s.constructEmpty (.fn i) capacity) else none
    | .constructClosure i capacity type value =>
      if s.members (.fn i) = none ∧ size type ≤ capacity then
        some (s.constructClosure size (.fn i) capacity type value)
      else none
    | .copyConstruct i capacity j =>
      if s.members (.fn i) = none then
        (s.members (.fn j)).map fun other => s.copyConstruct size (.fn i) capacity (.fn j) other
      else none
    | .moveConstruct i capacity j =>
      if s.members (.fn i) = none then
        (s.members (.fn j)).map fun other => s.moveConstruct size (.fn i) capacity (.fn j) other
      else none
    | .assignNull i => (s.members (.fn i)).map fun this => s.assignNull (.fn i) this
    | .assignClosure i type value =>
      (s.members (.fn i)).bind fun this =>
        if size type ≤ this.capacity then
          some ((s.constructClosure size .other this.capacity type value).assignParameter size
            (.fn i) this)
        else none
    | .copyAssign i j =>
      (s.members (.fn i)).bind fun this => (s.members (.fn j)).map fun other =>
        (s.copyConstruct size .other this.capacity (.fn j) other).assignParameter size (.fn i) this
    | .moveAssign i j =>
      (s.members (.fn i)).bind fun this => (s.members (.fn j)).map fun other =>
        let s := s.moveConstruct size .other this.capacity (.fn j) other
        -- the members may have been moved from themselves
        s.assignParameter size (.fn i) ((s.members (.fn i)).getD this)
    | .swap i j =>
      (s.members (.fn i)).bind fun this => (s.members (.fn j)).bind fun other =>
        if this.capacity ≠ other.capacity then none
        -- `swap` with itself returns at once
        else some (if i = j then s else s.swap size (.fn i) (.fn j) this other)
    | .destruct i => (s.members (.fn i)).map fun this => s.destruct (.fn i) this

end Mjlib.Base.InplaceFunction
