import Mathlib
import Mjlib.Base.InplaceFunction
import Mjlib.Lib.Run

/-!
# Does an `inplace_function` end every closure that it starts?

`held_of_run`: functions are values, as if each had a closure or none (`spec`).
`accounted_of_run`: in every run each object that was ever constructed has ended once, or is the
closure of one function.  The assertion of a conversion to another capacity comes after the copy:
`defined_iff` says that a run is without undefined behaviour if and only if every closure that is
converted fits, and `aborted_iff` that the assertion then fails only for what a move has left.
-/

namespace Mjlib.Base.InplaceFunction

variable {κ V : Type} {size : κ → ℕ} {s s' : State κ V} {a b : Address}

/-! ### The objects -/

/-- What is in a storage. -/
def State.value (s : State κ V) (a : Address) : Option (κ × V) :=
  (s.storage a).map fun object => (object.type, object.value)

/-- Every object has a number of its own, and has ended once or is in one storage. -/
structure Numbered (s : State κ V) : Prop where
  lt_of_storage : ∀ a object, s.storage a = some object → object.number < s.constructed
  lt_of_destroyed : ∀ n ∈ s.destroyed, n < s.constructed
  nodup : s.destroyed.Nodup
  disjoint : ∀ a object, s.storage a = some object → object.number ∉ s.destroyed
  inj : ∀ a b object object', s.storage a = some object → s.storage b = some object' →
    object.number = object'.number → a = b
  complete : ∀ n < s.constructed,
    n ∈ s.destroyed ∨ ∃ a object, s.storage a = some object ∧ object.number = n

theorem update_some_eq_some {β : Type} {f : Address → Option β} {x : Address} {object other : β} :
    Function.update f a (some object) x = some other ↔
      x = a ∧ object = other ∨ x ≠ a ∧ f x = some other := by
  rw [Function.update_apply]
  split_ifs with h
  · simp [h]
  · simp [h]

theorem update_none_eq_some {β : Type} {f : Address → Option β} {x : Address} {other : β} :
    Function.update f a none x = some other ↔ x ≠ a ∧ f x = some other := by
  rw [Function.update_apply]
  split_ifs with h
  · simp [h]
  · simp [h]

/-- A new object in a storage without one. -/
theorem Numbered.construct (h : Numbered s) (ha : s.storage a = none) (type : κ) (value : V) :
    Numbered { s with
      storage := Function.update s.storage a (some ⟨s.constructed, type, value⟩)
      constructed := s.constructed + 1 } where
  lt_of_storage := by
    intro x object hx
    rcases update_some_eq_some.mp hx with ⟨-, rfl⟩ | ⟨-, hx⟩
    · exact Nat.lt_succ_self _
    · exact Nat.lt_succ_of_lt (h.lt_of_storage x object hx)
  lt_of_destroyed n hn := Nat.lt_succ_of_lt (h.lt_of_destroyed n hn)
  nodup := h.nodup
  disjoint := by
    intro x object hx
    rcases update_some_eq_some.mp hx with ⟨-, rfl⟩ | ⟨-, hx⟩
    · exact fun hmem => absurd (h.lt_of_destroyed _ hmem) (lt_irrefl _)
    · exact h.disjoint x object hx
  inj := by
    intro x y object object' hx hy hnumber
    -- the number of the new object is larger than that of any other
    rcases update_some_eq_some.mp hx with ⟨rfl, rfl⟩ | ⟨-, hx⟩
    · rcases update_some_eq_some.mp hy with ⟨rfl, -⟩ | ⟨-, hy⟩
      · rfl
      · have hlt := h.lt_of_storage y object' hy
        rw [← hnumber] at hlt
        exact absurd hlt (lt_irrefl _)
    · rcases update_some_eq_some.mp hy with ⟨-, rfl⟩ | ⟨-, hy⟩
      · have hlt := h.lt_of_storage x object hx
        rw [hnumber] at hlt
        exact absurd hlt (lt_irrefl _)
      · exact h.inj x y object object' hx hy hnumber
  complete := by
    intro n hn
    rcases Nat.lt_succ_iff_lt_or_eq.mp hn with hlt | rfl
    · rcases h.complete n hlt with hmem | ⟨x, object, hx, hnumber⟩
      · exact Or.inl hmem
      · refine Or.inr ⟨x, object, update_some_eq_some.mpr (Or.inr ⟨?_, hx⟩), hnumber⟩
        rintro rfl
        rw [ha] at hx
        cases hx
    · exact Or.inr ⟨a, _, update_some_eq_some.mpr (Or.inl ⟨rfl, rfl⟩), rfl⟩

/-- The end of an object. -/
theorem Numbered.destroy (h : Numbered s) {object : Object κ V} (ha : s.storage a = some object) :
    Numbered { s with
      storage := Function.update s.storage a none
      destroyed := s.destroyed ++ [object.number] } where
  lt_of_storage x other hx := h.lt_of_storage x other (update_none_eq_some.mp hx).2
  lt_of_destroyed := by
    intro n hn
    rcases List.mem_append.mp hn with hn | hn
    · exact h.lt_of_destroyed n hn
    · rw [List.mem_singleton.mp hn]
      exact h.lt_of_storage a object ha
  nodup := by
    refine List.nodup_append.mpr ⟨h.nodup, List.nodup_singleton _, ?_⟩
    intro n hn m hm
    rw [List.mem_singleton.mp hm]
    rintro rfl
    exact h.disjoint a object ha hn
  disjoint := by
    intro x other hx hmem
    obtain ⟨hne, hx⟩ := update_none_eq_some.mp hx
    rcases List.mem_append.mp hmem with hmem | hmem
    · exact h.disjoint x other hx hmem
    · exact hne (h.inj x a other object hx ha (List.mem_singleton.mp hmem))
  inj x y other other' hx hy :=
    h.inj x y other other' (update_none_eq_some.mp hx).2 (update_none_eq_some.mp hy).2
  complete := by
    intro n hn
    rcases h.complete n hn with hmem | ⟨x, other, hx, hnumber⟩
    · exact Or.inl (List.mem_append_left _ hmem)
    · by_cases hxa : x = a
      · subst hxa
        rw [ha] at hx
        cases hx
        exact Or.inl (List.mem_append_right _ (List.mem_singleton.mpr hnumber.symm))
      · exact Or.inr ⟨x, other, update_none_eq_some.mpr ⟨hxa, hx⟩, hnumber⟩

/-- The objects in the storages, and no undefined behaviour so far. -/
structure Heap (s : State κ V) (content : Address → Option (κ × V)) : Prop where
  undefined_eq : s.undefined = false
  value_eq : s.value = content
  numbered : Numbered s

section Heap

variable {content : Address → Option (κ × V)} {type : κ} {vtable : Option κ} {capacity : ℕ}

theorem State.value_update (object : Option (Object κ V)) :
    ({ s with storage := Function.update s.storage a object } : State κ V).value =
      Function.update s.value a (object.map fun object => (object.type, object.value)) := by
  funext x
  show Option.map _ (Function.update s.storage a object x) = Function.update s.value a _ x
  rw [Function.update_apply, Function.update_apply]
  split_ifs
  · rfl
  · rfl

theorem Heap.construct (h : Heap s content) (ha : content a = none) (hfit : size type ≤ capacity)
    (value : V) : Heap (s.construct size capacity type a value)
      (Function.update content a (some (type, value))) := by
  have hnone : s.storage a = none := by
    rw [← h.value_eq] at ha
    exact Option.map_eq_none_iff.mp ha
  rw [State.construct, if_pos hfit]
  refine ⟨h.undefined_eq, ?_, h.numbered.construct hnone type value⟩
  rw [← h.value_eq]
  exact State.value_update _

section Access

variable [DecidableEq κ]

theorem Heap.destroy (h : Heap s content) (ha : (content a).map Prod.fst = some type) :
    Heap (s.destroy type a) (Function.update content a none) := by
  rw [← h.value_eq, State.value, Option.map_map] at ha
  obtain ⟨object, hobject, htype⟩ : ∃ object, s.storage a = some object ∧ object.type = type :=
    Option.map_eq_some_iff.mp ha
  rw [State.destroy, hobject]
  dsimp only
  rw [if_pos htype]
  refine ⟨h.undefined_eq, ?_, h.numbered.destroy hobject⟩
  rw [← h.value_eq]
  exact State.value_update _

theorem Heap.destructorPtr (h : Heap s content) (ha : (content a).map Prod.fst = vtable) :
    Heap (s.destructorPtr vtable a) (Function.update content a none) := by
  cases vtable with
  | none =>
    have hnone : content a = none := Option.map_eq_none_iff.mp ha
    rw [← hnone, Function.update_eq_self]
    exact h
  | some type => exact h.destroy ha

theorem Heap.copyPtr (h : Heap s content) (hb : (content b).map Prod.fst = vtable)
    (ha : content a = none) (hfit : ∀ type ∈ vtable, size type ≤ capacity) :
    Heap (s.copyPtr size vtable capacity a b) (Function.update content a (content b)) := by
  cases vtable with
  | none =>
    rw [Option.map_eq_none_iff.mp hb, ← ha, Function.update_eq_self]
    exact h
  | some type =>
    obtain ⟨object, hobject, htype⟩ : ∃ object, s.storage b = some object ∧ object.type = type := by
      rw [← h.value_eq, State.value, Option.map_map] at hb
      exact Option.map_eq_some_iff.mp hb
    have hcontent : content b = some (type, object.value) := by
      rw [← h.value_eq, State.value, hobject, ← htype]
      rfl
    rw [State.copyPtr, hobject]
    dsimp only
    rw [if_pos htype, hcontent]
    exact h.construct ha (hfit type rfl) object.value

theorem Heap.relocatePtr (h : Heap s content) (a b : Address)
    (hb : (content b).map Prod.fst = vtable) (ha : content a = none)
    (hfit : ∀ type ∈ vtable, size type ≤ capacity) (hne : b ≠ a) :
    Heap (s.relocatePtr size vtable capacity a b)
      (Function.update (Function.update content a (content b)) b none) := by
  refine (h.copyPtr hb ha hfit).destructorPtr ?_
  rw [Function.update_of_ne hne, hb]

end Access

theorem Heap.congr {content' : Address → Option (κ × V)} (h : Heap s content)
    (heq : content = content') : Heap s content' := heq ▸ h

theorem Heap.setMembers (h : Heap s content) (a : Address) (members : Option (Members κ)) :
    Heap (s.setMembers a members) content where
  undefined_eq := h.undefined_eq
  value_eq := h.value_eq
  numbered :=
    { lt_of_storage := h.numbered.lt_of_storage
      lt_of_destroyed := h.numbered.lt_of_destroyed
      nodup := h.numbered.nodup
      disjoint := h.numbered.disjoint
      inj := h.numbered.inj
      complete := h.numbered.complete }

theorem Heap.abort (h : Heap s content) : Heap { s with aborted := true } content where
  undefined_eq := h.undefined_eq
  value_eq := h.value_eq
  numbered :=
    { lt_of_storage := h.numbered.lt_of_storage
      lt_of_destroyed := h.numbered.lt_of_destroyed
      nodup := h.numbered.nodup
      disjoint := h.numbered.disjoint
      inj := h.numbered.inj
      complete := h.numbered.complete }

end Heap

/-! ### The members -/

section Members

variable (type : κ) (vtable : Option κ) (capacity : ℕ) (value : V)

@[simp] theorem members_setMembers (members : Option (Members κ)) :
    (s.setMembers a members).members = Function.update s.members a members := rfl

@[simp] theorem aborted_setMembers (members : Option (Members κ)) :
    (s.setMembers a members).aborted = s.aborted := rfl

/-- The functions on storages leave everything else as it is. -/
@[simp] theorem construct_frame :
    (s.construct size capacity type a value).members = s.members ∧
      (s.construct size capacity type a value).aborted = s.aborted := by
  unfold State.construct
  split_ifs
  · exact ⟨rfl, rfl⟩
  · exact ⟨rfl, rfl⟩

variable [DecidableEq κ]

@[simp] theorem destroy_frame :
    (s.destroy type a).members = s.members ∧ (s.destroy type a).aborted = s.aborted := by
  unfold State.destroy
  cases s.storage a with
  | none => exact ⟨rfl, rfl⟩
  | some object =>
    dsimp only
    split_ifs
    · exact ⟨rfl, rfl⟩
    · exact ⟨rfl, rfl⟩

@[simp] theorem destructorPtr_frame :
    (s.destructorPtr vtable a).members = s.members ∧
      (s.destructorPtr vtable a).aborted = s.aborted := by
  cases vtable with
  | none => exact ⟨rfl, rfl⟩
  | some type => exact destroy_frame type

@[simp] theorem copyPtr_frame :
    (s.copyPtr size vtable capacity a b).members = s.members ∧
      (s.copyPtr size vtable capacity a b).aborted = s.aborted := by
  cases vtable with
  | none => exact ⟨rfl, rfl⟩
  | some type =>
    unfold State.copyPtr
    cases s.storage b with
    | none => exact ⟨rfl, rfl⟩
    | some object =>
      dsimp only
      split_ifs
      · exact construct_frame type capacity object.value
      · exact ⟨rfl, rfl⟩

@[simp] theorem relocatePtr_frame :
    (s.relocatePtr size vtable capacity a b).members = s.members ∧
      (s.relocatePtr size vtable capacity a b).aborted = s.aborted := by
  obtain ⟨hmembers, haborted⟩ :=
    destructorPtr_frame (s := s.copyPtr size vtable capacity a b) (a := b) vtable
  obtain ⟨hmembers', haborted'⟩ : (s.copyPtr size vtable capacity a b).members = s.members ∧
      (s.copyPtr size vtable capacity a b).aborted = s.aborted := copyPtr_frame vtable capacity
  exact ⟨hmembers.trans hmembers', haborted.trans haborted'⟩

end Members

/-! ### Functions -/

/-- The members of the functions tell what is in their storages. -/
structure Matches (size : κ → ℕ) (content : Address → Option (κ × V))
    (members : Address → Option (Members κ)) : Prop where
  holds : ∀ a, (content a).map Prod.fst = (members a).bind Members.vtable
  fits : ∀ a this type, members a = some this → this.vtable = some type →
    this.size = size type ∧ size type ≤ this.capacity

namespace Matches

variable {content : Address → Option (κ × V)} {members : Address → Option (Members κ)}
  {this : Members κ}

theorem map_eq (h : Matches size content members) (ha : members a = some this) :
    (content a).map Prod.fst = this.vtable := by
  rw [h.holds, ha, Option.bind_some]

theorem eq_none (h : Matches size content members) (ha : members a = none) : content a = none := by
  have hholds := h.holds a
  rw [ha, Option.bind_none] at hholds
  exact Option.map_eq_none_iff.mp hholds

/-- A function changes together with its storage. -/
theorem update (h : Matches size content members) (a : Address) (held : Option (κ × V))
    (this : Option (Members κ)) (hheld : held.map Prod.fst = this.bind Members.vtable)
    (hfits : ∀ members type, this = some members → members.vtable = some type →
      members.size = size type ∧ size type ≤ members.capacity) :
    Matches size (Function.update content a held) (Function.update members a this) where
  holds := by
    intro x
    rw [Function.update_apply, Function.update_apply]
    split_ifs
    · exact hheld
    · exact h.holds x
  fits := by
    intro x members type hx
    rw [Function.update_apply] at hx
    split_ifs at hx
    · exact hfits members type hx
    · exact h.fits x members type hx

/-- A function without a closure. -/
theorem update_empty (h : Matches size content members) (a : Address) (this : Members κ)
    (hthis : this.vtable = none) :
    Matches size (Function.update content a none) (Function.update members a (some this)) := by
  refine h.update a none (some this) (by rw [Option.map_none, Option.bind_some, hthis]) ?_
  intro members type hmembers htype
  rw [← Option.some.inj hmembers, hthis] at htype
  cases htype

/-- The end of a function. -/
theorem update_none (h : Matches size content members) (a : Address) :
    Matches size (Function.update content a none) (Function.update members a none) :=
  h.update a none none rfl fun _ _ hnone => by cases hnone

/-- A function with a new closure. -/
theorem update_closure (h : Matches size content members) (a : Address) {type : κ} {capacity : ℕ}
    (hsize : size type ≤ capacity) (value : V) :
    Matches size (Function.update content a (some (type, value)))
      (Function.update members a (some ⟨capacity, size type, some type⟩)) := by
  refine h.update a _ _ rfl ?_
  intro members other heq htype
  obtain rfl := Option.some.inj heq
  obtain rfl := Option.some.inj htype
  exact ⟨rfl, hsize⟩

/-- A function with the closure of another. -/
theorem update_copy (h : Matches size content members) (a : Address) {b : Address} {capacity : ℕ}
    (hb : members b = some this) (hfit : ∀ type ∈ this.vtable, size type ≤ capacity) :
    Matches size (Function.update content a (content b))
      (Function.update members a (some ⟨capacity, this.size, this.vtable⟩)) := by
  refine h.update a _ _ (by rw [h.map_eq hb, Option.bind_some]) ?_
  intro members type heq htype
  obtain rfl := Option.some.inj heq
  exact ⟨(h.fits b this type hb htype).1, hfit type htype⟩

end Matches

/-- What the functions hold: a closure, or none. -/
def heldOf (content : Address → Option (κ × V)) (members : Address → Option (Members κ)) (i : ℕ) :
    Option (Option (κ × V)) :=
  (members (.fn i)).map fun _ => content (.fn i)

section Held

variable {content : Address → Option (κ × V)} {members : Address → Option (Members κ)}

theorem heldOf_update (i : ℕ) (held : Option (κ × V)) (this : Option (Members κ)) :
    heldOf (Function.update content (.fn i) held) (Function.update members (.fn i) this)
      = Function.update (heldOf content members) i (this.map fun _ => held) := by
  funext x
  rw [Function.update_apply]
  unfold heldOf
  rw [Function.update_apply, Function.update_apply]
  by_cases h : x = i
  · rw [if_pos (congrArg Address.fn h), if_pos (congrArg Address.fn h), if_pos h]
  · have hne : Address.fn x ≠ Address.fn i := fun heq => h (Address.fn.inj heq)
    rw [if_neg hne, if_neg hne, if_neg h]

theorem heldOf_update_other (held : Option (κ × V)) (this : Option (Members κ)) :
    heldOf (Function.update content .other held) (Function.update members .other this)
      = heldOf content members := by
  funext x
  unfold heldOf
  rw [Function.update_of_ne (by simp), Function.update_of_ne (by simp)]

end Held

/-- What the functions hold in a state. -/
def held (s : State κ V) : ℕ → Option (Option (κ × V)) := heldOf s.value s.members

/-- The purpose of an operation: functions are values. -/
def spec (held : ℕ → Option (Option (κ × V))) : Op κ V → ℕ → Option (Option (κ × V))
  | .constructEmpty i _ => Function.update held i (some none)
  | .constructClosure i _ type value => Function.update held i (some (some (type, value)))
  | .copyConstruct i _ j => Function.update held i (held j)
  | .moveConstruct i _ j => Function.update (Function.update held j (some none)) i (held j)
  | .assignNull i => Function.update held i (some none)
  | .assignClosure i type value => Function.update held i (some (some (type, value)))
  | .copyAssign i j => Function.update held i (held j)
  | .moveAssign i j => Function.update (Function.update held j (some none)) i (held j)
  | .swap i j => Function.update (Function.update held i (held j)) j (held i)
  | .destruct i => Function.update held i none

/-! ### Operations -/

section Operations

variable [DecidableEq κ] {content : Address → Option (κ × V)} {this other : Members κ}
  {capacity : ℕ}

theorem heap_copyConstruct (h : Heap s content) (hmatch : Matches size content s.members)
    (ha : s.members a = none) (hb : s.members b = some other)
    (hfit : ∀ type ∈ other.vtable, size type ≤ capacity) :
    Heap (s.copyConstruct size a capacity b other) (Function.update content a (content b)) := by
  have hcopy := (h.setMembers a (some ⟨capacity, other.size, other.vtable⟩)).copyPtr
    (hmatch.map_eq hb) (hmatch.eq_none ha) hfit
  unfold State.copyConstruct
  dsimp only
  split_ifs
  · exact hcopy
  · exact hcopy.abort

theorem members_copyConstruct :
    (s.copyConstruct size a capacity b other).members
      = Function.update s.members a (some ⟨capacity, other.size, other.vtable⟩) := by
  unfold State.copyConstruct
  dsimp only
  split_ifs
  · simp
  · simp

theorem heap_moveConstruct (h : Heap s content) (hmatch : Matches size content s.members)
    (ha : s.members a = none) (hb : s.members b = some other)
    (hfit : ∀ type ∈ other.vtable, size type ≤ capacity) :
    Heap (s.moveConstruct size a capacity b other)
      (Function.update (Function.update content a (content b)) b none) := by
  have hne : b ≠ a := by
    rintro rfl
    rw [ha] at hb
    cases hb
  have hmove := (h.setMembers a (some ⟨capacity, other.size, other.vtable⟩)).relocatePtr a b
    (hmatch.map_eq hb) (hmatch.eq_none ha) hfit hne
  unfold State.moveConstruct
  dsimp only
  split_ifs
  · exact hmove.setMembers _ _
  · exact hmove.abort

theorem members_moveConstruct
    (h : (s.moveConstruct size a capacity b other).aborted = false) :
    (s.moveConstruct size a capacity b other).members
      = Function.update (Function.update s.members a (some ⟨capacity, other.size, other.vtable⟩)) b
        (some { other with vtable := none }) := by
  unfold State.moveConstruct at h ⊢
  dsimp only at h ⊢
  split_ifs at h ⊢
  · simp

/-- The assignment of the parameter. -/
theorem heap_assignParameter {i : ℕ} (h : Heap s content) (hmatch : Matches size content s.members)
    (haborted : s.aborted = false) (ha : s.members (.fn i) = some this)
    (hother : s.members .other = some other)
    (hfit : ∀ type ∈ other.vtable, size type ≤ this.capacity) :
    Heap (s.assignParameter size (.fn i) this)
        (Function.update (Function.update content (.fn i) (content .other)) .other none) ∧
      (s.assignParameter size (.fn i) this).members
        = Function.update (Function.update s.members (.fn i)
          (some { this with size := other.size, vtable := other.vtable })) .other none := by
  have hne : Address.other ≠ Address.fn i := by simp
  have hassign : s.assignParameter size (.fn i) this
      = (s.assign size (.fn i) this other).destruct .other { other with vtable := none } := by
    rw [State.assignParameter, hother]
    dsimp only
    rw [haborted, if_neg Bool.false_ne_true]
  rw [hassign]
  constructor
  · have hended := h.destructorPtr (hmatch.map_eq ha)
    have hcontent : (Function.update content (.fn i) none) .other = content .other :=
      Function.update_of_ne hne _ _
    have hparameter : ((Function.update content (.fn i) none) .other).map Prod.fst
        = other.vtable := by
      rw [hcontent, hmatch.map_eq hother]
    have hmoved := (hended.setMembers .other (some { other with vtable := none })).relocatePtr
      (.fn i) .other hparameter (Function.update_self _ _ _) hfit hne
    rw [hcontent, Function.update_idem] at hmoved
    exact (hmoved.setMembers _ _).setMembers _ _
  · simp only [State.destruct, State.assign, members_setMembers, destructorPtr_frame,
      relocatePtr_frame]
    rw [Function.update_comm hne, Function.update_idem]

theorem heap_swap {i j : ℕ} (h : Heap s content) (hmatch : Matches size content s.members)
    (hij : i ≠ j) (ha : s.members (.fn i) = some this) (hb : s.members (.fn j) = some other)
    (htmp : s.members .tmp = none) (hcapacity : this.capacity = other.capacity) :
    Heap (s.swap size (.fn i) (.fn j) this other)
      (Function.update (Function.update content (.fn i) (content (.fn j))) (.fn j)
        (content (.fn i))) := by
  have hne : Address.fn i ≠ Address.fn j := fun heq => hij (Address.fn.inj heq)
  have hne' : Address.fn j ≠ Address.fn i := hne.symm
  have hnone := hmatch.eq_none htmp
  have hthis : ∀ type ∈ this.vtable, size type ≤ this.capacity :=
    fun type htype => (hmatch.fits _ _ type ha htype).2
  have hothers : ∀ type ∈ other.vtable, size type ≤ this.capacity := by
    intro type htype
    rw [hcapacity]
    exact (hmatch.fits _ _ type hb htype).2
  -- the closure of the first function goes by way of `tmp`
  have hfirst := h.relocatePtr .tmp (.fn i) (hmatch.map_eq ha) hnone hthis (by simp)
  have hsecond := hfirst.relocatePtr (.fn i) (.fn j) (by simp [hne', hmatch.map_eq hb]) (by simp)
    hothers hne'
  have hthird := hsecond.relocatePtr (.fn j) .tmp (by simp [hmatch.map_eq ha]) (by simp) hthis
    (by simp)
  refine ((hthird.setMembers _ _).setMembers _ _).congr ?_
  funext x
  simp only [Function.update_apply]
  cases x with
  | fn x => split_ifs <;> simp_all
  | other => simp
  | tmp => simp [hnone]

end Operations

/-! ### Steps -/

/-- What every operation keeps. -/
structure Inv (size : κ → ℕ) (s : State κ V) : Prop where
  heap : Heap s s.value
  matches_of : s.aborted = false → Matches size s.value s.members
  locals : s.aborted = false → s.members .other = none ∧ s.members .tmp = none

/-- The closure that is converted to another capacity fits. -/
def Fits (size : κ → ℕ) (s : State κ V) : Op κ V → Prop
  | .copyConstruct _ capacity j | .moveConstruct _ capacity j =>
    ∀ other ∈ s.members (.fn j), ∀ type ∈ other.vtable, size type ≤ capacity
  | .copyAssign i j | .moveAssign i j =>
    ∀ this ∈ s.members (.fn i), ∀ other ∈ s.members (.fn j), ∀ type ∈ other.vtable,
      size type ≤ this.capacity
  | _ => True

instance Fits.decidable : ∀ op : Op κ V, Decidable (Fits size s op)
  | .copyConstruct _ capacity j | .moveConstruct _ capacity j =>
    inferInstanceAs (Decidable (∀ other ∈ s.members (.fn j), ∀ type ∈ other.vtable,
      size type ≤ capacity))
  | .copyAssign i j | .moveAssign i j =>
    inferInstanceAs (Decidable (∀ this ∈ s.members (.fn i), ∀ other ∈ s.members (.fn j),
      ∀ type ∈ other.vtable, size type ≤ this.capacity))
  | .constructEmpty .. | .constructClosure .. | .assignNull _ | .assignClosure .. | .swap ..
  | .destruct _ => inferInstanceAs (Decidable True)

/-- The invariant after an operation, and what the functions hold unless an assertion has failed. -/
def Effect (size : κ → ℕ) (s : State κ V) (expected : ℕ → Option (Option (κ × V))) : Prop :=
  Inv size s ∧ (s.aborted = false → held s = expected)

section Steps

variable {content : Address → Option (κ × V)} {members : Address → Option (Members κ)}
  {this other : Members κ} {type : κ} {capacity i j : ℕ}

theorem effect_of_heap (h : Heap s content) (hmembers : s.aborted = false → s.members = members)
    (hmatch : Matches size content members)
    (hlocals : members .other = none ∧ members .tmp = none) :
    Effect size s (heldOf content members) := by
  have hvalue := h.value_eq
  subst hvalue
  refine ⟨⟨h, fun haborted => ?_, fun haborted => ?_⟩, fun haborted => ?_⟩
  · rw [hmembers haborted]
    exact hmatch
  · rw [hmembers haborted]
    exact hlocals
  · rw [held, hmembers haborted]

theorem held_eq_some (hthis : s.members (.fn i) = some this) :
    held s i = some (s.value (.fn i)) := by
  rw [held, heldOf, hthis, Option.map_some]

theorem locals_update (h : members .other = none ∧ members .tmp = none) (i : ℕ)
    (this : Option (Members κ)) :
    Function.update members (.fn i) this .other = none ∧
      Function.update members (.fn i) this .tmp = none := by
  rwa [Function.update_of_ne (by simp), Function.update_of_ne (by simp)]

theorem locals_update_other (h : members .tmp = none) :
    Function.update members .other none .other = none ∧
      Function.update members .other none .tmp = none := by
  rw [Function.update_self, Function.update_of_ne (by simp)]
  exact ⟨rfl, h⟩

theorem constructEmpty_spec (h : Inv size s) (haborted : s.aborted = false)
    (hfree : s.members (.fn i) = none) :
    Effect size (s.constructEmpty (.fn i) capacity) (Function.update (held s) i (some none)) := by
  have hmatch := h.matches_of haborted
  have hcontent : Heap (s.constructEmpty (.fn i) capacity)
      (Function.update s.value (.fn i) none) := by
    refine (h.heap.setMembers _ _).congr ?_
    rw [← hmatch.eq_none hfree, Function.update_eq_self]
  have hmembers : (s.constructEmpty (.fn i) capacity).members
      = Function.update s.members (.fn i) (some { capacity }) := rfl
  have heffect := effect_of_heap hcontent (fun _ => hmembers)
    (hmatch.update_empty (.fn i) { capacity } rfl) (locals_update (h.locals haborted) i _)
  rwa [heldOf_update] at heffect

theorem constructClosure_spec (h : Inv size s) (haborted : s.aborted = false)
    (hfree : s.members (.fn i) = none) (hsize : size type ≤ capacity) (value : V) :
    Effect size (s.constructClosure size (.fn i) capacity type value)
      (Function.update (held s) i (some (some (type, value)))) := by
  have hmatch := h.matches_of haborted
  have hcontent := (h.heap.setMembers (.fn i)
    (some (⟨capacity, size type, some type⟩ : Members κ))).construct (hmatch.eq_none hfree) hsize
    value
  have heffect := effect_of_heap hcontent (fun _ => by simp)
    (hmatch.update_closure (.fn i) hsize value) (locals_update (h.locals haborted) i _)
  rwa [heldOf_update] at heffect

variable [DecidableEq κ]

theorem copyConstruct_spec (h : Inv size s) (haborted : s.aborted = false)
    (hfree : s.members (.fn i) = none) (hother : s.members (.fn j) = some other)
    (hfit : ∀ type ∈ other.vtable, size type ≤ capacity) :
    Effect size (s.copyConstruct size (.fn i) capacity (.fn j) other)
      (Function.update (held s) i (held s j)) := by
  have hmatch := h.matches_of haborted
  have heffect := effect_of_heap (heap_copyConstruct h.heap hmatch hfree hother hfit)
    (fun _ => members_copyConstruct) (hmatch.update_copy (.fn i) hother hfit)
    (locals_update (h.locals haborted) i _)
  rw [heldOf_update] at heffect
  rwa [held_eq_some hother]

theorem moveConstruct_spec (h : Inv size s) (haborted : s.aborted = false)
    (hfree : s.members (.fn i) = none) (hother : s.members (.fn j) = some other)
    (hfit : ∀ type ∈ other.vtable, size type ≤ capacity) :
    Effect size (s.moveConstruct size (.fn i) capacity (.fn j) other)
      (Function.update (Function.update (held s) j (some none)) i (held s j)) := by
  have hmatch := h.matches_of haborted
  have hij : i ≠ j := by
    rintro rfl
    rw [hfree] at hother
    cases hother
  have heffect := effect_of_heap (heap_moveConstruct h.heap hmatch hfree hother hfit)
    members_moveConstruct
    ((hmatch.update_copy (.fn i) hother hfit).update_empty (.fn j) { other with vtable := none }
      rfl)
    (locals_update (locals_update (h.locals haborted) i _) j _)
  rw [heldOf_update, heldOf_update, Function.update_comm hij] at heffect
  rwa [held_eq_some hother]

theorem assignNull_spec (h : Inv size s) (haborted : s.aborted = false)
    (hthis : s.members (.fn i) = some this) :
    Effect size (s.assignNull (.fn i) this) (Function.update (held s) i (some none)) := by
  have hmatch := h.matches_of haborted
  have hcontent := (h.heap.destructorPtr (hmatch.map_eq hthis)).setMembers (.fn i)
    (some { this with size := 0, vtable := none })
  have heffect := effect_of_heap hcontent (fun _ => by simp)
    (hmatch.update_empty (.fn i) { this with size := 0, vtable := none } rfl)
    (locals_update (h.locals haborted) i _)
  rwa [heldOf_update] at heffect

theorem destruct_spec (h : Inv size s) (haborted : s.aborted = false)
    (hthis : s.members (.fn i) = some this) :
    Effect size (s.destruct (.fn i) this) (Function.update (held s) i none) := by
  have hmatch := h.matches_of haborted
  have hcontent := (h.heap.destructorPtr (hmatch.map_eq hthis)).setMembers (.fn i) none
  have heffect := effect_of_heap hcontent (fun _ => by simp) (hmatch.update_none (.fn i))
    (locals_update (h.locals haborted) i _)
  rwa [heldOf_update] at heffect

/-- Nothing is assigned where the construction of the parameter was aborted. -/
theorem effect_of_aborted (h : Heap s content) (hnot : ¬s.aborted = false) (this : Members κ)
    (expected : ℕ → Option (Option (κ × V))) :
    Effect size (s.assignParameter size a this) expected := by
  have heq : s.assignParameter size a this = s := by
    unfold State.assignParameter
    cases s.members .other with
    | none => rfl
    | some other => exact if_pos (Bool.eq_true_of_not_eq_false hnot)
  rw [heq]
  refine ⟨⟨h.congr h.value_eq.symm, fun haborted => ?_, fun haborted => ?_⟩, fun haborted => ?_⟩
  all_goals exact absurd haborted hnot

/-- A parameter that is assigned is what the function holds afterwards. -/
theorem assignParameter_spec (this other : Members κ) (h : Heap s content)
    (hmatch : Matches size content s.members) (haborted : s.aborted = false)
    (hthis : s.members (.fn i) = some this) (hother : s.members .other = some other)
    (htmp : s.members .tmp = none) (hcapacity : other.capacity = this.capacity) :
    Effect size (s.assignParameter size (.fn i) this)
      (Function.update (heldOf content s.members) i (some (content .other))) := by
  have hfit : ∀ type ∈ other.vtable, size type ≤ this.capacity := by
    intro type htype
    rw [← hcapacity]
    exact (hmatch.fits _ _ type hother htype).2
  obtain ⟨hheap, hmembers⟩ := heap_assignParameter h hmatch haborted hthis hother hfit
  have heffect := effect_of_heap hheap (fun _ => hmembers)
    ((hmatch.update_copy (.fn i) hother hfit).update_none .other)
    (locals_update_other (by rwa [Function.update_of_ne (by simp)]))
  rwa [heldOf_update_other, heldOf_update, Option.map_some] at heffect

theorem assignClosure_spec (h : Inv size s) (haborted : s.aborted = false)
    (hthis : s.members (.fn i) = some this) (hsize : size type ≤ this.capacity) (value : V) :
    Effect size
      ((s.constructClosure size .other this.capacity type value).assignParameter size (.fn i) this)
      (Function.update (held s) i (some (some (type, value)))) := by
  have hmatch := h.matches_of haborted
  have hlocals := h.locals haborted
  have hcontent := (h.heap.setMembers .other
    (some (⟨this.capacity, size type, some type⟩ : Members κ))).construct
    (hmatch.eq_none hlocals.1) hsize value
  have hnew := hmatch.update_closure .other hsize value
  have hmembers : (s.constructClosure size .other this.capacity type value).members
      = Function.update s.members .other (some ⟨this.capacity, size type, some type⟩) := by
    simp [State.constructClosure]
  rw [← hmembers] at hnew
  have heffect := assignParameter_spec (i := i)
    (s := s.constructClosure size .other this.capacity type value) this
    ⟨this.capacity, size type, some type⟩ hcontent hnew
    (by simpa [State.constructClosure] using haborted)
    (by rw [hmembers, Function.update_of_ne (by simp), hthis])
    (by rw [hmembers, Function.update_self])
    (by rw [hmembers, Function.update_of_ne (by simp), hlocals.2]) rfl
  rwa [hmembers, heldOf_update_other, Function.update_self] at heffect

theorem copyAssign_spec (h : Inv size s) (haborted : s.aborted = false)
    (hthis : s.members (.fn i) = some this) (hother : s.members (.fn j) = some other)
    (hfit : ∀ type ∈ other.vtable, size type ≤ this.capacity) :
    Effect size ((s.copyConstruct size .other this.capacity (.fn j) other).assignParameter size
      (.fn i) this) (Function.update (held s) i (held s j)) := by
  have hmatch := h.matches_of haborted
  have hlocals := h.locals haborted
  have hcontent := heap_copyConstruct h.heap hmatch hlocals.1 hother hfit
  have hnew := hmatch.update_copy .other hother hfit
  have hmembers : (s.copyConstruct size .other this.capacity (.fn j) other).members
      = Function.update s.members .other (some ⟨this.capacity, other.size, other.vtable⟩) :=
    members_copyConstruct
  rw [← hmembers] at hnew
  by_cases hcopied : (s.copyConstruct size .other this.capacity (.fn j) other).aborted = false
  · have heffect := assignParameter_spec this ⟨this.capacity, other.size, other.vtable⟩ hcontent
      hnew hcopied (by rw [hmembers, Function.update_of_ne (by simp), hthis])
      (by rw [hmembers, Function.update_self])
      (by rw [hmembers, Function.update_of_ne (by simp), hlocals.2]) rfl
    rw [hmembers, heldOf_update_other, Function.update_self] at heffect
    rwa [held_eq_some hother]
  · exact effect_of_aborted hcontent hcopied this _

/-- The function that is assigned to may be the one that is moved from. -/
theorem moveAssign_spec (h : Inv size s) (haborted : s.aborted = false)
    (hthis : s.members (.fn i) = some this) (hother : s.members (.fn j) = some other)
    (hfit : ∀ type ∈ other.vtable, size type ≤ this.capacity) :
    Effect size ((s.moveConstruct size .other this.capacity (.fn j) other).assignParameter size
        (.fn i) (((s.moveConstruct size .other this.capacity (.fn j) other).members (.fn i)).getD
          this))
      (Function.update (Function.update (held s) j (some none)) i (held s j)) := by
  have hmatch := h.matches_of haborted
  have hlocals := h.locals haborted
  have hcontent := heap_moveConstruct h.heap hmatch hlocals.1 hother hfit
  have hnew := (hmatch.update_copy .other hother hfit).update_empty (.fn j)
    { other with vtable := none } rfl
  by_cases hmoved : (s.moveConstruct size .other this.capacity (.fn j) other).aborted = false
  · have hmembers := members_moveConstruct hmoved
    rw [← hmembers] at hnew
    obtain ⟨target, htarget, hcapacity⟩ : ∃ target,
        (s.moveConstruct size .other this.capacity (.fn j) other).members (.fn i) = some target ∧
          target.capacity = this.capacity := by
      rw [hmembers]
      -- in a move to itself it is empty, with its capacity
      by_cases hij : i = j
      · subst hij
        rw [hthis] at hother
        cases hother
        exact ⟨_, Function.update_self _ _ _, rfl⟩
      · exact ⟨this, by rw [Function.update_of_ne (by simp [hij]),
          Function.update_of_ne (by simp), hthis], rfl⟩
    rw [htarget, Option.getD_some]
    have heffect := assignParameter_spec target ⟨this.capacity, other.size, other.vtable⟩ hcontent
      hnew hmoved htarget
      (by rw [hmembers, Function.update_of_ne (by simp), Function.update_self])
      (by rw [hmembers, Function.update_of_ne (by simp), Function.update_of_ne (by simp),
        hlocals.2]) hcapacity.symm
    rw [hmembers, heldOf_update, heldOf_update_other, Function.update_of_ne (by simp),
      Function.update_self] at heffect
    rwa [held_eq_some hother]
  · exact effect_of_aborted hcontent hmoved _ _

theorem swap_spec (h : Inv size s) (haborted : s.aborted = false) (hij : i ≠ j)
    (hthis : s.members (.fn i) = some this) (hother : s.members (.fn j) = some other)
    (hcapacity : this.capacity = other.capacity) :
    Effect size (s.swap size (.fn i) (.fn j) this other)
      (Function.update (Function.update (held s) i (held s j)) j (held s i)) := by
  have hmatch := h.matches_of haborted
  have hlocals := h.locals haborted
  have hcontent := heap_swap h.heap hmatch hij hthis hother hlocals.2 hcapacity
  have hnew := (hmatch.update (.fn i) (s.value (.fn j))
    (some { this with size := other.size, vtable := other.vtable })
    (by rw [hmatch.map_eq hother, Option.bind_some]) (by
      intro members type heq htype
      obtain rfl := Option.some.inj heq
      rw [hcapacity]
      exact hmatch.fits _ _ type hother htype)).update (.fn j) (s.value (.fn i))
    (some { other with size := this.size, vtable := this.vtable })
    (by rw [hmatch.map_eq hthis, Option.bind_some]) (by
      intro members type heq htype
      obtain rfl := Option.some.inj heq
      rw [← hcapacity]
      exact hmatch.fits _ _ type hthis htype)
  have heffect := effect_of_heap hcontent (fun _ => by simp [State.swap]) hnew
    (locals_update (locals_update hlocals i _) j _)
  rw [heldOf_update, heldOf_update] at heffect
  rwa [held_eq_some hother, held_eq_some hthis]

theorem aborted_of_step {op : Op κ V} (hstep : step size s op = some s') : s.aborted = false := by
  by_contra hnot
  unfold step at hstep
  rw [if_pos (Bool.eq_true_of_not_eq_false hnot)] at hstep
  cases hstep

/-- **An operation keeps the invariant, and does what it is for.** -/
theorem step_spec {op : Op κ V} (h : Inv size s) (hfits : Fits size s op)
    (hstep : step size s op = some s') : Effect size s' (spec (held s) op) := by
  have haborted := aborted_of_step hstep
  unfold step at hstep
  rw [haborted, if_neg Bool.false_ne_true] at hstep
  cases op with
  | constructEmpty i capacity =>
    dsimp only at hstep
    split_ifs at hstep with hfree
    cases hstep
    exact constructEmpty_spec h haborted hfree
  | constructClosure i capacity type value =>
    dsimp only at hstep
    split_ifs at hstep with hfree
    cases hstep
    exact constructClosure_spec h haborted hfree.1 hfree.2 value
  | copyConstruct i capacity j =>
    dsimp only at hstep
    split_ifs at hstep with hfree
    obtain ⟨other, hother, rfl⟩ := Option.map_eq_some_iff.mp hstep
    exact copyConstruct_spec h haborted hfree hother (hfits other hother)
  | moveConstruct i capacity j =>
    dsimp only at hstep
    split_ifs at hstep with hfree
    obtain ⟨other, hother, rfl⟩ := Option.map_eq_some_iff.mp hstep
    exact moveConstruct_spec h haborted hfree hother (hfits other hother)
  | assignNull i =>
    obtain ⟨this, hthis, rfl⟩ := Option.map_eq_some_iff.mp hstep
    exact assignNull_spec h haborted hthis
  | assignClosure i type value =>
    obtain ⟨this, hthis, hstep⟩ := Option.bind_eq_some_iff.mp hstep
    split_ifs at hstep with hsize
    cases hstep
    exact assignClosure_spec h haborted hthis hsize value
  | copyAssign i j =>
    obtain ⟨this, hthis, hstep⟩ := Option.bind_eq_some_iff.mp hstep
    obtain ⟨other, hother, rfl⟩ := Option.map_eq_some_iff.mp hstep
    exact copyAssign_spec h haborted hthis hother (hfits this hthis other hother)
  | moveAssign i j =>
    obtain ⟨this, hthis, hstep⟩ := Option.bind_eq_some_iff.mp hstep
    obtain ⟨other, hother, rfl⟩ := Option.map_eq_some_iff.mp hstep
    exact moveAssign_spec h haborted hthis hother (hfits this hthis other hother)
  | swap i j =>
    obtain ⟨this, hthis, hstep⟩ := Option.bind_eq_some_iff.mp hstep
    obtain ⟨other, hother, hstep⟩ := Option.bind_eq_some_iff.mp hstep
    split_ifs at hstep with hcapacity hij
    · cases hstep
      subst hij
      refine ⟨h, fun _ => ?_⟩
      rw [spec, Function.update_idem, Function.update_eq_self]
    · cases hstep
      exact swap_spec h haborted hij hthis hother (not_not.mp hcapacity)
  | destruct i =>
    obtain ⟨this, hthis, rfl⟩ := Option.map_eq_some_iff.mp hstep
    exact destruct_spec h haborted hthis

end Steps

/-! ### Runs -/

section Runs

variable [DecidableEq κ]

omit [DecidableEq κ] in
theorem inv_start : Inv size ({} : State κ V) where
  heap :=
    { undefined_eq := rfl
      value_eq := rfl
      numbered :=
        { lt_of_storage := fun _ _ h => by cases h
          lt_of_destroyed := List.forall_mem_nil _
          nodup := List.nodup_nil
          disjoint := fun _ _ h => by cases h
          inj := fun _ _ _ _ h => by cases h
          complete := fun _ hn => absurd hn (Nat.not_lt_zero _) } }
  matches_of _ := ⟨fun _ => rfl, fun _ _ _ h => by cases h⟩
  locals _ := ⟨rfl, rfl⟩

theorem run_spec {ops : List (Op κ V)} : ∀ {s : State κ V}, Inv size s →
    Run.Guarded (step size) (Fits size) s ops → Run.run (step size) s ops = some s' →
    Inv size s' ∧ (s'.aborted = false → s.aborted = false ∧ held s' = ops.foldl spec (held s)) := by
  induction ops with
  | nil =>
    intro s h _ hrun
    cases hrun
    exact ⟨h, fun haborted => ⟨haborted, rfl⟩⟩
  | cons op ops ih =>
    intro s h hguarded hrun
    obtain ⟨s₁, hstep, hrun⟩ := (Run.run_cons_eq_some _).mp hrun
    obtain ⟨hinv, hheld⟩ := step_spec h hguarded.1 hstep
    obtain ⟨hinv', hheld'⟩ := ih hinv (hguarded.2 s₁ hstep) hrun
    -- an aborted program does not go on
    refine ⟨hinv', fun haborted => ⟨aborted_of_step hstep, ?_⟩⟩
    obtain ⟨haborted₁, heq⟩ := hheld' haborted
    rw [heq, hheld haborted₁, List.foldl_cons]

/-- **Functions are values**: after a run, each holds what it would if copies, moves and swaps were
those of a closure or none. -/
theorem held_of_run {ops : List (Op κ V)} (hrun : Run.run (step size) {} ops = some s)
    (hguarded : Run.Guarded (step size) (Fits size) {} ops) (haborted : s.aborted = false) :
    held s = ops.foldl spec fun _ => none :=
  ((run_spec inv_start hguarded hrun).2 haborted).2

/-- A move of a function to itself, and a swap. -/
def sampleOps : List (Op ℕ ℕ) :=
  [.constructClosure 0 16 8 5, .constructEmpty 1 16, .moveAssign 0 0, .swap 0 1, .copyAssign 0 1,
    .destruct 0, .destruct 1]

theorem held_of_run_sample : ∃ s, Run.run (step id) {} sampleOps = some s ∧
    held s = sampleOps.foldl spec fun _ => none := by
  have hsome : ((Run.run (step id) {} sampleOps).map State.aborted) = some false := by
    decide +kernel
  obtain ⟨s, hrun, haborted⟩ := Option.map_eq_some_iff.mp hsome
  exact ⟨s, hrun, held_of_run hrun (by decide +kernel) haborted⟩

/-- Where every object is that was ever constructed. -/
structure Accounted (s : State κ V) : Prop where
  undefined_eq : s.undefined = false
  /-- None has ended twice. -/
  nodup : s.destroyed.Nodup
  held_once : ∀ n < s.constructed, n ∉ s.destroyed →
    ∃! i, ∃ object, s.storage (.fn i) = some object ∧ object.number = n
  not_destroyed : ∀ i object, s.storage (.fn i) = some object → object.number ∉ s.destroyed
  /-- The functions have the closures that their members say. -/
  type_eq : ∀ i this, s.members (.fn i) = some this →
    (s.storage (.fn i)).map Object.type = this.vtable
  /-- Nothing is left behind. -/
  perm : (∀ i, s.members (.fn i) = none) → s.destroyed.Perm (List.range s.constructed)

/-- **No closure is lost, and none ends twice**, in every run. -/
theorem accounted_of_run {ops : List (Op κ V)} (hrun : Run.run (step size) {} ops = some s)
    (hguarded : Run.Guarded (step size) (Fits size) {} ops) (haborted : s.aborted = false) :
    Accounted s := by
  obtain ⟨hinv, -⟩ := run_spec inv_start hguarded hrun
  have hmatch := hinv.matches_of haborted
  have hlocals := hinv.locals haborted
  have hnumbered := hinv.heap.numbered
  have hstorage : ∀ a, s.members a = none → s.storage a = none := fun a ha =>
    Option.map_eq_none_iff.mp (hmatch.eq_none ha)
  -- the storages of the parameter and of `tmp` are empty between the operations
  have hfn : ∀ a object, s.storage a = some object → ∃ i, a = .fn i := by
    intro a object ha
    cases a with
    | fn i => exact ⟨i, rfl⟩
    | other =>
      rw [hstorage _ hlocals.1] at ha
      cases ha
    | tmp =>
      rw [hstorage _ hlocals.2] at ha
      cases ha
  refine ⟨hinv.heap.undefined_eq, hnumbered.nodup, ?_, fun i => hnumbered.disjoint (.fn i), ?_, ?_⟩
  · intro n hn hnot
    obtain ⟨a, object, ha, hnumber⟩ := (hnumbered.complete n hn).resolve_left hnot
    obtain ⟨i, rfl⟩ := hfn a object ha
    refine ⟨i, ⟨object, ha, hnumber⟩, ?_⟩
    rintro j ⟨object', hj, hnumber'⟩
    exact Address.fn.inj (hnumbered.inj _ _ _ _ hj ha (hnumber'.trans hnumber.symm))
  · intro i this hthis
    have hvtable := hmatch.map_eq hthis
    rwa [State.value, Option.map_map] at hvtable
  · intro hgone
    refine (List.perm_ext_iff_of_nodup hnumbered.nodup (List.nodup_range)).mpr fun n => ?_
    rw [List.mem_range]
    refine ⟨hnumbered.lt_of_destroyed n, fun hn => ?_⟩
    rcases hnumbered.complete n hn with hmem | ⟨a, object, ha, -⟩
    · exact hmem
    · obtain ⟨i, rfl⟩ := hfn a object ha
      rw [hstorage _ (hgone i)] at ha
      cases ha

theorem accounted_of_run_sample : ∃ s, Run.run (step id) {} sampleOps = some s ∧ Accounted s := by
  have hsome : ((Run.run (step id) {} sampleOps).map State.aborted) = some false := by
    decide +kernel
  obtain ⟨s, hrun, haborted⟩ := Option.map_eq_some_iff.mp hsome
  exact ⟨s, hrun, accounted_of_run hrun (by decide +kernel) haborted⟩

end Runs

/-! ### Conversions -/

section Conversions

variable [DecidableEq κ] {type : κ} {vtable : Option κ} {capacity : ℕ} {this other : Members κ}
  {content : Address → Option (κ × V)}

theorem undefined_destroy (h : s.undefined = true) : (s.destroy type a).undefined = true := by
  unfold State.destroy
  cases s.storage a with
  | none => rfl
  | some object =>
    dsimp only
    split_ifs
    · exact h
    · rfl

theorem undefined_destructorPtr (h : s.undefined = true) :
    (s.destructorPtr vtable a).undefined = true := by
  cases vtable with
  | none => exact h
  | some type => exact undefined_destroy h

theorem undefined_copyPtr (h : s.undefined = true) :
    (s.copyPtr size vtable capacity a b).undefined = true := by
  cases vtable with
  | none => exact h
  | some type =>
    unfold State.copyPtr
    cases s.storage b with
    | none => rfl
    | some object =>
      dsimp only
      unfold State.construct
      split_ifs
      · exact h
      · rfl
      · rfl

theorem undefined_relocatePtr (h : s.undefined = true) :
    (s.relocatePtr size vtable capacity a b).undefined = true :=
  undefined_destructorPtr (undefined_copyPtr h)

/-- What has happened stays so. -/
theorem undefined_assignParameter (h : s.undefined = true) :
    (s.assignParameter size a this).undefined = true := by
  unfold State.assignParameter
  cases s.members .other with
  | none => exact h
  | some other =>
    dsimp only
    split_ifs
    · exact h
    · unfold State.destruct State.assign
      refine undefined_destructorPtr (undefined_relocatePtr ?_)
      exact undefined_destructorPtr h

/-- A closure that does not fit is put beyond its storage. -/
theorem undefined_copyPtr_of_lt (h : Heap s content) (hb : (content b).map Prod.fst = some type)
    (hfit : ¬size type ≤ capacity) :
    (s.copyPtr size (some type) capacity a b).undefined = true := by
  obtain ⟨object, hobject, htype⟩ : ∃ object, s.storage b = some object ∧ object.type = type := by
    rw [← h.value_eq, State.value, Option.map_map] at hb
    exact Option.map_eq_some_iff.mp hb
  rw [State.copyPtr, hobject]
  dsimp only
  rw [if_pos htype, State.construct, if_neg hfit]

theorem undefined_copyConstruct (h : Heap s content) (hmatch : Matches size content s.members)
    (hb : s.members b = some other) (htype : other.vtable = some type)
    (hfit : ¬size type ≤ capacity) :
    (s.copyConstruct size a capacity b other).undefined = true := by
  have hcopy := undefined_copyPtr_of_lt (a := a)
    (h.setMembers a (some ⟨capacity, other.size, other.vtable⟩))
    ((hmatch.map_eq hb).trans htype) hfit
  unfold State.copyConstruct
  rw [htype] at hcopy ⊢
  dsimp only
  split_ifs
  · exact hcopy
  · exact hcopy

theorem undefined_moveConstruct (h : Heap s content) (hmatch : Matches size content s.members)
    (hb : s.members b = some other) (htype : other.vtable = some type)
    (hfit : ¬size type ≤ capacity) :
    (s.moveConstruct size a capacity b other).undefined = true := by
  have hcopy := undefined_copyPtr_of_lt (a := a)
    (h.setMembers a (some ⟨capacity, other.size, other.vtable⟩))
    ((hmatch.map_eq hb).trans htype) hfit
  have hmove : ((s.setMembers a (some ⟨capacity, other.size, other.vtable⟩)).relocatePtr size
      other.vtable capacity a b).undefined = true := by
    rw [State.relocatePtr, htype]
    rw [htype] at hcopy
    exact undefined_destructorPtr hcopy
  unfold State.moveConstruct
  dsimp only
  split_ifs
  · exact hmove
  · exact hmove

theorem undefined_of_not_fits {op : Op κ V} (h : Inv size s) (hfits : ¬Fits size s op)
    (hstep : step size s op = some s') : s'.undefined = true := by
  have haborted := aborted_of_step hstep
  have hmatch := h.matches_of haborted
  unfold step at hstep
  rw [haborted, if_neg Bool.false_ne_true] at hstep
  cases op with
  | copyConstruct i capacity j =>
    dsimp only at hstep
    split_ifs at hstep
    obtain ⟨other, hother, rfl⟩ := Option.map_eq_some_iff.mp hstep
    simp only [Fits, not_forall] at hfits
    obtain ⟨_, hmembers, type, htype, hfit⟩ := hfits
    obtain rfl := Option.some.inj (hother.symm.trans hmembers)
    exact undefined_copyConstruct h.heap hmatch hother htype hfit
  | moveConstruct i capacity j =>
    dsimp only at hstep
    split_ifs at hstep
    obtain ⟨other, hother, rfl⟩ := Option.map_eq_some_iff.mp hstep
    simp only [Fits, not_forall] at hfits
    obtain ⟨_, hmembers, type, htype, hfit⟩ := hfits
    obtain rfl := Option.some.inj (hother.symm.trans hmembers)
    exact undefined_moveConstruct h.heap hmatch hother htype hfit
  | copyAssign i j =>
    obtain ⟨this, hthis, hstep⟩ := Option.bind_eq_some_iff.mp hstep
    obtain ⟨other, hother, rfl⟩ := Option.map_eq_some_iff.mp hstep
    simp only [Fits, not_forall] at hfits
    obtain ⟨_, hthis', _, hmembers, type, htype, hfit⟩ := hfits
    obtain rfl := Option.some.inj (hthis.symm.trans hthis')
    obtain rfl := Option.some.inj (hother.symm.trans hmembers)
    exact undefined_assignParameter (undefined_copyConstruct h.heap hmatch hother htype hfit)
  | moveAssign i j =>
    obtain ⟨this, hthis, hstep⟩ := Option.bind_eq_some_iff.mp hstep
    obtain ⟨other, hother, rfl⟩ := Option.map_eq_some_iff.mp hstep
    simp only [Fits, not_forall] at hfits
    obtain ⟨_, hthis', _, hmembers, type, htype, hfit⟩ := hfits
    obtain rfl := Option.some.inj (hthis.symm.trans hthis')
    obtain rfl := Option.some.inj (hother.symm.trans hmembers)
    exact undefined_assignParameter (undefined_moveConstruct h.heap hmatch hother htype hfit)
  | constructEmpty | constructClosure | assignNull | assignClosure | swap | destruct =>
    exact absurd trivial hfits

/-- **When a run is defined**: exactly if every closure that is converted to another capacity fits,
since the assertion of the conversion comes after the copy. -/
theorem defined_iff {ops : List (Op κ V)} (hrun : Run.run (step size) {} ops = some s) :
    Run.Always (step size) (fun s => s.undefined = false) {} ops ↔
      Run.Guarded (step size) (Fits size) {} ops := by
  refine Run.always_iff_guarded (I := Inv size) (fun s h => h.heap.undefined_eq)
    (fun s op s' h hfits hstep => (step_spec h hfits hstep).1) ?_ inv_start hrun
  intro s op s' h hfits hstep hundefined
  rw [undefined_of_not_fits h hfits hstep] at hundefined
  cases hundefined

/-- A closure of eight bytes is moved to a function with room for four. -/
theorem defined_iff_sample : ∃ s : State ℕ ℕ,
    Run.run (step id) {} [.constructClosure 0 16 8 5, .moveConstruct 1 4 0] = some s ∧
      (Run.Always (step id) (fun s : State ℕ ℕ => s.undefined = false) {}
          [.constructClosure 0 16 8 5, .moveConstruct 1 4 0] ↔
        Run.Guarded (step id) (Fits id) {}
          [.constructClosure 0 16 8 (5 : ℕ), .moveConstruct 1 4 0]) := by
  have hsome : ((Run.run (step id) ({} : State ℕ ℕ)
      [.constructClosure 0 16 8 5, .moveConstruct 1 4 0]).map State.aborted) = some true := by
    decide +kernel
  obtain ⟨s, hrun, -⟩ := Option.map_eq_some_iff.mp hsome
  exact ⟨s, hrun, defined_iff hrun⟩

/-- What fails the assertion though no closure is converted: a function that still has the size of
one that was moved out of it. -/
def Stale (s : State κ V) : Op κ V → Prop
  | .copyConstruct _ capacity j | .moveConstruct _ capacity j =>
    ∃ other ∈ s.members (.fn j), other.vtable = none ∧ capacity ≠ other.capacity ∧
      capacity < other.size
  | .copyAssign i j | .moveAssign i j =>
    ∃ this ∈ s.members (.fn i), ∃ other ∈ s.members (.fn j), other.vtable = none ∧
      this.capacity ≠ other.capacity ∧ this.capacity < other.size
  | _ => False

theorem aborted_copyConstruct_iff (haborted : s.aborted = false)
    (hmatch : Matches size content s.members) (hb : s.members b = some other)
    (hfit : ∀ type ∈ other.vtable, size type ≤ capacity) :
    (s.copyConstruct size a capacity b other).aborted = true ↔
      other.vtable = none ∧ capacity ≠ other.capacity ∧ capacity < other.size := by
  unfold State.copyConstruct
  dsimp only
  split_ifs with hassert
  · rw [(copyPtr_frame _ _).2, aborted_setMembers, haborted]
    refine ⟨fun hnot => (by cases hnot), ?_⟩
    rintro ⟨-, hne, hlt⟩
    exact absurd (hassert.resolve_left hne) (not_le.mpr hlt)
  · obtain ⟨hne, hlt⟩ := not_or.mp hassert
    refine ⟨fun _ => ⟨?_, hne, not_le.mp hlt⟩, fun _ => rfl⟩
    -- the size of a closure that fits does not fail the assertion
    cases htype : other.vtable with
    | none => rfl
    | some type =>
      rw [(hmatch.fits b other type hb htype).1] at hlt
      exact absurd (hfit type htype) hlt

theorem aborted_moveConstruct_iff (haborted : s.aborted = false)
    (hmatch : Matches size content s.members) (hb : s.members b = some other)
    (hfit : ∀ type ∈ other.vtable, size type ≤ capacity) :
    (s.moveConstruct size a capacity b other).aborted = true ↔
      other.vtable = none ∧ capacity ≠ other.capacity ∧ capacity < other.size := by
  have hcopy := aborted_copyConstruct_iff (a := a) haborted hmatch hb hfit
  rw [← hcopy]
  unfold State.moveConstruct State.copyConstruct
  dsimp only
  split_ifs
  · rw [aborted_setMembers, (relocatePtr_frame _ _).2, (copyPtr_frame _ _).2]
  · exact Iff.rfl

/-- An assignment asserts nothing of its own. -/
theorem aborted_assignParameter :
    (s.assignParameter size a this).aborted = s.aborted := by
  unfold State.assignParameter
  cases s.members .other with
  | none => rfl
  | some other =>
    dsimp only
    split_ifs
    · rfl
    · simp [State.destruct, State.assign]

/-- **When the assertion of a conversion fails**, in a run without undefined behaviour: never for a
closure, exactly for what a move has left. -/
theorem aborted_iff {ops : List (Op κ V)} {op : Op κ V} (hrun : Run.run (step size) {} ops = some s)
    (hguarded : Run.Guarded (step size) (Fits size) {} ops) (hfits : Fits size s op)
    (hstep : step size s op = some s') : s'.aborted = true ↔ Stale s op := by
  have haborted := aborted_of_step hstep
  have hmatch := (run_spec inv_start hguarded hrun).1.matches_of haborted
  unfold step at hstep
  rw [haborted, if_neg Bool.false_ne_true] at hstep
  cases op with
  | copyConstruct i capacity j =>
    dsimp only at hstep
    split_ifs at hstep
    obtain ⟨other, hother, rfl⟩ := Option.map_eq_some_iff.mp hstep
    rw [aborted_copyConstruct_iff haborted hmatch hother (hfits other hother)]
    simp [Stale, hother]
  | moveConstruct i capacity j =>
    dsimp only at hstep
    split_ifs at hstep
    obtain ⟨other, hother, rfl⟩ := Option.map_eq_some_iff.mp hstep
    rw [aborted_moveConstruct_iff haborted hmatch hother (hfits other hother)]
    simp [Stale, hother]
  | copyAssign i j =>
    obtain ⟨this, hthis, hstep⟩ := Option.bind_eq_some_iff.mp hstep
    obtain ⟨other, hother, rfl⟩ := Option.map_eq_some_iff.mp hstep
    rw [aborted_assignParameter,
      aborted_copyConstruct_iff haborted hmatch hother (hfits this hthis other hother)]
    simp [Stale, hthis, hother]
  | moveAssign i j =>
    obtain ⟨this, hthis, hstep⟩ := Option.bind_eq_some_iff.mp hstep
    obtain ⟨other, hother, rfl⟩ := Option.map_eq_some_iff.mp hstep
    rw [aborted_assignParameter,
      aborted_moveConstruct_iff haborted hmatch hother (hfits this hthis other hother)]
    simp [Stale, hthis, hother]
  | assignClosure i type value =>
    obtain ⟨this, hthis, hstep⟩ := Option.bind_eq_some_iff.mp hstep
    split_ifs at hstep
    cases hstep
    rw [aborted_assignParameter]
    simp [State.constructClosure, Stale, haborted]
  | swap i j =>
    obtain ⟨this, hthis, hstep⟩ := Option.bind_eq_some_iff.mp hstep
    obtain ⟨other, hother, hstep⟩ := Option.bind_eq_some_iff.mp hstep
    split_ifs at hstep
    · cases hstep
      simp [Stale, haborted]
    · cases hstep
      simp [State.swap, Stale, haborted]
  | constructEmpty i capacity =>
    dsimp only at hstep
    split_ifs at hstep
    cases hstep
    simp [State.constructEmpty, Stale, haborted]
  | constructClosure i capacity type value =>
    dsimp only at hstep
    split_ifs at hstep
    cases hstep
    simp [State.constructClosure, Stale, haborted]
  | assignNull i =>
    obtain ⟨this, hthis, rfl⟩ := Option.map_eq_some_iff.mp hstep
    simp [State.assignNull, Stale, haborted]
  | destruct i =>
    obtain ⟨this, hthis, rfl⟩ := Option.map_eq_some_iff.mp hstep
    simp [State.destruct, Stale, haborted]

/-- A copy of a function that was moved from, with less room. -/
theorem aborted_iff_sample : ∃ s s' : State ℕ ℕ,
    Run.run (step id) {} [.constructClosure 0 32 24 5, .moveConstruct 1 32 0] = some s ∧
      step id s (.copyConstruct 2 16 0) = some s' ∧ s'.aborted = true ∧
      Stale s (.copyConstruct 2 16 0) := by
  have hsome : ((Run.run (step id) ({} : State ℕ ℕ)
      [.constructClosure 0 32 24 5, .moveConstruct 1 32 0]).bind fun s =>
        if Fits id s (.copyConstruct 2 16 0) then
          (step id s (.copyConstruct 2 16 0)).map State.aborted
        else none) = some true := by
    decide +kernel
  obtain ⟨s, hrun, hsome⟩ := Option.bind_eq_some_iff.mp hsome
  split_ifs at hsome with hfits
  obtain ⟨s', hstep, haborted⟩ := Option.map_eq_some_iff.mp hsome
  exact ⟨s, s', hrun, hstep, haborted,
    (aborted_iff hrun (by decide +kernel) hfits hstep).mp haborted⟩

end Conversions

end Mjlib.Base.InplaceFunction
