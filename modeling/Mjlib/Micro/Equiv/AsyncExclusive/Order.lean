import Mathlib
import Mjlib.Micro.Equiv.AsyncExclusive

/-!
# The order in which `AsyncExclusive` starts the operations that wait

A new operation takes the first empty slot, and a release starts the operation in the first slot
that is taken: the operations are started by slot, not by age.  So an operation waits for those in
the slots below its own, and again for each operation that takes such a slot after it was freed.

- `started_by_slot`: operations that asked with no release in between are started in the order in
  which they asked, and an operation that waits is started after at most `MaxLockers` releases, and
  one more for each request that meanwhile takes a slot below its own.
- `not_started_in_order`: one that asked before is started after one that asked later, and has not
  been started after more than `MaxLockers` releases.
-/

namespace Mjlib.Micro.AsyncExclusive

variable {Op : Type*}

/-! ### The requests and the releases of a run -/

namespace Action

/-- A call of `AsyncStart`. -/
def isAsyncStart : Action Op → Bool
  | .asyncStart _ => true
  | _ => false

def isRelease : Action Op → Bool
  | .release _ => true
  | _ => false

end Action

def requests (actions : List (Action Op)) : ℕ := actions.countP Action.isAsyncStart

def releases (actions : List (Action Op)) : ℕ := actions.countP Action.isRelease

/-- The operation has to wait, and there is an empty slot below this one for it. -/
def overtakes (slot : ℕ) (s : State Op) : Action Op → List Op
  | .asyncStart operation =>
    if s.exclusive.outstanding && (s.exclusive.callbacks.take slot).any Option.isNone
    then [operation] else []
  | _ => []

/-- The requests of a run that take a slot below this one. -/
def overtakers (slot : ℕ) (s : State Op) (actions : List (Action Op)) : List Op :=
  Run.collect step (overtakes slot) s actions

/-- The operations that wait in the slots below this one. -/
def ahead (slot : ℕ) (e : AsyncExclusive Op) : List Op := (e.callbacks.take slot).reduceOption

/-! ### The first empty slot and the first one that is taken -/

/-- A new operation leaves the slots below the first empty one, which are all taken, and those above
it as they were. -/
theorem queue_eq_set {operation : Op} {items items' : List (Option Op)}
    (h : queue operation items = some items') :
    ∃ slot < items.length, items' = items.set slot (some operation) ∧
      items[slot]? = some none ∧ ∀ item ∈ items.take slot, item ≠ none := by
  induction items generalizing items' with
  | nil => exact nomatch h
  | cons item items ih =>
    cases item with
    | none =>
      obtain rfl := Option.some.inj h
      exact ⟨0, by simp, rfl, rfl, by simp⟩
    | some item =>
      obtain ⟨rest, hrest, rfl⟩ := Option.map_eq_some_iff.mp h
      obtain ⟨slot, hlt, hset, hnone, hbelow⟩ := ih hrest
      refine ⟨slot + 1, by simpa using hlt, ?_, by simpa using hnone, ?_⟩
      · rw [hset]
        rfl
      · simpa using hbelow

/-- A release empties the first slot that is taken. -/
theorem unqueue_eq_set {operation : Op} {items items' : List (Option Op)}
    (h : unqueue items = some (operation, items')) :
    ∃ slot < items.length, items' = items.set slot none ∧
      items[slot]? = some (some operation) ∧ (items.take slot).reduceOption = [] := by
  induction items generalizing items' with
  | nil => exact nomatch h
  | cons item items ih =>
    cases item with
    | none =>
      obtain ⟨⟨first, rest⟩, hrest, heq⟩ := Option.map_eq_some_iff.mp h
      obtain ⟨rfl, rfl⟩ := Prod.mk.inj heq
      obtain ⟨slot, hlt, hset, hsome, hbelow⟩ := ih hrest
      refine ⟨slot + 1, by simpa using hlt, ?_, by simpa using hsome, ?_⟩
      · rw [hset]
        rfl
      · simpa using hbelow
    | some item =>
      obtain ⟨rfl, rfl⟩ := Prod.mk.inj (Option.some.inj h)
      exact ⟨0, by simp, rfl, rfl, rfl⟩

theorem reduceOption_set_none_length {items : List (Option Op)} {slot : ℕ} {operation : Op}
    (h : items[slot]? = some (some operation)) :
    (items.set slot none).reduceOption.length + 1 = items.reduceOption.length := by
  induction items generalizing slot with
  | nil => exact nomatch h
  | cons item items ih =>
    cases slot with
    | zero =>
      obtain rfl : item = some operation := by simpa using h
      simp
    | succ slot =>
      have hrest := ih (by simpa using h)
      cases item <;> simp <;> omega

theorem reduceOption_set_some_length {items : List (Option Op)} {slot : ℕ} (operation : Op)
    (h : items[slot]? = some none) :
    (items.set slot (some operation)).reduceOption.length = items.reduceOption.length + 1 := by
  induction items generalizing slot with
  | nil => exact nomatch h
  | cons item items ih =>
    cases slot with
    | zero =>
      obtain rfl : item = none := by simpa using h
      simp
    | succ slot =>
      have hrest := ih (by simpa using h)
      cases item <;> simpa using hrest

/-! ### One step, seen from an operation that waits -/

/-- The operation of this call waits in that slot. -/
def WaitsIn (slot : ℕ) (call : Call Op) (s : State Op) : Prop :=
  s.exclusive.callbacks[slot]? = some (some call)

variable {maxLockers slot : ℕ} {s s' : State Op} {call first second : Call Op}
  {operation : Op} {action : Action Op}

theorem WaitsIn.mem_waiting (h : WaitsIn slot call s) : call ∈ s.exclusive.waiting :=
  List.reduceOption_mem_iff.mpr (List.mem_of_getElem? h)

theorem WaitsIn.outstanding (h : WaitsIn slot call s) (hs : Inv maxLockers s) :
    s.exclusive.outstanding = true := by
  by_contra hfree
  have hnone := (hs.free (by simpa using hfree)).2
  exact absurd (hnone ▸ h.mem_waiting) List.not_mem_nil

theorem WaitsIn.not_started (h : WaitsIn slot call s) (hs : Inv maxLockers s) :
    call ∉ s.started :=
  fun hmem => hs.not_started_of_waiting h.mem_waiting (List.mem_map_of_mem hmem)

/-- A request that has to wait takes the first empty slot. -/
theorem step_asyncStart_of_outstanding (ho : s.exclusive.outstanding = true)
    (h : step s (.asyncStart operation) = some s') :
    s'.started = s.started ∧ ∃ slot < s.exclusive.callbacks.length,
      s'.exclusive.callbacks =
        s.exclusive.callbacks.set slot (some ⟨s.accepted.length, operation⟩) ∧
      s.exclusive.callbacks[slot]? = some none ∧
      ∀ item ∈ s.exclusive.callbacks.take slot, item ≠ none := by
  obtain ⟨result, hresult, rfl⟩ := Option.map_eq_some_iff.mp h
  simp only [asyncStart, ho, Bool.not_true, Bool.false_eq_true, if_false] at hresult
  obtain ⟨callbacks, hqueue, rfl⟩ := Option.map_eq_some_iff.mp hresult
  exact ⟨by simp [State.called], queue_eq_set hqueue⟩

/-- A release starts the operation in the first slot that is taken, if any is. -/
theorem step_release_cases {number : ℕ} (h : step s (.release number) = some s') :
    (s.exclusive.waiting = [] ∧ s'.started = s.started) ∨
    ∃ slot call, slot < s.exclusive.callbacks.length ∧ WaitsIn slot call s ∧
      ahead slot s.exclusive = [] ∧
      s'.exclusive.callbacks = s.exclusive.callbacks.set slot none ∧
      s'.started = s.started ++ [call] := by
  simp only [step] at h
  split at h
  · obtain ⟨result, hresult, rfl⟩ := Option.map_eq_some_iff.mp h
    cases hunqueue : unqueue s.exclusive.callbacks with
    | none =>
      simp only [release, maybeStartQueued, hunqueue, Bool.false_eq_true, if_false,
        Option.some.injEq] at hresult
      subst hresult
      exact Or.inl ⟨unqueue_eq_none hunqueue, by simp [State.called]⟩
    | some taken =>
      obtain ⟨call, callbacks⟩ := taken
      simp only [release, maybeStartQueued, hunqueue, Bool.false_eq_true, if_false, asyncStart,
        Bool.not_false, if_true, Option.some.injEq] at hresult
      subst hresult
      obtain ⟨slot, hlt, hset, hcall, hbelow⟩ := unqueue_eq_set hunqueue
      exact Or.inr ⟨slot, call, hlt, hcall, hbelow, hset, rfl⟩
  · cases h

theorem prefix_started (h : step s action = some s') : s.started <+: s'.started := by
  cases action with
  | asyncStart operation =>
    obtain ⟨result, -, rfl⟩ := Option.map_eq_some_iff.mp h
    exact List.prefix_append _ _
  | release number =>
    obtain ⟨-, hstarted⟩ | ⟨slot, call, -, -, -, -, hstarted⟩ := step_release_cases h
    · rw [hstarted]
    · rw [hstarted]
      exact List.prefix_append _ _
  | «return» =>
    simp only [step] at h
    split at h
    · cases h
    · cases h
      exact List.prefix_rfl

/-- **One step.** What is ahead of an operation that waits: a release takes one operation away, a
request that takes a slot below adds one; and when nothing is ahead, a release starts it. -/
theorem step_waitsIn (hs : Inv maxLockers s) (hcall : WaitsIn slot call s)
    (h : step s action = some s') :
    (WaitsIn slot call s' ∧
      (ahead slot s'.exclusive).length + releases [action] =
        (ahead slot s.exclusive).length + (overtakes slot s action).length) ∨
    (ahead slot s.exclusive = [] ∧ action.isRelease ∧ s'.started = s.started ++ [call]) := by
  have ho := hcall.outstanding hs
  cases action with
  | asyncStart operation =>
    obtain ⟨-, new, hlt, hset, hnone, hbelow⟩ := step_asyncStart_of_outstanding ho h
    have hne : new ≠ slot := by
      rintro rfl
      exact absurd (hnone.symm.trans hcall) (by simp)
    refine Or.inl ⟨?_, ?_⟩
    · rw [WaitsIn, hset, List.getElem?_set_ne hne]
      exact hcall
    · rcases Nat.lt_or_gt_of_ne hne with hlow | hhigh
      · -- it takes a slot below
        have hany : (s.exclusive.callbacks.take slot).any Option.isNone = true :=
          List.any_eq_true.mpr
            ⟨none, List.mem_of_getElem? ((List.getElem?_take_of_lt hlow).trans hnone), rfl⟩
        simp only [ahead, hset, List.take_set, releases, overtakes, ho, hany, Bool.and_self, if_true]
        rw [reduceOption_set_some_length _ ((List.getElem?_take_of_lt hlow).trans hnone)]
        rfl
      · -- all the slots below are taken
        have hany : (s.exclusive.callbacks.take slot).any Option.isNone = false := by
          rw [List.any_eq_false]
          intro item hitem
          simpa [Option.isNone_iff_eq_none] using
            hbelow item (List.take_subset_take_left _ hhigh.le hitem)
        simp only [ahead, hset, releases, overtakes, ho, hany, Bool.and_false, Bool.false_eq_true,
          if_false, List.take_set_of_le hhigh.le]
        rfl
  | release number =>
    obtain ⟨hnone, -⟩ | ⟨other, next, hlt, hnext, hbelow, hset, hstarted⟩ := step_release_cases h
    · exact absurd (hnone ▸ hcall.mem_waiting) List.not_mem_nil
    · rcases Nat.lt_trichotomy other slot with hlow | rfl | hhigh
      · refine Or.inl ⟨?_, ?_⟩
        · rw [WaitsIn, hset, List.getElem?_set_ne hlow.ne]
          exact hcall
        · simp only [ahead, hset, List.take_set]
          exact reduceOption_set_none_length ((List.getElem?_take_of_lt hlow).trans hnext)
      · obtain rfl : next = call := by simpa [WaitsIn] using hnext.symm.trans hcall
        exact Or.inr ⟨hbelow, rfl, hstarted⟩
      · -- the first slot that is taken is not above one that is
        have hmem : call ∈ ahead other s.exclusive := List.reduceOption_mem_iff.mpr
          (List.mem_of_getElem? ((List.getElem?_take_of_lt hhigh).trans hcall))
        exact absurd (hbelow ▸ hmem) List.not_mem_nil
  | «return» =>
    simp only [step] at h
    split at h
    · cases h
    · cases h
      exact Or.inl ⟨hcall, rfl⟩

/-! ### The wait of one operation -/

theorem prefix_started_of_run {actions : List (Action Op)} (h : Run.run step s actions = some s') :
    s.started <+: s'.started :=
  Run.run_induction (I := fun t : State Op => s.started <+: t.started)
    (fun _ _ _ ht hstep => ht.trans (prefix_started hstep)) List.prefix_rfl h

/-- As long as it waits, the releases are paid for by the operations that were ahead and by those
that have overtaken it. -/
theorem run_waitsIn {actions : List (Action Op)} (hs : Inv maxLockers s)
    (hcall : WaitsIn slot call s) (h : Run.run step s actions = some s') :
    (WaitsIn slot call s' ∧
      (ahead slot s'.exclusive).length + releases actions =
        (ahead slot s.exclusive).length + (overtakers slot s actions).length) ∨
    call ∈ s'.started := by
  induction actions generalizing s with
  | nil =>
    cases h
    exact Or.inl ⟨hcall, rfl⟩
  | cons action actions ih =>
    obtain ⟨t, hstep, hrun⟩ := (Run.run_cons_eq_some step).mp h
    obtain ⟨ht, hcount⟩ | ⟨-, -, hstarted⟩ := step_waitsIn hs hcall hstep
    · refine (ih (inv_step s action t hs hstep) ht hrun).imp_left fun ⟨hwaits, hrest⟩ => ?_
      refine ⟨hwaits, ?_⟩
      have hreleases : releases (action :: actions) = releases actions + releases [action] := by
        simp [releases, List.countP_cons]
      have hovertakers : (overtakers slot s (action :: actions)).length =
          (overtakes slot s action).length + (overtakers slot t actions).length := by
        rw [overtakers, Run.collect_cons_of_eq hstep, List.length_append]
        rfl
      omega
    · right
      apply (prefix_started_of_run hrun).subset
      simp [hstarted]

/-- Fewer than `MaxLockers` operations are ahead of one that waits. -/
theorem ahead_length_lt (hs : Inv maxLockers s) (hcall : WaitsIn slot call s) :
    (ahead slot s.exclusive).length < maxLockers := by
  have hlt : slot < s.exclusive.callbacks.length := (List.getElem?_eq_some_iff.mp hcall).1
  have hle := List.reduceOption_length_le (s.exclusive.callbacks.take slot)
  rw [hs.slots] at hlt
  rw [List.length_take] at hle
  rw [ahead]
  omega

/-! ### The order of two operations -/

/-- Where the first of two operations will be started before the second. -/
def Ordered (first second : Call Op) (s : State Op) : Prop :=
  (∃ low high, low < high ∧ WaitsIn low first s ∧ WaitsIn high second s) ∨
  (first ∈ s.started ∧ ∃ high, WaitsIn high second s) ∨
  [first, second].Sublist s.started

theorem sublist_concat {started : List (Call Op)} (h : first ∈ started) :
    [first, second].Sublist (started ++ [second]) :=
  (List.singleton_sublist.mpr h).append (List.Sublist.refl [second])

theorem Ordered.step (hs : Inv maxLockers s) (h : Ordered first second s)
    (hstep : step s action = some s') : Ordered first second s' := by
  obtain ⟨low, high, hlt, hfirst, hsecond⟩ | ⟨hfirst, high, hsecond⟩ | hboth := h
  · obtain ⟨hsecond', -⟩ | ⟨hahead, -, -⟩ := step_waitsIn hs hsecond hstep
    · obtain ⟨hfirst', -⟩ | ⟨-, -, hstarted⟩ := step_waitsIn hs hfirst hstep
      · exact Or.inl ⟨low, high, hlt, hfirst', hsecond'⟩
      · exact Or.inr (Or.inl ⟨by simp [hstarted], high, hsecond'⟩)
    · -- the first operation is ahead of the second
      have hmem : first ∈ ahead high s.exclusive := List.reduceOption_mem_iff.mpr
        (List.mem_of_getElem? ((List.getElem?_take_of_lt hlt).trans hfirst))
      exact absurd (hahead ▸ hmem) List.not_mem_nil
  · obtain ⟨hsecond', -⟩ | ⟨-, -, hstarted⟩ := step_waitsIn hs hsecond hstep
    · exact Or.inr (Or.inl ⟨(prefix_started hstep).subset hfirst, high, hsecond'⟩)
    · right
      right
      rw [hstarted]
      exact sublist_concat hfirst
  · exact Or.inr (Or.inr (hboth.trans (prefix_started hstep).sublist))

/-- Nothing that asks now gets ahead of this operation: it has been started, or all the slots below
its own are taken. -/
def Settled (call : Call Op) (s : State Op) : Prop :=
  call ∈ s.started ∨
  ∃ slot, WaitsIn slot call s ∧ ∀ item ∈ s.exclusive.callbacks.take slot, item ≠ none

/-- The call that a request makes. -/
def State.next (s : State Op) (operation : Op) : Call Op := ⟨s.accepted.length, operation⟩

/-- A request is started at once, or waits. -/
theorem step_asyncStart_cases (hs : Inv maxLockers s)
    (h : step s (.asyncStart operation) = some s') :
    (s.exclusive.waiting = [] ∧ s'.started = s.started ++ [s.next operation]) ∨
    (s.exclusive.outstanding = true ∧ s'.started = s.started ∧
      ∃ slot < s.exclusive.callbacks.length,
        s'.exclusive.callbacks = s.exclusive.callbacks.set slot (some (s.next operation)) ∧
        s.exclusive.callbacks[slot]? = some none ∧
        ∀ item ∈ s.exclusive.callbacks.take slot, item ≠ none) := by
  cases ho : s.exclusive.outstanding with
  | false =>
    obtain ⟨result, hresult, rfl⟩ := Option.map_eq_some_iff.mp h
    rw [asyncStart_of_free _ ho] at hresult
    obtain rfl := Option.some.inj hresult
    exact Or.inl ⟨(hs.free ho).2, rfl⟩
  | true => exact Or.inr ⟨rfl, step_asyncStart_of_outstanding ho h⟩

theorem settled_of_asyncStart (hs : Inv maxLockers s)
    (h : step s (.asyncStart operation) = some s') : Settled (s.next operation) s' := by
  obtain ⟨-, hstarted⟩ | ⟨-, -, slot, hlt, hset, -, hbelow⟩ := step_asyncStart_cases hs h
  · exact Or.inl (by simp [hstarted])
  · refine Or.inr ⟨slot, ?_, ?_⟩
    · rw [WaitsIn, hset, List.getElem?_set_self hlt]
    · rwa [hset, List.take_set_of_le le_rfl]

theorem Settled.step (hs : Inv maxLockers s) (h : Settled call s) (ha : action.isRelease = false)
    (hstep : step s action = some s') : Settled call s' := by
  obtain hstarted | ⟨slot, hcall, hfull⟩ := h
  · exact Or.inl ((prefix_started hstep).subset hstarted)
  · obtain ⟨hcall', -⟩ | ⟨-, hrelease, -⟩ := step_waitsIn hs hcall hstep
    · refine Or.inr ⟨slot, hcall', ?_⟩
      cases action with
      | asyncStart operation =>
        obtain ⟨-, new, hlt, hset, hnone, -⟩ :=
          step_asyncStart_of_outstanding (hcall.outstanding hs) hstep
        rw [hset, List.take_set_of_le]
        · exact hfull
        · -- the new operation does not find an empty slot below
          by_contra hlow
          exact hfull none (List.mem_of_getElem?
            ((List.getElem?_take_of_lt (Nat.lt_of_not_le hlow)).trans hnone)) rfl
      | release number => exact absurd ha (by simp [Action.isRelease])
      | «return» =>
        simp only [AsyncExclusive.step] at hstep
        split at hstep
        · cases hstep
        · cases hstep
          exact hfull
    · exact absurd (ha.symm.trans hrelease) (by decide)

theorem Settled.ordered (hs : Inv maxLockers s) (h : Settled first s)
    (hstep : AsyncExclusive.step s (.asyncStart operation) = some s') :
    Ordered first (s.next operation) s' := by
  obtain ⟨hwaiting, hstarted⟩ | ⟨ho, hstarted, new, hlt, hset, hnone, -⟩ :=
    step_asyncStart_cases hs hstep
  · -- the resource is free, so that nothing waits
    obtain hfirst | ⟨slot, hfirst, -⟩ := h
    · right
      right
      rw [hstarted]
      exact sublist_concat hfirst
    · exact absurd (hwaiting ▸ hfirst.mem_waiting) List.not_mem_nil
  · have hsecond : WaitsIn new (s.next operation) s' := by
      rw [WaitsIn, hset, List.getElem?_set_self hlt]
    obtain hfirst | ⟨slot, hfirst, hfull⟩ := h
    · exact Or.inr (Or.inl ⟨hstarted ▸ hfirst, new, hsecond⟩)
    · have hlow : slot < new := by
        rcases Nat.lt_trichotomy slot new with hlow | rfl | hhigh
        · exact hlow
        · exact absurd (hnone.symm.trans hfirst) (by simp)
        · exact absurd rfl (hfull none (List.mem_of_getElem?
            ((List.getElem?_take_of_lt hhigh).trans hnone)))
      refine Or.inl ⟨slot, new, hlow, ?_, hsecond⟩
      rw [WaitsIn, hset, List.getElem?_set_ne hlow.ne']
      exact hfirst

/-! ### Every run -/

theorem accepted_length {actions : List (Action Op)} (h : Run.run step s actions = some s') :
    s'.accepted.length = s.accepted.length + requests actions := by
  induction actions generalizing s with
  | nil =>
    cases h
    rfl
  | cons action actions ih =>
    obtain ⟨t, hstep, hrun⟩ := (Run.run_cons_eq_some step).mp h
    have hone : t.accepted.length = s.accepted.length + requests [action] := by
      cases action with
      | asyncStart operation =>
        obtain ⟨result, -, rfl⟩ := Option.map_eq_some_iff.mp hstep
        simp [State.called, requests, Action.isAsyncStart]
      | release number =>
        simp only [step] at hstep
        split at hstep
        · obtain ⟨result, -, rfl⟩ := Option.map_eq_some_iff.mp hstep
          rfl
        · cases hstep
      | «return» =>
        simp only [step] at hstep
        split at hstep
        · cases hstep
        · cases hstep
          rfl
    have hsum : requests (action :: actions) = requests [action] + requests actions := by
      simp [requests, List.countP_cons, Nat.add_comm]
    rw [ih hrun, hone, hsum, Nat.add_assoc]

/-- While nothing is released, nothing gets ahead. -/
theorem Settled.run {actions : List (Action Op)} (hs : Inv maxLockers s) (h : Settled call s)
    (hreleases : releases actions = 0)
    (hrun : Run.run AsyncExclusive.step s actions = some s') :
    Inv maxLockers s' ∧ Settled call s' := by
  have hnone : ∀ action ∈ actions, action.isRelease = false := by
    simpa [releases, List.countP_eq_zero] using hreleases
  refine Run.run_induction_of_guarded (I := fun t => Inv maxLockers t ∧ Settled call t) ?_
    ⟨hs, h⟩ (Run.guarded_of_forall hnone) hrun
  intro t action t' hkept haction hstep
  exact ⟨inv_step _ _ _ hkept.1 hstep, hkept.2.step hkept.1 haction hstep⟩

theorem Ordered.run {actions : List (Action Op)} (hs : Inv maxLockers s)
    (h : Ordered first second s) (hrun : Run.run AsyncExclusive.step s actions = some s') :
    Inv maxLockers s' ∧ Ordered first second s' := by
  refine Run.run_induction (I := fun t => Inv maxLockers t ∧ Ordered first second t) ?_
    ⟨hs, h⟩ hrun
  intro t action t' hkept hstep
  exact ⟨inv_step _ _ _ hkept.1 hstep, hkept.2.step hkept.1 hstep⟩

/-- Once the second operation has been started, it comes after the first. -/
theorem Ordered.sublist (hs : Inv maxLockers s) (h : Ordered first second s)
    (hsecond : second ∈ s.started) : [first, second].Sublist s.started := by
  obtain ⟨-, high, -, -, hwaits⟩ | ⟨-, high, hwaits⟩ | hsublist := h
  · exact absurd hsecond (hwaits.not_started hs)
  · exact absurd hsecond (hwaits.not_started hs)
  · exact hsublist

theorem overtakers_length_le {actions : List (Action Op)} (h : Run.run step s actions = some s') :
    (overtakers slot s actions).length ≤ requests actions := by
  induction actions generalizing s with
  | nil => exact le_rfl
  | cons action actions ih =>
    obtain ⟨t, hstep, hrun⟩ := (Run.run_cons_eq_some step).mp h
    have hrest := ih hrun
    have hone : (overtakes slot s action).length ≤ requests [action] := by
      cases action with
      | asyncStart operation =>
        simp only [overtakes]
        split <;> simp [requests, Action.isAsyncStart]
      | release number => exact Nat.zero_le _
      | «return» => exact Nat.zero_le _
    have hsum : requests (action :: actions) = requests [action] + requests actions := by
      simp [requests, List.countP_cons, Nat.add_comm]
    rw [overtakers, Run.collect_cons_of_eq hstep, List.length_append, hsum]
    exact Nat.add_le_add hone hrest

/-- **The order of the operations that wait.** In every run, operations that asked with no release
in between are started in the order in which they asked; and an operation that waits is started
after at most `MaxLockers` further releases, and one more for each request that meanwhile takes a
slot below its own: none if there is no new request. -/
theorem started_by_slot (maxLockers : ℕ) :
    (∀ (before between after : List (Action Op)) (first second : Op) (s : State Op),
      Run.run step (State.init maxLockers)
          (before ++ .asyncStart first :: (between ++ .asyncStart second :: after)) = some s →
      releases between = 0 →
      (⟨requests before + 1 + requests between, second⟩ : Call Op) ∈ s.started →
      [⟨requests before, first⟩, ⟨requests before + 1 + requests between, second⟩].Sublist
        s.started) ∧
    (∀ (before after : List (Action Op)) (s s' : State Op) (slot : ℕ) (call : Call Op),
      Run.run step (State.init maxLockers) before = some s → WaitsIn slot call s →
      Run.run step s after = some s' → (overtakers slot s after).length ≤ requests after ∧
      (maxLockers + (overtakers slot s after).length ≤ releases after → call ∈ s'.started)) := by
  constructor
  · intro before between after first second s h hreleases hsecond
    obtain ⟨s₁, hbefore, h⟩ := (Run.run_append_eq_some step).mp h
    obtain ⟨s₂, hfirst, h⟩ := (Run.run_cons_eq_some step).mp h
    obtain ⟨s₃, hbetween, h⟩ := (Run.run_append_eq_some step).mp h
    obtain ⟨s₄, hask, hafter⟩ := (Run.run_cons_eq_some step).mp h
    have hs₁ : Inv maxLockers s₁ := Run.run_induction inv_step (inv_init maxLockers) hbefore
    have hcount₁ : s₁.accepted.length = requests before := by
      simpa [State.init] using accepted_length hbefore
    have hcount₃ : s₃.accepted.length = requests before + 1 + requests between := by
      have hone : s₂.accepted.length = s₁.accepted.length + requests [.asyncStart first] :=
        accepted_length (by rw [Run.run_cons, hfirst]; rfl)
      rw [accepted_length hbetween, hone, hcount₁]
      rfl
    obtain ⟨hs₃, hsettled⟩ := (settled_of_asyncStart hs₁ hfirst).run (inv_step _ _ _ hs₁ hfirst)
      hreleases hbetween
    obtain ⟨hs, hordered⟩ := (hsettled.ordered hs₃ hask).run (inv_step _ _ _ hs₃ hask) hafter
    simp only [State.next, hcount₁, hcount₃] at hordered
    exact hordered.sublist hs hsecond
  · intro before after s s' slot call hbefore hcall hafter
    refine ⟨overtakers_length_le hafter, fun hmany => ?_⟩
    have hs : Inv maxLockers s := Run.run_induction inv_step (inv_init maxLockers) hbefore
    obtain ⟨-, hcount⟩ | hstarted := run_waitsIn hs hcall hafter
    · have hahead := ahead_length_lt hs hcall
      omega
    · exact hstarted

/-- With three slots: `b` asks while `a` runs and `c` after it, and then the slot of each operation
that is started goes to a new request.  `c` has not been started after four releases, and `d` and
those that asked after it have. -/
theorem not_started_in_order :
    ∃ s : State Char, Run.run step (State.init 3)
        [.asyncStart 'a', .asyncStart 'b', .asyncStart 'c', .release 0, .asyncStart 'd', .release 1,
          .asyncStart 'e', .release 3, .asyncStart 'f', .release 4] = some s ∧
      ⟨2, 'c'⟩ ∈ s.exclusive.waiting ∧
      s.started = [⟨0, 'a'⟩, ⟨1, 'b'⟩, ⟨3, 'd'⟩, ⟨4, 'e'⟩, ⟨5, 'f'⟩] := by
  refine ⟨_, rfl, ?_, rfl⟩
  decide

end Mjlib.Micro.AsyncExclusive
