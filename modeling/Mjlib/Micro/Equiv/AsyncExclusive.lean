import Mathlib
import Mjlib.Micro.AsyncExclusive

/-!
# `AsyncExclusive` gives the resource to one operation at a time

- `mutual_exclusion`: in every run, whatever the order of the calls and releases, at most one
  operation owns the resource, every accepted operation has been started once or waits, nothing
  waits while the resource is free, and the only assertion that can fail is the one for an operation
  that finds every slot taken.
-/

namespace Mjlib.Micro.AsyncExclusive

variable {Op : Type*}

/-! ### The slots -/

theorem queue_eq_some {operation : Op} {items items' : List (Option Op)}
    (h : queue operation items = some items') :
    items'.length = items.length ∧
      items'.reduceOption.Perm (operation :: items.reduceOption) := by
  induction items generalizing items' with
  | nil => exact nomatch h
  | cons item items ih =>
    cases item with
    | none =>
      obtain rfl := Option.some.inj h
      simp
    | some item =>
      obtain ⟨rest, hrest, rfl⟩ := Option.map_eq_some_iff.mp h
      obtain ⟨hlength, hperm⟩ := ih hrest
      refine ⟨by simpa using hlength, ?_⟩
      simpa using (hperm.cons item).trans (List.Perm.swap operation item _)

theorem queue_eq_none {operation : Op} {items : List (Option Op)} :
    queue operation items = none ↔ items.reduceOption.length = items.length := by
  induction items with
  | nil => simp [queue]
  | cons item items ih =>
    cases item with
    | none =>
      have h := List.reduceOption_length_le items
      simp only [queue, List.reduceOption_cons_of_none, List.length_cons, reduceCtorEq, false_iff]
      omega
    | some item => simpa [queue] using ih

theorem unqueue_eq_some {operation : Op} {items items' : List (Option Op)}
    (h : unqueue items = some (operation, items')) :
    items'.length = items.length ∧ items.reduceOption = operation :: items'.reduceOption := by
  induction items generalizing items' with
  | nil => exact nomatch h
  | cons item items ih =>
    cases item with
    | none =>
      obtain ⟨⟨first, rest⟩, hrest, heq⟩ := Option.map_eq_some_iff.mp h
      obtain ⟨rfl, rfl⟩ := Prod.mk.inj heq
      simpa using ih hrest
    | some item =>
      obtain ⟨rfl, rfl⟩ := Prod.mk.inj (Option.some.inj h)
      simp

theorem unqueue_eq_none {items : List (Option Op)} (h : unqueue items = none) :
    items.reduceOption = [] := by
  induction items with
  | nil => rfl
  | cons item items ih =>
    cases item with
    | none =>
      have h' := Option.map_eq_none_iff.mp h
      simpa using ih h'
    | some item => exact nomatch h

/-! ### One call -/

theorem asyncStart_of_free (operation : Op) {e : AsyncExclusive Op} (h : e.outstanding = false) :
    e.asyncStart operation = some ({ e with outstanding := true }, some operation) := by
  simp [asyncStart, h]

/-- While the resource is owned an operation takes a slot, and nothing is called. -/
theorem asyncStart_of_outstanding {operation : Op} {e : AsyncExclusive Op}
    {result : AsyncExclusive Op × Option Op} (ho : e.outstanding = true)
    (h : e.asyncStart operation = some result) :
    result.2 = none ∧ result.1.outstanding = true ∧
      result.1.callbacks.length = e.callbacks.length ∧
      result.1.waiting.Perm (operation :: e.waiting) := by
  simp only [asyncStart, ho, Bool.not_true, Bool.false_eq_true, if_false] at h
  obtain ⟨callbacks, hqueue, rfl⟩ := Option.map_eq_some_iff.mp h
  obtain ⟨hlength, hperm⟩ := queue_eq_some hqueue
  exact ⟨rfl, rfl, hlength, hperm⟩

theorem asyncStart_eq_none {operation : Op} {e : AsyncExclusive Op} :
    e.asyncStart operation = none ↔
      e.outstanding = true ∧ e.waiting.length = e.callbacks.length := by
  cases ho : e.outstanding with
  | false => simp [asyncStart_of_free operation ho]
  | true => simp [asyncStart, ho, queue_eq_none, waiting]

/-- **A release** either frees the resource, when nothing waits, or hands it to the operation in the
first slot that is taken. -/
theorem release_cases (e : AsyncExclusive Op) :
    (e.waiting = [] ∧ e.release = some ({ e with outstanding := false }, none)) ∨
    ∃ operation callbacks, callbacks.length = e.callbacks.length ∧
      e.waiting = operation :: callbacks.reduceOption ∧
      e.release = some ({ outstanding := true, callbacks := callbacks }, some operation) := by
  cases h : unqueue e.callbacks with
  | none =>
    left
    exact ⟨unqueue_eq_none h, by simp [release, maybeStartQueued, h]⟩
  | some taken =>
    obtain ⟨operation, callbacks⟩ := taken
    obtain ⟨hlength, hwaiting⟩ := unqueue_eq_some h
    right
    exact ⟨operation, callbacks, hlength, hwaiting, by
      simp [release, maybeStartQueued, h, asyncStart]⟩

/-- What `AsyncStart` does: it calls the operation, or lets it wait. -/
theorem asyncStart_cases {operation : Op} {e : AsyncExclusive Op}
    {result : AsyncExclusive Op × Option Op} (h : e.asyncStart operation = some result) :
    (e.outstanding = false ∧ result = ({ e with outstanding := true }, some operation)) ∨
    (e.outstanding = true ∧ result.2 = none ∧ result.1.outstanding = true ∧
      result.1.waiting.Perm (operation :: e.waiting)) := by
  cases ho : e.outstanding with
  | false =>
    rw [asyncStart_of_free operation ho] at h
    exact Or.inl ⟨rfl, (Option.some.inj h).symm⟩
  | true =>
    obtain ⟨hnone, houtstanding, -, hperm⟩ := asyncStart_of_outstanding ho h
    exact Or.inr ⟨rfl, hnone, houtstanding, hperm⟩

/-- What a release does, by the operations that wait before and after. -/
theorem release_eq_some {e : AsyncExclusive Op} {result : AsyncExclusive Op × Option Op}
    (h : e.release = some result) :
    (e.waiting = [] ∧ result = ({ e with outstanding := false }, none)) ∨
    ∃ operation, result.2 = some operation ∧ result.1.outstanding = true ∧
      e.waiting = operation :: result.1.waiting := by
  obtain ⟨hwaiting, hrelease⟩ | ⟨operation, callbacks, -, hwaiting, hrelease⟩ := release_cases e
  · rw [hrelease] at h
    exact Or.inl ⟨hwaiting, (Option.some.inj h).symm⟩
  · rw [hrelease] at h
    obtain rfl := Option.some.inj h
    exact Or.inr ⟨operation, rfl, rfl, hwaiting⟩

/-! ### Every step -/

/-- What holds in every state of a run. -/
structure Inv (maxLockers : ℕ) (s : State Op) : Prop where
  slots : s.exclusive.callbacks.length = maxLockers
  numbers : s.accepted.map Call.number = List.range s.accepted.length
  once : (s.started ++ s.exclusive.waiting).Perm s.accepted
  releases : ∀ number ∈ s.released, number ∈ s.started.map Call.number
  owner : s.exclusive.outstanding = true → ∃ call, s.owners = [call]
  free : s.exclusive.outstanding = false → s.owners = [] ∧ s.exclusive.waiting = []

theorem inv_init (maxLockers : ℕ) : Inv maxLockers (State.init maxLockers : State Op) where
  slots := List.length_replicate
  numbers := rfl
  once := by simp [State.init, AsyncExclusive.init, waiting, List.reduceOption_replicate_none]
  releases := by simp [State.init]
  owner := nofun
  free _ := ⟨rfl, List.reduceOption_replicate_none⟩

namespace Inv

variable {maxLockers : ℕ} {s : State Op}

/-- No two accepted calls have the same number. -/
theorem nodup (h : Inv maxLockers s) : (s.accepted.map Call.number).Nodup := by
  rw [h.numbers]
  exact List.nodup_range

theorem number_lt (h : Inv maxLockers s) {call : Call Op} (hcall : call ∈ s.accepted) :
    call.number < s.accepted.length := by
  have hmem := List.mem_map_of_mem (f := Call.number) hcall
  rw [h.numbers] at hmem
  exact List.mem_range.mp hmem

theorem mem_accepted_of_started (h : Inv maxLockers s) {call : Call Op}
    (hcall : call ∈ s.started) : call ∈ s.accepted :=
  h.once.subset (List.mem_append_left _ hcall)

/-- A call whose number no started call has is not released. -/
theorem not_released (h : Inv maxLockers s) {number : ℕ}
    (hnumber : number ∉ s.started.map Call.number) : number ∉ s.released :=
  fun hmem => hnumber (h.releases number hmem)

/-- What waits has not been started. -/
theorem not_started_of_waiting (h : Inv maxLockers s) {call : Call Op}
    (hcall : call ∈ s.exclusive.waiting) : call.number ∉ s.started.map Call.number := by
  have hnodup := (h.once.map Call.number).nodup_iff.mpr h.nodup
  rw [List.map_append, List.nodup_append] at hnodup
  intro hmem
  exact hnodup.2.2 _ hmem _ (List.mem_map_of_mem hcall) rfl

end Inv

theorem numbers_concat {accepted : List (Call Op)} (operation : Op)
    (h : accepted.map Call.number = List.range accepted.length) :
    (accepted ++ [(⟨accepted.length, operation⟩ : Call Op)]).map Call.number =
      List.range (accepted ++ [(⟨accepted.length, operation⟩ : Call Op)]).length := by
  simp [h, List.range_succ]

/-- The owners when one more operation is started. -/
theorem owners_concat (started : List (Call Op)) (released : List ℕ) (call : Call Op)
    (h : call.number ∉ released) :
    ((started ++ [call]).filter fun call => call.number ∉ released) =
      (started.filter fun call => call.number ∉ released) ++ [call] := by
  simp [List.filter_append, h]

/-- The only owner gives the resource up. -/
theorem owners_release {started : List (Call Op)} {released : List ℕ} {owner : Call Op}
    (h : (started.filter fun call => call.number ∉ released) = [owner]) :
    (started.filter fun call => call.number ∉ owner.number :: released) = [] := by
  rw [List.filter_eq_nil_iff]
  intro call hcall hkept
  simp only [List.mem_cons, not_or, decide_eq_true_eq] at hkept
  have hmem : call ∈ started.filter fun call => call.number ∉ released :=
    List.mem_filter.mpr ⟨hcall, by simpa using hkept.2⟩
  rw [h, List.mem_singleton] at hmem
  exact hkept.1 (by rw [hmem])

theorem inv_asyncStart {maxLockers : ℕ} {s s' : State Op} {operation : Op} (hs : Inv maxLockers s)
    (h : step s (.asyncStart operation) = some s') : Inv maxLockers s' := by
  obtain ⟨result, hresult, rfl⟩ := Option.map_eq_some_iff.mp h
  have hnew : s.accepted.length ∉ s.started.map Call.number := by
    intro hmem
    obtain ⟨call, hcall, hnumber⟩ := List.mem_map.mp hmem
    exact absurd (hs.number_lt (hs.mem_accepted_of_started hcall)) (by omega)
  cases ho : s.exclusive.outstanding with
  | false =>
    -- the resource is free: the operation is called
    rw [asyncStart_of_free _ ho] at hresult
    obtain rfl := Option.some.inj hresult
    obtain ⟨howners, hwaiting⟩ := hs.free ho
    have hkept := owners_concat s.started s.released
      ⟨s.accepted.length, operation⟩ (hs.not_released hnew)
    refine ⟨hs.slots, numbers_concat operation hs.numbers, ?_, ?_, ?_, nofun⟩
    · have hperm := hs.once
      rw [hwaiting, List.append_nil] at hperm
      have hw : waiting { s.exclusive with outstanding := true } = [] := hwaiting
      simpa [State.called, hw] using hperm.append_right [⟨s.accepted.length, operation⟩]
    · intro number hnumber
      simpa [State.called] using Or.inl (List.mem_map.mp (hs.releases number hnumber))
    · intro _
      refine ⟨⟨s.accepted.length, operation⟩, hkept.trans ?_⟩
      rw [show (s.started.filter fun call => call.number ∉ s.released) = [] from howners]
      rfl
  | true =>
    -- it is owned: the operation waits
    obtain ⟨hnone, houtstanding, hlength, hperm⟩ := asyncStart_of_outstanding ho hresult
    obtain ⟨e, started⟩ := result
    obtain rfl : started = none := hnone
    refine ⟨hlength.trans hs.slots, numbers_concat operation hs.numbers, ?_, ?_, ?_, ?_⟩
    · have hmiddle := (hperm.append_left s.started).trans List.perm_middle
      have hfront := hmiddle.trans (hs.once.cons _)
      simpa [State.called] using hfront.trans (List.perm_append_singleton _ _).symm
    · simpa [State.called] using hs.releases
    · intro _
      simpa [State.owners, State.called] using hs.owner ho
    · intro hfree
      exact absurd (houtstanding.symm.trans hfree) (by decide)

theorem inv_release {maxLockers : ℕ} {s s' : State Op} {number : ℕ} (hs : Inv maxLockers s)
    (h : step s (.release number) = some s') : Inv maxLockers s' := by
  simp only [step] at h
  split at h
  · rename_i hany
    obtain ⟨result, hresult, rfl⟩ := Option.map_eq_some_iff.mp h
    obtain ⟨call, hcall, hnumber⟩ := List.any_eq_true.mp hany
    obtain rfl : call.number = number := by simpa using hnumber
    have hstarted : call ∈ s.started := (List.mem_filter.mp hcall).1
    -- the operation that releases is the only owner
    have howners : s.owners = [call] := by
      cases ho : s.exclusive.outstanding with
      | false =>
        rw [(hs.free ho).1] at hcall
        exact absurd hcall List.not_mem_nil
      | true =>
        obtain ⟨owner, howner⟩ := hs.owner ho
        rw [howner, List.mem_singleton] at hcall
        rw [howner, hcall]
    have hnone := owners_release howners
    obtain ⟨hwaiting, hrelease⟩ | ⟨next, callbacks, hlength, hwaiting, hrelease⟩ :=
      release_cases s.exclusive
    · rw [hrelease] at hresult
      obtain rfl := Option.some.inj hresult
      have hw : waiting { s.exclusive with outstanding := false } = [] := hwaiting
      refine ⟨hs.slots, hs.numbers, ?_, ?_, nofun, ?_⟩
      · have hperm := hs.once
        rw [hwaiting] at hperm
        simpa [State.called, hw] using hperm
      · intro number hmem
        obtain rfl | hmem := List.mem_cons.mp hmem
        · simpa [State.called] using ⟨call, hstarted, rfl⟩
        · simpa [State.called] using hs.releases number hmem
      · intro _
        exact ⟨by simpa [State.called, State.owners] using hnone, hw⟩
    · rw [hrelease] at hresult
      obtain rfl := Option.some.inj hresult
      have hnext : next.number ∉ s.started.map Call.number :=
        hs.not_started_of_waiting (by rw [hwaiting]; exact List.mem_cons_self)
      have hkept : next.number ∉ call.number :: s.released := by
        rw [List.mem_cons, not_or]
        refine ⟨fun heq => hnext ?_, hs.not_released hnext⟩
        rw [heq]
        exact List.mem_map_of_mem hstarted
      refine ⟨hlength.trans hs.slots, hs.numbers, ?_, ?_, ?_, nofun⟩
      · have hperm := hs.once
        rw [hwaiting] at hperm
        have hw : waiting { outstanding := true, callbacks := callbacks } =
            callbacks.reduceOption := rfl
        simpa [State.called, hw] using hperm
      · intro number hmem
        obtain rfl | hmem := List.mem_cons.mp hmem
        · simpa [State.called] using Or.inl ⟨call, hstarted, rfl⟩
        · simpa [State.called] using Or.inl (List.mem_map.mp (hs.releases number hmem))
      · intro _
        refine ⟨next, (owners_concat s.started _ _ hkept).trans ?_⟩
        rw [hnone]
        rfl
  · exact nomatch h

theorem inv_return {maxLockers : ℕ} {s s' : State Op} (hs : Inv maxLockers s)
    (h : step s .return = some s') : Inv maxLockers s' := by
  simp only [step] at h
  split at h
  · exact nomatch h
  · obtain rfl := Option.some.inj h
    exact ⟨hs.slots, hs.numbers, hs.once, hs.releases, hs.owner, hs.free⟩

theorem inv_step {maxLockers : ℕ} (s : State Op) (action : Action Op) (s' : State Op)
    (hs : Inv maxLockers s) (h : step s action = some s') : Inv maxLockers s' := by
  cases action with
  | asyncStart operation => exact inv_asyncStart hs h
  | release number => exact inv_release hs h
  | «return» => exact inv_return hs h

/-! ### The owners -/

/-- A request is started when nobody owns the resource, and waits otherwise. -/
theorem owners_of_asyncStart {maxLockers : ℕ} {s s' : State Op} {operation : Op}
    (hs : Inv maxLockers s) (h : step s (.asyncStart operation) = some s') :
    s'.accepted = s.accepted ++ [⟨s.accepted.length, operation⟩] ∧
    ((s.owners = [] ∧ s.exclusive.waiting = [] ∧ s'.exclusive.waiting = [] ∧
        s'.owners = [⟨s.accepted.length, operation⟩] ∧
        s'.started = s.started ++ [⟨s.accepted.length, operation⟩]) ∨
      (s.owners ≠ [] ∧ s'.owners = s.owners ∧ s'.started = s.started ∧
        s'.exclusive.waiting.Perm (⟨s.accepted.length, operation⟩ :: s.exclusive.waiting))) := by
  have hs' := inv_step s (.asyncStart operation) s' hs h
  obtain ⟨result, hresult, rfl⟩ := Option.map_eq_some_iff.mp h
  refine ⟨rfl, ?_⟩
  obtain ⟨ho, rfl⟩ | ⟨ho, hnone, -, hperm⟩ := asyncStart_cases hresult
  · obtain ⟨howners, hwaiting⟩ := hs.free ho
    refine Or.inl ⟨howners, hwaiting, hwaiting, ?_, rfl⟩
    obtain ⟨owner, howner⟩ := hs'.owner rfl
    rw [howner]
    -- the new call is one of the owners
    have hmem : (⟨s.accepted.length, operation⟩ : Call Op) ∈
        (State.called { s with accepted := s.accepted ++ [⟨s.accepted.length, operation⟩] }
          ({ s.exclusive with outstanding := true },
            some ⟨s.accepted.length, operation⟩)).owners := by
      refine List.mem_filter.mpr ⟨by simp [State.called], decide_eq_true ?_⟩
      refine hs.not_released fun hstarted => ?_
      obtain ⟨call, hcall, hnumber⟩ := List.mem_map.mp hstarted
      have hlt := hs.number_lt (hs.mem_accepted_of_started hcall)
      rw [hnumber] at hlt
      exact Nat.lt_irrefl _ hlt
    rw [howner] at hmem
    rw [List.mem_singleton.mp hmem]
  · obtain ⟨e, started⟩ := result
    obtain rfl : started = none := hnone
    obtain ⟨owner, howner⟩ := hs.owner ho
    refine Or.inr ⟨by simp [howner], by simp [State.owners, State.called], by simp [State.called],
      hperm⟩

/-- The only owner releases, and the resource is free or goes to an operation that waits. -/
theorem owners_of_release {maxLockers : ℕ} {s s' : State Op} {number : ℕ} (hs : Inv maxLockers s)
    (h : step s (.release number) = some s') :
    s'.accepted = s.accepted ∧ ∃ call, call.number = number ∧ s.owners = [call] ∧
    ((s.exclusive.waiting = [] ∧ s'.exclusive.waiting = [] ∧ s'.owners = [] ∧
        s'.started = s.started) ∨
      ∃ next, s.exclusive.waiting = next :: s'.exclusive.waiting ∧ s'.owners = [next] ∧
        s'.started = s.started ++ [next]) := by
  have hs' := inv_step s (.release number) s' hs h
  simp only [step] at h
  split at h
  · rename_i hany
    obtain ⟨result, hresult, rfl⟩ := Option.map_eq_some_iff.mp h
    obtain ⟨call, hcall, hnumber⟩ := List.any_eq_true.mp hany
    have howners : s.owners = [call] := by
      cases ho : s.exclusive.outstanding with
      | false => exact absurd ((hs.free ho).1 ▸ hcall) List.not_mem_nil
      | true =>
        obtain ⟨owner, howner⟩ := hs.owner ho
        rw [howner, List.mem_singleton] at hcall
        rw [howner, hcall]
    refine ⟨rfl, call, by simpa using hnumber, howners, ?_⟩
    obtain ⟨hwaiting, rfl⟩ | ⟨next, hnext, ho, hwaiting⟩ := release_eq_some hresult
    · exact Or.inl ⟨hwaiting, hwaiting, (hs'.free rfl).1, by simp [State.called]⟩
    · obtain ⟨e, started⟩ := result
      obtain rfl : started = some next := hnext
      refine Or.inr ⟨next, hwaiting, ?_, rfl⟩
      obtain ⟨owner, howner⟩ := hs'.owner ho
      rw [howner]
      have hmem : next ∈ (State.called { s with released := number :: s.released }
          (e, some next)).owners := by
        have hstarted : next.number ∉ s.started.map Call.number :=
          hs.not_started_of_waiting (by rw [hwaiting]; exact List.mem_cons_self)
        refine List.mem_filter.mpr ⟨by simp [State.called], decide_eq_true ?_⟩
        show next.number ∉ number :: s.released
        rw [List.mem_cons, not_or]
        refine ⟨fun heq => hstarted ?_, hs.not_released hstarted⟩
        rw [heq, ← show call.number = number by simpa using hnumber]
        exact List.mem_map_of_mem (List.mem_filter.mp hcall).1
      rw [howner] at hmem
      rw [List.mem_singleton.mp hmem]
  · exact nomatch h

/-! ### Every run -/

/-- The only assertion that an owner or a new operation can make fail. -/
theorem Inv.asyncStart_eq_none_iff {maxLockers : ℕ} {s : State Op} (hs : Inv maxLockers s)
    (operation : Op) :
    step s (.asyncStart operation) = none ↔ s.exclusive.waiting.length = maxLockers ∧
      s.owners ≠ [] := by
  simp only [step, Option.map_eq_none_iff, asyncStart_eq_none, hs.slots]
  cases ho : s.exclusive.outstanding with
  | false => simp [(hs.free ho).1]
  | true =>
    obtain ⟨owner, howner⟩ := hs.owner ho
    simp [howner]

theorem Inv.release_isSome {maxLockers : ℕ} {s : State Op} (hs : Inv maxLockers s)
    {call : Call Op} (hcall : call ∈ s.owners) : (step s (.release call.number)).isSome := by
  have hany : (s.owners.any fun owner => owner.number == call.number) = true :=
    List.any_eq_true.mpr ⟨call, hcall, by simp⟩
  simp only [step, hany, if_true, Option.isSome_map]
  obtain ⟨-, hrelease⟩ | ⟨next, callbacks, -, -, hrelease⟩ := release_cases s.exclusive
  · rw [hrelease]
    rfl
  · rw [hrelease]
    rfl

/-- **Mutual exclusion.** After any calls and releases, in any order and from inside the operations
or not, at most one operation owns the resource; the accepted operations are those that were started
and those that wait, each once; nothing waits while nobody owns the resource; an owner can release;
and an operation is refused only when it finds `MaxLockers` operations waiting. -/
theorem mutual_exclusion (maxLockers : ℕ) (actions : List (Action Op)) (s : State Op)
    (h : Run.run step (State.init maxLockers) actions = some s) :
    s.owners.length ≤ 1 ∧
    (s.accepted.Nodup ∧ (s.started ++ s.exclusive.waiting).Perm s.accepted) ∧
    (s.owners = [] → s.exclusive.waiting = []) ∧
    (∀ call ∈ s.owners, (step s (.release call.number)).isSome) ∧
    ∀ operation, step s (.asyncStart operation) = none →
      s.exclusive.waiting.length = maxLockers := by
  have hs : Inv maxLockers s := Run.run_induction inv_step (inv_init maxLockers) h
  refine ⟨?_, ⟨hs.nodup.of_map, hs.once⟩, ?_, fun call hcall => hs.release_isSome hcall,
    fun operation hnone => ((hs.asyncStart_eq_none_iff operation).mp hnone).1⟩
  · cases ho : s.exclusive.outstanding with
    | false => simp [(hs.free ho).1]
    | true =>
      obtain ⟨owner, howner⟩ := hs.owner ho
      simp [howner]
  · intro howners
    cases ho : s.exclusive.outstanding with
    | false => exact (hs.free ho).2
    | true =>
      obtain ⟨owner, howner⟩ := hs.owner ho
      exact absurd (howners.symm.trans howner) (by simp)

/-- Two operations, the second one from inside the first, which releases before it returns. -/
theorem mutual_exclusion_nested :
    ∃ s : State Unit, Run.run step (State.init 1)
        [.asyncStart (), .asyncStart (), .release 0, .return, .release 1, .return] = some s ∧
      s.owners.length ≤ 1 := by
  refine ⟨_, rfl, ?_⟩
  exact (mutual_exclusion 1
    [.asyncStart (), .asyncStart (), .release 0, .return, .release 1, .return] _ rfl).1

end Mjlib.Micro.AsyncExclusive
