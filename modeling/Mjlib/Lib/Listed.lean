import Mathlib

/-!
# The values of a partial function as a list

`Listed f l` says that `l` holds every value of `f` once, in any order: places that each have at most
one thing outstanding, and the queue of what is outstanding.  Queueing the value of a place that has
none, and taking one out, keep it.
-/

variable {ι α : Type*} {f : ι → Option α} {l l' : List α} {i : ι} {a : α}

/-- The values of `f` are the members of `l`, none twice. -/
structure Listed (f : ι → Option α) (l : List α) : Prop where
  nodup : l.Nodup
  mem_iff : ∀ a, a ∈ l ↔ ∃ i, f i = some a
  inj : ∀ {i j a}, f i = some a → f j = some a → i = j

namespace Listed

theorem nil : Listed (fun _ : ι => (none : Option α)) [] :=
  ⟨List.nodup_nil, fun a => by simp, nofun⟩

theorem mem (h : Listed f l) (hi : f i = some a) : a ∈ l := (h.mem_iff a).mpr ⟨i, hi⟩

theorem perm (h : Listed f l) (hl : l.Perm l') : Listed f l' :=
  ⟨hl.nodup_iff.mp h.nodup, fun a => hl.mem_iff.symm.trans (h.mem_iff a), h.inj⟩

variable [DecidableEq ι]

theorem cons (h : Listed f l) (hi : f i = none) (ha : ∀ j, f j ≠ some a) :
    Listed (Function.update f i (some a)) (a :: l) := by
  have hmem : a ∉ l := by
    rw [h.mem_iff]
    rintro ⟨j, hj⟩
    exact ha j hj
  refine ⟨List.nodup_cons.mpr ⟨hmem, h.nodup⟩, fun b => ?_, ?_⟩
  · rw [List.mem_cons, h.mem_iff]
    constructor
    · rintro (rfl | ⟨j, hj⟩)
      · exact ⟨i, Function.update_self ..⟩
      · refine ⟨j, ?_⟩
        rwa [Function.update_of_ne]
        rintro rfl
        rw [hi] at hj
        cases hj
    · rintro ⟨j, hj⟩
      rcases eq_or_ne j i with rfl | hne
      · rw [Function.update_self] at hj
        exact .inl (Option.some.inj hj).symm
      · rw [Function.update_of_ne hne] at hj
        exact .inr ⟨j, hj⟩
  · intro j k b hj hk
    rw [Function.update_apply] at hj hk
    split_ifs at hj hk with hji hki hki
    · exact hji.trans hki.symm
    · cases hj
      exact absurd hk (ha k)
    · cases hk
      exact absurd hj (ha j)
    · exact h.inj hj hk

theorem append (h : Listed f l) (hi : f i = none) (ha : ∀ j, f j ≠ some a) :
    Listed (Function.update f i (some a)) (l ++ [a]) :=
  (h.cons hi ha).perm (List.perm_append_singleton a l).symm

theorem tail (h : Listed f (a :: l)) (hi : f i = some a) :
    Listed (Function.update f i none) l := by
  obtain ⟨hmem, hnodup⟩ := List.nodup_cons.mp h.nodup
  refine ⟨hnodup, fun b => ?_, ?_⟩
  · constructor
    · intro hb
      obtain ⟨j, hj⟩ := (h.mem_iff b).mp (List.mem_cons_of_mem _ hb)
      refine ⟨j, ?_⟩
      rwa [Function.update_of_ne]
      rintro rfl
      rw [hi] at hj
      cases hj
      exact hmem hb
    · rintro ⟨j, hj⟩
      rcases eq_or_ne j i with rfl | hne
      · rw [Function.update_self] at hj
        cases hj
      · rw [Function.update_of_ne hne] at hj
        rcases List.mem_cons.mp (h.mem hj) with rfl | hb
        · exact absurd (h.inj hj hi) hne
        · exact hb
  · intro j k b hj hk
    rw [Function.update_apply] at hj hk
    split_ifs at hj hk with hji hki
    exact h.inj hj hk

theorem eraseIdx {k : ℕ} (h : Listed f l) (hk : l[k]? = some a) (hi : f i = some a) :
    Listed (Function.update f i none) (l.eraseIdx k) := by
  obtain ⟨hlt, rfl⟩ := List.getElem?_eq_some_iff.mp hk
  exact (h.perm (List.getElem_cons_eraseIdx_perm hlt).symm).tail hi

end Listed
