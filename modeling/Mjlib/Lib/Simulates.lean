import Mathlib

/-!
# Programs of which one follows the other

`Simulates P x y Q`: from states that `P` relates, whenever `x` succeeds, `y` succeeds with the same
result, and `Q` relates the states behind.  A program that fails is followed by every other one.  The
rules are those of a Hoare logic for two programs.
-/

variable {ε σ τ α β : Type}

/-- When `x` succeeds, `y` does, with the same result. -/
def Simulates (P : σ → τ → Prop) (x : StateT σ (Except ε) α) (y : StateT τ (Except ε) α)
    (Q : α → σ → τ → Prop) : Prop :=
  ∀ s t, P s t → ∀ a s', x s = .ok (a, s') → ∃ t', y t = .ok (a, t') ∧ Q a s' t'

namespace Simulates

variable {P P' : σ → τ → Prop} {Q Q' : α → σ → τ → Prop} {R : β → σ → τ → Prop}
  {x : StateT σ (Except ε) α} {y : StateT τ (Except ε) α}
  {f : α → StateT σ (Except ε) β} {g : α → StateT τ (Except ε) β}

/-- The run of a sequence ends with those of its parts. -/
theorem bind_eq_ok {s s' : σ} {b : β} (h : (x >>= f) s = .ok (b, s')) :
    ∃ a s₁, x s = .ok (a, s₁) ∧ f a s₁ = .ok (b, s') := by
  change (x s >>= fun p => f p.1 p.2) = _ at h
  cases hx : x s with
  | error e =>
    rw [hx] at h
    cases h
  | ok p =>
    rw [hx] at h
    exact ⟨p.1, p.2, rfl, h⟩

theorem pure (a : α) (h : ∀ s t, P s t → Q a s t) :
    Simulates P (Pure.pure a : StateT σ (Except ε) α) (Pure.pure a : StateT τ (Except ε) α) Q := by
  intro s t hst b s' hok
  cases hok
  exact ⟨t, rfl, h s t hst⟩

theorem bind (h : Simulates P x y Q) (hf : ∀ a, Simulates (Q a) (f a) (g a) R) :
    Simulates P (x >>= f) (y >>= g) R := by
  intro s t hst b s' hok
  obtain ⟨a, s₁, hx, hfa⟩ := bind_eq_ok hok
  obtain ⟨t₁, hy, hst₁⟩ := h s t hst a s₁ hx
  obtain ⟨t', hg, hst'⟩ := hf a s₁ t₁ hst₁ b s' hfa
  refine ⟨t', ?_, hst'⟩
  show (y t >>= fun p => g p.1 p.2) = _
  rw [hy]
  exact hg

/-- A program that never succeeds. -/
theorem of_error (h : ∀ s, ∃ e, x s = .error e) : Simulates P x y Q := by
  intro s t _ a s' hok
  obtain ⟨e, he⟩ := h s
  rw [he] at hok
  cases hok

theorem pre (h : Simulates P x y Q) (hP : ∀ s t, P' s t → P s t) : Simulates P' x y Q :=
  fun s t hst => h s t (hP s t hst)

theorem post (h : Simulates P x y Q) (hQ : ∀ a s t, Q a s t → Q' a s t) : Simulates P x y Q' := by
  intro s t hst a s' hok
  obtain ⟨t', hy, hst'⟩ := h s t hst a s' hok
  exact ⟨t', hy, hQ a s' t' hst'⟩

/-- A fact about both states is at hand in the programs. -/
theorem of_pre {p : Prop} (hp : ∀ s t, P s t → p) (h : p → Simulates P x y Q) :
    Simulates P x y Q :=
  fun s t hst => h (hp s t hst) s t hst

/-- Programs that choose their own fuel by the state. -/
theorem of_forall {x : σ → StateT σ (Except ε) α} {y : τ → StateT τ (Except ε) α}
    (h : ∀ s t, P s t → Simulates P (x s) (y t) Q) :
    Simulates P (fun s => x s s) (fun t => y t t) Q :=
  fun s t hst => h s t hst s t hst

/-- What is made of the value does not matter to the states. -/
theorem map {R : σ → τ → Prop} (φ : α → β) (h : Simulates P x y fun _ => R) :
    Simulates P (x >>= fun a => Pure.pure (φ a)) (y >>= fun a => Pure.pure (φ a)) fun _ => R :=
  h.bind fun a => .pure (φ a) fun _ _ hst => hst

/-- A walk along a list. -/
theorem foldlM {ι : Type} {l : List ι} {f : α → ι → StateT σ (Except ε) α}
    {g : α → ι → StateT τ (Except ε) α}
    (h : ∀ i ∈ l, ∀ a, Simulates (Q a) (f a i) (g a i) Q) :
    ∀ a, Simulates (Q a) (l.foldlM f a) (l.foldlM g a) Q := by
  induction l with
  | nil => exact fun a => .pure a fun _ _ hst => hst
  | cons i l ih =>
    intro a
    rw [List.foldlM_cons, List.foldlM_cons]
    exact (h i List.mem_cons_self a).bind fun b =>
      ih (fun j hj => h j (List.mem_cons_of_mem i hj)) b

end Simulates
