import Mathlib

/-!
# Runs of a partial step function

A state machine is a function `step : σ → α → Option σ`, undefined where an action is not possible.
`run step s as` performs the actions `as` from `s`.  Safety is proved by `Invariant` (what every
step keeps) and `run_induction`; a machine that misbehaves on some steps is treated with a guard:
`Guarded step G s as` says that every step of the run is taken where `G` allows it, and
`run_induction_of_guarded` needs the invariant to survive those steps only.  `Always step P s as`
says that `P` holds in every state the run reaches; `always_iff_guarded` is for a guard that is
exactly what keeps `P`.  `collect step f s as` is what the steps of the run put out.
-/

namespace Run

variable {σ α : Type*} (step : σ → α → Option σ)

/-- Perform a list of actions; `none` as soon as one of them is not possible. -/
def run : σ → List α → Option σ
  | s, [] => some s
  | s, a :: as => (step s a).bind fun s' => run s' as

@[simp] theorem run_nil (s : σ) : run step s [] = some s := rfl

theorem run_cons (s : σ) (a : α) (as : List α) :
    run step s (a :: as) = (step s a).bind fun s' => run step s' as := rfl

theorem run_cons_eq_some {s t : σ} {a : α} {as : List α} :
    run step s (a :: as) = some t ↔ ∃ s', step s a = some s' ∧ run step s' as = some t := by
  rw [run_cons, Option.bind_eq_some_iff]

theorem run_append (s : σ) (as bs : List α) :
    run step s (as ++ bs) = (run step s as).bind fun s' => run step s' bs := by
  induction as generalizing s with
  | nil => rfl
  | cons a as ih =>
    rw [List.cons_append, run_cons, run_cons, Option.bind_assoc]
    congr 1
    funext s'
    exact ih s'

theorem run_append_eq_some {s t : σ} {as bs : List α} :
    run step s (as ++ bs) = some t ↔
      ∃ s', run step s as = some s' ∧ run step s' bs = some t := by
  rw [run_append, Option.bind_eq_some_iff]

/-- What the steps of a run put out, one after the other. -/
def collect {β : Type*} (f : σ → α → List β) : σ → List α → List β
  | _, [] => []
  | s, a :: as => f s a ++ ((step s a).map fun s' => collect f s' as).getD []

/-! ### Guarded runs -/

/-- Every step of the run of `as` from `s` is taken where `G` allows it. -/
def Guarded (G : σ → α → Prop) : σ → List α → Prop
  | _, [] => True
  | s, a :: as => G s a ∧ ∀ s', step s a = some s' → Guarded G s' as

/-- `P` holds at the start and in every state the run of `as` from `s` reaches. -/
def Always (P : σ → Prop) : σ → List α → Prop
  | s, [] => P s
  | s, a :: as => P s ∧ ∀ s', step s a = some s' → Always P s' as

variable {step}

theorem collect_cons_of_eq {β : Type*} {f : σ → α → List β} {s s' : σ} {a : α} {as : List α}
    (h : step s a = some s') : collect step f s (a :: as) = f s a ++ collect step f s' as := by
  rw [collect, h]
  rfl

theorem Always.start {P : σ → Prop} {s : σ} {as : List α} (h : Always step P s as) : P s := by
  cases as with
  | nil => exact h
  | cons a as => exact h.1

/-- What holds in every state of a run holds in its last one. -/
theorem Always.last {P : σ → Prop} {s t : σ} {as : List α} (h : Always step P s as)
    (hrun : run step s as = some t) : P t := by
  induction as generalizing s with
  | nil =>
    cases hrun
    exact h
  | cons a as ih =>
    obtain ⟨s', h1, h2⟩ := (run_cons_eq_some step).mp hrun
    exact ih (h.2 s' h1) h2

/-- What holds at the start and survives every guarded step holds at the end. -/
theorem run_induction_of_guarded {G : σ → α → Prop} {I : σ → Prop}
    (hstep : ∀ s a s', I s → G s a → step s a = some s' → I s') {s t : σ} {as : List α}
    (hs : I s) (hG : Guarded step G s as) (h : run step s as = some t) : I t := by
  induction as generalizing s with
  | nil =>
    cases h
    exact hs
  | cons a as ih =>
    obtain ⟨s', h1, h2⟩ := (run_cons_eq_some step).mp h
    exact ih (hstep s a s' hs hG.1 h1) (hG.2 s' h1) h2

/-- What holds at the start and survives every step holds at the end. -/
theorem run_induction {I : σ → Prop}
    (hstep : ∀ s a s', I s → step s a = some s' → I s') {s t : σ} {as : List α}
    (hs : I s) (h : run step s as = some t) : I t := by
  induction as generalizing s with
  | nil =>
    cases h
    exact hs
  | cons a as ih =>
    obtain ⟨s', h1, h2⟩ := (run_cons_eq_some step).mp h
    exact ih (hstep s a s' hs h1) h2

/-- What implies `P` at the start and survives every guarded step makes `P` hold throughout. -/
theorem always_of_guarded {G : σ → α → Prop} {I P : σ → Prop} (hP : ∀ s, I s → P s)
    (hstep : ∀ s a s', I s → G s a → step s a = some s' → I s') {s : σ} {as : List α}
    (hs : I s) (hG : Guarded step G s as) : Always step P s as := by
  induction as generalizing s with
  | nil => exact hP s hs
  | cons a as ih =>
    exact ⟨hP s hs, fun s' h => ih (hstep s a s' hs hG.1 h) (hG.2 s' h)⟩

/-- A guarded run is guarded in both of its parts. -/
theorem guarded_append {G : σ → α → Prop} {s s' : σ} {as bs : List α}
    (h : Guarded step G s (as ++ bs)) (hrun : run step s as = some s') :
    Guarded step G s as ∧ Guarded step G s' bs := by
  induction as generalizing s with
  | nil =>
    cases hrun
    exact ⟨trivial, h⟩
  | cons a as ih =>
    obtain ⟨s'', h1, h2⟩ := (run_cons_eq_some step).mp hrun
    obtain ⟨hG, hGs⟩ := h
    refine ⟨⟨hG, fun u hu => ?_⟩, (ih (hGs s'' h1) h2).2⟩
    obtain rfl : s'' = u := Option.some.inj (h1.symm.trans hu)
    exact (ih (hGs s'' h1) h2).1

/-- A condition on the actions alone guards the run. -/
theorem guarded_of_forall {P : α → Prop} {s : σ} {as : List α} (hP : ∀ a ∈ as, P a) :
    Guarded step (fun _ a => P a) s as := by
  induction as generalizing s with
  | nil => trivial
  | cons a as ih =>
    exact ⟨hP a List.mem_cons_self, fun s' _ => ih fun b hb => hP b (List.mem_cons_of_mem _ hb)⟩

/-- A condition on the actions alone joins the guard. -/
theorem guarded_and_of_forall {G : σ → α → Prop} {P : α → Prop} {s : σ} {as : List α}
    (h : Guarded step G s as) (hP : ∀ a ∈ as, P a) :
    Guarded step (fun s a => G s a ∧ P a) s as := by
  induction as generalizing s with
  | nil => trivial
  | cons a as ih =>
    exact ⟨⟨h.1, hP a List.mem_cons_self⟩,
      fun s' hs' => ih (h.2 s' hs') fun b hb => hP b (List.mem_cons_of_mem _ hb)⟩

/-- A guard that allows more. -/
theorem guarded_imp {G G' : σ → α → Prop} (hG : ∀ s a, G s a → G' s a) {s : σ} {as : List α}
    (h : Guarded step G s as) : Guarded step G' s as := by
  induction as generalizing s with
  | nil => trivial
  | cons a as ih => exact ⟨hG s a h.1, fun s' hs' => ih (h.2 s' hs')⟩

theorem guarded_cons_of_eq {G : σ → α → Prop} {s s' : σ} {a : α} {as : List α}
    (h : step s a = some s') (ha : G s a) (has : Guarded step G s' as) :
    Guarded step G s (a :: as) := by
  refine ⟨ha, fun s'' h' => ?_⟩
  obtain rfl : s' = s'' := Option.some.inj (h.symm.trans h')
  exact has

/-- Whether a run is guarded can be computed, if the guard can. -/
instance Guarded.decidable {G : σ → α → Prop} [∀ s a, Decidable (G s a)] :
    (s : σ) → (as : List α) → Decidable (Guarded step G s as)
  | _, [] => isTrue trivial
  | s, a :: as =>
    match h : step s a with
    | none => decidable_of_iff (G s a)
        ⟨fun hG => ⟨hG, fun _ h' => absurd (h.symm.trans h') nofun⟩, And.left⟩
    | some s' =>
      have : Decidable (Guarded step G s' as) := Guarded.decidable s' as
      decidable_of_iff (G s a ∧ Guarded step G s' as)
        ⟨fun hG => guarded_cons_of_eq h hG.1 hG.2, fun hG => ⟨hG.1, hG.2 s' h⟩⟩

/-- The runs of some actions that keep `P` throughout, when a guarded step of such an action keeps the
invariant and any other one breaks `P`: they are the guarded ones. -/
theorem always_iff_guarded_of_forall {G : σ → α → Prop} {A : α → Prop} {I P : σ → Prop}
    (hP : ∀ s, I s → P s)
    (hstep : ∀ s a s', I s → A a → G s a → step s a = some s' → I s')
    (hbreak : ∀ s a s', I s → A a → ¬ G s a → step s a = some s' → ¬ P s') {s t : σ} {as : List α}
    (hs : I s) (hA : ∀ a ∈ as, A a) (h : run step s as = some t) :
    Always step P s as ↔ Guarded step G s as := by
  induction as generalizing s with
  | nil => exact ⟨fun _ => trivial, fun _ => hP s hs⟩
  | cons a as ih =>
    obtain ⟨s', h1, h2⟩ := (run_cons_eq_some step).mp h
    have ha : A a := hA a List.mem_cons_self
    have has : ∀ b ∈ as, A b := fun b hb => hA b (List.mem_cons_of_mem _ hb)
    constructor
    · rintro ⟨-, hall⟩
      have hG : G s a := by
        by_contra hG
        exact hbreak s a s' hs ha hG h1 (hall s' h1).start
      refine ⟨hG, fun s'' h3 => ?_⟩
      obtain rfl : s' = s'' := Option.some.inj (h1.symm.trans h3)
      exact (ih (hstep s a s' hs ha hG h1) has h2).mp (hall s' h1)
    · rintro ⟨hG, hGs⟩
      refine ⟨hP s hs, fun s'' h3 => ?_⟩
      obtain rfl : s' = s'' := Option.some.inj (h1.symm.trans h3)
      exact (ih (hstep s a s' hs ha hG h1) has h2).mpr (hGs s' h1)

/-- When a guarded step keeps the invariant and any other step breaks `P`, the runs that keep `P`
throughout are the guarded ones. -/
theorem always_iff_guarded {G : σ → α → Prop} {I P : σ → Prop} (hP : ∀ s, I s → P s)
    (hstep : ∀ s a s', I s → G s a → step s a = some s' → I s')
    (hbreak : ∀ s a s', I s → ¬ G s a → step s a = some s' → ¬ P s') {s t : σ} {as : List α}
    (hs : I s) (h : run step s as = some t) : Always step P s as ↔ Guarded step G s as :=
  always_iff_guarded_of_forall (A := fun _ => True) hP (fun s a s' hI _ => hstep s a s' hI)
    (fun s a s' hI _ => hbreak s a s' hI) hs (fun _ _ => trivial) h

end Run
