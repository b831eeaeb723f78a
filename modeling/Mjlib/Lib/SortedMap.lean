import Mathlib

/-!
# Sorted maps

A finite map is the list of its entries, sorted by key, so that walking the map meets the keys in
order and each key once.  What is in a map after an insertion is said by `mem_insert`, and what a
lookup finds by `get?_eq_some_iff`; `get?_insert` follows.
-/

/-- A finite map: its entries, sorted by key. -/
structure SortedMap (κ α : Type*) [LT κ] where
  entries : List (κ × α)
  sorted : entries.Pairwise fun x y => x.1 < y.1

namespace SortedMap

variable {κ α : Type*} [LT κ] [DecidableLT κ] [DecidableEq κ]

/-- The map without entries. -/
def empty : SortedMap κ α := ⟨[], .nil⟩

instance : EmptyCollection (SortedMap κ α) := ⟨empty⟩

instance : Inhabited (SortedMap κ α) := ⟨empty⟩

/-- Put an entry where its key belongs, in place of an entry with the same key. -/
def insertEntry (k : κ) (v : α) : List (κ × α) → List (κ × α)
  | [] => [(k, v)]
  | x :: l =>
    if k < x.1 then (k, v) :: x :: l else if k = x.1 then (k, v) :: l else x :: insertEntry k v l

/-- The value at a key. -/
def get? (m : SortedMap κ α) (k : κ) : Option α := (m.entries.find? fun x => x.1 = k).map (·.2)

/-- Whether there is a value at a key. -/
def contains (m : SortedMap κ α) (k : κ) : Bool := (m.get? k).isSome

/-- The number of entries. -/
def size (m : SortedMap κ α) : ℕ := m.entries.length

@[simp] theorem entries_empty : (∅ : SortedMap κ α).entries = [] := rfl

@[simp] theorem get?_empty (k : κ) : (∅ : SortedMap κ α).get? k = none := rfl

section
variable [LE κ] [Std.IsLinearOrder κ] [Std.LawfulOrderLT κ]

omit [DecidableLT κ] [DecidableEq κ] in
theorem lt_of_not_lt_of_ne {a b : κ} (h : ¬ a < b) (hne : a ≠ b) : b < a := by
  rcases Std.lt_trichotomy a b with h' | h' | h'
  · exact absurd h' h
  · exact absurd h' hne
  · exact h'

theorem mem_insertEntry {k : κ} {v : α} {x : κ × α} {l : List (κ × α)}
    (hl : l.Pairwise fun x y => x.1 < y.1) :
    x ∈ insertEntry k v l ↔ x = (k, v) ∨ x ∈ l ∧ x.1 ≠ k := by
  induction l with
  | nil => simp [insertEntry]
  | cons y l ih =>
    obtain ⟨hy, hl⟩ := List.pairwise_cons.mp hl
    -- a key that is below the head is below the whole list
    have hbelow : ∀ {k : κ}, k < y.1 → ∀ z ∈ y :: l, z.1 ≠ k := by
      rintro k hk z hz rfl
      rcases List.mem_cons.mp hz with rfl | hz
      · exact Std.lt_irrefl hk
      · exact Std.lt_irrefl (Std.lt_trans hk (hy z hz))
    rw [insertEntry]
    split_ifs with hlt heq
    · rw [List.mem_cons]
      exact or_congr_right ⟨fun hx => ⟨hx, hbelow hlt x hx⟩, fun hx => hx.1⟩
    · subst heq
      rw [List.mem_cons, List.mem_cons]
      refine or_congr_right ⟨fun hx => ⟨Or.inr hx, ?_⟩, ?_⟩
      · intro hxk
        exact Std.lt_irrefl (hxk ▸ hy x hx)
      · rintro ⟨rfl | hx, hne⟩
        · exact absurd rfl hne
        · exact hx
    · rw [List.mem_cons, List.mem_cons, ih hl]
      constructor
      · rintro (rfl | rfl | hx)
        · exact Or.inr ⟨Or.inl rfl, Ne.symm heq⟩
        · exact Or.inl rfl
        · exact Or.inr ⟨Or.inr hx.1, hx.2⟩
      · rintro (rfl | ⟨rfl | hx, hne⟩)
        · exact Or.inr (Or.inl rfl)
        · exact Or.inl rfl
        · exact Or.inr (Or.inr ⟨hx, hne⟩)

theorem sorted_insertEntry (k : κ) (v : α) {l : List (κ × α)}
    (hl : l.Pairwise fun x y => x.1 < y.1) :
    (insertEntry k v l).Pairwise fun x y => x.1 < y.1 := by
  induction l with
  | nil => exact List.pairwise_singleton _ _
  | cons y l ih =>
    obtain ⟨hy, hl'⟩ := List.pairwise_cons.mp hl
    rw [insertEntry]
    split_ifs with hlt heq
    · refine List.pairwise_cons.mpr ⟨fun z hz => ?_, hl⟩
      rcases List.mem_cons.mp hz with rfl | hz
      · exact hlt
      · exact Std.lt_trans hlt (hy z hz)
    · subst heq
      exact List.pairwise_cons.mpr ⟨hy, hl'⟩
    · refine List.pairwise_cons.mpr ⟨fun z hz => ?_, ih hl'⟩
      rcases (mem_insertEntry hl').mp hz with rfl | hz
      · exact lt_of_not_lt_of_ne hlt heq
      · exact hy z hz.1

/-- The map with one more entry, or another value at the key. -/
def insert (m : SortedMap κ α) (k : κ) (v : α) : SortedMap κ α :=
  ⟨insertEntry k v m.entries, sorted_insertEntry k v m.sorted⟩

/-- An insertion keeps the entries of the other keys. -/
theorem mem_insert {m : SortedMap κ α} {k : κ} {v : α} {x : κ × α} :
    x ∈ (m.insert k v).entries ↔ x = (k, v) ∨ x ∈ m.entries ∧ x.1 ≠ k :=
  mem_insertEntry m.sorted

omit [DecidableLT κ] in
/-- A lookup finds the entry of the key. -/
theorem get?_eq_some_iff {m : SortedMap κ α} {k : κ} {v : α} :
    m.get? k = some v ↔ (k, v) ∈ m.entries := by
  obtain ⟨l, hl⟩ := m
  rw [get?]
  dsimp only
  induction l with
  | nil => simp
  | cons y l ih =>
    obtain ⟨hy, hl'⟩ := List.pairwise_cons.mp hl
    by_cases hk : y.1 = k
    · rw [List.find?_cons_of_pos (by simpa using hk), Option.map_some, Option.some_inj,
        List.mem_cons]
      constructor
      · rintro rfl
        exact Or.inl (by rw [← hk])
      · rintro (h | h)
        · rw [← h]
        · exact absurd (hk ▸ hy _ h) Std.lt_irrefl
    · rw [List.find?_cons_of_neg (by simpa using hk), ih hl', List.mem_cons]
      constructor
      · exact Or.inr
      · rintro (h | h)
        · exact absurd (by rw [← h]) hk
        · exact h

@[simp] theorem get?_insert_self (m : SortedMap κ α) (k : κ) (v : α) :
    (m.insert k v).get? k = some v :=
  get?_eq_some_iff.mpr (mem_insert.mpr (Or.inl rfl))

theorem get?_insert_of_ne (m : SortedMap κ α) {k k' : κ} (h : k' ≠ k) (v : α) :
    (m.insert k v).get? k' = m.get? k' := by
  ext w
  rw [get?_eq_some_iff, get?_eq_some_iff, mem_insert]
  simp [h]

/-- **Lookup after insertion.** -/
theorem get?_insert (m : SortedMap κ α) (k k' : κ) (v : α) :
    (m.insert k v).get? k' = if k' = k then some v else m.get? k' := by
  split_ifs with h
  · rw [h, get?_insert_self]
  · exact get?_insert_of_ne m h v

end

end SortedMap
