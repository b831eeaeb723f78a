import Mathlib

/-!
# Ring buffers

The last values of a list, and an array that holds them: the value at index `j` of the list is at
`j % capacity` of the array (`Rings`).  A value that is added takes the place of the oldest one.
-/

namespace RingBuffer

variable {α : Type*}

/-- The last values of a list, at most `capacity`. -/
def last (capacity : ℕ) (values : List α) : List α := values.drop (values.length - capacity)

theorem length_last (capacity : ℕ) (values : List α) :
    (last capacity values).length = min values.length capacity := by
  rw [last, List.length_drop]
  omega

theorem mem_of_mem_last {capacity : ℕ} {values : List α} {x : α} (h : x ∈ last capacity values) :
    x ∈ values :=
  List.mem_of_mem_drop h

/-- There is room for one more value. -/
theorem last_concat_of_lt {capacity : ℕ} {values : List α} (h : values.length < capacity) (x : α) :
    last capacity (values ++ [x]) = last capacity values ++ [x] := by
  rw [last, last, List.length_append, List.length_singleton, Nat.sub_eq_zero_of_le h,
    Nat.sub_eq_zero_of_le h.le]
  rfl

/-- One more value takes the place of the oldest one. -/
theorem last_concat_of_le {capacity : ℕ} {values : List α} (hpos : 0 < capacity)
    (h : capacity ≤ values.length) (x : α) :
    ∃ rest, last capacity values = values[values.length - capacity] :: rest ∧
      last capacity (values ++ [x]) = rest ++ [x] := by
  refine ⟨values.drop (values.length - capacity + 1), List.drop_eq_getElem_cons (by omega), ?_⟩
  rw [last, List.length_append, List.length_singleton,
    List.drop_append_of_le_length (by omega), Nat.sub_add_comm h]

/-- An array holds the last values of a list. -/
structure Rings (capacity : ℕ) (values : List α) (array : List α) : Prop where
  le_length : capacity ≤ array.length
  held : ∀ j (hj : j < values.length), values.length ≤ j + capacity →
    array[j % capacity]? = some values[j]

/-- The oldest value is where the next one goes. -/
theorem Rings.oldest {capacity : ℕ} {values array : List α} (h : Rings capacity values array)
    (hle : capacity ≤ values.length) (hpos : 0 < capacity) :
    array[values.length % capacity]? = some (values[values.length - capacity]) := by
  rw [← h.held (values.length - capacity) (by omega) (by omega), ← Nat.mod_eq_sub_mod hle]

theorem Rings.set {capacity : ℕ} {values array : List α} (h : Rings capacity values array)
    (hpos : 0 < capacity) (x : α) :
    Rings capacity (values ++ [x]) (array.set (values.length % capacity) x) := by
  have hlt : values.length % capacity < array.length :=
    (Nat.mod_lt _ hpos).trans_le h.le_length
  refine ⟨h.le_length.trans_eq (List.length_set ..).symm, fun j hj hnear => ?_⟩
  rw [List.length_append, List.length_singleton] at hj hnear
  rcases Nat.lt_succ_iff_lt_or_eq.mp hj with hold | rfl
  · -- the places of the last values differ
    have hne : values.length % capacity ≠ j % capacity := by
      intro heq
      have hdvd := (Nat.modEq_iff_dvd' hold.le).mp heq.symm
      have := Nat.le_of_dvd (by omega) hdvd
      omega
    rw [List.getElem?_set_ne hne, h.held j hold (by omega), List.getElem_append_left hold]
  · rw [List.getElem?_set_self hlt, List.getElem_concat_length rfl]

end RingBuffer
