import Mathlib

/-!
# Round robin

One of `n` participants is served at a time: `next ready n cursor` is the first one that is ready,
going round from the one after `cursor`, which was served last.  Whoever stays ready is served before
anybody is served twice: `Before n x y c` says that, going round from `x`, `c` comes before `y`, and
`Before.next` that the next one is `y`, or comes before `y` too and is not `x`.
-/

namespace RoundRobin

/-- The first participant that is ready, starting one after the cursor. -/
def next (ready : ℕ → Bool) (n cursor : ℕ) : Option ℕ :=
  ((List.range n).map fun i => (i + cursor + 1) % n).find? ready

/-- Going round from `x`, `c` comes before `y`. -/
def Before (n x y c : ℕ) : Prop := ∃ a b, a < b ∧ b < n ∧ c = (a + x) % n ∧ y = (b + x) % n

variable {ready : ℕ → Bool} {n x y c z : ℕ}

/-- The participant that is found, and all those that are passed over. -/
theorem next_eq_some (h : next ready n c = some z) :
    ready z = true ∧ ∃ i < n, z = (i + c + 1) % n ∧
      ∀ j < i, ready ((j + c + 1) % n) = false := by
  obtain ⟨hready, i, hi, hget, hbefore⟩ := List.find?_eq_some_iff_getElem.mp h
  simp only [List.length_map, List.length_range] at hi
  refine ⟨hready, i, hi, by simpa using hget.symm, fun j hj => ?_⟩
  simpa using hbefore j hj

theorem lt_of_next (h : next ready n c = some z) : z < n := by
  obtain ⟨-, i, hi, rfl, -⟩ := next_eq_some h
  exact Nat.mod_lt _ (Nat.zero_lt_of_lt hi)

theorem before_self (hx : x < n) (hy : y < n) (hne : y ≠ x) : Before n x y x := by
  rcases Nat.lt_or_gt_of_ne hne with hlt | hgt
  · refine ⟨0, n + y - x, by omega, by omega, ?_, ?_⟩
    · rw [Nat.zero_add, Nat.mod_eq_of_lt hx]
    · rw [show n + y - x + x = y + n by omega, Nat.add_mod_right, Nat.mod_eq_of_lt hy]
  · refine ⟨0, y - x, by omega, by omega, ?_, ?_⟩
    · rw [Nat.zero_add, Nat.mod_eq_of_lt hx]
    · rw [show y - x + x = y by omega, Nat.mod_eq_of_lt hy]

/-- Less than a whole round does not lead back. -/
theorem add_mod_ne {a : ℕ} (hx : x < n) (ha : 0 < a) (han : a < n) : (a + x) % n ≠ x := by
  rcases Nat.lt_or_ge (a + x) n with hlt | hge
  · rw [Nat.mod_eq_of_lt hlt]
    omega
  · rw [Nat.mod_eq_sub_mod hge, Nat.mod_eq_of_lt (by omega)]
    omega

/-- **Nobody is passed over.** The next one is `y`, if it is ready, or one that comes before it. -/
theorem Before.next (hx : x < n) (h : Before n x y c) (hz : next ready n c = some z)
    (hy : ready y = true) : z = y ∨ (Before n x y z ∧ z ≠ x) := by
  obtain ⟨a, b, hab, hb, rfl, rfl⟩ := h
  obtain ⟨-, i, -, rfl, hskipped⟩ := next_eq_some hz
  have hplace : ∀ j, (j + (a + x) % n + 1) % n = (j + a + 1 + x) % n := by
    intro j
    rw [show j + a + 1 + x = j + (a + x) + 1 by omega, Nat.add_right_comm, Nat.add_mod_mod,
      Nat.add_right_comm]
  -- at `b - a - 1` the search comes to `y`
  have hle : i ≤ b - a - 1 := by
    by_contra hlt
    have hskip := hskipped (b - a - 1) (by omega)
    rw [hplace, show b - a - 1 + a + 1 = b by omega, hy] at hskip
    exact nomatch hskip
  rw [hplace]
  rcases Nat.lt_or_ge (i + a + 1) b with hlt | hge
  · exact Or.inr ⟨⟨i + a + 1, b, hlt, hb, rfl, rfl⟩, add_mod_ne hx (by omega) (by omega)⟩
  · rw [show i + a + 1 = b by omega]
    exact Or.inl rfl

end RoundRobin
