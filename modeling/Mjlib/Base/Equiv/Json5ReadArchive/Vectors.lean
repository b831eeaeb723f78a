import Mathlib
import Mjlib.Base.Json5ReadValue
import Mjlib.Lib.Simulates

/-!
# What becomes of a vector that an array is read into

`readElements` reads the elements of an array without a vector: each into the element that the
vector had at its index, or into a fresh one.  `readVector` does the same and keeps the elements behind the
last one (`readVector_eq`), so it leaves a vector of the array's size exactly if there was no longer
one before.
-/

namespace Mjlib.Base.Json5ReadArchive

variable {α : Type}

/-- The values of the elements of an array, from an index on. -/
def readElementsLoop (read : α → M α) (previous : ℕ → α) : ℕ → ℕ → M (List α)
  | 0, _ => error "EOF"
  | n + 1, pos => do
    ignoreWhitespace
    let maybeEnd ← peek
    if maybeEnd = some 0x5d then
      let _ ← get
      return []
    else
      let value ← read (previous pos)
      ignoreWhitespace
      skipComma
      ignoreWhitespace
      let maybeEnd ← peek
      if maybeEnd = some 0x5d then
        let _ ← get
        return [value]
      else return value :: (← readElementsLoop read previous n (pos + 1))

/-- The values of the elements of an array, each read into the one that was there before. -/
def readElements (read : α → M α) (previous : ℕ → α) : M (List α) := do
  readLiteral [0x5b]
  fun s => readElementsLoop read previous s.input.length 0 s

/-- Programs that do the same in a state go on in the same way. -/
theorem bind_congr_state {β : Type} {x y : M α} {f : α → M β} {s : State} (h : x s = y s) :
    (x >>= f) s = (y >>= f) s := by
  show (x s >>= _) = (y s >>= _)
  rw [h]

section
variable (read : α → M α) (fresh : α)

/-- The next element is read into the one that is there, or into one that is added. -/
theorem vectorElement_append (values old : List α) :
    vectorElement read fresh values.length (values ++ old) = do
      let value ← read (old.getD 0 fresh)
      return (values ++ [value]) ++ old.drop 1 := by
  rw [vectorElement]
  -- the vector is at its end, or has an element at the index
  cases old with
  | nil =>
    simp only [List.append_nil, ge_iff_le, le_refl, if_true, List.getD_nil, List.drop_nil,
      List.getD_append_right _ _ _ _ le_rfl, Nat.sub_self, List.getD_cons_zero,
      List.set_append_right _ _ le_rfl, List.set_cons_zero]
  | cons first old =>
    have hlt : ¬ values.length ≥ (values ++ first :: old).length := by
      rw [List.length_append, List.length_cons]
      omega
    simp only [if_neg hlt, List.getD_cons_zero, List.drop_succ_cons, List.drop_zero,
      List.getD_append_right _ _ _ _ le_rfl, Nat.sub_self, List.set_append_right _ _ le_rfl,
      List.set_cons_zero, List.append_assoc, List.singleton_append]

/-- The loop of `ReadArray` on a vector, in front of what the vector had. -/
theorem readArrayLoop_vectorElement (old : List α) (n : ℕ) : ∀ values : List α,
    readArrayLoop (vectorElement read fresh) n values.length (values ++ old.drop values.length) = do
      let more ← readElementsLoop read (fun i => old.getD i fresh) n values.length
      return (values.length + more.length,
        (values ++ more) ++ old.drop (values.length + more.length)) := by
  induction n with
  | zero => exact fun _ => rfl
  | succ n ih =>
    intro values
    have hprevious : (old.drop values.length).getD 0 fresh = old.getD values.length fresh := by
      rw [List.getD_eq_getElem?_getD, List.getD_eq_getElem?_getD, List.getElem?_drop, Nat.add_zero]
    -- both loops are in the same place of the text, and do the same up to the element
    rw [readArrayLoop, readElementsLoop, vectorElement_append, hprevious]
    simp only [bind_assoc]
    refine bind_congr fun _ => bind_congr fun maybeEnd => ?_
    split_ifs
    · simp only [bind_assoc, pure_bind, List.length_nil, Nat.add_zero, List.append_nil]
    · simp only [bind_assoc, pure_bind]
      refine bind_congr fun value => bind_congr fun _ => bind_congr fun _ => bind_congr fun _ =>
        bind_congr fun maybeEnd => ?_
      split_ifs
      · simp only [bind_assoc, pure_bind, List.length_singleton, List.drop_drop]
      · have hnext := ih (values ++ [value])
        rw [List.length_append, List.length_singleton] at hnext
        rw [List.drop_drop, hnext]
        simp only [bind_assoc, pure_bind, List.length_cons, List.append_assoc,
          List.singleton_append, Nat.add_assoc, Nat.add_comm 1]

/-- An array is read into the first elements of a vector. -/
theorem readVector_eq (old : List α) :
    readVector read fresh old = do
      let values ← readElements read fun i => old.getD i fresh
      return values ++ old.drop values.length := by
  funext s
  rw [readVector, readArray, readElements]
  simp only [bind_assoc]
  refine congrFun (bind_congr fun _ => ?_) s
  funext s
  have hloop := congrFun (readArrayLoop_vectorElement read fresh old s.input.length []) s
  simp only [List.length_nil, List.drop_zero, List.nil_append, Nat.zero_add] at hloop
  show (readArrayLoop (vectorElement read fresh) s.input.length 0 old >>= fun result =>
      pure result.2) s
    = (readElementsLoop read (fun i => old.getD i fresh) s.input.length 0 >>= fun values =>
      pure (values ++ old.drop values.length)) s
  rw [bind_congr_state hloop, bind_assoc]
  simp only [pure_bind]

end

/-! ### The size of the vector -/

/-- The vector has exactly the values of the elements. -/
structure HasElements (values result : List α) : Prop where
  length_eq : result.length = values.length
  element_eq : ∀ i, i < values.length → result[i]? = values[i]?

/-- **Reading an array into a vector**: for every text that is accepted, the vector has exactly the
values of the elements if and only if it had no more than these before. -/
theorem hasElements_iff (read : α → M α) (fresh : α) (old result : List α) (s s' : State)
    (h : readVector read fresh old s = .ok (result, s')) :
    ∃ values, (readElements read fun i => old.getD i fresh) s = .ok (values, s') ∧
      (HasElements values result ↔ old.length ≤ values.length) := by
  rw [readVector_eq] at h
  obtain ⟨values, s₁, hvalues, hresult⟩ := Simulates.bind_eq_ok h
  cases hresult
  refine ⟨values, hvalues, fun helements => ?_, fun hle => ?_⟩
  · have hlength := helements.length_eq
    rw [List.length_append, List.length_drop] at hlength
    omega
  · rw [List.drop_eq_nil_of_le hle, List.append_nil]
    exact ⟨rfl, fun _ _ => rfl⟩

/-- The reader of an `int32_t`. -/
def readInt32 (_ : ℤ) : M ℤ := readInteger false ⟨true, 32, by decide⟩

/-- Two elements are read over one. -/
theorem hasElements_two : ∃ values,
    (readElements readInt32 fun i => [9].getD i 0) { input := [0x5b, 0x37, 0x2c, 0x38, 0x5d] }
        = .ok (values, { input := [], column := 5 }) ∧
      (HasElements values [7, 8] ↔ [(9 : ℤ)].length ≤ values.length) :=
  hasElements_iff readInt32 0 [9] [7, 8] { input := [0x5b, 0x37, 0x2c, 0x38, 0x5d] }
    { input := [], column := 5 } (by decide +kernel)

/-- One element is read into a vector of three: two of them stay. -/
theorem not_hasElements_shorter :
    readVector readInt32 0 [1, 2, 3] { input := [0x5b, 0x37, 0x5d] }
        = .ok ([7, 2, 3], { input := [], column := 3 }) ∧
      (readElements readInt32 fun i => [1, 2, 3].getD i 0) { input := [0x5b, 0x37, 0x5d] }
        = .ok ([7], { input := [], column := 3 }) ∧
      ¬HasElements [7] [7, 2, 3] :=
  ⟨by decide +kernel, by decide +kernel, fun h => absurd h.length_eq (by decide)⟩

end Mjlib.Base.Json5ReadArchive
