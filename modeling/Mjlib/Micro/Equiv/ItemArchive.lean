import Mjlib.Base.Equiv.Strtol
import Mjlib.Micro.ItemArchive

/-!
# Which keys find which leaves

`Spells` says which keys lead to which leaf and `Stops` which ones end the process; `visit_outcome` is
the induction over the type that finds one of them, or neither.  A leaf that is found is read or
replaced in place (`Outcome.leaf`).
-/

namespace Mjlib.Micro.ItemArchive

open Base Telemetry

/-! ### Leaves and their paths -/

/-- A leaf of an object, and the names and indices that lead to it. -/
structure Entry where
  path : List Bytes
  ty : Ty
  value : ty.Val

/-- A leaf of the object in a field, or at an index. -/
def Entry.under (component : Bytes) (e : Entry) : Entry := { e with path := component :: e.path }

mutual

/-- The leaves of a value. -/
def entries : (t : Ty) → t.Val → List Entry
  | .object _ fields, value => fieldEntries fields value
  | .array elem _, value =>
    value.val.zipIdx.flatMap fun item => (entries elem item.1).map (Entry.under (decimal item.2))
  | t, value => [⟨[], t, value⟩]

/-- The leaves of the fields of an object. -/
def fieldEntries : (fields : Fields) → fields.Vals → List Entry
  | .nil, _ => []
  | .cons name ty rest, value =>
    (entries ty value.1).map (Entry.under name.val) ++ fieldEntries rest value.2

end

/-- A dotted path. -/
def join : List Bytes → Bytes
  | [] => []
  | [component] => component
  | component :: path => component ++ 0x2e :: join path

/-- The leaves, with another one at a path. -/
def replace (path : List Bytes) (e : Entry) (l : List Entry) : List Entry :=
  l.map fun e' => if e'.path = path then e else e'

/-- The names of the fields of an object. -/
def names : Fields → List Bytes
  | .nil => []
  | .cons name _ rest => name.val :: names rest

/-- The types of optionals that a handler can be made for. -/
def isArithmetic : Ty → Bool
  | .bool => true
  | .int _ _ => true
  | .float32 => true
  | .float64 => true
  | _ => false

mutual

/-- The types that a handler can be made for, with field names as `MJ_NVP` makes them, and arrays
that fit into the memory. -/
def Handled : Ty → Prop
  | .object _ fields => HandledFields fields
  | .array elem n => n.toNat < 2 ^ 63 ∧ Handled elem
  | .optional elem => isArithmetic elem = true
  | .enum _ => True
  | t => isArithmetic t = true

/-- Field names are names: no delimiter is in one, and no two are the same. -/
def HandledFields : Fields → Prop
  | .nil => True
  | .cons name ty rest =>
    (∀ c ∈ name.val, isDelimiter [0x2e] c = false) ∧ name.val ∉ names rest ∧ Handled ty ∧
      HandledFields rest

end

/-! ### Keys -/

/-- The first component of a key, and what is behind its delimiter. -/
def splitKey (key : Bytes) : Bytes × Bytes :=
  let token := key.takeWhile fun c => !isDelimiter [0x2e] c
  (token, key.drop (token.length + 1))

/-- A token that is taken for an index: any text of a number, or none at all. -/
def SpellsIndex (token : Bytes) (i : ℕ) : Prop :=
  (token = [] ∧ i = 0) ∨ strtol 0 token = ((i : ℤ), [])

mutual

/-- What is left of a key leads to the leaf at a path: behind a leaf there may be anything. -/
def Spells : Ty → (key : Bytes) → (path : List Bytes) → Prop
  | .object _ fields, key, path => SpellsField fields key path
  | .array elem n, key, path => key ≠ [] ∧ ∃ i < n.toNat, ∃ path',
    SpellsIndex (splitKey key).1 i ∧ path = decimal i :: path' ∧ Spells elem (splitKey key).2 path'
  | _, _, path => path = []

/-- A key leads to the leaf at a path. -/
def SpellsField : Fields → (key : Bytes) → (path : List Bytes) → Prop
  | .nil, _, _ => False
  | .cons name ty rest, key, path =>
    (∃ path', (splitKey key).1 = name.val ∧ path = name.val :: path' ∧
      Spells ty (splitKey key).2 path') ∨ SpellsField rest key path

end

mutual

/-- A key stops at an array, where the index should be. -/
def Stops : Ty → (key : Bytes) → Prop
  | .object _ fields, key => StopsField fields key
  | .array elem n, key =>
    key = [] ∨ ∃ i < n.toNat, SpellsIndex (splitKey key).1 i ∧ Stops elem (splitKey key).2
  | _, _ => False

/-- A key stops at an array in a field. -/
def StopsField : Fields → (key : Bytes) → Prop
  | .nil, _ => False
  | .cons name ty rest, key =>
    ((splitKey key).1 = name.val ∧ Stops ty (splitKey key).2) ∨ StopsField rest key

end

/-! ### Splitting keys -/

theorem keys_eq (key : Bytes) : keys key = splitKey key := by
  unfold keys Tokenizer.next
  cases key with
  | nil => rfl
  | cons c key => rfl

/-- The delimiter behind the first component. -/
theorem splitKey_append {token : Bytes} (h : ∀ c ∈ token, isDelimiter [0x2e] c = false)
    (rest : Bytes) : splitKey (token ++ 0x2e :: rest) = (token, rest) := by
  have htake : (token ++ 0x2e :: rest).takeWhile (fun c => !isDelimiter [0x2e] c) = token := by
    rw [List.takeWhile_append_of_pos (by simpa using h),
      List.takeWhile_cons_of_neg (by decide), List.append_nil]
  unfold splitKey
  dsimp only
  rw [htake]
  congr 1
  rw [← List.drop_drop, List.drop_left' rfl]
  rfl

theorem splitKey_of_forall {token : Bytes} (h : ∀ c ∈ token, isDelimiter [0x2e] c = false) :
    splitKey token = (token, []) := by
  have htake : token.takeWhile (fun c => !isDelimiter [0x2e] c) = token :=
    List.takeWhile_eq_self_iff.mpr (by simpa using h)
  unfold splitKey
  dsimp only
  rw [htake, List.drop_of_length_le (by omega)]

/-- **A path is split at its first component.** -/
theorem splitKey_join {component : Bytes} (h : ∀ c ∈ component, isDelimiter [0x2e] c = false)
    (path : List Bytes) : splitKey (join (component :: path)) = (component, join path) := by
  cases path with
  | nil => exact splitKey_of_forall h
  | cons component' path => exact splitKey_append h _

theorem drop_eq_dropWhile (key : Bytes) : key.drop (splitKey key).1.length =
    key.dropWhile fun c => !isDelimiter [0x2e] c := by
  have h : (key.takeWhile _ ++ key.dropWhile fun c => !isDelimiter [0x2e] c) = key :=
    List.takeWhile_append_dropWhile
  have hdrop := congrArg (List.drop (splitKey key).1.length) h
  rw [← hdrop]
  exact List.drop_left' rfl

theorem splitKey_append_drop (key : Bytes) :
    (splitKey key).1 ++ key.drop (splitKey key).1.length = key := by
  rw [drop_eq_dropWhile]
  exact List.takeWhile_append_dropWhile

/-- What is behind the first component of a key: nothing, or a delimiter. -/
theorem drop_length_splitKey (key : Bytes) :
    key.drop (splitKey key).1.length = [] ∨
      ∃ c, isDelimiter [0x2e] c = true ∧
        key.drop (splitKey key).1.length = c :: (splitKey key).2 := by
  cases hdrop : key.drop (splitKey key).1.length with
  | nil => exact Or.inl rfl
  | cons c rest =>
    refine Or.inr ⟨c, ?_, ?_⟩
    · rw [drop_eq_dropWhile] at hdrop
      have hhead := List.head?_dropWhile_not (fun c => !isDelimiter [0x2e] c) key
      rw [hdrop] at hhead
      simpa using hhead
    · show c :: rest = c :: key.drop ((splitKey key).1.length + 1)
      rw [← List.drop_drop, hdrop]
      rfl

theorem isDelimiter_eq_true {c : UInt8} (h : isDelimiter [0x2e] c = true) : c = 0x2e ∨ c = 0 := by
  simpa [isDelimiter] using h

/-- A delimiter ends a number. -/
theorem ends_of_isDelimiter {c : UInt8} (h : isDelimiter [0x2e] c = true) (s : Bytes) :
    Ends (c :: s) := by
  intro c' hc'
  cases hc'
  rcases isDelimiter_eq_true h with rfl | rfl
  · decide
  · decide

/-! ### Indices -/

theorem strtol_bounds (s : Bytes) : -2 ^ 63 ≤ (strtol 0 s).1 ∧ (strtol 0 s).1 < 2 ^ 63 := by
  unfold strtol
  split
  · exact ⟨by norm_num, by norm_num⟩
  · dsimp only
    split_ifs
    · omega
    · omega

/-- A `long` as an index. -/
theorem toNat_ofInt {n : ℤ} (hlo : -2 ^ 63 ≤ n) (hhi : n < 2 ^ 63) {i : ℕ} (hi : i < 2 ^ 63) :
    (BitVec.ofInt 64 n).toNat = i ↔ n = i := by
  rw [BitVec.toNat_ofInt]
  omega

theorem spellsIndex_unique {token : Bytes} {i j : ℕ} (hi : SpellsIndex token i)
    (hj : SpellsIndex token j) : i = j := by
  have hnil : strtol 0 [] = (0, []) := rfl
  rcases hi with ⟨rfl, rfl⟩ | hi
  · rcases hj with ⟨_, rfl⟩ | hj
    · rfl
    · have : (0 : ℤ) = j := congrArg Prod.fst (hnil.symm.trans hj)
      omega
  · rcases hj with ⟨rfl, rfl⟩ | hj
    · have : (i : ℤ) = 0 := congrArg Prod.fst (hi.symm.trans hnil)
      omega
    · have : (i : ℤ) = j := congrArg Prod.fst (hi.symm.trans hj)
      omega

/-- **The index that is read from the memory** is that of the first component of the key. -/
theorem index_iff {beyond key : Bytes} (hbeyond : Ends beyond) (hkey : key ≠ []) {i : ℕ}
    (hi : i < 2 ^ 63) :
    ((BitVec.ofInt 64 (strtol 0 (key ++ beyond)).1).toNat = i ∧
      (key ++ beyond).length - (strtol 0 (key ++ beyond)).2.length = (splitKey key).1.length) ↔
    SpellsIndex (splitKey key).1 i := by
  obtain ⟨hlo, hhi⟩ := strtol_bounds (key ++ beyond)
  rw [toNat_ofInt hlo hhi hi]
  have hsplit := splitKey_append_drop key
  generalize htoken : (splitKey key).1 = token at hsplit ⊢
  generalize hafter : key.drop token.length ++ beyond = after
  have htext : key ++ beyond = token ++ after := by rw [← hafter, ← List.append_assoc, hsplit]
  have hbehind := drop_length_splitKey key
  rw [htoken] at hbehind
  rw [htext]
  by_cases hnil : token = []
  · -- no token: the delimiter is no number
    subst hnil
    obtain ⟨c, hc, hdrop⟩ := hbehind.resolve_left (by simpa using hkey)
    rw [List.length_nil, List.drop_zero] at hdrop hafter
    have hstrtol : strtol 0 after = (0, after) := by
      rw [← hafter, hdrop, List.cons_append]
      rcases isDelimiter_eq_true hc with rfl | rfl
      · exact strtol_of_ends (by decide) (by decide) (by decide)
      · exact strtol_of_ends (by decide) (by decide) (by decide)
    rw [List.nil_append, hstrtol, Nat.sub_self]
    constructor
    · rintro ⟨h, -⟩
      exact Or.inl ⟨rfl, by omega⟩
    · intro h
      have : i = 0 := spellsIndex_unique h (Or.inl ⟨rfl, rfl⟩)
      exact ⟨by omega, rfl⟩
  · have hends : Ends after := by
      rw [← hafter]
      rcases hbehind with hdrop | ⟨c, hc, hdrop⟩
      · rw [hdrop]
        exact hbeyond
      · rw [hdrop, List.cons_append]
        exact ends_of_isDelimiter hc _
    obtain ⟨hwhole, hnumber⟩ := strtol_append hends hnil
    rw [hwhole]
    constructor
    · rintro ⟨hi, hrest⟩
      exact Or.inr (Prod.ext ((hnumber hrest).symm.trans hi) hrest)
    · rintro (⟨h, -⟩ | h)
      · exact absurd h hnil
      · have hrest : (strtol 0 token).2 = [] := by rw [h]
        exact ⟨(hnumber hrest).trans (by rw [h]), hrest⟩

/-- The key that an element is visited with: nothing, or a delimiter and the rest. -/
theorem keys_mapped (key : Bytes) :
    keys (if (splitKey key).2 = [] then [] else key.drop (splitKey key).1.length) =
      ([], (splitKey key).2) := by
  rw [keys_eq]
  split_ifs with h
  · rw [h]
    rfl
  · rcases drop_length_splitKey key with hdrop | ⟨c, hc, hdrop⟩
    · refine absurd ?_ h
      show key.drop ((splitKey key).1.length + 1) = []
      rw [← List.drop_drop, hdrop]
      rfl
    · rw [hdrop]
      unfold splitKey
      dsimp only
      rw [List.takeWhile_cons_of_neg (by simp [hc])]
      rfl

/-! ### Replacing a leaf -/

theorem replace_append (path : List Bytes) (e : Entry) (l l' : List Entry) :
    replace path e (l ++ l') = replace path e l ++ replace path e l' := List.map_append

theorem replace_of_forall_ne {path : List Bytes} {e : Entry} {l : List Entry}
    (h : ∀ e' ∈ l, e'.path ≠ path) : replace path e l = l := by
  unfold replace
  conv_rhs => rw [← List.map_id l]
  exact List.map_congr_left fun e' he' => if_neg (h e' he')

theorem replace_map_under (component : Bytes) (path : List Bytes) (e : Entry) (l : List Entry) :
    replace (component :: path) (e.under component) (l.map (Entry.under component)) =
      (replace path e l).map (Entry.under component) := by
  unfold replace
  rw [List.map_map, List.map_map]
  refine List.map_congr_left fun e' _ => ?_
  show (if component :: e'.path = component :: path then _ else _) =
    Entry.under component (if e'.path = path then e else e')
  rw [apply_ite (Entry.under component)]
  exact if_congr (by rw [List.cons.injEq, and_iff_right rfl]) rfl rfl

/-- A leaf elsewhere. -/
theorem replace_map_under_of_ne {component component' : Bytes} (h : component' ≠ component)
    (path : List Bytes) (e : Entry) (l : List Entry) :
    replace (component :: path) e (l.map (Entry.under component')) =
      l.map (Entry.under component') := by
  refine replace_of_forall_ne fun e' he' heq => ?_
  obtain ⟨e'', _, rfl⟩ := List.mem_map.mp he'
  exact h (List.cons.inj heq).1

/-- The paths of an object's leaves start with the names of its fields. -/
theorem exists_name : ∀ {fields : Fields} {value : fields.Vals} {e : Entry},
    e ∈ fieldEntries fields value → ∃ name ∈ names fields, ∃ path, e.path = name :: path
  | .nil, _, _, h => absurd h List.not_mem_nil
  | .cons name ty rest, value, e, h => by
    rcases List.mem_append.mp h with h | h
    · obtain ⟨e', _, rfl⟩ := List.mem_map.mp h
      exact ⟨name.val, List.mem_cons_self, e'.path, rfl⟩
    · obtain ⟨name', hname, path, hpath⟩ := exists_name h
      exact ⟨name', List.mem_cons_of_mem _ hname, path, hpath⟩

theorem exists_name_of_spells : ∀ {fields : Fields} {key : Bytes} {path : List Bytes},
    SpellsField fields key path → (splitKey key).1 ∈ names fields
  | .cons name ty rest, key, path, h => by
    rcases h with ⟨_, hname, _⟩ | h
    · exact hname ▸ List.mem_cons_self
    · exact List.mem_cons_of_mem _ (exists_name_of_spells h)

theorem exists_name_of_stops : ∀ {fields : Fields} {key : Bytes},
    StopsField fields key → (splitKey key).1 ∈ names fields
  | .cons name ty rest, key, h => by
    rcases h with ⟨hname, _⟩ | h
    · exact hname ▸ List.mem_cons_self
    · exact List.mem_cons_of_mem _ (exists_name_of_stops h)

/-- The elements of a list, one of them changed. -/
theorem flatMap_zipIdx_set {α β : Type} (f : α → ℕ → List β) (x : α) : ∀ (l : List α) (i k : ℕ),
    i < l.length → ((l.set i x).zipIdx k).flatMap (fun item => f item.1 item.2) =
      (l.zipIdx k).flatMap fun item => if item.2 = k + i then f x item.2 else f item.1 item.2 := by
  intro l
  induction l with
  | nil => exact fun _ _ h => absurd h (Nat.not_lt_zero _)
  | cons y l ih =>
    intro i k h
    cases i with
    | zero =>
      rw [List.set_cons_zero, List.zipIdx_cons, List.zipIdx_cons, List.flatMap_cons,
        List.flatMap_cons, if_pos (by rfl)]
      congr 1
      refine List.flatMap_congr fun item hitem => ?_
      have := (List.mem_zipIdx hitem).1
      rw [if_neg (by omega)]
    | succ i =>
      rw [List.set_cons_succ, List.zipIdx_cons, List.zipIdx_cons, List.flatMap_cons,
        List.flatMap_cons, if_neg (by dsimp only; omega), ih i (k + 1) (Nat.lt_of_succ_lt_succ h)]
      congr 1
      refine List.flatMap_congr fun item _ => ?_
      have : k + 1 + i = k + (i + 1) := by omega
      rw [this]

/-- Replacing a leaf of an element. -/
theorem entries_set {elem : Ty} {n : UInt64} (value : (Ty.array elem n).Val) {i : ℕ}
    (hi : i < value.val.length) {path : List Bytes} {e : Entry} {item : elem.Val}
    (h : entries elem item = replace path e (entries elem value.val[i])) :
    entries (.array elem n) ⟨value.val.set i item, (List.length_set ..).trans value.property⟩ =
      replace (decimal i :: path) (e.under (decimal i)) (entries (.array elem n) value) := by
  rw [entries, entries]
  refine (flatMap_zipIdx_set (fun y k => (entries elem y).map (Entry.under (decimal k))) item
    value.val i 0 hi).trans ?_
  unfold replace
  rw [List.map_flatMap]
  refine List.flatMap_congr fun x hx => ?_
  obtain ⟨hk, hx'⟩ : x.2 < value.val.length ∧ value.val[x.2]? = some x.1 := by
    have := List.mem_zipIdx_iff_getElem?.mp hx
    exact ⟨(List.getElem?_eq_some_iff.mp this).1, this⟩
  by_cases heq : x.2 = i
  · rw [if_pos (by omega), heq, h]
    have hx1 : x.1 = value.val[i] := by
      rw [heq, List.getElem?_eq_getElem hi] at hx'
      exact (Option.some.inj hx').symm
    rw [hx1]
    exact (replace_map_under (decimal i) path e _).symm
  · rw [if_neg (by omega)]
    exact (replace_map_under_of_ne (fun hd => heq (decimal_injective hd)) path _ _).symm

/-! ### What a visit finds -/

/-- What comes of a key: it stops where an index is missing, leads nowhere, or to a leaf, which the
archive reads or writes in place. -/
inductive Outcome (leaf : Leaf) {α : Type} (leaves : α → List Entry) (value : α) (stops : Prop)
    (spells : List Bytes → Prop) (result : Option (Result α)) : Prop
  | stops (hstops : stops) (hspells : ∀ path, ¬spells path) (hresult : result = none)
  | missing (hstops : ¬stops) (hspells : ∀ path, ¬spells path)
      (hresult : result = some ⟨false, value, none⟩)
  | leaf (e : Entry) (put : e.ty.Val → α) (hmem : e ∈ leaves value) (hstops : ¬stops)
      (hspells : ∀ path, spells path ↔ path = e.path) (hput : put e.value = value)
      (hleaves : ∀ v, leaves (put v) = replace e.path ⟨e.path, e.ty, v⟩ (leaves value))
      (hresult : result = (leaf e.ty e.value).map (·.map put))

variable {beyond : Bytes} {leaf : Leaf}

theorem Result.map_map {α β γ : Type} (f : α → β) (g : β → γ) (r : Option (Result α)) :
    (r.map (·.map f)).map (·.map g) = r.map (·.map (g ∘ f)) := by
  cases r <;> rfl

/-- The outcome for a scalar. -/
theorem outcome_scalar {t : Ty} (value : t.Val) :
    Outcome leaf (fun v : t.Val => [⟨[], t, v⟩]) value False (fun path => path = [])
      (leaf t value) := by
  refine .leaf ⟨[], t, value⟩ id List.mem_cons_self id (fun _ => Iff.rfl) rfl (fun v => ?_) ?_
  · show _ = [if ([] : List Bytes) = [] then _ else _]
    rw [if_pos rfl]
    rfl
  · cases leaf t value <;> rfl

mutual

/-- **What becomes of a visit.**  Induction over the type. -/
theorem visit_outcome (hbeyond : Ends beyond) : ∀ (t : Ty) (value : t.Val) (key : Bytes),
    Handled t → Outcome leaf (entries t) value (Stops t key) (Spells t key)
      (visit beyond leaf t value key)
  | .object _ fields, value, key, h => by
    have := accept_outcome hbeyond fields value key h
    rw [visit, keys_eq]
    exact this
  | .array elem n, value, key, h => by
    obtain ⟨hn, helem⟩ := h
    by_cases hkey : key = []
    · subst hkey
      exact .stops (Or.inl rfl) (fun _ h => h.1 rfl) (by rw [visit]; rfl)
    have hnext : (Tokenizer.mk [0x2e] key).next =
        (some (splitKey key).1, ⟨[0x2e], (splitKey key).2⟩) := by
      unfold Tokenizer.next
      rw [if_neg hkey]
      rfl
    by_cases hindex : ∃ i < n.toNat, SpellsIndex (splitKey key).1 i
    · obtain ⟨i, hi, hspells⟩ := hindex
      have hi' : i < value.val.length := by rw [value.property]; exact hi
      have hunique : ∀ j, SpellsIndex (splitKey key).1 j → j = i :=
        fun j hj => spellsIndex_unique hj hspells
      obtain ⟨hnumber, hwhole⟩ := (index_iff hbeyond hkey (by omega)).mpr hspells
      have hvisit : visit beyond leaf (.array elem n) value key =
          (visit beyond leaf elem value.val[i] (splitKey key).2).map
            (·.map fun item =>
              ⟨value.val.set i item, (List.length_set ..).trans value.property⟩) := by
        rw [visit, hnext]
        dsimp only
        rw [dif_pos (by rw [hnumber]; exact hi'), if_neg (by rw [hwhole]; exact fun h => h rfl),
          keys_mapped, if_neg (fun h => h rfl)]
        simp only [hnumber]
      have hstops : Stops (.array elem n) key ↔ Stops elem (splitKey key).2 := by
        constructor
        · rintro (h | ⟨j, _, hj, h⟩)
          · exact absurd h hkey
          · exact h
        · exact fun h => Or.inr ⟨i, hi, hspells, h⟩
      have hpath : ∀ path, Spells (.array elem n) key path ↔
          ∃ path', path = decimal i :: path' ∧ Spells elem (splitKey key).2 path' := by
        intro path
        constructor
        · rintro ⟨-, j, _, path', hj, hpath, h⟩
          exact ⟨path', hunique j hj ▸ hpath, h⟩
        · rintro ⟨path', hpath, h⟩
          exact ⟨hkey, i, hi, path', hspells, hpath, h⟩
      rw [hvisit]
      cases visit_outcome hbeyond elem value.val[i] (splitKey key).2 helem with
      | stops h hspells' hresult =>
        refine .stops (hstops.mpr h) (fun path h' => ?_) (by rw [hresult]; rfl)
        obtain ⟨path', _, h'⟩ := (hpath path).mp h'
        exact hspells' path' h'
      | missing h hspells' hresult =>
        refine .missing (fun h' => h (hstops.mp h')) (fun path h' => ?_) ?_
        · obtain ⟨path', _, h'⟩ := (hpath path).mp h'
          exact hspells' path' h'
        · rw [hresult]
          show some (Result.mk false
            (⟨value.val.set i value.val[i], _⟩ : (Ty.array elem n).Val) none) = _
          congr 2
          exact Subtype.ext (List.set_getElem_self hi')
      | leaf e put hmem h hspells' hput hleaves hresult =>
        refine .leaf (e.under (decimal i))
          (fun v => ⟨value.val.set i (put v), (List.length_set ..).trans value.property⟩) ?_
          (fun h' => h (hstops.mp h')) (fun path => ?_) ?_ (fun v => ?_) ?_
        · rw [entries]
          refine List.mem_flatMap.mpr ⟨(value.val[i], i), ?_, List.mem_map_of_mem hmem⟩
          exact List.mem_zipIdx_iff_getElem?.mpr (List.getElem?_eq_getElem hi')
        · rw [hpath]
          constructor
          · rintro ⟨path', rfl, h'⟩
            rw [(hspells' path').mp h']
            rfl
          · rintro rfl
            exact ⟨e.path, rfl, (hspells' e.path).mpr rfl⟩
        · show (⟨value.val.set i (put e.value), _⟩ : (Ty.array elem n).Val) = value
          refine Subtype.ext ?_
          show value.val.set i (put e.value) = value.val
          rw [hput]
          exact List.set_getElem_self hi'
        · exact entries_set value hi' (hleaves v)
        · rw [hresult, Result.map_map]
          rfl
    · -- the index is no number, or there is no such element
      refine .missing ?_ ?_ ?_
      · rintro (h | ⟨i, hi, hspells, _⟩)
        · exact hkey h
        · exact hindex ⟨i, hi, hspells⟩
      · rintro path ⟨-, i, hi, _, hspells, _⟩
        exact hindex ⟨i, hi, hspells⟩
      · rw [visit, hnext]
        dsimp only
        by_cases hlt : (BitVec.ofInt 64 (strtol 0 (key ++ beyond)).1).toNat < value.val.length
        · rw [dif_pos hlt, if_pos]
          intro hwhole
          rw [value.property] at hlt
          exact hindex ⟨_, hlt, (index_iff hbeyond hkey (by omega)).mp ⟨rfl, hwhole⟩⟩
        · rw [dif_neg hlt]
  | .bool, value, key, _ => outcome_scalar value
  | .int _ _, value, key, _ => outcome_scalar value
  | .float32, value, key, _ => outcome_scalar value
  | .float64, value, key, _ => outcome_scalar value
  | .enum _, value, key, _ => outcome_scalar value
  | .optional _, value, key, _ => outcome_scalar value
  | .bytes, value, key, h => absurd h Bool.false_ne_true
  | .string, value, key, h => absurd h Bool.false_ne_true
  | .vector _, value, key, h => absurd h Bool.false_ne_true
  | .timestamp, value, key, h => absurd h Bool.false_ne_true
  | .duration, value, key, h => absurd h Bool.false_ne_true

/-- What becomes of an archive with a key. -/
theorem accept_outcome (hbeyond : Ends beyond) : ∀ (fields : Fields) (value : fields.Vals)
    (key : Bytes), HandledFields fields →
    Outcome leaf (fieldEntries fields) value (StopsField fields key) (SpellsField fields key)
      (accept beyond leaf fields value (splitKey key).1 (splitKey key).2)
  | .nil, _, _, _ => .missing id (fun _ => id) rfl
  | .cons name ty rest, value, key, h => by
    obtain ⟨hdelimiter, hname, hty, hrest⟩ := h
    by_cases hmy : (splitKey key).1 = name.val
    · -- the other fields have other names
      have hspells : ∀ path, ¬SpellsField rest key path :=
        fun path h => hname (hmy ▸ exists_name_of_spells h)
      have hstops : ¬StopsField rest key := fun h => hname (hmy ▸ exists_name_of_stops h)
      have hpath : ∀ path, SpellsField (.cons name ty rest) key path ↔
          ∃ path', path = name.val :: path' ∧ Spells ty (splitKey key).2 path' := by
        intro path
        constructor
        · rintro (⟨path', _, hpath, h⟩ | h)
          · exact ⟨path', hpath, h⟩
          · exact absurd h (hspells path)
        · rintro ⟨path', hpath, h⟩
          exact Or.inl ⟨path', hmy, hpath, h⟩
      rw [accept, if_pos hmy]
      cases visit_outcome hbeyond ty value.1 (splitKey key).2 hty with
      | stops h hspells' hresult =>
        refine .stops (Or.inl ⟨hmy, h⟩) (fun path h' => ?_) (by rw [hresult]; rfl)
        obtain ⟨path', _, h'⟩ := (hpath path).mp h'
        exact hspells' path' h'
      | missing h hspells' hresult =>
        refine .missing (fun h' => h'.elim (fun h' => h h'.2) hstops) (fun path h' => ?_) ?_
        · obtain ⟨path', _, h'⟩ := (hpath path).mp h'
          exact hspells' path' h'
        · rw [hresult]
          rfl
      | leaf e put hmem h hspells' hput hleaves hresult =>
        refine .leaf (e.under name.val) (fun v => (put v, value.2)) ?_
          (fun h' => h'.elim (fun h' => h h'.2) hstops) (fun path => ?_) ?_ (fun v => ?_) ?_
        · exact List.mem_append_left _ (List.mem_map_of_mem hmem)
        · rw [hpath]
          constructor
          · rintro ⟨path', rfl, h'⟩
            rw [(hspells' path').mp h']
            rfl
          · rintro rfl
            exact ⟨e.path, rfl, (hspells' e.path).mpr rfl⟩
        · exact Prod.ext hput rfl
        · show (entries ty (put v)).map _ ++ fieldEntries rest value.2 = replace _ _ (_ ++ _)
          rw [replace_append, hleaves v]
          congr 1
          · exact (replace_map_under name.val e.path _ _).symm
          · refine (replace_of_forall_ne fun e' he' heq => ?_).symm
            obtain ⟨name', hname', path', hpath'⟩ := exists_name he'
            rw [hpath'] at heq
            exact hname ((List.cons.inj heq).1 ▸ hname')
        · rw [hresult, Result.map_map]
          rfl
    · have hpath : ∀ path, SpellsField (.cons name ty rest) key path ↔ SpellsField rest key path :=
        fun path => or_iff_right fun ⟨_, h, _⟩ => hmy h
      have hstops : StopsField (.cons name ty rest) key ↔ StopsField rest key :=
        or_iff_right fun ⟨h, _⟩ => hmy h
      rw [accept, if_neg hmy]
      cases accept_outcome hbeyond rest value.2 key hrest with
      | stops h hspells' hresult =>
        exact .stops (hstops.mpr h) (fun path h' => hspells' path ((hpath path).mp h'))
          (by rw [hresult]; rfl)
      | missing h hspells' hresult =>
        refine .missing (fun h' => h (hstops.mp h'))
          (fun path h' => hspells' path ((hpath path).mp h')) ?_
        rw [hresult]
        rfl
      | leaf e put hmem h hspells' hput hleaves hresult =>
        refine .leaf e (fun v => (value.1, put v)) (List.mem_append_right _ hmem)
          (fun h' => h (hstops.mp h')) (fun path => (hpath path).trans (hspells' path))
          (Prod.ext rfl hput) (fun v => ?_) ?_
        · show (entries ty value.1).map _ ++ fieldEntries rest (put v) = replace _ _ (_ ++ _)
          rw [replace_append, hleaves v]
          congr 1
          obtain ⟨name', hname', path', hpath'⟩ := exists_name hmem
          rw [hpath']
          have hne : name.val ≠ name' := fun heq => hname (heq ▸ hname')
          exact (replace_map_under_of_ne hne _ _ _).symm
        · rw [hresult, Result.map_map]
          rfl

end

end Mjlib.Micro.ItemArchive
