import Mathlib
import Mjlib.Lib.Run

/-!
# `PoolMap`

A map in a fixed number of nodes, which looks its keys up one after the other.  `lookup_of_run`:
after every run of insertions and assignments it is the map that it stands for, where keys are told
apart by `Compare` only.  `run_eq_none_iff`: the assertion of `insert` fails if and only if more keys
that differ are inserted than there are nodes.  `find_of_run`: a node keeps its address.
-/

namespace Mjlib.Micro

variable {Key Value : Type} {maxSize : ℕ}

/-- `PoolMap`: the nodes of `data_`, and how many of them are in use. -/
structure PoolMap (Key Value : Type) (maxSize : ℕ) where
  data : Vector (Key × Value) maxSize
  size : ℕ
  size_le : size ≤ maxSize

namespace PoolMap

/-- `PoolMap(pool, max_elements)`, of nodes `Node{}`. -/
def new (node : Key × Value) : PoolMap Key Value maxSize where
  data := Vector.replicate maxSize node
  size := 0
  size_le := Nat.zero_le _

/-- The nodes from `begin` to `end`. -/
def nodes (map : PoolMap Key Value maxSize) : List (Key × Value) := map.data.toList.take map.size

-- `Compare`
variable (less : Key → Key → Bool)

/-- No key is before the other. -/
def equivalent (a b : Key) : Bool := !less a b && !less b a

/-- `find`, counted from `begin`; that of `end` if there is no such key. -/
def find (map : PoolMap Key Value maxSize) (key : Key) : ℕ :=
  map.nodes.findIdx fun node => equivalent less node.1 key

/-- `insert`: the iterator, and whether it is of a new node; `none` if the assertion fails. -/
def insert (map : PoolMap Key Value maxSize) (value : Key × Value) :
    Option (PoolMap Key Value maxSize × ℕ × Bool) :=
  let iter := map.find less value.1
  if h : iter < map.size then some (map, iter, false)
  -- `iter` is `stop`
  else if hmax : iter < maxSize then
    some (⟨map.data.set iter value hmax, map.size + 1, Nat.lt_of_le_of_lt (not_lt.mp h) hmax⟩, iter,
      true)
  else none

/-- An assignment to the value of a node. -/
def assign (map : PoolMap Key Value maxSize) (iter : ℕ) (value : Value) :
    PoolMap Key Value maxSize :=
  if h : iter < map.size then
    { map with
      data := map.data.set iter ((map.data.get ⟨iter, Nat.lt_of_lt_of_le h map.size_le⟩).1, value)
        (Nat.lt_of_lt_of_le h map.size_le) }
  else map

/-- What is found; `none` at `end`. -/
def lookup (map : PoolMap Key Value maxSize) (key : Key) : Option Value :=
  (map.nodes[map.find less key]?).map Prod.snd

/-- What a caller does with the map: `assign` is to what `find` returns, unless it is `end`. -/
inductive Op (Key Value : Type)
  | insert (value : Key × Value)
  | assign (key : Key) (value : Value)

/-- The key that is inserted. -/
def Op.inserted : Op Key Value → Option Key
  | .insert value => some value.1
  | .assign _ _ => none

def step (map : PoolMap Key Value maxSize) : Op Key Value → Option (PoolMap Key Value maxSize)
  | .insert value => (map.insert less value).map Prod.fst
  | .assign key value => some (map.assign (map.find less key) value)

/-- The purpose of an operation, on the map that a `PoolMap` stands for. -/
def spec (values : Key → Option Value) : Op Key Value → Key → Option Value
  | .insert value => fun key =>
    if values value.1 = none ∧ equivalent less value.1 key then some value.2 else values key
  | .assign key value => fun other =>
    if values key ≠ none ∧ equivalent less key other then some value else values other

/-! ### Nodes -/

section Nodes

variable {map map' : PoolMap Key Value maxSize} {less}

/-- The keys in the order in which they were inserted. -/
def keys (map : PoolMap Key Value maxSize) : List Key := map.nodes.map Prod.fst

@[simp] theorem length_nodes : map.nodes.length = map.size := by
  rw [nodes, List.length_take, Vector.length_toList]
  exact min_eq_left map.size_le

@[simp] theorem length_keys : map.keys.length = map.size := by
  rw [keys, List.length_map, length_nodes]

@[simp] theorem nodes_new (node : Key × Value) :
    (new node : PoolMap Key Value maxSize).nodes = [] :=
  List.take_zero

theorem find_eq_findIdx (key : Key) :
    map.find less key = map.keys.findIdx fun other => equivalent less other key := by
  rw [keys, List.findIdx_map]
  rfl

theorem find_le_size (key : Key) : map.find less key ≤ map.size := by
  rw [← length_nodes]
  exact List.findIdx_le_length

theorem find_lt_size_iff {key : Key} :
    map.find less key < map.size ↔ ∃ other ∈ map.keys, equivalent less other key = true := by
  rw [find_eq_findIdx, ← length_keys, List.findIdx_lt_length]

/-- The key of the node that is found. -/
theorem equivalent_of_find {key : Key} (h : map.find less key < map.size) :
    ∃ other, map.keys[map.find less key]? = some other ∧ equivalent less other key = true := by
  rw [← length_keys, find_eq_findIdx] at h
  refine ⟨_, ?_, List.findIdx_getElem (w := h)⟩
  rw [find_eq_findIdx, List.getElem?_eq_getElem h]

theorem lookup_eq_none_iff {key : Key} :
    map.lookup less key = none ↔ map.find less key = map.size := by
  rw [lookup, Option.map_eq_none_iff, List.getElem?_eq_none_iff, length_nodes]
  exact ⟨fun h => le_antisymm (find_le_size key) h, fun h => h.ge⟩

/-- What `insert` does. -/
theorem insert_cases {value : Key × Value} {iter : ℕ} {inserted : Bool}
    (h : map.insert less value = some (map', iter, inserted)) :
    iter = map.find less value.1 ∧
      (map' = map ∧ iter < map.size ∨ map'.nodes = map.nodes ++ [value] ∧ iter = map.size) := by
  unfold insert at h
  dsimp only at h
  split_ifs at h with hfound hmax
  · cases h
    exact ⟨rfl, Or.inl ⟨rfl, hfound⟩⟩
  · cases h
    have hend : map.find less value.1 = map.size := le_antisymm (find_le_size _) (not_lt.mp hfound)
    refine ⟨rfl, Or.inr ⟨?_, hend⟩⟩
    have hlength : map.size < map.data.toList.length := by
      rw [Vector.length_toList, ← hend]
      exact hmax
    rw [nodes, nodes]
    dsimp only
    rw [Vector.toList_set, hend, List.take_add_one, List.take_set_of_le le_rfl,
      List.getElem?_set_self hlength, Option.toList_some]

theorem insert_eq_none_iff {value : Key × Value} :
    map.insert less value = none ↔ map.find less value.1 = map.size ∧ map.size = maxSize := by
  unfold insert
  dsimp only
  split_ifs with hfound hmax
  · exact ⟨fun h => (by cases h), fun h => absurd h.1 hfound.ne⟩
  · refine ⟨fun h => (by cases h), ?_⟩
    rintro ⟨hend, hfull⟩
    rw [hend, hfull] at hmax
    exact absurd hmax (lt_irrefl _)
  · have hend : map.find less value.1 = map.size := le_antisymm (find_le_size _) (not_lt.mp hfound)
    refine ⟨fun _ => ⟨hend, ?_⟩, fun _ => rfl⟩
    rw [hend] at hmax
    exact le_antisymm map.size_le (not_lt.mp hmax)

/-- What an assignment does to the nodes. -/
theorem getElem?_assign {iter : ℕ} (h : iter < map.size) (value : Value) (i : ℕ) :
    (map.assign iter value).nodes[i]?
      = (map.nodes[i]?).map fun node => if i = iter then (node.1, value) else node := by
  have hmax := Nat.lt_of_lt_of_le h map.size_le
  rw [assign, dif_pos h, nodes, nodes]
  dsimp only
  rw [Vector.toList_set, List.getElem?_take, List.getElem?_take]
  split_ifs with hi hiter
  · subst hiter
    rw [List.getElem?_set_self (by rw [Vector.length_toList]; exact hmax),
      List.getElem?_eq_getElem (by rw [Vector.length_toList]; exact hmax)]
    rfl
  · rw [List.getElem?_set_ne (Ne.symm hiter)]
    simp
  · rfl
  · rfl

theorem keys_assign (iter : ℕ) (value : Value) : (map.assign iter value).keys = map.keys := by
  by_cases h : iter < map.size
  · refine List.ext_getElem? fun i => ?_
    rw [keys, keys, List.getElem?_map, List.getElem?_map, getElem?_assign h]
    cases map.nodes[i]? with
    | none => rfl
    | some node =>
      rw [Option.map_some, Option.map_some, Option.map_some]
      split_ifs
      · rfl
      · rfl
  · rw [assign, dif_neg h]

/-- Nodes are added at the end, and keep their keys. -/
theorem keys_prefix_of_step {op : Op Key Value} (hstep : step less map op = some map') :
    map.keys <+: map'.keys := by
  cases op with
  | insert value =>
    obtain ⟨⟨_, iter, inserted⟩, hinsert, rfl⟩ := Option.map_eq_some_iff.mp hstep
    obtain ⟨-, ⟨rfl, -⟩ | ⟨hnodes, -⟩⟩ := insert_cases hinsert
    · exact List.prefix_rfl
    · rw [keys, keys, hnodes, List.map_append]
      exact List.prefix_append _ _
  | assign key value =>
    cases hstep
    rw [keys_assign]

theorem keys_prefix_of_run {ops : List (Op Key Value)}
    (hrun : Run.run (step less) map ops = some map') : map.keys <+: map'.keys :=
  Run.run_induction (I := fun state => map.keys <+: state.keys)
    (fun _ _ _ h hstep => h.trans (keys_prefix_of_step hstep)) List.prefix_rfl hrun

/-- A key that is found is found in the same node later. -/
theorem find_later {key : Key} (h : map.find less key < map.size) (hkeys : map.keys <+: map'.keys) :
    map'.find less key = map.find less key ∧ map'.find less key < map'.size := by
  obtain ⟨more, hmore⟩ := hkeys
  have hfind : map'.find less key = map.find less key := by
    -- the first node with the key is one of the old ones
    rw [find_eq_findIdx, ← length_keys] at h
    rw [find_eq_findIdx, find_eq_findIdx, ← hmore, List.findIdx_append, if_pos h]
  refine ⟨hfind, ?_⟩
  rw [hfind]
  refine lt_of_lt_of_le h ?_
  rw [← length_keys, ← length_keys, ← hmore, List.length_append]
  exact Nat.le_add_right _ _

theorem find_insert {value : Key × Value} {iter : ℕ} {inserted : Bool}
    (hless : Equivalence fun a b => equivalent less a b = true)
    (h : map.insert less value = some (map', iter, inserted)) :
    map'.find less value.1 = iter ∧ iter < map'.size := by
  obtain ⟨hiter, ⟨rfl, hlt⟩ | ⟨hnodes, hend⟩⟩ := insert_cases h
  · exact ⟨hiter.symm, hlt⟩
  · have hsize : map'.size = map.size + 1 := by
      rw [← length_nodes, hnodes, List.length_append, length_nodes, List.length_singleton]
    have hnot : ¬(map.keys.findIdx fun other => equivalent less other value.1)
        < map.keys.length := by
      rw [← find_eq_findIdx, ← hiter, hend, length_keys]
      exact lt_irrefl _
    refine ⟨?_, by rw [hend, hsize]; exact Nat.lt_succ_self _⟩
    rw [find_eq_findIdx, keys, hnodes, List.map_append, ← keys, List.findIdx_append, if_neg hnot,
      length_keys, hend]
    simp [List.findIdx_cons, hless.refl value.1]

/-- **A node keeps its address**: what `insert` returns is what `find` returns, however the map is
used afterwards. -/
theorem find_of_run {value : Key × Value} {iter : ℕ} {inserted : Bool}
    {map'' : PoolMap Key Value maxSize} {ops : List (Op Key Value)}
    (hless : Equivalence fun a b => equivalent less a b = true)
    (h : map.insert less value = some (map', iter, inserted))
    (hrun : Run.run (step less) map' ops = some map'') :
    map''.find less value.1 = iter ∧ iter < map''.size := by
  obtain ⟨hfind, hlt⟩ := find_insert hless h
  rw [← hfind] at hlt
  obtain ⟨heq, hlt'⟩ := find_later hlt (keys_prefix_of_run hrun)
  rw [heq, hfind] at hlt'
  exact ⟨heq.trans hfind, hlt'⟩

end Nodes

/-- The keys of a linear order are told apart by it. -/
theorem equivalence_of_linearOrder [LinearOrder Key] :
    Equivalence fun a b : Key => equivalent (fun x y => decide (x < y)) a b = true := by
  have heq : (fun a b : Key => equivalent (fun x y => decide (x < y)) a b = true) = Eq := by
    funext a b
    simp only [equivalent, Bool.and_eq_true, Bool.not_eq_true', decide_eq_false_iff_not, not_lt,
      eq_iff_iff]
    exact ⟨fun h => le_antisymm h.2 h.1, fun h => ⟨h.ge, h.le⟩⟩
  rw [heq]
  exact eq_equivalence

theorem find_of_run_sample : ∃ map map'' : PoolMap ℕ ℕ 2,
    (new (0, 0) : PoolMap ℕ ℕ 2).insert (fun x y => decide (x < y)) (7, 1) = some (map, 0, true) ∧
      map''.find (fun x y => decide (x < y)) 7 = 0 := by
  have hsome : (((new (0, 0) : PoolMap ℕ ℕ 2).insert (fun x y => decide (x < y)) (7, 1)).bind
      fun result => if result.2 = (0, true) then
        Run.run (step fun x y => decide (x < y)) result.1 [.insert (3, 2), .assign 7 4]
      else none).isSome = true := by
    decide +kernel
  obtain ⟨map'', hsome⟩ := Option.isSome_iff_exists.mp hsome
  obtain ⟨⟨map, result⟩, hinsert, hsome⟩ := Option.bind_eq_some_iff.mp hsome
  split_ifs at hsome with hresult
  obtain rfl : result = (0, true) := hresult
  exact ⟨map, map'', hinsert, (find_of_run equivalence_of_linearOrder hinsert hsome).1⟩

/-! ### The map -/

section Lookup

variable {map map' : PoolMap Key Value maxSize} {less}
  (hless : Equivalence fun a b => equivalent less a b = true)

include hless

/-- Keys that `Compare` does not tell apart are found together. -/
theorem find_congr {a b : Key} (h : equivalent less a b = true) :
    map.find less a = map.find less b := by
  unfold find
  congr 1
  funext node
  rw [Bool.eq_iff_iff]
  exact ⟨fun ha => hless.trans ha h, fun hb => hless.trans hb (hless.symm h)⟩

theorem lookup_insert {value : Key × Value} (h : map.find less value.1 = map.size)
    (hnodes : map'.nodes = map.nodes ++ [value]) (key : Key) :
    map'.lookup less key
      = if equivalent less value.1 key then some value.2 else map.lookup less key := by
  have hfind : map'.find less key
      = if map.find less key < map.size then map.find less key
        else (if equivalent less value.1 key then 0 else 1) + map.size := by
    rw [find, hnodes, List.findIdx_append, length_nodes]
    simp only [List.findIdx_cons, List.findIdx_nil, cond_eq_ite]
    rfl
  rw [lookup, hfind, hnodes]
  by_cases hequiv : equivalent less value.1 key = true
  · rw [if_pos hequiv, ← find_congr hless hequiv, h, if_neg (lt_irrefl _), if_pos hequiv,
      Nat.zero_add, ← length_nodes, List.getElem?_concat_length]
    rfl
  · rw [if_neg hequiv, if_neg hequiv]
    split_ifs with hlt
    · rw [List.getElem?_append_left (by rwa [length_nodes])]
      rfl
    · have hend := le_antisymm (find_le_size key) (not_lt.mp hlt)
      rw [lookup_eq_none_iff.mpr hend, Option.map_eq_none_iff, List.getElem?_eq_none_iff,
        List.length_append, length_nodes, List.length_singleton, Nat.add_comm]

theorem lookup_assign {key : Key} (h : map.find less key < map.size) (value : Value) (other : Key) :
    (map.assign (map.find less key) value).lookup less other
      = if equivalent less key other then some value else map.lookup less other := by
  have hfind : (map.assign (map.find less key) value).find less other = map.find less other := by
    rw [find_eq_findIdx, keys_assign, ← find_eq_findIdx]
  rw [lookup, hfind, getElem?_assign h, lookup, Option.map_map]
  by_cases hequiv : equivalent less key other = true
  · rw [if_pos hequiv, ← find_congr hless hequiv, List.getElem?_eq_getElem (by rwa [length_nodes]),
      Option.map_some]
    simp
  · -- another key is in another node
    have hne : map.find less other ≠ map.find less key := by
      intro heq
      obtain ⟨found, hfound, hkey⟩ := equivalent_of_find h
      obtain ⟨found', hfound', hother⟩ :=
        equivalent_of_find (heq ▸ h : map.find less other < map.size)
      rw [heq, hfound] at hfound'
      obtain rfl := Option.some.inj hfound'
      exact hequiv (hless.trans (hless.symm hkey) hother)
    rw [if_neg hequiv]
    congr 1
    funext node
    rw [Function.comp_apply, if_neg hne]

/-- An operation does what it is for. -/
theorem lookup_step {op : Op Key Value} (hstep : step less map op = some map') :
    map'.lookup less = spec less (map.lookup less) op := by
  funext key
  cases op with
  | insert value =>
    obtain ⟨⟨_, iter, inserted⟩, hinsert, rfl⟩ := Option.map_eq_some_iff.mp hstep
    obtain ⟨hiter, ⟨rfl, hlt⟩ | ⟨hnodes, hend⟩⟩ := insert_cases hinsert
    · rw [hiter] at hlt
      rw [spec]
      exact (if_neg fun h => hlt.ne (lookup_eq_none_iff.mp h.1)).symm
    · rw [hiter] at hend
      rw [lookup_insert hless hend hnodes, spec, lookup_eq_none_iff.mpr hend]
      simp
  | assign other value =>
    cases hstep
    by_cases hlt : map.find less other < map.size
    · rw [lookup_assign hless hlt, spec]
      have hsome : map.lookup less other ≠ none := fun h => hlt.ne (lookup_eq_none_iff.mp h)
      simp [hsome]
    · have hend := le_antisymm (find_le_size other) (not_lt.mp hlt)
      rw [assign, dif_neg hlt, spec]
      exact (if_neg fun h => h.1 (lookup_eq_none_iff.mpr hend)).symm

/-- **It is the map that it stands for**, after every run. -/
theorem lookup_of_run {ops : List (Op Key Value)} {node : Key × Value}
    (hrun : Run.run (step less) (new node) ops = some map) :
    map.lookup less = ops.foldl (spec less) fun _ => none := by
  have hfold : ∀ (ops : List (Op Key Value)) (start : PoolMap Key Value maxSize),
      Run.run (step less) start ops = some map →
        map.lookup less = ops.foldl (spec less) (start.lookup less) := by
    intro ops
    induction ops with
    | nil =>
      intro start h
      cases h
      rfl
    | cons op ops ih =>
      intro start h
      obtain ⟨next, hstep, hrest⟩ := (Run.run_cons_eq_some _).mp h
      rw [ih next hrest, lookup_step hless hstep, List.foldl_cons]
  rw [hfold ops _ hrun]
  congr 1

end Lookup

theorem lookup_of_run_sample : ∃ map : PoolMap ℕ ℕ 2,
    map.lookup (fun x y => decide (x < y))
      = [Op.insert (7, 1), .insert (7, 5), .assign 7 4].foldl (spec fun x y => decide (x < y))
        fun _ => none := by
  have hsome : (Run.run (step fun x y => decide (x < y)) (new (0, 0) : PoolMap ℕ ℕ 2)
      [.insert (7, 1), .insert (7, 5), .assign 7 4]).isSome = true := by
    decide +kernel
  obtain ⟨map, hrun⟩ := Option.isSome_iff_exists.mp hsome
  exact ⟨map, lookup_of_run equivalence_of_linearOrder hrun⟩

/-! ### The assertion -/

section Full

variable {map map' : PoolMap Key Value maxSize} {less}

/-- `Compare` tells each of the keys from the others. -/
def Distinct (less : Key → Key → Bool) (keys : List Key) : Prop :=
  keys.Pairwise fun a b => ¬equivalent less a b = true

instance Distinct.decidable (keys : List Key) : Decidable (Distinct less keys) :=
  inferInstanceAs (Decidable (keys.Pairwise fun a b => ¬equivalent less a b = true))

theorem distinct_step {op : Op Key Value} (h : Distinct less map.keys)
    (hstep : step less map op = some map') :
    Distinct less map'.keys ∧ ∀ key ∈ map'.keys, key ∈ map.keys ∨ op.inserted = some key := by
  cases op with
  | insert value =>
    obtain ⟨⟨next, iter, inserted⟩, hinsert, rfl⟩ := Option.map_eq_some_iff.mp hstep
    obtain ⟨hiter, ⟨rfl, -⟩ | ⟨hnodes, hend⟩⟩ := insert_cases hinsert
    · exact ⟨h, fun key hkey => Or.inl hkey⟩
    · have hkeys : next.keys = map.keys ++ [value.1] := by
        rw [keys, hnodes, List.map_append]
        rfl
      rw [hiter] at hend
      dsimp only
      rw [hkeys]
      constructor
      · refine List.pairwise_append.mpr ⟨h, List.pairwise_singleton _ _, ?_⟩
        intro key hkey other hother hequiv
        rw [List.mem_singleton.mp hother] at hequiv
        exact absurd hend (find_lt_size_iff.mpr ⟨key, hkey, hequiv⟩).ne
      · intro key hkey
        rcases List.mem_append.mp hkey with hkey | hkey
        · exact Or.inl hkey
        · rw [List.mem_singleton.mp hkey]
          exact Or.inr rfl
  | assign key value =>
    cases hstep
    rw [keys_assign]
    exact ⟨h, fun key hkey => Or.inl hkey⟩

/-- Where the assertion fails, the keys and the new one are too many. -/
theorem exists_of_run_eq_none {ops : List (Op Key Value)} :
    ∀ {map : PoolMap Key Value maxSize} (seen : List Key), Distinct less map.keys →
      (∀ key ∈ map.keys, key ∈ seen) → Run.run (step less) map ops = none →
        ∃ keys, Distinct less keys ∧ (∀ key ∈ keys, key ∈ seen ++ ops.filterMap Op.inserted) ∧
          maxSize < keys.length := by
  induction ops with
  | nil =>
    intro map seen _ _ hrun
    cases hrun
  | cons op ops ih =>
    intro map seen hdistinct hseen hrun
    cases hstep : step less map op with
    | none =>
      cases op with
      | assign key value => cases hstep
      | insert value =>
        -- every node is in use, and none has the key
        obtain ⟨hend, hfull⟩ := insert_eq_none_iff.mp (Option.map_eq_none_iff.mp hstep)
        refine ⟨map.keys ++ [value.1], ?_, ?_, ?_⟩
        · refine List.pairwise_append.mpr ⟨hdistinct, List.pairwise_singleton _ _, ?_⟩
          intro key hkey other hother hequiv
          rw [List.mem_singleton.mp hother] at hequiv
          exact absurd hend (find_lt_size_iff.mpr ⟨key, hkey, hequiv⟩).ne
        · intro key hkey
          rcases List.mem_append.mp hkey with hkey | hkey
          · exact List.mem_append_left _ (hseen key hkey)
          · rw [List.mem_singleton.mp hkey]
            exact List.mem_append_right _ (List.mem_filterMap.mpr ⟨_, List.mem_cons_self, rfl⟩)
        · rw [List.length_append, length_keys, hfull]
          exact Nat.lt_succ_self _
    | some map' =>
      rw [Run.run_cons, hstep, Option.bind_some] at hrun
      obtain ⟨hdistinct', hkeys⟩ := distinct_step hdistinct hstep
      obtain ⟨keys, hkeysDistinct, hmem, hlength⟩ :=
        ih (seen ++ [op].filterMap Op.inserted) hdistinct' (by
          intro key hkey
          rcases hkeys key hkey with hold | hnew
          · exact List.mem_append_left _ (hseen key hold)
          · exact List.mem_append_right _
              (List.mem_filterMap.mpr ⟨op, List.mem_cons_self, hnew⟩)) hrun
      refine ⟨keys, hkeysDistinct, ?_, hlength⟩
      intro key hkey
      have hkey' := hmem key hkey
      rwa [List.append_assoc, ← List.filterMap_append, List.singleton_append] at hkey'

/-- What was inserted is found. -/
theorem find_lt_of_run (hless : Equivalence fun a b => equivalent less a b = true)
    {ops : List (Op Key Value)} {key : Key} (hkey : key ∈ ops.filterMap Op.inserted) :
    ∀ {map : PoolMap Key Value maxSize}, Run.run (step less) map ops = some map' →
      map'.find less key < map'.size := by
  induction ops with
  | nil => cases hkey
  | cons op ops ih =>
    intro map hrun
    obtain ⟨next, hstep, hrest⟩ := (Run.run_cons_eq_some _).mp hrun
    obtain ⟨inserting, hmem, hinserting⟩ := List.mem_filterMap.mp hkey
    rcases List.mem_cons.mp hmem with rfl | hmem
    · cases inserting with
      | assign other value => cases hinserting
      | insert value =>
        obtain rfl := Option.some.inj hinserting
        obtain ⟨⟨_, iter, inserted⟩, hinsert, rfl⟩ := Option.map_eq_some_iff.mp hstep
        obtain ⟨hfind, hlt⟩ := find_insert hless hinsert
        rw [← hfind] at hlt
        exact (find_later hlt (keys_prefix_of_run hrest)).2
    · exact ih (List.mem_filterMap.mpr ⟨inserting, hmem, hinserting⟩) hrest

/-- Distinct keys are found in different nodes. -/
theorem length_le_size (hless : Equivalence fun a b => equivalent less a b = true) {keys : List Key}
    (hdistinct : Distinct less keys) (hfound : ∀ key ∈ keys, map.find less key < map.size) :
    keys.length ≤ map.size := by
  have hnodup : (keys.map (map.find less)).Nodup := by
    refine List.pairwise_map.mpr (List.Pairwise.imp_of_mem ?_ hdistinct)
    intro a b ha hb hnot heq
    obtain ⟨found, hfound', hkey⟩ := equivalent_of_find (hfound a ha)
    obtain ⟨other, hother, hkey'⟩ := equivalent_of_find (hfound b hb)
    rw [heq, hother] at hfound'
    obtain rfl := Option.some.inj hfound'
    exact hnot (hless.trans (hless.symm hkey) hkey')
  -- so they are no more than the nodes
  have hsubset : keys.map (map.find less) ⊆ List.range map.size := by
    intro i hi
    obtain ⟨key, hkey, rfl⟩ := List.mem_map.mp hi
    exact List.mem_range.mpr (hfound key hkey)
  have hle := (hnodup.subperm hsubset).length_le
  rwa [List.length_map, List.length_range] at hle

/-- **When the assertion of `insert` fails**: in exactly the runs that insert more keys that differ
than there are nodes. -/
theorem run_eq_none_iff (hless : Equivalence fun a b => equivalent less a b = true)
    {ops : List (Op Key Value)} {node : Key × Value} :
    Run.run (step less) (new node : PoolMap Key Value maxSize) ops = none ↔
      ∃ keys, Distinct less keys ∧ (∀ key ∈ keys, key ∈ ops.filterMap Op.inserted) ∧
        maxSize < keys.length := by
  constructor
  · intro hrun
    have hkeys : (new node : PoolMap Key Value maxSize).keys = [] := by
      rw [keys, nodes_new, List.map_nil]
    refine exists_of_run_eq_none [] ?_ ?_ hrun
    · rw [hkeys]
      exact List.Pairwise.nil
    · rw [hkeys]
      exact List.forall_mem_nil _
  · rintro ⟨keys, hdistinct, hmem, hlength⟩
    rw [Option.eq_none_iff_forall_ne_some]
    intro map hrun
    have hle := length_le_size hless hdistinct fun key hkey =>
      find_lt_of_run hless (hmem key hkey) hrun
    exact absurd (lt_of_lt_of_le hlength hle) (not_lt.mpr map.size_le)

end Full

theorem run_eq_none_iff_sample :
    Run.run (step fun x y => decide (x < y)) (new (0, 0) : PoolMap ℕ ℕ 1)
      [.insert (7, 1), .insert (3, 5)] = none :=
  (run_eq_none_iff equivalence_of_linearOrder).mpr ⟨[7, 3], by decide, by decide, by decide⟩

end PoolMap

end Mjlib.Micro
