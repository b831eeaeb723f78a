import Mjlib.Telemetry.Equiv.BinarySchemaParser

/-!
# `Element::Ignore` on any data

Stepping over data that may not be an instance of the schema.  `Ignore` never leaves the data behind
it (`Element.ignore_suffix`).  Whether it keeps to them at all is up to the data: `Element.behind`
says where the data of an element end, `Element.Clean` that nothing in their way is beyond `Ignore`,
and one walk along both (`Walks`, with a rule for each way to put steps together) shows that it is
safe on clean data and on no other (`ignore_safe_iff`).
-/

namespace Mjlib.Telemetry.BinarySchemaParser

/-! ### What may happen -/

/-- The failures of `Ignore` that are exceptions; all others are assertions, or undefined. -/
def IsException : Error → Prop
  | .badOptionalAccess => True
  | .invalidUnionIndex _ => True
  | _ => False

/-- Stepping over the data ends behind where it began and within the data, or with an exception. -/
def Safe (s : Bytes) : Except Error Bytes → Prop
  | .ok rest => rest <:+ s
  | .error e => IsException e

/-- No failure but exceptions. -/
def NoFault {α : Type} (r : Except Error α) : Prop := ∀ e, r = .error e → IsException e

theorem noFault_ok {α : Type} (a : α) : NoFault (.ok a : Except Error α) := nofun

theorem noFault_error {α : Type} {e : Error} :
    NoFault (.error e : Except Error α) ↔ IsException e :=
  ⟨fun h => h e rfl, fun h _ he => Except.error.inj he ▸ h⟩

theorem noFault_bind {α β : Type} {x : Except Error α} {f : α → Except Error β} :
    NoFault (x >>= f) ↔ NoFault x ∧ ∀ a, x = .ok a → NoFault (f a) := by
  cases x with
  | error e =>
    show NoFault (.error e) ↔ _
    rw [noFault_error, noFault_error]
    exact ⟨fun h => ⟨h, nofun⟩, And.left⟩
  | ok a =>
    show NoFault (f a) ↔ _
    refine ⟨fun h => ⟨noFault_ok a, fun b hb => ?_⟩, fun h => h.2 a rfl⟩
    rw [← Except.ok.inj hb]
    exact h

/-! ### Where the stream is left -/

theorem value_readVaruint_eq_ok {s : Bytes} {r : UInt64 × Bytes}
    (h : value (readVaruint s) = .ok r) : r.2 <:+ s := by
  have hsuffix := readVaruint_isSuffix s
  generalize readVaruint s = found at h hsuffix
  obtain ⟨found, rest⟩ := found
  cases found with
  | none => exact nomatch h
  | some x =>
    obtain rfl := Except.ok.inj h
    exact hsuffix

theorem readString_eq_ok {s : Bytes} {r : Option (Seq UInt8) × Bytes}
    (h : readString s = .ok r) : r.2 <:+ s := by
  have hsuffix := readVaruint_isSuffix s
  unfold readString at h
  generalize readVaruint s = found at h hsuffix
  obtain ⟨found, rest⟩ := found
  cases found with
  | none =>
    obtain rfl := Except.ok.inj h
    exact hsuffix
  | some size =>
    dsimp only at h hsuffix
    split_ifs at h
    have hdrop : rest.drop size.toNat <:+ s := (List.drop_suffix _ _).trans hsuffix
    simp only [rawRead] at h
    generalize decide (size.toNat ≤ rest.length) = complete at h
    cases complete
    · obtain rfl := Except.ok.inj h
      exact hdrop
    · obtain rfl := Except.ok.inj h
      exact hdrop

theorem ignoreBytes_eq_ok {size : ℤ} {s rest : Bytes} (h : ignoreBytes size s = .ok rest) :
    rest <:+ s := by
  unfold ignoreBytes at h
  split_ifs at h
  obtain rfl := Except.ok.inj h
  exact List.drop_suffix _ _

theorem repeatIgnore_eq_ok {ignore : Bytes → Except Error Bytes}
    (hignore : ∀ s rest, ignore s = .ok rest → rest <:+ s) {n : ℕ} :
    ∀ {s rest : Bytes}, repeatIgnore ignore n s = .ok rest → rest <:+ s := by
  induction n with
  | zero =>
    intro s rest h
    obtain rfl := Except.ok.inj h
    exact List.suffix_refl _
  | succ n ih =>
    intro s rest h
    obtain ⟨s', hs', h⟩ := bind_eq_ok.mp h
    exact (ih h).trans (hignore s s' hs')

theorem ignoreItems_eq_ok {nelements : UInt64} {maybeFixedSize : Option ℕ}
    {ignore : Bytes → Except Error Bytes} (hignore : ∀ s rest, ignore s = .ok rest → rest <:+ s)
    {s rest : Bytes} (h : ignoreItems nelements maybeFixedSize ignore s = .ok rest) :
    rest <:+ s := by
  cases maybeFixedSize with
  | none => exact repeatIgnore_eq_ok hignore h
  | some size => exact ignoreBytes_eq_ok h

mutual

/-- **`Ignore` goes forward**, and stays within the data. -/
theorem Element.ignore_suffix : (element : Element) → (s rest : Bytes) →
    element.ignore s = .ok rest → rest <:+ s
  | .mk _ _ (some _) _, s, rest, h => by
    rw [Element.ignore] at h
    exact ignoreBytes_eq_ok h
  | .mk _ _ none shape, s, rest, h => by
    rw [Element.ignore] at h
    exact shape.ignore_suffix s rest h

theorem Shape.ignore_suffix : (shape : Shape) → (s rest : Bytes) →
    shape.ignore s = .ok rest → rest <:+ s
  | .final, _, _, h | .null, _, _, h | .boolean, _, _, h | .fixedInt _, _, _, h
  | .fixedUInt _, _, _, h | .float32, _, _, h | .float64, _, _, h | .timestamp, _, _, h
  | .duration, _, _, h => by
    rw [Shape.ignore] at h
    exact nomatch h
  | .varint, s, _, h | .varuint, s, _, h => by
    rw [Shape.ignore] at h
    obtain rfl := Except.ok.inj h
    exact readVaruint_isSuffix s
  | .bytes, s, _, h | .string, s, _, h => by
    rw [Shape.ignore] at h
    obtain ⟨r, hr, h⟩ := bind_eq_ok.mp h
    exact (ignoreBytes_eq_ok h).trans (value_readVaruint_eq_ok hr)
  | .object _ fields, s, rest, h => by
    rw [Shape.ignore] at h
    exact ignoreFields_suffix fields s rest h
  | .enum child _, s, rest, h => by
    rw [Shape.ignore] at h
    exact child.ignore_suffix s rest h
  | .array child, s, _, h => by
    rw [Shape.ignore] at h
    obtain ⟨r, hr, h⟩ := bind_eq_ok.mp h
    exact (ignoreItems_eq_ok (fun s rest => child.ignore_suffix s rest) h).trans
      (value_readVaruint_eq_ok hr)
  | .fixedArray _ child, s, _, h => by
    rw [Shape.ignore] at h
    exact ignoreItems_eq_ok (fun s rest => child.ignore_suffix s rest) h
  | .map child, s, _, h => by
    rw [Shape.ignore] at h
    obtain ⟨r, hr, h⟩ := bind_eq_ok.mp h
    refine (repeatIgnore_eq_ok (fun s rest h => ?_) h).trans (value_readVaruint_eq_ok hr)
    obtain ⟨key, hkey, h⟩ := bind_eq_ok.mp h
    exact (child.ignore_suffix key.2 rest h).trans (readString_eq_ok hkey)
  | .union children, s, rest, h => by
    rw [Shape.ignore] at h
    obtain ⟨r, hr, h⟩ := bind_eq_ok.mp h
    dsimp only at h
    split_ifs at h
    · exact nomatch h
    · exact (ignoreNth_suffix children r.1.toNat r.2 rest h).trans (value_readVaruint_eq_ok hr)
  | .unnamed _, s, _, h => by
    rw [Shape.ignore] at h
    obtain rfl := Except.ok.inj h
    exact List.suffix_refl _

theorem ignoreFields_suffix : (fields : List Field) → (s rest : Bytes) →
    ignoreFields fields s = .ok rest → rest <:+ s
  | [], s, _, h => by
    rw [ignoreFields] at h
    obtain rfl := Except.ok.inj h
    exact List.suffix_refl _
  | .mk _ _ _ element _ :: fields, s, rest, h => by
    rw [ignoreFields] at h
    obtain ⟨s', hs', h⟩ := bind_eq_ok.mp h
    exact (ignoreFields_suffix fields s' rest h).trans (element.ignore_suffix s s' hs')

theorem ignoreNth_suffix : (children : List Element) → (index : ℕ) → (s rest : Bytes) →
    ignoreNth children index s = .ok rest → rest <:+ s
  | [], _, _, _, h => by
    rw [ignoreNth] at h
    exact nomatch h
  | child :: _, 0, s, rest, h => by
    rw [ignoreNth] at h
    exact child.ignore_suffix s rest h
  | _ :: children, index + 1, s, rest, h => by
    rw [ignoreNth] at h
    exact ignoreNth_suffix children index s rest h

end

/-! ### Where the data of an element end -/

/-- A number at the start of the data, with what is behind it. -/
def number (s : Bytes) : Option (UInt64 × Bytes) :=
  match readVaruint s with
  | (some x, s) => some (x, s)
  | (none, _) => none

/-- What is behind a string, or the end of the data if they break off in it. -/
def behindString (s : Bytes) : Bytes :=
  match readVaruint s with
  | (some size, s) => s.drop size.toNat
  | (none, s) => s

/-- What is behind `n` elements. -/
def repeatBehind (behind : Bytes → Option Bytes) : ℕ → Bytes → Option Bytes
  | 0, s => some s
  | n + 1, s => behind s >>= repeatBehind behind n

/-- What is behind the elements of an array. -/
def itemsBehind (nelements : UInt64) (maybeFixedSize : Option ℕ) (behind : Bytes → Option Bytes)
    (s : Bytes) : Option Bytes :=
  match maybeFixedSize with
  | some size => some (s.drop (nelements * UInt64.ofNat size).toNat)
  | none => repeatBehind behind nelements.toNat s

mutual

/-- What is behind the data of an element: nothing where they break off in a number that says how
they go on, or where the index of a union names none of the alternatives. -/
def Element.behind : Element → Bytes → Option Bytes
  | .mk _ _ (some size) _, s => some (s.drop size)
  | .mk _ _ none shape, s => shape.behind s

def Shape.behind : Shape → Bytes → Option Bytes
  | .final, _ | .null, _ | .boolean, _ | .fixedInt _, _ | .fixedUInt _, _ | .float32, _
  | .float64, _ | .timestamp, _ | .duration, _ => none
  | .varint, s | .varuint, s => some (readVaruint s).2
  | .bytes, s | .string, s => do
    let (size, s) ← number s
    return s.drop size.toNat
  | .object _ fields, s => fieldsBehind fields s
  | .enum child _, s => child.behind s
  | .array child, s => do
    let (nelements, s) ← number s
    itemsBehind nelements child.maybeFixedSize child.behind s
  | .fixedArray arraySize child, s => itemsBehind arraySize child.maybeFixedSize child.behind s
  | .map child, s => do
    let (nitems, s) ← number s
    repeatBehind (fun s => child.behind (behindString s)) nitems.toNat s
  | .union children, s => do
    let (index, s) ← number s
    nthBehind children index.toNat s
  | .unnamed _, s => some s

def fieldsBehind : List Field → Bytes → Option Bytes
  | [], s => some s
  | .mk _ _ _ element _ :: fields, s => do fieldsBehind fields (← element.behind s)

def nthBehind : List Element → ℕ → Bytes → Option Bytes
  | [], _, _ => none
  | child :: _, 0, s => child.behind s
  | _ :: children, index + 1, s => nthBehind children index s

end

/-! ### What must not be in the data -/

/-- The number at the start of the data, if there is one, and what is behind it fulfil `P`. -/
def AtNumber (P : UInt64 → Bytes → Prop) (s : Bytes) : Prop :=
  ∀ x rest, number s = some (x, rest) → P x rest

/-- Each of `n` elements. -/
def Repeated (clean : Bytes → Prop) (behind : Bytes → Option Bytes) : ℕ → Bytes → Prop
  | 0, _ => True
  | n + 1, s => clean s ∧ ∀ rest, behind s = some rest → Repeated clean behind n rest

/-- The elements of an array: each of them, or their size altogether. -/
def CleanItems (nelements : UInt64) (maybeFixedSize : Option ℕ) (clean : Bytes → Prop)
    (behind : Bytes → Option Bytes) (s : Bytes) : Prop :=
  match maybeFixedSize with
  | some size => (nelements * UInt64.ofNat size).toNat < 2 ^ 63
  | none => Repeated clean behind nelements.toNat s

mutual

/-- The data of an element hold nothing that `Ignore` has no way to step over: a size of 2^63 bytes
or more, a key of a map that is longer than `kMaxStringSize`, an index of a union that is the number
of its alternatives, or a final element. -/
def Element.Clean : Element → Bytes → Prop
  | .mk _ _ (some _) _, _ => True
  | .mk _ _ none shape, s => shape.Clean s

def Shape.Clean : Shape → Bytes → Prop
  | .final, _ | .null, _ | .boolean, _ | .fixedInt _, _ | .fixedUInt _, _ | .float32, _
  | .float64, _ | .timestamp, _ | .duration, _ => False
  | .varint, _ | .varuint, _ | .unnamed _, _ => True
  | .bytes, s | .string, s => AtNumber (fun size _ => size.toNat < 2 ^ 63) s
  | .object _ fields, s => CleanFields fields s
  | .enum child _, s => child.Clean s
  | .array child, s => AtNumber (fun nelements s =>
      CleanItems nelements child.maybeFixedSize child.Clean child.behind s) s
  | .fixedArray arraySize child, s =>
    CleanItems arraySize child.maybeFixedSize child.Clean child.behind s
  | .map child, s => AtNumber (fun nitems s => Repeated
      (fun s => AtNumber (fun size _ => size.toNat ≤ Format.kMaxStringSize) s ∧
        child.Clean (behindString s))
      (fun s => child.behind (behindString s)) nitems.toNat s) s
  | .union children, s => AtNumber (fun index s =>
      index.toNat ≠ children.length ∧ CleanNth children index.toNat s) s

def CleanFields : List Field → Bytes → Prop
  | [], _ => True
  | .mk _ _ _ element _ :: fields, s =>
    element.Clean s ∧ ∀ rest, element.behind s = some rest → CleanFields fields rest

def CleanNth : List Element → ℕ → Bytes → Prop
  | [], _, _ => True
  | child :: _, 0, s => child.Clean s
  | _ :: children, index + 1, s => CleanNth children index s

end

/-! ### Stepping over clean data -/

/-- What `ignore` does: no failure but exceptions on the data that `clean` allows, and on no other,
and there it ends where `behind` says. -/
structure Walks (ignore : Bytes → Except Error Bytes) (clean : Bytes → Prop)
    (behind : Bytes → Option Bytes) : Prop where
  noFault : ∀ s, NoFault (ignore s) ↔ clean s
  eq_ok : ∀ s, clean s → ∀ rest, ignore s = .ok rest ↔ behind s = some rest

theorem walks_ok (f : Bytes → Bytes) :
    Walks (fun s => .ok (f s)) (fun _ => True) (fun s => some (f s)) where
  noFault s := iff_of_true (noFault_ok _) trivial
  eq_ok s _ rest := by rw [Except.ok.injEq, Option.some.injEq]

theorem walks_assertion :
    Walks (fun _ => .error .assertion) (fun _ => False) (fun _ => none) where
  noFault _ := noFault_error
  eq_ok _ hclean := hclean.elim

theorem walks_drop (size : ℕ) :
    Walks (ignoreBytes size) (fun _ => True) (fun s => some (s.drop size)) := by
  rw [show ignoreBytes size = fun s => .ok (s.drop size) from funext (ignoreBytes_natCast size)]
  exact walks_ok _

/-- A size that does not fit a `std::streamsize` is negative. -/
theorem walks_ignoreBytes (size : UInt64) :
    Walks (ignoreBytes (streamsize size)) (fun _ => size.toNat < 2 ^ 63)
      (fun s => some (s.drop size.toNat)) := by
  by_cases h : size.toNat < 2 ^ 63
  · rw [streamsize_of_lt h, eq_true h]
    exact walks_drop size.toNat
  · have hneg : streamsize size < 0 := by
      rw [streamsize, BitVec.toInt_eq_toNat_cond]
      have hlt := size.toNat_lt
      have heq : size.toBitVec.toNat = size.toNat := rfl
      rw [heq, if_neg (by omega)]
      omega
    constructor
    · intro s
      rw [ignoreBytes, if_pos hneg, noFault_error]
      exact iff_of_false id h
    · exact fun s hclean => absurd hclean h

/-- The string is read or breaks off. -/
theorem readString_of_le {s : Bytes}
    (h : AtNumber (fun size _ => size.toNat ≤ Format.kMaxStringSize) s) :
    ∃ found, readString s = .ok (found, behindString s) := by
  unfold AtNumber number at h
  unfold readString behindString
  generalize readVaruint s = found at h ⊢
  obtain ⟨found, s⟩ := found
  cases found with
  | none => exact ⟨none, rfl⟩
  | some size =>
    have hsize : ¬size.toNat > Format.kMaxStringSize := Nat.not_lt.mpr (h size s rfl)
    simp only [rawRead, if_neg hsize]
    cases decide (size.toNat ≤ s.length)
    · exact ⟨_, rfl⟩
    · exact ⟨_, rfl⟩

/-- The size does not pass the assertion. -/
theorem readString_of_not_le {s : Bytes}
    (h : ¬AtNumber (fun size _ => size.toNat ≤ Format.kMaxStringSize) s) :
    readString s = .error .assertion := by
  unfold AtNumber number at h
  unfold readString
  generalize readVaruint s = found at h ⊢
  obtain ⟨found, s⟩ := found
  cases found with
  | none => exact absurd (fun _ _ heq => nomatch heq) h
  | some size =>
    refine if_pos (Nat.lt_of_not_le fun hsize => h fun y rest heq => ?_)
    obtain ⟨rfl, -⟩ := Prod.mk.inj (Option.some.inj heq)
    exact hsize

namespace Walks

variable {f g : Bytes → Except Error Bytes} {P Q : Bytes → Prop} {f' g' : Bytes → Option Bytes}

/-- One step and then another. -/
theorem bind (hf : Walks f P f') (hg : Walks g Q g') :
    Walks (fun s => f s >>= g) (fun s => P s ∧ ∀ rest, f' s = some rest → Q rest)
      (fun s => f' s >>= g') where
  noFault s := by
    rw [noFault_bind, hf.noFault]
    refine and_congr_right fun hclean => forall_congr' fun rest => ?_
    rw [hf.eq_ok s hclean, hg.noFault]
  eq_ok s hclean rest := by
    rw [bind_eq_ok, Option.bind_eq_bind, Option.bind_eq_some_iff]
    refine exists_congr fun mid => ?_
    rw [hf.eq_ok s hclean.1]
    exact and_congr_right fun hmid => hg.eq_ok mid (hclean.2 mid hmid) rest

/-- A number, and then what it says. -/
theorem number {f : UInt64 → Bytes → Except Error Bytes} {P : UInt64 → Bytes → Prop}
    {f' : UInt64 → Bytes → Option Bytes} (h : ∀ x, Walks (f x) (P x) (f' x)) :
    Walks (fun s => do let (x, s) ← value (readVaruint s); f x s) (AtNumber P)
      (fun s => do let (x, s) ← BinarySchemaParser.number s; f' x s) := by
  constructor <;> intro s
  · rw [AtNumber, BinarySchemaParser.number]
    obtain ⟨found, s⟩ := readVaruint s
    cases found with
    | none => exact iff_of_true (noFault_error.mpr trivial) nofun
    | some x =>
      show NoFault (f x s) ↔ _
      rw [(h x).noFault]
      refine ⟨fun hclean y rest heq => ?_, fun hclean => hclean x s rfl⟩
      obtain ⟨rfl, rfl⟩ := Prod.mk.inj (Option.some.inj heq)
      exact hclean
  · rw [AtNumber, BinarySchemaParser.number]
    obtain ⟨found, s⟩ := readVaruint s
    cases found with
    | none => exact fun _ rest => iff_of_false nofun nofun
    | some x => exact fun hclean rest => (h x).eq_ok s (hclean x s rfl) rest

theorem repeated (h : Walks f P f') (n : ℕ) :
    Walks (repeatIgnore f n) (Repeated P f' n) (repeatBehind f' n) := by
  induction n with
  | zero => exact walks_ok id
  | succ n ih => exact h.bind ih

theorem items (h : Walks f P f') (nelements : UInt64) (maybeFixedSize : Option ℕ) :
    Walks (ignoreItems nelements maybeFixedSize f) (CleanItems nelements maybeFixedSize P f')
      (itemsBehind nelements maybeFixedSize f') := by
  cases maybeFixedSize with
  | none => exact h.repeated nelements.toNat
  | some size => exact walks_ignoreBytes (nelements * UInt64.ofNat size)

/-- The key of a map, and then the element. -/
theorem behindKey (h : Walks f P f') :
    Walks (fun s => do f (← readString s).2)
      (fun s => AtNumber (fun size _ => size.toNat ≤ Format.kMaxStringSize) s ∧ P (behindString s))
      (fun s => f' (behindString s)) where
  noFault s := by
    by_cases hsize : AtNumber (fun size _ => size.toNat ≤ Format.kMaxStringSize) s
    · obtain ⟨found, hread⟩ := readString_of_le hsize
      rw [hread, and_iff_right hsize]
      exact h.noFault _
    · rw [readString_of_not_le hsize]
      exact iff_of_false noFault_error.mp fun hclean => hsize hclean.1
  eq_ok s hclean rest := by
    obtain ⟨found, hread⟩ := readString_of_le hclean.1
    rw [hread]
    exact h.eq_ok _ hclean.2 rest

end Walks

theorem ignoreNth_length (children : List Element) (s : Bytes) :
    ignoreNth children children.length s = .error .pastTheEnd := by
  induction children with
  | nil => rw [List.length_nil, ignoreNth]
  | cons child children ih => rw [List.length_cons, ignoreNth, ih]

theorem nthBehind_of_length_lt {children : List Element} {index : ℕ}
    (h : children.length < index) (s : Bytes) :
    nthBehind children index s = none ∧ CleanNth children index s := by
  induction children generalizing index with
  | nil =>
    rw [nthBehind, CleanNth]
    exact ⟨rfl, trivial⟩
  | cons child children ih =>
    obtain ⟨index, rfl⟩ := Nat.exists_eq_succ_of_ne_zero (Nat.ne_of_gt (Nat.zero_lt_of_lt h))
    rw [nthBehind, CleanNth]
    exact ih (Nat.lt_of_succ_lt_succ h)

/-- The index of a union, checked as the code does: the number of the alternatives passes. -/
theorem walks_union {children : List Element} (index : UInt64)
    (h : index.toNat < children.length → Walks (ignoreNth children index.toNat)
      (CleanNth children index.toNat) (nthBehind children index.toNat)) :
    Walks (fun s => do
        if index.toNat > children.length then throw (.invalidUnionIndex index)
        ignoreNth children index.toNat s)
      (fun s => index.toNat ≠ children.length ∧ CleanNth children index.toNat s)
      (nthBehind children index.toNat) := by
  rcases lt_trichotomy index.toNat children.length with hlt | heq | hgt
  · have hindex : ¬index.toNat > children.length := Nat.not_lt.mpr hlt.le
    simp only [if_neg hindex, and_iff_right (Nat.ne_of_lt hlt)]
    exact h hlt
  · have hindex : ¬index.toNat > children.length := Nat.not_lt.mpr heq.le
    constructor
    · intro s
      rw [if_neg hindex]
      show NoFault (ignoreNth children index.toNat s) ↔ _
      rw [heq, ignoreNth_length, noFault_error]
      exact iff_of_false id fun hclean => hclean.1 rfl
    · exact fun s hclean => absurd heq hclean.1
  · constructor
    · intro s
      rw [if_pos hgt]
      exact iff_of_true (noFault_error.mpr trivial)
        ⟨Nat.ne_of_gt hgt, (nthBehind_of_length_lt hgt s).2⟩
    · intro s _ rest
      rw [if_pos hgt, (nthBehind_of_length_lt hgt s).1]
      exact iff_of_false nofun nofun

mutual

/-- **`Ignore` keeps to the format** on clean data, and on no other. -/
theorem Element.walks : (element : Element) → Walks element.ignore element.Clean element.behind
  | .mk _ _ (some size) _ => walks_drop size
  | .mk _ _ none shape => shape.walks

theorem Shape.walks : (shape : Shape) → Walks shape.ignore shape.Clean shape.behind
  | .final | .null | .boolean | .fixedInt _ | .fixedUInt _ | .float32 | .float64 | .timestamp
  | .duration => walks_assertion
  | .varint | .varuint => walks_ok fun s => (readVaruint s).2
  | .bytes | .string => Walks.number walks_ignoreBytes
  | .object _ fields => walks_fields fields
  | .enum child _ => child.walks
  | .array child => Walks.number fun n => child.walks.items n child.maybeFixedSize
  | .fixedArray n child => child.walks.items n child.maybeFixedSize
  | .map child => Walks.number fun n => child.walks.behindKey.repeated n.toNat
  | .union children => Walks.number fun index =>
    walks_union index fun h => walks_nth children index.toNat h
  | .unnamed _ => walks_ok id

theorem walks_fields : (fields : List Field) →
    Walks (ignoreFields fields) (CleanFields fields) (fieldsBehind fields)
  | [] => walks_ok id
  | .mk _ _ _ element _ :: fields => element.walks.bind (walks_fields fields)

theorem walks_nth : (children : List Element) → (index : ℕ) → index < children.length →
    Walks (ignoreNth children index) (CleanNth children index) (nthBehind children index)
  | [], _, h => nomatch h
  | child :: _, 0, _ => child.walks
  | _ :: children, index + 1, h => walks_nth children index (Nat.lt_of_succ_lt_succ h)

end

/-! ### Safety -/

/-- **`Ignore` is safe exactly on clean data.**  It ends at or behind the position that it began at
and within the data, or with an exception, exactly where no index of a union in its way is the
number of the alternatives, no size is 2^63 bytes or more, no key of a map is longer than
`kMaxStringSize` and no final element is to be stepped over. -/
theorem ignore_safe_iff (element : Element) (s : Bytes) :
    Safe s (element.ignore s) ↔ element.Clean s := by
  rw [← element.walks.noFault s]
  cases hignore : element.ignore s with
  | ok rest => exact iff_of_true (element.ignore_suffix s rest hignore) (noFault_ok rest)
  | error e => exact noFault_error.symm

/-- A union of a null and nothing else, as the schema says, with the index one of the data. -/
theorem not_ignore_safe :
    ∃ root, parse [21, 1, 0] [] = .ok root ∧ ¬Safe [1] (root.ignore [1]) := by
  refine ⟨_, rfl, ?_⟩
  exact fun h => h

end Mjlib.Telemetry.BinarySchemaParser
