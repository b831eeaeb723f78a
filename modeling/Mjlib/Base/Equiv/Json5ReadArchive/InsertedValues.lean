import Mjlib.Base.Equiv.Json5ReadArchive.InsertedTokens

/-!
# Values in a text with inserted blanks

Every reader of a value starts behind blanks (`Tight`) and ends where blanks are skipped next (`Loose`);
the readers of objects and arrays skip blanks first.  The loops have as much fuel as there is text, so
the second state has no less.
-/

namespace Mjlib.Base.Json5ReadArchive

variable {α β : Type} {w suf : Bytes} {s t : State}

theorem Tight.loose (h : Tight w suf s t) : Loose w suf s t := h.within.loose

/-- A token of punctuation that is there is taken. -/
theorem simulates_get_token {c : Option UInt8} (hc : ∃ d, c = some d ∧ IsPunctuation d)
    {f g : UInt8 → M α} {Q : α → State → State → Prop}
    (h : ∀ a, Simulates (Loose w suf) (f a) (g a) Q) :
    Simulates (At (Tight w suf) c) (get >>= f) (get >>= g) Q := by
  obtain ⟨d, rfl, hd⟩ := hc
  exact simulates_bind_of_eq (simulates_get_punctuation hd) (h d)

section
variable (hw : IsBlanks w)
include hw

/-! ### Values that are ignored -/

theorem simulates_ignoreArrayLoop {x y : M Unit}
    (h : Simulates (Tight w suf) x y fun _ => Loose w suf) : ∀ {m n : ℕ}, m ≤ n →
    Simulates (Loose w suf) (ignoreArrayLoop x m) (ignoreArrayLoop y n) fun _ => Loose w suf := by
  intro m
  induction m with
  | zero => exact fun _ => .of_error fun s => ⟨_, rfl⟩
  | succ m ih =>
    intro n hmn
    obtain ⟨n, rfl⟩ : ∃ k, n = k + 1 := ⟨n - 1, by omega⟩
    refine (simulates_ignoreWhitespace hw).bind fun _ => simulates_peek_tight fun c => ?_
    split_ifs with hend
    · exact simulates_get_token ⟨_, hend, by decide⟩ fun _ => .pure _ fun _ _ hst => hst
    refine (h.pre fun _ _ hst => hst.1).bind fun _ => ?_
    refine (simulates_ignoreWhitespace hw).bind fun _ => simulates_peek_tight fun c => ?_
    split_ifs with hcomma hend
    · exact simulates_get_token ⟨_, hcomma, by decide⟩ fun _ => ih (Nat.le_of_succ_le_succ hmn)
    · exact simulates_get_token ⟨_, hend, by decide⟩ fun _ => .pure _ fun _ _ hst => hst
    · exact .of_error fun s => ⟨_, rfl⟩

theorem simulates_ignoreArray {x y : M Unit}
    (h : Simulates (Tight w suf) x y fun _ => Loose w suf) :
    Simulates (Loose w suf) (ignoreArray x) (ignoreArray y) fun _ => Loose w suf := by
  refine (simulates_readLiteral_punctuation hw (by decide)).bind fun _ => ?_
  exact .of_forall (x := fun s => ignoreArrayLoop x (s.input.length + 1))
    (y := fun t => ignoreArrayLoop y (t.input.length + 1)) fun _ _ hst =>
      simulates_ignoreArrayLoop hw h (Nat.succ_le_succ hst.length_le)

theorem simulates_ignoreObjectLoop {x y : M Unit}
    (h : Simulates (Tight w suf) x y fun _ => Loose w suf) : ∀ {m n : ℕ}, m ≤ n →
    Simulates (Loose w suf) (ignoreObjectLoop x m) (ignoreObjectLoop y n) fun _ => Loose w suf := by
  intro m
  induction m with
  | zero => exact fun _ => .of_error fun s => ⟨_, rfl⟩
  | succ m ih =>
    intro n hmn
    obtain ⟨n, rfl⟩ : ∃ k, n = k + 1 := ⟨n - 1, by omega⟩
    refine (simulates_ignoreWhitespace hw).bind fun _ => simulates_peek_tight fun c => ?_
    split_ifs with hend
    · exact simulates_get_token ⟨_, hend, by decide⟩ fun _ => .pure _ fun _ _ hst => hst
    refine ((simulates_readMemberName hw).pre fun _ _ hst => hst.1.loose).bind fun _ => ?_
    refine ((simulates_ignoreWhitespace hw).pre fun _ _ hst => hst.loose).bind fun _ => ?_
    refine ((simulates_readLiteral_punctuation hw (by decide)).pre fun _ _ hst => hst.loose).bind
      fun _ => ?_
    refine (simulates_ignoreWhitespace hw).bind fun _ => h.bind fun _ => ?_
    refine (simulates_ignoreWhitespace hw).bind fun _ => simulates_peek_tight fun c => ?_
    split_ifs with hcomma hend
    · exact simulates_get_token ⟨_, hcomma, by decide⟩ fun _ => ih (Nat.le_of_succ_le_succ hmn)
    · exact simulates_get_token ⟨_, hend, by decide⟩ fun _ => .pure _ fun _ _ hst => hst
    · exact .of_error fun s => ⟨_, rfl⟩

theorem simulates_ignoreObject {x y : M Unit}
    (h : Simulates (Tight w suf) x y fun _ => Loose w suf) :
    Simulates (Loose w suf) (ignoreObject x) (ignoreObject y) fun _ => Loose w suf := by
  refine (simulates_readLiteral_punctuation hw (by decide)).bind fun _ => ?_
  exact .of_forall (x := fun s => ignoreObjectLoop x (s.input.length + 1))
    (y := fun t => ignoreObjectLoop y (t.input.length + 1)) fun _ _ hst =>
      simulates_ignoreObjectLoop hw h (Nat.succ_le_succ hst.length_le)

theorem simulates_ignoreValueLoop (permissiveNan : Bool) : ∀ {m n : ℕ}, m ≤ n →
    Simulates (Tight w suf) (ignoreValueLoop permissiveNan m) (ignoreValueLoop permissiveNan n)
      fun _ => Loose w suf := by
  intro m
  induction m with
  | zero => exact fun _ => .of_error fun s => ⟨_, rfl⟩
  | succ m ih =>
    intro n hmn
    obtain ⟨n, rfl⟩ : ∃ k, n = k + 1 := ⟨n - 1, by omega⟩
    -- what is in an array or an object is of a smaller depth
    have hvalue := ih (Nat.le_of_succ_le_succ hmn)
    have hword : ∀ {c : Option UInt8} {literal : Bytes}, (literal.all fun c => IsPlain c) →
        Simulates (At (Tight w suf) c) (readLiteral literal) (readLiteral literal)
          fun _ => Loose w suf := fun hplain =>
      ((simulates_readLiteral_plain hw hplain).pre fun _ _ hst => hst.1.loose).post
        fun _ _ _ hst => hst.loose
    refine simulates_peek_tight fun c => ?_
    split_ifs
    · exact (simulates_readString.pre fun _ _ hst => hst.1.within).bind fun _ =>
        .pure _ fun _ _ hst => hst.loose
    · exact (simulates_ignoreArray hw hvalue).pre fun _ _ hst => hst.1.loose
    · exact (simulates_ignoreObject hw hvalue).pre fun _ _ hst => hst.1.loose
    · exact hword (by decide)
    · exact hword (by decide)
    · exact hword (by decide)
    · exact ((simulates_readNumber hw permissiveNan).pre fun _ _ hst => hst.1.within).bind fun _ =>
        .pure _ fun _ _ hst => hst.loose

theorem simulates_ignoreValue (permissiveNan : Bool) :
    Simulates (Tight w suf) (ignoreValue permissiveNan) (ignoreValue permissiveNan)
      fun _ => Loose w suf :=
  .of_forall (x := fun s => ignoreValueLoop permissiveNan (s.input.length + 1))
    (y := fun t => ignoreValueLoop permissiveNan (t.input.length + 1)) fun _ _ hst =>
      simulates_ignoreValueLoop hw permissiveNan (Nat.succ_le_succ hst.length_le)

/-! ### Arrays -/

theorem simulates_skipComma :
    Simulates (Tight w suf) skipComma skipComma fun _ => Loose w suf := by
  refine simulates_peek_tight fun c => ?_
  split_ifs with hcomma
  · exact simulates_get_token ⟨_, hcomma, by decide⟩ fun _ => .pure _ fun _ _ hst => hst
  · exact .pure _ fun _ _ hst => hst.1.loose

theorem simulates_readArrayLoop {element : ℕ → β → M β}
    (h : ∀ pos values, Simulates (Tight w suf) (element pos values) (element pos values)
      fun _ => Loose w suf) : ∀ {m n : ℕ}, m ≤ n → ∀ (pos : ℕ) (values : β),
    Simulates (Loose w suf) (readArrayLoop element m pos values)
      (readArrayLoop element n pos values) fun _ => Loose w suf := by
  intro m
  induction m with
  | zero => exact fun _ _ _ => .of_error fun s => ⟨_, rfl⟩
  | succ m ih =>
    intro n hmn pos values
    obtain ⟨n, rfl⟩ : ∃ k, n = k + 1 := ⟨n - 1, by omega⟩
    refine (simulates_ignoreWhitespace hw).bind fun _ => simulates_peek_tight fun c => ?_
    split_ifs with hend
    · exact simulates_get_token ⟨_, hend, by decide⟩ fun _ => .pure _ fun _ _ hst => hst
    refine ((h pos values).pre fun _ _ hst => hst.1).bind fun values => ?_
    refine (simulates_ignoreWhitespace hw).bind fun _ => (simulates_skipComma hw).bind fun _ => ?_
    refine (simulates_ignoreWhitespace hw).bind fun _ => simulates_peek_tight fun c => ?_
    split_ifs with hend
    · exact simulates_get_token ⟨_, hend, by decide⟩ fun _ => .pure _ fun _ _ hst => hst
    · exact (ih (Nat.le_of_succ_le_succ hmn) _ _).pre fun _ _ hst => hst.1.loose

theorem simulates_readArray {element : ℕ → β → M β}
    (h : ∀ pos values, Simulates (Tight w suf) (element pos values) (element pos values)
      fun _ => Loose w suf) (values : β) :
    Simulates (Loose w suf) (readArray element values) (readArray element values)
      fun _ => Loose w suf := by
  refine (simulates_readLiteral_punctuation hw (by decide)).bind fun _ => ?_
  exact .of_forall (x := fun s => readArrayLoop element s.input.length 0 values)
    (y := fun t => readArrayLoop element t.input.length 0 values) fun _ _ hst =>
      simulates_readArrayLoop hw h hst.length_le 0 values

section
variable {read : α → M α}
  (h : ∀ old, Simulates (Tight w suf) (read old) (read old) fun _ => Loose w suf)
include h

theorem simulates_readVector (fresh : α) (values : List α) :
    Simulates (Loose w suf) (readVector read fresh values) (readVector read fresh values)
      fun _ => Loose w suf :=
  (simulates_readArray hw (fun _ _ => (h _).map _) values).map _

theorem simulates_readStdArray {n : ℕ} (values : Vector α n) :
    Simulates (Loose w suf) (readStdArray read values) (readStdArray read values)
      fun _ => Loose w suf := by
  have helement : ∀ (pos : ℕ) (values : Vector α n), Simulates (Tight w suf)
      (arrayElement read pos values) (arrayElement read pos values) fun _ => Loose w suf := by
    intro pos values
    unfold arrayElement
    split_ifs
    · exact (h _).map _
    · exact .of_error fun s => ⟨_, rfl⟩
  refine (simulates_readArray hw helement values).bind fun result => Stateless.simulates ?_
  dsimp only
  split_ifs
  · exact .error fun s => ⟨_, rfl⟩
  · exact .pure _

/-! ### Maps -/

theorem simulates_readMapLoop (fresh : α) : ∀ {m n : ℕ}, m ≤ n → ∀ value : SortedMap Bytes α,
    Simulates (Loose w suf) (readMapLoop read fresh m value) (readMapLoop read fresh n value)
      fun _ => Loose w suf := by
  intro m
  induction m with
  | zero => exact fun _ _ => .of_error fun s => ⟨_, rfl⟩
  | succ m ih =>
    intro n hmn value
    obtain ⟨n, rfl⟩ : ∃ k, n = k + 1 := ⟨n - 1, by omega⟩
    refine (simulates_ignoreWhitespace hw).bind fun _ => simulates_peek_tight fun c => ?_
    split_ifs with hend
    · exact ((simulates_readLiteral_punctuation hw (by decide)).pre fun _ _ hst =>
        hst.1.loose).bind fun _ => .pure _ fun _ _ hst => hst
    refine ((simulates_readMemberName hw).pre fun _ _ hst => hst.1.loose).bind fun name => ?_
    refine ((simulates_readLiteral_punctuation hw (by decide)).pre fun _ _ hst => hst.loose).bind
      fun _ => ?_
    refine (simulates_ignoreWhitespace hw).bind fun _ => (h fresh).bind fun item => ?_
    refine (simulates_ignoreWhitespace hw).bind fun _ => simulates_peek_tight fun c => ?_
    by_cases hcomma : c ≠ some 0x2c
    · rw [if_pos hcomma, if_pos hcomma]
      exact ((simulates_readLiteral_punctuation hw (by decide)).pre fun _ _ hst =>
        hst.1.loose).bind fun _ => .pure _ fun _ _ hst => hst
    · rw [if_neg hcomma, if_neg hcomma]
      exact ((simulates_readLiteral_punctuation hw (by decide)).pre fun _ _ hst =>
        hst.1.loose).bind fun _ => ih (Nat.le_of_succ_le_succ hmn) _

theorem simulates_readMap (fresh : α) (value : SortedMap Bytes α) :
    Simulates (Loose w suf) (readMap read fresh value) (readMap read fresh value)
      fun _ => Loose w suf := by
  refine (simulates_readLiteral_punctuation hw (by decide)).bind fun _ => ?_
  exact .of_forall (x := fun s => readMapLoop read fresh s.input.length ∅)
    (y := fun t => readMapLoop read fresh t.input.length ∅) fun _ _ hst =>
      simulates_readMapLoop hw h fresh hst.length_le ∅

end

/-! ### Objects -/

omit hw in
/-- At the value of a member, or behind the object. -/
def AtMember (w suf : Bytes) (currentFieldName : Option Bytes) : State → State → Prop :=
  currentFieldName.elim (Loose w suf) fun _ => Tight w suf

theorem simulates_prepareMember :
    Simulates (Loose w suf) prepareMember prepareMember (AtMember w suf) := by
  refine (simulates_ignoreWhitespace hw).bind fun _ => simulates_peek_tight fun c => ?_
  split_ifs
  · exact ((simulates_readLiteral_punctuation hw (by decide)).pre fun _ _ hst =>
      hst.1.loose).bind fun _ => .pure none fun _ _ hst => hst
  refine ((simulates_readMemberName hw).pre fun _ _ hst => hst.1.loose).bind fun name => ?_
  refine ((simulates_readLiteral_punctuation hw (by decide)).pre fun _ _ hst => hst.loose).bind
    fun _ => ?_
  exact (simulates_ignoreWhitespace hw).bind fun _ => .pure (some name) fun _ _ hst => hst

theorem simulates_finishMember :
    Simulates (Loose w suf) finishMember finishMember (AtMember w suf) := by
  refine (simulates_ignoreWhitespace hw).bind fun _ => simulates_peek_tight fun c => ?_
  split_ifs with hcomma
  · exact ((simulates_readLiteral_punctuation hw (by decide)).pre fun _ _ hst =>
      hst.1.loose).bind fun _ => .pure none fun _ _ hst => hst
  · exact simulates_get_token ⟨_, not_not.mp hcomma, by decide⟩ fun _ =>
      simulates_prepareMember hw

section
variable {fields : List (Field α)}
  (h : ∀ field ∈ fields, ∀ old, Simulates (Tight w suf) (field.read old) (field.read old)
    fun _ => Loose w suf)
include h

theorem simulates_visit {field : Field α} (hfield : field ∈ fields) (name : Bytes)
    (progress : Progress α) :
    Simulates (fun s t => AtMember w suf progress.currentFieldName s t ∧
        (progress.anyFound = false → progress.currentFieldName = some name))
      (visit progress field) (visit progress field) fun progress s t =>
        AtMember w suf progress.currentFieldName s t ∧
          (progress.anyFound = false → progress.currentFieldName = some name) := by
  unfold visit
  split_ifs with hname
  · exact .pure _ fun _ _ hst => hst
  · rw [not_not.mp hname]
    refine ((h field hfield progress.value).pre fun _ _ hst => hst.1).bind fun value => ?_
    exact (simulates_finishMember hw).bind fun next => .pure _ fun _ _ hst => ⟨hst, nofun⟩

theorem simulates_acceptLoop (permissiveNan : Bool) : ∀ {m n : ℕ}, m ≤ n →
    ∀ (value : α) (currentFieldName : Option Bytes),
    Simulates (AtMember w suf currentFieldName)
      (acceptLoop permissiveNan fields m value currentFieldName)
      (acceptLoop permissiveNan fields n value currentFieldName) fun _ => Loose w suf := by
  intro m
  induction m with
  | zero =>
    intro n _ value currentFieldName
    cases currentFieldName with
    | none =>
      cases n <;> exact .pure value fun _ _ hst => hst
    | some name => exact .of_error fun s => ⟨_, rfl⟩
  | succ m ih =>
    intro n hmn value currentFieldName
    obtain ⟨n, rfl⟩ : ∃ k, n = k + 1 := ⟨n - 1, by omega⟩
    have hmn' := Nat.le_of_succ_le_succ hmn
    cases currentFieldName with
    | none => exact .pure value fun _ _ hst => hst
    | some name =>
      have hpass := Simulates.foldlM (fun field hfield progress =>
        simulates_visit hw h hfield name progress) ⟨value, some name, false⟩
      refine (hpass.pre fun _ _ hst => ⟨hst, fun _ => rfl⟩).bind fun progress => ?_
      split_ifs with hfound
      · exact (ih hmn' _ _).pre fun _ _ hst => hst.1
      · refine .of_pre (fun _ _ hst => hst.2 (Bool.not_eq_true _ ▸ hfound)) fun hname => ?_
        rw [hname]
        refine ((simulates_ignoreValue hw permissiveNan).pre fun _ _ hst => hst.1).bind fun _ => ?_
        exact (simulates_finishMember hw).bind fun next => ih hmn' _ next

omit hw h in
theorem AtMember.length_le {currentFieldName : Option Bytes}
    (h : AtMember w suf currentFieldName s t) : s.input.length ≤ t.input.length := by
  cases currentFieldName with
  | none => exact Inserted.length_le h
  | some name => exact Inserted.length_le h

theorem simulates_accept (permissiveNan : Bool) (value : α) :
    Simulates (Loose w suf) (accept permissiveNan fields value) (accept permissiveNan fields value)
      fun _ => Loose w suf := by
  refine (simulates_readLiteral_punctuation hw (by decide)).bind fun _ => ?_
  refine (simulates_prepareMember hw).bind fun currentFieldName => ?_
  exact .of_forall (x := fun s => acceptLoop permissiveNan fields s.input.length value currentFieldName)
    (y := fun t => acceptLoop permissiveNan fields t.input.length value currentFieldName)
    fun _ _ hst => simulates_acceptLoop hw h permissiveNan hst.length_le value currentFieldName

omit hw h in
/-- The relation is about the texts that are left. -/
theorem Inserted.congr {ahead : Bytes → Prop} {s' t' : State} (h : Inserted w suf ahead s t)
    (hs : s'.input = s.input) (ht : t'.input = t.input) : Inserted w suf ahead s' t' := by
  cases h with
  | behind h => exact .behind (by rw [hs, ht, h])
  | ahead left hsleft htleft hleft => exact .ahead left (hs.trans hsleft) (ht.trans htleft) hleft

theorem simulates_visitSerializable (permissiveNan : Bool) (value : α) :
    Simulates (Loose w suf) (visitSerializable permissiveNan fields value)
      (visitSerializable permissiveNan fields value) fun _ => Loose w suf := by
  intro s t hst a s' hok
  unfold visitSerializable at hok
  split at hok
  · exact nomatch hok
  · rename_i value' s₁ haccept
    cases hok
    obtain ⟨t₁, haccept', hst₁⟩ := simulates_accept hw h permissiveNan value
      { input := s.input } { input := t.input } (hst.congr rfl rfl) _ _ haccept
    refine ⟨{ t with input := t₁.input }, ?_, hst₁.congr rfl rfl⟩
    unfold visitSerializable
    rw [haccept']

end

/-! ### Every type -/

omit hw in
/-- The text starts with an object or an array. -/
def StartsContainer (text : Bytes) : Prop :=
  ∃ c rest, skipBlanks .code text = some (c :: rest) ∧ (c = 0x7b ∨ c = 0x5b)

omit hw in
theorem StartsContainer.head?_ne {text : Bytes} (h : StartsContainer text) :
    text.head? ≠ some 0x6e := by
  intro hhead
  obtain ⟨rest, rfl⟩ := List.head?_eq_some_iff.mp hhead
  obtain ⟨c, left, hskip, hc⟩ := h
  have hstops : skipBlanks .code (0x6e :: rest) = some (0x6e :: rest) := rfl
  obtain ⟨rfl, -⟩ := List.cons.inj (Option.some.inj (hstops.symm.trans hskip))
  exact absurd hc (by decide)

/-- With blanks in front of it, an object or array is not taken for `null` either. -/
theorem Loose.head?_ne (hst : Loose w suf s t) (h : StartsContainer s.input) :
    t.input.head? ≠ some 0x6e := by
  cases hst with
  | behind heq => exact heq ▸ h.head?_ne
  | ahead left hs ht hleft =>
    rw [ht]
    cases left with
    -- the blanks are in front of the bracket, and do not start with an `n`
    | nil =>
      obtain ⟨d, hd, hblank⟩ := hw.head?
      rw [List.nil_append, List.head?_append, hd]
      rintro heq
      obtain rfl := Option.some.inj heq
      exact absurd hblank (by decide)
    | cons c left =>
      have hne := h.head?_ne
      rw [hs] at hne
      exact hne

section
variable {read : α → M α}

theorem simulates_readOptional
    (h : ∀ old, Simulates (Tight w suf) (read old) (read old) fun _ => Loose w suf) (fresh : α)
    (value : Option α) :
    Simulates (Tight w suf) (readOptional read fresh value) (readOptional read fresh value)
      fun _ => Loose w suf := by
  refine simulates_peek_tight fun c => ?_
  split_ifs
  · refine ((simulates_readLiteral_plain hw (by decide)).pre fun _ _ hst => hst.1.loose).bind
      fun _ => .pure none fun _ _ hst => hst.loose
  · exact ((h _).map some).pre fun _ _ hst => hst.1

omit hw in
theorem readOptional_of_head?_ne (fresh : α) (value : Option α) (hs : s.input.head? ≠ some 0x6e) :
    readOptional read fresh value s = (do return some (← read (value.getD fresh)) : M _) s := by
  show (if s.input.head? = some 0x6e then _ else _ : M _) s = _
  rw [if_neg hs]

theorem simulates_readOptional_container
    (h : ∀ old, Simulates (fun s t => Loose w suf s t ∧ StartsContainer s.input) (read old)
      (read old) fun _ => Loose w suf) (fresh : α) (value : Option α) :
    Simulates (fun s t => Loose w suf s t ∧ StartsContainer s.input)
      (readOptional read fresh value) (readOptional read fresh value) fun _ => Loose w suf := by
  intro s t hst a s' hok
  rw [readOptional_of_head?_ne fresh value hst.2.head?_ne] at hok
  rw [readOptional_of_head?_ne fresh value (hst.1.head?_ne hw hst.2)]
  exact (h _).map some s t hst a s' hok

end

omit hw in
/-- A value is read behind blanks, and an object or array also with blanks in front of it. -/
structure ReadsAlike (w suf : Bytes) (nested : Bool) (read : α → M α) : Prop where
  tight : ∀ old, Simulates (Tight w suf) (read old) (read old) fun _ => Loose w suf
  container : nested = true → ∀ old,
    Simulates (fun s t => Loose w suf s t ∧ StartsContainer s.input) (read old) (read old)
      fun _ => Loose w suf

omit hw in
theorem ReadsAlike.of_tight {read : α → M α}
    (h : ∀ old, Simulates (Tight w suf) (read old) (read old) fun _ => Within w suf .code) :
    ReadsAlike w suf false read :=
  ⟨fun old => (h old).post fun _ _ _ hst => hst.loose, nofun⟩

omit hw in
theorem ReadsAlike.of_within {read : α → M α}
    (h : ∀ old, Simulates (Within w suf .code) (read old) (read old) fun _ => Within w suf .code) :
    ReadsAlike w suf false read :=
  .of_tight fun old => (h old).pre fun _ _ hst => hst.within

omit hw in
theorem ReadsAlike.of_loose {read : α → M α} {nested : Bool}
    (h : ∀ old, Simulates (Loose w suf) (read old) (read old) fun _ => Loose w suf) :
    ReadsAlike w suf nested read :=
  ⟨fun old => (h old).pre fun _ _ hst => hst.loose, fun _ old => (h old).pre fun _ _ hst => hst.1⟩

/-- **Every reader** reads the same value with and without the blanks. -/
theorem readsAlike {permissiveNan nested : Bool} {read : α → M α}
    (h : IsReader permissiveNan nested read) : ReadsAlike w suf nested read := by
  induction h with
  | bool => exact .of_tight (simulates_readBool hw)
  | integer t => exact .of_within fun _ => simulates_readInteger hw permissiveNan t
  | float F => exact .of_within (simulates_readFloat hw permissiveNan F)
  | parsed parse => exact .of_within (simulates_readParsed parse)
  | enumeration enumerationMapper => exact .of_within (simulates_readEnumeration enumerationMapper)
  | optional fresh h ih =>
    exact ⟨fun old => simulates_readOptional hw ih.tight fresh old,
      fun hnested old => simulates_readOptional_container hw (ih.container hnested) fresh old⟩
  | vector fresh h ih => exact .of_loose (simulates_readVector hw ih.tight fresh)
  | array n h ih => exact .of_loose (simulates_readStdArray hw ih.tight)
  | map fresh h ih => exact .of_loose (simulates_readMap hw ih.tight fresh)
  | via get set h ih =>
    exact ⟨fun old => (ih.tight _).map _, fun hnested old => (ih.container hnested _).map _⟩
  | serializable fields nested h ih =>
    exact .of_loose (simulates_visitSerializable hw (fun field hfield => (ih field hfield).tight)
      permissiveNan)

end

end Mjlib.Base.Json5ReadArchive
