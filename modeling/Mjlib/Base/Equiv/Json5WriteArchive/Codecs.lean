import Mathlib
import Mjlib.Base.Equiv.Json5ReadArchive.Vectors
import Mjlib.Base.Equiv.Json5WriteArchive.Tokens

/-!
# Writers and readers of the same type

A `Codec` is a writer and a reader of a C++ type, with what becomes of a value that a written one is
read into, and the values that are carried over.  `Codec.Correct` says that what is written is read;
it holds of the scalars, and each container keeps it.
-/

namespace Mjlib.Base.Json5WriteArchive

open Json5ReadArchive

variable {α β : Type} {s : State} {rest rest' blanks : Bytes} {c : UInt8}
  {permissiveNan standard : Bool}

/-! ### Codecs -/

/-- A writer and a reader of a type. -/
structure Codec (α : Type) where
  write : Writer α
  read : α → M α
  /-- What becomes of a value that a written one is read into. -/
  merge : (value previous : α) → α
  /-- The values that are carried over. -/
  Carried : α → Prop
  /-- The written value is what becomes of the other one. -/
  Exact : (value previous : α) → Prop
  /-- The values whose texts are JSON, and not only JSON5. -/
  Valid : α → Prop

namespace Codec

/-- `bool`. -/
def bool : Codec Bool where
  write := writeBool
  read := readBool
  merge value _ := value
  Carried _ := True
  Exact _ _ := True
  Valid _ := True

/-- An integer of a type. -/
def integer (permissiveNan : Bool) (t : IntType) : Codec ℤ where
  write := writeInteger
  read _ := readInteger permissiveNan t
  merge value _ := value
  Carried value := t.min ≤ value ∧ value ≤ t.max
  Exact _ _ := True
  Valid _ := True

/-- `float` and `double`.  Of a number that is not finite, its kind is carried over. -/
def float (permissiveNan standard : Bool) (F : FloatType) (formatted : FormattedFloat F.Value) :
    Codec F.Value where
  write := writeFloat formatted
  read := readFloat permissiveNan F
  merge value _ :=
    match formatted.classify value with
    | .finite => value
    | .infinity => F.infinity
    | .negInfinity => F.negInfinity
    | .nan => F.quietNan
  Carried value :=
    match formatted.classify value with
    | .finite => (∃ f : FloatText, formatted.format value = f.text) ∧
        F.stod (formatted.format value) = .ok value
    | .infinity => standard = false
    | .negInfinity => standard = false
    | .nan => standard = true → permissiveNan = true
  Exact value _ :=
    match formatted.classify value with
    | .finite => True
    | .infinity => F.infinity = value
    | .negInfinity => F.negInfinity = value
    | .nan => F.quietNan = value
  Valid value :=
    match formatted.classify value with
    | .finite => ∃ f : FloatText, formatted.format value = f.text
    | _ => standard = true

/-- `std::string`. -/
def string : Codec Bytes where
  write _ value := some (writeString value)
  read := readParsed .ok
  merge value _ := value
  Carried value := ∀ c ∈ value, Readable c
  Exact _ _ := True
  Valid value := ∀ c ∈ value, HasEscape c ∨ 0x20 ≤ c

/-- A time, of which `format` makes a text, and `parse` of the text a time. -/
def formatted (format : α → Bytes) (parse : Bytes → Except Failure α) : Codec α where
  write := writeFormatted format
  read := readParsed parse
  merge value _ := value
  Carried value := (∀ c ∈ format value, Plain c) ∧ parse (format value) = .ok value
  Exact _ _ := True
  Valid value := ∀ c ∈ format value, Json.IsPlain c

/-- An enumeration. -/
def enumeration [DecidableEq α] (enumerationMapper : List (α × Bytes)) : Codec α where
  write := writeEnumeration enumerationMapper
  read := readEnumeration enumerationMapper
  merge value _ := value
  Carried value := ∀ pair ∈ enumerationMapper.find? fun pair => pair.1 = value,
    (∀ c ∈ pair.2, Plain c) ∧
      (enumerationMapper.find? fun other => other.2 = pair.2).map Prod.fst = some value
  Exact _ _ := True
  Valid value := ∀ pair ∈ enumerationMapper.find? fun pair => pair.1 = value,
    ∀ c ∈ pair.2, Json.IsPlain c

/-- `std::optional`; a value must not be written as if there was none. -/
def optional (standard : Bool) (fresh : α) (codec : Codec α) : Codec (Option α) where
  write := writeOptional codec.write
  read := readOptional codec.read fresh
  merge value previous := value.map fun value => codec.merge value (previous.getD fresh)
  Carried value := ∀ held ∈ value, codec.Carried held ∧
    ∀ options text, options.standard = standard → codec.write options held = some text →
      text.head? ≠ some 0x6e
  Exact value previous := ∀ held ∈ value, codec.Exact held (previous.getD fresh)
  Valid value := ∀ held ∈ value, codec.Valid held

/-- What becomes of the elements of a vector: each is read into the one that was there, or into a
fresh one, and what is behind the last one stays. -/
def mergeItems (fresh : α) (merge : α → α → α) : List α → List α → List α
  | [], previous => previous
  | value :: values, previous =>
    merge value (previous.headD fresh) :: mergeItems fresh merge values previous.tail

/-- The vector has no more elements than are written. -/
def ExactItems (fresh : α) (Exact : α → α → Prop) : List α → List α → Prop
  | [], previous => previous = []
  | value :: values, previous =>
    Exact value (previous.headD fresh) ∧ ExactItems fresh Exact values previous.tail

/-- `std::vector`. -/
def vector (fresh : α) (codec : Codec α) : Codec (List α) where
  write := writeArray codec.write
  read := readVector codec.read fresh
  merge := mergeItems fresh codec.merge
  Carried values := ∀ value ∈ values, codec.Carried value
  Exact := ExactItems fresh codec.Exact
  Valid values := ∀ value ∈ values, codec.Valid value

/-- `std::array`. -/
def array (n : ℕ) (codec : Codec α) : Codec (Vector α n) where
  write := visitArray codec.write
  read := readStdArray codec.read
  merge values previous := Vector.ofFn fun i => codec.merge values[i] previous[i]
  Carried values := ∀ value ∈ values.toList, codec.Carried value
  Exact values previous := ∀ i : Fin n, codec.Exact values[i] previous[i]
  Valid values := ∀ value ∈ values.toList, codec.Valid value

/-- A value that goes by way of another one. -/
def via (get : β → α) (set : β → α → β) (codec : Codec α) : Codec β where
  write := writeVia codec.write get
  read := readVia codec.read get set
  merge value previous := set previous (codec.merge (get value) (get previous))
  Carried value := codec.Carried (get value)
  Exact value previous :=
    set previous (get value) = value ∧ codec.Exact (get value) (get previous)
  Valid value := codec.Valid (get value)

end Codec

/-- A field that `Serialize` visits. -/
structure Member (α : Type) where
  name : Bytes
  {field : Type}
  get : α → field
  set : α → field → α
  codec : Codec field

namespace Member

/-- The field of the writer. -/
def written (m : Member α) : Field α := ⟨m.name, writeVia m.codec.write m.get⟩

/-- The field of the reader. -/
def read (m : Member α) : Json5ReadArchive.Field α := ⟨m.name, readVia m.codec.read m.get m.set⟩

/-- What becomes of an object that a field is read into. -/
def merge (value : α) (previous : α) (m : Member α) : α :=
  m.set previous (m.codec.merge (m.get value) (m.get previous))

end Member

/-- The fields are different parts of an object, and all of it. -/
structure IsClass (members : List (Member α)) : Prop where
  get_set : ∀ m ∈ members, ∀ object field, m.get (m.set object field) = field
  disjoint : members.Pairwise fun m m' =>
    (∀ object field, m'.get (m.set object field) = m'.get object) ∧
      ∀ object field, m.get (m'.set object field) = m.get object
  ext : ∀ object object' : α, (∀ m ∈ members, m.get object = m.get object') → object = object'

/-- A class with its fields. -/
def Codec.serializable (permissiveNan : Bool) (members : List (Member α)) : Codec α where
  write := visitSerializable (members.map Member.written)
  read := Json5ReadArchive.visitSerializable permissiveNan (members.map Member.read)
  merge value previous := members.foldl (Member.merge value) previous
  Carried value := ∀ m ∈ members, (∀ c ∈ m.name, Plain c) ∧ m.codec.Carried (m.get value)
  Exact value previous :=
    IsClass members ∧ ∀ m ∈ members, m.codec.Exact (m.get value) (m.get previous)
  Valid value := ∀ m ∈ members, (∀ c ∈ m.name, Json.IsPlain c) ∧ m.codec.Valid (m.get value)

/-- The codecs that the two archives have for C++ types. -/
inductive IsCodec (permissiveNan standard : Bool) : {α : Type} → Codec α → Prop
  | bool : IsCodec permissiveNan standard Codec.bool
  | integer (t : IntType) : IsCodec permissiveNan standard (Codec.integer permissiveNan t)
  | float (F : FloatType) (formatted : FormattedFloat F.Value) :
      IsCodec permissiveNan standard (Codec.float permissiveNan standard F formatted)
  | string : IsCodec permissiveNan standard Codec.string
  | formatted {α : Type} (format : α → Bytes) (parse : Bytes → Except Failure α) :
      IsCodec permissiveNan standard (Codec.formatted format parse)
  | enumeration {α : Type} [DecidableEq α] (enumerationMapper : List (α × Bytes)) :
      IsCodec permissiveNan standard (Codec.enumeration enumerationMapper)
  | optional {α : Type} {codec : Codec α} (fresh : α) (h : IsCodec permissiveNan standard codec) :
      IsCodec permissiveNan standard (Codec.optional standard fresh codec)
  | vector {α : Type} {codec : Codec α} (fresh : α) (h : IsCodec permissiveNan standard codec) :
      IsCodec permissiveNan standard (Codec.vector fresh codec)
  | array {α : Type} {codec : Codec α} (n : ℕ) (h : IsCodec permissiveNan standard codec) :
      IsCodec permissiveNan standard (Codec.array n codec)
  | via {α β : Type} {codec : Codec α} (get : β → α) (set : β → α → β)
      (h : IsCodec permissiveNan standard codec) :
      IsCodec permissiveNan standard (Codec.via get set codec)
  | serializable {α : Type} (members : List (Member α))
      (h : ∀ m ∈ members, IsCodec permissiveNan standard m.codec) :
      IsCodec permissiveNan standard (Codec.serializable permissiveNan members)

/-- What is written is read. -/
structure Codec.Correct (standard : Bool) (codec : Codec α) : Prop where
  starts : ∀ {options value text}, options.standard = standard → codec.Carried value →
    codec.write options value = some text → Starts text
  reads : ∀ {options value text rest s} (previous : α), options.standard = standard →
    codec.Carried value → codec.write options value = some text → Stops rest →
    s.input = text ++ rest → Reads (codec.read previous) s (codec.merge value previous) rest
  merge_eq : ∀ {value previous}, codec.Exact value previous → codec.merge value previous = value

/-! ### Scalars -/

namespace Codec

theorem correct_bool (standard : Bool) : bool.Correct standard where
  starts := by
    intro options value text _ _ hwrite
    cases hwrite
    cases value with
    | false => exact starts_cons (by decide)
    | true => exact starts_cons (by decide)
  reads := by
    intro options value text rest s previous _ _ hwrite _ hs
    cases hwrite
    show Reads (readBool previous) s value rest
    unfold readBool
    refine (reads_peek hs).bind fun s hs => ?_
    cases value with
    | false =>
      rw [if_neg Bool.false_ne_true] at hs
      rw [if_neg (by simp), if_pos (by simp)]
      exact (reads_literal _ hs (by decide)).bind fun s hs => reads_pure hs
    | true =>
      rw [if_pos rfl] at hs
      rw [if_pos (by simp)]
      exact (reads_literal _ hs (by decide)).bind fun s hs => reads_pure hs
  merge_eq _ := rfl

theorem starts_digit (h : isDigit 10 c = true ∨ c = 0x2d) : ¬StartsBlank c ∧ c ≠ 0x5d := by
  rcases h with h | rfl
  · have hc : 0x30 ≤ c ∧ c ≤ 0x39 := of_decide_eq_true ((isDigit_eq c).1 ▸ h)
    have hall : ∀ n : Fin 256, 0x30 ≤ UInt8.ofNat n.val ∧ UInt8.ofNat n.val ≤ 0x39 →
        ¬StartsBlank (UInt8.ofNat n.val) ∧ UInt8.ofNat n.val ≠ 0x5d := by decide +kernel
    have hcase := hall ⟨c.toNat, c.toNat_lt⟩
    rw [UInt8.ofNat_toNat] at hcase
    exact hcase hc
  · decide

theorem correct_integer (standard permissiveNan : Bool) (t : IntType) :
    (integer permissiveNan t).Correct standard where
  starts := by
    intro options value text _ _ hwrite
    cases hwrite
    unfold formatInt
    split_ifs
    · exact starts_cons (by decide)
    · obtain ⟨d, ds, hds⟩ := List.exists_cons_of_ne_nil (decimal_ne_nil value.natAbs)
      rw [hds]
      refine starts_cons (starts_digit (Or.inl (isDigit_decimal value.natAbs d ?_)))
      rw [hds]
      exact List.mem_cons_self
  reads := by
    intro options value text rest s previous _ hcarried hwrite hrest hs
    cases hwrite
    exact reads_readInteger hcarried hrest hs
  merge_eq _ := rfl

/-- A text without a word for a number that is not finite is converted by the C library. -/
theorem reads_toFloat {F : FloatType} {f : FloatText} {value : F.Value}
    (hstod : F.stod f.text = .ok value) (hs : s.input = rest) :
    Reads (toFloat F f.text) s value rest := by
  obtain ⟨d, tail, htext, hd, hminus⟩ := f.starts_text
  have hne : ∀ word : Bytes, (∀ c ∈ word.head?, isDigit 10 c = false ∧ c ≠ 0x2d) →
      f.text ≠ word := by
    intro word hword h
    rw [← h, htext] at hword
    obtain ⟨hdigit, hsign⟩ := hword d rfl
    rcases hd with hd | hd
    · rw [hdigit] at hd
      exact Bool.false_ne_true hd
    · exact hsign hd
  have hneg : f.text ≠ 0x2d :: [0x49, 0x6e, 0x66, 0x69, 0x6e, 0x69, 0x74, 0x79] := by
    intro h
    rw [htext] at h
    obtain ⟨hhead, htail⟩ := List.cons.inj h
    obtain ⟨d', tail', htail', hd'⟩ := hminus hhead
    rw [htail'] at htail
    rw [(List.cons.inj htail).1] at hd'
    exact absurd hd' (by decide)
  unfold toFloat
  dsimp only
  rw [if_neg (not_or_intro (hne _ (by simp; decide)) (hne _ (by simp; decide))), if_neg hneg,
    if_neg (hne _ (by simp; decide)), hstod]
  exact reads_pure hs

/-- A word for a number that is not finite is a number's text. -/
theorem reads_word {word : Bytes} (hword : word = [0x49, 0x6e, 0x66, 0x69, 0x6e, 0x69, 0x74, 0x79] ∨
    word = [0x4e, 0x61, 0x4e]) (hs : s.input = word ++ rest) :
    Reads (readNumericLiteral permissiveNan) s ⟨word, 0⟩ rest := by
  unfold readNumericLiteral
  refine (reads_peek hs).bind fun s hs => ?_
  rcases hword with rfl | rfl
  · rw [if_pos (by simp)]
    exact (reads_literal _ hs (by decide)).bind fun s hs => reads_pure hs
  · rw [if_neg (by simp), if_pos (by simp)]
    exact (reads_literal _ hs (by decide)).bind fun s hs => reads_pure hs

theorem reads_readNumber_of_head {number : Number}
    (hne : s.input.head? ≠ some 0x2b ∧ s.input.head? ≠ some 0x2d)
    (h : Reads (readNumericLiteral permissiveNan) s number rest) :
    Reads (readNumber permissiveNan) s number rest := by
  have hpeek : peek s = .ok (s.input.head?, s) := rfl
  refine Reads.congr h ?_
  rw [readNumber, bind_ok hpeek, if_neg (not_or_intro hne.1 hne.2)]

theorem correct_float (standard permissiveNan : Bool) (F : FloatType)
    (formatted : FormattedFloat F.Value) :
    (float permissiveNan standard F formatted).Correct standard where
  starts := by
    intro options value text hstandard hcarried hwrite
    dsimp only [float] at hcarried hwrite
    unfold writeFloat at hwrite
    dsimp only at hwrite
    cases hclass : formatted.classify value with
    | finite =>
      rw [hclass] at hcarried hwrite
      cases hwrite
      obtain ⟨⟨f, hf⟩, -⟩ := hcarried
      obtain ⟨d, tail, htext, hd, -⟩ := f.starts_text
      rw [hf, htext]
      exact starts_cons (starts_digit hd)
    | infinity | negInfinity | nan =>
      rw [hclass] at hwrite
      cases hwrite
      split_ifs
      · exact starts_cons (by decide)
      · exact starts_cons (by decide)
  reads := by
    intro options value text rest s previous hstandard hcarried hwrite hrest hs
    dsimp only [float] at hcarried hwrite ⊢
    unfold writeFloat at hwrite
    dsimp only at hwrite
    unfold readFloat
    cases hclass : formatted.classify value with
    | finite =>
      rw [hclass] at hcarried hwrite
      cases hwrite
      obtain ⟨⟨f, hf⟩, hstod⟩ := hcarried
      rw [hf] at hs hstod
      exact (FloatText.reads_readNumber hrest hs).bind fun s hs => reads_toFloat hstod hs
    | infinity =>
      rw [hclass] at hcarried hwrite
      dsimp only at hcarried hwrite ⊢
      rw [hstandard, hcarried, if_neg Bool.false_ne_true] at hwrite
      cases hwrite
      have hne : s.input.head? ≠ some 0x2b ∧ s.input.head? ≠ some 0x2d := by
        rw [hs]
        exact ⟨by simp, by simp⟩
      exact (reads_readNumber_of_head hne (reads_word (Or.inl rfl) hs)).bind fun s hs =>
        reads_pure hs
    | negInfinity =>
      rw [hclass] at hcarried hwrite
      dsimp only at hcarried hwrite ⊢
      rw [hstandard, hcarried, if_neg Bool.false_ne_true] at hwrite
      cases hwrite
      have hread : Reads (readNumber permissiveNan) s
          ⟨[0x2d, 0x49, 0x6e, 0x66, 0x69, 0x6e, 0x69, 0x74, 0x79], 0⟩ rest := by
        unfold readNumber
        refine (reads_peek hs).bind fun s hs => ?_
        rw [if_pos (by simp)]
        exact (reads_get hs).bind fun s hs =>
          (reads_word (Or.inl rfl) hs).bind fun s hs => reads_pure hs
      exact hread.bind fun s hs => reads_pure hs
    | nan =>
      rw [hclass] at hcarried hwrite
      dsimp only at hcarried hwrite ⊢
      have hread : Reads (readNumber permissiveNan) s ⟨[0x4e, 0x61, 0x4e], 0⟩ rest := by
        cases hnull : options.standard with
        | false =>
          rw [hnull, if_neg Bool.false_ne_true] at hwrite
          cases hwrite
          have hne : s.input.head? ≠ some 0x2b ∧ s.input.head? ≠ some 0x2d := by
            rw [hs]
            exact ⟨by simp, by simp⟩
          exact reads_readNumber_of_head hne (reads_word (Or.inr rfl) hs)
        | true =>
          rw [hnull, if_pos rfl] at hwrite
          cases hwrite
          have hne : s.input.head? ≠ some 0x2b ∧ s.input.head? ≠ some 0x2d := by
            rw [hs]
            exact ⟨by simp, by simp⟩
          refine reads_readNumber_of_head hne ?_
          have hpermissive := hcarried (hstandard.symm.trans hnull)
          unfold readNumericLiteral
          refine (reads_peek hs).bind fun s hs => ?_
          rw [if_neg (by simp), if_neg (by simp), if_pos ⟨hpermissive, by simp⟩]
          exact (reads_literal _ hs (by decide)).bind fun s hs =>
            reads_pure hs
      exact hread.bind fun s hs => reads_pure hs
  merge_eq := by
    intro value previous hexact
    dsimp only [float] at hexact ⊢
    cases hclass : formatted.classify value with
    | finite => rfl
    | infinity | negInfinity | nan =>
      rw [hclass] at hexact
      exact hexact

theorem correct_string (standard : Bool) : string.Correct standard where
  starts := by
    intro options value text _ _ hwrite
    cases hwrite
    exact starts_cons (by decide)
  reads := by
    intro options value text rest s previous _ hcarried hwrite _ hs
    cases hwrite
    exact (reads_readString hcarried hs).bind fun s hs => reads_pure hs
  merge_eq _ := rfl

theorem correct_formatted (standard : Bool) (format : α → Bytes)
    (parse : Bytes → Except Failure α) : (formatted format parse).Correct standard where
  starts := by
    intro options value text _ _ hwrite
    cases hwrite
    exact starts_cons (by decide)
  reads := by
    intro options value text rest s previous _ hcarried hwrite _ hs
    obtain ⟨hplain, hparse⟩ := hcarried
    cases hwrite
    rw [← writeString_of_not fun c hc => (hplain c hc).2] at hs
    refine (reads_readString (fun c hc => (hplain c hc).1) hs).bind fun s hs => ?_
    rw [hparse]
    exact reads_pure hs
  merge_eq _ := rfl

theorem correct_enumeration (standard : Bool) [DecidableEq α]
    (enumerationMapper : List (α × Bytes)) : (enumeration enumerationMapper).Correct standard where
  starts := by
    intro options value text _ _ hwrite
    obtain ⟨pair, -, rfl⟩ := Option.map_eq_some_iff.mp hwrite
    exact starts_cons (by decide)
  reads := by
    intro options value text rest s previous _ hcarried hwrite _ hs
    obtain ⟨pair, hpair, rfl⟩ := Option.map_eq_some_iff.mp hwrite
    obtain ⟨hplain, hname⟩ := hcarried pair hpair
    obtain ⟨other, hother, hvalue⟩ := Option.map_eq_some_iff.mp hname
    rw [← writeString_of_not fun c hc => (hplain c hc).2] at hs
    refine (reads_readString (fun c hc => (hplain c hc).1) hs).bind fun s hs => ?_
    rw [hother, ← hvalue]
    exact reads_pure hs
  merge_eq _ := rfl

end Codec

/-! ### Optional values -/

theorem Codec.correct_optional {codec : Codec α} (h : codec.Correct standard) (fresh : α) :
    (Codec.optional standard fresh codec).Correct standard where
  starts := by
    intro options value text hstandard hcarried hwrite
    cases value with
    | none =>
      cases hwrite
      exact starts_cons (by decide)
    | some value => exact h.starts hstandard (hcarried value rfl).1 hwrite
  reads := by
    intro options value text rest s previous hstandard hcarried hwrite hrest hs
    show Reads (readOptional codec.read fresh previous) s _ rest
    unfold readOptional
    refine (reads_peek hs).bind fun s hs => ?_
    cases value with
    | none =>
      cases hwrite
      rw [if_pos (by simp)]
      exact (reads_literal _ hs (by decide)).bind fun s hs => reads_pure hs
    | some value =>
      obtain ⟨hvalue, hnull⟩ := hcarried value rfl
      have hne : (text ++ rest).head? ≠ some 0x6e := by
        obtain ⟨c, tail, rfl, -⟩ := h.starts hstandard hvalue hwrite
        exact hnull options (c :: tail) hstandard hwrite
      rw [if_neg hne]
      exact (h.reads (previous.getD fresh) hstandard hvalue hwrite hrest hs).bind fun s hs =>
        reads_pure hs
  merge_eq := by
    intro value previous hexact
    cases value with
    | none => rfl
    | some value => exact congrArg some (h.merge_eq (hexact value rfl))

/-! ### Arrays -/

section Arrays

variable {write : Writer α} {options : Options} {first : Bool}

theorem writeItems_cons {item : α} {items : List α} {text : Bytes}
    (h : writeItems write options first (item :: items) = some text) :
    ∃ pad itemText more, indent options 2 = some pad ∧ write options item = some itemText ∧
      writeItems write options false items = some more ∧
      text = (if first then [] else [0x2c, 0x0a]) ++ pad ++ itemText ++ more := by
  rw [writeItems] at h
  obtain ⟨pad, hpad, h⟩ := Option.bind_eq_some_iff.mp h
  obtain ⟨itemText, hitem, h⟩ := Option.bind_eq_some_iff.mp h
  obtain ⟨more, hmore, h⟩ := Option.bind_eq_some_iff.mp h
  cases h
  exact ⟨pad, itemText, more, hpad, hitem, hmore, rfl⟩

theorem length_le_of_writeItems : ∀ {items : List α} {more : Bytes},
    writeItems write options false items = some more → items.length ≤ more.length := by
  intro items
  induction items with
  | nil => exact fun _ => Nat.zero_le _
  | cons item items ih =>
    intro text h
    obtain ⟨pad, itemText, more, -, -, hmore, rfl⟩ := writeItems_cons h
    have hle := ih hmore
    rw [if_neg Bool.false_ne_true]
    simp only [List.length_append, List.length_cons, List.length_nil]
    omega

theorem reads_skipComma (hs : s.input = 0x2c :: rest) : Reads skipComma s () rest := by
  unfold skipComma
  refine (reads_peek hs).bind fun s hs => ?_
  rw [List.head?_cons, if_pos rfl]
  exact (reads_get hs).bind fun s hs => reads_pure hs

theorem reads_skipComma_of_ne (hs : s.input = rest) (hrest : rest.head? ≠ some 0x2c) :
    Reads skipComma s () rest := by
  unfold skipComma
  refine (reads_peek hs).bind fun s hs => ?_
  rw [if_neg hrest]
  exact reads_pure hs

/-- The elements put in their places, from a position on. -/
def placeAll (place : ℕ → α → β → β) : ℕ → List α → β → β
  | _, [], result => result
  | pos, value :: values, result => placeAll place (pos + 1) values (place pos value result)

/-- What a pass of the loop of `ReadArray` needs of the elements before a position: a text that is
written for one is read, and the value is put in its place. -/
structure ReadsElements (write : Writer α) (options : Options) (Carried : α → Prop)
    (element : ℕ → β → M β) (place : ℕ → α → β → β) (bound : ℕ) : Prop where
  starts : ∀ {value text}, Carried value → write options value = some text → Starts text
  reads : ∀ {pos value text rest s} (result : β), pos < bound → Carried value →
    write options value = some text → Stops rest → s.input = text ++ rest →
    Reads (element pos result) s (place pos value result) rest

variable {Carried : α → Prop} {element : ℕ → β → M β} {place : ℕ → α → β → β} {bound : ℕ}

/-- The loop from an element on; every pass but the last takes a comma. -/
theorem reads_readArrayLoop (h : ReadsElements write options Carried element place bound)
    {pad : Bytes} (hpad : ∀ c ∈ pad, isWhitespace c = true) : ∀ {items : List α} {item : α}
    {text more blanks : Bytes} {n pos : ℕ} {result : β} {s : State},
    pos + items.length < bound → (∀ value ∈ item :: items, Carried value) →
    write options item = some text → writeItems write options false items = some more →
    (∀ c ∈ blanks, isWhitespace c = true) →
    s.input = blanks ++ (text ++ (more ++ (0x0a :: pad ++ 0x5d :: rest))) → items.length < n →
    Reads (readArrayLoop element n pos result) s
      (pos + items.length + 1, placeAll place pos (item :: items) result) rest := by
  intro items
  induction items with
  | nil =>
    intro item text more blanks n pos result s hbound hcarried hwrite hmore hblanks hs hn
    obtain ⟨n, rfl⟩ : ∃ m, n = m + 1 := ⟨n - 1, by omega⟩
    cases hmore
    have hitem := (List.forall_mem_cons.mp hcarried).1
    have hstarts := h.starts hitem hwrite
    rw [readArrayLoop]
    refine (reads_ignoreWhitespace _ hs hblanks fun c hc => (hstarts.head _ c hc).1).bind fun s hs =>
      (reads_peek hs).bind fun s hs => ?_
    rw [if_neg (hstarts.head_ne _)]
    refine (h.reads result (by omega) hitem hwrite (stops_cons (by decide)) hs).bind fun s hs => ?_
    -- no comma stands before the end
    refine (reads_ignoreWhitespace _ hs (isWhitespace_of_newline hpad) ?_).bind fun s hs => ?_
    · intro c hc
      obtain rfl : 0x5d = c := Option.some.inj hc
      decide
    refine (reads_skipComma_of_ne hs (by simp)).bind fun s hs => ?_
    refine (reads_ignoreWhitespace [] hs (List.forall_mem_nil _) ?_).bind fun s hs => ?_
    · intro c hc
      obtain rfl : 0x5d = c := Option.some.inj hc
      decide
    refine (reads_peek hs).bind fun s hs => ?_
    rw [List.head?_cons, if_pos rfl]
    exact (reads_get hs).bind fun s hs => reads_pure hs
  | cons next items ih =>
    intro item text more blanks n pos result s hbound hcarried hwrite hmore hblanks hs hn
    obtain ⟨n, rfl⟩ : ∃ m, n = m + 1 := ⟨n - 1, by omega⟩
    obtain ⟨hitem, hitems⟩ := List.forall_mem_cons.mp hcarried
    obtain ⟨nextPad, nextText, others, hnextPad, hnext, hothers, rfl⟩ := writeItems_cons hmore
    rw [if_neg Bool.false_ne_true] at hs
    simp only [List.append_assoc, List.cons_append, List.nil_append] at hs
    have hstarts := h.starts hitem hwrite
    have hnextStarts := h.starts (List.forall_mem_cons.mp hitems).1 hnext
    rw [readArrayLoop]
    refine (reads_ignoreWhitespace _ hs hblanks fun c hc => (hstarts.head _ c hc).1).bind fun s hs =>
      (reads_peek hs).bind fun s hs => ?_
    rw [if_neg (hstarts.head_ne _)]
    refine (h.reads result (by rw [List.length_cons] at hbound; omega) hitem hwrite
      (stops_cons (by decide)) hs).bind fun s hs => ?_
    refine (reads_ignoreWhitespace [] hs (List.forall_mem_nil _) ?_).bind fun s hs => ?_
    · intro c hc
      obtain rfl : 0x2c = c := Option.some.inj hc
      decide
    refine (reads_skipComma hs).bind fun s hs => ?_
    refine (reads_ignoreWhitespace (0x0a :: nextPad) hs
      (isWhitespace_of_newline (isWhitespace_of_indent hnextPad))
      fun c hc => (hnextStarts.head _ c hc).1).bind fun s hs => (reads_peek hs).bind fun s hs => ?_
    rw [if_neg (hnextStarts.head_ne _)]
    have hloop := @ih next nextText others [] n (pos + 1) (place pos item result) s
      (by rw [List.length_cons] at hbound; omega) hitems hnext hothers (List.forall_mem_nil _) hs
      (by rw [List.length_cons] at hn; omega)
    rw [List.length_cons, show pos + (items.length + 1) + 1 = pos + 1 + items.length + 1 by omega]
    exact hloop

/-- An array is read up to its end. -/
theorem reads_readArray (h : ReadsElements write options Carried element place bound)
    {values : List α} {text : Bytes} (result : β) (hbound : values.length ≤ bound)
    (hcarried : ∀ value ∈ values, Carried value) (hwrite : writeArray write options values = some text)
    (hs : s.input = text ++ rest) :
    Reads (readArray element result) s (values.length, placeAll place 0 values result) rest := by
  rw [writeArray] at hwrite
  obtain ⟨items, hitems, hwrite⟩ := Option.bind_eq_some_iff.mp hwrite
  obtain ⟨pad, hpad, hwrite⟩ := Option.bind_eq_some_iff.mp hwrite
  cases hwrite
  have hblanks := isWhitespace_of_indent hpad
  simp only [List.append_assoc, List.cons_append, List.nil_append] at hs
  unfold readArray
  refine (reads_literal _ hs (by decide)).bind fun s hs => ?_
  show Reads (readArrayLoop element s.input.length 0 result) s _ rest
  cases values with
  | nil =>
    cases hitems
    obtain ⟨n, hn⟩ : ∃ m, s.input.length = m + 1 := ⟨s.input.length - 1, by rw [hs]; simp⟩
    rw [hn, readArrayLoop]
    refine (reads_ignoreWhitespace (0x0a :: 0x0a :: pad) hs
      (isWhitespace_of_newline (isWhitespace_of_newline hblanks)) ?_).bind fun s hs => ?_
    · intro c hc
      obtain rfl : 0x5d = c := Option.some.inj hc
      decide
    refine (reads_peek hs).bind fun s hs => ?_
    rw [List.head?_cons, if_pos rfl]
    exact (reads_get hs).bind fun s hs => reads_pure hs
  | cons item values =>
    obtain ⟨itemPad, itemText, more, hitemPad, hitem, hmore, rfl⟩ := writeItems_cons hitems
    rw [if_pos rfl] at hs
    simp only [List.append_assoc, List.nil_append] at hs
    have hlength := length_le_of_writeItems hmore
    have hfuel : values.length < s.input.length := by
      rw [hs]
      simp only [List.length_append, List.length_cons]
      omega
    have hloop : Reads (readArrayLoop element s.input.length 0 result) s
        (0 + values.length + 1, placeAll place 0 (item :: values) result) rest :=
      reads_readArrayLoop h hblanks (by rw [List.length_cons] at hbound; omega) hcarried hitem hmore
        (isWhitespace_of_newline (isWhitespace_of_indent hitemPad)) hs hfuel
    rw [List.length_cons]
    rwa [Nat.zero_add] at hloop

theorem starts_writeArray {values : List α} {text : Bytes}
    (h : writeArray write options values = some text) : Starts text := by
  rw [writeArray] at h
  obtain ⟨items, -, h⟩ := Option.bind_eq_some_iff.mp h
  obtain ⟨pad, -, h⟩ := Option.bind_eq_some_iff.mp h
  cases h
  exact starts_cons (by decide)

end Arrays

/-! ### Vectors -/

/-- The place of an element of a vector. -/
def placeInVector (fresh : α) (merge : α → α → α) (pos : ℕ) (value : α) (values : List α) : List α :=
  let values := if pos ≥ values.length then values ++ [fresh] else values
  values.set pos (merge value (values.getD pos fresh))

theorem placeInVector_append (fresh : α) (merge : α → α → α) (value : α) (done previous : List α) :
    placeInVector fresh merge done.length value (done ++ previous)
      = (done ++ [merge value (previous.headD fresh)]) ++ previous.tail := by
  unfold placeInVector
  -- the vector is at its end, or has an element at the position
  cases previous with
  | nil =>
    simp only [List.append_nil, ge_iff_le, le_refl, if_true, List.getD_append_right _ _ _ _ le_rfl,
      Nat.sub_self, List.getD_cons_zero, List.set_append_right _ _ le_rfl, List.set_cons_zero,
      List.headD_nil, List.tail_nil]
  | cons first previous =>
    have hlt : ¬done.length ≥ (done ++ first :: previous).length := by
      rw [List.length_append, List.length_cons]
      omega
    simp only [if_neg hlt, List.getD_append_right _ _ _ _ le_rfl, Nat.sub_self, List.getD_cons_zero,
      List.set_append_right _ _ le_rfl, List.set_cons_zero, List.headD_cons, List.tail_cons,
      List.append_assoc, List.singleton_append]

theorem placeAll_vector (fresh : α) (merge : α → α → α) (values : List α) :
    ∀ done previous : List α,
    placeAll (placeInVector fresh merge) done.length values (done ++ previous)
      = done ++ Codec.mergeItems fresh merge values previous := by
  induction values with
  | nil => exact fun _ _ => rfl
  | cons value values ih =>
    intro done previous
    have hnext := ih (done ++ [merge value (previous.headD fresh)]) previous.tail
    rw [List.length_append, List.length_singleton] at hnext
    rw [placeAll, placeInVector_append, hnext, Codec.mergeItems, List.append_assoc,
      List.singleton_append]

theorem mergeItems_eq {codec : Codec α}
    (h : ∀ {value previous}, codec.Exact value previous → codec.merge value previous = value)
    (fresh : α) (values : List α) : ∀ previous : List α,
    Codec.ExactItems fresh codec.Exact values previous →
      Codec.mergeItems fresh codec.merge values previous = values := by
  induction values with
  | nil => exact fun _ hexact => hexact
  | cons value values ih =>
    rintro previous ⟨hvalue, hvalues⟩
    rw [Codec.mergeItems, h hvalue, ih previous.tail hvalues]

theorem Codec.correct_vector {codec : Codec α} (h : codec.Correct standard) (fresh : α) :
    (Codec.vector fresh codec).Correct standard where
  starts := by
    intro options value text _ _ hwrite
    exact starts_writeArray hwrite
  reads := by
    intro options values text rest s previous hstandard hcarried hwrite _ hs
    have helements : ReadsElements codec.write options codec.Carried
        (vectorElement codec.read fresh) (placeInVector fresh codec.merge) values.length :=
      ⟨h.starts hstandard, fun result _ hvalue hwrite hrest hs =>
        (h.reads _ hstandard hvalue hwrite hrest hs).bind fun s hs => reads_pure hs⟩
    have hplaced := placeAll_vector fresh codec.merge values [] previous
    rw [List.length_nil, List.nil_append, List.nil_append] at hplaced
    refine (reads_readArray helements previous le_rfl hcarried hwrite hs).bind fun s hs => ?_
    rw [hplaced]
    exact reads_pure hs
  merge_eq := by
    intro values previous hexact
    exact mergeItems_eq h.merge_eq fresh values previous hexact

/-- The place of an element of an array. -/
def placeInArray {n : ℕ} (merge : α → α → α) (pos : ℕ) (value : α) (values : Vector α n) :
    Vector α n :=
  if h : pos < n then values.set pos (merge value values[pos]) else values

theorem getElem_placeAll_array {n : ℕ} (merge : α → α → α) (values : List α) :
    ∀ (pos : ℕ) (result : Vector α n), pos + values.length ≤ n → ∀ (i : ℕ) (hi : i < n),
    (placeAll (placeInArray merge) pos values result)[i] =
      if h : pos ≤ i ∧ i - pos < values.length then merge values[i - pos] result[i]
      else result[i] := by
  induction values with
  | nil =>
    intro pos result _ i hi
    rw [dif_neg (fun h => absurd h.2 (Nat.not_lt_zero _))]
    rfl
  | cons value values ih =>
    intro pos result hle i hi
    rw [List.length_cons] at hle
    have hpos : pos < n := by omega
    have hplace : placeInArray merge pos value result
        = result.set pos (merge value result[pos]) := dif_pos hpos
    rw [placeAll, ih (pos + 1) _ (by omega) i hi, hplace]
    rcases Nat.lt_trichotomy i pos with hlt | rfl | hgt
    · rw [dif_neg (by omega), dif_neg (by omega), Vector.getElem_set_ne _ _ (by omega)]
    · rw [dif_neg (by omega), dif_pos (by rw [List.length_cons]; omega), Vector.getElem_set_self]
      simp only [Nat.sub_self, List.getElem_cons_zero]
    · have hsub : i - pos = i - (pos + 1) + 1 := by omega
      simp only [Vector.getElem_set_ne _ _ (show pos ≠ i by omega), List.length_cons, hsub,
        List.getElem_cons_succ]
      by_cases hin : i - (pos + 1) < values.length
      · rw [dif_pos ⟨by omega, hin⟩, dif_pos ⟨by omega, by omega⟩]
      · rw [dif_neg (fun h => hin h.2), dif_neg (fun h => hin (by omega))]

theorem Codec.correct_array {codec : Codec α} (h : codec.Correct standard) (n : ℕ) :
    (Codec.array n codec).Correct standard where
  starts := by
    intro options value text _ _ hwrite
    exact starts_writeArray hwrite
  reads := by
    intro options values text rest s previous hstandard hcarried hwrite _ hs
    have hlength : values.toList.length = n := Vector.length_toList
    have helements : ReadsElements codec.write options codec.Carried (arrayElement codec.read)
        (placeInArray (n := n) codec.merge) n := by
      refine ⟨h.starts hstandard, ?_⟩
      intro pos value text rest s result hpos hvalue hwrite hrest hs
      rw [arrayElement, placeInArray, dif_pos hpos, dif_pos hpos]
      exact (h.reads _ hstandard hvalue hwrite hrest hs).bind fun s hs => reads_pure hs
    have hplaced : placeAll (placeInArray codec.merge) 0 values.toList previous
        = Vector.ofFn fun i : Fin n => codec.merge values[i] previous[i] := by
      ext i hi
      rw [getElem_placeAll_array _ _ _ _ (by omega) i hi, dif_pos ⟨Nat.zero_le _, by omega⟩]
      simp
    refine (reads_readArray helements previous (by omega) hcarried hwrite hs).bind fun s hs => ?_
    rw [hplaced, hlength]
    show Reads (if n < n then _ else _) s _ rest
    rw [if_neg (lt_irrefl n)]
    exact reads_pure hs
  merge_eq := by
    intro values previous hexact
    show Vector.ofFn (fun i : Fin n => codec.merge values[i] previous[i]) = values
    ext i hi
    rw [Vector.getElem_ofFn]
    exact h.merge_eq (hexact ⟨i, hi⟩)

theorem Codec.correct_via {codec : Codec α} (h : codec.Correct standard) (get : β → α)
    (set : β → α → β) : (Codec.via get set codec).Correct standard where
  starts := by
    intro options value text hstandard hcarried hwrite
    exact h.starts hstandard hcarried hwrite
  reads := by
    intro options value text rest s previous hstandard hcarried hwrite hrest hs
    exact (h.reads (get previous) hstandard hcarried hwrite hrest hs).bind fun s hs => reads_pure hs
  merge_eq := by
    rintro value previous ⟨hset, hexact⟩
    show set previous (codec.merge (get value) (get previous)) = value
    rw [h.merge_eq hexact, hset]

/-! ### Objects -/

section Objects

variable {options : Options} {first : Bool} {value : α}

theorem visit_cons {field : Field α} {fields : List (Field α)} {text : Bytes}
    (h : visit options value first (field :: fields) = some text) :
    ∃ pad fieldText more, indent options 0 = some pad ∧
      field.write options value = some fieldText ∧
      visit options value false fields = some more ∧
      text = (if first then [] else [0x2c, 0x0a]) ++ pad ++
        (0x22 :: (field.name ++ [0x22, 0x20, 0x3a, 0x20])) ++ fieldText ++ more := by
  rw [visit] at h
  obtain ⟨pad, hpad, h⟩ := Option.bind_eq_some_iff.mp h
  obtain ⟨fieldText, hfield, h⟩ := Option.bind_eq_some_iff.mp h
  obtain ⟨more, hmore, h⟩ := Option.bind_eq_some_iff.mp h
  cases h
  exact ⟨pad, fieldText, more, hpad, hfield, hmore, rfl⟩

theorem isWhitespace_of_space : ∀ c ∈ [(0x20 : UInt8)], isWhitespace c = true :=
  List.forall_mem_singleton.mpr (by decide)

/-- The name of a member, up to its value. -/
theorem reads_prepareMember (blanks : Bytes) {name text : Bytes} (hname : ∀ c ∈ name, Plain c)
    (htext : ∀ c ∈ text.head?, ¬StartsBlank c) (hblanks : ∀ c ∈ blanks, isWhitespace c = true)
    (hs : s.input = blanks ++ (0x22 :: (name ++ 0x22 :: 0x20 :: 0x3a :: 0x20 :: text))) :
    Reads prepareMember s (some name) text := by
  have hquote : ∀ rest : Bytes, ∀ c ∈ (0x22 :: rest : Bytes).head?, ¬StartsBlank c := by
    intro rest c hc
    obtain rfl : 0x22 = c := Option.some.inj hc
    decide
  unfold prepareMember
  refine (reads_ignoreWhitespace _ hs hblanks (hquote _)).bind fun s hs =>
    (reads_peek hs).bind fun s hs => ?_
  rw [List.head?_cons, if_neg (by simp)]
  have hread : Reads readMemberName s name (0x20 :: 0x3a :: 0x20 :: text) := by
    unfold readMemberName
    refine (reads_ignoreWhitespace [] hs (List.forall_mem_nil _) (hquote _)).bind
      fun s hs => (reads_peek hs).bind fun s hs => ?_
    rw [List.head?_cons, if_pos rfl]
    refine reads_readString (fun c hc => (hname c hc).1) ?_
    rw [writeString_of_not fun c hc => (hname c hc).2, inQuotes, hs, List.cons_append, List.append_assoc,
      List.singleton_append]
  refine hread.bind fun s hs => ?_
  refine (reads_readLiteral [0x20] [] hs isWhitespace_of_space (by decide)).bind
    fun s hs => ?_
  exact (reads_ignoreWhitespace [0x20] hs isWhitespace_of_space htext).bind fun s hs =>
    reads_pure hs

/-- The end of an object. -/
theorem reads_finishMember_brace {pad : Bytes} (hpad : ∀ c ∈ pad, isWhitespace c = true)
    (hs : s.input = 0x0a :: (pad ++ 0x7d :: rest)) : Reads finishMember s none rest := by
  have hbrace : ∀ c ∈ (0x7d :: rest : Bytes).head?, ¬StartsBlank c := by
    intro c hc
    obtain rfl : 0x7d = c := Option.some.inj hc
    decide
  unfold finishMember
  refine (reads_ignoreWhitespace (0x0a :: pad) hs (isWhitespace_of_newline hpad)
    hbrace).bind fun s hs => (reads_peek hs).bind fun s hs => ?_
  rw [List.head?_cons, if_pos (by simp)]
  exact (reads_literal [] hs (by decide)).bind fun s hs => reads_pure hs

/-- The comma and the next member. -/
theorem reads_finishMember_comma (blanks : Bytes) {name text : Bytes} (hname : ∀ c ∈ name, Plain c)
    (htext : ∀ c ∈ text.head?, ¬StartsBlank c) (hblanks : ∀ c ∈ blanks, isWhitespace c = true)
    (hs : s.input = 0x2c ::
      (blanks ++ (0x22 :: (name ++ 0x22 :: 0x20 :: 0x3a :: 0x20 :: text)))) :
    Reads finishMember s (some name) text := by
  unfold finishMember
  refine (reads_ignoreWhitespace [] hs (List.forall_mem_nil _) ?_).bind fun s hs =>
    (reads_peek hs).bind fun s hs => ?_
  · intro c hc
    obtain rfl : 0x2c = c := Option.some.inj hc
    decide
  rw [List.head?_cons, if_neg (not_not_intro rfl)]
  exact (reads_get hs).bind fun s hs => reads_prepareMember blanks hname htext hblanks hs

/-- The field that a member is for. -/
theorem reads_visit {m : Member α} {field : m.field} {text : Bytes} {previous : α} {found : Bool}
    {name : Option Bytes} (hfield : Reads (m.codec.read (m.get previous)) s field text)
    (hfinish : ∀ s, s.input = text → Reads finishMember s name rest) :
    Reads (Json5ReadArchive.visit ⟨previous, some m.name, found⟩ m.read) s
      ⟨m.set previous field, name, true⟩ rest := by
  have hvisit : Json5ReadArchive.visit ⟨previous, some m.name, found⟩ m.read = do
      let object ← m.read.read previous
      return ⟨object, ← finishMember, true⟩ := if_neg (not_not_intro rfl)
  have hread : Reads (m.read.read previous) s (m.set previous field) text :=
    hfield.bind fun s hs => reads_pure hs
  rw [hvisit]
  refine hread.bind fun s hs => ?_
  exact (hfinish s hs).bind fun s hs => reads_pure hs

/-- A pass over the fields reads all of them, since they are written in their order. -/
theorem reads_foldlM_visit {pad : Bytes} (hpad : ∀ c ∈ pad, isWhitespace c = true)
    (hstandard : options.standard = standard) : ∀ {members : List (Member α)} {m : Member α}
    {text more : Bytes} {previous : α} {found : Bool} {s : State},
    (∀ member ∈ m :: members, member.codec.Correct standard ∧ (∀ c ∈ member.name, Plain c) ∧
      member.codec.Carried (member.get value)) →
    m.written.write options value = some text →
    visit options value false (members.map Member.written) = some more →
    s.input = text ++ (more ++ 0x0a :: (pad ++ 0x7d :: rest)) →
    Reads (((m :: members).map Member.read).foldlM Json5ReadArchive.visit
      ⟨previous, some m.name, found⟩) s
      ⟨(m :: members).foldl (Member.merge value) previous, none, true⟩ rest := by
  intro members
  induction members with
  | nil =>
    intro m text more previous found s hmembers hwrite hmore hs
    cases hmore
    obtain ⟨⟨hcorrect, -, hcarried⟩, -⟩ := List.forall_mem_cons.mp hmembers
    rw [List.nil_append] at hs
    rw [List.map_cons, List.foldlM_cons]
    have hvisit : Reads (Json5ReadArchive.visit ⟨previous, some m.name, found⟩ m.read) s
        ⟨m.merge value previous, none, true⟩ rest :=
      reads_visit (hcorrect.reads (m.get previous) hstandard hcarried hwrite
        (stops_cons (by decide)) hs) fun s hs => reads_finishMember_brace hpad hs
    exact hvisit.bind fun s hs => reads_pure hs
  | cons next members ih =>
    intro m text more previous found s hmembers hwrite hmore hs
    obtain ⟨⟨hcorrect, -, hcarried⟩, hothers⟩ := List.forall_mem_cons.mp hmembers
    obtain ⟨hnextCorrect, hnextName, hnextCarried⟩ := hothers next List.mem_cons_self
    obtain ⟨nextPad, nextText, others, hnextPad, hnext, hmore', rfl⟩ := visit_cons hmore
    have hstarts := (hnextCorrect.starts hstandard hnextCarried hnext).head
      (others ++ 0x0a :: (pad ++ 0x7d :: rest))
    rw [if_neg Bool.false_ne_true] at hs
    simp only [List.append_assoc, List.cons_append, List.nil_append] at hs
    rw [List.map_cons, List.foldlM_cons]
    have hvisit : Reads (Json5ReadArchive.visit ⟨previous, some m.name, found⟩ m.read) s
        ⟨m.merge value previous, some next.name, true⟩
        (nextText ++ (others ++ 0x0a :: (pad ++ 0x7d :: rest))) :=
      reads_visit (hcorrect.reads (m.get previous) hstandard hcarried hwrite
        (stops_cons (by decide)) hs) fun s hs =>
          reads_finishMember_comma (0x0a :: nextPad) hnextName
            (fun c hc => (hstarts c hc).1)
            (isWhitespace_of_newline (isWhitespace_of_indent hnextPad)) hs
    exact hvisit.bind fun s hs => ih hothers hnext hmore' hs

/-- An object is read up to its end. -/
theorem reads_accept {members : List (Member α)} (hmembers : ∀ m ∈ members,
    m.codec.Correct standard ∧ (∀ c ∈ m.name, Plain c) ∧ m.codec.Carried (m.get value))
    {text : Bytes} (previous : α) (hstandard : options.standard = standard)
    (hwrite : accept (members.map Member.written) options value = some text)
    (hs : s.input = text ++ rest) :
    Reads (Json5ReadArchive.accept permissiveNan (members.map Member.read) previous) s
      (members.foldl (Member.merge value) previous) rest := by
  rw [accept] at hwrite
  obtain ⟨fields, hfields, hwrite⟩ := Option.bind_eq_some_iff.mp hwrite
  obtain ⟨pad, hpad, hwrite⟩ := Option.bind_eq_some_iff.mp hwrite
  cases hwrite
  have hblanks := isWhitespace_of_indent hpad
  simp only [List.append_assoc, List.cons_append, List.nil_append] at hs
  unfold Json5ReadArchive.accept
  refine (reads_literal [] hs (by decide)).bind fun s hs => ?_
  cases members with
  | nil =>
    cases hfields
    have hprepare : Reads prepareMember s none rest := by
      unfold prepareMember
      refine (reads_ignoreWhitespace (0x0a :: 0x0a :: pad) hs
        (isWhitespace_of_newline (isWhitespace_of_newline hblanks)) ?_).bind fun s hs => ?_
      · intro c hc
        obtain rfl : 0x7d = c := Option.some.inj hc
        decide
      refine (reads_peek hs).bind fun s hs => ?_
      rw [List.head?_cons, if_pos rfl]
      exact (reads_literal [] hs (by decide)).bind fun s hs => reads_pure hs
    refine hprepare.bind fun s hs => ?_
    show Reads (acceptLoop permissiveNan [] s.input.length previous none) s previous rest
    rw [acceptLoop]
    exact reads_pure hs
  | cons m members =>
    obtain ⟨hcorrect, hname, hcarried⟩ := hmembers m List.mem_cons_self
    obtain ⟨namePad, text, more, hnamePad, hfield, hmore, rfl⟩ := visit_cons hfields
    have hstarts := (hcorrect.starts hstandard hcarried hfield).head
      (more ++ 0x0a :: (pad ++ 0x7d :: rest))
    rw [if_pos rfl] at hs
    simp only [List.append_assoc, List.cons_append, List.nil_append] at hs
    refine (reads_prepareMember (0x0a :: namePad) hname (fun c hc => (hstarts c hc).1)
      (isWhitespace_of_newline (isWhitespace_of_indent hnamePad)) hs).bind fun s hs => ?_
    show Reads (acceptLoop permissiveNan ((m :: members).map Member.read) s.input.length previous
      (some m.name)) s _ rest
    obtain ⟨n, hn⟩ : ∃ n, s.input.length = n + 1 :=
      ⟨s.input.length - 1, by
        rw [hs]
        simp only [List.length_append, List.length_cons]
        omega⟩
    rw [hn, acceptLoop]
    refine (reads_foldlM_visit hblanks hstandard hmembers hfield hmore hs).bind fun s hs => ?_
    rw [if_pos rfl, acceptLoop]
    exact reads_pure hs

end Objects

/-- Fields that are all exact leave the object that was written. -/
theorem foldl_merge_eq {members : List (Member α)} {value previous : α}
    (hmerge : ∀ m ∈ members, ∀ {field other}, m.codec.Exact field other →
      m.codec.merge field other = field)
    (hclass : IsClass members)
    (hexact : ∀ m ∈ members, m.codec.Exact (m.get value) (m.get previous)) :
    members.foldl (Member.merge value) previous = value := by
  -- the fields are read in turn: those that have been read have their values, the others are as they
  -- were
  have hall : ∀ (todo : List (Member α)) (object : α), (∀ m ∈ todo, m ∈ members) →
      todo.Pairwise (fun m m' =>
        (∀ object field, m'.get (m.set object field) = m'.get object) ∧
          ∀ object field, m.get (m'.set object field) = m.get object) →
      (∀ m ∈ todo, m.codec.Exact (m.get value) (m.get object)) →
      (∀ m ∈ todo, m.get (todo.foldl (Member.merge value) object) = m.get value) ∧
        ∀ m : Member α, (∀ m' ∈ todo, ∀ object field, m.get (m'.set object field) = m.get object) →
          m.get (todo.foldl (Member.merge value) object) = m.get object := by
    intro todo
    induction todo with
    | nil => exact fun _ _ _ _ => ⟨List.forall_mem_nil _, fun _ _ => rfl⟩
    | cons m todo ih =>
      intro object hmem hpairwise hexact
      obtain ⟨hm, hmem⟩ := List.forall_mem_cons.mp hmem
      obtain ⟨hfirst, hpairwise⟩ := List.pairwise_cons.mp hpairwise
      obtain ⟨hexactFirst, hexact⟩ := List.forall_mem_cons.mp hexact
      have hnext : m.merge value object = m.set object (m.get value) := by
        rw [Member.merge, hmerge m hm hexactFirst]
      have hunchanged : ∀ m' ∈ todo, m'.get (m.merge value object) = m'.get object := by
        intro m' hm'
        rw [hnext, (hfirst m' hm').1]
      obtain ⟨hread, hkept⟩ := ih (m.merge value object) hmem hpairwise fun m' hm' => by
        rw [hunchanged m' hm']
        exact hexact m' hm'
      refine ⟨List.forall_mem_cons.mpr ⟨?_, hread⟩, fun m' hm' => ?_⟩
      · rw [List.foldl_cons, hkept m fun m' hm' => (hfirst m' hm').2, hnext, hclass.get_set m hm]
      · obtain ⟨hm', htodo⟩ := List.forall_mem_cons.mp hm'
        rw [List.foldl_cons, hkept m' htodo, hnext, hm']
  exact hclass.ext _ _ (hall members previous (fun _ h => h) hclass.disjoint hexact).1

theorem Codec.correct_serializable {members : List (Member α)}
    (h : ∀ m ∈ members, m.codec.Correct standard) :
    (Codec.serializable permissiveNan members).Correct standard where
  starts := by
    intro options value text _ _ hwrite
    obtain ⟨fields, -, hwrite⟩ := Option.bind_eq_some_iff.mp hwrite
    obtain ⟨pad, -, hwrite⟩ := Option.bind_eq_some_iff.mp hwrite
    cases hwrite
    exact starts_cons (by decide)
  reads := by
    intro options value text rest s previous hstandard hcarried hwrite _ hs
    have hsame : ({ options with indent := options.indent + 2 } : Options).standard = standard :=
      hstandard
    have hobject : accept (members.map Member.written)
        { options with indent := options.indent + 2 } value = some text := hwrite
    have hread : Reads (Json5ReadArchive.accept permissiveNan (members.map Member.read) previous)
        { input := s.input } (members.foldl (Member.merge value) previous) rest :=
      reads_accept (fun m hm => ⟨h m hm, hcarried m hm⟩) previous hsame hobject hs
    obtain ⟨s', hok, hs'⟩ := hread
    refine ⟨{ s with input := s'.input }, ?_, hs'⟩
    show Json5ReadArchive.visitSerializable permissiveNan (members.map Member.read) previous s = _
    rw [Json5ReadArchive.visitSerializable, hok]
    rfl
  merge_eq := by
    rintro value previous ⟨hclass, hexact⟩
    exact foldl_merge_eq (fun m hm => (h m hm).merge_eq) hclass hexact

end Mjlib.Base.Json5WriteArchive
