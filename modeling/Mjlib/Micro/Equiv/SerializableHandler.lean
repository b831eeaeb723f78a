import Mjlib.Micro.Equiv.EnumerateArchive
import Mjlib.Micro.Equiv.ItemArchive

/-!
# Access by path

`spells_join` and `eq_of_path` say that the path of a leaf leads to it, and to no other; the leaves
that are enumerated are the same ones (`exists_entry_of_line`).  `works_iff` says for which keys and
objects `Set`, `Read` and `Enumerate` agree: other keys than paths find a leaf, too, and an
enumerator goes through an `int32_t`.
-/

namespace Mjlib.Micro

open Base Telemetry

namespace ItemArchive

/-! ### The paths of leaves -/

/-- The types of leaves. -/
def isScalar : Ty → Bool
  | .object .. => false
  | .array .. => false
  | _ => true

theorem entries_scalar {t : Ty} (h : isScalar t = true) (value : t.Val) :
    entries t value = [⟨[], t, value⟩] := by
  cases t with
  | object => cases h
  | array => cases h
  | _ => rfl

/-- Induction over the fields of objects, and over the types that have leaves. -/
theorem fields_induction {P : Ty → Prop} {Q : Fields → Prop}
    (scalar : ∀ t, isScalar t = true → P t) (array : ∀ elem n, P elem → P (.array elem n))
    (object : ∀ tag fields, Q fields → P (.object tag fields)) (nil : Q .nil)
    (cons : ∀ name ty rest, P ty → Q rest → Q (.cons name ty rest)) : ∀ fields, Q fields :=
  @Fields.rec P Q (scalar _ rfl) (fun _ _ => scalar _ rfl) (scalar _ rfl) (scalar _ rfl)
    (scalar _ rfl) (scalar _ rfl) (fun _ _ => scalar _ rfl) array (fun _ _ => scalar _ rfl)
    (fun _ => scalar _ rfl) object (scalar _ rfl) (scalar _ rfl) nil cons

/-- What is true of a leaf is true of the leaves of the fields of an object. -/
theorem forall_fieldEntries {P : Entry → Prop}
    (hunder : ∀ component e, P e → P (Entry.under component e))
    (hscalar : ∀ t, isScalar t = true → Handled t → ∀ value : t.Val, P ⟨[], t, value⟩) :
    ∀ fields, HandledFields fields → ∀ (value : fields.Vals),
      ∀ e ∈ fieldEntries fields value, P e := by
  refine fields_induction (P := fun t => Handled t → ∀ (value : t.Val), ∀ e ∈ entries t value, P e)
    ?_ ?_ ?_ ?_ ?_
  · intro t ht h value e he
    rw [entries_scalar ht] at he
    obtain rfl := List.mem_singleton.mp he
    exact hscalar t ht h value
  · intro elem n ih h value e he
    rw [entries] at he
    obtain ⟨item, _, he⟩ := List.mem_flatMap.mp he
    obtain ⟨e', he', rfl⟩ := List.mem_map.mp he
    exact hunder _ e' (ih h.2 item.1 e' he')
  · exact fun tag fields ih => ih
  · exact fun _ _ e he => absurd he List.not_mem_nil
  · intro name ty rest ih ih' h value e he
    rcases List.mem_append.mp he with he | he
    · obtain ⟨e', he', rfl⟩ := List.mem_map.mp he
      exact hunder _ e' (ih h.2.2.1 value.1 e' he')
    · exact ih' h.2.2.2 value.2 e he

/-- A leaf is of a type that can be read and written. -/
theorem scalar_of_mem {fields : Fields} (h : HandledFields fields) {value : fields.Vals} {e : Entry}
    (he : e ∈ fieldEntries fields value) : isScalar e.ty = true ∧ Handled e.ty :=
  forall_fieldEntries (P := fun e => isScalar e.ty = true ∧ Handled e.ty) (fun _ _ h => h)
    (fun _ hscalar ht _ => ⟨hscalar, ht⟩) fields h value e he

theorem isDelimiter_decimal (n : ℕ) : ∀ c ∈ decimal n, isDelimiter [0x2e] c = false := by
  intro c hc
  have hdigit := isDigit_decimal n c hc
  cases hdelimiter : isDelimiter [0x2e] c with
  | false => rfl
  | true =>
    rcases isDelimiter_eq_true hdelimiter with rfl | rfl
    · cases hdigit
    · cases hdigit

theorem join_ne_nil {component : Bytes} (h : component ≠ []) (path : List Bytes) :
    join (component :: path) ≠ [] := by
  cases path with
  | nil => exact h
  | cons component' path => exact List.append_ne_nil_of_left_ne_nil h _

theorem spellsIndex_decimal {n : ℕ} (h : n < 2 ^ 63) : SpellsIndex (decimal n) n := by
  have hread : strtol 0 (formatInt n ++ []) = ((n : ℤ), []) :=
    strtol_formatInt (by rintro _ ⟨⟩) (by omega) (by omega)
  rw [formatInt_natCast, List.append_nil] at hread
  exact Or.inr hread

/-- **The path of a leaf leads to it.** -/
theorem spells_join : ∀ fields, HandledFields fields → ∀ (value : fields.Vals),
    ∀ e ∈ fieldEntries fields value, SpellsField fields (join e.path) e.path := by
  refine fields_induction (P := fun t => Handled t → ∀ (value : t.Val), ∀ e ∈ entries t value,
    Spells t (join e.path) e.path) ?_ ?_ ?_ ?_ ?_
  · intro t ht h value e he
    rw [entries_scalar ht] at he
    obtain rfl := List.mem_singleton.mp he
    cases t with
    | object => cases ht
    | array => cases ht
    | _ => rfl
  · intro elem n ih h value e he
    rw [entries] at he
    obtain ⟨item, hitem, he⟩ := List.mem_flatMap.mp he
    obtain ⟨e', he', rfl⟩ := List.mem_map.mp he
    have hlt : item.2 < n.toNat := by
      have := (List.mem_zipIdx hitem).2.1
      rw [Nat.zero_add, value.property] at this
      exact this
    have hsplit := splitKey_join (isDelimiter_decimal item.2) e'.path
    refine ⟨join_ne_nil (decimal_ne_nil _) _, item.2, hlt, e'.path, ?_, rfl, ?_⟩
    · show SpellsIndex (splitKey (join (decimal item.2 :: e'.path))).1 item.2
      rw [hsplit]
      exact spellsIndex_decimal (hlt.trans h.1)
    · show Spells elem (splitKey (join (decimal item.2 :: e'.path))).2 e'.path
      rw [hsplit]
      exact ih h.2 item.1 e' he'
  · exact fun tag fields ih => ih
  · exact fun _ _ e he => absurd he List.not_mem_nil
  · intro name ty rest ih ih' h value e he
    rcases List.mem_append.mp he with he | he
    · obtain ⟨e', he', rfl⟩ := List.mem_map.mp he
      have hsplit := splitKey_join h.1 e'.path
      refine Or.inl ⟨e'.path, ?_, rfl, ?_⟩
      · exact congrArg Prod.fst hsplit
      · show Spells ty (splitKey (join (name.val :: e'.path))).2 e'.path
        rw [hsplit]
        exact ih h.2.2.1 value.1 e' he'
    · exact Or.inr (ih' h.2.2.2 value.2 e he)

/-- Leaves have different paths. -/
theorem eq_of_path : ∀ fields, HandledFields fields → ∀ (value : fields.Vals),
    ∀ e ∈ fieldEntries fields value, ∀ e' ∈ fieldEntries fields value,
      e.path = e'.path → e = e' := by
  refine fields_induction (P := fun t => Handled t → ∀ (value : t.Val), ∀ e ∈ entries t value,
    ∀ e' ∈ entries t value, e.path = e'.path → e = e') ?_ ?_ ?_ ?_ ?_
  · intro t ht h value e he e' he' _
    rw [entries_scalar ht] at he he'
    exact (List.mem_singleton.mp he).trans (List.mem_singleton.mp he').symm
  · intro elem n ih h value e he e' he' hpath
    rw [entries] at he he'
    obtain ⟨item, hitem, he⟩ := List.mem_flatMap.mp he
    obtain ⟨item', hitem', he'⟩ := List.mem_flatMap.mp he'
    obtain ⟨e₁, he₁, rfl⟩ := List.mem_map.mp he
    obtain ⟨e₂, he₂, rfl⟩ := List.mem_map.mp he'
    obtain ⟨hindex, hpath⟩ := List.cons.inj hpath
    have hget := List.mem_zipIdx_iff_getElem?.mp hitem
    have hget' := List.mem_zipIdx_iff_getElem?.mp hitem'
    rw [decimal_injective hindex] at hget
    have heq : item.1 = item'.1 := Option.some.inj (hget.symm.trans hget')
    rw [heq] at he₁
    rw [ih h.2 item'.1 e₁ he₁ e₂ he₂ hpath, hindex]
  · exact fun tag fields ih => ih
  · exact fun _ _ e he => absurd he List.not_mem_nil
  · intro name ty rest ih ih' h value e he e' he' hpath
    -- the leaves of a field start with its name, the other ones do not
    have hother : ∀ e₁ ∈ (entries ty value.1).map (Entry.under name.val),
        ∀ e₂ ∈ fieldEntries rest value.2, e₁.path ≠ e₂.path := by
      intro e₁ he₁ e₂ he₂ heq
      obtain ⟨e₃, _, rfl⟩ := List.mem_map.mp he₁
      obtain ⟨name', hname', path, hpath'⟩ := exists_name he₂
      rw [hpath'] at heq
      exact h.2.1 ((List.cons.inj heq).1 ▸ hname')
    rcases List.mem_append.mp he with he | he
    · rcases List.mem_append.mp he' with he' | he'
      · obtain ⟨e₁, he₁, rfl⟩ := List.mem_map.mp he
        obtain ⟨e₂, he₂, rfl⟩ := List.mem_map.mp he'
        rw [ih h.2.2.1 value.1 e₁ he₁ e₂ he₂ (List.cons.inj hpath).2]
      · exact absurd hpath (hother e he e' he')
    · rcases List.mem_append.mp he' with he' | he'
      · exact absurd hpath.symm (hother e' he' e he)
      · exact ih' h.2.2.2 value.2 e he e' he' hpath

theorem Entry.value_eq {e : Entry} {v : e.ty.Val} (h : ⟨e.path, e.ty, v⟩ = e) : v = e.value := by
  cases e with
  | mk path ty value =>
    cases h
    rfl

/-! ### What is enumerated -/

/-- **The leaves that are enumerated** are the leaves of the object. -/
theorem exists_entry_of_line (floats : FloatFormat) : ∀ (fields : Fields) (prefixes : List Bytes)
    (value : fields.Vals), ∀ line ∈ EnumerateArchive.fieldLeaves floats prefixes fields value,
    ∃ e ∈ fieldEntries fields value, line.prefixes ++ [line.name] = prefixes ++ e.path ∧
      formatValue floats e.ty e.value = some line.text := by
  refine fields_induction (P := fun t => ∀ (prefixes : List Bytes) (value : t.Val) (name : Bytes),
    ∀ line ∈ EnumerateArchive.leaves floats prefixes t value name, ∃ e ∈ entries t value,
      line.prefixes ++ [line.name] = prefixes ++ name :: e.path ∧
        formatValue floats e.ty e.value = some line.text) ?_ ?_ ?_ ?_ ?_
  · intro t ht prefixes value name line hline
    refine ⟨⟨[], t, value⟩, ?_, ?_⟩
    · rw [entries_scalar ht]
      exact List.mem_singleton_self _
    · have hleaves : EnumerateArchive.leaves floats prefixes t value name =
          (formatValue floats t value).toList.map fun text => ⟨prefixes, name, text⟩ := by
        cases t with
        | object => cases ht
        | array => cases ht
        | _ => rfl
      rw [hleaves] at hline
      obtain ⟨text, htext, rfl⟩ := List.mem_map.mp hline
      exact ⟨rfl, Option.mem_toList.mp htext⟩
  · intro elem n ih prefixes value name line hline
    rw [EnumerateArchive.leaves] at hline
    obtain ⟨item, hitem, hline⟩ := List.mem_flatMap.mp hline
    obtain ⟨e, he, hpath, htext⟩ := ih _ item.1 _ line hline
    refine ⟨e.under (decimal item.2), ?_, ?_, htext⟩
    · rw [entries]
      exact List.mem_flatMap.mpr ⟨item, hitem, List.mem_map_of_mem he⟩
    · rw [hpath, List.append_assoc]
      rfl
  · intro tag fields ih prefixes value name line hline
    rw [EnumerateArchive.leaves] at hline
    obtain ⟨e, he, hpath, htext⟩ := ih _ value line hline
    refine ⟨e, he, ?_, htext⟩
    rw [hpath, List.append_assoc]
    rfl
  · exact fun _ _ line hline => absurd hline List.not_mem_nil
  · intro name ty rest ih ih' prefixes value line hline
    rcases List.mem_append.mp hline with hline | hline
    · obtain ⟨e, he, hpath, htext⟩ := ih _ value.1 _ line hline
      exact ⟨e.under name.val, List.mem_append_left _ (List.mem_map_of_mem he), hpath, htext⟩
    · obtain ⟨e, he, h⟩ := ih' _ value.2 line hline
      exact ⟨e, List.mem_append_right _ he, h⟩

/-! ### Texts of leaves -/

/-- The leaves whose text is read back: integers and enumerators. -/
def isInteger : Ty → Bool
  | .int _ _ => true
  | .enum _ => true
  | _ => false

theorem exists_parseValue (floats : FloatParse) (text : Bytes) {t : Ty}
    (hscalar : isScalar t = true) (h : Handled t) :
    ∃ v, SetArchive.parseValue floats text t = some v := by
  cases t with
  | object => cases hscalar
  | array => cases hscalar
  | bool => exact ⟨_, rfl⟩
  | int signed _ => cases signed <;> exact ⟨_, rfl⟩
  | float32 => exact ⟨_, rfl⟩
  | float64 => exact ⟨_, rfl⟩
  | enum _ => exact ⟨_, rfl⟩
  | optional elem => cases elem with
    | bool => exact ⟨_, rfl⟩
    | int => exact ⟨_, rfl⟩
    | float32 => exact ⟨_, rfl⟩
    | float64 => exact ⟨_, rfl⟩
    | _ => exact absurd h Bool.false_ne_true
  | _ => exact absurd h Bool.false_ne_true

theorem size_le (size : IntSize) : 8 * size.bytes ≤ 64 := by
  cases size <;> decide

theorem toInt_bounds {size : IntSize} (v : Word size) : -2 ^ 63 ≤ v.toInt ∧ v.toInt < 2 ^ 63 := by
  have hpow : (2 : ℤ) ^ (8 * size.bytes - 1) ≤ 2 ^ 63 :=
    pow_le_pow_right₀ (by norm_num) (by have := size_le size; omega)
  exact ⟨(neg_le_neg hpow).trans v.le_toInt, v.toInt_lt.trans_le hpow⟩

/-- An integer is read back. -/
theorem parseValue_int (floats : FloatFormat) (parse : FloatParse) {beyond : Bytes}
    (hbeyond : Ends beyond) {signed : Bool} {size : IntSize} (v : Word size) {text : Bytes}
    (h : formatValue floats (.int signed size) v = some text) :
    SetArchive.parseValue parse (text ++ beyond) (.int signed size) = some v := by
  cases signed with
  | true =>
    obtain rfl := Option.some.inj h
    obtain ⟨hlo, hhi⟩ := toInt_bounds v
    rw [SetArchive.parseValue, strtol_formatInt hbeyond hlo hhi]
    exact congrArg some (BitVec.ofInt_toInt)
  | false =>
    obtain rfl := Option.some.inj h
    have hlt : v.toNat < 2 ^ 64 :=
      v.isLt.trans_le (Nat.pow_le_pow_right (by norm_num) (size_le size))
    rw [SetArchive.parseValue, strtoull_decimal hbeyond hlt]
    exact congrArg some ((BitVec.ofNat_toNat _ v).trans (BitVec.setWidth_eq v))

/-- An enumerator that an `int32_t` has room for: any one but the large ones of eight bytes. -/
def EnumFits (e : EnumType) (v : Word e.size) : Prop :=
  e.size = .eight → -2 ^ 31 ≤ v.toInt ∧ v.toInt < 2 ^ 31

theorem signExtend_setWidth_iff (v : BitVec 64) :
    (v.setWidth 32).signExtend 64 = v ↔ -2 ^ 31 ≤ v.toInt ∧ v.toInt < 2 ^ 31 := by
  have hlt := v.isLt
  rw [← BitVec.toInt_inj, BitVec.toInt_signExtend_of_le (by decide), BitVec.toInt_setWidth,
    BitVec.toInt_eq_toNat_bmod v]
  simp only [Int.bmod_def]
  omega

/-- Nothing is lost of a smaller one. -/
theorem signExtend_signExtend {w : ℕ} (h : w ≤ 32) (v : BitVec w) :
    (v.signExtend 32).signExtend w = v := by
  refine BitVec.eq_of_getLsbD_eq fun i hi => ?_
  rw [BitVec.signExtend_eq_setWidth_of_le _ h, BitVec.getLsbD_setWidth, BitVec.getLsbD_signExtend,
    if_pos hi]
  simp [hi, hi.trans_le h]

theorem signExtend_setWidth {w : ℕ} (h : w ≤ 32) (v : BitVec w) :
    (v.setWidth 32).signExtend w = v := by
  rw [BitVec.signExtend_eq_setWidth_of_le _ h, BitVec.setWidth_setWidth_of_le _ h,
    BitVec.setWidth_eq]

/-- **Which enumerators survive the conversion to `int32_t`.** -/
theorem signExtend_enumToInt32_iff (e : EnumType) (v : Word e.size) :
    (enumToInt32 e v).signExtend _ = v ↔ EnumFits e v := by
  obtain ⟨signed, size, items⟩ := e
  by_cases hsize : size = .eight
  · subst hsize
    have henum : enumToInt32 ⟨signed, .eight, items⟩ v = BitVec.setWidth 32 v := by
      unfold enumToInt32
      split_ifs
      · exact BitVec.signExtend_eq_setWidth_of_le v (show 32 ≤ 64 by decide)
      · rfl
    unfold EnumFits
    rw [henum, forall_prop_of_true rfl]
    exact signExtend_setWidth_iff v
  · have hle : 8 * size.bytes ≤ 32 := by
      cases size with
      | eight => exact absurd rfl hsize
      | _ => decide
    refine iff_of_true ?_ fun h => absurd h hsize
    unfold enumToInt32
    split_ifs
    · exact signExtend_signExtend hle v
    · exact signExtend_setWidth hle v

/-- An enumerator is read back exactly if an `int32_t` has room for it. -/
theorem parseValue_enum_iff (floats : FloatFormat) (parse : FloatParse) {beyond : Bytes}
    (hbeyond : Ends beyond) {e : EnumType} (v : Word e.size) {text : Bytes}
    (h : formatValue floats (.enum e) v = some text) :
    SetArchive.parseValue parse (text ++ beyond) (.enum e) = some v ↔ EnumFits e v := by
  obtain rfl := Option.some.inj h
  have hlo := (enumToInt32 e v).le_toInt
  have hhi := (enumToInt32 e v).toInt_lt
  rw [SetArchive.parseValue, strtol_formatInt hbeyond (by omega) (by omega), BitVec.ofInt_toInt,
    Option.some.injEq]
  exact signExtend_enumToInt32_iff e v

/-- The values whose text is read back as the same value, where it should be. -/
def fits : (t : Ty) → t.Val → Prop
  | .enum e, v => EnumFits e v
  | _, _ => True

theorem fits_of_not_isInteger {t : Ty} (h : ¬isInteger t = true) (v : t.Val) : fits t v := by
  cases t with
  | enum => exact absurd rfl h
  | _ => trivial

theorem exists_formatValue (floats : FloatFormat) {t : Ty} (h : isInteger t = true) (v : t.Val) :
    ∃ text, formatValue floats t v = some text := by
  cases t with
  | int signed size => cases signed <;> exact ⟨_, rfl⟩
  | enum e => exact ⟨_, rfl⟩
  | _ => cases h

/-- **What is read back.** -/
theorem parseValue_iff (floats : FloatFormat) (parse : FloatParse) {beyond : Bytes}
    (hbeyond : Ends beyond) {t : Ty} (ht : isInteger t = true) {v : t.Val} {text : Bytes}
    (h : formatValue floats t v = some text) :
    SetArchive.parseValue parse (text ++ beyond) t = some v ↔ fits t v := by
  cases t with
  | int signed size => exact iff_of_true (parseValue_int floats parse hbeyond v h) trivial
  | enum e => exact parseValue_enum_iff floats parse hbeyond v h
  | _ => cases ht

end ItemArchive

/-! ### The handler -/

namespace SerializableHandler

open ItemArchive

variable {fields : Fields} {parse : FloatParse} {floats : FloatFormat}
  {beyondKey beyondValue rootPrefix : Bytes} {size : ℕ} {value : fields.Vals}

/-- What access by path is for, for one object and one key and text. -/
structure Works (parse : FloatParse) (floats : FloatFormat)
    (beyondKey beyondValue rootPrefix : Bytes) (size : ℕ) (value : fields.Vals) (key text : Bytes) :
    Prop where
  /-- `Set` finds exactly the path of a leaf, and changes that leaf, or else nothing. -/
  set : ∃ r, set parse beyondKey beyondValue value key text = some r ∧
    (r.found = true ↔ ∃ e ∈ fieldEntries fields value, key = join e.path) ∧
    (r.found = true → ∃ e ∈ fieldEntries fields value, ∃ v, key = join e.path ∧
      fieldEntries fields r.value = replace e.path ⟨e.path, e.ty, v⟩ (fieldEntries fields value)) ∧
    (r.found = false → r.value = value)
  /-- `Read` finds every path that is enumerated, and emits the same text. -/
  read : ∀ line ∈ EnumerateArchive.Request.leaves floats ⟨fields, value, rootPrefix, size⟩,
    ∀ path, line.prefixes ++ [line.name] = rootPrefix :: path →
      read floats beyondKey size value (join path) = some ⟨true, value, some line.text⟩
  /-- `Set` of the text of an integer or an enumerator changes nothing. -/
  unchanged : ∀ e ∈ fieldEntries fields value, isInteger e.ty = true → ∀ text,
    formatValue floats e.ty e.value = some text →
      SerializableHandler.set parse beyondKey beyondValue value (join e.path) text =
        some ⟨true, value, none⟩

/-- A key that leads to a leaf, but is not its path: there is more behind the leaf, a dot at the
end, a zero byte for a dot, or an index that is not written in decimal. -/
def Misspelled (fields : Fields) (key : Bytes) : Prop :=
  ∃ path, SpellsField fields key path ∧ key ≠ join path

/-- What becomes of the path of a leaf. -/
theorem acceptKey_join (hfields : HandledFields fields) {beyond : Bytes} (hbeyond : Ends beyond)
    (leaf : Leaf) {e : Entry} (he : e ∈ fieldEntries fields value) :
    ∃ put : e.ty.Val → fields.Vals, (∀ v, put v = value ↔ v = e.value) ∧
      acceptKey beyond leaf fields value (join e.path) = (leaf e.ty e.value).map (·.map put) := by
  have hspells := spells_join fields hfields value e he
  have houtcome : Outcome leaf _ _ _ _ _ :=
    accept_outcome hbeyond fields value (join e.path) hfields
  unfold acceptKey
  rw [keys_eq]
  cases houtcome with
  | stops _ h => exact absurd hspells (h _)
  | missing _ h => exact absurd hspells (h _)
  | leaf e' put hmem _ h hput hleaves hresult =>
    obtain rfl := eq_of_path fields hfields value e he e' hmem ((h _).mp hspells)
    refine ⟨put, fun v => ⟨fun hv => ?_, fun hv => hv ▸ hput⟩, hresult⟩
    -- the leaf that was put there is the one that is at its path
    have hv' : ⟨e.path, e.ty, v⟩ ∈ fieldEntries fields value := by
      rw [← hv, hleaves v]
      exact List.mem_map.mpr ⟨e, he, if_pos rfl⟩
    exact Entry.value_eq (eq_of_path fields hfields value _ hv' e he rfl)

/-- **`Read` of a path that is enumerated** emits the text of its line. -/
theorem read_of_line (hfields : HandledFields fields) (hkey : Ends beyondKey)
    {line : EnumerateArchive.Line}
    (hline : line ∈ EnumerateArchive.Request.leaves floats ⟨fields, value, rootPrefix, size⟩)
    (hsize : line.text.length < size) {path : List Bytes}
    (hpath : line.prefixes ++ [line.name] = rootPrefix :: path) :
    read floats beyondKey size value (join path) = some ⟨true, value, some line.text⟩ := by
  obtain ⟨e, he, hpath', htext⟩ := exists_entry_of_line floats fields _ value line hline
  obtain rfl : path = e.path := (List.cons.inj (hpath.symm.trans hpath')).2
  obtain ⟨put, hput, hresult⟩ := acceptKey_join hfields hkey (ReadArchive.leaf floats size) he
  unfold read
  rw [hresult]
  unfold ReadArchive.leaf
  rw [htext]
  dsimp only
  rw [if_pos hsize]
  show some (ItemArchive.Result.mk true (put e.value) (some line.text)) = _
  rw [(hput e.value).mpr rfl]

/-- What `Set` leaves as it is. -/
theorem set_join_iff (hfields : HandledFields fields) (hkey : Ends beyondKey)
    (hvalue : Ends beyondValue) {e : Entry} (he : e ∈ fieldEntries fields value)
    (hinteger : isInteger e.ty = true) {text : Bytes}
    (htext : formatValue floats e.ty e.value = some text) :
    set parse beyondKey beyondValue value (join e.path) text = some ⟨true, value, none⟩ ↔
      fits e.ty e.value := by
  obtain ⟨put, hput, hresult⟩ :=
    acceptKey_join hfields hkey (SetArchive.leaf parse (text ++ beyondValue)) he
  obtain ⟨hscalar, hhandled⟩ := scalar_of_mem hfields he
  obtain ⟨v, hv⟩ := exists_parseValue parse (text ++ beyondValue) hscalar hhandled
  have hset : set parse beyondKey beyondValue value (join e.path) text =
      some ⟨true, put v, none⟩ := by
    unfold set
    rw [hresult]
    unfold SetArchive.leaf
    rw [hv]
    rfl
  rw [hset, ← parseValue_iff floats parse hvalue hinteger htext, hv, Option.some.injEq,
    Option.some.injEq, ← hput v]
  exact ⟨fun h => congrArg Result.value h, fun h => h ▸ rfl⟩

/-- What `Set` finds, and what it changes. -/
theorem set_iff (hfields : HandledFields fields) (hkey : Ends beyondKey) (key text : Bytes) :
    (∃ r, set parse beyondKey beyondValue value key text = some r ∧
      (r.found = true ↔ ∃ e ∈ fieldEntries fields value, key = join e.path) ∧
      (r.found = true → ∃ e ∈ fieldEntries fields value, ∃ v, key = join e.path ∧
        fieldEntries fields r.value =
          replace e.path ⟨e.path, e.ty, v⟩ (fieldEntries fields value)) ∧
      (r.found = false → r.value = value)) ↔
    ¬StopsField fields key ∧ ¬Misspelled fields key := by
  have hpath : ∀ e ∈ fieldEntries fields value, key = join e.path → SpellsField fields key e.path :=
    fun e he h => h ▸ spells_join fields hfields value e he
  have houtcome : Outcome (SetArchive.leaf parse (text ++ beyondValue)) _ _ _ _ _ :=
    accept_outcome hkey fields value key hfields
  unfold set acceptKey
  rw [keys_eq]
  dsimp only
  cases houtcome with
  | stops h _ hresult =>
    rw [hresult]
    refine iff_of_false ?_ fun h' => h'.1 h
    rintro ⟨r, hr, -⟩
    cases hr
  | missing h hspells hresult =>
    rw [hresult]
    refine iff_of_true ⟨_, rfl, ?_, fun h => absurd h Bool.false_ne_true, fun _ => rfl⟩ ⟨h, ?_⟩
    · refine iff_of_false Bool.false_ne_true ?_
      rintro ⟨e, he, heq⟩
      exact hspells _ (hpath e he heq)
    · rintro ⟨path, hpath, -⟩
      exact hspells path hpath
  | leaf e put hmem h hspells hput hleaves hresult =>
    obtain ⟨hscalar, hhandled⟩ := scalar_of_mem hfields hmem
    obtain ⟨v, hv⟩ := exists_parseValue parse (text ++ beyondValue) hscalar hhandled
    have hleaf : SetArchive.leaf parse (text ++ beyondValue) e.ty e.value =
        some ⟨true, v, none⟩ := by
      unfold SetArchive.leaf
      rw [hv]
    rw [hresult, hleaf]
    constructor
    · rintro ⟨r, hr, hfound, -⟩
      obtain rfl := Option.some.inj hr
      obtain ⟨e', he', heq⟩ := hfound.mp rfl
      refine ⟨h, ?_⟩
      rintro ⟨path, hspells', hne⟩
      rw [(hspells path).mp hspells', ← (hspells e'.path).mp (hpath e' he' heq)] at hne
      exact hne heq
    · rintro ⟨-, hspelled⟩
      have heq : key = join e.path := by
        by_contra hne
        exact hspelled ⟨e.path, (hspells e.path).mpr rfl, hne⟩
      exact ⟨_, rfl, iff_of_true rfl ⟨e, hmem, heq⟩, fun _ => ⟨e, hmem, v, heq, hleaves v⟩,
        fun h => absurd h.symm Bool.false_ne_true⟩

/-- **When access by path works**: exactly if the key neither ends where the index of an array
should be nor is a leaf's path misspelled, and all enumerators of the object fit into an
`int32_t`. -/
theorem works_iff (parse : FloatParse) (floats : FloatFormat) (rootPrefix : Bytes)
    (hfields : HandledFields fields) (hkey : Ends beyondKey) (hvalue : Ends beyondValue)
    (hsize : ∀ line ∈ EnumerateArchive.Request.leaves floats ⟨fields, value, rootPrefix, size⟩,
      line.text.length < size) (key text : Bytes) :
    Works parse floats beyondKey beyondValue rootPrefix size value key text ↔
      ¬StopsField fields key ∧ ¬Misspelled fields key ∧
        ∀ e ∈ fieldEntries fields value, fits e.ty e.value := by
  constructor
  · intro h
    obtain ⟨hstops, hspelled⟩ := (set_iff hfields hkey key text).mp h.set
    refine ⟨hstops, hspelled, fun e he => ?_⟩
    by_cases hinteger : isInteger e.ty = true
    · obtain ⟨text', htext⟩ := exists_formatValue floats hinteger e.value
      exact (set_join_iff hfields hkey hvalue he hinteger htext).mp
        (h.unchanged e he hinteger _ htext)
    · exact fits_of_not_isInteger hinteger e.value
  · rintro ⟨hstops, hspelled, hfits⟩
    exact {
      set := (set_iff hfields hkey key text).mpr ⟨hstops, hspelled⟩
      read := fun line hline path hpath =>
        read_of_line hfields hkey hline (hsize line hline) hpath
      unchanged := fun e he hinteger text' htext =>
        (set_join_iff hfields hkey hvalue he hinteger htext).mpr (hfits e he) }

/-- An object with one number, `a`. -/
def oneNumber : Fields := .cons ⟨[0x61], by decide⟩ (.int true .one) .nil

/-- The functions for floating point numbers, none of which is called here. -/
def noFloats : FloatFormat × FloatParse :=
  (⟨fun _ => [], fun _ => []⟩, ⟨fun _ => 0, fun _ => 0, fun _ => 0, fun _ => 0⟩)

theorem works_a :
    @Works oneNumber noFloats.2 noFloats.1 [0x20] [0x0d] [] 10 (5#8, ()) [0x61] [0x37] := by
  refine (@works_iff oneNumber _ _ _ _ noFloats.2 noFloats.1 [] ?_ ?_ ?_ ?_ [0x61] [0x37]).mpr
    ⟨?_, ?_, ?_⟩
  · refine ⟨fun c hc => ?_, List.not_mem_nil, rfl, trivial⟩
    obtain rfl : c = 0x61 := List.mem_singleton.mp hc
    decide
  · intro c hc
    obtain rfl : 0x20 = c := Option.some.inj hc
    decide
  · intro c hc
    obtain rfl : 0x0d = c := Option.some.inj hc
    decide
  · decide
  · rintro (⟨_, h⟩ | h)
    · exact h
    · exact h
  · rintro ⟨path, ⟨path', _, rfl, rfl⟩ | h, hne⟩
    · exact hne rfl
    · exact h
  · intro e he
    obtain rfl := List.mem_singleton.mp he
    trivial

/-- `a.b` finds the number. -/
theorem not_works :
    ¬@Works oneNumber noFloats.2 noFloats.1 [0x20] [0x0d] [] 10 (5#8, ()) [0x61, 0x2e, 0x62]
      [0x37] := by
  intro h
  obtain ⟨r, hr, hfound, -⟩ := h.set
  have hresult : @set oneNumber noFloats.2 [0x20] [0x0d] (5#8, ()) [0x61, 0x2e, 0x62] [0x37] =
      some ⟨true, (7#8, ()), none⟩ := rfl
  obtain rfl := Option.some.inj (hresult.symm.trans hr)
  obtain ⟨e, he, heq⟩ := hfound.mp rfl
  obtain rfl := List.mem_singleton.mp he
  cases heq

end SerializableHandler

end Mjlib.Micro
