import Mjlib.Base.Equiv.Strtol
import Mjlib.Lib.Json
import Mjlib.Telemetry.EmitJson
import Mjlib.Telemetry.Equiv.BinarySchemaParser.Accepts

/-!
# The JSON of an instance

What `EmitJson` should write: `ElementJson` gives an instance its JSON value as a text
(`isValue_of_elementJson`), with the spaces that the code puts.  `EmitJson` writes it and stops behind
the instance where nothing in the data or the names is beyond it (`emitJson_of_emittable`); where
something is, it fails or what it writes is another text (`emittable_of_emitJson`).  Together:
`emits_iff`.
-/

namespace Mjlib.Telemetry.EmitJson

open Base (Ptime decimal formatInt escapeJsonString escapeJsonChar)
open BinarySchemaParser

/-! ### The JSON value -/

/-- The number that a varint stands for: the lowest bit is the sign. -/
def zigZag (x : UInt64) : ℤ :=
  if x.toNat % 2 = 0 then (x.toNat / 2 : ℕ) else -((x.toNat / 2 : ℕ) : ℤ) - 1

/-- The bits of a scalar. -/
def scalarBits (size : ℕ) (d : Bytes) : BitVec (8 * size) := BitVec.ofNat _ (LittleEndian.decode d)

/-- A `float` that is a number. -/
def IsFiniteFloat (x : BitVec 32) : Prop := x.toNat / 2 ^ 23 % 2 ^ 8 ≠ 2 ^ 8 - 1

/-- A `double` that is a number. -/
def IsFiniteDouble (x : BitVec 64) : Prop := x.toNat / 2 ^ 52 % 2 ^ 11 ≠ 2 ^ 11 - 1

/-- The text for a value of an enumeration: its name, or its number. -/
def valueText (child : Element) (items : List (UInt64 × Bytes)) (key : UInt64) : Bytes :=
  match items.lookup key, child.shape with
  | some name, _ => name
  | none, .fixedInt _ | none, .varint => formatInt key.toBitVec.toInt
  | none, _ => decimal key.toNat

/-- The text of `n` values, by the texts of the values. -/
def JsonItems (P : Bytes → Bytes → Prop) : ℕ → Bytes → Bytes → Prop
  | 0, d, t => d = [] ∧ t = []
  | n + 1, d, t => ∃ first rest text more, d = first ++ rest ∧ P first text ∧
      JsonItems P n rest more ∧ t = text ++ (separator n ++ more)

/-- A member of an object: a name and a value. -/
def member (name text : Bytes) : Bytes := Json.quote name ++ (ascii " : " ++ text)

/-- The values of enumerations; those of signed integers are among them. -/
def EnumKey : Element → UInt64 → Bytes → Prop := Element.Key fun o => o = .signedItem

section

variable (print : Printing)

mutual

/-- The text of the JSON value of an instance. -/
def ElementJson : Element → Bytes → Bytes → Prop
  | .mk _ _ _ shape, d, t => ShapeJson shape d t

def ShapeJson : Shape → Bytes → Bytes → Prop
  | .final, _, _ | .unnamed _, _, _ => False
  | .null, d, t => d = [] ∧ t = ascii "null"
  | .boolean, d, t => d = [0] ∧ t = ascii "false" ∨ d = [1] ∧ t = ascii "true"
  | .fixedInt intSize, d, t => d.length = intSize.toNat ∧
      t = formatInt (scalarBits intSize.toNat d).toInt
  | .fixedUInt intSize, d, t => d.length = intSize.toNat ∧ t = decimal (LittleEndian.decode d)
  | .varint, d, t => ∃ x, IsVaruint x d ∧ t = formatInt (zigZag x)
  | .varuint, d, t => ∃ x, IsVaruint x d ∧ t = decimal x.toNat
  | .float32, d, t => d.length = 4 ∧ IsFiniteFloat (scalarBits 4 d) ∧
      t = print.double (print.toDouble (scalarBits 4 d))
  | .float64, d, t => d.length = 8 ∧ IsFiniteDouble (scalarBits 8 d) ∧
      t = print.double (scalarBits 8 d)
  | .bytes, d, t => ∃ raw, IsText raw d ∧ t = quoted (print.base64 raw)
  | .string, d, t => ∃ text, IsText text d ∧ t = Json.quote text
  | .object _ fields, d, t => ∃ members, FieldsJson fields d members ∧
      t = ascii "\x7b" ++ (members ++ ascii "\x7d")
  | .enum child items, d, t => ∃ key, EnumKey child key d ∧
      t = Json.quote (valueText child items key)
  | .array child, d, t => ∃ n digits items texts, d = digits ++ items ∧ IsVaruint n digits ∧
      JsonItems (ElementJson child) n.toNat items texts ∧ t = ascii "[" ++ (texts ++ ascii "]")
  | .fixedArray arraySize child, d, t => ∃ texts,
      JsonItems (ElementJson child) arraySize.toNat d texts ∧ t = ascii "[" ++ (texts ++ ascii "]")
  | .map child, d, t => ∃ n digits entries texts, d = digits ++ entries ∧ IsVaruint n digits ∧
      JsonItems (fun d t => ∃ key k v text, d = k ++ v ∧ IsText key k ∧ ElementJson child v text ∧
        t = member key text) n.toNat entries texts ∧ t = ascii "\x7b" ++ (texts ++ ascii "\x7d")
  | .union children, d, t => ∃ index digits chosen, d = digits ++ chosen ∧
      IsVaruint index digits ∧ NthJson children index.toNat chosen t
  | .timestamp, d, t => d.length = 8 ∧ ∃ time,
      Base.convertEpochMicrosecondsToPtime (scalarBits 8 d) = some time ∧ t = quoted (print.ptime time)
  | .duration, d, t => d.length = 8 ∧
      t = quoted (print.duration (Base.convertMicrosecondsToDuration (scalarBits 8 d)))

/-- One member for each field. -/
def FieldsJson : List Field → Bytes → Bytes → Prop
  | [], d, t => d = [] ∧ t = []
  | .mk _ name _ element _ :: fields, d, t => ∃ first rest text more, d = first ++ rest ∧
      ElementJson element first text ∧ FieldsJson fields rest more ∧
      t = member name text ++ (separator fields.length ++ more)

def NthJson : List Element → ℕ → Bytes → Bytes → Prop
  | [], _, _, _ => False
  | child :: _, 0, d, t => ElementJson child d t
  | _ :: children, index + 1, d, t => NthJson children index d t

end

end

/-! ### What `EmitJson` can write -/

/-- A character that `EscapeJsonString` writes as JSON has it. -/
def IsHandled (c : UInt8) : Prop := escapeJsonChar c = Json.escapeChar c

/-- An unsigned integer, or an enumeration of one. -/
def IsUnsigned : Shape → Prop
  | .fixedUInt _ | .varuint => True
  | _ => False

/-- What `EmitJson` writes as it should: floats that are numbers, times in the years that boost knows,
bytes that are some, strings whose control characters have an escape of their own, names without any
character that needs one, values of enumerations of unsigned integers, and no map. -/
def emittable : Limits where
  node
    | .map _, _ => False
    | .float32, d => IsFiniteFloat (scalarBits 4 d)
    | .float64, d => IsFiniteDouble (scalarBits 8 d)
    | .timestamp, d => (Base.convertEpochMicrosecondsToPtime (scalarBits 8 d)).isSome
    | .bytes, d => ∃ raw, IsText raw d ∧ raw ≠ [] ∧ raw.length ≤ Format.kMaxStringSize
    | .string, d => ∃ text, IsText text d ∧ text.length ≤ Format.kMaxStringSize ∧
        ∀ c ∈ text, IsHandled c
    | .object _ fields, _ => ∀ field ∈ fields, ∀ c ∈ field.name, Json.IsPlain c
    | .enum child items, d => IsUnsigned child.shape ∧
        ∃ key, EnumKey child key d ∧ ∀ c ∈ enumText items key, Json.IsPlain c
    | _, _ => True
  key key := key.length ≤ Format.kMaxStringSize

/-- What surrounds a value goes on with a comma or a bracket, or ends with it. -/
def Follows (u : Bytes) : Prop :=
  u.head? = none ∨ u.head? = some 0x2c ∨ u.head? = some 0x7d ∨ u.head? = some 0x5d

theorem follows_separator {n : ℕ} {t u : Bytes} (hu : Follows u) (ht : n = 0 → t = []) :
    Follows (separator n ++ (t ++ u)) := by
  by_cases hn : n = 0
  · rw [separator, if_pos hn, ht hn]
    exact hu
  · rw [separator, if_neg hn]
    exact .inr (.inl rfl)

theorem follows_cons (c : UInt8) (h : c = 0x2c ∨ c = 0x7d ∨ c = 0x5d) (u : Bytes) :
    Follows (c :: u) := by
  rcases h with rfl | rfl | rfl
  · exact .inr (.inl rfl)
  · exact .inr (.inr (.inl rfl))
  · exact .inr (.inr (.inr rfl))

/-! ### Integers -/

/-- `ReadVarint` undoes the zig-zag. -/
theorem toInt_readVarint (x : UInt64) :
    ((x >>> 1) - (x &&& 1) * x).toBitVec.toInt = zigZag x := by
  have hlt := x.toNat_lt
  have hhalf : (x >>> 1).toNat = x.toNat / 2 := by
    rw [UInt64.toNat_shiftRight, show (1 : UInt64).toNat % 64 = 1 from rfl,
      Nat.shiftRight_eq_div_pow]
  have hbit := toNat_and_one x
  rw [zigZag]
  split_ifs with heven
  · have hzero : x &&& 1 = 0 := by
      apply UInt64.toNat_inj.mp
      rw [hbit, heven]
      rfl
    have htoNat : (x >>> 1).toBitVec.toNat = x.toNat / 2 := hhalf
    rw [hzero, UInt64.zero_mul, UInt64.sub_zero,
      BitVec.toInt_eq_toNat_of_lt (by rw [htoNat]; omega), htoNat]
  · have hone : x &&& 1 = 1 := by
      apply UInt64.toNat_inj.mp
      rw [hbit]
      show _ = 1
      omega
    have htoNat : ((x >>> 1) - x).toBitVec.toNat = 2 ^ 64 - x.toNat / 2 - 1 := by
      show ((x >>> 1) - x).toNat = _
      rw [UInt64.toNat_sub, hhalf]
      omega
    rw [hone, UInt64.one_mul, BitVec.toInt_eq_toNat_cond, htoNat, if_neg (by omega)]
    omega

theorem value_readScalar {size : ℕ} {d : Bytes} (h : d.length = size) (s : Bytes) :
    value (readScalar size (d ++ s)) = .ok (scalarBits size d, s) := by
  have hle : size ≤ (d ++ s).length := by
    rw [List.length_append]
    omega
  rw [readScalar, if_pos hle, List.take_left' h, List.drop_left' h]
  rfl

/-- Sign extension keeps the number. -/
theorem toInt_signExtend_scalarBits {intSize : UInt8} (h : IsIntSize intSize) (d : Bytes) :
    ((scalarBits intSize.toNat d).signExtend 64).toInt = (scalarBits intSize.toNat d).toInt := by
  apply BitVec.toInt_signExtend_of_le
  rcases h with rfl | rfl | rfl | rfl <;> decide

theorem toNat_scalarBits {size : ℕ} {d : Bytes} (h : d.length = size) :
    (scalarBits size d).toNat = LittleEndian.decode d := by
  have hlt := LittleEndian.decode_lt d
  rw [h] at hlt
  rw [scalarBits, BitVec.toNat_ofNat, Nat.mod_eq_of_lt]
  rw [pow_mul]
  exact hlt

/-- The number of an unsigned integer fits 64 bits. -/
theorem decode_lt_of_isIntSize {intSize : UInt8} (h : IsIntSize intSize) {d : Bytes}
    (hlen : d.length = intSize.toNat) : LittleEndian.decode d < 2 ^ 64 := by
  have hlt := LittleEndian.decode_lt d
  refine hlt.trans_le ?_
  rw [hlen, show 2 ^ 64 = 256 ^ 8 from rfl]
  apply Nat.pow_le_pow_right (by decide)
  rcases h with rfl | rfl | rfl | rfl <;> decide

/-! ### Scalars -/

variable {print : Printing}

/-- The types that `EmitJson` has no trouble with. -/
def IsScalar : Shape → Prop
  | .null | .boolean | .fixedInt _ | .fixedUInt _ | .varint | .varuint | .float32 | .float64
  | .timestamp | .duration => True
  | _ => False

theorem value_readVarint {x : UInt64} {d : Bytes} (h : IsVaruint x d) (s : Bytes) :
    value (readVarint (d ++ s)) = .ok (((x >>> 1) - (x &&& 1) * x).toBitVec, s) := by
  rw [readVarint, h.read]
  rfl

/-- Scalars are written as they should be, whatever follows them. -/
theorem emitShape_scalar {name schema : Bytes} {size : Option ℕ} {shape : Shape} {d t : Bytes}
    (hscalar : IsScalar shape) (hproper : shape.Proper) (h : ShapeJson print shape d t) (s : Bytes) :
    emitShape print (.mk name schema size shape) shape (d ++ s) = .ok (t, s) := by
  cases shape with
  | null =>
    obtain ⟨rfl, rfl⟩ := h
    rw [emitShape]
    rfl
  | boolean =>
    rcases h with ⟨rfl, rfl⟩ | ⟨rfl, rfl⟩
    · rw [emitShape]
      rfl
    · rw [emitShape]
      rfl
  | fixedInt intSize =>
    obtain ⟨hlen, rfl⟩ := h
    have hsize : intSize = 1 ∨ intSize = 2 ∨ intSize = 4 ∨ intSize = 8 := hproper
    rw [emitShape, Element.readIntLike, if_pos hsize, value_readScalar hlen]
    exact congrArg (fun z => Except.ok (formatInt z, s)) (toInt_signExtend_scalarBits hproper d)
  | fixedUInt intSize =>
    obtain ⟨hlen, rfl⟩ := h
    have hsize : intSize = 1 ∨ intSize = 2 ∨ intSize = 4 ∨ intSize = 8 := hproper
    rw [emitShape, Element.readUIntLike, if_pos hsize, value_readScalar hlen]
    refine congrArg (fun n => Except.ok (decimal n, s)) ?_
    rw [toNat_scalarBits hlen, UInt64.toNat_ofNat',
      Nat.mod_eq_of_lt (decode_lt_of_isIntSize hproper hlen)]
  | varint =>
    obtain ⟨x, hx, rfl⟩ := h
    rw [emitShape, Element.readIntLike, value_readVarint hx]
    exact congrArg (fun z => Except.ok (formatInt z, s)) (toInt_readVarint x)
  | varuint =>
    obtain ⟨x, hx, rfl⟩ := h
    rw [emitShape, Element.readUIntLike, hx.value_read]
    rfl
  | float32 =>
    obtain ⟨hlen, -, rfl⟩ := h
    rw [emitShape, Element.readFloatLike, value_readScalar hlen]
    rfl
  | float64 =>
    obtain ⟨hlen, -, rfl⟩ := h
    rw [emitShape, Element.readFloatLike, value_readScalar hlen]
    rfl
  | timestamp =>
    obtain ⟨hlen, time, htime, rfl⟩ := h
    rw [emitShape, Element.readIntLike, value_readScalar hlen]
    simp only [bind, Except.bind, htime]
    rfl
  | duration =>
    obtain ⟨hlen, rfl⟩ := h
    rw [emitShape, Element.readIntLike, value_readScalar hlen]
    rfl
  | _ => exact hscalar.elim

theorem eq_of_emitShape_scalar {name schema : Bytes} {size : Option ℕ} {shape : Shape}
    {d t t' s rest : Bytes} (hproper : shape.Proper) (h : ShapeJson print shape d t')
    (hemit : emitShape print (.mk name schema size shape) shape (d ++ s) = .ok (t, rest))
    (hscalar : IsScalar shape) : rest = s ∧ t = t' := by
  rw [emitShape_scalar hscalar hproper h] at hemit
  obtain ⟨rfl, rfl⟩ := Prod.mk.inj (Except.ok.inj hemit)
  exact ⟨rfl, rfl⟩

/-! ### Strings and enumerations -/

theorem escapeJsonString_of_handled {s : Bytes} (h : ∀ c ∈ s, IsHandled c) :
    escapeJsonString s = Json.escape s := by
  induction s with
  | nil => rfl
  | cons c s ih =>
    have hc : escapeJsonChar c = Json.escapeChar c := h c (by simp)
    rw [escapeJsonString, Json.escape, List.flatMap_cons, List.flatMap_cons, hc]
    exact congrArg (Json.escapeChar c ++ ·) (ih fun c hc => h c (List.mem_cons_of_mem _ hc))

/-- A character that is not handled is written as it is. -/
theorem escapeJsonChar_of_not_handled {c : UInt8} (h : ¬ IsHandled c) :
    escapeJsonChar c = [c] ∧ c ≠ Json.reverseSolidus ∧ ¬ Json.IsPlain c := by
  have hspecial : IsHandled 0x22 ∧ IsHandled 0x5c ∧ IsHandled 0x08 ∧ IsHandled 0x0c ∧
      IsHandled 0x0a ∧ IsHandled 0x0d ∧ IsHandled 0x09 ∧ IsHandled 0 :=
    ⟨rfl, rfl, rfl, rfl, rfl, rfl, rfl, rfl⟩
  obtain ⟨h₁, h₂, h₃, h₄, h₅, h₆, h₇, h₈⟩ := hspecial
  have hne {x : UInt8} (hx : IsHandled x) : c ≠ x := by
    rintro rfl
    exact h hx
  have hwritten : escapeJsonChar c = [c] := by
    rw [escapeJsonChar, if_neg (hne h₁), if_neg (hne h₂), if_neg (hne h₃), if_neg (hne h₄),
      if_neg (hne h₅), if_neg (hne h₆), if_neg (hne h₇), if_neg (hne h₈)]
  refine ⟨hwritten, hne h₂, fun hplain => h ?_⟩
  rw [IsHandled, hwritten, Json.escapeChar_of_isPlain hplain]

/-- Where what `EscapeJsonString` writes is the text that it should be, it has handled all. -/
theorem handled_of_append_eq {s : Bytes} : ∀ {t u : Bytes},
    escapeJsonString s ++ t = Json.escape s ++ u → ∀ c ∈ s, IsHandled c := by
  induction s with
  | nil => exact fun _ => nofun
  | cons c s ih =>
    intro t u h
    have hc : IsHandled c := by
      by_contra hnot
      obtain ⟨hwritten, hne, hplain⟩ := escapeJsonChar_of_not_handled hnot
      obtain ⟨cs, hcs, -⟩ := Json.escapeChar_of_not_isPlain hplain
      rw [escapeJsonString, Json.escape, List.flatMap_cons, List.flatMap_cons, hwritten, hcs] at h
      exact hne (List.cons.inj h).1
    refine List.forall_mem_cons.mpr ⟨hc, ih (t := t) (u := u) ?_⟩
    rw [escapeJsonString, Json.escape, List.flatMap_cons, List.flatMap_cons, hc, List.append_assoc,
      List.append_assoc] at h
    exact List.append_cancel_left h

theorem quoted_of_plain {s : Bytes} (h : ∀ c ∈ s, Json.IsPlain c) : quoted s = Json.quote s := by
  rw [Json.quote, Json.escape_of_forall_isPlain h]
  rfl

theorem plain_of_quoted_append {s t u : Bytes} (h : quoted s ++ t = Json.quote s ++ u) :
    (∀ c ∈ s, Json.IsPlain c) ∧ t = u := by
  have htail : s ++ [0x22] ++ t = Json.escape s ++ [Json.quotationMark] ++ u := (List.cons.inj h).2
  rw [List.append_assoc, List.append_assoc] at htail
  exact Json.eq_of_escape_append htail

/-- A key of an enumeration of unsigned integers is read, and its text is what is written for it. -/
theorem readUIntLike_of_key {child : Element} {key : UInt64} {d : Bytes}
    (hunsigned : IsUnsigned child.shape) (h : EnumKey child key d) :
    Reads child.readUIntLike d key ∧ ∀ items, valueText child items key = enumText items key := by
  cases child with
  | mk name schema size shape =>
    have hsame (hshape : IsUnsigned shape) (items : List (UInt64 × Bytes)) :
        valueText (.mk name schema size shape) items key = enumText items key := by
      rw [valueText, enumText]
      cases shape with
      | fixedUInt _ | varuint => cases items.lookup key <;> rfl
      | _ => exact hshape.elim
    refine ⟨Element.Key.reads _ _ _ ?_, hsame hunsigned⟩
    cases shape with
    | fixedUInt intSize => exact h
    | varuint => exact .inl (h.resolve_right fun hlong => nomatch hlong.1)
    | _ => exact hunsigned.elim

/-- The values of signed integers are not. -/
theorem readUIntLike_of_not_unsigned {child : Element} (hint : child.shape.IsInt)
    (h : ¬ IsUnsigned child.shape) (s : Bytes) : child.readUIntLike s = .error .assertion := by
  cases child with
  | mk name schema size shape =>
    cases shape with
    | fixedInt _ | varint => rfl
    | fixedUInt _ | varuint => exact (h trivial).elim
    | _ => exact hint.elim

/-! ### Within the limits -/

section

variable {P : Bytes → Prop} {Q : Bytes → Bytes → Prop} {emit : Bytes → Except Error (Bytes × Bytes)}

theorem writeItems_of_inTurn (h : ∀ d, P d → ∃ t, Q d t ∧ ∀ s, emit (d ++ s) = .ok (t, s)) {n : ℕ} :
    ∀ {d : Bytes}, InTurn P n d →
      ∃ t, JsonItems Q n d t ∧ ∀ s, writeItems emit n (d ++ s) = .ok (t, s) := by
  induction n with
  | zero =>
    rintro d rfl
    exact ⟨[], ⟨rfl, rfl⟩, fun _ => rfl⟩
  | succ n ih =>
    rintro d ⟨first, rest, rfl, hfirst, hrest⟩
    obtain ⟨text, htext, hemit⟩ := h first hfirst
    obtain ⟨more, hmore, hwrite⟩ := ih hrest
    refine ⟨text ++ (separator n ++ more), ⟨first, rest, text, more, rfl, htext, hmore, rfl⟩,
      fun s => ?_⟩
    rw [List.append_assoc, writeItems, hemit]
    simp only [bind, Except.bind, hwrite]
    rfl

end

mutual

/-- **What is within its limits, `EmitJson` writes** as the JSON value, and stops behind it. -/
theorem emitJson_of_emittable : (element : Element) → (d : Bytes) → element.Proper →
    element.Instance emittable d →
    ∃ t, ElementJson print element d t ∧ ∀ s, emitJson print element (d ++ s) = .ok (t, s)
  | .mk name schema size shape, d, hproper, h => by
    obtain ⟨t, htext, hemit⟩ := emitShape_of_emittable name schema size shape d hproper h.1 h.2
    refine ⟨t, htext, fun s => ?_⟩
    rw [emitJson]
    exact hemit s

theorem emitShape_of_emittable (name schema : Bytes) (size : Option ℕ) : (shape : Shape) →
    (d : Bytes) → shape.Proper → emittable.node shape d → shape.Instance emittable d →
    ∃ t, ShapeJson print shape d t ∧
      ∀ s, emitShape print (.mk name schema size shape) shape (d ++ s) = .ok (t, s)
  | .null, d, hproper, _, h =>
    have htext : ShapeJson print .null d (ascii "null") := ⟨h, rfl⟩
    ⟨_, htext, emitShape_scalar trivial hproper htext⟩
  | .boolean, d, hproper, _, h => by
    rcases h with h | h
    · have htext : ShapeJson print .boolean d (ascii "false") := .inl ⟨h, rfl⟩
      exact ⟨_, htext, emitShape_scalar trivial hproper htext⟩
    · have htext : ShapeJson print .boolean d (ascii "true") := .inr ⟨h, rfl⟩
      exact ⟨_, htext, emitShape_scalar trivial hproper htext⟩
  | .fixedInt intSize, d, hproper, _, h =>
    have htext : ShapeJson print (.fixedInt intSize) d _ := ⟨h, rfl⟩
    ⟨_, htext, emitShape_scalar trivial hproper htext⟩
  | .fixedUInt intSize, d, hproper, _, h =>
    have htext : ShapeJson print (.fixedUInt intSize) d _ := ⟨h, rfl⟩
    ⟨_, htext, emitShape_scalar trivial hproper htext⟩
  | .varint, d, hproper, _, ⟨x, hx⟩ =>
    have htext : ShapeJson print .varint d _ := ⟨x, hx, rfl⟩
    ⟨_, htext, emitShape_scalar trivial hproper htext⟩
  | .varuint, d, hproper, _, ⟨x, hx⟩ =>
    have htext : ShapeJson print .varuint d _ := ⟨x, hx, rfl⟩
    ⟨_, htext, emitShape_scalar trivial hproper htext⟩
  | .float32, d, hproper, hfinite, h =>
    have htext : ShapeJson print .float32 d _ := ⟨h, hfinite, rfl⟩
    ⟨_, htext, emitShape_scalar trivial hproper htext⟩
  | .float64, d, hproper, hfinite, h =>
    have htext : ShapeJson print .float64 d _ := ⟨h, hfinite, rfl⟩
    ⟨_, htext, emitShape_scalar trivial hproper htext⟩
  | .timestamp, d, hproper, hdefined, h => by
    obtain ⟨time, htime⟩ := Option.isSome_iff_exists.mp hdefined
    have htext : ShapeJson print .timestamp d _ := ⟨h, time, htime, rfl⟩
    exact ⟨_, htext, emitShape_scalar trivial hproper htext⟩
  | .duration, d, hproper, _, h =>
    have htext : ShapeJson print .duration d _ := ⟨h, rfl⟩
    ⟨_, htext, emitShape_scalar trivial hproper htext⟩
  | .bytes, d, _, ⟨raw, hraw, hne, hfits⟩, _ => by
    refine ⟨quoted (print.base64 raw), ⟨raw, hraw, rfl⟩, fun s => ?_⟩
    obtain ⟨data, rfl, hread⟩ := hraw.readString hfits s
    rw [emitShape, Element.readString, hread]
    simp only [value, bind, Except.bind, hne, if_false]
    rfl
  | .string, d, _, ⟨text, htext, hfits, hhandled⟩, _ => by
    refine ⟨Json.quote text, ⟨text, htext, rfl⟩, fun s => ?_⟩
    obtain ⟨data, rfl, hread⟩ := htext.readString hfits s
    rw [emitShape, Element.readString, hread]
    simp only [value, bind, Except.bind, escapeJsonString_of_handled hhandled]
    rfl
  | .object _ fields, d, hproper, hnames, h => by
    obtain ⟨members, hmembers, hemit⟩ := emitFields_of_emittable fields d hproper hnames h
    refine ⟨_, ⟨members, hmembers, rfl⟩, fun s => ?_⟩
    rw [emitShape, hemit]
    rfl
  | .enum child items, d, hproper, ⟨hunsigned, key, hkey, hplain⟩, _ => by
    obtain ⟨hread, hsame⟩ := readUIntLike_of_key hunsigned hkey
    refine ⟨_, ⟨key, hkey, rfl⟩, fun s => ?_⟩
    rw [emitShape, hread, hsame, ← quoted_of_plain hplain]
    rfl
  | .array child, d, hproper, _, ⟨n, digits, items, hd, hn, hitems⟩ => by
    obtain ⟨texts, htexts, hwrite⟩ := writeItems_of_inTurn
      (fun d hd => emitJson_of_emittable child d hproper hd) hitems
    refine ⟨_, ⟨n, digits, items, texts, hd, hn, htexts, rfl⟩, fun s => ?_⟩
    rw [hd, List.append_assoc, emitShape, hn.value_read]
    simp only [bind, Except.bind, writeArray, hwrite]
    rfl
  | .fixedArray arraySize child, d, hproper, _, hitems => by
    obtain ⟨texts, htexts, hwrite⟩ := writeItems_of_inTurn
      (fun d hd => emitJson_of_emittable child d hproper hd) hitems
    refine ⟨_, ⟨texts, htexts, rfl⟩, fun s => ?_⟩
    rw [emitShape, writeArray, hwrite]
    rfl
  | .map _, _, _, hmap, _ => hmap.elim
  | .union children, d, hproper, _, ⟨index, digits, chosen, hd, hindex, hchosen⟩ => by
    obtain ⟨t, htext, hemit⟩ := emitNth_of_emittable children index.toNat chosen hproper hchosen
    refine ⟨t, ⟨index, digits, chosen, hd, hindex, htext⟩, fun s => ?_⟩
    rw [hd, List.append_assoc, emitShape, hindex.value_read]
    exact hemit s

theorem emitFields_of_emittable : (fields : List Field) → (d : Bytes) → FieldsProper fields →
    (∀ field ∈ fields, ∀ c ∈ field.name, Json.IsPlain c) → FieldsInstance emittable fields d →
    ∃ t, FieldsJson print fields d t ∧ ∀ s, emitFields print fields (d ++ s) = .ok (t, s)
  | [], d, _, _, h => ⟨[], ⟨h, rfl⟩, fun s => by rw [h]; rfl⟩
  | .mk fieldFlags name aliases element default :: fields, d, hproper, hnames,
    ⟨first, rest, hd, hfirst, hrest⟩ => by
    obtain ⟨text, htext, hemit⟩ := emitJson_of_emittable element first hproper.1 hfirst
    obtain ⟨more, hmore, hwrite⟩ := emitFields_of_emittable fields rest hproper.2
      (fun field hfield => hnames field (List.mem_cons_of_mem _ hfield)) hrest
    have hname : ∀ c ∈ name, Json.IsPlain c :=
      hnames (.mk fieldFlags name aliases element default) List.mem_cons_self
    refine ⟨_, ⟨first, rest, text, more, hd, htext, hmore, rfl⟩, fun s => ?_⟩
    rw [hd, List.append_assoc, emitFields, hemit]
    simp only [bind, Except.bind, hwrite, quoted_of_plain hname]
    rw [member, List.append_assoc, List.append_assoc]
    rfl

theorem emitNth_of_emittable : (children : List Element) → (index : ℕ) → (d : Bytes) →
    ElementsProper children → NthInstance emittable children index d →
    ∃ t, NthJson print children index d t ∧ ∀ s, emitNth print children index (d ++ s) = .ok (t, s)
  | child :: _, 0, d, hproper, h => by
    obtain ⟨t, htext, hemit⟩ := emitJson_of_emittable child d hproper.1 h
    refine ⟨t, htext, fun s => ?_⟩
    rw [emitNth]
    exact hemit s
  | _ :: children, index + 1, d, hproper, h => by
    obtain ⟨t, htext, hemit⟩ := emitNth_of_emittable children index d hproper.2 h
    refine ⟨t, htext, fun s => ?_⟩
    rw [emitNth]
    exact hemit s

end

/-! ### Beyond the limits -/

section

variable {P : Bytes → Prop} {Q : Bytes → Bytes → Prop} {emit : Bytes → Except Error (Bytes × Bytes)}

/-- What was written of the items is their text only if each was within the limits. -/
theorem inTurn_of_writeItems
    (h : ∀ {d t t' s rest u v}, Q d t' → emit (d ++ s) = .ok (t, rest) → Follows u →
      t ++ u = t' ++ v → P d ∧ rest = s ∧ t = t') {n : ℕ} :
    ∀ {d t t' s rest u v : Bytes}, JsonItems Q n d t' → writeItems emit n (d ++ s) = .ok (t, rest) →
      Follows u → t ++ u = t' ++ v → InTurn P n d ∧ rest = s ∧ t = t' := by
  induction n with
  | zero =>
    rintro d t t' s rest u v ⟨rfl, rfl⟩ hwrite _ _
    obtain ⟨rfl, rfl⟩ := Prod.mk.inj (Except.ok.inj hwrite)
    exact ⟨rfl, rfl, rfl⟩
  | succ n ih =>
    rintro d t t' s rest u v ⟨first, tail, text', more', rfl, hfirst, hmore, rfl⟩ hwrite hu heq
    rw [List.append_assoc] at hwrite
    obtain ⟨⟨text, s₁⟩, hemit, hwrite⟩ := bind_eq_ok.mp hwrite
    obtain ⟨⟨more, s₂⟩, hrest, hwrite⟩ := bind_eq_ok.mp hwrite
    obtain ⟨rfl, rfl⟩ := Prod.mk.inj (Except.ok.inj hwrite)
    simp only [List.append_assoc] at heq
    have hnone : n = 0 → more = [] := by
      rintro rfl
      exact (Prod.mk.inj (Except.ok.inj hrest)).1.symm
    obtain ⟨hP, rfl, rfl⟩ := h hfirst hemit (follows_separator hu hnone) heq
    obtain ⟨hturn, rfl, rfl⟩ := ih hmore hrest hu
      (List.append_cancel_left (List.append_cancel_left heq))
    exact ⟨⟨first, tail, rfl, hP, hturn⟩, rfl, rfl⟩

theorem inTurn_of_writeArray
    (h : ∀ {d t t' s rest u v}, Q d t' → emit (d ++ s) = .ok (t, rest) → Follows u →
      t ++ u = t' ++ v → P d ∧ rest = s ∧ t = t') {n : UInt64} {d t texts' s rest u v : Bytes}
    (htexts : JsonItems Q n.toNat d texts') (hwrite : writeArray emit n (d ++ s) = .ok (t, rest))
    (heq : t ++ u = ascii "[" ++ (texts' ++ ascii "]") ++ v) :
    InTurn P n.toNat d ∧ rest = s ∧ t = ascii "[" ++ (texts' ++ ascii "]") := by
  obtain ⟨⟨texts, s₁⟩, hitems, hwrite⟩ := bind_eq_ok.mp hwrite
  obtain ⟨rfl, rfl⟩ := Prod.mk.inj (Except.ok.inj hwrite)
  simp only [List.append_assoc] at heq
  have htail : texts ++ (0x5d :: u) = texts' ++ (0x5d :: v) := List.append_cancel_left heq
  obtain ⟨hturn, hrest, rfl⟩ := inTurn_of_writeItems h htexts hitems
    (follows_cons _ (.inr (.inr rfl)) u) htail
  exact ⟨hturn, hrest, rfl⟩

end

theorem instance_of_key {child : Element} {key : UInt64} {d : Bytes}
    (hunsigned : IsUnsigned child.shape) (h : EnumKey child key d) :
    child.Instance emittable d := by
  cases child with
  | mk name schema size shape =>
    cases shape with
    | fixedUInt intSize => exact ⟨trivial, h.2.1⟩
    | varuint => exact ⟨trivial, key, h.resolve_right fun hlong => nomatch hlong.1⟩
    | _ => exact hunsigned.elim

mutual

/-- **What `EmitJson` writes as it should, was within its limits**: the text that it writes of an
instance, with what follows the text, is that of the JSON value only there. -/
theorem emittable_of_emitJson : (element : Element) → {d t t' s rest u v : Bytes} → element.Proper →
    ElementJson print element d t' → emitJson print element (d ++ s) = .ok (t, rest) → Follows u →
    t ++ u = t' ++ v → element.Instance emittable d ∧ rest = s ∧ t = t'
  | .mk name schema size shape, d, t, t', s, rest, u, v, hproper, htext, hemit, hu, heq => by
    rw [emitJson] at hemit
    obtain ⟨hnode, hshape, hrest⟩ := emittable_of_emitShape name schema size shape hproper htext
      hemit hu heq
    exact ⟨⟨hnode, hshape⟩, hrest⟩

theorem emittable_of_emitShape (name schema : Bytes) (size : Option ℕ) : (shape : Shape) →
    {d t t' s rest u v : Bytes} → shape.Proper → ShapeJson print shape d t' →
    emitShape print (.mk name schema size shape) shape (d ++ s) = .ok (t, rest) → Follows u →
    t ++ u = t' ++ v → emittable.node shape d ∧ shape.Instance emittable d ∧ rest = s ∧ t = t'
  | .null, d, t, t', s, rest, u, v, hproper, htext, hemit, _, _ =>
    ⟨trivial, htext.1, eq_of_emitShape_scalar hproper htext hemit trivial⟩
  | .boolean, d, t, t', s, rest, u, v, hproper, htext, hemit, _, _ =>
    ⟨trivial, htext.imp And.left And.left, eq_of_emitShape_scalar hproper htext hemit trivial⟩
  | .fixedInt _, d, t, t', s, rest, u, v, hproper, htext, hemit, _, _
  | .fixedUInt _, d, t, t', s, rest, u, v, hproper, htext, hemit, _, _
  | .duration, d, t, t', s, rest, u, v, hproper, htext, hemit, _, _ =>
    ⟨trivial, htext.1, eq_of_emitShape_scalar hproper htext hemit trivial⟩
  | .varint, d, t, t', s, rest, u, v, hproper, htext, hemit, _, _
  | .varuint, d, t, t', s, rest, u, v, hproper, htext, hemit, _, _ =>
    ⟨trivial, htext.imp fun _ => And.left, eq_of_emitShape_scalar hproper htext hemit trivial⟩
  | .float32, d, t, t', s, rest, u, v, hproper, htext, hemit, _, _
  | .float64, d, t, t', s, rest, u, v, hproper, htext, hemit, _, _ =>
    ⟨htext.2.1, htext.1, eq_of_emitShape_scalar hproper htext hemit trivial⟩
  | .timestamp, d, t, t', s, rest, u, v, hproper, htext, hemit, _, _ => by
    refine ⟨?_, htext.1, eq_of_emitShape_scalar hproper htext hemit trivial⟩
    obtain ⟨-, time, htime, -⟩ := htext
    exact Option.isSome_iff_exists.mpr ⟨time, htime⟩
  | .bytes, d, t, t', s, rest, u, v, hproper, ⟨raw, hraw, ht'⟩, hemit, _, _ => by
    rw [emitShape] at hemit
    obtain ⟨⟨data, s₁⟩, hread, hwrite⟩ := bind_eq_ok.mp hemit
    obtain ⟨hfits, rfl, rfl⟩ := hraw.of_readString hread
    dsimp only at hwrite
    have hne : data.val ≠ [] := by
      intro hempty
      rw [if_pos hempty] at hwrite
      exact nomatch hwrite
    rw [if_neg hne] at hwrite
    obtain ⟨rfl, rfl⟩ := Prod.mk.inj (Except.ok.inj hwrite)
    exact ⟨⟨data.val, hraw, hne, hfits⟩, ⟨data.val, hraw⟩, rfl, ht'.symm⟩
  | .string, d, t, t', s, rest, u, v, hproper, ⟨text, htext, ht'⟩, hemit, _, heq => by
    rw [emitShape] at hemit
    obtain ⟨⟨data, s₁⟩, hread, hwrite⟩ := bind_eq_ok.mp hemit
    obtain ⟨hfits, rfl, rfl⟩ := htext.of_readString hread
    obtain ⟨rfl, rfl⟩ := Prod.mk.inj (Except.ok.inj hwrite)
    have htail : escapeJsonString data.val ++ [0x22] ++ u
        = Json.escape data.val ++ [Json.quotationMark] ++ v := by
      rw [ht'] at heq
      exact (List.cons.inj heq).2
    rw [List.append_assoc, List.append_assoc] at htail
    have hhandled := handled_of_append_eq htail
    refine ⟨⟨data.val, htext, hfits, hhandled⟩, ⟨data.val, htext⟩, rfl, ?_⟩
    rw [ht', escapeJsonString_of_handled hhandled]
    rfl
  | .object _ fields, d, t, t', s, rest, u, v, hproper, ⟨members', hmembers, ht'⟩, hemit, _, heq => by
    rw [emitShape] at hemit
    obtain ⟨⟨members, s₁⟩, hfields, hemit⟩ := bind_eq_ok.mp hemit
    obtain ⟨rfl, rfl⟩ := Prod.mk.inj (Except.ok.inj hemit)
    rw [ht'] at heq
    simp only [List.append_assoc] at heq
    have htail : members ++ (0x7d :: u) = members' ++ (0x7d :: v) := List.append_cancel_left heq
    obtain ⟨hnames, hinstance, hrest, rfl⟩ := emittable_of_emitFields fields hproper hmembers hfields
      (follows_cons _ (.inr (.inl rfl)) u) htail
    exact ⟨hnames, hinstance, hrest, ht'.symm⟩
  | .enum child items, d, t, t', s, rest, u, v, hproper, ⟨key, hkey, ht'⟩, hemit, _, heq => by
    rw [emitShape] at hemit
    by_cases hunsigned : IsUnsigned child.shape
    · obtain ⟨hread, hsame⟩ := readUIntLike_of_key hunsigned hkey
      rw [hread] at hemit
      obtain ⟨rfl, rfl⟩ := Prod.mk.inj (Except.ok.inj hemit)
      rw [ht', hsame] at heq ⊢
      obtain ⟨hplain, rfl⟩ := plain_of_quoted_append heq
      exact ⟨⟨hunsigned, key, hkey, hplain⟩, instance_of_key hunsigned hkey, rfl,
        quoted_of_plain hplain⟩
    · rw [readUIntLike_of_not_unsigned hproper.1 hunsigned] at hemit
      exact nomatch hemit
  | .array child, d, t, t', s, rest, u, v, hproper, ⟨n, digits, items, texts', hd, hn, htexts, ht'⟩,
    hemit, _, heq => by
    rw [hd, List.append_assoc, emitShape, hn.value_read] at hemit
    obtain ⟨hturn, hrest, ht⟩ := inTurn_of_writeArray
      (fun htext hemit hu heq => emittable_of_emitJson child hproper htext hemit hu heq)
      htexts hemit (ht' ▸ heq)
    exact ⟨trivial, ⟨n, digits, items, hd, hn, hturn⟩, hrest, ht.trans ht'.symm⟩
  | .fixedArray arraySize child, d, t, t', s, rest, u, v, hproper, ⟨texts', htexts, ht'⟩, hemit, _,
    heq => by
    rw [emitShape] at hemit
    obtain ⟨hturn, hrest, ht⟩ := inTurn_of_writeArray
      (fun htext hemit hu heq => emittable_of_emitJson child hproper htext hemit hu heq)
      htexts hemit (ht' ▸ heq)
    exact ⟨trivial, hturn, hrest, ht.trans ht'.symm⟩
  | .map _, d, t, t', s, rest, u, v, _, ⟨_, _, _, _, _, _, _, ht'⟩, hemit, hu, heq => by
    -- nothing has been written, and what follows does not begin like an object
    rw [emitShape] at hemit
    obtain ⟨rfl, rfl⟩ := Prod.mk.inj (Except.ok.inj hemit)
    rw [ht'] at heq
    have hhead : u.head? = some 0x7b := by
      rw [← List.nil_append u, heq]
      rfl
    rw [Follows, hhead] at hu
    exact absurd hu (by decide)
  | .union children, d, t, t', s, rest, u, v, hproper, ⟨index, digits, chosen, hd, hindex, hchosen⟩,
    hemit, hu, heq => by
    rw [hd, List.append_assoc, emitShape, hindex.value_read] at hemit
    obtain ⟨hinstance, hrest⟩ := emittable_of_emitNth children index.toNat hproper hchosen hemit hu heq
    exact ⟨trivial, ⟨index, digits, chosen, hd, hindex, hinstance⟩, hrest⟩

theorem emittable_of_emitFields : (fields : List Field) → {d t t' s rest u v : Bytes} →
    FieldsProper fields → FieldsJson print fields d t' →
    emitFields print fields (d ++ s) = .ok (t, rest) → Follows u → t ++ u = t' ++ v →
    (∀ field ∈ fields, ∀ c ∈ field.name, Json.IsPlain c) ∧ FieldsInstance emittable fields d ∧
      rest = s ∧ t = t'
  | [], d, t, t', s, rest, u, v, _, ⟨hd, ht'⟩, hemit, _, _ => by
    rw [hd, emitFields] at hemit
    obtain ⟨rfl, rfl⟩ := Prod.mk.inj (Except.ok.inj hemit)
    exact ⟨nofun, hd, rfl, ht'.symm⟩
  | .mk fieldFlags name aliases element default :: fields, d, t, t', s, rest, u, v, hproper,
    ⟨first, tail, text', more', hd, hfirst, hmore, ht'⟩, hemit, hu, heq => by
    rw [hd, List.append_assoc, emitFields] at hemit
    obtain ⟨⟨text, s₁⟩, hvalue, hmembers⟩ := bind_eq_ok.mp hemit
    obtain ⟨⟨more, s₂⟩, hrest, hwrite⟩ := bind_eq_ok.mp hmembers
    obtain ⟨rfl, rfl⟩ := Prod.mk.inj (Except.ok.inj hwrite)
    rw [ht', member] at heq
    simp only [List.append_assoc] at heq
    obtain ⟨hplain, heq⟩ := plain_of_quoted_append heq
    have hnone : fields.length = 0 → more = [] := by
      intro hlen
      cases List.length_eq_zero_iff.mp hlen
      rw [emitFields] at hrest
      exact (Prod.mk.inj (Except.ok.inj hrest)).1.symm
    obtain ⟨hinstance, rfl, rfl⟩ := emittable_of_emitJson element hproper.1 hfirst hvalue
      (follows_separator hu hnone) (List.append_cancel_left heq)
    obtain ⟨hnames, hall, rfl, rfl⟩ := emittable_of_emitFields fields hproper.2 hmore hrest hu
      (List.append_cancel_left (List.append_cancel_left (List.append_cancel_left heq)))
    refine ⟨List.forall_mem_cons.mpr ⟨hplain, hnames⟩, ⟨first, tail, hd, hinstance, hall⟩, rfl, ?_⟩
    rw [ht', member, ← quoted_of_plain hplain, List.append_assoc, List.append_assoc]

theorem emittable_of_emitNth : (children : List Element) → (index : ℕ) →
    {d t t' s rest u v : Bytes} → ElementsProper children → NthJson print children index d t' →
    emitNth print children index (d ++ s) = .ok (t, rest) → Follows u → t ++ u = t' ++ v →
    NthInstance emittable children index d ∧ rest = s ∧ t = t'
  | child :: _, 0, _, _, _, _, _, _, _, hproper, htext, hemit, hu, heq => by
    rw [emitNth] at hemit
    exact emittable_of_emitJson child hproper.1 htext hemit hu heq
  | _ :: children, index + 1, _, _, _, _, _, _, _, hproper, htext, hemit, hu, heq => by
    rw [emitNth] at hemit
    exact emittable_of_emitNth children index hproper.2 htext hemit hu heq

end

/-! ### The text is JSON -/

theorem isInt_decimal (n : ℕ) : Json.IsInt (decimal n) := by
  refine ⟨⟨Base.decimal_ne_nil n, ?_⟩, fun hzero => ?_⟩
  · induction n using Base.numeral_induction (by decide : 1 < 10) with
    | hlt n h =>
      rw [Base.decimal_of_lt h, List.forall_mem_singleton]
      interval_cases n <;> decide
    | hle n h ih =>
      have hlt : n % 10 < 10 := Nat.mod_lt _ (by decide)
      rw [Base.decimal_of_le h, List.forall_mem_append, List.forall_mem_singleton]
      refine ⟨ih, ?_⟩
      generalize n % 10 = d at hlt
      interval_cases d <;> decide
  · obtain ⟨d, hd, hhead, hn⟩ := Base.head?_decimal n
    rw [hhead, Option.some.injEq, Base.digit_eq_zero_iff hd] at hzero
    rw [hn hzero]
    rfl

theorem isValue_decimal (n : ℕ) : Json.IsValue (decimal n) := .number (isInt_decimal n).isNumber

theorem isValue_formatInt (z : ℤ) : Json.IsValue (formatInt z) := by
  rw [formatInt]
  split_ifs
  · exact .number (isInt_decimal _).isNumber_minus
  · exact isValue_decimal _

theorem isValue_quote (s : Bytes) : Json.IsValue (Json.quote s) := .string (Json.isString_quote s)

theorem isValue_quoted {s : Bytes} (h : ∀ c ∈ s, Json.IsPlain c) : Json.IsValue (quoted s) := by
  rw [quoted_of_plain h]
  exact isValue_quote s

theorem isMembers_member {w : Bytes} (hw : Json.IsWs w) {text : Bytes} (h : Json.IsValue text)
    (name : Bytes) : Json.IsMembers (w ++ (member name text ++ [])) := by
  have hone := Json.IsMembers.one hw (Json.isString_quote name) Json.isWs_space Json.isWs_space h
    Json.isWs_nil
  rw [member, List.append_assoc, List.append_assoc]
  exact hone

theorem isMembers_cons {w : Bytes} (hw : Json.IsWs w) {text more : Bytes} (h : Json.IsValue text)
    (name : Bytes) (hmore : Json.IsMembers ([0x20] ++ more)) :
    Json.IsMembers (w ++ (member name text ++ (ascii ", " ++ more))) := by
  have hcons := Json.IsMembers.cons hw (Json.isString_quote name) Json.isWs_space Json.isWs_space h
    Json.isWs_nil hmore
  rw [member, List.append_assoc, List.append_assoc]
  exact hcons

section

variable {Q : Bytes → Bytes → Prop}

theorem isElements_of_jsonItems (h : ∀ d t, Q d t → Json.IsValue t) {n : ℕ} :
    ∀ {d t w : Bytes}, Json.IsWs w → JsonItems Q (n + 1) d t → Json.IsElements (w ++ t) := by
  induction n with
  | zero =>
    rintro d t w hw ⟨first, rest, text, more, -, htext, ⟨-, rfl⟩, rfl⟩
    exact .one hw (h _ _ htext) Json.isWs_nil
  | succ n ih =>
    rintro d t w hw ⟨first, rest, text, more, -, htext, hmore, rfl⟩
    exact .cons hw (h _ _ htext) Json.isWs_nil (ih Json.isWs_space hmore)

theorem isMembers_of_jsonItems (h : ∀ d t, Q d t → ∃ name text, t = member name text ∧
    Json.IsValue text) {n : ℕ} :
    ∀ {d t w : Bytes}, Json.IsWs w → JsonItems Q (n + 1) d t → Json.IsMembers (w ++ t) := by
  induction n with
  | zero =>
    rintro d t w hw ⟨first, rest, text, more, -, htext, ⟨-, rfl⟩, rfl⟩
    obtain ⟨name, text, rfl, hvalue⟩ := h _ _ htext
    exact isMembers_member hw hvalue name
  | succ n ih =>
    rintro d t w hw ⟨first, rest, text, more, -, htext, hmore, rfl⟩
    obtain ⟨name, text, rfl, hvalue⟩ := h _ _ htext
    exact isMembers_cons hw hvalue name (ih Json.isWs_space hmore)

theorem isValue_array_of_jsonItems (h : ∀ d t, Q d t → Json.IsValue t) {n : ℕ} {d t : Bytes}
    (hitems : JsonItems Q n d t) : Json.IsValue (ascii "[" ++ (t ++ ascii "]")) := by
  cases n with
  | zero =>
    obtain ⟨-, rfl⟩ := hitems
    exact .emptyArray Json.isWs_nil
  | succ n => exact .array (isElements_of_jsonItems h Json.isWs_nil hitems)

end

/-- What the streams print: numbers for floats that are numbers, and text without any character that
needs an escape. -/
structure Lawful (print : Printing) : Prop where
  double : ∀ x, IsFiniteDouble x → Json.IsNumber (print.double x)
  toDouble : ∀ x, IsFiniteFloat x → IsFiniteDouble (print.toDouble x)
  ptime : ∀ time, ∀ c ∈ print.ptime time, Json.IsPlain c
  duration : ∀ time, ∀ c ∈ print.duration time, Json.IsPlain c
  base64 : ∀ raw, ∀ c ∈ print.base64 raw, Json.IsPlain c

mutual

/-- **The text is one JSON value.** -/
theorem isValue_of_elementJson (lawful : Lawful print) : (element : Element) → {d t : Bytes} →
    ElementJson print element d t → Json.IsValue t
  | .mk _ _ _ shape, _, _, h => isValue_of_shapeJson lawful shape h

theorem isValue_of_shapeJson (lawful : Lawful print) : (shape : Shape) → {d t : Bytes} →
    ShapeJson print shape d t → Json.IsValue t
  | .null, _, _, ⟨_, ht⟩ => ht ▸ .null
  | .boolean, _, _, .inl ⟨_, ht⟩ => ht ▸ .false
  | .boolean, _, _, .inr ⟨_, ht⟩ => ht ▸ .true
  | .fixedInt _, _, _, ⟨_, ht⟩ => ht ▸ isValue_formatInt _
  | .fixedUInt _, _, _, ⟨_, ht⟩ => ht ▸ isValue_decimal _
  | .varint, _, _, ⟨_, _, ht⟩ => ht ▸ isValue_formatInt _
  | .varuint, _, _, ⟨_, _, ht⟩ => ht ▸ isValue_decimal _
  | .float32, _, _, ⟨_, hfinite, ht⟩ =>
    ht ▸ .number (lawful.double _ (lawful.toDouble _ hfinite))
  | .float64, _, _, ⟨_, hfinite, ht⟩ => ht ▸ .number (lawful.double _ hfinite)
  | .bytes, _, _, ⟨raw, _, ht⟩ => ht ▸ isValue_quoted (lawful.base64 raw)
  | .string, _, _, ⟨text, _, ht⟩ => ht ▸ isValue_quote text
  | .object _ fields, _, _, ⟨members, hmembers, ht⟩ => by
    rw [ht]
    cases fields with
    | nil =>
      rw [hmembers.2]
      exact .emptyObject Json.isWs_nil
    | cons field fields =>
      exact .object (isMembers_of_fieldsJson lawful (field :: fields) (List.cons_ne_nil _ _)
        Json.isWs_nil hmembers)
  | .enum _ _, _, _, ⟨_, _, ht⟩ => ht ▸ isValue_quote _
  | .array child, _, _, ⟨_, _, _, _, _, _, htexts, ht⟩ =>
    ht ▸ isValue_array_of_jsonItems (fun _ _ => isValue_of_elementJson lawful child) htexts
  | .fixedArray _ child, _, _, ⟨_, htexts, ht⟩ =>
    ht ▸ isValue_array_of_jsonItems (fun _ _ => isValue_of_elementJson lawful child) htexts
  | .map child, _, _, ⟨n, _, _, texts, _, _, htexts, ht⟩ => by
    rw [ht]
    cases hn : n.toNat with
    | zero =>
      rw [hn] at htexts
      rw [htexts.2]
      exact .emptyObject Json.isWs_nil
    | succ m =>
      rw [hn] at htexts
      refine .object (isMembers_of_jsonItems ?_ Json.isWs_nil htexts)
      rintro _ _ ⟨key, _, _, text, _, _, hvalue, rfl⟩
      exact ⟨key, text, rfl, isValue_of_elementJson lawful child hvalue⟩
  | .union children, _, _, ⟨index, _, _, _, _, hchosen⟩ =>
    isValue_of_nthJson lawful children index.toNat hchosen
  | .timestamp, _, _, ⟨_, time, _, ht⟩ => ht ▸ isValue_quoted (lawful.ptime time)
  | .duration, _, _, ⟨_, ht⟩ => ht ▸ isValue_quoted (lawful.duration _)

theorem isMembers_of_fieldsJson (lawful : Lawful print) : (fields : List Field) → {d t w : Bytes} →
    fields ≠ [] → Json.IsWs w → FieldsJson print fields d t → Json.IsMembers (w ++ t)
  | [], _, _, _, hne, _, _ => absurd rfl hne
  | [.mk _ name _ element _], _, _, _, _, hw, ⟨_, _, _, _, _, htext, ⟨_, hmore⟩, ht⟩ => by
    rw [ht, hmore]
    exact isMembers_member hw (isValue_of_elementJson lawful element htext) name
  | .mk _ name _ element _ :: next :: fields, _, _, _, _, hw, ⟨_, _, _, _, _, htext, hmore, ht⟩ => by
    rw [ht]
    exact isMembers_cons hw (isValue_of_elementJson lawful element htext) name
      (isMembers_of_fieldsJson lawful (next :: fields) (List.cons_ne_nil _ _) Json.isWs_space hmore)

theorem isValue_of_nthJson (lawful : Lawful print) : (children : List Element) → (index : ℕ) →
    {d t : Bytes} → NthJson print children index d t → Json.IsValue t
  | child :: _, 0, _, _, h => isValue_of_elementJson lawful child h
  | _ :: children, index + 1, _, _, h => isValue_of_nthJson lawful children index h

end

/-! ### `EmitJson` and `Ignore` -/

/-- `EmitJson` writes the JSON value of the instance and nothing else, and it and `Ignore` both stop
behind the instance. -/
def Emits (print : Printing) (root : Element) (d s : Bytes) : Prop :=
  ∃ t, emitJson print root (d ++ s) = .ok (t, s) ∧ root.ignore (d ++ s) = .ok s ∧
    ElementJson print root d t ∧ Json.IsValue t

theorem within_keysFit : emittable.Within keysFit where
  node _ _ _ := trivial
  key _ h := h

/-- **`EmitJson` writes one JSON value and consumes what `Ignore` does** for exactly the instances that
are within its limits. -/
theorem emits_iff (print : Printing) (lawful : Lawful print) {schema name : Bytes} {root : Element}
    (hparse : parse schema name = .ok root) (hdocumented : root.IsDocumented name schema)
    {d s : Bytes} (hlen : (d ++ s).length < 2 ^ 63) :
    Emits print root d s ↔ root.Instance emittable d := by
  obtain ⟨_, _, _, hderives⟩ := hdocumented
  obtain ⟨_, _, _, haccepted⟩ := parse_eq_ok_iff.mp hparse
  have hproper := Element.Derives.proper root hderives
  have hsized := Element.Derives.sized root haccepted
  constructor
  · rintro ⟨t, hemit, -, htext, -⟩
    exact (emittable_of_emitJson root hproper htext hemit (u := []) (v := []) (.inl rfl) rfl).1
  · intro h
    obtain ⟨t, htext, hemit⟩ := emitJson_of_emittable root d hproper h
    have hkeys := Element.Instance.mono within_keysFit root d h
    exact ⟨t, hemit s, root.ignore_instance d s hsized hkeys hlen, htext,
      isValue_of_elementJson lawful root htext⟩

/-- Streams that print the `double` zero. -/
def printZero : Printing where
  double _ := ascii "0"
  toDouble _ := 0
  ptime _ := []
  duration _ := []
  base64 _ := []

theorem lawful_printZero : Lawful printZero where
  double _ _ := (isInt_decimal 0).isNumber
  toDouble _ _ := show (0 : BitVec 64).toNat / 2 ^ 52 % 2 ^ 11 ≠ 2 ^ 11 - 1 by decide
  ptime _ _ := nofun
  duration _ _ := nofun
  base64 _ _ := nofun

/-- Arrays of `double`s. -/
def doubles : Element := .mk [] [18, 8] none (.array (.mk [] [8] (some 8) .float64))

/-- An array of one zero is written. -/
theorem emits_doubles : Emits printZero doubles [1, 0, 0, 0, 0, 0, 0, 0, 0] [7] := by
  have hdocumented : doubles.IsDocumented [] [18, 8] :=
    ⟨_, [], (List.append_nil _).symm, rfl, rfl, rfl, [18], [8], rfl,
      .inl (isVaruint_singleton (by decide)), rfl, rfl, rfl, [8], [], rfl,
      .inl (isVaruint_singleton (by decide)), rfl⟩
  refine (emits_iff printZero lawful_printZero rfl hdocumented (by decide)).mpr
    ⟨trivial, 1, [1], [0, 0, 0, 0, 0, 0, 0, 0], rfl, isVaruint_singleton (by decide), ?_⟩
  refine ⟨_, [], (List.append_nil _).symm, ⟨?_, rfl⟩, rfl⟩
  show (scalarBits 8 [0, 0, 0, 0, 0, 0, 0, 0]).toNat / 2 ^ 52 % 2 ^ 11 ≠ 2 ^ 11 - 1
  decide

/-- Maps of booleans. -/
def booleanMap : Element := .mk [] [20, 2] none (.map (.mk [] [2] (some 1) .boolean))

/-- Of a map, `EmitJson` writes nothing and reads nothing. -/
theorem not_emits_booleanMap :
    parse [20, 2] [] = .ok booleanMap ∧ booleanMap.IsDocumented [] [20, 2] ∧
      booleanMap.Instance {} [0] ∧ booleanMap.ignore [0] = .ok [] ∧
      emitJson printZero booleanMap [0] = .ok ([], [0]) ∧ ¬ Emits printZero booleanMap [0] [] := by
  refine ⟨rfl, ?_, ?_, rfl, ?_, ?_⟩
  · exact ⟨_, [], (List.append_nil _).symm, rfl, rfl, rfl, [20], [2], rfl,
      .inl (isVaruint_singleton (by decide)), rfl, rfl, rfl, [2], [], rfl,
      .inl (isVaruint_singleton (by decide)), rfl⟩
  · exact ⟨trivial, 0, [0], [], rfl, isVaruint_singleton (by decide), rfl⟩
  · rw [booleanMap, emitJson, emitShape]
  · rintro ⟨t, hemit, -⟩
    rw [List.append_nil, booleanMap, emitJson, emitShape] at hemit
    exact absurd (Prod.mk.inj (Except.ok.inj hemit)).2 nofun

end Mjlib.Telemetry.EmitJson
