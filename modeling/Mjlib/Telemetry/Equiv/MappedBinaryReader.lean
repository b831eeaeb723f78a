import Mathlib
import Mjlib.Telemetry.Equiv.BinaryReadArchive
import Mjlib.Telemetry.Equiv.BinarySchemaParser
import Mjlib.Telemetry.MappedBinaryReader

/-!
# Schema evolution

What a `MappedBinaryReader` for a class makes of data that were written by another version of it.
`convert` is the target afterwards, in terms of the value alone: where the schemas are the same, all
of it is replaced (`direct`), and otherwise each field is converted from the first one of its name,
or left alone.  `read_write` is that the reader does this, and ends behind the value.
-/

namespace Mjlib.Telemetry

namespace MappedBinaryReader

open BinarySchemaParser BinaryReadArchive

/-! ### Containers -/

/-- Values put over the items of a container, which keeps its size. -/
def overItems {α β : Type} (f : α → β → α) : List α → List β → List α
  | target :: targets, v :: values => f target v :: overItems f targets values
  | targets, [] => targets
  | [], _ => []

theorem length_overItems {α β : Type} (f : α → β → α) (values : List β) :
    ∀ targets : List α, (overItems f targets values).length = targets.length := by
  induction values with
  | nil =>
    intro targets
    cases targets <;> rfl
  | cons v values ih =>
    intro targets
    cases targets with
    | nil => rfl
    | cons target targets => rw [overItems, List.length_cons, List.length_cons, ih]

section Items

variable {α β : Type} {f : α → β → α} {write : β → Bytes}

/-- Items that `BinaryReadArchive` reads without an error. -/
theorem visitArrayHelper_overItems {visit : α → State → Except Error (α × State)} {values : List β}
    (hread : ∀ v ∈ values, ∀ target s,
      visit target ⟨write v ++ s, false⟩ = .ok (f target v, ⟨s, false⟩)) :
    ∀ {targets : List α} (s : Bytes), targets.length = values.length →
      visitArrayHelper visit targets ⟨values.flatMap write ++ s, false⟩ =
        .ok (overItems f targets values, ⟨s, false⟩) := by
  induction values with
  | nil =>
    intro targets s hlen
    rw [List.length_eq_zero_iff.mp hlen]
    rfl
  | cons v values ih =>
    intro targets s hlen
    cases targets with
    | nil => simp at hlen
    | cons target targets =>
      rw [visitArrayHelper, List.flatMap_cons, List.append_assoc, hread v (by simp)]
      have hrest := @ih (fun v hv => hread v (List.mem_cons_of_mem _ hv)) targets s
        (by simpa using hlen)
      simp only [bind, Except.bind, Bool.false_eq_true, if_false, hrest]
      rfl

variable {read : α → Bytes → Except Error (α × Bytes)}

theorem readItems_overItems {values : List β}
    (hread : ∀ v ∈ values, ∀ target s, (write v ++ s).length < 2 ^ 63 →
      read target (write v ++ s) = .ok (f target v, s)) :
    ∀ {targets : List α} (s : Bytes), targets.length = values.length →
      (values.flatMap write ++ s).length < 2 ^ 63 →
      readItems read targets (values.flatMap write ++ s) = .ok (overItems f targets values, s) := by
  induction values with
  | nil =>
    intro targets s hlen _
    rw [List.length_eq_zero_iff.mp hlen]
    rfl
  | cons v values ih =>
    intro targets s hlen hlt
    cases targets with
    | nil => simp at hlen
    | cons target targets =>
      rw [List.flatMap_cons, List.append_assoc] at hlt ⊢
      have hrest := @ih (fun v hv => hread v (List.mem_cons_of_mem _ hv)) targets s
        (by simpa using hlen) (by rw [List.length_append] at hlt; omega)
      rw [readItems, hread v (by simp) target _ hlt]
      simp only [bind, Except.bind, hrest]
      rfl

theorem readContainer_of_ok {P : ℕ → Prop} {items items' : {l : List α // P l.length}} {s s' : Bytes}
    (h : readItems read items.val s = .ok (items'.val, s')) :
    readContainer read items s = .ok (items', s') := by
  unfold readContainer
  split
  next l s hl =>
    obtain ⟨rfl, rfl⟩ := Prod.mk.inj (Except.ok.inj (hl.symm.trans h))
    rfl
  next e he =>
    have hcontra := he.symm.trans h
    cases hcontra

end Items

/-! ### Types with the same schema -/

mutual

/-- The types are alike, but for names, for enumerators and for the classes. -/
def Alike : Ty → Ty → Prop
  | .int signed size, .int signed' size' => signed = signed' ∧ size = size'
  | .vector elem, .vector elem' => Alike elem elem'
  | .array elem n, .array elem' n' => n = n' ∧ Alike elem elem'
  | .optional elem, .optional elem' => Alike elem elem'
  | .object _ fields, .object _ fields' => AlikeFields fields fields'
  | .bool, .bool | .float32, .float32 | .float64, .float64 | .bytes, .bytes | .string, .string
  | .enum _, .enum _ | .timestamp, .timestamp | .duration, .duration => True
  | _, _ => False

/-- The fields are alike. -/
def AlikeFields : Fields → Fields → Prop
  | .nil, .nil => True
  | .cons _ ty rest, .cons _ ty' rest' => Alike ty ty' ∧ AlikeFields rest rest'
  | _, _ => False

end

variable (fresh freshW : Fresh) (emitDefault : Bool)

/-- The shape of an integer. -/
theorem shapeOf_int (name : Bytes) (signed : Bool) (size : IntSize) (v : Word size) :
    shapeOf fresh emitDefault name (.int signed size) v =
      if signed then .fixedInt (UInt8.ofNat size.bytes) else .fixedUInt (UInt8.ofNat size.bytes) := by
  cases signed <;> rfl

theorem ofNat_bytes_inj {size size' : IntSize}
    (h : UInt8.ofNat size.bytes = UInt8.ofNat size'.bytes) : size = size' := by
  cases size <;> cases size' <;> first | rfl | exact absurd h (by decide)

mutual

/-- The shape tells all of it. -/
theorem alike_of_shapeOf {emitDefault' : Bool} (name : Bytes) : (t w : Ty) → (v : t.Val) →
    (v₀ : w.Val) → shapeOf fresh emitDefault' name t v = shapeOf freshW emitDefault name w v₀ →
    Alike t w
  | .bool, w, _, _, h | .float32, w, _, _, h | .float64, w, _, _, h | .bytes, w, _, _, h
  | .string, w, _, _, h | .timestamp, w, _, _, h | .duration, w, _, _, h | .enum _, w, _, _, h => by
    cases w with
    | int signed size => cases signed <;> cases h
    | _ => trivial
  | .int signed size, w, _, _, h => by
    cases w with
    | int signed' size' =>
      rw [shapeOf_int, shapeOf_int] at h
      cases signed <;> cases signed'
      · exact ⟨rfl, ofNat_bytes_inj (Shape.fixedUInt.inj h)⟩
      · cases h
      · cases h
      · exact ⟨rfl, ofNat_bytes_inj (Shape.fixedInt.inj h)⟩
    | _ => cases signed <;> cases h
  | .vector elem, w, _, _, h => by
    cases w with
    | vector elem' =>
      obtain ⟨-, -, -, hshape⟩ := Element.mk.inj (Shape.array.inj h)
      exact alike_of_shapeOf name elem elem' _ _ hshape
    | int signed size => cases signed <;> cases h
    | _ => cases h
  | .array elem n, w, _, _, h => by
    cases w with
    | array elem' n' =>
      obtain ⟨hn, hchild⟩ := Shape.fixedArray.inj h
      obtain ⟨-, -, -, hshape⟩ := Element.mk.inj hchild
      exact ⟨hn, alike_of_shapeOf name elem elem' _ _ hshape⟩
    | int signed size => cases signed <;> cases h
    | _ => cases h
  | .optional elem, w, _, _, h => by
    cases w with
    | optional elem' =>
      obtain ⟨-, hchildren⟩ := List.cons.inj (Shape.union.inj h)
      obtain ⟨hchild, -⟩ := List.cons.inj hchildren
      obtain ⟨-, -, -, hshape⟩ := Element.mk.inj hchild
      exact alike_of_shapeOf name elem elem' _ _ hshape
    | int signed size => cases signed <;> cases h
    | _ => cases h
  | .object _ fields, w, v, v₀, h => by
    cases w with
    | object _ fields' => exact alikeFields_of_fieldsOf fields fields' v v₀ (Shape.object.inj h).2
    | int signed size => cases signed <;> cases h
    | _ => cases h

theorem alikeFields_of_fieldsOf {emitDefault' : Bool} : (fields fields' : Fields) →
    (v : fields.Vals) → (v₀ : fields'.Vals) →
    fieldsOf fresh emitDefault' fields v = fieldsOf freshW emitDefault fields' v₀ →
    AlikeFields fields fields'
  | .nil, .nil, _, _, _ => trivial
  | .nil, .cons _ _ _, _, _, h => by
    cases h
  | .cons _ _ _, .nil, _, _, h => by
    cases h
  | .cons name ty rest, .cons name' ty' rest', v, v₀, h => by
    obtain ⟨hfield, hrest⟩ := List.cons.inj h
    obtain ⟨-, hname, -, helement, -⟩ := Field.mk.inj hfield
    obtain ⟨-, -, -, hshape⟩ := Element.mk.inj helement
    rw [← hname] at hshape
    exact ⟨alike_of_shapeOf name.val ty ty' v.1 v₀.1 hshape,
      alikeFields_of_fieldsOf rest rest' v.2 v₀.2 hrest⟩

end

/-- **Types with the same schema are alike.** -/
theorem alike_of_visit {emitDefault' : Bool} {t w : Ty} {v : t.Val} {v₀ : w.Val} (ht : NamesFit t)
    (hw : NamesFit w)
    (hlen : (BinarySchemaArchive.visit freshW emitDefault w v₀).length < 2 ^ 63)
    (h : BinarySchemaArchive.visit freshW emitDefault w v₀ =
      BinarySchemaArchive.visit fresh emitDefault' t v) : Alike t w := by
  have hread := readType_visit freshW emitDefault w hw v₀
    ((BinarySchemaArchive.visit freshW emitDefault w v₀).length + 1) [] []
    (by rw [List.append_nil]; exact Nat.lt_succ_self _) (by rw [List.append_nil]; exact hlen)
  have hread' := readType_visit fresh emitDefault' t ht v
    ((BinarySchemaArchive.visit freshW emitDefault w v₀).length + 1) [] []
    (by rw [List.append_nil, h]; exact Nat.lt_succ_self _)
    (by rw [List.append_nil, ← h]; exact hlen)
  rw [← h, hread] at hread'
  obtain ⟨helement, -⟩ := Prod.mk.inj (Except.ok.inj hread')
  obtain ⟨-, -, -, hshape⟩ := Element.mk.inj helement
  exact alike_of_shapeOf fresh freshW emitDefault [] t w v v₀ hshape.symm

/-! ### Reading what was written with the same schema -/

mutual

/-- The target after `BinaryReadArchive` has read a value of a type that is alike. -/
def direct : (t : Ty) → t.Val → (w : Ty) → w.Val → t.Val
  | .bool, _, .bool, v => v
  | .int _ _, _, .int _ _, v => v.setWidth _
  | .float32, _, .float32, v => v
  | .float64, _, .float64, v => v
  | .bytes, _, .bytes, v => v
  | .string, _, .string, v => v
  | .vector elem, target, .vector elem', v =>
    ⟨overItems (fun x y => direct elem x elem' y)
      (Seq.resize (fresh.valueInit elem) v.size target).val v.val, by
      rw [length_overItems, Seq.length_resize, Seq.toNat_size]
      exact v.property⟩
  | .array elem _, target, .array elem' _, v =>
    ⟨overItems (fun x y => direct elem x elem' y) target.val v.val, by
      rw [length_overItems]
      exact target.property⟩
  | .optional elem, _, .optional elem', some x => some (direct elem (fresh.valueInit elem) elem' x)
  | .enum e, _, .enum e', v => e.ofUInt64 (e'.toUInt64 v)
  | .object _ fields, target, .object _ fields', v => directFields fields target fields' v
  | .timestamp, _, .timestamp, v => v
  | .duration, _, .duration, v =>
    Base.convertMicrosecondsToDuration (Base.convertDurationToMicroseconds v)
  | _, target, _, _ => target

/-- The fields, one after the other. -/
def directFields : (fields : Fields) → fields.Vals → (fields' : Fields) → fields'.Vals → fields.Vals
  | .cons _ ty rest, target, .cons _ ty' rest', v =>
    (direct ty target.1 ty' v.1, directFields rest target.2 rest' v.2)
  | _, target, _, _ => target

end

mutual

/-- **`BinaryReadArchive` reads what was written with the same schema.** -/
theorem visit_direct : (t w : Ty) → (target : t.Val) → (v : w.Val) → Alike t w → StringsFit w v →
    (s : Bytes) →
    BinaryReadArchive.visit fresh t target ⟨BinaryWriteArchive.visit w v ++ s, false⟩ =
      .ok (direct fresh t target w v, ⟨s, false⟩)
  | .bool, w, target, v, h, _, s => by
    cases w <;> first | exact h.elim | exact congrArg Except.ok (setValue_readU8 s target v)
  | .int _ size, w, target, v, h, _, s => by
    cases w with
    | int _ size' =>
      obtain ⟨-, rfl⟩ := h
      refine congrArg Except.ok ((setValue_readScalar target s size.bytes id v).trans ?_)
      rw [direct, BitVec.setWidth_eq]
      rfl
    | _ => exact h.elim
  | .float32, w, target, v, h, _, s => by
    cases w <;> first | exact h.elim | exact congrArg Except.ok (setValue_readScalar target s 4 id v)
  | .float64, w, target, v, h, _, s => by
    cases w <;> first | exact h.elim | exact congrArg Except.ok (setValue_readScalar target s 8 id v)
  | .bytes, w, target, v, h, hfit, s => by
    cases w with
    | bytes => exact visit_write fresh .bytes target v hfit s
    | _ => exact h.elim
  | .string, w, target, v, h, hfit, s => by
    cases w with
    | string => exact visit_write fresh .string target v hfit s
    | _ => exact h.elim
  | .vector elem, w, target, v, h, hfit, s => by
    cases w with
    | vector elem' =>
      rw [BinaryReadArchive.visit, BinaryWriteArchive.visit, List.append_assoc,
        readVaruint_writeVaruint]
      refine visitItems_of_ok (visitArrayHelper_overItems (fun x hx target s => ?_) s ?_)
      · exact visit_direct elem elem' target x h (hfit x hx) s
      · rw [Seq.length_resize, Seq.toNat_size]
    | _ => exact h.elim
  | .array elem n, w, target, v, h, hfit, s => by
    cases w with
    | array elem' n' =>
      obtain ⟨rfl, h⟩ := h
      rw [BinaryReadArchive.visit, BinaryWriteArchive.visit]
      refine visitItems_of_ok (visitArrayHelper_overItems (fun x hx target s => ?_) s ?_)
      · exact visit_direct elem elem' target x h (hfit x hx) s
      · rw [target.property, v.property]
    | _ => exact h.elim
  | .optional elem, w, target, v, h, hfit, s => by
    cases w with
    | optional elem' =>
      cases v with
      | none => rfl
      | some x =>
        show ((BinaryReadArchive.visit fresh elem (fresh.valueInit elem)
          ⟨BinaryWriteArchive.visit elem' x ++ s, false⟩).bind fun r => .ok (some r.1, r.2)) = _
        rw [visit_direct elem elem' _ x h hfit s]
        rfl
    | _ => exact h.elim
  | .enum e, w, target, v, h, _, s => by
    cases w with
    | enum e' => exact congrArg Except.ok (setValue_readVaruint target s e.ofUInt64 (e'.toUInt64 v))
    | _ => exact h.elim
  | .object _ fields, w, target, v, h, hfit, s => by
    cases w with
    | object _ fields' => exact accept_direct fields fields' target v h hfit s
    | _ => exact h.elim
  | .timestamp, w, target, v, h, hfit, s => by
    cases w with
    | timestamp => exact visit_write fresh .timestamp target v hfit s
    | _ => exact h.elim
  | .duration, w, target, v, h, hfit, s => by
    cases w with
    | duration => exact visit_write fresh .duration target v hfit s
    | _ => exact h.elim

theorem accept_direct : (fields fields' : Fields) → (target : fields.Vals) → (v : fields'.Vals) →
    AlikeFields fields fields' → StringsFitFields fields' v → (s : Bytes) →
    BinaryReadArchive.accept fresh fields target ⟨BinaryWriteArchive.accept fields' v ++ s, false⟩ =
      .ok (directFields fresh fields target fields' v, ⟨s, false⟩)
  | .nil, .nil, _, _, _, _, _ => rfl
  | .nil, .cons _ _ _, _, _, h, _, _ => h.elim
  | .cons _ _ _, .nil, _, _, h, _, _ => h.elim
  | .cons _ ty rest, .cons _ ty' rest', target, v, h, hfit, s => by
    rw [BinaryWriteArchive.accept, List.append_assoc, BinaryReadArchive.accept]
    simp only [bind, Except.bind]
    rw [visit_direct ty ty' target.1 v.1 h.1 hfit.1]
    dsimp only
    rw [accept_direct rest rest' target.2 v.2 h.2 hfit.2]
    rfl

end

/-! ### The fields of the data -/

/-- The first field of a name: its type, the value that its schema was written from, and its value. -/
def lookup (name : Bytes) : (fields : Fields) → (v₀ v : fields.Vals) → Option ((w : Ty) × w.Val × w.Val)
  | .nil, _, _ => none
  | .cons name' ty rest, v₀, v =>
    if name'.val = name then some ⟨ty, v₀.1, v.1⟩ else lookup name rest v₀.2 v.2

/-- What the fields of the data are, by name. -/
def fieldData : (fields : Fields) → fields.Vals → List (Bytes × Bytes)
  | .nil, _ => []
  | .cons name ty rest, v => (name.val, BinaryWriteArchive.visit ty v.1) :: fieldData rest v.2

theorem findElement_fieldsOf (name : Bytes) (fields : Fields) (v₀ v : fields.Vals) :
    findElement (fieldsOf freshW emitDefault fields v₀) name =
      (lookup name fields v₀ v).map fun found =>
        elementOf freshW emitDefault name found.1 found.2.1 := by
  cases fields with
  | nil => rfl
  | cons name' ty rest =>
    rw [fieldsOf, lookup, findElement, List.find?_cons]
    simp only [Field.name]
    by_cases hname : name'.val = name
    · subst hname
      rw [if_pos rfl, beq_self_eq_true]
      rfl
    · rw [if_neg hname, beq_false_of_ne hname]
      exact findElement_fieldsOf name rest v₀.2 v.2

theorem findData_fieldData (name : Bytes) (fields : Fields) (v₀ v : fields.Vals) :
    findData (fieldData fields v) name =
      (lookup name fields v₀ v).map fun found => BinaryWriteArchive.visit found.1 found.2.2 := by
  cases fields with
  | nil => rfl
  | cons name' ty rest =>
    rw [fieldData, lookup, findData, List.find?_cons]
    by_cases hname : name'.val = name
    · rw [if_pos hname, beq_iff_eq.mpr hname]
      rfl
    · rw [if_neg hname, beq_false_of_ne hname]
      exact findData_fieldData name rest v₀.2 v.2

theorem readFieldData_fieldsOf (fields : Fields) (v₀ v : fields.Vals) (s : Bytes)
    (h : (BinaryWriteArchive.accept fields v ++ s).length < 2 ^ 63) :
    readFieldData (fieldsOf freshW emitDefault fields v₀) (BinaryWriteArchive.accept fields v ++ s) =
      .ok (fieldData fields v, s) := by
  cases fields with
  | nil => rfl
  | cons name ty rest =>
    rw [BinaryWriteArchive.accept, List.append_assoc] at h ⊢
    have hfirst := ignore_elementOf freshW emitDefault ty name.val v₀.1 v.1 _ h
    have hrest := readFieldData_fieldsOf rest v₀.2 v.2 s (by rw [List.length_append] at h; omega)
    rw [elementOf] at hfirst
    rw [fieldsOf, readFieldData, Field.element, Element.read, hfirst]
    simp only [bind, Except.bind, pure, Except.pure]
    rw [hrest, recorded_append]
    rfl

/-- What a reader relies on of the other version's schema and of its data. -/
structure Fits (w : Ty) (v₀ v : w.Val) : Prop where
  names : NamesFit w
  strings : StringsFit w v
  schema : (BinarySchemaArchive.visit freshW emitDefault w v₀).length < 2 ^ 63
  data : (BinaryWriteArchive.visit w v).length < 2 ^ 63

variable {freshW emitDefault}

theorem fits_of_lookup {name : Bytes} : (fields : Fields) → (v₀ v : fields.Vals) →
    NamesFitFields fields → StringsFitFields fields v →
    (BinarySchemaArchive.visitFields freshW emitDefault fields v₀).length < 2 ^ 63 →
    (BinaryWriteArchive.accept fields v).length < 2 ^ 63 →
    ∀ found, lookup name fields v₀ v = some found →
      Fits freshW emitDefault found.1 found.2.1 found.2.2
  | .nil, _, _, _, _, _, _, found, h => by
    cases h
  | .cons name' ty rest, v₀, v, hnames, hstrings, hschema, hdata, found, h => by
    rw [BinarySchemaArchive.visitFields] at hschema
    rw [BinaryWriteArchive.accept, List.length_append] at hdata
    simp only [List.length_append] at hschema
    rw [lookup] at h
    split_ifs at h with hname
    · obtain rfl := Option.some.inj h
      exact ⟨hnames.2.1, hstrings.1, by dsimp only; omega, by dsimp only; omega⟩
    · exact fits_of_lookup rest v₀.2 v.2 hnames.2.2 hstrings.2 (by omega) (by omega) found h

/-- The bytes behind are no part of the data. -/
theorem length_lt_of_append {d s : Bytes} (h : (d ++ s).length < 2 ^ 63) : d.length < 2 ^ 63 :=
  lt_of_le_of_lt (by rw [List.length_append]; exact Nat.le_add_right _ _) h

namespace Fits

variable {elem : Ty} {s : Bytes}

theorem vectorItem {v₀ v : (Ty.vector elem).Val} {x : elem.Val}
    (h : Fits freshW emitDefault (.vector elem) v₀ v) (hx : x ∈ v.val)
    (hs : (BinaryWriteArchive.visit elem x ++ s).length < 2 ^ 63) :
    Fits freshW emitDefault elem (freshW.valueInit elem) x := by
  refine ⟨h.names, h.strings x hx, ?_, length_lt_of_append hs⟩
  have hschema := h.schema
  rw [BinarySchemaArchive.visit, List.length_append] at hschema
  omega

theorem arrayItem {n : UInt64} {v₀ v : (Ty.array elem n).Val} {x : elem.Val}
    (h : Fits freshW emitDefault (.array elem n) v₀ v) (hx : x ∈ v.val)
    (hs : (BinaryWriteArchive.visit elem x ++ s).length < 2 ^ 63) :
    Fits freshW emitDefault elem (freshW.valueInit elem) x := by
  refine ⟨h.names, h.strings x hx, ?_, length_lt_of_append hs⟩
  have hschema := h.schema
  rw [BinarySchemaArchive.visit, List.length_append] at hschema
  omega

theorem optionalItem {v₀ : (Ty.optional elem).Val} {x : elem.Val}
    (h : Fits freshW emitDefault (.optional elem) v₀ (some x))
    (hs : (BinaryWriteArchive.visit elem x ++ s).length < 2 ^ 63) :
    Fits freshW emitDefault elem (freshW.defaultInit elem) x := by
  refine ⟨h.names, h.strings, ?_, length_lt_of_append hs⟩
  have hschema := h.schema
  rw [BinarySchemaArchive.visit] at hschema
  simp only [List.length_append] at hschema
  omega

end Fits

/-! ### Conversion -/

variable (freshW emitDefault)

/-- The schema that was written is that of the class. -/
def sameSchema (t w : Ty) (v₀ : w.Val) : Bool :=
  BinarySchemaArchive.visit freshW emitDefault w v₀ == BinarySchemaArchive.write fresh true t

mutual

/-- The target after a value was read into it that was written as another type. -/
def convert : (t : Ty) → t.Val → (w : Ty) → (v₀ v : w.Val) → t.Val
  | .object tag fields, target, w, v₀, v =>
    if sameSchema fresh freshW emitDefault (.object tag fields) w v₀ then
      direct fresh (.object tag fields) target w v
    else match w, v₀, v with
      | .object _ fields', v₀, v => convertFields fields target fields' v₀ v
      | _, _, _ => target
  | .vector elem, target, w, v₀, v =>
    if sameSchema fresh freshW emitDefault (.vector elem) w v₀ then
      direct fresh (.vector elem) target w v
    else match w, v with
      | .vector elem', v =>
        ⟨overItems (fun x y => convert elem x elem' (freshW.valueInit elem') y)
          (Seq.resize (fresh.valueInit elem) v.size target).val v.val, by
          rw [length_overItems, Seq.length_resize, Seq.toNat_size]
          exact v.property⟩
      | _, _ => target
  | .array elem n, target, w, v₀, v =>
    if sameSchema fresh freshW emitDefault (.array elem n) w v₀ then
      direct fresh (.array elem n) target w v
    else match w, v with
      | .array elem' _, v =>
        ⟨overItems (fun x y => convert elem x elem' (freshW.valueInit elem') y) target.val v.val, by
          rw [length_overItems]
          exact target.property⟩
      | _, _ => target
  | .optional elem, target, w, v₀, v =>
    if sameSchema fresh freshW emitDefault (.optional elem) w v₀ then
      direct fresh (.optional elem) target w v
    else match w, v with
      | .optional _, none => none
      | .optional elem', some x =>
        some (convert elem (fresh.defaultInit elem) elem' (freshW.defaultInit elem') x)
      | _, _ => target
  | .enum e, target, w, v₀, v =>
    if sameSchema fresh freshW emitDefault (.enum e) w v₀ then direct fresh (.enum e) target w v
    else match w, v with
      | .enum e', v => e.ofUInt64 (e'.toUInt64 v)
      | _, _ => target
  | t, target, w, _, v => direct fresh t target w v

/-- Each field, from the first one of its name. -/
def convertFields : (fields : Fields) → fields.Vals → (fields' : Fields) → (v₀ v : fields'.Vals) →
    fields.Vals
  | .nil, _, _, _, _ => ()
  | .cons name ty rest, target, fields', v₀, v =>
    (match lookup name.val fields' v₀ v with
      | some found => convert ty target.1 found.1 found.2.1 found.2.2
      | none => target.1,
    convertFields rest target.2 fields' v₀ v)

end

variable {fresh freshW emitDefault}

theorem read_of_schemasSame {t : Ty} {element : Element} (h : schemasSame fresh t element = true)
    (target : t.Val) (s : Bytes) : read fresh t element target s = readValue fresh t target s := by
  cases t <;> exact if_pos h

theorem convert_of_sameSchema {t w : Ty} {v₀ : w.Val}
    (h : sameSchema fresh freshW emitDefault t w v₀ = true) (target : t.Val) (v : w.Val) :
    convert fresh freshW emitDefault t target w v₀ v = direct fresh t target w v := by
  cases t <;> first | exact if_pos h | rfl

/-- A reader with the same schema reads what was written with it. -/
theorem read_of_sameSchema {t w : Ty} {name : Bytes} {v₀ v : w.Val} (ht : NamesFit t)
    (hfits : Fits freshW emitDefault w v₀ v)
    (hsame : sameSchema fresh freshW emitDefault t w v₀ = true) (target : t.Val) (s : Bytes) :
    read fresh t (elementOf freshW emitDefault name w v₀) target (BinaryWriteArchive.visit w v ++ s) =
      .ok (convert fresh freshW emitDefault t target w v₀ v, s) := by
  have halike := alike_of_visit fresh freshW emitDefault ht hfits.names hfits.schema
    (beq_iff_eq.mp hsame)
  have hschemas : schemasSame fresh t (elementOf freshW emitDefault name w v₀) = true := hsame
  rw [read_of_schemasSame hschemas, convert_of_sameSchema hsame, readValue,
    visit_direct fresh t w target v halike hfits.strings s]
  rfl

/-- A constructor that goes on after another one has returned. -/
theorem setup_bind {x y : Except Error Unit}
    (h : (do
      x
      y) = .ok ()) : x = .ok () ∧ y = .ok () := by
  cases x with
  | error e => cases h
  | ok u => exact ⟨rfl, h⟩

mutual

/-- **Schema evolution**: the reader converts the value, and ends behind it. -/
theorem read_elementOf : (t w : Ty) → (name : Bytes) → (target : t.Val) → (v₀ v : w.Val) →
    NamesFit t → Fits freshW emitDefault w v₀ v →
    setup fresh t (elementOf freshW emitDefault name w v₀) = .ok () → (s : Bytes) →
    (BinaryWriteArchive.visit w v ++ s).length < 2 ^ 63 →
    read fresh t (elementOf freshW emitDefault name w v₀) target
        (BinaryWriteArchive.visit w v ++ s) =
      .ok (convert fresh freshW emitDefault t target w v₀ v, s)
  | .object tag fields, w, name, target, v₀, v, ht, hfits, hsetup, s, hlen => by
    by_cases hsame : sameSchema fresh freshW emitDefault (.object tag fields) w v₀ = true
    · exact read_of_sameSchema ht hfits hsame target s
    · have hschemas : ¬schemasSame fresh (.object tag fields)
        (elementOf freshW emitDefault name w v₀) = true := hsame
      rw [setup, if_neg hschemas] at hsetup
      rw [read, if_neg hschemas]
      cases w with
      | object tag' fields' =>
        rw [convert, if_neg hsame]
        show ((readFieldData (fieldsOf freshW emitDefault fields' v₀)
          (BinaryWriteArchive.accept fields' v ++ s)).bind fun r =>
            (readFields fresh fields (fieldsOf freshW emitDefault fields' v₀) r.1 target).bind
              fun v => .ok (v, r.2)) = _
        have hschema : (BinarySchemaArchive.visitFields freshW emitDefault fields' v₀).length <
            2 ^ 63 := by
          have := hfits.schema
          rw [BinarySchemaArchive.visit] at this
          simp only [List.length_append] at this
          omega
        have hread := readFields_fieldData fields ht fields' target v₀ v hsetup
          (fun _ => fits_of_lookup fields' v₀ v hfits.names hfits.strings hschema hfits.data)
        rw [readFieldData_fieldsOf freshW emitDefault fields' v₀ v s hlen]
        show ((readFields fresh fields _ (fieldData fields' v) target).bind _) = _
        rw [hread]
        rfl
      | int signed size => cases signed <;> cases hsetup
      | _ => cases hsetup
  | .vector elem, w, name, target, v₀, v, ht, hfits, hsetup, s, hlen => by
    by_cases hsame : sameSchema fresh freshW emitDefault (.vector elem) w v₀ = true
    · exact read_of_sameSchema ht hfits hsame target s
    · have hschemas : ¬schemasSame fresh (.vector elem)
        (elementOf freshW emitDefault name w v₀) = true := hsame
      rw [setup, if_neg hschemas] at hsetup
      rw [read, if_neg hschemas]
      cases w with
      | vector elem' =>
        rw [convert, if_neg hsame]
        rw [BinaryWriteArchive.visit, List.append_assoc] at hlen ⊢
        show (value (readVaruint (writeVaruint v.size ++ _))).bind _ = _
        rw [value_readVaruint_writeVaruint]
        show readContainer (P := (· < 2 ^ 64))
          (read fresh elem (elementOf freshW emitDefault name elem' _))
          (Seq.resize (fresh.valueInit elem) v.size target) _ = _
        refine readContainer_of_ok (readItems_overItems (fun x hx target s hs => ?_) s ?_ ?_)
        · exact read_elementOf elem elem' name target _ x ht (hfits.vectorItem hx hs) hsetup s hs
        · rw [Seq.length_resize, Seq.toNat_size]
        · rw [List.length_append] at hlen
          omega
      | int signed size => cases signed <;> cases hsetup
      | _ => cases hsetup
  | .array elem n, w, name, target, v₀, v, ht, hfits, hsetup, s, hlen => by
    by_cases hsame : sameSchema fresh freshW emitDefault (.array elem n) w v₀ = true
    · exact read_of_sameSchema ht hfits hsame target s
    · have hschemas : ¬schemasSame fresh (.array elem n)
        (elementOf freshW emitDefault name w v₀) = true := hsame
      rw [setup, if_neg hschemas] at hsetup
      rw [read, if_neg hschemas]
      cases w with
      | array elem' n' =>
        rw [convert, if_neg hsame]
        change (if n ≠ n' then _ else _) = _ at hsetup
        split_ifs at hsetup with hn
        obtain rfl := not_not.mp hn
        rw [BinaryWriteArchive.visit] at hlen ⊢
        refine readContainer_of_ok (readItems_overItems (fun x hx target s hs => ?_) s ?_ hlen)
        · exact read_elementOf elem elem' name target _ x ht (hfits.arrayItem hx hs) hsetup s hs
        · rw [target.property, v.property]
      | int signed size => cases signed <;> cases hsetup
      | _ => cases hsetup
  | .optional elem, w, name, target, v₀, v, ht, hfits, hsetup, s, hlen => by
    by_cases hsame : sameSchema fresh freshW emitDefault (.optional elem) w v₀ = true
    · exact read_of_sameSchema ht hfits hsame target s
    · have hschemas : ¬schemasSame fresh (.optional elem)
        (elementOf freshW emitDefault name w v₀) = true := hsame
      rw [setup, if_neg hschemas] at hsetup
      rw [read, if_neg hschemas]
      cases w with
      | optional elem' =>
        cases v with
        | none =>
          rw [convert, if_neg hsame]
          rfl
        | some x =>
          rw [convert, if_neg hsame]
          rw [BinaryWriteArchive.visit, List.append_assoc] at hlen ⊢
          have hs : (BinaryWriteArchive.visit elem' x ++ s).length < 2 ^ 63 := by
            rw [List.length_append] at hlen
            omega
          have hread := read_elementOf elem elem' name (fresh.defaultInit elem) _ x ht
            (hfits.optionalItem hs) hsetup s hs
          show (read fresh elem (elementOf freshW emitDefault name elem' _) _
            (BinaryWriteArchive.visit elem' x ++ s)).bind _ = _
          rw [hread]
          rfl
      | int signed size => cases signed <;> cases hsetup
      | _ => cases hsetup
  | .enum e, w, name, target, v₀, v, ht, hfits, hsetup, s, hlen => by
    by_cases hsame : sameSchema fresh freshW emitDefault (.enum e) w v₀ = true
    · exact read_of_sameSchema ht hfits hsame target s
    · have hschemas : ¬schemasSame fresh (.enum e)
        (elementOf freshW emitDefault name w v₀) = true := hsame
      rw [setup, if_neg hschemas] at hsetup
      rw [read, if_neg hschemas]
      cases w with
      | enum e' =>
        rw [convert, if_neg hsame]
        show (value (readVaruint (writeVaruint (e'.toUInt64 v) ++ s))).bind _ = _
        rw [value_readVaruint_writeVaruint]
        rfl
      | int signed size => cases signed <;> cases hsetup
      | _ => cases hsetup
  | .bool, w, name, target, v₀, v, ht, hfits, hsetup, s, _
  | .int _ _, w, name, target, v₀, v, ht, hfits, hsetup, s, _
  | .float32, w, name, target, v₀, v, ht, hfits, hsetup, s, _
  | .float64, w, name, target, v₀, v, ht, hfits, hsetup, s, _
  | .bytes, w, name, target, v₀, v, ht, hfits, hsetup, s, _
  | .string, w, name, target, v₀, v, ht, hfits, hsetup, s, _
  | .timestamp, w, name, target, v₀, v, ht, hfits, hsetup, s, _
  | .duration, w, name, target, v₀, v, ht, hfits, hsetup, s, _ => by
    refine read_of_sameSchema ht hfits ?_ target s
    by_contra hsame
    have hfailed := hsetup.symm.trans (if_neg hsame)
    cases hfailed

theorem readFields_fieldData : (fields : Fields) → NamesFitFields fields → (fields' : Fields) →
    (target : fields.Vals) → (v₀ v : fields'.Vals) →
    setupFields fresh fields (fieldsOf freshW emitDefault fields' v₀) = .ok () →
    (∀ name found, lookup name fields' v₀ v = some found →
      Fits freshW emitDefault found.1 found.2.1 found.2.2) →
    readFields fresh fields (fieldsOf freshW emitDefault fields' v₀) (fieldData fields' v) target =
      .ok (convertFields fresh freshW emitDefault fields target fields' v₀ v)
  | .nil, _, _, _, _, _, _, _ => rfl
  | .cons name ty rest, ht, fields', target, v₀, v, hsetup, hfits => by
    rw [setupFields, findElement_fieldsOf freshW emitDefault name.val fields' v₀ v] at hsetup
    rw [readFields, findElement_fieldsOf freshW emitDefault name.val fields' v₀ v,
      findData_fieldData name.val fields' v₀ v, convertFields]
    cases hfound : lookup name.val fields' v₀ v with
    | none =>
      rw [hfound] at hsetup
      have hrest := readFields_fieldData rest ht.2.2 fields' target.2 v₀ v hsetup hfits
      show ((readFields fresh rest _ _ target.2).bind fun others => .ok (target.1, others)) = _
      rw [hrest]
      rfl
    | some found =>
      rw [hfound] at hsetup
      obtain ⟨hfirst, hsetup⟩ := setup_bind hsetup
      have hfit := hfits name.val found hfound
      have hread := read_elementOf ty found.1 name.val target.1 found.2.1 found.2.2 ht.2.1 hfit hfirst
        [] (by rw [List.append_nil]; exact hfit.data)
      have hrest := readFields_fieldData rest ht.2.2 fields' target.2 v₀ v hsetup hfits
      rw [List.append_nil] at hread
      show ((read fresh ty (elementOf freshW emitDefault name.val found.1 found.2.1) target.1
        (BinaryWriteArchive.visit found.1 found.2.2)).bind _) = _
      rw [hread]
      show ((readFields fresh rest _ _ target.2).bind _) = _
      rw [hrest]
      rfl

end

/-! ### Results -/

/-- The parsed schema of a type. -/
theorem eq_elementOf_of_parse {w : Ty} {name : Bytes} {root : Element} (hw : NamesFit w)
    (hschema : (BinarySchemaArchive.write freshW emitDefault w).length < 2 ^ 63)
    (hparse : parse (BinarySchemaArchive.write freshW emitDefault w) name = .ok root) :
    root = elementOf freshW emitDefault name w (freshW.defaultInit w) := by
  have hread := readType_visit freshW emitDefault w hw (freshW.defaultInit w)
    ((BinarySchemaArchive.write freshW emitDefault w).length + 1) name []
    (by rw [List.append_nil]; exact Nat.lt_succ_self _) (by rw [List.append_nil]; exact hschema)
  rw [List.append_nil] at hread
  rw [parse, BinarySchemaArchive.write] at *
  rw [hread] at hparse
  exact (Except.ok.inj hparse).symm

/-- A reader for a type was made for the parsed schema of another one, `w`. -/
structure Mapped (fresh freshW : Fresh) (emitDefault : Bool) (t w : Ty) (root : Element) : Prop where
  parse : ∃ name, parse (BinarySchemaArchive.write freshW emitDefault w) name = .ok root
  setup : setup fresh t root = .ok ()
  names : NamesFit t ∧ NamesFit w
  schema : (BinarySchemaArchive.write freshW emitDefault w).length < 2 ^ 63

/-- **Data of another version are read.**  The reader converts the value, whatever the target held,
and ends where `Ignore` does. -/
theorem read_write {t w : Ty} {suffix : Bytes} {root : Element} {v : w.Val} (target : t.Val)
    (h : Mapped fresh freshW emitDefault t w root) (hstrings : StringsFit w v)
    (hdata : (BinaryWriteArchive.visit w v ++ suffix).length < 2 ^ 63) :
    root.ignore (BinaryWriteArchive.visit w v ++ suffix) = .ok suffix ∧
      read fresh t root target (BinaryWriteArchive.visit w v ++ suffix) =
        .ok (convert fresh freshW emitDefault t target w (freshW.defaultInit w) v, suffix) := by
  obtain ⟨⟨name, hparse⟩, hsetup, ⟨ht, hw⟩, hschema⟩ := h
  obtain rfl := eq_elementOf_of_parse hw hschema hparse
  exact ⟨ignore_elementOf freshW emitDefault w name _ v suffix hdata,
    read_elementOf t w name target _ v ht ⟨hw, hstrings, hschema, length_lt_of_append hdata⟩ hsetup
      suffix hdata⟩

theorem length_letter (c : UInt8) : [c].length < 2 ^ 64 := by norm_num

/-- A name of one letter. -/
def letter (c : UInt8) : Seq UInt8 := ⟨[c], length_letter c⟩

/-- The members of a class, before one of them was replaced. -/
def older : Fields :=
  .cons (letter 97) (.int false .one) (.cons (letter 98) (.optional .bool) .nil)

/-- The members afterwards. -/
def newer : Fields :=
  .cons (letter 98) (.optional .bool) (.cons (letter 99) .bool .nil)

theorem mapped_newer : Mapped .zero .zero true (.object 1 newer) (.object 0 older)
    (elementOf .zero true [] (.object 0 older) (Ty.zero (.object 0 older))) where
  parse := ⟨[], rfl⟩
  setup := rfl
  names := ⟨⟨by decide, trivial, by decide, trivial, trivial⟩,
    ⟨by decide, trivial, by decide, trivial, trivial⟩⟩
  schema := by decide

theorem read_write_newer : ∃ root,
    root.ignore ([7, 1, 1] ++ [9]) = .ok [9] ∧
      read .zero (.object 1 newer) root (none, true, ()) ([7, 1, 1] ++ [9]) =
        .ok ((some true, true, ()), [9]) :=
  ⟨_, @read_write .zero .zero true (.object 1 newer) (.object 0 older) [9] _ (7#8, some true, ())
    (none, true, ()) mapped_newer ⟨trivial, trivial, trivial⟩ (by decide)⟩

/-! ### By name -/

/-- The first field of a name, with its value. -/
def valueOf (name : Bytes) : (fields : Fields) → fields.Vals → Option ((t : Ty) × t.Val)
  | .nil, _ => none
  | .cons name' ty rest, v => if name'.val = name then some ⟨ty, v.1⟩ else valueOf name rest v.2

/-- The names of the fields. -/
def names : Fields → List Bytes
  | .nil => []
  | .cons name _ rest => name.val :: names rest

theorem valueOf_convertFields (name : Bytes) : (fields : Fields) → (target : fields.Vals) →
    (fields' : Fields) → (v₀ v : fields'.Vals) →
    valueOf name fields (convertFields fresh freshW emitDefault fields target fields' v₀ v) =
      (valueOf name fields target).map fun member => match lookup name fields' v₀ v with
        | some found => ⟨member.1,
            convert fresh freshW emitDefault member.1 member.2 found.1 found.2.1 found.2.2⟩
        | none => member
  | .nil, _, _, _, _ => rfl
  | .cons name' ty rest, target, fields', v₀, v => by
    rw [convertFields, valueOf, valueOf]
    by_cases hname : name'.val = name
    · subst hname
      rw [if_pos rfl, if_pos rfl, Option.map_some]
      cases lookup name'.val fields' v₀ v with
      | none => rfl
      | some found => rfl
    · rw [if_neg hname, if_neg hname]
      exact valueOf_convertFields name rest target.2 fields' v₀ v

/-- The reader of an object, where the schemas differ. -/
theorem read_object {tag tag' : ℕ} {fields fields' : Fields} {suffix : Bytes} {root : Element}
    {v : fields'.Vals} (target : fields.Vals)
    (h : Mapped fresh freshW emitDefault (.object tag fields) (.object tag' fields') root)
    (hdiffer : schemasSame fresh (.object tag fields) root = false)
    (hstrings : StringsFitFields fields' v)
    (hdata : (BinaryWriteArchive.accept fields' v ++ suffix).length < 2 ^ 63) :
    read fresh (.object tag fields) root target (BinaryWriteArchive.accept fields' v ++ suffix) =
      .ok (convertFields fresh freshW emitDefault fields target fields'
        (freshW.defaultInit (.object tag' fields')) v, suffix) := by
  refine ((@read_write fresh freshW emitDefault (.object tag fields) (.object tag' fields') suffix root
    v target h hstrings hdata).2).trans ?_
  obtain ⟨⟨name, hparse⟩, -, ⟨-, hw⟩, hschema⟩ := h
  obtain rfl := eq_elementOf_of_parse hw hschema hparse
  have hsame : ¬sameSchema fresh freshW emitDefault (.object tag fields) (.object tag' fields')
      (freshW.defaultInit (.object tag' fields')) = true := Bool.eq_false_iff.mp hdiffer
  rw [convert, if_neg hsame]

/-- **Each field by itself.**  Where the schemas differ, a field of the object gets what the first
field of its name holds, converted, or keeps its value where the data have no such field. -/
theorem read_fields {tag tag' : ℕ} {fields fields' : Fields} {suffix : Bytes} {root : Element}
    {v : fields'.Vals} (target : fields.Vals)
    (h : Mapped fresh freshW emitDefault (.object tag fields) (.object tag' fields') root)
    (hdiffer : schemasSame fresh (.object tag fields) root = false)
    (hstrings : StringsFitFields fields' v)
    (hdata : (BinaryWriteArchive.accept fields' v ++ suffix).length < 2 ^ 63) :
    ∃ result : fields.Vals,
      read fresh (.object tag fields) root target (BinaryWriteArchive.accept fields' v ++ suffix) =
        .ok (result, suffix) ∧
      ∀ name, valueOf name fields result = (valueOf name fields target).map fun member =>
        match lookup name fields' (freshW.defaultInit (.object tag' fields')) v with
        | some found => ⟨member.1,
            convert fresh freshW emitDefault member.1 member.2 found.1 found.2.1 found.2.2⟩
        | none => member :=
  ⟨_, read_object target h hdiffer hstrings hdata,
    fun name => valueOf_convertFields name fields target fields' _ v⟩

theorem read_fields_newer : ∃ result : newer.Vals,
    read .zero (.object 1 newer)
        (elementOf .zero true [] (.object 0 older) (Ty.zero (.object 0 older))) (none, true, ())
        ([7, 1, 1] ++ [9]) = .ok (result, [9]) ∧
      valueOf [99] newer result = some ⟨.bool, true⟩ := by
  obtain ⟨result, hread, hvalue⟩ := @read_fields .zero .zero true 1 0 newer older [9] _
    (7#8, some true, ()) (none, true, ()) mapped_newer rfl ⟨trivial, trivial, trivial⟩ (by decide)
  exact ⟨result, hread, hvalue [99]⟩

end MappedBinaryReader

end Mjlib.Telemetry
