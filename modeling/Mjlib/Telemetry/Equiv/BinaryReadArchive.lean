import Mjlib.Telemetry.BinaryReadArchive
import Mjlib.Telemetry.BinaryWriteArchive
import Mjlib.Telemetry.Equiv.Format

/-!
# Telemetry data round trip

What `BinaryReadArchive` makes of the bytes that `BinaryWriteArchive` wrote for a value `v`, whatever
the target held before and whatever follows in the stream.  `overlay` is the target afterwards: it is
`v`, except that an empty optional leaves the target's as it was and that the one duration whose
encoding stands for `not_a_date_time` becomes that (`visit_write`).  So `v` is read back exactly when
`Replaces` holds, and `ReadString` must not refuse a string of it (`visit_write_eq_ok_iff`).
-/

namespace Mjlib.Telemetry.BinaryReadArchive

/-! ### Visiting the items of a container -/

section VisitArrayHelper

variable {α : Type} {visit : α → State → Except Error (α × State)} {write : α → Bytes}

/-- Items that are all read without an error. -/
theorem visitArrayHelper_append {overlay : α → α → α} {values : List α}
    (hread : ∀ v ∈ values, ∀ target s,
      visit target ⟨write v ++ s, false⟩ = .ok (overlay target v, ⟨s, false⟩)) :
    ∀ {targets : List α} (s : Bytes), targets.length = values.length →
      visitArrayHelper visit targets ⟨values.flatMap write ++ s, false⟩ =
        .ok (List.zipWith overlay targets values, ⟨s, false⟩) := by
  induction values with
  | nil =>
    intro targets s hlen
    rw [List.length_eq_zero_iff.mp hlen]
    rfl
  | cons v values ih =>
    intro targets s hlen
    cases targets with
    | nil => simp at hlen
    | cons target targets =>
      rw [visitArrayHelper, List.flatMap_cons, List.append_assoc, hread v (by simp)]
      have hrest := @ih (fun v hv => hread v (List.mem_cons_of_mem _ hv)) targets s
        (by simpa using hlen)
      simp only [bind, Except.bind, Bool.false_eq_true, if_false, hrest]
      rfl

/-- An item whose visit fails makes the whole visit fail. -/
theorem visitArrayHelper_error {overlay : α → α → α} {fits : α → Prop} {e : Error}
    {values : List α}
    (hread : ∀ v ∈ values, fits v → ∀ target s,
      visit target ⟨write v ++ s, false⟩ = .ok (overlay target v, ⟨s, false⟩))
    (hfail : ∀ v ∈ values, ¬fits v → ∀ target s,
      visit target ⟨write v ++ s, false⟩ = .error e)
    (hv : ¬∀ v ∈ values, fits v) :
    ∀ {targets : List α} (s : Bytes), targets.length = values.length →
      visitArrayHelper visit targets ⟨values.flatMap write ++ s, false⟩ = .error e := by
  induction values with
  | nil => simp at hv
  | cons v values ih =>
    intro targets s hlen
    cases targets with
    | nil => simp at hlen
    | cons target targets =>
      rw [visitArrayHelper, List.flatMap_cons, List.append_assoc]
      by_cases hfits : fits v
      · -- the first item is read, so it is a later one that does not fit
        rw [hread v (by simp) hfits]
        have hrest := @ih (fun v hv => hread v (List.mem_cons_of_mem _ hv))
          (fun v hv => hfail v (List.mem_cons_of_mem _ hv))
          (fun h => hv (List.forall_mem_cons.mpr ⟨hfits, h⟩)) targets s
          (by simpa using hlen)
        simp only [bind, Except.bind, Bool.false_eq_true, if_false, hrest]
      · rw [hfail v (by simp) hfits]
        rfl

variable {P : ℕ → Prop} {items : {l : List α // P l.length}} {st : State}

theorem visitItems_of_ok {items' : {l : List α // P l.length}} {st' : State}
    (h : visitArrayHelper visit items.val st = .ok (items'.val, st')) :
    visitItems visit items st = .ok (items', st') := by
  unfold visitItems
  split
  next l s hl =>
    obtain ⟨rfl, rfl⟩ := Prod.mk.inj (Except.ok.inj (hl.symm.trans h))
    rfl
  next e he => exact absurd (he.symm.trans h) nofun

theorem visitItems_of_error {e : Error} (h : visitArrayHelper visit items.val st = .error e) :
    visitItems visit items st = .error e := by
  unfold visitItems
  split
  next l s hl => exact absurd (hl.symm.trans h) nofun
  next e' he => rw [Except.error.inj (he.symm.trans h)]

end VisitArrayHelper

/-! ### What the target holds afterwards -/

mutual

/-- No string of the value is longer than `ReadString` allows. -/
def StringsFit : (t : Ty) → t.Val → Prop
  | .string, v => v.val.length ≤ Format.kMaxStringSize
  | .vector elem, v => ∀ x ∈ v.val, StringsFit elem x
  | .array elem _, v => ∀ x ∈ v.val, StringsFit elem x
  | .optional elem, some x => StringsFit elem x
  | .object _ fields, v => StringsFitFields fields v
  | _, _ => True

/-- No string of the fields is longer than `ReadString` allows. -/
def StringsFitFields : (fields : Fields) → fields.Vals → Prop
  | .nil, _ => True
  | .cons _ ty rest, v => StringsFit ty v.1 ∧ StringsFitFields rest v.2

end

variable (fresh : Fresh)

mutual

/-- The target after the bytes of `v` were read into it. -/
def overlay : (t : Ty) → (target v : t.Val) → t.Val
  | .bool, _, v => v
  | .int _ _, _, v => v
  | .float32, _, v => v
  | .float64, _, v => v
  | .bytes, _, v => v
  | .string, _, v => v
  | .vector elem, target, v =>
    ⟨List.zipWith (overlay elem) (Seq.resize (fresh.valueInit elem) v.size target).val v.val,
      lt_of_le_of_lt (List.length_zipWith ▸ Nat.min_le_right _ _) v.property⟩
  | .array elem _, target, v =>
    ⟨List.zipWith (overlay elem) target.val v.val, by
      rw [List.length_zipWith, target.property, v.property, Nat.min_self]⟩
  | .optional _, target, none => target
  | .optional elem, _, some x => some (overlay elem (fresh.valueInit elem) x)
  | .enum _, _, v => v
  | .object _ fields, target, v => overlayFields fields target v
  | .timestamp, _, v => v
  | .duration, _, v =>
    Base.convertMicrosecondsToDuration (Base.convertDurationToMicroseconds v)

/-- The fields after the bytes of `v` were read into them. -/
def overlayFields : (fields : Fields) → (target v : fields.Vals) → fields.Vals
  | .nil, _, _ => ()
  | .cons _ ty rest, target, v => (overlay ty target.1 v.1, overlayFields rest target.2 v.2)

end

mutual

/-- Reading `v` leaves nothing of the target: where `v` has an empty optional, the target has one
too, be it the target's own or that of an item made on the way, and no duration of `v` is the one
whose encoding stands for `not_a_date_time`. -/
def Replaces : (t : Ty) → (target v : t.Val) → Prop
  | .vector elem, target, v =>
    List.Forall₂ (Replaces elem) (Seq.resize (fresh.valueInit elem) v.size target).val v.val
  | .array elem _, target, v => List.Forall₂ (Replaces elem) target.val v.val
  | .optional _, target, none => target = none
  | .optional elem, _, some x => Replaces elem (fresh.valueInit elem) x
  | .object _ fields, target, v => ReplacesFields fields target v
  | .duration, _, v => ¬Base.Duration.Aliased v
  | _, _, _ => True

/-- Reading the fields `v` leaves nothing of the target's. -/
def ReplacesFields : (fields : Fields) → (target v : fields.Vals) → Prop
  | .nil, _, _ => True
  | .cons _ ty rest, target, v => Replaces ty target.1 v.1 ∧ ReplacesFields rest target.2 v.2

end

/-! ### Reading what was written -/

theorem IntSize.bytes_le (size : IntSize) : 8 * size.bytes ≤ 64 := by
  cases size <;> decide

/-- Casting an enumerator to `uint64_t` and back. -/
theorem ofUInt64_toUInt64 (e : EnumType) (v : Word e.size) : e.ofUInt64 (e.toUInt64 v) = v := by
  have hle : 8 * e.size.bytes ≤ 64 := IntSize.bytes_le e.size
  unfold EnumType.ofUInt64 EnumType.toUInt64
  split
  · apply BitVec.eq_of_getLsbD_eq
    intro i hi
    rw [BitVec.getLsbD_setWidth, BitVec.getLsbD_signExtend]
    simp only [hi, decide_true, Bool.true_and, if_true, decide_eq_true (show i < 64 by omega)]
  · rw [BitVec.setWidth_setWidth_of_le _ hle, BitVec.setWidth_eq]

section SetValue

variable {α : Type} (target : α) (s : Bytes)

theorem setValue_readScalar (size : ℕ) (f : BitVec (8 * size) → α) (v : BitVec (8 * size)) :
    setValue f target false (readScalar size (writeScalar size v ++ s)) = (f v, ⟨s, false⟩) := by
  rw [readScalar_writeScalar, setValue]

theorem setValue_readVaruint (f : UInt64 → α) (v : UInt64) :
    setValue f target false (readVaruint (writeVaruint v ++ s)) = (f v, ⟨s, false⟩) := by
  rw [readVaruint_writeVaruint, setValue]

theorem setValue_readU8 (target v : Bool) :
    setValue (· != 0) target false (readU8 (writeBool v ++ s)) = (v, ⟨s, false⟩) := by
  cases v <;> rfl

end SetValue

mutual

/-- **Reading the bytes of a value** whose strings fit: no error, the stream at the suffix. -/
theorem visit_write : (t : Ty) → (target v : t.Val) → StringsFit t v → (s : Bytes) →
    visit fresh t target ⟨BinaryWriteArchive.visit t v ++ s, false⟩ =
      .ok (overlay fresh t target v, ⟨s, false⟩)
  | .bool, target, v, _, s => congrArg Except.ok (setValue_readU8 s target v)
  | .int _ size, target, v, _, s =>
    congrArg Except.ok (setValue_readScalar target s size.bytes id v)
  | .float32, target, v, _, s => congrArg Except.ok (setValue_readScalar target s 4 id v)
  | .float64, target, v, _, s => congrArg Except.ok (setValue_readScalar target s 8 id v)
  | .bytes, target, v, _, s => by
    have hdata : Seq.overwrite v.val (Seq.resize 0 v.size target) = v :=
      Subtype.ext (Seq.overwrite_of_length_eq (by rw [Seq.length_resize, Seq.toNat_size]))
    rw [visit, BinaryWriteArchive.visit, List.append_assoc, readVaruint_writeVaruint]
    simp only [rawRead, Seq.toNat_size, List.take_left', List.drop_left', List.length_append,
      Nat.le_add_right, decide_true, hdata]
    rfl
  | .string, _, v, h, s => by
    have hfit : v.val.length ≤ Format.kMaxStringSize := h
    rw [visit, BinaryWriteArchive.visit, readString_writeString, if_pos hfit]
    rfl
  | .vector elem, target, v, h, s => by
    rw [visit, BinaryWriteArchive.visit, List.append_assoc, readVaruint_writeVaruint]
    refine visitItems_of_ok (visitArrayHelper_append (fun x hx target s => ?_) s ?_)
    · exact visit_write elem target x (h x hx) s
    · rw [Seq.length_resize, Seq.toNat_size]
  | .array elem n, target, v, h, s => by
    rw [visit, BinaryWriteArchive.visit]
    refine visitItems_of_ok (visitArrayHelper_append (fun x hx target s => ?_) s ?_)
    · exact visit_write elem target x (h x hx) s
    · rw [target.property, v.property]
  | .optional _, target, none, _, s => by
    rfl
  | .optional elem, target, some x, h, s => by
    show ((visit fresh elem (fresh.valueInit elem) ⟨BinaryWriteArchive.visit elem x ++ s, false⟩).bind
      fun r => .ok (some r.1, r.2)) = _
    rw [visit_write elem _ x h s]
    rfl
  | .enum e, target, v, _, s =>
    congrArg Except.ok ((setValue_readVaruint target s e.ofUInt64 (e.toUInt64 v)).trans
      (by rw [ofUInt64_toUInt64]; rfl))
  | .object _ fields, target, v, h, s => accept_write fields target v h s
  | .timestamp, _, v, _, s => by
    rw [visit, BinaryWriteArchive.visit, readScalar_writeScalar]
    simp only [Base.convertEpochMicrosecondsToPtime_convert]
    rfl
  | .duration, target, v, _, s =>
    congrArg Except.ok (setValue_readScalar target s 8 Base.convertMicrosecondsToDuration _)

/-- Reading the bytes of fields whose strings fit. -/
theorem accept_write : (fields : Fields) → (target v : fields.Vals) → StringsFitFields fields v →
    (s : Bytes) →
    accept fresh fields target ⟨BinaryWriteArchive.accept fields v ++ s, false⟩ =
      .ok (overlayFields fresh fields target v, ⟨s, false⟩)
  | .nil, target, _, _, s => by
    rfl
  | .cons _ ty rest, target, v, h, s => by
    rw [BinaryWriteArchive.accept, List.append_assoc, accept]
    simp only [bind, Except.bind]
    rw [visit_write ty target.1 v.1 h.1]
    dsimp only
    rw [accept_write rest target.2 v.2 h.2]
    rfl

end

mutual

/-- A string that does not fit fails the assertion of `ReadString`. -/
theorem visit_write_error : (t : Ty) → (target v : t.Val) → ¬StringsFit t v → (s : Bytes) →
    visit fresh t target ⟨BinaryWriteArchive.visit t v ++ s, false⟩ = .error .assertion
  | .string, _, v, h, s => by
    have hlong : ¬v.val.length ≤ Format.kMaxStringSize := h
    rw [visit, BinaryWriteArchive.visit, readString_writeString, if_neg hlong]
    rfl
  | .vector elem, target, v, h, s => by
    rw [visit, BinaryWriteArchive.visit, List.append_assoc, readVaruint_writeVaruint]
    refine visitItems_of_error (visitArrayHelper_error
      (fun x _ hx target s => visit_write fresh elem target x hx s) (fun x _ hx target s => ?_) h s ?_)
    · exact visit_write_error elem target x hx s
    · rw [Seq.length_resize, Seq.toNat_size]
  | .array elem n, target, v, h, s => by
    rw [visit, BinaryWriteArchive.visit]
    refine visitItems_of_error (visitArrayHelper_error
      (fun x _ hx target s => visit_write fresh elem target x hx s) (fun x _ hx target s => ?_) h s ?_)
    · exact visit_write_error elem target x hx s
    · rw [target.property, v.property]
  | .optional elem, target, some x, h, s => by
    show ((visit fresh elem (fresh.valueInit elem) ⟨BinaryWriteArchive.visit elem x ++ s, false⟩).bind
      fun r => .ok (some r.1, r.2)) = _
    rw [visit_write_error elem _ x h s]
    rfl
  | .object _ fields, target, v, h, s => accept_write_error fields target v h s
  | .optional _, _, none, h, _ => absurd trivial h
  | .bool, _, _, h, _ | .int _ _, _, _, h, _ | .float32, _, _, h, _ | .float64, _, _, h, _
  | .bytes, _, _, h, _ | .enum _, _, _, h, _ | .timestamp, _, _, h, _ | .duration, _, _, h, _ =>
    absurd trivial h

theorem accept_write_error : (fields : Fields) → (target v : fields.Vals) →
    ¬StringsFitFields fields v → (s : Bytes) →
    accept fresh fields target ⟨BinaryWriteArchive.accept fields v ++ s, false⟩ = .error .assertion
  | .nil, _, _, h, _ => absurd trivial h
  | .cons _ ty rest, target, v, h, s => by
    rw [BinaryWriteArchive.accept, List.append_assoc, accept]
    simp only [bind, Except.bind]
    by_cases hfirst : StringsFit ty v.1
    · rw [visit_write fresh ty target.1 v.1 hfirst]
      dsimp only
      rw [accept_write_error rest target.2 v.2 (fun hrest => h ⟨hfirst, hrest⟩)]
    · rw [visit_write_error ty target.1 v.1 hfirst]

end

/-! ### When the value is read back -/

/-- A container is replaced when each of its items is. -/
theorem zipWith_eq_right_iff {α : Type} {overlay : α → α → α} {replaces : α → α → Prop}
    {values : List α}
    (h : ∀ v ∈ values, ∀ target, overlay target v = v ↔ replaces target v) :
    ∀ {targets : List α}, targets.length = values.length →
      (List.zipWith overlay targets values = values ↔ List.Forall₂ replaces targets values) := by
  induction values with
  | nil =>
    intro targets hlen
    rw [List.length_eq_zero_iff.mp hlen]
    simp
  | cons v values ih =>
    intro targets hlen
    cases targets with
    | nil => simp at hlen
    | cons target targets =>
      have hrest := @ih (fun v hv => h v (List.mem_cons_of_mem _ hv)) targets
        (by simpa using hlen)
      rw [List.zipWith_cons_cons, List.cons.injEq, List.forall₂_cons, h v (by simp), hrest]

mutual

/-- What the target holds afterwards is the value if and only if `Replaces` holds. -/
theorem overlay_eq_iff : (t : Ty) → (target v : t.Val) →
    (overlay fresh t target v = v ↔ Replaces fresh t target v)
  | .vector elem, target, v => by
    rw [overlay, Replaces, Subtype.ext_iff]
    refine zipWith_eq_right_iff (fun x _ target => overlay_eq_iff elem target x) ?_
    rw [Seq.length_resize, Seq.toNat_size]
  | .array elem n, target, v => by
    rw [overlay, Replaces, Subtype.ext_iff]
    refine zipWith_eq_right_iff (fun x _ target => overlay_eq_iff elem target x) ?_
    rw [target.property, v.property]
  | .optional _, target, none => Iff.rfl
  | .optional elem, target, some x => by
    rw [overlay, Replaces, Option.some.injEq]
    exact overlay_eq_iff elem _ x
  | .object _ fields, target, v => overlayFields_eq_iff fields target v
  | .duration, _, v => Base.convertMicrosecondsToDuration_eq_iff v
  | .bool, _, _ | .int _ _, _, _ | .float32, _, _ | .float64, _, _ | .bytes, _, _ | .string, _, _
  | .enum _, _, _ | .timestamp, _, _ => iff_of_true rfl trivial

theorem overlayFields_eq_iff : (fields : Fields) → (target v : fields.Vals) →
    (overlayFields fresh fields target v = v ↔ ReplacesFields fresh fields target v)
  | .nil, _, _ => iff_of_true rfl trivial
  | .cons _ ty rest, target, v => by
    rw [overlayFields, ReplacesFields, Prod.ext_iff]
    exact and_congr (overlay_eq_iff ty target.1 v.1) (overlayFields_eq_iff rest target.2 v.2)

end

/-- **The round trip**: reading what was written for `v`, whatever follows it, leaves `v` in the
target, reports no error and stops at the suffix, if and only if the strings of `v` fit and `v`
replaces the target. -/
theorem visit_write_eq_ok_iff (t : Ty) (target v : t.Val) (suffix : Bytes) :
    visit fresh t target ⟨BinaryWriteArchive.visit t v ++ suffix, false⟩ =
        .ok (v, ⟨suffix, false⟩) ↔
      StringsFit t v ∧ Replaces fresh t target v := by
  by_cases hfit : StringsFit t v
  · rw [visit_write fresh t target v hfit, Except.ok.injEq, Prod.mk.injEq, ← overlay_eq_iff]
    simp [hfit]
  · rw [visit_write_error fresh t target v hfit]
    exact iff_of_false nofun (fun h => hfit h.1)

/-- An empty `std::optional<uint8_t>` read into one that holds 7: the 7 stays. -/
theorem not_visit_write_eq_ok :
    ¬∀ (fresh : Fresh) (t : Ty) (target v : t.Val) (suffix : Bytes),
      visit fresh t target ⟨BinaryWriteArchive.visit t v ++ suffix, false⟩ =
        .ok (v, ⟨suffix, false⟩) := by
  intro h
  have h7 := h .zero (.optional (.int false .one)) (some 7) none []
  have hkept : visit .zero (.optional (.int false .one)) (some 7) ⟨[0] ++ [], false⟩ =
      .ok (some 7, ⟨[], false⟩) := rfl
  exact absurd (hkept.symm.trans h7) nofun

end Mjlib.Telemetry.BinaryReadArchive
