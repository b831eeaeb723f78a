import Mjlib.Telemetry.Equiv.BinaryReadArchive

/-!
# How far `BinaryReadArchive` reads

Where the archive ends in its stream, and whether it fails, does not depend on what the target held:
`skim` walks over the bytes by the type alone, and `skim_eq` says that the archive walks with it.
-/

namespace Mjlib.Telemetry.BinaryReadArchive

/-- The archive behind a read that may find too little. -/
def advance {β : Type} (error : Bool) : Option β × Bytes → State
  | (some _, s) => ⟨s, error⟩
  | (none, s) => ⟨s, true⟩

/-- The walk over items, up to the first after which `error_` is set. -/
def skimItems (skim : State → Except Error State) : ℕ → State → Except Error State
  | 0, st => .ok st
  | n + 1, st => do
    let st ← skim st
    if st.error then return st
    skimItems skim n st

mutual

/-- The archive behind an object of the type. -/
def skim : Ty → State → Except Error State
  | .bool, st => .ok (advance st.error (readU8 st.stream))
  | .int _ size, st => .ok (advance st.error (readScalar size.bytes st.stream))
  | .float32, st => .ok (advance st.error (readScalar 4 st.stream))
  | .float64, st => .ok (advance st.error (readScalar 8 st.stream))
  | .bytes, st =>
    match readVaruint st.stream with
    | (none, s) => .ok ⟨s, true⟩
    | (some size, s) =>
      let (_, valid, s) := rawRead size.toNat s
      .ok ⟨s, st.error || !valid⟩
  | .string, st => (readString st.stream).map (advance st.error)
  | .vector elem, st =>
    match readVaruint st.stream with
    | (none, s) => .ok ⟨s, true⟩
    | (some size, s) => skimItems (skim elem) size.toNat ⟨s, st.error⟩
  | .array elem n, st => skimItems (skim elem) n.toNat st
  | .optional elem, st =>
    match readU8 st.stream with
    | (none, s) => .ok ⟨s, true⟩
    | (some present, s) =>
      if present = 0 then .ok ⟨s, st.error⟩
      else if present = 1 then skim elem ⟨s, st.error⟩
      else .ok ⟨s, true⟩
  | .enum _, st => .ok (advance st.error (readVaruint st.stream))
  | .object _ fields, st => skimFields fields st
  | .timestamp, st =>
    match readScalar 8 st.stream with
    | (none, s) => .ok ⟨s, true⟩
    | (some data, s) =>
      match Base.convertEpochMicrosecondsToPtime data with
      | some _ => .ok ⟨s, st.error⟩
      | none => .error .undefinedTime
  | .duration, st => .ok (advance st.error (readScalar 8 st.stream))

/-- The archive behind the fields. -/
def skimFields : Fields → State → Except Error State
  | .nil, st => .ok st
  | .cons _ ty rest, st => do
    let st ← skim ty st
    skimFields rest st

end

theorem setValue_snd {α β : Type} (f : β → α) (target : α) (error : Bool) (r : Option β × Bytes) :
    (setValue f target error r).2 = advance error r := by
  obtain ⟨found, s⟩ := r
  cases found with
  | none => rfl
  | some x => rfl

section Items

variable {α : Type} {visit : α → State → Except Error (α × State)}
  {skim : State → Except Error State}

theorem visitArrayHelper_map (hskim : ∀ item st, (visit item st).map Prod.snd = skim st)
    (items : List α) (st : State) :
    (visitArrayHelper visit items st).map Prod.snd = skimItems skim items.length st := by
  induction items generalizing st with
  | nil => rfl
  | cons item items ih =>
    rw [visitArrayHelper, List.length_cons, skimItems, ← hskim item st]
    cases hvisit : visit item st with
    | error e => rfl
    | ok r =>
      cases herror : r.2.error with
      | true => simp [bind, Except.bind, Except.map, herror, pure, Except.pure]
      | false =>
        simp only [bind, Except.bind, Except.map, herror, Bool.false_eq_true, if_false]
        rw [← ih r.2]
        cases visitArrayHelper visit items r.2 with
        | error e => rfl
        | ok r' => rfl

theorem visitItems_map (hskim : ∀ item st, (visit item st).map Prod.snd = skim st) {P : ℕ → Prop}
    (items : {l : List α // P l.length}) (st : State) :
    (visitItems visit items st).map Prod.snd = skimItems skim items.val.length st := by
  rw [← visitArrayHelper_map hskim items.val st]
  cases hall : visitArrayHelper visit items.val st with
  | error e =>
    rw [visitItems_of_error hall]
    rfl
  | ok r =>
    obtain ⟨items', st'⟩ := r
    have hproperty : P items'.length := length_of_visitArrayHelper hall ▸ items.property
    have hok : visitArrayHelper visit items.val st =
        .ok ((⟨items', hproperty⟩ : {l : List α // P l.length}).val, st') := hall
    rw [visitItems_of_ok hok]
    rfl

end Items

variable (fresh : Fresh)

mutual

/-- **The archive reads by the type**: where it ends does not depend on the target. -/
theorem skim_eq : (t : Ty) → (value : t.Val) → (st : State) →
    (visit fresh t value st).map Prod.snd = skim t st
  | .bool, value, st => congrArg Except.ok (setValue_snd _ value st.error _)
  | .int _ _, value, st => congrArg Except.ok (setValue_snd id value st.error _)
  | .float32, value, st => congrArg Except.ok (setValue_snd id value st.error _)
  | .float64, value, st => congrArg Except.ok (setValue_snd id value st.error _)
  | .bytes, value, st => by
    rw [visit, skim]
    obtain ⟨found, s⟩ := readVaruint st.stream
    cases found with
    | none => rfl
    | some size => rfl
  | .string, value, st => by
    rw [visit, skim]
    cases readString st.stream with
    | error e => rfl
    | ok r =>
      obtain ⟨found, s⟩ := r
      cases found with
      | none => rfl
      | some data => rfl
  | .vector elem, value, st => by
    rw [visit, skim]
    obtain ⟨found, s⟩ := readVaruint st.stream
    cases found with
    | none => rfl
    | some size =>
      refine (visitItems_map (P := (· < 2 ^ 64)) (fun item st => skim_eq elem item st)
        (Seq.resize (fresh.valueInit elem) size value) ⟨s, st.error⟩).trans ?_
      rw [Seq.length_resize]
  | .array elem n, value, st => by
    rw [visit, skim]
    refine (visitItems_map (P := (· = n.toNat)) (fun item st => skim_eq elem item st)
      value st).trans ?_
    rw [value.property]
  | .optional elem, value, st => by
    rw [visit, skim]
    obtain ⟨found, s⟩ := readU8 st.stream
    cases found with
    | none => rfl
    | some present =>
      simp only
      split_ifs
      · rfl
      · rw [← skim_eq elem (fresh.valueInit elem) ⟨s, st.error⟩]
        cases visit fresh elem (fresh.valueInit elem) ⟨s, st.error⟩ with
        | error e => rfl
        | ok r => rfl
      · rfl
  | .enum e, value, st => congrArg Except.ok (setValue_snd e.ofUInt64 value st.error _)
  | .object _ fields, value, st => by
    rw [visit, skim]
    exact skimFields_eq fields value st
  | .timestamp, value, st => by
    rw [visit, skim]
    obtain ⟨found, s⟩ := readScalar 8 st.stream
    cases found with
    | none => rfl
    | some data =>
      simp only
      cases Base.convertEpochMicrosecondsToPtime data with
      | none => rfl
      | some time => rfl
  | .duration, value, st => congrArg Except.ok (setValue_snd _ value st.error _)

/-- The same of the fields of an object. -/
theorem skimFields_eq : (fields : Fields) → (value : fields.Vals) → (st : State) →
    (accept fresh fields value st).map Prod.snd = skimFields fields st
  | .nil, value, st => rfl
  | .cons name ty rest, value, st => by
    rw [accept, skimFields, ← skim_eq ty value.1 st]
    cases visit fresh ty value.1 st with
    | error e => rfl
    | ok r =>
      show ((accept fresh rest value.2 r.2).bind fun x => .ok ((r.1, x.1), x.2)).map Prod.snd =
        skimFields rest r.2
      rw [← skimFields_eq rest value.2 r.2]
      cases accept fresh rest value.2 r.2 with
      | error e => rfl
      | ok r' => rfl

end

end Mjlib.Telemetry.BinaryReadArchive
