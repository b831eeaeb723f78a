import Mjlib.Telemetry.Types

/-!
# `BinaryReadArchive`

Reading a value whose schema is that of the target.  The archive has a sticky `error_`; a visit
returns what the target holds afterwards, also when it has failed half way.
-/

namespace Mjlib.Telemetry.BinaryReadArchive

/-- The archive: the bytes left in the stream and `error_`. -/
structure State where
  stream : Bytes
  error : Bool
deriving DecidableEq, Repr

/-- Store what a reader found, or set `error_` and leave the target as it is. -/
def setValue {α β : Type} (f : β → α) (target : α) (error : Bool) :
    Option β × Bytes → α × State
  | (some x, s) => (f x, ⟨s, error⟩)
  | (none, s) => (target, ⟨s, true⟩)

/-- `VisitArrayHelper`: the items in order, up to the first after which `error_` is set. -/
def visitArrayHelper {α : Type} (visit : α → State → Except Error (α × State)) : List α → State → Except Error (List α × State)
  | [], st => .ok ([], st)
  | item :: items, st => do
    let (item, st) ← visit item st
    if st.error then return (item :: items, st)
    let (items, st) ← visitArrayHelper visit items st
    return (item :: items, st)

theorem length_of_visitArrayHelper {α : Type} {visit : α → State → Except Error (α × State)} {items : List α} :
    ∀ {items' : List α} {st st' : State},
      visitArrayHelper visit items st = .ok (items', st') → items'.length = items.length := by
  induction items with
  | nil =>
    intro items' st st' h
    obtain ⟨rfl, -⟩ := Prod.mk.inj (Except.ok.inj h)
    rfl
  | cons item items ih =>
    intro items' st st' h
    rw [visitArrayHelper] at h
    cases hv : visit item st with
    | error e => simp [hv, bind, Except.bind] at h
    | ok r =>
      simp only [hv, bind, Except.bind, pure, Except.pure] at h
      split at h
      · obtain ⟨rfl, -⟩ := Prod.mk.inj (Except.ok.inj h)
        rfl
      · cases hr : visitArrayHelper visit items r.2 with
        | error e => simp [hr] at h
        | ok r' =>
          simp only [hr] at h
          obtain ⟨rfl, -⟩ := Prod.mk.inj (Except.ok.inj h)
          simp only [List.length_cons, ih hr]

/-- `VisitArrayHelper` over a container whose size it keeps. -/
def visitItems {α : Type} {P : ℕ → Prop} (visit : α → State → Except Error (α × State))
    (items : {l : List α // P l.length}) (st : State) : Except Error ({l : List α // P l.length} × State) :=
  match h : visitArrayHelper visit items.val st with
  | .ok (items', st) => .ok (⟨items', length_of_visitArrayHelper h ▸ items.property⟩, st)
  | .error e => .error e

variable (fresh : Fresh)

mutual

/-- `Visit`, by the type of the target. -/
def visit : (t : Ty) → t.Val → State → Except Error (t.Val × State)
  | .bool, value, st => .ok (setValue (· != 0) value st.error (readU8 st.stream))
  | .int _ size, value, st => .ok (setValue id value st.error (readScalar size.bytes st.stream))
  | .float32, value, st => .ok (setValue id value st.error (readScalar 4 st.stream))
  | .float64, value, st => .ok (setValue id value st.error (readScalar 8 st.stream))
  | .bytes, value, st =>
    match readVaruint st.stream with
    | (none, s) => .ok (value, ⟨s, true⟩)
    | (some size, s) =>
      let (data, valid, s) := rawRead size.toNat s
      .ok (Seq.overwrite data (Seq.resize 0 size value), ⟨s, st.error || !valid⟩)
  | .string, value, st => do
    match ← readString st.stream with
    | (none, s) => return (value, ⟨s, true⟩)
    | (some data, s) => return (data, ⟨s, st.error⟩)
  | .vector elem, value, st =>
    match readVaruint st.stream with
    | (none, s) => .ok (value, ⟨s, true⟩)
    | (some size, s) =>
      visitItems (P := (· < 2 ^ 64)) (visit elem) (Seq.resize (fresh.valueInit elem) size value)
        ⟨s, st.error⟩
  | .array elem n, value, st => visitItems (P := (· = n.toNat)) (visit elem) value st
  | .optional elem, value, st =>
    match readU8 st.stream with
    | (none, s) => .ok (value, ⟨s, true⟩)
    | (some present, s) =>
      if present = 0 then .ok (value, ⟨s, st.error⟩)
      else if present = 1 then do
        let (item, st) ← visit elem (fresh.valueInit elem) ⟨s, st.error⟩
        return (some item, st)
      else .ok (value, ⟨s, true⟩)
  | .enum e, value, st => .ok (setValue e.ofUInt64 value st.error (readVaruint st.stream))
  | .object _ fields, value, st => accept fields value st
  | .timestamp, value, st =>
    match readScalar 8 st.stream with
    | (none, s) => .ok (value, ⟨s, true⟩)
    | (some data, s) =>
      match Base.convertEpochMicrosecondsToPtime data with
      | some time => .ok (time, ⟨s, st.error⟩)
      | none => .error .undefinedTime
  | .duration, value, st =>
    .ok (setValue Base.convertMicrosecondsToDuration value st.error (readScalar 8 st.stream))

/-- `Accept`: the fields one after the other, also after an error. -/
def accept : (fields : Fields) → fields.Vals → State → Except Error (fields.Vals × State)
  | .nil, value, st => .ok (value, st)
  | .cons _ ty rest, value, st => do
    let (first, st) ← visit ty value.1 st
    let (others, st) ← accept rest value.2 st
    return ((first, others), st)

end

end Mjlib.Telemetry.BinaryReadArchive
