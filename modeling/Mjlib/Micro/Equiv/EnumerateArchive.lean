import Mathlib
import Mjlib.Lib.Run
import Mjlib.Micro.EnumerateArchive

/-!
# What an enumeration writes

The walk emits the leaf whose index is the target (`evaluate_eq`), so the enumeration goes over the
leaves by their indices.  `wholeOrNothing_iff` says when the line of a leaf is whole, or left out.
Along any run the enumeration has written the lines up to the target (`Progress`), and it calls its
callback when the last line is written: `completes_iff` says for which objects and buffers this is
so.
-/

namespace Mjlib.Micro.EnumerateArchive

open Base Telemetry

variable (floats : FloatFormat)

/-! ### Leaves -/

mutual

/-- The leaves of a value, in the order of declaration. -/
def leaves (prefixes : List Bytes) : (t : Ty) → t.Val → (name : Bytes) → List Line
  | .object _ fields, value, name => fieldLeaves (prefixes ++ [name]) fields value
  | .array elem _, value, name =>
    value.val.zipIdx.flatMap fun item => leaves (prefixes ++ [name]) elem item.1 (decimal item.2)
  | t, value, name => (formatValue floats t value).toList.map fun text => ⟨prefixes, name, text⟩

/-- The leaves of the fields of an object. -/
def fieldLeaves (prefixes : List Bytes) : (fields : Fields) → fields.Vals → List Line
  | .nil, _ => []
  | .cons name ty rest, value =>
    leaves prefixes ty value.1 name.val ++ fieldLeaves prefixes rest value.2

end

/-- The leaves of an enumeration. -/
def Request.leaves (request : Request) : List Line :=
  fieldLeaves floats [request.rootPrefix] request.fields request.value

/-- The text of a leaf's line. -/
def Line.render (line : Line) : Bytes :=
  line.prefixes.flatMap (· ++ [0x2e]) ++ line.name ++ [0x20] ++ line.text ++ [0x0d, 0x0a]

/-- The text of an enumeration. -/
def Request.text (request : Request) : Bytes := (request.leaves floats).flatMap Line.render

variable {floats} {target : UInt16}

/-! ### The walk -/

/-- Visit leaves one after the other. -/
def emitAll (target : UInt16) (lines : List Line) (walk : Walk) : Walk :=
  lines.foldl (fun walk line => if walk.done then walk else emitValue target line walk) walk

theorem emitAll_of_done {walk : Walk} (h : walk.done) (lines : List Line) :
    emitAll target lines walk = walk := by
  unfold emitAll
  induction lines with
  | nil => rfl
  | cons line lines ih => rw [List.foldl_cons, if_pos h, ih]

theorem emitAll_append (lines lines' : List Line) (walk : Walk) :
    emitAll target (lines ++ lines') walk = emitAll target lines' (emitAll target lines walk) :=
  List.foldl_append

/-- A visit that does nothing once it is done. -/
theorem ite_done_eq (lines : List Line) (walk : Walk) :
    (if walk.done then walk else emitAll target lines walk) = emitAll target lines walk := by
  split_ifs with h
  · rw [emitAll_of_done h]
  · rfl

theorem foldl_emitAll {α : Type} (f : α → List Line) (items : List α) (walk : Walk) :
    items.foldl (fun walk item => emitAll target (f item) walk) walk =
      emitAll target (items.flatMap f) walk := by
  induction items generalizing walk with
  | nil => rfl
  | cons item items ih => rw [List.foldl_cons, ih, List.flatMap_cons, emitAll_append]

theorem emitAll_scalar (prefixes : List Bytes) (name : Bytes) (text : Option Bytes) (walk : Walk) :
    (if walk.done then walk
      else match text with
        | some text => emitValue target ⟨prefixes, name, text⟩ walk
        | none => walk) =
      emitAll target (text.toList.map fun text => ⟨prefixes, name, text⟩) walk := by
  cases text with
  | none => exact ite_self walk
  | some text => rfl

mutual

/-- **A visit goes over the leaves of the value.** -/
theorem visit_eq (prefixes : List Bytes) : ∀ (t : Ty) (value : t.Val) (name : Bytes) (walk : Walk),
    visit floats target prefixes t value name walk =
      emitAll target (leaves floats prefixes t value name) walk
  | .object _ fields, value, name, walk => by
    rw [visit, leaves, accept_eq]
    exact ite_done_eq _ _
  | .array elem n, value, name, walk => by
    rw [visit, leaves, ← ite_done_eq, ← foldl_emitAll]
    congr 2
    funext walk item
    exact visit_eq _ elem item.1 _ walk
  | .bool, value, name, walk => emitAll_scalar _ _ (formatValue floats .bool value) _
  | .int signed size, value, name, walk =>
    emitAll_scalar _ _ (formatValue floats (.int signed size) value) _
  | .float32, value, name, walk => emitAll_scalar _ _ (formatValue floats .float32 value) _
  | .float64, value, name, walk => emitAll_scalar _ _ (formatValue floats .float64 value) _
  | .enum e, value, name, walk => emitAll_scalar _ _ (formatValue floats (.enum e) value) _
  | .optional elem, value, name, walk =>
    emitAll_scalar _ _ (formatValue floats (.optional elem) value) _
  | .bytes, value, name, walk => emitAll_scalar _ _ none _
  | .string, value, name, walk => emitAll_scalar _ _ none _
  | .vector elem, value, name, walk => emitAll_scalar _ _ none _
  | .timestamp, value, name, walk => emitAll_scalar _ _ none _
  | .duration, value, name, walk => emitAll_scalar _ _ none _

/-- `Accept` goes over the leaves of the fields. -/
theorem accept_eq (prefixes : List Bytes) : ∀ (fields : Fields) (value : fields.Vals) (walk : Walk),
    accept floats target prefixes fields value walk =
      emitAll target (fieldLeaves floats prefixes fields value) walk
  | .nil, _, _ => rfl
  | .cons name ty rest, value, walk => by
    rw [accept, fieldLeaves, emitAll_append, visit_eq, accept_eq]

end

/-- The leaf with the index that is looked for is emitted, if there is one. -/
theorem emitted_emitAll (lines : List Line) : ∀ {i : ℕ}, i ≤ target.toNat →
    (emitAll target lines ⟨UInt16.ofNat i, none⟩).emitted = lines[target.toNat - i]? := by
  induction lines with
  | nil => exact fun _ => rfl
  | cons line lines ih =>
    intro i hi
    have hlt := target.toNat_lt
    have hval : (UInt16.ofNat i).toNat = i := by
      rw [UInt16.toNat_ofNat', Nat.mod_eq_of_lt (by omega)]
    show (emitAll target lines (emitValue target line ⟨UInt16.ofNat i, none⟩)).emitted = _
    by_cases htarget : i = target.toNat
    · have heq : UInt16.ofNat i = target := UInt16.toNat_inj.mp (hval.trans htarget)
      rw [emitAll_of_done]
      · show (if UInt16.ofNat i = target then some line else none) = _
        rw [if_pos heq, htarget, Nat.sub_self]
        rfl
      · show (if UInt16.ofNat i = target then some line else none).isSome
        rw [if_pos heq]
        rfl
    · have hne : UInt16.ofNat i ≠ target := fun h => htarget (by rw [← hval, h])
      have hnext : emitValue target line ⟨UInt16.ofNat i, none⟩ = ⟨UInt16.ofNat (i + 1), none⟩ := by
        unfold emitValue
        rw [if_neg hne, UInt16.ofNat_add]
        rfl
      rw [hnext, ih (by omega)]
      have : target.toNat - i = (target.toNat - (i + 1)) + 1 := by omega
      rw [this, List.getElem?_cons_succ]

variable {request : Request}

/-- **A visit of the object emits the leaf that is next.** -/
theorem evaluate_eq (s : State) : evaluate floats request s =
    match (request.leaves floats)[s.target.toNat]? with
    | none => (s, false)
    | some line =>
      match formatField request.size line with
      | some data => ({ s with writing := some data }, true)
      | none => ({ s with failed := true }, true) := by
  unfold evaluate
  rw [accept_eq]
  have h := @emitted_emitAll s.target (request.leaves floats) 0 (Nat.zero_le _)
  rw [Nat.sub_zero] at h
  rw [← h]
  rfl

/-! ### Lines -/

theorem formatPrefix_eq (size : ℕ) : ∀ {levels : List Bytes} {written : Bytes} {ok : Bool},
    written.length + (levels.flatMap (· ++ [0x2e])).length + 1 ≤ size →
    formatPrefix size levels (written, ok) =
      (written ++ levels.flatMap (· ++ [0x2e]), !levels.isEmpty || ok) := by
  intro levels
  induction levels with
  | nil =>
    intro written ok _
    simp [formatPrefix]
  | cons level levels ih =>
    intro written ok h
    rw [List.flatMap_cons, List.length_append, List.length_append, List.length_singleton] at h
    rw [formatPrefix, if_neg (by omega), ih]
    · simp
    · rw [List.length_append, List.length_append, List.length_singleton]
      omega

/-- A line that fits the buffer is written as it should be. -/
theorem formatField_of_le {size : ℕ} {line : Line} (h : line.render.length ≤ size) :
    formatField size line = some line.render := by
  have hlen : line.render.length = (line.prefixes.flatMap (· ++ [0x2e])).length + line.name.length +
      1 + line.text.length + 2 := by
    simp only [Line.render, List.length_append, List.length_cons, List.length_nil]
  unfold formatField
  rw [formatPrefix_eq size (by rw [List.length_nil]; omega), List.nil_append, Bool.or_true]
  dsimp only
  rw [if_neg (by omega)]
  exact if_pos h

/-- A line that does not fit is not. -/
theorem length_lt_of_formatField {size : ℕ} {line : Line} {data : Bytes}
    (h : size < line.render.length) (hdata : formatField size line = some data) :
    data.length < line.render.length := by
  have hempty : ([] : Bytes).length < line.render.length := by
    rw [List.length_nil]
    omega
  unfold formatField at hdata
  split at hdata
  · cases hdata
    exact hempty
  · dsimp only at hdata
    split_ifs at hdata with hname hle
    · cases hdata
      exact hempty
    · cases hdata
      exact lt_of_le_of_lt hle h

theorem render_ne_nil (line : Line) : line.render ≠ [] := by
  unfold Line.render
  exact List.append_ne_nil_of_right_ne_nil _ (by simp)

/-! ### A whole line, or nothing -/

/-- What the prefixes leave of a buffer: one that does not fit what those above it leave is left
out. -/
def room : ℕ → List Bytes → ℕ
  | size, [] => size
  | size, level :: levels =>
    room (if level.length + 2 ≤ size then size - (level.length + 1) else size) levels

/-- `FormatPrefix` leaves the room. -/
theorem size_sub_formatPrefix (size : ℕ) (levels : List Bytes) : ∀ (written : Bytes) (ok : Bool),
    size - (formatPrefix size levels (written, ok)).1.length
      = room (size - written.length) levels := by
  induction levels with
  | nil => exact fun _ _ => rfl
  | cons level levels ih =>
    intro written ok
    rw [formatPrefix, room]
    by_cases hfits : level.length + 2 ≤ size - written.length
    · rw [if_neg (not_lt.mpr hfits), if_pos hfits, ih, List.length_append, List.length_append,
        List.length_singleton]
      congr 1
      omega
    · rw [if_pos (not_le.mp hfits), if_neg hfits, ih]

/-- The result is that of the last archive alone. -/
theorem formatPrefix_concat (size : ℕ) (levels : List Bytes) (last : Bytes) :
    ∀ (written : Bytes) (ok : Bool),
      (formatPrefix size (levels ++ [last]) (written, ok)).2 = true ↔
        last.length + 2 ≤ room (size - written.length) levels := by
  induction levels with
  | nil =>
    intro written ok
    rw [List.nil_append, formatPrefix, formatPrefix, room]
    split_ifs with hfits
    · exact iff_of_false nofun (not_le.mpr hfits)
    · exact iff_of_true rfl (not_lt.mp hfits)
  | cons level levels ih =>
    intro written ok
    rw [List.cons_append, formatPrefix, room]
    by_cases hfits : level.length + 2 ≤ size - written.length
    · rw [if_neg (not_lt.mpr hfits), if_pos hfits, ih, List.length_append, List.length_append,
        List.length_singleton, Nat.sub_sub, Nat.add_assoc]
    · rw [if_pos (not_le.mp hfits), if_neg hfits, ih]

/-- The innermost prefix, or the name, is too long for what is left of the buffer. -/
def TooLong (size : ℕ) (line : Line) : Prop :=
  (∃ levels last, line.prefixes = levels ++ [last] ∧ room size levels < last.length + 2) ∨
    room size line.prefixes < line.name.length + 3

theorem formatPrefix_eq_false_iff (size : ℕ) (levels : List Bytes) :
    (formatPrefix size levels ([], true)).2 = false ↔
      ∃ above last, levels = above ++ [last] ∧ room size above < last.length + 2 := by
  rcases List.eq_nil_or_concat levels with rfl | ⟨above, last, rfl⟩
  · refine iff_of_false (fun h => absurd h nofun) ?_
    rintro ⟨above, last, h, -⟩
    exact absurd h.symm (List.append_ne_nil_of_right_ne_nil _ (List.cons_ne_nil _ _))
  · have hfits := formatPrefix_concat size above last [] true
    rw [List.length_nil, Nat.sub_zero] at hfits
    rw [List.concat_eq_append, ← Bool.not_eq_true, hfits, not_le]
    constructor
    · exact fun h => ⟨above, last, rfl, h⟩
    · rintro ⟨above', last', heq, h⟩
      obtain ⟨rfl, hlast⟩ := List.append_inj' heq rfl
      rwa [(List.cons.inj hlast).1]

/-- **Nothing is written** exactly if the innermost prefix or the name is too long. -/
theorem formatField_eq_nil_iff {size : ℕ} {line : Line} :
    formatField size line = some [] ↔ TooLong size line := by
  have hroom := size_sub_formatPrefix size line.prefixes [] true
  rw [List.length_nil, Nat.sub_zero] at hroom
  unfold TooLong
  rw [← formatPrefix_eq_false_iff, ← hroom]
  unfold formatField
  generalize formatPrefix size line.prefixes ([], true) = result
  obtain ⟨written, _ | _⟩ := result
  · exact iff_of_true rfl (Or.inl rfl)
  · dsimp only
    split_ifs with hname hfits
    · exact iff_of_true rfl (Or.inr hname)
    · refine iff_of_false (fun h => ?_) (fun h => ?_)
      · exact absurd (Option.some.inj h) (by simp)
      · exact h.elim (fun h => absurd h nofun) hname
    · exact iff_of_false nofun fun h => h.elim (fun h => absurd h nofun) hname

/-- `FormatField` stays in the buffer, and writes the whole line or nothing. -/
def WholeOrNothing (size : ℕ) (line : Line) : Prop :=
  formatField size line = some line.render ∨ formatField size line = some []

/-- **When a line is whole or nothing**: exactly if it fits the buffer, or its innermost prefix or
its name is too long. -/
theorem wholeOrNothing_iff (size : ℕ) (line : Line) :
    WholeOrNothing size line ↔ line.render.length ≤ size ∨ TooLong size line := by
  unfold WholeOrNothing
  rw [formatField_eq_nil_iff]
  refine or_congr ⟨fun h => ?_, formatField_of_le⟩ Iff.rfl
  by_contra hlt
  exact absurd (length_lt_of_formatField (not_le.mp hlt) h) (lt_irrefl _)

/-- An object in an object, which has one leaf. -/
def nested (rootPrefix : Bytes) (size : ℕ) : Request where
  fields := .cons ⟨[0x62], by decide⟩ (.object 0 (.cons ⟨[0x63], by decide⟩ .bool .nil)) .nil
  value := ((true, ()), ())
  rootPrefix := rootPrefix
  size := size

/-- The outer prefix is left out. -/
example : formatField 9 ⟨[List.replicate 8 0x61, [0x62]], [0x63], [0x31]⟩
    = some [0x62, 0x2e, 0x63, 0x20, 0x31, 0x0d, 0x0a] := by decide

/-- The end of the line is written past the end of the buffer. -/
theorem not_wholeOrNothing : ¬∀ (floats : FloatFormat) (request : Request),
    ∀ line ∈ request.leaves floats, WholeOrNothing request.size line := by
  intro h
  have hleaf := h ⟨fun _ => [], fun _ => []⟩ (nested [0x61, 0x61] 9)
    ⟨[[0x61, 0x61], [0x62]], [0x63], [0x31]⟩ (List.mem_singleton.mpr rfl)
  rcases hleaf with h | h
  · exact absurd h (by decide)
  · exact absurd h (by decide)

/-! ### Runs -/

/-- What an enumeration does, whenever the stream takes the bytes: it writes the text of the leaves
in no more steps than there are bytes, and calls its callback once, at the end. -/
structure Finishes (floats : FloatFormat) (request : Request) (steps : ℕ) (t : State) : Prop where
  failed : t.failed = false
  written : t.written <+: request.text floats
  steps : steps ≤ (request.text floats).length
  called : t.called = if t.writing.isSome then 0 else 1
  complete : t.writing = none → t.written = request.text floats

/-- An enumeration that is under way, or finished. -/
inductive Progress (floats : FloatFormat) (request : Request) (s : State) : Prop
  | writing (line : Line) (sent rest : Bytes)
      (hline : (request.leaves floats)[s.target.toNat]? = some line)
      (hrender : line.render = sent ++ rest) (hrest : rest ≠ []) (hwriting : s.writing = some rest)
      (hwritten : s.written =
        ((request.leaves floats).take s.target.toNat).flatMap Line.render ++ sent)
      (hcalled : s.called = 0) (hfailed : s.failed = false)
  | finished (hwriting : s.writing = none) (hwritten : s.written = request.text floats)
      (hcalled : s.called = 1) (hfailed : s.failed = false)

/-- There are leaves, their indices stay below the largest one, and their lines fit the buffer. -/
structure Fits (floats : FloatFormat) (request : Request) : Prop where
  nonempty : request.leaves floats ≠ []
  length_lt : (request.leaves floats).length < 2 ^ 16
  fits : ∀ line ∈ request.leaves floats, line.render.length ≤ request.size

/-- The next leaf's line is about to be written. -/
theorem Fits.evaluate {s : State} {line : Line} (h : Fits floats request)
    (hline : (request.leaves floats)[s.target.toNat]? = some line) :
    evaluate floats request s = ({ s with writing := some line.render }, true) := by
  rw [evaluate_eq, hline]
  dsimp only
  rw [formatField_of_le (h.fits line (List.mem_of_getElem? hline))]

theorem written_evaluate (s : State) : (evaluate floats request s).1.written = s.written := by
  rw [evaluate_eq]
  split
  · rfl
  · split
    · rfl
    · rfl

theorem written_lineWritten (s : State) :
    (lineWritten floats request s).written = s.written := by
  unfold lineWritten
  dsimp only
  split_ifs
  · exact written_evaluate _
  · exact written_evaluate _

/-- A leaf's line was written. -/
theorem Fits.lineWritten {s : State} {line : Line} (h : Fits floats request)
    (hline : (request.leaves floats)[s.target.toNat]? = some line)
    (hwritten : s.written =
      ((request.leaves floats).take s.target.toNat).flatMap Line.render ++ line.render)
    (hcalled : s.called = 0) (hfailed : s.failed = false) :
    Progress floats request (lineWritten floats request s) := by
  have hlt : s.target.toNat < (request.leaves floats).length :=
    (List.getElem?_eq_some_iff.mp hline).1
  have hnext : (s.target + 1).toNat = s.target.toNat + 1 := by
    have := h.length_lt
    rw [UInt16.toNat_add, UInt16.toNat_one, Nat.mod_eq_of_lt (by omega)]
  have htake : ((request.leaves floats).take (s.target.toNat + 1)).flatMap Line.render =
      s.written := by
    rw [List.take_add_one, hline, List.flatMap_append, hwritten]
    simp
  unfold EnumerateArchive.lineWritten
  cases hnext' : (request.leaves floats)[s.target.toNat + 1]? with
  | some line' =>
    have hline' : (request.leaves floats)[({ s with target := s.target + 1, writing := none } :
        State).target.toNat]? = some line' := by
      rw [← hnext']
      exact congrArg _ hnext
    rw [h.evaluate hline']
    refine .writing line' [] line'.render hline' rfl (render_ne_nil line') rfl ?_ hcalled hfailed
    show s.written = ((request.leaves floats).take (s.target + 1).toNat).flatMap Line.render ++ []
    rw [hnext, htake, List.append_nil]
  | none =>
    have hnone : EnumerateArchive.evaluate floats request { s with target := s.target + 1, writing := none } =
        ({ s with target := s.target + 1, writing := none }, false) := by
      rw [evaluate_eq]
      show (match (request.leaves floats)[(s.target + 1).toNat]? with | none => _ | some _ => _) = _
      rw [hnext, hnext']
    rw [hnone]
    refine .finished rfl ?_ (by rw [hcalled]; rfl) hfailed
    show s.written = _
    rw [← htake, List.take_of_length_le (List.getElem?_eq_none_iff.mp hnext')]
    rfl

/-- **A step goes on with the line, or to the next one.** -/
theorem Fits.step {s s' : State} {n : ℕ} (h : Fits floats request) (hs : Progress floats request s)
    (hstep : step floats request s (.writeSome n) = some s') :
    Progress floats request s' ∧ s.written.length + 1 ≤ s'.written.length := by
  unfold EnumerateArchive.step at hstep
  cases hs with
  | finished hwriting _ _ _ =>
    rw [hwriting] at hstep
    cases hstep
  | writing line sent rest hline hrender hrest hwriting hwritten hcalled hfailed =>
    rw [hwriting] at hstep
    dsimp only at hstep
    by_cases himpossible : s.failed ∨ n > rest.length ∨ (n = 0 ∧ rest ≠ [])
    · rw [if_pos himpossible] at hstep
      cases hstep
    rw [if_neg himpossible] at hstep
    obtain ⟨hle, hn⟩ : n ≤ rest.length ∧ n ≠ 0 := by
      push Not at himpossible
      exact ⟨himpossible.2.1, fun h => hrest (himpossible.2.2 h)⟩
    obtain rfl := Option.some.inj hstep
    have hlen : s.written.length + 1 ≤ (s.written ++ rest.take n).length := by
      rw [List.length_append, List.length_take]
      omega
    split_ifs with hdrop
    · -- this was the rest of the line
      have htake : rest.take n = rest := List.take_of_length_le (by
        have := congrArg List.length hdrop
        rw [List.length_drop, List.length_nil] at this
        omega)
      refine ⟨h.lineWritten hline ?_ hcalled hfailed, ?_⟩
      · show s.written ++ rest.take n = _
        rw [htake, hwritten, List.append_assoc, ← hrender]
      · rw [written_lineWritten]
        exact hlen
    · refine ⟨.writing line (sent ++ rest.take n) (rest.drop n) hline ?_ hdrop rfl ?_ hcalled
        hfailed, hlen⟩
      · rw [hrender, List.append_assoc, List.take_append_drop]
      · show s.written ++ rest.take n = _
        rw [hwritten, List.append_assoc]

/-- **A whole run.** -/
theorem Fits.run {ns : List ℕ} : ∀ {s t : State}, Fits floats request → Progress floats request s →
    Run.run (EnumerateArchive.step floats request) s (ns.map .writeSome) = some t →
    Progress floats request t ∧ s.written.length + ns.length ≤ t.written.length := by
  induction ns with
  | nil =>
    intro s t _ hs hrun
    cases hrun
    exact ⟨hs, le_rfl⟩
  | cons n ns ih =>
    intro s t h hs hrun
    obtain ⟨s', hstep, hrun'⟩ := (Run.run_cons_eq_some _).mp hrun
    obtain ⟨hs', hlen⟩ := h.step hs hstep
    obtain ⟨ht, hlen'⟩ := ih h hs' hrun'
    refine ⟨ht, ?_⟩
    rw [List.length_cons]
    omega

/-- What was written is the beginning of the text. -/
theorem Progress.written_prefix {s : State} (h : Progress floats request s) :
    s.written <+: request.text floats := by
  cases h with
  | finished hwriting hwritten _ _ => exact hwritten ▸ List.prefix_refl _
  | writing line sent rest hline hrender hrest hwriting hwritten hcalled hfailed =>
    have hsplit := List.take_append_drop (s.target.toNat + 1) (request.leaves floats)
    rw [List.take_add_one, hline] at hsplit
    unfold Request.text
    rw [← hsplit, hwritten, List.flatMap_append, List.flatMap_append]
    refine ⟨rest ++ ((request.leaves floats).drop (s.target.toNat + 1)).flatMap Line.render, ?_⟩
    simp [hrender]

theorem Progress.finishes {s : State} {n : ℕ} (h : Progress floats request s)
    (hn : n ≤ s.written.length) : Finishes floats request n s where
  failed := by cases h <;> assumption
  written := h.written_prefix
  steps := hn.trans h.written_prefix.length_le
  called := by
    cases h with
    | writing line sent rest hline hrender hrest hwriting hwritten hcalled hfailed =>
      rw [hcalled, hwriting]
      rfl
    | finished hwriting hwritten hcalled hfailed =>
      rw [hcalled, hwriting]
      rfl
  complete hnone := by
    cases h with
    | writing line sent rest hline hrender hrest hwriting hwritten hcalled hfailed =>
      exact absurd (hwriting.symm.trans hnone) nofun
    | finished hwriting hwritten hcalled hfailed => exact hwritten

/-- The beginning of an enumeration. -/
theorem Fits.enumerate {s : State} (h : Fits floats request)
    (hstep : EnumerateArchive.step floats request {} .enumerate = some s) :
    Progress floats request s := by
  obtain ⟨line, hline⟩ : ∃ line, (request.leaves floats)[0]? = some line :=
    ⟨_, List.getElem?_eq_getElem (List.length_pos_of_ne_nil h.nonempty)⟩
  have hevaluate := @Fits.evaluate _ _ { ({} : State) with target := 0 } _ h hline
  obtain rfl : (EnumerateArchive.evaluate floats request { ({} : State) with target := 0 }).1 = s :=
    Option.some.inj hstep
  rw [hevaluate]
  exact .writing line [] line.render hline rfl (render_ne_nil line) rfl rfl rfl rfl

/-! ### Other enumerations -/

variable (floats) (request)

/-- What the claim about an enumeration is: in every run of it. -/
def Completes : Prop :=
  ∀ (ns : List ℕ) (t : State),
    Run.run (step floats request) {} (.enumerate :: ns.map .writeSome) = some t →
    Finishes floats request ns.length t

variable {floats} {request}

/-- An enumeration that completes always has a line to write, as long as there is a leaf. -/
theorem Completes.exists_line (h : Completes floats request) {s : State} {line : Line} {ns : List ℕ}
    (hrun : Run.run (step floats request) {} (.enumerate :: ns.map .writeSome) = some s) {s₀ : State}
    (hs : s = (evaluate floats request s₀).1)
    (hline : (request.leaves floats)[s₀.target.toNat]? = some line) :
    ∃ data, formatField request.size line = some data ∧ s = { s₀ with writing := some data } := by
  have hfailed := (h ns s hrun).failed
  rw [hs, evaluate_eq, hline] at hfailed ⊢
  dsimp only at hfailed ⊢
  cases hdata : formatField request.size line with
  | none =>
    rw [hdata] at hfailed
    cases hfailed
  | some data => exact ⟨data, rfl, rfl⟩

/-- What is written for a leaf. -/
def sent (size : ℕ) (line : Line) : Bytes := (formatField size line).getD []

/-- It is not longer than the line, and as long as it only if the line fits. -/
theorem length_sent (size : ℕ) (line : Line) : (sent size line).length ≤ line.render.length ∧
    ((sent size line).length = line.render.length → line.render.length ≤ size) := by
  by_cases h : line.render.length ≤ size
  · rw [sent, formatField_of_le h]
    exact ⟨le_rfl, fun _ => h⟩
  · have hlt : (sent size line).length < line.render.length := by
      unfold sent
      cases hdata : formatField size line with
      | none => exact List.length_pos_of_ne_nil (render_ne_nil line)
      | some data => exact length_lt_of_formatField (not_le.mp h) hdata
    exact ⟨hlt.le, fun heq => absurd heq hlt.ne⟩

/-- Lines that are written as they should be fit. -/
theorem le_of_flatMap_sent (size : ℕ) : ∀ {lines : List Line},
    (lines.flatMap Line.render).length ≤ (lines.flatMap (sent size)).length →
    ∀ line ∈ lines, line.render.length ≤ size := by
  intro lines
  induction lines with
  | nil => exact fun _ _ h => absurd h List.not_mem_nil
  | cons line lines ih =>
    intro h
    have hsum : (lines.flatMap (sent size)).length ≤ (lines.flatMap Line.render).length := by
      rw [List.length_flatMap, List.length_flatMap]
      exact List.sum_le_sum fun line _ => (length_sent size line).1
    rw [List.flatMap_cons, List.flatMap_cons, List.length_append, List.length_append] at h
    have hline := (length_sent size line).1
    exact List.forall_mem_cons.mpr ⟨(length_sent size line).2 (by omega), ih (by omega)⟩

/-- A run that has written so many lines and is at the next one. -/
structure AtLine (floats : FloatFormat) (request : Request) (k : ℕ) (ns : List ℕ) (s : State) (line : Line) (data : Bytes) :
    Prop where
  run : Run.run (step floats request) {} (.enumerate :: ns.map .writeSome) = some s
  length : ns.length = k
  target : s.target = UInt16.ofNat k
  next : (request.leaves floats)[s.target.toNat]? = some line
  formatted : formatField request.size line = some data
  writing : s.writing = some data
  failed : s.failed = false
  written : k < 2 ^ 16 → s.written = ((request.leaves floats).take k).flatMap (sent request.size)

/-- The line is written at one go. -/
theorem AtLine.step {k : ℕ} {ns : List ℕ} {s : State} {line : Line} {data : Bytes}
    (h : AtLine floats request k ns s line data) :
    Run.run (EnumerateArchive.step floats request) {}
      (.enumerate :: (ns ++ [data.length]).map .writeSome) =
        some (lineWritten floats request
          { s with written := s.written ++ data, writing := some [] }) := by
  have hstep : EnumerateArchive.step floats request s (.writeSome data.length) =
      some (lineWritten floats request
        { s with written := s.written ++ data, writing := some [] }) := by
    unfold EnumerateArchive.step
    rw [h.writing]
    dsimp only
    rw [if_neg, List.take_length, List.drop_length, if_pos rfl]
    rintro (hfailed | hgt | ⟨hzero, hne⟩)
    · rw [h.failed] at hfailed
      cases hfailed
    · exact lt_irrefl _ hgt
    · exact hne (List.eq_nil_of_length_eq_zero hzero)
  rw [List.map_append, ← List.cons_append, Run.run_append, h.run, Option.bind_some]
  exact (Run.run_cons ..).trans (by rw [hstep]; rfl)

/-- What has been written then. -/
theorem AtLine.written_concat {k : ℕ} {ns : List ℕ} {s : State} {line : Line} {data : Bytes}
    (h : AtLine floats request k ns s line data) (hlt : k < 2 ^ 16) :
    s.written ++ data = ((request.leaves floats).take (k + 1)).flatMap (sent request.size) := by
  have htarget : s.target.toNat = k := by
    rw [h.target, UInt16.toNat_ofNat', Nat.mod_eq_of_lt hlt]
  have hline := h.next
  rw [htarget] at hline
  rw [h.written hlt, List.take_add_one, hline, List.flatMap_append]
  simp [sent, h.formatted]

/-- The next line, if there is one. -/
theorem Completes.atLine_succ (hcomplete : Completes floats request) {k : ℕ} {ns : List ℕ} {s : State}
    {line line' : Line} {data : Bytes} (h : AtLine floats request k ns s line data)
    (hline : (request.leaves floats)[(s.target + 1).toNat]? = some line') :
    ∃ s' data', AtLine floats request (k + 1) (ns ++ [data.length]) s' line' data' := by
  let s₀ : State := { s with target := s.target + 1, written := s.written ++ data, writing := none }
  have heq : lineWritten floats request { s with written := s.written ++ data, writing := some [] } =
      (evaluate floats request s₀).1 := by
    unfold lineWritten
    show (if (evaluate floats request s₀).2 then _ else _) = _
    rw [if_pos]
    · rfl
    · rw [evaluate_eq, hline]
      dsimp only
      split
      · rfl
      · rfl
  obtain ⟨data', hdata, hs⟩ := hcomplete.exists_line h.step heq hline
  refine ⟨_, data', ⟨h.step, ?_, ?_, ?_, hdata, ?_, ?_, ?_⟩⟩
  · rw [List.length_append, h.length]
    rfl
  · rw [hs]
    show s.target + 1 = _
    rw [h.target, UInt16.ofNat_add]
    rfl
  · rw [hs]
    exact hline
  · rw [hs]
  · rw [hs]
    exact h.failed
  · rw [hs]
    exact fun hlt => h.written_concat (by omega)

/-- The first line. -/
theorem Completes.atLine_zero (hcomplete : Completes floats request) {line : Line}
    (hline : (request.leaves floats)[0]? = some line) :
    ∃ s data, AtLine floats request 0 [] s line data := by
  have hrun : Run.run (step floats request) {} (.enumerate :: ([] : List ℕ).map .writeSome) =
      some (evaluate floats request { ({} : State) with target := 0 }).1 := rfl
  obtain ⟨data, hdata, hs⟩ := hcomplete.exists_line hrun rfl hline
  refine ⟨_, data, ⟨hrun, rfl, ?_, ?_, hdata, ?_, ?_, fun _ => ?_⟩⟩
  · rw [hs]
    rfl
  · rw [hs]
    exact hline
  · rw [hs]
  · rw [hs]
  · rw [hs]
    rfl

/-- **It completes only if there are leaves.** -/
theorem Completes.nonempty (h : Completes floats request) : request.leaves floats ≠ [] := by
  intro hnil
  have hevaluate : evaluate floats request { ({} : State) with target := 0 } = ({}, false) := by
    rw [evaluate_eq, hnil]
    rfl
  have hrun : Run.run (step floats request) {} (.enumerate :: ([] : List ℕ).map .writeSome) =
      some {} := by
    show some (evaluate floats request { ({} : State) with target := 0 }).1 = _
    rw [hevaluate]
  have hcalled := (h [] _ hrun).called
  cases hcalled

/-- **It completes only if their indices stay below the largest one**: from then on the indices start
again, and it does not end. -/
theorem Completes.length_lt (h : Completes floats request) :
    (request.leaves floats).length < 2 ^ 16 := by
  by_contra hge
  have hsome : ∀ target : UInt16, ∃ line, (request.leaves floats)[target.toNat]? = some line := by
    intro target
    have := target.toNat_lt
    exact ⟨_, List.getElem?_eq_getElem (by omega)⟩
  have hlong : ∀ k, ∃ ns s line data, AtLine floats request k ns s line data := by
    intro k
    induction k with
    | zero =>
      obtain ⟨line, hline⟩ := hsome 0
      obtain ⟨s, data, hat⟩ := h.atLine_zero hline
      exact ⟨_, _, _, _, hat⟩
    | succ k ih =>
      obtain ⟨ns, s, line, data, hat⟩ := ih
      obtain ⟨line', hline'⟩ := hsome (s.target + 1)
      obtain ⟨s', data', hat'⟩ := h.atLine_succ hat hline'
      exact ⟨_, _, _, _, hat'⟩
  obtain ⟨ns, s, line, data, hat⟩ := hlong ((request.text floats).length + 1)
  have hsteps := (h ns s hat.run).steps
  rw [hat.length] at hsteps
  omega

/-- **It completes only if every line fits.** -/
theorem Completes.fits (h : Completes floats request) :
    ∀ line ∈ request.leaves floats, line.render.length ≤ request.size := by
  have hlt := h.length_lt
  -- the last line
  obtain ⟨k, hk⟩ : ∃ k, (request.leaves floats).length = k + 1 :=
    ⟨_, (Nat.succ_pred_eq_of_pos (List.length_pos_of_ne_nil h.nonempty)).symm⟩
  have hlines : ∀ i ≤ k, ∃ ns s line data, AtLine floats request i ns s line data := by
    intro i
    induction i with
    | zero =>
      intro _
      obtain ⟨s, data, hat⟩ := h.atLine_zero (List.getElem?_eq_getElem (by omega))
      exact ⟨_, _, _, _, hat⟩
    | succ i ih =>
      intro hi
      obtain ⟨ns, s, line, data, hat⟩ := ih (by omega)
      have hnext : (s.target + 1).toNat = i + 1 := by
        rw [hat.target, UInt16.toNat_add, UInt16.toNat_ofNat', UInt16.toNat_one]
        omega
      obtain ⟨s', data', hat'⟩ := h.atLine_succ hat
        (List.getElem?_eq_getElem (by rw [hnext]; omega))
      exact ⟨_, _, _, _, hat'⟩
  obtain ⟨ns, s, line, data, hat⟩ := hlines k le_rfl
  have hnext : (s.target + 1).toNat = (request.leaves floats).length := by
    rw [hat.target, UInt16.toNat_add, UInt16.toNat_ofNat', UInt16.toNat_one]
    omega
  have hnone : evaluate floats request
      { s with target := s.target + 1, written := s.written ++ data, writing := none } =
        ({ s with target := s.target + 1, written := s.written ++ data, writing := none }, false) := by
    rw [evaluate_eq]
    show (match (request.leaves floats)[(s.target + 1).toNat]? with | none => _ | some _ => _) = _
    rw [hnext, List.getElem?_eq_none le_rfl]
  have hlast : lineWritten floats request
      { s with written := s.written ++ data, writing := some [] } =
        { s with
          target := s.target + 1, written := s.written ++ data, writing := none
          called := s.called + 1 } := by
    unfold lineWritten
    dsimp only
    rw [hnone]
    rfl
  have hfinal := hat.step
  rw [hlast] at hfinal
  have hwritten := (h _ _ hfinal).complete rfl
  dsimp only at hwritten
  rw [hat.written_concat (by omega), ← hk, List.take_length] at hwritten
  refine le_of_flatMap_sent request.size ?_
  rw [hwritten]
  rfl

/-- **When an enumeration completes exactly once**: exactly if the object has a leaf and not more than
65535 of them, and the line of each fits the buffer. -/
theorem completes_iff (floats : FloatFormat) (request : Request) :
    Completes floats request ↔ Fits floats request := by
  constructor
  · exact fun h => ⟨h.nonempty, h.length_lt, h.fits⟩
  · intro h ns t hrun
    obtain ⟨s, hstep, hrun'⟩ := (Run.run_cons_eq_some _).mp hrun
    obtain ⟨ht, hlen⟩ := Fits.run h (h.enumerate hstep) hrun'
    exact ht.finishes (by omega)

/-- An object without fields. -/
def noFields : Request := { fields := .nil, value := (), rootPrefix := [0x61], size := 100 }

/-- It has no leaf, and nothing calls the callback. -/
theorem not_completes : ¬∀ (floats : FloatFormat) (request : Request),
    (∀ line ∈ request.leaves floats, line.render.length ≤ request.size) →
    Completes floats request := by
  intro h
  have hcalled := (h ⟨fun _ => [], fun _ => []⟩ noFields nofun [] _ rfl).called
  cases hcalled

end Mjlib.Micro.EnumerateArchive
