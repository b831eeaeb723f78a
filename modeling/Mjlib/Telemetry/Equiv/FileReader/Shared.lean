import Mjlib.Telemetry.Equiv.FileWriter.Names

/-!
# Ranges of a shared reader

However the loops over the ranges of a reader are interleaved, and whatever other calls are made in
between, a loop over a range with record names yields the items with these names, in order
(`Shared.yields_of_run`).  The range must have heard of the schemas: a schema that another call
reads first, while the range waits for its name, is not told to it.
-/

namespace Mjlib.Telemetry.FileReader

open Base FileWriter

variable {rawUncompress : RawUncompress} {all before after : List LogBlock} {options : Options}
  {st st' : State} {names : List Bytes} {loop : Loop}

/-- `ReadUntil`, for a range that reads on between two blocks. -/
theorem readUntil_of_waits (hvalid : ValidLog rawUncompress all) (hnames : NamesUnique all)
    {context : ItemRangeContext} (hall : all = before ++ after) (hknows : Knows all before st)
    (hwaits : Waits rawUncompress all st context) (hne : context.options.records ≠ []) :
    ∃ found context' st', readUntil (image all) ((image before).length : ℕ) (.range context) st =
        (.ok ((found.map ofFound).getD (-1, -1), .range context'), st') ∧
      Next rawUncompress all context.options.records before st' found := by
  obtain ⟨st', hcore, hread⟩ := readUntil_of_blocks hvalid hall (.range context) st
  obtain ⟨context', hfind, -⟩ :=
    exists_context_of_find after st.core context (image before).length
  have hnext := next_find hvalid hnames hall hknows.core (hwaits.of_eq rfl) hne
  rw [← hcore] at hnext
  rw [hfind] at hread
  exact ⟨_, context', st', hread, hnext.of_eq rfl⟩

/-- `ReadUntil`, for a range whose iterator is at an item. -/
theorem readUntil_of_item (hvalid : ValidLog rawUncompress all) {context : ItemRangeContext}
    {fields : DataFields} {stored : Bytes} (hall : all = before ++ .data fields stored :: after)
    (hknows : Knows all before st) (hwaits : Waits rawUncompress all st context)
    (hname : (recordFor all fields.identifier).name ∈ context.options.records) :
    ∃ context' st', readUntil (image all) ((image before).length : ℕ) (.range context) st =
      (.ok ((((image before).length : ℕ),
        ((image (before ++ [.data fields stored])).length : ℕ)), .range context'), st') := by
  obtain ⟨st', -, hread⟩ := readUntil_of_blocks hvalid hall (.range context) st
  have hcore : Waits rawUncompress all st.core context := hwaits.of_eq rfl
  have hstops := stops_of_waits hvalid hcore (List.ne_nil_of_mem hname) hall hknows.core
  rw [find, if_pos (hstops.trans (decide_eq_true hname)), learn_range] at hread
  rw [length_image_concat]
  exact ⟨_, st', hread⟩

/-! ### Loops -/

/-- A loop over a range with record names: at the end it has yielded all items with one of them, and
at an item those before it. -/
def Iterates (rawUncompress : RawUncompress) (all : List LogBlock) (names : List Bytes) (st : State)
    (loop : Loop) : Prop :=
  (loop.index = -1 ∧ loop.yielded = selectedIn rawUncompress all names all) ∨
    ∃ before fields stored after, all = before ++ .data fields stored :: after ∧
      loop.index = (image before).length ∧ Knows all before st ∧
      (recordFor all fields.identifier).name ∈ names ∧
      loop.yielded = selectedIn rawUncompress all names
        (if loop.dereferenced then before ++ [.data fields stored] else before)

theorem Iterates.moved (hvalid : ValidLog rawUncompress all)
    (h : Iterates rawUncompress all names st loop) (hmoved : Moved all st st') :
    Iterates rawUncompress all names st' loop := by
  refine h.imp_right ?_
  rintro ⟨before, fields, stored, after, hall, hindex, hknows, hrest⟩
  exact ⟨before, fields, stored, after, hall, hindex, hmoved.knows hvalid hknows, hrest⟩

/-- A loop that goes on to what was found behind the blocks whose items it has yielded. -/
theorem iterates_of_next (loop : Loop) {found : Option (ℕ × ℕ)}
    (h : Next rawUncompress all names before st found)
    (hyielded : loop.yielded = selectedIn rawUncompress all names before) :
    Iterates rawUncompress all names st { loop with
      index := ((found.map ofFound).getD (-1, -1)).1, dereferenced := false } := by
  cases h with
  | none h => exact .inl ⟨rfl, hyielded.trans h.symm⟩
  | some skipped fields stored rest hall hskipped hname hknows =>
    exact .inr ⟨before ++ skipped, fields, stored, rest, hall, rfl, hknows, hname,
      hyielded.trans hskipped.symm⟩

/-- The items of the first blocks come first. -/
theorem selectedIn_isPrefix (hall : all = before ++ after) :
    selectedIn rawUncompress all names before <+: selectedIn rawUncompress all names all := by
  have happend := @selectedIn_append rawUncompress all names before after
  rw [← hall] at happend
  exact ⟨_, happend.symm⟩

/-- What a loop has yielded comes first of what it is to yield. -/
theorem Iterates.isPrefix (h : Iterates rawUncompress all names st loop) :
    loop.yielded <+: selectedIn rawUncompress all names all := by
  rcases h with ⟨-, hyielded⟩ | ⟨before, fields, stored, after, hall, -, -, -, hyielded⟩
  · exact hyielded ▸ List.prefix_rfl
  · rw [hyielded]
    split_ifs
    · have hsplit : all = (before ++ [.data fields stored]) ++ after := by
        rw [hall, List.append_assoc]
        rfl
      exact selectedIn_isPrefix hsplit
    · exact selectedIn_isPrefix hall

namespace Shared

/-! ### Steps -/

/-- A range reads on. -/
theorem readUntil_eq_some (hvalid : ValidLog rawUncompress all) {s s' : Shared} {range : ℕ}
    {start : ℤ} {found : ℤ × ℤ} (hstart : start = -1 ∨ Boundary all start)
    (h : s.readUntil (image all) range start = some (found, s')) :
    ∃ context context', s.ranges[range]? = some context ∧ context'.options = context.options ∧
      s'.ranges = s.ranges.set range context' ∧ s'.loops = s.loops ∧
      FileReader.readUntil (image all) start (.range context) s.reader =
        (.ok (found, .range context'), s'.reader) ∧
      Moved all s.reader s'.reader ∧ (found.1 = -1 ∨ ItemAt all found.1) ∧
      (found.2 = -1 ∨ Boundary all found.2) := by
  obtain ⟨context, hcontext, h⟩ := Option.bind_eq_some_iff.mp h
  have hmoves := moves_readUntil hvalid hstart (.range context) s.reader
  rcases hread : FileReader.readUntil (image all) start (.range context) s.reader
    with ⟨_ | ⟨found', filter⟩, reader⟩
  · rw [hread] at h
    exact nomatch h
  · have hmoved := hmoves.moved
    obtain ⟨hfirst, hnext⟩ := hmoves.post (found', filter) (congrArg Prod.fst hread)
    rw [hread] at h hmoved
    obtain ⟨rfl, rfl⟩ := Prod.mk.inj (Option.some.inj h)
    obtain ⟨context', rfl, hoptions⟩ : ∃ context', filter = .range context' ∧
        context'.options = context.options := by
      rcases hstart with rfl | ⟨before, after, hall, rfl⟩
      · exact nomatch hread
      · obtain ⟨st', -, hread'⟩ := readUntil_of_blocks hvalid hall (.range context) s.reader
        obtain ⟨context', hfind, hoptions⟩ :=
          exists_context_of_find after s.reader.core context (image before).length
        rw [hread'] at hread
        injection hread with hresult _
        injection hresult with hresult
        injection hresult with _ hfilter
        exact ⟨context', hfilter ▸ hfind, hoptions⟩
    exact ⟨context, context', hcontext, hoptions, rfl, rfl, hread, hmoved, hfirst, hnext⟩

/-- A range is there, and a place between two blocks to read from. -/
theorem exists_readUntil (hvalid : ValidLog rawUncompress all) {s : Shared} {range : ℕ} {start : ℤ}
    {context : ItemRangeContext} (hcontext : s.ranges[range]? = some context)
    (hstart : Boundary all start) : ∃ found s', s.readUntil (image all) range start =
      some (found, s') := by
  obtain ⟨before, after, hall, rfl⟩ := hstart
  obtain ⟨st', -, hread⟩ := readUntil_of_blocks hvalid hall (.range context) s.reader
  unfold readUntil
  rw [hcontext, Option.bind_eq_bind, Option.bind_some, hread]
  exact ⟨_, _, rfl⟩

/-! ### What holds in every state -/

/-- A loop is over a range that there is, and its iterator at an item or at the end. -/
structure Placed (all : List LogBlock) (s : Shared) (loop : Loop) : Prop where
  range : loop.range < s.ranges.length
  index : loop.index = -1 ∨ ItemAt all loop.index

/-- The reader knows records of the log only, every iterator is at an item, and one of the ranges is
followed: it has what it needs, and so do the loops over it. -/
structure Inv (rawUncompress : RawUncompress) (all : List LogBlock) (k : ℕ) (s : Shared) :
    Prop where
  sound : Sound all s.reader
  starts : ∀ context ∈ s.ranges, context.options.start < 0 ∨ ItemAt all context.options.start
  placed : ∀ loop ∈ s.loops, Placed all s loop
  waits : ∀ context, s.ranges[k]? = some context → Waits rawUncompress all s.reader context
  iterates : ∀ context, s.ranges[k]? = some context → context.options.records ≠ [] →
    context.options.start < 0 → ∀ loop ∈ s.loops, loop.range = k →
    Iterates rawUncompress all context.options.records s.reader loop

variable {k : ℕ} {s s' : Shared}

/-- A call that moves the reader only. -/
theorem Inv.moved (hvalid : ValidLog rawUncompress all) (h : Inv rawUncompress all k s)
    (hmoved : Moved all s.reader st') (hinformed : ∀ context, s.ranges[k]? = some context →
      Informed rawUncompress all st' context) :
    Inv rawUncompress all k { s with reader := st' } := by
  refine ⟨h.sound.moved hvalid hmoved, h.starts, fun loop hloop => ?_, ?_, ?_⟩
  · obtain ⟨hrange, hindex⟩ := h.placed loop hloop
    exact ⟨hrange, hindex⟩
  · exact fun context hcontext =>
      (h.waits context hcontext).of_informed (hinformed context hcontext)
  · exact fun context hcontext hne hstart loop hloop hrange =>
      (h.iterates context hcontext hne hstart loop hloop hrange).moved hvalid hmoved

/-- Other loops. -/
theorem Inv.withLoops (h : Inv rawUncompress all k s) {loops : List Loop}
    (hloops : ∀ loop ∈ loops, loop ∈ s.loops ∨ Placed all s loop ∧
      ∀ context, s.ranges[k]? = some context → context.options.records ≠ [] →
        context.options.start < 0 → loop.range = k →
        Iterates rawUncompress all context.options.records s.reader loop) :
    Inv rawUncompress all k { s with loops } := by
  refine ⟨h.sound, h.starts, fun loop hloop => ?_, h.waits, ?_⟩
  · rcases hloops loop hloop with hmem | ⟨hplaced, -⟩
    · exact ⟨(h.placed loop hmem).range, (h.placed loop hmem).index⟩
    · exact ⟨hplaced.range, hplaced.index⟩
  · intro context hcontext hne hstart loop hloop hrange
    rcases hloops loop hloop with hmem | ⟨-, hiterates⟩
    · exact h.iterates context hcontext hne hstart loop hmem hrange
    · exact hiterates context hcontext hne hstart hrange

/-- A range reads on: it keeps up with what the reader learns, if it is the one that is followed. -/
theorem Inv.readUntil (hvalid : ValidLog rawUncompress all) (hnames : NamesUnique all)
    (h : Inv rawUncompress all k s) {range : ℕ} {start : ℤ} {found : ℤ × ℤ}
    (hstart : start = -1 ∨ Boundary all start)
    (hread : s.readUntil (image all) range start = some (found, s'))
    (hinformed : range ≠ k → ∀ context, s.ranges[k]? = some context →
      Informed rawUncompress all s'.reader context) : Inv rawUncompress all k s' := by
  obtain ⟨context, context', hcontext, hoptions, hranges, hloops, hreader, hmoved, -⟩ :=
    readUntil_eq_some hvalid hstart hread
  have hlength : s'.ranges.length = s.ranges.length := by rw [hranges, List.length_set]
  obtain ⟨hlt, -⟩ := List.getElem?_eq_some_iff.mp hcontext
  -- the range that is followed, before and after
  have hk : ∀ c', s'.ranges[k]? = some c' → ∃ c, s.ranges[k]? = some c ∧ c'.options = c.options ∧
      Waits rawUncompress all s'.reader c' := by
    intro c' hc'
    rw [hranges, List.getElem?_set] at hc'
    split_ifs at hc' with hrange
    · obtain rfl := Option.some.inj hc'
      subst hrange
      refine ⟨context, hcontext, hoptions, ?_⟩
      rcases hstart with rfl | ⟨before, after, hall, rfl⟩
      · exact nomatch hreader
      · obtain ⟨st', hcore, hread'⟩ := readUntil_of_blocks hvalid hall (.range context) s.reader
        rw [hreader] at hread'
        injection hread' with hresult hst
        injection hresult with hresult
        injection hresult with _ hfilter
        have hcore' : Waits rawUncompress all s.reader.core context :=
          (h.waits context hcontext).of_eq rfl
        have hwaits := waits_find hvalid hnames
          (fun b hb => hall ▸ List.mem_append_right _ hb) hcore' hfilter.symm
        rw [← hcore, ← hst] at hwaits
        exact hwaits.of_eq rfl
    · exact ⟨c', hc', rfl, (h.waits c' hc').of_informed (hinformed hrange c' hc')⟩
  refine ⟨h.sound.moved hvalid hmoved, fun c hc => ?_, fun loop hloop => ?_, fun c' hc' => ?_, ?_⟩
  · rw [hranges] at hc
    rcases List.mem_or_eq_of_mem_set hc with hmem | rfl
    · exact h.starts c hmem
    · rw [hoptions]
      exact h.starts context (List.mem_of_getElem? hcontext)
  · rw [hloops] at hloop
    obtain ⟨hrange, hindex⟩ := h.placed loop hloop
    exact ⟨hlength ▸ hrange, hindex⟩
  · obtain ⟨-, -, -, hwaits⟩ := hk c' hc'
    exact hwaits
  · intro c' hc' hne hneg loop hloop hrange
    obtain ⟨c, hc, hoptions', -⟩ := hk c' hc'
    rw [hloops] at hloop
    rw [hoptions'] at hne hneg ⊢
    exact (h.iterates c hc hne hneg loop hloop hrange).moved hvalid hmoved

/-- The options of a range are what they were. -/
theorem exists_range_of_readUntil (hvalid : ValidLog rawUncompress all) {range j : ℕ} {start : ℤ}
    {found : ℤ × ℤ} {c' : ItemRangeContext} (hstart : start = -1 ∨ Boundary all start)
    (hread : s.readUntil (image all) range start = some (found, s'))
    (hc' : s'.ranges[j]? = some c') :
    ∃ c, s.ranges[j]? = some c ∧ c'.options = c.options := by
  obtain ⟨context, context', hcontext, hoptions, hranges, -⟩ :=
    readUntil_eq_some hvalid hstart hread
  obtain ⟨hlt, -⟩ := List.getElem?_eq_some_iff.mp hcontext
  rw [hranges, List.getElem?_set] at hc'
  split_ifs at hc' with hrange
  · obtain rfl := Option.some.inj hc'
    exact ⟨context, hrange ▸ hcontext, hoptions⟩
  · exact ⟨c', hc', rfl⟩

/-- What the range that is followed finds. -/
theorem Inv.next (hvalid : ValidLog rawUncompress all) (hnames : NamesUnique all)
    (h : Inv rawUncompress all k s) {context : ItemRangeContext}
    (hcontext : s.ranges[k]? = some context) (hne : context.options.records ≠ [])
    (hall : all = before ++ after) (hknows : Knows all before s.reader) {found : ℤ × ℤ}
    (hread : s.readUntil (image all) k ((image before).length : ℕ) = some (found, s')) :
    ∃ found', found = (found'.map ofFound).getD (-1, -1) ∧
      Next rawUncompress all context.options.records before s'.reader found' := by
  obtain ⟨context₀, context', hcontext₀, -, -, -, hreader, -⟩ :=
    readUntil_eq_some hvalid (.inr ⟨before, after, hall, rfl⟩) hread
  obtain rfl := Option.some.inj (hcontext.symm.trans hcontext₀)
  obtain ⟨found', _, st', hreader', hnext⟩ :=
    readUntil_of_waits hvalid hnames hall hknows (h.waits context hcontext) hne
  rw [hreader] at hreader'
  injection hreader' with hresult hst
  injection hresult with hresult
  injection hresult with hfound _
  exact ⟨found', hfound, hst ▸ hnext⟩

/-! ### One call -/

/-- What the users of a reader keep to: a range starts at an item, if it is given a start, and
`Seek` is asked where it takes nothing for a marker that is none. -/
def Allowed (rawUncompress : RawUncompress) (all : List LogBlock) (s : Shared) : Call → Prop
  | .items itemsOptions => itemsOptions.start < 0 ∨
      ∃ item ∈ itemsOf rawUncompress all, itemsOptions.start = item.index
  | .seek _ => SignaturesInMarkers all ∨
      ∀ st, findAllRecords (image all) s.reader = (.ok ⟨⟩, st) → Harmless all st
  | .begin _ => True
  | .dereference _ => True
  | .advance _ => True
  | .records => True
  | .record _ => True
  | .finalItem => True

/-- The call reads on for a range. -/
def ReadsFor (k : ℕ) (s : Shared) : Call → Prop
  | .begin range => range = k
  | .advance i => ∃ loop, s.loops[i]? = some loop ∧ loop.range = k
  | .items _ => False
  | .dereference _ => False
  | .records => False
  | .record _ => False
  | .finalItem => False
  | .seek _ => False

/-- A call that does not read on for a range reads no schema that the range waits for, unless it has
no items. -/
def Informs (options : Options) (rawUncompress : RawUncompress) (all : List LogBlock) (k : ℕ)
    (s : Shared) (call : Call) : Prop :=
  ¬ReadsFor k s call → ∀ context s', s.ranges[k]? = some context →
    step (image all) options rawUncompress s call = some s' →
    Informed rawUncompress all s'.reader context

theorem getElem?_concat_eq_some {α : Type} {l : List α} {a b : α} {j : ℕ}
    (h : (l ++ [a])[j]? = some b) : l[j]? = some b ∨ j = l.length ∧ b = a := by
  rw [List.getElem?_append] at h
  split_ifs at h with hlt
  · exact .inl h
  · obtain ⟨hj, hb⟩ := List.getElem?_eq_some_iff.mp h
    rw [List.length_singleton] at hj
    exact .inr ⟨by omega, by simpa using hb.symm⟩

/-- A range is made. -/
theorem inv_items (hvalid : ValidLog rawUncompress all) (hnames : NamesUnique all)
    (h : Inv rawUncompress all k s) {itemsOptions : ItemsOptions}
    (hallowed : Allowed rawUncompress all s (.items itemsOptions)) :
    Inv rawUncompress all k { s with
      ranges := s.ranges ++ [itemRangeContext itemsOptions s.reader] } := by
  refine ⟨h.sound, fun context hcontext => ?_, fun loop hloop => ?_, fun context hcontext => ?_, ?_⟩
  · rcases List.mem_append.mp hcontext with hmem | hmem
    · exact h.starts context hmem
    · obtain rfl := List.mem_singleton.mp hmem
      refine hallowed.imp_right ?_
      rintro ⟨item, hitem, hstart⟩
      exact hstart ▸ itemAt_of_mem hitem
  · obtain ⟨hrange, hindex⟩ := h.placed loop hloop
    refine ⟨?_, hindex⟩
    rw [List.length_append]
    exact Nat.lt_add_right _ hrange
  · rcases getElem?_concat_eq_some hcontext with hold | ⟨-, rfl⟩
    · exact h.waits context hold
    · exact waits_itemRangeContext hvalid hnames h.sound itemsOptions
  · intro context hcontext hne hneg loop hloop hrange
    rcases getElem?_concat_eq_some hcontext with hold | ⟨hk, -⟩
    · exact h.iterates context hold hne hneg loop hloop hrange
    · have := (h.placed loop hloop).range
      omega

/-- Where a range starts. -/
theorem Inv.boundary_start (h : Inv rawUncompress all k s) {context : ItemRangeContext} {range : ℕ}
    (hcontext : s.ranges[range]? = some context) :
    Boundary all (if context.options.start < 0 then s.reader.start else context.options.start) := by
  split_ifs with hneg
  · exact ⟨[], all, rfl, h.sound.start⟩
  · exact ((h.starts context (List.mem_of_getElem? hcontext)).resolve_left hneg).boundary

/-- A loop is started. -/
theorem inv_begin (hvalid : ValidLog rawUncompress all) (hnames : NamesUnique all)
    (h : Inv rawUncompress all k s) {range : ℕ}
    (hinforms : Informs options rawUncompress all k s (.begin range))
    (hstep : step (image all) options rawUncompress s (.begin range) = some s') :
    Inv rawUncompress all k s' := by
  have hfull := hstep
  obtain ⟨context, hcontext, hstep⟩ := Option.bind_eq_some_iff.mp hstep
  obtain ⟨⟨⟨first, next⟩, s₁⟩, hread, hstep⟩ := Option.bind_eq_some_iff.mp hstep
  cases hstep
  have hstart := h.boundary_start hcontext
  have h₁ : Inv rawUncompress all k s₁ := h.readUntil hvalid hnames (.inr hstart) hread
    fun hne c hc => (hinforms hne c _ hc hfull :)
  obtain ⟨_, _, -, -, hranges, -, -, -, hfirst, -⟩ := readUntil_eq_some hvalid (.inr hstart) hread
  refine h₁.withLoops fun loop hloop => ?_
  rcases List.mem_append.mp hloop with hmem | hmem
  · exact .inl hmem
  · obtain rfl := List.mem_singleton.mp hmem
    refine .inr ⟨⟨?_, hfirst⟩, ?_⟩
    · obtain ⟨hlt, -⟩ := List.getElem?_eq_some_iff.mp hcontext
      rw [hranges, List.length_set]
      exact hlt
    · rintro c' hc' hne hneg rfl
      obtain ⟨c, hc, hoptions⟩ := exists_range_of_readUntil hvalid (.inr hstart) hread hc'
      obtain rfl := Option.some.inj (hcontext.symm.trans hc)
      rw [hoptions] at hne hneg ⊢
      rw [if_pos hneg, h.sound.start] at hread
      obtain ⟨found, hfound, hnext⟩ := h.next hvalid hnames hcontext hne (List.nil_append all).symm
        h.sound.knows hread
      obtain ⟨rfl, -⟩ := Prod.mk.inj hfound
      exact iterates_of_next { range, index := 0 } hnext rfl

/-- A loop reads the item that its iterator is at, if its range is followed. -/
theorem read_of_iterates (hvalid : ValidLog rawUncompress all) (options : Options)
    (h : Iterates rawUncompress all names st loop) (hindex : loop.index ≠ -1)
    (hnot : loop.dereferenced = false) :
    ∃ item st', read (image all) options rawUncompress loop.index st = (.ok item, st') ∧
      Iterates rawUncompress all names st { loop with
        dereferenced := true, yielded := loop.yielded ++ [item] } := by
  rcases h with ⟨hend, -⟩ | ⟨before, fields, stored, after, hall, hat, hknows, hname, hyielded⟩
  · exact absurd hend hindex
  · have hdrop : (image all).drop (image before).length =
        (LogBlock.data fields stored).encode ++ after.flatMap LogBlock.encode := by
      rw [hall, drop_image, List.flatMap_cons]
    obtain ⟨pos, crc, blockSize, hread⟩ := read_of_block options hvalid.length_lt
      (decompressible_of_mem hvalid _ (hall ▸ List.mem_append_right _ List.mem_cons_self)) hdrop st
    have hget : st.idToRecord.get? fields.identifier = some (recordFor all fields.identifier) := by
      obtain ⟨⟨record, hrecord, hid⟩, -⟩ := hvalid.data before fields stored after hall
      have hmem : record ∈ recordsOf all := by
        rw [hall, recordsOf_append]
        exact List.mem_append_left _ hrecord
      rw [← hid, hvalid.recordFor_eq hmem]
      exact hknows.complete record hrecord
    rw [hget, ← hat] at hread
    refine ⟨_, _, hread, .inr ⟨before, fields, stored, after, hall, hat, hknows, hname, ?_⟩⟩
    rw [if_pos rfl, selectedIn_concat_data, if_pos hname]
    show loop.yielded ++ [_] = _
    rw [hyielded, hnot, hat]
    rfl

/-- `operator*`. -/
theorem inv_dereference (hvalid : ValidLog rawUncompress all) (h : Inv rawUncompress all k s)
    {i : ℕ} (hinforms : Informs options rawUncompress all k s (.dereference i))
    (hstep : step (image all) options rawUncompress s (.dereference i) = some s') :
    Inv rawUncompress all k s' := by
  have hfull := hstep
  obtain ⟨loop, hloop, hstep⟩ := Option.bind_eq_some_iff.mp hstep
  have hmem := List.mem_of_getElem? hloop
  dsimp only at hstep
  split_ifs at hstep with hnot
  obtain ⟨hindex, hread⟩ := not_or.mp hnot
  have hplaced := h.placed loop hmem
  have hmoved := (moves_read hvalid options (hplaced.index.resolve_left hindex) s.reader).moved
  rcases hresult : read (image all) options rawUncompress loop.index s.reader
    with ⟨_ | item, reader⟩
  · rw [hresult] at hstep hmoved
    cases hstep
    exact h.moved hvalid hmoved fun c hc => hinforms id c _ hc hfull
  · rw [hresult] at hstep hmoved
    cases hstep
    have h₁ : Inv rawUncompress all k { s with reader } :=
      h.moved hvalid hmoved fun c hc => (hinforms id c _ hc hfull :)
    refine h₁.withLoops fun loop' hloop' => ?_
    rcases List.mem_or_eq_of_mem_set hloop' with hmem' | rfl
    · exact .inl hmem'
    · refine .inr ⟨⟨hplaced.range, hplaced.index⟩, fun c hc hne hneg hrange => ?_⟩
      obtain ⟨item', st', hread', hiterates⟩ := read_of_iterates hvalid options
        (h.iterates c hc hne hneg loop hmem hrange) hindex (by simpa using hread)
      rw [hresult] at hread'
      injection hread' with hresult' _
      injection hresult' with hitem
      exact hitem ▸ hiterates.moved hvalid hmoved

/-- A loop goes on to the next item, if its range is followed. -/
theorem iterates_of_advance (hvalid : ValidLog rawUncompress all) (hnames : NamesUnique all)
    {s₁ s₂ : Shared} (h : Inv rawUncompress all k s) (h₁ : Inv rawUncompress all k s₁)
    {c c₁ : ItemRangeContext} (hc : s.ranges[k]? = some c) (hc₁ : s₁.ranges[k]? = some c₁)
    (hoptions : c₁.options = c.options) (hne : c₁.options.records ≠ []) {found found' : ℤ × ℤ}
    (hiterates : Iterates rawUncompress all c.options.records s.reader loop)
    (hindex : loop.index ≠ -1) (hread : loop.dereferenced = true)
    (hread₁ : s.readUntil (image all) k loop.index = some (found, s₁))
    (hread₂ : s₁.readUntil (image all) k found.2 = some (found', s₂)) :
    Iterates rawUncompress all c₁.options.records s₂.reader
      { loop with index := found'.1, dereferenced := false } := by
  rcases hiterates with
    ⟨hend, -⟩ | ⟨before, fields, stored, after, hall, hat, hknows, hname, hyielded⟩
  · exact absurd hend hindex
  · rw [hat] at hread₁
    rw [if_pos hread] at hyielded
    -- the item that the iterator is at is found again
    have hboundary : Boundary all (image before).length := ⟨before, _, hall, rfl⟩
    obtain ⟨c₀, _, hc₀, -, -, -, hreader, hmoved, -⟩ :=
      readUntil_eq_some hvalid (.inr hboundary) hread₁
    obtain rfl := Option.some.inj (hc.symm.trans hc₀)
    obtain ⟨_, st', hreader'⟩ := readUntil_of_item hvalid hall hknows (h.waits c hc) hname
    rw [hreader] at hreader'
    injection hreader' with hresult _
    injection hresult with hresult
    injection hresult with hfound _
    rw [hfound] at hread₂
    -- and then the next one
    have hall' : all = (before ++ [.data fields stored]) ++ after := by
      rw [hall, List.append_assoc]
      rfl
    have hknows₁ : Knows all (before ++ [.data fields stored]) s₁.reader :=
      (hmoved.knows hvalid hknows).concat_of_none rfl
    obtain ⟨next, hnext, hnext'⟩ := h₁.next hvalid hnames hc₁ hne hall' hknows₁ hread₂
    rw [hnext]
    rw [← hoptions] at hyielded
    exact iterates_of_next loop hnext' hyielded

/-- `operator++`. -/
theorem inv_advance (hvalid : ValidLog rawUncompress all) (hnames : NamesUnique all)
    (h : Inv rawUncompress all k s) {i : ℕ}
    (hinforms : Informs options rawUncompress all k s (.advance i))
    (hstep : step (image all) options rawUncompress s (.advance i) = some s') :
    Inv rawUncompress all k s' := by
  have hfull := hstep
  obtain ⟨loop, hloop, hstep⟩ := Option.bind_eq_some_iff.mp hstep
  have hmem := List.mem_of_getElem? hloop
  dsimp only at hstep
  split_ifs at hstep with hnot
  obtain ⟨hindex, hread⟩ := not_or.mp hnot
  have hplaced := h.placed loop hmem
  have hat := hplaced.index.resolve_left hindex
  obtain ⟨⟨⟨first, next⟩, s₁⟩, hread₁, hstep⟩ := Option.bind_eq_some_iff.mp hstep
  obtain ⟨⟨⟨advanced, last⟩, s₂⟩, hread₂, hstep⟩ := Option.bind_eq_some_iff.mp hstep
  cases hstep
  obtain ⟨_, _, -, -, hranges₁, -, -, hmoved₁, -, hnext⟩ :=
    readUntil_eq_some hvalid (.inr hat.boundary) hread₁
  obtain ⟨_, _, -, -, hranges₂, -, -, hmoved₂, hadvanced, -⟩ :=
    readUntil_eq_some hvalid hnext hread₂
  have hinformed : loop.range ≠ k → ∀ c, s.ranges[k]? = some c →
      Informed rawUncompress all s₂.reader c := by
    intro hne c hc
    refine (hinforms ?_ c _ hc hfull :)
    rintro ⟨loop', hloop', hrange⟩
    obtain rfl := Option.some.inj (hloop.symm.trans hloop')
    exact hne hrange
  have h₁ : Inv rawUncompress all k s₁ := h.readUntil hvalid hnames (.inr hat.boundary) hread₁
    fun hne c hc => (hinformed hne c hc).of_moved hmoved₂
  have h₂ : Inv rawUncompress all k s₂ := h₁.readUntil hvalid hnames hnext hread₂ fun hne c hc => by
    rw [hranges₁, List.getElem?_set_ne hne] at hc
    exact hinformed hne c hc
  refine h₂.withLoops fun loop' hloop' => ?_
  rcases List.mem_or_eq_of_mem_set hloop' with hmem' | rfl
  · exact .inl hmem'
  · refine .inr ⟨⟨?_, hadvanced⟩, ?_⟩
    · show loop.range < _
      rw [hranges₂, List.length_set, hranges₁, List.length_set]
      exact hplaced.range
    · intro c₂ hc₂ hne hneg hrange
      obtain ⟨c₁, hc₁, hoptions₁⟩ := exists_range_of_readUntil hvalid hnext hread₂ hc₂
      obtain ⟨c, hc, hoptions⟩ :=
        exists_range_of_readUntil hvalid (.inr hat.boundary) hread₁ hc₁
      rw [hoptions₁] at hne hneg ⊢
      rw [hoptions] at hneg
      have hiterates := h.iterates c hc (hoptions ▸ hne) hneg loop hmem hrange
      exact iterates_of_advance hvalid hnames h h₁ hc hc₁ hoptions hne hiterates hindex
        (by simpa using hread) (hrange ▸ hread₁) (hrange ▸ hread₂)

/-- **One call**, of whatever kind. -/
theorem inv_step (hvalid : ValidLog rawUncompress all) (hmarkers : MarkersRight all)
    (hnames : NamesUnique all) (s : Shared) (call : Call) (s' : Shared)
    (h : Inv rawUncompress all k s) (hguard : Allowed rawUncompress all s call ∧
      Informs options rawUncompress all k s call)
    (hstep : step (image all) options rawUncompress s call = some s') :
    Inv rawUncompress all k s' := by
  obtain ⟨hallowed, hinforms⟩ := hguard
  cases call with
  | items itemsOptions =>
    cases hstep
    exact inv_items hvalid hnames h hallowed
  | begin range => exact inv_begin hvalid hnames h hinforms hstep
  | dereference i => exact inv_dereference hvalid h hinforms hstep
  | advance i => exact inv_advance hvalid hnames h hinforms hstep
  | records =>
    cases hstep
    exact h.moved hvalid (moves_records hvalid h.sound).moved
      fun c hc => (hinforms id c _ hc rfl :)
  | record name =>
    cases hstep
    exact h.moved hvalid (moves_record hvalid h.sound name).moved
      fun c hc => (hinforms id c _ hc rfl :)
  | finalItem =>
    cases hstep
    exact h.moved hvalid (moves_finalItem hvalid h.sound).moved
      fun c hc => (hinforms id c _ hc rfl :)
  | seek timestamp =>
    cases hstep
    exact h.moved hvalid (moves_seekTo hvalid hmarkers h.sound hallowed options timestamp).moved
      fun c hc => (hinforms id c _ hc rfl :)

/-! ### What a loop yields -/

/-- The loops over a range yield some items, in order: a loop can be started, what it has yielded
are the first of the items, at the end all of them, and until then it goes on. -/
structure Yields (file : Bytes) (options : Options) (rawUncompress : RawUncompress) (k : ℕ)
    (items : List Item) (s : Shared) : Prop where
  starts : ∃ s', step file options rawUncompress s (.begin k) = some s'
  yielded : ∀ loop ∈ s.loops, loop.range = k → loop.yielded <+: items
  ends : ∀ loop ∈ s.loops, loop.range = k → loop.index = -1 → loop.yielded = items
  reads : ∀ i loop, s.loops[i]? = some loop → loop.range = k → loop.index ≠ -1 →
    loop.dereferenced = false → loop.yielded.length < items.length ∧
      ∃ s' item, step file options rawUncompress s (.dereference i) = some s' ∧
        s'.loops[i]? = some { loop with
          dereferenced := true, yielded := loop.yielded ++ [item] }
  advances : ∀ i loop, s.loops[i]? = some loop → loop.range = k → loop.index ≠ -1 →
    loop.dereferenced = true → ∃ s', step file options rawUncompress s (.advance i) = some s'

theorem Inv.begins (hvalid : ValidLog rawUncompress all) (h : Inv rawUncompress all k s)
    {context : ItemRangeContext} (hcontext : s.ranges[k]? = some context) :
    ∃ s', step (image all) options rawUncompress s (.begin k) = some s' := by
  obtain ⟨⟨first, _⟩, s₁, hread⟩ := exists_readUntil hvalid hcontext (h.boundary_start hcontext)
  exact ⟨{ s₁ with loops := s₁.loops ++ [{ range := k, index := first }] },
    Option.bind_eq_some_iff.mpr ⟨context, hcontext, Option.bind_eq_some_iff.mpr ⟨_, hread, rfl⟩⟩⟩

theorem reads_loop (hvalid : ValidLog rawUncompress all) {i : ℕ} (hloop : s.loops[i]? = some loop)
    (hiterates : Iterates rawUncompress all names s.reader loop) (hindex : loop.index ≠ -1)
    (hnot : loop.dereferenced = false) :
    loop.yielded.length < (selectedIn rawUncompress all names all).length ∧
      ∃ s' item, step (image all) options rawUncompress s (.dereference i) = some s' ∧
        s'.loops[i]? = some { loop with
          dereferenced := true, yielded := loop.yielded ++ [item] } := by
  obtain ⟨item, reader, hread, hiterates'⟩ := read_of_iterates hvalid options hiterates hindex hnot
  obtain ⟨hlt, -⟩ := List.getElem?_eq_some_iff.mp hloop
  constructor
  · have hle := hiterates'.isPrefix.length_le
    rw [List.length_append, List.length_singleton] at hle
    omega
  · refine ⟨{ s with reader, loops := s.loops.set i { loop with
      dereferenced := true, yielded := loop.yielded ++ [item] } }, item, ?_,
      List.getElem?_set_self hlt⟩
    refine Option.bind_eq_some_iff.mpr ⟨loop, hloop, ?_⟩
    dsimp only
    rw [if_neg (by simp [hindex, hnot]), hread]
    rfl

theorem Inv.advances (hvalid : ValidLog rawUncompress all) (h : Inv rawUncompress all k s)
    {context : ItemRangeContext} (hcontext : s.ranges[k]? = some context) {i : ℕ}
    (hloop : s.loops[i]? = some loop) (hrange : loop.range = k)
    (hiterates : Iterates rawUncompress all context.options.records s.reader loop)
    (hindex : loop.index ≠ -1) (hread : loop.dereferenced = true) :
    ∃ s', step (image all) options rawUncompress s (.advance i) = some s' := by
  rcases hiterates with ⟨hend, -⟩ | ⟨before, fields, stored, after, hall, hat, hknows, hname, -⟩
  · exact absurd hend hindex
  · have hboundary : Boundary all (image before).length := ⟨before, _, hall, rfl⟩
    obtain ⟨found, s₁, hread₁⟩ := exists_readUntil hvalid hcontext hboundary
    obtain ⟨c, c', hc, -, hranges, -, hreader, -, -, -⟩ :=
      readUntil_eq_some hvalid (.inr hboundary) hread₁
    obtain rfl := Option.some.inj (hcontext.symm.trans hc)
    obtain ⟨_, st', hreader'⟩ :=
      readUntil_of_item hvalid hall hknows (h.waits context hcontext) hname
    rw [hreader] at hreader'
    injection hreader' with hresult _
    injection hresult with hresult
    injection hresult with hfound _
    have hnext : Boundary all found.2 := by
      refine ⟨before ++ [.data fields stored], after, ?_, by rw [hfound]⟩
      rw [hall, List.append_assoc]
      rfl
    have hcontext₁ : s₁.ranges[k]? = some c' := by
      obtain ⟨hlt, -⟩ := List.getElem?_eq_some_iff.mp hcontext
      rw [hranges, List.getElem?_set_self hlt]
    obtain ⟨found', s₂, hread₂⟩ := exists_readUntil hvalid hcontext₁ hnext
    refine ⟨{ s₂ with loops := s₂.loops.set i { loop with
      index := found'.1, dereferenced := false } }, ?_⟩
    rw [← hat, ← hrange] at hread₁
    rw [← hrange] at hread₂
    refine Option.bind_eq_some_iff.mpr ⟨loop, hloop, ?_⟩
    dsimp only
    rw [if_neg (by simp [hindex, hread])]
    exact Option.bind_eq_some_iff.mpr ⟨_, hread₁, Option.bind_eq_some_iff.mpr ⟨_, hread₂, rfl⟩⟩

/-- **A range with record names yields the items with these names.** -/
theorem Inv.yields (hvalid : ValidLog rawUncompress all) (h : Inv rawUncompress all k s)
    {context : ItemRangeContext} (hcontext : s.ranges[k]? = some context)
    (hne : context.options.records ≠ []) (hneg : context.options.start < 0) :
    Yields (image all) options rawUncompress k
      (selected context.options.records (itemsOf rawUncompress all)) s := by
  have hiterates := h.iterates context hcontext hne hneg
  refine ⟨h.begins hvalid hcontext, fun loop hloop hrange => ?_, fun loop hloop hrange hend => ?_,
    fun i loop hloop hrange hindex hnot => ?_, fun i loop hloop hrange hindex hread => ?_⟩
  · exact (hiterates loop hloop hrange).isPrefix
  · rcases hiterates loop hloop hrange with ⟨-, hyielded⟩ | ⟨_, _, _, _, -, hat, -⟩
    · exact hyielded
    · omega
  · exact reads_loop hvalid hloop (hiterates loop (List.mem_of_getElem? hloop) hrange) hindex hnot
  · exact h.advances hvalid hcontext hloop hrange
      (hiterates loop (List.mem_of_getElem? hloop) hrange) hindex hread

/-- A reader that was just opened. -/
theorem Inv.of_opened (hopened : Opened all st) : Inv rawUncompress all k { reader := st } :=
  ⟨hopened.sound, nofun, nofun, nofun, nofun⟩

/-- **A range with record names yields the items with these names**, in every state of a reader that
is shared in any way: whatever other ranges are made and looped over, and whatever else is asked. -/
theorem yields_of_run {platform : FileWriter.Platform} {writerOptions : FileWriter.Options}
    {calls : List FileWriter.Call} {s : FileWriter.State}
    (hsnappy : ∀ data, rawUncompress (platform.rawCompress data) = some data)
    (hrun : Run.run (FileWriter.step platform writerOptions) {} (.openFile :: (calls ++ [.close])) =
      some s)
    (hcalls : Run.Guarded (FileWriter.step platform writerOptions) (fun s call =>
      FileWriter.WellFormed s call ∧ FileWriter.ShortName s call) opened calls)
    (hindex : writerOptions.indexBlock = true → (indexBlock s).length < 2 ^ 32)
    (hnone : writerOptions.indexBlock = false → ¬Format.kIndexTrailer <:+ closedFile s) :
    (∃ all, ClosedLog rawUncompress writerOptions calls s all ∧ NamesUnique all) ∧
      ∀ all, ClosedLog rawUncompress writerOptions calls s all → NamesUnique all →
        ∃ st, openFile (closedFile s) {} = (.ok ⟨⟩, st) ∧
          ∀ (uses : List Call) (shared : Shared) (k : ℕ) (context : ItemRangeContext),
            Run.run (step (closedFile s) options rawUncompress) { reader := st } uses =
              some shared →
            Run.Guarded (step (closedFile s) options rawUncompress) (fun shared call =>
              Allowed rawUncompress all shared call ∧
              Informs options rawUncompress all k shared call) { reader := st } uses →
            shared.ranges[k]? = some context → context.options.records ≠ [] →
            context.options.start < 0 →
            Yields (closedFile s) options rawUncompress k
              (selected context.options.records (itemsOf rawUncompress all)) shared := by
  refine ⟨namesUnique_of_run hsnappy hrun hcalls, fun all hclosed hnames => ?_⟩
  have hfile := hclosed.file
  rw [hfile] at hnone ⊢
  obtain ⟨st, hopen, hopened⟩ := hclosed.opens hindex hnone
  refine ⟨st, hopen, fun uses shared k context huses hguard hcontext hne hneg => ?_⟩
  have h := Run.run_induction_of_guarded (inv_step hclosed.valid hclosed.markers hnames)
    (Inv.of_opened hopened) hguard huses
  exact h.yields hclosed.valid hcontext hne hneg

/-- What is seen of the ranges and of the loops. -/
structure Summary where
  names : List (List Bytes)
  starts : List ℤ
  loops : List (ℕ × ℤ × ℕ)
deriving DecidableEq

def summary (shared : Shared) : Summary where
  names := shared.ranges.map fun context => context.options.records
  starts := shared.ranges.map fun context => context.options.start
  loops := shared.loops.map fun loop => (loop.range, loop.index, loop.yielded.length)

/-- A log of one item, opened and used. -/
def useLog (uses : List Call) : Option (Option Shared) :=
  (Run.run (FileWriter.step ⟨id, 0⟩ plainOptions) {} (.openFile :: (callsOfThree ++ [.close]))).map
    fun s => Run.run (step (closedFile s) {} some) { reader := (openFile (closedFile s) {}).2 } uses

theorem exists_of_useLog {s : FileWriter.State} {st : State}
    (hrun : Run.run (FileWriter.step ⟨id, 0⟩ plainOptions) {}
      (.openFile :: (callsOfThree ++ [.close])) = some s)
    (hopen : openFile (closedFile s) {} = (.ok ⟨⟩, st)) (uses : List Call) (a : Summary)
    (h : (useLog uses).map (fun shared => shared.map summary) = some (some a)) :
    ∃ shared, Run.run (step (closedFile s) {} some) { reader := st } uses = some shared ∧
      summary shared = a := by
  unfold useLog at h
  rw [hrun, Option.map_some, Option.map_some, hopen] at h
  exact Option.map_eq_some_iff.mp (Option.some.inj h)

theorem exists_range_of_summary {shared : Shared} {names : List Bytes} {start : ℤ}
    {loops : List (ℕ × ℤ × ℕ)} (h : summary shared = ⟨[names], [start], loops⟩) :
    ∃ context, shared.ranges[0]? = some context ∧ context.options.records = names ∧
      context.options.start = start := by
  obtain ⟨hnames, hstarts, -⟩ := Summary.mk.inj h
  obtain ⟨context, hcontext, hname⟩ := List.map_eq_singleton_iff.mp hnames
  rw [hcontext] at hstarts ⊢
  exact ⟨context, rfl, hname, (List.cons.inj hstarts).1⟩

theorem exists_loop_of_summary {shared : Shared} {names : List (List Bytes)} {starts : List ℤ}
    {range : ℕ} {index : ℤ} {n : ℕ}
    (h : summary shared = ⟨names, starts, [(range, index, n)]⟩) :
    ∃ loop ∈ shared.loops, loop.range = range ∧ loop.index = index ∧ loop.yielded.length = n := by
  obtain ⟨-, -, hloops⟩ := Summary.mk.inj h
  obtain ⟨loop, hloop, heq⟩ := List.map_eq_singleton_iff.mp hloops
  obtain ⟨hrange, heq⟩ := Prod.mk.inj heq
  obtain ⟨hindex, hlength⟩ := Prod.mk.inj heq
  exact ⟨loop, hloop ▸ List.mem_cons_self, hrange, hindex, hlength⟩

/-- A range of this log, while its item is looked at. -/
def usesOfOne : List Call := [.items { records := [[0x61]] }, .begin 0, .dereference 0]

/-- The range has found all its names before it is called by others, in a use of range `0`. -/
def Told (shared : Shared) (call : Call) : Prop :=
  (∀ context ∈ shared.ranges[0]?, context.unknownNames = []) ∨ (call matches .begin 0) = true

instance (shared : Shared) (call : Call) : Decidable (Told shared call) :=
  inferInstanceAs (Decidable (_ ∨ _))

theorem Told.informs {shared : Shared} {call : Call} (h : Told shared call) :
    Informs options rawUncompress all 0 shared call := by
  intro hnot context s' hcontext _ item _ hname
  rcases h with hnil | hbegin
  · rw [hnil context hcontext] at hname
    exact absurd hname List.not_mem_nil
  · refine absurd ?_ hnot
    split at hbegin
    · rfl
    · exact nomatch hbegin

/-- The loop is at its item. -/
theorem yields_of_run_three : ∃ s all st shared,
    Run.run (FileWriter.step ⟨id, 0⟩ plainOptions) {} (.openFile :: (callsOfThree ++ [.close])) =
      some s ∧ ClosedLog some plainOptions callsOfThree s all ∧
    openFile (closedFile s) {} = (.ok ⟨⟩, st) ∧
    Run.run (step (closedFile s) {} some) { reader := st } usesOfOne = some shared ∧
    summary shared = ⟨[[[0x61]]], [-1], [(0, 16, 1)]⟩ ∧
    Yields (closedFile s) {} some 0 (selected [[0x61]] (itemsOf some all)) shared := by
  obtain ⟨s, hrun, hnone, -⟩ := run_callsOfThree
  obtain ⟨⟨all, hclosed, hnames⟩, hall⟩ := yields_of_run (fun _ => rfl) hrun (by decide +kernel)
    nofun (fun _ => hnone)
  obtain ⟨st, hopen, hyields⟩ := hall all hclosed hnames
  obtain ⟨shared, huses, hsummary⟩ := exists_of_useLog hrun hopen usesOfOne
    ⟨[[[0x61]]], [-1], [(0, 16, 1)]⟩ (by decide +kernel)
  have htold : (Run.run (FileWriter.step ⟨id, 0⟩ plainOptions) {}
      (.openFile :: (callsOfThree ++ [.close]))).map (fun s => decide (Run.Guarded
        (step (closedFile s) {} some) Told { reader := (openFile (closedFile s) {}).2 }
        usesOfOne)) = some true := by
    decide +kernel
  rw [hrun, Option.map_some, hopen] at htold
  have hguard : Run.Guarded (step (closedFile s) {} some) (fun shared call =>
      Allowed some all shared call ∧ Informs {} some all 0 shared call) { reader := st }
      usesOfOne := by
    have hallowed : ∀ call ∈ usesOfOne, ∀ shared, Allowed some all shared call := by
      intro call hcall shared
      rcases List.mem_cons.mp hcall with rfl | hcall
      · exact .inl (by decide)
      · rcases List.mem_cons.mp hcall with rfl | hcall
        · trivial
        · obtain rfl := List.mem_singleton.mp hcall
          trivial
    have hboth := Run.guarded_and_of_forall (of_decide_eq_true (Option.some.inj htold)) hallowed
    exact Run.guarded_imp (fun shared call h => ⟨h.2 shared, h.1.informs⟩) hboth
  obtain ⟨context, hcontext, hnames₀, hstart₀⟩ := exists_range_of_summary hsummary
  refine ⟨s, all, st, shared, hrun, hclosed, hopen, huses, hsummary, ?_⟩
  have h := hyields usesOfOne shared 0 context huses hguard hcontext (by rw [hnames₀]; nofun)
    (by rw [hstart₀]; decide)
  rwa [hnames₀] at h

/-- The claim for ranges with such names, whatever else is asked of the reader. -/
def FiltersFor (P : List Bytes → Prop) : Prop :=
  ∀ (platform : FileWriter.Platform) (writerOptions : FileWriter.Options) (options : Options)
    (rawUncompress : RawUncompress) (calls : List FileWriter.Call) (s : FileWriter.State),
    (∀ data, rawUncompress (platform.rawCompress data) = some data) →
    Run.run (FileWriter.step platform writerOptions) {} (.openFile :: (calls ++ [.close])) =
      some s →
    Run.Guarded (FileWriter.step platform writerOptions) (fun s call =>
      FileWriter.WellFormed s call ∧ FileWriter.ShortName s call) opened calls →
    (writerOptions.indexBlock = true → (indexBlock s).length < 2 ^ 32) →
    (writerOptions.indexBlock = false → ¬Format.kIndexTrailer <:+ closedFile s) →
    ∀ all, ClosedLog rawUncompress writerOptions calls s all → NamesUnique all →
      ∃ st, openFile (closedFile s) {} = (.ok ⟨⟩, st) ∧
        ∀ (uses : List Call) (shared : Shared) (k : ℕ) (context : ItemRangeContext),
          Run.run (step (closedFile s) options rawUncompress) { reader := st } uses =
            some shared →
          shared.ranges[k]? = some context → P context.options.records →
          context.options.start < 0 →
          Yields (closedFile s) options rawUncompress k
            (selected context.options.records (itemsOf rawUncompress all)) shared

/-- **No names let everything pass**, and a name is not found once another call has read its schema
while the range waits for it. -/
theorem not_yields_of_run : ¬FiltersFor (· = []) ∧ ¬FiltersFor (· ≠ []) := by
  obtain ⟨s, hrun, hnone, -⟩ := run_callsOfThree
  have hlog : ∀ P, FiltersFor P → ∃ all st, openFile (closedFile s) {} = (.ok ⟨⟩, st) ∧
      ∀ (uses : List Call) (shared : Shared) (k : ℕ) (context : ItemRangeContext),
        Run.run (step (closedFile s) {} some) { reader := st } uses = some shared →
        shared.ranges[k]? = some context → P context.options.records →
        context.options.start < 0 →
        Yields (closedFile s) {} some k
          (selected context.options.records (itemsOf some all)) shared := by
    intro P h
    obtain ⟨all, hclosed, hnames⟩ := namesUnique_of_run (fun _ => rfl) hrun (by decide +kernel)
    obtain ⟨st, hopen, hyields⟩ := h ⟨id, 0⟩ plainOptions {} some callsOfThree s (fun _ => rfl) hrun
      (by decide +kernel) nofun (fun _ => hnone) all hclosed hnames
    exact ⟨all, st, hopen, hyields⟩
  constructor
  · intro h
    obtain ⟨all, st, hopen, hyields⟩ := hlog _ h
    obtain ⟨shared, huses, hsummary⟩ := exists_of_useLog hrun hopen
      [.items {}, .begin 0, .dereference 0] ⟨[[]], [-1], [(0, 16, 1)]⟩ (by decide +kernel)
    obtain ⟨context, hcontext, hnil, hstart⟩ := exists_range_of_summary hsummary
    obtain ⟨loop, hloop, hrange, -, hlength⟩ := exists_loop_of_summary hsummary
    have hfirst := (hyields _ shared 0 context huses hcontext hnil
      (by rw [hstart]; decide)).yielded loop hloop hrange
    have hempty : selected [] (itemsOf some all) = [] :=
      List.filter_eq_nil_iff.mpr fun item _ hmem => List.not_mem_nil (of_decide_eq_true hmem)
    rw [hnil, hempty, List.prefix_nil] at hfirst
    rw [hfirst] at hlength
    exact nomatch hlength
  · intro h
    obtain ⟨all, st, hopen, hyields⟩ := hlog _ h
    have hends : ∀ uses n, (useLog uses).map (fun shared => shared.map summary) =
        some (some ⟨[[[0x61]]], [-1], [(0, -1, n)]⟩) →
        (selected [[0x61]] (itemsOf some all)).length = n := by
      intro uses n hsummary
      obtain ⟨shared, huses, hsummary⟩ := exists_of_useLog hrun hopen uses _ hsummary
      obtain ⟨context, hcontext, hnames, hstart⟩ := exists_range_of_summary hsummary
      obtain ⟨loop, hloop, hrange, hindex, hlength⟩ := exists_loop_of_summary hsummary
      have hyielded := (hyields uses shared 0 context huses hcontext (by rw [hnames]; nofun)
        (by rw [hstart]; decide)).ends loop hloop hrange hindex
      rw [hnames] at hyielded
      rw [← hyielded, hlength]
    have hone := hends [.items { records := [[0x61]] }, .begin 0, .dereference 0, .advance 0] 1
      (by decide +kernel)
    have hzero := hends [.items { records := [[0x61]] }, .records, .begin 0] 0 (by decide +kernel)
    omega

end Shared

end Mjlib.Telemetry.FileReader
