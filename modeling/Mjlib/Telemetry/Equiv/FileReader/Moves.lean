import Mjlib.Telemetry.Equiv.FileReader.Seek

/-!
# What the calls of a reader leave

Whatever a reader of a log is asked, at the start of a block, it goes past blocks of the log only.
`Moved` says what this means for what it keeps between its calls, `Moves` that a computation does no
more, and `moves_readUntil` and `moves_seekTo` that `ReadUntil` and `Seek` do not.
-/

namespace Mjlib.Telemetry.FileReader

open Base FileWriter

variable {file : Bytes} {rawUncompress : RawUncompress} {all before after : List LogBlock}
  {st st' st₁ st₂ st₃ : State} {filter : Filter}

/-- A reader that has gone past blocks of a log since. -/
structure Moved (all : List LogBlock) (st st' : State) : Prop where
  learned : Learned all st st'
  start : st'.start = st.start
  found : st'.allRecordsFound = true → st.allRecordsFound = true ∨ Knows all all st'

theorem Moved.of_core (h : st'.core = st.core) : Moved all st st' := by
  have hid : st'.core.idToRecord = st.core.idToRecord := congrArg State.idToRecord h
  have hname : st'.core.nameToRecord = st.core.nameToRecord := congrArg State.nameToRecord h
  have hfound : st'.core.allRecordsFound = st.core.allRecordsFound :=
    congrArg State.allRecordsFound h
  have hstart : st'.core.start = st.core.start := congrArg State.start h
  exact ⟨.of_eq hid hname, hstart, fun h' => .inl (hfound.symm.trans h')⟩

theorem Moved.refl (all : List LogBlock) (st : State) : Moved all st st := .of_core rfl

theorem stable_knows_all (hvalid : ValidLog rawUncompress all) : Stable all (Knows all all) := by
  refine ⟨fun st st' hid _ h => h.of_eq hid, fun st pos b hb h => h.learn_all hvalid hb pos⟩

theorem Moved.knows (h : Moved all st st') (hvalid : ValidLog rawUncompress all)
    (hknows : Knows all before st) : Knows all before st' :=
  ⟨(h.learned _ (stable_knows hvalid) ⟨hknows.sound, nofun⟩).sound, fun record hr =>
    h.learned _ (stable_known record.identifier record) (hknows.complete record hr)⟩

theorem Moved.trans (hvalid : ValidLog rawUncompress all) (h : Moved all st₁ st₂)
    (h' : Moved all st₂ st₃) : Moved all st₁ st₃ := by
  refine ⟨h.learned.trans h'.learned, h'.start.trans h.start, fun hfound => ?_⟩
  rcases h'.found hfound with hfound | hknows
  · exact (h.found hfound).imp_right fun hknows => h'.knows hvalid hknows
  · exact .inr hknows

theorem Moved.learn {b : LogBlock} (hb : b ∈ all) (pos : ℕ) : Moved all st (st.learn pos b) := by
  refine ⟨fun P hP => hP.learn st pos b hb, start_learn st pos b, fun hfound => .inl ?_⟩
  rw [← hfound]
  cases b with
  | schema identifier name rawSchema =>
    unfold State.learn
    dsimp only
    split_ifs
    · rfl
    · rfl
  | _ => rfl

/-- The streams on the file make no difference. -/
theorem Moved.of_cores (hvalid : ValidLog rawUncompress all) (h : Moved all st.core st'.core) :
    Moved all st st' := by
  have hst : Moved all st st.core := .of_core rfl
  have hst' : Moved all st'.core st' := .of_core rfl
  exact hst.trans hvalid (h.trans hvalid hst')

/-! ### Where the reader is -/

/-- A position between two blocks, or at an end of the log. -/
def Boundary (all : List LogBlock) (pos : ℤ) : Prop :=
  ∃ before after, all = before ++ after ∧ pos = (image before).length

/-- The position of an item. -/
def ItemAt (all : List LogBlock) (pos : ℤ) : Prop :=
  ∃ before fields stored after, all = before ++ .data fields stored :: after ∧
    pos = (image before).length

theorem ItemAt.boundary {pos : ℤ} (h : ItemAt all pos) : Boundary all pos := by
  obtain ⟨before, fields, stored, after, hall, hpos⟩ := h
  exact ⟨before, _, hall, hpos⟩

theorem ItemAt.nonneg {pos : ℤ} (h : ItemAt all pos) : ¬ pos < 0 := by
  obtain ⟨before, fields, stored, after, -, rfl⟩ := h
  exact not_lt.mpr (Int.natCast_nonneg _)

theorem itemAt_of_mem {item : Item} (h : item ∈ itemsOf rawUncompress all) :
    ItemAt all item.index := by
  obtain ⟨before, fields, stored, after, hall, rfl⟩ := mem_itemsFrom_iff.mp h
  exact ⟨before, fields, stored, after, hall, congrArg Nat.cast (length_image before).symm⟩

/-! ### `ReadUntil` -/

/-- What `ReadUntil` finds in the blocks behind a position. -/
theorem readUntil_of_blocks (hvalid : ValidLog rawUncompress all) (hall : all = before ++ after)
    (filter : Filter) (st : State) :
    ∃ st', st'.core = (find st.core filter (image before).length after).2.2 ∧
      readUntil (image all) ((image before).length : ℕ) filter st =
        (.ok (((find st.core filter (image before).length after).1.map ofFound).getD (-1, -1),
          (find st.core filter (image before).length after).2.1), st') := by
  let st₀ : State := { st with pos := (image before).length, crc := none }
  have hrest : rest (image all) st₀ = after.flatMap LogBlock.encode ++ [] := by
    rw [List.append_nil]
    exact rest_of_append rfl hall
  have hle := length_lt_image all
  have hsub : after.length ≤ all.length := by
    rw [hall, List.length_append]
    omega
  obtain ⟨n, hn⟩ : ∃ n, (image all).length + 1 = after.length + (n + 1) :=
    ⟨(image all).length - after.length, by omega⟩
  obtain ⟨st₁, hcore, hnone, hloop⟩ := @readUntilLoop_eq _ [] hvalid.length_lt (n + 1) after st₀
    filter (fun b hb => readable_of_mem hvalid b (hall ▸ List.mem_append_right _ hb)) rfl hrest
  refine ⟨st₁, hcore, ?_⟩
  rw [readUntil_eq, hn, hloop]
  change _ = (Except.ok (((find st₀.core filter st₀.pos after).1.map ofFound).getD (-1, -1), _), _)
  cases hfound : (find st₀.core filter st₀.pos after).1 with
  | some found => rfl
  | none =>
    obtain ⟨-, hrest₁, -⟩ := hnone hfound
    exact readUntilLoop_nil _ hrest₁ n

/-- Finding goes past blocks. -/
theorem moved_find (hvalid : ValidLog rawUncompress all) : ∀ {blocks : List LogBlock} {st : State}
    {filter : Filter} {pos : ℕ}, (∀ b ∈ blocks, b ∈ all) →
    Moved all st (find st filter pos blocks).2.2 := by
  intro blocks
  induction blocks with
  | nil => exact fun _ => .refl _ _
  | cons b blocks ih =>
    intro st filter pos hmem
    obtain ⟨hb, hblocks⟩ := List.forall_mem_cons.mp hmem
    rw [find]
    split_ifs
    · exact .learn hb pos
    · exact (Moved.learn hb pos).trans hvalid (ih hblocks)

/-- It ends at a data block, behind blocks where it did not stop. -/
theorem exists_of_find {found : ℕ × ℕ} : ∀ {blocks : List LogBlock} {st : State} {filter : Filter}
    {pos : ℕ}, (find st filter pos blocks).1 = some found →
    ∃ skipped fields stored rest, blocks = skipped ++ .data fields stored :: rest ∧
      found.1 = pos + (skipped.flatMap LogBlock.encode).length ∧
      found.2 = found.1 + (LogBlock.data fields stored).encode.length := by
  intro blocks
  induction blocks with
  | nil =>
    intro st filter pos h
    cases h
  | cons b blocks ih =>
    intro st filter pos h
    rw [find] at h
    split_ifs at h with hstops
    · obtain rfl := Option.some.inj h
      cases b with
      | data fields stored => exact ⟨[], fields, stored, blocks, rfl, rfl, rfl⟩
      | _ => cases hstops
    · obtain ⟨skipped, fields, stored, rest, rfl, hfirst, hnext⟩ := ih h
      refine ⟨b :: skipped, fields, stored, rest, rfl, ?_, hnext⟩
      rw [hfirst, List.flatMap_cons, List.length_append, Nat.add_assoc]

/-! ### Computations that go past blocks of the log -/

section

variable {α β : Type}

/-- A computation goes past blocks of the log only, and has a result as told if it ends well. -/
structure Moves (all : List LogBlock) (x : M α) (st : State) (post : α → State → Prop) : Prop where
  moved : Moved all st (x st).2
  post : ∀ a, (x st).1 = .ok a → post a (x st).2

theorem Moves.bind (hvalid : ValidLog rawUncompress all) {x : M α} {f : α → M β}
    {post : α → State → Prop} {post' : β → State → Prop} (hx : Moves all x st post)
    (hf : ∀ a st', post a st' → Moves all (f a) st' post') : Moves all (x >>= f) st post' := by
  obtain ⟨hmoved, hpost⟩ := hx
  rcases hresult : x st with ⟨_ | a, st₁⟩
  · rw [hresult] at hmoved
    constructor
    · rw [bind_error hresult]
      exact hmoved
    · rw [bind_error hresult]
      exact nofun
  · rw [hresult] at hmoved hpost
    obtain ⟨hmoved', hpost'⟩ := hf a st₁ (hpost a rfl)
    constructor
    · rw [bind_ok hresult]
      exact hmoved.trans hvalid hmoved'
    · rw [bind_ok hresult]
      exact hpost'

theorem Moves.imp {x : M α} {post post' : α → State → Prop} (hx : Moves all x st post)
    (h : ∀ a st', post a st' → post' a st') : Moves all x st post' :=
  ⟨hx.moved, fun a ha => h a _ (hx.post a ha)⟩

theorem moves_pure {a : α} {post : α → State → Prop} (h : post a st) :
    Moves all (pure a : M α) st post := by
  refine ⟨.refl _ _, fun b hb => ?_⟩
  cases hb
  exact h

theorem moves_throw (e : Error) {post : α → State → Prop} : Moves all (throw e : M α) st post :=
  ⟨.refl _ _, nofun⟩

theorem moves_get_bind {f : State → M β} {post : β → State → Prop}
    (h : Moves all (f st) st post) : Moves all (get >>= f) st post := ⟨h.moved, h.post⟩

end

/-- **`ReadUntil`**, from a place between two blocks or from none. -/
theorem moves_readUntil (hvalid : ValidLog rawUncompress all) {start : ℤ}
    (hstart : start = -1 ∨ Boundary all start) (filter : Filter) (st : State) :
    Moves all (readUntil (image all) start filter) st fun found _ =>
      (found.1.1 = -1 ∨ ItemAt all found.1.1) ∧ (found.1.2 = -1 ∨ Boundary all found.1.2) := by
  rcases hstart with rfl | ⟨before, after, hall, rfl⟩
  · exact ⟨.refl _ _, nofun⟩
  · obtain ⟨st', hcore, hread⟩ := readUntil_of_blocks hvalid hall filter st
    have hmoved := @moved_find rawUncompress all hvalid after st.core filter (image before).length
      fun b hb => hall ▸ List.mem_append_right _ hb
    rw [← hcore] at hmoved
    have hst' : Moved all st st' := .of_cores hvalid hmoved
    constructor
    · rw [hread]
      exact hst'
    · rw [hread]
      rintro _ ⟨⟩
      cases hfound : (find st.core filter (image before).length after).1 with
      | none => exact ⟨.inl rfl, .inl rfl⟩
      | some found =>
        obtain ⟨skipped, fields, stored, rest, rfl, hfirst, hnext⟩ := exists_of_find hfound
        have hfirst' : found.1 = (image (before ++ skipped)).length := by
          rw [hfirst, image_append, List.length_append]
        refine ⟨.inr ⟨before ++ skipped, fields, stored, rest, ?_, ?_⟩,
          .inr ⟨before ++ skipped ++ [.data fields stored], rest, ?_, ?_⟩⟩
        · rw [hall, List.append_assoc]
        · exact congrArg Nat.cast hfirst'
        · rw [hall, List.append_assoc, List.append_assoc]
          rfl
        · show ((found.2 : ℕ) : ℤ) = _
          rw [hnext, hfirst', length_image_concat]

/-- `operator*` leaves what the reader keeps. -/
theorem moves_read (hvalid : ValidLog rawUncompress all) (options : Options) {index : ℤ}
    (h : ItemAt all index) (st : State) :
    Moves all (read (image all) options rawUncompress index) st fun _ _ => True := by
  obtain ⟨before, fields, stored, after, hall, rfl⟩ := h
  have hdrop : (image all).drop (image before).length =
      (LogBlock.data fields stored).encode ++ after.flatMap LogBlock.encode := by
    rw [hall, drop_image, List.flatMap_cons]
  obtain ⟨pos, crc, blockSize, hread⟩ := read_of_block options hvalid.length_lt
    (decompressible_of_mem hvalid _ (hall ▸ List.mem_append_right _ List.mem_cons_self)) hdrop st
  refine ⟨?_, fun _ _ => trivial⟩
  rw [hread]
  exact .of_core rfl

/-! ### The other calls -/

/-- What the reader keeps of a log. -/
structure Sound (all : List LogBlock) (st : State) : Prop where
  knows : Knows all [] st
  found : st.allRecordsFound = true → Knows all all st
  cached : Cached st
  start : st.start = (image []).length

theorem Opened.sound (h : Opened all st) : Sound all st := ⟨h.knows, h.found, h.cached, h.start⟩

theorem Sound.moved (hvalid : ValidLog rawUncompress all) (h : Sound all st)
    (hmoved : Moved all st st') : Sound all st' := by
  refine ⟨hmoved.knows hvalid h.knows, fun hfound => ?_, hmoved.learned _ stable_cached h.cached,
    hmoved.start.trans h.start⟩
  rcases hmoved.found hfound with hfound | hknows
  · exact hmoved.knows hvalid (h.found hfound)
  · exact hknows

theorem moves_fullScan (hvalid : ValidLog rawUncompress all) (h : Sound all st) :
    Moves all (fullScan (image all)) st fun _ st' => Knows all all st' := by
  obtain ⟨st', hscan, hcore⟩ := fullScan_core hvalid.length_lt
    (fun b hb => readable_of_mem hvalid b hb) h.start
  have hlearned : Learned all st.core (st.core.learnAll 9 all) := .learnAll _ _ fun _ hb => hb
  have hid : st'.core.idToRecord = (st.core.learnAll 9 all).idToRecord := by rw [hcore]
  have hname : st'.core.nameToRecord = (st.core.learnAll 9 all).nameToRecord := by rw [hcore]
  have hstart : st'.core.start = (st.core.learnAll 9 all).start := by rw [hcore]
  have hknows : Knows all all st' := (h.knows.core.learnAll hvalid 9 fun _ hb => hb).of_eq hid
  rw [start_learnAll] at hstart
  constructor
  · rw [hscan]
    exact .of_cores hvalid ⟨hlearned.trans (.of_eq hid hname), hstart, fun _ => .inr hknows.core⟩
  · rw [hscan]
    exact fun _ _ => hknows

theorem moves_findAllRecords (hvalid : ValidLog rawUncompress all) (h : Sound all st) :
    Moves all (findAllRecords (image all)) st fun _ st' => Knows all all st' := by
  refine moves_get_bind ?_
  split_ifs with hfound
  · exact moves_pure (h.found hfound)
  · exact moves_fullScan hvalid h

theorem moves_records (hvalid : ValidLog rawUncompress all) (h : Sound all st) :
    Moves all (records (image all)) st fun _ _ => True :=
  (moves_findAllRecords hvalid h).bind hvalid fun _ _ _ => moves_get_bind (moves_pure trivial)

theorem moves_finalItem (hvalid : ValidLog rawUncompress all) (h : Sound all st) :
    Moves all (finalItem (image all)) st fun _ _ => True :=
  (moves_findAllRecords hvalid h).bind hvalid fun _ _ _ => moves_get_bind (moves_pure trivial)

theorem moves_record (hvalid : ValidLog rawUncompress all) (h : Sound all st) (name : Bytes) :
    Moves all (record (image all) name) st fun _ _ => True := by
  refine moves_get_bind ?_
  cases st.nameToRecord.get? name with
  | some record => exact moves_pure trivial
  | none =>
    refine moves_get_bind ?_
    split_ifs
    · exact moves_pure trivial
    · exact (moves_fullScan hvalid h).bind hvalid fun _ _ _ => moves_get_bind (moves_pure trivial)

/-- The bisection moves nothing, and ends between two blocks. -/
theorem moves_bisect (hvalid : ValidLog rawUncompress all) (hmarkers : MarkersRight all)
    (timestamp : Ptime) : ∀ {n : ℕ} {low high : ℤ} {result : SeekResult} {st : State},
    Boundary all low → Scanned all st →
    Moves all (bisect (image all) timestamp n low high result) st fun found _ =>
      Boundary all found.1 := by
  intro n
  induction n with
  | zero => exact fun _ _ => moves_throw _
  | succ n ih =>
    intro low high result st hlow hscanned
    have hspacing : kMinSpacing = 65536 := rfl
    rw [bisect]
    split_ifs with hfar
    · have hnonneg : 0 ≤ low := by
        obtain ⟨_, _, -, rfl⟩ := hlow
        exact Int.natCast_nonneg _
      obtain ⟨start, hstart⟩ := Int.eq_ofNat_of_zero_le
        (show 0 ≤ low + (high - low) / 2 by omega)
      obtain ⟨found, st₁, hfind, hcore, hfound⟩ := findSeekMarker_of_markers hvalid hmarkers
        hscanned start high
      have hmoves : Moves all (findSeekMarker (image all) start high) st
          fun found' st' => found = found' ∧ st₁ = st' := by
        constructor
        · rw [hfind]
          exact .of_core hcore
        · rw [hfind]
          rintro _ ⟨⟩
          exact ⟨rfl, rfl⟩
      rw [hstart]
      refine hmoves.bind hvalid ?_
      rintro _ _ ⟨rfl, rfl⟩
      have hscanned₁ := hscanned.of_core hcore
      cases found with
      | none => exact moves_pure hlow
      | some r =>
        obtain ⟨before, ⟨body, after, elements, hall, -, hindex, -⟩, -⟩ := hfound r rfl
        dsimp only
        split_ifs
        · exact ih ⟨before, _, hall, hindex⟩ hscanned₁
        · exact ih hlow hscanned₁
    · exact moves_pure hlow

/-- The loop of `Seek` over the items. -/
theorem moves_scan (hvalid : ValidLog rawUncompress all) (options : Options) (timestamp : Ptime) :
    ∀ {n : ℕ} {index : ℤ} {filter : Filter} {result : SeekResult} {st : State},
    index = -1 ∨ ItemAt all index →
    Moves all (scan (image all) options rawUncompress timestamp n index filter result) st
      fun _ _ => True := by
  intro n
  induction n with
  | zero => exact fun _ => moves_throw _
  | succ n ih =>
    intro index filter result st hindex
    rw [scan]
    split_ifs with hend
    · exact moves_pure trivial
    · have hdata := hindex.resolve_left hend
      refine (moves_read hvalid options hdata st).bind hvalid fun item st₁ _ => ?_
      split_ifs
      · exact moves_pure trivial
      · exact moves_pure trivial
      · refine (moves_readUntil hvalid (.inr hdata.boundary) filter st₁).bind hvalid ?_
        rintro ⟨⟨_, after⟩, filter₂⟩ st₂ ⟨-, hafter⟩
        refine (moves_readUntil hvalid hafter filter₂ st₂).bind hvalid ?_
        rintro ⟨⟨advanced, _⟩, filter₃⟩ st₃ ⟨hadvanced, -⟩
        exact ih hadvanced

/-- **`Seek`**, in a log where it finds no marker that is none. -/
theorem moves_seekTo (hvalid : ValidLog rawUncompress all) (hmarkers : MarkersRight all)
    (h : Sound all st) (hsignatures : SignaturesInMarkers all ∨
      ∀ st', findAllRecords (image all) st = (.ok ⟨⟩, st') → Harmless all st')
    (options : Options) (timestamp : Ptime) :
    Moves all (seekTo (image all) options rawUncompress timestamp) st fun _ _ => True := by
  have hfind := moves_findAllRecords hvalid h
  have hscan : Moves all (findAllRecords (image all)) st fun _ st' => Scanned all st' := by
    refine ⟨hfind.moved, fun u hu => ⟨hfind.post u hu, hfind.moved.start.trans h.start, ?_⟩⟩
    exact hsignatures.imp_right fun hharmless => hharmless _ (Prod.ext hu rfl)
  refine hscan.bind hvalid fun _ st₁ hscanned => moves_get_bind ?_
  have hlow : Boundary all st₁.start := ⟨[], all, rfl, hscanned.start⟩
  refine (moves_bisect hvalid hmarkers timestamp hlow hscanned).bind hvalid ?_
  rintro ⟨low, result⟩ st₂ hlow
  refine moves_get_bind ?_
  have hnonneg : ¬ low < 0 := by
    obtain ⟨_, _, -, rfl⟩ := hlow
    exact not_lt.mpr (Int.natCast_nonneg _)
  dsimp only
  rw [if_neg hnonneg]
  refine (moves_readUntil hvalid (.inr hlow) _ st₂).bind hvalid ?_
  rintro ⟨⟨first, _⟩, filter⟩ st₃ ⟨hfirst, -⟩
  exact moves_scan hvalid options timestamp hfirst

end Mjlib.Telemetry.FileReader
