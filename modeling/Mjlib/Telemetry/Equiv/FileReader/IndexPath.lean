import Mjlib.Telemetry.Equiv.FileReader.Truncated
import Mjlib.Telemetry.Equiv.FileWriter.Remembers

/-!
# The index and a full scan

`viaIndex` is what a reader tells of a log that it has opened with its index, `viaScan` what it would
tell without.  The index has the schemas that were written last, a scan keeps those that came first,
and the index has no data but what was written since the last schema of its identifier; `Indexed`
says of what was written that this makes no difference, and `sameAsScan_iff` that the two agree
exactly then.
-/

namespace Mjlib.Telemetry.FileReader

open Base FileWriter

variable {file : Bytes} {st st' : State} {blocks all : List LogBlock}

/-! ### What a reader tells -/

/-- `FileReader::Impl::Impl`, but for the index. -/
def openUnindexed (file : Bytes) : M PUnit := do
  let header := (rest file (← get)).take 8
  consume file 8
  if header ≠ Format.kHeader then throw .invalidHeader
  else if (← readVaruint file) ≠ some 0 then throw .invalidHeaderFlags
  else modify fun st => { st with start := st.pos }

/-- `records` and `final_item` of a reader that was opened in some way. -/
def told (file : Bytes) (opening : M PUnit) : Except Error (List Record × ℤ) :=
  ((do
    opening
    let records ← records file
    let finalItem ← finalItem file
    return (records, finalItem) : M _) {}).1

/-- What the reader tells of a log. -/
def viaIndex (file : Bytes) : Except Error (List Record × ℤ) := told file (openFile file)

/-- What it would tell without the index. -/
def viaScan (file : Bytes) : Except Error (List Record × ℤ) := told file (openUnindexed file)

/-- Both ways of reading a log end well, with the same records and the same final item. -/
def SameAsScan (file : Bytes) : Prop :=
  ∃ a b, viaIndex file = .ok a ∧ viaScan file = .ok b ∧
    (∀ record, record ∈ a.1 ↔ record ∈ b.1) ∧ a.2 = b.2

theorem openUnindexed_eq (s : Bytes) :
    openUnindexed (FileWriter.State.fileHeader ++ s) {} = (.ok ⟨⟩, atStart) := by
  have hrest := rest_fileHeader s
  have hconsume : consume (FileWriter.State.fileHeader ++ s) 8 {} =
      (.ok ⟨⟩, State.advance {} Format.kHeader) := consume_of_rest hrest
  unfold openUnindexed
  rw [get_bind, hrest, take_kHeader, bind_ok hconsume, if_neg (by simp),
    bind_ok (readVaruint_of_rest (rest_advance hrest)), if_neg (by simp)]
  rfl

/-- A reader that knows all records tells what it knows. -/
theorem told_of_found {opening : M PUnit} (hopen : opening {} = (.ok ⟨⟩, st))
    (hfound : st.allRecordsFound = true) :
    told file opening = .ok (st.records, st.finalItem) := by
  have hfind : findAllRecords file st = (.ok ⟨⟩, st) := by
    unfold findAllRecords
    rw [get_bind, if_pos hfound]
    rfl
  have hrecords : records file st = (.ok st.records, st) := bind_ok hfind
  have hfinal : finalItem file st = (.ok st.finalItem, st) := bind_ok hfind
  unfold told
  rw [bind_ok hopen, bind_ok hrecords, bind_ok hfinal]
  rfl

/-! ### Scanning -/

/-- A scan goes past all blocks. -/
theorem fullScan_core (hlt : (image all).length < 2 ^ 63) (hreadable : ∀ b ∈ all, Readable b)
    (hstart : st.start = 9) :
    ∃ st', fullScan (image all) st = (.ok ⟨⟩, st') ∧
      st'.core = { st.core.learnAll 9 all with allRecordsFound := true } := by
  let st₀ : State := { st with pos := 9, crc := none }
  have hrest : rest (image all) st₀ = all.flatMap LogBlock.encode ++ [] := by
    rw [List.append_nil]
    exact rest_of_append rfl (List.nil_append all).symm
  obtain ⟨st₁, hcore, hnone, hloop⟩ := @readUntilLoop_eq _ [] hlt
    ((image all).length + 1 - all.length) all st₀ .noFilter hreadable rfl hrest
  have hle := length_lt_image all
  rw [Nat.add_sub_cancel' (by omega), find_noFilter] at hloop
  rw [find_noFilter] at hcore hnone
  obtain ⟨-, hrest₁, -⟩ := hnone rfl
  obtain ⟨n, hn⟩ : ∃ n, (image all).length + 1 - all.length = n + 1 :=
    ⟨(image all).length - all.length, by omega⟩
  rw [hn] at hloop
  have hread : readUntil (image all) (9 : ℕ) .noFilter st = (.ok ((-1, -1), .noFilter), st₁) := by
    rw [readUntil_eq]
    exact hloop.trans (readUntilLoop_nil .noFilter hrest₁ n)
  refine ⟨{ st₁ with allRecordsFound := true }, ?_, ?_⟩
  · unfold fullScan
    rw [get_bind, hstart]
    exact bind_ok hread
  · show { st₁.core with allRecordsFound := true } = _
    rw [hcore]
    rfl

theorem fullScan_eq (hlt : (image all).length < 2 ^ 63) (hreadable : ∀ b ∈ all, Readable b)
    (hstart : st.start = 9) :
    ∃ st', fullScan (image all) st = (.ok ⟨⟩, st') ∧ st'.allRecordsFound = true ∧
      st'.records = (st.core.learnAll 9 all).records ∧
      st'.finalItem = (st.core.learnAll 9 all).finalItem := by
  obtain ⟨st', hscan, hcore⟩ := fullScan_core hlt hreadable hstart
  have hfound : st'.core.allRecordsFound = true := by rw [hcore]
  have hrecords : st'.core.records = (st.core.learnAll 9 all).records := by rw [hcore]
  have hfinal : st'.core.finalItem = (st.core.learnAll 9 all).finalItem := by rw [hcore]
  exact ⟨st', hscan, hfound, hrecords, hfinal⟩

/-- A reader that has seen no block tells what a scan finds. -/
theorem told_of_core {opening : M PUnit} (hlt : (image all).length < 2 ^ 63)
    (hreadable : ∀ b ∈ all, Readable b) (hopen : opening {} = (.ok ⟨⟩, st))
    (hcore : st.core = atStart.core) :
    told (image all) opening = .ok ((atStart.core.learnAll 9 all).records,
      (atStart.core.learnAll 9 all).finalItem) := by
  have hfound : st.allRecordsFound = false := congrArg State.allRecordsFound hcore
  have hstart : st.start = 9 := congrArg State.start hcore
  obtain ⟨st', hscan, hfound', hrecords', hfinal'⟩ := fullScan_eq hlt hreadable hstart
  rw [hcore] at hrecords' hfinal'
  have hfind : findAllRecords (image all) st = (.ok ⟨⟩, st') := by
    unfold findAllRecords
    rw [get_bind, hfound]
    exact hscan
  have hfind' : findAllRecords (image all) st' = (.ok ⟨⟩, st') := by
    unfold findAllRecords
    rw [get_bind, if_pos hfound']
    rfl
  have hrecords : records (image all) st = (.ok st'.records, st') := bind_ok hfind
  have hfinal : finalItem (image all) st' = (.ok st'.finalItem, st') := bind_ok hfind'
  unfold told
  rw [bind_ok hopen, bind_ok hrecords, bind_ok hfinal, hrecords', hfinal']
  rfl

/-! ### The records -/

/-- The record of a schema block. -/
def recordFrom (identifier : UInt64) (schema : Bytes × Bytes) : Record :=
  schemaRecord identifier schema.1 schema.2

/-- The records in the list are those that are found by their identifiers. -/
def Recorded (st : State) : Prop :=
  ∀ record, record ∈ st.records ↔ st.idToRecord.get? record.identifier = some record

theorem recorded_atStart : Recorded atStart.core := fun _ => iff_of_false nofun nofun

theorem Recorded.of_eq (h : Recorded st) (hrecords : st'.records = st.records)
    (hids : st'.idToRecord = st.idToRecord) : Recorded st' := by
  intro record
  rw [hrecords, hids]
  exact h record

theorem Recorded.withRecord (h : Recorded st) {record : Record}
    (hnew : st.idToRecord.get? record.identifier = none) : Recorded (st.withRecord record) := by
  intro record'
  show record' ∈ st.records ++ [record] ↔
    (st.idToRecord.insert record.identifier record).get? record'.identifier = some record'
  rw [List.mem_append, List.mem_singleton, SortedMap.get?_insert, h]
  split_ifs with hid
  · rw [Option.some_inj, eq_comm (a := record), hid, hnew]
    exact or_iff_right (Option.some_ne_none _ ·.symm)
  · exact or_iff_left fun heq => hid (congrArg Record.identifier heq)

theorem Recorded.learn (h : Recorded st) (pos : ℕ) (b : LogBlock) : Recorded (st.learn pos b) := by
  cases b with
  | schema identifier name rawSchema =>
    unfold State.learn
    dsimp only
    split_ifs with hknown
    · exact h
    · exact h.withRecord (Option.not_isSome_iff_eq_none.mp hknown)
  | _ => exact h

/-- The reader knows a record already, or learns it from the block. -/
theorem get?_learn (identifier : UInt64) (pos : ℕ) (b : LogBlock) :
    (st.learn pos b).idToRecord.get? identifier =
      (st.idToRecord.get? identifier).or ((b.schemaOf? identifier).map (recordFrom identifier)) := by
  cases b with
  | schema i name rawSchema =>
    rw [LogBlock.schemaOf?]
    unfold State.learn
    dsimp only
    split_ifs with hknown hid hid
    · obtain ⟨record, hrecord⟩ := Option.isSome_iff_exists.mp hknown
      rw [← hid, hrecord, Option.some_or]
    · rw [Option.map_none, Option.or_none]
    · have hnone : st.idToRecord.get? i = none := by simpa using hknown
      show (st.idToRecord.insert i _).get? identifier = _
      rw [SortedMap.get?_insert, if_pos hid.symm, ← hid, hnone, Option.none_or]
      rfl
    · show (st.idToRecord.insert i _).get? identifier = _
      rw [SortedMap.get?_insert, if_neg (Ne.symm hid), Option.map_none, Option.or_none]
  | _ => exact (Option.or_none).symm

/-- **A scan keeps the schemas that come first.** -/
theorem get?_learnAll (identifier : UInt64) : ∀ (blocks : List LogBlock) (st : State) (pos : ℕ),
    (st.learnAll pos blocks).idToRecord.get? identifier =
      (st.idToRecord.get? identifier).or
        ((schemasOf identifier blocks).head?.map (recordFrom identifier)) := by
  intro blocks
  induction blocks with
  | nil => exact fun _ _ => (Option.or_none).symm
  | cons b blocks ih =>
    intro st pos
    rw [State.learnAll, ih, get?_learn, Option.or_assoc]
    unfold schemasOf
    cases hb : b.schemaOf? identifier with
    | none => rw [List.filterMap_cons_none hb, Option.map_none, Option.none_or]
    | some schema =>
      rw [List.filterMap_cons_some hb, List.head?_cons, Option.map_some, Option.some_or]

theorem Recorded.learnAll : ∀ (blocks : List LogBlock) {st : State} (pos : ℕ), Recorded st →
    Recorded (st.learnAll pos blocks) := by
  intro blocks
  induction blocks with
  | nil => exact fun _ h => h
  | cons b blocks ih => exact fun pos h => ih _ (h.learn pos b)

/-! ### Loading an index -/

/-- The records of an index point at schema blocks. -/
def PointsAt (all : List LogBlock) (x : UInt64 × SchemaRecord) : Prop :=
  ∃ before after, all = before ++ .schema x.1 x.2.name x.2.schema :: after ∧
    (localRecord x).schemaLocation = (image before).length

/-- **All records of an index are loaded**, and the last of their positions is the final item. -/
theorem forM_loadLocalRecord_of_blocks (hlt : (image all).length < 2 ^ 63)
    (hreadable : ∀ b ∈ all, Readable b) : ∀ {l : List (UInt64 × SchemaRecord)} {st : State},
    (∀ x ∈ l, PointsAt all x) → Recorded st →
    (∀ i record, st.idToRecord.get? i = some record → record.identifier = i) → st.crc = none →
    ∃ st', (l.map localRecord).forM (loadLocalRecord (image all)) st = (.ok ⟨⟩, st') ∧
      Recorded st' ∧
      (∀ i, st'.idToRecord.get? i = (st.idToRecord.get? i).or ((l.find? fun x => x.1 = i).map
        fun x => schemaRecord i x.2.name x.2.schema)) ∧
      st'.finalItem = (l.map fun x => (localRecord x).finalRecord).foldl max st.finalItem := by
  intro l
  induction l with
  | nil => exact fun {st} _ h _ _ => ⟨st, rfl, h, fun _ => (Option.or_none).symm, rfl⟩
  | cons x l ih =>
    intro st hl h hid hcrc
    obtain ⟨hx, hl⟩ := List.forall_mem_cons.mp hl
    obtain ⟨before, after, hall, hloc⟩ := hx
    let b : LogBlock := .schema x.1 x.2.name x.2.schema
    have hmem : b ∈ all := hall ▸ List.mem_append_right _ List.mem_cons_self
    obtain ⟨st₁, hload, hcrc₁, hcore⟩ := loadLocalRecord_of_block hlt hall (hreadable b hmem) rfl
      hloc (hid x.1) hcrc
    have hst : Recorded st.core := h
    have hlearned : Recorded (st.core.learn (image before).length b) := hst.learn _ b
    have h₁ : Recorded st₁ := by
      show Recorded st₁.core
      rw [hcore]
      exact hlearned
    have hget : ∀ i, st₁.idToRecord.get? i = (st.idToRecord.get? i).or
        ((b.schemaOf? i).map (recordFrom i)) := by
      intro i
      rw [← core_idToRecord st₁, hcore]
      exact get?_learn i (image before).length b
    have hid₁ : ∀ i record, st₁.idToRecord.get? i = some record → record.identifier = i := by
      intro i record
      rw [hget, Option.or_eq_some_iff]
      rintro (hknown | ⟨-, hnew⟩)
      · exact hid i record hknown
      · obtain ⟨schema, -, rfl⟩ := Option.map_eq_some_iff.mp hnew
        rfl
    obtain ⟨st₂, hrest, h₂, hget₂, hfinal₂⟩ := ih hl h₁ hid₁ hcrc₁
    refine ⟨st₂, (bind_ok hload).trans hrest, h₂, fun i => ?_, ?_⟩
    · rw [hget₂, hget, Option.or_assoc, LogBlock.schemaOf?]
      by_cases hi : x.1 = i
      · rw [if_pos hi, List.find?_cons_of_pos (by simpa using hi), Option.map_some, Option.some_or]
        rfl
      · rw [if_neg hi, List.find?_cons_of_neg (by simpa using hi), Option.map_none, Option.none_or]
    · have hfinal : st₁.finalItem = max st.finalItem (localRecord x).finalRecord := by
        show st₁.core.finalItem = _
        rw [hcore]
        rfl
      rw [hfinal₂, hfinal]
      rfl

/-! ### A schema that may be anywhere -/

section

variable {α β : Type}

/-- A computation leaves alone what the reader keeps between its calls. -/
def ReadsOnly (x : M α) : Prop := ∀ st, (x st).2.core = st.core

theorem ReadsOnly.bind {x : M α} {f : α → M β} (hx : ReadsOnly x) (hf : ∀ a, ReadsOnly (f a)) :
    ReadsOnly (x >>= f) := by
  intro st
  have hst := hx st
  rcases hresult : x st with ⟨result, st₁⟩
  rw [hresult] at hst
  cases result with
  | error e =>
    rw [bind_error hresult]
    exact hst
  | ok a =>
    rw [bind_ok hresult]
    exact (hf a st₁).trans hst

theorem readsOnly_pure (a : α) : ReadsOnly (pure a : M α) := fun _ => rfl

theorem readsOnly_throw (e : Error) : ReadsOnly (throw e : M α) := fun _ => rfl

theorem readsOnly_get : ReadsOnly (get : M State) := fun _ => rfl

theorem readsOnly_value (a : Option α) : ReadsOnly (M.value a) := by
  cases a with
  | none => exact readsOnly_throw _
  | some a => exact readsOnly_pure a

theorem readsOnly_consume (n : ℕ) : ReadsOnly (consume file n) := fun _ => rfl

theorem readsOnly_ask (size : ℕ) : ReadsOnly (ask size) := by
  intro st
  unfold ask
  rw [get_bind]
  split_ifs
  · rfl
  · rfl

theorem readsOnly_seek (index : ℤ) : ReadsOnly (seek index) := by
  intro st
  unfold seek
  split_ifs
  · rfl
  · rfl

theorem readsOnly_readVaruint : ReadsOnly (readVaruint file) :=
  readsOnly_get.bind fun _ => (readsOnly_consume _).bind fun _ => readsOnly_pure _

theorem readsOnly_block_readVaruint : ReadsOnly (Block.readVaruint file) :=
  readsOnly_get.bind fun _ => (readsOnly_ask _).bind fun _ =>
    (readsOnly_consume _).bind fun _ => readsOnly_pure _

theorem readsOnly_rawRead (size : ℕ) : ReadsOnly (Block.rawRead file size) :=
  readsOnly_get.bind fun _ => (readsOnly_ask _).bind fun _ =>
    (readsOnly_consume _).bind fun _ => readsOnly_pure _

theorem readsOnly_readString : ReadsOnly (Block.readString file) := by
  refine readsOnly_block_readVaruint.bind fun size => ?_
  cases size with
  | none => exact readsOnly_pure _
  | some size =>
    dsimp only
    split_ifs
    · exact readsOnly_throw _
    · exact (readsOnly_rawRead _).bind fun _ => readsOnly_pure _

theorem readsOnly_readRemaining : ReadsOnly (Block.readRemaining file) := by
  refine readsOnly_get.bind fun st => ?_
  dsimp only
  split_ifs
  · exact readsOnly_throw _
  · exact (readsOnly_rawRead _).bind fun _ => readsOnly_pure _

theorem readsOnly_readHeader (throwOnError : Bool) : ReadsOnly (readHeader file throwOnError) := by
  refine readsOnly_readVaruint.bind fun type => ?_
  cases type with
  | none => exact readsOnly_pure _
  | some type =>
    dsimp only
    cases Format.BlockType.ofUInt64 type with
    | none =>
      dsimp only
      split_ifs
      · exact readsOnly_throw _
      · exact readsOnly_pure _
    | some blockType =>
      exact readsOnly_readVaruint.bind fun _ => (readsOnly_value _).bind fun _ => readsOnly_pure _

theorem readsOnly_ignoreBelow (size : ℕ) : ReadsOnly (ignoreBelow file size) := by
  intro st
  unfold ignoreBelow
  rw [get_bind]
  cases st.crc with
  | some _ => rfl
  | none =>
    dsimp only
    split_ifs
    · rfl
    · rfl

theorem readsOnly_destroy : ReadsOnly (Block.destroy file) := by
  refine readsOnly_get.bind fun st => ?_
  dsimp only
  split_ifs
  · exact readsOnly_ignoreBelow _
  · exact readsOnly_pure _

/-- A computation in the scope of a block ends well if it does so itself. -/
theorem exists_of_inScope_ok {size : UInt64} {body : M α} {a : α}
    (h : Block.inScope file size body st = (.ok a, st')) :
    ∃ st₁, body { st with blockSize := streamsize size } = (.ok a, st₁) ∧ st'.core = st₁.core := by
  unfold Block.inScope at h
  split at h
  · exact nomatch h
  · rename_i result st₁ _ hbody
    have hcore : (Block.destroy file st₁).2.core = st₁.core := readsOnly_destroy st₁
    split at h
    · rename_i st₂ hdestroy
      obtain ⟨rfl, rfl⟩ := Prod.mk.inj h
      rw [hdestroy] at hcore
      exact ⟨st₁, hbody, hcore⟩
    · exact nomatch h

theorem exists_of_value_ok {o : Option α} {f : α → M β} {r : β}
    (h : (M.value o >>= f) st = (.ok r, st')) : ∃ a, o = some a ∧ f a st = (.ok r, st') := by
  cases o with
  | none => exact nomatch h
  | some a => exact ⟨a, rfl, h⟩

/-- A step that reads only, and then the rest. -/
theorem ReadsOnly.exists_of_bind_ok {x : M α} {f : α → M β} {r : β} (hx : ReadsOnly x)
    (h : (x >>= f) st = (.ok r, st')) :
    ∃ a st₁, st₁.core = st.core ∧ f a st₁ = (.ok r, st') := by
  obtain ⟨a, st₁, hxa, h⟩ := FileReader.exists_of_bind_ok h
  have hcore := hx st
  rw [hxa] at hcore
  exact ⟨a, st₁, hcore, h⟩

end

/-- A record is added beside the streams. -/
theorem push_bind_of_core {α : Type} {st₀ : State} (h : st.core = st₀.core) (record : Record)
    (g : PUnit → M α) :
    ∃ st₁, st₁.core = st₀.core.withRecords (st₀.records ++ [record]) ∧
      ((modify fun st => { st with records := st.records ++ [record] } : M PUnit) >>= g) st =
        g ⟨⟩ st₁ := by
  have hrecords : st.core.records = st₀.records := by rw [h]; rfl
  refine ⟨st.withRecords (st.records ++ [record]), ?_, push_bind record g⟩
  show st.core.withRecords (st.core.records ++ [record]) = _
  rw [hrecords, h]

/-- The last record is changed beside the streams. -/
theorem modifyLast_bind_of_core {α : Type} {st₀ : State} {records : List Record} {record : Record}
    (h : st.core = st₀.core.withRecords (records ++ [record])) (f : Record → Record)
    (g : PUnit → M α) :
    ∃ st₁, st₁.core = st₀.core.withRecords (records ++ [f record]) ∧
      (modifyLast f >>= g) st = g ⟨⟩ st₁ := by
  have hrecords : st.core.records = records ++ [record] := by rw [h]; rfl
  have hst : st = st.withRecords (records ++ [record]) := by rw [← hrecords]; rfl
  refine ⟨st.withRecords (records ++ [f record]), ?_, ?_⟩
  · show st.core.withRecords (records ++ [f record]) = _
    rw [h]
    rfl
  · exact (congrArg (modifyLast f >>= g) hst).trans (modifyLast_bind f g)

/-- What `ProcessSchema` makes of a block that may be anything: a record that was there, or a new
one. -/
theorem processSchema_ok {filter : Filter} {r : Record × Filter}
    (h : processSchema file filter st = (.ok r, st')) :
    ∃ identifier, (st.idToRecord.get? identifier = some r.1 ∧ st'.core = st.core) ∨
      (st.idToRecord.get? identifier = none ∧ r.1.identifier = identifier ∧
        st'.core = st.core.withRecord r.1) := by
  unfold processSchema at h
  obtain ⟨o, st₁, hcore₁, h₁⟩ := readsOnly_block_readVaruint.exists_of_bind_ok h
  obtain ⟨identifier, rfl, h₂⟩ := exists_of_value_ok h₁
  refine ⟨identifier, ?_⟩
  rw [get_bind, ← core_idToRecord st₁, hcore₁, core_idToRecord] at h₂
  cases hget : st.idToRecord.get? identifier with
  | some record =>
    rw [hget] at h₂
    obtain ⟨hr, rfl⟩ := Prod.mk.inj h₂
    obtain rfl := Except.ok.inj hr
    exact Or.inl ⟨rfl, hcore₁⟩
  | none =>
    rw [hget] at h₂
    dsimp only at h₂
    obtain ⟨st₂, hcore₂, hpush⟩ := push_bind_of_core hcore₁ { identifier } _
    rw [hpush] at h₂
    obtain ⟨o, st₃, hcore₃, h₃⟩ := readsOnly_block_readVaruint.exists_of_bind_ok h₂
    obtain ⟨flags, rfl, h₄⟩ := exists_of_value_ok h₃
    obtain ⟨st₄, hcore₄, hmodify₄⟩ := modifyLast_bind_of_core (hcore₃.trans hcore₂)
      (fun record => { record with flags }) _
    rw [hmodify₄] at h₄
    split_ifs at h₄ with hflags
    · cases h₄
    · obtain ⟨o, st₅, hcore₅, h₅⟩ := readsOnly_readString.exists_of_bind_ok h₄
      obtain ⟨name, rfl, h₆⟩ := exists_of_value_ok h₅
      obtain ⟨st₆, hcore₆, hmodify₆⟩ := modifyLast_bind_of_core (hcore₅.trans hcore₄)
        (fun record => { record with name }) _
      rw [hmodify₆] at h₆
      obtain ⟨rawSchema, st₇, hcore₇, h₇⟩ := readsOnly_readRemaining.exists_of_bind_ok h₆
      obtain ⟨st₈, hcore₈, hmodify₈⟩ := modifyLast_bind_of_core (hcore₇.trans hcore₆)
        (fun record => { record with rawSchema }) _
      rw [hmodify₈] at h₇
      cases hparse : BinarySchemaParser.parse rawSchema name with
      | error e =>
        rw [hparse] at h₇
        cases h₇
      | ok root =>
        rw [hparse] at h₇
        dsimp only at h₇
        rw [modify_bind] at h₇
        obtain ⟨hr, rfl⟩ := Prod.mk.inj h₇
        obtain rfl := Except.ok.inj hr
        refine Or.inr ⟨rfl, rfl, ?_⟩
        let record : Record := { identifier, name, rawSchema, flags }
        show { st₈.core with
          idToRecord := st₈.core.idToRecord.insert identifier record
          nameToRecord := st₈.core.nameToRecord.insert name record } = _
        rw [hcore₈]
        rfl

/-- The records that a reader knows have the identifiers that it knows them by. -/
def Keyed (st : State) : Prop :=
  ∀ i record, st.idToRecord.get? i = some record → record.identifier = i

/-- A record of an index that is loaded, wherever it points, is a record of the reader. -/
theorem loadLocalRecord_ok {loc : LocalRecord} (h : loadLocalRecord file loc st = (.ok ⟨⟩, st'))
    (hst : Recorded st) (hkeyed : Keyed st) :
    Recorded st' ∧ Keyed st' ∧ (st'.idToRecord.get? loc.identifier).isSome = true ∧
      ∀ i, (st.idToRecord.get? i).isSome = true → (st'.idToRecord.get? i).isSome = true := by
  unfold loadLocalRecord at h
  obtain ⟨_, st₁, hcore₁, h₁⟩ := (readsOnly_seek _).exists_of_bind_ok h
  obtain ⟨o, st₂, hcore₂, h₂⟩ := (readsOnly_readHeader _).exists_of_bind_ok h₁
  obtain ⟨⟨_, size⟩, rfl, h₃⟩ := exists_of_value_ok h₂
  obtain ⟨st₄, h₄, hcore₄⟩ := exists_of_inScope_ok h₃
  obtain ⟨⟨record, filter⟩, st₅, hprocess, h₅⟩ := exists_of_bind_ok h₄
  dsimp only at h₅
  split_ifs at h₅ with hne
  · exact nomatch h₅
  · have hid : record.identifier = loc.identifier := not_not.mp hne
    obtain ⟨-, rfl⟩ := Prod.mk.inj h₅
    -- the streams apart, the reader is the one that has processed the schema
    have hids : st'.core.idToRecord = st₅.core.idToRecord := by rw [hcore₄]; rfl
    have hrecords : st'.core.records = st₅.core.records := by rw [hcore₄]; rfl
    have hcore : ({ st₂ with blockSize := streamsize size } : State).core = st.core :=
      hcore₂.trans hcore₁
    have hids₀ : ({ st₂ with blockSize := streamsize size } : State).core.idToRecord =
        st.idToRecord := by rw [hcore]; rfl
    obtain ⟨identifier, ⟨hget, hcore₅⟩ | ⟨hget, hidentifier, hcore₅⟩⟩ := processSchema_ok hprocess
    · rw [hcore₅, hcore] at hids hrecords
      rw [← core_idToRecord, hids₀] at hget
      have hids' : st'.idToRecord = st.idToRecord := hids
      refine ⟨hst.of_eq hrecords hids, ?_, ?_, ?_⟩
      · intro i
        rw [hids']
        exact hkeyed i
      · rw [hids', ← hid, hkeyed identifier record hget, hget]
        rfl
      · exact fun i => hids' ▸ id
    · rw [hcore₅, hcore] at hids hrecords
      rw [← core_idToRecord, hids₀] at hget
      have hids' : st'.idToRecord = st.idToRecord.insert record.identifier record := hids
      have hnew : st.core.idToRecord.get? record.identifier = none := hidentifier ▸ hget
      have hrecorded : Recorded st.core := hst
      refine ⟨(hrecorded.withRecord hnew).of_eq hrecords hids, ?_, ?_, ?_⟩
      · intro i record'
        rw [hids', SortedMap.get?_insert]
        split_ifs with hi
        · rintro ⟨⟩
          exact hi.symm
        · exact hkeyed i record'
      · rw [hids', SortedMap.get?_insert, if_pos hid.symm]
        rfl
      · intro i
        rw [hids', SortedMap.get?_insert]
        split_ifs
        · exact fun _ => rfl
        · exact id

/-- So it is with all of them. -/
theorem forM_loadLocalRecord_ok : ∀ {l : List LocalRecord} {st st' : State},
    l.forM (loadLocalRecord file) st = (.ok ⟨⟩, st') → Recorded st → Keyed st →
    Recorded st' ∧ Keyed st' ∧
      (∀ loc ∈ l, (st'.idToRecord.get? loc.identifier).isSome = true) ∧
      ∀ i, (st.idToRecord.get? i).isSome = true → (st'.idToRecord.get? i).isSome = true := by
  intro l
  induction l with
  | nil =>
    intro st st' h hst hkeyed
    obtain ⟨-, rfl⟩ := Prod.mk.inj h
    exact ⟨hst, hkeyed, nofun, fun _ => id⟩
  | cons loc l ih =>
    intro st st' h hst hkeyed
    obtain ⟨_, st₁, hload, hrest⟩ := exists_of_bind_ok h
    obtain ⟨hst₁, hkeyed₁, hloc, hkept₁⟩ := loadLocalRecord_ok hload hst hkeyed
    obtain ⟨hst', hkeyed', hl, hkept⟩ := ih hrest hst₁ hkeyed₁
    exact ⟨hst', hkeyed', List.forall_mem_cons.mpr ⟨hkept _ hloc, hl⟩, fun i hi => hkept i (hkept₁ i hi)⟩

/-! ### Both ways -/

/-- A scan tells of the schemas that come first, and of the last data. -/
theorem viaScan_eq (hlt : (image all).length < 2 ^ 63) (hreadable : ∀ b ∈ all, Readable b) :
    ∃ records, viaScan (image all) = .ok (records, lastWhere LogBlock.isData all) ∧
      ∀ record, record ∈ records ↔
        (schemasOf record.identifier all).head?.map (recordFrom record.identifier) = some record := by
  have hrecorded : Recorded (atStart.core.learnAll 9 all) := .learnAll all 9 recorded_atStart
  have hfinal : (atStart.core.learnAll 9 all).finalItem = lastWhere LogBlock.isData all := by
    have hle : -1 ≤ lastWhere LogBlock.isData all := by
      rcases lastWhere_cases LogBlock.isData all with ⟨hlast, _⟩ | ⟨_, _, _, _, _, hlast, _⟩ <;>
        omega
    rw [finalItem_learnAll]
    exact max_eq_right hle
  refine ⟨(atStart.core.learnAll 9 all).records, ?_, fun record => ?_⟩
  · rw [← hfinal]
    exact told_of_core hlt hreadable (openUnindexed_eq _) rfl
  · rw [hrecorded, get?_learnAll]
    exact Eq.congr_left (Option.none_or)

section

variable {s : FileWriter.State}

/-- The index is processed, but for a file that has nothing else. -/
theorem openFile_indexed (hall : all = blocks ++ [.index (indexBody s)])
    (hsmall : (indexBlock s).length < 2 ^ 32) (hne : blocks ≠ []) :
    ∃ st, Recorded st ∧ Keyed st ∧ st.idToRecord = ∅ ∧ st.crc = none ∧ st.finalItem = 0 ∧
      openFile (image all) {} = (do
        (s.schema.entries.map localRecord).forM (loadLocalRecord (image all))
        modify fun st => { st with hasIndex := true, allRecordsFound := true } : M PUnit) st := by
  have hsize : s.schema.size < 2 ^ 64 := by
    have := size_le_indexBlock s
    omega
  obtain ⟨st, hcore, hcrc, ⟨hnil, -⟩ | ⟨-, tail, hrest, hindex⟩⟩ :=
    maybeProcessIndex_cases hall hsmall
  · exact absurd hnil hne
  · have hrecords : st.core.records = [] := by rw [hcore]; rfl
    have hids : st.core.idToRecord = ∅ := by rw [hcore]; rfl
    refine ⟨{ st.advance s.indexRecords with finalItem := 0 }, recorded_atStart.of_eq hrecords hids,
      ?_, hids, ?_, rfl, ?_⟩
    · intro i record
      show st.core.idToRecord.get? i = some record → _
      rw [hids]
      exact nofun
    · show st.crc.map _ = none
      rw [hcrc]
      rfl
    · exact (openFile_of_header _).trans
        (hindex.trans (processIndex_of_rest hsize hrest hrecords))

/-- A file that has nothing but an index is read without it. -/
theorem viaIndex_of_nil (hall : all = [.index (indexBody s)])
    (hsmall : (indexBlock s).length < 2 ^ 32) (hlt : (image all).length < 2 ^ 63) :
    viaIndex (image all) = viaScan (image all) := by
  have hreadable : ∀ b ∈ all, Readable b := by
    rw [hall]
    exact List.forall_mem_singleton.mpr trivial
  obtain ⟨st, hcore, -, ⟨-, hindex⟩ | ⟨hne, -⟩⟩ :=
    maybeProcessIndex_cases (hall.trans (List.nil_append _).symm) hsmall
  · exact (told_of_core hlt hreadable ((openFile_of_header _).trans hindex) hcore).trans
      (told_of_core hlt hreadable (openUnindexed_eq _) rfl).symm
  · exact absurd rfl hne

/-- **An index that points at schemas** tells of them, and of the last of its positions. -/
theorem viaIndex_eq (hall : all = blocks ++ [.index (indexBody s)])
    (hlt : (image all).length < 2 ^ 63) (hreadable : ∀ b ∈ all, Readable b)
    (hsmall : (indexBlock s).length < 2 ^ 32) (hne : blocks ≠ [])
    (hpoints : ∀ x ∈ s.schema.entries, PointsAt all x) :
    ∃ records, viaIndex (image all) = .ok (records,
        (s.schema.entries.map fun x => (localRecord x).finalRecord).foldl max 0) ∧
      ∀ record, record ∈ records ↔ (s.schema.get? record.identifier).map
        (fun x => schemaRecord record.identifier x.name x.schema) = some record := by
  obtain ⟨st, hrecorded, hkeyed, hids, hcrc, hfinal, hopen⟩ := openFile_indexed hall hsmall hne
  obtain ⟨st', hload, hrecorded', hget, hfinal'⟩ :=
    forM_loadLocalRecord_of_blocks hlt hreadable hpoints hrecorded hkeyed hcrc
  rw [bind_ok hload] at hopen
  have hopen' : openFile (image all) {} =
    (.ok ⟨⟩, { st' with hasIndex := true, allRecordsFound := true }) := hopen
  refine ⟨st'.records, ?_, fun record => ?_⟩
  · have htold := @told_of_found (image all) _ _ hopen' rfl
    rw [← hfinal, ← hfinal']
    exact htold
  · rw [hrecorded' record, hget, hids]
    refine Eq.congr_left ((Option.none_or).trans ?_)
    rw [SortedMap.get?, Option.map_map]
    rfl

/-- All identifiers of an index that is read well are those of records. -/
theorem viaIndex_ok (hall : all = blocks ++ [.index (indexBody s)])
    (hsmall : (indexBlock s).length < 2 ^ 32) (hne : blocks ≠ []) {a : List Record × ℤ}
    (h : viaIndex (image all) = .ok a) {identifier : UInt64}
    (hmem : (s.schema.get? identifier).isSome = true) :
    ∃ record ∈ a.1, record.identifier = identifier := by
  obtain ⟨st, hrecorded, hkeyed, -, -, -, hopen⟩ := openFile_indexed hall hsmall hne
  obtain ⟨record, hget⟩ := Option.isSome_iff_exists.mp hmem
  have hentry := SortedMap.get?_eq_some_iff.mp hget
  rcases hload : (s.schema.entries.map localRecord).forM (loadLocalRecord (image all)) st with
    ⟨result, st'⟩
  cases result with
  | error e =>
    -- the file would not be opened
    rw [bind_error hload] at hopen
    unfold viaIndex told at h
    rw [bind_error hopen] at h
    exact nomatch h
  | ok =>
    obtain ⟨hrecorded', hkeyed', hknown, -⟩ := forM_loadLocalRecord_ok hload hrecorded hkeyed
    rw [bind_ok hload] at hopen
    have hopen' : openFile (image all) {} =
      (.ok ⟨⟩, { st' with hasIndex := true, allRecordsFound := true }) := hopen
    have htold := @told_of_found (image all) _ _ hopen' rfl
    obtain rfl := Except.ok.inj (h.symm.trans htold)
    obtain ⟨record', hget'⟩ := Option.isSome_iff_exists.mp
      (hknown (localRecord (identifier, record)) (List.mem_map_of_mem hentry))
    have hid : record'.identifier = identifier := hkeyed' _ _ hget'
    exact ⟨record', (hrecorded' record').mpr (hid ▸ hget'), hid⟩

end

end Mjlib.Telemetry.FileReader
