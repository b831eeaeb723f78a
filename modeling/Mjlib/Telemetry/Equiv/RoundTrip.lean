import Mjlib.Telemetry.Equiv.FileReader.Open

/-!
# Log files round trip

What `FileWriter` writes to a log file, `FileReader` finds in it: the items, in order, each with its
record's name, its time and its data (`items_of_run`).  The names have to be short enough for
`ReadString`, which asserts that they are, and the index has to be short enough for the 32 bits of
its trailing size.
-/

namespace Mjlib.Telemetry

open Base FileWriter

/-- The writer of a file that was just opened. -/
def opened : FileWriter.State :=
  { writer := some ⟨[FileWriter.State.fileHeader], by decide⟩ }

/-- The contents of the files that a writer has closed. -/
def closedFile (s : FileWriter.State) : Bytes := s.closed.flatten.flatten

variable {platform : Platform} {options : FileWriter.Options}

theorem step_openFile : FileWriter.step platform options {} .openFile = some opened := rfl

theorem logs_opened (rawUncompress : FileReader.RawUncompress) : Logs rawUncompress opened [] := by
  refine ⟨⟨_, rfl, rfl⟩, rfl, nofun, nofun, ?_⟩
  intro before fields stored after h
  exact absurd h (by simp)

theorem positions_opened : Positions opened [] := by
  refine ⟨nofun, fun before body after h => ?_⟩
  exact absurd h (by simp)

/-- Closing appends the index, if there is to be one. -/
theorem close_eq_some {s s' : FileWriter.State} {rawUncompress : FileReader.RawUncompress}
    {blocks : List LogBlock} (h : Logs rawUncompress s blocks) (hstep : s.close options = some s') :
    ∃ all, all = blocks ++ (if options.indexBlock then [.index (indexBody s)] else []) ∧
      closedFile s' = image all ∧ ValidLog rawUncompress all ∧ s'.schema = s.schema ∧
      s'.reverseIdentifierMap = s.reverseIdentifierMap := by
  obtain ⟨writer, hw, hfile⟩ := h.writer
  unfold State.close at hstep
  rw [hw] at hstep
  dsimp only at hstep
  split_ifs at hstep with hindex
  · obtain ⟨s₁, hwrite, hstep⟩ := Option.bind_eq_some_iff.mp hstep
    cases hstep
    have happ := writeIndex_eq_some hwrite
    obtain ⟨h₁, _⟩ := @Logs.concat_of_other rawUncompress s s₁ blocks (.index (indexBody s)) h happ
      (by simp [LogBlock.blockType]) (by simp [LogBlock.blockType])
    obtain ⟨writer₁, hw₁, hfile₁⟩ := h₁.writer
    unfold Appends at happ
    rw [hw] at happ
    obtain ⟨_, _, rfl⟩ := happ
    cases hw₁
    refine ⟨_, rfl, ?_, ?_, rfl, rfl⟩
    · rw [if_pos hindex, ← hfile₁]
      unfold closedFile
      dsimp only
      rw [h.closed]
      simp
    · rw [if_pos hindex]
      exact h₁.validLog
  · cases hstep
    refine ⟨_, rfl, ?_, ?_, rfl, rfl⟩
    · rw [if_neg hindex, List.append_nil, ← hfile]
      unfold closedFile
      dsimp only
      rw [h.closed, hw]
      simp
    · rw [if_neg hindex, List.append_nil]
      exact h.validLog

/-- The index is about the records. -/
theorem indexBody_congr {s s' : FileWriter.State} (h : s'.schema = s.schema) :
    indexBody s' = indexBody s := by
  unfold indexBody State.indexRecords
  rw [h]

/-- The record of a data block's identifier has the name that the writer has for it. -/
theorem name_recordFor {rawUncompress : FileReader.RawUncompress} {s : FileWriter.State}
    {blocks all : List LogBlock} (h : Logs rawUncompress s blocks)
    (hvalid : ValidLog rawUncompress all) (hsub : ∀ b ∈ blocks, b ∈ all)
    {x : UInt64 × Ptime × Bytes} (hx : x ∈ dataOf rawUncompress blocks) :
    s.reverseIdentifierMap.get? x.1 = some (recordFor all x.1).name := by
  obtain ⟨b, hb, hx⟩ := List.mem_filterMap.mp hx
  cases b with
  | data fields stored =>
    obtain rfl := Option.some.inj hx
    obtain ⟨before, after, hsplit⟩ := List.append_of_mem hb
    obtain ⟨record, hrecord, hid⟩ := (h.data before fields stored after hsplit).1
    obtain ⟨identifier, name, rawSchema, hmem, rfl⟩ := mem_recordsOf.mp hrecord
    obtain rfl : identifier = fields.identifier := hid
    have hmem' : .schema fields.identifier name rawSchema ∈ blocks := by
      rw [hsplit]
      exact List.mem_append_left _ hmem
    obtain ⟨⟨r, hget, rfl, rfl⟩, _⟩ := h.known _ _ _ hmem'
    have hname := (h.schema _ _ hget).1
    have hfor := hvalid.recordFor_eq (mem_recordsOf.mpr ⟨_, _, _, hsub _ hmem', rfl⟩)
    dsimp only at hfor ⊢
    rw [hname]
    exact congrArg (fun record => some record.name) hfor.symm
  | _ => cases hx

/-- The file of a writer that was opened, given calls and closed, as a log. -/
structure ClosedLog (rawUncompress : FileReader.RawUncompress) (options : FileWriter.Options)
    (calls : List Call) (s : FileWriter.State) (all : List LogBlock) : Prop where
  file : closedFile s = image all
  valid : ValidLog rawUncompress all
  markers : MarkersRight all
  data : dataOf rawUncompress all = calls.filterMap (written options)
  name : ∀ x ∈ dataOf rawUncompress all,
    s.reverseIdentifierMap.get? x.1 = some (recordFor all x.1).name
  opens : (options.indexBlock = true → (indexBlock s).length < 2 ^ 32) →
    (options.indexBlock = false → ¬Format.kIndexTrailer <:+ image all) →
    ∃ st, FileReader.openFile (image all) {} = (.ok ⟨⟩, st) ∧ FileReader.Opened all st

/-- A run of well-formed calls leaves a log, with the records that the writer has. -/
theorem logs_of_run {rawUncompress : FileReader.RawUncompress} {calls : List Call}
    {s : FileWriter.State} (hsnappy : ∀ data, rawUncompress (platform.rawCompress data) = some data)
    (hrun : Run.run (FileWriter.step platform options) {} (.openFile :: (calls ++ [.close])) = some s)
    (hcalls : Run.Guarded (FileWriter.step platform options)
      (fun s call => WellFormed s call ∧ ShortName s call) opened calls) :
    ∃ all s₁ blocks, ClosedLog rawUncompress options calls s all ∧
      Run.run (FileWriter.step platform options) opened calls = some s₁ ∧
      Logs rawUncompress s₁ blocks ∧ recordsOf all = recordsOf blocks := by
  obtain ⟨_, ⟨⟩, hrun⟩ := (Run.run_cons_eq_some _).mp hrun
  obtain ⟨s₁, hrun, hclose⟩ := (Run.run_append_eq_some _).mp hrun
  obtain ⟨_, hclose, ⟨⟩⟩ := (Run.run_cons_eq_some _).mp hclose
  obtain ⟨blocks, hlogs, hpositions, hwritten⟩ := positions_run hsnappy (logs_opened rawUncompress)
    positions_opened hcalls hrun
  rw [List.nil_append] at hlogs hpositions
  obtain ⟨all, hall, hfile, hvalid, hschema, hnames⟩ := close_eq_some hlogs hclose
  have hdata : dataOf rawUncompress all = dataOf rawUncompress blocks := by
    rw [hall, dataOf_append]
    split_ifs <;> exact List.append_nil _
  have hrecords : recordsOf all = recordsOf blocks := by
    rw [hall, recordsOf_append]
    split_ifs <;> exact List.append_nil _
  refine ⟨all, s₁, blocks, ⟨hfile, hvalid, ?_, hdata.trans hwritten, fun x hx => ?_,
    fun hindex hnone => ?_⟩, hrun, hlogs, hrecords⟩
  · rw [hall]
    split_ifs
    · exact hpositions.markers.concat nofun
    · exact (List.append_nil blocks).symm ▸ hpositions.markers
  · rw [hdata] at hx
    rw [hnames]
    refine name_recordFor hlogs hvalid (fun b hb => ?_) hx
    rw [hall]
    exact List.mem_append_left _ hb
  · cases hblock : options.indexBlock with
    | false => exact FileReader.openFile_eq all (hnone hblock)
    | true =>
      rw [hblock, if_pos rfl] at hall
      refine FileReader.openFile_index hlogs hpositions hall hvalid ?_
      have := hindex hblock
      rwa [indexBlock, indexBody_congr hschema] at this

/-- A run of well-formed calls leaves a log. -/
theorem closedLog_of_run {rawUncompress : FileReader.RawUncompress} {calls : List Call}
    {s : FileWriter.State} (hsnappy : ∀ data, rawUncompress (platform.rawCompress data) = some data)
    (hrun : Run.run (FileWriter.step platform options) {} (.openFile :: (calls ++ [.close])) = some s)
    (hcalls : Run.Guarded (FileWriter.step platform options)
      (fun s call => WellFormed s call ∧ ShortName s call) opened calls) :
    ∃ all, ClosedLog rawUncompress options calls s all := by
  obtain ⟨all, _, _, hclosed, -⟩ := logs_of_run hsnappy hrun hcalls
  exact ⟨all, hclosed⟩

/-- **Log files round trip.** -/
theorem items_of_run {readerOptions : FileReader.Options}
    {rawUncompress : FileReader.RawUncompress} {calls : List Call} {s : FileWriter.State}
    (hsnappy : ∀ data, rawUncompress (platform.rawCompress data) = some data)
    (hrun : Run.run (FileWriter.step platform options) {} (.openFile :: (calls ++ [.close])) = some s)
    (hcalls : Run.Guarded (FileWriter.step platform options)
      (fun s call => WellFormed s call ∧ ShortName s call) opened calls)
    (hindex : options.indexBlock = true → (indexBlock s).length < 2 ^ 32)
    (hnone : options.indexBlock = false → ¬Format.kIndexTrailer <:+ closedFile s) :
    ∃ items st, (do
        FileReader.openFile (closedFile s)
        FileReader.items (closedFile s) readerOptions rawUncompress {} : FileReader.M _) {} =
          (.ok items, st) ∧
      items.map (fun i => (some i.record.name, i.timestamp, i.data)) =
        (calls.filterMap (written options)).map fun x => (s.reverseIdentifierMap.get? x.1, x.2) := by
  obtain ⟨all, h⟩ := closedLog_of_run hsnappy hrun hcalls
  rw [h.file] at hnone ⊢
  obtain ⟨st, hopen, hopened⟩ := h.opens hindex hnone
  obtain ⟨st', hitems⟩ := FileReader.items_eq readerOptions h.valid hopened.knows hopened.start
  refine ⟨_, st', (FileReader.bind_ok hopen).trans hitems, ?_⟩
  rw [map_itemsFrom (fun record timestamp data => (some record.name, timestamp, data)), ← h.data]
  exact List.map_congr_left fun x hx => by rw [h.name x hx]

/-- A file with one schema and one data block reads back as that data. -/
theorem items_of_run_one : ∃ s, Run.run (FileWriter.step ⟨id, 0⟩ { indexBlock := false }) {}
      [.openFile, .allocateIdentifier [0x61], .writeSchema 1 [0x02],
        .writeData (.finite 5 (by decide)) 1 [0x01] {} .notADateTime, .close] = some s ∧
    ∃ items st, (do
        FileReader.openFile (closedFile s)
        FileReader.items (closedFile s) {} some {} : FileReader.M _) {} = (.ok items, st) ∧
      items.map (fun i => (some i.record.name, i.timestamp, i.data)) =
        [(some [0x61], .finite 5 (by decide), [0x01])] := by
  let calls : List Call := [.allocateIdentifier [0x61], .writeSchema 1 [0x02],
    .writeData (.finite 5 (by decide)) 1 [0x01] {} .notADateTime]
  let final := Run.run (FileWriter.step ⟨id, 0⟩ { indexBlock := false }) {}
    (.openFile :: (calls ++ [.close]))
  have hfinal : final.map (fun s => (s.reverseIdentifierMap.get? 1,
      decide (Format.kIndexTrailer <:+ closedFile s))) = some (some [0x61], false) := by
    decide +kernel
  obtain ⟨s, hrun, hs⟩ := Option.map_eq_some_iff.mp hfinal
  obtain ⟨hname, hnone⟩ := Prod.mk.inj hs
  obtain ⟨items, st, hread, hitems⟩ := items_of_run (fun _ => rfl) hrun
    (by decide +kernel : Run.Guarded _ _ opened calls) nofun (fun _ => of_decide_eq_false hnone)
  refine ⟨s, hrun, items, st, hread, hitems.trans ?_⟩
  show [(s.reverseIdentifierMap.get? 1, _)] = _
  rw [hname]
  rfl

/-! ### Long names -/

namespace FileReader

/-- A name that is too long fails the assertion of `ReadString`. -/
theorem Block.readString_of_long {file name s : Bytes} {st : State}
    (h : rest file st = writeString name ++ s) (hlong : Format.kMaxStringSize < name.length)
    (hlt : name.length < 2 ^ 64) (hle : ((writeString name).length : ℤ) ≤ st.blockSize) :
    ∃ st', readString file st = (.error .assertion, st') := by
  have hsize : (UInt64.ofNat name.length).toNat = name.length := by
    rw [UInt64.toNat_ofNat', Nat.mod_eq_of_lt hlt]
  unfold writeString at h hle
  rw [List.append_assoc] at h
  rw [List.length_append, Nat.cast_add] at hle
  unfold readString
  rw [bind_ok (readVaruint_of_rest h (by omega))]
  dsimp only
  rw [hsize, if_pos hlong]
  exact ⟨_, rfl⟩

/-- A schema with such a name is not processed. -/
theorem processSchema_of_long {file name schema s : Bytes} {st : State} {identifier : UInt64}
    (filter : Filter) (h : rest file st = schemaBody identifier name schema ++ s)
    (hsize : st.blockSize = (schemaBody identifier name schema).length)
    (hnew : st.idToRecord.get? identifier = none) (hlong : Format.kMaxStringSize < name.length)
    (hlt : name.length < 2 ^ 64) :
    ∃ st', processSchema file filter st = (.error .assertion, st') := by
  unfold schemaBody at h hsize
  simp only [List.append_assoc] at h
  simp only [List.length_append, Nat.cast_add] at hsize
  have h₁ := rest_eat h
  have h₂ := rest_eat h₁
  unfold processSchema
  rw [bind_ok (Block.readVaruint_of_rest h (by omega)), value_some_bind, get_bind, idToRecord_eat,
    hnew]
  dsimp only
  rw [push_bind, bind_ok (Block.readVaruint_of_rest ((rest_withRecords _).trans h₁)
      (by show _ ≤ (st.eat _).blockSize; rw [blockSize_eat]; omega)),
    value_some_bind, eat_withRecords, modifyLast_bind, if_neg (by simp)]
  have hread := fun records => Block.readString_of_long ((rest_withRecords records).trans h₂) hlong
    hlt (by show _ ≤ ((st.eat _).eat _).blockSize; simp only [blockSize_eat]; omega)
  exact (hread _).imp fun st' h => bind_error h

/-- Nothing is read from a log that starts with it. -/
theorem items_of_long {name schema : Bytes} {identifier : UInt64} {st : State} (options : Options)
    (rawUncompress : RawUncompress) (hstart : st.start = (image []).length)
    (hnew : st.idToRecord.get? identifier = none) (hlong : Format.kMaxStringSize < name.length)
    (hlt : (image [.schema identifier name schema]).length < 2 ^ 63) :
    ∃ st', items (image [.schema identifier name schema]) options rawUncompress {} st =
      (.error .assertion, st') := by
  let b : LogBlock := .schema identifier name schema
  have hlt : (image [b]).length < 2 ^ 63 := hlt
  let st₁ : State := { st with pos := (image []).length, crc := none }
  have hrest : rest (image [b]) st₁ = b.encode ++ [] := @rest_of_pos _ [] [] _ _ rfl rfl
  have hbody : rest (image [b]) (atBody st₁ b) = b.body ++ [] := rest_atBody hrest
  have hlen : name.length ≤ b.body.length ∧ b.body.length ≤ (image [b]).length := by
    rw [image, List.length_append, List.flatMap_singleton, LogBlock.encode, block_eq,
      List.length_append]
    simp only [b, LogBlock.body, schemaBody, writeString, List.length_append]
    omega
  have hsize : streamsize (UInt64.ofNat b.body.length) = b.body.length :=
    Block.streamsize_ofNat (lt_of_le_of_lt hlen.2 hlt)
  -- the first block ends the reading
  obtain ⟨st', hprocess⟩ := processSchema_of_long (unfiltered {}) hbody rfl hnew hlong (by omega)
  have hscope : Block.inScope (image [b]) (UInt64.ofNat b.body.length)
      (processBlock (image [b]) (image []).length b.blockType (unfiltered {}))
      (st₁.advance (blockHead b.blockType b.body.length)) = (.error .assertion, st') := by
    refine Block.inScope_of_assertion ?_
    rw [hsize]
    exact bind_error hprocess
  have hloop : readUntil (image [b]) (image []).length (unfiltered {}) st = (.error .assertion, st') := by
    unfold readUntil
    rw [bind_ok (seek_of_nonneg (Int.natCast_nonneg _)), modify_bind, Int.toNat_natCast]
    show readUntilLoop (image [b]) ((image [b]).length + 1) (unfiltered {}) st₁ = _
    rw [readUntilLoop, get_bind, bind_ok (readHeader_of_rest true hrest)]
    exact bind_error hscope
  refine ⟨st', ?_⟩
  unfold items
  rw [get_bind]
  dsimp only
  rw [if_pos (by decide), hstart]
  exact bind_error hloop

end FileReader

/-- A file with one schema and no index. -/
theorem run_schema {name : Bytes} (hlt : (image [.schema 1 name [1]]).length < 2 ^ 63) :
    ∃ s, Run.run (FileWriter.step ⟨id, 0⟩ { indexBlock := false }) {}
        (.openFile :: ([.allocateIdentifier name, .writeSchema 1 [1]] ++ [.close])) = some s ∧
      Run.Guarded (FileWriter.step ⟨id, 0⟩ { indexBlock := false }) WellFormed opened
        [.allocateIdentifier name, .writeSchema 1 [1]] ∧
      closedFile s = image [.schema 1 name [1]] := by
  rw [image, List.flatMap_singleton, List.length_append] at hlt
  let writer₀ : ThreadWriter := ⟨[FileWriter.State.fileHeader], by decide⟩
  obtain ⟨writer, hwrite⟩ : ∃ writer,
      writer₀.write (LogBlock.encode (.schema 1 name [1])) = some writer :=
    ThreadWriter.exists_write hlt
  let s₁ : FileWriter.State := { opened with
    nextId := 2
    identifierMap := opened.identifierMap.insert name 1
    reverseIdentifierMap := opened.reverseIdentifierMap.insert 1 name }
  have hallocate : FileWriter.step ⟨id, 0⟩ { indexBlock := false } opened
      (.allocateIdentifier name) = some s₁ := rfl
  have hname : s₁.reverseIdentifierMap.get? 1 = some name := SortedMap.get?_insert_self ..
  have hschema : FileWriter.step ⟨id, 0⟩ { indexBlock := false } s₁ (.writeSchema 1 [1]) =
      some { s₁.withSchema 1 name [1] with writer := some writer } := by
    show s₁.writeSchema 1 [1] = _
    unfold State.writeSchema
    rw [hname]
    show (s₁.withSchema 1 name [1]).write _ = _
    unfold State.write
    rw [view_getBuffer_write]
    show Option.map _ (ThreadWriter.write _ (LogBlock.encode (.schema 1 name [1]))) = _
    rw [hwrite]
    rfl
  refine ⟨{ s₁.withSchema 1 name [1] with
    writer := none, lastSeekBlock := .notADateTime, closed := [writer.buffers] }, ?_, ?_, ?_⟩
  · rw [Run.run_cons, step_openFile, Option.bind_some, List.cons_append, Run.run_cons, hallocate,
      Option.bind_some, List.cons_append, Run.run_cons, hschema, Option.bind_some]
    rfl
  · refine Run.guarded_cons_of_eq hallocate trivial (Run.guarded_cons_of_eq hschema ?_ trivial)
    exact ⟨rfl, fun name' _ => ⟨_, rfl⟩⟩
  · show [writer.buffers].flatten.flatten = _
    rw [ThreadWriter.write_eq_some hwrite, image, List.flatMap_singleton]
    show [[FileWriter.State.fileHeader] ++ [_]].flatten.flatten = _
    rw [List.flatten_singleton, List.flatten_append, List.flatten_singleton,
      List.flatten_singleton]

/-- The file of a schema is not much longer than its name. -/
theorem length_image_schema_lt {name : Bytes} (h : name.length ≤ 2 ^ 32) :
    (image [.schema 1 name [1]]).length < 2 ^ 63 := by
  have hsize : ∀ v, (writeVaruint v).length ≤ 10 := fun v =>
    (length_writeVaruint v).trans_le (getVaruintSize_le v)
  have hbody : (FileReader.schemaBody 1 name [1]).length ≤ 2 ^ 32 + 32 := by
    have h₁ := hsize 1
    have h₂ := hsize 0
    have h₃ := hsize (UInt64.ofNat name.length)
    unfold FileReader.schemaBody writeString
    simp only [List.length_append, List.length_singleton]
    omega
  have h₁ := hsize (UInt64.ofNat (FileReader.schemaBody 1 name [1]).length)
  have h₂ := length_writeVaruint_blockType .kSchema
  rw [image, List.length_append, FileReader.length_fileHeader, List.flatMap_singleton,
    LogBlock.encode, block]
  simp only [List.length_append, LogBlock.body, LogBlock.blockType]
  omega

/-- Without a bound on the names, nothing may be read. -/
theorem not_items_of_run : ¬∀ (platform : Platform) (options : FileWriter.Options)
    (readerOptions : FileReader.Options) (rawUncompress : FileReader.RawUncompress)
    (calls : List Call) (s : FileWriter.State),
    (∀ data, rawUncompress (platform.rawCompress data) = some data) →
    Run.run (FileWriter.step platform options) {} (.openFile :: (calls ++ [.close])) = some s →
    Run.Guarded (FileWriter.step platform options) WellFormed opened calls →
    (options.indexBlock = false → ¬Format.kIndexTrailer <:+ closedFile s) →
    ∃ items st, (do
        FileReader.openFile (closedFile s)
        FileReader.items (closedFile s) readerOptions rawUncompress {} : FileReader.M _) {} =
          (.ok items, st) ∧
      items.map (fun i => (some i.record.name, i.timestamp, i.data)) =
        (calls.filterMap (written options)).map fun x =>
          (s.reverseIdentifierMap.get? x.1, x.2) := by
  intro h
  obtain ⟨name, hname⟩ : ∃ name : Bytes, name.length = 2 ^ 24 + 1 :=
    ⟨List.replicate _ 0x61, List.length_replicate ..⟩
  have hlt : (image [.schema 1 name [1]]).length < 2 ^ 63 :=
    length_image_schema_lt (by rw [hname]; decide)
  obtain ⟨s, hrun, hguarded, hfile⟩ := run_schema hlt
  have hlast : ¬Format.kIndexTrailer <:+ image [.schema 1 name [1]] := by
    obtain ⟨front, hfront⟩ : ∃ front, image [.schema 1 name [1]] = front ++ [1] := by
      rw [image, List.flatMap_singleton, LogBlock.encode, FileReader.block_eq]
      simp only [LogBlock.body, FileReader.schemaBody, ← List.append_assoc]
      exact ⟨_, rfl⟩
    rintro ⟨t, ht⟩
    have := congrArg List.getLast? (ht.trans hfront)
    rw [List.getLast?_concat, List.getLast?_append] at this
    cases this
  obtain ⟨st, hopen, hcore⟩ := FileReader.openFile_of_not_suffix hlast
  have hnew : st.idToRecord.get? 1 = none := by
    have hmap : st.idToRecord = ∅ := congrArg FileReader.State.idToRecord hcore
    rw [hmap]
    rfl
  have hstart : st.start = (image []).length := congrArg FileReader.State.start hcore
  obtain ⟨st', hread⟩ :=
    FileReader.items_of_long {} some hstart hnew (by rw [hname]; decide) hlt
  obtain ⟨items, st'', hok, -⟩ := h ⟨id, 0⟩ { indexBlock := false } {} some _ s (fun _ => rfl) hrun
    hguarded (fun _ => hfile ▸ hlast)
  have hopen' : FileReader.openFile (image [.schema 1 name [1]]) {} = (.ok ⟨⟩, st) := hopen
  rw [hfile, FileReader.bind_ok hopen', hread] at hok
  cases hok

end Mjlib.Telemetry
