import Mjlib.Telemetry.Equiv.FileReader.Filtered

/-!
# The names of a log

A writer has one identifier for each name, and one name for each identifier (`NamesAgree`), so the
names of the log that it leaves tell the records apart (`namesUnique_of_run`).
-/

namespace Mjlib.Telemetry

open Base FileWriter FileReader

variable {rawUncompress : RawUncompress} {platform : Platform} {options : FileWriter.Options}
  {s s' : FileWriter.State} {blocks : List LogBlock}

/-- A name is that of its identifier only. -/
def NamesAgree (s : FileWriter.State) : Prop :=
  ∀ identifier name, s.reverseIdentifierMap.get? identifier = some name →
    s.identifierMap.get? name = some identifier

theorem NamesAgree.of_eq (h : NamesAgree s) (hmap : s'.identifierMap = s.identifierMap)
    (hreverse : s'.reverseIdentifierMap = s.reverseIdentifierMap) : NamesAgree s' := by
  unfold NamesAgree
  rw [hmap, hreverse]
  exact h

/-- A new name gets an identifier. -/
theorem NamesAgree.insert (h : NamesAgree s) {recordName : Bytes} {identifier : UInt64}
    (hnew : s.identifierMap.get? recordName = none)
    (hmap : s'.identifierMap = s.identifierMap.insert recordName identifier)
    (hreverse : s'.reverseIdentifierMap = s.reverseIdentifierMap.insert identifier recordName) :
    NamesAgree s' := by
  intro i name hget
  rw [hreverse, SortedMap.get?_insert] at hget
  rw [hmap, SortedMap.get?_insert]
  split_ifs at hget with hi
  · obtain rfl := Option.some.inj hget
    rw [if_pos rfl, hi]
  · have hold := h i name hget
    rw [if_neg]
    · exact hold
    · rintro rfl
      rw [hnew] at hold
      cases hold

theorem NamesAgree.appends (h : NamesAgree s) {buffers : List Bytes}
    (happ : Appends s buffers s') : NamesAgree s' := by
  unfold Appends at happ
  cases hw : s.writer with
  | none =>
    rw [hw] at happ
    exact happ ▸ h
  | some writer =>
    rw [hw] at happ
    obtain ⟨_, -, rfl⟩ := happ
    exact h.of_eq rfl rfl

/-- **Every call keeps this.** -/
theorem NamesAgree.step {call : FileWriter.Call} (h : NamesAgree s)
    (hlogs : Logs rawUncompress s blocks) (hcall : WellFormed s call)
    (hstep : FileWriter.step platform options s call = some s') : NamesAgree s' := by
  cases call with
  | openFile => exact absurd hcall not_false
  | close => exact absurd hcall not_false
  | allocateIdentifier recordName =>
    obtain ⟨⟨_, _⟩, hallocate, rfl⟩ := Option.map_eq_some_iff.mp hstep
    unfold State.allocateIdentifier at hallocate
    split at hallocate
    · cases hallocate
      exact h
    · rename_i hnew
      obtain ⟨result, -, hallocate⟩ := Option.bind_eq_some_iff.mp hallocate
      cases hallocate
      exact h.insert hnew rfl rfl
  | reserveIdentifier recordName identifier =>
    obtain ⟨⟨_, _⟩, hreserve, rfl⟩ := Option.map_eq_some_iff.mp hstep
    unfold State.reserveIdentifier at hreserve
    split at hreserve
    · split_ifs at hreserve
      cases hreserve
      exact h
    · rename_i hnew
      split_ifs at hreserve
      · cases hreserve
        exact h
      · cases hreserve
        exact h.insert hnew rfl rfl
  | writeSchema identifier schema =>
    obtain ⟨name, -, happ⟩ := writeSchema_eq_some hstep
    exact (h.of_eq rfl rfl : NamesAgree (s.withSchema identifier name schema)).appends happ
  | writeData timestamp identifier serializedData writeFlags now =>
    obtain ⟨writer, hw, -⟩ := hlogs.writer
    obtain ⟨_, -, s₁, happ, hseek⟩ := writeData_eq_some hw hstep
    have h₁ : NamesAgree s₁ :=
      (h.of_eq rfl rfl : NamesAgree (s.withPosition platform identifier writer.position)).appends
        happ
    obtain ⟨writer₁, hw₁⟩ := happ.exists_writer hw
    obtain ⟨lastSeekBlock, markers, -, happ'⟩ := maybeWriteSeekBlock_eq_some hw₁ hseek
    exact (h₁.of_eq rfl rfl : NamesAgree { s₁ with lastSeekBlock }).appends happ'

theorem namesAgree_run {calls : List FileWriter.Call}
    (hsnappy : ∀ data, rawUncompress (platform.rawCompress data) = some data)
    (hrun : Run.run (FileWriter.step platform options) opened calls = some s)
    (hcalls : Run.Guarded (FileWriter.step platform options)
      (fun s call => WellFormed s call ∧ ShortName s call) opened calls) : NamesAgree s := by
  have h := Run.run_induction_of_guarded
    (I := fun s => (∃ blocks, Logs rawUncompress s blocks) ∧ NamesAgree s)
    (fun s call s' ⟨⟨blocks, hlogs⟩, hagree⟩ hcall hstep => by
      obtain ⟨more, hlogs', -⟩ := hlogs.step hsnappy hcall hstep
      exact ⟨⟨_, hlogs'⟩, hagree.step hlogs hcall.1 hstep⟩)
    ⟨⟨[], logs_opened rawUncompress⟩, nofun⟩ hcalls hrun
  exact h.2

/-- The records of a log have different names. -/
theorem namesUnique_of_logs {all : List LogBlock} (hlogs : Logs rawUncompress s blocks)
    (hagree : NamesAgree s) (hvalid : ValidLog rawUncompress all)
    (hrecords : recordsOf all = recordsOf blocks) : NamesUnique all := by
  have hname : ∀ record ∈ recordsOf all,
      s.reverseIdentifierMap.get? record.identifier = some record.name := by
    intro record hrecord
    rw [hrecords] at hrecord
    obtain ⟨identifier, name, rawSchema, hmem, rfl⟩ := mem_recordsOf.mp hrecord
    obtain ⟨⟨r, hget, rfl, -⟩, -⟩ := hlogs.known identifier name rawSchema hmem
    exact (hlogs.schema identifier r hget).1
  intro record hrecord record' hrecord' heq
  refine hvalid.unique record hrecord record' hrecord' ?_
  have hid := hagree _ _ (hname record hrecord)
  rw [heq, hagree _ _ (hname record' hrecord')] at hid
  exact (Option.some.inj hid).symm

/-- **A run of well-formed calls leaves a log whose names tell the records apart.** -/
theorem namesUnique_of_run {calls : List FileWriter.Call}
    (hsnappy : ∀ data, rawUncompress (platform.rawCompress data) = some data)
    (hrun : Run.run (FileWriter.step platform options) {} (.openFile :: (calls ++ [.close])) =
      some s)
    (hcalls : Run.Guarded (FileWriter.step platform options)
      (fun s call => WellFormed s call ∧ ShortName s call) opened calls) :
    ∃ all, ClosedLog rawUncompress options calls s all ∧ NamesUnique all := by
  obtain ⟨all, s₁, blocks, hclosed, hrun₁, hlogs, hrecords⟩ := logs_of_run hsnappy hrun hcalls
  exact ⟨all, hclosed, namesUnique_of_logs hlogs (namesAgree_run hsnappy hrun₁ hcalls) hclosed.valid
    hrecords⟩

end Mjlib.Telemetry
