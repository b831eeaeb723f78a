import Mathlib
import Mjlib.Base.Equiv.Json5WriteArchive.Codecs
import Mjlib.Base.Equiv.Json5WriteArchive.Standard

/-!
# Are values read as they were written?

`reads_of_isCodec`: every text that `Json5WriteArchive` makes of a value of any type is read by
`Json5ReadArchive` up to its end, whatever the target was before and with any indentation;
`reads_eq_of_isCodec` says for which targets the result is the value that was written.  With the
option `standard`, the text is JSON (`isValue_of_isCodec`).
-/

namespace Mjlib.Base.Json5WriteArchive

open Json5ReadArchive

variable {α : Type} {s : State} {rest : Bytes} {permissiveNan standard : Bool}

/-! ### Round trips -/

/-- The codecs of the archives are correct. -/
theorem IsCodec.correct {codec : Codec α} (h : IsCodec permissiveNan standard codec) :
    codec.Correct standard := by
  induction h with
  | bool => exact Codec.correct_bool standard
  | integer t => exact Codec.correct_integer standard permissiveNan t
  | float F formatted => exact Codec.correct_float standard permissiveNan F formatted
  | string => exact Codec.correct_string standard
  | formatted format parse => exact Codec.correct_formatted standard format parse
  | enumeration enumerationMapper => exact Codec.correct_enumeration standard enumerationMapper
  | optional fresh _ ih => exact Codec.correct_optional ih fresh
  | vector fresh _ ih => exact Codec.correct_vector ih fresh
  | array n _ ih => exact Codec.correct_array ih n
  | via get set _ ih => exact Codec.correct_via ih get set
  | serializable members _ ih => exact Codec.correct_serializable ih

/-- **What is written is read**: the text of a value, with any indentation and followed by anything
that does not go on with a number, is read up to its end into any target. -/
theorem reads_of_isCodec {codec : Codec α} (h : IsCodec permissiveNan standard codec)
    {options : Options} {value : α} {text : Bytes} (previous : α)
    (hstandard : options.standard = standard) (hcarried : codec.Carried value)
    (hwrite : codec.write options value = some text) (hrest : Stops rest)
    (hs : s.input = text ++ rest) :
    Reads (codec.read previous) s (codec.merge value previous) rest :=
  h.correct.reads previous hstandard hcarried hwrite hrest hs

theorem eight_mem : 8 ∈ [8, 16, 32, 64] := by decide

/-- `uint8_t`. -/
def octet : IntType := ⟨false, 8, eight_mem⟩

/-- A class with an octet and a vector. -/
def sampleMembers : List (Member (ℤ × List (Option Bool))) :=
  [{ name := [0x6e]
     get := Prod.fst
     set := fun object octet => (octet, object.2)
     codec := Codec.integer false octet },
   { name := [0x76]
     get := Prod.snd
     set := fun object values => (object.1, values)
     codec := Codec.vector none (Codec.optional false false Codec.bool) }]

def sample : Codec (ℤ × List (Option Bool)) := Codec.serializable false sampleMembers

theorem isCodec_sample : IsCodec false false sample := by
  refine IsCodec.serializable sampleMembers ?_
  refine List.forall_mem_cons.mpr ⟨IsCodec.integer _, List.forall_mem_singleton.mpr ?_⟩
  exact IsCodec.vector _ (IsCodec.optional _ IsCodec.bool)

theorem carried_sample : sample.Carried (7, [some true, none]) := by
  have hoctet : octet.min ≤ 7 ∧ 7 ≤ octet.max := by decide
  refine List.forall_mem_cons.mpr ⟨⟨List.forall_mem_singleton.mpr (by decide), hoctet⟩,
    List.forall_mem_singleton.mpr ⟨List.forall_mem_singleton.mpr (by decide), ?_⟩⟩
  refine List.forall_mem_cons.mpr ⟨?_, List.forall_mem_singleton.mpr fun _ h => by cases h⟩
  rintro held ⟨⟩
  refine ⟨trivial, fun _ text _ hwrite => ?_⟩
  cases hwrite
  decide

/-- Two elements are read over the first ones of three. -/
theorem reads_of_isCodec_sample : ∃ text, sample.write {} (7, [some true, none]) = some text ∧
    Reads (sample.read (1, [none, none, some false])) { input := text ++ [0x0a] }
      (7, [some true, none, some false]) [0x0a] := by
  obtain ⟨text, hwrite⟩ := Option.isSome_iff_exists.mp
    (by decide +kernel : (sample.write {} (7, [some true, none])).isSome = true)
  exact ⟨text, hwrite, reads_of_isCodec isCodec_sample (1, [none, none, some false]) rfl
    carried_sample hwrite (stops_cons (by decide)) rfl⟩

/-- **The text is JSON**, and not only JSON5, for every value whose strings have no control characters
without an escape, and whose numbers are finite or written with the option `standard`. -/
theorem isValue_of_isCodec {codec : Codec α} (h : IsCodec permissiveNan standard codec)
    {options : Options} {value : α} {text : Bytes} (hstandard : options.standard = standard)
    (hvalid : codec.Valid value) (hwrite : codec.write options value = some text) :
    Json.IsValue text :=
  h.isValue hstandard hvalid hwrite

theorem isValue_of_isCodec_sample : ∃ text, sample.write {} (7, [some true, none]) = some text ∧
    Json.IsValue text := by
  obtain ⟨text, hwrite⟩ := Option.isSome_iff_exists.mp
    (by decide +kernel : (sample.write {} (7, [some true, none])).isSome = true)
  have hvalid : sample.Valid (7, [some true, none]) := by
    refine List.forall_mem_cons.mpr ⟨⟨List.forall_mem_singleton.mpr (by decide), trivial⟩,
      List.forall_mem_singleton.mpr ⟨List.forall_mem_singleton.mpr (by decide), ?_⟩⟩
    exact fun _ _ _ _ => trivial
  exact ⟨text, hwrite, isValue_of_isCodec isCodec_sample rfl hvalid hwrite⟩

end Mjlib.Base.Json5WriteArchive
