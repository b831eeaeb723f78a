import Mathlib
import Mjlib.Base.Equiv.Json5WriteArchive.Codecs

/-!
# The texts that are JSON

`IsCodec.isValue`: the text of a value whose strings have no control characters without an escape,
and whose numbers are finite or written with the option `standard`, is a JSON text.
-/

namespace Mjlib.Base.Json5WriteArchive

open Json5ReadArchive

variable {α : Type} {options : Options} {permissiveNan standard : Bool}

/-! ### Tokens -/

theorem isDigits_of_isDigit {digits : Bytes} (hne : digits ≠ [])
    (h : ∀ c ∈ digits, isDigit 10 c = true) : Json.IsDigits digits :=
  ⟨hne, fun c hc => of_decide_eq_true ((isDigit_eq c).1 ▸ h c hc)⟩

theorem FloatText.isNumber (f : FloatText) : Json.IsNumber f.text := by
  refine ⟨f.sign, f.integer, f.fractionText, f.exponentText, rfl, List.mem_pair.mp f.sign_mem,
    ⟨isDigits_of_isDigit f.integer_ne_nil f.isDigit_integer, f.eq_zero⟩, ?_, ?_⟩
  · cases hfraction : f.fraction with
    | none => exact Or.inl (by rw [fractionText, hfraction, Option.elim_none])
    | some digits =>
      refine Or.inr ⟨digits, ?_, by rw [fractionText, hfraction, Option.elim_some]⟩
      exact isDigits_of_isDigit (f.fraction_ne_nil _ hfraction) (f.isDigit_fraction _ hfraction)
  · cases hexponent : f.exponent with
    | none => exact Or.inl (by rw [exponentText, hexponent, Option.elim_none])
    | some e =>
      have hsign := f.exponent_sign_mem _ hexponent
      simp only [List.mem_cons, List.not_mem_nil, or_false] at hsign
      refine Or.inr ⟨0x65, e.1, e.2, Or.inl rfl, hsign, ?_,
        by rw [exponentText, hexponent, Option.elim_some]⟩
      exact isDigits_of_isDigit (f.exponent_ne_nil _ hexponent) (f.isDigit_exponent _ hexponent)

theorem isValue_formatInt (value : ℤ) : Json.IsValue (formatInt value) := by
  have hint : Json.IsInt (decimal value.natAbs) :=
    ⟨isDigits_of_isDigit (decimal_ne_nil _) (isDigit_decimal _), (literalOf value).eq_zero rfl⟩
  rw [formatInt]
  split_ifs
  · exact .number hint.isNumber_minus
  · exact .number hint.isNumber

theorem isString_inQuotes {text : Bytes} (h : ∀ c ∈ text, Json.IsPlain c) :
    Json.IsString (inQuotes text) := by
  have hnot : ∀ c ∈ text, ¬HasEscape c := by
    intro c hc hescape
    have hplain := h c hc
    simp only [HasEscape, List.mem_cons, List.not_mem_nil, or_false] at hescape
    rcases hescape with rfl | rfl | rfl | rfl | rfl | rfl | rfl | rfl
    all_goals exact absurd hplain (by decide)
  rw [← writeString_of_not hnot]
  exact (isString_writeString_iff text).mpr fun c hc => Or.inr (h c hc).1

/-! ### Blanks -/

theorem isWs_indent {extra : ℤ} {pad : Bytes} (h : indent options extra = some pad) :
    Json.IsWs pad := by
  unfold indent at h
  dsimp only at h
  split_ifs at h
  cases h
  exact fun c hc => Or.inl (List.eq_of_mem_replicate hc)

theorem isWs_newline {pad : Bytes} (h : Json.IsWs pad) : Json.IsWs (0x0a :: pad) :=
  List.forall_mem_cons.mpr ⟨Or.inr (Or.inr (Or.inl rfl)), h⟩

/-! ### Containers -/

/-- The elements from one on. -/
theorem isElements_writeItems {write : Writer α} {pad : Bytes} (hpad : Json.IsWs pad) :
    ∀ {items : List α} {item : α} {blanks text more : Bytes}, Json.IsWs blanks →
    (∀ value ∈ item :: items, ∀ text, write options value = some text → Json.IsValue text) →
    write options item = some text → writeItems write options false items = some more →
    Json.IsElements (blanks ++ (text ++ (more ++ 0x0a :: pad))) := by
  intro items
  induction items with
  | nil =>
    intro item blanks text more hblanks hvalue hwrite hmore
    cases hmore
    exact .one hblanks (hvalue item List.mem_cons_self text hwrite) (isWs_newline hpad)
  | cons next items ih =>
    intro item blanks text more hblanks hvalue hwrite hmore
    obtain ⟨hitem, hitems⟩ := List.forall_mem_cons.mp hvalue
    obtain ⟨nextPad, nextText, others, hnextPad, hnext, hothers, rfl⟩ := writeItems_cons hmore
    have helements := ih (isWs_newline (isWs_indent hnextPad)) hitems hnext hothers
    have hcons := Json.IsElements.cons hblanks (hitem text hwrite) Json.isWs_nil helements
    rw [if_neg Bool.false_ne_true]
    simpa only [List.append_assoc, List.cons_append, List.nil_append] using hcons

theorem isValue_writeArray {write : Writer α} {values : List α} {text : Bytes}
    (hvalue : ∀ value ∈ values, ∀ text, write options value = some text → Json.IsValue text)
    (hwrite : writeArray write options values = some text) : Json.IsValue text := by
  rw [writeArray] at hwrite
  obtain ⟨items, hitems, hwrite⟩ := Option.bind_eq_some_iff.mp hwrite
  obtain ⟨pad, hpad, hwrite⟩ := Option.bind_eq_some_iff.mp hwrite
  cases hwrite
  have hblanks := isWs_indent hpad
  cases values with
  | nil =>
    cases hitems
    exact .emptyArray (isWs_newline (isWs_newline hblanks))
  | cons item values =>
    obtain ⟨itemPad, itemText, more, hitemPad, hitem, hmore, rfl⟩ := writeItems_cons hitems
    have helements := isElements_writeItems hblanks (isWs_newline (isWs_indent hitemPad)) hvalue
      hitem hmore
    rw [if_pos rfl]
    simpa only [List.append_assoc, List.cons_append, List.nil_append] using
      Json.IsValue.array helements

/-- The members from one on. -/
theorem isMembers_visit {value : α} {pad : Bytes} (hpad : Json.IsWs pad) :
    ∀ {fields : List (Field α)} {field : Field α} {blanks text more : Bytes}, Json.IsWs blanks →
    (∀ other ∈ field :: fields, (∀ c ∈ other.name, Json.IsPlain c) ∧
      ∀ text, other.write options value = some text → Json.IsValue text) →
    field.write options value = some text → visit options value false fields = some more →
    Json.IsMembers (blanks ++ (inQuotes field.name ++ ([0x20] ++ 0x3a :: ([0x20] ++ (text ++
      (more ++ 0x0a :: pad)))))) := by
  intro fields
  induction fields with
  | nil =>
    intro field blanks text more hblanks hfields hwrite hmore
    cases hmore
    obtain ⟨hname, hvalue⟩ := hfields field List.mem_cons_self
    exact .one hblanks (isString_inQuotes hname) Json.isWs_space Json.isWs_space
      (hvalue text hwrite) (isWs_newline hpad)
  | cons next fields ih =>
    intro field blanks text more hblanks hfields hwrite hmore
    obtain ⟨⟨hname, hvalue⟩, hothers⟩ := List.forall_mem_cons.mp hfields
    obtain ⟨nextPad, nextText, others, hnextPad, hnext, hmore', rfl⟩ := visit_cons hmore
    have hmembers := ih (isWs_newline (isWs_indent hnextPad)) hothers hnext hmore'
    have hcons := Json.IsMembers.cons hblanks (isString_inQuotes hname) Json.isWs_space
      Json.isWs_space (hvalue text hwrite) Json.isWs_nil hmembers
    rw [if_neg Bool.false_ne_true]
    simpa only [inQuotes, List.append_assoc, List.cons_append, List.nil_append] using hcons

theorem isValue_accept {fields : List (Field α)} {value : α} {text : Bytes}
    (hfields : ∀ field ∈ fields, (∀ c ∈ field.name, Json.IsPlain c) ∧
      ∀ text, field.write options value = some text → Json.IsValue text)
    (hwrite : accept fields options value = some text) : Json.IsValue text := by
  rw [accept] at hwrite
  obtain ⟨members, hmembers, hwrite⟩ := Option.bind_eq_some_iff.mp hwrite
  obtain ⟨pad, hpad, hwrite⟩ := Option.bind_eq_some_iff.mp hwrite
  cases hwrite
  have hblanks := isWs_indent hpad
  cases fields with
  | nil =>
    cases hmembers
    exact .emptyObject (isWs_newline (isWs_newline hblanks))
  | cons field fields =>
    obtain ⟨namePad, fieldText, more, hnamePad, hfield, hmore, rfl⟩ := visit_cons hmembers
    have hobject := isMembers_visit hblanks (isWs_newline (isWs_indent hnamePad)) hfields hfield
      hmore
    rw [if_pos rfl]
    simpa only [inQuotes, List.append_assoc, List.cons_append, List.nil_append] using
      Json.IsValue.object hobject

/-! ### All types -/

theorem isValue_writeFloat {formatted : FormattedFloat α} {value : α} {text : Bytes}
    (hvalid : match formatted.classify value with
      | .finite => ∃ f : FloatText, formatted.format value = f.text
      | _ => options.standard = true)
    (hwrite : writeFloat formatted options value = some text) : Json.IsValue text := by
  unfold writeFloat at hwrite
  dsimp only at hwrite
  cases hclass : formatted.classify value with
  | finite =>
    rw [hclass] at hvalid hwrite
    cases hwrite
    obtain ⟨f, hf⟩ := hvalid
    rw [hf]
    exact .number f.isNumber
  | infinity | negInfinity | nan =>
    rw [hclass] at hvalid hwrite
    dsimp only at hvalid hwrite
    rw [if_pos hvalid] at hwrite
    cases hwrite
    exact .null

/-- **The text of a valid value is JSON.** -/
theorem IsCodec.isValue {codec : Codec α} (h : IsCodec permissiveNan standard codec) :
    ∀ {options : Options} {value : α} {text : Bytes}, options.standard = standard →
    codec.Valid value → codec.write options value = some text → Json.IsValue text := by
  induction h with
  | bool =>
    intro options value text _ _ hwrite
    cases hwrite
    cases value with
    | false => exact .false
    | true => exact .true
  | integer t =>
    intro options value text _ _ hwrite
    cases hwrite
    exact isValue_formatInt value
  | float F formatted =>
    intro options value text hstandard hvalid hwrite
    dsimp only [Codec.float] at hvalid
    rw [← hstandard] at hvalid
    exact isValue_writeFloat hvalid hwrite
  | string =>
    intro options value text _ hvalid hwrite
    cases hwrite
    exact .string ((isString_writeString_iff value).mpr hvalid)
  | formatted format parse =>
    intro options value text _ hvalid hwrite
    cases hwrite
    exact .string (isString_inQuotes hvalid)
  | enumeration enumerationMapper =>
    intro options value text _ hvalid hwrite
    obtain ⟨pair, hpair, rfl⟩ := Option.map_eq_some_iff.mp hwrite
    exact .string (isString_inQuotes (hvalid pair hpair))
  | optional fresh _ ih =>
    intro options value text hstandard hvalid hwrite
    cases value with
    | none =>
      cases hwrite
      exact .null
    | some value => exact ih hstandard (hvalid value rfl) hwrite
  | vector fresh _ ih =>
    intro options values text hstandard hvalid hwrite
    exact isValue_writeArray (fun value hmem _ => ih hstandard (hvalid value hmem)) hwrite
  | array n _ ih =>
    intro options values text hstandard hvalid hwrite
    exact isValue_writeArray (fun value hmem _ => ih hstandard (hvalid value hmem)) hwrite
  | via get set _ ih =>
    intro options value text hstandard hvalid hwrite
    exact ih hstandard hvalid hwrite
  | serializable members _ ih =>
    intro options value text hstandard hvalid hwrite
    refine isValue_accept (fun field hfield => ?_) hwrite
    obtain ⟨m, hm, rfl⟩ := List.mem_map.mp hfield
    obtain ⟨hname, hfield⟩ := hvalid m hm
    exact ⟨hname, fun text => ih m hm hstandard hfield⟩

end Mjlib.Base.Json5WriteArchive
