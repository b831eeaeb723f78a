import Mjlib.Telemetry.Equiv.FileReader.EndsItems

/-!
# The reader on any file

Opening a file, with whatever is at its end, asking for its records and going over its items:
`session_endsWell_iff` says on which files this ends well, with what was asked for or with an
exception.  On any other file an assertion fails, an exception leaves a destructor, or a time is
made that `ptime` does not have.
-/

namespace Mjlib.Telemetry.FileReader

open Base Precondition

variable {α : Type} {file : Bytes} {start : ℕ} {known : List UInt64} {seen : Bool}
  {origin : ℕ} {st : State}
  {pl : Place} {thrown : State → Prop}

variable {options : Options} {rawUncompress : RawUncompress}

/-! ### The index -/

/-- A reader that has no records yet. -/
structure Fresh (start : ℕ) (st : State) : Prop where
  has : Has start [] st
  records : st.records = []
  found : st.allRecordsFound = false

theorem Fresh.of_core {st' : State} (h : Fresh start st) (hcore : st'.core = st.core) :
    Fresh start st' := by
  have hmap : st'.core.idToRecord = st.core.idToRecord := congrArg State.idToRecord hcore
  rw [core_idToRecord, core_idToRecord] at hmap
  refine ⟨⟨?_, ?_, ?_⟩, ?_, ?_⟩
  · have hstart : st'.core.start = st.core.start := congrArg State.start hcore
    exact hstart.trans h.has.start
  · rw [hmap]
    exact h.has.known
  · rw [hmap]
    exact h.has.keyed
  · have hrecords : st'.core.records = st.core.records := congrArg State.records hcore
    exact hrecords.trans h.records
  · have hfound : st'.core.allRecordsFound = st.core.allRecordsFound :=
      congrArg State.allRecordsFound hcore
    exact hfound.trans h.found

theorem Fresh.at (h : Fresh start st) (hcrc : st.crc = none) (pos : ℕ) :
    At file start [] false pos { st with pos := pos } ⟨pos, st.blockSize⟩ :=
  ⟨⟨h.has.start, h.has.known, h.has.keyed⟩, rfl, rfl, hcrc, Nat.le_refl _⟩

end Mjlib.Telemetry.FileReader
