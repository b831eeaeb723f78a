import Mathlib
import Mjlib.Base.Stream

/-!
# The file behind a log

`base::ThreadWriter` queues buffers for a thread that appends them to a file, in order.  Here a
writer is what it has been handed: a file's contents are those buffers, one after the other.
-/

namespace Mjlib.Base

/-- `ThreadWriter`: the buffers written so far.  A file's size is an `off_t`. -/
structure ThreadWriter where
  buffers : List Bytes
  length_lt : buffers.flatten.length < 2 ^ 63

namespace ThreadWriter

/-- A writer on a file that was just opened. -/
def empty : ThreadWriter := ⟨[], by simp⟩

/-- `position_`. -/
def position (writer : ThreadWriter) : ℕ := writer.buffers.flatten.length

/-- `Write`; `fwrite` fails on a file that outgrows an `off_t`, and `FailIfErrno` ends the
process. -/
def write (writer : ThreadWriter) (buffer : Bytes) : Option ThreadWriter :=
  if h : writer.position + buffer.length < 2 ^ 63 then
    some ⟨writer.buffers ++ [buffer], by simpa [position] using h⟩
  else none

theorem write_eq_some {writer writer' : ThreadWriter} {buffer : Bytes}
    (h : writer.write buffer = some writer') : writer'.buffers = writer.buffers ++ [buffer] := by
  unfold write at h
  split_ifs at h
  exact (congrArg buffers (Option.some.inj h)).symm

theorem exists_write {writer : ThreadWriter} {buffer : Bytes}
    (h : writer.position + buffer.length < 2 ^ 63) : ∃ writer', writer.write buffer = some writer' :=
  ⟨_, dif_pos h⟩

end ThreadWriter

end Mjlib.Base
