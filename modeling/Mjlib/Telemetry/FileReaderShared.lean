import Mjlib.Telemetry.FileReaderSeek

/-!
# Sharing a reader

The item ranges of a `telemetry::FileReader` and their iterators have its records in common, and
each range has a set of names that it still has to find.  What a program does with a reader is a run
of `Shared.step`: it makes ranges, loops over them, and makes the other calls in between, in any
order.
-/

namespace Mjlib.Telemetry.FileReader

open Base

variable (file : Bytes) (options : Options) (rawUncompress : RawUncompress)

/-- The context of an item range that filters. -/
def Filter.context : Filter → ItemRangeContext
  | .range context => context
  | .noFilter => {}

/-- A loop over an item range: where its iterator is, whether the item there was read, and the items
that were. -/
structure Loop where
  range : ℕ
  index : ℤ
  dereferenced : Bool := false
  yielded : List Item := []

/-- A reader, with the ranges that were made of it and the loops over them. -/
structure Shared where
  reader : State
  ranges : List ItemRangeContext := []
  loops : List Loop := []

namespace Shared

/-- A call of a reader, or of a range or an iterator of it. -/
inductive Call
  | items (options : ItemsOptions)
  /-- `ItemRange::begin`, which starts a loop. -/
  | begin (range : ℕ)
  /-- `operator*` of a loop's iterator. -/
  | dereference (loop : ℕ)
  /-- `operator++` of a loop's iterator. -/
  | advance (loop : ℕ)
  | records
  | record (name : Bytes)
  | finalItem
  | seek (timestamp : Ptime)

/-- `ReadUntil` with the filter of a range; none where it throws. -/
def readUntil (s : Shared) (range : ℕ) (start : ℤ) : Option ((ℤ × ℤ) × Shared) := do
  let context ← s.ranges[range]?
  match FileReader.readUntil file start (.range context) s.reader with
  | (.ok (found, filter), reader) =>
    some (found, { s with reader, ranges := s.ranges.set range filter.context })
  | (.error _, _) => none

/-- One call.  A loop reads each item once before it goes on, and ends at the end of the range:
where it would do anything else, and where `ReadUntil` throws, there is no step. -/
def step (s : Shared) : Call → Option Shared
  | .items itemsOptions =>
    some { s with ranges := s.ranges ++ [itemRangeContext itemsOptions s.reader] }
  | .begin range => do
    let context ← s.ranges[range]?
    let start := if context.options.start < 0 then s.reader.start else context.options.start
    let ((first, _), s) ← s.readUntil file range start
    return { s with loops := s.loops ++ [{ range, index := first }] }
  | .dereference i => do
    let loop ← s.loops[i]?
    if loop.index = -1 ∨ loop.dereferenced then none
    else
      match read file options rawUncompress loop.index s.reader with
      | (.ok item, reader) =>
        let loop := { loop with dereferenced := true, yielded := loop.yielded ++ [item] }
        return { s with reader, loops := s.loops.set i loop }
      | (.error _, reader) => return { s with reader }
  | .advance i => do
    let loop ← s.loops[i]?
    if loop.index = -1 ∨ ¬loop.dereferenced then none
    else
      -- the first call finds the item that the iterator is at
      let ((_, after), s) ← s.readUntil file loop.range loop.index
      let ((advanced, _), s) ← s.readUntil file loop.range after
      let loop := { loop with index := advanced, dereferenced := false }
      return { s with loops := s.loops.set i loop }
  | .records => some { s with reader := (records file s.reader).2 }
  | .record name => some { s with reader := (record file name s.reader).2 }
  | .finalItem => some { s with reader := (finalItem file s.reader).2 }
  | .seek timestamp =>
    some { s with reader := (seekTo file options rawUncompress timestamp s.reader).2 }

end Shared

end Mjlib.Telemetry.FileReader
