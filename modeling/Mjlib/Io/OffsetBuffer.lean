import Mathlib
import Mjlib.Base.Stream

/-!
# Buffer sequences

The buffers of an application, as an asynchronous read gets them: each a range of its memory.
`offsetBufferSequence` is what is left of a sequence when its first bytes are used up.
-/

namespace Mjlib.Io

/-- `boost::asio::mutable_buffer`. -/
structure MutableBuffer where
  data : ℕ
  size : ℕ
deriving DecidableEq, Repr

/-- `buffer + n`. -/
def MutableBuffer.advance (buffer : MutableBuffer) (n : ℕ) : MutableBuffer :=
  ⟨buffer.data + min n buffer.size, buffer.size - min n buffer.size⟩

/-- The addresses of the bytes of a sequence, in order. -/
def cells (buffers : List MutableBuffer) : List ℕ :=
  buffers.flatMap fun buffer => List.range' buffer.data buffer.size

/-- `boost::asio::buffer_size`. -/
def bufferSize (buffers : List MutableBuffer) : ℕ := (buffers.map MutableBuffer.size).sum

/-- Bytes are stored at the addresses, until there are no more of either. -/
def store : List ℕ → Bytes → (ℕ → UInt8) → ℕ → UInt8
  | x :: xs, b :: bs, memory => store xs bs (Function.update memory x b)
  | _, _, memory => memory

/-- `boost::asio::buffer_copy`. -/
def bufferCopy (buffers : List MutableBuffer) (source : Bytes) (memory : ℕ → UInt8) : ℕ → UInt8 :=
  store (cells buffers) source memory

/-- The loop of `OffsetBufferSequence`. -/
def offsetLoop (offset : ℕ) : ℕ → List MutableBuffer → List MutableBuffer
  | _, [] => []
  | consumedSoFar, buffer :: buffers =>
    if consumedSoFar > offset then
      buffer :: offsetLoop offset consumedSoFar buffers
    else if consumedSoFar + buffer.size < offset then
      offsetLoop offset (consumedSoFar + buffer.size) buffers
    else
      buffer.advance (offset - consumedSoFar)
        :: offsetLoop offset (consumedSoFar + buffer.size) buffers

/-- `OffsetBufferSequence`; nothing if the assertion fails. -/
def offsetBufferSequence (buffers : List MutableBuffer) (offset : ℕ) :
    Option (List MutableBuffer) :=
  if offset < bufferSize buffers then some (offsetLoop offset 0 buffers) else none

/-- The buffers of a read: no byte is in two of them. -/
structure UserBuffers where
  buffers : List MutableBuffer
  nodup : (cells buffers).Nodup

/-! ### Sizes and addresses -/

theorem length_cells (buffers : List MutableBuffer) :
    (cells buffers).length = bufferSize buffers := by
  rw [cells, List.length_flatMap, bufferSize]
  simp only [List.length_range']

theorem cells_cons (buffer : MutableBuffer) (buffers : List MutableBuffer) :
    cells (buffer :: buffers) = List.range' buffer.data buffer.size ++ cells buffers :=
  List.flatMap_cons

theorem range'_advance (buffer : MutableBuffer) {n : ℕ} (hn : n ≤ buffer.size) :
    List.range' (buffer.advance n).data (buffer.advance n).size
      = (List.range' buffer.data buffer.size).drop n := by
  simp only [MutableBuffer.advance, min_eq_left hn, List.drop_range', Nat.mul_one]

theorem cells_offsetLoop (offset consumedSoFar : ℕ) (buffers : List MutableBuffer) :
    cells (offsetLoop offset consumedSoFar buffers)
      = (cells buffers).drop (offset - consumedSoFar) := by
  induction buffers generalizing consumedSoFar with
  | nil => simp [offsetLoop, cells]
  | cons buffer buffers ih =>
    rw [offsetLoop, cells_cons, List.drop_append, List.length_range']
    split_ifs with hpast hskip
    · -- the offset is passed
      have hzero : offset - consumedSoFar = 0 := by omega
      rw [cells_cons, ih, hzero]
      simp
    · -- the buffer is skipped entirely
      have hnone : (List.range' buffer.data buffer.size).drop (offset - consumedSoFar) = [] := by
        apply List.drop_eq_nil_of_le
        rw [List.length_range']
        omega
      rw [ih, hnone, List.nil_append, Nat.sub_sub]
    · rw [cells_cons, ih, range'_advance buffer (by omega), Nat.sub_sub]

/-- What is left are the bytes from the offset on. -/
theorem cells_offsetBufferSequence {buffers rest : List MutableBuffer} {offset : ℕ}
    (h : offsetBufferSequence buffers offset = some rest) :
    cells rest = (cells buffers).drop offset := by
  rw [offsetBufferSequence] at h
  split_ifs at h
  obtain rfl := Option.some.inj h
  exact cells_offsetLoop offset 0 buffers

/-- Below the size of the buffers every offset is served, and the buffers that come back are the
bytes from the offset on, whatever the sizes of the buffers and wherever the offset falls. -/
theorem exists_offsetBufferSequence (buffers : List MutableBuffer) (offset : ℕ)
    (h : offset < bufferSize buffers) :
    ∃ rest, offsetBufferSequence buffers offset = some rest ∧
      cells rest = (cells buffers).drop offset :=
  ⟨offsetLoop offset 0 buffers, if_pos h, cells_offsetLoop offset 0 buffers⟩

/-- An offset at a boundary, with empty buffers on both sides of it. -/
theorem exists_offsetBufferSequence_boundary :
    2 < bufferSize [⟨0, 0⟩, ⟨0, 2⟩, ⟨8, 0⟩, ⟨16, 4⟩] ∧
      ∃ rest, offsetBufferSequence [⟨0, 0⟩, ⟨0, 2⟩, ⟨8, 0⟩, ⟨16, 4⟩] 2 = some rest ∧
        cells rest = (cells [⟨0, 0⟩, ⟨0, 2⟩, ⟨8, 0⟩, ⟨16, 4⟩]).drop 2 :=
  ⟨by decide, exists_offsetBufferSequence _ 2 (by decide)⟩

/-! ### Copies -/

theorem store_of_notMem {xs : List ℕ} {x : ℕ} (hx : x ∉ xs) (source : Bytes)
    (memory : ℕ → UInt8) : store xs source memory x = memory x := by
  induction xs generalizing source memory with
  | nil => rfl
  | cons y ys ih =>
    cases source with
    | nil => rfl
    | cons b bs =>
      have hne : x ≠ y := fun heq => hx (heq ▸ List.mem_cons_self)
      rw [store, ih (fun hmem => hx (List.mem_cons_of_mem y hmem))]
      exact Function.update_of_ne hne b memory

theorem take_map_store {xs : List ℕ} (hnodup : xs.Nodup) {source : Bytes}
    (hroom : source.length ≤ xs.length) (memory : ℕ → UInt8) :
    (xs.take source.length).map (store xs source memory) = source := by
  induction xs generalizing source memory with
  | nil =>
    rw [List.length_eq_zero_iff.mp (Nat.le_zero.mp hroom)]
    rfl
  | cons y ys ih =>
    cases source with
    | nil => rfl
    | cons b bs =>
      obtain ⟨hy, hys⟩ := List.nodup_cons.mp hnodup
      have hfirst : store ys bs (Function.update memory y b) y = b := by
        rw [store_of_notMem hy]
        exact Function.update_self y b memory
      rw [List.length_cons, List.take_succ_cons, List.map_cons, store, hfirst,
        ih hys (Nat.le_of_succ_le_succ hroom)]

/-- A copy leaves the memory outside the buffers as it is. -/
theorem bufferCopy_of_notMem {buffers : List MutableBuffer} {x : ℕ} (hx : x ∉ cells buffers)
    (source : Bytes) (memory : ℕ → UInt8) : bufferCopy buffers source memory x = memory x :=
  store_of_notMem hx source memory

/-- The first bytes of the buffers are those that were copied. -/
theorem take_map_bufferCopy {buffers : List MutableBuffer} (hnodup : (cells buffers).Nodup)
    {source : Bytes} (hroom : source.length ≤ bufferSize buffers) (memory : ℕ → UInt8) :
    ((cells buffers).take source.length).map (bufferCopy buffers source memory) = source :=
  take_map_store hnodup (by rwa [length_cells]) memory

end Mjlib.Io
