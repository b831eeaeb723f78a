import Mathlib
import Mjlib.Base.ThreadWriter
import Mjlib.Lib.Run

/-!
# The threads of a `ThreadWriter`

The parent thread hands over buffers, asks for flushes and in the end destroys the writer; the child
waits for a byte in a pipe and then appends what was handed over to the file.  A step is what a
thread does without another one seeing anything in between: a system call, what is done under
`data_mutex_`, or what the parent does under `command_mutex_`.  The child holds that mutex over
several steps.  A signal handler of the flush timer runs in any thread.
-/

namespace Mjlib.Base.ThreadWriter

/-- `Options`, and what the writer relies on of the operating system. -/
structure Options where
  /-- `blocking_mode` is `kAsynchronous`. -/
  asynchronous : Bool := false
  blockSize : ℕ := 2 ^ 20
  blockSize_pos : 0 < blockSize := by decide
  /-- There is a `reclaimer`. -/
  reclaims : Bool := false
  /-- How many bytes the pipe holds; at least a page. -/
  pipeSize : ℕ := 65536
  pipeSize_gt : 1 < pipeSize := by decide

/-- Where the parent thread is. -/
inductive ParentPc
  /-- Outside of the writer. -/
  | idle
  /-- In `SignalThread`, called by `Write` or `Flush`. -/
  | signaling
  /-- In `SignalThread`, called by the destructor. -/
  | signalingDone
  /-- In `join`. -/
  | joining
  /-- In `WriteAll`. -/
  | writingAll
  /-- The writer is gone. -/
  | destroyed
deriving DecidableEq, Repr

/-- Where the child thread is; `last` in the work after `done_` was seen. -/
inductive ChildPc
  /-- Before the loop of `Run`. -/
  | starting
  /-- In `read`. -/
  | reading
  /-- Before `command_mutex_` is taken. -/
  | locking
  /-- In `HandleFlush`, because of `flush_`. -/
  | flushing
  /-- Before the test of `timer_fired_`. -/
  | timer
  /-- Before the test of `data_.empty()` in `RunWork`. -/
  | working (last : Bool)
  /-- In `WriteFront`, before the front is taken. -/
  | popping (last : Bool)
  /-- In `WriteFront`, before `fwrite`. -/
  | writing (last : Bool)
  /-- In `StartWrite`, behind `WriteFront`. -/
  | advising (last : Bool)
  /-- In `HandleFlush`, because of `done_`. -/
  | lastFlush
  /-- Behind the loop of `Run`. -/
  | stopping
  | exited
deriving DecidableEq, Repr

/-- Whether `command_mutex_` is held. -/
def ChildPc.holdsMutex : ChildPc → Bool
  | flushing | working true | popping true | writing true | advising true | lastFlush => true
  | _ => false

/-- The members of the writer, its file, and where the threads are. -/
structure State where
  /-- The buffers that `Write` was called with. -/
  handed : List Bytes := []
  /-- `position_`. -/
  position : ℕ := 0
  /-- The capacity of `data_`. -/
  capacity : ℕ := 16
  /-- `data_`. -/
  data : List Bytes := []
  /-- The buffer that the child has taken and not written. -/
  hand : Option Bytes := none
  /-- The buffers in the file, or in the buffer of its stream. -/
  written : List Bytes := []
  /-- How many bytes of them are in the file for certain. -/
  flushed : ℕ := 0
  /-- `child_offset_`. -/
  childOffset : ℕ := 0
  /-- `last_fadvise_`. -/
  lastFadvise : ℕ := 0
  /-- What `posix_fadvise` was called with: offsets and lengths. -/
  advised : List (ℕ × ℕ) := []
  /-- The buffers given back. -/
  reclaimed : List Bytes := []
  /-- How many bytes are in the pipe. -/
  pipe : ℕ := 0
  timerFired : Bool := false
  flush : Bool := false
  done : Bool := false
  /-- How many signal handlers are in `SignalThread`. -/
  handlers : ℕ := 0
  parent : ParentPc := .idle
  child : ChildPc := .starting
  /-- A system call has failed, and the process has ended. -/
  aborted : Bool := false

namespace State

variable (o : Options) (s : State)

/-- `circular_buffer::push_back`, which overwrites the front where there is no room. -/
def pushBack (capacity : ℕ) (data : List Bytes) (buffer : Bytes) : List Bytes :=
  (if data.length = capacity then data.drop 1 else data) ++ [buffer]

/-- `Write`, up to `SignalThread`. -/
def write (buffer : Bytes) : State :=
  let capacity := if s.data.length = s.capacity then s.capacity * 2 else s.capacity
  { s with
    handed := s.handed ++ [buffer]
    position := s.position + buffer.length
    capacity
    data := pushBack capacity s.data buffer
    parent := .signaling }

/-- `SignalThread`; a byte that finds the pipe full is dropped. -/
def signal : State := { s with pipe := min (s.pipe + 1) o.pipeSize }

/-- `fflush`. -/
def fflush : State := { s with flushed := s.childOffset }

/-- `WriteFront`, from `fwrite` on; there is no item of size 0 to write, and no room behind the last
`off_t`. -/
def fwrite (buffer : Bytes) : Option State :=
  if buffer ≠ [] ∧ s.childOffset + buffer.length < 2 ^ 63 then
    some { s with
      written := s.written ++ [buffer]
      childOffset := s.childOffset + buffer.length
      reclaimed := s.reclaimed ++ if o.reclaims then [buffer] else [] }
  else none

/-- The loop of `StartWrite` over the blocks that are complete; the fuel is the size of the file. -/
def nextFadvise (blockSize childOffset : ℕ) : ℕ → ℕ → ℕ
  | 0, next => next
  | n + 1, next =>
    if next + blockSize < childOffset then nextFadvise blockSize childOffset n (next + blockSize)
    else next

/-- `StartWrite`, behind `WriteFront`. -/
def advise : State :=
  if o.asynchronous ∧ s.childOffset - s.lastFadvise > o.blockSize then
    let next := nextFadvise o.blockSize s.childOffset s.childOffset s.lastFadvise
    { s.fflush with
      advised := s.advised ++ [(s.lastFadvise, next - s.lastFadvise)]
      lastFadvise := next }
  else s

/-- The next step of the parent inside a call; the last one closes the file. -/
def parentStep : Option State :=
  match s.parent with
  | .idle | .destroyed => none
  | .signaling => some { s.signal o with parent := .idle }
  | .signalingDone => some { s.signal o with parent := .joining }
  | .joining => if s.child = .exited then some { s with parent := .writingAll } else none
  | .writingAll =>
    match s.data with
    | [] => some { s.fflush with parent := .destroyed }
    | buffer :: data => { s with data }.fwrite o buffer

/-- The next step of the child in `Run`. -/
def childStep : Option State :=
  match s.child with
  | .starting => some { s with child := .reading }
  | .reading => if 0 < s.pipe then some { s with pipe := s.pipe - 1, child := .locking } else none
  | .locking =>
    some { s with child := if s.done then .working true else if s.flush then .flushing else .timer }
  | .flushing => some { s.fflush with child := .timer }
  | .timer => some { (if s.timerFired then s.fflush else s) with child := .working false }
  | .working last =>
    some { s with
      child := if s.data ≠ [] then .popping last else if last then .lastFlush else .reading }
  | .popping last =>
    match s.data with
    | [] => none
    | buffer :: data => some { s with data, hand := some buffer, child := .writing last }
  | .writing last => s.hand.bind fun buffer => { s with hand := none, child := .advising last }.fwrite o buffer
  | .advising last => some { s.advise o with child := .working last }
  | .lastFlush => some { s.fflush with child := .stopping }
  | .stopping => some { s with child := .exited }
  | .exited => none

/-- A thread is about to call `fwrite`. -/
def AtFwrite : Prop :=
  (∃ last, s.child = .writing last) ∨ s.parent = .writingAll ∧ s.data ≠ []

instance : Decidable s.AtFwrite := by
  unfold AtFwrite
  have : Decidable (∃ last, s.child = .writing last) :=
    decidable_of_iff (s.child = .writing false ∨ s.child = .writing true) (by simp)
  infer_instance

end State

/-- What can happen. -/
inductive Action
  /-- The parent calls `Write`. -/
  | write (buffer : Bytes)
  /-- The parent calls `Flush`. -/
  | flush
  /-- The parent calls the destructor. -/
  | destroy
  /-- The parent goes on with a call. -/
  | parent
  /-- The child goes on. -/
  | child
  /-- A signal interrupts `read`. -/
  | interrupted
  /-- `fwrite` fails, and the process ends. -/
  | fwriteFails
  /-- The timer expires: `DoTimer`, up to `SignalThread`. -/
  | timerFires
  /-- `SignalThread` in a signal handler. -/
  | timerSignals
deriving DecidableEq, Repr

/-- One step; `none` where it is not possible. -/
def step (o : Options) (s : State) (a : Action) : Option State :=
  if s.aborted then none
  else match a with
    | .write buffer => if s.parent = .idle then some (s.write buffer) else none
    | .flush =>
      if s.parent = .idle ∧ ¬s.child.holdsMutex then
        some { s with flush := true, parent := .signaling }
      else none
    | .destroy =>
      if s.parent = .idle ∧ ¬s.child.holdsMutex then
        some { s with done := true, parent := .signalingDone }
      else none
    | .parent => s.parentStep o
    | .child => s.childStep o
    | .interrupted => if s.child = .reading then some { s with child := .locking } else none
    | .fwriteFails => if s.AtFwrite then some { s with aborted := true } else none
    | .timerFires =>
      if o.asynchronous ∧ s.child ≠ .starting ∧ s.child ≠ .exited then
        some { s with timerFired := true, handlers := s.handlers + 1 }
      else none
    | .timerSignals =>
      if 0 < s.handlers then some { s.signal o with handlers := s.handlers - 1 } else none

end Mjlib.Base.ThreadWriter
