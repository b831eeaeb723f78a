import Mathlib
import Mjlib.Base.Stream
import Mjlib.Lib.Run

/-!
# `StreamPipe`

Two streams that write to and read from each other, and the events that they post.  `step` starts an
operation, runs a posted event, or invokes the next callback of an event that is running; in between
the application may start operations, which is what a callback can do, and run events.  Each side has
at most one read and one write outstanding.

A buffer is in the application's memory; it has the number of the callback it was passed with.
-/

namespace Mjlib.Micro.StreamPipe

/-- One of the two streams. -/
inductive SideId
  | a
  | b
deriving DecidableEq, Repr

/-- `other_`. -/
def SideId.other : SideId → SideId
  | a => b
  | b => a

/-- What is started: with the size of the buffer, or with the data. -/
inductive Op
  | read (side : SideId) (size : ℕ)
  | write (side : SideId) (data : Bytes)
deriving DecidableEq, Repr

/-- `SizeCallback`, of an operation. -/
structure Callback where
  number : ℕ
  op : Op
deriving DecidableEq, Repr

/-- `base::string_span`. -/
structure Span where
  buffer : ℕ := 0
  size : ℕ := 0
deriving DecidableEq, Repr

/-- `StreamPipe::Side`. -/
structure Side where
  outstandingReadBuffer : Span := {}
  outstandingReadCallback : Option Callback := none
  pendingReadCallback : Option Callback := none
  outstandingWriteBuffer : Bytes := []
  outstandingWriteCallback : Option Callback := none
  pendingWriteCallback : Option Callback := none
deriving DecidableEq, Repr

/-- What is posted, by a read or a write of a side. -/
inductive Event
  /-- For an operation that the other side's was waiting for. -/
  | read (side : SideId) (toCopy : ℕ)
  | write (side : SideId) (toCopy : ℕ)
  /-- For one of zero bytes. -/
  | readZero (side : SideId)
  | writeZero (side : SideId)
deriving DecidableEq, Repr

/-- A callback that was invoked, with the size that it was told, and the bytes that are meant. -/
structure Completion where
  callback : Callback
  size : ℕ
  bytes : Bytes
deriving DecidableEq, Repr

/-- The pipe and its surroundings. -/
structure State where
  side : SideId → Side := fun _ => {}
  /-- The contents of the buffers. -/
  memory : ℕ → Bytes := fun _ => []
  /-- The events that are posted. -/
  events : List Event := []
  /-- The callbacks that the events which are running have still to invoke. -/
  calls : List (Option Callback × ℕ) := []
  started : List Callback := []
  invoked : List Completion := []
  /-- An assertion failed, or an empty callback was invoked. -/
  failed : Bool := false

namespace State

/-- Assign to a side. -/
def setSide (s : State) (x : SideId) (side : Side) : State :=
  { s with side := Function.update s.side x side }

/-- `poster_`. -/
def post (s : State) (event : Event) : State := { s with events := s.events ++ [event] }

/-- `std::memcpy` to a buffer. -/
def memcpy (s : State) (buffer : ℕ) (data : Bytes) : State :=
  { s with
    memory := Function.update s.memory buffer (data ++ (s.memory buffer).drop data.length) }

end State

/-! ### Operations -/

/-- `AsyncReadSome`. -/
def asyncReadSome (x : SideId) (buffer : Span) (callback : Callback) (s : State) : State :=
  let other := s.side x.other
  if other.outstandingWriteBuffer.length ≠ 0 then
    let toCopy := min buffer.size other.outstandingWriteBuffer.length
    ((s.memcpy buffer.buffer (other.outstandingWriteBuffer.take toCopy)).setSide x
      { s.side x with pendingReadCallback := some callback }).post (.read x toCopy)
  else if (s.side x).outstandingReadBuffer.size ≠ 0 then { s with failed := true }
  else if buffer.size = 0 then
    (s.setSide x { s.side x with pendingReadCallback := some callback }).post (.readZero x)
  else
    s.setSide x { s.side x with
      outstandingReadBuffer := buffer
      outstandingReadCallback := some callback }

/-- `AsyncWriteSome`. -/
def asyncWriteSome (x : SideId) (buffer : Bytes) (callback : Callback) (s : State) : State :=
  let other := s.side x.other
  if other.outstandingReadBuffer.size ≠ 0 then
    let toCopy := min buffer.length other.outstandingReadBuffer.size
    ((s.memcpy other.outstandingReadBuffer.buffer (buffer.take toCopy)).setSide x
      { s.side x with pendingWriteCallback := some callback }).post (.write x toCopy)
  else if (s.side x).outstandingWriteBuffer.length ≠ 0 then { s with failed := true }
  else if buffer.length = 0 then
    (s.setSide x { s.side x with pendingWriteCallback := some callback }).post (.writeZero x)
  else
    s.setSide x { s.side x with
      outstandingWriteBuffer := buffer
      outstandingWriteCallback := some callback }

/-- An event runs: up to its first callback. -/
def runEvent (s : State) : Event → State
  | .read x toCopy =>
    let readCbk := (s.side x).pendingReadCallback
    let s := s.setSide x { s.side x with pendingReadCallback := none }
    let other := s.side x.other
    let writeCbk := other.outstandingWriteCallback
    let s := s.setSide x.other { other with
      outstandingWriteCallback := none
      outstandingWriteBuffer := [] }
    { s with calls := (readCbk, toCopy) :: (writeCbk, toCopy) :: s.calls }
  | .write x toCopy =>
    let writeCbk := (s.side x).pendingWriteCallback
    let s := s.setSide x { s.side x with pendingWriteCallback := none }
    let other := s.side x.other
    let readCbk := other.outstandingReadCallback
    let s := s.setSide x.other { other with
      outstandingReadCallback := none
      outstandingReadBuffer := {} }
    { s with calls := (writeCbk, toCopy) :: (readCbk, toCopy) :: s.calls }
  | .readZero x =>
    let cbk := (s.side x).pendingReadCallback
    let s := s.setSide x { s.side x with pendingReadCallback := none }
    { s with calls := (cbk, 0) :: s.calls }
  | .writeZero x =>
    let cbk := (s.side x).pendingWriteCallback
    let s := s.setSide x { s.side x with pendingWriteCallback := none }
    { s with calls := (cbk, 0) :: s.calls }

/-- The bytes that a callback is told of by a size. -/
def Callback.bytes (memory : ℕ → Bytes) (callback : Callback) (size : ℕ) : Bytes :=
  match callback.op with
  | .read _ _ => (memory callback.number).take size
  | .write _ data => data.take size

/-- A callback is invoked. -/
def invoke (s : State) : Option Callback × ℕ → State
  | (none, _) => { s with failed := true }
  | (some callback, size) =>
    { s with invoked := s.invoked ++ [⟨callback, size, callback.bytes s.memory size⟩] }

/-! ### Steps -/

/-- The kinds of operations of the two sides. -/
inductive Port
  | reader (side : SideId)
  | writer (side : SideId)
deriving DecidableEq, Repr

/-- Where an operation belongs. -/
def Op.port : Op → Port
  | read x _ => .reader x
  | write x _ => .writer x

/-- The callbacks that were invoked. -/
def State.invokedCallbacks (s : State) : List Callback := s.invoked.map Completion.callback

/-- No operation is outstanding: the callback of every one that was started was invoked. -/
def State.Idle (s : State) (p : Port) : Prop :=
  ∀ callback ∈ s.started, callback.op.port = p → callback ∈ s.invokedCallbacks

instance (s : State) (p : Port) : Decidable (s.Idle p) :=
  inferInstanceAs (Decidable (∀ _ ∈ _, _))

/-- What can happen. -/
inductive Action
  /-- A read into a buffer with the given contents. -/
  | asyncReadSome (side : SideId) (contents : Bytes)
  | asyncWriteSome (side : SideId) (data : Bytes)
  /-- One of the posted events runs. -/
  | runEvent (index : ℕ)
  /-- The next callback of the event that runs is invoked. -/
  | invoke
deriving DecidableEq, Repr

/-- One step; none where the action is not possible. -/
def step (s : State) : Action → Option State
  | .asyncReadSome x contents =>
    let number := s.started.length
    let callback : Callback := ⟨number, .read x contents.length⟩
    if s.Idle (.reader x) then
      some (asyncReadSome x ⟨number, contents.length⟩ callback { s with
        memory := Function.update s.memory number contents
        started := s.started ++ [callback] })
    else none
  | .asyncWriteSome x data =>
    let callback : Callback := ⟨s.started.length, .write x data⟩
    if s.Idle (.writer x) then
      some (asyncWriteSome x data callback { s with started := s.started ++ [callback] })
    else none
  | .runEvent index =>
    s.events[index]?.map fun event =>
      runEvent { s with events := s.events.eraseIdx index } event
  | .invoke =>
    match s.calls with
    | [] => none
    | call :: calls => some (invoke { s with calls } call)

end Mjlib.Micro.StreamPipe
