import Mjlib.Multiplex.FdcanusbFrameStream
import Mjlib.Multiplex.Rs485FrameStream

/-!
# The reads of a frame stream, and their timer

`Rs485FrameStream` and `FdcanusbFrameStream` treat the callback of a read and its timeout alike: one
callback and one timer serve all reads, which come one at a time.  `Receiver` is a frame stream
without these two, and `step` adds them: the callback of the pending read, the wait on the timer, the
handlers of waits that have ended, and the callbacks that are posted.

A wait ends when the timer expires, or when it is cancelled or armed again; its handler is queued
then, with an error in the second case.  Nothing takes back a handler that is queued.
-/

namespace Mjlib.Multiplex.FrameRead

/-- A frame stream without its callback and its timer. -/
structure Receiver (σ : Type*) where
  init : σ
  /-- `*current_frame_`, while there is a pending read. -/
  currentFrame : σ → Option Frame
  /-- `MaybeStartRead`, for a new read into a frame. -/
  asyncRead : Frame → σ → Option σ
  /-- `HandleRead`. -/
  readSome : Bytes → σ → Option σ
  /-- What `HandleTimer` does besides calling the callback. -/
  handleTimer : σ → σ
  /-- What `cancel` does besides posting the callback, if it may be called. -/
  cancel : Option (σ → σ)
  /-- Whether the timer is cancelled when a frame is there. -/
  emitCancels : Bool
  currentFrame_init : currentFrame init = none
  currentFrame_readSome : ∀ bytes s s', readSome bytes s = some s' → currentFrame s = none →
    currentFrame s' = none
  currentFrame_handleTimer : ∀ s, currentFrame (handleTimer s) = none
  currentFrame_cancel : ∀ f ∈ cancel, ∀ s, currentFrame (f s) = none

/-- What a read's callback is told. -/
inductive ErrorCode
  | success
  | operationAborted
deriving DecidableEq, Repr

/-- A receiver, its reads (numbered in the order of the calls of `AsyncRead`) and its timer. -/
structure State (σ : Type*) where
  receiver : σ
  /-- The number of reads so far. -/
  reads : ℕ := 0
  /-- The read whose callback is `current_callback_`. -/
  current : Option ℕ := none
  /-- The read that armed the timer, while the wait is pending. -/
  armed : Option ℕ := none
  /-- The handlers of waits that have ended, and whether the timer has expired. -/
  queued : List (ℕ × Bool) := []
  /-- The reads whose wait has ended because the timer expired. -/
  expired : List ℕ := []
  /-- The reads that were cancelled. -/
  cancelled : List ℕ := []
  /-- The callbacks that are posted. -/
  posted : List (ℕ × ErrorCode) := []
  /-- The callbacks that were called. -/
  called : List (ℕ × ErrorCode) := []
deriving DecidableEq, Repr

variable {σ : Type*} (R : Receiver σ)

/-- The state of a new object. -/
def init : State σ := { receiver := R.init }

namespace State

variable (s : State σ)

/-- `timer_.cancel()`: the handler of a pending wait is queued. -/
def cancelTimer : State σ :=
  { s with armed := none, queued := s.queued ++ s.armed.toList.map fun r => (r, false) }

/-- The receiver has looked at its buffer: if it has a frame now, it has posted the callback. -/
def emitted (receiver : σ) : State σ :=
  match R.currentFrame receiver, s.current with
  | none, some r =>
    let s := { s with receiver, current := none, posted := s.posted ++ [(r, .success)] }
    if R.emitCancels then s.cancelTimer else s
  | _, _ => { s with receiver }

end State

/-- What can happen. -/
inductive Action
  /-- `AsyncRead`, with a timeout or none. -/
  | asyncRead (frame : Frame) (timeout : Bool)
  /-- The outstanding `async_read_some` completes with the given bytes. -/
  | readSome (bytes : Bytes)
  /-- The timer expires. -/
  | expire
  /-- The given handler of a wait is run. -/
  | handleTimer (i : ℕ)
  /-- `cancel`. -/
  | cancel
  /-- The given callback that is posted is called. -/
  | callback (i : ℕ)
deriving DecidableEq, Repr

/-- One step; `none` where the action is not possible, or where the code asserts or goes wrong. -/
def step (s : State σ) : Action → Option (State σ)
  | .asyncRead frame timeout =>
    if s.current.isSome then none
    else
      -- arming the timer cancels the wait that may be pending
      let s := s.cancelTimer
      let s := { s with
        reads := s.reads + 1, current := some s.reads
        armed := if timeout then some s.reads else none }
      (R.asyncRead frame s.receiver).map (s.emitted R)
  | .readSome bytes => (R.readSome bytes s.receiver).map (s.emitted R)
  | .expire =>
    s.armed.map fun r =>
      { s with armed := none, queued := s.queued ++ [(r, true)], expired := s.expired ++ [r] }
  | .handleTimer i =>
    s.queued[i]?.map fun (_, expired) =>
      let s := { s with queued := s.queued.eraseIdx i }
      if expired then
        { s with
          receiver := R.handleTimer s.receiver
          current := none
          called := s.called ++ s.current.toList.map fun r => (r, .operationAborted) }
      else s
  | .cancel =>
    R.cancel.map fun f =>
      match s.current with
      | none => s
      | some r =>
        { s with
          receiver := f s.receiver
          current := none
          posted := s.posted ++ [(r, .operationAborted)]
          cancelled := s.cancelled ++ [r] }
  | .callback i =>
    s.posted[i]?.map fun c => { s with posted := s.posted.eraseIdx i, called := s.called ++ [c] }

/-! ### The two frame streams -/

theorem rs485_currentFrame_readSome {crc : Bytes → UInt16} {bytes : Bytes}
    {s s' : Rs485FrameStream.State} (h : Rs485FrameStream.step crc s (.readSome bytes) = some s')
    (hs : s.currentFrame = none) : s'.currentFrame = none := by
  unfold Rs485FrameStream.step Rs485FrameStream.handleRead Rs485FrameStream.maybeStartRead at h
  dsimp only at h
  split_ifs at h with hread hsome
  · rw [hs] at hsome
    cases hsome
  · rw [Option.bind_some, if_neg nofun, if_pos (by rw [hs]; rfl)] at h
    cases h
    exact hs

/-- `Rs485FrameStream`. -/
def rs485 (crc : Bytes → UInt16) : Receiver Rs485FrameStream.State where
  init := Rs485FrameStream.init
  currentFrame s := s.currentFrame
  asyncRead frame s := Rs485FrameStream.step crc s (.asyncRead frame)
  readSome bytes s := Rs485FrameStream.step crc s (.readSome bytes)
  handleTimer s := { s with currentFrame := none }
  cancel := some fun s => { s with currentFrame := none }
  emitCancels := false
  currentFrame_init := rfl
  currentFrame_readSome _ _ _ := rs485_currentFrame_readSome
  currentFrame_handleTimer _ := rfl
  currentFrame_cancel f hf s := by
    obtain rfl := Option.some.inj hf
    rfl

theorem fdcanusb_currentFrame_readSome {beyond bytes : Bytes} {s s' : FdcanusbFrameStream.State}
    (h : FdcanusbFrameStream.step beyond s (.readSome bytes) = some s')
    (hs : s.currentFrame = none) : s'.currentFrame = none := by
  unfold FdcanusbFrameStream.step FdcanusbFrameStream.handleRead at h
  dsimp only at h
  split_ifs at h with hread
  unfold FdcanusbFrameStream.parseLoop FdcanusbFrameStream.maybeStartRead at h
  dsimp only at h
  rw [hs, if_neg nofun, Option.bind_some] at h
  cases h
  rfl

/-- `FdcanusbFrameStream`. -/
def fdcanusb (beyond : Bytes) : Receiver FdcanusbFrameStream.State where
  init := {}
  currentFrame s := s.currentFrame
  asyncRead frame s := FdcanusbFrameStream.step beyond s (.asyncRead frame)
  readSome bytes s := FdcanusbFrameStream.step beyond s (.readSome bytes)
  handleTimer s := { s with currentFrame := none, outstandingOks := 0 }
  cancel := none
  emitCancels := true
  currentFrame_init := rfl
  currentFrame_readSome _ _ _ := fdcanusb_currentFrame_readSome
  currentFrame_handleTimer _ := rfl
  currentFrame_cancel f hf := nomatch hf

end Mjlib.Multiplex.FrameRead
