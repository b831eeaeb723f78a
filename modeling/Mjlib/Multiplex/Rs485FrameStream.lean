import Mjlib.Lib.Run
import Mjlib.Multiplex.Frame

/-!
# `Rs485FrameStream`

The receiver of frames on the host's side.  `parsePass` is one pass of the loop of `ParseFrame` and
`step` performs one client call, one completion of the stream, or an expiry of the timer.

`ParseFrame` computes `*maybe_payload_size + 2` in 32 bits, so a size of `2 ^ 32 - 2` or more passes
the check that everything is there, and it then dereferences the empty result of reading the
checksum.  The model has no next state for that.
-/

namespace Mjlib.Multiplex.Rs485FrameStream

/-- `kBlockSize`, the most one read of the stream can bring. -/
def kBlockSize : ℕ := 4096

/-- `DiscardUntil`. -/
def discardUntil (value : UInt8) (buf : Bytes) : Bytes := buf.dropWhile (· ≠ value)

/-- How a pass of the loop of `ParseFrame` ends, with `*current_frame_` and the buffer. -/
inductive Pass
  /-- It returns: the buffer does not hold a whole frame. -/
  | wait (frame : Frame) (buf : Bytes)
  /-- It discards two bytes and tries again. -/
  | again (frame : Frame) (buf : Bytes)
  /-- It posts the callback. -/
  | emit (frame : Frame) (buf : Bytes)
deriving DecidableEq, Repr

variable (crc : Bytes → UInt16)

/-- One pass of the loop of `ParseFrame`. -/
def parsePass (frame : Frame) (buf : Bytes) : Option Pass :=
  let buf := discardUntil kHeaderLowByte buf
  match ReadStream.readScalar 2 buf with
  | (none, _) => some (.wait frame buf)
  | (some header, data) =>
    if header ≠ kHeader then some (.again frame (buf.drop 2))
    else match ReadStream.readU8 data with
      | (none, _) => some (.wait frame buf)
      | (some sourceId, data) =>
        let frame := { frame with
          sourceId := sourceId &&& 0x7f, requestReply := sourceId &&& 0x80 != 0 }
        match ReadStream.readU8 data with
        | (none, _) => some (.wait frame buf)
        | (some destId, data) =>
          let frame := { frame with destId := destId }
          match ReadStream.readVaruint data with
          | (none, _) => some (.wait frame buf)
          | (some payloadSize, data) =>
            if data.length < (payloadSize + 2).toNat then some (.wait frame buf)
            else
              let frame := { frame with payload := data.take payloadSize.toNat }
              let data := data.drop payloadSize.toNat
              let calculatedChecksum := crc (buf.take (buf.length - data.length))
              match ReadStream.readScalar 2 data with
              | (none, _) => none
              | (some readChecksum, data) =>
                if calculatedChecksum.toNat ≠ readChecksum then some (.again frame (buf.drop 2))
                else some (.emit frame data)

/-- The loop of `ParseFrame`; every pass but the last takes two bytes off the buffer. -/
def parseLoop : ℕ → Frame → Bytes → Option Pass
  | 0, frame, buf => some (.wait frame buf)
  | n + 1, frame, buf =>
    match parsePass crc frame buf with
    | some (.again frame buf) => parseLoop n frame buf
    | pass => pass

/-- The receive state of `Rs485FrameStream::Impl`. -/
structure State where
  streambuf : Bytes
  /-- `*current_frame_`, while `current_callback_` is set. -/
  currentFrame : Option Frame
  readOutstanding : Bool
  /-- The frames with which the callback was posted. -/
  posted : List Frame
deriving DecidableEq, Repr

/-- The state of a newly constructed object. -/
def init : State := ⟨[], none, false, []⟩

/-- `ParseFrame`; it asserts that there is a frame to read into. -/
def parseFrame (s : State) : Option State :=
  match s.currentFrame with
  | none => none
  | some frame =>
    match parseLoop crc (s.streambuf.length + 1) frame s.streambuf with
    | none => none
    | some (.emit frame buf) =>
      some { s with streambuf := buf, currentFrame := none, posted := s.posted ++ [frame] }
    | some (.wait frame buf) | some (.again frame buf) =>
      some { s with streambuf := buf, currentFrame := some frame }

/-- `MaybeStartRead`. -/
def maybeStartRead (s : State) : Option State :=
  if s.readOutstanding then some s
  else if s.currentFrame.isNone then some s
  else (parseFrame crc s).map fun s =>
    if s.currentFrame.isNone then s else { s with readOutstanding := true }

/-- `HandleRead` without an error, with the bytes that were read. -/
def handleRead (bytes : Bytes) (s : State) : Option State :=
  let s := { s with streambuf := s.streambuf ++ bytes, readOutstanding := false }
  (if s.currentFrame.isSome then parseFrame crc s else some s).bind (maybeStartRead crc)

/-! ### Steps -/

/-- What can happen to the receiver.  An error of the stream is thrown by `FailIf`. -/
inductive Action
  /-- The client calls `AsyncRead` for the given frame. -/
  | asyncRead (frame : Frame)
  /-- The outstanding `async_read_some` completes with the given bytes. -/
  | readSome (bytes : Bytes)
  /-- The timer of the pending read expires. -/
  | handleTimer
  /-- The client calls `cancel`. -/
  | cancel
deriving DecidableEq, Repr

/-- One step; `none` where the action is not possible, or where the code asserts or goes wrong. -/
def step (s : State) : Action → Option State
  | .asyncRead frame =>
    if s.currentFrame.isSome then none
    else maybeStartRead crc { s with currentFrame := some frame }
  | .readSome bytes =>
    if s.readOutstanding ∧ bytes ≠ [] ∧ bytes.length ≤ kBlockSize then handleRead crc bytes s
    else none
  | .handleTimer => some { s with currentFrame := none }
  | .cancel => some { s with currentFrame := none }

/-- The bytes the stream has brought. -/
def supplied (as : List Action) : Bytes :=
  as.flatMap fun
    | .readSome bytes => bytes
    | _ => []

theorem supplied_append (as bs : List Action) : supplied (as ++ bs) = supplied as ++ supplied bs :=
  List.flatMap_append

end Mjlib.Multiplex.Rs485FrameStream
