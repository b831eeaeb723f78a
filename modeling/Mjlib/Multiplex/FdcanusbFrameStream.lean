import Mjlib.Base.Snprintf
import Mjlib.Base.Strtol
import Mjlib.Base.Tokenizer
import Mjlib.Lib.Run
import Mjlib.Multiplex.Frame

/-!
# `FdcanusbFrameStream`

Frames as lines of text: the adapter answers `OK` to what it is sent and passes on what it receives
as `rcv` lines.  `parseFrame` takes a line off the buffer and `step` performs one client call, one
completion of the stream, or an expiry of the timer.  `encodeFdcanusb` is the line that is sent,
with the padding up to a length that a frame on the bus can have.

The tokens of a line are pointers into the buffer, so `strtol` may read past the line; `beyond` is
what follows the buffer in memory.  A line with an odd number of digits makes `ParseLine` store one
more byte on the terminator of the payload, which is no part of it; `decode` is its loop with the
positions that it uses.
-/

namespace Mjlib.Multiplex.FdcanusbFrameStream

open Base

/-- `kBlockSize`, the most one read of the stream can bring. -/
def kBlockSize : ℕ := 4096

/-- `kMaxLineLength`. -/
def kMaxLineLength : ℕ := 512

/-- `"OK"`. -/
def okLine : Bytes := [0x4f, 0x4b]

/-- `"rcv "`. -/
def rcvStart : Bytes := [0x72, 0x63, 0x76, 0x20]

/-- `ParseHexNybble`; none for -1. -/
def parseHexNybble (c : UInt8) : Option UInt8 :=
  if 0x30 ≤ c ∧ c ≤ 0x39 then some (c - 0x30)
  else if 0x61 ≤ c ∧ c ≤ 0x66 then some (c - 0x61 + 10)
  else if 0x41 ≤ c ∧ c ≤ 0x46 then some (c - 0x41 + 10)
  else none

/-- `ParseHexByte`, as the byte that is stored for it. -/
def parseHexByte (high low : UInt8) : UInt8 :=
  match parseHexNybble high, parseHexNybble low with
  | some high, some low => high <<< 4 ||| low
  | _, _ => 0xff

/-- The payload that a data field stands for. -/
def parsePayload : Bytes → Bytes
  | high :: low :: data => parseHexByte high low :: parsePayload data
  | _ => []

/-- What the loop of `ParseLine` over a data field has done: the payload, and the positions of the
data field and of the payload that it has used. -/
structure Decode where
  payload : Bytes
  reads : List ℕ
  writes : List ℕ
deriving DecidableEq, Repr

/-- `ParseHexByte(&data[i])`: the byte, and the positions that are read.  `after` is what follows
the data field. -/
def parseHexByteAt (data after : Bytes) (i : ℕ) : UInt8 × List ℕ :=
  let value := (data ++ after).drop i
  let byte := parseHexByte (value.getD 0 0) (value.getD 1 0)
  if parseHexNybble (value.getD 0 0) = none then (byte, [i]) else (byte, [i, i + 1])

/-- The loop, from a position on. -/
def decodeLoop (data after : Bytes) : ℕ → ℕ → Decode → Decode
  | 0, _, d => d
  | n + 1, i, d =>
    if i < data.length then
      let (byte, reads) := parseHexByteAt data after i
      decodeLoop data after n (i + 2)
        { payload := d.payload.set (i / 2) byte
          reads := d.reads ++ reads
          writes := d.writes ++ [i / 2] }
    else d

/-- The decoding of a data field. -/
def decode (data after : Bytes) : Decode :=
  decodeLoop data after data.length 0 ⟨List.replicate (data.length / 2) 0, [], []⟩

/-! ### Payloads to send -/

/-- `RoundUpDlc`: the next length that a frame on the bus can have, and 0 if there is none. -/
def roundUpDlc (value : ℕ) : ℕ :=
  if value ≤ 8 then value
  else if value ≤ 12 then 12
  else if value ≤ 16 then 16
  else if value ≤ 20 then 20
  else if value ≤ 24 then 24
  else if value ≤ 32 then 32
  else if value ≤ 48 then 48
  else if value ≤ 64 then 64
  else 0

/-- The payload as it is on the bus, as `SocketcanFrameStream` stores it for a payload of at most 64
bytes. -/
def padded (payload : Bytes) : Bytes :=
  payload ++ List.replicate (roundUpDlc payload.length - payload.length) 0x50

/-- A digit of `{:x}`. -/
def hexDigit (n : UInt8) : UInt8 := if n < 10 then 0x30 + n else 0x61 + (n - 10)

/-- `{:02x}`. -/
def hexByte (c : UInt8) : Bytes := [hexDigit (c >>> 4), hexDigit (c &&& 0xf)]

/-- The data field that `EncodeFdcanusb` writes. -/
def encodePayload (payload : Bytes) : Bytes :=
  payload.flatMap hexByte
    ++ (List.replicate (roundUpDlc payload.length - payload.length) [0x35, 0x30]).flatten

/-- `"can send "`. -/
def canSend : Bytes := [0x63, 0x61, 0x6e, 0x20, 0x73, 0x65, 0x6e, 0x64, 0x20]

/-- The address that `EncodeFdcanusb` writes. -/
def sendAddress (frame : Frame) : ℕ := frame.sourceByte.toNat <<< 8 ||| frame.destId.toNat

/-- `EncodeFdcanusb`. -/
def encodeFdcanusb (frame : Frame) : Bytes :=
  canSend ++ hexadecimal (sendAddress frame) ++ [0x20] ++ encodePayload frame.payload ++ [0x0a]

/-! ### Lines -/

-- what follows the buffer in memory
variable (beyond : Bytes)

/-- The address and the data field of a line, if it has both. -/
def rcvFields (line : Bytes) : Option (Bytes × Bytes) :=
  let t : Tokenizer := ⟨[0x20], line⟩
  let (rcv, t) := t.next
  let (address, t) := t.next
  let (data, _) := t.next
  if (rcv.getD []).length = 0 ∨ (address.getD []).length = 0 ∨ (data.getD []).length = 0 then none
  else some (address.getD [], data.getD [])

/-- The frame that a `rcv` line stands for; the line is at the start of the buffer. -/
def rcvFrame (buf line : Bytes) : Option Frame :=
  match rcvFields line with
  | none => none
  | some (_, data) =>
    let address := BitVec.ofInt 64 (strtol 16 (buf.drop rcvStart.length ++ beyond)).1
    some
      { sourceId := UInt8.ofBitVec ((address.sshiftRight 8).setWidth 8) &&& 0x7f
        requestReply := UInt8.ofBitVec ((address.sshiftRight 8).setWidth 8) &&& 0x80 != 0
        destId := UInt8.ofBitVec (address.setWidth 8) &&& 0x7f
        payload := parsePayload data }

/-- The receive state of `FdcanusbFrameStream::Impl`. -/
structure State where
  streambuf : Bytes := []
  /-- `outstanding_oks_`. -/
  outstandingOks : ℤ := 0
  /-- `*current_frame_`, while `current_callback_` is set. -/
  currentFrame : Option Frame := none
  readOutstanding : Bool := false
  /-- The frames with which the callback was posted. -/
  posted : List Frame := []
deriving DecidableEq, Repr

/-- `ParseLine`, of a line at the start of the buffer. -/
def parseLine (line : Bytes) (s : State) : State :=
  if line.length = 0 then s
  else if line = okLine then { s with outstandingOks := max (s.outstandingOks - 1) 0 }
  else if rcvStart.isPrefixOf line then
    match rcvFrame beyond s.streambuf line with
    | none => s
    | some frame => { s with currentFrame := none, posted := s.posted ++ [frame] }
  else s

/-- The end of a line. -/
def isNewline (c : UInt8) : Bool := c = 0x0a ∨ c = 0x0d

/-- The first line of a buffer. -/
def firstLine (buf : Bytes) : Bytes := buf.takeWhile (!isNewline ·)

/-- `ParseFrame`: whether there was a line.  It asserts that there is a frame to read into. -/
def parseFrame (s : State) : Option (Bool × State) :=
  if s.currentFrame.isSome then
    let line := firstLine s.streambuf
    if line.length = s.streambuf.length then
      some (false, if line.length > kMaxLineLength then { s with streambuf := [] } else s)
    else
      let s' := parseLine beyond line s
      some (true, { s' with streambuf := s.streambuf.drop (line.length + 1) })
  else none

/-- `MaybeStartRead`. -/
def maybeStartRead (s : State) : Option State :=
  if s.readOutstanding then some s
  else if s.currentFrame.isSome then
    (parseFrame beyond s).map fun (_, s) =>
      if s.currentFrame.isSome then { s with readOutstanding := true } else s
  else some s

/-- The loop of `HandleRead`; every pass but the last takes a line off the buffer. -/
def parseLoop : ℕ → State → Option State
  | 0, s => some s
  | n + 1, s =>
    if s.currentFrame.isSome then
      (parseFrame beyond s).bind fun (more, s) => if more then parseLoop n s else some s
    else some s

/-- `HandleRead` without an error, with the bytes that were read. -/
def handleRead (bytes : Bytes) (s : State) : Option State :=
  let s := { s with streambuf := s.streambuf ++ bytes, readOutstanding := false }
  (parseLoop beyond (s.streambuf.length + 1) s).bind (maybeStartRead beyond)

/-! ### Steps -/

/-- What can happen to the receiver.  An error of the stream is thrown by `FailIf`. -/
inductive Action
  /-- The client calls `AsyncRead` for the given frame. -/
  | asyncRead (frame : Frame)
  /-- The client writes so many frames. -/
  | asyncWrite (n : ℕ)
  /-- The outstanding `async_read_some` completes with the given bytes. -/
  | readSome (bytes : Bytes)
  /-- The timer of the pending read expires. -/
  | handleTimer
deriving DecidableEq, Repr

/-- One step; `none` where the action is not possible, or where the code asserts. -/
def step (s : State) : Action → Option State
  | .asyncRead frame =>
    if s.currentFrame.isSome then none
    else maybeStartRead beyond { s with currentFrame := some frame }
  | .asyncWrite n => some { s with outstandingOks := s.outstandingOks + n }
  | .readSome bytes =>
    if s.readOutstanding ∧ bytes ≠ [] ∧ bytes.length ≤ kBlockSize then handleRead beyond bytes s
    else none
  | .handleTimer => some { s with currentFrame := none, outstandingOks := 0 }

end Mjlib.Multiplex.FdcanusbFrameStream
