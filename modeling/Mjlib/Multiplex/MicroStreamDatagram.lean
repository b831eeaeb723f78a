import Mjlib.Lib.Run
import Mjlib.Multiplex.Frame

/-!
# `MicroStreamDatagram`

The receiver and the sender of frames over a byte stream.  The receiver is a state machine over the
bytes it has buffered: `step` performs one client call or one completion of the stream.

Every path of the source that invokes the client's callback does nothing afterwards but return, so a
client that calls `AsyncRead` from inside its callback is the same as one that calls it next.
-/

namespace Mjlib.Multiplex.MicroStreamDatagram

/-- `MicroStreamDatagram::Options`; the size is a `size_t`. -/
structure Options where
  bufferSize : ℕ := 256
  bufferSize_lt : bufferSize < 2 ^ 64 := by decide

/-- `MicroDatagramServer::Header`, as far as this class reads or writes it. -/
structure Header where
  source : ℕ
  destination : ℕ
  size : ℕ
deriving DecidableEq, Repr

/-- An invocation of the client's read callback: the header and the bytes stored for it and whether
the error is `errc::kPayloadTruncated`; or the error of the stream. -/
inductive Callback
  | datagram (header : Header) (data : Bytes) (payloadTruncated : Bool)
  | error
deriving DecidableEq, Repr

/-- The receive state of `MicroStreamDatagram::Impl`. -/
structure State where
  /-- `read_buffer_[0 .. read_start_)`. -/
  readBuffer : Bytes
  /-- The size of `current_read_data_`, while `current_read_callback_` is set. -/
  currentRead : Option ℕ
  /-- The space offered by each `AsyncReadSome` that has not completed. -/
  streamReads : List ℕ
  /-- The callbacks invoked so far. -/
  callbacks : List Callback
  /-- `stats_.checksum_mismatch`. -/
  checksumMismatch : UInt32
deriving DecidableEq, Repr

/-- The state of a newly constructed object. -/
def init : State := ⟨[], none, [], [], 0⟩

/-- `a - b` in `size_t`. -/
def sizeSub (a b : ℕ) : ℕ := (a + 2 ^ 64 - b) % 2 ^ 64

/-- `Consume`. -/
def consume (size : ℕ) (s : State) : State := { s with readBuffer := s.readBuffer.drop size }

/-- `InvokeReadCallback`. -/
def invokeReadCallback (callback : Callback) (s : State) : State :=
  { s with currentRead := none, callbacks := s.callbacks ++ [callback] }

variable (crc : Bytes → UInt16) (o : Options)

/-- `TryEmitOneFrame`, with the value it returns.  It is called only while a read is pending. -/
def tryEmitOneFrame (s : State) : Bool × State :=
  match s.readBuffer.findIdx? (· == kHeaderLowByte) with
  | none => (false, { s with readBuffer := [] })
  | some found =>
    let s := consume found s
    if s.readBuffer.length < 2 then (false, s)
    else if s.readBuffer.getD 1 0 ≠ kHeaderHighByte then
      -- the second byte is not that of a header
      (true, consume 2 s)
    else if s.readBuffer.length < kHeaderSize + kCrcSize + kMinVaruintSize then (false, s)
    else
      let data := s.readBuffer.drop 2
      let (maybeSourceId, data) := BufferReadStream.readU8 data
      let (maybeDestId, data) := BufferReadStream.readU8 data
      let (maybeSize, data) := BufferReadStream.readVaruint data
      match maybeSize with
      | none => (false, s)
      | some size =>
        let payloadSize := size.toNat
        if payloadSize > 4096 then (false, { s with readBuffer := [] })
        else if payloadSize > sizeSub o.bufferSize 7 then (false, { s with readBuffer := [] })
        else if data.length < payloadSize + 2 then (false, s)
        else
          let crcLocation := s.readBuffer.length - data.length + payloadSize
          let expectedCrc := crc (s.readBuffer.take crcLocation)
          let (maybeActualCrc, _) := BufferReadStream.readScalar 2 (data.drop payloadSize)
          if some expectedCrc.toNat ≠ maybeActualCrc then
            (false, consume 2 { s with checksumMismatch := s.checksumMismatch + 1 })
          else
            let sizeToWrite := min payloadSize (s.currentRead.getD 0)
            let header : Header :=
              ⟨(maybeSourceId.getD 0).toNat, (maybeDestId.getD 0).toNat, payloadSize⟩
            (true, invokeReadCallback
              (.datagram header (data.take sizeToWrite) (payloadSize > sizeToWrite))
              (consume (crcLocation + 2) s))

/-- `StartReadFrame`. -/
def startReadFrame (s : State) : State :=
  { s with streamReads := s.streamReads ++ [o.bufferSize - s.readBuffer.length] }

/-- `AsyncRead`, for a client buffer of the given size. -/
def asyncRead (dataSize : ℕ) (s : State) : State :=
  let r := tryEmitOneFrame crc o { s with currentRead := some dataSize }
  if r.1 then r.2 else startReadFrame o r.2

/-- `HandleReadFrame` without an error, with the bytes that were read. -/
def handleReadFrame (bytes : Bytes) (s : State) : State :=
  let r := tryEmitOneFrame crc o { s with readBuffer := s.readBuffer ++ bytes }
  if r.1 then r.2 else startReadFrame o r.2

/-- `HandleReadFrame` with an error. -/
def handleReadError (s : State) : State :=
  invokeReadCallback .error { s with readBuffer := [] }

/-! ### Steps -/

/-- What can happen to the receiver. -/
inductive Action
  /-- The client calls `AsyncRead` with a buffer of the given size. -/
  | asyncRead (dataSize : ℕ)
  /-- The stream's oldest `AsyncReadSome` completes with the given bytes. -/
  | readSome (bytes : Bytes)
  /-- The stream's oldest `AsyncReadSome` fails. -/
  | readError
deriving DecidableEq, Repr

/-- One step; `none` where the action is not possible: `AsyncRead` asserts that no read is pending,
and a completion needs an outstanding read and brings between one byte and the space it has. -/
def step (s : State) : Action → Option State
  | .asyncRead dataSize => if s.currentRead.isSome then none else some (asyncRead crc o dataSize s)
  | .readSome bytes =>
    match s.streamReads with
    | [] => none
    | space :: reads =>
      if bytes = [] ∨ space < bytes.length then none
      else some (handleReadFrame crc o bytes { s with streamReads := reads })
  | .readError =>
    match s.streamReads with
    | [] => none
    | _ :: reads => some (handleReadError { s with streamReads := reads })

/-- The bytes the stream has brought. -/
def supplied (as : List Action) : Bytes :=
  as.flatMap fun
    | .readSome bytes => bytes
    | _ => []

theorem supplied_append (as bs : List Action) : supplied (as ++ bs) = supplied as ++ supplied bs :=
  List.flatMap_append

/-- The number of times the client has called `AsyncRead`. -/
def requested (as : List Action) : ℕ :=
  as.countP fun
    | .asyncRead _ => true
    | _ => false

/-! ### Sending -/

/-- `AsyncWrite`: the bytes handed to the stream, or `none` where it asserts.  The header ends where
the payload is placed because `GetVaruintSize` counts the bytes `WriteVaruint` writes. -/
def asyncWrite (header : Header) (data : Bytes) : Option Bytes :=
  let headerSize := 2 + 1 + 1 + getVaruintSize (UInt32.ofNat data.length)
  if headerSize + kCrcSize + data.length < o.bufferSize then
    let written := scalarBytes 2 kHeader ++ [UInt8.ofNat header.source] ++
      [UInt8.ofNat header.destination] ++ writeVaruint (UInt32.ofNat data.length) ++ data
    some (written ++ scalarBytes 2 (crc written).toNat)
  else none

end Mjlib.Multiplex.MicroStreamDatagram
