import Mjlib.Multiplex.MicroServerRun

/-!
# `MicroServer` and its `write_buffer_`

The handlers of the subframes once more, as what they do to the bytes of `write_buffer_`.  They get
at them through `response_stream` alone, which is null when a frame has no response: a call through it
is undefined then, and so has no result here.

A run is that of the server with the responses that are being written.  The outstanding write may
complete between two events, or from inside a callback while a frame is processed.
-/

namespace Mjlib.Multiplex.MicroServer

variable {σ τ : Type*}

/-- The state while a frame is processed, with the bytes of `write_buffer_`. -/
structure Buffered (σ τ : Type*) where
  state : State σ τ
  writeBuffer : Bytes

namespace Buffered

/-- Put bytes into a buffer; what falls behind its end is lost. -/
def store (offset : ℕ) (bytes buffer : Bytes) : Bytes :=
  (buffer.take offset ++ bytes ++ buffer.drop (offset + bytes.length)).take buffer.length

def modify (f : State σ τ → State σ τ) (b : Buffered σ τ) : Buffered σ τ :=
  { b with state := f b.state }

/-! ### The response stream -/

/-- `response->base()->write`. -/
def write (bytes : Bytes) (b : Buffered σ τ) : Option (Buffered σ τ) :=
  b.state.response.map fun w => ⟨b.state.respond bytes, store w.offset bytes b.writeBuffer⟩

/-- `response->WriteVaruint`. -/
def writeVaruint (value : UInt32) (b : Buffered σ τ) : Option (Buffered σ τ) :=
  b.write (Multiplex.writeVaruint value)

/-- `response->base()->reset`, to an earlier position. -/
def reset (position : ℕ) (b : Buffered σ τ) : Option (Buffered σ τ) :=
  b.state.response.map fun _ => b.modify (·.resetResponse position)

/-- `response->base()->position()`. -/
def position (b : Buffered σ τ) : Option ℕ := b.state.response.map (·.offset)

variable (env : Env σ τ)

/-! ### Tunnels -/

/-- The response to either tunnel subframe. -/
def tunnelResponse (channel : UInt32) (maxBytes : Option UInt32) (i : ℕ) (b : Buffered σ τ) :
    Option (Buffered σ τ) :=
  if b.state.response.isNone then some b
  else do
    let b ← b.writeVaruint (UInt32.ofNat Subframe.kServerToClient)
    let b ← b.writeVaruint channel
    let size := toCopy env maxBytes i b.state
    let b ← b.writeVaruint (UInt32.ofNat (size % 2 ^ 32).toNat)
    if 0 < size then
      let b ← b.write ((b.state.tunnel i).writeBuffer.take size.toNat)
      return b.modify fun s => callback (env.client.onWrite s.client i size.toNat)
        (s.modifyTunnel i fun t => { t with writeBuffer := [] })
    else return b

/-- `ProcessSubframeClientToServer`. -/
def processSubframeClientToServer (str : Bytes) (b : Buffered σ τ) :
    Option (Bool × Bytes × Buffered σ τ) :=
  let (maybeChannel, str) := BufferReadStream.readVaruint str
  let (maybeBytes, str) := BufferReadStream.readVaruint str
  match maybeChannel, maybeBytes with
  | some channel, some bytes =>
    if str.length < bytes.toNat then some (true, str, b)
    else match findTunnel channel b.state with
      | none => some (true, str, b)
      | some i =>
        let (str, b) :=
          if bytes.toNat > (b.state.tunnel i).remainingSpace then
            (str, b.modify fun s =>
              { s with stats.receiveOverrun := s.stats.receiveOverrun + 1 })
          else (str.drop bytes.toNat,
            b.modify fun s => s.modifyTunnel i (·.receive (str.take bytes.toNat)))
        let b := b.modify fun s => { (doReadTransfer env i s).2 with anythingToDo := true }
        (tunnelResponse env channel none i b).map fun b => (false, str, b)
  | _, _ => some (true, str, b)

/-- `ProcessSubframeClientPollServer`. -/
def processSubframeClientPollServer (str : Bytes) (b : Buffered σ τ) :
    Option (Bool × Bytes × Buffered σ τ) :=
  let (maybeChannel, str) := BufferReadStream.readVaruint str
  let (maybeMaxBytes, str) := BufferReadStream.readVaruint str
  match maybeChannel, maybeMaxBytes with
  | some channel, some maxBytes =>
    match findTunnel channel b.state with
    | none => some (true, str, b)
    | some i => (tunnelResponse env channel (some maxBytes) i b).map fun b => (false, str, b)
  | _, _ => some (true, str, b)

/-! ### Registers -/

/-- `EmitWriteError`. -/
def emitWriteError (errorReg : Register) (error : UInt32) (b : Buffered σ τ) :
    Option (Buffered σ τ) :=
  if b.state.response.isNone then some b
  else do
    let b ← b.writeVaruint (UInt32.ofNat Subframe.kWriteError)
    let b ← b.writeVaruint errorReg
    b.writeVaruint error

/-- `EmitReadError`. -/
def emitReadError (reg : Register) (error : UInt32) (b : Buffered σ τ) : Option (Buffered σ τ) := do
  let b ← b.writeVaruint (UInt32.ofNat Subframe.kReadError)
  let b ← b.writeVaruint reg
  b.writeVaruint error

/-- The loop of `ProcessSubframeWrite`, with the number of registers to go. -/
def writeRegisters (type : ℕ) :
    ℕ → Register → Bytes → Buffered σ τ → Option (WriteResult × Bytes × Buffered σ τ)
  | 0, _, str, b => some (.kContinue, str, b)
  | n + 1, reg, str, b =>
    match readValue type str with
    | (none, str) => some (.kMalformed, str, b)
    | (some value, str) =>
      let (action, s) := serverWrite env reg value b.state
      let b := { b with state := s }
      match action with
      | .success => writeRegisters type n (reg + 1) str b
      | .unknownRegister => (emitWriteError reg 1 b).bind (writeRegisters type n (reg + 1) str)
      | .notWriteable => (emitWriteError reg 2 b).bind (writeRegisters type n (reg + 1) str)
      | .discardRemaining =>
        some (.kDiscard, str,
          b.modify fun s => { s with stats.discards := s.stats.discards + 1 })

/-- `ProcessSubframeWrite`. -/
def processSubframeWrite (typeLength : ℕ) (str : Bytes) (b : Buffered σ τ) :
    Option (WriteResult × Bytes × Buffered σ τ) :=
  match readNumRegisters typeLength str with
  | (none, str) => some (.kMalformed, str, b)
  | (some numRegisters, str) =>
    match BufferReadStream.readVaruint str with
    | (none, str) => some (.kMalformed, str, b)
    | (some startRegister, str) =>
      writeRegisters env (typeLength / 4) numRegisters.toNat startRegister str b

/-- The loop of `ProcessSubframeRead`, with the number of registers to go; `start` is the position
before the subframe's response. -/
def readRegisters (type start : ℕ) :
    ℕ → Register → Buffered σ τ → Option (Bool × Buffered σ τ)
  | 0, _, b => some (false, b)
  | n + 1, reg, b =>
    let (result, s) := serverRead env reg type b.state
    let b := { b with state := s }
    match result with
    | .value value => (b.write value.bytes).bind (readRegisters type start n (reg + 1))
    | .error error => do
      let b ← b.reset start
      let b ← emitReadError reg error b
      return (true, b)

/-- The number of registers in a varuint of its own, if it has one. -/
def writeNumRegisters (typeLength : ℕ) (numRegisters : UInt32) (b : Buffered σ τ) :
    Option (Buffered σ τ) :=
  if typeLength % 4 = 0 then b.writeVaruint numRegisters else some b

/-- `ProcessSubframeRead`. -/
def processSubframeRead (typeLength : ℕ) (str : Bytes) (b : Buffered σ τ) :
    Option (Bool × Bytes × Buffered σ τ) :=
  if b.state.response.isNone then some (false, str, b)
  else match readNumRegisters typeLength str with
    | (none, str) => some (true, str, b)
    | (some numRegisters, str) =>
      match BufferReadStream.readVaruint str with
      | (none, str) => some (true, str, b)
      | (some startRegister, str) => b.position.bind fun start => do
        let subframeId := UInt32.ofNat
          (Subframe.kReplyBase ||| (typeLength / 4 * 4) ||| (typeLength % 4))
        let b ← b.writeVaruint subframeId
        let b ← b.writeNumRegisters typeLength numRegisters
        let b ← b.writeVaruint startRegister
        let (failed, b) ←
          readRegisters env (typeLength / 4) start numRegisters.toNat startRegister b
        return (failed, str, b)

/-! ### Frames -/

/-- `stats_.malformed_subframe++`. -/
def malformed (b : Buffered σ τ) : Buffered σ τ :=
  b.modify fun s => { s with stats.malformedSubframe := s.stats.malformedSubframe + 1 }

/-- One pass of the loop of `ProcessSubframes`. -/
def processSubframe (str : Bytes) (b : Buffered σ τ) : Option (Bool × Bytes × Buffered σ τ) :=
  match BufferReadStream.readVaruint str with
  | (none, str) => some (false, str,
      b.modify fun s => { s with stats.missingSubframe := s.stats.missingSubframe + 1 })
  | (some subframeType, str) =>
    let type := subframeType.toNat
    if type = Subframe.kClientToServer then
      (processSubframeClientToServer env str b).map fun
        | (true, str, b) => (false, str, b.malformed)
        | (false, str, b) => (true, str, b)
    else if type = Subframe.kClientPollServer then
      (processSubframeClientPollServer env str b).map fun
        | (true, str, b) => (false, str, b.malformed)
        | (false, str, b) => (true, str, b)
    else if type = Subframe.kNop then some (true, str, b)
    else if type ≥ Subframe.kWriteBase ∧ type < Subframe.kWriteBase + 16 then
      (processSubframeWrite env (type - Subframe.kWriteBase) str b).map fun
        | (.kMalformed, str, b) => (false, str, b.malformed)
        | (.kDiscard, str, b) => (false, str, b)
        | (.kContinue, str, b) => (true, str, b)
    else if type ≥ Subframe.kReadBase ∧ type < Subframe.kReadBase + 16 then
      (processSubframeRead env (type - Subframe.kReadBase) str b).map fun
        | (true, str, b) => (false, str, b.malformed)
        | (false, str, b) => (true, str, b)
    else some (false, str,
      b.modify fun s => { s with stats.unknownSubframe := s.stats.unknownSubframe + 1 })

/-- The loop of `ProcessSubframes`. -/
def processSubframesLoop : ℕ → Bytes → Buffered σ τ → Option (Buffered σ τ)
  | 0, _, b => some b
  | n + 1, str, b =>
    if str = [] then some b
    else (processSubframe env str b).bind fun
      | (true, str, b) => processSubframesLoop n str b
      | (false, _, b) => some b

/-- `ProcessSubframes`. -/
def processSubframes (subframes : Bytes) (b : Buffered σ τ) : Option (Buffered σ τ) :=
  processSubframesLoop env subframes.length subframes b

/-- `ProcessFrame`; the buffer is `options_.buffer_size` bytes long. -/
def processFrame (source destination : ℕ) (id : UInt8) (writeOutstanding : Bool)
    (subframes : Bytes) (b : Buffered σ τ) : Option (Option Bytes × Buffered σ τ) :=
  let mine := destination = (id &&& 0x7f).toNat ∧ destination ≠ kBroadcastId
  let b := if mine then b
    else b.modify fun s => { s with stats.wrongId := s.stats.wrongId + 1 }
  if ¬ mine ∧ destination ≠ kBroadcastId then some (none, b)
  else
    let needResponse := source &&& 0x80 ≠ 0 ∧ !writeOutstanding
    (processSubframes env subframes (b.modify fun s => { s with
      server := env.server.startFrame s.server
      response := if needResponse then some (.new b.writeBuffer.length) else none })).map fun b =>
        let (server, action) := env.server.completeFrame b.state.server
        let response := b.state.response.map (·.data)
        let b := b.modify fun s => { s with server := server, response := none }
        match action with
        | .discard =>
          (none, b.modify fun s => { s with stats.discards := s.stats.discards + 1 })
        | .accept => (response, b)

end Buffered

/-! ### Runs -/

/-- The server with the bytes of `write_buffer_`, and the datagram server's writes. -/
structure Device (σ τ : Type*) where
  impl : Impl σ τ
  writeBuffer : Bytes
  /-- The `AsyncWrite`s that are not complete. -/
  writing : List SentResponse := []

/-- An event for the server, or a datagram during whose processing a write completes. -/
inductive DeviceEvent (τ : Type*)
  | event (event : Event τ)
  | writtenInside (source destination : ℕ) (subframes : Bytes)

namespace Device

variable (env : Env σ τ)

/-- A server that is about to be started, with its tunnels and its buffer. -/
def init (server : σ) (client : τ) (ids : List UInt32) (writeBuffer : Bytes) : Device σ τ where
  impl := { state := {
    server := server
    client := client
    tunnels := ids.map fun id => { id := id } } }
  writeBuffer := writeBuffer

/-- `HandleWrite`, of the write that was issued first. -/
def handleWrite (d : Device σ τ) : Device σ τ :=
  { d with impl := { d.impl with writeOutstanding := false }, writing := d.writing.tail }

/-- `WriteResponse`; none where its assertion fails. -/
def writeResponse (clientId : ℕ) (data : Bytes) (d : Device σ τ) : Option (Device σ τ) :=
  if d.impl.writeOutstanding then none
  else some { d with
    impl := d.impl.writeResponse clientId data
    writing := d.writing ++ [⟨(d.impl.id &&& 0x7f).toNat, clientId, data⟩] }

/-- `HandleReadDatagram` without an error; `inside` is what completes while the frame is processed,
after `need_response` has been computed. -/
def handleReadDatagram (inside : Device σ τ → Device σ τ) (source destination : ℕ)
    (subframes : Bytes) (d : Device σ τ) : Option (Device σ τ) := do
  let (response, b) ← Buffered.processFrame env source destination d.impl.id
    d.impl.writeOutstanding subframes ⟨d.impl.state, d.writeBuffer⟩
  let d := inside { d with
    impl := { d.impl with state := b.state, readOutstanding := false }
    writeBuffer := b.writeBuffer }
  let d ← match response with
    | none => some d
    | some data => writeResponse (source &&& 0x7f) data d
  return { d with impl := d.impl.maybeStartReadFrame }

/-- One step; none where it cannot happen, where an assertion fails, and where a null pointer is
used. -/
def step (d : Device σ τ) : DeviceEvent τ → Option (Device σ τ)
  | .event .start => some { d with impl := d.impl.maybeStartReadFrame }
  | .event (.datagram source destination subframes) =>
    if d.impl.readOutstanding = true ∧ subframes.length ≤ d.writeBuffer.length then
      d.handleReadDatagram env id source destination subframes
    else none
  | .writtenInside source destination subframes =>
    if d.impl.readOutstanding = true ∧ subframes.length ≤ d.writeBuffer.length ∧
        d.writing ≠ [] then
      d.handleReadDatagram env handleWrite source destination subframes
    else none
  | .event .readError =>
    if d.impl.readOutstanding = true then some { d with impl := d.impl.maybeStartReadFrame }
    else none
  | .event .written => if d.writing ≠ [] then some d.handleWrite else none
  | .event .poll => some { d with impl := { d.impl with state := poll env d.impl.state } }
  | .event (.own act) =>
    some { d with impl := { d.impl with
      state := callback (act d.impl.state.client) d.impl.state } }
  | .event (.config id) => some { d with impl := { d.impl with id := id } }

end Device

end Mjlib.Multiplex.MicroServer
