import Mjlib.Multiplex.Stream

/-!
# `MicroServer`

The server's side of the register and tunnel services.  `processSubframe` is one pass of the loop of
`ProcessSubframes`, `processSubframes` the loop, `processFrame` what is done for a datagram.

The application is a parameter: a `Server` for the registers and a `Client` that owns the tunnels'
streams, each with a state of its own.  A tunnel's owner may start reads and writes on any tunnel
from inside a callback; it keeps to the assertion that no two are pending at once, so a call against
it has no effect here.

The response is written without a check of the room that is left, see `Base.BufferWriteStream`.
-/

namespace Mjlib.Multiplex.MicroServer

/-! ### The application -/

/-- `Server::WriteAction`. -/
inductive WriteAction
  | success
  | unknownRegister
  | notWriteable
  | discardRemaining
deriving DecidableEq, Repr

/-- `Server::Action`. -/
inductive Action
  | accept
  | discard
deriving DecidableEq, Repr

/-- `MicroServer::Server`; `Read` is a const method. -/
structure Server (σ : Type*) where
  startFrame : σ → σ
  write : σ → Register → Value → σ × WriteAction
  read : σ → Register → ℕ → ReadResult
  completeFrame : σ → σ × Action

/-- A call of a tunnel's stream, which is named by its index. -/
inductive TunnelCall
  | asyncReadSome (tunnel size : ℕ)
  | asyncWriteSome (tunnel : ℕ) (data : Bytes)
deriving DecidableEq, Repr

/-- The callbacks of the tunnels' owner: what it makes of the bytes read from, or of the number of
bytes written to, a tunnel, and what it calls from there. -/
structure Client (τ : Type*) where
  onRead : τ → ℕ → Bytes → τ × List TunnelCall
  onWrite : τ → ℕ → ℕ → τ × List TunnelCall

/-! ### The state -/

/-- `sizeof(TunnelStream::read_data_)`. -/
def readDataCapacity : ℕ := 128

/-- `TunnelStream`. -/
structure TunnelStream where
  id : UInt32
  /-- The size of `read_buffer_`. -/
  readBuffer : ℕ := 0
  /-- `read_data_[0 .. read_data_size_)`. -/
  readData : Bytes := []
  writeBuffer : Bytes := []
  readData_le : readData.length ≤ readDataCapacity := by first | exact Nat.zero_le _ | decide
deriving DecidableEq, Repr

namespace TunnelStream

/-- `sizeof(read_data_) - read_data_size_`. -/
def remainingSpace (t : TunnelStream) : ℕ := readDataCapacity - t.readData.length

/-- Store what fits of the bytes behind the data not yet read. -/
def receive (t : TunnelStream) (bytes : Bytes) : TunnelStream :=
  if h : bytes.length ≤ t.remainingSpace then
    { t with
      readData := t.readData ++ bytes
      readData_le := by
        have := t.readData_le
        rw [remainingSpace] at h
        rw [List.length_append]
        omega }
  else t

/-- Hand over the first bytes of the data. -/
def consume (t : TunnelStream) (size : ℕ) : TunnelStream :=
  { t with
    readBuffer := 0
    readData := t.readData.drop size
    readData_le := by
      have := t.readData_le
      rw [List.length_drop]
      omega }

end TunnelStream

/-- The counters of `Stats` that processing a frame changes. -/
structure Stats where
  wrongId : UInt32 := 0
  receiveOverrun : UInt32 := 0
  unknownSubframe : UInt32 := 0
  missingSubframe : UInt32 := 0
  malformedSubframe : UInt32 := 0
  discards : UInt32 := 0
deriving DecidableEq, Repr

/-- A call of the server, with what it answered. -/
inductive Call
  | write (reg : Register) (value : Value) (action : WriteAction)
  | read (reg : Register) (type : ℕ) (result : ReadResult)
deriving DecidableEq, Repr

/-- The state of the application and of `MicroServer::Impl` while a frame is processed. -/
structure State (σ τ : Type*) where
  server : σ
  client : τ
  tunnels : List TunnelStream
  anythingToDo : Bool := false
  stats : Stats := {}
  /-- The stream of the response; `none` when `response_stream` is null. -/
  response : Option Base.BufferWriteStream := none
  /-- The calls of the server so far. -/
  calls : List Call := []
deriving DecidableEq

/-- What does not change: the application's code and `datagram_properties_.max_size`. -/
structure Env (σ τ : Type*) where
  server : Server σ
  client : Client τ
  maxSize : ℤ

variable {σ τ : Type*} (env : Env σ τ)

namespace State

/-- Write bytes to the response, if there is one. -/
def respond (bytes : Bytes) (s : State σ τ) : State σ τ :=
  { s with response := s.response.map (·.put bytes) }

/-- `response->WriteVaruint`. -/
def respondVaruint (value : UInt32) (s : State σ τ) : State σ τ := s.respond (writeVaruint value)

/-- `response->base()->reset`, to an earlier position. -/
def resetResponse (position : ℕ) (s : State σ τ) : State σ τ :=
  { s with response := s.response.map (·.reset position) }

/-- `response->base()->position()`. -/
def responsePosition (s : State σ τ) : ℕ := (s.response.map (·.offset)).getD 0

def modifyTunnel (i : ℕ) (f : TunnelStream → TunnelStream) (s : State σ τ) : State σ τ :=
  { s with tunnels := s.tunnels.modify i f }

def tunnel (i : ℕ) (s : State σ τ) : TunnelStream := s.tunnels.getD i { id := 0 }

end State

/-! ### Tunnels -/

/-- `TunnelStream::AsyncReadSome` and `AsyncWriteSome`. -/
def tunnelCall (s : State σ τ) : TunnelCall → State σ τ
  | .asyncReadSome i size =>
    if (s.tunnel i).readBuffer = 0 then
      { s.modifyTunnel i fun t => { t with readBuffer := size } with
        anythingToDo := s.anythingToDo || (size != 0 && (s.tunnel i).readData != []) }
    else s
  | .asyncWriteSome i data =>
    if (s.tunnel i).writeBuffer = [] then
      s.modifyTunnel i fun t => { t with writeBuffer := data }
    else s

/-- What the owner of the tunnels does in a callback. -/
def callback (result : τ × List TunnelCall) (s : State σ τ) : State σ τ :=
  result.2.foldl tunnelCall { s with client := result.1 }

/-- `TunnelStream::DoReadTransfer`, with the value it returns. -/
def doReadTransfer (i : ℕ) (s : State σ τ) : Bool × State σ τ :=
  let t := s.tunnel i
  if t.readData = [] then (false, s)
  else if t.readBuffer = 0 then (false, s)
  else
    let toCopy := min t.readBuffer t.readData.length
    (true, callback (env.client.onRead s.client i (t.readData.take toCopy))
      (s.modifyTunnel i (·.consume toCopy)))

/-- `Poll`. -/
def poll (s : State σ τ) : State σ τ :=
  if !s.anythingToDo then s
  else
    let r := (List.range s.tunnels.length).foldl
      (fun (r : Bool × State σ τ) i =>
        let r' := doReadTransfer env i r.2
        (r.1 && !r'.1, r'.2)) (true, s)
    if r.1 then { r.2 with anythingToDo := false } else r.2

/-- `FindTunnel`, as an index. -/
def findTunnel (id : UInt32) (s : State σ τ) : Option ℕ := s.tunnels.findIdx? (·.id == id)

/-- `kNeededOverhead`: `kMaxVaruintSize + kCrcSize + kExtraPadding`. -/
def kNeededOverhead : ℤ := kMaxVaruintSize + kCrcSize + 16

/-- The number of bytes a tunnel's response carries; `maxBytes` is the client's limit, if it gives
one. -/
def toCopy (maxBytes : Option UInt32) (i : ℕ) (s : State σ τ) : ℤ :=
  let remaining := ((s.response.map (·.remaining)).getD 0)
  let available := min ((s.tunnel i).writeBuffer.length : ℤ) (remaining - kNeededOverhead)
  min (env.maxSize - kNeededOverhead)
    (match maxBytes with
      | none => available
      | some maxBytes => min (maxBytes.toNat : ℤ) available)

/-- The response to either tunnel subframe. -/
def tunnelResponse (channel : UInt32) (maxBytes : Option UInt32) (i : ℕ) (s : State σ τ) :
    State σ τ :=
  if s.response.isNone then s
  else
    let s := (s.respondVaruint (UInt32.ofNat Subframe.kServerToClient)).respondVaruint channel
    let size := toCopy env maxBytes i s
    let s := s.respondVaruint (UInt32.ofNat (size % 2 ^ 32).toNat)
    if 0 < size then
      let s := s.respond ((s.tunnel i).writeBuffer.take size.toNat)
      callback (env.client.onWrite s.client i size.toNat)
        (s.modifyTunnel i fun t => { t with writeBuffer := [] })
    else s

/-- `ProcessSubframeClientToServer`: whether the subframe is malformed, and what is left. -/
def processSubframeClientToServer (str : Bytes) (s : State σ τ) : Bool × Bytes × State σ τ :=
  let (maybeChannel, str) := BufferReadStream.readVaruint str
  let (maybeBytes, str) := BufferReadStream.readVaruint str
  match maybeChannel, maybeBytes with
  | some channel, some bytes =>
    if str.length < bytes.toNat then (true, str, s)
    else match findTunnel channel s with
      | none => (true, str, s)
      | some i =>
        let (str, s) :=
          if bytes.toNat > (s.tunnel i).remainingSpace then
            (str, { s with stats.receiveOverrun := s.stats.receiveOverrun + 1 })
          else (str.drop bytes.toNat, s.modifyTunnel i (·.receive (str.take bytes.toNat)))
        let s := { (doReadTransfer env i s).2 with anythingToDo := true }
        (false, str, tunnelResponse env channel none i s)
  | _, _ => (true, str, s)

/-- `ProcessSubframeClientPollServer`: whether the subframe is malformed, and what is left. -/
def processSubframeClientPollServer (str : Bytes) (s : State σ τ) : Bool × Bytes × State σ τ :=
  let (maybeChannel, str) := BufferReadStream.readVaruint str
  let (maybeMaxBytes, str) := BufferReadStream.readVaruint str
  match maybeChannel, maybeMaxBytes with
  | some channel, some maxBytes =>
    match findTunnel channel s with
    | none => (true, str, s)
    | some i => (false, str, tunnelResponse env channel (some maxBytes) i s)
  | _, _ => (true, str, s)

/-! ### Registers -/

/-- `ReadValue`. -/
def readValue (type : ℕ) (str : Bytes) : Option Value × Bytes :=
  let (maybeScalar, str) := BufferReadStream.readScalar (Value.sizeOfType type) str
  (maybeScalar.map (Value.ofScalar type), str)

/-- `EmitWriteError`. -/
def emitWriteError (errorReg : Register) (error : UInt32) (s : State σ τ) : State σ τ :=
  ((s.respondVaruint (UInt32.ofNat Subframe.kWriteError)).respondVaruint errorReg).respondVaruint
    error

/-- `EmitReadError`. -/
def emitReadError (reg : Register) (error : UInt32) (s : State σ τ) : State σ τ :=
  ((s.respondVaruint (UInt32.ofNat Subframe.kReadError)).respondVaruint reg).respondVaruint error

/-- `server_->Write`, with what it answers. -/
def serverWrite (reg : Register) (value : Value) (s : State σ τ) : WriteAction × State σ τ :=
  let (server, action) := env.server.write s.server reg value
  (action, { s with server := server, calls := s.calls ++ [.write reg value action] })

/-- `server_->Read`, with what it answers. -/
def serverRead (reg : Register) (type : ℕ) (s : State σ τ) : ReadResult × State σ τ :=
  let result := env.server.read s.server reg type
  (result, { s with calls := s.calls ++ [.read reg type result] })

/-- What `ProcessSubframeWrite` returns. -/
inductive WriteResult
  | kContinue
  | kMalformed
  | kDiscard
deriving DecidableEq, Repr

/-- The loop of `ProcessSubframeWrite`, with the number of registers to go. -/
def writeRegisters (type : ℕ) : ℕ → Register → Bytes → State σ τ → WriteResult × Bytes × State σ τ
  | 0, _, str, s => (.kContinue, str, s)
  | n + 1, reg, str, s =>
    match readValue type str with
    | (none, str) => (.kMalformed, str, s)
    | (some value, str) =>
      match serverWrite env reg value s with
      | (.success, s) => writeRegisters type n (reg + 1) str s
      | (.unknownRegister, s) => writeRegisters type n (reg + 1) str (emitWriteError reg 1 s)
      | (.notWriteable, s) => writeRegisters type n (reg + 1) str (emitWriteError reg 2 s)
      | (.discardRemaining, s) =>
        (.kDiscard, str, { s with stats.discards := s.stats.discards + 1 })

/-- `num_registers`: in the low bits of the subframe type, or in a varuint of its own. -/
def readNumRegisters (typeLength : ℕ) (str : Bytes) : Option UInt32 × Bytes :=
  if typeLength % 4 = 0 then BufferReadStream.readVaruint str
  else (some (UInt32.ofNat (typeLength % 4)), str)

/-- `ProcessSubframeWrite`. -/
def processSubframeWrite (typeLength : ℕ) (str : Bytes) (s : State σ τ) :
    WriteResult × Bytes × State σ τ :=
  match readNumRegisters typeLength str with
  | (none, str) => (.kMalformed, str, s)
  | (some numRegisters, str) =>
    match BufferReadStream.readVaruint str with
    | (none, str) => (.kMalformed, str, s)
    | (some startRegister, str) =>
      writeRegisters env (typeLength / 4) numRegisters.toNat startRegister str s

/-- The loop of `ProcessSubframeRead`, with the number of registers to go; `start` is the position
before the subframe's response. -/
def readRegisters (type start : ℕ) : ℕ → Register → State σ τ → Bool × State σ τ
  | 0, _, s => (false, s)
  | n + 1, reg, s =>
    match serverRead env reg type s with
    | (.value value, s) => readRegisters type start n (reg + 1) (s.respond value.bytes)
    | (.error error, s) => (true, emitReadError reg error (s.resetResponse start))

/-- `ProcessSubframeRead`: whether the rest of the frame is given up, and what is left. -/
def processSubframeRead (typeLength : ℕ) (str : Bytes) (s : State σ τ) :
    Bool × Bytes × State σ τ :=
  if s.response.isNone then (false, str, s)
  else match readNumRegisters typeLength str with
    | (none, str) => (true, str, s)
    | (some numRegisters, str) =>
      match BufferReadStream.readVaruint str with
      | (none, str) => (true, str, s)
      | (some startRegister, str) =>
        let start := s.responsePosition
        let subframeId := UInt32.ofNat
          (Subframe.kReplyBase ||| (typeLength / 4 * 4) ||| (typeLength % 4))
        let s := s.respondVaruint subframeId
        let s := if typeLength % 4 = 0 then s.respondVaruint numRegisters else s
        let s := s.respondVaruint startRegister
        let (failed, s) :=
          readRegisters env (typeLength / 4) start numRegisters.toNat startRegister s
        (failed, str, s)

/-! ### Frames -/

/-- One pass of the loop of `ProcessSubframes`: whether it goes on, with what is left. -/
def processSubframe (str : Bytes) (s : State σ τ) : Bool × Bytes × State σ τ :=
  match BufferReadStream.readVaruint str with
  | (none, str) => (false, str, { s with stats.missingSubframe := s.stats.missingSubframe + 1 })
  | (some subframeType, str) =>
    let type := subframeType.toNat
    let malformed (s : State σ τ) : State σ τ :=
      { s with stats.malformedSubframe := s.stats.malformedSubframe + 1 }
    if type = Subframe.kClientToServer then
      match processSubframeClientToServer env str s with
      | (true, str, s) => (false, str, malformed s)
      | (false, str, s) => (true, str, s)
    else if type = Subframe.kClientPollServer then
      match processSubframeClientPollServer env str s with
      | (true, str, s) => (false, str, malformed s)
      | (false, str, s) => (true, str, s)
    else if type = Subframe.kNop then (true, str, s)
    else if type ≥ Subframe.kWriteBase ∧ type < Subframe.kWriteBase + 16 then
      match processSubframeWrite env (type - Subframe.kWriteBase) str s with
      | (.kMalformed, str, s) => (false, str, malformed s)
      | (.kDiscard, str, s) => (false, str, s)
      | (.kContinue, str, s) => (true, str, s)
    else if type ≥ Subframe.kReadBase ∧ type < Subframe.kReadBase + 16 then
      match processSubframeRead env (type - Subframe.kReadBase) str s with
      | (true, str, s) => (false, str, malformed s)
      | (false, str, s) => (true, str, s)
    else (false, str, { s with stats.unknownSubframe := s.stats.unknownSubframe + 1 })

/-- The loop of `ProcessSubframes`; every pass takes at least one byte. -/
def processSubframesLoop : ℕ → Bytes → State σ τ → State σ τ
  | 0, _, s => s
  | n + 1, str, s =>
    if str = [] then s
    else match processSubframe env str s with
      | (true, str, s) => processSubframesLoop n str s
      | (false, _, s) => s

/-- `ProcessSubframes`. -/
def processSubframes (subframes : Bytes) (s : State σ τ) : State σ τ :=
  processSubframesLoop env subframes.length subframes s

/-- `ProcessFrame`, for the header of the datagram, `config_.id`, `options_.buffer_size` and
`write_outstanding_`; with the response that `WriteResponse` is called for. -/
def processFrame (source destination : ℕ) (id : UInt8) (bufferSize : ℕ) (writeOutstanding : Bool)
    (subframes : Bytes) (s : State σ τ) : Option Bytes × State σ τ :=
  let mine := destination = (id &&& 0x7f).toNat ∧ destination ≠ kBroadcastId
  let s := if mine then s else { s with stats.wrongId := s.stats.wrongId + 1 }
  if ¬ mine ∧ destination ≠ kBroadcastId then (none, s)
  else
    let needResponse := source &&& 0x80 ≠ 0 ∧ !writeOutstanding
    let s := processSubframes env subframes { s with
      server := env.server.startFrame s.server
      response := if needResponse then some (.new bufferSize) else none }
    let (server, action) := env.server.completeFrame s.server
    let response := s.response.map (·.data)
    let s := { s with server := server, response := none }
    match action with
    | .discard => (none, { s with stats.discards := s.stats.discards + 1 })
    | .accept => (response, s)

/-! ### The heads of the loop -/

/-- `P` holds at every head of the loop that is reached, with what is left of the frame there. -/
def AtHeadsLoop (P : Bytes → State σ τ → Prop) : ℕ → Bytes → State σ τ → Prop
  | 0, _, _ => True
  | n + 1, str, s =>
    if str = [] then True
    else P str s ∧
      match processSubframe env str s with
      | (true, str, s) => AtHeadsLoop P n str s
      | (false, _, _) => True

/-- `P` holds wherever `ProcessSubframes` starts to read a subframe. -/
def AtHeads (P : Bytes → State σ τ → Prop) (subframes : Bytes) (s : State σ τ) : Prop :=
  AtHeadsLoop env P subframes.length subframes s

/-! ### A plain application -/

/-- A server without state that accepts every write and reads zeros, and an owner of the tunnels that
does nothing. -/
def plainEnv : Env Unit Unit where
  server := {
    startFrame := id
    write := fun _ _ _ => ((), .success)
    read := fun _ _ type => .value (Value.ofScalar type 0)
    completeFrame := fun _ => ((), .accept) }
  client := {
    onRead := fun _ _ _ => ((), [])
    onWrite := fun _ _ _ => ((), []) }
  maxSize := 115

end Mjlib.Multiplex.MicroServer
