import Mjlib.Lib.Run
import Mjlib.Multiplex.MicroServer
import Mjlib.Multiplex.Register

/-!
# `MicroServer` over a run

The server from its start on: datagrams that arrive, responses that are written, calls of `Poll` and
what the owner of the tunnels does on its own.  A completion that is called from inside `AsyncRead` or
`AsyncWrite` does what it does right after it.

What the owner of the tunnels sees is recorded by a client that keeps a log beside its own state
(`Client.recorded`); `Writes` and `delivered` read the log, and `Response.tunnelData` is what a client
on the bus finds in a response.
-/

namespace Mjlib.Multiplex

/-! ### What a client finds in a response -/

namespace Response

/-- The rest of a `kServerToClient` subframe: the channel and the data. -/
def readServerToClient (s : Bytes) : Option (UInt32 × Bytes) × Bytes :=
  match ReadStream.readVaruint s with
  | (none, s) => (none, s)
  | (some channel, s) =>
    match ReadStream.readVaruint s with
    | (none, s) => (none, s)
    | (some size, s) =>
      if s.length < size.toNat then (none, s)
      else (some (channel, s.take size.toNat), s.drop size.toNat)

/-- One subframe of a response: the tunnel data in it, or nothing if it is not a subframe. -/
def readSubframe (s : Bytes) : Option (List (UInt32 × Bytes)) × Bytes :=
  match ReadStream.readVaruint s with
  | (none, s) => (none, s)
  | (some subframeId, rest) =>
    if subframeId.toNat = Subframe.kServerToClient then
      let (piece, rest) := readServerToClient rest
      (piece.map ([·]), rest)
    else
      let (values, rest) := RegisterReply.parseSubframe s
      (values.map fun _ => [], rest)

/-- The loop over the subframes of a response; every subframe takes at least one byte. -/
def tunnelPiecesLoop : ℕ → Bytes → List (UInt32 × Bytes)
  | 0, _ => []
  | n + 1, s =>
    match readSubframe s with
    | (none, _) => []
    | (some pieces, s) => pieces ++ tunnelPiecesLoop n s

/-- The tunnel data of a response, with its channels, up to the first byte that is not part of a
complete subframe. -/
def tunnelPieces (s : Bytes) : List (UInt32 × Bytes) := tunnelPiecesLoop s.length s

/-- The data of the pieces for one channel. -/
def dataOf (channel : UInt32) (pieces : List (UInt32 × Bytes)) : Bytes :=
  pieces.flatMap fun p => if p.1 = channel then p.2 else []

/-- The tunnel data of a response for one channel. -/
def tunnelData (channel : UInt32) (s : Bytes) : Bytes := dataOf channel (tunnelPieces s)

end Response

namespace MicroServer

variable {σ τ : Type*}

/-! ### Runs -/

/-- A response that was handed to the datagram server's `AsyncWrite`. -/
structure SentResponse where
  source : ℕ
  destination : ℕ
  data : Bytes
deriving DecidableEq, Repr

/-- The application and `MicroServer::Impl` between two calls. -/
structure Impl (σ τ : Type*) where
  state : State σ τ
  /-- `config_.id`. -/
  id : UInt8 := 1
  readOutstanding : Bool := false
  writeOutstanding : Bool := false
  /-- The responses that were sent so far. -/
  sent : List SentResponse := []

/-- What can happen between two calls. -/
inductive Event (τ : Type*)
  /-- `Start`. -/
  | start
  /-- A datagram was read. -/
  | datagram (source destination : ℕ) (subframes : Bytes)
  /-- The read of a datagram failed. -/
  | readError
  /-- The response was written, or failed to be. -/
  | written
  | poll
  /-- The tunnels' owner does something on its own. -/
  | own (act : τ → τ × List TunnelCall)
  /-- The application changes `config()->id`. -/
  | config (id : UInt8)

namespace Impl

/-- `MaybeStartReadFrame`. -/
def maybeStartReadFrame (s : Impl σ τ) : Impl σ τ := { s with readOutstanding := true }

/-- `WriteResponse`. -/
def writeResponse (clientId : ℕ) (data : Bytes) (s : Impl σ τ) : Impl σ τ :=
  { s with
    writeOutstanding := true
    sent := s.sent ++ [⟨(s.id &&& 0x7f).toNat, clientId, data⟩] }

/-- `HandleReadDatagram` without an error. -/
def handleReadDatagram (env : Env σ τ) (bufferSize source destination : ℕ) (subframes : Bytes)
    (s : Impl σ τ) : Impl σ τ :=
  let (response, state) := processFrame env source destination s.id bufferSize s.writeOutstanding
    subframes s.state
  let s := { s with state := state, readOutstanding := false }
  let s := match response with
    | none => s
    | some data => writeResponse (source &&& 0x7f) data s
  s.maybeStartReadFrame

end Impl

/-- One step; `bufferSize` is `options_.buffer_size`. -/
def step (env : Env σ τ) (bufferSize : ℕ) (s : Impl σ τ) : Event τ → Option (Impl σ τ)
  | .start => some s.maybeStartReadFrame
  | .datagram source destination subframes =>
    if s.readOutstanding = true ∧ subframes.length ≤ bufferSize then
      some (s.handleReadDatagram env bufferSize source destination subframes)
    else none
  | .readError => if s.readOutstanding = true then some s.maybeStartReadFrame else none
  | .written => if s.writeOutstanding = true then some { s with writeOutstanding := false } else none
  | .poll => some { s with state := poll env s.state }
  | .own act => some { s with state := callback (act s.state.client) s.state }
  | .config id => some { s with id := id }

/-! ### What the owner of the tunnels sees -/

/-- A callback of a tunnel's owner, or a call it makes. -/
inductive ClientEvent
  | read (tunnel : ℕ) (bytes : Bytes)
  | written (tunnel size : ℕ)
  | call (c : TunnelCall)
deriving DecidableEq, Repr

/-- The same owner, with a log of what it sees and does. -/
def Client.recorded (client : Client τ) : Client (τ × List ClientEvent) where
  onRead := fun p i bytes =>
    let r := client.onRead p.1 i bytes
    ((r.1, p.2 ++ .read i bytes :: r.2.map .call), r.2)
  onWrite := fun p i size =>
    let r := client.onWrite p.1 i size
    ((r.1, p.2 ++ .written i size :: r.2.map .call), r.2)

/-- The same application, with a log. -/
def Env.recorded (env : Env σ τ) : Env σ (τ × List ClientEvent) where
  server := env.server
  client := env.client.recorded
  maxSize := env.maxSize

/-- The same event, with a log. -/
def Event.recorded : Event τ → Event (τ × List ClientEvent)
  | .own act => .own fun p =>
    let r := act p.1
    ((r.1, p.2 ++ r.2.map .call), r.2)
  | .start => .start
  | .datagram source destination subframes => .datagram source destination subframes
  | .readError => .readError
  | .written => .written
  | .poll => .poll
  | .config id => .config id

/-- The log. -/
def State.log (s : State σ (τ × List ClientEvent)) : List ClientEvent := s.client.2

/-- A tunnel's writes, as its owner knows them: the data of the write that is pending, and the bytes
that completions reported as written. -/
structure Writes where
  pending : Bytes := []
  done : Bytes := []
deriving DecidableEq, Repr

/-- One more event for the writes of the tunnel `i`; a write is not started while one is pending. -/
def Writes.next (i : ℕ) (w : Writes) : ClientEvent → Writes
  | .call (.asyncWriteSome j data) => if j = i ∧ w.pending = [] then { w with pending := data } else w
  | .written j size => if j = i then ⟨[], w.done ++ w.pending.take size⟩ else w
  | _ => w

/-- The writes of a tunnel in a log. -/
def writesOf (i : ℕ) (log : List ClientEvent) : Writes := log.foldl (Writes.next i) {}

/-- The bytes that were delivered to the readers of a tunnel. -/
def delivered (i : ℕ) (log : List ClientEvent) : Bytes :=
  log.flatMap fun
    | .read j bytes => if j = i then bytes else []
    | _ => []

/-- A server that is about to be started, with its tunnels. -/
def Impl.init (server : σ) (client : τ) (ids : List UInt32) : Impl σ (τ × List ClientEvent) where
  state := {
    server := server
    client := (client, [])
    tunnels := ids.map fun id => { id := id } }

end MicroServer

end Mjlib.Multiplex
