import Mjlib.Io.ExclusiveCommand
import Mjlib.Multiplex.Frame
import Mjlib.Multiplex.Register

/-!
# `StreamAsioClient`

The client's side of the bus: register transmissions and tunnels, which take turns through an
`ExclusiveCommand`.  The state has everything that is in flight as a list of `Task`s: the events
posted to the executor, the operations of the frame stream with their callbacks, and the waits of the
poll timers.  A step is a call of the application, or a task that completes; any task may be the next.
A failed assertion and `FailIf` end the program, so there is no next state.

A handler of the application is a number.  A handler that calls the client back does what the same
calls do right after it.
-/

namespace Mjlib.Multiplex.StreamAsioClient

open Io (Concrete ExclusiveCommand)

/-! ### The state -/

/-- `base::error_code`. -/
inductive ErrorCode
  | success
  | operationAborted
  | other (value : ℕ)
deriving DecidableEq, Repr

/-- `AsioClient::IdRequest`. -/
structure IdRequest where
  id : UInt8
  request : RegisterRequest
deriving DecidableEq, Repr

/-- `AsioClient::IdRegisterValue`. -/
structure IdRegisterValue where
  id : UInt8
  reg : Register
  value : ReadResult
deriving DecidableEq, Repr

/-- One request of a sequence, with what is left of the sequence; `reply` says whether the application
wants the values. -/
structure RegisterCommand where
  request : IdRequest
  remainder : List IdRequest
  reply : Bool
  handler : ℕ
deriving DecidableEq, Repr

/-- The commands given to the lock. -/
inductive Command
  | transmit (request : List IdRequest) (handler : ℕ)
  | register (r : RegisterCommand)
  | read (tunnel context : ℕ)
  | write (tunnel : ℕ) (data : Bytes)
deriving DecidableEq, Repr

/-- What is in flight.  A task that holds a release handler has the nonce of its command. -/
inductive Task
  /-- Posted: the invocation of a command. -/
  | invoke (w : Concrete Command)
  /-- Posted: the end of a command. -/
  | itemDone
  /-- Posted: the release handler of a register command. -/
  | registerDone (nonce : ℕ) (r : RegisterCommand) (ec : ErrorCode)
  /-- Posted: a handler of the application; it is empty if it was moved from. -/
  | complete (handler : Option ℕ) (ec : ErrorCode) (size : ℕ)
  /-- Posted: the callback of a tunnel's poll timer. -/
  | pollTimer (tunnel context : ℕ) (ec : ErrorCode)
  /-- A tunnel's poll timer that runs. -/
  | wait (tunnel context : ℕ)
  /-- `AsyncWriteMultiple`, for a transmission without replies. -/
  | writeMultiple (nonce : ℕ) (request : List IdRequest) (handler : ℕ)
  /-- `AsyncWrite`, for a register command. -/
  | registerWrite (nonce : ℕ) (r : RegisterCommand)
  /-- `AsyncRead`, for a register command. -/
  | registerRead (nonce : ℕ) (r : RegisterCommand)
  /-- `AsyncWrite`, for a tunnel's read. -/
  | requestWrite (nonce tunnel context : ℕ)
  /-- `AsyncRead`, for a tunnel's read. -/
  | tunnelRead (nonce tunnel context : ℕ)
  /-- `AsyncWrite`, for a tunnel's write. -/
  | tunnelWrite (nonce tunnel : ℕ) (data : Bytes) (size : ℕ)
deriving DecidableEq, Repr

/-- `ReadContext`; `buffers` is the size of its buffers, `received` what was copied into them. -/
structure ReadContext where
  handler : Option ℕ
  buffers : ℕ
  canceled : Bool := false
  bytesRead : ℕ := 0
  received : Bytes := []
deriving DecidableEq, Repr

/-- `Tunnel`. -/
structure Tunnel where
  id : UInt8
  channel : UInt32
  readNonce : Option ℕ := none
  writeNonce : Option ℕ := none
  writeHandler : Option ℕ := none
  readContext : Option ℕ := none
deriving DecidableEq, Repr

/-- A handler of the application that was called, with its arguments. -/
structure Completion where
  handler : ℕ
  ec : ErrorCode
  size : ℕ
deriving DecidableEq, Repr

/-- `Impl`, its tunnels and read contexts, and what is in flight. -/
structure State where
  lock : ExclusiveCommand Command := {}
  tasks : List Task := []
  tunnels : List Tunnel := []
  contexts : List ReadContext := []
  txFrame : Frame := ⟨0, false, 0, []⟩
  txFrames : List Frame := []
  /-- The values added to the application's replies, with the handler of the transmission. -/
  replies : List (ℕ × IdRegisterValue) := []
  /-- The handlers that were called. -/
  completions : List Completion := []
deriving DecidableEq, Repr

/-- The options, and the properties of the frame stream. -/
structure Env where
  sourceId : UInt8
  maxSize : ℤ

namespace State

def tunnel (s : State) (i : ℕ) : Tunnel := s.tunnels.getD i ⟨0, 0, none, none, none, none⟩

def context (s : State) (c : ℕ) : ReadContext := s.contexts.getD c ⟨none, 0, false, 0, []⟩

def modifyTunnel (i : ℕ) (f : Tunnel → Tunnel) (s : State) : State :=
  { s with tunnels := s.tunnels.modify i f }

def modifyContext (c : ℕ) (f : ReadContext → ReadContext) (s : State) : State :=
  { s with contexts := s.contexts.modify c f }

/-- Something more is in flight. -/
def addTask (task : Task) (s : State) : State := { s with tasks := s.tasks ++ [task] }

/-- A handler of the application is called. -/
def call (handler : ℕ) (ec : ErrorCode) (size : ℕ) (s : State) : State :=
  { s with completions := s.completions ++ [⟨handler, ec, size⟩] }

/-- Set the lock to what one of its functions returned, and post the invocation. -/
def setLock (r : ExclusiveCommand Command × Option (Concrete Command)) (s : State) : State :=
  match r.2 with
  | none => { s with lock := r.1 }
  | some w => { s with lock := r.1, tasks := s.tasks ++ [.invoke w] }

/-- `lock_.Invoke`, with the nonce. -/
def invoke (command : Command) (s : State) : ℕ × State :=
  let (nonce, r) := s.lock.invoke command
  (nonce, s.setLock r)

end State

variable (env : Env)

/-! ### Registers -/

/-- `AsyncRegister`. -/
def asyncRegister (r : RegisterCommand) (s : State) : State := (s.invoke (.register r)).2

/-- `SequenceRegister`. -/
def sequenceRegister (request : List IdRequest) (reply : Bool) (handler : ℕ) (s : State) : State :=
  match request with
  | [] => s.addTask (.complete (some handler) .success 0)
  | thisRequest :: remainder => asyncRegister ⟨thisRequest, remainder, reply, handler⟩ s

/-- `AsyncTransmit`; the reply is cleared by being a new one for every handler. -/
def asyncTransmit (request : List IdRequest) (reply : Bool) (handler : ℕ) (s : State) : State :=
  if request.any (·.request.requestReply) then sequenceRegister request reply handler s
  else (s.invoke (.transmit request handler)).2

/-! ### Tunnels -/

/-- `Tunnel::async_read_some`; the handler is empty if it was moved from. -/
def asyncReadSome (i size : ℕ) (handler : Option ℕ) (s : State) : Option State :=
  if (s.tunnel i).readContext.isSome then none
  else if size = 0 then some (s.addTask (.complete handler .success 0))
  else
    let ctx := s.contexts.length
    let s := { s with contexts := s.contexts ++ [ReadContext.mk handler size false 0 []] }
    let s := s.modifyTunnel i fun t => { t with readContext := some ctx }
    let (nonce, s) := s.invoke (.read i ctx)
    some (s.modifyTunnel i fun t => { t with readNonce := some nonce })

/-- `Tunnel::async_write_some`. -/
def asyncWriteSome (i : ℕ) (data : Bytes) (handler : ℕ) (s : State) : Option State :=
  if (s.tunnel i).writeHandler.isSome then none
  else if data = [] then some (s.addTask (.complete (some handler) .success 0))
  else
    let s := s.modifyTunnel i fun t => { t with writeHandler := some handler }
    let (nonce, s) := s.invoke (.write i data)
    some (s.modifyTunnel i fun t => { t with writeNonce := some nonce })

/-- `poll_timer_.cancel()`: the callback of a wait is posted, with an error. -/
def cancelTimer (i : ℕ) (s : State) : State :=
  { s with tasks := s.tasks.map fun
    | .wait i' c => if i' = i then .pollTimer i' c .operationAborted else .wait i' c
    | task => task }

/-- The part of `Tunnel::cancel` about the read. -/
def cancelRead (i : ℕ) (s : State) : Option State :=
  let s := match (s.tunnel i).readContext with
    | none => s
    | some c => s.modifyContext c fun ctx => { ctx with canceled := true }
  let (removed, lock) := s.lock.remove (s.tunnel i).readNonce
  let s := { s with lock := lock }
  if removed then
    match (s.tunnel i).readContext with
    | none => none
    | some c =>
      some ((s.addTask (.complete (s.context c).handler .operationAborted 0)).modifyContext c
        fun ctx => { ctx with handler := none })
  else some s

/-- The part of `Tunnel::cancel` about the write. -/
def cancelWrite (i : ℕ) (s : State) : State :=
  let (removed, lock) := s.lock.remove (s.tunnel i).writeNonce
  let s := { s with lock := lock }
  if removed then s.addTask (.complete (s.tunnel i).writeHandler .operationAborted 0) else s

/-- `Tunnel::cancel`. -/
def cancel (i : ℕ) (s : State) : Option State :=
  match cancelRead i s with
  | none => none
  | some s =>
    let s := (cancelTimer i s).modifyTunnel i fun t => { t with readContext := none }
    some ((cancelWrite i s).modifyTunnel i fun t => { t with
      writeHandler := none
      readNonce := none
      writeNonce := none })

/-- `Tunnel::MakeFrame`. -/
def makeFrame (i : ℕ) (data : Bytes) (requestReply : Bool) (s : State) : State :=
  let t := s.tunnel i
  { s with txFrame := {
      sourceId := env.sourceId
      destId := t.id
      requestReply := requestReply
      payload := writeVaruint (UInt32.ofNat Subframe.kClientToServer) ++ writeVaruint t.channel
        ++ writeVaruint (UInt32.ofNat data.length) ++ data } }

/-- `Tunnel::MaybeRetry`. -/
def maybeRetry (ec : ErrorCode) (i c : ℕ) (s : State) : Option State :=
  let ctx := s.context c
  if ctx.canceled then
    some ((s.addTask (.complete ctx.handler .operationAborted 0)).modifyContext c
      fun ctx => { ctx with handler := none })
  else if ec ≠ .success then none
  else if ctx.bytesRead > 0 then
    some (((s.addTask (.complete ctx.handler .success ctx.bytesRead)).modifyContext c
      fun ctx => { ctx with handler := none }).modifyTunnel i
        fun t => { t with readContext := none })
  else some ((cancelTimer i s).addTask (.wait i c))

/-- The callback of the poll timer. -/
def handlePollTimer (ec : ErrorCode) (i c : ℕ) (s : State) : Option State :=
  let ctx := s.context c
  if ctx.canceled then
    some ((s.addTask (.complete ctx.handler .operationAborted 0)).modifyContext c
      fun ctx => { ctx with handler := none })
  else if ec ≠ .success then none
  else
    let s := s.modifyContext c fun ctx => { ctx with handler := none, buffers := 0 }
    let s := s.modifyTunnel i fun t => { t with readContext := none }
    asyncReadSome i ctx.buffers ctx.handler s

/-! ### Commands -/

/-- The handler of a command; `false` if it throws, which an empty function does. -/
def handle (command : Command) (ec : ErrorCode) (size : ℕ) (s : State) : Option (Bool × State) :=
  match command with
  | .transmit _ handler => some (true, s.call handler ec 0)
  | .register r =>
    if ec ≠ .success then some (true, s.addTask (.complete (some r.handler) ec 0))
    else some (true, sequenceRegister r.remainder r.reply r.handler s)
  | .read i c => (maybeRetry ec i c s).map (true, ·)
  | .write i _ =>
    let writeHandler := (s.tunnel i).writeHandler
    let s := s.modifyTunnel i fun t => { t with writeHandler := none, writeNonce := none }
    match writeHandler with
    | none => some (false, s)
    | some handler => some (true, s.call handler ec size)

/-- `HandlerWrapper::operator()`: the command's handler, and then the end of the command is posted. -/
def release (command : Command) (ec : ErrorCode) (size : ℕ) (s : State) : Option State :=
  match handle command ec size s with
  | none => none
  | some (false, s) => some s
  | some (true, s) => if s.lock.waiting.isSome then some (s.addTask .itemDone) else none

/-- The number of bytes a tunnel's write sends; nothing if the assertion fails. -/
def writeSize (data : Bytes) : Option ℕ :=
  if env.maxSize ≥ 0 then
    if 3 ≤ env.maxSize then some (min data.length (env.maxSize - 3).toNat) else none
  else some data.length

/-- `Concrete::Invoke`: the command, with its release handler. -/
def invokeCommand (w : Concrete Command) (s : State) : Option State :=
  match w.command with
  | .transmit request handler =>
    let txFrames := request.map fun r => Frame.mk env.sourceId false r.id r.request.buffer
    some ({ s with txFrames := txFrames }.addTask (.writeMultiple w.nonce request handler))
  | .register r =>
    let txFrame := Frame.mk env.sourceId r.request.request.requestReply r.request.id
      r.request.request.buffer
    some ({ s with txFrame := txFrame }.addTask (.registerWrite w.nonce r))
  | .read i c =>
    let s := s.modifyTunnel i fun t => { t with readNonce := none }
    if (s.context c).canceled then
      match (s.context c).handler with
      | none => some s
      | some handler => some (s.call handler .operationAborted 0)
    else some ((makeFrame env i [] true s).addTask (.requestWrite w.nonce i c))
  | .write i data =>
    match writeSize env data with
    | none => none
    | some size =>
      some ((makeFrame env i (data.take size) false s).addTask (.tunnelWrite w.nonce i data size))

/-! ### Frames -/

/-- `HandleSingleWrite`. -/
def handleSingleWrite (nonce : ℕ) (r : RegisterCommand) (ec : ErrorCode) (s : State) :
    Option State :=
  if !r.request.request.requestReply then some (s.addTask (.registerDone nonce r ec))
  else if ec ≠ .success then none
  else some (s.addTask (.registerRead nonce r))

/-- `HandleRead`, with `rx_frame_`. -/
def handleRead (nonce : ℕ) (r : RegisterCommand) (ec : ErrorCode) (rx : Frame) (s : State) :
    Option State :=
  if ec = .operationAborted then some (s.addTask (.registerDone nonce r ec))
  else if ec ≠ .success then none
  else if rx.sourceId ≠ s.txFrame.destId ∨ rx.destId ≠ s.txFrame.sourceId then
    some (s.addTask (.registerRead nonce r))
  else
    let values := (RegisterReply.parseRegisterReply rx.payload).map fun p =>
      (r.handler, IdRegisterValue.mk rx.sourceId p.1 p.2)
    some ({ s with replies := s.replies ++ if r.reply then values else [] }.addTask
      (.registerDone nonce r ec))

/-- The data that a frame has for a tunnel; nothing if it is not a response to the tunnel. -/
def tunnelData (t : Tunnel) (frame : Frame) : Option Bytes :=
  if frame.sourceId ≠ t.id ∨ frame.destId ≠ env.sourceId then none
  else match ReadStream.readVaruint frame.payload with
    | (none, _) => none
    | (some subframe, stream) =>
      if subframe.toNat ≠ Subframe.kServerToClient then none
      else match ReadStream.readVaruint stream with
        | (none, _) => none
        | (some channel, stream) =>
          if channel ≠ t.channel then none
          else match ReadStream.readVaruint stream with
            | (none, _) => none
            | (some size, stream) =>
              if size.toNat > stream.length then none else some (stream.take size.toNat)

/-- `Tunnel::HandleRead`, with `rx_frame_` and `read_data_queued()`. -/
def tunnelHandleRead (nonce i c : ℕ) (ec : ErrorCode) (rx : Frame) (queued : Bool) (s : State) :
    Option State :=
  if (s.context c).canceled then release (.read i c) .operationAborted 0 s
  else if ec = .operationAborted then release (.read i c) .success 0 s
  else match tunnelData env (s.tunnel i) rx with
    | none => release (.read i c) .success 0 s
    | some data =>
      let room := (s.context c).buffers
      let s := s.modifyContext c fun ctx => { ctx with
        received := ctx.received ++ data.take room
        bytesRead := ctx.bytesRead + data.length }
      if queued ∧ data.length < room then
        some ((s.modifyContext c fun ctx => { ctx with buffers := room - data.length }).addTask
          (.tunnelRead nonce i c))
      else release (.read i c) .success (s.context c).bytesRead s

/-! ### Steps -/

/-- What can happen: a call of the application, or the task at a position of the list completes, an
operation of the frame stream with an error code, the frame it has read and whether there is more. -/
inductive Action
  | makeTunnel (id : UInt8) (channel : UInt32)
  | asyncTransmit (request : List IdRequest) (reply : Bool) (handler : ℕ)
  | asyncReadSome (tunnel size handler : ℕ)
  | asyncWriteSome (tunnel : ℕ) (data : Bytes) (handler : ℕ)
  | cancel (tunnel : ℕ)
  | event (k : ℕ)
  | timer (k : ℕ)
  | frame (k : ℕ) (ec : ErrorCode) (rx : Frame) (queued : Bool)
deriving DecidableEq, Repr

/-- An event is run. -/
def runEvent (task : Task) (s : State) : Option State :=
  match task with
  | .invoke w => invokeCommand env w s
  | .itemDone => s.lock.itemDone.map s.setLock
  | .registerDone _ r ec => release (.register r) ec 0 s
  | .complete handler ec size =>
    match handler with
    | none => some s
    | some handler => some (s.call handler ec size)
  | .pollTimer i c ec => handlePollTimer ec i c s
  | _ => none

/-- A poll timer expires. -/
def expire (task : Task) (s : State) : Option State :=
  match task with
  | .wait i c => some (s.addTask (.pollTimer i c .success))
  | _ => none

/-- An operation of the frame stream completes. -/
def completeFrame (task : Task) (ec : ErrorCode) (rx : Frame) (queued : Bool) (s : State) :
    Option State :=
  match task with
  | .writeMultiple _ request handler => release (.transmit request handler) ec 0 s
  | .registerWrite nonce r => handleSingleWrite nonce r ec s
  | .registerRead nonce r => handleRead nonce r ec rx s
  | .requestWrite nonce i c =>
    if ec ≠ .success then none else some (s.addTask (.tunnelRead nonce i c))
  | .tunnelRead nonce i c => tunnelHandleRead env nonce i c ec rx queued s
  | .tunnelWrite _ i data size =>
    release (.write i data) ec (if ec = .success then size else 0) s
  | _ => none

/-- Take a task out of the list. -/
def take (k : ℕ) (s : State) : Option (Task × State) :=
  s.tasks[k]?.map fun task => (task, { s with tasks := s.tasks.eraseIdx k })

/-- One step. -/
def step (s : State) : Action → Option State
  | .makeTunnel id channel =>
    some { s with tunnels := s.tunnels ++ [Tunnel.mk id channel none none none none] }
  | .asyncTransmit request reply handler => some (asyncTransmit request reply handler s)
  | .asyncReadSome i size handler =>
    if i < s.tunnels.length then asyncReadSome i size (some handler) s else none
  | .asyncWriteSome i data handler =>
    if i < s.tunnels.length then asyncWriteSome i data handler s else none
  | .cancel i => if i < s.tunnels.length then cancel i s else none
  | .event k => (take k s).bind fun r => runEvent env r.1 r.2
  | .timer k => (take k s).bind fun r => expire r.1 r.2
  | .frame k ec rx queued => (take k s).bind fun r => completeFrame env r.1 ec rx queued r.2

end Mjlib.Multiplex.StreamAsioClient
