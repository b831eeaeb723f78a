import Mjlib.Io.OffsetBuffer
import Mjlib.Lib.Run
import Mjlib.Multiplex.StreamAsioClient

/-!
# The buffers of the reads of a `StreamAsioClient`

A `StreamAsioClient` with the memory that its tunnels' reads fill.  The client's state has of every
read context how many bytes are left in its buffers; here are the buffers themselves, those of the
context and those that the application gave, and what the memory under them holds.  The data of the
replies that reads receive, and the reads that are completed, are kept.
-/

namespace Mjlib.Multiplex.StreamAsioClient

open Io (MutableBuffer UserBuffers bufferCopy bufferSize cells offsetBufferSequence)

/-- The buffers of a read: those of the application, those of its context, and their memory. -/
structure Target where
  user : UserBuffers
  buffers : List MutableBuffer
  memory : ℕ → UInt8

/-- A read whose handler is posted with success: what the handler gets as the size, and the
application's buffers. -/
structure CompletedRead where
  tunnel : ℕ
  handler : Option ℕ
  size : ℕ
  target : Target

/-- The bytes that are delivered: as many of the application's buffers as are reported. -/
def CompletedRead.bytes (r : CompletedRead) : Bytes :=
  ((cells r.target.user.buffers).map r.target.memory).take r.size

/-- The client, and the buffers of its read contexts. -/
structure BufferState where
  client : State := {}
  targets : List Target := []
  /-- The tunnel data of the replies that reads received, with the tunnel. -/
  received : List (ℕ × Bytes) := []
  completed : List CompletedRead := []

/-- What can happen: a read of a tunnel, into buffers with any contents, or another action. -/
inductive BufferAction
  | asyncReadSome (tunnel : ℕ) (user : UserBuffers) (memory : ℕ → UInt8) (handler : ℕ)
  | client (a : Action)

namespace BufferState

def target (s : BufferState) (c : ℕ) : Target :=
  s.targets.getD c ⟨⟨[], List.nodup_nil⟩, [], fun _ => 0⟩

def modifyTarget (c : ℕ) (f : Target → Target) (s : BufferState) : BufferState :=
  { s with targets := s.targets.modify c f }

/-- The buffers of a new context; there is none for an empty read. -/
def addTarget (t : Target) (s : BufferState) : BufferState :=
  if bufferSize t.buffers = 0 then s else { s with targets := s.targets ++ [t] }

end BufferState

variable (env : Env)

/-- The part of the poll timer's callback about the buffers, which go to the next context. -/
def moveBuffers (c : ℕ) (s : BufferState) : BufferState :=
  if (s.client.context c).canceled then s
  else (s.modifyTarget c fun t => { t with buffers := [] }).addTarget (s.target c)

/-- The part of `Tunnel::HandleRead` about the buffers. -/
def copyReply (i c : ℕ) (ec : ErrorCode) (rx : Frame) (queued : Bool) (s : BufferState) :
    Option BufferState :=
  if (s.client.context c).canceled then some s
  else if ec = .operationAborted then some s
  else match tunnelData env (s.client.tunnel i) rx with
    | none => some s
    | some data =>
      let buffers := (s.target c).buffers
      let s := s.modifyTarget c fun t => { t with memory := bufferCopy buffers data t.memory }
      let s := { s with received := s.received ++ [(i, data)] }
      if queued ∧ data.length < bufferSize buffers then
        (offsetBufferSequence buffers data.length).map fun offsetBuffers =>
          s.modifyTarget c fun t => { t with buffers := offsetBuffers }
      else some s

/-- The events that a step posted, which took one task out of the list. -/
def posted (s s' : State) : List Task := s'.tasks.drop (s.tasks.length - 1)

/-- The completion of a read that is posted. -/
def completion? (i : ℕ) (target : Target) : Task → Option CompletedRead
  | .complete handler .success size => some ⟨i, handler, size, target⟩
  | _ => none

/-- One step. -/
def bufferStep (s : BufferState) : BufferAction → Option BufferState
  | .asyncReadSome i user memory handler =>
    (step env s.client (.asyncReadSome i (bufferSize user.buffers) handler)).map fun client =>
      { s.addTarget ⟨user, user.buffers, memory⟩ with client := client }
  | .client (.asyncReadSome _ _ _) => none
  | .client (.event k) =>
    (step env s.client (.event k)).map fun client =>
      match s.client.tasks[k]? with
      | some (.pollTimer _ c _) => { moveBuffers c s with client := client }
      | _ => { s with client := client }
  | .client (.frame k ec rx queued) =>
    (step env s.client (.frame k ec rx queued)).bind fun client =>
      match s.client.tasks[k]? with
      | some (.tunnelRead _ i c) =>
        (copyReply env i c ec rx queued s).map fun s' =>
          { s' with
            client := client
            completed := s'.completed
              ++ (posted s.client client).filterMap (completion? i (s'.target c)) }
      | _ => some { s with client := client }
  | .client a => (step env s.client a).map fun client => { s with client := client }

end Mjlib.Multiplex.StreamAsioClient
