import Mjlib.Lib.Run
import Mjlib.Multiplex.StreamAsioClient

/-!
# Register requests over a bus

A `StreamAsioClient` whose application only transmits registers, with the devices on its bus.  A
request is known by its place among those that were handed to the frame stream.  A device sends
frames to the client in answer to the requests it gets: when, and how often, is not said.  Every
frame that the client reads comes with the request that it answers.
-/

namespace Mjlib.Multiplex.StreamAsioClient

/-- A request that was handed to the frame stream, for the transmission of a handler. -/
structure SentRequest where
  device : UInt8
  handler : ℕ
deriving DecidableEq, Repr

/-- A value that was added to the reply of a transmission, with the request that its frame
answers. -/
structure ReplyEntry where
  handler : ℕ
  value : IdRegisterValue
  answers : Option ℕ
deriving DecidableEq, Repr

/-- The client and its bus. -/
structure BusState where
  client : State := {}
  sent : List SentRequest := []
  log : List ReplyEntry := []
deriving DecidableEq, Repr

/-- What can happen: a transmission, an event of the client, and the completion of an operation of
the frame stream, with the request that the frame answers; none for a frame to somebody else. -/
inductive BusAction
  | asyncTransmit (request : List IdRequest) (reply : Bool) (handler : ℕ)
  | event (k : ℕ)
  | frame (k : ℕ) (ec : ErrorCode) (rx : Frame) (queued : Bool) (answers : Option ℕ)
deriving DecidableEq, Repr

variable (env : Env)

/-- A frame is sent to the client by the device that got the request. -/
def Answers (s : BusState) (rx : Frame) : Option ℕ → Prop
  | none => rx.destId ≠ env.sourceId
  | some n => ∃ request ∈ s.sent[n]?, rx.sourceId = request.device ∧ rx.destId = env.sourceId

instance (s : BusState) (rx : Frame) : (answers : Option ℕ) → Decidable (Answers env s rx answers)
  | none => inferInstanceAs (Decidable (rx.destId ≠ env.sourceId))
  | some _ => inferInstanceAs (Decidable (∃ request ∈ _, _))

/-- The request that an event hands to the frame stream. -/
def requestOf : Option Task → List SentRequest
  | some (.invoke ⟨_, .register r⟩) => [⟨r.request.id, r.handler⟩]
  | _ => []

/-- The values that an action adds to the replies. -/
def entries (s s' : State) (answers : Option ℕ) : List ReplyEntry :=
  (s'.replies.drop s.replies.length).map fun reply => ⟨reply.1, reply.2, answers⟩

/-- One step of the client and its bus. -/
def busStep (s : BusState) : BusAction → Option BusState
  | .asyncTransmit request reply handler =>
    (step env s.client (.asyncTransmit request reply handler)).map fun client =>
      { s with client := client }
  | .event k =>
    (step env s.client (.event k)).map fun client =>
      { s with client := client, sent := s.sent ++ requestOf s.client.tasks[k]? }
  | .frame k ec rx queued answers =>
    if ec = .success ∧ ¬ Answers env s rx answers then none
    else (step env s.client (.frame k ec rx queued)).map fun client =>
      { s with client := client, log := s.log ++ entries s.client client answers }

end Mjlib.Multiplex.StreamAsioClient
