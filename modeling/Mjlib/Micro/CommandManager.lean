import Mjlib.Base.Tokenizer
import Mjlib.Micro.AsyncExclusive

/-!
# `CommandManager`

The command manager over its input stream and its exclusive write stream, as a machine that takes
one event after the other.  A registered function is a name here: when it responds is up to the
events, and may be before it returns.  What the functions do last (`AsyncReadSome`, the call of an
operation) is likewise left to the next event.
-/

namespace Mjlib.Micro.CommandManager

open Base

/-! ### The data -/

/-- What the owner of a command manager chooses. -/
structure Config (κ : Type*) where
  /-- `options_.max_line_length`. -/
  maxLineLength : ℕ
  /-- `registry_`. -/
  registry : List (Bytes × κ)

/-- The function of a command: a registered one, or the call of `UnknownGroup`. -/
inductive CommandFunction (κ : Type*)
  | registered (function : κ)
  | unknownGroup
deriving DecidableEq, Repr

/-- An `AsyncReadSome` of the input stream that is not complete: of `AsyncReadUntilHelper`, or of
`AsyncIgnoreUntil`. -/
inductive Read
  | until (position : ℕ)
  | ignore
deriving DecidableEq, Repr

/-- `read_until_context_.callback`. -/
inductive Callback
  | handleRead
  | maybeStartRead
deriving DecidableEq, Repr

/-- An operation on the write stream. -/
inductive Operation
  /-- The one that calls the function of the current command. -/
  | command
  /-- One of the other users of the stream. -/
  | other
deriving DecidableEq, Repr

/-- `CommandManager::Impl`, with its streams. -/
structure State (κ : Type*) where
  lineBuffer : Bytes
  callback : Option Callback := none
  /-- What is outstanding on the input stream. -/
  reads : List Read := []
  writeOutstanding : Bool := false
  currentCommand : Option (CommandFunction κ) := none
  groupArguments : Bytes := []
  writeStream : AsyncExclusive Operation := AsyncExclusive.init 3
  /-- A function has been called and has not responded: `done_callback_` is set. -/
  running : Bool := false
  /-- `AsyncStart` has been called. -/
  started : Bool := false
  /-- The bytes that have been read. -/
  received : Bytes := []
  /-- The calls of functions, with their arguments. -/
  dispatched : List (CommandFunction κ × Bytes) := []

/-- What happens around a command manager. -/
inductive Event
  | asyncStart
  /-- An outstanding read completes, with a byte or without one; a function that is called on the
  way responds before it returns, or not. -/
  | readDone (index : ℕ) (error : Bool) (byte : Option UInt8) (respondsNow : Bool)
  /-- The function that was called responds. -/
  | respond
  /-- Another user of the write stream calls its `AsyncStart`. -/
  | lock
  /-- Another user that owns the write stream releases it. -/
  | unlock (respondsNow : Bool)
deriving DecidableEq, Repr

/-- `delimiters`. -/
def delimiters : Bytes := [0x0d, 0x0a]

variable {κ : Type*} (config : Config κ)

/-! ### Reading -/

/-- `AsyncReadUntil`; none where its assertion fails. -/
def asyncReadUntil (s : State κ) : Option (State κ) :=
  if config.maxLineLength < 65535 then some { s with reads := s.reads ++ [.until 0] } else none

/-- `AsyncIgnoreUntil`. -/
def asyncIgnoreUntil (s : State κ) : State κ := { s with reads := s.reads ++ [.ignore] }

/-- `MaybeStartRead`. -/
def maybeStartRead (s : State κ) : Option (State κ) :=
  if s.writeOutstanding then some s
  else asyncReadUntil config { s with callback := some .handleRead }

/-! ### Commands -/

/-- What an operation of the write stream does when it is called. -/
def call (operation : Option Operation) (s : State κ) : State κ :=
  match operation with
  | some .command =>
    { s with
      currentCommand := none
      groupArguments := []
      running := true
      dispatched := s.dispatched ++
        s.currentCommand.toList.map fun function => (function, s.groupArguments) }
  | _ => s

/-- The callback of a `Response`. -/
def respond (s : State κ) : Option (State κ) :=
  let s := { s with writeOutstanding := false, running := false }
  s.writeStream.release.bind fun (writeStream, operation) =>
    maybeStartRead config (call operation { s with writeStream := writeStream })

/-- An operation of the write stream is called, and the function of the command responds before it
returns or does not. -/
def start (respondsNow : Bool) (operation : Option Operation) (s : State κ) : Option (State κ) :=
  let s := call operation s
  if operation = some .command ∧ respondsNow then respond config s else some s

/-- The function of a name. -/
def find (cmd : Bytes) : CommandFunction κ :=
  match config.registry.find? fun item => item.1 = cmd with
  | some item => .registered item.2
  | none => .unknownGroup

/-- The first token of a line, and what remains of it. -/
def split (line : Bytes) : Bytes × Bytes :=
  let (cmd, tokenizer) := (Tokenizer.mk [0x20] line).next
  (cmd.getD [], tokenizer.remaining)

/-- `HandleCommand`; none where an assertion fails or memory outside the buffers is used. -/
def handleCommand (size : ℕ) (respondsNow : Bool) (s : State κ) : Option (State κ) :=
  if s.writeOutstanding then none
  else match size with
  -- the size of the line is -1: it has an empty token, or runs out of the buffer
  | 0 => if (s.lineBuffer.head?.any (isDelimiter [0x20])) then some s else none
  | size + 1 =>
    let (cmd, args) := split (s.lineBuffer.take size)
    if cmd = [] then some s
    else
      (s.writeStream.asyncStart .command).bind fun (writeStream, operation) =>
        start config respondsNow operation { s with
          currentCommand := some (find config cmd)
          groupArguments := args
          lineBuffer := List.replicate config.maxLineLength (0 : UInt8)
          writeOutstanding := true
          writeStream := writeStream }

/-- `HandleRead`. -/
def handleRead (error : Bool) (size : ℕ) (respondsNow : Bool) (s : State κ) : Option (State κ) :=
  if error then some (asyncIgnoreUntil { s with callback := some .maybeStartRead })
  else (handleCommand config size respondsNow s).bind (maybeStartRead config)

/-- `read_until_context_.callback` is called. -/
def callBack (error : Bool) (size : ℕ) (respondsNow : Bool) (s : State κ) : Option (State κ) :=
  match s.callback with
  | none => none
  | some .handleRead => handleRead config error size respondsNow s
  | some .maybeStartRead => maybeStartRead config s

/-! ### The handlers of the reads -/

/-- The handler of `AsyncReadUntilHelper`. -/
def readUntilHandler (position : ℕ) (error : Bool) (size : ℕ) (respondsNow : Bool) (s : State κ) :
    Option (State κ) :=
  if error then callBack config true (position + size) respondsNow s
  else match s.lineBuffer[position]? with
  | none => none
  | some c =>
    if isDelimiter delimiters c then callBack config false (position + size) respondsNow s
    -- the buffer is full, without a delimiter
    else if position + 1 = config.maxLineLength then callBack config true position respondsNow s
    else some { s with reads := s.reads ++ [.until (position + 1)] }

/-- The handler of `AsyncIgnoreUntil`. -/
def ignoreUntilHandler (error : Bool) (respondsNow : Bool) (s : State κ) : Option (State κ) :=
  if error then callBack config true 0 respondsNow s
  else match s.lineBuffer[0]? with
  | none => none
  | some c =>
    if isDelimiter delimiters c then callBack config false 0 respondsNow s
    else some (asyncIgnoreUntil s)

/-- Where a read puts its byte. -/
def Read.position : Read → ℕ
  | .until position => position
  | .ignore => 0

/-- The state when a read has completed, before its handler is called. -/
def completed (index : ℕ) (read : Read) (byte : Option UInt8) (s : State κ) : State κ :=
  { s with
    reads := s.reads.eraseIdx index
    lineBuffer := byte.elim s.lineBuffer fun c => s.lineBuffer.set read.position c
    received := s.received ++ byte.toList }

/-- The handler of a read. -/
def handler (read : Read) (error : Bool) (size : ℕ) (respondsNow : Bool) (s : State κ) :
    Option (State κ) :=
  match read with
  | .until position => readUntilHandler config position error size respondsNow s
  | .ignore => ignoreUntilHandler config error respondsNow s

/-! ### Runs -/

/-- One event; none where it cannot happen, and where the process ends. -/
def step (s : State κ) : Event → Option (State κ)
  | .asyncStart =>
    if s.started then none else maybeStartRead config { s with started := true }
  | .readDone index error byte respondsNow =>
    match s.reads[index]? with
    | none => none
    | some read =>
      handler config read error byte.toList.length respondsNow (completed index read byte s)
  | .respond => if s.running then respond config s else none
  | .lock =>
    (s.writeStream.asyncStart .other).bind fun (writeStream, operation) =>
      start config false operation { s with writeStream := writeStream }
  | .unlock respondsNow =>
    -- the owner is one of the others
    if s.writeStream.outstanding ∧ ¬ s.running then
      s.writeStream.release.bind fun (writeStream, operation) =>
        start config respondsNow operation { s with writeStream := writeStream }
    else none

/-- A new command manager: its line buffer holds whatever the pool had there. -/
def init (lineBuffer : Bytes) : State κ := { lineBuffer := lineBuffer }

end Mjlib.Micro.CommandManager
