import Mjlib.Base.Strtol
import Mjlib.Base.Tokenizer
import Mjlib.Micro.AsyncExclusive

/-!
# `TelemetryManager`

The telemetry manager and the exclusive write stream that it shares with others, as a machine that
takes one event after the other.  The elements are registered beforehand: a list, as the linear
`PoolMap` keeps them.  What an element's data are, and what the commands respond, is left out.
-/

namespace Mjlib.Micro.TelemetryManager

open Base

/-! ### The elements -/

/-- `Element`. -/
structure Element where
  name : Bytes
  rate : ℤ := 0
  next : ℤ := 1
  toSend : Bool := false
  text : Bool := false
deriving DecidableEq, Repr

/-- Rates requested faster than this will result in a message being emitted per-update. -/
def kMinRateMs : ℤ := 10

/-- The conversion of a `long` to an `int`. -/
def toInt (n : ℤ) : ℤ := n.bmod (2 ^ 32)

/-- `elements_.find`, as an index. -/
def find (name : Bytes) (elements : List Element) : Option ℕ :=
  elements.findIdx? fun element => element.name = name

/-- Whether the element of this index is ready to be sent. -/
def flagged (elements : List Element) (i : ℕ) : Bool := elements[i]?.any Element.toSend

namespace Element

/-- What `PollMillisecond` does with one element. -/
def poll (element : Element) : Element :=
  if element.rate > 1 ∧ element.next > 0 then
    let element := { element with next := element.next - 1 }
    if element.next = 0 then { element with toSend := true, next := element.rate } else element
  else element

/-- What `Rate` does with the element that it finds. -/
def setRate (rate : ℤ) (element : Element) : Element :=
  let element := { element with rate := toInt rate }
  if rate = 0 then { element with next := 1 }
  else if rate < kMinRateMs then { element with rate := 1, next := 1 }
  else { element with next := toInt rate }

/-- What `Stop` does with one element. -/
def stop (element : Element) : Element := { element with toSend := false, rate := 0 }

end Element

/-! ### The commands -/

/-- `Rate`; none where its assertion fails. -/
def rate (command : Bytes) (elements : List Element) : Option (List Element) :=
  let (name, tokenizer) := (Tokenizer.mk [0x20] command).next
  let rateStr := tokenizer.next.1.getD []
  match find (name.getD []) elements with
  | none => some elements
  | some i =>
    if rateStr.length < 23 then
      some (elements.modify i (Element.setRate (strtol 0 rateStr).1))
    else none

/-- `Format`; none where its assertion fails. -/
def format (command : Bytes) (elements : List Element) : Option (List Element) :=
  let (name, tokenizer) := (Tokenizer.mk [0x20] command).next
  let formatStr := tokenizer.next.1.getD []
  match find (name.getD []) elements with
  | none => some elements
  | some i =>
    if formatStr.length < 4 then
      some (elements.modify i fun element =>
        { element with text := decide ((strtol 0 formatStr).1 ≠ 0) })
    else none

/-- `Stop`. -/
def stop (elements : List Element) : List Element := elements.map Element.stop

/-- `Text`. -/
def text (elements : List Element) : List Element :=
  elements.map fun element => { element with text := true }

/-- The name of a subcommand that changes the elements. -/
def rateName : Bytes := [0x72, 0x61, 0x74, 0x65]
def fmtName : Bytes := [0x66, 0x6d, 0x74]
def stopName : Bytes := [0x73, 0x74, 0x6f, 0x70]
def textName : Bytes := [0x74, 0x65, 0x78, 0x74]

/-- The first token of a command. -/
def subcommand (command : Bytes) : Bytes := (Tokenizer.mk [0x20] command).next.1.getD []

/-- `Command`, by what it does to the elements; `get`, `list` and `schema` only write. -/
def command (command : Bytes) (elements : List Element) : Option (List Element) :=
  let remaining := (Tokenizer.mk [0x20] command).next.2.remaining
  if subcommand command = rateName then rate remaining elements
  else if subcommand command = fmtName then format remaining elements
  else if subcommand command = stopName then some (stop elements)
  else if subcommand command = textName then some (text elements)
  else some elements

/-! ### The machine -/

/-- An operation on the write stream. -/
inductive Operation
  /-- The one that emits the data of an element. -/
  | send (element : ℕ)
  /-- One of the other users of the stream. -/
  | other
deriving DecidableEq, Repr

/-- A call of `EmitData`. -/
structure Emission where
  element : ℕ
  text : Bool
deriving DecidableEq, Repr

/-- `TelemetryManager::Impl`, with the write stream. -/
structure State where
  elements : List Element
  outstandingWrite : Bool := false
  /-- `write_release_`: the call of `AsyncStart` that it releases. -/
  writeRelease : Option ℕ := none
  lastSent : ℕ := 0
  /-- `AsyncStart` has called the operation that `MaybeStartSend` gave it and has not returned: what
  will be assigned to `last_sent_`. -/
  returning : Option ℕ := none
  writeStream : AsyncExclusive.State Operation
  /-- The calls of `EmitData`. -/
  emitted : List Emission := []

namespace State

/-- A telemetry manager with these elements, on a stream that nobody uses. -/
def init (maxLockers : ℕ) (elements : List Element) : State :=
  { elements := elements, writeStream := AsyncExclusive.State.init maxLockers }

/-- The element that `MaybeStartSend` finds, starting one after the last sent item. -/
def toCheck (s : State) : Option ℕ :=
  ((List.range s.elements.length).map fun i => (i + s.lastSent + 1) % s.elements.length).find?
    (flagged s.elements)

/-- What an operation of the write stream does when it is called. -/
def call (s : State) (call : AsyncExclusive.Call Operation) : State :=
  match call.operation with
  | .send i =>
    { s with
      writeRelease := some call.number
      emitted := s.emitted ++ [⟨i, s.elements[i]?.any Element.text⟩] }
  | .other => s

/-- The write stream does something, and perhaps calls an operation. -/
def useStream (s : State) (action : AsyncExclusive.Action Operation) : Option State :=
  (AsyncExclusive.step s.writeStream action).map fun writeStream =>
    (writeStream.started.drop s.writeStream.started.length).foldl call
      { s with writeStream := writeStream }

/-- `MaybeStartSend`; none where an assertion of the write stream fails. -/
def maybeStartSend (s : State) : Option State :=
  if s.outstandingWrite then some s
  else match s.toCheck with
    | none => some s
    | some i =>
      let elements := s.elements.modify i fun element => { element with toSend := false }
      (useStream { s with elements := elements, outstandingWrite := true }
          (.asyncStart (.send i))).map fun s' =>
        -- an operation that has to wait is not called, and `AsyncStart` returns at once
        if s.writeStream.started.length < s'.writeStream.started.length then
          { s' with returning := some i }
        else { s' with lastSent := i }

/-- The callback of the write of an element's data. -/
def actualRelease (s : State) : Option State :=
  s.writeRelease.bind fun copy =>
    useStream { s with outstandingWrite := false, writeRelease := none } (.release copy)

end State

/-- What happens around a telemetry manager. -/
inductive Event
  /-- `UpdateItem`. -/
  | update (i : ℕ)
  | pollMillisecond
  | command (command : Bytes)
  /-- The write of an element's data completes. -/
  | sent
  /-- The operation of `MaybeStartSend` returns. -/
  | return
  /-- Another user of the write stream calls its `AsyncStart`. -/
  | lock
  /-- Another user that owns the write stream releases it. -/
  | unlock (number : ℕ)
deriving DecidableEq, Repr

open State

/-- One event; none where it cannot happen, and where the process ends.  The callbacks of the writes
trigger no updates: nothing calls `MaybeStartSend` before it has returned. -/
def step (s : State) : Event → Option State
  | .update i =>
    if s.returning.isSome then none
    else s.elements[i]?.bind fun element =>
      if element.rate = 1 then
        maybeStartSend { s with
          elements := s.elements.modify i fun element => { element with toSend := true } }
      else some s
  | .pollMillisecond =>
    if s.returning.isSome then none
    else maybeStartSend { s with elements := s.elements.map Element.poll }
  | .command bytes =>
    (command bytes s.elements).map fun elements => { s with elements := elements }
  | .sent => actualRelease s
  | .return => s.returning.map fun i => { s with lastSent := i, returning := none }
  | .lock => useStream s (.asyncStart .other)
  | .unlock number =>
    if s.writeStream.owners.any fun call => call = ⟨number, .other⟩ then
      useStream s (.release number)
    else none

end Mjlib.Micro.TelemetryManager
