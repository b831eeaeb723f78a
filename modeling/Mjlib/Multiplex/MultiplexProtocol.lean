import Mjlib.Multiplex.MicroServer
import Mjlib.Multiplex.RequestSubframe

/-!
# `multiplex_protocol.py`

The client's side of the register service in Python, and of a tunnel: what it writes, and the poll
for what there is to read.  A type is the number that `_TYPE_FORMAT` is indexed by; a value that
`struct` has packed is the `Value` of these bytes.  What raises an exception has no result.
-/

namespace Mjlib.Multiplex.MultiplexProtocol

/-! ### Varuints -/

/-- `write_varuint`, of a number that passes its assertion. -/
def writeVaruint (value : ℕ) : Bytes :=
  if value / 128 > 0 then UInt8.ofNat (value % 128 + 128) :: writeVaruint (value / 128)
  else [UInt8.ofNat (value % 128)]
termination_by value
decreasing_by omega

/-- The loop of `read_varuint`, with `n` of its five iterations to go. -/
def readVaruintLoop : ℕ → ℕ → ℕ → Bytes → Option (Option ℕ × Bytes)
  | 0, _, _, _ => none
  | _ + 1, _, _, [] => some (none, [])
  | n + 1, shift, result, thisByte :: s =>
    let result := result ||| ((thisByte &&& 0x7f).toNat <<< shift)
    if thisByte &&& 0x80 = 0 then some (some result, s)
    else readVaruintLoop n (shift + 7) result s

/-- `read_varuint`: `None` at the end of the stream, and an assertion fails after five bytes. -/
def readVaruint (s : Bytes) : Option (Option ℕ × Bytes) := readVaruintLoop 5 0 0 s

/-! ### Requests -/

/-- `RegisterType`. -/
inductive RegisterType
  | int8
  | int16
  | int32
  | float
deriving DecidableEq, Repr

/-- The number of a type. -/
def RegisterType.index : RegisterType → ℕ
  | int8 => 0
  | int16 => 1
  | int32 => 2
  | float => 3

def REGISTER_READ_SINGLE_I8 : ℕ := 0x18
def REGISTER_READ_MULTIPLE_I8 : ℕ := 0x1c
def REGISTER_REPLY_SINGLE_I8 : ℕ := 0x20
def REGISTER_REPLY_MULTIPLE_I8 : ℕ := 0x24
def REGISTER_WRITE_SINGLE_I8 : ℕ := 0x10
def REGISTER_WRITE_MULTIPLE_I8 : ℕ := 0x14
def REGISTER_WRITE_ERROR : ℕ := 0x28
def REGISTER_READ_ERROR : ℕ := 0x29

/-- `read_single`. -/
def readSingle (register : Register) (regType : RegisterType) : Bytes :=
  writeVaruint (REGISTER_READ_SINGLE_I8 + regType.index) ++ writeVaruint register.toNat

/-- `read_multiple`. -/
def readMultiple (register : Register) (length : UInt32) (regType : RegisterType) : Bytes :=
  writeVaruint (REGISTER_READ_MULTIPLE_I8 + regType.index) ++
    (writeVaruint register.toNat ++ writeVaruint length.toNat)

/-- `write_single`. -/
def writeSingle (register : Register) (regValue : Value) : Bytes :=
  writeVaruint (REGISTER_WRITE_SINGLE_I8 + regValue.index) ++
    (writeVaruint register.toNat ++ regValue.bytes)

/-- `write_multiple`; none where an assertion fails. -/
def writeMultiple (startRegister : Register) (regValues : List Value) : Option Bytes :=
  match regValues with
  | [] => none
  | first :: _ =>
    if (regValues.all fun value => value.index == first.index) ∧ regValues.length < 2 ^ 32 then
      some (writeVaruint (REGISTER_WRITE_MULTIPLE_I8 + first.index) ++
        (writeVaruint startRegister.toNat ++
          (writeVaruint regValues.length ++ regValues.flatMap Value.bytes)))
    else none

/-- A call that adds to a request. -/
inductive Op
  | readSingle (register : Register) (regType : RegisterType)
  | readMultiple (register : Register) (length : UInt32) (regType : RegisterType)
  | writeSingle (register : Register) (regValue : Value)
  | writeMultiple (startRegister : Register) (regValues : List Value)
deriving DecidableEq, Repr

/-- The bytes that a call adds. -/
def Op.bytes : Op → Option Bytes
  | .readSingle register regType => some (MultiplexProtocol.readSingle register regType)
  | .readMultiple register length regType =>
    some (MultiplexProtocol.readMultiple register length regType)
  | .writeSingle register regValue => some (MultiplexProtocol.writeSingle register regValue)
  | .writeMultiple startRegister regValues =>
    MultiplexProtocol.writeMultiple startRegister regValues

/-- The data of the request that is built by a sequence of calls. -/
def build : List Op → Option Bytes
  | [] => some []
  | op :: ops => op.bytes.bind fun bytes => (build ops).map (bytes ++ ·)

/-! ### Replies -/

/-- `RegisterValue`, or a `RegisterError` with its error, which may be `None`. -/
inductive Entry
  | value (value : Value)
  | error (error : Option ℕ)
deriving DecidableEq, Repr

/-- A `dict`, with the keys that were set last in front; a key may be `None`. -/
abbrev Dict := List (Option ℕ × Entry)

/-- What a key is mapped to. -/
def Dict.get (dict : Dict) (key : Option ℕ) : Option Entry := dict.lookup key

/-- Read a value: nothing where `unpack` raises. -/
def unpack (type : ℕ) (s : Bytes) : Option (Value × Bytes) :=
  let size := Value.sizeOfType type
  if s.length < size then none
  else some (Value.ofScalar type (LittleEndian.decode (s.take size)), s.drop size)

/-- The loop over the values of a reply, with the number of registers to go. -/
def readValues (type : ℕ) : ℕ → ℕ → Bytes → Dict → Option (Dict × Bytes)
  | 0, _, s, dict => some (dict, s)
  | n + 1, reg, s, dict =>
    (unpack type s).bind fun (value, s) =>
      readValues type n (reg + 1) s ((some reg, .value value) :: dict)

/-- `_parse_subframe`: what it adds to the result, and the rest of the stream. -/
def parseSubframe (s : Bytes) : Option (Option Dict × Bytes) := do
  let (subframeId, s) ← readVaruint s
  match subframeId with
  | none => return (none, s)
  | some subframeId =>
    if subframeId / 4 * 4 = REGISTER_REPLY_SINGLE_I8 then do
      let (thisReg, s) ← readVaruint s
      match thisReg with
      | none => return (none, s)
      | some thisReg =>
        (unpack (subframeId % 4) s).map fun (value, s) => (some [(some thisReg, .value value)], s)
    else if subframeId / 4 * 4 = REGISTER_REPLY_MULTIPLE_I8 then do
      let (startReg, s) ← readVaruint s
      let (numberOfReg, s) ← readVaruint s
      match startReg, numberOfReg with
      | some startReg, some numberOfReg =>
        (readValues (subframeId % 4) numberOfReg startReg s []).map fun (dict, s) => (some dict, s)
      | _, _ => return (none, s)
    else if subframeId = REGISTER_WRITE_ERROR ∨ subframeId = REGISTER_READ_ERROR then do
      let (thisReg, s) ← readVaruint s
      let (thisErr, s) ← readVaruint s
      return (some [(thisReg, .error thisErr)], s)
    else return (none, s)

/-- The loop of `ParseRegisterReply`; every subframe that is parsed takes at least one byte. -/
def parseRegisterReplyLoop : ℕ → Bytes → Dict → Option Dict
  | 0, _, result => some result
  | n + 1, s, result =>
    (parseSubframe s).bind fun
      | (none, _) => some result
      | (some thisResult, s) => parseRegisterReplyLoop n s (thisResult ++ result)

/-- `ParseRegisterReply`. -/
def parseRegisterReply (data : Bytes) : Option Dict :=
  parseRegisterReplyLoop (data.length + 1) data []

/-! ### Frames -/

def FRAME_HEADER_MAGIC : ℕ := 0xab54
def STREAM_CLIENT_TO_SERVER : UInt8 := 0x40

/-- `struct.pack('<B', value)`, which raises when the value is none of a byte. -/
def packByte (value : ℤ) : Option UInt8 :=
  if 0 ≤ value ∧ value < 256 then some (UInt8.ofNat value.toNat) else none

/-- `_pack_frame`; `binascii.crc_hqx` from `0xffff` is the parameter `crc`. -/
def packFrame (crc : Bytes → UInt16) (source dest : ℤ) (payload : Bytes) : Option Bytes := do
  let source ← packByte source
  let dest ← packByte dest
  let header := scalarBytes 2 FRAME_HEADER_MAGIC ++ [source] ++ [dest]
  let size ← packByte payload.length
  let frameMinusCrc := header ++ [size] ++ payload
  return frameMinusCrc ++ scalarBytes 2 (crc frameMinusCrc).toNat

/-- The payload that `MultiplexClient.write` makes of its data. -/
def writePayload (channel : ℤ) (data : Bytes) : Option Bytes := do
  let channel ← packByte channel
  let size ← packByte data.length
  return [STREAM_CLIENT_TO_SERVER] ++ [channel] ++ [size] ++ data

/-- `MultiplexClient.write`: what it hands to its manager. -/
def write (crc : Bytes → UInt16) (sourceId destinationId channel : ℤ) (data : Bytes) :
    Option Bytes := do
  let payload ← writePayload channel data
  packFrame crc sourceId destinationId payload

/-! ### Polls -/

def STREAM_SERVER_TO_CLIENT : ℕ := 0x41

/-- What `io.BytesIO` is made of: `read_frame` has `None` for a payload of less than three bytes. -/
def pollStream (payload : Bytes) : Bytes := if payload.length < 3 then [] else payload

/-- The loop of `_try_one_poll`, with the payloads that `read_frame` finds before it times out. -/
def tryOnePollLoop : List Bytes → Bytes → Option Bytes
  | [], result => some result
  | payload :: payloads, result => do
    let (subframeId, s) ← readVaruint (pollStream payload)
    let (channel, s) ← readVaruint s
    let (serverLen, s) ← readVaruint s
    match subframeId, channel, serverLen with
    | some subframeId, some _, some _ =>
      if subframeId ≠ STREAM_SERVER_TO_CLIENT then some result
      -- the channel and the length are not looked at
      else tryOnePollLoop payloads (result ++ s)
    | _, _, _ => some result

/-- `_try_one_poll`, of frames from the server that is polled. -/
def tryOnePoll (payloads : List Bytes) : Option Bytes := tryOnePollLoop payloads []

end Mjlib.Multiplex.MultiplexProtocol
