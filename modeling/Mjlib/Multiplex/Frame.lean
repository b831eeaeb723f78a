import Mjlib.Lib.Base128
import Mjlib.Multiplex.Stream

/-!
# Frames

`Frame::encode`, and the frame of the format's documentation as a predicate on byte strings.
`boost::crc_ccitt_type` is the parameter `crc`: the 16-bit checksum as a function of the bytes it
has processed.
-/

namespace Mjlib.Multiplex

/-- `struct Frame`. -/
structure Frame where
  sourceId : UInt8
  requestReply : Bool
  destId : UInt8
  payload : Bytes
deriving DecidableEq, Repr

/-- The source byte on the wire: the id with the high bit set when a response is requested. -/
def Frame.sourceByte (f : Frame) : UInt8 := f.sourceId ||| (if f.requestReply then 0x80 else 0x00)

/-- `Frame::encode`. -/
def Frame.encode (crc : Bytes → UInt16) (f : Frame) : Bytes :=
  let written := scalarBytes 2 kHeader ++ [f.sourceByte] ++ [f.destId] ++
    writeVaruint (UInt32.ofNat f.payload.length) ++ f.payload
  written ++ scalarBytes 2 (crc written).toNat

/-! ### The frame of the format -/

/-- The bytes a frame's checksum is taken over, with `sizeBytes` as the numeral of the payload
size. -/
def frameBody (source dest : UInt8) (sizeBytes payload : Bytes) : Bytes :=
  kHeaderLowByte :: kHeaderHighByte :: source :: dest :: (sizeBytes ++ payload)

/-- `e` is a complete frame with a matching checksum, as the format describes it: any numeral of at
most five bytes may stand for the payload size. -/
structure IsFrame (crc : Bytes → UInt16) (source dest : UInt8) (payload e : Bytes) : Prop where
  size_lt : payload.length < 2 ^ 32
  exists_eq : ∃ sizeBytes, Base128.Encodes sizeBytes payload.length ∧ sizeBytes.length ≤ 5 ∧
    e = frameBody source dest sizeBytes payload ++
      scalarBytes 2 (crc (frameBody source dest sizeBytes payload)).toNat

/-- The string starts with a complete frame whose payload has an admissible size. -/
def StartsFrame (crc : Bytes → UInt16) (admissible : ℕ → Prop) (s : Bytes) : Prop :=
  ∃ source dest payload e, IsFrame crc source dest payload e ∧ admissible payload.length ∧ e <+: s

/-- `bytes` is what a reader takes for a frame with this payload: the size is any numeral that reads
as the payload's, also one of more than 32 bits. -/
def FrameBytes (crc : Bytes → UInt16) (source dest : UInt8) (payload bytes : Bytes) : Prop :=
  ∃ sizeBytes, (∀ r, BufferReadStream.readVaruint (sizeBytes ++ r)
      = (some (UInt32.ofNat payload.length), r)) ∧
    bytes = frameBody source dest sizeBytes payload ++
      scalarBytes 2 (crc (frameBody source dest sizeBytes payload)).toNat

end Mjlib.Multiplex
