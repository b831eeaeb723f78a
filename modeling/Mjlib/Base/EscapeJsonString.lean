import Mjlib.Base.Stream

/-!
# `EscapeJsonString`

Strings as `Json5WriteArchive` and `EmitJson` write them.
-/

namespace Mjlib.Base

/-- One turn of the loop: the escapes of some characters, and every other as it is. -/
def escapeJsonChar (c : UInt8) : Bytes :=
  if c = 0x22 then [0x5c, 0x22]
  else if c = 0x5c then [0x5c, 0x5c]
  else if c = 0x08 then [0x5c, 0x62]
  else if c = 0x0c then [0x5c, 0x66]
  else if c = 0x0a then [0x5c, 0x6e]
  else if c = 0x0d then [0x5c, 0x72]
  else if c = 0x09 then [0x5c, 0x74]
  else if c = 0 then [0x5c, 0x75, 0x30, 0x30, 0x30, 0x30]
  else [c]

/-- `EscapeJsonString`. -/
def escapeJsonString (s : Bytes) : Bytes := s.flatMap escapeJsonChar

/-- `Json5WriteArchive::VisitHelper`, of a string. -/
def Json5WriteArchive.writeString (value : Bytes) : Bytes :=
  0x22 :: (escapeJsonString value ++ [0x22])

end Mjlib.Base
