import Mjlib.Base.Stream

/-!
# CRC-32

`boost::crc_32_type`: the reflected CRC with the polynomial `0x04c11db7`, started at and finally
xored with all ones.
-/

namespace Mjlib.Base

/-- One bit of the register. -/
def crc32Bit (crc : BitVec 32) : BitVec 32 :=
  if crc.getLsbD 0 then (crc >>> 1) ^^^ 0xedb88320#32 else crc >>> 1

/-- One byte of the data. -/
def crc32Byte (crc : BitVec 32) (b : UInt8) : BitVec 32 :=
  Nat.repeat crc32Bit 8 (crc ^^^ BitVec.ofNat 32 b.toNat)

/-- `boost::crc_32_type` after `process_bytes`: its `checksum()`. -/
def crc32 (data : Bytes) : BitVec 32 := data.foldl crc32Byte 0xffffffff#32 ^^^ 0xffffffff#32

example : crc32 [0x31, 0x32, 0x33, 0x34, 0x35, 0x36, 0x37, 0x38, 0x39] = 0xcbf43926#32 := by
  decide +kernel

end Mjlib.Base
