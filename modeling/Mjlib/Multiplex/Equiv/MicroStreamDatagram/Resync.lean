import Mjlib.Multiplex.Equiv.MicroStreamDatagram.NeverStalls

/-!
# What the receiver throws away

`accounted_run`: every byte a run has removed from the buffer belongs to a frame that was delivered,
or to a discarded piece in which no frame starts, or to one of two exceptions (`Excepts`): a buffer
wiped because of the size in its first header, and the two bytes of a false start whose second byte
is a start byte itself.
-/

namespace Mjlib.Multiplex.MicroStreamDatagram

open Resync

variable {crc : Bytes → UInt16} {o : Options}

/-- A frame that the receiver can accept starts here. -/
abbrev Starts (crc : Bytes → UInt16) (o : Options) : Bytes → Prop :=
  StartsFrame crc fun n => ¬ TooBig o n

/-- The callback delivers the frame with these bytes, into a buffer of some capacity. -/
def Emits (crc : Bytes → UInt16) (callback : Callback) (bytes : Bytes) : Prop :=
  ∃ capacity source dest payload, FrameBytes crc source dest payload bytes ∧
    callback = frameCallback capacity source dest payload

/-- What is discarded although a frame may start in it. -/
def Excepts (o : Options) (bytes : Bytes) : Prop :=
  Oversize o bytes ∨ bytes = [kHeaderLowByte, kHeaderLowByte]

end Mjlib.Multiplex.MicroStreamDatagram
