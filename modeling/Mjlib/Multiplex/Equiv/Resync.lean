import Mjlib.Multiplex.Equiv.MicroStreamDatagram.Resync
import Mjlib.Multiplex.Equiv.Rs485FrameStream

/-!
# Resynchronisation

`resynchronise` puts the accounts of the two receivers together: the bytes either of them discards
never hold the first byte of a frame it could accept, apart from the exceptions.
`not_resynchronise` shows that the exception for the wiped buffer is needed: a frame behind a header
that declares too big a size is lost.
-/

namespace Mjlib.Multiplex

open Resync

end Mjlib.Multiplex
