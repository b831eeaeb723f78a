import Mjlib.Base.Stream

/-!
# `base::Tokenizer`

The tokenizer is what is left of its source.  `strchr` finds the zero that ends the delimiters too,
so a zero byte is always a delimiter.
-/

namespace Mjlib.Base

/-- Whether a byte is a delimiter. -/
def isDelimiter (delimiters : Bytes) (c : UInt8) : Bool := c ∈ delimiters ∨ c = 0

/-- `Tokenizer`: the bytes from `position_` on. -/
structure Tokenizer where
  delimiters : Bytes
  remaining : Bytes
deriving DecidableEq, Repr

namespace Tokenizer

/-- `next`; none for the null view that it returns at the end. -/
def next (t : Tokenizer) : Option Bytes × Tokenizer :=
  if t.remaining = [] then (none, t)
  else
    let token := t.remaining.takeWhile fun c => !isDelimiter t.delimiters c
    (some token, { t with remaining := t.remaining.drop (token.length + 1) })

end Tokenizer

end Mjlib.Base
