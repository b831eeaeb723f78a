import Mathlib
import Mjlib.Base.Stream

/-!
# Numbers as text

What `snprintf` makes of an integer, and of a floating point number with `%f`; the second is a
parameter.  `{:x}` of `fmt` is here too.
-/

namespace Mjlib.Base

/-- A number in decimal. -/
def decimal (n : ℕ) : Bytes := (Nat.toDigits 10 n).map fun c => UInt8.ofNat c.toNat

/-- A number in hexadecimal, `{:x}`. -/
def hexadecimal (n : ℕ) : Bytes := (Nat.toDigits 16 n).map fun c => UInt8.ofNat c.toNat

/-- A signed number in decimal. -/
def formatInt (n : ℤ) : Bytes := if n < 0 then 0x2d :: decimal n.natAbs else decimal n.natAbs

/-- The C library's `%f`, of a `float` after its promotion, and of a `double`. -/
structure FloatFormat where
  float32 : BitVec 32 → Bytes
  float64 : BitVec 64 → Bytes

example : formatInt (-120) = [0x2d, 0x31, 0x32, 0x30] := by decide

end Mjlib.Base
