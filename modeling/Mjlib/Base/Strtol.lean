import Mjlib.Base.Stream

/-!
# The numbers of the C library

`strtol` and its relatives, on the text from a pointer on: white space, a sign, perhaps a prefix that
says the base, and as many digits as there are.
-/

namespace Mjlib.Base

/-- `isspace`. -/
def isSpace (c : UInt8) : Bool := c = 0x20 ∨ (0x09 ≤ c ∧ c ≤ 0x0d)

/-- The value of a digit, of any base up to 36. -/
def digitValue (c : UInt8) : Option ℕ :=
  if 0x30 ≤ c ∧ c ≤ 0x39 then some (c.toNat - 0x30)
  else if 0x61 ≤ c ∧ c ≤ 0x7a then some (c.toNat - 0x61 + 10)
  else if 0x41 ≤ c ∧ c ≤ 0x5a then some (c.toNat - 0x41 + 10)
  else none

/-- Whether a byte is a digit of a base. -/
def isDigit (base : ℕ) (c : UInt8) : Bool :=
  match digitValue c with
  | some d => d < base
  | none => false

/-- The number that digits stand for. -/
def digitsValue (base : ℕ) (digits : Bytes) : ℕ :=
  digits.foldl (fun n c => base * n + (digitValue c).getD 0) 0

/-- An optional sign: whether it is a minus, and the text behind it. -/
def takeSign (s : Bytes) : Bool × Bytes :=
  match s with
  | [] => (false, s)
  | c :: s' => if c = 0x2d then (true, s') else if c = 0x2b then (false, s') else (false, s)

/-- Whether a text starts with `0x` and a digit. -/
def isHexPrefix : Bytes → Bool
  | zero :: x :: c :: _ => zero = 0x30 ∧ (x = 0x78 ∨ x = 0x58) ∧ isDigit 16 c
  | _ => false

/-- The base and the text behind a prefix; base 0 leaves the base to the text. -/
def takePrefix (base : ℕ) (s : Bytes) : ℕ × Bytes :=
  if (base = 0 ∨ base = 16) ∧ isHexPrefix s then (16, s.drop 2)
  else if base = 0 then (if s.head? = some 0x30 then 8 else 10, s)
  else (base, s)

/-- The sign, the magnitude and what is left of the text; none if there is no number. -/
def parseNumber (base : ℕ) (s : Bytes) : Option (Bool × ℕ × Bytes) :=
  let (negative, s) := takeSign (s.dropWhile isSpace)
  let (base, s) := takePrefix base s
  let digits := s.takeWhile (isDigit base)
  if digits = [] then none
  else some (negative, digitsValue base digits, s.drop digits.length)

/-- `strtol` and `strtoll`: the number, which saturates, and the text from `*str_end` on. -/
def strtol (base : ℕ) (s : Bytes) : ℤ × Bytes :=
  match parseNumber base s with
  | none => (0, s)
  | some (negative, n, rest) =>
    (if negative then max (-n) (-2 ^ 63) else min n (2 ^ 63 - 1), rest)

/-- `strtoull`: a minus sign negates the number modulo `2 ^ 64`. -/
def strtoull (base : ℕ) (s : Bytes) : ℕ × Bytes :=
  match parseNumber base s with
  | none => (0, s)
  | some (negative, n, rest) =>
    (if n ≥ 2 ^ 64 then 2 ^ 64 - 1 else if negative then (2 ^ 64 - n) % 2 ^ 64 else n, rest)

/-- What `std::stoll` and its relatives throw. -/
inductive StoFailure
  /-- `std::invalid_argument`: there is no number. -/
  | invalidArgument
  /-- `std::out_of_range`. -/
  | outOfRange
deriving DecidableEq, Repr

/-- `std::stoll`: the number, and how many characters it has. -/
def stoll (base : ℕ) (s : Bytes) : Except StoFailure (ℤ × ℕ) :=
  match parseNumber base s with
  | none => .error .invalidArgument
  | some (negative, n, rest) =>
    let value : ℤ := if negative then -n else n
    if value < -2 ^ 63 ∨ value > 2 ^ 63 - 1 then .error .outOfRange
    else .ok (value, s.length - rest.length)

/-- `std::stoull`: a minus sign negates the number modulo `2 ^ 64`. -/
def stoull (base : ℕ) (s : Bytes) : Except StoFailure (ℕ × ℕ) :=
  match parseNumber base s with
  | none => .error .invalidArgument
  | some (negative, n, rest) =>
    if n ≥ 2 ^ 64 then .error .outOfRange
    else .ok (if negative then (2 ^ 64 - n) % 2 ^ 64 else n, s.length - rest.length)

example : strtol 0 [0x2d, 0x30, 0x78, 0x31, 0x46, 0x2e] = (-31, [0x2e]) := by decide

end Mjlib.Base
