import Mjlib.Lib.Base128
import Mjlib.Multiplex.Register

/-!
# Subframes of a reply

What a reply of the register service is made of, as byte strings: replies to a read, and write and read
errors.  A number is what `ReadVaruint` takes for one, also with more than 32 bits or more than five
bytes.
-/

namespace Mjlib.Multiplex

/-- `ds` stands for the number `v`: it is a varuint of at most five bytes, of which the low 32 bits
count, or it is five bytes that all go on, for the largest number. -/
inductive IsNumber (v : UInt32) (ds : Bytes) : Prop
  | varuint {n : ℕ} (h : Base128.Encodes ds n) (hl : ds.length ≤ kMaxVaruintSize)
      (hv : v = UInt32.ofNat n)
  | tooLong (h : Base128.Open ds) (hl : ds.length = kMaxVaruintSize) (hv : v = 0xffffffff)

namespace RegisterReply

/-- Values with the consecutive registers they are of. -/
def named : Register → List Value → List RegisterValue
  | _, [] => []
  | reg, value :: values => (reg, .value value) :: named (reg + 1) values

/-- The type of a reply and the number of its values, in the low bits of the type or behind it. -/
inductive IsReplyHead (type count : ℕ) : Bytes → Prop
  | short {ds : Bytes} (hpos : 0 < count) (hlt : count < 4)
      (h : IsNumber (UInt32.ofNat (Subframe.kReplyBase + (type * 4 + count))) ds) :
      IsReplyHead type count ds
  | long {ds cs : Bytes} (hlt : count < 2 ^ 32)
      (h : IsNumber (UInt32.ofNat (Subframe.kReplyBase + type * 4)) ds)
      (hc : IsNumber (UInt32.ofNat count) cs) : IsReplyHead type count (ds ++ cs)

/-- The byte string is one complete subframe, with these values or this error. -/
inductive IsSubframe : List RegisterValue → Bytes → Prop
  | reply {type : ℕ} {start : Register} {values : List Value} {hs rs : Bytes} (htype : type < 4)
      (hvalues : ∀ v ∈ values, v.index = type) (hh : IsReplyHead type values.length hs)
      (hr : IsNumber start rs) :
      IsSubframe (named start values) (hs ++ (rs ++ values.flatMap Value.bytes))
  | error {kind : ℕ} {reg : Register} {code : UInt32} {ks rs cs : Bytes}
      (hkind : kind = Subframe.kWriteError ∨ kind = Subframe.kReadError)
      (hk : IsNumber (UInt32.ofNat kind) ks) (hr : IsNumber reg rs) (hc : IsNumber code cs) :
      IsSubframe [(reg, .error code)] (ks ++ (rs ++ cs))

/-- The byte string is a sequence of complete subframes, with these values and errors. -/
inductive IsReply : List RegisterValue → Bytes → Prop
  | nil : IsReply [] []
  | cons {values values' : List RegisterValue} {e r : Bytes} (h : IsSubframe values e)
      (hr : IsReply values' r) : IsReply (values ++ values') (e ++ r)

/-- The loop of `ParseRegisterReply` comes to an end: it puts out these values and errors and leaves
these bytes. -/
inductive Runs : Bytes → List RegisterValue → Bytes → Prop
  | stop {s rest : Bytes} (h : parseSubframe s = (none, rest)) : Runs s [] rest
  | next {s s' rest : Bytes} {values values' : List RegisterValue}
      (h : parseSubframe s = (some values, s')) (hr : Runs s' values' rest) :
      Runs s (values ++ values') rest

end RegisterReply

end Mjlib.Multiplex
