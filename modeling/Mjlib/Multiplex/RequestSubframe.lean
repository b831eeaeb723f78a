import Mjlib.Lib.Base128
import Mjlib.Multiplex.Stream

/-!
# Subframes of a request

What a client can ask for in a frame, and the byte strings that ask for it, as the documentation of
the format describes them.  Every number may be written as any varuint of at most five bytes, and
the number of registers in the low bits of the type or in a varuint of its own.
-/

namespace Mjlib.Multiplex

/-- `ds` is a varuint of `v`. -/
def IsVaruint (v : UInt32) (ds : Bytes) : Prop :=
  Base128.Encodes ds v.toNat ∧ ds.length ≤ kMaxVaruintSize

/-- A subframe of a request; `explicit` says that the number of registers has a varuint of its
own. -/
inductive RequestSubframe
  | nop
  | clientToServer (channel : UInt32) (data : Bytes)
  | clientPollServer (channel maxBytes : UInt32)
  | write (type : ℕ) (start : Register) (values : List Value)
  | read (type : ℕ) (start : Register) (count : ℕ) (explicit : Bool)
deriving DecidableEq, Repr

/-- The type of a register subframe and its number of registers. -/
inductive IsHead (base type count : ℕ) : Bool → Bytes → Prop
  | short {ds : Bytes} (hpos : 0 < count) (hlt : count < 4)
      (h : IsVaruint (UInt32.ofNat (base + (type * 4 + count))) ds) :
      IsHead base type count false ds
  | long {ds es : Bytes} (hlt : count < 2 ^ 32)
      (h : IsVaruint (UInt32.ofNat (base + type * 4)) ds)
      (hc : IsVaruint (UInt32.ofNat count) es) : IsHead base type count true (ds ++ es)

namespace RequestSubframe

/-- The byte string is a well-formed encoding of the subframe. -/
inductive Encodes : RequestSubframe → Bytes → Prop
  | nop {ds : Bytes} (h : IsVaruint (UInt32.ofNat Subframe.kNop) ds) : Encodes .nop ds
  | clientToServer {channel : UInt32} {data ds cs ls : Bytes}
      (h : IsVaruint (UInt32.ofNat Subframe.kClientToServer) ds) (hc : IsVaruint channel cs)
      (hlt : data.length < 2 ^ 32) (hl : IsVaruint (UInt32.ofNat data.length) ls) :
      Encodes (.clientToServer channel data) (ds ++ (cs ++ (ls ++ data)))
  | clientPollServer {channel maxBytes : UInt32} {ds cs ms : Bytes}
      (h : IsVaruint (UInt32.ofNat Subframe.kClientPollServer) ds) (hc : IsVaruint channel cs)
      (hm : IsVaruint maxBytes ms) :
      Encodes (.clientPollServer channel maxBytes) (ds ++ (cs ++ ms))
  | write {type : ℕ} {start : Register} {values : List Value} {explicit : Bool} {hs rs : Bytes}
      (htype : type < 4) (hvalues : ∀ v ∈ values, v.index = type)
      (hh : IsHead Subframe.kWriteBase type values.length explicit hs) (hr : IsVaruint start rs) :
      Encodes (.write type start values) (hs ++ (rs ++ values.flatMap Value.bytes))
  | read {type : ℕ} {start : Register} {count : ℕ} {explicit : Bool} {hs rs : Bytes}
      (htype : type < 4) (hh : IsHead Subframe.kReadBase type count explicit hs)
      (hr : IsVaruint start rs) : Encodes (.read type start count explicit) (hs ++ rs)

/-- The registers a subframe of `count` registers is about. -/
def registers (start : Register) (count : ℕ) : List Register :=
  (List.range count).map fun i => start + UInt32.ofNat i

/-- The bytes of a list of subframes with their encodings. -/
def bytes (subframes : List (RequestSubframe × Bytes)) : Bytes := subframes.flatMap Prod.snd

@[simp] theorem bytes_nil : bytes [] = [] := rfl

@[simp] theorem bytes_cons (p : RequestSubframe × Bytes) (L : List (RequestSubframe × Bytes)) :
    bytes (p :: L) = p.2 ++ bytes L := List.flatMap_cons

end RequestSubframe

end Mjlib.Multiplex
