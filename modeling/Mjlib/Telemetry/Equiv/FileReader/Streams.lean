import Mjlib.Telemetry.Equiv.FileWriter.Blocks
import Mjlib.Telemetry.FileReader

/-!
# Reading what a log file's streams have been given

A computation of the reader is followed step by step: `bind_ok` runs its first part, and each
primitive has a lemma that says what it returns, and where it leaves the streams, when the file goes
on with what the writer writes for it.  `State.advance` is a step over bytes of the file, and
`State.eat` one over bytes of the block in scope.
-/

namespace Mjlib.Telemetry.FileReader

open Base

variable {α β : Type} {st st' : State}

/-! ### Computations -/

theorem bind_ok {x : M α} {f : α → M β} {a : α} (h : x st = (.ok a, st')) :
    (x >>= f) st = f a st' := by
  show (match x st with | (a, s) => ExceptT.bindCont f a s : Except Error β × State) = _
  rw [h]
  rfl

theorem bind_error {x : M α} {f : α → M β} {e : Error} (h : x st = (.error e, st')) :
    (x >>= f) st = (.error e, st') := by
  show (match x st with | (a, s) => ExceptT.bindCont f a s : Except Error β × State) = _
  rw [h]
  rfl

/-- The first parts agree, and so does the rest. -/
theorem bind_congr_left {x y : M α} (f : α → M β) (h : x st = y st') :
    (x >>= f) st = (y >>= f) st' := by
  show (match x st with | (a, s) => ExceptT.bindCont f a s : Except Error β × State) =
    (match y st' with | (a, s) => ExceptT.bindCont f a s : Except Error β × State)
  rw [h]

theorem get_bind (f : State → M β) : ((get : M State) >>= f) st = f st st := rfl

theorem modify_bind (g : State → State) (f : PUnit → M β) :
    ((modify g : M PUnit) >>= f) st = f ⟨⟩ (g st) := rfl

theorem value_some_bind (a : α) (f : α → M β) : (M.value (some a) >>= f) st = f a st := rfl

/-! ### The file -/

variable {file : Bytes}

/-- A step over bytes of the block in scope. -/
def State.eat (st : State) (data : Bytes) : State :=
  { st.advance data with blockSize := st.blockSize - data.length }

@[simp] theorem advance_nil : st.advance [] = st := by
  obtain ⟨pos, crc, blockSize, records, idToRecord, nameToRecord, finalItem, _, _, start⟩ := st
  cases crc <;> simp [State.advance]

theorem advance_advance (a b : Bytes) : (st.advance a).advance b = st.advance (a ++ b) := by
  cases h : st.crc <;> simp [State.advance, h, Nat.add_assoc, List.append_assoc]

theorem eat_eat (a b : Bytes) : (st.eat a).eat b = st.eat (a ++ b) := by
  cases h : st.crc <;>
    simp [State.eat, State.advance, h, Nat.add_assoc, List.append_assoc, Int.sub_sub]

@[simp] theorem pos_advance (data : Bytes) : (st.advance data).pos = st.pos + data.length := rfl

@[simp] theorem pos_eat (data : Bytes) : (st.eat data).pos = st.pos + data.length := rfl

@[simp] theorem blockSize_eat (data : Bytes) :
    (st.eat data).blockSize = st.blockSize - data.length := rfl

@[simp] theorem crc_eat (data : Bytes) : (st.eat data).crc = st.crc.map (· ++ data) := rfl

@[simp] theorem records_eat (data : Bytes) : (st.eat data).records = st.records := rfl

@[simp] theorem idToRecord_eat (data : Bytes) : (st.eat data).idToRecord = st.idToRecord := rfl

theorem rest_advance {data s : Bytes} (h : rest file st = data ++ s) :
    rest file (st.advance data) = s := by
  unfold rest at h ⊢
  rw [pos_advance, ← List.drop_drop, h, List.drop_left' rfl]

theorem rest_eat {data s : Bytes} (h : rest file st = data ++ s) : rest file (st.eat data) = s :=
  rest_advance h

/-- What was read is what is stepped over. -/
theorem consume_of_rest {data s : Bytes} (h : rest file st = data ++ s) :
    consume file data.length st = (.ok ⟨⟩, st.advance data) := by
  show (Except.ok PUnit.unit, st.advance ((rest file st).take data.length)) = _
  rw [h, List.take_left' rfl]

theorem seek_of_nonneg {index : ℤ} (h : 0 ≤ index) :
    seek index st = (.ok ⟨⟩, { st with pos := index.toNat }) := by
  unfold seek
  rw [if_neg (not_lt.mpr h)]
  rfl

theorem readVaruint_of_rest {s : Bytes} {v : UInt64} (h : rest file st = writeVaruint v ++ s) :
    readVaruint file st = (.ok (some v), st.advance (writeVaruint v)) := by
  unfold readVaruint
  rw [get_bind, h, readVaruint_writeVaruint]
  dsimp only
  rw [List.length_append, Nat.add_sub_cancel, bind_ok (consume_of_rest h)]
  rfl

theorem readVaruint_of_nil (h : rest file st = []) : readVaruint file st = (.ok none, st) := by
  unfold readVaruint
  rw [get_bind, h]
  show (Except.ok none, st.advance ((rest file st).take 0)) = _
  rw [List.take_zero, advance_nil]

theorem readScalar_of_rest {s : Bytes} {size : ℕ} {v : BitVec (8 * size)}
    (h : rest file st = writeScalar size v ++ s) :
    readScalar file size st = (.ok (some v), st.advance (writeScalar size v)) := by
  unfold readScalar
  rw [get_bind, h, readScalar_writeScalar]
  dsimp only
  rw [List.length_append, Nat.add_sub_cancel, bind_ok (consume_of_rest h)]
  rfl

/-! ### The block in scope -/

theorem ask_of_le {size : ℕ} (h : (size : ℤ) ≤ st.blockSize) :
    ask size st = (.ok ⟨⟩, { st with blockSize := st.blockSize - size }) := by
  unfold ask
  rw [get_bind, if_pos h]
  rfl

/-- Ask for bytes of the block, and step over them. -/
theorem ask_consume {data s : Bytes} (h : rest file st = data ++ s)
    (hle : (data.length : ℤ) ≤ st.blockSize) (f : PUnit → M β) :
    (ask data.length >>= fun _ => consume file data.length >>= f) st = f ⟨⟩ (st.eat data) := by
  rw [bind_ok (ask_of_le hle)]
  have hrest : rest file { st with blockSize := st.blockSize - data.length } = data ++ s := h
  exact bind_ok (consume_of_rest hrest)

namespace Block

theorem readVaruint_of_rest {s : Bytes} {v : UInt64} (h : rest file st = writeVaruint v ++ s)
    (hle : ((writeVaruint v).length : ℤ) ≤ st.blockSize) :
    readVaruint file st = (.ok (some v), st.eat (writeVaruint v)) := by
  unfold readVaruint
  rw [get_bind, h, readVaruint_writeVaruint]
  dsimp only
  rw [List.length_append, Nat.add_sub_cancel, Option.isSome_some, if_pos rfl, Nat.add_zero]
  exact ask_consume h hle _

theorem readScalar_of_rest {s : Bytes} {size : ℕ} {v : BitVec (8 * size)}
    (h : rest file st = writeScalar size v ++ s) (hle : (size : ℤ) ≤ st.blockSize) :
    readScalar file size st = (.ok (some v), st.eat (writeScalar size v)) := by
  have hlen : (writeScalar size v).length = size := length_writeScalar size v
  unfold readScalar
  rw [get_bind, h, readScalar_writeScalar]
  dsimp only
  rw [List.length_append, Nat.add_sub_cancel]
  have := ask_consume h (by rw [hlen]; exact hle) fun _ => (pure (some v) : M _)
  rw [hlen] at this ⊢
  exact this

theorem rawRead_of_rest {data s : Bytes} (h : rest file st = data ++ s)
    (hle : (data.length : ℤ) ≤ st.blockSize) :
    rawRead file data.length st = (.ok (data, true), st.eat data) := by
  unfold rawRead
  rw [get_bind, h, Telemetry.rawRead, List.take_left' rfl, decide_eq_true (by simp)]
  exact ask_consume h hle _

/-- A string that is not too long. -/
theorem readString_of_rest {name s : Bytes} (h : rest file st = writeString name ++ s)
    (hlen : name.length ≤ Format.kMaxStringSize)
    (hle : ((writeString name).length : ℤ) ≤ st.blockSize) :
    readString file st = (.ok (some name), st.eat (writeString name)) := by
  have hsize : (UInt64.ofNat name.length).toNat = name.length := by
    rw [UInt64.toNat_ofNat', Nat.mod_eq_of_lt]
    exact lt_of_le_of_lt hlen (by decide)
  unfold writeString at h hle ⊢
  rw [List.append_assoc] at h
  rw [List.length_append, Nat.cast_add] at hle
  unfold readString
  rw [bind_ok (readVaruint_of_rest h (by omega))]
  dsimp only
  rw [hsize, if_neg (not_lt.mpr hlen),
    bind_ok (rawRead_of_rest (rest_eat h) (by rw [blockSize_eat]; omega)), eat_eat]
  rfl

/-- What is left of the block. -/
theorem readRemaining_of_rest {data s : Bytes} (h : rest file st = data ++ s)
    (hsize : st.blockSize = data.length) :
    readRemaining file st = (.ok data, st.eat data) := by
  unfold readRemaining
  rw [get_bind, hsize, if_neg (not_lt.mpr (Int.natCast_nonneg _)), Int.toNat_natCast,
    bind_ok (rawRead_of_rest h (le_of_eq hsize.symm))]
  dsimp only
  rw [Nat.sub_self, List.replicate_zero, List.append_nil]
  rfl

/-! ### Scopes -/

/-- The size of a block as a signed number. -/
theorem streamsize_ofNat {n : ℕ} (h : n < 2 ^ 63) : streamsize (UInt64.ofNat n) = n := by
  unfold streamsize
  rw [BitVec.toInt_eq_toNat_of_lt]
  · show ((UInt64.ofNat n).toNat : ℤ) = n
    rw [UInt64.toNat_ofNat', Nat.mod_eq_of_lt (by omega)]
  · show 2 * (UInt64.ofNat n).toNat < _
    rw [UInt64.toNat_ofNat', Nat.mod_eq_of_lt (by omega)]
    omega

theorem destroy_of_nonpos (hsize : st.blockSize ≤ 0) :
    destroy file st = (.ok ⟨⟩, st) := by
  unfold destroy
  rw [get_bind, if_neg (not_lt.mpr hsize)]
  rfl

/-- The destructor steps over what is left of the block. -/
theorem destroy_of_file (hcrc : st.crc = none) (hsize : 0 ≤ st.blockSize)
    (hlt : st.pos + st.blockSize < 2 ^ 63) :
    destroy file st = (.ok ⟨⟩, { st with pos := (st.pos + st.blockSize).toNat }) := by
  unfold destroy
  rw [get_bind]
  split_ifs with hpos
  · unfold ignoreBelow
    rw [get_bind, hcrc]
    dsimp only
    rw [if_pos (by omega)]
    have : st.pos + st.blockSize.toNat = (st.pos + st.blockSize).toNat := by omega
    rw [this, ← hcrc]
    rfl
  · have : (st.pos + st.blockSize).toNat = st.pos := by omega
    rw [this]
    rfl

/-- A computation that returns, with a block in scope. -/
theorem inScope_of_ok {size : UInt64} {body : M α} {a : α} {st₁ st₂ : State}
    (hbody : body { st with blockSize := streamsize size } = (.ok a, st₁))
    (hdestroy : destroy file st₁ = (.ok ⟨⟩, st₂)) :
    inScope file size body st = (.ok a, st₂) := by
  unfold inScope
  rw [hbody]
  dsimp only
  rw [hdestroy]

/-- A computation that throws. -/
theorem inScope_of_error {size : UInt64} {body : M α} {e : Error} {st₁ st₂ : State}
    (hbody : body { st with blockSize := streamsize size } = (.error e, st₁)) (he : e ≠ .assertion)
    (hdestroy : destroy file st₁ = (.ok ⟨⟩, st₂)) :
    inScope file size body st = (.error e, st₂) := by
  unfold inScope
  rw [hbody]
  cases e with
  | assertion => exact absurd rfl he
  | _ =>
    dsimp only
    rw [hdestroy]

/-- A computation that fails an assertion. -/
theorem inScope_of_assertion {size : UInt64} {body : M α} {st₁ : State}
    (hbody : body { st with blockSize := streamsize size } = (.error .assertion, st₁)) :
    inScope file size body st = (.error .assertion, st₁) := by
  unfold inScope
  rw [hbody]

end Block

end Mjlib.Telemetry.FileReader
