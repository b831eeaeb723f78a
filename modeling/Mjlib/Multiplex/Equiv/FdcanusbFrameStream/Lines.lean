import Mathlib
import Mjlib.Base.Equiv.Strtol
import Mjlib.Lib.Base128
import Mjlib.Multiplex.Equiv.FdcanusbFrameStream

/-!
# `FdcanusbFrameStream`: lines and frames

`parseLine_encodeFdcanusb`: a frame that is sent and comes back as a `rcv` line is the same one,
with the padding of the bus behind its payload.

A `rcv` line that is not of this form is decoded like any other.  `decodesSafely_iff`: `ParseLine` leaves the
data field, or the payload, or passes on what is no byte, exactly for the lines whose data field has
an odd length or a character that is no digit.
-/

namespace Mjlib.Multiplex.FdcanusbFrameStream

open Base

variable {beyond : Bytes} {s : State}

/-! ### Padding -/

theorem roundUpDlc_le (n : ℕ) : roundUpDlc n ≤ 64 := by
  rw [roundUpDlc]
  split_ifs <;> omega

theorem exists_padded (payload : Bytes) :
    ∃ k ≤ 64, padded payload = payload ++ List.replicate k 0x50 :=
  ⟨_, (Nat.sub_le _ _).trans (roundUpDlc_le _), rfl⟩

theorem parseHexByte_hexByte (c : UInt8) (data : Bytes) :
    parsePayload (hexByte c ++ data) = c :: parsePayload data := by
  have h : ∀ n : Fin 256, parseHexByte (hexDigit (UInt8.ofNat n.val >>> 4))
      (hexDigit (UInt8.ofNat n.val &&& 0xf)) = UInt8.ofNat n.val := by decide +kernel
  have hc := h ⟨c.toNat, c.toNat_lt⟩
  rw [UInt8.ofNat_toNat] at hc
  rw [hexByte, List.cons_append, List.cons_append, List.nil_append, parsePayload, hc]

/-- **The line that is sent stands for the padded payload.** -/
theorem parsePayload_encodePayload (payload : Bytes) :
    parsePayload (encodePayload payload) = padded payload := by
  have hpad : ∀ k, parsePayload (List.replicate k [0x35, 0x30]).flatten
      = List.replicate k 0x50 := by
    intro k
    induction k with
    | zero => rfl
    | succ k ih =>
      rw [List.replicate_succ, List.flatten_cons, List.replicate_succ, ← ih]
      rfl
  have hbytes : ∀ p data : Bytes,
      parsePayload (p.flatMap hexByte ++ data) = p ++ parsePayload data := by
    intro p data
    induction p with
    | nil => rfl
    | cons c p ih =>
      rw [List.flatMap_cons, List.append_assoc, parseHexByte_hexByte, ih, List.cons_append]
  rw [encodePayload, hbytes, hpad, padded]

/-- The lengths that a frame on the bus can have. -/
def dlcLengths : List ℕ := [0, 1, 2, 3, 4, 5, 6, 7, 8, 12, 16, 20, 24, 32, 48, 64]

/-- `RoundUpDlc` finds the next length. -/
theorem isLeast_roundUpDlc {n : ℕ} (h : n ≤ 64) :
    IsLeast {length | length ∈ dlcLengths ∧ n ≤ length} (roundUpDlc n) := by
  have hmem : roundUpDlc n ∈ dlcLengths ∧ n ≤ roundUpDlc n := by
    unfold roundUpDlc dlcLengths
    simp only [List.mem_cons, List.not_mem_nil, or_false]
    split_ifs
    all_goals omega
  have hleast : ∀ length ∈ dlcLengths, n ≤ length → roundUpDlc n ≤ length := by
    unfold roundUpDlc dlcLengths
    intro length hlength hle
    simp only [List.mem_cons, List.not_mem_nil, or_false] at hlength
    split_ifs
    all_goals omega
  exact ⟨hmem, fun length hlength => hleast length hlength.1 hlength.2⟩

/-! ### Addresses -/

theorem sendAddress_eq (frame : Frame) :
    sendAddress frame = 256 * frame.sourceByte.toNat + frame.destId.toNat := by
  have hdest := frame.destId.toNat_lt
  rw [sendAddress, ← Nat.shiftLeft_add_eq_or_of_lt hdest, Nat.shiftLeft_eq, Nat.mul_comm]

theorem sendAddress_lt (frame : Frame) : sendAddress frame < 2 ^ 16 := by
  have hsource := frame.sourceByte.toNat_lt
  have hdest := frame.destId.toNat_lt
  rw [sendAddress_eq]
  omega

/-- The two bytes of an address. -/
theorem bytes_of_address (frame : Frame) :
    UInt8.ofBitVec (((BitVec.ofInt 64 (sendAddress frame)).sshiftRight 8).setWidth 8)
        = frame.sourceByte ∧
      UInt8.ofBitVec ((BitVec.ofInt 64 (sendAddress frame)).setWidth 8) = frame.destId := by
  have hlt := sendAddress_lt frame
  have hsource := frame.sourceByte.toNat_lt
  have hdest := frame.destId.toNat_lt
  have heq := sendAddress_eq frame
  have hnat : (BitVec.ofInt 64 (sendAddress frame)).toNat = sendAddress frame := by
    rw [BitVec.ofInt_natCast, BitVec.toNat_ofNat, Nat.mod_eq_of_lt (by omega)]
  have hmsb : (BitVec.ofInt 64 (sendAddress frame)).msb = false := by
    rw [BitVec.msb_eq_false_iff_two_mul_lt, hnat]
    omega
  constructor
  · apply UInt8.toNat_inj.mp
    rw [UInt8.toNat_ofBitVec, BitVec.toNat_setWidth, BitVec.sshiftRight_eq_of_msb_false hmsb,
      BitVec.toNat_ushiftRight, hnat, Nat.shiftRight_eq_div_pow]
    omega
  · apply UInt8.toNat_inj.mp
    rw [UInt8.toNat_ofBitVec, BitVec.toNat_setWidth, hnat]
    omega

theorem and_seven {c : UInt8} (h : c < 128) : c &&& 0x7f = c := by
  have hlt : c.toNat < 128 := h
  apply UInt8.toNat_inj.mp
  rw [Base128.and_0x7f_toNat, Nat.mod_eq_of_lt hlt]

/-- The flag is the high bit of the source. -/
theorem sourceByte_masks {frame : Frame} (h : frame.sourceId < 128) :
    frame.sourceByte &&& 0x7f = frame.sourceId ∧
      (frame.sourceByte &&& 0x80 != 0) = frame.requestReply := by
  have hall : ∀ n < 128, ∀ flag : Bool,
      (UInt8.ofNat n ||| if flag then 0x80 else 0x00) &&& 0x7f = UInt8.ofNat n ∧
        ((UInt8.ofNat n ||| if flag then 0x80 else 0x00) &&& 0x80 != 0) = flag := by
    decide +kernel
  have hframe := hall frame.sourceId.toNat h frame.requestReply
  rwa [UInt8.ofNat_toNat] at hframe

/-! ### The fields of a line -/

/-- A field ends at a delimiter. -/
theorem next_append {delimiters token rest : Bytes} {c : UInt8}
    (htoken : ∀ c ∈ token, isDelimiter delimiters c = false)
    (hc : isDelimiter delimiters c = true) :
    (Tokenizer.mk delimiters (token ++ c :: rest)).next
      = (some token, Tokenizer.mk delimiters rest) := by
  have htake : (token ++ c :: rest).takeWhile (fun c => !isDelimiter delimiters c) = token := by
    rw [List.takeWhile_append_of_pos (by simpa using htoken),
      List.takeWhile_cons_of_neg (by rw [hc]; decide), List.append_nil]
  unfold Tokenizer.next
  dsimp only
  rw [if_neg (by simp), htake]
  congr 2
  rw [List.drop_append, List.drop_of_length_le (by omega), List.nil_append,
    Nat.add_sub_cancel_left, List.drop_one, List.tail_cons]

/-- The last field ends with the line. -/
theorem next_last {delimiters token : Bytes}
    (htoken : ∀ c ∈ token, isDelimiter delimiters c = false) (hnil : token ≠ []) :
    (Tokenizer.mk delimiters token).next = (some token, Tokenizer.mk delimiters []) := by
  have htake : token.takeWhile (fun c => !isDelimiter delimiters c) = token :=
    List.takeWhile_eq_self_iff.mpr (by simpa using htoken)
  unfold Tokenizer.next
  dsimp only
  rw [if_neg hnil, htake, List.drop_of_length_le (by omega)]

theorem rcvFields_of_fields {address data : Bytes}
    (haddress : ∀ c ∈ address, isDelimiter [0x20] c = false) (haddressNil : address ≠ [])
    (hdata : ∀ c ∈ data, isDelimiter [0x20] c = false) (hdataNil : data ≠ []) :
    rcvFields (rcvStart ++ (address ++ 0x20 :: data)) = some (address, data) := by
  have hrcv : (Tokenizer.mk [0x20] (rcvStart ++ (address ++ 0x20 :: data))).next
      = (some [0x72, 0x63, 0x76], Tokenizer.mk [0x20] (address ++ 0x20 :: data)) :=
    @next_append [0x20] [0x72, 0x63, 0x76] _ 0x20 (by simp [isDelimiter]) (by decide)
  unfold rcvFields
  dsimp only
  rw [hrcv]
  dsimp only
  rw [next_append haddress (by decide)]
  dsimp only
  rw [next_last hdata hdataNil]
  dsimp only [Option.getD_some]
  rw [if_neg]
  simp only [List.length_eq_zero_iff]
  rintro (h | h | h)
  · exact absurd h (by decide)
  · exact haddressNil h
  · exact hdataNil h

/-- A digit is no delimiter. -/
theorem isDelimiter_of_digit {c : UInt8} (h : (digitValue c).isSome) :
    isDelimiter [0x20] c = false := by
  have hne := ne_of_digitValue_isSome h
  have hzero : c ≠ 0 := by
    rintro rfl
    exact absurd h (by decide)
  have hblank : c ≠ 0x20 := by
    rintro rfl
    exact absurd hne.1 (by decide)
  simp [isDelimiter, hzero, hblank]

theorem digitValue_hexDigit {c : UInt8} (h : c.toNat < 16) : (digitValue (hexDigit c)).isSome := by
  rw [← UInt8.ofNat_toNat (x := c)]
  generalize c.toNat = n at h ⊢
  interval_cases n <;> rfl

theorem digit_hexByte (c : UInt8) : ∀ x ∈ hexByte c, (digitValue x).isSome := by
  have hlt := c.toNat_lt
  intro x hx
  rcases List.mem_pair.mp hx with rfl | rfl
  · refine digitValue_hexDigit ?_
    rw [UInt8.toNat_shiftRight, Nat.shiftRight_eq_div_pow]
    show c.toNat / 16 < 16
    omega
  · refine digitValue_hexDigit ?_
    rw [UInt8.toNat_and]
    exact lt_of_le_of_lt Nat.and_le_right (by decide)

theorem digit_encodePayload (payload : Bytes) :
    ∀ c ∈ encodePayload payload, (digitValue c).isSome := by
  intro c hc
  rw [encodePayload, List.mem_append] at hc
  rcases hc with hc | hc
  · obtain ⟨byte, -, hbyte⟩ := List.mem_flatMap.mp hc
    exact digit_hexByte byte c hbyte
  · obtain ⟨pair, hpair, hc⟩ := List.mem_flatten.mp hc
    obtain rfl := List.eq_of_mem_replicate hpair
    rcases List.mem_pair.mp hc with rfl | rfl
    · rfl
    · rfl

theorem encodePayload_ne_nil {payload : Bytes} (h : payload ≠ []) : encodePayload payload ≠ [] := by
  obtain ⟨c, payload, rfl⟩ := List.exists_cons_of_ne_nil h
  rw [encodePayload, List.flatMap_cons]
  exact List.cons_ne_nil _ _

/-! ### A frame, sent and received -/

/-- The frame of a line with the fields of one that was sent. -/
theorem rcvFrame_encodeFdcanusb {frame : Frame} (hsource : frame.sourceId < 128)
    (hdest : frame.destId < 128) (hpayload : frame.payload ≠ []) (beyond rest : Bytes) :
    rcvFrame beyond
        (rcvStart ++ (hexadecimal (sendAddress frame) ++ 0x20 :: encodePayload frame.payload) ++
          rest)
        (rcvStart ++ (hexadecimal (sendAddress frame) ++ 0x20 :: encodePayload frame.payload))
      = some { frame with payload := padded frame.payload } := by
  have hfields : rcvFields (rcvStart ++ (hexadecimal (sendAddress frame) ++
      0x20 :: encodePayload frame.payload))
      = some (hexadecimal (sendAddress frame), encodePayload frame.payload) := rcvFields_of_fields
    (fun c hc => isDelimiter_of_digit (digitValue_isSome_of_isDigit
      (isDigit_numeral (by decide) (by decide) (sendAddress frame) c hc)))
    (numeral_ne_nil 16 (sendAddress frame))
    (fun c hc => isDelimiter_of_digit (digit_encodePayload frame.payload c hc))
    (encodePayload_ne_nil hpayload)
  have hnumber : strtol 16 ((rcvStart ++ (hexadecimal (sendAddress frame) ++
      0x20 :: encodePayload frame.payload) ++ rest).drop rcvStart.length ++ beyond)
      = ((sendAddress frame : ℤ), 0x20 :: encodePayload frame.payload ++ rest ++ beyond) := by
    have hlt := sendAddress_lt frame
    rw [List.append_assoc, List.drop_left, List.append_assoc, List.append_assoc,
      strtol_hexadecimal (fun c hc => by cases hc; decide) (by omega), List.append_assoc]
  obtain ⟨hsourceByte, hdestByte⟩ := bytes_of_address frame
  obtain ⟨hid, hflag⟩ := sourceByte_masks hsource
  unfold rcvFrame
  rw [hfields]
  dsimp only
  rw [hnumber]
  dsimp only
  rw [hsourceByte, hdestByte, hid, hflag, and_seven hdest, parsePayload_encodePayload]

/-- **A frame that is sent and comes back**: the `rcv` line with the fields of the line that was
sent passes on the same frame, its payload padded to the next length that the bus has. -/
theorem parseLine_encodeFdcanusb (frame : Frame) (hsource : frame.sourceId < 128)
    (hdest : frame.destId < 128) (hpos : 1 ≤ frame.payload.length)
    (hlen : frame.payload.length ≤ 64) :
    ∃ fields length, encodeFdcanusb frame = canSend ++ fields ++ [0x0a] ∧
      IsLeast {l | l ∈ dlcLengths ∧ frame.payload.length ≤ l} length ∧
      ∀ (beyond rest : Bytes) (s : State), s.streambuf = rcvStart ++ fields ++ rest →
        parseLine beyond (rcvStart ++ fields) s =
          { s with
            currentFrame := none
            posted := s.posted ++ [{ frame with
              payload := frame.payload ++
                List.replicate (length - frame.payload.length) 0x50 }] } := by
  refine ⟨hexadecimal (sendAddress frame) ++ 0x20 :: encodePayload frame.payload,
    roundUpDlc frame.payload.length, ?_, isLeast_roundUpDlc hlen, ?_⟩
  · simp only [encodeFdcanusb, List.append_assoc, List.cons_append, List.nil_append]
  · intro beyond rest s hs
    have hframe := rcvFrame_encodeFdcanusb hsource hdest
      (List.ne_nil_of_length_pos hpos) beyond rest
    have hstart : rcvStart.isPrefixOf (rcvStart ++ (hexadecimal (sendAddress frame) ++
        0x20 :: encodePayload frame.payload)) = true :=
      List.isPrefixOf_iff_prefix.mpr (List.prefix_append _ _)
    unfold parseLine
    rw [if_neg (by simp [rcvStart]), if_neg (by simp [rcvStart, okLine]), if_pos hstart, hs, hframe]
    rfl

/-- A response of nine bytes, with three of padding. -/
theorem parseLine_encodeFdcanusb_nine :
    ∃ fields length, encodeFdcanusb ⟨1, true, 0x7f, List.replicate 9 0xab⟩
        = canSend ++ fields ++ [0x0a] ∧
      IsLeast {l | l ∈ dlcLengths ∧ (List.replicate 9 (0xab : UInt8)).length ≤ l} length ∧
      ∀ (beyond rest : Bytes) (s : State), s.streambuf = rcvStart ++ fields ++ rest →
        parseLine beyond (rcvStart ++ fields) s =
          { s with
            currentFrame := none
            posted := s.posted ++ [⟨1, true, 0x7f, List.replicate 9 0xab ++
              List.replicate (length - (List.replicate 9 (0xab : UInt8)).length) 0x50⟩] } :=
  parseLine_encodeFdcanusb ⟨1, true, 0x7f, List.replicate 9 0xab⟩ (by decide) (by decide)
    (by decide) (by decide)

/-! ### Lines of any form -/

/-- The data field that `ParseLine` decodes, if it comes to that. -/
def dataField (line : Bytes) : Option Bytes :=
  if delivers line then (rcvFields line).map Prod.snd else none

/-- A whole number of bytes, two digits each. -/
def HexPairs : Bytes → Prop
  | [] => True
  | [_] => False
  | high :: low :: data => isDigit 16 high = true ∧ isDigit 16 low = true ∧ HexPairs data

/-- `ParseLine` stays in the data field and in the payload, and passes on bytes only. -/
structure DecodesSafely (beyond : Bytes) (s : State) (line : Bytes) : Prop where
  reads : ∀ data ∈ dataField line, ∀ after, ∀ i ∈ (decode data after).reads, i < data.length
  writes : ∀ data ∈ dataField line, ∀ after, ∀ i ∈ (decode data after).writes, i < data.length / 2
  pairs : (parseLine beyond line s).posted ≠ s.posted → ∃ data ∈ dataField line, HexPairs data

theorem hexPairs_iff {data : Bytes} :
    HexPairs data ↔ data.length % 2 = 0 ∧ ∀ c ∈ data, isDigit 16 c = true := by
  induction data using HexPairs.induct with
  | case1 => exact iff_of_true trivial ⟨rfl, nofun⟩
  | case2 c => exact iff_of_false id fun h => absurd h.1 (by simp)
  | case3 high low data ih =>
    have hparity : (high :: low :: data).length % 2 = data.length % 2 := by
      rw [List.length_cons, List.length_cons]
      omega
    rw [HexPairs, ih, List.forall_mem_cons, List.forall_mem_cons, hparity]
    exact ⟨fun ⟨hhigh, hlow, heven, hall⟩ => ⟨heven, hhigh, hlow, hall⟩,
      fun ⟨heven, hhigh, hlow, hall⟩ => ⟨hhigh, hlow, heven, hall⟩⟩

section Decode

variable {data after : Bytes}

theorem decodeLoop_of_le {n i : ℕ} {d : Decode} (h : data.length ≤ i) :
    decodeLoop data after n i d = d := by
  cases n with
  | zero => rfl
  | succ n => rw [decodeLoop, if_neg (not_lt.mpr h)]

/-- The loop stores the bytes in order, the last one of an odd field nowhere. -/
theorem decodeLoop_payload {n : ℕ} : ∀ {i : ℕ} {d : Decode} {p : Bytes},
    data.length ≤ i + 2 * n → i = 2 * p.length →
    d.payload = p ++ List.replicate ((data.length - i) / 2) 0 →
    (decodeLoop data after n i d).payload = p ++ parsePayload (data.drop i) := by
  induction n with
  | zero =>
    intro i d p hn hi hp
    have hdrop : data.drop i = [] := List.drop_of_length_le (by omega)
    rw [decodeLoop, hp, hdrop, show (data.length - i) / 2 = 0 by omega]
    rfl
  | succ n ih =>
    intro i d p hn hi hp
    by_cases hlt : i < data.length
    · rw [decodeLoop, if_pos hlt]
      obtain ⟨high, t, ht⟩ : ∃ high t, data.drop i = high :: t :=
        ⟨_, _, List.drop_eq_getElem_cons hlt⟩
      have hlen : data.length - i = t.length + 1 := by
        rw [← List.length_drop, ht, List.length_cons]
      cases t with
      | nil =>
        -- the terminator of the payload
        rw [List.length_nil] at hlen
        dsimp only
        rw [decodeLoop_of_le (by omega), hp, ht, show (data.length - i) / 2 = 0 by omega]
        dsimp only
        rw [List.replicate_zero, List.append_nil, List.set_eq_of_length_le (by omega), parsePayload,
          List.append_nil]
        simp
      | cons low t =>
        rw [List.length_cons] at hlen
        have hbyte : (parseHexByteAt data after i).1 = parseHexByte high low := by
          unfold parseHexByteAt
          rw [List.drop_append_of_le_length hlt.le, ht]
          dsimp only
          split_ifs <;> rfl
        have hnext : data.drop (i + 2) = t := by
          rw [← List.drop_drop, ht]
          rfl
        dsimp only
        rw [ih (p := p ++ [parseHexByte high low]) (by omega)
          (by rw [List.length_append, List.length_singleton]; omega), ht, hnext, parsePayload,
          List.append_assoc, List.singleton_append]
        dsimp only
        rw [hbyte, hp, show (data.length - i) / 2 = (data.length - (i + 2)) / 2 + 1 by omega,
          List.replicate_succ, List.set_append_right _ _ (by omega),
          show i / 2 - p.length = 0 by omega, List.set_cons_zero, List.append_assoc,
          List.singleton_append]
    · rw [decodeLoop_of_le (not_lt.mp hlt), hp, List.drop_of_length_le (not_lt.mp hlt),
        show (data.length - i) / 2 = 0 by omega]
      rfl

/-- The positions of a data field of even length. -/
theorem decodeLoop_positions (heven : data.length % 2 = 0) {n : ℕ} : ∀ {i : ℕ} {d : Decode},
    i % 2 = 0 →
    (∀ j ∈ (decodeLoop data after n i d).reads, j ∈ d.reads ∨ j < data.length) ∧
      ∀ j ∈ (decodeLoop data after n i d).writes, j ∈ d.writes ∨ j < data.length / 2 := by
  induction n with
  | zero => exact fun _ => ⟨fun _ h => Or.inl h, fun _ h => Or.inl h⟩
  | succ n ih =>
    intro i d hi
    rw [decodeLoop]
    split_ifs with hlt
    · have hreads : ∀ j ∈ (parseHexByteAt data after i).2, j < data.length := by
        unfold parseHexByteAt
        dsimp only
        intro j hj
        split_ifs at hj
        · obtain rfl := List.mem_singleton.mp hj
          exact hlt
        · rcases List.mem_pair.mp hj with rfl | rfl
          · exact hlt
          · omega
      obtain ⟨ihr, ihw⟩ := ih (d := {
        payload := d.payload.set (i / 2) (parseHexByteAt data after i).1
        reads := d.reads ++ (parseHexByteAt data after i).2
        writes := d.writes ++ [i / 2] }) (by omega : (i + 2) % 2 = 0)
      constructor
      · intro j hj
        rcases ihr j hj with h | h
        · exact (List.mem_append.mp h).imp_right (hreads j)
        · exact Or.inr h
      · intro j hj
        rcases ihw j hj with h | h
        · refine (List.mem_append.mp h).imp_right fun h => ?_
          rw [List.mem_singleton.mp h]
          omega
        · exact Or.inr h
    · exact ⟨fun _ h => Or.inl h, fun _ h => Or.inl h⟩

end Decode

/-- A line with a data field, and no other, passes on a frame. -/
theorem posted_iff {line : Bytes} :
    (parseLine beyond line s).posted ≠ s.posted ↔ ∃ data, dataField line = some data := by
  constructor
  · -- what passes on a frame has come to the fields
    intro h
    unfold parseLine at h
    split_ifs at h with hempty hok hrcv
    · exact absurd rfl h
    · exact absurd rfl h
    · cases hframe : rcvFrame beyond s.streambuf line with
      | none =>
        rw [hframe] at h
        exact absurd rfl h
      | some frame =>
        have hfields : (rcvFields line).isSome := by
          rw [← rcvFrame_isSome beyond s.streambuf, hframe, Option.isSome_some]
        obtain ⟨⟨address, data⟩, heq⟩ := Option.isSome_iff_exists.mp hfields
        have hdelivers : delivers line = true := by simp [delivers, hok, hrcv, hfields]
        exact ⟨data, by rw [dataField, if_pos hdelivers, heq, Option.map_some]⟩
    · exact absurd rfl h
  · rintro ⟨data, hdata⟩ heq
    unfold dataField at hdata
    split_ifs at hdata with hdelivers
    unfold delivers at hdelivers
    simp only [Bool.and_eq_true, decide_eq_true_eq] at hdelivers
    obtain ⟨⟨hok, hrcv⟩, hfields⟩ := hdelivers
    rw [← rcvFrame_isSome beyond s.streambuf] at hfields
    obtain ⟨frame, hframe⟩ := Option.isSome_iff_exists.mp hfields
    have hempty : line.length ≠ 0 := fun h => by
      rw [List.length_eq_zero_iff.mp h] at hrcv
      exact absurd hrcv (by decide)
    rw [parseLine, if_neg hempty, if_neg hok, if_pos hrcv, hframe] at heq
    exact absurd (congrArg List.length heq) (by simp)

/-- **Which lines are decoded safely**: those without a data field, and those whose data field is of
even length and has only digits in it. -/
theorem decodesSafely_iff (beyond : Bytes) (s : State) (line : Bytes) :
    DecodesSafely beyond s line ↔
      ∀ data ∈ dataField line, data.length % 2 = 0 ∧ ∀ c ∈ data, isDigit 16 c = true := by
  constructor
  · intro h data hdata
    obtain ⟨data', hdata', hpairs⟩ := h.pairs (posted_iff.mpr ⟨data, hdata⟩)
    obtain rfl : data = data' := Option.some.inj (hdata.symm.trans hdata')
    exact hexPairs_iff.mp hpairs
  · intro h
    refine ⟨fun data hdata after i hi => ?_, fun data hdata after i hi => ?_, fun hposted => ?_⟩
    · exact ((decodeLoop_positions (h data hdata).1 (Nat.zero_mod 2)).1 i hi).resolve_left
        List.not_mem_nil
    · exact ((decodeLoop_positions (h data hdata).1 (Nat.zero_mod 2)).2 i hi).resolve_left
        List.not_mem_nil
    · obtain ⟨data, hdata⟩ := posted_iff.mp hposted
      exact ⟨data, hdata, hexPairs_iff.mpr (h data hdata)⟩

/-- One digit: the blank behind the data field is read for the other, and the byte is stored behind
the payload. -/
theorem not_decodesSafely : ¬∀ (beyond : Bytes) (s : State) (line : Bytes),
    DecodesSafely beyond s line := by
  intro h
  have hread := (h [] {} (rcvStart ++ [0x31, 0x20, 0x30])).reads [0x30] (by decide) [0x0a] 1
    (by decide)
  exact absurd hread (by decide)

end Mjlib.Multiplex.FdcanusbFrameStream
