import Mjlib.Multiplex.Equiv.Register
import Mjlib.Multiplex.MicroServerRun

/-!
# Reading a response

`Carries item pieces` says that a part of a response is read as the tunnel data `pieces`, whatever
follows it.  Register replies and error entries carry none, a tunnel's subframe carries its data
(`carries_serverToClient`), and a tunnel's subframe whose length is more than what follows it ends the
response (`tunnelData_overlong`).
-/

namespace Mjlib.Multiplex.Response

open RegisterReply (parseSubframe length_parseSubframe_lt length_readVaruint_le replyHead
  errorEntry)

/-! ### The loop -/

theorem length_readServerToClient_le (s : Bytes) : (readServerToClient s).2.length ≤ s.length := by
  have h1 := length_readVaruint_le s
  have h2 := length_readVaruint_le (ReadStream.readVaruint s).2
  rw [readServerToClient]
  generalize ReadStream.readVaruint s = r₁ at h1 h2 ⊢
  obtain ⟨_ | channel, s₁⟩ := r₁
  · exact h1
  dsimp only at h1 h2 ⊢
  generalize ReadStream.readVaruint s₁ = r₂ at h2 ⊢
  obtain ⟨_ | size, s₂⟩ := r₂
  · exact h2.trans h1
  dsimp only at h2 ⊢
  split_ifs
  · exact h2.trans h1
  · rw [List.length_drop]
    omega

/-- A subframe takes at least its type. -/
theorem length_readSubframe_lt {s : Bytes} (hs : s ≠ []) :
    (readSubframe s).2.length < s.length := by
  have h1 : (ReadStream.readVaruint s).2.length < s.length := by
    rw [← BufferReadStream.readVaruint_eq_readVaruint]
    exact BufferReadStream.length_readVaruint_lt hs
  rw [readSubframe]
  generalize ReadStream.readVaruint s = r at h1 ⊢
  obtain ⟨_ | subframeId, rest⟩ := r
  · exact h1
  dsimp only at h1 ⊢
  split_ifs
  · exact lt_of_le_of_lt (length_readServerToClient_le rest) h1
  · exact length_parseSubframe_lt hs

theorem tunnelPiecesLoop_eq {n : ℕ} : ∀ {m : ℕ} {s : Bytes}, s.length ≤ n → s.length ≤ m →
    tunnelPiecesLoop n s = tunnelPiecesLoop m s := by
  induction n with
  | zero =>
    intro m s hn _
    obtain rfl := List.length_eq_zero_iff.mp (Nat.le_zero.mp hn)
    cases m <;> rfl
  | succ n ih =>
    intro m s hn hm
    by_cases hs : s = []
    · subst hs
      cases m <;> rfl
    · have hlt := length_readSubframe_lt hs
      have hpos := List.length_pos_iff.mpr hs
      obtain ⟨m, rfl⟩ : ∃ m', m = m' + 1 := ⟨m - 1, by omega⟩
      rw [tunnelPiecesLoop, tunnelPiecesLoop]
      generalize readSubframe s = r at hlt ⊢
      obtain ⟨_ | pieces, s'⟩ := r
      · rfl
      · dsimp only at hlt ⊢
        exact congrArg _ (ih (by omega) (by omega))

/-- The loop goes on behind a subframe. -/
theorem tunnelPieces_append {chunk rest : Bytes} {pieces : List (UInt32 × Bytes)} (hne : chunk ≠ [])
    (h : readSubframe (chunk ++ rest) = (some pieces, rest)) :
    tunnelPieces (chunk ++ rest) = pieces ++ tunnelPieces rest := by
  have hpos := List.length_pos_iff.mpr hne
  have hlen : (chunk ++ rest).length = (chunk.length + rest.length - 1) + 1 := by
    rw [List.length_append]
    omega
  rw [tunnelPieces, hlen, tunnelPiecesLoop, h]
  dsimp only
  rw [tunnelPieces]
  congr 1
  exact tunnelPiecesLoop_eq (by omega) le_rfl

theorem dataOf_append (channel : UInt32) (pieces pieces' : List (UInt32 × Bytes)) :
    dataOf channel (pieces ++ pieces') = dataOf channel pieces ++ dataOf channel pieces' :=
  List.flatMap_append

@[simp] theorem dataOf_nil (channel : UInt32) : dataOf channel [] = [] := rfl

theorem dataOf_singleton (channel channel' : UInt32) (data : Bytes) :
    dataOf channel [(channel', data)] = if channel' = channel then data else [] := List.append_nil _

@[simp] theorem tunnelData_nil (channel : UInt32) : tunnelData channel [] = [] := rfl

/-! ### Parts of a response -/

/-- The part of a response is read as the pieces, whatever follows. -/
def Carries (item : Bytes) (pieces : List (UInt32 × Bytes)) : Prop :=
  ∀ channel rest, tunnelData channel (item ++ rest)
    = dataOf channel pieces ++ tunnelData channel rest

theorem carries_nil : Carries [] [] := fun _ _ => rfl

theorem Carries.append {item item' : Bytes} {pieces pieces' : List (UInt32 × Bytes)}
    (h : Carries item pieces) (h' : Carries item' pieces') :
    Carries (item ++ item') (pieces ++ pieces') := by
  intro channel rest
  rw [List.append_assoc, h, h', dataOf_append, List.append_assoc]

theorem Carries.tunnelData {item : Bytes} {pieces : List (UInt32 × Bytes)} (h : Carries item pieces)
    (channel : UInt32) : tunnelData channel item = dataOf channel pieces := by
  have := h channel []
  rwa [List.append_nil, tunnelData_nil, List.append_nil] at this

/-- A register subframe carries nothing. -/
theorem carries_of_parseSubframe {item : Bytes} (hne : item ≠ [])
    (h : ∀ rest, ∃ values, parseSubframe (item ++ rest) = (some values, rest)) : Carries item [] := by
  intro channel rest
  obtain ⟨values, hparse⟩ := h rest
  have hread : readSubframe (item ++ rest) = (some [], rest) := by
    rw [readSubframe]
    rcases hid : ReadStream.readVaruint (item ++ rest) with ⟨_ | subframeId, str⟩
    · rw [parseSubframe, hid] at hparse
      simp at hparse
    dsimp only
    -- a tunnel's subframe is not one for `ParseSubframe`
    have hne' : subframeId.toNat ≠ Subframe.kServerToClient := by
      intro heq
      rw [parseSubframe, hid] at hparse
      dsimp only at hparse
      rw [heq, if_neg (by decide), if_neg (by decide)] at hparse
      simp at hparse
    rw [if_neg hne', hparse]
    rfl
  rw [Response.tunnelData, tunnelPieces_append hne hread]
  rfl

theorem carries_errorEntry {kind : ℕ} (h : kind = Subframe.kWriteError ∨ kind = Subframe.kReadError)
    (reg : Register) (error : UInt32) : Carries (errorEntry kind reg error) [] :=
  carries_of_parseSubframe (RegisterReply.errorEntry_ne_nil kind reg error) fun rest =>
    ⟨_, RegisterReply.parseSubframe_error h reg error rest⟩

theorem carries_reply {type : ℕ} (start : Register) {values : List Value} {explicit : Bool}
    (htype : type < 4) (hvalues : ∀ v ∈ values, v.index = type) (hlt : values.length < 2 ^ 32)
    (hexp : explicit = false → 0 < values.length ∧ values.length < 4) :
    Carries (replyHead type start values.length explicit ++ values.flatMap Value.bytes) [] :=
  carries_of_parseSubframe (List.append_ne_nil_of_left_ne_nil
    (RegisterReply.replyHead_ne_nil type start values.length explicit) _) fun rest => by
      rw [List.append_assoc]
      exact ⟨_, RegisterReply.parseSubframe_reply start htype hvalues hlt hexp rest⟩

/-- The head of a tunnel's subframe. -/
def tunnelHead (channel size : UInt32) : Bytes :=
  writeVaruint (UInt32.ofNat Subframe.kServerToClient) ++ (writeVaruint channel ++ writeVaruint size)

theorem tunnelHead_ne_nil (channel size : UInt32) : tunnelHead channel size ≠ [] :=
  List.append_ne_nil_of_left_ne_nil (encodes_writeVaruint _).ne_nil _

theorem readSubframe_tunnelHead (channel size : UInt32) (rest : Bytes) :
    readSubframe (tunnelHead channel size ++ rest)
      = if rest.length < size.toNat then (none, rest)
        else (some [(channel, rest.take size.toNat)], rest.drop size.toNat) := by
  have hread : readServerToClient (writeVaruint channel ++ writeVaruint size ++ rest)
      = if rest.length < size.toNat then (none, rest)
        else (some (channel, rest.take size.toNat), rest.drop size.toNat) := by
    rw [List.append_assoc, readServerToClient, ReadStream.readVaruint_writeVaruint]
    dsimp only
    rw [ReadStream.readVaruint_writeVaruint]
  rw [tunnelHead, List.append_assoc, readSubframe, ReadStream.readVaruint_writeVaruint]
  dsimp only
  rw [if_pos (by decide), hread]
  split_ifs <;> rfl

/-- A tunnel's subframe carries its data. -/
theorem carries_serverToClient (channel : UInt32) {size : UInt32} {data : Bytes}
    (h : data.length = size.toNat) : Carries (tunnelHead channel size ++ data) [(channel, data)] := by
  intro channel' rest
  have hread : readSubframe (tunnelHead channel size ++ data ++ rest)
      = (some [(channel, data)], rest) := by
    rw [List.append_assoc, readSubframe_tunnelHead, if_neg (by rw [List.length_append]; omega),
      List.take_left' h, List.drop_left' h]
  rw [tunnelData, tunnelPieces_append (List.append_ne_nil_of_left_ne_nil
    (tunnelHead_ne_nil channel size) _) hread, dataOf_append]
  rfl

/-- A tunnel's subframe that is longer than what follows ends the response. -/
theorem tunnelData_overlong (channel channel' size : UInt32) {rest : Bytes}
    (h : rest.length < size.toNat) : tunnelData channel (tunnelHead channel' size ++ rest) = [] := by
  have hpos := List.length_pos_iff.mpr (tunnelHead_ne_nil channel' size)
  obtain ⟨n, hn⟩ : ∃ n, (tunnelHead channel' size ++ rest).length = n + 1 :=
    ⟨_, (Nat.succ_pred_eq_of_pos (by rw [List.length_append]; omega)).symm⟩
  rw [tunnelData, tunnelPieces, hn, tunnelPiecesLoop, readSubframe_tunnelHead, if_pos h]
  rfl

end Mjlib.Multiplex.Response
