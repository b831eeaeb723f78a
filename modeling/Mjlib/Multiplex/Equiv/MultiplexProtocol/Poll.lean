import Mjlib.Multiplex.Equiv.Stream
import Mjlib.Multiplex.MultiplexProtocol
import Mjlib.Multiplex.StreamAsioClient

/-!
# Does a poll in Python return what `HandleRead` delivers?

`_try_one_poll` reads the channel and the length of a response, and returns all that follows them.
`tryOnePoll_iff`: this is the data of the tunnel if and only if every response with something behind
its head is of the channel of the tunnel, and is as long as it says.
-/

namespace Mjlib.Multiplex.MultiplexProtocol

open Base128 (Encodes)

/-- A varuint in Python is a numeral of at most five bytes. -/
theorem readVaruintLoop_append {ds : Bytes} {v : ℕ} (h : Encodes ds v) (rest : Bytes) :
    ∀ {n shift result : ℕ}, ds.length ≤ n → result < 2 ^ shift →
      readVaruintLoop n shift result (ds ++ rest) = some (some (result + 2 ^ shift * v), rest) := by
  have hor : ∀ {result shift : ℕ} (b : UInt8), result < 2 ^ shift →
      result ||| ((b &&& 0x7f).toNat <<< shift) = result + 2 ^ shift * (b.toNat % 128) := by
    intro result shift b hlt
    rw [Base128.and_0x7f_toNat, Nat.or_comm, ← Nat.shiftLeft_add_eq_or_of_lt hlt,
      Nat.shiftLeft_eq, Nat.mul_comm, Nat.add_comm]
  induction h with
  | @last b hb =>
    intro n shift result hn hlt
    obtain ⟨n, rfl⟩ : ∃ m, n = m + 1 := ⟨n - 1, by rw [List.length_singleton] at hn; omega⟩
    rw [List.singleton_append, readVaruintLoop, hor b hlt,
      if_pos ((Base128.and_0x80_eq_zero b).mpr hb), Nat.mod_eq_of_lt hb]
  | @more b ds v hb hds ih =>
    intro n shift result hn hlt
    rw [List.length_cons] at hn
    obtain ⟨n, rfl⟩ : ∃ m, n = m + 1 := ⟨n - 1, by omega⟩
    have hmod : b.toNat % 128 < 128 := Nat.mod_lt _ (by decide)
    have hnext : result + 2 ^ shift * (b.toNat % 128) < 2 ^ (shift + 7) := by
      calc result + 2 ^ shift * (b.toNat % 128)
          < 2 ^ shift + 2 ^ shift * (b.toNat % 128) := Nat.add_lt_add_right hlt _
        _ = 2 ^ shift * (b.toNat % 128 + 1) := by rw [Nat.mul_succ, Nat.add_comm]
        _ ≤ 2 ^ shift * 2 ^ 7 := Nat.mul_le_mul_left _ hmod
        _ = 2 ^ (shift + 7) := (pow_add 2 shift 7).symm
    have hne : ¬b &&& 0x80 = 0 := fun h => by
      have := (Base128.and_0x80_eq_zero b).mp h
      omega
    rw [List.cons_append, readVaruintLoop, hor b hlt, if_neg hne, ih (by omega) hnext, pow_add]
    congr 3
    ring

/-- The numeral of a number of 32 bits. -/
def IsVaruint (v : UInt32) (ds : Bytes) : Prop := Encodes ds v.toNat ∧ ds.length ≤ 5

theorem readVaruint_append {v : UInt32} {ds : Bytes} (h : IsVaruint v ds) (rest : Bytes) :
    readVaruint (ds ++ rest) = some (some v.toNat, rest) := by
  rw [readVaruint, readVaruintLoop_append h.1 rest h.2 (by decide), Nat.zero_add, pow_zero,
    Nat.one_mul]

/-- The client in C++ reads the same. -/
theorem readStream_readVaruint_append {v : UInt32} {ds : Bytes} (h : IsVaruint v ds)
    (rest : Bytes) : ReadStream.readVaruint (ds ++ rest) = (some v, rest) := by
  rw [← BufferReadStream.readVaruint_eq_readVaruint,
    BufferReadStream.readVaruint_append h.1 h.2, UInt32.ofNat_toNat]

/-! ### Responses -/

/-- The payload of a response: a subframe to a tunnel, with what follows its head. -/
structure Response where
  channel : UInt32
  size : UInt32
  subframeBytes : Bytes
  channelBytes : Bytes
  sizeBytes : Bytes
  rest : Bytes
  isVaruint_subframe : IsVaruint 0x41 subframeBytes
  isVaruint_channel : IsVaruint channel channelBytes
  isVaruint_size : IsVaruint size sizeBytes

namespace Response

/-- The payload. -/
def payload (r : Response) : Bytes :=
  r.subframeBytes ++ (r.channelBytes ++ (r.sizeBytes ++ r.rest))

/-- The data for a channel: as much as the subframe says, if there is as much. -/
def data (r : Response) (channel : UInt32) : Bytes :=
  if r.channel = channel ∧ r.size.toNat ≤ r.rest.length then r.rest.take r.size.toNat else []

/-- Nothing follows the head, or just the data for the channel. -/
def Exact (r : Response) (channel : UInt32) : Prop :=
  r.rest = [] ∨ (r.channel = channel ∧ r.size.toNat = r.rest.length)

end Response

/-- **What `Tunnel::HandleRead` delivers** of a response is its data for the channel. -/
theorem tunnelData_eq (env : StreamAsioClient.Env) (t : StreamAsioClient.Tunnel) (r : Response) :
    (StreamAsioClient.tunnelData env t ⟨t.id, false, env.sourceId, r.payload⟩).getD []
      = r.data t.channel := by
  have hframe : ¬(t.id ≠ t.id ∨ env.sourceId ≠ env.sourceId) := by simp
  unfold StreamAsioClient.tunnelData
  rw [if_neg hframe, Response.payload, readStream_readVaruint_append r.isVaruint_subframe]
  dsimp only
  rw [if_neg (by decide), readStream_readVaruint_append r.isVaruint_channel]
  dsimp only
  rw [readStream_readVaruint_append r.isVaruint_size]
  dsimp only
  unfold Response.data
  by_cases hchannel : r.channel = t.channel
  · rw [if_neg (not_not_intro hchannel)]
    by_cases hle : r.size.toNat ≤ r.rest.length
    · rw [if_neg (not_lt.mpr hle), if_pos ⟨hchannel, hle⟩]
      rfl
    · rw [if_pos (not_le.mp hle), if_neg (fun h => hle h.2)]
      rfl
  · rw [if_pos hchannel, if_neg (fun h => hchannel h.1)]
    rfl

/-- The poll returns all that follows the heads. -/
theorem tryOnePollLoop_eq {responses : List Response} : ∀ {result : Bytes},
    tryOnePollLoop (responses.map Response.payload) result
      = some (result ++ responses.flatMap Response.rest) := by
  induction responses with
  | nil =>
    intro result
    rw [List.flatMap_nil, List.append_nil]
    rfl
  | cons r responses ih =>
    intro result
    have hlong : ¬r.payload.length < 3 := by
      have h₁ := r.isVaruint_subframe.1.length_pos
      have h₂ := r.isVaruint_channel.1.length_pos
      have h₃ := r.isVaruint_size.1.length_pos
      simp only [Response.payload, List.length_append]
      omega
    rw [List.map_cons, tryOnePollLoop, pollStream, if_neg hlong, Response.payload,
      readVaruint_append r.isVaruint_subframe]
    dsimp only [Option.bind_eq_bind, Option.bind_some]
    rw [readVaruint_append r.isVaruint_channel]
    dsimp only [Option.bind_some]
    rw [readVaruint_append r.isVaruint_size]
    dsimp only [Option.bind_some]
    rw [if_neg (by decide), ih, List.flatMap_cons, List.append_assoc]

theorem data_prefix_rest (r : Response) (channel : UInt32) : r.data channel <+: r.rest := by
  unfold Response.data
  split_ifs
  · exact List.take_prefix _ _
  · exact List.nil_prefix

theorem data_eq_rest_iff (r : Response) (channel : UInt32) :
    r.data channel = r.rest ↔ r.Exact channel := by
  unfold Response.data Response.Exact
  split_ifs with h
  · constructor
    · intro heq
      have hlen := congrArg List.length heq
      rw [List.length_take, min_eq_left h.2] at hlen
      exact Or.inr ⟨h.1, hlen⟩
    · rintro (hnil | ⟨-, hsize⟩)
      · rw [hnil, List.take_nil]
      · rw [hsize, List.take_length]
  · constructor
    · exact fun heq => Or.inl heq.symm
    · rintro (hnil | ⟨hchannel, hsize⟩)
      · exact hnil.symm
      · exact absurd ⟨hchannel, hsize.le⟩ h

/-- Each response adds at most what follows its head, so none may add less. -/
theorem flatMap_data_eq_iff (responses : List Response) (channel : UInt32) :
    responses.flatMap (·.data channel) = responses.flatMap Response.rest ↔
      ∀ r ∈ responses, r.Exact channel := by
  have hlength : ∀ responses : List Response,
      (responses.flatMap (·.data channel)).length ≤ (responses.flatMap Response.rest).length := by
    intro responses
    induction responses with
    | nil => exact le_rfl
    | cons r responses ih =>
      have hle := (data_prefix_rest r channel).length_le
      rw [List.flatMap_cons, List.flatMap_cons, List.length_append, List.length_append]
      omega
  induction responses with
  | nil => exact iff_of_true rfl nofun
  | cons r responses ih =>
    rw [List.forall_mem_cons, ← data_eq_rest_iff, List.flatMap_cons, List.flatMap_cons]
    constructor
    · intro heq
      have hle := (data_prefix_rest r channel).length_le
      have htail := hlength responses
      have hlen := congrArg List.length heq
      rw [List.length_append, List.length_append] at hlen
      obtain ⟨hr, hresponses⟩ := List.append_inj heq (by omega)
      exact ⟨hr, ih.mp hresponses⟩
    · rintro ⟨hr, hresponses⟩
      rw [hr, ih.mpr hresponses]

/-- **When a poll returns the data of the tunnel**, as `Tunnel::HandleRead` delivers it: exactly if
nothing follows the head of a response but the data for the channel. -/
theorem tryOnePoll_iff (env : StreamAsioClient.Env) (t : StreamAsioClient.Tunnel)
    (responses : List Response) :
    (tryOnePoll (responses.map Response.payload)
        = some (responses.flatMap (·.data t.channel)) ∧
      ∀ r ∈ responses,
        (StreamAsioClient.tunnelData env t ⟨t.id, false, env.sourceId, r.payload⟩).getD []
          = r.data t.channel) ↔
      ∀ r ∈ responses, r.Exact t.channel := by
  rw [and_iff_left fun r _ => tunnelData_eq env t r, tryOnePoll, tryOnePollLoop_eq,
    List.nil_append, Option.some_inj, eq_comm, flatMap_data_eq_iff]

/-- One byte for channel 1, with a byte of padding. -/
def padded : Response where
  channel := 1
  size := 1
  subframeBytes := [0x41]
  channelBytes := [0x01]
  sizeBytes := [0x01]
  rest := [0x61, 0x50]
  isVaruint_subframe := ⟨.last (by decide), by decide⟩
  isVaruint_channel := ⟨.last (by decide), by decide⟩
  isVaruint_size := ⟨.last (by decide), by decide⟩

/-- The padding is returned, too. -/
theorem not_tryOnePoll : ¬∀ (channel : UInt32) (responses : List Response),
    tryOnePoll (responses.map Response.payload)
      = some (responses.flatMap (·.data channel)) := by
  intro h
  exact absurd (h 1 [padded]) (by decide)

end Mjlib.Multiplex.MultiplexProtocol
