import Mjlib.Multiplex.Equiv.Stream
import Mjlib.Multiplex.MicroServer

/-!
# The loop of `ProcessSubframes`

Every pass of the loop takes at least one byte (`length_processSubframe_lt`), so the loop ends by
itself: `processSubframes_nil` and `processSubframes_of_ne_nil` are its equations, `atHeads_of_ne_nil`
those of the predicate on the heads, and `loop_induction` the induction along it.
-/

namespace Mjlib.Multiplex.MicroServer

variable {σ τ : Type*} (env : Env σ τ)

/-! ### What a pass takes -/

theorem length_readVaruint_le (str : Bytes) :
    (BufferReadStream.readVaruint str).2.length ≤ str.length :=
  (BufferReadStream.readVaruint_suffix str).length_le

theorem length_readScalar_le (size : ℕ) (str : Bytes) :
    (BufferReadStream.readScalar size str).2.length ≤ str.length := by
  rw [BufferReadStream.readScalar]
  split_ifs
  · exact le_rfl
  · rw [List.length_drop]
    omega

theorem length_readValue_le (type : ℕ) (str : Bytes) :
    (readValue type str).2.length ≤ str.length := length_readScalar_le _ _

theorem length_readNumRegisters_le (typeLength : ℕ) (str : Bytes) :
    (readNumRegisters typeLength str).2.length ≤ str.length := by
  rw [readNumRegisters]
  split_ifs
  · exact length_readVaruint_le str
  · exact le_rfl

theorem length_writeRegisters_le (type : ℕ) {n : ℕ} : ∀ (reg : Register) (str : Bytes)
    (s : State σ τ), (writeRegisters env type n reg str s).2.1.length ≤ str.length := by
  induction n with
  | zero => intro reg str s; exact le_rfl
  | succ n ih =>
    intro reg str s
    have hle := length_readValue_le type str
    rw [writeRegisters]
    rcases hv : readValue type str with ⟨_ | value, str'⟩
    · rw [hv] at hle
      exact hle
    · rw [hv] at hle
      dsimp only
      rcases serverWrite env reg value s with ⟨_ | _ | _ | _, s'⟩
      · exact (ih _ _ _).trans hle
      · exact (ih _ _ _).trans hle
      · exact (ih _ _ _).trans hle
      · exact hle

theorem length_processSubframeWrite_le (typeLength : ℕ) (str : Bytes) (s : State σ τ) :
    (processSubframeWrite env typeLength str s).2.1.length ≤ str.length := by
  have h1 := length_readNumRegisters_le typeLength str
  rw [processSubframeWrite]
  rcases hn : readNumRegisters typeLength str with ⟨_ | n, str1⟩ <;> rw [hn] at h1
  · exact h1
  have h2 := length_readVaruint_le str1
  dsimp only at h1 ⊢
  rcases hr : BufferReadStream.readVaruint str1 with ⟨_ | reg, str2⟩ <;> rw [hr] at h2
  · exact h2.trans h1
  · exact (length_writeRegisters_le env _ _ _ _).trans (h2.trans h1)

theorem length_processSubframeRead_le (typeLength : ℕ) (str : Bytes) (s : State σ τ) :
    (processSubframeRead env typeLength str s).2.1.length ≤ str.length := by
  have h1 := length_readNumRegisters_le typeLength str
  rw [processSubframeRead]
  by_cases h : s.response.isNone
  · rw [if_pos h]
  rw [if_neg h]
  rcases hn : readNumRegisters typeLength str with ⟨_ | n, str1⟩ <;> rw [hn] at h1
  · exact h1
  have h2 := length_readVaruint_le str1
  dsimp only at h1 ⊢
  rcases hr : BufferReadStream.readVaruint str1 with ⟨_ | reg, str2⟩ <;> rw [hr] at h2
  · exact h2.trans h1
  · exact h2.trans h1

theorem length_processSubframeClientToServer_le (str : Bytes) (s : State σ τ) :
    (processSubframeClientToServer env str s).2.1.length ≤ str.length := by
  have h1 := length_readVaruint_le str
  have h2 := length_readVaruint_le (BufferReadStream.readVaruint str).2
  rw [processSubframeClientToServer]
  generalize BufferReadStream.readVaruint str = r1 at h1 h2 ⊢
  obtain ⟨maybeChannel, str1⟩ := r1
  dsimp only at h1 h2 ⊢
  generalize BufferReadStream.readVaruint str1 = r2 at h2 ⊢
  obtain ⟨maybeBytes, str2⟩ := r2
  have h := h2.trans h1
  dsimp only at h ⊢
  rcases maybeChannel with _ | channel <;> rcases maybeBytes with _ | bytes
  · exact h
  · exact h
  · exact h
  dsimp only
  by_cases hlen : str2.length < bytes.toNat
  · rwa [if_pos hlen]
  rw [if_neg hlen]
  rcases findTunnel channel s with _ | i
  · exact h
  dsimp only
  by_cases hover : bytes.toNat > (s.tunnel i).remainingSpace
  · rwa [if_pos hover]
  · rw [if_neg hover, List.length_drop]
    omega

theorem length_processSubframeClientPollServer_le (str : Bytes) (s : State σ τ) :
    (processSubframeClientPollServer env str s).2.1.length ≤ str.length := by
  have h1 := length_readVaruint_le str
  have h2 := length_readVaruint_le (BufferReadStream.readVaruint str).2
  rw [processSubframeClientPollServer]
  generalize BufferReadStream.readVaruint str = r1 at h1 h2 ⊢
  obtain ⟨maybeChannel, str1⟩ := r1
  dsimp only at h1 h2 ⊢
  generalize BufferReadStream.readVaruint str1 = r2 at h2 ⊢
  obtain ⟨maybeMaxBytes, str2⟩ := r2
  have h := h2.trans h1
  dsimp only at h ⊢
  rcases maybeChannel with _ | channel <;> rcases maybeMaxBytes with _ | maxBytes
  · exact h
  · exact h
  · exact h
  dsimp only
  rcases findTunnel channel s with _ | i
  · exact h
  · exact h

/-- A pass takes at least the subframe's type. -/
theorem length_processSubframe_lt {str : Bytes} (h : str ≠ []) (s : State σ τ) :
    (processSubframe env str s).2.1.length < str.length := by
  have h1 := BufferReadStream.length_readVaruint_lt h
  rw [processSubframe]
  rcases ht : BufferReadStream.readVaruint str with ⟨_ | type, str1⟩ <;> rw [ht] at h1
  · exact h1
  dsimp only at h1 ⊢
  split_ifs
  · have h2 := length_processSubframeClientToServer_le env str1 s
    generalize processSubframeClientToServer env str1 s = r at h2 ⊢
    rcases r with ⟨_ | _, str2, s'⟩ <;> exact lt_of_le_of_lt h2 h1
  · have h2 := length_processSubframeClientPollServer_le env str1 s
    generalize processSubframeClientPollServer env str1 s = r at h2 ⊢
    rcases r with ⟨_ | _, str2, s'⟩ <;> exact lt_of_le_of_lt h2 h1
  · exact h1
  · have h2 := length_processSubframeWrite_le env (type.toNat - Subframe.kWriteBase) str1 s
    generalize processSubframeWrite env (type.toNat - Subframe.kWriteBase) str1 s = r at h2 ⊢
    rcases r with ⟨_ | _ | _, str2, s'⟩ <;> exact lt_of_le_of_lt h2 h1
  · have h2 := length_processSubframeRead_le env (type.toNat - Subframe.kReadBase) str1 s
    generalize processSubframeRead env (type.toNat - Subframe.kReadBase) str1 s = r at h2 ⊢
    rcases r with ⟨_ | _, str2, s'⟩ <;> exact lt_of_le_of_lt h2 h1
  · exact h1

/-! ### The equations of the loop -/

variable {env}

theorem processSubframesLoop_eq {n : ℕ} : ∀ {m : ℕ} {str : Bytes} {s : State σ τ},
    str.length ≤ n → str.length ≤ m →
    processSubframesLoop env n str s = processSubframesLoop env m str s := by
  induction n with
  | zero =>
    intro m str s hn _
    obtain rfl := List.length_eq_zero_iff.mp (Nat.le_zero.mp hn)
    cases m <;> simp [processSubframesLoop]
  | succ n ih =>
    intro m str s hn hm
    by_cases h : str = []
    · subst h
      cases m <;> simp [processSubframesLoop]
    · have hpos := List.length_pos_iff.mpr h
      obtain ⟨m, rfl⟩ : ∃ m', m = m' + 1 := ⟨m - 1, by omega⟩
      have hlt := length_processSubframe_lt env h s
      rw [processSubframesLoop, processSubframesLoop, if_neg h, if_neg h]
      generalize processSubframe env str s = r at hlt ⊢
      rcases r with ⟨_ | _, str', s'⟩
      · rfl
      · dsimp only at hlt ⊢
        exact ih (by omega) (by omega)

theorem atHeadsLoop_iff {P : Bytes → State σ τ → Prop} {n : ℕ} :
    ∀ {m : ℕ} {str : Bytes} {s : State σ τ}, str.length ≤ n → str.length ≤ m →
    (AtHeadsLoop env P n str s ↔ AtHeadsLoop env P m str s) := by
  induction n with
  | zero =>
    intro m str s hn _
    obtain rfl := List.length_eq_zero_iff.mp (Nat.le_zero.mp hn)
    cases m <;> simp [AtHeadsLoop]
  | succ n ih =>
    intro m str s hn hm
    by_cases h : str = []
    · subst h
      cases m <;> simp [AtHeadsLoop]
    · have hpos := List.length_pos_iff.mpr h
      obtain ⟨m, rfl⟩ : ∃ m', m = m' + 1 := ⟨m - 1, by omega⟩
      have hlt := length_processSubframe_lt env h s
      rw [AtHeadsLoop, AtHeadsLoop, if_neg h, if_neg h]
      generalize processSubframe env str s = r at hlt ⊢
      rcases r with ⟨_ | _, str', s'⟩
      · rfl
      · dsimp only at hlt ⊢
        rw [ih (m := m) (by omega) (by omega)]

@[simp] theorem processSubframes_nil (s : State σ τ) : processSubframes env [] s = s := rfl

@[simp] theorem atHeads_nil (P : Bytes → State σ τ → Prop) (s : State σ τ) :
    AtHeads env P [] s := trivial

/-- The loop after a pass that goes on. -/
theorem processSubframes_of_next {str str' : Bytes} {s s' : State σ τ} (h : str ≠ [])
    (hp : processSubframe env str s = (true, str', s')) :
    processSubframes env str s = processSubframes env str' s' := by
  have hpos := List.length_pos_iff.mpr h
  have hlt := length_processSubframe_lt env h s
  rw [hp] at hlt
  obtain ⟨n, hn⟩ : ∃ n, str.length = n + 1 := ⟨str.length - 1, by omega⟩
  rw [processSubframes, hn, processSubframesLoop, if_neg h, hp]
  exact processSubframesLoop_eq (by dsimp only at hlt; omega) le_rfl

/-- The loop after a pass that ends it. -/
theorem processSubframes_of_return {str str' : Bytes} {s s' : State σ τ} (h : str ≠ [])
    (hp : processSubframe env str s = (false, str', s')) : processSubframes env str s = s' := by
  have hpos := List.length_pos_iff.mpr h
  obtain ⟨n, hn⟩ : ∃ n, str.length = n + 1 := ⟨str.length - 1, by omega⟩
  rw [processSubframes, hn, processSubframesLoop, if_neg h, hp]

theorem atHeads_of_next {P : Bytes → State σ τ → Prop} {str str' : Bytes} {s s' : State σ τ}
    (h : str ≠ []) (hp : processSubframe env str s = (true, str', s')) :
    AtHeads env P str s ↔ P str s ∧ AtHeads env P str' s' := by
  have hpos := List.length_pos_iff.mpr h
  have hlt := length_processSubframe_lt env h s
  rw [hp] at hlt
  obtain ⟨n, hn⟩ : ∃ n, str.length = n + 1 := ⟨str.length - 1, by omega⟩
  rw [AtHeads, hn, AtHeadsLoop, if_neg h, hp]
  dsimp only at hlt ⊢
  rw [AtHeads, atHeadsLoop_iff (n := n) (m := str'.length) (by omega) le_rfl]

theorem atHeads_of_return {P : Bytes → State σ τ → Prop} {str str' : Bytes} {s s' : State σ τ}
    (h : str ≠ []) (hp : processSubframe env str s = (false, str', s')) :
    AtHeads env P str s ↔ P str s := by
  have hpos := List.length_pos_iff.mpr h
  obtain ⟨n, hn⟩ : ∃ n, str.length = n + 1 := ⟨str.length - 1, by omega⟩
  rw [AtHeads, hn, AtHeadsLoop, if_neg h, hp]
  simp

/-- Induction along the loop, over the bytes that are left. -/
theorem loop_induction (env : Env σ τ) {motive : Bytes → State σ τ → Prop} (nil : ∀ s, motive [] s)
    (next : ∀ str s str' s', str ≠ [] → processSubframe env str s = (true, str', s') →
      motive str' s' → motive str s)
    (return' : ∀ str s str' s', str ≠ [] → processSubframe env str s = (false, str', s') →
      motive str s) (str : Bytes) (s : State σ τ) : motive str s := by
  induction hn : str.length using Nat.strong_induction_on generalizing str s with
  | _ n ih =>
    by_cases h : str = []
    · rw [h]
      exact nil s
    · have hlt := length_processSubframe_lt env h s
      rcases hp : processSubframe env str s with ⟨_ | _, str', s'⟩
      · exact return' str s str' s' h hp
      · rw [hp] at hlt
        exact next str s str' s' h hp (ih str'.length (by dsimp only at hlt; omega) str' s' rfl)

end Mjlib.Multiplex.MicroServer
