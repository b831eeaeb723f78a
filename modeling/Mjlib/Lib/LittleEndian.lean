import Mathlib

/-!
# Little-endian scalars

`encode k n` is the low `k` bytes of `n`, least significant first, and `decode` is the number a
byte string stands for.  The two are inverse up to the width (`decode_encode`, `encode_decode`).
-/

namespace LittleEndian

/-- The low `k` bytes of `n`, least significant first. -/
def encode : ℕ → ℕ → List UInt8
  | 0, _ => []
  | k + 1, n => UInt8.ofNat n :: encode k (n / 256)

/-- The number whose bytes, least significant first, are `s`. -/
def decode : List UInt8 → ℕ
  | [] => 0
  | b :: s => b.toNat + 256 * decode s

@[simp] theorem length_encode (k n : ℕ) : (encode k n).length = k := by
  induction k generalizing n with
  | zero => rfl
  | succ k ih => rw [encode, List.length_cons, ih]

theorem decode_encode_mod (k n : ℕ) : decode (encode k n) = n % 256 ^ k := by
  induction k generalizing n with
  | zero => simp [encode, decode, Nat.mod_one]
  | succ k ih =>
    have hpow : 256 ^ (k + 1) = 256 * 256 ^ k := Nat.pow_succ'
    rw [encode, decode, ih, UInt8.toNat_ofNat', hpow, Nat.mod_mul]

theorem decode_encode {k n : ℕ} (h : n < 256 ^ k) : decode (encode k n) = n := by
  rw [decode_encode_mod, Nat.mod_eq_of_lt h]

theorem encode_decode (s : List UInt8) : encode s.length (decode s) = s := by
  induction s with
  | nil => rfl
  | cons b s ih =>
    have hlow : UInt8.ofNat (b.toNat + 256 * decode s) = b := by
      apply UInt8.toNat_inj.mp
      rw [UInt8.toNat_ofNat']
      have := b.toNat_lt
      omega
    have hhigh : (b.toNat + 256 * decode s) / 256 = decode s := by
      have := b.toNat_lt
      omega
    rw [List.length_cons, decode, encode, hlow, hhigh, ih]

/-- What is decoded fits the bytes. -/
theorem decode_lt (s : List UInt8) : decode s < 256 ^ s.length := by
  have h := decode_encode_mod s.length (decode s)
  rw [encode_decode] at h
  rw [h]
  exact Nat.mod_lt _ (Nat.pow_pos (by decide))

end LittleEndian
