import Mathlib.Tactic.Ring

/-!
# Big-endian numbers

`beVal bs` is the number the bytes `bs` spell, most significant byte first, and
`beBytes k n` the `k` bytes that spell `n` modulo `256 ^ k`.
-/

namespace NdnMobile.Lib

abbrev Bytes := List UInt8

def beVal : Bytes → Nat
  | [] => 0
  | b :: bs => b.toNat * 256 ^ bs.length + beVal bs

def beBytes : Nat → Nat → Bytes
  | 0, _ => []
  | k + 1, n => UInt8.ofNat (n / 256 ^ k) :: beBytes k (n % 256 ^ k)

@[simp] theorem beVal_nil : beVal [] = 0 := rfl

@[simp] theorem beBytes_length (k n : Nat) : (beBytes k n).length = k := by
  induction k generalizing n with
  | zero => rfl
  | succ k ih => simp [beBytes, ih]

theorem beVal_beBytes {k n : Nat} (h : n < 256 ^ k) : beVal (beBytes k n) = n := by
  induction k generalizing n with
  | zero =>
    have : n = 0 := by simpa using h
    simp [beBytes, this]
  | succ k ih =>
    have hk : 0 < 256 ^ k := Nat.pow_pos (by decide)
    have hq : n / 256 ^ k < 256 := by
      rw [Nat.div_lt_iff_lt_mul hk, Nat.mul_comm, ← Nat.pow_succ]
      exact h
    simp only [beBytes, beVal, beBytes_length]
    rw [ih (Nat.mod_lt _ hk), UInt8.toNat_ofNat', Nat.mod_eq_of_lt hq, Nat.mul_comm]
    exact Nat.div_add_mod n (256 ^ k)

end NdnMobile.Lib
