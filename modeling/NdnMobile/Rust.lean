import Mathlib.Algebra.Ring.Nat
import Mathlib.Data.List.Basic

/-!
# Rust arithmetic and slices

What a build target fixes about the integers the code computes with: the width of
`usize` (64 bits on the mobile targets, 32 on wasm) and whether an overflowing
addition panics (debug) or wraps (release). A panic is an `Except` error.
-/

namespace NdnMobile

inductive Panic where
  | addOverflow
  | sliceIndex
  deriving DecidableEq, Repr

inductive UsizeWidth where
  | w32
  | w64
  deriving DecidableEq, Repr

def UsizeWidth.bits : UsizeWidth → Nat
  | .w32 => 32
  | .w64 => 64

structure Target where
  usize : UsizeWidth
  /-- A debug build: an overflowing addition panics instead of wrapping. -/
  overflowChecks : Bool
  deriving DecidableEq, Repr

namespace Target

/-- A release build for the phones. -/
def mobile : Target := ⟨.w64, false⟩

variable (t : Target)

/-- `a + b` on unsigned integers of `bits` bits. -/
def addAt (bits a b : Nat) : Except Panic Nat :=
  if a + b < 2 ^ bits then .ok (a + b)
  else if t.overflowChecks then .error .addOverflow
  else .ok ((a + b) % 2 ^ bits)

def addUsize (a b : Nat) : Except Panic Nat := t.addAt t.usize.bits a b

/-- `a + b` on `u64`. -/
def addU64 (a b : UInt64) : Except Panic UInt64 :=
  if t.overflowChecks ∧ 2 ^ 64 ≤ a.toNat + b.toNat then .error .addOverflow else .ok (a + b)

/-- `n as usize`. -/
def castUsize (n : Nat) : Nat := n % 2 ^ t.usize.bits

/-- `Semaphore::MAX_PERMITS`, which is `usize::MAX >> 3`. -/
def maxPermits : Nat := (2 ^ t.usize.bits - 1) / 8

/-- `isize::MAX`, the longest a `Vec<u8>` can be. -/
def isizeMax : Nat := 2 ^ (t.usize.bits - 1) - 1

theorem addAt_of_lt {bits a b : Nat} (h : a + b < 2 ^ bits) : t.addAt bits a b = .ok (a + b) :=
  if_pos h

theorem addUsize_of_lt {a b : Nat} (h : a + b < 2 ^ t.usize.bits) :
    t.addUsize a b = .ok (a + b) := t.addAt_of_lt h

/-- Where overflow is checked, or cannot happen, a sum is exact. -/
theorem addU64_exact {a b c : UInt64}
    (h : t.overflowChecks = true ∨ a.toNat + b.toNat < 2 ^ 64) (hc : t.addU64 a b = .ok c) :
    c.toNat = a.toNat + b.toNat := by
  unfold addU64 at hc
  split at hc
  · cases hc
  · rename_i hno
    rw [Except.ok.injEq] at hc
    subst hc
    have hlt : a.toNat + b.toNat < 2 ^ 64 := by
      rcases h with h | h
      · by_contra hge
        exact hno ⟨h, by omega⟩
      · exact h
    rw [UInt64.toNat_add, Nat.mod_eq_of_lt hlt]

theorem addU64_of_lt {a b : UInt64} (h : a.toNat + b.toNat < 2 ^ 64) :
    t.addU64 a b = .ok (a + b) := if_neg fun hover => by omega

theorem castUsize_of_lt {n : Nat} (h : n < 2 ^ t.usize.bits) : t.castUsize n = n :=
  Nat.mod_eq_of_lt h

theorem lt_usize_of_le_isizeMax {n : Nat} (h : n ≤ t.isizeMax) : n < 2 ^ t.usize.bits := by
  unfold isizeMax at h
  cases hw : t.usize <;> simp only [hw, UsizeWidth.bits] at h ⊢ <;> omega

end Target

/-- `buf[..n].to_vec()`. -/
def sliceTo {α : Type} (buf : List α) (n : Nat) : Except Panic (List α) :=
  if n ≤ buf.length then .ok (buf.take n) else .error .sliceIndex

theorem sliceTo_of_le {α : Type} {buf : List α} {n : Nat} (h : n ≤ buf.length) :
    sliceTo buf n = .ok (buf.take n) := if_pos h

/-- `vec.remove(i)`. -/
def vecRemove {α : Type} (vec : List α) (i : Nat) : Except Panic (List α) :=
  if i < vec.length then .ok (vec.eraseIdx i) else .error .sliceIndex

theorem vecRemove_of_lt {α : Type} {vec : List α} {i : Nat} (h : i < vec.length) :
    vecRemove vec i = .ok (vec.eraseIdx i) := if_pos h

end NdnMobile
