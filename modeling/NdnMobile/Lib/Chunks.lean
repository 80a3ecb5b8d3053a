import Mathlib.Algebra.Order.Floor.Div
import Mathlib.Tactic.Ring

/-!
# A list cut every `k` elements

`chunk k w i` is the `i`-th of the pieces, `w.length ⌈/⌉ k` of them, that `w` falls into
when it is cut every `k` elements. They join back to `w` (`chunks_flatten`).
-/

namespace NdnMobile.Lib

section

variable {α : Type} {k : Nat} {w : List α}

def chunk (k : Nat) (w : List α) (i : Nat) : List α := (w.drop (k * i)).take k

def chunks (k : Nat) (w : List α) : List (List α) :=
  (List.range (w.length ⌈/⌉ k)).map (chunk k w)

theorem lt_ceilDiv_iff (hk : 0 < k) {n i : Nat} : i < n ⌈/⌉ k ↔ k * i < n := by
  rw [← Nat.not_le, ceilDiv_le_iff_le_mul hk, Nat.not_le]

theorem le_mul_ceilDiv (hk : 0 < k) (n : Nat) : n ≤ k * (n ⌈/⌉ k) :=
  (ceilDiv_le_iff_le_mul hk).mp (Nat.le_refl _)

theorem chunk_length_le (k : Nat) (w : List α) (i : Nat) : (chunk k w i).length ≤ k :=
  List.length_take_le ..

/-- A piece that starts before the end holds an element. -/
theorem chunk_length_pos (hk : 0 < k) {i : Nat} (h : i < w.length ⌈/⌉ k) :
    0 < (chunk k w i).length := by
  have hlt := (lt_ceilDiv_iff hk).mp h
  simp only [chunk, List.length_take, List.length_drop]
  omega

/-- The first `j` pieces are the first `k * j` elements. -/
theorem flatten_map_chunk (k : Nat) (w : List α) (j : Nat) :
    ((List.range j).map (chunk k w)).flatten = w.take (k * j) := by
  induction j with
  | zero => rfl
  | succ j ih =>
    rw [List.range_succ, List.map_append, List.flatten_append, ih, Nat.mul_succ, List.take_add]
    simp [chunk]

theorem chunks_flatten (hk : 0 < k) (w : List α) : (chunks k w).flatten = w := by
  rw [chunks, flatten_map_chunk, List.take_of_length_le (le_mul_ceilDiv hk _)]

end

end NdnMobile.Lib
