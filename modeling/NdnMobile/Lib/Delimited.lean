import Mathlib.Data.List.Basic

/-!
# Self-delimiting words

A word `w` is delimited by an end finder `e` when `e` says nothing on the proper
prefixes of `w` and announces exactly `w.length` as soon as `w` is there, whatever
follows it. A receiver that appends pieces to a buffer and asks `e` after each one
then cuts `w` out at the piece that completes it, and not before.
-/

namespace NdnMobile.Lib

variable {α ε : Type}

structure Delimits (e : List α → Except ε (Option Nat)) (w : List α) : Prop where
  short : ∀ {q}, q <+: w → q.length < w.length → e q = .ok none
  full : ∀ rest, e (w ++ rest) = .ok (some w.length)

variable {e : List α → Except ε (Option Nat)} {w : List α}

theorem Delimits.whole (h : Delimits e w) : e w = .ok (some w.length) := by
  simpa using h.full []

/-- What `e` announces on a buffer that starts with `w` cuts `w` off it. -/
theorem Delimits.of_prefix (h : Delimits e w) {buf : List α} (hp : w <+: buf) :
    e buf = .ok (some w.length) ∧ buf.take w.length = w := by
  obtain ⟨rest, rfl⟩ := hp
  exact ⟨h.full rest, List.take_left ..⟩

/-- A buffer the rest of the word is still to be appended to. -/
theorem Delimits.short_of_append (h : Delimits e w) {buf rest : List α} (hw : buf ++ rest = w)
    (hr : rest ≠ []) : e buf = .ok none := by
  refine h.short ⟨rest, hw⟩ ?_
  rw [← hw, List.length_append]
  have := List.length_pos_iff.mpr hr
  omega

end NdnMobile.Lib
