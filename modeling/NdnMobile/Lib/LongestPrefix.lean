import Mathlib.Data.List.Infix

/-!
# Longest-prefix match

A table keyed by lists, looked up with the longest prefix of a list that has an entry. The
answer depends on the entries at the prefixes of the list only, and two lists that are
prefixes of a third are prefixes one of the other.
-/

namespace NdnMobile.Lib

variable {α β : Type} {t t' : List α → Option β} {l p q : List α}

/-- The entry at the longest prefix that has one. -/
def longestMatch (t : List α → Option β) (l : List α) : Option β := l.inits.reverse.findSome? t

theorem findSome?_congr' {γ : Type} {xs : List γ} {f g : γ → Option β}
    (h : ∀ x ∈ xs, f x = g x) : xs.findSome? f = xs.findSome? g := by
  induction xs with
  | nil => rfl
  | cons x xs ih =>
    obtain ⟨hx, hxs⟩ := List.forall_mem_cons.mp h
    rw [List.findSome?_cons, List.findSome?_cons, hx, ih hxs]

/-- Tables that agree at the prefixes of a list answer alike for it. -/
theorem longestMatch_congr (h : ∀ p, p <+: l → t p = t' p) :
    longestMatch t l = longestMatch t' l := by
  refine findSome?_congr' fun p hp => h p ?_
  rwa [List.mem_reverse, List.mem_inits] at hp

/-- An edit at `p` does not reach the lists under `q`, if neither is a prefix of the other. -/
theorem longestMatch_under (hpq : ¬ p <+: q) (hqp : ¬ q <+: p) (hl : q <+: l)
    (h : ∀ r, r ≠ p → t r = t' r) : longestMatch t l = longestMatch t' l := by
  refine longestMatch_congr fun r hr => h r ?_
  rintro rfl
  rcases List.prefix_or_prefix_of_prefix hr hl with hle | hle
  · exact hpq hle
  · exact hqp hle

end NdnMobile.Lib
