import Mathlib.Data.List.Basic

/-!
# Lossy links

`Lossy xs ys`: `ys` is what a link delivers of `xs` when it drops and duplicates items
and otherwise keeps their order.
-/

namespace NdnMobile.Lib

inductive Lossy {α : Type} : List α → List α → Prop where
  | done : Lossy [] []
  | drop {x : α} {xs ys : List α} : Lossy xs ys → Lossy (x :: xs) ys
  /-- Deliver a copy; the item may be delivered again. -/
  | copy {x : α} {xs ys : List α} : Lossy (x :: xs) ys → Lossy (x :: xs) (x :: ys)

theorem Lossy.mem {α : Type} {xs ys : List α} (h : Lossy xs ys) {y : α} (hy : y ∈ ys) : y ∈ xs := by
  induction h with
  | done => exact hy
  | drop _ ih => exact List.mem_cons_of_mem _ (ih hy)
  | copy _ ih =>
    rcases List.mem_cons.mp hy with rfl | hy
    · exact List.mem_cons_self
    · exact ih hy

end NdnMobile.Lib
