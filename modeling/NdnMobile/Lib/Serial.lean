import NdnMobile.Lib.Run

/-!
# Calls done one after the other

`answer s op` is what a call answers in the state `s`, and the state after it. A sequence of
calls with their answers is a `Serial` history when each is answered in the state that the ones
before it have left. Where each step of a concurrent run either is the effect of one call or
leaves the state that the calls are about alone, the effects in the order of the run are such a
history (`Run.serial`).
-/

namespace NdnMobile.Lib

variable {σ α τ ω ρ : Type} {answer : τ → ω → τ × ρ}

inductive Serial (answer : τ → ω → τ × ρ) : τ → List (ω × ρ) → τ → Prop where
  | nil (a : τ) : Serial answer a [] a
  | cons {a b c : τ} {op : ω} {r : ρ} {hist : List (ω × ρ)} : answer a op = (b, r) →
    Serial answer b hist c → Serial answer a ((op, r) :: hist) c

/-- **Linearization.** The effects of a run, in its order, are a serial history. -/
theorem Run.serial {Step : σ → α → σ → Prop} {s u : σ} {tr : List (Trans σ α)}
    (h : Run Step s tr u) (π : σ → τ) (effect : Trans σ α → Option (ω × ρ))
    (hsome : ∀ x ∈ tr, ∀ op r, effect x = some (op, r) → answer (π x.pre) op = (π x.post, r))
    (hnone : ∀ x ∈ tr, effect x = none → π x.post = π x.pre) :
    Serial answer (π s) (tr.filterMap effect) (π u) := by
  induction h with
  | nil s => exact .nil _
  | @cons s t u a tr _ _ ih =>
    have hrest := ih (fun x hx => hsome x (List.mem_cons_of_mem _ hx))
      fun x hx => hnone x (List.mem_cons_of_mem _ hx)
    cases he : effect ⟨s, a, t⟩ with
    | none =>
      rw [List.filterMap_cons_none he, ← show π t = π s from hnone _ List.mem_cons_self he]
      exact hrest
    | some e =>
      rw [List.filterMap_cons_some he]
      exact .cons (hsome _ List.mem_cons_self e.1 e.2 he) hrest

end NdnMobile.Lib
