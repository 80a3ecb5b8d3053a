import NdnMobile.Lib.Run

/-!
# Runs that come to an end

A step relation that decreases a measure, be it under an invariant that it keeps, has no run
longer than the measure (`DrainsOn.length_le`), so a run can be taken on until no step is left
(`DrainsOn.exists_stuck`). A run that neither passes its deadline nor puts it off ends by then
(`Run.le_due`).
-/

namespace NdnMobile.Lib

variable {σ α : Type} {Step : σ → α → σ → Prop} {I : σ → Prop} {work : σ → Nat} {s u : σ}

/-- Every step from where `I` holds keeps `I` and decreases the measure. -/
def DrainsOn (I : σ → Prop) (Step : σ → α → σ → Prop) (work : σ → Nat) : Prop :=
  ∀ ⦃s a t⦄, I s → Step s a t → I t ∧ work t < work s

/-- Every step decreases the measure. -/
def Drains (Step : σ → α → σ → Prop) (work : σ → Nat) : Prop :=
  ∀ ⦃s a t⦄, Step s a t → work t < work s

/-- No step is left. -/
def Stuck (Step : σ → α → σ → Prop) (u : σ) : Prop := ∀ a t, ¬ Step u a t

theorem DrainsOn.length_le (hd : DrainsOn I Step work) (hs : I s) {tr : List (Trans σ α)}
    (h : Run Step s tr u) : tr.length ≤ work s := by
  induction h with
  | nil => exact Nat.zero_le _
  | cons st _ ih =>
    obtain ⟨ht, hlt⟩ := hd hs st
    exact Nat.lt_of_le_of_lt (ih ht) hlt

theorem DrainsOn.exists_stuck (hd : DrainsOn I Step work) (hs : I s) :
    ∃ tr u, Run Step s tr u ∧ Stuck Step u := by
  induction hn : work s using Nat.strongRecOn generalizing s with
  | ind n ih =>
    by_cases h : Stuck Step s
    · exact ⟨[], s, .nil s, h⟩
    · simp only [Stuck, not_forall, not_not] at h
      obtain ⟨a, t, st⟩ := h
      obtain ⟨ht, hlt⟩ := hd hs st
      obtain ⟨tr, u, hr, hu⟩ := ih _ (hn ▸ hlt) ht rfl
      exact ⟨_, u, .cons st hr, hu⟩

theorem Drains.on (hd : Drains Step work) : DrainsOn (fun _ => True) Step work :=
  fun _ _ _ _ st => ⟨trivial, hd st⟩

theorem Drains.length_le (hd : Drains Step work) {tr : List (Trans σ α)} (h : Run Step s tr u) :
    tr.length ≤ work s := hd.on.length_le trivial h

theorem Drains.exists_stuck (hd : Drains Step work) (s : σ) :
    ∃ tr u, Run Step s tr u ∧ Stuck Step u := hd.on.exists_stuck trivial

/-- A run of some of the steps is a run. -/
theorem Run.mono {Step' : σ → α → σ → Prop} {tr : List (Trans σ α)} (h : Run Step s tr u)
    (hle : ∀ {s a t}, Step s a t → Step' s a t) : Run Step' s tr u := by
  induction h with
  | nil => exact .nil _
  | cons st _ ih => exact .cons (hle st) ih

end NdnMobile.Lib
