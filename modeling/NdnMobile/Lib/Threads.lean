import Mathlib.Algebra.Order.BigOperators.Group.Finset
import NdnMobile.Lib.Drain

/-!
# Runs of several threads

Where each step is one thread's and moves no other (`Moves`), the threads that are not where
they began have taken a step (`Run.within`), and what a step does to its thread says what it
does to a sum over them (`sum_moves`). Steps that bring their threads nearer the end drain
(`drainsOn_threads`), and each thread takes no more of them than it is away from it
(`Run.stepsOf_le`).
-/

namespace NdnMobile.Lib

variable {σ α T Φ : Type} {Step : σ → α → σ → Prop} {place : σ → T → Φ} {thread : α → T}
  {s u : σ} {a : α} {t : T}

/-- The step leaves every other thread where it is. -/
def Moves (place : σ → T → Φ) (t : T) (s u : σ) : Prop := ∀ t' ≠ t, place u t' = place s t'

/-- Only these threads are not at `idle`. -/
def Within (place : σ → T → Φ) (idle : Φ) (ids : Finset T) (s : σ) : Prop :=
  ∀ t ∉ ids, place s t = idle

theorem Within.step {idle : Φ} {ids : Finset T} (h : Within place idle ids s)
    (hm : Moves place t s u) (ht : t ∈ ids) : Within place idle ids u := by
  intro t' ht'
  rw [hm t' fun he => ht' (he ▸ ht)]
  exact h t' ht'

variable [DecidableEq T]

/-- The threads of a run. -/
def threadsOf (thread : α → T) (tr : List (Trans σ α)) : Finset T :=
  (tr.map fun x => thread x.act).toFinset

theorem mem_threadsOf {tr : List (Trans σ α)} :
    t ∈ threadsOf thread tr ↔ ∃ x ∈ tr, thread x.act = t := by
  rw [threadsOf, List.mem_toFinset, List.mem_map]

/-- A thread that is not where it began has taken a step. -/
theorem Run.within {idle : Φ} {tr : List (Trans σ α)} (h : Run Step s tr u)
    (hstep : ∀ {s a u}, Step s a u → Moves place (thread a) s u) (hs : ∀ t, place s t = idle) :
    Within place idle (threadsOf thread tr) u := by
  refine h.inv_hist (I := fun past s => Within place idle (threadsOf thread past) s)
    (fun {past s a u} hi st => ?_) fun t _ => hs t
  intro t ht
  have hpast : t ∉ threadsOf thread past := fun hmem => by
    obtain ⟨x, hx, he⟩ := mem_threadsOf.mp hmem
    exact ht (mem_threadsOf.mpr ⟨x, List.mem_append_left _ hx, he⟩)
  have hne : t ≠ thread a := fun he =>
    ht (mem_threadsOf.mpr ⟨_, List.mem_append_right _ (List.mem_singleton.mpr rfl), he.symm⟩)
  rw [hstep st t hne]
  exact hi t hpast

/-- **What a step does to its thread** it does to a sum over the threads. -/
theorem sum_moves (f : Φ → Nat) {ids : Finset T} (hm : Moves place t s u) (ht : t ∈ ids) :
    ∑ i ∈ ids, f (place u i) + f (place s t) = ∑ i ∈ ids, f (place s i) + f (place u t) := by
  have hrest : ∑ i ∈ ids.erase t, f (place u i) = ∑ i ∈ ids.erase t, f (place s i) :=
    Finset.sum_congr rfl fun i hi => by rw [hm i (Finset.ne_of_mem_erase hi)]
  rw [← Finset.add_sum_erase ids (fun i => f (place u i)) ht,
    ← Finset.add_sum_erase ids (fun i => f (place s i)) ht, hrest]
  omega

/-- Steps that bring their threads nearer the end come to an end. -/
theorem drainsOn_threads {cost : Φ → Nat} {idle : Φ} (thread : α → T) (hidle : cost idle = 0)
    (hstep : ∀ {s a u}, Step s a u →
      Moves place (thread a) s u ∧ cost (place u (thread a)) < cost (place s (thread a)))
    (ids : Finset T) :
    DrainsOn (Within place idle ids) Step fun s => ∑ t ∈ ids, cost (place s t) := by
  intro s a u hin st
  obtain ⟨hm, hlt⟩ := hstep st
  have hmem : thread a ∈ ids := by
    by_contra hout
    rw [hin _ hout, hidle] at hlt
    exact Nat.not_lt_zero _ hlt
  refine ⟨hin.step hm hmem, ?_⟩
  have hsum := sum_moves cost hm hmem
  dsimp only
  omega

/-- How many of the steps are the thread's. -/
def stepsOf (thread : α → T) (t : T) (tr : List (Trans σ α)) : Nat :=
  (tr.filter fun x => thread x.act = t).length

/-- A thread takes no more steps than it is away from the end. -/
theorem Run.stepsOf_le {cost : Φ → Nat} (thread : α → T) {tr : List (Trans σ α)}
    (h : Run Step s tr u) (hstep : ∀ {s a u}, Step s a u →
      Moves place (thread a) s u ∧ cost (place u (thread a)) < cost (place s (thread a)))
    (t : T) : stepsOf thread t tr + cost (place u t) ≤ cost (place s t) := by
  induction h with
  | nil => exact Nat.le_of_eq (Nat.zero_add _)
  | @cons s v u a tr st _ ih =>
    obtain ⟨hm, hlt⟩ := hstep st
    by_cases ht : thread a = t
    · have hone : stepsOf thread t (⟨s, a, v⟩ :: tr) = stepsOf thread t tr + 1 := by
        rw [stepsOf, List.filter_cons_of_pos (by simpa using ht), List.length_cons]
        rfl
      rw [ht] at hlt
      omega
    · have hnone : stepsOf thread t (⟨s, a, v⟩ :: tr) = stepsOf thread t tr := by
        rw [stepsOf, List.filter_cons_of_neg (by simpa using ht)]
        rfl
      rwa [hnone, ← hm t fun he => ht he.symm]

end NdnMobile.Lib
