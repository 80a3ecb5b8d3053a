import Mathlib.Data.List.Basic

/-!
# Runs of a labelled transition relation

`Run Step s tr u`: the transitions `tr` lead from `s` to `u`, each recorded with
the state before it, its label and the state after it. A property "in every state
the run reaches" is a statement about the `post` of every transition, and a
condition "on every step" one about its `pre` and `act`. `Run.inv` is the
invariant rule under such a condition (`Run.inv_hist`: an invariant that also speaks of
the past), `Run.exact` turns a per-step equivalence into one about whole runs, `Run.project`
forgets what an observer does not see, `Run.erase` takes the invisible steps out of a run,
`Run.component` is the run of one part of the state, and `exec` runs an executable step along
given labels (`exec_guarded`: with a check of every step).
-/

namespace NdnMobile.Lib

/-- One transition of a run. -/
structure Trans (σ α : Type) where
  pre : σ
  act : α
  post : σ

inductive Run {σ α : Type} (Step : σ → α → σ → Prop) : σ → List (Trans σ α) → σ → Prop where
  | nil (s : σ) : Run Step s [] s
  | cons {s t u : σ} {a : α} {tr : List (Trans σ α)} :
    Step s a t → Run Step t tr u → Run Step s (⟨s, a, t⟩ :: tr) u

variable {σ α : Type} {Step : σ → α → σ → Prop} {s t u : σ} {tr tr' : List (Trans σ α)}

theorem Run.append (h1 : Run Step s tr t) (h2 : Run Step t tr' u) : Run Step s (tr ++ tr') u := by
  induction h1 with
  | nil => exact h2
  | cons hs _ ih => exact .cons hs (ih h2)

theorem Run.last_mem (h : Run Step s tr u) (hne : tr ≠ []) : ∃ x ∈ tr, x.post = u := by
  induction h with
  | nil => exact absurd rfl hne
  | @cons s t u a tr st hr ih =>
    by_cases htr : tr = []
    · subst htr
      cases hr
      exact ⟨_, List.mem_cons_self, rfl⟩
    · obtain ⟨x, hx, rfl⟩ := ih htr
      exact ⟨x, List.mem_cons_of_mem _ hx, rfl⟩

theorem Run.step_of_mem (h : Run Step s tr u) {x : Trans σ α} (hx : x ∈ tr) :
    Step x.pre x.act x.post := by
  induction h with
  | nil => cases hx
  | cons hs _ ih =>
    rcases List.mem_cons.mp hx with rfl | hx
    · exact hs
    · exact ih hx

/-- **Invariant rule.** What every step that meets the guard `G` preserves holds before
and after each transition of a run whose steps all meet `G`. -/
theorem Run.inv_mem {I : σ → Prop} {G : σ → α → Prop}
    (h : Run Step s tr u) (hstep : ∀ {s a t}, I s → G s a → Step s a t → I t) (hs : I s)
    (hG : ∀ x ∈ tr, G x.pre x.act) :
    I u ∧ ∀ x ∈ tr, I x.pre ∧ I x.post := by
  induction h with
  | nil => exact ⟨hs, fun _ hx => by cases hx⟩
  | cons st _ ih =>
    have ht := hstep hs (hG _ List.mem_cons_self) st
    obtain ⟨hu, hmem⟩ := ih ht fun x hx => hG x (List.mem_cons_of_mem _ hx)
    refine ⟨hu, fun x hx => ?_⟩
    rcases List.mem_cons.mp hx with rfl | hx
    · exact ⟨hs, ht⟩
    · exact hmem x hx

/-- The invariant rule without a guard. -/
theorem Run.inv {I : σ → Prop} (h : Run Step s tr u)
    (hstep : ∀ {s a t}, I s → Step s a t → I t) (hs : I s) :
    I u ∧ ∀ x ∈ tr, I x.pre ∧ I x.post :=
  h.inv_mem (G := fun _ _ => True) (fun hi _ st => hstep hi st) hs fun _ _ => trivial

theorem Run.of_append (h : Run Step s (tr ++ tr') u) :
    ∃ t, Run Step s tr t ∧ Run Step t tr' u := by
  induction tr generalizing s with
  | nil => exact ⟨s, .nil s, h⟩
  | cons x tr ih =>
    cases h with
    | cons st hr =>
      obtain ⟨t, h1, h2⟩ := ih hr
      exact ⟨t, .cons st h1, h2⟩

theorem Run.inv_hist_from {I : List (Trans σ α) → σ → Prop} (h : Run Step s tr u)
    (hstep : ∀ {past s a t}, I past s → Step s a t → I (past ++ [⟨s, a, t⟩]) t)
    (past : List (Trans σ α)) (hs : I past s) : I (past ++ tr) u := by
  induction h generalizing past with
  | nil => simpa using hs
  | cons st _ ih =>
    have ht := ih _ (hstep hs st)
    rwa [List.append_assoc] at ht

/-- **Invariant rule with history**: the invariant also speaks of the transitions so far. -/
theorem Run.inv_hist {I : List (Trans σ α) → σ → Prop} (h : Run Step s tr u)
    (hstep : ∀ {past s a t}, I past s → Step s a t → I (past ++ [⟨s, a, t⟩]) t)
    (hs : I [] s) : I tr u := h.inv_hist_from hstep [] hs

/-- **Projection.** Where each transition either is invisible and leaves the projection `π`
of the state alone, or applies its visible event to it, the projection of a run's end
depends on the run's visible events only. -/
theorem Run.project {γ ε : Type} {π : σ → γ} {visible : Trans σ α → Option ε} {app : γ → ε → γ}
    (h : Run Step s tr u)
    (hstep : ∀ x ∈ tr, π x.post = (visible x).elim (π x.pre) (app (π x.pre))) :
    π u = (tr.filterMap visible).foldl app (π s) := by
  induction h with
  | nil => rfl
  | @cons s t u a tr st hr ih =>
    have hx := hstep _ List.mem_cons_self
    rw [ih fun x hx => hstep x (List.mem_cons_of_mem _ hx)]
    cases hv : visible ⟨s, a, t⟩ with
    | none =>
      rw [hv] at hx
      rw [List.filterMap_cons_none hv, ← show π t = π s from hx]
    | some e =>
      rw [hv] at hx
      rw [List.filterMap_cons_some hv, List.foldl_cons, ← show π t = app (π s) e from hx]

/-- **Erasure.** Where a visible step is also a step between the projections of its states,
and an invisible one leaves the projection alone, the visible steps of a run are a run. -/
theorem Run.erase {π : σ → σ} {visible : α → Bool} (h : Run Step s tr u)
    (hvis : ∀ {s a t}, visible a = true → Step s a t → Step (π s) a (π t))
    (hinv : ∀ {s a t}, visible a = false → Step s a t → π t = π s) :
    ∃ tr', Run Step (π s) tr' (π u) ∧ tr'.map (·.act) = (tr.map (·.act)).filter visible := by
  induction h with
  | nil s => exact ⟨[], .nil _, rfl⟩
  | @cons s t u a tr st _ ih =>
    obtain ⟨tr', hrun, hacts⟩ := ih
    cases hv : visible a with
    | true =>
      refine ⟨⟨π s, a, π t⟩ :: tr', .cons (hvis hv st) hrun, ?_⟩
      rw [List.map_cons, List.map_cons, List.filter_cons_of_pos hv, hacts]
    | false =>
      refine ⟨tr', hinv hv st ▸ hrun, ?_⟩
      rw [List.map_cons, List.filter_cons_of_neg (by simp [hv]), hacts]

/-- **Components.** Where each transition either does one step of a component of the state, or
leaves the component alone, the component's steps are a run of it. -/
theorem Run.component {τ β : Type} {Part : τ → β → τ → Prop} (h : Run Step s tr u)
    (π : σ → τ) (visible : Trans σ α → Option β)
    (hstep : ∀ {s a t}, Step s a t →
      (∃ b, visible ⟨s, a, t⟩ = some b ∧ Part (π s) b (π t)) ∨
        visible ⟨s, a, t⟩ = none ∧ π t = π s) :
    ∃ tr', Run Part (π s) tr' (π u) ∧
      tr' = tr.filterMap fun x => (visible x).map fun b => ⟨π x.pre, b, π x.post⟩ := by
  induction h with
  | nil s => exact ⟨[], .nil _, rfl⟩
  | @cons s t u a tr st _ ih =>
    obtain ⟨tr', hrun, rfl⟩ := ih
    rcases hstep st with ⟨b, hb, hpart⟩ | ⟨hb, heq⟩
    · refine ⟨⟨π s, b, π t⟩ :: _, .cons hpart hrun, ?_⟩
      rw [List.filterMap_cons, hb]
      rfl
    · refine ⟨_, heq ▸ hrun, ?_⟩
      rw [List.filterMap_cons, hb]
      rfl

/-- **Exact guards.** If, under an invariant that good steps preserve, a step ends in a good
state exactly when it meets its condition, then all steps of a run end in good states
exactly when all of them meet the condition. -/
theorem Run.exact {I : σ → Prop} {C : σ → α → Prop} {P : Trans σ α → Prop}
    (h : Run Step s tr u) (hPC : ∀ {s a t}, I s → Step s a t → (P ⟨s, a, t⟩ ↔ C s a))
    (hI : ∀ {s a t}, I s → C s a → Step s a t → I t) (hs : I s) :
    (∀ x ∈ tr, P x) ↔ ∀ x ∈ tr, C x.pre x.act := by
  induction h with
  | nil => simp
  | cons st _ ih =>
    simp only [List.forall_mem_cons]
    constructor
    · rintro ⟨hp, hr⟩
      have hc := (hPC hs st).mp hp
      exact ⟨hc, (ih (hI hs hc st)).mp hr⟩
    · rintro ⟨hc, hr⟩
      exact ⟨(hPC hs st).mpr hc, (ih (hI hs hc st)).mpr hr⟩

/-- What is read off the steps of a history, one step later. -/
theorem filterMap_snoc {β γ : Type} (f : β → Option γ) (past : List β) (x : β) :
    (past ++ [x]).filterMap f = past.filterMap f ++ (f x).toList := by
  rw [List.filterMap_append]
  cases h : f x <;> simp [h]

/-- The relation of an executable step (`none`: the label is not enabled). -/
def stepRel (f : σ → α → Option σ) : σ → α → σ → Prop := fun s a t => f s a = some t

/-- Run an executable step along a list of labels. -/
def exec (f : σ → α → Option σ) : σ → List α → Option σ
  | s, [] => some s
  | s, a :: as =>
    match f s a with
    | none => none
    | some t => exec f t as

theorem exec_run {f : σ → α → Option σ} {as : List α} (h : exec f s as = some u) :
    ∃ tr, Run (stepRel f) s tr u ∧ tr.map (·.act) = as := by
  induction as generalizing s with
  | nil =>
    simp only [exec, Option.some.injEq] at h
    subst h
    exact ⟨[], .nil _, rfl⟩
  | cons a as ih =>
    simp only [exec] at h
    split at h
    · cases h
    · rename_i t hf
      obtain ⟨tr, hr, hm⟩ := ih h
      exact ⟨⟨s, a, t⟩ :: tr, .cons hf hr, by simp [hm]⟩

/-- An executable step that only takes the steps that meet `G`. -/
def guarded (G : σ → α → Bool) (f : σ → α → Option σ) : σ → α → Option σ := fun s a =>
  if G s a then f s a else none

theorem Run.of_guarded {G : σ → α → Bool} {f : σ → α → Option σ}
    (h : Run (stepRel (guarded G f)) s tr u) :
    Run (stepRel f) s tr u ∧ ∀ x ∈ tr, G x.pre x.act = true := by
  induction h with
  | nil => exact ⟨.nil _, nofun⟩
  | cons st _ ih =>
    simp only [stepRel, guarded] at st
    split at st
    · rename_i hG
      refine ⟨.cons st ih.1, fun x hx => ?_⟩
      rcases List.mem_cons.mp hx with rfl | hx
      · exact hG
      · exact ih.2 x hx
    · cases st

/-- Along given labels, with every step checked. -/
theorem exec_guarded {G : σ → α → Bool} {f : σ → α → Option σ} {as : List α}
    (h : exec (guarded G f) s as = some u) :
    ∃ tr, Run (stepRel f) s tr u ∧ tr.map (·.act) = as ∧ ∀ x ∈ tr, G x.pre x.act = true := by
  obtain ⟨tr, hguarded, hacts⟩ := exec_run h
  obtain ⟨hrun, hG⟩ := hguarded.of_guarded
  exact ⟨tr, hrun, hacts, hG⟩

end NdnMobile.Lib
