import Mathlib.Algebra.Ring.Nat
import NdnMobile.Lib.Run
import NdnMobile.Lib.Semaphore

/-!
# Systems that run on a semaphore's permits

A `Metered` system has a semaphore in its state, which some steps add permits to and some
take one from. Adding beyond the limit panics. Over a run, no step panics exactly when what
was granted so far never exceeds the limit by more than was taken (`fits_iff`). Where the
permits come from requests that wait in an inbox, what was granted and what is still owed
add up to what the requests are worth (`owed_add_added`): where they may all arrive and be
served before anything is taken (`Open`), no run panics exactly when that is within the limit
(`Open.safe_iff`).
-/

namespace NdnMobile.Lib

variable {σ α : Type} {Step : σ → α → σ → Prop}

/-- What a step does with the semaphore. -/
inductive Use where
  | add (n : Nat)
  | take
  deriving DecidableEq, Repr

namespace Use

def added : Use → Nat
  | add n => n
  | take => 0

def taken : Use → Nat
  | add _ => 0
  | take => 1

end Use

structure Metered (Step : σ → α → σ → Prop) where
  limit : Nat
  sem : σ → Semaphore
  use : σ → α → Option Use
  idle : ∀ {s a t}, Step s a t → use s a = none → sem t = sem s
  take : ∀ {s a t}, Step s a t → use s a = some .take → (sem s).acquire = some (sem t)
  /-- An add that panics adds nothing. -/
  add : ∀ {s a t n}, Step s a t → use s a = some (.add n) →
    sem t = ((sem s).addPermits limit n).getD (sem s)

namespace Metered

variable (M : Metered Step)

def Panics (s : σ) (a : α) : Prop :=
  ∃ n, M.use s a = some (.add n) ∧ (M.sem s).addPermits M.limit n = none

/-- The permits that the steps of a run tried to add. -/
def added (tr : List (Trans σ α)) : Nat :=
  (tr.map fun x => (M.use x.pre x.act).elim 0 Use.added).sum

def taken (tr : List (Trans σ α)) : Nat :=
  (tr.map fun x => (M.use x.pre x.act).elim 0 Use.taken).sum

variable {M} {s t u : σ} {a : α} {past tr : List (Trans σ α)}

theorem added_cons :
    M.added (⟨s, a, t⟩ :: tr) = (M.use s a).elim 0 Use.added + M.added tr := by
  rw [added, List.map_cons, List.sum_cons, added]

theorem taken_cons :
    M.taken (⟨s, a, t⟩ :: tr) = (M.use s a).elim 0 Use.taken + M.taken tr := by
  rw [taken, List.map_cons, List.sum_cons, taken]

theorem panics_iff {n : Nat} (h : M.use s a = some (.add n)) :
    M.Panics s a ↔ M.limit < (M.sem s).permits + n := by
  unfold Panics
  simp only [h, Option.some.injEq, Use.add.injEq, exists_eq_left', Semaphore.addPermits]
  split <;> simp <;> omega

/-- A step that does not panic keeps the balance of permits. -/
theorem balance_step (h : Step s a t) (hp : ¬M.Panics s a) :
    (M.sem t).permits + (M.use s a).elim 0 Use.taken =
      (M.sem s).permits + (M.use s a).elim 0 Use.added := by
  cases hu : M.use s a with
  | none =>
    rw [M.idle h hu]
    rfl
  | some use =>
    cases use with
    | take =>
      have hacq := Semaphore.acquire_some (M.take h hu)
      simp only [Option.elim_some, Use.taken, Use.added]
      omega
    | add n =>
      have hle : (M.sem s).permits + n ≤ M.limit := Nat.le_of_not_lt fun hlt =>
        hp ((panics_iff hu).mpr hlt)
      rw [M.add h hu, Semaphore.addPermits, if_pos hle]
      rfl

theorem permits_le_step (h : Step s a t) (hs : (M.sem s).permits ≤ M.limit)
    (hp : ¬M.Panics s a) : (M.sem t).permits ≤ M.limit := by
  have hbal := balance_step h hp
  cases hu : M.use s a with
  | none => rwa [M.idle h hu]
  | some use =>
    cases use with
    | take =>
      have hacq := Semaphore.acquire_some (M.take h hu)
      omega
    | add n =>
      rw [panics_iff hu] at hp
      rw [hu] at hbal
      simp only [Option.elim_some, Use.taken, Use.added] at hbal
      omega

/-- **Exactly the runs without a panic**: up to each step, no more was granted than was taken
and fits beside it. -/
theorem fits_iff (h : Run Step s tr u) (hs : (M.sem s).permits ≤ M.limit) :
    (∀ x ∈ tr, ¬M.Panics x.pre x.act) ↔
      ∀ past, past <+: tr → (M.sem s).permits + M.added past ≤ M.limit + M.taken past := by
  induction h with
  | nil =>
    refine ⟨fun _ past hpast => ?_, fun _ x hx => by cases hx⟩
    rw [List.prefix_nil.mp hpast]
    exact hs
  | @cons s t u a tr st _ ih =>
    constructor
    · intro hp past hpast
      have hhead := hp _ List.mem_cons_self
      have hbal := balance_step st hhead
      rcases List.prefix_cons_iff.mp hpast with rfl | ⟨later, rfl, hlater⟩
      · exact hs
      · have hrest := (ih (permits_le_step st hs hhead)).mp
          (fun x hx => hp x (List.mem_cons_of_mem _ hx)) later hlater
        rw [added_cons, taken_cons]
        omega
    · intro hfits
      have hhead : ¬M.Panics s a := by
        rintro ⟨n, hu, hno⟩
        have hlt := (panics_iff hu).mp ⟨n, hu, hno⟩
        have hone := hfits [⟨s, a, t⟩] (List.prefix_append [_] tr)
        simp only [added, taken, List.map_cons, List.map_nil, List.sum_cons, List.sum_nil, hu,
          Option.elim_some, Use.added, Use.taken] at hone
        omega
      have hbal := balance_step st hhead
      rw [List.forall_mem_cons]
      refine ⟨hhead, (ih (permits_le_step st hs hhead)).mpr fun past hpast => ?_⟩
      have hmore := hfits (⟨s, a, t⟩ :: past) (List.prefix_cons_iff.mpr (.inr ⟨past, rfl, hpast⟩))
      rw [added_cons, taken_cons] at hmore
      omega

theorem taken_eq_zero (h : ∀ x ∈ tr, M.use x.pre x.act ≠ some .take) : M.taken tr = 0 := by
  induction tr with
  | nil => rfl
  | cons x tr ih =>
    rw [List.forall_mem_cons] at h
    rw [taken_cons, ih h.2]
    cases hu : M.use x.pre x.act with
    | none => rfl
    | some use =>
      cases use with
      | take => exact absurd hu h.1
      | add n => rfl

theorem added_le_of_prefix (h : past <+: tr) : M.added past ≤ M.added tr := by
  obtain ⟨rest, rfl⟩ := h
  rw [added, added, List.map_append, List.sum_append]
  exact Nat.le_add_right ..

end Metered

/-! ## Requests for permits -/

/-- The requests wait until a step adds the permits they ask for. -/
structure Inbox (M : Metered Step) (ρ : Type) where
  /-- The request that a step receives. -/
  request : α → Option ρ
  worth : ρ → Nat
  waiting : σ → List ρ
  step : ∀ {s a t}, Step s a t →
    ((waiting t).map worth).sum + (M.use s a).elim 0 Use.added =
      ((waiting s).map worth).sum + (request a).elim 0 worth

namespace Inbox

variable {M : Metered Step} {ρ : Type} (I : Inbox M ρ) {s t u : σ} {tr tr' : List (Trans σ α)}
  {rs rs' : List ρ}

/-- What the waiting requests are worth. -/
def owed (s : σ) : Nat := ((I.waiting s).map I.worth).sum

def requests (tr : List (Trans σ α)) : List ρ := tr.filterMap fun x => I.request x.act

/-- In every run from `s` that receives these requests, no step panics. -/
def Safe (s : σ) (rs : List ρ) : Prop :=
  ∀ tr u, Run Step s tr u → I.requests tr = rs → ∀ x ∈ tr, ¬M.Panics x.pre x.act

theorem worth_cons {a : α} : ((I.requests (⟨s, a, t⟩ :: tr)).map I.worth).sum =
    (I.request a).elim 0 I.worth + ((I.requests tr).map I.worth).sum := by
  cases h : I.request a <;> simp [requests, h]

theorem owed_add_added (h : Run Step s tr u) :
    I.owed u + M.added tr = I.owed s + ((I.requests tr).map I.worth).sum := by
  induction h with
  | nil => rfl
  | @cons s t u a tr st _ ih =>
    have hstep : I.owed t + _ = I.owed s + _ := I.step st
    rw [Metered.added_cons, worth_cons]
    omega

/-- Requests worth no more than the limit cannot make a step panic. -/
theorem safe_of_worth_le (hsem : (M.sem s).permits = 0) (hidle : I.waiting s = [])
    (hle : (rs.map I.worth).sum ≤ M.limit) : I.Safe s rs := by
  intro tr u h htr
  rw [Metered.fits_iff h (by omega)]
  intro past hpast
  have hsum := I.owed_add_added h
  have howed : I.owed s = 0 := by rw [owed, hidle]; rfl
  have hpart : M.added past ≤ M.added tr := Metered.added_le_of_prefix hpast
  rw [htr] at hsum
  omega

/-! ## Floods -/

/-- A run that receives the requests `rs` and takes nothing. -/
structure Untaken (s : σ) (tr : List (Trans σ α)) (u : σ) (rs : List ρ) : Prop where
  run : Run Step s tr u
  requests : I.requests tr = rs
  taken : M.taken tr = 0

variable {I}

theorem Untaken.nil (s : σ) : I.Untaken s [] s [] := ⟨.nil s, rfl, rfl⟩

theorem Untaken.append (h : I.Untaken s tr t rs) (h' : I.Untaken t tr' u rs') :
    I.Untaken s (tr ++ tr') u (rs ++ rs') where
  run := h.run.append h'.run
  requests := by rw [Inbox.requests, List.filterMap_append, ← h.requests, ← h'.requests]; rfl
  taken := by
    have hsum : M.taken (tr ++ tr') = M.taken tr + M.taken tr' := by simp [Metered.taken]
    rw [hsum, h.taken, h'.taken]

theorem Untaken.single {a : α} (h : Step s a t) (hu : M.use s a ≠ some .take) :
    I.Untaken s [⟨s, a, t⟩] t (I.request a).toList where
  run := .cons h (.nil t)
  requests := by cases ha : I.request a <;> simp [Inbox.requests, ha]
  taken := Metered.taken_eq_zero (by simpa using hu)

/-- Any request can arrive at any time, and the first one waiting can be served. -/
structure Open (I : Inbox M ρ) : Prop where
  arrive : ∀ s r, ∃ a t, Step s a t ∧ M.use s a ≠ some .take ∧ I.request a = some r ∧
    I.waiting t = I.waiting s ++ [r]
  serve : ∀ s r rs, I.waiting s = r :: rs → ∃ a t, Step s a t ∧ M.use s a ≠ some .take ∧
    I.request a = none ∧ I.waiting t = rs

theorem Open.exists_arrivals (hI : I.Open) (rs : List ρ) (s : σ) : ∃ tr t, I.Untaken s tr t rs ∧
    I.waiting t = I.waiting s ++ rs := by
  induction rs generalizing s with
  | nil => exact ⟨[], s, .nil s, (List.append_nil _).symm⟩
  | cons r rs ih =>
    obtain ⟨a, v, hstep, hu, hr, hnext⟩ := hI.arrive s r
    obtain ⟨tr, t, hrun, hwaiting⟩ := ih v
    have hone := Untaken.single (I := I) hstep hu
    rw [hr] at hone
    refine ⟨_, t, hone.append hrun, ?_⟩
    rw [hwaiting, hnext, List.append_assoc, List.singleton_append]

theorem Open.exists_served (hI : I.Open) (hs : I.waiting s = rs) :
    ∃ tr u, I.Untaken s tr u [] ∧ I.waiting u = [] := by
  induction rs generalizing s with
  | nil => exact ⟨[], s, .nil s, hs⟩
  | cons r rs ih =>
    obtain ⟨a, v, hstep, hu, hr, hnext⟩ := hI.serve s r rs hs
    obtain ⟨tr, u, hrun, hempty⟩ := ih hnext
    have hone := Untaken.single (I := I) hstep hu
    rw [hr] at hone
    exact ⟨_, u, hone.append hrun, hempty⟩

/-- All requests may arrive before any is served. -/
theorem Open.exists_flood (hI : I.Open) (s : σ) (rs : List ρ) :
    ∃ tr u, I.Untaken s tr u rs ∧ I.waiting u = [] := by
  obtain ⟨tr, t, harrived, -⟩ := hI.exists_arrivals rs s
  obtain ⟨tr', u, hserved, hempty⟩ := hI.exists_served (s := t) rfl
  have hrun := harrived.append hserved
  rw [List.append_nil] at hrun
  exact ⟨tr ++ tr', u, hrun, hempty⟩

theorem worth_le_of_flood (hsem : (M.sem s).permits = 0) (hidle : I.waiting s = [])
    (hflood : I.Untaken s tr u rs) (hserved : I.waiting u = []) (hsafe : I.Safe s rs) :
    (rs.map I.worth).sum ≤ M.limit := by
  have hsum := I.owed_add_added hflood.run
  have hall := (Metered.fits_iff hflood.run (by omega)).mp
    (hsafe tr u hflood.run hflood.requests) tr (List.prefix_refl tr)
  have hzero : I.owed s = 0 ∧ I.owed u = 0 := by
    rw [owed, owed, hidle, hserved]
    exact ⟨rfl, rfl⟩
  rw [hflood.requests] at hsum
  have := hflood.taken
  omega

/-- **Exactly the safe requests.** -/
theorem Open.safe_iff (hI : I.Open) (hsem : (M.sem s).permits = 0) (hidle : I.waiting s = []) :
    I.Safe s rs ↔ (rs.map I.worth).sum ≤ M.limit := by
  obtain ⟨tr, u, hrun, hserved⟩ := hI.exists_flood s rs
  exact ⟨worth_le_of_flood hsem hidle hrun hserved, I.safe_of_worth_le hsem hidle⟩

end Inbox

end NdnMobile.Lib
