import Mathlib.Algebra.GroupWithZero.Nat
import NdnMobile.Lib.Threads

/-!
# Critical sections nested in lock order

Threads whose calls are made of sections: a section takes its mutex, if it has one, does one
thing to the shared state, and what it finds there decides which sections follow, within it or
once it has given mutexes back (`Code`). A `Discipline` says which mutexes a section is entered
with, takes mutexes in the order of a rank only, and counts the steps a call has left. Under it
a mutex has the owner its holder thinks (`Orderly`), no thread waits for ever (`exists_own`)
and calls come to their ends (`drains`). What a thread knows under its mutexes, and what a
mutex guards while nobody has it, stays true (`Outline`); what the calls bring is with the
shared state, in a thread's hands or spent (`Ledger`); what is done under one mutex is done call
by call (`Serial`); and a call that nothing runs beside is its sections one after the other
(`solo_exec`).
-/

namespace NdnMobile.Lib

/-- Where a thread is. -/
inductive Point (S L : Type) where
  | idle
  | wait (s : S)
  | inside (s : S)
  | out (l : L) (next : Point S L)
  deriving DecidableEq, Repr

namespace Point

variable {S L : Type}

/-- Mutexes are given back one after the other, and the call returns. -/
def leave (ls : List L) : Point S L := ls.foldr .out .idle

/-- The section a thread is in or comes to. -/
def ahead : Point S L → Option S
  | .idle => none
  | .wait s | .inside s => some s
  | .out _ next => next.ahead

/-- What it has in its hands, where `hand` says what it takes to a section. -/
def carries (hand : S → Nat) (q : Point S L) : Nat := q.ahead.elim 0 hand

/-- What is left to do from there, where `due` says what is from a section on. -/
def rest {E : Type} (due : S → List E) (q : Point S L) : List E := q.ahead.elim [] due

end Point

/-- `lock`: the mutex of a section. -/
structure Code (σ S L C : Type) where
  lock : S → Option L
  run : S → σ → σ × Point S L
  enter : C → Point S L

structure Pool (σ S L T : Type) where
  shared : σ
  owner : L → Option T
  point : T → Point S L

inductive PoolAct (C T : Type) where
  | call (t : T) (c : C)
  | step (t : T)
  deriving DecidableEq, Repr

/-- The thread of a step. -/
def PoolAct.thread {C T : Type} : PoolAct C T → T
  | .call t _ | .step t => t

/-- What a step brings, where `brings` says what the calls do. -/
def PoolAct.brought {C T : Type} (brings : C → Nat) : PoolAct C T → Nat
  | .call _ c => brings c
  | .step _ => 0

variable {σ S L C T : Type}

namespace Pool

def new (x : σ) : Pool σ S L T := ⟨x, fun _ => none, fun _ => .idle⟩

/-- No call is under way. -/
def Idle (p : Pool σ S L T) : Prop := ∀ t, p.point t = .idle

/-- What the owner of a mutex has left to do under it. -/
def rest {E : Type} (p : Pool σ S L T) (l : L) (due : S → List E) : List E :=
  (p.owner l).elim [] fun t => (p.point t).rest due

/-- A thread is in the section, or comes to it. -/
def Ahead (p : Pool σ S L T) (s : S) : Prop := ∃ t, s ∈ (p.point t).ahead

/-- Another thread than the owner moves. -/
theorem rest_of_moves {E : Type} {due : S → List E} {p u : Pool σ S L T} {l : L} {t : T}
    (howner : u.owner l = p.owner l) (hne : p.owner l ≠ some t) (hm : Moves point t p u) :
    u.rest l due = p.rest l due := by
  rw [rest, rest, howner]
  cases ho : p.owner l with
  | none => rfl
  | some t' => exact congrArg (Point.rest due) (hm t' fun he => hne (he ▸ ho))

variable [DecidableEq T]

def goto (p : Pool σ S L T) (t : T) (q : Point S L) : Pool σ S L T :=
  { p with point := Function.update p.point t q }

variable {p : Pool σ S L T} {t t' : T} {q : Point S L}

@[simp] theorem goto_point_self : (p.goto t q).point t = q := Function.update_self ..

theorem goto_point_ne (h : t' ≠ t) : (p.goto t q).point t' = p.point t' :=
  Function.update_of_ne h ..

theorem rest_goto {E : Type} {due : S → List E} (h : q.rest due = (p.point t).rest due) (l : L) :
    (p.goto t q).rest l due = p.rest l due := by
  change (p.owner l).elim [] _ = (p.owner l).elim [] _
  cases p.owner l with
  | none => rfl
  | some t' =>
    by_cases ht : t' = t
    · subst ht
      exact (congrArg (Point.rest due) goto_point_self).trans h
    · exact congrArg (Point.rest due) (goto_point_ne ht)

theorem Ahead.goto {s : S} (h : p.Ahead s) (hq : s ∈ (p.point t).ahead → s ∈ q.ahead) :
    (p.goto t q).Ahead s := by
  obtain ⟨t', ht'⟩ := h
  by_cases ht : t' = t
  · subst ht
    exact ⟨t', by rw [goto_point_self]; exact hq ht'⟩
  · exact ⟨t', by rw [goto_point_ne ht]; exact ht'⟩

end Pool

theorem Pool.Idle.not_ahead {p : Pool σ S L T} (h : p.Idle) (s : S) : ¬ p.Ahead s := by
  rintro ⟨t, hs⟩
  rw [h t] at hs
  cases hs

/-- The section that a step does. -/
def worked (p : Pool σ S L T) : PoolAct C T → Option S
  | .call _ _ => none
  | .step t =>
    match p.point t with
    | .inside s => some s
    | _ => none

/-- The sections that a run did, in order. -/
def works (tr : List (Trans (Pool σ S L T) (PoolAct C T))) : List S :=
  tr.filterMap fun x => worked x.pre x.act

theorem works_snoc {past : List (Trans (Pool σ S L T) (PoolAct C T))} {p u : Pool σ S L T}
    {a : PoolAct C T} : works (past ++ [⟨p, a, u⟩]) = works past ++ (worked p a).toList := by
  rw [works, works, List.filterMap_append, List.filterMap_cons]
  cases worked p a <;> rfl

theorem ahead_of_worked {p : Pool σ S L T} {a : PoolAct C T} {s : S} (h : worked p a = some s) :
    p.Ahead s := by
  cases a with
  | call t c => cases h
  | step t =>
    simp only [worked] at h
    split at h
    · rename_i hp
      exact ⟨t, by rw [hp]; exact h⟩
    · cases h

section

variable [DecidableEq L]

def Pool.own (p : Pool σ S L T) (l : L) (o : Option T) : Pool σ S L T :=
  { p with owner := Function.update p.owner l o }

theorem Pool.rest_own {E : Type} {p : Pool σ S L T} {l l' : L} {o : Option T} {due : S → List E}
    (h : l ≠ l') : (p.own l' o).rest l due = p.rest l due := by
  rw [Pool.rest, Pool.rest, Pool.own]
  dsimp only
  rw [Function.update_of_ne h]

variable [DecidableEq T]

namespace Code

variable (k : Code σ S L C)

def take (p : Pool σ S L T) (t : T) (s : S) : Option (Pool σ S L T) :=
  match k.lock s with
  | none => some (p.goto t (.inside s))
  | some l => if p.owner l = none then some ((p.own l (some t)).goto t (.inside s)) else none

def step (p : Pool σ S L T) : PoolAct C T → Option (Pool σ S L T)
  | .call t c =>
    match p.point t with
    | .idle => some (p.goto t (k.enter c))
    | _ => none
  | .step t =>
    match p.point t with
    | .idle => none
    | .wait s => k.take p t s
    | .inside s => some { p.goto t (k.run s p.shared).2 with shared := (k.run s p.shared).1 }
    | .out l next => some ((p.own l none).goto t next)

/-- A step of a call under way. -/
def Own (p : Pool σ S L T) (t : T) (u : Pool σ S L T) : Prop := k.step p (.step t) = some u

inductive Move (p : Pool σ S L T) : PoolAct C T → Pool σ S L T → Prop where
  | call {t : T} {c : C} : p.point t = .idle → Move p (.call t c) (p.goto t (k.enter c))
  | pass {t : T} {s : S} : p.point t = .wait s → k.lock s = none →
    Move p (.step t) (p.goto t (.inside s))
  | take {t : T} {s : S} {l : L} : p.point t = .wait s → k.lock s = some l → p.owner l = none →
    Move p (.step t) ((p.own l (some t)).goto t (.inside s))
  | work {t : T} {s : S} : p.point t = .inside s →
    Move p (.step t) { p.goto t (k.run s p.shared).2 with shared := (k.run s p.shared).1 }
  | give {t : T} {l : L} {next : Point S L} : p.point t = .out l next →
    Move p (.step t) ((p.own l none).goto t next)

variable {k} {p u : Pool σ S L T} {a : PoolAct C T} {t t' : T} {q : Point S L} {l : L}

theorem step_move (h : k.step p a = some u) : Move k p a u := by
  cases a with
  | call t c =>
    simp only [step] at h
    split at h <;> cases h
    exact .call ‹_›
  | step t =>
    simp only [step] at h
    split at h
    · cases h
    · rename_i s hp
      simp only [Code.take] at h
      split at h
      · cases h
        exact .pass hp ‹_›
      · split at h <;> cases h
        exact .take hp ‹_› ‹_›
    · cases h
      exact .work ‹_›
    · cases h
      exact .give ‹_›

theorem Move.moves (h : Move k p a u) : Moves Pool.point a.thread p u := by
  cases h <;> exact fun t' ht => Pool.goto_point_ne ht

/-- What a step does to the sections that threads come to. -/
structure Turn (k : Code σ S L C) (p : Pool σ S L T) (a : PoolAct C T) (u : Pool σ S L T) :
    Prop where
  same : worked p a = none → u.shared = p.shared
  run : ∀ s, worked p a = some s → u.shared = (k.run s p.shared).1 ∧
    ∀ s' ∈ (k.run s p.shared).2.ahead, u.Ahead s'
  ahead : ∀ s, p.Ahead s → u.Ahead s ∨ worked p a = some s

theorem Move.turn (h : Move k p a u) : Turn k p a u := by
  cases h with
  | @call t c hp =>
    have hnone : worked p (.call t c) = none := rfl
    refine ⟨fun _ => rfl, fun s hs => ?_, fun s hs => .inl (hs.goto fun ht => ?_)⟩
    · rw [hnone] at hs
      cases hs
    · rw [hp] at ht
      cases ht
  | @pass t s hp _ | @take t s _ hp _ _ | @give t _ s hp =>
    have hnone : worked p (.step t : PoolAct C T) = none := by simp only [worked, hp]
    refine ⟨fun _ => rfl, fun s' hs => ?_, fun s' hs => .inl (Pool.Ahead.goto hs fun ht => ?_)⟩
    · rw [hnone] at hs
      cases hs
    · change s' ∈ (p.point t).ahead at ht
      rw [hp] at ht
      exact ht
  | @work t s hp =>
    have hsome : worked p (.step t : PoolAct C T) = some s := by simp only [worked, hp]
    refine ⟨fun hs => ?_, fun s' hs => ?_, fun s' hs => ?_⟩
    · rw [hsome] at hs
      cases hs
    · obtain rfl := Option.some.inj (hsome.symm.trans hs)
      refine ⟨rfl, fun s' hs' => ⟨t, ?_⟩⟩
      rw [Pool.goto_point_self]
      exact hs'
    · by_cases he : s' = s
      · exact .inr (he ▸ hsome)
      · refine .inl (hs.goto fun ht => absurd ?_ he)
        rw [hp] at ht
        exact (Option.some.inj ht).symm

end Code

end

/-! ## Disciplines -/

/-- The steps that are left, where `cost` says how many a section and what follows take. -/
def Point.left (cost : S → Nat) : Point S L → Nat
  | .idle => 0
  | .wait s => cost s + 1
  | .inside s => cost s
  | .out _ next => next.left cost + 1

/-- The mutexes held, the last taken first, where `held` says which a section is entered with. -/
def Code.holds (k : Code σ S L C) (held : S → List L) : Point S L → List L
  | .idle => []
  | .wait s => held s
  | .inside s => (k.lock s).toList ++ held s
  | .out l next => l :: k.holds held next

/-- What is known at a point: `A` of the section ahead, `J` of a mutex taken or given back. -/
def Code.Knows (k : Code σ S L C) (A : S → σ → Prop) (J : L → σ → Prop) : Point S L → σ → Prop
  | .idle, _ => True
  | .wait s, x => A s x
  | .inside s, x => A s x ∧ ∀ l ∈ k.lock s, J l x
  | .out l next, x => J l x ∧ k.Knows A J next x

structure Discipline (k : Code σ S L C) where
  rank : L → Nat
  height : Nat
  rank_lt : ∀ l, rank l < height
  held : S → List L
  cost : S → Nat
  /-- A mutex is taken by who holds lower ones only. -/
  ordered : ∀ s, ((k.lock s).toList ++ held s).Pairwise fun a b => rank b < rank a
  enter_holds : ∀ c, k.holds held (k.enter c) = []
  run_holds : ∀ s x, k.holds held (k.run s x).2 = k.holds held (.inside s)
  run_left : ∀ s x, (k.run s x).2.left cost < cost s

namespace Discipline

variable {k : Code σ S L C} (d : Discipline k)

abbrev holds : Point S L → List L := k.holds d.held

/-- **Invariant**: the owner of a mutex is the thread that holds it. -/
structure Orderly (p : Pool σ S L T) : Prop where
  owner : ∀ l t, p.owner l = some t ↔ l ∈ d.holds (p.point t)
  ranked : ∀ t, (d.holds (p.point t)).Pairwise fun a b => d.rank b < d.rank a

variable {d} {p u : Pool σ S L T} {a : PoolAct C T} {t t' : T} {s : S} {l : L} {q : Point S L}

theorem orderly_new (x : σ) : d.Orderly (Pool.new x : Pool σ S L T) :=
  ⟨fun _ _ => iff_of_false nofun List.not_mem_nil, fun _ => .nil⟩

theorem holds_inside (s : S) :
    d.holds (.inside s : Point S L) = (k.lock s).toList ++ d.holds (.wait s) := rfl

/-- Two threads do not hold one mutex. -/
theorem Orderly.exclusive (h : d.Orderly p) (ht : l ∈ d.holds (p.point t))
    (ht' : l ∈ d.holds (p.point t')) : t' = t := by
  rw [← h.owner] at ht ht'
  exact Option.some.inj (ht'.symm.trans ht)

theorem Orderly.free (h : d.Orderly p) (hidle : p.Idle) (l : L) : p.owner l = none := by
  cases ho : p.owner l with
  | none => rfl
  | some t =>
    have hmem := (h.owner l t).mp ho
    rw [hidle t] at hmem
    exact absurd hmem List.not_mem_nil

/-- A thread holds what the section it comes to is entered with. -/
theorem held_subset (hs : s ∈ q.ahead) : d.held s ⊆ d.holds q := by
  induction q with
  | idle => cases hs
  | wait s' =>
    obtain rfl := Option.mem_some.mp hs
    exact List.Subset.refl _
  | inside s' =>
    obtain rfl := Option.mem_some.mp hs
    exact List.subset_append_right ..
  | out l q ih => exact List.subset_cons_of_subset l (ih hs)

/-! ## What a thread knows, and what it has -/

variable {A : S → σ → Prop} {J : L → σ → Prop} {x : σ}

theorem knows_ahead (h : k.Knows A J q x) (hs : s ∈ q.ahead) : A s x := by
  induction q with
  | idle => cases hs
  | wait s' =>
    obtain rfl := Option.mem_some.mp hs
    exact h
  | inside s' =>
    obtain rfl := Option.mem_some.mp hs
    exact h.1
  | out l q ih => exact ih h.2 hs

/-- Where the mutexes guard nothing. -/
theorem knows_of_ahead (hJ : ∀ l, J l x) (h : ∀ s ∈ q.ahead, A s x) : k.Knows A J q x := by
  induction q with
  | idle => trivial
  | wait s => exact h s rfl
  | inside s => exact ⟨h s rfl, fun l _ => hJ l⟩
  | out l q ih => exact ⟨hJ l, ih h⟩

/-- **Invariant**: each thread knows what it should at its point, and a mutex that nobody owns
guards what it should. -/
structure Known (k : Code σ S L C) (A : S → σ → Prop) (J : L → σ → Prop) (p : Pool σ S L T) :
    Prop where
  point : ∀ t, k.Knows A J (p.point t) p.shared
  free : ∀ l, p.owner l = none → J l p.shared

theorem known_new (hJ : ∀ l, J l x) : Known k A J (Pool.new x : Pool σ S L T) :=
  ⟨fun _ => trivial, fun l _ => hJ l⟩

/-- No section changes what is known to those that hold none of its mutexes. -/
structure Outline (d : Discipline k) (A : S → σ → Prop) (J : L → σ → Prop) : Prop where
  enter : ∀ c x, k.Knows A J (k.enter c) x
  run : ∀ s x, k.Knows A J (.inside s) x → k.Knows A J (k.run s x).2 (k.run s x).1
  stable : ∀ s x s', A s' x → (∀ l ∈ d.holds (.inside s : Point S L), l ∉ d.held s') →
    A s' (k.run s x).1
  guarded : ∀ s x l, J l x → l ∉ d.holds (.inside s : Point S L) → J l (k.run s x).1

theorem Outline.knows (hA : d.Outline A J) (h : k.Knows A J q x)
    (hdisjoint : ∀ l ∈ d.holds (.inside s : Point S L), l ∉ d.holds q) :
    k.Knows A J q (k.run s x).1 := by
  induction q with
  | idle => trivial
  | wait s' => exact hA.stable s x s' h hdisjoint
  | inside s' =>
    refine ⟨hA.stable s x s' h.1 fun l hl hl' => hdisjoint l hl (List.mem_append_right _ hl'),
      fun l hl => hA.guarded s x l (h.2 l hl) fun hmem => hdisjoint l hmem ?_⟩
    exact List.mem_append_left _ (Option.mem_toList.mpr hl)
  | out l q ih =>
    refine ⟨hA.guarded s x l h.1 fun hmem => hdisjoint l hmem List.mem_cons_self,
      ih h.2 fun l' hl' hmem => hdisjoint l' hl' (List.mem_cons_of_mem l hmem)⟩

/-- What the calls bring is added to what the shared state has, in a thread's hands, or spent. -/
structure Ledger (k : Code σ S L C) (A : S → σ → Prop) (J : L → σ → Prop) (has : σ → Nat)
    (hand spent : S → Nat) (brings : C → Nat) : Prop where
  enter : ∀ c, (k.enter c).carries hand = brings c
  run : ∀ s x, k.Knows A J (.inside s) x →
    has (k.run s x).1 + (k.run s x).2.carries hand + spent s = has x + hand s

/-- What is done under one mutex: `opens` is what the section that takes it has to do, `due` what
is left of it from a section on, and `emits` what a section does. -/
structure Serial {E : Type} (d : Discipline k) (A : S → σ → Prop) (J : L → σ → Prop) (l : L)
    (opens due emits : S → List E) : Prop where
  due_held : ∀ s, l ∉ d.held s → due s = []
  opens_lock : ∀ s, k.lock s ≠ some l → opens s = []
  emits_held : ∀ s, l ∉ d.holds (.inside s : Point S L) → emits s = []
  run : ∀ s x, k.Knows A J (.inside s) x →
    emits s ++ (k.run s x).2.rest due = opens s ++ due s

variable {E : Type} {opens due emits : S → List E}

theorem Serial.due_of_lock (hs : d.Serial A J l opens due emits) (hl : k.lock s = some l) :
    due s = [] := by
  apply hs.due_held s
  intro hmem
  have hordered := d.ordered s
  rw [hl, Option.toList_some, List.singleton_append, List.pairwise_cons] at hordered
  exact Nat.lt_irrefl _ (hordered.1 l hmem)

theorem Serial.rest_eq_nil (hs : d.Serial A J l opens due emits) (h : l ∉ d.holds q) :
    q.rest due = [] := by
  cases hq : q.ahead with
  | none => rw [Point.rest, hq]; rfl
  | some s =>
    rw [Point.rest, hq]
    exact hs.due_held s fun hmem => h (held_subset hq hmem)

variable [DecidableEq T]

theorem knows_goto (hother : ∀ t' ≠ t, k.Knows A J (p.point t') x) (hself : k.Knows A J q x)
    (t' : T) : k.Knows A J ((p.goto t q).point t') x := by
  by_cases ht : t' = t
  · rw [ht, Pool.goto_point_self]
    exact hself
  · rw [Pool.goto_point_ne ht]
    exact hother t' ht

/-! ## Steps -/

/-- A thread goes on, and what it owns is what it holds then. -/
theorem Orderly.update {o : L → Option T} (h : d.Orderly p)
    (hranked : (d.holds q).Pairwise fun a b => d.rank b < d.rank a)
    (hself : ∀ l, o l = some t ↔ l ∈ d.holds q)
    (hother : ∀ l t', t' ≠ t → (o l = some t' ↔ p.owner l = some t')) :
    d.Orderly ({ p with owner := o }.goto t q) := by
  refine ⟨fun l t' => ?_, fun t' => ?_⟩
  · by_cases ht : t' = t
    · subst ht
      rw [Pool.goto_point_self]
      exact hself l
    · rw [Pool.goto_point_ne ht]
      exact (hother l t' ht).trans (h.owner l t')
  · by_cases ht : t' = t
    · subst ht
      rw [Pool.goto_point_self]
      exact hranked
    · rw [Pool.goto_point_ne ht]
      exact h.ranked t'

/-- It goes on with the same mutexes. -/
theorem Orderly.goto (h : d.Orderly p) (hq : d.holds q = d.holds (p.point t)) :
    d.Orderly (p.goto t q) :=
  h.update (o := p.owner) (hq ▸ h.ranked t) (fun l => hq ▸ h.owner l t) fun _ _ _ => Iff.rfl

variable [DecidableEq L]

theorem Orderly.take (h : d.Orderly p) (hp : p.point t = .wait s) (hl : k.lock s = some l)
    (hfree : p.owner l = none) : d.Orderly ((p.own l (some t)).goto t (.inside s)) := by
  have hin : d.holds (.inside s : Point S L) = l :: d.holds (p.point t) := by
    rw [holds_inside, hl, hp]
    rfl
  refine h.update (d.ordered s) (fun l' => ?_) fun l' t' ht => ?_
  · rw [hin, List.mem_cons, ← h.owner]
    by_cases he : l' = l
    · simp [he]
    · simp [he]
  · by_cases he : l' = l
    · subst he
      rw [Function.update_self, hfree]
      exact iff_of_false (fun hs => ht (Option.some.inj hs).symm) nofun
    · rw [Function.update_of_ne he]

theorem Orderly.give (h : d.Orderly p) (hp : p.point t = .out l q) :
    d.Orderly ((p.own l none).goto t q) := by
  have hholds : d.holds (p.point t) = l :: d.holds q := by rw [hp]; rfl
  have howner : p.owner l = some t := (h.owner l t).mpr (by rw [hholds]; exact List.mem_cons_self)
  have hranked := h.ranked t
  rw [hholds, List.pairwise_cons] at hranked
  refine h.update hranked.2 (fun l' => ?_) fun l' t' ht => ?_
  · by_cases he : l' = l
    · subst he
      rw [Function.update_self]
      exact iff_of_false nofun fun hmem => Nat.lt_irrefl _ (hranked.1 l' hmem)
    · rw [Function.update_of_ne he, h.owner, hholds, List.mem_cons]
      exact or_iff_right he
  · by_cases he : l' = l
    · subst he
      rw [Function.update_self, howner]
      exact iff_of_false nofun fun hs => ht (Option.some.inj hs).symm
    · rw [Function.update_of_ne he]

theorem Orderly.step (h : d.Orderly p) (hm : Code.Move k p a u) : d.Orderly u := by
  cases hm with
  | call hp => exact h.goto (by rw [hp]; exact d.enter_holds _)
  | pass hp hl =>
    apply h.goto
    rw [hp, holds_inside, hl]
    rfl
  | take hp hl hfree => exact h.take hp hl hfree
  | work hp =>
    have hsame := h.goto (t := _) (q := (k.run _ p.shared).2) (by rw [hp]; exact d.run_holds _ _)
    exact ⟨hsame.owner, hsame.ranked⟩
  | give hp => exact h.give hp

/-! ## Progress -/

/-- A thread that neither waits nor is idle goes on. -/
theorem own_of_busy (hidle : p.point t ≠ .idle) (hwait : ∀ s, p.point t ≠ .wait s) :
    ∃ u, k.Own p t u := by
  cases hp : p.point t with
  | idle => exact absurd hp hidle
  | wait s => exact absurd hp (hwait s)
  | inside s => exact ⟨_, by simp only [Code.Own, Code.step, hp]; rfl⟩
  | out l next => exact ⟨_, by simp only [Code.Own, Code.step, hp]; rfl⟩

theorem own_of_free (hp : p.point t = .wait s) (hfree : ∀ l, k.lock s = some l → p.owner l = none) :
    ∃ u, k.Own p t u := by
  cases hl : k.lock s with
  | none => exact ⟨_, by simp only [Code.Own, Code.step, hp, Code.take, hl]; rfl⟩
  | some l =>
    exact ⟨_, by simp only [Code.Own, Code.step, hp, Code.take, hl, if_pos (hfree l hl)]; rfl⟩

/-- Where a mutex is held, a thread goes on: its owner waits, if at all, for a higher one. -/
theorem Orderly.exists_own_of_held (h : d.Orderly p) (hl : p.owner l = some t) :
    ∃ t' u, k.Own p t' u := by
  induction hn : d.height - d.rank l using Nat.strongRecOn generalizing l t with
  | ind n ih =>
    have hmem := (h.owner l t).mp hl
    by_cases hwait : ∃ s, p.point t = .wait s
    · obtain ⟨s, hp⟩ := hwait
      by_cases hfree : ∀ l', k.lock s = some l' → p.owner l' = none
      · obtain ⟨u, hu⟩ := own_of_free hp hfree
        exact ⟨t, u, hu⟩
      · simp only [not_forall] at hfree
        obtain ⟨l', hl', howned⟩ := hfree
        obtain ⟨t', ht'⟩ := Option.ne_none_iff_exists'.mp howned
        have hlt : d.rank l < d.rank l' := by
          have hordered := d.ordered s
          rw [hl', Option.toList_some, List.singleton_append, List.pairwise_cons] at hordered
          exact hordered.1 l (by rw [hp] at hmem; exact hmem)
        have hheight := d.rank_lt l'
        exact ih (d.height - d.rank l') (by omega) ht' rfl
    · have hidle : p.point t ≠ .idle := fun hp => by
        rw [hp] at hmem
        exact List.not_mem_nil hmem
      obtain ⟨u, hu⟩ := own_of_busy hidle fun s hs => hwait ⟨s, hs⟩
      exact ⟨t, u, hu⟩

/-- **No deadlock**: while a call is under way, a thread can go on. -/
theorem Orderly.exists_own (h : d.Orderly p) (hidle : p.point t ≠ .idle) :
    ∃ t' u, k.Own p t' u := by
  by_cases hwait : ∃ s, p.point t = .wait s
  · obtain ⟨s, hp⟩ := hwait
    by_cases hfree : ∀ l, k.lock s = some l → p.owner l = none
    · obtain ⟨u, hu⟩ := own_of_free hp hfree
      exact ⟨t, u, hu⟩
    · simp only [not_forall] at hfree
      obtain ⟨l, -, howned⟩ := hfree
      obtain ⟨t', ht'⟩ := Option.ne_none_iff_exists'.mp howned
      exact h.exists_own_of_held ht'
  · obtain ⟨u, hu⟩ := own_of_busy hidle fun s hs => hwait ⟨s, hs⟩
    exact ⟨t, u, hu⟩

theorem own_left (d : Discipline k) (h : k.Own p t u) :
    Moves Pool.point t p u ∧ (u.point t).left d.cost < (p.point t).left d.cost := by
  have hm := Code.step_move h
  refine ⟨hm.moves, ?_⟩
  cases hm with
  | pass hp | take hp | give hp =>
    rw [Pool.goto_point_self, hp]
    exact Nat.lt_succ_self _
  | work hp =>
    rw [hp]
    dsimp only
    rw [Pool.goto_point_self]
    exact d.run_left _ _

/-- **Calls come to their ends**, within what they have left. -/
theorem drains (d : Discipline k) (ids : Finset T) :
    DrainsOn (Within Pool.point .idle ids) k.Own fun p => ∑ t ∈ ids, (p.point t).left d.cost := by
  have hidle : (Point.idle : Point S L).left d.cost = 0 := rfl
  exact drainsOn_threads (fun t => t) hidle d.own_left ids

/-- Where no step of a call is left, no call is under way, and no mutex owned. -/
theorem Orderly.idle (h : d.Orderly p) (hstuck : Stuck k.Own p) : p.Idle := by
  intro t
  by_contra hidle
  obtain ⟨t', u, hu⟩ := h.exists_own hidle
  exact hstuck t' u hu

theorem Outline.step (hA : d.Outline A J) (ho : d.Orderly p) (h : Known k A J p)
    (hm : Code.Move k p a u) : Known k A J u := by
  cases hm with
  | call hp => exact ⟨knows_goto (fun t' _ => h.point t') (hA.enter _ _), h.free⟩
  | @pass t s hp hl =>
    have hself := h.point t
    rw [hp] at hself
    refine ⟨knows_goto (fun t' _ => h.point t') ⟨hself, fun l hl' => ?_⟩, h.free⟩
    rw [hl] at hl'
    cases hl'
  | @take t s l hp hl hfree =>
    have hself := h.point t
    rw [hp] at hself
    refine ⟨knows_goto (fun t' _ => h.point t') ⟨hself, fun l' hl' => ?_⟩, fun l' hl' => ?_⟩
    · obtain rfl := Option.some.inj (hl.symm.trans hl')
      exact h.free l hfree
    · apply h.free l'
      change Function.update p.owner l (some t) l' = none at hl'
      by_cases he : l' = l
      · rw [he]
        exact hfree
      · rwa [Function.update_of_ne he] at hl'
  | @give t l q hp =>
    have hself := h.point t
    rw [hp] at hself
    refine ⟨knows_goto (fun t' _ => h.point t') hself.2, fun l' hl' => ?_⟩
    change Function.update p.owner l none l' = none at hl'
    by_cases he : l' = l
    · exact he ▸ hself.1
    · rw [Function.update_of_ne he] at hl'
      exact h.free l' hl'
  | @work t s hp =>
    have hself := h.point t
    rw [hp] at hself
    have hother : ∀ t' ≠ t, k.Knows A J (p.point t') (k.run s p.shared).1 := fun t' ht =>
      hA.knows (h.point t') fun l hl hl' => ht (ho.exclusive (by rw [hp]; exact hl) hl')
    refine ⟨knows_goto hother (hA.run _ _ hself),
      fun l hl => hA.guarded _ _ l (h.free l hl) fun hmem => ?_⟩
    have howner := (ho.owner l t).mpr (by rw [hp]; exact hmem)
    exact nomatch howner.symm.trans hl

variable {has : σ → Nat} {hand spent : S → Nat} {brings : C → Nat}

theorem Ledger.step (hl : Ledger k A J has hand spent brings) (h : Known k A J p)
    (hm : Code.Move k p a u) {ids : Finset T} (hid : a.thread ∈ ids) :
    has u.shared + ∑ t ∈ ids, (u.point t).carries hand + (worked p a).elim 0 spent =
      has p.shared + ∑ t ∈ ids, (p.point t).carries hand + a.brought brings := by
  have hsum := sum_moves (Point.carries hand) hm.moves hid
  suffices hself : has u.shared + (u.point a.thread).carries hand + (worked p a).elim 0 spent =
      has p.shared + (p.point a.thread).carries hand + a.brought brings by omega
  cases hm with
  | @call t c hp =>
    have hthread : (PoolAct.call t c).thread = t := rfl
    rw [hthread, Pool.goto_point_self, hp, hl.enter]
    rfl
  | @pass t s hp | @take t s _ hp | @give t _ s hp =>
    have hthread : (PoolAct.step t : PoolAct C T).thread = t := rfl
    have hnone : worked p (.step t : PoolAct C T) = none := by simp only [worked, hp]
    rw [hthread, hnone, Pool.goto_point_self, hp]
    rfl
  | @work t s hp =>
    have hthread : (PoolAct.step t : PoolAct C T).thread = t := rfl
    have hsome : worked p (.step t : PoolAct C T) = some s := by simp only [worked, hp]
    have hself := h.point t
    rw [hp] at hself
    rw [hthread, hsome, hp]
    dsimp only
    rw [Pool.goto_point_self]
    exact hl.run _ _ hself

/-- Taking and giving back a mutex is no part of what is done under it. -/
theorem Serial.rest_frame (hs : d.Serial A J l opens due emits) (ho : d.Orderly p)
    (hm : Code.Move k p a u) (hnone : worked p a = none) : u.rest l due = p.rest l due := by
  cases hm with
  | @call t c hp =>
    refine Pool.rest_of_moves rfl (fun howner => ?_) (Code.Move.call (c := c) hp).moves
    have hmem := (ho.owner l t).mp howner
    rw [hp] at hmem
    exact List.not_mem_nil hmem
  | @pass t s hp _ => exact Pool.rest_goto (by rw [hp]; rfl) l
  | @take t s l' hp hl hfree =>
    have hpoint : (p.own l' (some t)).point t = .wait s := hp
    by_cases he : l = l'
    · subst he
      have hpre : p.rest l due = [] := by rw [Pool.rest, hfree]; rfl
      have howner : ((p.own l (some t)).goto t (.inside s)).owner l = some t :=
        Function.update_self ..
      rw [hpre, Pool.rest, howner, Option.elim_some, Pool.goto_point_self]
      exact hs.due_of_lock hl
    · have hsame : (Point.inside s : Point S L).rest due =
          ((p.own l' (some t)).point t).rest due := by
        rw [hpoint]
        rfl
      exact (Pool.rest_goto hsame l).trans (Pool.rest_own he)
  | @give t l' q hp =>
    have hpoint : (p.own l' none).point t = .out l' q := hp
    by_cases he : l = l'
    · subst he
      have howner : p.owner l = some t := (ho.owner l t).mpr (by rw [hp]; exact List.mem_cons_self)
      have hfree : ((p.own l none).goto t q).owner l = none := Function.update_self ..
      have hranked := ho.ranked t
      rw [hp, show d.holds (.out l q) = l :: d.holds q from rfl, List.pairwise_cons] at hranked
      rw [Pool.rest, Pool.rest, hfree, howner, Option.elim_some, hp]
      exact (hs.rest_eq_nil fun hmem => Nat.lt_irrefl _ (hranked.1 l hmem)).symm
    · have hsame : q.rest due = ((p.own l' none).point t).rest due := by
        rw [hpoint]
        rfl
      exact (Pool.rest_goto hsame l).trans (Pool.rest_own he)
  | work hp =>
    simp only [worked, hp] at hnone
    cases hnone

theorem Serial.rest_work (hs : d.Serial A J l opens due emits) (ho : d.Orderly p)
    (h : Known k A J p) (hp : p.point t = .inside s) (hu : k.Own p t u) :
    emits s ++ u.rest l due = p.rest l due ++ opens s := by
  have hpoint : u.point t = (k.run s p.shared).2 ∧ u.owner = p.owner := by
    simp only [Code.Own, Code.step, hp] at hu
    cases hu
    exact ⟨Pool.goto_point_self, rfl⟩
  obtain ⟨hpoint, howners⟩ := hpoint
  by_cases hmem : l ∈ d.holds (.inside s : Point S L)
  · have howner : p.owner l = some t := (ho.owner l t).mpr (by rw [hp]; exact hmem)
    have hpre : p.rest l due = due s := by
      rw [Pool.rest, howner, Option.elim_some, hp]
      rfl
    have hknows := h.point t
    rw [hp] at hknows
    have hrun := hs.run s p.shared hknows
    rw [Pool.rest, howners, howner, Option.elim_some, hpoint, hpre, hrun]
    by_cases hl : k.lock s = some l
    · rw [hs.due_of_lock hl, List.append_nil, List.nil_append]
    · rw [hs.opens_lock s hl, List.append_nil, List.nil_append]
  · have hl : k.lock s ≠ some l := fun hl => hmem <| by
      rw [holds_inside, hl]
      exact List.mem_cons_self
    rw [hs.emits_held s hmem, hs.opens_lock s hl, List.nil_append, List.append_nil]
    refine Pool.rest_of_moves (by rw [howners]) (fun howner => hmem ?_) (Code.step_move hu).moves
    rw [← hp]
    exact (ho.owner l t).mp howner

theorem Serial.step (hs : d.Serial A J l opens due emits) (ho : d.Orderly p) (h : Known k A J p)
    (st : k.step p a = some u) :
    (worked p a).elim [] emits ++ u.rest l due = p.rest l due ++ (worked p a).elim [] opens := by
  cases hw : worked p a with
  | none =>
    rw [Option.elim_none, Option.elim_none, List.nil_append, List.append_nil]
    exact hs.rest_frame ho (Code.step_move st) hw
  | some s =>
    cases a with
    | call t c => cases hw
    | step t =>
      have hp : p.point t = .inside s := by
        simp only [worked] at hw
        split at hw
        · cases hw
          assumption
        · cases hw
      exact hs.rest_work ho h hp st

/-! ## Runs -/

variable {tr : List (Trans (Pool σ S L T) (PoolAct C T))}

theorem orderly_run (d : Discipline k) (h : Run (stepRel k.step) (Pool.new x) tr p) :
    d.Orderly p :=
  (h.inv (I := d.Orderly) (fun ho st => ho.step (Code.step_move st)) (orderly_new x)).1

theorem Outline.run_known (hA : d.Outline A J) (hJ : ∀ l, J l x)
    (h : Run (stepRel k.step) (Pool.new x) tr p) : Known k A J p := by
  refine (h.inv (I := fun p => d.Orderly p ∧ Known k A J p) (fun hi st => ?_)
    ⟨orderly_new x, known_new hJ⟩).1.2
  exact ⟨hi.1.step (Code.step_move st), hA.step hi.1 hi.2 (Code.step_move st)⟩

/-- **After any run** the calls under way come to their ends, all of them, each in the steps it
has left, and give all mutexes back. -/
theorem ends (d : Discipline k) (h : Run (stepRel k.step) (Pool.new x) tr p) :
    (∀ {tr' u}, Run k.Own p tr' u → (∀ t, stepsOf (fun t => t) t tr' ≤ (p.point t).left d.cost) ∧
      tr'.length ≤ ∑ t ∈ threadsOf PoolAct.thread tr, (p.point t).left d.cost) ∧
    ∃ tr' u, Run k.Own p tr' u ∧ u.Idle ∧ ∀ l, u.owner l = none := by
  have hwithin : Within Pool.point .idle (threadsOf PoolAct.thread tr) p :=
    h.within (fun st => (Code.step_move st).moves) fun _ => rfl
  have hdrains := d.drains (threadsOf PoolAct.thread tr)
  refine ⟨fun hown => ⟨fun t => ?_, hdrains.length_le hwithin hown⟩, ?_⟩
  · exact Nat.le_of_add_right_le (hown.stepsOf_le (fun t => t) d.own_left t)
  obtain ⟨tr', u, hown, hstuck⟩ := hdrains.exists_stuck hwithin
  have hu := (hown.inv (I := d.Orderly) (fun ho st => ho.step (Code.step_move st))
    (d.orderly_run h)).1
  exact ⟨tr', u, hown, hu.idle hstuck, hu.free (hu.idle hstuck)⟩

/-- Where no call takes more than so many steps. -/
theorem left_run (d : Discipline k) {n : Nat} (hn : ∀ c, (k.enter c).left d.cost ≤ n)
    (h : Run (stepRel k.step) (Pool.new x) tr p) (t : T) : (p.point t).left d.cost ≤ n := by
  refine (h.inv (I := fun p => ∀ t, (p.point t).left d.cost ≤ n) (fun {p a u} hp st t => ?_)
    fun _ => Nat.zero_le n).1 t
  have hm := Code.step_move st
  by_cases ht : t = a.thread
  · subst ht
    cases a with
    | call t c =>
      cases hm
      exact (congrArg (Point.left d.cost) Pool.goto_point_self).trans_le (hn c)
    | step t => exact Nat.le_trans (Nat.le_of_lt (d.own_left st).2) (hp t)
  · rw [hm.moves t ht]
    exact hp t

/-- **Accounts.** Over every run, what the calls brought is there or was spent. -/
theorem Ledger.accounts (hA : d.Outline A J) (hJ : ∀ l, J l x)
    (hl : Ledger k A J has hand spent brings) (h : Run (stepRel k.step) (Pool.new x) tr u) :
    has u.shared + ∑ t ∈ threadsOf PoolAct.thread tr, (u.point t).carries hand +
        ((works tr).map spent).sum =
      has x + (tr.map fun y => y.act.brought brings).sum := by
  have hrun := h.inv_hist (I := fun past p => d.Orderly p ∧ Known k A J p ∧
    ∀ ids : Finset T, threadsOf PoolAct.thread past ⊆ ids →
      has p.shared + ∑ t ∈ ids, (p.point t).carries hand + ((works past).map spent).sum =
        has x + (past.map fun y => y.act.brought brings).sum)
    (fun {past p a u} hi st => ?_) ⟨orderly_new x, known_new hJ, fun ids _ => ?_⟩
  · exact hrun.2.2 _ (Finset.Subset.refl _)
  · obtain ⟨ho, hp, heq⟩ := hi
    have hm := Code.step_move st
    refine ⟨ho.step hm, hA.step ho hp hm, fun ids hids => ?_⟩
    have hlast : a.thread ∈ threadsOf PoolAct.thread (past ++ [⟨p, a, u⟩]) :=
      mem_threadsOf.mpr ⟨_, List.mem_append_right _ (List.mem_singleton.mpr rfl), rfl⟩
    have hpast : threadsOf PoolAct.thread past ⊆ ids := fun t ht => by
      obtain ⟨y, hy, he⟩ := mem_threadsOf.mp ht
      exact hids (mem_threadsOf.mpr ⟨y, List.mem_append_left _ hy, he⟩)
    have hstep := hl.step hp hm (hids hlast)
    have hbrought : (([⟨p, a, u⟩] : List (Trans (Pool σ S L T) (PoolAct C T))).map fun y =>
        y.act.brought brings).sum = a.brought brings := rfl
    have hspent : ((worked p a).toList.map spent).sum = (worked p a).elim 0 spent := by
      cases worked p a <;> rfl
    have heq := heq ids hpast
    rw [works_snoc, List.map_append, List.map_append, List.sum_append, List.sum_append, hbrought,
      hspent]
    omega
  · have hzero : ∑ t ∈ ids, ((Pool.new x : Pool σ S L T).point t).carries hand = 0 :=
      Finset.sum_eq_zero fun t _ => rfl
    rw [hzero]
    rfl

/-- **One call at a time.** Over every run, what was done under a mutex is what the calls that
took it had to do, one call after the other, but for what its owner has left. -/
theorem Serial.in_turn (hA : d.Outline A J) (hJ : ∀ l, J l x)
    (hs : d.Serial A J l opens due emits) (h : Run (stepRel k.step) (Pool.new x) tr u) :
    (works tr).flatMap emits ++ u.rest l due = (works tr).flatMap opens := by
  have hrun := h.inv_hist (I := fun past p => d.Orderly p ∧ Known k A J p ∧
    (works past).flatMap emits ++ p.rest l due = (works past).flatMap opens)
    (fun {past p a u} hi st => ?_) ⟨orderly_new x, known_new hJ, rfl⟩
  · exact hrun.2.2
  · obtain ⟨ho, hp, heq⟩ := hi
    have hm := Code.step_move st
    refine ⟨ho.step hm, hA.step ho hp hm, ?_⟩
    have hone (f : S → List E) : (worked p a).toList.flatMap f = (worked p a).elim [] f := by
      cases worked p a with
      | none => rfl
      | some s => exact List.append_nil _
    rw [works_snoc, List.flatMap_append, List.flatMap_append, hone, hone, List.append_assoc,
      hs.step ho hp st, ← List.append_assoc, heq]

/-! ## A call by itself -/

end Discipline

/-- The sections of a thread that nothing runs beside, for so many steps. -/
def Code.solo (k : Code σ S L C) : Nat → Point S L → σ → σ
  | 0, _, x => x
  | _ + 1, .idle, x => x
  | n + 1, .wait s, x => k.solo n (.inside s) x
  | n + 1, .inside s, x => k.solo n (k.run s x).2 (k.run s x).1
  | n + 1, .out _ next, x => k.solo n next x

namespace Code

variable (k : Code σ S L C) (n : Nat) (x : σ)

theorem solo_wait (s : S) :
    k.solo (n + 2) (.wait s) x = k.solo n (k.run s x).2 (k.run s x).1 := rfl

theorem solo_out (l : L) (q : Point S L) : k.solo (n + 1) (.out l q) x = k.solo n q x := rfl

theorem solo_leave (ls : List L) : k.solo n (.leave ls) x = x := by
  induction ls generalizing n with
  | nil => cases n <;> rfl
  | cons l ls ih =>
    cases n with
    | zero => rfl
    | succ n => exact ih n

end Code

namespace Discipline

variable {k : Code σ S L C} {d : Discipline k} [DecidableEq L] [DecidableEq T]
  {p : Pool σ S L T} {t : T}

/-- Where nobody else is in a call, the mutexes that the thread waits for are free. -/
theorem Orderly.own_alone (h : d.Orderly p) (halone : ∀ t' ≠ t, p.point t' = .idle)
    (hbusy : p.point t ≠ .idle) : ∃ u, k.Own p t u := by
  obtain ⟨t', u, hu⟩ := h.exists_own hbusy
  by_cases ht : t' = t
  · exact ⟨u, ht ▸ hu⟩
  · simp only [Code.Own, Code.step, halone t' ht] at hu
    cases hu

theorem solo_own {u : Pool σ S L T} (h : k.Own p t u) (n : Nat) :
    k.solo (n + 1) (p.point t) p.shared = k.solo n (u.point t) u.shared := by
  cases Code.step_move h with
  | pass hp | take hp | give hp =>
    rw [hp, Pool.goto_point_self]
    rfl
  | work hp =>
    rw [hp]
    dsimp only
    rw [Pool.goto_point_self]
    rfl

/-- **A call that nothing runs beside** is its sections one after the other. -/
theorem Orderly.solo_exec (h : d.Orderly p) (halone : ∀ t' ≠ t, p.point t' = .idle) {n : Nat}
    (hn : (p.point t).left d.cost ≤ n) :
    ∃ m u, exec k.step p (List.replicate m (.step t)) = some u ∧ u.Idle ∧
      u.shared = k.solo n (p.point t) p.shared := by
  have hreturned {p : Pool σ S L T} (halone : ∀ t' ≠ t, p.point t' = .idle)
      (hidle : p.point t = .idle) : p.Idle := fun t' => by
    by_cases ht : t' = t
    · rw [ht, hidle]
    · exact halone t' ht
  induction n generalizing p with
  | zero =>
    have hidle : p.point t = .idle := by
      by_contra hbusy
      obtain ⟨u, hu⟩ := h.own_alone halone hbusy
      exact Nat.not_lt_zero _ (Nat.lt_of_lt_of_le (d.own_left hu).2 hn)
    exact ⟨0, p, rfl, hreturned halone hidle, rfl⟩
  | succ n ih =>
    by_cases hidle : p.point t = .idle
    · exact ⟨0, p, rfl, hreturned halone hidle, by rw [hidle]; rfl⟩
    · obtain ⟨u, hu⟩ := h.own_alone halone hidle
      obtain ⟨hmoves, hlt⟩ := d.own_left hu
      obtain ⟨m, v, hexec, hv, hshared⟩ := ih (h.step (Code.step_move hu))
        (fun t' ht => (hmoves t' ht).trans (halone t' ht)) (by omega)
      refine ⟨m + 1, v, ?_, hv, by rw [hshared, solo_own hu]⟩
      rw [List.replicate_succ, exec, show k.step p (.step t) = some u from hu]
      exact hexec

/-- A call made while no other is under way. -/
theorem Orderly.call_alone (h : d.Orderly p) (hidle : p.Idle) {n : Nat} {c : C}
    (hn : (k.enter c).left d.cost ≤ n) (t : T) :
    ∃ m u, exec k.step p (.call t c :: List.replicate m (.step t)) = some u ∧ u.Idle ∧
      u.shared = k.solo n (k.enter c) p.shared := by
  have hcall : k.step p (.call t c) = some (p.goto t (k.enter c)) := by
    simp only [Code.step, hidle t]
  have hpoint : (p.goto t (k.enter c)).point t = k.enter c := Pool.goto_point_self
  rw [← hpoint] at hn
  obtain ⟨m, u, hexec, hu, hshared⟩ := (h.step (Code.step_move hcall)).solo_exec
    (fun t' ht => (Pool.goto_point_ne ht).trans (hidle t')) hn
  refine ⟨m, u, ?_, hu, by rw [hshared, hpoint]; rfl⟩
  rw [exec, hcall]
  exact hexec

end Discipline

end NdnMobile.Lib
