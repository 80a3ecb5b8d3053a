import Mathlib.Data.List.Perm.Basic
import NdnMobile.Tunnel.Model

/-!
# The uplink and the peer's subscription

`World` puts the forwarder's persistent PIT entry beside the uplink, as the credit it has
left: a subscription Interest sets it, each Data takes one, expiry clears it, and a Data
that finds none is dropped. The producer's semaphore only ever adds up, so what is
outstanding there is covered by the entry (`Backed`) exactly where every subscription and
every expiry finds nothing outstanding (`backed_iff_fresh`).
-/

namespace NdnMobile.Tunnel

open NdnMobile.Lib NdnMobile.Packet

structure World where
  uplink : State
  /-- The credit of the peer's persistent PIT entry. -/
  live : Nat
  /-- Data that found no credit. -/
  dropped : List Data
  deriving DecidableEq, Repr

def World.init : World := ⟨.init, 0, []⟩

inductive Event where
  /-- A subscription Interest creates or replaces the entry and goes on to the producer. -/
  | subscribe (maxDataCount : UInt32)
  | expire
  /-- Any step of the uplink but the arrival of an Interest. -/
  | uplink (a : Act)
  deriving DecidableEq, Repr

/-- The Data a step hands to the forwarder. -/
def State.arrival (s : State) : Act → Option Data
  | .publish true =>
    match s.streamer with
    | .publishing data => some data
    | _ => none
  | _ => none

/-- A Data at the forwarder. -/
def World.arrive (w : World) : Option Data → World
  | none => w
  | some data =>
    if 0 < w.live then { w with live := w.live - 1 }
    else { w with dropped := w.dropped ++ [data] }

def worldStep (cfg : Config) (w : World) : Event → Option World
  | .subscribe n =>
    (step cfg w.uplink (.interest (some n))).map fun s => { w with uplink := s, live := n.toNat }
  | .expire => some { w with live := 0 }
  | .uplink (.interest _) => none
  | .uplink a =>
    (step cfg w.uplink a).map fun s => { w.arrive (w.uplink.arrival a) with uplink := s }

/-- The budget that may still become Data: free permits, the one the streamer has taken, and
the grants of handlers that have not run. -/
def State.outstanding (s : State) : Nat :=
  s.budget.permits + (s.streamer.taken + (s.grants.map credit).sum)

/-- The entry has the credit for everything outstanding. -/
def Backed (w : World) : Prop :=
  w.uplink.streamer = .stopped ∨ w.uplink.outstanding ≤ w.live

/-- A subscription or an expiry finds nothing outstanding. -/
def Fresh (w : World) : Event → Prop
  | .subscribe _ | .expire => w.uplink.streamer = .stopped ∨ w.uplink.outstanding = 0
  | .uplink _ => True

instance (w : World) (e : Event) : Decidable (Fresh w e) :=
  match e with
  | .subscribe _ | .expire => inferInstanceAs (Decidable (_ ∨ _))
  | .uplink _ => .isTrue trivial

variable {cfg : Config} {s t : State} {a : Act} {w v : World} {e : Event}

/-! ## What is outstanding -/

theorem sum_eraseIdx {grants : List (Option UInt32)} {i : Nat} {c : Option UInt32}
    (h : grants[i]? = some c) :
    credit c + ((grants.eraseIdx i).map credit).sum = (grants.map credit).sum := by
  obtain ⟨hi, rfl⟩ := List.getElem?_eq_some_iff.mp h
  exact ((List.getElem_cons_eraseIdx_perm hi).map credit).sum_nat

theorem outstanding_interest (n : UInt32) :
    State.outstanding { s with grants := s.grants ++ [some n] } = s.outstanding + n.toNat := by
  simp [State.outstanding, credit, Nat.add_assoc]

/-- A step of the uplink other than an arrival adds nothing, and a Data handed to the
forwarder takes one off. -/
theorem outstanding_step (hm : Move cfg s a t) (ha : ∀ sr, a ≠ .interest sr) :
    t.outstanding + (s.arrival a).toList.length ≤ s.outstanding := by
  cases hm with
  | inject | refuse | close | cancel => exact Nat.le_refl _
  | interest => exact absurd rfl (ha _)
  | grant hi hb =>
    have hsum := sum_eraseIdx hi
    have hadd := Semaphore.addPermits_some hb
    simp only [State.outstanding, State.arrival, Option.toList_none, List.length_nil]
    omega
  | overflow hi _ =>
    have hsum := sum_eraseIdx hi
    simp only [State.outstanding, State.arrival, Option.toList_none, List.length_nil]
    omega
  | recv hs _ => simp [State.outstanding, State.arrival, hs, Streamer.taken]
  | acquire hs hb _ | exhausted hs hb =>
    have htake := Semaphore.acquire_some hb
    simp only [State.outstanding, State.stop, State.arrival, hs, Streamer.taken,
      Option.toList_none, List.length_nil]
    omega
  | publish hs | failed hs =>
    simp only [State.outstanding, State.stop, State.arrival, hs, Streamer.taken,
      Option.toList_some, Option.toList_none, List.length_singleton, List.length_nil]
    omega
  | drained hs =>
    simp only [State.outstanding, State.stop, State.arrival, hs, Streamer.taken,
      Option.toList_none, List.length_nil]
    omega
  | cancelled =>
    simp only [State.outstanding, State.stop, State.arrival, Streamer.taken,
      Option.toList_none, List.length_nil]
    omega

theorem arrival_running {data : Data} (h : s.arrival a = some data) : s.streamer ≠ .stopped := by
  intro hs
  unfold State.arrival at h
  split at h
  · rw [hs] at h
    cases h
  · cases h

/-- A stopped streamer stays so. -/
theorem stopped_step (hm : Move cfg s a t) (hs : s.streamer = .stopped) :
    t.streamer = .stopped := by
  cases hm with
  | recv h _ | acquire h _ _ | publish h => rw [hs] at h; cases h
  | drained | exhausted | failed | cancelled => rfl
  | _ => exact hs

/-! ## Events -/

inductive Change (cfg : Config) (w : World) : Event → World → Prop where
  | subscribe {n : UInt32} : Change cfg w (.subscribe n)
    { w with uplink := { w.uplink with grants := w.uplink.grants ++ [some n] }, live := n.toNat }
  | expire : Change cfg w .expire { w with live := 0 }
  | uplink {a : Act} {t : State} : (∀ sr, a ≠ .interest sr) → Move cfg w.uplink a t →
    Change cfg w (.uplink a) { w.arrive (w.uplink.arrival a) with uplink := t }

theorem worldStep_change (h : worldStep cfg w e = some v) : Change cfg w e v := by
  cases e with
  | subscribe n => cases h; exact .subscribe
  | expire => cases h; exact .expire
  | uplink a =>
    by_cases ha : ∃ sr, a = .interest sr
    · obtain ⟨sr, rfl⟩ := ha
      cases h
    · have hstep : (step cfg w.uplink a).map
          (fun s => { w.arrive (w.uplink.arrival a) with uplink := s }) = some v := by
        cases a <;> first | exact h | exact absurd ⟨_, rfl⟩ ha
      obtain ⟨t, ht, rfl⟩ := Option.map_eq_some_iff.mp hstep
      exact .uplink (fun sr hsr => ha ⟨sr, hsr⟩) (step_move ht)

/-- A step of the uplink is covered by what the entry covered before. -/
theorem backed_uplink {t : State} (hb : Backed w) (ha : ∀ sr, a ≠ .interest sr)
    (hm : Move cfg w.uplink a t) : Backed { w.arrive (w.uplink.arrival a) with uplink := t } := by
  rcases hb with hs | hle
  · exact .inl (stopped_step hm hs)
  have hout := outstanding_step hm ha
  cases harr : w.uplink.arrival a with
  | none =>
    rw [harr] at hout
    exact .inr (Nat.le_trans hout hle)
  | some data =>
    rw [harr] at hout
    simp only [Option.toList_some, List.length_singleton] at hout
    have hlive : 0 < w.live := by omega
    simp only [Backed, World.arrive, if_pos hlive]
    omega

/-- What is outstanding is covered after an event exactly where the event is fresh. -/
theorem backed_step (hb : Backed w) (h : worldStep cfg w e = some v) : Backed v ↔ Fresh w e := by
  cases worldStep_change h with
  | subscribe =>
    simp only [Backed, Fresh, outstanding_interest]
    exact or_congr_right (by omega)
  | expire => exact or_congr_right Nat.le_zero
  | uplink ha hm => exact iff_of_true (backed_uplink hb ha hm) trivial

/-- A covered Data finds credit. -/
theorem live_of_arrival {data : Data} (hb : Backed w) (h : worldStep cfg w (.uplink a) = some v)
    (harr : w.uplink.arrival a = some data) : 0 < w.live := by
  cases worldStep_change h with
  | uplink ha hm =>
    have hout := outstanding_step hm ha
    rw [harr] at hout
    simp only [Option.toList_some, List.length_singleton] at hout
    have := hb.resolve_left (arrival_running harr)
    omega

theorem arrival_of_publish (h : worldStep cfg w (.uplink (.publish true)) = some v) :
    ∃ data, w.uplink.arrival (.publish true) = some data := by
  cases worldStep_change h with
  | uplink _ hm =>
    cases hm with
    | @publish data hs => exact ⟨data, by simp only [State.arrival, hs]⟩

theorem dropped_step (hb : Backed w) (h : worldStep cfg w e = some v) :
    v.dropped = w.dropped := by
  cases worldStep_change h with
  | subscribe | expire => rfl
  | @uplink a t ha hm =>
    cases harr : w.uplink.arrival a with
    | none => rfl
    | some data => simp only [World.arrive, if_pos (live_of_arrival hb h harr)]

/-! ## Runs -/

/-- **The budget and the subscription, over every run**: the entry covers what is outstanding
in every state exactly where every subscription and expiry is fresh; and then every Data
that is published finds credit, and none is dropped. -/
theorem backed_iff_fresh (cfg : Config) {tr : List (Trans World Event)} {u : World}
    (h : Run (stepRel (worldStep cfg)) .init tr u) :
    ((∀ x ∈ tr, Backed x.post) ↔ ∀ x ∈ tr, Fresh x.pre x.act) ∧
      ((∀ x ∈ tr, Fresh x.pre x.act) →
        (∀ x ∈ tr, x.act = .uplink (.publish true) → 0 < x.pre.live) ∧ u.dropped = []) := by
  have hinit : Backed .init := .inr (Nat.le_refl 0)
  refine ⟨h.exact (I := Backed) (fun hb hs => backed_step hb hs)
    (fun hb hf hs => (backed_step hb hs).mpr hf) hinit, fun hfresh => ?_⟩
  obtain ⟨hu, hmem⟩ := h.inv_mem (I := fun w => Backed w ∧ w.dropped = [])
    (fun ⟨hb, hd⟩ hf hs => ⟨(backed_step hb hs).mpr hf, (dropped_step hb hs).trans hd⟩)
    ⟨hinit, rfl⟩ hfresh
  refine ⟨fun x hx hact => ?_, hu.2⟩
  have hs := h.step_of_mem hx
  rw [hact] at hs
  obtain ⟨data, hdata⟩ := arrival_of_publish hs
  exact live_of_arrival (hmem x hx).1.1 hs hdata

/-- A subscription for one, used up before the entry expires and the next one comes. -/
def freshEvents : List Event := [.subscribe 1, .uplink (.inject [1]), .uplink (.grant 0),
  .uplink .recv, .uplink .acquire, .uplink (.publish true), .expire, .subscribe 5]

theorem backed_iff_fresh_freshEvents : ∃ tr u,
    Run (stepRel (worldStep .phone)) .init tr u ∧ tr.map (·.act) = freshEvents ∧
    (∀ x ∈ tr, Backed x.post) ∧
    (∀ x ∈ tr, x.act = .uplink (.publish true) → 0 < x.pre.live) ∧ u.dropped = [] := by
  obtain ⟨u, hu⟩ : ∃ u, exec (guarded (fun w e => decide (Fresh w e)) (worldStep .phone)) .init
      freshEvents = some u := ⟨_, rfl⟩
  obtain ⟨tr, hrun, hacts, hchecked⟩ := exec_guarded hu
  have hfresh : ∀ x ∈ tr, Fresh x.pre x.act := fun x hx => of_decide_eq_true (hchecked x hx)
  obtain ⟨hbacked, hpublished⟩ := backed_iff_fresh .phone hrun
  exact ⟨tr, u, hrun, hacts, hbacked.mpr hfresh, hpublished hfresh⟩

/-- The entry expires with four of five units unused, and the next packet is dropped. -/
def staleEvents : List Event := [.subscribe 5, .uplink (.grant 0), .expire, .uplink (.inject [1]),
  .uplink .recv, .uplink .acquire, .uplink (.publish true)]

theorem budget_outlives : ¬ ∀ (cfg : Config) (tr : List (Trans World Event)) (u : World),
    Run (stepRel (worldStep cfg)) .init tr u →
      (∀ x ∈ tr, x.act = .uplink (.publish true) → 0 < x.pre.live) ∧ u.dropped = [] := by
  intro h
  obtain ⟨u, hu, hdropped⟩ : ∃ u, exec (worldStep .phone) .init staleEvents = some u ∧
      u.dropped ≠ [] := ⟨_, rfl, by decide⟩
  obtain ⟨tr, hrun, -⟩ := exec_run hu
  exact hdropped (h .phone tr u hrun).2

end NdnMobile.Tunnel
