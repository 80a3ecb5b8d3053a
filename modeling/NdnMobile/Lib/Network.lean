import Mathlib.Data.List.Perm.Basic
import NdnMobile.Lib.Run

/-!
# A network in between

The messages in flight between a sender and a receiver, any of which the network may
deliver, lose or copy at any time. Whatever it does, only what was sent is delivered
(`delivered_mem`); without copies, everything sent is delivered, in flight or lost, once
(`delivered_perm`); and where it also keeps the order, what is delivered is in the order it
was sent in (`delivered_sublist`), all of it where nothing is lost (`delivered_whole`).
-/

namespace NdnMobile.Lib

structure Network (α : Type) where
  flight : List α
  lost : List α
  deriving DecidableEq, Repr

namespace Network

variable {α : Type} {n m : Network α} {x : α}

def empty : Network α := ⟨[], []⟩

inductive Act (α : Type) where
  | send (x : α)
  /-- The `i`-th message in flight arrives. -/
  | deliver (i : Nat)
  | lose (i : Nat)
  | copy (i : Nat)
  deriving DecidableEq, Repr

def step (n : Network α) : Act α → Option (Network α)
  | .send x => some { n with flight := n.flight ++ [x] }
  | .deliver i => (n.flight[i]?).map fun _ => { n with flight := n.flight.eraseIdx i }
  | .lose i => (n.flight[i]?).map fun x => ⟨n.flight.eraseIdx i, n.lost ++ [x]⟩
  | .copy i => (n.flight[i]?).map fun x => { n with flight := n.flight ++ [x] }

/-- The sender hands over a message, or nothing. -/
def publish (n : Network α) : Option α → Network α
  | none => n
  | some x => { n with flight := n.flight ++ [x] }

inductive Move (n : Network α) : Act α → Network α → Prop where
  | send {x : α} : Move n (.send x) { n with flight := n.flight ++ [x] }
  | deliver {i : Nat} {x : α} : n.flight[i]? = some x →
    Move n (.deliver i) { n with flight := n.flight.eraseIdx i }
  | lose {i : Nat} {x : α} : n.flight[i]? = some x →
    Move n (.lose i) ⟨n.flight.eraseIdx i, n.lost ++ [x]⟩
  | copy {i : Nat} {x : α} : n.flight[i]? = some x →
    Move n (.copy i) { n with flight := n.flight ++ [x] }

theorem step_move {a : Act α} (h : step n a = some m) : Move n a m := by
  cases a with
  | send x => cases h; exact .send
  | deliver i => obtain ⟨x, hx, rfl⟩ := Option.map_eq_some_iff.mp h; exact .deliver hx
  | lose i => obtain ⟨x, hx, rfl⟩ := Option.map_eq_some_iff.mp h; exact .lose hx
  | copy i => obtain ⟨x, hx, rfl⟩ := Option.map_eq_some_iff.mp h; exact .copy hx

theorem mem_publish {y : Option α} (h : x ∈ (n.publish y).flight) : x ∈ n.flight ∨ y = some x := by
  cases y with
  | none => exact .inl h
  | some z =>
    rcases List.mem_append.mp h with hx | hx
    · exact .inl hx
    · exact .inr (congrArg some (List.mem_singleton.mp hx).symm)

/-- No step but a sending puts a message in flight that was not. -/
theorem flight_subset {a : Act α} (h : step n a = some m) (ha : ∀ x, a ≠ .send x) :
    m.flight ⊆ n.flight := by
  cases step_move h with
  | send => exact absurd rfl (ha _)
  | deliver | lose => exact List.eraseIdx_subset ..
  | copy hx =>
    exact List.append_subset.mpr ⟨List.Subset.refl _,
      List.cons_subset.mpr ⟨List.mem_of_getElem? hx, List.nil_subset _⟩⟩

/-! ## What the network did -/

def sending (y : Trans (Network α) (Act α)) : Option α :=
  match y.act with
  | .send x => some x
  | _ => none

def delivering (y : Trans (Network α) (Act α)) : Option α :=
  match y.act with
  | .deliver i => y.pre.flight[i]?
  | _ => none

def sent (tr : List (Trans (Network α) (Act α))) : List α := tr.filterMap sending

def delivered (tr : List (Trans (Network α) (Act α))) : List α := tr.filterMap delivering

/-- The network makes no copies. -/
def Act.NoCopy : Act α → Prop
  | .copy _ => False
  | _ => True

/-- It makes none and delivers the oldest message first. -/
def Act.Fifo : Act α → Prop
  | .copy _ => False
  | .deliver i => i = 0
  | _ => True

def Act.NoLoss : Act α → Prop
  | .lose _ => False
  | _ => True

theorem Act.Fifo.noCopy {a : Act α} (h : a.Fifo) : a.NoCopy := by
  cases a with
  | copy => exact h
  | _ => trivial

variable {past tr : List (Trans (Network α) (Act α))} {a : Act α} {u : Network α}

theorem sent_snoc (y : Trans (Network α) (Act α)) :
    sent (past ++ [y]) = sent past ++ (sending y).toList := filterMap_snoc _ past y

theorem delivered_snoc (y : Trans (Network α) (Act α)) :
    delivered (past ++ [y]) = delivered past ++ (delivering y).toList := filterMap_snoc _ past y

/-! ## Any network -/

/-- Everything delivered, in flight or lost was sent. -/
structure Sound (past : List (Trans (Network α) (Act α))) (n : Network α) : Prop where
  delivered : delivered past ⊆ sent past
  flight : n.flight ⊆ sent past
  lost : n.lost ⊆ sent past

theorem Sound.step (h : Sound past n) (hm : Move n a m) : Sound (past ++ [⟨n, a, m⟩]) m := by
  have hsub : sent past ⊆ sent (past ++ [⟨n, a, m⟩]) := by
    rw [sent_snoc]
    exact List.subset_append_left ..
  have hquiet : delivering ⟨n, a, m⟩ = none →
      Network.delivered (past ++ [⟨n, a, m⟩]) ⊆ sent (past ++ [⟨n, a, m⟩]) := by
    intro hy
    rw [delivered_snoc, hy, Option.toList_none, List.append_nil]
    exact List.Subset.trans h.delivered hsub
  have hsingle : ∀ {i x}, n.flight[i]? = some x → [x] ⊆ sent past := fun hi =>
    List.cons_subset.mpr ⟨h.flight (List.mem_of_getElem? hi), List.nil_subset _⟩
  have herase : ∀ i, n.flight.eraseIdx i ⊆ sent past := fun i =>
    List.Subset.trans (List.eraseIdx_subset ..) h.flight
  cases hm with
  | send =>
    refine ⟨hquiet rfl, ?_, List.Subset.trans h.lost hsub⟩
    rw [sent_snoc]
    exact List.append_subset.mpr ⟨List.subset_append_of_subset_left _ h.flight,
      List.subset_append_right ..⟩
  | @deliver i x hi =>
    refine ⟨?_, List.Subset.trans (herase i) hsub, List.Subset.trans h.lost hsub⟩
    have hx : delivering ⟨n, .deliver i, { n with flight := n.flight.eraseIdx i }⟩ = some x := hi
    rw [delivered_snoc, hx]
    exact List.append_subset.mpr ⟨List.Subset.trans h.delivered hsub,
      List.Subset.trans (hsingle hi) hsub⟩
  | @lose i x hi =>
    exact ⟨hquiet rfl, List.Subset.trans (herase i) hsub,
      List.Subset.trans (List.append_subset.mpr ⟨h.lost, hsingle hi⟩) hsub⟩
  | copy hi =>
    exact ⟨hquiet rfl, List.Subset.trans (List.append_subset.mpr ⟨h.flight, hsingle hi⟩) hsub,
      List.Subset.trans h.lost hsub⟩

theorem delivered_mem (h : Run (stepRel step) .empty tr u) : delivered tr ⊆ sent tr :=
  (h.inv_hist (I := Sound) (fun hi hs => hi.step (step_move hs))
    ⟨List.nil_subset _, List.nil_subset _, List.nil_subset _⟩).delivered

/-! ## Without copies -/

/-- Everything sent is delivered, in flight or lost, once. -/
def Exact (past : List (Trans (Network α) (Act α))) (n : Network α) : Prop :=
  (delivered past ++ (n.flight ++ n.lost)).Perm (sent past)

theorem eraseIdx_perm {l : List α} {i : Nat} (h : l[i]? = some x) :
    ([x] ++ l.eraseIdx i).Perm l := by
  obtain ⟨hi, rfl⟩ := List.getElem?_eq_some_iff.mp h
  exact List.getElem_cons_eraseIdx_perm hi

theorem Exact.step (h : Exact past n) (ha : a.NoCopy) (hm : Move n a m) :
    Exact (past ++ [⟨n, a, m⟩]) m := by
  unfold Exact at h ⊢
  rw [delivered_snoc, sent_snoc]
  cases hm with
  | @send x =>
    simp only [delivering, sending, Option.toList_none, Option.toList_some, List.append_nil]
    refine List.Perm.trans ?_ (h.append_right [x])
    simp only [List.append_assoc]
    have hx : ([x] ++ n.lost).Perm (n.lost ++ [x]) := List.perm_append_comm
    exact (hx.append_left n.flight).append_left _
  | @deliver i x hi =>
    simp only [delivering, sending, hi, Option.toList_none, Option.toList_some, List.append_nil]
    refine List.Perm.trans ?_ h
    rw [List.append_assoc, ← List.append_assoc [x]]
    exact ((eraseIdx_perm hi).append_right n.lost).append_left _
  | @lose i x hi =>
    simp only [delivering, sending, Option.toList_none, List.append_nil]
    refine List.Perm.trans (List.Perm.append_left _ ?_) h
    refine List.Perm.trans ?_ ((eraseIdx_perm hi).append_right n.lost)
    rw [← List.append_assoc, List.append_assoc [x]]
    exact List.perm_append_comm
  | copy => exact absurd ha id

theorem delivered_perm (h : Run (stepRel step) .empty tr u) (hcopy : ∀ y ∈ tr, y.act.NoCopy) :
    (delivered tr ++ (u.flight ++ u.lost)).Perm (sent tr) := by
  refine h.inv_hist (I := fun past n => (∀ y ∈ past, y.act.NoCopy) → Exact past n)
    (fun hi hs hall => ?_) (fun _ => List.Perm.refl _) hcopy
  obtain ⟨hpast, hlast⟩ := List.forall_mem_append.mp hall
  exact (hi hpast).step (hlast _ (List.mem_singleton.mpr rfl)) (step_move hs)

/-! ## In order -/

/-- What is delivered or in flight is in the order it was sent in. -/
def InOrder (past : List (Trans (Network α) (Act α))) (n : Network α) : Prop :=
  (delivered past ++ n.flight).Sublist (sent past)

theorem InOrder.step (h : InOrder past n) (ha : a.Fifo) (hm : Move n a m) :
    InOrder (past ++ [⟨n, a, m⟩]) m := by
  unfold InOrder at h ⊢
  rw [delivered_snoc, sent_snoc]
  cases hm with
  | @send x =>
    simp only [delivering, sending, Option.toList_none, Option.toList_some, List.append_nil]
    rw [← List.append_assoc]
    exact h.append (List.Sublist.refl _)
  | @deliver i x hi =>
    obtain rfl : i = 0 := ha
    cases hf : n.flight with
    | nil => simp [hf] at hi
    | cons y flight =>
      simp only [hf, List.getElem?_cons_zero, Option.some.injEq] at hi
      subst hi
      simpa [delivering, sending, hf] using hf ▸ h
  | @lose i x hi =>
    simp only [delivering, sending, Option.toList_none, List.append_nil]
    exact ((List.Sublist.refl _).append (List.eraseIdx_sublist ..)).trans h
  | copy => exact absurd ha id

theorem delivered_sublist (h : Run (stepRel step) .empty tr u) (hfifo : ∀ y ∈ tr, y.act.Fifo) :
    (delivered tr ++ u.flight).Sublist (sent tr) := by
  refine h.inv_hist (I := fun past n => (∀ y ∈ past, y.act.Fifo) → InOrder past n)
    (fun hi hs hall => ?_) (fun _ => List.Sublist.refl _) hfifo
  obtain ⟨hpast, hlast⟩ := List.forall_mem_append.mp hall
  exact (hi hpast).step (hlast _ (List.mem_singleton.mpr rfl)) (step_move hs)

theorem lost_nil (h : Run (stepRel step) .empty tr u) (hloss : ∀ y ∈ tr, y.act.NoLoss) :
    u.lost = [] := by
  refine (h.inv_mem (I := fun n : Network α => n.lost = []) (G := fun _ a => a.NoLoss)
    (fun hi ha hs => ?_) rfl hloss).1
  cases step_move hs with
  | lose => exact absurd ha id
  | send | deliver | copy => exact hi

/-- Nothing lost, nothing copied, in order: what is delivered and what is in flight is what
was sent. -/
theorem delivered_whole (h : Run (stepRel step) .empty tr u) (hfifo : ∀ y ∈ tr, y.act.Fifo)
    (hloss : ∀ y ∈ tr, y.act.NoLoss) : delivered tr ++ u.flight = sent tr := by
  have hperm := delivered_perm h fun y hy => (hfifo y hy).noCopy
  rw [lost_nil h hloss, List.append_nil] at hperm
  exact (delivered_sublist h hfifo).eq_of_length hperm.length_eq

end Network

end NdnMobile.Lib
