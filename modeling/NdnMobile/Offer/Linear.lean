import NdnMobile.Lib.Serial
import NdnMobile.Lib.Threads
import NdnMobile.Offer.Coherence

/-!
# The board as one object

The calls of any number of threads on a board, as if each were done in one go: where an add
inserts, a remove erases and a list reads is the call's effect, and the effects in their order
are a serial history of the map (`Lib.Serial`). The manifests pushed are the maps that history
goes through, each once and in order (`Published`), and the calls under way can always go on
(`Stuck` only where every thread is idle).
-/

namespace NdnMobile.Offer

open NdnMobile.Lib NdnMobile.Packet

/-! ## The map by itself -/

inductive BoardCall where
  | add (c : AddCall) (guard : ServeGuard)
  | remove (fileId : String)
  | list
  deriving DecidableEq, Repr

inductive BoardAnswer where
  | added (name : Name)
  | removed (was : Bool)
  | listed (json : String)
  deriving DecidableEq, Repr

/-- What a call answers when nothing runs beside it, and the map after it. -/
def OfferBoard.answer (board : OfferBoard) (offers : Offers) : BoardCall → Offers × BoardAnswer
  | .add c guard =>
    (offers.insert c.fileId (board.entry c guard), .added (board.objectName c.fileId))
  | .remove fileId =>
    if fileId ∈ offers then (offers.erase fileId, .removed true) else (offers, .removed false)
  | .list => (offers, .listed (board.offersJson offers))

/-! ## The calls of a run -/

def Act.thread : Act → ThreadId
  | .add t _ | .lockAdd t | .insert t | .lockRemove t _ | .erase t | .lockList t | .list t
  | .build t _ | .push t | .unlock t => t

/-- The call that takes effect in a step, and its answer: `removed` is what decides whether the
manifest is rebuilt. -/
def effect (board : OfferBoard) (x : Trans State Act) : Option (BoardCall × BoardAnswer) :=
  match x.act, x.pre.phase x.act.thread with
  | .insert _, .adding c guard => some (.add c guard, .added (board.objectName c.fileId))
  | .erase t, .removing fileId =>
    some (.remove fileId, .removed (decide (x.post.phase t = .edited)))
  | .list _, .listing => some (.list, .listed (x.pre.listOffers board))
  | _, _ => none

def effects (board : OfferBoard) (tr : List (Trans State Act)) : List (BoardCall × BoardAnswer) :=
  tr.filterMap (effect board)

/-- The map after a step that edits it. -/
def edited (x : Trans State Act) : Option Offers :=
  match x.act with
  | .insert t | .erase t => if x.post.phase t = .edited then some x.post.offers else none
  | _ => none

/-- The maps that a run goes through. -/
def versions (tr : List (Trans State Act)) : List Offers := ∅ :: tr.filterMap edited

/-- What a manifest of the map says. -/
def OfferBoard.text (board : OfferBoard) (offers : Offers) : Bytes := utf8 (board.offersJson offers)

/-- What the manifests pushed say, oldest first. -/
def State.texts (s : State) : List Bytes := s.rebuilds.reverse.map (·.content)

/-- The step in which a call takes effect. -/
def Act.takes : Act → Bool
  | .insert _ | .erase _ | .list _ => true
  | _ => false

/-- The step in which it returns. -/
def Act.returns : Act → Bool
  | .unlock _ => true
  | _ => false

/-- The effects of a thread's calls, and the calls of it that have returned. -/
def taken (t : ThreadId) (tr : List (Trans State Act)) : Nat :=
  tr.countP fun x => x.act.thread == t && x.act.takes

def returned (t : ThreadId) (tr : List (Trans State Act)) : Nat :=
  tr.countP fun x => x.act.thread == t && x.act.returns

/-- The call a thread is in has taken effect. -/
def Phase.taken : Phase → Nat
  | .edited | .rebuilt _ | .leaving => 1
  | _ => 0

/-- A step that goes on with a call. -/
def Act.GoesOn : Act → Prop
  | .add _ _ | .lockRemove _ _ | .lockList _ => False
  | _ => True

def Inner (board : OfferBoard) (s : State) (a : Act) (u : State) : Prop :=
  a.GoesOn ∧ step board s a = some u

variable {board : OfferBoard} {s u : State} {a : Act} {t t' : ThreadId} {p : Phase}
  {past tr : List (Trans State Act)}

/-! ## Effects -/

theorem insert_some (h : step board s (.insert t) = some u) :
    ∃ c guard, s.phase t = .adding c guard ∧
      u = { s.goto t .edited with offers := s.offers.insert c.fileId (board.entry c guard) } := by
  simp only [step] at h
  split at h <;> cases h
  exact ⟨_, _, ‹_›, rfl⟩

theorem erase_some (h : step board s (.erase t) = some u) :
    ∃ fileId, s.phase t = .removing fileId ∧
      (fileId ∈ s.offers ∧ u = { s.goto t .edited with offers := s.offers.erase fileId } ∨
        fileId ∉ s.offers ∧ u = s.goto t .leaving) := by
  simp only [step] at h
  split at h
  · split at h <;> cases h
    · exact ⟨_, ‹_›, .inl ⟨‹_›, rfl⟩⟩
    · exact ⟨_, ‹_›, .inr ⟨‹_›, rfl⟩⟩
  · cases h

theorem list_some (h : step board s (.list t) = some u) :
    s.phase t = .listing ∧ u = s.goto t .leaving := by
  simp only [step] at h
  split at h <;> cases h
  exact ⟨‹_›, rfl⟩

@[simp] theorem goto_phase_self : (s.goto t p).phase t = p := by rw [phase_goto, if_pos rfl]

theorem effect_answer {op : BoardCall} {r : BoardAnswer} (h : step board s a = some u)
    (he : effect board ⟨s, a, u⟩ = some (op, r)) :
    board.answer s.offers op = (u.offers, r) := by
  cases a with
  | insert t =>
    obtain ⟨c, guard, hp, rfl⟩ := insert_some h
    simp only [effect, Act.thread, hp, Option.some.injEq, Prod.mk.injEq] at he
    obtain ⟨rfl, rfl⟩ := he
    rfl
  | erase t =>
    obtain ⟨fileId, hp, ⟨hmem, rfl⟩ | ⟨hmem, rfl⟩⟩ := erase_some h
    · simp only [effect, Act.thread, hp, Option.some.injEq, Prod.mk.injEq] at he
      obtain ⟨rfl, rfl⟩ := he
      have hedited : (s.goto t .edited).phase t = .edited := goto_phase_self
      simp only [OfferBoard.answer, if_pos hmem, hedited, decide_true]
    · simp only [effect, Act.thread, hp, Option.some.injEq, Prod.mk.injEq] at he
      obtain ⟨rfl, rfl⟩ := he
      simp [OfferBoard.answer, if_neg hmem, State.goto]
  | list t =>
    obtain ⟨hp, rfl⟩ := list_some h
    simp only [effect, Act.thread, hp, Option.some.injEq, Prod.mk.injEq] at he
    obtain ⟨rfl, rfl⟩ := he
    rfl
  | _ => cases he

/-- A step that is no call's effect leaves the map alone. -/
theorem effect_none (h : step board s a = some u) (he : effect board ⟨s, a, u⟩ = none) :
    u.offers = s.offers := by
  cases a with
  | insert t =>
    obtain ⟨c, guard, hp, rfl⟩ := insert_some h
    simp only [effect, Act.thread, hp] at he
    cases he
  | erase t =>
    obtain ⟨fileId, hp, -⟩ := erase_some h
    simp only [effect, Act.thread, hp] at he
    cases he
  | _ => cases step_move h <;> rfl

theorem serial_effects (h : Run (stepRel (step board)) s tr u) :
    Serial board.answer s.offers (effects board tr) u.offers :=
  h.serial State.offers (effect board)
    (fun _ hx _ _ he => effect_answer (h.step_of_mem hx) he)
    fun _ hx he => effect_none (h.step_of_mem hx) he

/-! ## Manifests -/

/-- The manifests pushed are the versions of the map, but for the one that a thread in the lock
still has to push. -/
structure Published (board : OfferBoard) (past : List (Trans State Act)) (s : State) : Prop where
  clean : (∀ t, (s.phase t).stale = false) → s.texts = (versions past).map board.text
  due : ∀ t, (s.phase t).stale = true →
    s.texts ++ [board.text s.offers] = (versions past).map board.text

theorem Published.new (board : OfferBoard) (now : Nat) : Published board [] (.new board now) :=
  ⟨fun _ => rfl, fun _ h => absurd h Bool.false_eq_true.mp⟩

theorem versions_snoc (x : Trans State Act) :
    versions (past ++ [x]) = versions past ++ (edited x).toList := by
  rw [versions, filterMap_snoc]
  rfl

/-- A step that neither edits the map nor pushes a manifest. -/
theorem Published.frame (h : Published board past s) (hedited : edited ⟨s, a, u⟩ = none)
    (hstale : ∀ t, (u.phase t).stale = (s.phase t).stale) (hoffers : u.offers = s.offers)
    (hpushed : u.rebuilds = s.rebuilds) : Published board (past ++ [⟨s, a, u⟩]) u := by
  have hversions : versions (past ++ [⟨s, a, u⟩]) = versions past := by
    rw [versions_snoc, hedited]
    exact List.append_nil _
  have htexts : u.texts = s.texts := by rw [State.texts, hpushed]; rfl
  refine ⟨fun hall => ?_, fun t ht => ?_⟩
  · rw [htexts, hversions]
    exact h.clean fun t => (hstale t).symm.trans (hall t)
  · rw [htexts, hversions, hoffers]
    exact h.due t ((hstale t).symm.trans ht)

/-- An edit under the lock. -/
theorem Published.edit (h : Published board past s) (hx : Exclusive s)
    (hin : (s.phase t).locked = true) (hclean : (s.phase t).stale = false)
    (hedited : edited ⟨s, a, u⟩ = some u.offers) (hphase : u.phase = (s.goto t .edited).phase)
    (hpushed : u.rebuilds = s.rebuilds) : Published board (past ++ [⟨s, a, u⟩]) u := by
  have hbefore : s.texts = (versions past).map board.text := h.clean fun t' => by
    by_cases hl : (s.phase t').locked = true
    · rw [hx.eq hin hl]
      exact hclean
    · cases hst : (s.phase t').stale with
      | false => rfl
      | true => exact absurd (locked_of_stale hst) hl
  have htexts : u.texts = s.texts := by rw [State.texts, hpushed]; rfl
  refine ⟨fun hall => ?_, fun _ _ => ?_⟩
  · have ht := hall t
    rw [hphase, goto_phase_self] at ht
    cases ht
  · rw [versions_snoc, hedited, List.map_append, htexts, hbefore]
    rfl

/-- The manifest of the newest version is pushed. -/
theorem Published.push (h : Published board past s) (hs : Sound board s) {m : PreparedObject}
    (hp : s.phase t = .rebuilt m) (hedited : edited ⟨s, a, u⟩ = none)
    (hphase : u.phase = (s.goto t .leaving).phase) (hpushed : u.rebuilds = m :: s.rebuilds) :
    Published board (past ++ [⟨s, a, u⟩]) u := by
  have htexts : u.texts = s.texts ++ [board.text s.offers] := by
    rw [State.texts, hpushed, List.reverse_cons, List.map_append, State.texts]
    exact congrArg (_ ++ [·]) (hs.manifested.rebuilt t m hp)
  refine ⟨fun _ => ?_, fun t' ht' => ?_⟩
  · rw [versions_snoc, hedited, htexts, h.due t (by rw [hp]; rfl), Option.toList_none,
      List.append_nil]
  · rw [hphase, phase_goto] at ht'
    split at ht'
    · cases ht'
    · rename_i hne
      exact absurd (hs.exclusive.eq (by rw [hp]; rfl) (locked_of_stale ht')) hne

theorem stale_goto (h : p.stale = (s.phase t).stale) (t' : ThreadId) :
    ((s.goto t p).phase t').stale = (s.phase t').stale := by
  rw [phase_goto]
  split
  · rename_i ht
    rw [ht, h]
  · rfl

theorem stale_of_unlocked (h : p.locked = false) : p.stale = false := by
  cases hst : p.stale with
  | false => rfl
  | true => exact absurd ((locked_of_stale hst).symm.trans h) Bool.true_eq_false.mp

/-- No other step than an insert, an erase or a push concerns the manifests. -/
theorem Published.quiet (h : Published board past s) (hm : Move board s a u)
    (ha : ∀ t, a ≠ .insert t ∧ a ≠ .erase t ∧ a ≠ .push t) :
    Published board (past ++ [⟨s, a, u⟩]) u := by
  have hedited : edited ⟨s, a, u⟩ = none := by
    cases a with
    | insert t => exact absurd rfl (ha t).1
    | erase t => exact absurd rfl (ha t).2.1
    | _ => rfl
  cases hm with
  | refused => exact h.frame hedited (fun _ => rfl) rfl rfl
  | registered _ _ _ hp => exact h.frame hedited (stale_goto (by rw [hp]; rfl)) rfl rfl
  | acquired _ _ _ _ hout _ hclean _ _ =>
    exact h.frame hedited (stale_goto (hclean.trans (stale_of_unlocked hout).symm)) rfl rfl
  | inserted t => exact absurd rfl (ha t).1
  | erased t => exact absurd rfl (ha t).2.1
  | settled _ _ _ hclean _ => exact h.frame hedited (stale_goto hclean.symm) rfl rfl
  | built _ _ hp => exact h.frame hedited (stale_goto (by rw [hp]; rfl)) rfl rfl
  | pushed t => exact absurd rfl (ha t).2.2
  | unlocked _ hp => exact h.frame hedited (stale_goto (by rw [hp]; rfl)) rfl rfl

theorem Published.step (h : Published board past s) (hs : Sound board s)
    (hst : step board s a = some u) : Published board (past ++ [⟨s, a, u⟩]) u := by
  cases a with
  | insert t =>
    obtain ⟨c, guard, hp, rfl⟩ := insert_some hst
    refine h.edit hs.exclusive (t := t) (by rw [hp]; rfl) (by rw [hp]; rfl) ?_ rfl rfl
    exact if_pos goto_phase_self
  | erase t =>
    obtain ⟨fileId, hp, ⟨-, rfl⟩ | ⟨-, rfl⟩⟩ := erase_some hst
    · refine h.edit hs.exclusive (t := t) (by rw [hp]; rfl) (by rw [hp]; rfl) ?_ rfl rfl
      exact if_pos goto_phase_self
    · apply h.frame _ (stale_goto (by rw [hp]; rfl)) rfl rfl
      exact if_neg (by rw [goto_phase_self]; exact Phase.noConfusion)
  | push t =>
    cases step_move hst with
    | acquired _ _ _ _ _ _ _ _ ha => exact absurd rfl (ha t).2
    | settled _ _ _ _ ha => exact absurd rfl (ha t).2
    | pushed _ m hp => exact h.push hs hp rfl rfl rfl
  | _ => exact h.quiet (step_move hst) fun _ => ⟨Act.noConfusion, Act.noConfusion, Act.noConfusion⟩

/-! ## Calls to their ends -/

/-- The steps a thread has before it to the end of its call. -/
def Phase.cost : Phase → Nat
  | .idle => 0
  | .leaving => 1
  | .listing | .rebuilt _ => 2
  | .edited => 3
  | .adding _ _ | .removing _ => 4
  | .built _ _ => 5

theorem Phase.cost_le (p : Phase) : p.cost ≤ 5 := by
  cases p <;> simp [Phase.cost]

/-- The threads of a run. -/
def threads (tr : List (Trans State Act)) : Finset ThreadId :=
  (tr.map (·.act.thread)).toFinset

def State.work (ids : Finset ThreadId) (s : State) : Nat := ∑ t ∈ ids, (s.phase t).cost

theorem work_le (ids : Finset ThreadId) (s : State) : s.work ids ≤ 5 * ids.card := by
  rw [Nat.mul_comm]
  exact Finset.sum_le_card_nsmul _ _ _ fun t _ => (s.phase t).cost_le

/-- What a step does to its thread: it counts a call's effect and its return, and one that goes
on with the call brings it nearer its end. -/
structure Advances (s : State) (a : Act) (p : Phase) : Prop where
  counts : p.taken + a.returns.toNat = (s.phase a.thread).taken + a.takes.toNat
  nearer : a.GoesOn → p.cost < (s.phase a.thread).cost

theorem Advances.of_phase {q : Phase} (hq : s.phase a.thread = q)
    (hcount : p.taken + a.returns.toNat = q.taken + a.takes.toNat)
    (hcost : a.GoesOn → p.cost < q.cost) : Advances s a p := by
  subst hq
  exact ⟨hcount, hcost⟩

theorem step_thread (h : step board s a = some u) :
    ∃ p, u.phase = (s.goto a.thread p).phase ∧ Advances s a p := by
  cases a with
  | add t c =>
    simp only [step] at h
    split at h
    · rename_i hp
      cases h
      unfold State.register
      split
      · exact ⟨s.phase t, (Function.update_eq_self t s.phase).symm, rfl, False.elim⟩
      · exact ⟨_, rfl, .of_phase hp rfl False.elim⟩
    · cases h
  | lockAdd t =>
    simp only [step] at h
    split at h
    · rename_i hp
      obtain ⟨-, rfl⟩ := acquire_eq h
      exact ⟨_, rfl, .of_phase hp rfl fun _ => Nat.lt_succ_self _⟩
    · cases h
  | insert t =>
    obtain ⟨c, guard, hp, rfl⟩ := insert_some h
    exact ⟨_, rfl, .of_phase hp rfl fun _ => Nat.lt_succ_self _⟩
  | lockRemove t fileId =>
    simp only [step] at h
    split at h
    · rename_i hp
      obtain ⟨-, rfl⟩ := acquire_eq h
      exact ⟨_, rfl, .of_phase hp rfl False.elim⟩
    · cases h
  | erase t =>
    obtain ⟨fileId, hp, ⟨-, rfl⟩ | ⟨-, rfl⟩⟩ := erase_some h
    · exact ⟨_, rfl, .of_phase hp rfl fun _ => Nat.lt_succ_self _⟩
    · exact ⟨_, rfl, .of_phase hp rfl fun _ => by simp [Phase.cost]⟩
  | lockList t =>
    simp only [step] at h
    split at h
    · rename_i hp
      obtain ⟨-, rfl⟩ := acquire_eq h
      exact ⟨_, rfl, .of_phase hp rfl False.elim⟩
    · cases h
  | list t =>
    obtain ⟨hp, rfl⟩ := list_some h
    exact ⟨_, rfl, .of_phase hp rfl fun _ => Nat.lt_succ_self _⟩
  | build t now | push t | unlock t =>
    simp only [step] at h
    split at h <;> cases h
    rename_i hp
    exact ⟨_, rfl, .of_phase hp rfl fun _ => Nat.lt_succ_self _⟩

/-- A call takes effect once before it returns. -/
def Counted (past : List (Trans State Act)) (s : State) : Prop :=
  ∀ t, taken t past = returned t past + (s.phase t).taken

theorem Counted.step (h : Counted past s) (hs : step board s a = some u) :
    Counted (past ++ [⟨s, a, u⟩]) u := by
  obtain ⟨p, hphase, hadv⟩ := step_thread hs
  intro t
  have hpast := h t
  have hcounts := hadv.counts
  unfold taken returned at hpast ⊢
  rw [List.countP_append, List.countP_append, List.countP_singleton, List.countP_singleton, hphase,
    phase_goto]
  by_cases ht : t = a.thread
  · subst ht
    have htoNat (b : Bool) : (if b = true then 1 else 0) = b.toNat := by cases b <;> rfl
    rw [if_pos rfl]
    simp only [beq_self_eq_true, Bool.true_and, htoNat]
    omega
  · have hne : (a.thread == t) = false := beq_eq_false_iff_ne.mpr (Ne.symm ht)
    simpa [hne, ht] using hpast

theorem step_moves (h : step board s a = some u) : Moves State.phase a.thread s u := by
  obtain ⟨p, hphase, -⟩ := step_thread h
  intro t ht
  rw [hphase, phase_goto, if_neg ht]

theorem inner_nearer (h : Inner board s a u) :
    Moves State.phase a.thread s u ∧ (u.phase a.thread).cost < (s.phase a.thread).cost := by
  obtain ⟨p, hphase, hadv⟩ := step_thread h.2
  refine ⟨step_moves h.2, ?_⟩
  rw [hphase, goto_phase_self]
  exact hadv.nearer h.1

/-- A thread in the lock can go on. -/
theorem enabled_of_locked (hin : (s.phase t).locked = true) : ∃ a u, Inner board s a u := by
  cases hp : s.phase t with
  | idle | built => rw [hp] at hin; cases hin
  | adding c guard => exact ⟨.insert t, _, trivial, by simp only [step, hp]; rfl⟩
  | removing fileId =>
    by_cases hmem : fileId ∈ s.offers
    · exact ⟨.erase t, _, trivial, by simp only [step, hp, if_pos hmem]; rfl⟩
    · exact ⟨.erase t, _, trivial, by simp only [step, hp, if_neg hmem]; rfl⟩
  | listing => exact ⟨.list t, _, trivial, by simp only [step, hp]; rfl⟩
  | edited => exact ⟨.build t 0, _, trivial, by simp only [step, hp]; rfl⟩
  | rebuilt m => exact ⟨.push t, _, trivial, by simp only [step, hp]; rfl⟩
  | leaving => exact ⟨.unlock t, _, trivial, by simp only [step, hp]; rfl⟩

/-- No call is left waiting for the lock. -/
theorem idle_of_stuck (hx : Exclusive s) (h : Stuck (Inner board) s) (t : ThreadId) :
    s.phase t = .idle := by
  have hout (t' : ThreadId) : (s.phase t').locked ≠ true := fun hin => by
    obtain ⟨a, u, hi⟩ : ∃ a u, Inner board s a u := enabled_of_locked hin
    exact h a u hi
  have hfree : s.lock = none := by
    cases hl : s.lock with
    | none => rfl
    | some t' => exact absurd ((hx t').mpr hl) (hout t')
  cases hp : s.phase t with
  | idle => rfl
  | built c guard =>
    refine absurd ⟨trivial, ?_⟩ (h (.lockAdd t) { s.goto t (.adding c guard) with lock := some t })
    simp only [step, hp, State.acquire, if_pos hfree]
  | _ => exact absurd (by rw [hp]; rfl) (hout t)

/-! ## Runs -/

/-- **The board as one object**, over every run of calls by any threads: their effects are a
serial history of the map, with the answers they give, one effect for each call before it
returns; the manifests pushed are the versions of the map in that history, each once and in
order, but for the one that a call in the lock still has to push; and the calls under way come
to their ends, each in at most five steps, none left waiting. -/
theorem board_linear (board : OfferBoard) (now : Nat) {tr : List (Trans State Act)} {s : State}
    (h : Run (stepRel (step board)) (.new board now) tr s) :
    (Serial board.answer ∅ (effects board tr) s.offers ∧
      ∀ t, taken t tr = returned t tr + (s.phase t).taken) ∧
    (∃ due, due.length ≤ 1 ∧ (s.lock = none → due = []) ∧
      s.texts ++ due = (versions tr).map board.text) ∧
    (∀ tr' u, Run (Inner board) s tr' u → (∀ t, stepsOf Act.thread t tr' ≤ 5) ∧
      tr'.length ≤ 5 * (threads tr).card) ∧
    (∃ tr' u, Run (Inner board) s tr' u ∧ Stuck (Inner board) u) ∧
    ∀ tr' u, Run (Inner board) s tr' u → Stuck (Inner board) u → ∀ t, u.phase t = .idle := by
  obtain ⟨hsound, hpub⟩ : Sound board s ∧ Published board tr s :=
    h.inv_hist (I := fun past s => Sound board s ∧ Published board past s)
      (fun hi hs => ⟨sound_move hi.1 (step_move hs), hi.2.step hi.1 hs⟩)
      ⟨sound_new board now, .new board now⟩
  have hcount : Counted tr s := h.inv_hist (I := Counted) (fun hi hs => hi.step hs) fun _ => rfl
  have hwithin : Within State.phase .idle (threads tr) s := h.within step_moves fun _ => rfl
  have hidle : Phase.idle.cost = 0 := rfl
  have hdrains : DrainsOn (Within State.phase .idle (threads tr)) (Inner board)
      (State.work (threads tr)) := drainsOn_threads Act.thread hidle inner_nearer (threads tr)
  refine ⟨⟨serial_effects h, hcount⟩, ?_, fun _ _ hr => ?_, hdrains.exists_stuck hwithin,
    fun tr' u hr hstuck => idle_of_stuck ?_ hstuck⟩
  · by_cases hst : ∃ t, (s.phase t).stale = true
    · obtain ⟨t, ht⟩ := hst
      refine ⟨[board.text s.offers], Nat.le_refl 1, fun hfree => ?_, hpub.due t ht⟩
      have hheld := (hsound.exclusive t).mp (locked_of_stale ht)
      rw [hfree] at hheld
      cases hheld
    · refine ⟨[], Nat.zero_le 1, fun _ => rfl, ?_⟩
      rw [List.append_nil]
      exact hpub.clean fun t => Bool.eq_false_iff.mpr fun ht => hst ⟨t, ht⟩
  · refine ⟨fun t => ?_, (hdrains.length_le hwithin hr).trans (work_le _ s)⟩
    have hsteps := hr.stepsOf_le Act.thread inner_nearer t
    exact (Nat.le_of_add_right_le hsteps).trans (s.phase t).cost_le
  · exact (hr.inv (I := Exclusive) (fun hx hi => exclusive_move hx (step_move hi.2))
      hsound.exclusive).1

/-- Two threads offer a file while a third lists and removes. -/
def threeThreads : List Act :=
  let note : AddCall := ⟨"n", "note", "text/plain", .content [1, 2, 3]⟩
  [.add 0 video, .add 1 note, .lockAdd 1, .insert 1, .build 1 5, .push 1, .unlock 1, .lockList 2,
    .list 2, .unlock 2, .lockAdd 0, .insert 0, .build 0 6, .push 0, .unlock 0, .lockRemove 2 "n",
    .erase 2]

theorem board_linear_threeThreads : ∃ tr s,
    Run (stepRel (step (boardOf .w64))) (.new (boardOf .w64) 0) tr s ∧
    tr.map (·.act) = threeThreads ∧
    (Serial (boardOf .w64).answer ∅ (effects (boardOf .w64) tr) s.offers ∧
      ∀ t, taken t tr = returned t tr + (s.phase t).taken) ∧
    ∃ due, due.length ≤ 1 ∧ (s.lock = none → due = []) ∧
      s.texts ++ due = (versions tr).map (boardOf .w64).text := by
  obtain ⟨s, hs⟩ : ∃ s, exec (step (boardOf .w64)) (.new (boardOf .w64) 0) threeThreads = some s :=
    ⟨_, rfl⟩
  obtain ⟨tr, hrun, hacts⟩ := exec_run hs
  obtain ⟨hserial, htexts, -⟩ := board_linear (boardOf .w64) 0 hrun
  exact ⟨tr, s, hrun, hacts, hserial, htexts⟩

end NdnMobile.Offer
