import NdnMobile.Offer.Coherence

/-!
# Fetching a manifest while it is rebuilt

The serve loop asks the manifests of the ring, newest first, and the first that has an answer
gives it. A metadata Interest gets the newest version, and a segment Interest names one, so a
fetch goes on from the ring for as long as its manifest is in it. Two manifests built at one
clock reading have one version, and the newer answers for both: fetches survive exactly when
such manifests say the same (`survives_iff`).
-/

namespace NdnMobile.Offer

open NdnMobile.Lib NdnMobile.Packet

/-- The Interests under a manifest's name. -/
inductive Interest where
  | metadata
  | segment (version n : Nat)
  deriving DecidableEq, Repr

inductive Reply where
  | metadata (version lastSeg : Nat)
  | segment (version n : Nat) (content : Bytes)
  deriving DecidableEq, Repr

/-- The packet library's objects: their segments, and `answer_interest`, which answers for the
object's own version only. -/
structure Rdr where
  lastSeg : PreparedObject → Nat
  chunkAt : PreparedObject → Nat → Bytes
  answerInterest : PreparedObject → Interest → Option Reply
  answer_metadata : ∀ m, answerInterest m .metadata = some (.metadata m.version (lastSeg m))
  answer_segment : ∀ m v n, answerInterest m (.segment v n) =
    if v = m.version ∧ n ≤ lastSeg m then some (.segment v n (chunkAt m n)) else none

namespace Rdr

variable (R : Rdr)

/-- The manifest serve loop over a snapshot of the ring. -/
def serve : List PreparedObject → Interest → Option Reply
  | [], _ => none
  | m :: ring, i =>
    match R.answerInterest m i with
    | some reply => some reply
    | none => serve ring i

/-- Every segment of `m` is answered, and with `m`'s content. -/
def Serves (ring : List PreparedObject) (m : PreparedObject) : Prop :=
  ∀ n, n ≤ R.lastSeg m →
    R.serve ring (.segment m.version n) = some (.segment m.version n (R.chunkAt m n))

/-- Every manifest of the ring is served with its own content. -/
def Faithful (ring : List PreparedObject) : Prop := ∀ m ∈ ring, R.Serves ring m

/-- As far as both go, two manifests have the same segments. -/
def Agree (m m' : PreparedObject) : Prop :=
  ∀ n, n ≤ R.lastSeg m → n ≤ R.lastSeg m' → R.chunkAt m n = R.chunkAt m' n

/-- A consumer that got the metadata in `s₁` is served its manifest in `s₂`. -/
def FetchSurvives (s₁ s₂ : State) : Prop :=
  ∀ m, s₁.ring.head? = some m →
    R.serve s₁.ring .metadata = some (.metadata m.version (R.lastSeg m)) ∧ R.Serves s₂.ring m

end Rdr

def Act.isPush : Act → Bool
  | .push _ => true
  | _ => false

/-- How many rebuilds a run has. -/
def pushes (tr : List (Trans State Act)) : Nat := tr.countP fun x => x.act.isPush

/-- Every fetch of the run survives fewer than `MANIFEST_HISTORY` rebuilds. -/
def Survives (R : Rdr) (board : OfferBoard) (now : Nat) (tr : List (Trans State Act)) : Prop :=
  ∀ tr₁ tr₂ tr₃ s₁ s₂, tr = tr₁ ++ tr₂ ++ tr₃ →
    Run (stepRel (step board)) (.new board now) tr₁ s₁ → Run (stepRel (step board)) s₁ tr₂ s₂ →
      pushes tr₂ < manifestHistory → R.FetchSurvives s₁ s₂

/-- A manifest that is pushed agrees with those of its version that stay in the ring. -/
def Act.Fresh (R : Rdr) (s : State) : Act → Prop
  | .push t => ∀ m, s.phase t = .rebuilt m → ∀ m' ∈ s.ring.take (manifestHistory - 1),
    m'.version = m.version → R.Agree m m'
  | _ => True

variable {R : Rdr} {board : OfferBoard} {s s₁ s₂ u : State} {a : Act} {t : ThreadId}
  {m m' : PreparedObject} {ring : List PreparedObject} {now n : Nat}
  {tr tr₁ tr₂ : List (Trans State Act)}

/-! ## The serve loop -/

theorem serve_cons_segment : R.serve (m :: ring) (.segment m'.version n) =
    if m'.version = m.version ∧ n ≤ R.lastSeg m then some (.segment m'.version n (R.chunkAt m n))
    else R.serve ring (.segment m'.version n) := by
  rw [Rdr.serve, R.answer_segment]
  by_cases hv : m'.version = m.version ∧ n ≤ R.lastSeg m
  · rw [if_pos hv, if_pos hv]
  · rw [if_neg hv, if_neg hv]

/-- What part of the ring answers is the ring's answer. -/
theorem serve_append {i : Interest} (h : R.serve ring i ≠ none) (rest : List PreparedObject) :
    R.serve (ring ++ rest) i = R.serve ring i := by
  induction ring with
  | nil => exact absurd rfl h
  | cons m ring ih =>
    rw [List.cons_append, Rdr.serve, Rdr.serve]
    cases ha : R.answerInterest m i with
    | some reply => rfl
    | none =>
      refine ih fun hno => h ?_
      rw [Rdr.serve, ha]
      exact hno

/-- A manifest of the ring's version is answered for by some manifest. -/
theorem serve_ne_none (hm : m ∈ ring) (hn : n ≤ R.lastSeg m) :
    R.serve ring (.segment m.version n) ≠ none := by
  induction ring with
  | nil => cases hm
  | cons m₀ ring ih =>
    rw [serve_cons_segment]
    split
    · exact Option.some_ne_none _
    · rename_i hno
      rcases List.mem_cons.mp hm with rfl | hm
      · exact absurd ⟨rfl, hn⟩ hno
      · exact ih hm

/-- The manifests that stay are served as before. -/
theorem Rdr.Faithful.take (h : R.Faithful ring) (k : Nat) : R.Faithful (ring.take k) := by
  intro m hm n hn
  have hserve := serve_append (serve_ne_none hm hn) (ring.drop k)
  rw [List.take_append_drop] at hserve
  rw [← hserve]
  exact h m (List.mem_of_mem_take hm) n hn

/-- A newer manifest on top is faithful just where it agrees with those of its version. -/
theorem faithful_cons_iff (h : R.Faithful ring) : R.Faithful (m :: ring) ↔
    ∀ m' ∈ ring, m'.version = m.version → R.Agree m m' := by
  constructor
  · intro hf m' hm' hv n hn hn'
    have hs := hf m' (List.mem_cons_of_mem _ hm') n hn'
    rw [serve_cons_segment, if_pos ⟨hv, hn⟩, Option.some.injEq] at hs
    exact (Reply.segment.inj hs).2.2
  · intro ha m' hm' n hn
    rw [serve_cons_segment]
    rcases List.mem_cons.mp hm' with rfl | hm'
    · rw [if_pos ⟨rfl, hn⟩]
    · by_cases hv : m'.version = m.version ∧ n ≤ R.lastSeg m
      · rw [if_pos hv, ha m' hm' hv.1 n hv.2 hn]
      · rw [if_neg hv]
        exact h m' hm' n hn

/-! ## One rebuild -/

theorem ring_push (m : PreparedObject) (s : State) :
    (m :: s.ring).take manifestHistory = m :: s.ring.take (manifestHistory - 1) := rfl

theorem Act.fresh_of_ne (h : ∀ t, a ≠ .push t) : a.Fresh R s := by
  cases a with
  | push t => exact absurd rfl (h t)
  | _ => trivial

theorem Act.isPush_of_ne (h : ∀ t, a ≠ .push t) : a.isPush = false := by
  cases a with
  | push t => exact absurd rfl (h t)
  | _ => rfl

/-- A step keeps the ring faithful exactly when what it pushes agrees with what stays. -/
theorem faithful_iff_fresh (h : R.Faithful s.ring) (hm : Move board s a u) :
    R.Faithful u.ring ↔ a.Fresh R s := by
  cases hm with
  | pushed t m hp =>
    show R.Faithful ((m :: s.ring).take manifestHistory) ↔ _
    rw [ring_push m s, faithful_cons_iff (h.take _)]
    constructor
    · intro ha m' hp'
      rw [hp] at hp'
      cases hp'
      exact ha
    · intro ha
      exact ha m hp
  | acquired _ t p hfree hout hp hclean hguard ha =>
    exact iff_of_true h (Act.fresh_of_ne fun t' => (ha t').2)
  | settled _ t hin hclean ha => exact iff_of_true h (Act.fresh_of_ne fun t' => (ha t').2)
  | _ => exact iff_of_true h trivial

/-- A step adds a manifest to those pushed just if it is a push. -/
theorem rebuilds_move (hm : Move board s a u) :
    (a.isPush = false ∧ u.rebuilds = s.rebuilds ∧ u.ring = s.ring) ∨
    (a.isPush = true ∧ ∃ m, u.rebuilds = m :: s.rebuilds) := by
  cases hm with
  | pushed t m hp => exact .inr ⟨rfl, m, rfl⟩
  | acquired _ t p hfree hout hp hclean hguard ha =>
    exact .inl ⟨Act.isPush_of_ne fun t' => (ha t').2, rfl, rfl⟩
  | settled _ t hin hclean ha => exact .inl ⟨Act.isPush_of_ne fun t' => (ha t').2, rfl, rfl⟩
  | _ => exact .inl ⟨rfl, rfl, rfl⟩

/-! ## Runs -/

theorem pushes_snoc (tr : List (Trans State Act)) (x : Trans State Act) :
    pushes (tr ++ [x]) = pushes tr + if x.act.isPush then 1 else 0 := by
  unfold pushes
  rw [List.countP_append, List.countP_singleton]

/-- After a run the manifests pushed are the run's, and then those before it. -/
theorem rebuilds_run (h : Run (stepRel (step board)) s₁ tr s₂) :
    ∃ l, s₂.rebuilds = l ++ s₁.rebuilds ∧ l.length = pushes tr := by
  refine h.inv_hist (I := fun past s => ∃ l, s.rebuilds = l ++ s₁.rebuilds ∧
    l.length = pushes past) ?_ ⟨[], rfl, rfl⟩
  rintro past s a u ⟨l, hl, hlen⟩ hst
  rw [pushes_snoc]
  rcases rebuilds_move (step_move hst) with ⟨ha, hr, -⟩ | ⟨ha, m, hr⟩
  · exact ⟨l, hr.trans hl, by rw [ha]; exact hlen⟩
  · exact ⟨m :: l, by rw [hr, hl]; rfl, by rw [ha, List.length_cons, hlen]; rfl⟩

theorem kept_run (h : Run (stepRel (step board)) s₁ tr s₂) (hk : Kept s₁) : Kept s₂ :=
  (h.inv (I := Kept) (fun hk hst => kept_move hk (step_move hst)) hk).1

theorem Kept.head (h : Kept s) : s.ring.head? = s.rebuilds.head? := by
  rw [h.latest]
  cases hr : s.rebuilds with
  | nil => rfl
  | cons m l => rfl

/-- The newest manifest stays in the ring for fewer than `MANIFEST_HISTORY` rebuilds. -/
theorem mem_ring_run (h : Run (stepRel (step board)) s₁ tr s₂) (hk : Kept s₁)
    (hm : s₁.ring.head? = some m) (hlt : pushes tr < manifestHistory) : m ∈ s₂.ring := by
  obtain ⟨l, hl, hlen⟩ := rebuilds_run h
  have hat : s₂.rebuilds[l.length]? = some m := by
    rw [hl, List.getElem?_append_right (Nat.le_refl _), Nat.sub_self, ← List.head?_eq_getElem?,
      ← hk.head, hm]
  rw [(kept_run h hk).latest]
  apply List.mem_of_getElem? (i := l.length)
  rw [List.getElem?_take, if_pos (hlen ▸ hlt), hat]

theorem kept_new (board : OfferBoard) (now : Nat) : Kept (.new board now) :=
  ⟨rfl, List.cons_ne_nil _ _⟩

/-- Manifest `m` was the newest `i` rebuilds before the end of a run. -/
def NewestBefore (board : OfferBoard) (now : Nat) (tr : List (Trans State Act)) (u : State)
    (i : Nat) (m : PreparedObject) : Prop :=
  ∃ tr₁ tr₂ s₁, tr = tr₁ ++ tr₂ ∧ Run (stepRel (step board)) (.new board now) tr₁ s₁ ∧
    Run (stepRel (step board)) s₁ tr₂ u ∧ s₁.ring.head? = some m ∧ pushes tr₂ = i

/-- Every manifest pushed was the newest, as many rebuilds ago as there are after it. -/
theorem newestBefore_run (h : Run (stepRel (step board)) (.new board now) tr u) {i : Nat}
    (hi : u.rebuilds[i]? = some m) : NewestBefore board now tr u i m := by
  have hinv := h.inv_hist (I := fun past s =>
    Run (stepRel (step board)) (.new board now) past s ∧
      ∀ i m, s.rebuilds[i]? = some m → NewestBefore board now past s i m) ?_ ?_
  · exact hinv.2 i m hi
  · rintro past s a v ⟨hpast, hall⟩ hst
    have hsnoc : Run (stepRel (step board)) s [⟨s, a, v⟩] v := .cons hst (.nil v)
    have hv := hpast.append hsnoc
    -- what was pushed before is one rebuild older if this step is one
    have hold : ∀ j m', s.rebuilds[j]? = some m' →
        NewestBefore board now (past ++ [⟨s, a, v⟩]) v (j + if a.isPush then 1 else 0) m' := by
      intro j m' hj
      obtain ⟨tr₁, tr₂, s₁, rfl, h₁, h₂, hhead, hcount⟩ := hall j m' hj
      refine ⟨tr₁, tr₂ ++ [⟨s, a, v⟩], s₁, by rw [List.append_assoc], h₁, h₂.append hsnoc, hhead,
        ?_⟩
      rw [pushes_snoc, hcount]
    refine ⟨hv, fun j m' hj => ?_⟩
    rcases rebuilds_move (step_move hst) with ⟨ha, hr, -⟩ | ⟨ha, m₀, hr⟩
    · rw [hr] at hj
      have hj := hold j m' hj
      rwa [ha] at hj
    · rw [hr] at hj
      cases j with
      | zero =>
        refine ⟨_, [], v, (List.append_nil _).symm, hv, .nil v, ?_, rfl⟩
        rw [(kept_run hv (kept_new board now)).head, hr]
        exact hj
      | succ j =>
        have hj := hold j m' hj
        rwa [ha] at hj
  · refine ⟨.nil _, fun j m' hj => ?_⟩
    cases j with
    | zero => exact ⟨[], [], _, rfl, .nil _, .nil _, hj, rfl⟩
    | succ j => cases hj

/-- A new board serves its one manifest. -/
theorem faithful_new (R : Rdr) (board : OfferBoard) (now : Nat) :
    R.Faithful (State.new board now).ring := by
  intro m hm n hn
  rw [show (State.new board now).ring = [board.buildManifest ∅ now] from rfl,
    List.mem_singleton] at hm
  subst hm
  exact serve_cons_segment.trans (if_pos ⟨rfl, hn⟩)

/-- Fetches survive just where the ring is faithful throughout. -/
theorem survives_iff_faithful (h : Run (stepRel (step board)) (.new board now) tr u) :
    Survives R board now tr ↔ ∀ x ∈ tr, R.Faithful x.post.ring := by
  have hk := kept_new board now
  constructor
  · intro hsurv x hx m hm
    obtain ⟨past, rest, rfl⟩ := List.append_of_mem hx
    obtain ⟨v, hpast, hrest⟩ := h.of_append
    cases hrest with
    | cons hst hrest =>
      have hrun := hpast.append (.cons hst (.nil _))
      rw [(kept_run hrun hk).latest] at hm
      obtain ⟨i, hi⟩ := List.getElem?_of_mem hm
      rw [List.getElem?_take] at hi
      split at hi
      · rename_i hlt
        obtain ⟨tr₁, tr₂, s₁, heq, h₁, h₂, hhead, hcount⟩ := newestBefore_run hrun hi
        refine (hsurv tr₁ tr₂ rest s₁ _ ?_ h₁ h₂ (hcount ▸ hlt) m hhead).2
        rw [← heq, List.append_assoc]
        rfl
      · cases hi
  · intro hall tr₁ tr₂ tr₃ s₁ s₂ heq h₁ h₂ hlt m hhead
    have hmem : m ∈ s₂.ring := mem_ring_run h₂ (kept_run h₁ hk) hhead hlt
    refine ⟨?_, ?_⟩
    · cases hr : s₁.ring with
      | nil =>
        rw [hr] at hhead
        cases hhead
      | cons m₀ ring =>
        rw [hr] at hhead
        cases hhead
        rw [Rdr.serve, R.answer_metadata]
    · by_cases hnil : tr₁ ++ tr₂ = []
      · obtain ⟨rfl, rfl⟩ := List.append_eq_nil_iff.mp hnil
        cases h₁
        cases h₂
        exact faithful_new R board now m hmem
      · obtain ⟨x, hx, rfl⟩ := (h₁.append h₂).last_mem hnil
        exact hall x (heq ▸ List.mem_append_left _ hx) m hmem

/-- Fetches survive rebuilds exactly when each manifest that is pushed agrees with those of its
version that stay in the ring. -/
theorem survives_iff (R : Rdr) (board : OfferBoard) (now : Nat) {tr : List (Trans State Act)}
    {u : State} (hrun : Run (stepRel (step board)) (.new board now) tr u) :
    Survives R board now tr ↔ ∀ x ∈ tr, x.act.Fresh R x.pre := by
  rw [survives_iff_faithful hrun]
  refine hrun.exact (I := fun s => R.Faithful s.ring) (C := fun s a => a.Fresh R s)
    (P := fun x => R.Faithful x.post.ring) ?_ ?_ (faithful_new R board now)
  · intro s a u hs hst
    exact faithful_iff_fresh hs (step_move hst)
  · intro s a u hs hf hst
    exact (faithful_iff_fresh hs (step_move hst)).mpr hf

/-- A manifest that is pushed has a version of its own. -/
def Act.later (s : State) : Act → Bool
  | .push t =>
    match s.phase t with
    | .rebuilt m => s.ring.all fun m' => m'.version != m.version
    | _ => true
  | _ => true

/-- With a clock that went on since the last rebuilds, all is well. -/
theorem Act.fresh_of_later (h : a.later s = true) (R : Rdr) : a.Fresh R s := by
  cases a with
  | push t =>
    intro m hp m' hm' hv
    unfold Act.later at h
    dsimp only at h
    rw [hp] at h
    have hne := List.all_eq_true.mp h m' (List.mem_of_mem_take hm')
    exact absurd hv (bne_iff_ne.mp hne)
  | _ => trivial

/-- Content cut into chunks. -/
def Rdr.std : Rdr where
  lastSeg m := (m.content.length - 1) / m.chunk
  chunkAt m n := (m.content.drop (n * m.chunk)).take m.chunk
  answerInterest m
    | .metadata => some (.metadata m.version ((m.content.length - 1) / m.chunk))
    | .segment v n =>
      if v = m.version ∧ n ≤ (m.content.length - 1) / m.chunk then
        some (.segment v n ((m.content.drop (n * m.chunk)).take m.chunk))
      else none
  answer_metadata _ := rfl
  answer_segment _ _ _ := rfl

theorem survives_iff_videoActs :
    ∃ tr u, Run (stepRel (step (boardOf .w64))) (.new (boardOf .w64) 0) tr u ∧
    tr.map (·.act) = videoActs ∧ Survives .std (boardOf .w64) 0 tr := by
  obtain ⟨u, hu⟩ : ∃ u, exec (guarded (fun s a => a.later s) (step (boardOf .w64)))
    (.new (boardOf .w64) 0) videoActs = some u := ⟨_, rfl⟩
  obtain ⟨tr, hrun, hacts, hlater⟩ := exec_guarded hu
  exact ⟨tr, u, hrun, hacts, (survives_iff .std (boardOf .w64) 0 hrun).mpr fun x hx =>
    Act.fresh_of_later (hlater x hx) .std⟩

/-- A video is added while the clock shows what it showed when the board was set up. -/
def hastyActs : List Act := [.add 0 video, .lockAdd 0, .insert 0, .build 0 0, .push 0, .unlock 0]

/-- The first segment of the empty manifest is now the new one's. -/
theorem survives_fails : ¬ ∀ (R : Rdr) (board : OfferBoard) (now : Nat)
    (tr : List (Trans State Act)) (u : State),
      Run (stepRel (step board)) (.new board now) tr u → Survives R board now tr := by
  intro h
  let first := (boardOf .w64).buildManifest ∅ 0
  have hmixed : ((exec (step (boardOf .w64)) (.new (boardOf .w64) 0) hastyActs).map fun u =>
      decide (Rdr.std.serve u.ring (.segment 0 0) =
        some (.segment 0 0 (Rdr.std.chunkAt first 0)))) = some false := by
    decide +kernel
  obtain ⟨u, hu, hd⟩ := Option.map_eq_some_iff.mp hmixed
  obtain ⟨tr, hrun, hacts⟩ := exec_run hu
  have hcount : pushes tr < manifestHistory := by
    have hmap : pushes tr = (tr.map (·.act)).countP Act.isPush := by
      rw [List.countP_map]
      rfl
    rw [hmap, hacts]
    decide
  have hserved := (h .std (boardOf .w64) 0 tr u hrun [] tr [] _ u (by simp) (.nil _) hrun hcount
    first rfl).2 0 (Nat.zero_le _)
  exact of_decide_eq_false hd hserved

end NdnMobile.Offer
