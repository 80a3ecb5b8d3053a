import NdnMobile.Lib.Drain
import NdnMobile.Offer.ContentStream

/-!
# The content stream sends all it can

The steps the server takes by itself (`ContentInner`: a handler runs, the streamer takes a
permit, reads its segment, sends it) decrease `ContentState.work`, and where none is left
the segments sent are as many as the subscriptions grant, or all of them. So whatever the
order of Interests, handlers and sends, a subscription's credit is never left over while
there are segments to send.
-/

namespace NdnMobile.Offer

open NdnMobile.Lib NdnMobile.Packet

/-- A step of the server's own that does not fail. -/
def ContentAct.Inner : ContentAct → Prop
  | .receive _ => False
  | .handle _ _ => True
  | .streamer e => e ≠ .answer false ∧ e ≠ .send false

/-- A step in which neither the object nor the connection fails. -/
def ContentAct.Sound : ContentAct → Prop
  | .streamer e => e ≠ .answer false ∧ e ≠ .send false
  | _ => True

theorem ContentAct.Inner.sound {a : ContentAct} (h : a.Inner) : a.Sound := by
  cases a with
  | receive => exact absurd h id
  | handle => trivial
  | streamer => exact h

def ContentInner (cs : ContentStream) (s : ContentState) (a : ContentAct) (t : ContentState) :
    Prop :=
  a.Inner ∧ contentStep cs s a = some t

def StreamerPhase.work : StreamerPhase → Nat
  | .answering => 2
  | .sending => 1
  | _ => 0

/-- Three steps for each permit. -/
def Streamer.work (st : Streamer) : Nat := 3 * st.budget.permits + st.phase.work

/-- And one for each handler. -/
def ContentState.work (cs : ContentStream) (s : ContentState) : Nat :=
  (s.pending.map fun i => 3 * cs.credit i + 1).sum + s.streamer.work

variable {cs : ContentStream} {past : List ContentTrans} {s t : ContentState} {a : ContentAct}
  {tg : Target} {st st' : Streamer} {e : StreamerEvent}

theorem work_next (p : Prop) [Decidable p] :
    (if p then StreamerPhase.acquiring else .returned).work = 0 := by
  split <;> rfl

theorem streamer_work (h : st.step tg e = some st') (ha : e ≠ .answer false)
    (hs : e ≠ .send false) : st'.work < st.work := by
  cases e with
  | acquire =>
    simp only [Streamer.step] at h
    split at h <;> cases h
    rename_i hp hb
    have htake := Semaphore.acquire_some hb
    simp only [Streamer.work, hp, StreamerPhase.work]
    omega
  | answer ok =>
    simp only [Streamer.step] at h
    split at h <;> cases h
    rename_i hp
    cases ok with
    | false => exact absurd rfl ha
    | true =>
      simp only [Streamer.work, hp, StreamerPhase.work, if_pos]
      omega
  | send ok =>
    simp only [Streamer.step] at h
    split at h
    · rename_i hp
      cases ok with
      | false => exact absurd rfl hs
      | true =>
        rw [if_pos rfl] at h
        split at h <;> cases h
        · simp only [Streamer.work, hp, StreamerPhase.work]
          omega
        · simp only [Streamer.work, hp, work_next]
          simp only [StreamerPhase.work]
          omega
    · cases h

theorem content_drains (cs : ContentStream) : Drains (ContentInner cs) (ContentState.work cs) := by
  rintro s a t ⟨ha, hstep⟩
  cases content_move hstep with
  | receive => exact absurd ha id
  | @grant i n found hi hn =>
    have hsum := List.sum_map_erase (fun i => 3 * cs.credit i + 1) hi
    have hcredit : cs.credit i = (max n 1).toNat := by rw [ContentStream.credit, hn]
    have hpermits := grant_permits_le cs.target s.streamer n
    have hphase := (grant_frame cs.target s.streamer n).2.2
    simp only [ContentState.work, Streamer.work, hphase]
    omega
  | @reply i found hi hn =>
    have hsum := List.sum_map_erase (fun i => 3 * cs.credit i + 1) hi
    simp only [ContentState.work]
    omega
  | streamer hst => exact Nat.add_lt_add_left (streamer_work hst ha.1 ha.2) _

/-! ## Where no step is left -/

/-- The streamer waits for a permit that nobody will add, or is through. -/
structure ContentIdle (s : ContentState) : Prop where
  pending : s.pending = []
  streamer : s.streamer.phase = .returned ∨
    s.streamer.phase = .acquiring ∧ s.streamer.budget.permits = 0

theorem content_idle (h : Stuck (ContentInner cs) s) : ContentIdle s := by
  have hno : ∀ e, e ≠ .answer false → e ≠ .send false →
      ¬ ∃ st, s.streamer.step cs.target e = some st := by
    rintro e ha hs ⟨st, hst⟩
    exact h (.streamer e) _ ⟨⟨ha, hs⟩, by simp only [contentStep, hst]; rfl⟩
  constructor
  · cases hp : s.pending with
    | nil => rfl
    | cons i pending =>
      have hi : i ∈ s.pending := hp ▸ List.mem_cons_self
      obtain ⟨t, ht⟩ : ∃ t, contentStep cs s (.handle i false) = some t := by
        simp only [contentStep, if_pos hi]
        cases cs.subscription i <;> exact ⟨_, rfl⟩
      exact absurd ⟨trivial, ht⟩ (h (.handle i false) t)
  · cases hp : s.streamer.phase with
    | returned => exact .inl rfl
    | acquiring =>
      refine .inr ⟨rfl, ?_⟩
      by_contra hpos
      have hb : s.streamer.budget.acquire = some ⟨s.streamer.budget.permits - 1⟩ :=
        if_pos (Nat.pos_of_ne_zero hpos)
      refine hno .acquire (by simp) (by simp) ?_
      simp only [Streamer.step, hp, hb]
      exact ⟨_, rfl⟩
    | answering =>
      refine absurd ?_ (hno (.answer true) (by simp) (by simp))
      simp only [Streamer.step, hp]
      exact ⟨_, rfl⟩
    | sending =>
      refine absurd ?_ (hno (.send true) (by simp) (by simp))
      simp only [Streamer.step, hp, if_pos]
      cases cs.target.addU64 s.streamer.seg 1 <;> exact ⟨_, rfl⟩

/-! ## No credit is lost -/

/-- Every credit received is sent, in hand, in the semaphore or with a handler; and a
streamer that is through has sent the last segment. -/
structure CreditKept (cs : ContentStream) (past : List ContentTrans) (s : ContentState) :
    Prop where
  credit : s.streamer.phase ≠ .returned →
    s.sent.length + s.streamer.phase.taken + s.streamer.budget.permits +
      (s.pending.map cs.credit).sum = cs.credited past
  through : s.streamer.phase = .returned → s.sent.length = cs.last.toNat + 1

theorem CreditKept.new : CreditKept cs [] (.new cs) where
  credit _ := rfl
  through h := by cases h

theorem credited_of_none {x : ContentTrans} (hx : x.act.received = none) :
    cs.credited (past ++ [x]) = cs.credited past := by
  rw [credited_snoc, hx]
  rfl

theorem credited_mono (x : ContentTrans) : cs.credited past ≤ cs.credited (past ++ [x]) := by
  rw [credited_snoc]
  exact Nat.le_add_right ..

/-- A handler whose credit fits adds all of it. -/
theorem CreditKept.grant {i : StreamInterest} {n : UInt32} (h : CreditKept cs past s)
    (hfit : cs.credited past ≤ cs.target.maxPermits) (hi : i ∈ s.pending)
    (hn : cs.subscription i = some n) {x : ContentTrans} (hx : x.act.received = none) :
    CreditKept cs (past ++ [x]) { s with
      pending := s.pending.erase i
      streamer := s.streamer.grant cs.target n } := by
  have hsum := List.sum_map_erase cs.credit hi
  have hcredit : cs.credit i = (max n 1).toNat := by rw [ContentStream.credit, hn]
  have hphase := (grant_frame cs.target s.streamer n).2.2
  refine ⟨fun hp => ?_, fun hp => h.through (hphase ▸ hp)⟩
  have hkept := h.credit (hphase ▸ hp)
  have hadd : s.streamer.budget.addPermits cs.target.maxPermits (max n 1).toNat =
      some ⟨s.streamer.budget.permits + (max n 1).toNat⟩ := if_pos (by omega)
  rw [credited_of_none hx, hphase]
  simp only [Streamer.grant, hadd]
  omega

theorem CreditKept.sent (h : CreditKept cs past s) (hin : InOrder cs s)
    (hp : s.streamer.phase = .sending) (hnext : (s.streamer.seg + 1).toNat =
      s.streamer.seg.toNat + 1) {x : ContentTrans} (hx : x.act.received = none) :
    CreditKept cs (past ++ [x]) { s with
      streamer := { s.streamer with
        seg := s.streamer.seg + 1
        phase := if s.streamer.seg + 1 ≤ s.streamer.last then .acquiring else .returned }
      sent := s.sent ++ s.sends cs (.send true) } := by
  have hkept := h.credit (by simp [hp])
  have hat := hin.next (by simp [hp])
  have hle := UInt64.le_iff_toNat_le.mp (hin.within.2 (by simp [hp]))
  have hone : (s.sends cs (.send true)).length = 1 := by rw [ContentState.sends, if_pos rfl]; rfl
  rw [hp, taken_sending] at hkept
  refine ⟨fun _ => ?_, fun hret => ?_⟩
  · rw [credited_of_none hx]
    simp only [taken_next, List.length_append, hone]
    omega
  · have hlast : ¬ s.streamer.seg + 1 ≤ s.streamer.last := fun hlt => by
      rw [if_pos hlt] at hret
      cases hret
    rw [UInt64.le_iff_toNat_le, hnext] at hlast
    rw [hin.last] at hle hlast
    simp only [List.length_append, hone]
    omega

theorem CreditKept.step (h : CreditKept cs past s) (hin : InOrder cs s) (ha : a.Sound)
    (hfit : cs.credited past ≤ cs.target.maxPermits) (hstep : contentStep cs s a = some t) :
    CreditKept cs (past ++ [⟨s, a, t⟩]) t := by
  cases content_move hstep with
  | @receive i =>
    refine ⟨fun hp => ?_, h.through⟩
    have hkept := h.credit hp
    rw [credited_snoc, List.map_append, List.sum_append]
    simp only [List.map_cons, List.map_nil, List.sum_cons, List.sum_nil, ContentAct.received,
      Option.elim_some]
    omega
  | grant hi hn => exact h.grant hfit hi hn rfl
  | @reply i found hi hn =>
    have hsum := List.sum_map_erase cs.credit hi
    have hcredit : cs.credit i = 0 := by rw [ContentStream.credit, hn]
    refine ⟨fun hp => ?_, h.through⟩
    have hkept := h.credit hp
    rw [credited_of_none rfl]
    simp only
    omega
  | @streamer e st hst =>
    cases streamer_move hin.within hst with
    | acquire hp hb =>
      have hkept := h.credit (by simp [hp])
      have htake := Semaphore.acquire_some hb
      refine ⟨fun _ => ?_, fun hret => by cases hret⟩
      rw [credited_of_none rfl]
      simp only [hp, taken_acquiring, taken_answering, ContentState.sends, reduceCtorEq,
        ↓reduceIte, List.append_nil] at hkept ⊢
      omega
    | @answer ok hp =>
      cases ok with
      | false => exact absurd rfl ha.1
      | true =>
        have hkept := h.credit (by simp [hp])
        refine ⟨fun _ => ?_, fun hret => by cases hret⟩
        rw [credited_of_none rfl]
        simpa [hp, ContentState.sends] using hkept
    | failed => exact absurd rfl ha.2
    | sent hp hnext => exact h.sent hin hp hnext rfl

/-! ## Runs -/

theorem credited_inner (tr : List ContentTrans) {tr' : List ContentTrans} {u : ContentState}
    (h : Run (ContentInner cs) s tr' u) : cs.credited (tr ++ tr') = cs.credited tr := by
  have hnone : tr'.filterMap (·.act.received) = [] := by
    refine List.filterMap_eq_nil_iff.mpr fun x hx => ?_
    obtain ⟨ha, -⟩ := h.step_of_mem hx
    unfold ContentAct.received
    split
    · rename_i hact
      rw [hact] at ha
      exact absurd ha id
    · rfl
  rw [ContentStream.credited, List.filterMap_append, hnone, List.append_nil]
  rfl

/-- The invariant of a run in which nothing fails and no credit overflows. -/
theorem creditKept_run {tr : List ContentTrans} {u : ContentState}
    (h : Run (stepRel (contentStep cs)) (.new cs) tr u) (hsound : ∀ x ∈ tr, x.act.Sound)
    (hfit : cs.credited tr ≤ cs.target.maxPermits) : InOrder cs u ∧ CreditKept cs tr u := by
  have hrun := h.inv_hist (I := fun past s => InOrder cs s ∧ ((∀ x ∈ past, x.act.Sound) →
      cs.credited past ≤ cs.target.maxPermits → CreditKept cs past s))
    (fun ⟨hin, hkept⟩ hs => ⟨hin.step hs, fun hall hle => by
      obtain ⟨hpast, hlast⟩ := List.forall_mem_append.mp hall
      have hle := Nat.le_trans (credited_mono _) hle
      exact (hkept hpast hle).step hin (hlast _ (List.mem_singleton.mpr rfl)) hle hs⟩)
    ⟨.new, fun _ _ => .new⟩
  exact ⟨hrun.1, hrun.2 hsound hfit⟩

/-- **What the server does when no Interest comes any more**: it takes finitely many steps of
its own, at most `ContentState.work`, it can take them until none is left, and then every
Interest has been handled. If neither the object nor the connection has failed and the credits
fit the semaphore, the segments sent by then are the first ones, as many as the subscriptions
grant or all there are. -/
theorem stream_drains (cs : ContentStream) {tr : List ContentTrans} {s : ContentState}
    (h : Run (stepRel (contentStep cs)) (.new cs) tr s) :
    (∀ tr' u, Run (ContentInner cs) s tr' u → tr'.length ≤ s.work cs) ∧
      (∃ tr' u, Run (ContentInner cs) s tr' u ∧ Stuck (ContentInner cs) u) ∧
      ∀ tr' u, Run (ContentInner cs) s tr' u → Stuck (ContentInner cs) u → u.pending = [] ∧
        ((∀ x ∈ tr, x.act.Sound) → cs.credited tr ≤ cs.target.maxPermits →
          u.sent = (List.range (min (cs.credited tr) (cs.last.toNat + 1))).map
            fun i => cs.segName (UInt64.ofNat i)) := by
  refine ⟨fun _ _ hr => (content_drains cs).length_le hr, (content_drains cs).exists_stuck s,
    fun tr' u hr hstuck => ?_⟩
  have hidle := content_idle hstuck
  refine ⟨hidle.pending, fun hsound hfit => ?_⟩
  have hall := h.append (hr.mono And.right)
  have hcredited := credited_inner tr hr
  have hsound' : ∀ x ∈ tr ++ tr', x.act.Sound := List.forall_mem_append.mpr
    ⟨hsound, fun x hx => (hr.step_of_mem hx).1.sound⟩
  obtain ⟨hin, hkept⟩ := creditKept_run hall hsound' (hcredited ▸ hfit)
  rw [hin.sent]
  congr 2
  rcases hidle.streamer with hp | ⟨hp, hb⟩
  · -- the last segment is sent
    have hfund := hall.inv_hist (I := fun past s => InOrder cs s ∧ Funded cs past s)
      (fun hi hs => ⟨hi.1.step hs, hi.2.step hi.1 hs⟩) ⟨.new, .new⟩
    have hle := hfund.2
    have hthrough := hkept.through hp
    rw [Funded, hcredited] at hle
    omega
  · -- every credit is used
    have hcredit := hkept.credit (by simp [hp])
    rw [hp, hb, hidle.pending, hcredited, taken_acquiring, List.map_nil, List.sum_nil] at hcredit
    have hbound := hin.bound
    omega

/-- A plain Interest and a subscription for two Data arrive. -/
def clipAsked : List ContentAct :=
  [.receive ⟨clipStream.segName 2, none⟩, .receive ⟨[], some [2]⟩]

/-- The two segments that it grants are sent, in whatever order the steps are taken. -/
theorem stream_drains_clip : ∃ tr s,
    Run (stepRel (contentStep clipStream)) (.new clipStream) tr s ∧
    tr.map (·.act) = clipAsked ∧
    (∀ tr' u, Run (ContentInner clipStream) s tr' u → tr'.length ≤ s.work clipStream) ∧
      (∃ tr' u, Run (ContentInner clipStream) s tr' u ∧ Stuck (ContentInner clipStream) u) ∧
      ∀ tr' u, Run (ContentInner clipStream) s tr' u → Stuck (ContentInner clipStream) u →
        u.pending = [] ∧ u.sent = [clipStream.segName 0, clipStream.segName 1] := by
  obtain ⟨s, hs⟩ : ∃ s, exec (contentStep clipStream) (.new clipStream) clipAsked = some s :=
    ⟨_, rfl⟩
  obtain ⟨tr, hrun, hacts⟩ := exec_run hs
  have hsound : ∀ x ∈ tr, x.act.Sound := fun x hx => by
    have hmem : x.act ∈ clipAsked := hacts ▸ List.mem_map_of_mem hx
    simp only [clipAsked, List.mem_cons, List.not_mem_nil, or_false] at hmem
    rcases hmem with h | h <;> rw [h] <;> simp [ContentAct.Sound]
  have hcredited : clipStream.credited tr = 2 := by
    have hreceived : tr.filterMap (·.act.received) = clipAsked.filterMap (·.received) := by
      rw [← hacts, List.filterMap_map]
      rfl
    rw [ContentStream.credited, hreceived]
    rfl
  obtain ⟨hbound, hend, hdone⟩ := stream_drains clipStream hrun
  refine ⟨tr, s, hrun, hacts, hbound, hend, fun tr' u hr hstuck => ?_⟩
  obtain ⟨hpending, hsent⟩ := hdone tr' u hr hstuck
  rw [hcredited] at hsent
  exact ⟨hpending, hsent hsound (by decide)⟩

end NdnMobile.Offer
