import Mathlib.Algebra.BigOperators.Group.List.Basic
import NdnMobile.Offer.Streaming

/-!
# The content stream of a file

`OfferBoard::serve_content_stream` as one transition system: the Interests that reach the
serve handler, the handlers running in any order, and the steps of the streamer they share a
semaphore with. `InOrder` ties the streamer's counter to what it sent and `Funded` that to
the credits received; every step keeps both, so `stream_exact` holds of every run.
-/

namespace NdnMobile.Offer

open NdnMobile.Lib NdnMobile.Packet

structure StreamInterest where
  name : Name
  appParameters : Option Bytes
  deriving DecidableEq, Repr

/-- What `serve_content_stream` is called with. -/
structure ContentStream where
  target : Target
  naming : SegmentNaming
  lib : ObjectLib
  /-- `SubscriptionRequest::find_in`, and the `max_data_count` of what it finds. -/
  findIn : Bytes → Option UInt32
  versionedName : Name
  size : UInt64

namespace ContentStream

variable (cs : ContentStream)

/-- `prepared.last_seg`. -/
def last : UInt64 := cs.lib.lastSeg cs.size

/-- `prepared.versioned_name.clone().append_segment(seg)`. -/
def segName (seg : UInt64) : Name := cs.naming.appendSegment cs.versionedName seg

/-- The `max_data_count` of a subscription Interest; none for a plain one. -/
def subscription (i : StreamInterest) : Option UInt32 := i.appParameters.bind cs.findIn

end ContentStream

structure ContentState where
  streamer : Streamer
  /-- The Interests whose handler has not run. -/
  pending : List StreamInterest
  /-- The names of the segments the streamer sent, oldest first. -/
  sent : List Name
  /-- The names of the Data the handlers answered with. -/
  answered : List Name
  deriving DecidableEq, Repr

inductive ContentAct where
  /-- An Interest reaches the serve registration. -/
  | receive (i : StreamInterest)
  /-- Its handler runs; `found`: `answer_interest` finds what a plain one asks for. -/
  | handle (i : StreamInterest) (found : Bool)
  | streamer (e : StreamerEvent)
  deriving DecidableEq, Repr

namespace ContentState

/-- The task is spawned, with no budget yet. -/
def new (cs : ContentStream) : ContentState := ⟨.new cs.last, [], [], []⟩

variable (s : ContentState)

/-- The segment a step of the streamer puts on the demux. -/
def sends (cs : ContentStream) (e : StreamerEvent) : List Name :=
  if e = .send true then [cs.segName s.streamer.seg] else []

end ContentState

def contentStep (cs : ContentStream) (s : ContentState) : ContentAct → Option ContentState
  | .receive i => some { s with pending := s.pending ++ [i] }
  | .handle i found =>
    if i ∈ s.pending then
      match cs.subscription i with
      | some n => some { s with
          pending := s.pending.erase i
          streamer := s.streamer.grant cs.target n }
      | none => some { s with
          pending := s.pending.erase i
          answered := if found then i.name :: s.answered else s.answered }
    else none
  | .streamer e =>
    (s.streamer.step cs.target e).map fun st =>
      { s with streamer := st, sent := s.sent ++ s.sends cs e }

abbrev ContentTrans := Trans ContentState ContentAct

/-! ## Credit -/

/-- The Interest a step receives. -/
def ContentAct.received : ContentAct → Option StreamInterest
  | .receive i => some i
  | _ => none

namespace ContentStream

variable (cs : ContentStream)

/-- `max(max_data_count, 1)` for a subscription Interest. -/
def credit (i : StreamInterest) : Nat :=
  match cs.subscription i with
  | some n => (max n 1).toNat
  | none => 0

/-- The credit of all Interests received. -/
def credited (tr : List ContentTrans) : Nat :=
  ((tr.filterMap (·.act.received)).map cs.credit).sum

/-- Every step but the arrival and the answering of a plain Interest. -/
def streams : ContentAct → Bool
  | .receive i | .handle i _ => (cs.subscription i).isSome
  | .streamer _ => true

end ContentStream

/-- The permit taken for a segment that is not sent yet. -/
def StreamerPhase.taken : StreamerPhase → Nat
  | .answering | .sending => 1
  | _ => 0

@[simp] theorem taken_acquiring : StreamerPhase.acquiring.taken = 0 := rfl

@[simp] theorem taken_answering : StreamerPhase.answering.taken = 1 := rfl

@[simp] theorem taken_sending : StreamerPhase.sending.taken = 1 := rfl

@[simp] theorem taken_returned : StreamerPhase.returned.taken = 0 := rfl

variable {cs : ContentStream} {past : List ContentTrans} {s t : ContentState} {a : ContentAct}
  {tg : Target} {st st' : Streamer} {e : StreamerEvent}

theorem credited_snoc (x : ContentTrans) :
    cs.credited (past ++ [x]) = cs.credited past + (x.act.received.elim 0 cs.credit) := by
  rw [ContentStream.credited, filterMap_snoc, List.map_append, List.sum_append]
  cases x.act.received <;> simp [ContentStream.credited]

/-! ## What a step can do -/

/-- The steps of a streamer whose counter cannot overflow. -/
inductive StreamerMove (st : Streamer) : StreamerEvent → Streamer → Prop where
  | acquire {budget : Semaphore} : st.phase = .acquiring → st.budget.acquire = some budget →
    StreamerMove st .acquire { st with budget := budget, phase := .answering }
  | answer {ok : Bool} : st.phase = .answering →
    StreamerMove st (.answer ok) { st with phase := if ok then .sending else .returned }
  | failed : st.phase = .sending → StreamerMove st (.send false) { st with phase := .returned }
  | sent : st.phase = .sending → (st.seg + 1).toNat = st.seg.toNat + 1 →
    StreamerMove st (.send true) { st with
      seg := st.seg + 1
      phase := if st.seg + 1 ≤ st.last then .acquiring else .returned }

theorem streamer_move (hw : st.Within) (h : st.step tg e = some st') : StreamerMove st e st' := by
  cases e with
  | acquire =>
    simp only [Streamer.step] at h
    split at h <;> cases h
    exact .acquire ‹_› ‹_›
  | answer ok =>
    simp only [Streamer.step] at h
    split at h <;> cases h
    exact .answer ‹_›
  | send ok =>
    simp only [Streamer.step] at h
    split at h
    · rename_i hp
      cases ok with
      | false => cases h; exact .failed hp
      | true =>
        have hle := UInt64.le_iff_toNat_le.mp (hw.2 (by simp [hp]))
        have hlt : st.seg.toNat + (1 : UInt64).toNat < 2 ^ 64 := by
          have := hw.1
          simp only [UInt64.reduceToNat]
          omega
        rw [if_pos rfl, tg.addU64_of_lt hlt] at h
        cases h
        exact .sent hp (tg.addU64_exact (.inr hlt) (tg.addU64_of_lt hlt))
    · cases h

theorem grant_frame (tg : Target) (st : Streamer) (n : UInt32) :
    (st.grant tg n).last = st.last ∧ (st.grant tg n).seg = st.seg ∧
      (st.grant tg n).phase = st.phase := by
  unfold Streamer.grant
  split <;> exact ⟨rfl, rfl, rfl⟩

theorem taken_next (p : Prop) [Decidable p] :
    (if p then StreamerPhase.acquiring else .returned).taken = 0 := by
  split <;> rfl

theorem taken_answered (ok : Bool) :
    (if ok then StreamerPhase.sending else .returned).taken ≤ 1 := by
  cases ok <;> decide

theorem grant_permits_le (tg : Target) (st : Streamer) (n : UInt32) :
    (st.grant tg n).budget.permits ≤ st.budget.permits + (max n 1).toNat := by
  unfold Streamer.grant
  split
  · rename_i budget hb
    exact Nat.le_of_eq (Semaphore.addPermits_some hb)
  · exact Nat.le_add_right ..

inductive ContentMove (cs : ContentStream) (s : ContentState) :
    ContentAct → ContentState → Prop where
  | receive {i : StreamInterest} :
    ContentMove cs s (.receive i) { s with pending := s.pending ++ [i] }
  | grant {i : StreamInterest} {n : UInt32} {found : Bool} : i ∈ s.pending →
    cs.subscription i = some n → ContentMove cs s (.handle i found) { s with
      pending := s.pending.erase i
      streamer := s.streamer.grant cs.target n }
  | reply {i : StreamInterest} {found : Bool} : i ∈ s.pending → cs.subscription i = none →
    ContentMove cs s (.handle i found) { s with
      pending := s.pending.erase i
      answered := if found then i.name :: s.answered else s.answered }
  | streamer {e : StreamerEvent} {st : Streamer} : s.streamer.step cs.target e = some st →
    ContentMove cs s (.streamer e)
      { s with streamer := st, sent := s.sent ++ s.sends cs e }

theorem content_move (h : contentStep cs s a = some t) : ContentMove cs s a t := by
  cases a with
  | receive i => cases h; exact .receive
  | handle i found =>
    simp only [contentStep] at h
    split at h
    · rename_i hi
      split at h <;> cases h
      · exact .grant hi ‹_›
      · exact .reply hi ‹_›
    · cases h
  | streamer e =>
    obtain ⟨st, hst, rfl⟩ := Option.map_eq_some_iff.mp h
    exact .streamer hst

/-! ## Order -/

/-- What was sent are the first segments in order, and a running streamer is at the next. -/
structure InOrder (cs : ContentStream) (s : ContentState) : Prop where
  within : s.streamer.Within
  last : s.streamer.last = cs.last
  sent : s.sent = (List.range s.sent.length).map fun i => cs.segName (UInt64.ofNat i)
  bound : s.sent.length ≤ cs.last.toNat + 1
  next : s.streamer.phase ≠ .returned → s.streamer.seg.toNat = s.sent.length

theorem InOrder.new : InOrder cs (.new cs) where
  within := Streamer.within_new cs.size
  last := rfl
  sent := rfl
  bound := Nat.zero_le _
  next _ := rfl

/-- A step that sends nothing and leaves the streamer at its segment. -/
theorem InOrder.frame (h : InOrder cs s) (hw : t.streamer.Within)
    (hlast : t.streamer.last = s.streamer.last) (hseg : t.streamer.seg = s.streamer.seg)
    (hphase : t.streamer.phase ≠ .returned → s.streamer.phase ≠ .returned)
    (hsent : t.sent = s.sent) : InOrder cs t where
  within := hw
  last := hlast.trans h.last
  sent := by rw [hsent]; exact h.sent
  bound := by rw [hsent]; exact h.bound
  next hp := by rw [hseg, hsent]; exact h.next (hphase hp)

theorem InOrder.step (h : InOrder cs s) (hstep : contentStep cs s a = some t) : InOrder cs t := by
  cases content_move hstep with
  | receive => exact h.frame h.within rfl rfl id rfl
  | reply _ _ => exact h.frame h.within rfl rfl id rfl
  | @grant i n found _ _ =>
    obtain ⟨hlast, hseg, hphase⟩ := grant_frame cs.target s.streamer n
    exact h.frame (Streamer.within_grant h.within n) hlast hseg (fun hp => hphase ▸ hp) rfl
  | @streamer e st hst =>
    have hw := (Streamer.step_spec h.within hst).2.1
    cases streamer_move h.within hst with
    | acquire hp _ => exact h.frame hw rfl rfl (fun _ => by simp [hp]) (List.append_nil _)
    | answer hp => exact h.frame hw rfl rfl (fun _ => by simp [hp]) (by simp [ContentState.sends])
    | failed hp => exact h.frame hw rfl rfl (fun _ => by simp [hp]) (by simp [ContentState.sends])
    | sent hp hnext =>
      have hat := h.next (by simp [hp])
      have hle := UInt64.le_iff_toNat_le.mp (h.within.2 (by simp [hp]))
      have hone : s.sends cs (.send true) = [cs.segName (UInt64.ofNat s.sent.length)] := by
        rw [ContentState.sends, if_pos rfl, ← hat, UInt64.ofNat_toNat]
      refine ⟨hw, h.last, ?_, ?_, fun _ => ?_⟩
      · rw [hone, List.length_append, List.length_singleton, List.range_succ, List.map_append,
          ← h.sent]
        rfl
      · rw [h.last] at hle
        rw [hone, List.length_append, List.length_singleton]
        omega
      · rw [hone, List.length_append, List.length_singleton, hnext, hat]

/-! ## Credit and sends -/

/-- What was sent, the permit in hand, those in the semaphore and the credits of the Interests
not handled yet are covered by the Interests received. -/
def Funded (cs : ContentStream) (past : List ContentTrans) (s : ContentState) : Prop :=
  s.sent.length + s.streamer.phase.taken + s.streamer.budget.permits +
    (s.pending.map cs.credit).sum ≤ cs.credited past

theorem Funded.new : Funded cs [] (.new cs) := Nat.le_refl 0

theorem funded_snoc {x : ContentTrans} (hx : x.act.received = none)
    (h : Funded cs past t) : Funded cs (past ++ [x]) t := by
  rw [Funded, credited_snoc, hx]
  exact h

theorem Funded.step (h : Funded cs past s) (hin : InOrder cs s)
    (hstep : contentStep cs s a = some t) : Funded cs (past ++ [⟨s, a, t⟩]) t := by
  cases content_move hstep with
  | receive =>
    unfold Funded at h ⊢
    rw [credited_snoc, List.map_append, List.sum_append]
    simp only [List.map_cons, List.map_nil, List.sum_cons, List.sum_nil, ContentAct.received,
      Option.elim_some]
    omega
  | @grant i n found hi hn =>
    refine funded_snoc rfl ?_
    have hsum := List.sum_map_erase cs.credit hi
    have hcredit : cs.credit i = (max n 1).toNat := by rw [ContentStream.credit, hn]
    have hpermits := grant_permits_le cs.target s.streamer n
    have hphase := (grant_frame cs.target s.streamer n).2.2
    unfold Funded at h ⊢
    simp only [hphase]
    omega
  | @reply i found hi hn =>
    refine funded_snoc rfl ?_
    have hsum := List.sum_map_erase cs.credit hi
    unfold Funded at h ⊢
    simp only
    omega
  | @streamer e st hst =>
    refine funded_snoc rfl ?_
    unfold Funded at h ⊢
    cases streamer_move hin.within hst with
    | @acquire budget hp hb =>
      have hpermits := Semaphore.acquire_some hb
      simp only [hp, taken_acquiring, taken_answering, ContentState.sends, reduceCtorEq,
        ↓reduceIte, List.append_nil] at h ⊢
      omega
    | @answer ok hp =>
      have htaken := taken_answered ok
      simp only [hp, taken_answering, ContentState.sends, reduceCtorEq, ↓reduceIte,
        List.append_nil] at h ⊢
      omega
    | failed hp =>
      simp only [hp, taken_sending, taken_returned, ContentState.sends, StreamerEvent.send.injEq,
        Bool.false_eq_true, ↓reduceIte, List.append_nil] at h ⊢
      omega
    | sent hp _ =>
      simp only [hp, taken_sending, taken_next, ContentState.sends, ↓reduceIte,
        List.length_append, List.length_singleton] at h ⊢
      omega

/-! ## Plain Interests -/

/-- The state with the plain Interests taken out. -/
def ContentState.withoutPlain (cs : ContentStream) (s : ContentState) : ContentState where
  streamer := s.streamer
  pending := s.pending.filter fun i => (cs.subscription i).isSome
  sent := s.sent
  answered := []

/-- A step that concerns the stream does the same where no plain Interest ever came. -/
theorem withoutPlain_step (hv : cs.streams a = true) (h : contentStep cs s a = some t) :
    contentStep cs (s.withoutPlain cs) a = some (t.withoutPlain cs) := by
  cases content_move h with
  | @receive i =>
    have hi : (cs.subscription i).isSome = true := hv
    simp [contentStep, ContentState.withoutPlain, List.filter_append, hi]
  | @grant i n found hi hn =>
    have hmem : i ∈ (s.withoutPlain cs).pending := by
      rw [ContentState.withoutPlain, List.mem_filter, hn]
      exact ⟨hi, rfl⟩
    simp only [contentStep, if_pos hmem, hn]
    simp only [ContentState.withoutPlain, List.erase_filter]
  | reply hi hn => simp [ContentStream.streams, hn] at hv
  | @streamer e st hst =>
    have hst' : (s.withoutPlain cs).streamer.step cs.target e = some st := hst
    simp only [contentStep, hst', Option.map_some]
    rfl

/-- A plain Interest changes nothing but itself. -/
theorem withoutPlain_eq (hv : cs.streams a = false) (h : contentStep cs s a = some t) :
    t.withoutPlain cs = s.withoutPlain cs := by
  cases content_move h with
  | @receive i =>
    have hi : (cs.subscription i).isSome = false := hv
    simp [ContentState.withoutPlain, List.filter_append, hi]
  | grant hi hn => simp [ContentStream.streams, hn] at hv
  | @reply i found hi hn =>
    have hno : i ∉ s.pending.filter fun i => (cs.subscription i).isSome := by
      simp [List.mem_filter, hn]
    simp only [ContentState.withoutPlain, ← List.erase_filter, List.erase_of_not_mem hno]
  | streamer _ => cases hv

/-- **The content stream, over every run.** What the streamer has sent are the first segments
in order, each once and at most up to the last, after which the task is over; they are no more
than the subscriptions received grant; and the plain Interests of the run make no difference to
the streamer, its budget or what it sends. -/
theorem stream_exact (cs : ContentStream) {tr : List ContentTrans} {u : ContentState}
    (h : Run (stepRel (contentStep cs)) (.new cs) tr u) :
    u.sent = (List.range u.sent.length).map (fun i => cs.segName (UInt64.ofNat i)) ∧
    u.sent.Nodup ∧ u.sent.length ≤ cs.last.toNat + 1 ∧
    (u.sent.length = cs.last.toNat + 1 → u.streamer.phase = .returned) ∧
    u.sent.length ≤ cs.credited tr ∧
    ∃ tr' u', Run (stepRel (contentStep cs)) (.new cs) tr' u' ∧
      tr'.map (·.act) = (tr.map (·.act)).filter cs.streams ∧
      u'.streamer = u.streamer ∧ u'.sent = u.sent := by
  obtain ⟨hin, hfund⟩ := h.inv_hist (I := fun past s => InOrder cs s ∧ Funded cs past s)
    (fun hi hs => ⟨hi.1.step hs, hi.2.step hi.1 hs⟩) ⟨.new, .new⟩
  obtain ⟨tr', hrun, hacts⟩ : ∃ tr', Run (stepRel (contentStep cs))
      ((ContentState.new cs).withoutPlain cs) tr' (u.withoutPlain cs) ∧
      tr'.map (·.act) = (tr.map (·.act)).filter cs.streams :=
    h.erase withoutPlain_step withoutPlain_eq
  refine ⟨hin.sent, ?_, hin.bound, fun hall => ?_, ?_, tr', _, hrun, hacts, rfl, rfl⟩
  · rw [hin.sent]
    refine List.nodup_range.map_on fun i hi j hj hij => ?_
    have hbound := hin.bound
    have hlast := hin.within.1
    rw [hin.last] at hlast
    have := congrArg UInt64.toNat (cs.naming.appendSegment_inj hij)
    rw [List.mem_range] at hi hj
    rwa [UInt64.toNat_ofNat', UInt64.toNat_ofNat', Nat.mod_eq_of_lt (by omega),
      Nat.mod_eq_of_lt (by omega)] at this
  · by_contra hrun
    have hnext := hin.next hrun
    have hle := UInt64.le_iff_toNat_le.mp (hin.within.2 hrun)
    rw [hin.last] at hle
    omega
  · unfold Funded at hfund
    omega

/-! ## A clip of three segments -/

/-- Any parameters are a subscription for as many Data as they spell. -/
def clipStream : ContentStream where
  target := .mobile
  naming := .nni
  lib := .chunked
  findIn bs := some (UInt32.ofNat (beVal bs))
  versionedName := []
  size := 20000

/-- A subscription for none, which counts as one, a plain Interest beside it, and the segment
that the one permit allows. -/
def clipActs : List ContentAct :=
  let sub : StreamInterest := ⟨[], some []⟩
  let plain : StreamInterest := ⟨clipStream.segName 2, none⟩
  [.receive plain, .receive sub, .handle sub false, .streamer .acquire, .handle plain true,
    .streamer (.answer true), .streamer (.send true)]

theorem stream_exact_clip : ∃ tr u,
    Run (stepRel (contentStep clipStream)) (.new clipStream) tr u ∧
    tr.map (·.act) = clipActs ∧ u.sent = [clipStream.segName 0] ∧
    u.sent.length ≤ clipStream.credited tr := by
  obtain ⟨u, hu, hsent⟩ : ∃ u, exec (contentStep clipStream) (.new clipStream) clipActs = some u ∧
      u.sent = [clipStream.segName 0] := ⟨_, rfl, rfl⟩
  obtain ⟨tr, hrun, hacts⟩ := exec_run hu
  exact ⟨tr, u, hrun, hacts, hsent, (stream_exact clipStream hrun).2.2.2.2.1⟩

end NdnMobile.Offer
