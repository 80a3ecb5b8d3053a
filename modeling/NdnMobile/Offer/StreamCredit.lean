import NdnMobile.Offer.ContentStream
import NdnMobile.Tunnel.Credit

/-!
# How much credit the producers can take

The budget of a content stream as a metered system, as the tunnel's is in
`NdnMobile.Tunnel.Credit`: a handler adds what its subscription asks for, at least one
permit, and the streamer takes one for each segment. `creditSafe_iff_sum` says how much both
producers stand: Interests whose credits exceed `MAX_PERMITS` altogether make a handler
panic in some order of steps, and no others do.
-/

namespace NdnMobile.Offer

open NdnMobile.Lib

/-- What a step does with the budget. -/
def ContentStream.use (cs : ContentStream) : ContentAct → Option Use
  | .handle i _ => (cs.subscription i).map fun n => .add (max n 1).toNat
  | .streamer .acquire => some .take
  | _ => none

variable {cs : ContentStream} {s t : ContentState} {a : ContentAct} {tg : Target}
  {st st' : Streamer} {e : StreamerEvent}

theorem grant_budget (tg : Target) (st : Streamer) (n : UInt32) : (st.grant tg n).budget =
    (st.budget.addPermits tg.maxPermits (max n 1).toNat).getD st.budget := by
  unfold Streamer.grant
  cases st.budget.addPermits tg.maxPermits (max n 1).toNat <;> rfl

theorem acquire_budget (h : st.step tg .acquire = some st') :
    st.budget.acquire = some st'.budget := by
  simp only [Streamer.step] at h
  split at h <;> cases h
  assumption

/-- Only `acquire` touches the budget. -/
theorem step_budget (h : st.step tg e = some st') (he : e ≠ .acquire) :
    st'.budget = st.budget := by
  cases e with
  | acquire => exact absurd rfl he
  | answer ok =>
    simp only [Streamer.step] at h
    split at h <;> cases h
    rfl
  | send ok =>
    simp only [Streamer.step] at h
    split at h
    · cases ok with
      | false => cases h; rfl
      | true =>
        rw [if_pos rfl] at h
        split at h <;> cases h <;> rfl
    · cases h

def streamMeter (cs : ContentStream) : Metered (stepRel (contentStep cs)) where
  limit := cs.target.maxPermits
  sem s := s.streamer.budget
  use _ := cs.use
  idle h hu := by
    cases content_move h with
    | receive | reply => rfl
    | grant hi hn => simp [ContentStream.use, hn] at hu
    | @streamer e st hst =>
      exact step_budget hst fun he => by rw [he] at hu; cases hu
  take h hu := by
    cases content_move h with
    | receive => cases hu
    | grant hi hn => simp [ContentStream.use, hn] at hu
    | reply hi hn => simp [ContentStream.use, hn] at hu
    | @streamer e st hst =>
      cases e with
      | acquire => exact acquire_budget hst
      | answer | send => cases hu
  add h hu := by
    cases content_move h with
    | receive => cases hu
    | grant hi hn =>
      simp only [ContentStream.use, hn, Option.map_some, Option.some.injEq, Use.add.injEq] at hu
      rw [← hu]
      exact grant_budget ..
    | reply hi hn => simp [ContentStream.use, hn] at hu
    | @streamer e st hst => cases e <;> cases hu

def streamInbox (cs : ContentStream) : Inbox (streamMeter cs) StreamInterest where
  request := ContentAct.received
  worth := cs.credit
  waiting s := s.pending
  step h := by
    cases content_move h with
    | receive => simp [streamMeter, ContentStream.use, ContentAct.received]
    | @grant i n found hi hn =>
      have hsum := List.sum_map_erase cs.credit hi
      have hcredit : cs.credit i = (max n 1).toNat := by rw [ContentStream.credit, hn]
      simp only [streamMeter, ContentStream.use, hn, Option.map_some, Option.elim_some, Use.added,
        ContentAct.received, Option.elim_none]
      omega
    | @reply i found hi hn =>
      have hsum := List.sum_map_erase cs.credit hi
      have hcredit : cs.credit i = 0 := by rw [ContentStream.credit, hn]
      simp only [streamMeter, ContentStream.use, hn, Option.map_none, ContentAct.received,
        Option.elim_none]
      omega
    | @streamer e st hst => cases e <;> rfl

/-- However these Interests arrive, are handled and are streamed to, no handler panics. -/
def ContentStream.CreditSafe (cs : ContentStream) (interests : List StreamInterest) : Prop :=
  (streamInbox cs).Safe (.new cs) interests

theorem streamInbox_open (cs : ContentStream) : (streamInbox cs).Open where
  arrive s i := ⟨.receive i, _, rfl, (Option.some_ne_none _).symm, rfl, rfl⟩
  serve s i rest hs := by
    have hpending : s.pending = i :: rest := hs
    have huse : (streamMeter cs).use s (.handle i false) ≠ some .take := by
      cases hn : cs.subscription i <;> simp [streamMeter, ContentStream.use, hn]
    refine ⟨.handle i false, ?_⟩
    simp only [stepRel, contentStep, hpending, List.mem_cons_self, if_true, List.erase_cons_head]
    split
    · exact ⟨_, rfl, huse, rfl, rfl⟩
    · exact ⟨_, rfl, huse, rfl, rfl⟩

theorem streamSafe_iff_sum (cs : ContentStream) (interests : List StreamInterest) :
    cs.CreditSafe interests ↔ (interests.map cs.credit).sum ≤ cs.target.maxPermits :=
  (streamInbox_open cs).safe_iff rfl rfl

/-- **Streaming credit, over every run of both producers**: no order in which these Interests
arrive, are handled and are streamed to makes `add_permits` panic, exactly where the credits
they ask for add up to at most `MAX_PERMITS`. -/
theorem creditSafe_iff (cfg : Tunnel.Config) (cs : ContentStream)
    (interests : List (Option UInt32)) (streamInterests : List StreamInterest) :
    (Tunnel.CreditSafe cfg interests ↔
      (interests.map Tunnel.credit).sum ≤ cfg.target.maxPermits) ∧
    (cs.CreditSafe streamInterests ↔
      (streamInterests.map cs.credit).sum ≤ cs.target.maxPermits) :=
  ⟨Tunnel.creditSafe_iff_sum cfg interests, streamSafe_iff_sum cs streamInterests⟩

/-- On a phone the widest subscription can be renewed once too often; where `usize` has 32 bits,
it is one too many by itself. -/
theorem creditSafe_fails :
    ¬Tunnel.CreditSafe .phone (List.replicate (2 ^ 29 + 1) (some 0xFFFFFFFF)) ∧
    ¬clipStream.CreditSafe (List.replicate (2 ^ 29 + 1) ⟨[], some [255, 255, 255, 255]⟩) ∧
    ¬Tunnel.CreditSafe ⟨⟨.w32, false⟩, .nni, []⟩ [some 0xFFFFFFFF] := by
  refine ⟨?_, ?_, ?_⟩
  · rw [Tunnel.creditSafe_iff_sum, List.map_replicate, List.sum_replicate_nat]
    decide
  · rw [streamSafe_iff_sum, List.map_replicate, List.sum_replicate_nat]
    decide
  · rw [Tunnel.creditSafe_iff_sum]
    decide

end NdnMobile.Offer
