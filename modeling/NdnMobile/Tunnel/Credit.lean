import NdnMobile.Lib.Metered
import NdnMobile.Tunnel.Subscription

/-!
# How much credit a tunnel's producer can take

The budget of the uplink as a metered system: a handler adds what its Interest asks for, the
streamer takes one permit for each Data. Nothing bounds what the Interests ask for, and all of
them may be handled before anything is streamed, so a list of them is safe in every order of
steps exactly where its credits fit below `MAX_PERMITS` (`creditSafe_iff_sum`).
-/

namespace NdnMobile.Tunnel

open NdnMobile.Lib

/-- What a step does with the budget. -/
def State.use (s : State) : Act → Option Use
  | .grant i => s.grants[i]?.map fun subscription => .add (credit subscription)
  | .acquire => some .take
  | _ => none

variable {cfg : Config} {s t u : State} {a : Act}

def budgetMeter (cfg : Config) : Metered (stepRel (step cfg)) where
  limit := cfg.target.maxPermits
  sem s := s.budget
  use := State.use
  idle h hu := by
    cases step_move h with
    | grant hi _ | overflow hi _ => simp [State.use, hi] at hu
    | acquire | exhausted => cases hu
    | _ => rfl
  take h hu := by
    cases step_move h with
    | acquire _ hb _ | exhausted _ hb => exact hb
    | grant hi _ | overflow hi _ => simp [State.use, hi] at hu
    | _ => cases hu
  add h hu := by
    cases step_move h with
    | grant hi hb | overflow hi hb =>
      simp only [State.use, hi, Option.map_some, Option.some.injEq, Use.add.injEq] at hu
      rw [← hu, hb]
      rfl
    | _ => cases hu

theorem use_grant_ne_take (i : Nat) : s.use (.grant i) ≠ some .take := by
  cases hi : s.grants[i]? <;> simp [State.use, hi]

/-- The subscription of the Interest that a step receives. -/
def Act.received : Act → Option (Option UInt32)
  | .interest subscription => some subscription
  | _ => none

def budgetInbox (cfg : Config) : Inbox (budgetMeter cfg) (Option UInt32) where
  request := Act.received
  worth := credit
  waiting s := s.grants
  step h := by
    cases step_move h with
    | interest => simp [budgetMeter, State.use, Act.received]
    | grant hi _ | overflow hi _ =>
      have hsum := sum_eraseIdx hi
      simp only [budgetMeter, State.use, hi, Option.map_some, Option.elim_some, Use.added,
        Act.received, Option.elim_none]
      omega
    | _ => rfl

/-- However these Interests arrive, are handled and are streamed to, no handler panics. -/
def CreditSafe (cfg : Config) (interests : List (Option UInt32)) : Prop :=
  (budgetInbox cfg).Safe .init interests

theorem budgetInbox_open (cfg : Config) : (budgetInbox cfg).Open where
  arrive s subscription := ⟨.interest subscription, _, rfl, (Option.some_ne_none _).symm, rfl, rfl⟩
  serve s subscription rest hs := by
    have hgrants : s.grants = subscription :: rest := hs
    refine ⟨.grant 0, ?_⟩
    simp only [stepRel, step, hgrants, List.getElem?_cons_zero]
    split
    · exact ⟨_, rfl, use_grant_ne_take 0, rfl, rfl⟩
    · exact ⟨_, rfl, use_grant_ne_take 0, rfl, rfl⟩

/-- **The tunnel**: no order of steps makes a handler panic exactly where the Interests ask for
no more than `MAX_PERMITS` altogether. -/
theorem creditSafe_iff_sum (cfg : Config) (interests : List (Option UInt32)) :
    CreditSafe cfg interests ↔ (interests.map credit).sum ≤ cfg.target.maxPermits :=
  (budgetInbox_open cfg).safe_iff rfl rfl

end NdnMobile.Tunnel
