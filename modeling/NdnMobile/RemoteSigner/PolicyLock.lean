import NdnMobile.Lib.Mutex
import NdnMobile.RemoteSigner.Authorised

/-!
# The policy's lock and the approval gate

The decision on a sign request reads the policy under its lock, and asks the gate if the policy
says so. The served responder binds the decision first; the direct one matches on it, and the
guard is a temporary of the scrutinee: it holds the lock while the gate runs. The gate is the
host's code and may grant, stop and count signing scopes itself. So the direct responder keeps
the lock off the gate exactly when it does not ask it (`approval_unlocked_iff`), and blocks when
the gate makes a call (`respond_blocks_iff`).
-/

namespace NdnMobile.RemoteSigner

open NdnMobile.Lib NdnMobile.Packet NdnMobile.Identity

/-! ## The core as one thread sees it -/

structure SigningCore where
  now : Nat
  identity : Option Signer
  signPolicy : List ScopedGrant
  /-- The thread holds the lock of `signPolicy`. -/
  policyHeld : Bool
  /-- What `approve` was shown, and whether the lock was held when it was called. -/
  prompts : List (String × Bool)

/-- No lock is held, and nothing was asked yet. -/
def SigningCore.idle (now : Nat) (identity : Option Signer) (grants : List ScopedGrant) :
    SigningCore := ⟨now, identity, grants, false, []⟩

/-- The mutex around `sign_policy`. -/
def policyMutex : Mutex SigningCore where
  held s := s.policyHeld
  set s b := { s with policyHeld := b }
  held_set _ _ := rfl

variable (C : Custody)

def activeSigningScopes : Prog SigningCore Nat :=
  policyMutex.letIn (policyMutex.lock fun s => (C.activeGrants s.signPolicy s.now % 2 ^ 32, s))
    Prog.ret

def grantSigningScope (action : NdnActionClass) (ttlSecs : Nat) : Prog SigningCore Nat := fun s =>
  let expiresAt := s.now + clampTtl ttlSecs * 1000000000
  policyMutex.letIn
    (policyMutex.lock fun s =>
      ((), { s with signPolicy := s.signPolicy ++ [⟨expiresAt, actionFilter action⟩] }))
    (fun _ => activeSigningScopes C) s

def stopSigningScope : Prog SigningCore Unit :=
  policyMutex.letIn (policyMutex.lock fun s => ((), { s with signPolicy := [] })) Prog.ret

/-! ## The gate -/

/-- What the host's `approve` does before it answers: it may take its time, and call the core. -/
inductive Gate where
  | answer (approve : Bool)
  | wait (ns : Nat) (next : Gate)
  | grant (action : NdnActionClass) (ttlSecs : Nat) (next : Nat → Gate)
  | stop (next : Gate)
  | active (next : Nat → Gate)

def Gate.run : Gate → Prog SigningCore Bool
  | .answer approve => Prog.ret approve
  | .wait ns next => fun s => next.run { s with now := s.now + ns }
  | .grant action ttlSecs next => (grantSigningScope C action ttlSecs).bind fun n => (next n).run
  | .stop next => stopSigningScope.bind fun _ => next.run
  | .active next => (activeSigningScopes C).bind fun n => (next n).run

/-- It calls the core. -/
def Gate.Calls : Gate → Prop
  | .answer _ => False
  | .wait _ next => next.Calls
  | .grant .. | .stop _ | .active _ => True

def approve (gate : String → Gate) (summary : String) : Prog SigningCore Bool := fun s =>
  (gate summary).run C { s with prompts := s.prompts ++ [(summary, s.policyHeld)] }

/-! ## The two responders -/

variable (gate : String → Gate) (req : WireSignRequest) (draw : Nat)

/-- `sign_policy.lock().unwrap().decide(..)`. -/
def decision : Prog SigningCore (Decision × Bool) :=
  policyMutex.lock fun s => (C.decide s.signPolicy req.region s.now, s)

/-- The arms on a decision, the same in both. -/
def onDecision : Decision → Prog SigningCore Bool
  | .autoApprove => Prog.ret true
  | .prompt => approve C gate (C.signingSummary req.region)

/-- `approved` in `respond_to_sign_request`. -/
def respondApproved : Prog SigningCore Bool :=
  policyMutex.matchOn (decision C req) (onDecision C gate req)

/-- `approved` in `serve_remote_signer`. -/
def serveApproved : Prog SigningCore Bool :=
  policyMutex.letIn (decision C req) (onDecision C gate req)

/-- A signer's answer to a request. -/
def signedResponse (signer : Signer) : WireSignResponse :=
  match C.sign signer req.region draw with
  | .ok signature => .approved req.reqId signature
  | .error _ => .denied req.reqId

/-- The response of the direct responder, once it is approved or not. -/
def respondReply (approved : Bool) : Prog SigningCore (Except NdnError Bytes) := fun s =>
  if approved then
    match s.identity with
    | none => .done (.error (.identity "no identity loaded")) s
    | some signer => .done (.ok (C.encodeResponse (signedResponse C req draw signer))) s
  else .done (.ok (C.encodeResponse (.denied req.reqId))) s

def respondToSignRequest (request : Bytes) : Prog SigningCore (Except NdnError Bytes) :=
  match C.decodeRequest request with
  | .error msg => Prog.ret (.error (.identity msg))
  | .ok req => (respondApproved C gate req).bind (respondReply C req draw)

/-- The content of the served responder's reply. -/
def serveReply (approved : Bool) : Prog SigningCore (Option Bytes) := fun s =>
  match if approved then s.identity else none with
  | none => .done (some (C.encodeResponse (.denied req.reqId))) s
  | some signer => .done (some (C.encodeResponse (signedResponse C req draw signer))) s

/-- The handler of `serve_remote_signer`; a request that does not decode gets no reply. -/
def serveRemoteSigner (appParameters : Option Bytes) : Prog SigningCore (Option Bytes) :=
  match appParameters with
  | none => Prog.ret none
  | some wire =>
    match C.decodeRequest wire with
    | .error _ => Prog.ret none
    | .ok req => (serveApproved C gate req).bind (serveReply C req draw)

/-- The handler ends, and each time `approve` ran the lock was free. -/
structure LockFree {α : Type} (o : Outcome SigningCore α) : Prop where
  ends : ∃ a t, o = .done a t
  prompts : ∀ p ∈ o.state.prompts, p.2 = false

variable {C} {gate} {req} {draw} {g : Gate} {s : SigningCore} {action : NdnActionClass}
  {ttlSecs now : Nat} {identity : Option Signer} {grants : List ScopedGrant} {summary : String}

/-! ## The calls of the core -/

theorem ends_activeSigningScopes : policyMutex.Ends (activeSigningScopes C) :=
  Mutex.ends_letIn Mutex.ends_ret

theorem ends_grantSigningScope : policyMutex.Ends (grantSigningScope C action ttlSecs) :=
  fun s hs => Mutex.ends_letIn (fun _ => ends_activeSigningScopes) s hs

theorem ends_stopSigningScope : policyMutex.Ends stopSigningScope := Mutex.ends_letIn Mutex.ends_ret

theorem blocks_activeSigningScopes : policyMutex.Blocks (activeSigningScopes C) :=
  Mutex.blocks_letIn

theorem blocks_grantSigningScope : policyMutex.Blocks (grantSigningScope C action ttlSecs) := by
  intro s hs
  unfold grantSigningScope
  exact Mutex.blocks_letIn s hs

theorem blocks_stopSigningScope : policyMutex.Blocks stopSigningScope := Mutex.blocks_letIn

theorem keeps_activeSigningScopes : (activeSigningScopes C).Keeps SigningCore.prompts :=
  Mutex.keeps_letIn (fun _ _ => rfl) (fun _ => rfl) Prog.keeps_ret

theorem keeps_grantSigningScope :
    (grantSigningScope C action ttlSecs).Keeps SigningCore.prompts := fun s =>
  Mutex.keeps_letIn (fun _ _ => rfl) (fun _ => rfl) (fun _ => keeps_activeSigningScopes) s

theorem keeps_stopSigningScope : stopSigningScope.Keeps SigningCore.prompts :=
  Mutex.keeps_letIn (fun _ _ => rfl) (fun _ => rfl) Prog.keeps_ret

/-! ## The gate's code -/

/-- **A gate that runs without the lock** comes to its answer, whatever it calls. -/
theorem ends_gate (g : Gate) : policyMutex.Ends (g.run C) := by
  induction g with
  | answer b => exact Mutex.ends_ret b
  | wait ns next ih => exact fun s hs => ih { s with now := s.now + ns } hs
  | grant action ttlSecs next ih => exact ends_grantSigningScope.bind ih
  | stop next ih => exact ends_stopSigningScope.bind fun _ => ih
  | active next ih => exact ends_activeSigningScopes.bind ih

/-- One that runs with it answers if it makes no call, and blocks at its first. -/
theorem gate_held (g : Gate) (s : SigningCore) (hs : s.policyHeld = true) :
    (g.Calls → ∃ t, g.run C s = .blocked t) ∧
    (¬ g.Calls → ∃ b t, g.run C s = .done b t) := by
  induction g generalizing s with
  | answer b => exact ⟨fun h => h.elim, fun _ => ⟨b, s, rfl⟩⟩
  | wait ns next ih => exact ih { s with now := s.now + ns } hs
  | grant action ttlSecs next _ =>
    exact ⟨fun _ => ⟨s, blocks_grantSigningScope.bind s hs⟩, fun h => absurd trivial h⟩
  | stop next _ =>
    exact ⟨fun _ => ⟨s, blocks_stopSigningScope.bind s hs⟩, fun h => absurd trivial h⟩
  | active next _ =>
    exact ⟨fun _ => ⟨s, blocks_activeSigningScopes.bind s hs⟩, fun h => absurd trivial h⟩

theorem keeps_gate (g : Gate) : (g.run C).Keeps SigningCore.prompts := by
  induction g with
  | answer b => exact Prog.keeps_ret b
  | wait ns next ih => exact fun s => ih { s with now := s.now + ns }
  | grant action ttlSecs next ih => exact keeps_grantSigningScope.bind ih
  | stop next ih => exact keeps_stopSigningScope.bind fun _ => ih
  | active next ih => exact keeps_activeSigningScopes.bind ih

/-- Each prompt is recorded with the lock as it was. -/
theorem prompts_approve (s : SigningCore) : (approve C gate summary s).state.prompts =
    s.prompts ++ [(summary, s.policyHeld)] := keeps_gate _ _

/-! ## The handlers -/

theorem reads_respondReply (approved : Bool) : (respondReply C req draw approved).Reads := by
  intro s
  unfold respondReply
  split
  · split <;> exact ⟨_, rfl⟩
  · exact ⟨_, rfl⟩

theorem reads_serveReply (approved : Bool) : (serveReply C req draw approved).Reads := by
  intro s
  unfold serveReply
  split <;> exact ⟨_, rfl⟩

theorem lockFree_bind_iff {α β : Type} {p : Prog SigningCore α} {f : α → Prog SigningCore β}
    (hf : ∀ a, (f a).Reads) : LockFree (p.bind f s) ↔ LockFree (p s) := by
  have hstate := Prog.state_bind_reads (p := p) hf s
  have hdone := Prog.done_bind_reads (p := p) hf s
  constructor
  · exact fun h => ⟨hdone.mp h.ends, hstate ▸ h.prompts⟩
  · exact fun h => ⟨hdone.mpr h.ends, hstate ▸ h.prompts⟩

/-- A `let` decides and is done with the lock. -/
theorem serveApproved_eq : serveApproved C gate req (.idle now identity grants) =
    onDecision C gate req (C.decide grants req.region now) (.idle now identity grants) :=
  Mutex.letIn_lock rfl

/-- The arms of a `match` run with the lock held. -/
theorem respondApproved_eq : respondApproved C gate req (.idle now identity grants) =
    (onDecision C gate req (C.decide grants req.region now)).bind
      (fun b t => .done b { t with policyHeld := false })
      { SigningCore.idle now identity grants with policyHeld := true } := Mutex.matchOn_lock rfl

theorem serveApproved_lockFree :
    LockFree (serveApproved C gate req (.idle now identity grants)) := by
  rw [serveApproved_eq]
  cases C.decide grants req.region now with
  | autoApprove => exact ⟨⟨_, _, rfl⟩, nofun⟩
  | prompt =>
    constructor
    · obtain ⟨b, t, hrun, -⟩ := ends_gate (C := C) (gate (C.signingSummary req.region))
        { SigningCore.idle now identity grants with
          prompts := [(C.signingSummary req.region, false)] } rfl
      exact ⟨b, t, hrun⟩
    · intro p hp
      have hprompts : (onDecision C gate req .prompt (.idle now identity grants)).state.prompts =
          [(C.signingSummary req.region, false)] := prompts_approve _
      rw [hprompts] at hp
      rw [List.mem_singleton.mp hp]

theorem respondApproved_prompts (h : C.decide grants req.region now = .prompt) :
    (respondApproved C gate req (.idle now identity grants)).state.prompts =
      [(C.signingSummary req.region, true)] := by
  rw [respondApproved_eq, h]
  have hkeep : ∀ b, Prog.Keeps SigningCore.prompts
      (fun t => .done b { t with policyHeld := false } : Prog SigningCore Bool) := fun _ _ => rfl
  have hgate := (keeps_gate (C := C) (gate (C.signingSummary req.region))).bind hkeep
  exact hgate { SigningCore.idle now identity grants with
    policyHeld := true, prompts := [(C.signingSummary req.region, true)] }

theorem respondApproved_lockFree_iff :
    LockFree (respondApproved C gate req (.idle now identity grants)) ↔
      C.decide grants req.region now = .autoApprove := by
  cases h : C.decide grants req.region now with
  | autoApprove =>
    rw [respondApproved_eq, h]
    exact iff_of_true ⟨⟨_, _, rfl⟩, nofun⟩ rfl
  | prompt =>
    refine iff_of_false (fun hfree => ?_) nofun
    have hheld := hfree.prompts (C.signingSummary req.region, true) (by
      rw [respondApproved_prompts h]
      exact List.mem_singleton.mpr rfl)
    cases hheld

/-- **The lock is off the gate** in the direct responder exactly when the policy approves what
it decodes, and in the served one always; nothing blocks then. -/
theorem approval_unlocked_iff (C : Custody) (now : Nat) (identity : Option Signer)
    (grants : List ScopedGrant) (gate : String → Gate) (draw : Nat) :
    (∀ request, LockFree (respondToSignRequest C gate draw request (.idle now identity grants)) ↔
      ∀ req, C.decodeRequest request = .ok req →
        C.decide grants req.region now = .autoApprove) ∧
    ∀ appParameters,
      LockFree (serveRemoteSigner C gate draw appParameters (.idle now identity grants)) := by
  constructor
  · intro request
    unfold respondToSignRequest
    cases C.decodeRequest request with
    | error msg => exact iff_of_true ⟨⟨_, _, rfl⟩, nofun⟩ nofun
    | ok req =>
      dsimp only
      rw [lockFree_bind_iff reads_respondReply, respondApproved_lockFree_iff]
      constructor
      · intro h req' hreq
        cases hreq
        exact h
      · exact fun h => h req rfl
  · intro appParameters
    unfold serveRemoteSigner
    cases appParameters with
    | none => exact ⟨⟨_, _, rfl⟩, nofun⟩
    | some wire =>
      dsimp only
      cases C.decodeRequest wire with
      | error msg => exact ⟨⟨_, _, rfl⟩, nofun⟩
      | ok req => exact (lockFree_bind_iff reads_serveReply).mpr serveApproved_lockFree

/-- The gate's own first call. -/
theorem approval_unlocked_fails : ¬ ∀ (C : Custody) (now : Nat) (identity : Option Signer)
    (grants : List ScopedGrant) (gate : String → Gate) (draw : Nat) (request : Bytes),
    LockFree (respondToSignRequest C gate draw request (.idle now identity grants)) := by
  intro h
  obtain ⟨a, t, hends⟩ := (h plainCustody 0 none [] (fun _ => .stop (.answer true)) 0
    [0, 0, 0, 0, 0, 0, 0, 7]).ends
  cases hends

/-- **A direct request blocks for ever** exactly when the policy leaves it to a gate that makes a
call. -/
theorem respond_blocks_iff (C : Custody) (now : Nat) (identity : Option Signer)
    (grants : List ScopedGrant) (gate : String → Gate) (draw : Nat) (request : Bytes) :
    (∃ t, respondToSignRequest C gate draw request (.idle now identity grants) = .blocked t) ↔
      ∃ req, C.decodeRequest request = .ok req ∧ C.decide grants req.region now = .prompt ∧
        (gate (C.signingSummary req.region)).Calls := by
  unfold respondToSignRequest
  cases C.decodeRequest request with
  | error msg =>
    refine iff_of_false ?_ ?_
    · rintro ⟨t, ht⟩
      cases ht
    · rintro ⟨req, hreq, -⟩
      cases hreq
  | ok req =>
    dsimp only
    rw [Prog.blocked_bind_reads reads_respondReply, respondApproved_eq]
    cases hd : C.decide grants req.region now with
    | autoApprove =>
      refine iff_of_false ?_ ?_
      · rintro ⟨t, ht⟩
        cases ht
      · rintro ⟨req', hreq, hd', -⟩
        cases hreq
        rw [hd] at hd'
        cases hd'
    | prompt =>
      have hgate := gate_held (C := C) (gate (C.signingSummary req.region))
        { SigningCore.idle now identity grants with
          policyHeld := true, prompts := [(C.signingSummary req.region, true)] } rfl
      constructor
      · intro hblock
        refine ⟨req, rfl, hd, ?_⟩
        by_contra hcalls
        obtain ⟨b, t, hrun⟩ := hgate.2 hcalls
        obtain ⟨t', ht'⟩ := hblock
        rw [Prog.bind, show onDecision C gate req .prompt
          { SigningCore.idle now identity grants with policyHeld := true } = .done b t from
          hrun] at ht'
        cases ht'
      · rintro ⟨req', hreq, -, hcalls⟩
        cases hreq
        obtain ⟨t, hrun⟩ := hgate.1 hcalls
        refine ⟨t, ?_⟩
        rw [Prog.bind, show onDecision C gate req .prompt
          { SigningCore.idle now identity grants with policyHeld := true } = .blocked t from hrun]

/-! ## The lock among all requests -/

/-- `approved` for a request that came this way. -/
def approvedVia (C : Custody) (gate : String → Gate) (req : WireSignRequest) :
    Via → Prog SigningCore Bool
  | .direct => respondApproved C gate req
  | .served _ => serveApproved C gate req

/-- Where a task of the responder waits for its gate, it holds the lock just if the code does. -/
theorem decideStep_policyLock (C : Custody) (gate : String → Gate) (s : State) (i : Nat)
    (via : Via) (wire : Bytes) (req : WireSignRequest)
    (h : C.decide s.signPolicy req.region s.now = .prompt) :
    (approvedVia C gate req via (.idle s.now s.identity s.signPolicy)).state.prompts =
      [(C.signingSummary req.region,
        (decideStep C s i ⟨via, wire, .received req⟩ req).policyLock.isSome)] := by
  have hlock : (decideStep C s i ⟨via, wire, .received req⟩ req).policyLock =
      if via = .direct then some i else none := by
    unfold decideStep
    rw [h]
  rw [hlock]
  cases via with
  | direct => exact respondApproved_prompts h
  | served name =>
    show (serveApproved C gate req _).state.prompts = _
    rw [serveApproved_eq, h]
    exact prompts_approve _

end NdnMobile.RemoteSigner
