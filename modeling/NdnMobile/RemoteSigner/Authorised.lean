import NdnMobile.RemoteSigner.Signing
import NdnMobile.Lib.BigEndian

/-!
# Who authorised a signature

A request is authorised by the gate, shown the summary of the very region that is signed,
or by a scope: a grant opened at most a day before the decision and not stopped since. A
grant is opened when the policy holds it. That the policy approves only by an unexpired
grant is the one assumption about the custody library.
-/

namespace NdnMobile.RemoteSigner

open NdnMobile.Lib NdnMobile.Packet NdnMobile.Identity

/-! ## Open scopes -/

/-- The longest a grant lasts. -/
def dayNs : Nat := maxTtlSecs * 1000000000

theorem clampTtl_le (ttlSecs : Nat) : clampTtl ttlSecs * 1000000000 ≤ dayNs :=
  Nat.mul_le_mul_right _ (Nat.max_le.mpr ⟨by decide, Nat.min_le_right ..⟩)

/-- The event opened a scope that may last until a time. -/
def Opens (time : Nat) (e : Event) : Prop := ∃ since, e = .opened since ∧ time ≤ since + dayNs

/-- A scope was opened that may last until a time, and there was no stop since. -/
def ScopeOpen (time : Nat) (past : List Event) : Prop := Since (· ≠ .stopped) (Opens time) past

/-- An automatic approval is made under an open scope. -/
def ByScope (e : Event) (past : List Event) : Prop :=
  ∀ i region time, e = .decided i region .autoApprove time → ScopeOpen time past

/-- The grants the policy holds, or is about to hold, and the approvals made by them. -/
structure Scopes (s : State) : Prop where
  opening : ∀ g, .opening g ∈ s.grantCalls → g.expiresAt ≤ s.now + dayNs
  policy : ∀ g ∈ s.signPolicy, ScopeOpen g.expiresAt s.history
  approvals : Always ByScope s.history

variable {C : Custody} {s t : State} {e : Event} {i : Nat} {task : Task}
  {req : WireSignRequest}

theorem scopes_init (now : Nat) : Scopes (.init now) where
  opening := nofun
  policy := nofun
  approvals := trivial

theorem Scopes.log (h : Scopes s) (hne : e ≠ .stopped) (he : ByScope e s.history) :
    Scopes (s.log e) where
  opening := h.opening
  policy g hg := (h.policy g hg).cons hne
  approvals := ⟨he, h.approvals⟩

theorem scopeOpen_of_autoApprove (h : Scopes s) (hC : C.ApprovesByGrant) {region : Bytes}
    (hd : C.decide s.signPolicy region s.now = .autoApprove) : ScopeOpen s.now s.history := by
  obtain ⟨g, hg, hle⟩ := hC _ _ _ hd
  refine (h.policy g hg).mono ?_
  rintro e ⟨since, rfl, hu⟩
  exact ⟨since, rfl, hle.trans hu⟩

theorem scopes_decideStep (h : Scopes s) (hC : C.ApprovesByGrant) :
    Scopes (decideStep C s i task req) := by
  have hl := h.log (e := .decided i req.region (C.decide s.signPolicy req.region s.now) s.now)
    nofun fun _ _ _ heq => by
      simp only [Event.decided.injEq] at heq
      obtain ⟨-, -, hd, rfl⟩ := heq
      exact scopeOpen_of_autoApprove h hC hd
  unfold decideStep
  dsimp only
  split <;> exact ⟨hl.opening, hl.policy, hl.approvals⟩

theorem scopes_storeGrant (h : Scopes s) {k : Nat} {g : ScopedGrant}
    (hk : s.grantCalls[k]? = some (.opening g)) : Scopes ({ s with
      signPolicy := s.signPolicy ++ [g]
      grantCalls := s.grantCalls.set k .counting }.log (.opened s.now)) where
  opening g' hg' := by
    rcases List.mem_or_eq_of_mem_set hg' with hg' | hg'
    · exact h.opening g' hg'
    · cases hg'
  policy g' hg' := by
    rcases List.mem_append.mp hg' with hg' | hg'
    · exact (h.policy g' hg').cons nofun
    · cases List.mem_singleton.mp hg'
      exact .now ⟨s.now, rfl, h.opening g (List.mem_of_getElem? hk)⟩
  approvals := ⟨nofun, h.approvals⟩

/-- **Step.** -/
theorem scopes_move (hC : C.ApprovesByGrant) {a : Act} (h : Scopes s) (hm : Move C s a t) :
    Scopes t := by
  cases hm with
  | advance ns => exact ⟨fun g hg => (h.opening g hg).trans (by dsimp only; omega), h.policy,
      h.approvals⟩
  | grant action ttlSecs =>
    refine ⟨fun g hg => ?_, h.policy, h.approvals⟩
    rcases List.mem_append.mp hg with hg | hg
    · exact h.opening g hg
    · cases List.mem_singleton.mp hg
      exact Nat.add_le_add_left (clampTtl_le ttlSecs) _
  | countGrants =>
    refine ⟨fun g hg => ?_, h.policy, h.approvals⟩
    rcases List.mem_or_eq_of_mem_set hg with hg | hg
    · exact h.opening g hg
    · cases hg
  | storeGrant hk => exact scopes_storeGrant h hk
  | stop => exact ⟨h.opening, nofun, nofun, h.approvals⟩
  | load signer =>
    have hl := h.log (e := .loaded signer) nofun nofun
    exact ⟨hl.opening, hl.policy, hl.approvals⟩
  | received | refused | noParameters => exact ⟨h.opening, h.policy, h.approvals⟩
  | decide => exact scopes_decideStep h hC
  | @answer i task req approve =>
    have hl := h.log (e := .asked i (C.signingSummary req.region) approve) nofun nofun
    exact ⟨hl.opening, hl.policy, hl.approvals⟩
  | snapshot =>
    obtain ⟨phase, heq⟩ := snapshotStep_eq
    rw [heq]
    exact ⟨h.opening, h.policy, h.approvals⟩
  | @sign i task req signer draw =>
    unfold signStep
    cases signer with
    | none => exact ⟨h.opening, h.policy, h.approvals⟩
    | some signer =>
      dsimp only
      split
      · exact ⟨h.opening, h.policy, h.approvals⟩
      · rename_i signature _
        have hl := h.log (e := .signed i signer req.region signature) nofun nofun
        exact ⟨hl.opening, hl.policy, hl.approvals⟩

/-! ## The guarantee -/

variable (C) in
/-- The event authorises the task to sign the region. -/
def Authorises (i : Nat) (region : Bytes) (e : Event) (past : List Event) : Prop :=
  e = .asked i (C.signingSummary region) true ∨
    ∃ time, e = .decided i region .autoApprove time ∧ ScopeOpen time past

variable (C) in
/-- The event is a loaded signer's signature over the region, for a task authorised before. -/
def SignsAuthorised (i : Nat) (region signature : Bytes) (e : Event) (past : List Event) : Prop :=
  ∃ signer draw, e = .signed i signer region signature ∧ C.sign signer region draw = .ok signature ∧
    .loaded signer ∈ past ∧ Once (Authorises C i region) past

theorem Approves.authorises {region : Bytes} {past : List Event}
    (h : Approves C i region e past) (hs : ByScope e past) : Authorises C i region e past := by
  rcases h with h | ⟨time, h⟩
  · exact .inl h
  · exact .inr ⟨time, h, hs i region time h⟩

theorem SignsFor.authorised {region signature : Bytes} {past : List Event}
    (h : SignsFor C i region signature e past) (hs : Always ByScope past) :
    SignsAuthorised C i region signature e past := by
  obtain ⟨signer, draw, he, ho, hl, ha⟩ := h
  exact ⟨signer, draw, he, ho, hl, ha.of_always hs fun h hs _ => h.authorises hs⟩

/-- **Every Approved response is for its own request**: it echoes the request's id and carries a
signature over the request's region, made after the task was authorised. **A request that does
not decode is never signed.** -/
theorem approved_authorised (hC : C.ApprovesByGrant) {now : Nat} {tr : List (Trans State Act)}
    {u : State} (hrun : Run (stepRel (step C)) (.init now) tr u) :
    (∀ i (task : Task) reqId signature, u.tasks[i]? = some task →
      task.phase = .answered (.approved reqId signature) →
      ∃ req, C.decodeRequest task.wire = .ok req ∧ reqId = req.reqId ∧
        Once (SignsAuthorised C i req.region signature) u.history) ∧
    ∀ i (task : Task) msg, u.tasks[i]? = some task → C.decodeRequest task.wire = .error msg →
      ∀ signer region signature, .signed i signer region signature ∉ u.history := by
  have h : Inv C u := (hrun.inv (fun h hs => inv_move h (step_move hs)) (inv_init now)).1
  have hsc : Scopes u :=
    (hrun.inv (fun h hs => scopes_move hC h (step_move hs)) (scopes_init now)).1
  constructor
  · intro i task reqId signature hi hp
    have ht := h.tasks i task hi
    rw [hp] at ht
    obtain ⟨req, hd, hid, hs⟩ := ht
    exact ⟨req, hd, hid, hs.of_always hsc.approvals fun h _ ha => h.authorised ha⟩
  · intro i task msg hi hd signer region signature hm
    obtain ⟨wire, req, hw, hok, -⟩ := h.signed i signer region signature hm
    rw [State.wire, hi, Option.map_some, Option.some.injEq] at hw
    rw [hw, hok] at hd
    cases hd

/-! ## A node that signs -/

/-- A custody library with plain encodings: a request is its id in eight bytes and the region,
a signature the public key and the region, and a grant without a filter covers all. -/
def plainCustody : Custody where
  decodeRequest wire :=
    if 8 ≤ wire.length then .ok ⟨UInt64.ofNat (beVal (wire.take 8)), wire.drop 8⟩
    else .error "truncated"
  encodeResponse
    | .approved reqId signature => 1 :: beBytes 8 reqId.toNat ++ signature
    | .denied reqId => 0 :: beBytes 8 reqId.toNat
  decide grants _ now :=
    if grants.any fun g => now ≤ g.expiresAt ∧ g.actionFilter = none then .autoApprove else .prompt
  activeGrants grants now := grants.countP fun g => now ≤ g.expiresAt
  decodeName _ := none
  showName _ := ""
  sign signer region _ := .ok (signer.publicKey.getD [] ++ region)

theorem plainCustody_approvesByGrant : plainCustody.ApprovesByGrant := by
  intro grants region now h
  simp only [plainCustody, ite_eq_left_iff, reduceCtorEq, imp_false, not_not, List.any_eq_true,
    decide_eq_true_eq] at h
  obtain ⟨g, hg, hle, -⟩ := h
  exact ⟨g, hg, hle⟩

/-- The node's own key. -/
def nodeSigner : Signer := ⟨.ed25519, [], none, some [7], .software .ed25519 [1]⟩

/-- The wire of the request with this id for the region `[9]`. -/
def requestWire (reqId : UInt8) : Bytes := [0, 0, 0, 0, 0, 0, 0, reqId, 9]

/-- A request under an open scope, then one from the network that the gate approves. -/
def scopeThenGate : List Act := [
  .load nodeSigner, .grant .any 60, .storeGrant 0,
  .request (requestWire 1), .decide 0, .snapshot 0, .sign 0 0,
  .stop, .interest [] (some (requestWire 2)), .decide 1, .answer 1 true, .snapshot 1, .sign 1 0]

theorem approved_authorised_scopeThenGate : ∃ tr u,
    Run (stepRel (step plainCustody)) (.init 0) tr u ∧ tr.map (·.act) = scopeThenGate ∧
    (u.tasks.map (·.phase) = [.answered (.approved 1 [7, 9]), .answered (.approved 2 [7, 9])]) ∧
    (∀ i (task : Task) reqId signature, u.tasks[i]? = some task →
      task.phase = .answered (.approved reqId signature) →
      ∃ req, plainCustody.decodeRequest task.wire = .ok req ∧ reqId = req.reqId ∧
        Once (SignsAuthorised plainCustody i req.region signature) u.history) ∧
    ∀ i (task : Task) msg, u.tasks[i]? = some task →
      plainCustody.decodeRequest task.wire = .error msg →
      ∀ signer region signature, .signed i signer region signature ∉ u.history := by
  obtain ⟨u, hu, hp⟩ : ∃ u, exec (step plainCustody) (.init 0) scopeThenGate = some u ∧
      u.tasks.map (·.phase) = [.answered (.approved 1 [7, 9]), .answered (.approved 2 [7, 9])] :=
    ⟨_, rfl, rfl⟩
  obtain ⟨tr, hrun, hacts⟩ := exec_run hu
  exact ⟨tr, u, hrun, hacts, hp, approved_authorised plainCustody_approvesByGrant hrun⟩

end NdnMobile.RemoteSigner
