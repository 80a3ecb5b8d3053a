import NdnMobile.Identity.Coherence
import NdnMobile.Lib.Split

/-!
# Calls that fail

A call that returns an error should leave the signer and the certificate as they were. Each
call of the core writes them after its last step that can fail, except `load_identity`, which
asks for the DID of what it has installed: a key name without a `/KEY/` component is refused
only then, with the new key already loaded (`rollsBack_iff`).
-/

namespace NdnMobile.Identity

open NdnMobile.Lib NdnMobile.Packet

variable (P : Platform)

/-- **An error leaves the signer and the certificate as they were.** -/
def RollsBack (core : IdentityCore) (c : Call) : Prop :=
  ∀ e t, (callOp P c).exec core = (.error e, t) →
    t.identity = core.identity ∧ t.certWire = core.certWire

/-- The key name leads to an identity, and the identity to a DID. -/
def HasDid (signer : Signer) : Prop :=
  ∃ idName did, identityOfKey P signer.keyName = some idName ∧
    P.did idName signer.keyName signer = .ok did

/-- The bag, the key name and the password are in order. -/
def Loads (safebag password : Bytes) (keyName : String) (bag : SafeBag) (signer : Signer) : Prop :=
  P.decodeBag safebag = .ok bag ∧ ∃ name, P.parseName keyName = some name ∧
    loadSafebag P bag password name = .ok signer

/-- A SafeBag that can be loaded is for a key with a DID, or holds what is loaded already. -/
def Call.LoadsWhole (core : IdentityCore) : Call → Prop
  | .loadIdentity safebag password keyName => ∀ bag signer,
    Loads P safebag password keyName bag signer →
      HasDid P signer ∨ (core.identity = some signer ∧ core.certWire = some bag.certificate)
  | _ => True

variable {P} {core t : IdentityCore}

/-! ## The calls that write last -/

theorem atomic_throw {α : Type} (e : NdnError) : Op.Atomic (throw e : CoreOp α) := by
  intro s e' t h
  cases h
  rfl

theorem succeeds_setIdentity (signer : Signer) : Op.Succeeds (setIdentity signer) :=
  Op.succeeds_modify _

/-- The end of a call: the certificate, the signer and the result. -/
theorem succeeds_install {α : Type} (wire : Option Bytes) (signer : Signer) (a : α) :
    Op.Succeeds (do setCertWire wire; setIdentity signer; return a : CoreOp α) :=
  (Op.succeeds_modify _).bind fun _ => (succeeds_setIdentity signer).bind fun _ =>
    Op.succeeds_pure a

/-- A check before the rest of a call. -/
theorem atomic_check {α β : Type} (r : Except NdnError α) {f : α → CoreOp β}
    (hf : ∀ a, Op.Atomic (f a)) : Op.Atomic (Op.ofExcept r >>= f) :=
  (Op.reads_ofExcept r).bind_atomic hf

theorem atomic_enroll {config : NdnEnrollConfig} {engineUp : Bool} {tsMs : Nat}
    {generated : Except String Bytes} {x : PinExchange} :
    Op.Atomic (enroll P config engineUp tsMs generated x) := by
  unfold enroll
  refine atomic_check _ fun _ => atomic_check _ fun _ => atomic_check _ fun _ =>
    atomic_check _ fun _ => atomic_check _ fun _ => Op.Succeeds.atomic ?_
  exact (succeeds_setIdentity _).bind fun _ => Op.succeeds_pure _

theorem atomic_useRemoteSigner {prefixName : String} {certWire : Bytes} :
    Op.Atomic (useRemoteSigner P prefixName certWire) := by
  unfold useRemoteSigner
  refine atomic_check _ fun _ => atomic_check _ fun _ => Op.Succeeds.atomic ?_
  exact (succeeds_setIdentity _).bind fun _ => (Op.succeeds_modify _).bind fun _ =>
    Op.succeeds_pure _

theorem atomic_enrollWithToken {config : NdnEnrollConfig} {tsMs : Nat}
    {generated : Except String Bytes} {x : TokenExchange} :
    Op.Atomic (enrollWithToken P config tsMs generated x) := by
  unfold enrollWithToken
  exact atomic_check _ fun _ => atomic_check _ fun _ => atomic_check _ fun _ =>
    atomic_check _ fun _ => (succeeds_install _ _ _).atomic

theorem atomic_enrollWithTokenEnclave {config : NdnEnrollConfig} {enclave : NdnEnclaveBackend}
    {tsMs : Nat} {x : TokenExchange} :
    Op.Atomic (enrollWithTokenEnclave P config enclave tsMs x) := by
  unfold enrollWithTokenEnclave
  exact atomic_check _ fun _ => atomic_check _ fun _ => atomic_check _ fun _ =>
    atomic_check _ fun _ => (succeeds_install _ _ _).atomic

theorem atomic_generateIdentity {name : String} {persistPassword : Bytes} {tsMs nowNs : Nat}
    {generated signing : Except String Bytes} :
    Op.Atomic (generateIdentity P name persistPassword tsMs nowNs generated signing) := by
  unfold generateIdentity
  exact atomic_check _ fun _ => atomic_check _ fun _ => atomic_check _ fun _ =>
    (succeeds_install _ _ _).atomic

theorem atomic_generateIdentityEnclave {name : String} {enclave : NdnEnclaveBackend}
    {tsMs nowNs : Nat} {signing : Except String Bytes} :
    Op.Atomic (generateIdentityEnclave P name enclave tsMs nowNs signing) := by
  unfold generateIdentityEnclave
  refine atomic_check _ fun _ => atomic_check _ fun _ => atomic_check _ fun _ =>
    atomic_check _ fun _ => Op.Succeeds.atomic ?_
  exact (succeeds_setIdentity _).bind fun _ => Op.succeeds_pure _

theorem atomic_loadIdentityEnclave {keyName certName : String} {enclave : NdnEnclaveBackend} :
    Op.Atomic (loadIdentityEnclave P keyName certName enclave) := by
  unfold loadIdentityEnclave
  refine atomic_check _ fun _ => atomic_check _ fun _ => atomic_check _ fun _ =>
    atomic_check _ fun _ => Op.Succeeds.atomic ?_
  exact (succeeds_setIdentity _).bind fun _ => Op.succeeds_pure _

theorem atomic_restoreWith {bundle : Bytes} {recoverySigner : RecoverySigner}
    {identityName : String} {persistPassword : Bytes} {env : RestoreEnv} :
    Op.Atomic (restoreWith P bundle recoverySigner identityName persistPassword env) := by
  unfold restoreWith
  refine atomic_check _ fun _ => atomic_check _ fun _ => atomic_check _ fun _ =>
    atomic_check _ fun _ => atomic_check _ fun _ => atomic_check _ fun _ =>
    atomic_check _ fun _ => atomic_check _ fun _ => atomic_check _ fun _ =>
    atomic_check _ fun _ => atomic_check _ fun _ => Op.Succeeds.atomic ?_
  exact (succeeds_setIdentity _).bind fun _ => Op.succeeds_pure _

theorem atomic_restoreIdentity {bundle recoverySeed : Bytes} {identityName : String}
    {persistPassword : Bytes} {env : RestoreEnv} :
    Op.Atomic (restoreIdentity P bundle recoverySeed identityName persistPassword env) := by
  unfold restoreIdentity
  split
  · exact atomic_throw _
  · exact atomic_restoreWith

theorem atomic_pinTrustAnchor {certWire : Bytes} : Op.Atomic (pinTrustAnchor P certWire) := by
  unfold pinTrustAnchor
  split
  · exact atomic_throw _
  · exact atomic_throw _
  · exact ((Op.succeeds_modify _).bind fun _ => Op.succeeds_pure _).atomic

/-- Every call but `load_identity`. -/
theorem atomic_callOp {c : Call} (hc : ∀ b p k, c ≠ .loadIdentity b p k) :
    Op.Atomic (callOp P c) := by
  cases c with
  | loadIdentity b p k => exact absurd rfl (hc b p k)
  | enroll => exact atomic_enroll.void
  | useRemoteSigner => exact atomic_useRemoteSigner.void
  | enrollWithToken => exact atomic_enrollWithToken.void
  | enrollWithTokenEnclave => exact atomic_enrollWithTokenEnclave.void
  | generateIdentity => exact atomic_generateIdentity.void
  | generateIdentityEnclave => exact atomic_generateIdentityEnclave.void
  | loadIdentityEnclave => exact atomic_loadIdentityEnclave.void
  | restoreIdentity => exact atomic_restoreIdentity.void
  | restoreIdentityRemote => exact atomic_restoreWith.void
  | pinTrustAnchor => exact atomic_pinTrustAnchor.void

/-! ## The call that does not -/

theorem reads_loadedDid : Op.Reads (loadedDid P) :=
  Op.reads_get.bind fun _ => (Op.reads_ofExcept _).bind fun _ => (Op.reads_ofExcept _).bind
    fun _ => Op.reads_ofExcept _

theorem loadedDid_ok {signer : Signer} (hs : core.identity = some signer) :
    (∃ did, (loadedDid P).exec core = (.ok did, t)) ↔ HasDid P signer ∧ core = t := by
  simp only [loadedDid, Op.ok_get_bind, Op.ok_ofExcept_bind, Op.ok_ofExcept, okOr_ok,
    identityErr_ok, hs, Option.some.injEq, exists_eq_left']
  constructor
  · rintro ⟨did, idName, hid, hdid, rfl⟩
    exact ⟨⟨idName, did, hid, hdid⟩, rfl⟩
  · rintro ⟨⟨idName, did, hid, hdid⟩, rfl⟩
    exact ⟨did, idName, hid, hdid, rfl⟩

/-- The core with the key and the certificate of a SafeBag. -/
def IdentityCore.install (core : IdentityCore) (bag : SafeBag) (signer : Signer) : IdentityCore :=
  { core with identity := some signer, certWire := some bag.certificate }

theorem IdentityCore.install_identity (core : IdentityCore) (bag : SafeBag) (signer : Signer) :
    (core.install bag signer).identity = some signer := rfl

/-- Once the bag is loaded, all that is left is the DID of what is then installed. -/
theorem loadIdentity_installs {safebag password : Bytes} {keyName : String} {bag : SafeBag}
    {signer : Signer} (h : Loads P safebag password keyName bag signer) :
    (loadIdentity P safebag password keyName).exec core =
      (loadedDid P).exec (core.install bag signer) := by
  obtain ⟨hb, name, hn, hs⟩ := h
  have hn' : parseName P keyName = .ok name := okOr_ok.mpr hn
  simp only [loadIdentity, setCertWire, setIdentity, Op.exec_bind, Op.exec_ofExcept, Op.exec_modify,
    identityErr_ok.mpr hb, hn', enrollErr_ok.mpr hs, IdentityCore.install]

/-- Before that nothing is written. -/
theorem loadIdentity_refused {safebag password : Bytes} {keyName : String}
    (hno : ∀ bag signer, ¬ Loads P safebag password keyName bag signer) :
    ((loadIdentity P safebag password keyName).exec core).2 = core := by
  unfold loadIdentity
  rw [Op.exec_bind, Op.exec_ofExcept]
  cases hb : identityErr "" (P.decodeBag safebag) with
  | error e => rfl
  | ok bag =>
    dsimp only
    rw [Op.exec_bind, Op.exec_ofExcept]
    cases hn : parseName P keyName with
    | error e => rfl
    | ok name =>
      dsimp only
      rw [Op.exec_bind, Op.exec_ofExcept]
      cases hs : enrollErr (loadSafebag P bag password name) with
      | error e => rfl
      | ok signer =>
        exact absurd ⟨identityErr_ok.mp hb, name, okOr_ok.mp hn, enrollErr_ok.mp hs⟩
          (hno bag signer)

theorem loadIdentity_rollsBack {safebag password : Bytes} {keyName : String} :
    RollsBack P core (.loadIdentity safebag password keyName) ↔
      (Call.loadIdentity safebag password keyName).LoadsWhole P core := by
  constructor
  · intro hroll bag signer hl
    by_cases hdid : HasDid P signer
    · exact .inl hdid
    -- the DID is refused, and what is installed stays
    right
    have hexec : (loadIdentity P safebag password keyName).exec core = _ := loadIdentity_installs hl
    have hstay := reads_loadedDid (P := P) (core.install bag signer)
    cases hx : (loadedDid P).exec (core.install bag signer) with
    | mk r t =>
      rw [hx] at hexec hstay
      cases r with
      | ok did =>
        have hok := (loadedDid_ok (core.install_identity bag signer)).mp ⟨did, hx⟩
        exact absurd hok.1 hdid
      | error e =>
        obtain ⟨hi, hw⟩ := hroll e t (Op.error_void.mpr hexec)
        subst hstay
        exact ⟨hi.symm, hw.symm⟩
  · intro hw e t he
    replace he := Op.error_void.mp he
    by_cases hl : ∃ bag signer, Loads P safebag password keyName bag signer
    · obtain ⟨bag, signer, hl⟩ := hl
      rw [loadIdentity_installs hl] at he
      have hstay := reads_loadedDid.atomic _ _ _ he
      rcases hw bag signer hl with hdid | ⟨hi, hc⟩
      · obtain ⟨did, hok⟩ := (loadedDid_ok (core.install_identity bag signer)).mpr ⟨hdid, rfl⟩
        rw [hok] at he
        cases he
      · rw [hstay]
        exact ⟨hi.symm, hc.symm⟩
    · have hstay : ((loadIdentity P safebag password keyName).exec core).2 = core :=
        loadIdentity_refused fun bag signer h => hl ⟨bag, signer, h⟩
      rw [he] at hstay
      subst hstay
      exact ⟨rfl, rfl⟩

/-! ## All calls -/

/-- **A call that fails leaves the signer and the certificate alone** exactly when it is not a
`load_identity` whose SafeBag loads but whose key name has no DID. -/
theorem rollsBack_iff (P : Platform) (core : IdentityCore) (c : Call) :
    RollsBack P core c ↔ c.LoadsWhole P core := by
  by_cases hc : ∃ b p k, c = .loadIdentity b p k
  · obtain ⟨b, p, k, rfl⟩ := hc
    exact loadIdentity_rollsBack
  · have hatomic : RollsBack P core c := fun e t he => by
      have ht := atomic_callOp (P := P) (fun b p k h => hc ⟨b, p, k, h⟩) core e t he
      exact ⟨by rw [ht], by rw [ht]⟩
    refine iff_of_true hatomic ?_
    cases c with
    | loadIdentity b p k => exact absurd ⟨b, p, k, rfl⟩ hc
    | _ => exact trivial

/-- `/a` has no `/KEY/` component. -/
theorem identityOfKey_plain : identityOfKey clearPlatform [⟨8, [97]⟩] = none := by
  have hno : splitOnce "/KEY/".toList "/a".toList = none := by simp [splitOnce]
  have h : "/a".splitOn "/KEY/" = ["/a"] := splitOn_of_splitOnce_none (by simp) hno
  have hshow : clearPlatform.showName [⟨8, [97]⟩] = "/a" := rfl
  rw [identityOfKey, hshow, h]

/-- A SafeBag under a key name without `/KEY/`: the call fails, and the key signs from then on. -/
theorem rollsBack_fails : ¬ ∀ (P : Platform) (core : IdentityCore) (c : Call),
    RollsBack P core c := by
  intro h
  have hl : Loads clearPlatform [2, 6, 9, 1, 7] [] "/a" ⟨[6, 9], [1, 7]⟩
      (clearPlatform.softwareSigner .ed25519 [7] [⟨8, [97]⟩] none) :=
    ⟨rfl, [⟨8, [97]⟩], rfl, rfl⟩
  rcases loadIdentity_rollsBack.mp (h clearPlatform .new (.loadIdentity [2, 6, 9, 1, 7] [] "/a"))
    _ _ hl with ⟨idName, did, hid, -⟩ | ⟨hi, -⟩
  · rw [show (clearPlatform.softwareSigner .ed25519 [7] [⟨8, [97]⟩] none).keyName = [⟨8, [97]⟩]
      from rfl, identityOfKey_plain] at hid
    cases hid
  · cases hi

end NdnMobile.Identity
