import NdnMobile.Identity.Core
import NdnMobile.Lib.Run

/-!
# The retained certificate

Two fields of the core belong together: the loaded signer and the retained certificate. A
core is `Coherent` if the certificate, when there is one, is for the signer's key. Each
call that succeeds installs a key and leaves some certificate retained, so whether the
core is coherent after it is a question about that pair.
-/

namespace NdnMobile.Identity

open NdnMobile.Lib NdnMobile.Packet

variable (P : Platform)

/-- **The retained certificate is the loaded identity's.** -/
def Coherent (core : IdentityCore) : Prop :=
  ∀ wire, core.certWire = some wire →
    ∃ signer, core.identity = some signer ∧ P.CertFor wire signer.publicKey

variable {P} {core t : IdentityCore}

theorem Coherent.announced (h : Coherent P core) {prefixName : String} {a : Announcement}
    (ha : announcePrefix P core prefixName = .ok a) :
    core.identity = some a.signer ∧ (a.body = [] ∨ P.CertFor a.body a.signer.publicKey) := by
  simp only [announcePrefix, except_bind_ok, okOr_ok] at ha
  obtain ⟨name, _, signer, hs, ha⟩ := ha
  cases ha
  refine ⟨hs, ?_⟩
  cases hw : core.certWire with
  | none => exact .inl rfl
  | some wire =>
    obtain ⟨signer', hs', hfor⟩ := h wire hw
    rw [hs] at hs'
    cases hs'
    exact .inr hfor

/-- A call of the core, with what it reads from outside. -/
inductive Call where
  | loadIdentity (safebag password : Bytes) (keyName : String)
  | enroll (config : NdnEnrollConfig) (engineUp : Bool) (tsMs : Nat)
    (generated : Except String Bytes) (x : PinExchange)
  | useRemoteSigner (prefixName : String) (certWire : Bytes)
  | enrollWithToken (config : NdnEnrollConfig) (tsMs : Nat) (generated : Except String Bytes)
    (x : TokenExchange)
  | enrollWithTokenEnclave (config : NdnEnrollConfig) (enclave : NdnEnclaveBackend) (tsMs : Nat)
    (x : TokenExchange)
  | generateIdentity (name : String) (persistPassword : Bytes) (tsMs nowNs : Nat)
    (generated signing : Except String Bytes)
  | generateIdentityEnclave (name : String) (enclave : NdnEnclaveBackend) (tsMs nowNs : Nat)
    (signing : Except String Bytes)
  | loadIdentityEnclave (keyName certName : String) (enclave : NdnEnclaveBackend)
  | restoreIdentity (bundle recoverySeed : Bytes) (identityName : String)
    (persistPassword : Bytes) (env : RestoreEnv)
  | restoreIdentityRemote (bundle : Bytes) (identityName : String) (persistPassword : Bytes)
    (recoverySigner : Bytes → Bytes) (env : RestoreEnv)
  | pinTrustAnchor (certWire : Bytes)

variable (P) in
/-- What the call does, less its result. -/
def callOp : Call → CoreOp Unit
  | .loadIdentity b p k => (loadIdentity P b p k).void
  | .enroll c up ts g x => (enroll P c up ts g x).void
  | .useRemoteSigner p w => (useRemoteSigner P p w).void
  | .enrollWithToken c ts g x => (enrollWithToken P c ts g x).void
  | .enrollWithTokenEnclave c e ts x => (enrollWithTokenEnclave P c e ts x).void
  | .generateIdentity n p ts now g sig => (generateIdentity P n p ts now g sig).void
  | .generateIdentityEnclave n e ts now sig => (generateIdentityEnclave P n e ts now sig).void
  | .loadIdentityEnclave k c e => (loadIdentityEnclave P k c e).void
  | .restoreIdentity b seed n p env => (restoreIdentity P b seed n p env).void
  | .restoreIdentityRemote b n p sign env => (restoreIdentityRemote P b n p sign env).void
  | .pinTrustAnchor w => (pinTrustAnchor P w).void

variable (P) in
/-- A call, whether it succeeds or not. -/
def step (core : IdentityCore) (c : Call) : Option IdentityCore := some ((callOp P c).exec core).2

variable (P) in
def Succeeds (core : IdentityCore) (c : Call) : Prop := ((callOp P c).exec core).1 = .ok ()

def KeyAlg.tag : KeyAlg → UInt8
  | .ed25519 => 1
  | .ecdsaP256 => 2

/-- A platform over transparent keys: a public key is its secret behind the algorithm's tag,
a password is a prefix, and a certificate is a type byte and the key. -/
def clearPlatform : Platform where
  parseName s :=
    match s.toList with
    | '/' :: cs => some ((cs.splitOn '/').map fun c => ⟨8, c.map fun ch => UInt8.ofNat ch.toNat⟩)
    | _ => none
  showName name :=
    String.ofList (name.flatMap fun c => '/' :: c.value.map fun b => Char.ofNat b.toNat)
  version n := ⟨54, nniBytes (UInt64.ofNat n)⟩
  publicKey alg secret := some (alg.tag :: secret)
  toPkcs8 alg secret := .ok (alg.tag :: secret)
  fromPkcs8 alg pkcs8 := if pkcs8.head? = some alg.tag then .ok pkcs8.tail else .error "algorithm"
  fromSeed seed := seed
  seedToPkcs8 seed := .ok (KeyAlg.ed25519.tag :: seed)
  encodeCert _ pk _ _ _ signing := signing.map fun _ => 6 :: pk
  decodeCert wire :=
    match wire with
    | 6 :: pk => .ok ⟨[], .ed25519, pk⟩
    | _ => .error (.data "no Data")
  keyStoreError msg := msg
  decodeBag wire :=
    match wire with
    | n :: rest => .ok ⟨rest.take n.toNat, rest.drop n.toNat⟩
    | [] => .error "no bag"
  encodeBag bag := UInt8.ofNat bag.certificate.length :: bag.certificate ++ bag.encryptedKey
  encryptBag cert pkcs8 password := .ok ⟨cert, password ++ pkcs8⟩
  decryptPkcs8 bag password :=
    if password.isPrefixOf bag.encryptedKey then .ok (bag.encryptedKey.drop password.length)
    else .error "password"
  bagAlgorithm bag password :=
    match bag.encryptedKey.drop password.length with
    | 1 :: _ => .ok .ed25519
    | 2 :: _ => .ok .ecdsaP256
    | _ => .error "algorithm"
  did _ _ _ := .ok "did:ndn"
  recoverFromBundle bundle _ _ _ := .ok bundle
  decode_encode {_ pk _ _ _ signing _} h := by
    cases signing with
    | error => cases h
    | ok => cases h; exact ⟨_, rfl, rfl⟩
  publicKey_pkcs8 {alg _ _ _} hp hs := by
    cases hp
    rw [List.head?_cons, if_pos rfl] at hs
    cases hs
    rfl

end NdnMobile.Identity
