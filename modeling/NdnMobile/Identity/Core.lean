import NdnMobile.Identity.Enroll

/-!
# The identity core

`IdentityCore`, the state the two FFI backends share, and the calls that change it: the
loaded signer, the retained certificate and the pinned anchors. The fields have a lock
each, so a call writes them one after the other, in the order of the source. What a call
reads from the clock, the random source, the network or the host is an argument.
-/

namespace NdnMobile.Identity

open NdnMobile.Lib NdnMobile.Packet

inductive NdnError where
  | engine (msg : String)
  | invalidName (name : String)
  | invalidAddress (addr : String)
  | identity (msg : String)
  deriving DecidableEq, Repr

structure IdentityCore where
  identity : Option Signer
  /-- The certificate of the loaded identity, retained to be served. -/
  certWire : Option Bytes
  pinnedAnchors : List Certificate
  deriving DecidableEq, Repr

/-- `IdentityCore::new`. -/
def IdentityCore.new : IdentityCore := ⟨none, none, []⟩

abbrev CoreOp := Op IdentityCore NdnError

def setCertWire (wire : Option Bytes) : CoreOp PUnit :=
  modify fun core => { core with certWire := wire }

def setIdentity (signer : Signer) : CoreOp PUnit :=
  modify fun core => { core with identity := some signer }

structure NdnEnrollConfig where
  caPrefix : String
  identity : String
  persistPassword : Bytes

structure NdnEnrolledIdentity where
  keyName : String
  certName : String
  certificate : Option Bytes
  safebag : Bytes
  deriving DecidableEq, Repr

structure NdnRecoveredIdentity where
  keyName : String
  certName : String
  safebag : Bytes
  bundle : Bytes
  deriving DecidableEq, Repr

/-- `NdnEnclaveBackend`: what the host answers. -/
structure NdnEnclaveBackend where
  isAvailable : Bool
  publicKey : Bytes

variable (P : Platform)

def parseName (name : String) : Except NdnError Name :=
  okOr (P.parseName name) (.invalidName name)

/-- The result the host persists. -/
def EnrolledIdentity.result (e : EnrolledIdentity) (safebag : Bytes) : NdnEnrolledIdentity :=
  ⟨P.showName e.keyName, P.showName e.certName, e.certificate, safebag⟩

/-- `.map_err(NdnError::identity)` on an enrollment error. -/
def enrollErr {α : Type} (x : Except EnrollError α) : Except NdnError α :=
  x.mapError fun e => .identity e.message

def identityErr {α : Type} (context : String) (x : Except String α) : Except NdnError α :=
  x.mapError fun e => .identity (context ++ e)

@[simp] theorem enrollErr_ok {α : Type} {x : Except EnrollError α} {a : α} :
    enrollErr x = .ok a ↔ x = .ok a := mapError_ok

@[simp] theorem identityErr_ok {α : Type} {context : String} {x : Except String α} {a : α} :
    identityErr context x = .ok a ↔ x = .ok a := mapError_ok

@[simp] theorem ok_setCertWire_bind {α : Type} {wire : Option Bytes} {f : PUnit → CoreOp α}
    {core t : IdentityCore} {a : α} : (setCertWire wire >>= f).exec core = (.ok a, t) ↔
      (f .unit).exec { core with certWire := wire } = (.ok a, t) := Op.ok_modify_bind

@[simp] theorem ok_setIdentity_bind {α : Type} {signer : Signer} {f : PUnit → CoreOp α}
    {core t : IdentityCore} {a : α} : (setIdentity signer >>= f).exec core = (.ok a, t) ↔
      (f .unit).exec { core with identity := some signer } = (.ok a, t) := Op.ok_modify_bind

/-! ## The loaded identity -/

/-- `split_once("/KEY/")`: what is before the first `/KEY/`. -/
def identityOfKey (keyName : Name) : Option Name :=
  match (P.showName keyName).splitOn "/KEY/" with
  | id :: _ :: _ => P.parseName id
  | _ => none

/-- `loaded_identity()?.did()`. -/
def loadedDid : CoreOp String := do
  let core ← get
  let signer ← Op.ofExcept (okOr core.identity (.identity "no identity loaded"))
  let idName ← Op.ofExcept (okOr (identityOfKey P signer.keyName)
    (.identity s!"key name {P.showName signer.keyName} has no /KEY/ component"))
  Op.ofExcept (identityErr "" (P.did idName signer.keyName signer))

def loadIdentity (safebag password : Bytes) (keyName : String) : CoreOp String := do
  let bag ← Op.ofExcept (identityErr "" (P.decodeBag safebag))
  let name ← Op.ofExcept (parseName P keyName)
  let signer ← Op.ofExcept (enrollErr (loadSafebag P bag password name))
  setCertWire (some bag.certificate)
  setIdentity signer
  loadedDid P

/-! ## A remote signer -/

/-- `<identity>/KEY/<key-id>` of a certificate name, or the whole name. -/
def keyNameFromCert (certName : Name) : Name :=
  match certName.findIdx? (·.value = keyComponent.value) with
  | some keyIdx => certName.take (min (keyIdx + 2) certName.length)
  | none => certName

/-- `RemoteSignerClient::from_cert`. -/
def fromCert (prefix' : Name) (certWire : Bytes) : Except String Signer :=
  match P.decodeCert certWire with
  | .error (.data msg) => .error (P.keyStoreError s!"remote signer cert decode: {msg}")
  | .error (.certificate msg) => .error msg
  | .ok cert => .ok {
      sigType := cert.sigType
      keyName := keyNameFromCert cert.name
      certName := some cert.name
      publicKey := some cert.publicKey
      key := .remote prefix' }

def useRemoteSigner (prefixName : String) (certWire : Bytes) : CoreOp Bool := do
  let prefix' ← Op.ofExcept (parseName P prefixName)
  let signer ← Op.ofExcept ((fromCert P prefix' certWire).mapError fun e =>
    .engine s!"remote signer setup: {e}")
  setIdentity signer
  setCertWire (some certWire)
  return true

/-! ## Enrolling -/

def engineRunning (up : Bool) : Except NdnError Unit :=
  if up then .ok () else .error (.engine "engine is shut down")

/-- `NdnEngine::enroll`, through `set_identity`; `engineUp`: the engine is not shut down. -/
def enroll (config : NdnEnrollConfig) (engineUp : Bool) (tsMs : Nat)
    (generated : Except String Bytes) (x : PinExchange) : CoreOp NdnEnrolledIdentity := do
  let _ca ← Op.ofExcept (parseName P config.caPrefix)
  let identity ← Op.ofExcept (parseName P config.identity)
  Op.ofExcept (engineRunning engineUp)
  let enrolled ← Op.ofExcept (enrollErr
    (enrollPin P (P.freshKeyName identity tsMs) generated x))
  let bag ← Op.ofExcept (enrollErr (enrolled.toSafebag P config.persistPassword))
  setIdentity enrolled.signer
  return enrolled.result P (P.encodeBag bag)

def enrollWithToken (config : NdnEnrollConfig) (tsMs : Nat) (generated : Except String Bytes)
    (x : TokenExchange) : CoreOp NdnEnrolledIdentity := do
  let _ca ← Op.ofExcept (parseName P config.caPrefix)
  let identity ← Op.ofExcept (parseName P config.identity)
  let enrolled ← Op.ofExcept (enrollErr
    (enrollTokenConn P (P.freshKeyName identity tsMs) generated x))
  let bag ← Op.ofExcept (enrollErr (enrolled.toSafebag P config.persistPassword))
  setCertWire enrolled.certificate
  setIdentity enrolled.signer
  return enrolled.result P (P.encodeBag bag)

def enclaveAvailable (enclave : NdnEnclaveBackend) : Except NdnError Unit :=
  if enclave.isAvailable then .ok ()
  else .error (.identity "enclave key not available (biometry / keystore)")

/-- The enclave's public key, which must not be empty. -/
def enclavePublicKey (enclave : NdnEnclaveBackend) : Except NdnError Bytes :=
  if enclave.publicKey.isEmpty then .error (.identity "enclave returned no public key")
  else .ok enclave.publicKey

def enrollWithTokenEnclave (config : NdnEnrollConfig) (enclave : NdnEnclaveBackend) (tsMs : Nat)
    (x : TokenExchange) : CoreOp NdnEnrolledIdentity := do
  let _ca ← Op.ofExcept (parseName P config.caPrefix)
  let identity ← Op.ofExcept (parseName P config.identity)
  Op.ofExcept (enclaveAvailable enclave)
  let enrolled ← Op.ofExcept (enrollErr (enrollTokenCustodianConn config.identity
    (P.freshKeyName identity tsMs) enclave.publicKey x))
  setCertWire enrolled.certificate
  setIdentity enrolled.signer
  return enrolled.result P []

/-! ## Generating -/

/-- Ten years in seconds. -/
def validitySecs : Nat := 10 * 365 * 24 * 60 * 60

/-- `<key>/self/v=<version>`. -/
def selfCertName (keyName : Name) (version : Nat) : Name :=
  keyName ++ [selfComponent, P.version version]

def generateIdentity (name : String) (persistPassword : Bytes) (tsMs nowNs : Nat)
    (generated signing : Except String Bytes) : CoreOp NdnEnrolledIdentity := do
  let idName ← Op.ofExcept (parseName P name)
  let generated ← Op.ofExcept (enrollErr (generateSelfSigned P (P.freshKeyName idName tsMs)
    nowNs validitySecs generated signing))
  let bag ← Op.ofExcept (enrollErr (generated.toSafebag P persistPassword))
  setCertWire generated.certificate
  setIdentity generated.signer
  return generated.result P (P.encodeBag bag)

/-- `signing`: the enclave's signature of the certificate. -/
def generateIdentityEnclave (name : String) (enclave : NdnEnclaveBackend) (tsMs nowNs : Nat)
    (signing : Except String Bytes) : CoreOp NdnEnrolledIdentity := do
  let idName ← Op.ofExcept (parseName P name)
  Op.ofExcept (enclaveAvailable enclave)
  let pubkey ← Op.ofExcept (enclavePublicKey enclave)
  let keyName := P.freshKeyName idName tsMs
  let certName := selfCertName P keyName 0
  let certWire ← Op.ofExcept (identityErr "enclave self-cert failed: " (P.encodeCert certName
    pubkey (Platform.custodianSigner name keyName pubkey none) nowNs (untilNs nowNs validitySecs)
    signing))
  setIdentity (Platform.custodianSigner name keyName pubkey (some certName))
  return ⟨P.showName keyName, P.showName certName, some certWire, []⟩

def loadIdentityEnclave (keyName certName : String) (enclave : NdnEnclaveBackend) :
    CoreOp Bool := do
  let kname ← Op.ofExcept (parseName P keyName)
  let cname ← Op.ofExcept (parseName P certName)
  Op.ofExcept (enclaveAvailable enclave)
  let pubkey ← Op.ofExcept (enclavePublicKey enclave)
  setIdentity (Platform.custodianSigner keyName kname pubkey (some cname))
  return true

/-! ## Restoring -/

/-- `{b:02x}` of each byte. -/
def hex (bytes : Bytes) : String :=
  String.ofList (bytes.flatMap fun b => [(b.toNat / 16).digitChar, (b.toNat % 16).digitChar])

/-- `10 * 365 * 24 * 3600 * 1_000_000_000`. -/
def tenYearsNs : Nat := 10 * 365 * 24 * 3600 * 1000000000

/-- What `restore_with` draws, reads and gets signed. -/
structure RestoreEnv where
  keyId : Except String Bytes
  opSeed : Except String Bytes
  nowNs : Except String Nat
  signing : Except String Bytes

def restoreWith (bundle : Bytes) (recoverySigner : RecoverySigner) (identityName : String)
    (persistPassword : Bytes) (env : RestoreEnv) : CoreOp NdnRecoveredIdentity := do
  let idName ← Op.ofExcept (parseName P identityName)
  let keyId ← Op.ofExcept (identityErr "rng: " env.keyId)
  let keyName ← Op.ofExcept (okOr (P.parseName s!"{identityName}/KEY/{hex keyId}")
    (.identity "could not build key name"))
  let opSeed ← Op.ofExcept (identityErr "rng: " env.opSeed)
  let op := P.softwareSigner .ed25519 (P.fromSeed opSeed) keyName none
  let pkcs8 ← Op.ofExcept (identityErr "pkcs8: " (P.seedToPkcs8 opSeed))
  let pubkey ← Op.ofExcept (okOr op.publicKey (.identity "operational key exposes no public key"))
  let certName ← Op.ofExcept (okOr (P.parseName s!"{P.showName keyName}/self/v=1")
    (.identity "could not build cert name"))
  let nowNs ← Op.ofExcept (identityErr "" env.nowNs)
  let certWire ← Op.ofExcept (identityErr "" (P.encodeCert certName pubkey op nowNs
    (nowNs + tenYearsNs) env.signing))
  let recovered ← Op.ofExcept (identityErr "" (P.recoverFromBundle bundle idName op recoverySigner))
  let safebag ← Op.ofExcept (identityErr "safebag: "
    (P.encryptBag certWire pkcs8 persistPassword))
  setIdentity op
  return ⟨P.showName keyName, P.showName certName, P.encodeBag safebag, recovered⟩

def restoreIdentity (bundle recoverySeed : Bytes) (identityName : String)
    (persistPassword : Bytes) (env : RestoreEnv) : CoreOp NdnRecoveredIdentity := do
  if recoverySeed.length ≠ 32 then
    throw (.identity s!"recovery seed must be 32 bytes (Ed25519), got {recoverySeed.length}")
  restoreWith P bundle (.seed recoverySeed) identityName persistPassword env

def restoreIdentityRemote (bundle : Bytes) (identityName : String) (persistPassword : Bytes)
    (recoverySigner : Bytes → Bytes) (env : RestoreEnv) : CoreOp NdnRecoveredIdentity :=
  restoreWith P bundle (.callback (callbackSign recoverySigner)) identityName persistPassword
    env

/-! ## What the core presents -/

def pinTrustAnchor (certWire : Bytes) : CoreOp Bool := do
  match P.decodeCert certWire with
  | .error (.data msg) => throw (.engine s!"trust anchor not a Data: {msg}")
  | .error (.certificate msg) => throw (.engine s!"trust anchor not a certificate: {msg}")
  | .ok cert =>
    modify fun core => { core with pinnedAnchors := core.pinnedAnchors ++ [cert] }
    return true

/-- The validator's anchor for the core's own content. -/
def ownAnchor (core : IdentityCore) : Option Certificate :=
  core.certWire.bind fun wire => (P.decodeCert wire).toOption

/-- `build_validator`: its trust anchors. -/
def buildValidator (core : IdentityCore) : List Certificate :=
  (ownAnchor P core).toList ++ core.pinnedAnchors

/-- The signed command of `announce_prefix` and the certificate served under its reflexive
name. -/
structure Announcement where
  name : Name
  signer : Signer
  sigType : SigType
  keyLocator : Name
  body : Bytes

def announcePrefix (core : IdentityCore) (prefixName : String) : Except NdnError Announcement := do
  let name ← parseName P prefixName
  let signer ← okOr core.identity (.identity "no identity loaded")
  return {
    name, signer
    sigType := signer.sigType
    keyLocator := signer.certName.getD signer.keyName
    body := core.certWire.getD [] }

end NdnMobile.Identity
