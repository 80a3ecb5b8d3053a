import NdnMobile.Packet.Name
import NdnMobile.Lib.Op

/-!
# Keys, certificates and SafeBags

What the identity code uses of the packet and security libraries, as the parameter
`Platform`: names as text, key import and export, certificates and SafeBags. A signer
records what the code can ask it: its algorithm, names and public key, and where its
private key is.
-/

namespace NdnMobile.Identity

open NdnMobile.Lib NdnMobile.Packet

inductive SigType where
  | sha256WithEcdsa
  | ed25519
  | other (code : Nat)
  deriving DecidableEq, Repr

/-- The algorithms of software keys. -/
inductive KeyAlg where
  | ed25519
  | ecdsaP256
  deriving DecidableEq, Repr

def KeyAlg.sigType : KeyAlg → SigType
  | .ed25519 => .ed25519
  | .ecdsaP256 => .sha256WithEcdsa

/-- Where a private key is. -/
inductive KeyHandle where
  | software (alg : KeyAlg) (secret : Bytes)
  /-- In an enclave or fob. -/
  | custodian (label : String) (keyId : Name)
  /-- On the node that serves a RemoteSigner at the prefix. -/
  | remote (prefix' : Name)
  deriving DecidableEq, Repr

structure Signer where
  sigType : SigType
  keyName : Name
  certName : Option Name
  publicKey : Option Bytes
  key : KeyHandle
  deriving DecidableEq, Repr

structure Certificate where
  name : Name
  sigType : SigType
  publicKey : Bytes
  deriving DecidableEq, Repr

/-- Why a wire is not a certificate: it is not a Data, or not a certificate's. -/
inductive CertError where
  | data (msg : String)
  | certificate (msg : String)
  deriving DecidableEq, Repr

structure SafeBag where
  certificate : Bytes
  encryptedKey : Bytes
  deriving DecidableEq, Repr

inductive SafeBagAlgorithm where
  | ed25519
  | ecdsaP256
  | other (oid : String)
  deriving DecidableEq, Repr

/-- Who authorizes a recovery: a recovery seed, or the host's `NdnRecoverySigner`. -/
inductive RecoverySigner where
  | seed (seed : Bytes)
  | callback (sign : Bytes → Except String Bytes)

/-- `sign_sync`: an empty answer of the host is a refusal. -/
def callbackSign (sign : Bytes → Bytes) (region : Bytes) : Except String Bytes :=
  if (sign region).isEmpty then .error "recovery signer refused (empty signature)"
  else .ok (sign region)

/-- The libraries under the identity code. -/
structure Platform where
  parseName : String → Option Name
  showName : Name → String
  /-- The component that `append_version` appends. -/
  version : Nat → Component
  /-- The public key of a software key. -/
  publicKey : KeyAlg → Bytes → Option Bytes
  toPkcs8 : KeyAlg → Bytes → Except String Bytes
  fromPkcs8 : KeyAlg → Bytes → Except String Bytes
  /-- `Ed25519Signer::from_seed` and the seed's PKCS#8. -/
  fromSeed : Bytes → Bytes
  seedToPkcs8 : Bytes → Except String Bytes
  /-- `encode_cert_data`: name, public key, signer, validity in nanoseconds, and the
  signer's answer. -/
  encodeCert : Name → Bytes → Signer → Nat → Nat → Except String Bytes → Except String Bytes
  /-- `Data::decode`, then `Certificate::decode`. -/
  decodeCert : Bytes → Except CertError Certificate
  /-- The text of a `TrustError::KeyStore`. -/
  keyStoreError : String → String
  decodeBag : Bytes → Except String SafeBag
  encodeBag : SafeBag → Bytes
  encryptBag : Bytes → Bytes → Bytes → Except String SafeBag
  decryptPkcs8 : SafeBag → Bytes → Except String Bytes
  bagAlgorithm : SafeBag → Bytes → Except String SafeBagAlgorithm
  /-- The DID of `Identity::from_signer`. -/
  did : Name → Name → Signer → Except String String
  /-- `recover_from_bundle` for an identity and its new key, and the bundle it exports. -/
  recoverFromBundle : Bytes → Name → Signer → RecoverySigner → Except String Bytes
  /-- A certificate carries the public key it was encoded with. -/
  decode_encode : ∀ {name pk signer fromNs untilNs signing wire},
    encodeCert name pk signer fromNs untilNs signing = .ok wire →
      ∃ c, decodeCert wire = .ok c ∧ c.publicKey = pk
  /-- A key exported and imported again is the same key. -/
  publicKey_pkcs8 : ∀ {alg secret pkcs8 secret'}, toPkcs8 alg secret = .ok pkcs8 →
    fromPkcs8 alg pkcs8 = .ok secret' → publicKey alg secret' = publicKey alg secret

namespace Platform

variable (P : Platform)

/-- The certificate is for this public key. -/
def CertFor (wire : Bytes) (publicKey : Option Bytes) : Prop :=
  ∃ c, P.decodeCert wire = .ok c ∧ publicKey = some c.publicKey

/-- A signer over a software key. -/
def softwareSigner (alg : KeyAlg) (secret : Bytes) (keyName : Name) (certName : Option Name) :
    Signer :=
  ⟨alg.sigType, keyName, certName, P.publicKey alg secret, .software alg secret⟩

/-- `CustodianSigner::new` with an ECDSA key. -/
def custodianSigner (label : String) (keyName : Name) (publicKey : Bytes)
    (certName : Option Name) : Signer :=
  ⟨.sha256WithEcdsa, keyName, certName, some publicKey, .custodian label keyName⟩

end Platform

/-- The bytes of `KEY`. -/
def keyComponent : Component := ⟨8, [75, 69, 89]⟩

/-- The bytes of `self`. -/
def selfComponent : Component := ⟨8, [115, 101, 108, 102]⟩

/-- `identity.append("KEY").append_version(ts_ms)`. -/
def Platform.freshKeyName (P : Platform) (identity : Name) (tsMs : Nat) : Name :=
  identity ++ [keyComponent, P.version tsMs]

/-- `now_ns.saturating_add(secs.saturating_mul(1_000_000_000))`, in `u64`. -/
def untilNs (nowNs validitySecs : Nat) : Nat :=
  min (nowNs + min (validitySecs * 1000000000) (2 ^ 64 - 1)) (2 ^ 64 - 1)

end NdnMobile.Identity
