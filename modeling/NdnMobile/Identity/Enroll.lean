import NdnMobile.Identity.Keys

/-!
# Enrollment

NDNCERT enrollment with the token and the PIN challenge, self-signed identities and their
export to a SafeBag. What the enrollment session and the network answer in an exchange is
given as a record of their results, in the order they are asked for.
-/

namespace NdnMobile.Identity

open NdnMobile.Lib NdnMobile.Packet

inductive EnrollError where
  | key (msg : String)
  | cert (msg : String)
  | sign (msg : String)
  | fetch (msg : String)
  | emptyResponse
  | incomplete
  | noCertificate
  | notExportable
  | safeBag (msg : String)
  deriving DecidableEq, Repr

def EnrollError.message : EnrollError → String
  | .key msg => s!"key generation/export: {msg}"
  | .cert msg => s!"NDNCERT protocol: {msg}"
  | .sign msg => s!"Interest signing: {msg}"
  | .fetch msg => s!"fetch from CA failed: {msg}"
  | .emptyResponse => "CA response missing content"
  | .incomplete => "enrollment did not complete after PIN submission"
  | .noCertificate => "no issued cert was fetched; SafeBag needs the certificate"
  | .notExportable => "custodian/enclave key is not exportable to a SafeBag"
  | .safeBag msg => s!"SafeBag: {msg}"

structure EnrolledIdentity where
  signer : Signer
  keyName : Name
  certName : Name
  certificate : Option Bytes
  /-- PKCS#8 of a software key. -/
  exportable : Option Bytes
  deriving DecidableEq, Repr

def EnrolledIdentity.toSafebag (P : Platform) (e : EnrolledIdentity) (password : Bytes) :
    Except EnrollError SafeBag := do
  let pkcs8 ← okOr e.exportable .notExportable
  let cert ← okOr e.certificate .noCertificate
  (P.encryptBag cert pkcs8 password).mapError .safeBag

/-! ## The exchange with the CA -/

/-- One signed request to the CA and its answer. -/
structure Round where
  body : Except String Bytes
  sign : Except String Bytes
  reply : Except String (Option Bytes)
  handle : Except String Unit

def Round.run (r : Round) (what : String) : Except EnrollError Unit := do
  let _ ← r.body.mapError .cert
  let _ ← r.sign.mapError .sign
  let reply ← r.reply.mapError fun e => .fetch s!"{what}: {e}"
  let _ ← okOr reply .emptyResponse
  r.handle.mapError .cert

/-- The issued certificate's name, and the certificate if a repo served it. -/
structure Issue where
  issuedCertName : Option Name
  certFetch : Except String Bytes

def Issue.run (i : Issue) : Except EnrollError (Name × Option Bytes) := do
  let certName ← okOr i.issuedCertName (.cert "no issued cert name")
  return (certName, i.certFetch.toOption)

structure TokenExchange where
  new : Round
  requestId : Option Bytes
  challenge : Round
  complete : Bool
  issue : Issue

def runNdncertTokenOn (x : TokenExchange) : Except EnrollError (Name × Option Bytes) := do
  x.new.run "NEW"
  let _ ← okOr x.requestId (.cert "no request_id after NEW")
  x.challenge.run "CHALLENGE token"
  if !x.complete then throw .incomplete
  x.issue.run

structure PinExchange where
  new : Round
  requestId : Option Bytes
  trigger : Round
  /-- The CA needs no PIN. -/
  autoComplete : Bool
  submit : Round
  complete : Bool
  issue : Issue

def runNdncert (x : PinExchange) : Except EnrollError (Name × Option Bytes) := do
  x.new.run "NEW"
  let _ ← okOr x.requestId (.cert "no request_id after NEW")
  x.trigger.run "CHALLENGE trigger"
  if !x.autoComplete then
    x.submit.run "CHALLENGE submit"
    if !x.complete then throw .incomplete
  x.issue.run

/-! ## Enrolling and generating -/

variable (P : Platform)

/-- `enroll_pin`, `enroll_token` and `enroll_token_conn`: a fresh ECDSA key, the exchange, and the
issued name stamped on the key imported again. -/
def enrollSoftware (keyName : Name) (generated : Except String Bytes)
    (exchange : Except EnrollError (Name × Option Bytes)) :
    Except EnrollError EnrolledIdentity := do
  let secret ← generated.mapError .key
  let (certName, certificate) ← exchange
  let pkcs8 ← (P.toPkcs8 .ecdsaP256 secret).mapError .key
  let stamped ← (P.fromPkcs8 .ecdsaP256 pkcs8).mapError .key
  let exportable ← (P.toPkcs8 .ecdsaP256 stamped).mapError .key
  return {
    signer := P.softwareSigner .ecdsaP256 stamped keyName (some certName)
    keyName, certName, certificate
    exportable := some exportable }

def enrollPin (keyName : Name) (generated : Except String Bytes) (x : PinExchange) :
    Except EnrollError EnrolledIdentity :=
  enrollSoftware P keyName generated (runNdncert x)

def enrollToken (keyName : Name) (generated : Except String Bytes) (x : TokenExchange) :
    Except EnrollError EnrolledIdentity :=
  enrollSoftware P keyName generated (runNdncertTokenOn x)

def enrollTokenConn (keyName : Name) (generated : Except String Bytes) (x : TokenExchange) :
    Except EnrollError EnrolledIdentity :=
  enrollSoftware P keyName generated (runNdncertTokenOn x)

def enrollTokenCustodianConn (label : String) (keyName : Name) (publicKey : Bytes)
    (x : TokenExchange) : Except EnrollError EnrolledIdentity := do
  let (certName, certificate) ← runNdncertTokenOn x
  return {
    signer := Platform.custodianSigner label keyName publicKey (some certName)
    keyName, certName, certificate
    exportable := none }

/-- `MobileEngine::generate_identity`; `signing`: the key's signature of its certificate. -/
def generateSelfSigned (keyName : Name) (nowNs validitySecs : Nat)
    (generated signing : Except String Bytes) : Except EnrollError EnrolledIdentity := do
  let secret ← generated.mapError .key
  let publicKey ← okOr (P.publicKey .ed25519 secret) (.key "generated key has no public key")
  let cert ← (P.encodeCert keyName publicKey (P.softwareSigner .ed25519 secret keyName none) nowNs
    (untilNs nowNs validitySecs) signing).mapError .cert
  let pkcs8 ← (P.toPkcs8 .ed25519 secret).mapError .key
  let stamped ← (P.fromPkcs8 .ed25519 pkcs8).mapError .key
  return {
    signer := P.softwareSigner .ed25519 stamped keyName (some keyName)
    keyName
    certName := keyName
    certificate := some cert
    exportable := some pkcs8 }

/-- `MobileEngine::load_identity`. -/
def loadSafebag (bag : SafeBag) (password : Bytes) (keyName : Name) :
    Except EnrollError Signer := do
  let pkcs8 ← (P.decryptPkcs8 bag password).mapError .safeBag
  let alg ← (P.bagAlgorithm bag password).mapError .safeBag
  match alg with
  | .ed25519 =>
    let secret ← (P.fromPkcs8 .ed25519 pkcs8).mapError .key
    return P.softwareSigner .ed25519 secret keyName none
  | .ecdsaP256 =>
    let secret ← (P.fromPkcs8 .ecdsaP256 pkcs8).mapError .key
    return P.softwareSigner .ecdsaP256 secret keyName none
  | .other oid => throw (.key s!"unsupported key algorithm {oid}")

/-! ## What a success went through -/

variable {P} {keyName : Name} {generated signing : Except String Bytes} {e : EnrolledIdentity}

end NdnMobile.Identity
