import NdnMobile.Identity.Persistence

/-!
# Enrollments the CA completed

When the NDNCERT session is complete the CA has issued the certificate, and the invitation is
spent. Fetching the certificate is best effort, and the enclave path returns without one. The
two software paths export a SafeBag before they load the identity, and a SafeBag needs the
certificate: where no repo serves it the issued key is dropped with an error (`kept_iff`).
-/

namespace NdnMobile.Identity

open NdnMobile.Lib NdnMobile.Packet

/-! ## Complete sessions -/

/-- The request was sent, answered and taken in. -/
structure Round.Done (r : Round) : Prop where
  body : ∃ bytes, r.body = .ok bytes
  sign : ∃ bytes, r.sign = .ok bytes
  reply : ∃ content, r.reply = .ok (some content)
  handle : r.handle = .ok ()

structure TokenExchange.Completed (x : TokenExchange) : Prop where
  new : x.new.Done
  requestId : ∃ id, x.requestId = some id
  challenge : x.challenge.Done
  complete : x.complete = true

/-- Complete after the trigger already, or after the PIN. -/
structure PinExchange.Completed (x : PinExchange) : Prop where
  new : x.new.Done
  requestId : ∃ id, x.requestId = some id
  trigger : x.trigger.Done
  complete : x.autoComplete = true ∨ x.submit.Done ∧ x.complete = true

theorem Round.Done.run {r : Round} (h : r.Done) (what : String) : r.run what = .ok () := by
  obtain ⟨⟨_, hb⟩, ⟨_, hs⟩, ⟨_, hr⟩, hh⟩ := h
  simp only [Round.run, hb, hs, hr, hh, Except.mapError, bind, Except.bind, okOr]

/-- What is left of a complete session is its issue. -/
theorem TokenExchange.Completed.run {x : TokenExchange} (h : x.Completed) :
    runNdncertTokenOn x = x.issue.run := by
  obtain ⟨id, hid⟩ := h.requestId
  simp [runNdncertTokenOn, h.new.run, h.challenge.run, hid, h.complete, okOr, bind, Except.bind]

theorem PinExchange.Completed.run {x : PinExchange} (h : x.Completed) :
    runNdncert x = x.issue.run := by
  obtain ⟨id, hid⟩ := h.requestId
  rcases h.complete with hauto | ⟨hsubmit, hcomplete⟩
  · simp [runNdncert, h.new.run, h.trigger.run, hid, hauto, okOr, bind, Except.bind]
  · simp [runNdncert, h.new.run, h.trigger.run, hsubmit.run, hid, hcomplete, okOr, bind,
      Except.bind]

/-! ## Enrollments -/

/-- The enrollment calls of the two FFI objects. -/
inductive Enrollment where
  /-- `NdnEngine::enroll`. -/
  | pin (config : NdnEnrollConfig) (engineUp : Bool) (tsMs : Nat)
    (generated : Except String Bytes) (x : PinExchange)
  | token (config : NdnEnrollConfig) (tsMs : Nat) (generated : Except String Bytes)
    (x : TokenExchange)
  | tokenEnclave (config : NdnEnrollConfig) (enclave : NdnEnclaveBackend) (tsMs : Nat)
    (x : TokenExchange)

namespace Enrollment

variable (P : Platform)

def run : Enrollment → CoreOp NdnEnrolledIdentity
  | pin config engineUp tsMs generated x => enroll P config engineUp tsMs generated x
  | token config tsMs generated x => enrollWithToken P config tsMs generated x
  | tokenEnclave config enclave tsMs x => enrollWithTokenEnclave P config enclave tsMs x

def config : Enrollment → NdnEnrollConfig
  | pin config .. | token config .. | tokenEnclave config .. => config

def tsMs : Enrollment → Nat
  | pin _ _ tsMs .. | token _ tsMs .. | tokenEnclave _ _ tsMs .. => tsMs

def issue : Enrollment → Issue
  | pin _ _ _ _ x => x.issue
  | token _ _ _ x | tokenEnclave _ _ _ x => x.issue

/-- The call got to the CA, and the session is complete. -/
def Completed (en : Enrollment) : Prop :=
  (∃ ca, P.parseName en.config.caPrefix = some ca) ∧
    (∃ identity, P.parseName en.config.identity = some identity) ∧
    match en with
    | pin _ engineUp _ generated x =>
      engineUp = true ∧ (∃ secret, generated = .ok secret) ∧ x.Completed
    | token _ _ generated x => (∃ secret, generated = .ok secret) ∧ x.Completed
    | tokenEnclave _ enclave _ x => enclave.isAvailable = true ∧ x.Completed

/-- **The call returns the issued identity and leaves it loaded**, with the certificate if it
could be fetched. -/
def Kept (core : IdentityCore) (en : Enrollment) : Prop :=
  ∃ r t signer identity certName, (en.run P).exec core = (.ok r, t) ∧ t.identity = some signer ∧
    P.parseName en.config.identity = some identity ∧
    en.issue.issuedCertName = some certName ∧
    signer.keyName = P.freshKeyName identity en.tsMs ∧ signer.certName = some certName ∧
    r.certificate = en.issue.certFetch.toOption

/-- The generated key goes through PKCS#8 and, with the certificate, into a SafeBag. -/
def Exports (secret cert password : Bytes) : Prop :=
  ∃ pkcs8 stamped exportable bag, P.toPkcs8 .ecdsaP256 secret = .ok pkcs8 ∧
    P.fromPkcs8 .ecdsaP256 pkcs8 = .ok stamped ∧ P.toPkcs8 .ecdsaP256 stamped = .ok exportable ∧
    P.encryptBag cert exportable password = .ok bag

/-- The CA named the certificate; and a software key is exported with it, so it was fetched. -/
def Saveable (en : Enrollment) : Prop :=
  en.issue.issuedCertName.isSome = true ∧
    match en with
    | pin config _ _ generated x => ∃ cert, x.issue.certFetch = .ok cert ∧
      ∀ secret, generated = .ok secret → Exports P secret cert config.persistPassword
    | token config _ generated x => ∃ cert, x.issue.certFetch = .ok cert ∧
      ∀ secret, generated = .ok secret → Exports P secret cert config.persistPassword
    | tokenEnclave .. => True

end Enrollment

variable {P : Platform} {core : IdentityCore} {keyName : Name} {secret password : Bytes}
  {i : Issue} {e : EnrolledIdentity}

/-! ## Software keys -/

theorem enrollSoftware_issue : enrollSoftware P keyName (.ok secret) i.run = .ok e ↔
    ∃ certName pkcs8 stamped exportable, i.issuedCertName = some certName ∧
      P.toPkcs8 .ecdsaP256 secret = .ok pkcs8 ∧ P.fromPkcs8 .ecdsaP256 pkcs8 = .ok stamped ∧
      P.toPkcs8 .ecdsaP256 stamped = .ok exportable ∧
      e = ⟨P.softwareSigner .ecdsaP256 stamped keyName (some certName), keyName, certName,
        i.certFetch.toOption, some exportable⟩ := by
  simp only [enrollSoftware, Issue.run, except_bind_ok, mapError_ok, okOr_ok, Prod.exists]
  constructor
  · rintro ⟨_, ⟨⟩, certName, certificate, ⟨_, hi, ⟨⟩⟩, pkcs8, hp, stamped, hs, exportable, hx, he⟩
    cases he
    exact ⟨certName, pkcs8, stamped, exportable, hi, hp, hs, hx, rfl⟩
  · rintro ⟨certName, pkcs8, stamped, exportable, hi, hp, hs, hx, rfl⟩
    exact ⟨secret, rfl, certName, _, ⟨certName, hi, rfl⟩, pkcs8, hp, stamped, hs, exportable, hx,
      rfl⟩

/-- An issued software key is saved if its certificate is there and the key exports. -/
theorem saved_iff : (∃ e bag, enrollSoftware P keyName (.ok secret) i.run = .ok e ∧
      e.toSafebag P password = .ok bag) ↔
    i.issuedCertName.isSome = true ∧ ∃ cert, i.certFetch = .ok cert ∧
      Enrollment.Exports P secret cert password := by
  simp only [enrollSoftware_issue, EnrolledIdentity.toSafebag, except_bind_ok, okOr_ok,
    mapError_ok]
  constructor
  · rintro ⟨_, bag, ⟨certName, pkcs8, stamped, exportable, hi, hp, hs, hx, rfl⟩, _, ⟨⟩, cert, hc,
      henc⟩
    refine ⟨by rw [hi]; rfl, cert, ?_, pkcs8, stamped, exportable, bag, hp, hs, hx, henc⟩
    cases hf : i.certFetch with
    | error err =>
      rw [hf] at hc
      cases hc
    | ok cert' =>
      rw [hf] at hc
      cases hc
      rfl
  · rintro ⟨hi, cert, hc, pkcs8, stamped, exportable, bag, hp, hs, hx, henc⟩
    obtain ⟨certName, hi⟩ := Option.isSome_iff_exists.mp hi
    refine ⟨_, bag, ⟨certName, pkcs8, stamped, exportable, hi, hp, hs, hx, rfl⟩, exportable, rfl,
      cert, ?_, henc⟩
    rw [hc]
    rfl

/-- The engine and the core save the key before they load it. -/
theorem enroll_exec {config : NdnEnrollConfig} {tsMs : Nat} {generated : Except String Bytes}
    {x : PinExchange} {ca identity : Name} {r : NdnEnrolledIdentity} {t : IdentityCore}
    (hca : P.parseName config.caPrefix = some ca)
    (hid : P.parseName config.identity = some identity) :
    (enroll P config true tsMs generated x).exec core = (.ok r, t) ↔
      ∃ e bag, enrollPin P (P.freshKeyName identity tsMs) generated x = .ok e ∧
        e.toSafebag P config.persistPassword = .ok bag ∧
        { core with identity := some e.signer } = t ∧ e.result P (P.encodeBag bag) = r := by
  simp only [enroll, parseName, Op.ok_ofExcept_bind, ok_setIdentity_bind, Op.ok_pure, enrollErr_ok,
    okOr_ok, engineRunning, if_true, hca, hid, Option.some.injEq, exists_eq_left']
  constructor
  · rintro ⟨_, -, e, he, bag, hb, hr, ht⟩
    exact ⟨e, bag, he, hb, ht, hr⟩
  · rintro ⟨e, bag, he, hb, ht, hr⟩
    exact ⟨(), trivial, e, he, bag, hb, hr, ht⟩

theorem enrollWithToken_exec {config : NdnEnrollConfig} {tsMs : Nat}
    {generated : Except String Bytes} {x : TokenExchange} {ca identity : Name}
    {r : NdnEnrolledIdentity} {t : IdentityCore}
    (hca : P.parseName config.caPrefix = some ca)
    (hid : P.parseName config.identity = some identity) :
    (enrollWithToken P config tsMs generated x).exec core = (.ok r, t) ↔
      ∃ e bag, enrollTokenConn P (P.freshKeyName identity tsMs) generated x = .ok e ∧
        e.toSafebag P config.persistPassword = .ok bag ∧
        { core with identity := some e.signer, certWire := e.certificate } = t ∧
        e.result P (P.encodeBag bag) = r := by
  simp only [enrollWithToken, parseName, Op.ok_ofExcept_bind, ok_setCertWire_bind,
    ok_setIdentity_bind, Op.ok_pure, enrollErr_ok, okOr_ok, hca, hid, Option.some.injEq,
    exists_eq_left']
  constructor
  · rintro ⟨e, he, bag, hb, hr, ht⟩
    exact ⟨e, bag, he, hb, ht, hr⟩
  · rintro ⟨e, bag, he, hb, ht, hr⟩
    exact ⟨e, he, bag, hb, hr, ht⟩

/-- What is loaded for an issued software key. -/
theorem issued_signer (h : enrollSoftware P keyName (.ok secret) i.run = .ok e) :
    ∃ certName, i.issuedCertName = some certName ∧ e.signer.keyName = keyName ∧
      e.signer.certName = some certName ∧ e.certificate = i.certFetch.toOption := by
  obtain ⟨certName, pkcs8, stamped, exportable, hi, -, -, -, rfl⟩ := enrollSoftware_issue.mp h
  exact ⟨certName, hi, rfl, rfl, rfl⟩

/-! ## All enrollments -/

/-- A completed enrollment of a software key, given what its call does with the key. -/
theorem kept_software {en : Enrollment} {identity : Name}
    (load : EnrolledIdentity → IdentityCore) (hid : P.parseName en.config.identity = some identity)
    (hload : ∀ e, (load e).identity = some e.signer)
    (hexec : ∀ {r t}, (en.run P).exec core = (.ok r, t) ↔ ∃ e bag,
      enrollSoftware P (P.freshKeyName identity en.tsMs) (.ok secret) en.issue.run = .ok e ∧
        e.toSafebag P en.config.persistPassword = .ok bag ∧
        load e = t ∧ e.result P (P.encodeBag bag) = r) :
    en.Kept P core ↔ en.issue.issuedCertName.isSome = true ∧
      ∃ cert, en.issue.certFetch = .ok cert ∧
        Enrollment.Exports P secret cert en.config.persistPassword := by
  rw [← saved_iff]
  constructor
  · rintro ⟨r, t, signer, _, certName, he, -⟩
    obtain ⟨e, bag, he, hb, -⟩ := hexec.mp he
    exact ⟨e, bag, he, hb⟩
  · rintro ⟨e, bag, he, hb⟩
    obtain ⟨certName, hi, hkey, hcert, hfetch⟩ := issued_signer he
    exact ⟨_, load e, e.signer, identity, certName, hexec.mpr ⟨e, bag, he, hb, rfl, rfl⟩, hload e,
      hid, hi, hkey, hcert, hfetch⟩

theorem enrollWithTokenEnclave_exec {config : NdnEnrollConfig} {enclave : NdnEnclaveBackend}
    {tsMs : Nat} {x : TokenExchange} {ca identity : Name} {r : NdnEnrolledIdentity}
    {t : IdentityCore} (hca : P.parseName config.caPrefix = some ca)
    (hid : P.parseName config.identity = some identity) (hup : enclave.isAvailable = true) :
    (enrollWithTokenEnclave P config enclave tsMs x).exec core = (.ok r, t) ↔
      ∃ e, enrollTokenCustodianConn config.identity (P.freshKeyName identity tsMs)
          enclave.publicKey x = .ok e ∧
        { core with identity := some e.signer, certWire := e.certificate } = t ∧
        e.result P [] = r := by
  simp only [enrollWithTokenEnclave, parseName, enclaveAvailable, Op.ok_ofExcept_bind,
    ok_setCertWire_bind, ok_setIdentity_bind, Op.ok_pure, enrollErr_ok, okOr_ok, hca, hid, hup,
    if_true, Option.some.injEq, exists_eq_left']
  constructor
  · rintro ⟨_, -, e, he, hr, ht⟩
    exact ⟨e, he, ht, hr⟩
  · rintro ⟨e, he, ht, hr⟩
    exact ⟨(), trivial, e, he, hr, ht⟩

/-- An enclave's key needs no export. -/
theorem kept_tokenEnclave {config : NdnEnrollConfig} {enclave : NdnEnclaveBackend} {tsMs : Nat}
    {x : TokenExchange} (h : (Enrollment.tokenEnclave config enclave tsMs x).Completed P) :
    (Enrollment.tokenEnclave config enclave tsMs x).Kept P core ↔
      x.issue.issuedCertName.isSome = true := by
  obtain ⟨⟨ca, hca⟩, ⟨identity, hid⟩, hup, hx⟩ := h
  constructor
  · rintro ⟨r, t, signer, _, certName, -, -, -, hi, -⟩
    rw [show x.issue.issuedCertName = some certName from hi]
    rfl
  · intro hi
    obtain ⟨certName, hi⟩ := Option.isSome_iff_exists.mp hi
    have he : enrollTokenCustodianConn config.identity (P.freshKeyName identity tsMs)
        enclave.publicKey x = .ok ⟨Platform.custodianSigner config.identity
          (P.freshKeyName identity tsMs) enclave.publicKey (some certName),
          P.freshKeyName identity tsMs, certName, x.issue.certFetch.toOption, none⟩ := by
      rw [enrollTokenCustodianConn, hx.run, Issue.run, hi]
      rfl
    exact ⟨_, _, _, identity, certName,
      (enrollWithTokenEnclave_exec hca hid hup).mpr ⟨_, he, rfl, rfl⟩, rfl, hid, hi, rfl, rfl, rfl⟩

/-- **A completed enrollment is kept** exactly when it can be saved: always with an enclave's key,
and with a software key where the issued certificate was fetched and the key exports. -/
theorem kept_iff (P : Platform) (core : IdentityCore) {en : Enrollment} (h : en.Completed P) :
    en.Kept P core ↔ en.Saveable P := by
  obtain ⟨⟨ca, hca⟩, ⟨identity, hid⟩, hx⟩ := id h
  cases en with
  | pin config engineUp tsMs generated x =>
    obtain ⟨rfl, ⟨secret, rfl⟩, hx⟩ := hx
    have hkept : (Enrollment.pin config true tsMs (.ok secret) x).Kept P core ↔ _ :=
      kept_software (fun e => { core with identity := some e.signer }) hid (fun _ => rfl)
        fun {r t} => by
          have hexec : (enroll P config true tsMs (.ok secret) x).exec core = (.ok r, t) ↔ _ :=
            enroll_exec hca hid
          rwa [enrollPin, hx.run] at hexec
    rw [hkept]
    simp [Enrollment.Saveable, Enrollment.issue, Enrollment.config]
  | token config tsMs generated x =>
    obtain ⟨⟨secret, rfl⟩, hx⟩ := hx
    have hkept : (Enrollment.token config tsMs (.ok secret) x).Kept P core ↔ _ :=
      kept_software (fun e => { core with identity := some e.signer, certWire := e.certificate })
        hid (fun _ => rfl) fun {r t} => by
          have hexec : (enrollWithToken P config tsMs (.ok secret) x).exec core = (.ok r, t) ↔ _ :=
            enrollWithToken_exec hca hid
          rwa [enrollTokenConn, hx.run] at hexec
    rw [hkept]
    simp [Enrollment.Saveable, Enrollment.issue, Enrollment.config]
  | tokenEnclave config enclave tsMs x =>
    rw [kept_tokenEnclave h]
    exact ⟨fun hi => ⟨hi, trivial⟩, fun hs => hs.1⟩

/-! ## A CA without a repo -/

/-- The certificate is issued, and nobody serves it. -/
def unservedExchange : TokenExchange :=
  { grantedExchange with issue := ⟨grantedExchange.issue.issuedCertName, .error "timeout"⟩ }

theorem unservedExchange_completed : unservedExchange.Completed where
  new := ⟨⟨[], rfl⟩, ⟨[], rfl⟩, ⟨[], rfl⟩, rfl⟩
  requestId := ⟨[], rfl⟩
  challenge := ⟨⟨[], rfl⟩, ⟨[], rfl⟩, ⟨[], rfl⟩, rfl⟩
  complete := rfl

def aliceConfig : NdnEnrollConfig := ⟨"/c", "/a", [1, 2]⟩

def aliceEnclave : Enrollment := .tokenEnclave aliceConfig ⟨true, [4, 5]⟩ 1 unservedExchange

def aliceToken : Enrollment := .token aliceConfig 1 (.ok [7]) unservedExchange

theorem kept_iff_aliceEnclave : aliceEnclave.Kept clearPlatform .new := by
  have hdone : aliceEnclave.Completed clearPlatform :=
    ⟨⟨_, rfl⟩, ⟨_, rfl⟩, rfl, unservedExchange_completed⟩
  exact (kept_iff clearPlatform .new hdone).mpr ⟨rfl, trivial⟩

/-- With a software key the issued identity is thrown away, and the token is spent. -/
theorem kept_fails : ¬ ∀ (P : Platform) (core : IdentityCore) (en : Enrollment), en.Completed P →
    en.issue.issuedCertName.isSome = true → en.Kept P core := by
  intro h
  have hdone : aliceToken.Completed clearPlatform :=
    ⟨⟨_, rfl⟩, ⟨_, rfl⟩, ⟨_, rfl⟩, unservedExchange_completed⟩
  obtain ⟨r, t, signer, identity, certName, hexec, -⟩ := h clearPlatform .new aliceToken hdone rfl
  have herr : (aliceToken.run clearPlatform).exec .new =
      (.error (.identity EnrollError.noCertificate.message), .new) := rfl
  rw [herr] at hexec
  cases hexec

end NdnMobile.Identity
