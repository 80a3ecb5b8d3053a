import NdnMobile.Identity.Coherence

/-!
# Saving an identity and restoring it

An enrolled identity is saved as a SafeBag and restored with `load_identity` after a restart.
The key, its type and its name survive (`restores_key`); the certificate name the enrollment
stamped on the signer does not, because nothing stamps it again (`restores_never`). Data then
names the key in its KeyLocator, which only a certificate named like the key can stand in for.
-/

namespace NdnMobile.Identity

open NdnMobile.Lib NdnMobile.Packet

/-- What signed Data names: the certificate, or the key where there is none. -/
def Signer.keyLocator (s : Signer) : Name := s.certName.getD s.keyName

/-- The ways to a software key: `enroll_pin`, `enroll_token`, `enroll_token_conn` and
`generate_identity`. -/
inductive SoftwareMade (P : Platform) (e : EnrolledIdentity) : Prop where
  | pin {keyName : Name} {generated : Except String Bytes} {x : PinExchange} :
    enrollPin P keyName generated x = .ok e → SoftwareMade P e
  | token {keyName : Name} {generated : Except String Bytes} {x : TokenExchange} :
    enrollToken P keyName generated x = .ok e → SoftwareMade P e
  | tokenConn {keyName : Name} {generated : Except String Bytes} {x : TokenExchange} :
    enrollTokenConn P keyName generated x = .ok e → SoftwareMade P e
  | generated {keyName : Name} {nowNs validitySecs : Nat}
    {generated signing : Except String Bytes} :
    generateSelfSigned P keyName nowNs validitySecs generated signing = .ok e → SoftwareMade P e

/-- SafeBags decrypt to what was encrypted, and PKCS#8 imports to what was exported. -/
structure Platform.RoundTrips (P : Platform) : Prop where
  decrypt_encrypt : ∀ {cert pkcs8 password bag}, P.encryptBag cert pkcs8 password = .ok bag →
    P.decryptPkcs8 bag password = .ok pkcs8
  algorithm_encrypt : ∀ {alg secret cert pkcs8 password bag}, P.toPkcs8 alg secret = .ok pkcs8 →
    P.encryptBag cert pkcs8 password = .ok bag →
      P.bagAlgorithm bag password = .ok (match alg with
        | .ed25519 => .ed25519
        | .ecdsaP256 => .ecdsaP256)
  import_export : ∀ {alg secret pkcs8}, P.toPkcs8 alg secret = .ok pkcs8 →
    P.fromPkcs8 alg pkcs8 = .ok secret

/-- The restored signer has the private key, the type and both names of the saved one. -/
def Restores (P : Platform) (e : EnrolledIdentity) (password : Bytes) : Prop :=
  ∃ bag r, e.toSafebag P password = .ok bag ∧ loadSafebag P bag password e.keyName = .ok r ∧
    r.key = e.signer.key ∧ r.sigType = e.signer.sigType ∧ r.keyName = e.signer.keyName ∧
      r.certName = e.signer.certName

variable {P : Platform} {e : EnrolledIdentity} {password : Bytes} {bag : SafeBag} {r : Signer}

/-- Every way stamps the certificate name, and exports the key it signs with. -/
theorem SoftwareMade.stamped (h : SoftwareMade P e) : ∃ alg secret made pkcs8,
    e.signer = P.softwareSigner alg secret e.keyName (some e.certName) ∧
      e.exportable = some pkcs8 ∧ P.toPkcs8 alg made = .ok pkcs8 ∧
        (P.RoundTrips → made = secret) := by
  have hsoftware {keyName : Name} {generated : Except String Bytes}
      {exchange : Except EnrollError (Name × Option Bytes)}
      (h : enrollSoftware P keyName generated exchange = .ok e) : ∃ alg secret made pkcs8,
      e.signer = P.softwareSigner alg secret e.keyName (some e.certName) ∧
        e.exportable = some pkcs8 ∧ P.toPkcs8 alg made = .ok pkcs8 ∧
          (P.RoundTrips → made = secret) := by
    simp only [enrollSoftware, except_bind_ok, mapError_ok, Prod.exists] at h
    obtain ⟨secret, -, certName, certificate, -, pkcs8, -, stamped, -, exportable, hx, he⟩ := h
    cases he
    exact ⟨.ecdsaP256, stamped, stamped, exportable, rfl, rfl, hx, fun _ => rfl⟩
  cases h with
  | pin h | token h | tokenConn h => exact hsoftware h
  | generated h =>
    simp only [generateSelfSigned, except_bind_ok, mapError_ok, okOr_ok] at h
    obtain ⟨secret, -, publicKey, -, cert, -, pkcs8, hp, stamped, hs, he⟩ := h
    cases he
    refine ⟨.ed25519, stamped, secret, pkcs8, rfl, rfl, hp, fun hP => ?_⟩
    have := hP.import_export hp
    rw [hs] at this
    exact (Except.ok.inj this).symm

/-- No way of loading stamps one. -/
theorem loadSafebag_certName {keyName : Name} (h : loadSafebag P bag password keyName = .ok r) :
    r.certName = none := by
  simp only [loadSafebag, except_bind_ok, mapError_ok] at h
  obtain ⟨pkcs8, -, alg, -, h⟩ := h
  cases alg with
  | ed25519 | ecdsaP256 =>
    obtain ⟨secret, -, hr⟩ := except_bind_ok.mp h
    cases hr
    rfl
  | other => cases h

/-- A saved key is restored under its name. -/
theorem restores_key (hP : P.RoundTrips) (h : SoftwareMade P e)
    (hb : e.toSafebag P password = .ok bag) :
    loadSafebag P bag password e.keyName = .ok { e.signer with certName := none } := by
  obtain ⟨alg, secret, made, pkcs8, hs, hx, hp, hmade⟩ := h.stamped
  obtain rfl := hmade hP
  simp only [EnrolledIdentity.toSafebag, except_bind_ok, okOr_ok, mapError_ok, hx,
    Option.some.injEq, exists_eq_left'] at hb
  obtain ⟨cert, -, henc⟩ := hb
  have himport := hP.import_export hp
  simp only [loadSafebag, hP.decrypt_encrypt henc, hP.algorithm_encrypt hp henc, hs]
  cases alg with
  | ed25519 | ecdsaP256 =>
    simp only [Except.mapError, bind, Except.bind, himport]
    rfl

/-- **No saved identity is restored whole**: the certificate name is lost, whatever the identity
and the password are. All else comes back, so signed Data carries the same KeyLocator only for
an identity whose certificate is named like its key. -/
theorem restores_never (h : SoftwareMade P e) (password : Bytes) :
    ¬ Restores P e password ∧ (P.RoundTrips → ∀ bag, e.toSafebag P password = .ok bag →
      ∃ r, loadSafebag P bag password e.keyName = .ok r ∧ r.key = e.signer.key ∧
        r.sigType = e.signer.sigType ∧ r.keyName = e.signer.keyName ∧
          (r.keyLocator = e.signer.keyLocator ↔ e.certName = e.keyName)) := by
  obtain ⟨alg, secret, made, pkcs8, hs, -⟩ := h.stamped
  constructor
  · rintro ⟨bag, r, -, hr, -, -, -, hcert⟩
    rw [loadSafebag_certName hr, hs] at hcert
    cases hcert
  · intro hP bag hb
    refine ⟨_, restores_key hP h hb, rfl, rfl, rfl, ?_⟩
    rw [hs]
    exact eq_comm

/-! ## An identity with an issued certificate -/

theorem clearPlatform_roundTrips : clearPlatform.RoundTrips where
  decrypt_encrypt {cert pkcs8 password bag} h := by
    cases h
    have hfront : password.isPrefixOf (password ++ pkcs8) = true := by simp
    simp only [clearPlatform, if_pos hfront, List.drop_left]
  algorithm_encrypt {alg secret cert pkcs8 password bag} hp h := by
    cases h
    cases hp
    simp only [clearPlatform, List.drop_left]
    cases alg <;> rfl
  import_export {alg secret pkcs8} h := by
    cases h
    exact if_pos rfl

/-- An exchange with the CA in which every step succeeds. -/
def grantedRound : Round := ⟨.ok [], .ok [], .ok (some []), .ok ()⟩

/-- The CA issues `/a/KEY/1/CA` and a repo serves it. -/
def grantedExchange : TokenExchange where
  new := grantedRound
  requestId := some []
  challenge := grantedRound
  complete := true
  issue := ⟨some [⟨8, [97]⟩, keyComponent, ⟨8, [49]⟩, ⟨8, [67, 65]⟩], .ok [6, 2, 7]⟩

def aliceKey : Name := [⟨8, [97]⟩, keyComponent, ⟨8, [49]⟩]

theorem restores_never_alice : ∃ e, enrollTokenConn clearPlatform aliceKey (.ok [7]) grantedExchange
      = .ok e ∧ ¬ Restores clearPlatform e [1, 2] := by
  obtain ⟨e, he⟩ : ∃ e, enrollTokenConn clearPlatform aliceKey (.ok [7]) grantedExchange = .ok e :=
    ⟨_, rfl⟩
  exact ⟨e, he, (restores_never (.tokenConn he) [1, 2]).1⟩

/-- The restored signer names its key where the enrolled one named the issued certificate. -/
theorem restores_fails : ¬ ∀ (P : Platform) (e : EnrolledIdentity) (password : Bytes),
    P.RoundTrips → SoftwareMade P e → e.certificate.isSome = true → Restores P e password := by
  intro h
  obtain ⟨e, he⟩ : ∃ e, enrollTokenConn clearPlatform aliceKey (.ok [7]) grantedExchange = .ok e :=
    ⟨_, rfl⟩
  have hcert : e.certificate.isSome = true := by
    cases he
    rfl
  obtain ⟨bag, r, -, hr, -, -, -, hname⟩ :=
    h clearPlatform e [1, 2] clearPlatform_roundTrips (.tokenConn he) hcert
  rw [loadSafebag_certName hr] at hname
  cases he
  cases hname

end NdnMobile.Identity
