import NdnMobile.Codec.Element
import NdnMobile.Identity.Core
import NdnMobile.Lib.Split
import NdnMobile.Packet.Uri

/-!
# Interests with a chosen nonce

`encodeInterest` is `NdnCodec::encode_interest`: the packet library builds an Interest with
four random nonce bytes, and `patchNonce` looks for them behind the first `0x0A 0x04` of the
wire. The layout of the wire and its decoder are the parameter `InterestLib`. The two bytes
can also stand in the name, and `setsNonce_iff` says that this is the only obstacle.
-/

namespace NdnMobile.Codec

open NdnMobile.Lib NdnMobile.Packet NdnMobile.Identity

structure Interest where
  name : Name
  nonce : Option UInt32
  deriving DecidableEq, Repr

/-- Type and length of a Nonce TLV. -/
def nonceMark : Bytes := [0x0A, 0x04]

/-- What the code relies on in the packet library. -/
structure InterestLib where
  parseName : String → Option Name
  /-- The Interest's own type and length, which the Name TLV follows. -/
  header : Name → Bytes
  nameTlv : Name → Bytes
  /-- What the builder writes between the Name and the Nonce. -/
  between : Name → Bytes
  after : Name → Bytes
  decode : Bytes → Option Interest
  decode_build : ∀ {uri name value}, parseName uri = some name → value.length = 4 →
    decode ((header name ++ (nameTlv name ++ between name)) ++
      (nonceMark ++ (value ++ after name))) =
        some ⟨name, some (UInt32.ofNat (beVal value))⟩

namespace InterestLib

variable (L : InterestLib)

/-- Everything ahead of the Nonce. -/
def ahead (name : Name) : Bytes := L.header name ++ (L.nameTlv name ++ L.between name)

/-- `InterestBuilder::new(name).build()`, with the nonce bytes it draws. -/
def build (name : Name) (value : Bytes) : Bytes :=
  L.ahead name ++ (nonceMark ++ (value ++ L.after name))

end InterestLib

/-- `patch_nonce`, from one index of the buffer on. -/
def patchNonce (nonce : UInt32) : Bytes → Bytes
  | [] => []
  | b :: rest =>
    -- the range ends at `buf.len().saturating_sub(5)`
    if 5 ≤ rest.length then
      if b = 0x0A ∧ rest.head? = some 0x04 then
        b :: (rest.take 1 ++ (beBytes 4 nonce.toNat ++ rest.drop 5))
      else b :: patchNonce nonce rest
    else b :: rest

/-- `NdnCodec::encode_interest`. -/
def encodeInterest (L : InterestLib) (random : Bytes) (name : String) (nonce : UInt32) :
    Except NdnError Bytes := do
  let parsed ← okOr (L.parseName name) (.invalidName name)
  let wire := L.build parsed random
  return patchNonce nonce wire

/-- Whatever four bytes the builder draws, the wire that comes out is the builder's except
for these four, and decodes to the name and the nonce. -/
def SetsNonce (L : InterestLib) (uri : String) (nonce : UInt32) : Prop :=
  ∀ name, L.parseName uri = some name → ∀ random : Bytes, random.length = 4 →
    ∃ out value, encodeInterest L random uri nonce = .ok out ∧ value.length = 4 ∧
      out = L.build name value ∧ L.decode out = some ⟨name, some nonce⟩

variable {L : InterestLib}

/-! ## The scan -/

theorem nonceMark_ne_nil : nonceMark ≠ [] := List.cons_ne_nil _ _

theorem nonceMark_prefix_iff {b : UInt8} {rest : Bytes} :
    nonceMark <+: b :: rest ↔ b = 0x0A ∧ rest.head? = some 0x04 := by
  cases rest with
  | nil => simp [nonceMark]
  | cons c rest => simp [nonceMark, List.cons_prefix_cons, eq_comm]

/-- The scan stops at the first mark that has four bytes behind it. -/
theorem patchNonce_splitOnce (nonce : UInt32) {buf a rest : Bytes}
    (h : splitOnce nonceMark buf = some (a, rest)) (hlen : 4 ≤ rest.length) :
    patchNonce nonce buf = a ++ (nonceMark ++ (beBytes 4 nonce.toNat ++ rest.drop 4)) := by
  induction buf generalizing a with
  | nil => cases h
  | cons b buf ih =>
    rw [splitOnce] at h
    by_cases hp : nonceMark <+: b :: buf
    · obtain ⟨rfl, hb⟩ := nonceMark_prefix_iff.mp hp
      obtain ⟨buf, rfl⟩ := List.head?_eq_some_iff.mp hb
      rw [if_pos hp] at h
      cases h
      have hlen' : 5 ≤ (0x04 :: buf).length := Nat.succ_le_succ hlen
      rw [patchNonce, if_pos hlen', if_pos ⟨rfl, rfl⟩]
      rfl
    · rw [if_neg hp] at h
      obtain ⟨⟨a', rest'⟩, hs, hx⟩ := Option.map_eq_some_iff.mp h
      cases hx
      change 4 ≤ rest'.length at hlen
      have hlen' : 5 ≤ buf.length := by
        rw [splitOnce_append_eq hs]
        simp only [List.length_append, nonceMark, List.length_cons]
        omega
      rw [patchNonce, if_pos hlen', if_neg (mt nonceMark_prefix_iff.mpr hp), ih hs]
      rfl

/-- Where the mark is not in `a`, it is first found behind it: none can straddle the end. -/
theorem splitOnce_nonceMark {a : Bytes} (h : ¬ nonceMark <:+: a) (rest : Bytes) :
    splitOnce nonceMark (a ++ (nonceMark ++ rest)) = some (a, rest) := by
  refine splitOnce_eq_some nonceMark_ne_nil fun a₁ a₂ ha hne hp => ?_
  match a₂ with
  | [] => exact hne rfl
  | [b] =>
    have := (nonceMark_prefix_iff.mp hp).2
    simp [nonceMark] at this
  | b :: c :: a₂ =>
    refine h (List.IsInfix.trans ?_ ⟨a₁, [], by rw [ha, List.append_nil]⟩)
    exact (List.prefix_of_prefix_length_le hp (List.prefix_append ..) (by simp [nonceMark])).isInfix

/-! ## Encoding -/

theorem encodeInterest_invalid {uri : String} (h : L.parseName uri = none) (random : Bytes)
    (nonce : UInt32) : encodeInterest L random uri nonce = .error (.invalidName uri) := by
  simp [encodeInterest, okOr, h, bind, Except.bind]

theorem encodeInterest_ok {uri : String} {name : Name} (h : L.parseName uri = some name)
    (random : Bytes) (nonce : UInt32) :
    encodeInterest L random uri nonce = .ok (patchNonce nonce (L.build name random)) := by
  simp [encodeInterest, okOr, h, bind, Except.bind, pure, Except.pure]

theorem beVal_concat_mod (bs : Bytes) (b : UInt8) : beVal (bs ++ [b]) % 256 = b.toNat := by
  induction bs with
  | nil =>
    have := b.toNat_lt
    simp [beVal]
  | cons c bs ih =>
    rw [List.cons_append, beVal, List.length_append, List.length_singleton, Nat.pow_succ,
      ← Nat.mul_assoc, Nat.mul_add_mod_self_right, ih]

/-- With the mark ahead of the Nonce, the last of the builder's bytes stays. -/
theorem patchNonce_keeps_last {name : Name} (nonce : UInt32) (h : nonceMark <:+: L.ahead name)
    {value : Bytes} (hv : value.length = 3) (last : UInt8) : ∃ front,
      patchNonce nonce (L.build name (value ++ [last])) = front ++ last :: L.after name := by
  obtain ⟨a, b, hsplit⟩ := splitOnce_of_infix nonceMark_ne_nil h
  have hbuild : b ++ (nonceMark ++ ((value ++ [last]) ++ L.after name)) =
      (b ++ (nonceMark ++ value)) ++ last :: L.after name := by simp
  have hlen : 4 ≤ (b ++ (nonceMark ++ value)).length := by
    simp only [List.length_append, nonceMark, List.length_cons, hv]
    omega
  have hscan := splitOnce_append hsplit (nonceMark ++ ((value ++ [last]) ++ L.after name))
  rw [hbuild] at hscan
  refine ⟨a ++ (nonceMark ++ (beBytes 4 nonce.toNat ++ (b ++ (nonceMark ++ value)).drop 4)), ?_⟩
  rw [InterestLib.build, patchNonce_splitOnce nonce hscan (by rw [List.length_append]; omega),
    List.drop_append_of_le_length hlen]
  simp only [List.append_assoc]

theorem build_last {name : Name} {front value : Bytes} {last : UInt8}
    (h : front ++ last :: L.after name = L.build name value) (hv : value ≠ []) :
    value.getLast? = some last := by
  have hcat : (front ++ [last]) ++ L.after name =
      (L.ahead name ++ (nonceMark ++ value)) ++ L.after name := by
    simpa [InterestLib.build] using h
  have hlast := congrArg List.getLast? (List.append_cancel_right hcat)
  rw [List.getLast?_concat, List.getLast?_append_of_ne_nil _ (by simp [hv]),
    List.getLast?_append_of_ne_nil _ hv] at hlast
  exact hlast.symm

theorem ofNat_beVal_beBytes (nonce : UInt32) :
    UInt32.ofNat (beVal (beBytes 4 nonce.toNat)) = nonce := by
  rw [beVal_beBytes nonce.toNat_lt, UInt32.ofNat_toNat]

/-- Where the mark stands ahead of the Nonce, one of the builder's draws goes wrong: the one
whose last byte is not the nonce's. -/
theorem not_setsNonce {uri : String} {name : Name} (hname : L.parseName uri = some name)
    (hmark : nonceMark <:+: L.ahead name) (nonce : UInt32) : ¬ SetsNonce L uri nonce := by
  intro h
  obtain ⟨out, value, hok, hlen, hout, hdecode⟩ :=
    h name hname ([0, 0, 0] ++ [UInt8.ofNat (nonce.toNat + 1)]) rfl
  obtain ⟨front, hfront⟩ := patchNonce_keeps_last nonce hmark
    (show ([0, 0, 0] : Bytes).length = 3 from rfl) (UInt8.ofNat (nonce.toNat + 1))
  rw [encodeInterest_ok hname, hfront, Except.ok.injEq] at hok
  have hlast := build_last (hok.trans hout) (List.ne_nil_of_length_pos (by omega))
  obtain ⟨value, rfl⟩ := List.getLast?_eq_some_iff.mp hlast
  rw [hout, InterestLib.build, InterestLib.ahead, L.decode_build hname hlen] at hdecode
  have hnonce : UInt32.ofNat (beVal (value ++ [UInt8.ofNat (nonce.toNat + 1)])) = nonce := by
    simpa using hdecode
  have htoNat := congrArg UInt32.toNat hnonce
  have hmod := beVal_concat_mod value (UInt8.ofNat (nonce.toNat + 1))
  rw [UInt32.toNat_ofNat'] at htoNat
  rw [UInt8.toNat_ofNat'] at hmod
  omega

theorem setsNonce_of_clear {uri : String} (nonce : UInt32)
    (h : ∀ name, L.parseName uri = some name → ¬ nonceMark <:+: L.ahead name) :
    SetsNonce L uri nonce := by
  intro name hname random hrandom
  have hscan := splitOnce_nonceMark (h name hname) (random ++ L.after name)
  have hpatch := patchNonce_splitOnce nonce hscan (by rw [List.length_append]; omega)
  rw [List.drop_left' hrandom] at hpatch
  refine ⟨_, beBytes 4 nonce.toNat, encodeInterest_ok hname random nonce, beBytes_length ..,
    hpatch, ?_⟩
  rw [InterestLib.build, hpatch, InterestLib.ahead, L.decode_build hname (beBytes_length ..),
    ofNat_beVal_beBytes]

/-- **Setting the nonce, exactly**: the nonce and nothing else changes if and only if the
bytes `0x0A 0x04` do not stand in what the builder writes ahead of the Nonce. -/
theorem setsNonce_iff (L : InterestLib) (uri : String) (nonce : UInt32) :
    SetsNonce L uri nonce ↔
      ∀ name, L.parseName uri = some name → ¬ nonceMark <:+: L.ahead name :=
  ⟨fun h _ hname hmark => not_setsNonce hname hmark nonce h, setsNonce_of_clear nonce⟩

/-! ## A packet library -/

def nameElement (name : Name) : Component := ⟨7, name.flatMap element⟩

/-- The Interest of a name and a nonce and nothing more. -/
def interestElement (name : Name) (value : Bytes) : Component :=
  ⟨5, [nameElement name, ⟨10, value⟩].flatMap element⟩

/-- Every length field of the name's Interest holds its length. -/
def Fits (name : Name) : Prop :=
  (∀ c ∈ name, Writable c) ∧ (element (nameElement name)).length + 6 < 2 ^ 64

instance (name : Name) : Decidable (Fits name) := inferInstanceAs (Decidable (_ ∧ _))

def decodeInterest (wire : Bytes) : Option Interest := do
  let (interest, _) ← readElement wire
  match ← readElements interest.value.length interest.value with
  | [] => none
  | nm :: cs =>
    let name ← readElements nm.value.length nm.value
    let nonce := cs.find? fun c => c.typ = 10 ∧ c.value.length = 4
    if interest.typ = 5 ∧ nm.typ = 7 then
      some ⟨name, nonce.map fun c => UInt32.ofNat (beVal c.value)⟩
    else none

theorem element_nonce {value : Bytes} (h : value.length = 4) :
    element ⟨10, value⟩ = nonceMark ++ value := by
  simp [element, varNum, h, nonceMark]

theorem interestElement_length {value : Bytes} (h : value.length = 4) (name : Name) :
    (interestElement name value).value.length = (element (nameElement name)).length + 6 := by
  simp [interestElement, element_nonce h, nonceMark, h]

theorem decodeInterest_element {name : Name} (hfit : Fits name) {value : Bytes}
    (h : value.length = 4) (rest : Bytes) :
    decodeInterest (element (interestElement name value) ++ rest) =
      some ⟨name, some (UInt32.ofNat (beVal value))⟩ := by
  have hlen := interestElement_length h name
  have hname : Writable (nameElement name) := by
    have := value_length_le (nameElement name)
    exact ⟨by simp [nameElement], by have := hfit.2; omega⟩
  have hwrite : Writable (interestElement name value) :=
    ⟨by simp [interestElement], by have := hfit.2; omega⟩
  have hnonce : Writable ⟨10, value⟩ := by simp [Writable, h]
  have hparts : readElements (interestElement name value).value.length
      (interestElement name value).value = some [nameElement name, ⟨10, value⟩] :=
    readElements_flatMap (by simp [hname, hnonce]) (Nat.le_refl _)
  have hcomps : readElements (nameElement name).value.length (nameElement name).value =
      some name := readElements_flatMap hfit.1 (Nat.le_refl _)
  simp only [decodeInterest, readElement_element hwrite, hparts, hcomps, Option.bind_eq_bind,
    Option.bind_some]
  simp [interestElement, nameElement, h]

/-- Percent-escaped names, an Interest of Name and Nonce alone. A name too long for the length
fields is refused. -/
def InterestLib.tlv : InterestLib where
  parseName uri := (UriSyntax.percent.parse uri).filter fun name => decide (Fits name)
  header name := varNum 5 ++ varNum ((element (nameElement name)).length + 6)
  nameTlv name := element (nameElement name)
  between _ := []
  after _ := []
  decode := decodeInterest
  decode_build {uri name value} hname h := by
    have hfit : Fits name := by simpa using (Option.filter_eq_some_iff.mp hname).2
    have hwire : (varNum 5 ++ varNum ((element (nameElement name)).length + 6) ++
        (element (nameElement name) ++ [])) ++ (nonceMark ++ (value ++ [])) =
          element (interestElement name value) ++ [] := by
      conv_rhs => rw [element, interestElement_length h]
      simp [interestElement, element_nonce h]
    rw [hwire]
    exact decodeInterest_element hfit h []

/-- The component `0x0A 0x04`. -/
def markedName : Name := [⟨8, nonceMark⟩]

/-- The bytes of a component are taken for the Nonce. -/
theorem setsNonce_fails : ¬ ∀ (L : InterestLib) (uri : String) (nonce : UInt32),
    SetsNonce L uri nonce := by
  intro h
  have hname : InterestLib.tlv.parseName "/%0A%04" = some markedName := by decide
  exact not_setsNonce hname (by decide) 7 (h .tlv "/%0A%04" 7)

end NdnMobile.Codec
