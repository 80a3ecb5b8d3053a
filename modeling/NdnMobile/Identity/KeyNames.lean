import NdnMobile.Identity.Coherence
import NdnMobile.Lib.Split
import NdnMobile.Packet.Print

/-!
# Splitting key and certificate names

`keyNameFromCert` cuts a certificate name behind its first `KEY` component, and
`identityOfKey` a printed key name before the first `/KEY/`. Under the naming convention
the `KEY` component is the one the key id, the issuer and the version follow, so both give
the convention's answer exactly where the identity has no `KEY` of its own (`splits_iff`).
-/

namespace NdnMobile.Identity

open NdnMobile.Lib NdnMobile.Packet

/-- Text and components agree on names, and `KEY` prints as it is. -/
structure KeyText (P : Platform) extends UriText P.parseName P.showName where
  text_key : text keyComponent = ['K', 'E', 'Y']

/-- Both functions split the certificate name `I/KEY/K/S` where the convention does. -/
def Splits (P : Platform) (identity : Name) (keyId : Component) (suffix : Name) : Prop :=
  keyNameFromCert (identity ++ keyComponent :: keyId :: suffix) =
      identity ++ [keyComponent, keyId] ∧
    identityOfKey P (identity ++ [keyComponent, keyId]) = some identity

/-- A component whose value is `KEY`, of any type. -/
def IsKey (c : Component) : Prop := c.value = keyComponent.value

instance (c : Component) : Decidable (IsKey c) := inferInstanceAs (Decidable (_ = _))

/-! ## On components -/

/-- The cut is behind the component that follows the first `KEY`. -/
theorem keyNameFromCert_first {front : Name} (hfront : ∀ c ∈ front, ¬ IsKey c) {key : Component}
    (hkey : IsKey key) (next : Component) (rest : Name) :
    keyNameFromCert (front ++ key :: next :: rest) = front ++ [key, next] := by
  have hnone : front.findIdx? (·.value = keyComponent.value) = none := by
    simpa [List.findIdx?_eq_none_iff, IsKey] using hfront
  have hidx : (front ++ key :: next :: rest).findIdx? (·.value = keyComponent.value) =
      some front.length := by
    rw [List.findIdx?_append, hnone, List.findIdx?_cons, if_pos (by simpa [IsKey] using hkey)]
    simp
  have hmin : min (front.length + 2) (front ++ key :: next :: rest).length = front.length + 2 := by
    simp only [List.length_append, List.length_cons]
    omega
  simp only [keyNameFromCert, hidx, hmin]
  rw [List.take_length_add_append]
  rfl

theorem exists_first_key {name : Name} (h : ∃ c ∈ name, IsKey c) :
    ∃ front key back, name = front ++ key :: back ∧ (∀ c ∈ front, ¬ IsKey c) ∧ IsKey key := by
  obtain ⟨c, hc⟩ := Option.isSome_iff_exists.mp
    ((List.find?_isSome (p := fun c => decide (IsKey c))).mpr (by simpa using h))
  obtain ⟨hkey, front, back, hname, hfront⟩ := List.find?_eq_some_iff_append.mp hc
  exact ⟨front, c, back, hname, by simpa using hfront, by simpa using hkey⟩

/-- An identity with a `KEY` of its own loses what follows it. -/
theorem keyNameFromCert_ne {identity : Name} (h : ∃ c ∈ identity, IsKey c) (keyId : Component)
    (suffix : Name) : keyNameFromCert (identity ++ keyComponent :: keyId :: suffix) ≠
      identity ++ [keyComponent, keyId] := by
  obtain ⟨front, key, back, rfl, hfront, hkey⟩ := exists_first_key h
  obtain ⟨next, rest, hnext⟩ := List.exists_cons_of_ne_nil
    (show back ++ keyComponent :: keyId :: suffix ≠ [] by simp)
  rw [List.append_assoc, List.cons_append, hnext, keyNameFromCert_first hfront hkey]
  intro heq
  have hlen := congrArg List.length heq
  simp only [List.length_append, List.length_cons, List.length_nil] at hlen
  omega

/-! ## On text -/

def keySeparator : List Char := ['/', 'K', 'E', 'Y', '/']

variable {P : Platform}

/-- No component but `KEY` prints as the inside of the separator. -/
theorem not_keySeparator_prefix {x : List Char} (hslash : '/' ∉ x) (hkey : x ≠ ['K', 'E', 'Y'])
    (s : List Char) : ¬ keySeparator <+: '/' :: (x ++ '/' :: s) := by
  intro h
  match x with
  | [] | [_] | [_, _] => simp [keySeparator] at h
  | [_, _, _] =>
    simp [keySeparator] at h
    obtain ⟨rfl, rfl, rfl⟩ := h
    exact hkey rfl
  | _ :: _ :: _ :: c :: _ =>
    simp [keySeparator] at h
    simp [← h.2.2.2] at hslash

/-- The first `/KEY/` of a printed key name is behind an identity without `KEY`. -/
theorem splitOnce_slashed (U : KeyText P) {identity : Name}
    (h : ∀ c ∈ identity, ¬ IsKey c) (s : List Char) :
    splitOnce keySeparator (slashed U.text identity ++ (keySeparator ++ s)) =
      some (slashed U.text identity, s) := by
  induction identity with
  | nil => exact splitOnce_of_prefix (List.cons_ne_nil _ _) s
  | cons c identity ih =>
    obtain ⟨hc, hrest⟩ := List.forall_mem_cons.mp h
    have htext : U.text c ≠ ['K', 'E', 'Y'] := fun ht =>
      hc (congrArg Component.value (U.text_inj (ht.trans U.text_key.symm)))
    -- what follows the component starts with a slash
    obtain ⟨s', hs'⟩ : ∃ s', slashed U.text identity ++ (keySeparator ++ s) = '/' :: s' := by
      cases identity with
      | nil => exact ⟨_, rfl⟩
      | cons d identity => exact ⟨_, rfl⟩
    have hno := not_keySeparator_prefix (U.slash_notMem c) htext s'
    have hskip : splitOnce keySeparator (U.text c ++ '/' :: s') =
        (splitOnce keySeparator ('/' :: s')).map fun y => (U.text c ++ y.1, y.2) :=
      splitOnce_skip (U.slash_notMem c) _
    rw [slashed_cons, List.cons_append, List.append_assoc, hs', splitOnce_cons_of_not hno, hskip,
      ← hs', ih hrest]
    rfl

theorem identityOfKey_of_not_isKey (U : KeyText P) {identity : Name}
    (h : ∀ c ∈ identity, ¬ IsKey c) (keyId : Component) :
    identityOfKey P (identity ++ [keyComponent, keyId]) =
      P.parseName (String.ofList (slashed U.text identity)) := by
  have hprint : P.showName (identity ++ [keyComponent, keyId]) =
      String.ofList (slashed U.text identity ++ (keySeparator ++ U.text keyId)) := by
    rw [U.print_eq _ (by simp), slashed_append, slashed_cons, slashed_cons, U.text_key]
    simp [keySeparator]
  have hne : keySeparator ≠ [] := List.cons_ne_nil _ _
  obtain ⟨y, ys, hsplit⟩ := splitOn_of_splitOnce hne
    (splitOnce_slashed U h (U.text keyId))
  rw [identityOfKey, hprint, show "/KEY/" = String.ofList keySeparator from rfl, hsplit]

/-- **Both splitters, exactly**: they give the convention's key name and identity if and only if
no component of the identity is `KEY`, and an empty text reads as the empty name where the
identity is empty. -/
theorem splits_iff (P : Platform) (U : KeyText P) (identity : Name) (keyId : Component)
    (suffix : Name) : Splits P identity keyId suffix ↔
      (∀ c ∈ identity, ¬ IsKey c) ∧ (identity = [] → P.parseName "" = some []) := by
  constructor
  · rintro ⟨hcert, hkey⟩
    have h : ∀ c ∈ identity, ¬ IsKey c := fun c hc hk =>
      keyNameFromCert_ne ⟨c, hc, hk⟩ keyId suffix hcert
    refine ⟨h, ?_⟩
    rintro rfl
    rwa [identityOfKey_of_not_isKey U h] at hkey
  · rintro ⟨h, hempty⟩
    refine ⟨keyNameFromCert_first h rfl keyId suffix, ?_⟩
    rw [identityOfKey_of_not_isKey U h]
    by_cases hi : identity = []
    · subst hi
      exact hempty rfl
    · rw [← U.print_eq identity hi, U.parse_print]

/-- The transparent platform, with names printed and read with escapes. -/
def uriPlatform : Platform := { clearPlatform with
  parseName := UriSyntax.typed.parse
  showName := fun name => if name = [] then "/" else String.ofList (slashed typedText name) }

def uriPlatform.keyText : KeyText uriPlatform :=
  { UriText.typed with text_key := by decide }

/-- Both split the certificate name `/a/b/KEY/k/self/1` behind `/a/b`. -/
theorem splits_iff_uriPlatform :
    Splits uriPlatform [⟨8, [97]⟩, ⟨8, [98]⟩] ⟨8, [107]⟩ [⟨8, [115, 101, 108, 102]⟩, ⟨54, [1]⟩] :=
  (splits_iff uriPlatform uriPlatform.keyText _ _ _).mpr ⟨by decide, nofun⟩

/-- `/a/KEY/b`. -/
def keyedIdentity : Name := [⟨8, [97]⟩, keyComponent, ⟨8, [98]⟩]

/-- The key name of `/a/KEY/b/KEY/k` comes out as `/a/KEY/b`. -/
theorem splits_fails : ¬ ∀ (P : Platform) (_ : KeyText P) (identity : Name) (keyId : Component)
    (suffix : Name), Splits P identity keyId suffix := by
  intro h
  have hcert := (h uriPlatform uriPlatform.keyText keyedIdentity ⟨8, [107]⟩ []).1
  exact absurd hcert (by decide)

end NdnMobile.Identity
