import Mathlib.Algebra.Ring.Nat
import Mathlib.Data.List.Basic
import Mathlib.Tactic.SplitIfs
import NdnMobile.Lib.Decimal

/-!
# The text of network addresses

The standard library's reader of IPv4 and socket addresses: a socket address is an IPv4
address without leading zeros, or an IPv6 address and possibly a scope in brackets, then a
colon and a port. What it reads as IPv4 is the text of that address (`readIpv4_text`), so a
text that a colon and digits complete to a socket address is that of an IPv4 address or
begins with a bracket (`parseSocketAddr_colon`).
-/

namespace NdnMobile.Lib

structure Ipv4 where
  a : UInt8
  b : UInt8
  c : UInt8
  d : UInt8
  deriving DecidableEq, Repr

inductive SocketAddr where
  | v4 (ip : Ipv4) (port : UInt16)
  | v6 (groups : List UInt16) (scope : UInt32) (port : UInt16)
  deriving DecidableEq, Repr

def octetText (o : UInt8) : List Char := Nat.toDigits 10 o.toNat

/-- The upper three octets, and a dot between any two of them. -/
def Ipv4.net (x : Ipv4) : List Char :=
  octetText x.a ++ '.' :: (octetText x.b ++ '.' :: octetText x.c)

/-- The canonical text of an address. -/
def Ipv4.text (x : Ipv4) : List Char := x.net ++ '.' :: octetText x.d

def Ipv4.toNat (x : Ipv4) : Nat :=
  x.a.toNat * 2 ^ 24 + x.b.toNat * 2 ^ 16 + x.c.toNat * 2 ^ 8 + x.d.toNat

/-! ## Readers

A reader returns what it read and the rest of the text; where it fails the text is left as it
was. -/

/-- `read_given_char`. -/
def readChar (c : Char) : List Char → Option (List Char)
  | [] => none
  | x :: rest => if x = c then some rest else none

/-- `char::to_digit`. -/
def toDigit (radix : Nat) (c : Char) : Option Nat :=
  let v :=
    if '0' ≤ c ∧ c ≤ '9' then c.toNat - '0'.toNat
    else if 'a' ≤ c ∧ c ≤ 'z' then c.toNat - 'a'.toNat + 10
    else if 'A' ≤ c ∧ c ≤ 'Z' then c.toNat - 'A'.toNat + 10
    else radix
  if v < radix then some v else none

/-- `read_number`: at most `maxDigits` digits, and a value below `bound`. -/
def readNumber (radix : Nat) (maxDigits : Option Nat) (allowZeroPrefix : Bool) (bound : Nat)
    (s : List Char) : Option (Nat × List Char) :=
  let ds := s.takeWhile fun c => (toDigit radix c).isSome
  let value := ds.foldl (fun n c => radix * n + (toDigit radix c).getD 0) 0
  if ds = [] then none
  else if maxDigits.any (· < ds.length) then none
  else if allowZeroPrefix = false ∧ ds.head? = some '0' ∧ 1 < ds.length then none
  else if value < bound then some (value, s.drop ds.length)
  else none

def readOctet (s : List Char) : Option (UInt8 × List Char) :=
  (readNumber 10 (some 3) false (2 ^ 8) s).map fun x => (UInt8.ofNat x.1, x.2)

/-- `read_ipv4_addr`. -/
def readIpv4 (s : List Char) : Option (Ipv4 × List Char) := do
  let (a, s) ← readOctet s
  let s ← readChar '.' s
  let (b, s) ← readOctet s
  let s ← readChar '.' s
  let (c, s) ← readOctet s
  let s ← readChar '.' s
  let (d, s) ← readOctet s
  return (⟨a, b, c, d⟩, s)

/-- `read_port`. -/
def readPort (s : List Char) : Option (UInt16 × List Char) := do
  let s ← readChar ':' s
  let (port, s) ← readNumber 10 none true (2 ^ 16) s
  return (UInt16.ofNat port, s)

def readSocketAddrV4 (s : List Char) : Option (SocketAddr × List Char) := do
  let (ip, s) ← readIpv4 s
  let (port, s) ← readPort s
  return (.v4 ip port, s)

/-- The colon before a group, but for the first. -/
def readSeparator (first : Bool) (s : List Char) : Option (List Char) :=
  if first then some s else readChar ':' s

/-- `read_groups`: up to `n` groups, the last two possibly as an embedded IPv4 address, which
the flag reports. -/
def readGroups : Nat → Bool → List Char → List UInt16 × Bool × List Char
  | 0, _, s => ([], false, s)
  | n + 1, first, s =>
    match if 0 < n then (readSeparator first s).bind readIpv4 else none with
    | some (x, rest) =>
      ([.ofNat (256 * x.a.toNat + x.b.toNat), .ofNat (256 * x.c.toNat + x.d.toNat)], true, rest)
    | none =>
      match (readSeparator first s).bind (readNumber 16 (some 4) true (2 ^ 16)) with
      | some (g, rest) =>
        let (gs, embedded, rest) := readGroups n false rest
        (.ofNat g :: gs, embedded, rest)
      | none => ([], false, s)

/-- `read_ipv6_addr`. -/
def readIpv6 (s : List Char) : Option (List UInt16 × List Char) :=
  let (head, embedded, rest) := readGroups 8 true s
  if head.length = 8 then some (head, rest)
  else if embedded then none
  else do
    let rest ← readChar ':' rest
    let rest ← readChar ':' rest
    let (tail, _, rest) := readGroups (8 - (head.length + 1)) true rest
    return (head ++ List.replicate (8 - (head.length + tail.length)) 0 ++ tail, rest)

/-- `read_scope_id`. -/
def readScopeId (s : List Char) : Option (UInt32 × List Char) := do
  let s ← readChar '%' s
  let (scope, s) ← readNumber 10 none true (2 ^ 32) s
  return (UInt32.ofNat scope, s)

def readSocketAddrV6 (s : List Char) : Option (SocketAddr × List Char) := do
  let s ← readChar '[' s
  let (groups, s) ← readIpv6 s
  let (scope, s) := (readScopeId s).getD (0, s)
  let s ← readChar ']' s
  let (port, s) ← readPort s
  return (.v6 groups scope port, s)

/-- `parse::<Ipv4Addr>()`: nothing may be left over. -/
def parseIpv4 (s : List Char) : Option Ipv4 :=
  if 15 < s.length then none
  else
    match readIpv4 s with
    | some (x, []) => some x
    | _ => none

/-- `parse::<SocketAddr>()`. -/
def parseSocketAddr (s : List Char) : Option SocketAddr :=
  match (readSocketAddrV4 s).orElse fun _ => readSocketAddrV6 s with
  | some (x, []) => some x
  | _ => none

example : parseSocketAddr "[::ffff:10.0.0.1%3]:080".toList =
    some (.v6 [0, 0, 0, 0, 0, 0xffff, 0x0a00, 0x0001] 3 80) := by decide

/-! ## What a reader has read -/

variable {s rest : List Char}

theorem readChar_eq_some {c : Char} (h : readChar c s = some rest) : s = c :: rest := by
  cases s with
  | nil => cases h
  | cons x s =>
    rw [readChar] at h
    split at h <;> cases h
    rename_i hx
    rw [hx]

theorem toDigit_ten (c : Char) :
    toDigit 10 c = if c.isDigit then some (c.toNat - '0'.toNat) else none := by
  unfold toDigit
  have hdigit : ('0' ≤ c ∧ c ≤ '9') ↔ c.isDigit = true := by
    simp [Char.isDigit, Char.le_def]
  by_cases hd : c.isDigit = true
  · simp only [hdigit, hd, ↓reduceIte, (digitVal_spec hd).1]
  · simp only [hdigit, hd, ↓reduceIte, Bool.false_eq_true]
    split_ifs <;> first | rfl | omega

theorem foldl_toDigit {ds : List Char} (hd : ∀ c ∈ ds, c.isDigit = true) (n : Nat) :
    ds.foldl (fun n c => 10 * n + (toDigit 10 c).getD 0) n = Nat.ofDigitChars 10 ds n := by
  induction ds generalizing n with
  | nil => rfl
  | cons c ds ih =>
    rw [List.foldl_cons, ih fun d h => hd d (List.mem_cons_of_mem _ h), Nat.ofDigitChars_cons,
      toDigit_ten, if_pos (hd c List.mem_cons_self), Option.getD_some]

/-- A decimal number that was read: its digits are the longest run of them. -/
theorem readNumber_ten {maxDigits : Option Nat} {zero : Bool} {bound n : Nat}
    (h : readNumber 10 maxDigits zero bound s = some (n, rest)) :
    takeDigits s ≠ [] ∧ decVal (takeDigits s) = n ∧ n < bound ∧ s = takeDigits s ++ rest ∧
      (zero = false → (takeDigits s).head? = some '0' → (takeDigits s).length = 1) := by
  have hds : (s.takeWhile fun c => (toDigit 10 c).isSome) = takeDigits s := by
    unfold takeDigits
    congr 1
    funext c
    rw [toDigit_ten]
    cases c.isDigit <;> rfl
  simp only [readNumber, hds, foldl_toDigit fun c => isDigit_of_mem_takeDigits] at h
  have hdrop : (takeDigits s ++ dropDigits s).drop (takeDigits s).length = dropDigits s :=
    List.drop_left ..
  rw [takeDigits_append_dropDigits] at hdrop
  split at h
  · cases h
  rename_i hne
  split at h
  · cases h
  split at h
  · cases h
  rename_i hlead
  split at h <;> cases h
  rename_i hlt
  refine ⟨hne, rfl, hlt, ?_, fun hz h0 => ?_⟩
  · rw [hdrop, takeDigits_append_dropDigits]
  · have hlen := List.length_pos_iff.mpr hne
    by_contra hlong
    exact hlead ⟨hz, h0, by omega⟩

theorem readOctet_text {o : UInt8} (h : readOctet s = some (o, rest)) :
    s = octetText o ++ rest := by
  obtain ⟨⟨n, r⟩, hread, heq⟩ := Option.map_eq_some_iff.mp h
  obtain ⟨hne, hval, hlt, hs, hlead⟩ := readNumber_ten hread
  rw [Prod.mk.injEq] at heq
  obtain ⟨rfl, rfl⟩ := heq
  rw [octetText, UInt8.toNat_ofNat', Nat.mod_eq_of_lt hlt, ← hval,
    toDigits_decVal (fun c => isDigit_of_mem_takeDigits) hne (hlead rfl)]
  exact hs

/-- Only canonical text is read as an IPv4 address. -/
theorem readIpv4_text {x : Ipv4} (h : readIpv4 s = some (x, rest)) : s = x.text ++ rest := by
  simp only [readIpv4, Option.bind_eq_bind, Option.bind_eq_some_iff, Prod.exists, Option.pure_def,
    Option.some.injEq, Prod.mk.injEq] at h
  obtain ⟨a, s1, ha, s2, h1, b, s3, hb, s4, h2, c, s5, hc, s6, h3, d, s7, hd, rfl, rfl⟩ := h
  rw [readOctet_text ha, readChar_eq_some h1, readOctet_text hb, readChar_eq_some h2,
    readOctet_text hc, readChar_eq_some h3, readOctet_text hd]
  simp [Ipv4.text, Ipv4.net]

theorem readPort_text {port : UInt16} (h : readPort s = some (port, [])) :
    ∃ ds, s = ':' :: ds ∧ ∀ c ∈ ds, c.isDigit = true := by
  simp only [readPort, Option.bind_eq_bind, Option.bind_eq_some_iff, Prod.exists, Option.pure_def,
    Option.some.injEq, Prod.mk.injEq] at h
  obtain ⟨s1, h1, n, s2, hn, -, rfl⟩ := h
  obtain ⟨-, -, -, hs, -⟩ := readNumber_ten hn
  rw [List.append_nil] at hs
  refine ⟨s1, readChar_eq_some h1, fun c hc => ?_⟩
  rw [hs] at hc
  exact isDigit_of_mem_takeDigits hc

/-! ## The text of an address -/

theorem notMem_octetText {c : Char} (h : c.isDigit = false) (o : UInt8) : c ∉ octetText o :=
  fun hc => by
    rw [isDigit_of_mem_toDigits hc] at h
    cases h

theorem octetText_inj {o p : UInt8} (h : octetText o = octetText p) : o = p :=
  UInt8.toNat_inj.mp (toDigits_inj h)

theorem colon_notMem_text (x : Ipv4) : ':' ∉ x.text := by
  have hno := notMem_octetText (c := ':') (by decide)
  simp [Ipv4.text, Ipv4.net, hno]

/-- A text is cut at its first separator in one way. -/
theorem append_sep_inj {c : Char} {as bs cs ds : List Char} (ha : c ∉ as) (hb : c ∉ bs)
    (h : as ++ c :: cs = bs ++ c :: ds) : as = bs ∧ cs = ds := by
  induction as generalizing bs with
  | nil =>
    cases bs with
    | nil => exact ⟨rfl, (List.cons.inj h).2⟩
    | cons b bs => exact absurd ((List.cons.inj h).1 ▸ List.mem_cons_self) hb
  | cons a as ih =>
    cases bs with
    | nil => exact absurd ((List.cons.inj h).1 ▸ List.mem_cons_self) ha
    | cons b bs =>
      rw [List.mem_cons, not_or] at ha hb
      obtain ⟨hhead, htail⟩ := List.cons.inj h
      obtain ⟨hl, hr⟩ := ih ha.2 hb.2 htail
      exact ⟨by rw [hhead, hl], hr⟩

/-- Two networks are the same text exactly if they are the same upper 24 bits. -/
theorem net_eq_iff (x y : Ipv4) : x.net = y.net ↔ x.toNat / 2 ^ 8 = y.toNat / 2 ^ 8 := by
  have hno := notMem_octetText (c := '.') (by decide)
  have hocts : x.net = y.net ↔ x.a = y.a ∧ x.b = y.b ∧ x.c = y.c := by
    unfold Ipv4.net
    constructor
    · intro h
      obtain ⟨ha, h⟩ := append_sep_inj (hno _) (hno _) h
      obtain ⟨hb, hc⟩ := append_sep_inj (hno _) (hno _) h
      exact ⟨octetText_inj ha, octetText_inj hb, octetText_inj hc⟩
    · rintro ⟨ha, hb, hc⟩
      rw [ha, hb, hc]
  have hlt : ∀ o : UInt8, o.toNat < 256 := UInt8.toNat_lt
  simp only [hocts, ← UInt8.toNat_inj, Ipv4.toNat]
  have := hlt x.a
  have := hlt x.b
  have := hlt x.c
  have := hlt x.d
  have := hlt y.a
  have := hlt y.b
  have := hlt y.c
  have := hlt y.d
  omega

theorem readSocketAddrV4_text {addr : SocketAddr} (h : readSocketAddrV4 s = some (addr, [])) :
    ∃ (x : Ipv4) (ds : List Char), s = x.text ++ ':' :: ds ∧ ∀ c ∈ ds, c.isDigit = true := by
  simp only [readSocketAddrV4, Option.bind_eq_bind, Option.bind_eq_some_iff, Prod.exists,
    Option.pure_def, Option.some.injEq, Prod.mk.injEq] at h
  obtain ⟨x, s1, hx, port, s2, hport, -, rfl⟩ := h
  obtain ⟨ds, hs1, hds⟩ := readPort_text hport
  exact ⟨x, ds, by rw [readIpv4_text hx, hs1], hds⟩

theorem readSocketAddrV6_bracket {x : SocketAddr × List Char} (h : readSocketAddrV6 s = some x) :
    s.head? = some '[' := by
  simp only [readSocketAddrV6, Option.bind_eq_bind, Option.bind_eq_some_iff] at h
  obtain ⟨s1, hs1, -⟩ := h
  rw [readChar_eq_some hs1]
  rfl

/-- What a colon and a port's digits complete to a socket address is the text of an IPv4
address, or begins with the bracket of an IPv6 one. -/
theorem parseSocketAddr_colon {p port : List Char}
    (h : (parseSocketAddr (p ++ ':' :: port)).isSome) :
    (∃ x : Ipv4, p = x.text) ∨ p.head? = some '[' := by
  unfold parseSocketAddr at h
  cases hv4 : readSocketAddrV4 (p ++ ':' :: port) with
  | some y =>
    rw [hv4, Option.orElse_some] at h
    obtain ⟨addr, r⟩ := y
    cases r with
    | cons c r => cases h
    | nil =>
      obtain ⟨x, ds, hs, hds⟩ := readSocketAddrV4_text hv4
      have hcolon : ':' ∉ ds := fun hc => by cases hds ':' hc
      have hcut := (List.append_cons_inj_of_notMem (colon_notMem_text x) hcolon).mp hs.symm
      exact .inl ⟨x, hcut.1.symm⟩
  | none =>
    rw [hv4, Option.orElse_none] at h
    cases hv6 : readSocketAddrV6 (p ++ ':' :: port) with
    | none =>
      rw [hv6] at h
      cases h
    | some y =>
      have hhead := readSocketAddrV6_bracket hv6
      cases p with
      | nil => cases hhead
      | cons c p => exact .inr hhead

end NdnMobile.Lib
