import NdnMobile.Lib.BigEndian
import NdnMobile.Rust

/-!
# The flow of an IP packet

`parseIpFlow` is `parse_ip_flow` with every slice access it makes: one out of bounds is a
panic. `IpHeader` is what a complete header at the front of a packet says, and `flowOf` the
5-tuple a reader of that header and of the two fields behind it sees. The parser agrees
with `flowOf` except on the packets with an IPv4 version whose IHL names a header shorter
than the fixed part or longer than the packet (`readsFlow_iff`).
-/

namespace NdnMobile.Tunnel

open NdnMobile.Lib

/-- `[u8; n]`. -/
abbrev Octets (n : Nat) := { bs : Bytes // bs.length = n }

inductive IpAddr where
  | v4 (octets : Octets 4)
  | v6 (octets : Octets 16)
  deriving DecidableEq

structure IpFlow where
  version : UInt8
  protocol : UInt8
  src : IpAddr
  dst : IpAddr
  srcPort : UInt16
  dstPort : UInt16
  deriving DecidableEq

/-! ### The parser -/

/-- `pkt[i]`. -/
def index (pkt : Bytes) (i : Nat) : Except Panic UInt8 :=
  match pkt[i]? with
  | some b => .ok b
  | none => .error .sliceIndex

/-- `[pkt[i], pkt[i + 1], pkt[i + 2], pkt[i + 3]]`. -/
def index4 (pkt : Bytes) (i : Nat) : Except Panic (Octets 4) := do
  let a ← index pkt i
  let b ← index pkt (i + 1)
  let c ← index pkt (i + 2)
  let d ← index pkt (i + 3)
  return ⟨[a, b, c, d], rfl⟩

/-- `s.copy_from_slice(&pkt[i..j])` into an array of `n` bytes. -/
def copyFromSlice (n : Nat) (pkt : Bytes) (i j : Nat) : Except Panic (Octets n) :=
  if i ≤ j ∧ j ≤ pkt.length then
    if h : ((pkt.drop i).take (j - i)).length = n then .ok ⟨(pkt.drop i).take (j - i), h⟩
    else .error .sliceIndex
  else .error .sliceIndex

/-- `pkt.get(i..)`. -/
def getFrom (pkt : Bytes) (i : Nat) : Option Bytes :=
  if i ≤ pkt.length then some (pkt.drop i) else none

/-- `u16::from_be_bytes`. -/
def u16FromBeBytes (a b : UInt8) : UInt16 := UInt16.ofNat (beVal [a, b])

def l4Ports (protocol : UInt8) (l4 : Option Bytes) : Except Panic (UInt16 × UInt16) :=
  match l4 with
  | some seg =>
    if (protocol = 6 ∨ protocol = 17) ∧ 4 ≤ seg.length then do
      let s0 ← index seg 0
      let s1 ← index seg 1
      let d0 ← index seg 2
      let d1 ← index seg 3
      return (u16FromBeBytes s0 s1, u16FromBeBytes d0 d1)
    else return (0, 0)
  | none => return (0, 0)

/-- The `4 =>` arm of `parse_ip_flow`. -/
def parseV4 (pkt : Bytes) : Except Panic (Option IpFlow) := do
  if pkt.length < 20 then return none
  let b0 ← index pkt 0
  let ihl := (b0 &&& 0x0f).toNat * 4
  let protocol ← index pkt 9
  let src ← index4 pkt 12
  let dst ← index4 pkt 16
  let ports ← l4Ports protocol (getFrom pkt ihl)
  return some ⟨4, protocol, .v4 src, .v4 dst, ports.1, ports.2⟩

/-- The `6 =>` arm. -/
def parseV6 (pkt : Bytes) : Except Panic (Option IpFlow) := do
  if pkt.length < 40 then return none
  let protocol ← index pkt 6
  let s ← copyFromSlice 16 pkt 8 24
  let d ← copyFromSlice 16 pkt 24 40
  let ports ← l4Ports protocol (getFrom pkt 40)
  return some ⟨6, protocol, .v6 s, .v6 d, ports.1, ports.2⟩

def parseIpFlow (pkt : Bytes) : Except Panic (Option IpFlow) :=
  match pkt.head? with
  | none => .ok none
  | some first =>
    let version := first >>> 4
    if version = 4 then parseV4 pkt
    else if version = 6 then parseV6 pkt
    else .ok none

/-! ### What a header says -/

/-- A complete IP header at the front of a packet. -/
structure IpHeader where
  version : UInt8
  protocol : UInt8
  src : IpAddr
  dst : IpAddr
  /-- The bytes it takes, its options included. -/
  length : Nat

/-- The `n` bytes of `pkt` at offset `i`. -/
def octetsAt (pkt : Bytes) (i n : Nat) (h : i + n ≤ pkt.length) : Octets n :=
  ⟨(pkt.drop i).take n, by simp only [List.length_take, List.length_drop]; omega⟩

/-- The version and the IHL of a packet's first byte. -/
def versionOf (pkt : Bytes) : Nat := (pkt.headD 0).toNat / 16

def ihlOf (pkt : Bytes) : Nat := (pkt.headD 0).toNat % 16

/-- The header `pkt` begins with, if it begins with a complete one. -/
def ipHeader (pkt : Bytes) : Option IpHeader :=
  if h4 : versionOf pkt = 4 ∧ 5 ≤ ihlOf pkt ∧ 4 * ihlOf pkt ≤ pkt.length then
    some ⟨4, pkt.getD 9 0, .v4 (octetsAt pkt 12 4 (by omega)), .v4 (octetsAt pkt 16 4 (by omega)),
      4 * ihlOf pkt⟩
  else if h6 : versionOf pkt = 6 ∧ 40 ≤ pkt.length then
    some ⟨6, pkt.getD 6 0, .v6 (octetsAt pkt 8 16 (by omega)),
      .v6 (octetsAt pkt 24 16 (by omega)), 40⟩
  else none

/-- The two 16-bit fields `payload` begins with, where the protocol has ports. -/
def portsOf (protocol : UInt8) (payload : Bytes) : UInt16 × UInt16 :=
  if (protocol = 6 ∨ protocol = 17) ∧ 4 ≤ payload.length then
    (.ofNat (beVal (payload.take 2)), .ofNat (beVal ((payload.drop 2).take 2)))
  else (0, 0)

/-- The flow of `pkt`: what its header says, and the ports behind that header. -/
def flowOf (pkt : Bytes) : Option IpFlow :=
  (ipHeader pkt).map fun hd =>
    let ports := portsOf hd.protocol (pkt.drop hd.length)
    ⟨hd.version, hd.protocol, hd.src, hd.dst, ports.1, ports.2⟩

/-- The parser returns the flow that the header and the fields behind it name, and none where
no header is complete. -/
def ReadsFlow (pkt : Bytes) : Prop := parseIpFlow pkt = .ok (flowOf pkt)

instance (pkt : Bytes) : Decidable (ReadsFlow pkt) := inferInstanceAs (Decidable (_ = _))

/-- An IPv4 packet of at least 20 bytes whose IHL is below 5 or names more bytes than there
are. -/
def BadIhl (pkt : Bytes) : Prop :=
  versionOf pkt = 4 ∧ 20 ≤ pkt.length ∧ (ihlOf pkt < 5 ∨ pkt.length < 4 * ihlOf pkt)

instance (pkt : Bytes) : Decidable (BadIhl pkt) := inferInstanceAs (Decidable (_ ∧ _))

/-! ### The accesses -/

theorem index_of_lt {pkt : Bytes} {i : Nat} (h : i < pkt.length) :
    index pkt i = .ok (pkt.getD i 0) := by
  unfold index
  rw [List.getD_eq_getElem?_getD, List.getElem?_eq_getElem h, Option.getD_some]

theorem take_succ_drop {pkt : Bytes} {i : Nat} (h : i < pkt.length) (n : Nat) :
    (pkt.drop i).take (n + 1) = pkt.getD i 0 :: (pkt.drop (i + 1)).take n := by
  rw [List.drop_eq_getElem_cons h, List.take_succ_cons,
    List.getD_eq_getElem?_getD, List.getElem?_eq_getElem h, Option.getD_some]

theorem index4_of_le {pkt : Bytes} {i : Nat} (h : i + 4 ≤ pkt.length) :
    index4 pkt i = .ok (octetsAt pkt i 4 h) := by
  have hfour : (pkt.drop i).take 4 =
      [pkt.getD i 0, pkt.getD (i + 1) 0, pkt.getD (i + 2) 0, pkt.getD (i + 3) 0] := by
    rw [take_succ_drop (by omega), take_succ_drop (by omega), take_succ_drop (by omega),
      take_succ_drop (by omega), List.take_zero]
  unfold index4 octetsAt
  rw [index_of_lt (by omega), index_of_lt (by omega), index_of_lt (by omega),
    index_of_lt (by omega)]
  simp only [hfour]
  rfl

theorem copyFromSlice_of_le {pkt : Bytes} {i n : Nat} (h : i + n ≤ pkt.length) :
    copyFromSlice n pkt i (i + n) = .ok (octetsAt pkt i n h) := by
  have hlen : ((pkt.drop i).take (i + n - i)).length = n := by
    simp only [List.length_take, List.length_drop]
    omega
  unfold copyFromSlice octetsAt
  rw [if_pos ⟨by omega, h⟩, dif_pos hlen]
  simp only [Nat.add_sub_cancel_left]

theorem take_two {seg : Bytes} {i : Nat} (h : i + 2 ≤ seg.length) :
    (seg.drop i).take 2 = [seg.getD i 0, seg.getD (i + 1) 0] := by
  rw [take_succ_drop (by omega), take_succ_drop (by omega), List.take_zero]

theorem l4Ports_some (protocol : UInt8) (seg : Bytes) :
    l4Ports protocol (some seg) = .ok (portsOf protocol seg) := by
  unfold l4Ports portsOf
  by_cases h : (protocol = 6 ∨ protocol = 17) ∧ 4 ≤ seg.length
  · have hsrc : seg.take 2 = [seg.getD 0 0, seg.getD 1 0] := take_two (i := 0) (by omega)
    simp only [h, and_self, ↓reduceIte]
    rw [index_of_lt (by omega), index_of_lt (by omega), index_of_lt (by omega),
      index_of_lt (by omega), hsrc, take_two (by omega)]
    rfl
  · simp only [h, ↓reduceIte]
    rfl

/-- A header length beyond the packet leaves no payload, and no ports. -/
theorem l4Ports_getFrom (protocol : UInt8) (pkt : Bytes) (i : Nat) :
    l4Ports protocol (getFrom pkt i) = .ok (portsOf protocol (pkt.drop i)) := by
  unfold getFrom
  split
  · exact l4Ports_some protocol _
  · rw [List.drop_eq_nil_of_le (by omega), portsOf, if_neg (by simp)]
    rfl

/-! ### The two arms -/

theorem lowNibble (b : UInt8) : (b &&& 0x0f).toNat = b.toNat % 16 := by
  rw [UInt8.toNat_and]
  exact Nat.and_two_pow_sub_one_eq_mod b.toNat 4

theorem highNibble (b : UInt8) : (b >>> 4).toNat = b.toNat / 16 := by
  rw [UInt8.toNat_shiftRight]
  exact Nat.shiftRight_eq_div_pow b.toNat 4

theorem headD_eq_getD (pkt : Bytes) : pkt.headD 0 = pkt.getD 0 0 := by
  cases pkt <;> rfl

/-- The IPv4 arm reads the addresses wherever 20 bytes are there, and takes whatever lies
four times the IHL into the packet for the ports. -/
theorem parseV4_eq {pkt : Bytes} (h : 20 ≤ pkt.length) :
    parseV4 pkt = .ok (some
      ⟨4, pkt.getD 9 0, .v4 (octetsAt pkt 12 4 (by omega)), .v4 (octetsAt pkt 16 4 (by omega)),
        (portsOf (pkt.getD 9 0) (pkt.drop (4 * ihlOf pkt))).1,
        (portsOf (pkt.getD 9 0) (pkt.drop (4 * ihlOf pkt))).2⟩) := by
  have hihl : (pkt.getD 0 0 &&& 0x0f).toNat * 4 = 4 * ihlOf pkt := by
    rw [lowNibble, ihlOf, headD_eq_getD, Nat.mul_comm]
  unfold parseV4
  rw [if_neg (by omega), index_of_lt (by omega), index_of_lt (by omega), index4_of_le (by omega),
    index4_of_le (by omega)]
  simp only [bind, Except.bind, pure, Except.pure, hihl, l4Ports_getFrom]

theorem parseV6_eq {pkt : Bytes} (h : 40 ≤ pkt.length) :
    parseV6 pkt = .ok (some
      ⟨6, pkt.getD 6 0, .v6 (octetsAt pkt 8 16 (by omega)), .v6 (octetsAt pkt 24 16 (by omega)),
        (portsOf (pkt.getD 6 0) (pkt.drop 40)).1, (portsOf (pkt.getD 6 0) (pkt.drop 40)).2⟩) := by
  have hsrc : copyFromSlice 16 pkt 8 24 = .ok (octetsAt pkt 8 16 (by omega)) :=
    copyFromSlice_of_le _
  have hdst : copyFromSlice 16 pkt 24 40 = .ok (octetsAt pkt 24 16 (by omega)) :=
    copyFromSlice_of_le _
  unfold parseV6
  rw [if_neg (by omega), index_of_lt (by omega), hsrc, hdst]
  simp only [bind, Except.bind, pure, Except.pure, l4Ports_getFrom]

theorem parseV4_short {pkt : Bytes} (h : pkt.length < 20) : parseV4 pkt = .ok none := by
  unfold parseV4
  rw [if_pos h]
  rfl

theorem parseV6_short {pkt : Bytes} (h : pkt.length < 40) : parseV6 pkt = .ok none := by
  unfold parseV6
  rw [if_pos h]
  rfl

/-! ### The parser against the header -/

theorem shift_eq_iff (b v : UInt8) : b >>> 4 = v ↔ b.toNat / 16 = v.toNat := by
  rw [← UInt8.toNat_inj, highNibble]

theorem parseIpFlow_v4 {pkt : Bytes} (h : versionOf pkt = 4) :
    parseIpFlow pkt = parseV4 pkt := by
  cases pkt with
  | nil => exact absurd h (by decide)
  | cons b rest => exact if_pos ((shift_eq_iff b 4).mpr h)

theorem parseIpFlow_v6 {pkt : Bytes} (h : versionOf pkt = 6) :
    parseIpFlow pkt = parseV6 pkt := by
  cases pkt with
  | nil => exact absurd h (by decide)
  | cons b rest =>
    have h4 : ¬ b >>> 4 = 4 := by
      rw [shift_eq_iff]
      exact fun hv => absurd (hv.symm.trans h) (by decide)
    exact (if_neg h4).trans (if_pos ((shift_eq_iff b 6).mpr h))

theorem parseIpFlow_other {pkt : Bytes} (h4 : versionOf pkt ≠ 4) (h6 : versionOf pkt ≠ 6) :
    parseIpFlow pkt = .ok none := by
  cases pkt with
  | nil => rfl
  | cons b rest =>
    exact (if_neg (mt (shift_eq_iff b 4).mp h4)).trans (if_neg (mt (shift_eq_iff b 6).mp h6))

theorem flowOf_v4 {pkt : Bytes} (h : versionOf pkt = 4) (hihl : 5 ≤ ihlOf pkt)
    (hlen : 4 * ihlOf pkt ≤ pkt.length) : .ok (flowOf pkt) = parseV4 pkt := by
  rw [parseV4_eq (by omega), flowOf, ipHeader, dif_pos ⟨h, hihl, hlen⟩]
  rfl

theorem flowOf_v6 {pkt : Bytes} (h : versionOf pkt = 6) (hlen : 40 ≤ pkt.length) :
    .ok (flowOf pkt) = parseV6 pkt := by
  rw [parseV6_eq hlen, flowOf, ipHeader, dif_neg (by omega), dif_pos ⟨h, hlen⟩]
  rfl

theorem flowOf_none {pkt : Bytes}
    (h4 : ¬ (versionOf pkt = 4 ∧ 5 ≤ ihlOf pkt ∧ 4 * ihlOf pkt ≤ pkt.length))
    (h6 : ¬ (versionOf pkt = 6 ∧ 40 ≤ pkt.length)) : flowOf pkt = none := by
  rw [flowOf, ipHeader, dif_neg h4, dif_neg h6]
  rfl

theorem parseIpFlow_of_not_badIhl {pkt : Bytes} (h : ¬ BadIhl pkt) :
    parseIpFlow pkt = .ok (flowOf pkt) := by
  by_cases h4 : versionOf pkt = 4
  · rw [parseIpFlow_v4 h4]
    by_cases hlen : 20 ≤ pkt.length
    · have hihl : 5 ≤ ihlOf pkt ∧ 4 * ihlOf pkt ≤ pkt.length := by
        by_contra hbad
        exact h ⟨h4, hlen, by omega⟩
      rw [flowOf_v4 h4 hihl.1 hihl.2]
    · rw [parseV4_short (by omega), flowOf_none (by omega) (by omega)]
  · by_cases h6 : versionOf pkt = 6
    · rw [parseIpFlow_v6 h6]
      by_cases hlen : 40 ≤ pkt.length
      · rw [flowOf_v6 h6 hlen]
      · rw [parseV6_short (by omega), flowOf_none (by omega) (by omega)]
    · rw [parseIpFlow_other h4 h6, flowOf_none (by omega) (by omega)]

/-- A bad IHL is not looked at: the parser still reports a flow. -/
theorem parseIpFlow_of_badIhl {pkt : Bytes} (h : BadIhl pkt) :
    ∃ f, parseIpFlow pkt = .ok (some f) ∧ flowOf pkt = none := by
  obtain ⟨h4, hlen, hbad⟩ := h
  rw [parseIpFlow_v4 h4, parseV4_eq hlen]
  exact ⟨_, rfl, flowOf_none (by omega) (by omega)⟩

/-- The parser never panics, and sees what a reader of the header sees exactly where the IHL
of an IPv4 packet names a header that is there. -/
theorem readsFlow_iff (pkt : Bytes) :
    (∃ r, parseIpFlow pkt = .ok r) ∧ (ReadsFlow pkt ↔ ¬ BadIhl pkt) := by
  constructor
  · by_cases h : BadIhl pkt
    · obtain ⟨f, hf, -⟩ := parseIpFlow_of_badIhl h
      exact ⟨_, hf⟩
    · exact ⟨_, parseIpFlow_of_not_badIhl h⟩
  · refine ⟨fun heq h => ?_, parseIpFlow_of_not_badIhl⟩
    obtain ⟨f, hf, hnone⟩ := parseIpFlow_of_badIhl h
    rw [ReadsFlow, hf, hnone] at heq
    cases heq

/-- Twenty bytes of TCP over IPv4 with an IHL of 0. -/
def shortIhl : Bytes := [0x40, 1, 2, 3, 0, 0, 0, 0, 64, 6, 0, 0, 10, 0, 0, 1, 10, 0, 0, 2]

/-- No complete header, yet a flow: its ports are the version byte and the three after it. -/
theorem readsFlow_fails : ¬ ReadsFlow shortIhl ∧ flowOf shortIhl = none ∧
    parseIpFlow shortIhl = .ok (some
      ⟨4, 6, .v4 ⟨[10, 0, 0, 1], rfl⟩, .v4 ⟨[10, 0, 0, 2], rfl⟩, 0x4001, 0x0203⟩) := by
  decide

end NdnMobile.Tunnel
