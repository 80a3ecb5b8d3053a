import NdnMobile.Ffi.NotePeer
import NdnMobile.Lib.SocketAddr

/-!
# The same-subnet gate

A peer's advertised address is compared with the node's own as text, up to the last dot, and
read only afterwards, with the port behind it. What passes both is the text of an IPv4
address in the node's /24, unless the node's own address begins with a bracket
(`gate_ipv4`).
-/

namespace NdnMobile.Ffi

open NdnMobile.Lib NdnMobile.Packet NdnMobile.Engine

/-- The standard library's reader of socket addresses. -/
def Parsers.withStdAddrs (P : Parsers) : Parsers :=
  { P with socketAddr := fun s => (parseSocketAddr s.toList).isSome }

/-- `maybe_attach_infra_tunnel` gets to `infra_peers.insert`. -/
def NdnEngine.Reserves (P : Parsers) (e : NdnEngine) (peerIp : String) : Prop :=
  ∃ localIp, e.localInfraAddr = some localIp ∧ sameSubnet24 localIp peerIp = true ∧
    P.socketAddr (peerIp ++ ":" ++ toString infraPort) = true

variable {P : Parsers} {e : NdnEngine} {id peerIp localIp : String} {p : Name}
  {m : MobileEngine} {os : MobileEngine.Os} {s net : List Char}

theorem maybeAttachInfraTunnel_of_not_reserves (h : ¬ e.Reserves P peerIp) :
    e.maybeAttachInfraTunnel P id p peerIp m os = e := by
  refine maybeAttachInfraTunnel_none ?_
  unfold NdnEngine.armed
  cases hl : e.localInfraAddr with
  | none => rfl
  | some localIp => exact if_neg fun hc => h ⟨localIp, hl, hc.1, hc.2.1⟩

/-! ## The last dot -/

theorem beforeLastDot_eq_none_iff : beforeLastDot s = none ↔ '.' ∉ s := by
  induction s with
  | nil => exact iff_of_true rfl List.not_mem_nil
  | cons c s ih =>
    rw [List.mem_cons, not_or, ← ih, beforeLastDot]
    cases beforeLastDot s with
    | some net => exact iff_of_false nofun fun h => nomatch h.2
    | none =>
      dsimp only
      split
      · rename_i hc
        exact iff_of_false nofun fun h => h.1 hc.symm
      · rename_i hc
        exact iff_of_true rfl ⟨Ne.symm hc, rfl⟩

theorem beforeLastDot_append {host : List Char} (h : '.' ∉ host) (net : List Char) :
    beforeLastDot (net ++ '.' :: host) = some net := by
  induction net with
  | nil =>
    rw [List.nil_append, beforeLastDot, beforeLastDot_eq_none_iff.mpr h]
    rfl
  | cons c net ih => rw [List.cons_append, beforeLastDot, ih]

/-- A text is what comes before its last dot, the dot, and a host without one. -/
theorem beforeLastDot_split (h : beforeLastDot s = some net) :
    ∃ host, '.' ∉ host ∧ s = net ++ '.' :: host := by
  induction s generalizing net with
  | nil => cases h
  | cons c s ih =>
    rw [beforeLastDot] at h
    cases hs : beforeLastDot s with
    | some net' =>
      rw [hs] at h
      cases h
      obtain ⟨host, hhost, rfl⟩ := ih hs
      exact ⟨host, hhost, rfl⟩
    | none =>
      rw [hs] at h
      dsimp only at h
      split at h <;> cases h
      rename_i hc
      subst hc
      exact ⟨s, beforeLastDot_eq_none_iff.mp hs, rfl⟩

theorem sameSubnet24_split (h : sameSubnet24 localIp peerIp = true) :
    ∃ net, beforeLastDot localIp.toList = some net ∧ beforeLastDot peerIp.toList = some net := by
  unfold sameSubnet24 at h
  split at h
  · rename_i x y hx hy
    exact ⟨x, hx, by rw [hy, beq_iff_eq.mp h]⟩
  · cases h

/-- The text of an address before its last dot is its network. -/
theorem beforeLastDot_text (x : Ipv4) : beforeLastDot x.text = some x.net :=
  beforeLastDot_append (notMem_octetText (by decide) x.d) x.net

/-! ## The gate -/

/-- **The same-subnet gate.** A beacon's address that is not stopped before the peer is
reserved is the text of an IPv4 address, and the node's own address has the same three octets
before its last dot, unless it begins with a bracket. On canonical text the comparison is that
of the upper 24 bits. -/
theorem gate_ipv4 (P : Parsers) (e : NdnEngine) (id : String) (p : Name) (peerIp : String)
    (m : MobileEngine) (os : MobileEngine.Os) :
    (¬ e.Reserves P.withStdAddrs peerIp →
      e.maybeAttachInfraTunnel P.withStdAddrs id p peerIp m os = e) ∧
    (∀ localIp, e.localInfraAddr = some localIp → localIp.toList.head? ≠ some '[' →
      e.Reserves P.withStdAddrs peerIp → ∃ (x : Ipv4) (host : List Char),
        peerIp.toList = x.text ∧ '.' ∉ host ∧ localIp.toList = x.net ++ '.' :: host) ∧
    ∀ x y : Ipv4, sameSubnet24 (String.ofList x.text) (String.ofList y.text) = true ↔
      x.toNat / 2 ^ 8 = y.toNat / 2 ^ 8 := by
  refine ⟨maybeAttachInfraTunnel_of_not_reserves, fun localIp hl hbracket h => ?_, fun x y => ?_⟩
  · obtain ⟨localIp', hl', hsame, haddr⟩ := h
    rw [hl, Option.some.injEq] at hl'
    subst hl'
    obtain ⟨net, hlocal, hpeer⟩ := sameSubnet24_split hsame
    obtain ⟨host, hhost, hlocal⟩ := beforeLastDot_split hlocal
    have hread : (parseSocketAddr
        (peerIp.toList ++ ':' :: Nat.toDigits 10 infraPort)).isSome = true := by
      simpa [Parsers.withStdAddrs] using haddr
    rcases parseSocketAddr_colon hread with ⟨x, hx⟩ | hhead
    · rw [hx, beforeLastDot_text, Option.some.injEq] at hpeer
      exact ⟨x, host, hx, hhost, hpeer ▸ hlocal⟩
    · -- a bracket in front of the peer's address is in front of the node's too
      obtain ⟨host', -, hpeer⟩ := beforeLastDot_split hpeer
      rw [hpeer] at hhead
      rw [hlocal] at hbracket
      cases net with
      | nil => cases hhead
      | cons c net => exact absurd hhead hbracket
  · unfold sameSubnet24
    rw [String.toList_ofList, String.toList_ofList, beforeLastDot_text, beforeLastDot_text,
      ← net_eq_iff]
    exact beq_iff_eq

/-- A node told its address, with a socket. -/
def onAp (localIp : String) : NdnEngine := (phone.setInfraAddr localIp).setInfraSocket 9

theorem gate_ipv4_onAp : ∃ (x : Ipv4) (host : List Char),
    "10.0.0.7".toList = x.text ∧ '.' ∉ host ∧ "10.0.0.1".toList = x.net ++ '.' :: host :=
  (gate_ipv4 .std (onAp "10.0.0.1") "b" [] "10.0.0.7" phoneEngine .ok).2.1
    "10.0.0.1" rfl (by decide) ⟨"10.0.0.1", rfl, by decide, by decide⟩

/-- With half an IPv6 address as its own, a node raises a face to the other half's peer. -/
theorem gate_fails : ∃ (e : NdnEngine) (peerIp : String),
    e.localInfraAddr = some "[::ffff:10.0.0.9" ∧ e.Reserves Parsers.std.withStdAddrs peerIp ∧
    "b" ∈ (e.maybeAttachInfraTunnel Parsers.std.withStdAddrs "b" [] peerIp phoneEngine
      .ok).infraPeers ∧ ¬ ∃ x : Ipv4, peerIp.toList = x.text := by
  refine ⟨onAp "[::ffff:10.0.0.9", "[::ffff:10.0.0.1]", rfl, ⟨_, rfl, by decide, by decide⟩,
    by decide, ?_⟩
  rintro ⟨x, hx⟩
  have hcolon : ':' ∈ "[::ffff:10.0.0.1]".toList := by decide
  exact colon_notMem_text x (hx ▸ hcolon)

end NdnMobile.Ffi
