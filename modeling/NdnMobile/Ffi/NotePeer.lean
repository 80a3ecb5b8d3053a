import NdnMobile.Engine.BulkPins
import NdnMobile.Ffi.NdnEngine
import Mathlib.Data.Finset.Basic

/-!
# What a beacon does

`note_peer` is documented to do nothing before `start_discovery`, and the table never lists
the node itself. The table's guards do not cover the route and the same-AP bulk face: a
beacon that is to be ignored still installs both, except when the route is there already
and nothing is armed (`noEffect_iff`).
-/

namespace NdnMobile.Ffi

open NdnMobile.Packet NdnMobile.Engine

namespace NdnEngine

variable (e : NdnEngine)

/-- The FIB entry at a prefix. -/
def nexthops (p : Name) : List Nexthop := e.inner.elim [] fun m => m.forwarder.fib p

/-- The strategy table's entry at a prefix. -/
def strategy (p : Name) : Option Strategy := e.inner.bind fun m => m.forwarder.strategyTable p

def bulkPin (p : Name) : Option FaceId := e.inner.bind fun m => m.bulkPinned p

/-- The socket a beacon with this address would raise a bulk face on. -/
def armed (P : Parsers) (id peerIp : String) : Option Fd :=
  match e.localInfraAddr with
  | none => none
  | some localIp =>
    if sameSubnet24 localIp peerIp = true ∧
        P.socketAddr (peerIp ++ ":" ++ toString infraPort) = true ∧ id ∉ e.infraPeers then
      e.infraSocketFd
    else none

/-- `start_discovery` has not run, the id is empty, or it is the node's own. -/
def MustIgnore (b : Beacon) : Prop :=
  e.discovery = none ∨ b.id = "" ∨ ∃ s, e.discovery = some s ∧ b.id = s.localId

end NdnEngine

/-- Nothing that a beacon may touch differs; nexthops count as a set. -/
structure NoEffect (e e' : NdnEngine) : Prop where
  discovery : e'.discovery = e.discovery
  nexthops : ∀ p nh, nh ∈ e'.nexthops p ↔ nh ∈ e.nexthops p
  strategy : ∀ p, e'.strategy p = e.strategy p
  bulkPin : ∀ p, e'.bulkPin p = e.bulkPin p
  infraPeers : e'.infraPeers = e.infraPeers
  infraSocketFd : e'.infraSocketFd = e.infraSocketFd

/-- The radio of a face name, with its face's id, if there is one. -/
def radioOf (m : MobileEngine) (face : String) : Option (FaceKind × FaceId) :=
  (MobileEngine.radioKind face).bind fun kind => (m.radioFace kind).map fun id => (kind, id)

/-- The route a beacon heard on `face` installs is there: the one nexthop to that radio, under
a pinned bulk face or the fan-out strategy. -/
def RouteThere (m : MobileEngine) (p : Name) (face : String) : Prop :=
  ∀ kind id, radioOf m face = some (kind, id) →
    (∀ cost, ⟨id, cost⟩ ∈ m.forwarder.fib p ↔ cost = m.linkProfile kind) ∧
    ((m.bulkPinned p).isSome = true ∨ m.forwarder.strategyTable p = some .multicast)

/-- The beacon finds no engine or prefix to route, or its route there and no socket armed. -/
def Quiet (P : Parsers) (e : NdnEngine) (b : Beacon) : Prop :=
  b.id = "" ∨ ∀ p m, P.name (peerNodePrefix b.id) = some p → e.inner = some m →
    RouteThere m p b.face ∧ ∀ peerIp, b.infra = some peerIp → e.armed P b.id peerIp = none

variable {P : Parsers} {e : NdnEngine} {b : Beacon} {p q : Name} {m : MobileEngine}
  {now : Instant} {os : MobileEngine.Os} {id peerIp : String} {fd : Fd}

/-! ## The same-AP bulk face -/

/-- With nothing armed, no bulk face is raised and the peer stays unreserved. -/
theorem maybeAttachInfraTunnel_none (h : e.armed P id peerIp = none) :
    e.maybeAttachInfraTunnel P id p peerIp m os = e := by
  unfold NdnEngine.armed at h
  unfold NdnEngine.maybeAttachInfraTunnel
  cases hl : e.localInfraAddr with
  | none => rfl
  | some localIp =>
    rw [hl] at h
    dsimp only at h ⊢
    by_cases hs : sameSubnet24 localIp peerIp = false
    · rw [if_pos hs]
    by_cases ha : P.socketAddr (peerIp ++ ":" ++ toString infraPort) = false
    · rw [if_neg hs, if_pos ha]
    by_cases hp : id ∈ e.infraPeers
    · rw [if_neg hs, if_neg ha, if_pos hp]
    rw [if_neg hs, if_neg ha, if_neg hp]
    rw [if_pos ⟨Bool.eq_true_of_not_eq_false hs, Bool.eq_true_of_not_eq_false ha, hp⟩] at h
    rw [h]
    dsimp only
    rw [Finset.erase_insert hp, ← hl, ← h]

theorem infraSocketFd_of_armed (h : e.armed P id peerIp = some fd) :
    e.infraSocketFd = some fd ∧ id ∉ e.infraPeers := by
  unfold NdnEngine.armed at h
  cases hl : e.localInfraAddr with
  | none =>
    rw [hl] at h
    cases h
  | some localIp =>
    rw [hl] at h
    dsimp only at h
    split at h
    · rename_i hc
      exact ⟨h, hc.2.2⟩
    · cases h

/-- An armed socket is taken: the face adopts it, or it is closed. -/
theorem maybeAttachInfraTunnel_some (h : e.armed P id peerIp = some fd) :
    e.maybeAttachInfraTunnel P id p peerIp m os =
      { e with
        inner := some (m.attachInfraTunnelFd p os).2
        infraPeers :=
          if (m.attachInfraTunnelFd p os).1.isOk then insert id e.infraPeers else e.infraPeers
        infraSocketFd := none
        fds := e.fds.bulk fd (m.attachInfraTunnelFd p os).1 } := by
  obtain ⟨hfd, hp⟩ := infraSocketFd_of_armed h
  unfold NdnEngine.armed at h
  unfold NdnEngine.maybeAttachInfraTunnel
  cases hl : e.localInfraAddr with
  | none =>
    rw [hl] at h
    cases h
  | some localIp =>
    rw [hl] at h
    dsimp only at h ⊢
    split at h
    · rename_i hc
      rw [if_neg (ne_false_of_eq_true hc.1), if_neg (ne_false_of_eq_true hc.2.1), if_neg hp, hfd]
      dsimp only
      cases hr : (m.attachInfraTunnelFd p os).1 with
      | ok fid => simp only [Except.isOk, Except.toBool, if_true]
      | error err =>
        dsimp only
        rw [Finset.erase_insert hp]
        simp [Except.isOk, Except.toBool]
    · cases h

/-! ## The route -/

theorem notePeerRoute_none {face : String} (h : radioOf m face = none) :
    m.notePeerRoute p face = m := by
  unfold radioOf at h
  unfold MobileEngine.notePeerRoute
  cases hk : MobileEngine.radioKind face with
  | none => rfl
  | some kind =>
    rw [hk] at h
    dsimp only
    rw [Option.map_eq_none_iff.mp h]

theorem notePeerRoute_some {face : String} {kind : FaceKind} {i : FaceId}
    (h : radioOf m face = some (kind, i)) : m.notePeerRoute p face =
      { m with forwarder :=
          if (m.bulkPinned p).isSome then m.forwarder.addNexthop p i (m.linkProfile kind)
          else (m.forwarder.addNexthop p i (m.linkProfile kind)).setStrategy p .multicast } := by
  unfold radioOf at h
  obtain ⟨k, hk, h⟩ := Option.bind_eq_some_iff.mp h
  obtain ⟨id, hid, h⟩ := Option.map_eq_some_iff.mp h
  obtain ⟨rfl, rfl⟩ := Prod.mk.inj h
  unfold MobileEngine.notePeerRoute
  rw [hk]
  dsimp only
  rw [hid]
  dsimp only
  split <;> rfl

theorem bulkPinned_notePeerRoute (m : MobileEngine) (p : Name) (face : String) :
    (m.notePeerRoute p face).bulkPinned = m.bulkPinned := by
  cases h : radioOf m face with
  | none => rw [notePeerRoute_none h]
  | some x => rw [notePeerRoute_some h]

theorem mem_addNexthop {fw : Forwarder} {i : FaceId} {cost : Nat} {nh : Nexthop} :
    nh ∈ (fw.addNexthop p i cost).fib p ↔
      (nh ∈ fw.fib p ∧ nh.faceId ≠ i) ∨ nh = ⟨i, cost⟩ := by
  simp [Forwarder.addNexthop]

theorem fib_addNexthop_ne {fw : Forwarder} {i : FaceId} {cost : Nat} (h : q ≠ p) :
    (fw.addNexthop p i cost).fib q = fw.fib q := Function.update_of_ne h _ _

/-- Adding a nexthop changes nothing just where it is the one nexthop to its face already. -/
theorem addNexthop_same_iff {fw : Forwarder} {i : FaceId} {cost : Nat} :
    (∀ q nh, nh ∈ (fw.addNexthop p i cost).fib q ↔ nh ∈ fw.fib q) ↔
      ∀ c, ⟨i, c⟩ ∈ fw.fib p ↔ c = cost := by
  constructor
  · intro h c
    rw [← h p, mem_addNexthop]
    constructor
    · rintro (⟨-, hne⟩ | heq)
      · exact absurd rfl hne
      · exact congrArg Nexthop.cost heq
    · rintro rfl
      exact .inr rfl
  · intro h q nh
    by_cases hq : q = p
    · subst hq
      rw [mem_addNexthop]
      by_cases hi : nh.faceId = i
      · subst hi
        have hc := h nh.cost
        constructor
        · rintro (⟨hm, -⟩ | heq)
          · exact hm
          · exact hc.mpr (congrArg Nexthop.cost heq)
        · intro hm
          exact .inr (by rw [← hc.mp hm])
      · constructor
        · rintro (⟨hm, -⟩ | rfl)
          · exact hm
          · exact absurd rfl hi
        · exact fun hm => .inl ⟨hm, hi⟩
    · rw [fib_addNexthop_ne hq]

theorem routeThere_iff {face : String} : RouteThere m p face ↔
    (∀ q nh, nh ∈ (m.notePeerRoute p face).forwarder.fib q ↔ nh ∈ m.forwarder.fib q) ∧
    ∀ q, (m.notePeerRoute p face).forwarder.strategyTable q = m.forwarder.strategyTable q := by
  unfold RouteThere
  cases h : radioOf m face with
  | none =>
    rw [notePeerRoute_none h]
    exact iff_of_true nofun ⟨fun _ _ => Iff.rfl, fun _ => rfl⟩
  | some x =>
    obtain ⟨kind, i⟩ := x
    rw [notePeerRoute_some h]
    by_cases hp : (m.bulkPinned p).isSome = true
    · rw [if_pos hp, addNexthop_same_iff]
      constructor
      · intro hr
        exact ⟨(hr kind i rfl).1, fun _ => rfl⟩
      · rintro ⟨hr, -⟩ kind' i' heq
        cases heq
        exact ⟨hr, .inl hp⟩
    · rw [if_neg hp, show ((m.forwarder.addNexthop p i (m.linkProfile kind)).setStrategy p
        .multicast).fib = (m.forwarder.addNexthop p i (m.linkProfile kind)).fib from rfl,
        addNexthop_same_iff]
      constructor
      · intro hr
        obtain ⟨hn, hst⟩ := hr kind i rfl
        refine ⟨hn, fun q => ?_⟩
        rw [Forwarder.strategyTable_setStrategy, Forwarder.strategyTable_addNexthop]
        by_cases hq : q = p
        · subst hq
          rw [Function.update_self, hst.resolve_left hp]
        · rw [Function.update_of_ne hq]
      · rintro ⟨hn, hst⟩ kind' i' heq
        cases heq
        refine ⟨hn, .inr ?_⟩
        rw [← hst p, Forwarder.strategyTable_setStrategy, Function.update_self]

/-! ## The whole beacon -/

/-- A beacon to be ignored leaves the table alone. -/
theorem discovery_ignored (h : e.MustIgnore b) (now : Instant) :
    (e.discovery.map fun s : DiscoveryState => s.notePeer b now) = e.discovery := by
  rcases h with hd | hb | ⟨s, hd, hb⟩
  · rw [hd]
    rfl
  · cases e.discovery with
    | none => rfl
    | some s => exact congrArg some (if_pos (.inl hb))
  · rw [hd]
    exact congrArg some (if_pos (.inr hb))

theorem NoEffect.refl (e : NdnEngine) : NoEffect e e :=
  ⟨rfl, fun _ _ => Iff.rfl, fun _ => rfl, fun _ => rfl, rfl, rfl⟩

/-- A new route alone has no effect just where it was there. -/
theorem noEffect_route_iff (hm : e.inner = some m) {face : String} :
    NoEffect e { e with inner := some (m.notePeerRoute p face) } ↔ RouteThere m p face := by
  have hfib : e.nexthops = m.forwarder.fib := by
    unfold NdnEngine.nexthops
    rw [hm]
    rfl
  have hst : e.strategy = m.forwarder.strategyTable := by
    unfold NdnEngine.strategy
    rw [hm]
    rfl
  have hpin : e.bulkPin = m.bulkPinned := by
    unfold NdnEngine.bulkPin
    rw [hm]
    rfl
  rw [routeThere_iff]
  constructor
  · intro h
    exact ⟨fun q nh => hfib ▸ h.nexthops q nh, fun q => hst ▸ h.strategy q⟩
  · rintro ⟨hn, hs⟩
    refine ⟨rfl, fun q nh => ?_, fun q => ?_, fun q => ?_, rfl, rfl⟩
    · rw [hfib]
      exact hn q nh
    · rw [hst]
      exact hs q
    · rw [hpin]
      exact congrFun (bulkPinned_notePeerRoute m p face) q

theorem notePeer_ignored (h : e.MustIgnore b) (hid : b.id ≠ "") (now : Instant) :
    e.notePeer P b now os = e.routePeer P b os := by
  unfold NdnEngine.notePeer
  rw [if_neg hid, discovery_ignored h]

/-- A beacon to be ignored has no effect exactly when it finds nothing to do. -/
theorem noEffect_iff (h : e.MustIgnore b) (P : Parsers) (now : Instant) (os : MobileEngine.Os) :
    NoEffect e (e.notePeer P b now os) ↔ Quiet P e b := by
  unfold Quiet
  by_cases hid : b.id = ""
  · rw [NdnEngine.notePeer, if_pos hid]
    exact iff_of_true (.refl e) (.inl hid)
  rw [notePeer_ignored h hid, NdnEngine.routePeer]
  cases hp : P.name (peerNodePrefix b.id) with
  | none => exact iff_of_true (.refl e) (.inr nofun)
  | some p =>
    cases hm : e.inner with
    | none => exact iff_of_true (.refl e) (.inr nofun)
    | some m =>
      have hroute : NoEffect e { e with inner := some (m.notePeerRoute p b.face) } ↔
        RouteThere m p b.face := noEffect_route_iff hm
      dsimp only
      cases hi : b.infra with
      | none =>
        rw [hroute]
        constructor
        · intro hr
          exact .inr fun p' m' hp' hm' => by cases hp'; cases hm'; exact ⟨hr, nofun⟩
        · intro hq
          exact ((hq.resolve_left hid) p m rfl rfl).1
      | some peerIp =>
        dsimp only
        -- an armed socket is taken, which is an effect
        cases ha : e.armed P b.id peerIp with
        | none =>
          rw [maybeAttachInfraTunnel_none (by exact ha), hroute]
          constructor
          · intro hr
            exact .inr fun p' m' hp' hm' => by
              cases hp'; cases hm'
              exact ⟨hr, fun ip hip => by cases hip; exact ha⟩
          · intro hq
            exact ((hq.resolve_left hid) p m rfl rfl).1
        | some fd =>
          rw [maybeAttachInfraTunnel_some (by exact ha)]
          refine iff_of_false (fun hno => ?_) fun hq => ?_
          · have hheld := hno.infraSocketFd
            rw [(infraSocketFd_of_armed ha).1] at hheld
            cases hheld
          · have hnone := ((hq.resolve_left hid) p m rfl rfl).2 peerIp rfl
            rw [ha] at hnone
            cases hnone

/-- Names with percent escapes, and the addresses of the peers below. -/
def Parsers.std : Parsers where
  name := UriSyntax.percent.parse
  ipv6 s := s == "fe80::1"
  ip s := s == "192.168.49.1"
  socketAddr s := s == "192.168.1.7:7656"

/-- A node with no radio when it is built. -/
def plainNode : MobileEngineBuilder := { nanNode with wifiAware := false }

/-- Its engine, given a NAN radio. -/
def phoneEngine : MobileEngine := (plainNode.build fun _ => true).attachWifiAware

/-- A node with a NAN radio. -/
def phone : NdnEngine := .new phoneEngine

/-- A beacon of node "a". -/
def heard : Beacon := ⟨"a", "A", "wifi-aware", 0, ""⟩

/-- `/ndn/node/a`. -/
def nodeA : Name := [⟨8, [110, 100, 110]⟩, ⟨8, [110, 111, 100, 101]⟩, ⟨8, [97]⟩]

theorem parse_heard : Parsers.std.name (peerNodePrefix heard.id) = some nodeA := by decide

/-- The node after the beacon. -/
def routed : NdnEngine :=
  { phone with inner := some (phoneEngine.notePeerRoute nodeA "wifi-aware") }

theorem notePeer_heard : phone.notePeer .std heard 0 .ok = routed := by
  rw [notePeer_ignored (.inl rfl) (by decide), NdnEngine.routePeer, parse_heard]
  rfl

/-- A beacon heard again finds its route there. -/
theorem noEffect_iff_heard : phone.notePeer .std heard 0 .ok = routed ∧
    NoEffect routed (routed.notePeer .std heard 1 .ok) := by
  refine ⟨notePeer_heard, (noEffect_iff (.inl rfl) .std 1 .ok).mpr (.inr fun p m hp hm => ?_)⟩
  rw [parse_heard] at hp
  cases hp
  cases hm
  refine ⟨fun kind i hr => ?_, nofun⟩
  cases hr
  refine ⟨fun c => ?_, .inr rfl⟩
  have hfib : (phoneEngine.notePeerRoute nodeA "wifi-aware").forwarder.fib nodeA = [⟨2, 20⟩] := rfl
  rw [hfib, List.mem_singleton]
  exact ⟨fun h => congrArg Nexthop.cost h, fun h => congrArg (Nexthop.mk 2) h⟩

/-- The first one installs the route, before `start_discovery` and for the node's own id. -/
theorem noEffect_fails :
    (phone.MustIgnore heard ∧ ¬ NoEffect phone (phone.notePeer .std heard 0 .ok)) ∧
    ((phone.startDiscovery "a" "A").MustIgnore heard ∧
      ¬ NoEffect (phone.startDiscovery "a" "A")
        ((phone.startDiscovery "a" "A").notePeer .std heard 0 .ok)) := by
  refine ⟨⟨.inl rfl, fun h => ?_⟩, .inr (.inr ⟨_, rfl, rfl⟩), fun h => ?_⟩
  all_goals exact absurd ((h.nexthops nodeA ⟨2, 20⟩).mp (by decide)) (by decide)

end NdnMobile.Ffi
