import NdnMobile.Engine.MobileEngine
import NdnMobile.Packet.Uri
import Mathlib.Data.Finset.Insert
import Mathlib.Data.Finset.Erase

/-!
# The engine behind the FFI

`NdnEngine` holds a running `MobileEngine` until `shutdown`, the table of nearby peers once
`start_discovery` ran, and what it takes to raise same-AP bulk faces: its own address, the
peers it has tried and one socket the platform handed over. A beacon (`note_peer`) touches
all of them. The text parsers and the clock are not the repository's.
-/

namespace NdnMobile.Ffi

open NdnMobile.Packet NdnMobile.Engine

/-! ## Nearby peers -/

/-- `NODE_PREFIX`. -/
def nodePrefix : String := "/ndn/node"

def peerNodePrefix (id : String) : String := nodePrefix ++ "/" ++ id

/-- A reading of the monotonic clock. -/
abbrev Instant := Nat

structure PeerEntry where
  label : String
  faces : Finset String
  rssiDbm : Int
  infraAddr : Option String
  lastSeen : Instant
  deriving DecidableEq

structure DiscoveryState where
  localId : String
  localLabel : String
  peers : String → Option PeerEntry

/-- `DiscoveryState::new`. -/
def DiscoveryState.new (localId localLabel : String) : DiscoveryState :=
  ⟨localId, localLabel, fun _ => none⟩

/-- A presence beacon and the face it was heard on; an empty address is none. -/
structure Beacon where
  id : String
  label : String
  face : String
  rssi : Int
  infraAddr : String
  deriving DecidableEq, Repr

def Beacon.infra (b : Beacon) : Option String :=
  if b.infraAddr = "" then none else some b.infraAddr

/-- What a beacon makes of a peer's entry. -/
def PeerEntry.refresh (entry : PeerEntry) (b : Beacon) (now : Instant) : PeerEntry where
  label := if b.label = "" then entry.label else b.label
  faces := if b.face = "" then entry.faces else insert b.face entry.faces
  rssiDbm := b.rssi
  infraAddr := if b.infra.isSome then b.infra else entry.infraAddr
  lastSeen := now

def DiscoveryState.notePeer (s : DiscoveryState) (b : Beacon) (now : Instant) : DiscoveryState :=
  if b.id = "" ∨ b.id = s.localId then s -- never list ourselves
  else
    let entry := (s.peers b.id).getD ⟨b.label, ∅, b.rssi, none, now⟩
    { s with peers := Function.update s.peers b.id (some (entry.refresh b now)) }

/-! ## Descriptors -/

/-- A descriptor handed over. The kernel may give the number of a closed one out again; that
is another descriptor here. -/
abbrev Fd := Nat

/-- The live objects that own descriptors. -/
inductive Owner where
  | face (id : FaceId)
  | object (name : Name)
  deriving DecidableEq, Repr

/-- What became of the descriptors that were adopted. -/
structure Descriptors where
  owned : List (Fd × Owner)
  closed : List Fd
  deriving DecidableEq, Repr

namespace Descriptors

def empty : Descriptors := ⟨[], []⟩

def adopt (d : Descriptors) (fd : Fd) (o : Owner) : Descriptors :=
  { d with owned := (fd, o) :: d.owned }

def close (d : Descriptors) (fd : Fd) : Descriptors := { d with closed := fd :: d.closed }

/-- `attach_udp_bulk_face` adopts its descriptor first: an error closes it. -/
def bulk (d : Descriptors) (fd : Fd) : Except MobileEngine.IoError FaceId → Descriptors
  | .ok id => d.adopt fd (.face id)
  | .error _ => d.close fd

end Descriptors

/-! ## The engine -/

/-- The text parsers: of names, and what those of addresses accept. -/
structure Parsers where
  name : String → Option Name
  ipv6 : String → Bool
  ip : String → Bool
  socketAddr : String → Bool

/-- The part before the last dot. -/
def beforeLastDot : List Char → Option (List Char)
  | [] => none
  | c :: cs =>
    match beforeLastDot cs with
    | some net => some (c :: net)
    | none => if c = '.' then some [] else none

def sameSubnet24 (a b : String) : Bool :=
  match beforeLastDot a.toList, beforeLastDot b.toList with
  | some x, some y => x == y
  | _, _ => false

def infraPort : Nat := 7656

structure NdnEngine where
  /-- `None` after `shutdown`. -/
  inner : Option MobileEngine
  /-- `None` until `start_discovery`. -/
  discovery : Option DiscoveryState
  localInfraAddr : Option String
  infraPeers : Finset String
  infraSocketFd : Option Fd
  fds : Descriptors

namespace NdnEngine

def new (engine : MobileEngine) : NdnEngine where
  inner := some engine
  discovery := none
  localInfraAddr := none
  infraPeers := ∅
  infraSocketFd := none
  fds := .empty

variable (P : Parsers) (e : NdnEngine)

/-- `start_discovery`, but for the producer region and the dataset, which nothing here reads. -/
def startDiscovery (nodeId label : String) : NdnEngine :=
  { e with discovery := some (.new nodeId label) }

def shutdown : NdnEngine := { e with inner := none }

def setInfraAddr (ipv4 : String) : NdnEngine :=
  let next := if ipv4 = "" then none else some ipv4
  if e.localInfraAddr = next then e
  else { e with localInfraAddr := next, infraPeers := ∅ }

/-- A held socket that nothing adopted is closed. -/
def setInfraSocket (fd : Fd) : NdnEngine :=
  { e with
    infraSocketFd := some fd
    fds := match e.infraSocketFd with
      | none => e.fds
      | some old => e.fds.close old
    infraPeers := ∅ }

/-- `maybe_attach_infra_tunnel`; `os` answers the calls on the socket. -/
def maybeAttachInfraTunnel (id : String) (prefix' : Name) (peerIp : String)
    (engine : MobileEngine) (os : MobileEngine.Os) : NdnEngine :=
  match e.localInfraAddr with
  | none => e
  | some localIp =>
    if sameSubnet24 localIp peerIp = false then e
    else if P.socketAddr (peerIp ++ ":" ++ toString infraPort) = false then e
    else if id ∈ e.infraPeers then e -- already raised (or attempted)
    else
      let e := { e with infraPeers := insert id e.infraPeers }
      match e.infraSocketFd with
      | none => { e with infraPeers := e.infraPeers.erase id }
      | some fd =>
        let e := { e with infraSocketFd := none }
        let (r, engine) := engine.attachInfraTunnelFd prefix' os
        let e := { e with inner := some engine, fds := e.fds.bulk fd r }
        match r with
        | .ok _ => e
        | .error _ => { e with infraPeers := e.infraPeers.erase id }

/-- The part of `note_peer` after the table: the route, and the same-AP bulk face. -/
def routePeer (b : Beacon) (os : MobileEngine.Os) : NdnEngine :=
  match P.name (peerNodePrefix b.id), e.inner with
  | some prefix', some engine =>
    let engine := engine.notePeerRoute prefix' b.face
    let e := { e with inner := some engine }
    match b.infra with
    | none => e
    | some peerIp => e.maybeAttachInfraTunnel P b.id prefix' peerIp engine os
  | _, _ => e

def notePeer (b : Beacon) (now : Instant) (os : MobileEngine.Os) : NdnEngine :=
  if b.id = "" then e
  else
    { e with discovery := e.discovery.map fun s : DiscoveryState => s.notePeer b now }.routePeer
      P b os

end NdnEngine

end NdnMobile.Ffi
