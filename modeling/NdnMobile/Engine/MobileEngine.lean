import NdnMobile.Engine.Forwarder

/-!
# The mobile engine

`MobileEngineBuilder::build` and the calls on a `MobileEngine` that edit its network side:
the radio and bulk faces, the routes of discovered peers, suspend and resume. The operating
system and the network decide which sockets, dials and face set-ups succeed.
-/

namespace NdnMobile.Engine

open NdnMobile.Packet

inductive MobileStrategy where
  | bestRoute
  | multicast
  | cclf
  deriving DecidableEq, Repr

def MobileStrategy.strategy : MobileStrategy → Strategy
  | .bestRoute => .bestRoute
  | .multicast => .multicast
  | .cclf => .cclf

inductive PeerSpec where
  | udpUnicast (addr : String)
  | tcp (addr : String)
  | webSocket (url : String)
  | serial (port : String) (baud : UInt32)
  | webTransport (url : String)
  deriving DecidableEq, Repr

def PeerSpec.kind : PeerSpec → FaceKind
  | .udpUnicast _ => .udp
  | .tcp _ => .tcp
  | .webSocket _ => .webSocket
  | .serial _ _ => .serial
  | .webTransport _ => .webTransport

structure MobileEngineBuilder where
  strategy : MobileStrategy
  multicastIface : Option String
  unicastPeers : List String
  tcpPeers : List String
  wsPeers : List String
  serialPorts : List (String × UInt32)
  webtransportPeers : List String
  /-- `with_wifi_aware` was called. -/
  wifiAware : Bool
  computePrefix : Option Name
  /-- `LinkProfile::cost`. -/
  linkProfile : FaceKind → Nat

structure MobileEngine where
  forwarder : Forwarder
  /-- The number of the current network token. -/
  networkCancel : Nat
  multicastIface : Option String
  /-- `FaceId(0)` without a multicast face. -/
  multicastFaceId : FaceId
  linkProfile : FaceKind → Nat
  networkPeers : List (FaceId × PeerSpec)
  /-- The supervisor tasks that `build_peer_face` spawned: whom they dial, with which token. -/
  supervisors : List (FaceId × PeerSpec × Token)
  wifiAware : Option FaceId
  ble : Option FaceId
  bulkPinned : Name → Option FaceId

/-! ## Building -/

/-- `build_peer_face`: one dial, which succeeds or not, and a supervisor. -/
def buildPeerFace (fw : Forwarder) (id : FaceId) (spec : PeerSpec) (token : Token) (up : Bool) :
    Forwarder :=
  if up then fw.addFace ⟨id, spec.kind, token, true⟩ else fw

/-- Every peer of a list, with the ids that are up. -/
def buildPeers (token : Token) (up : FaceId → Bool) (fw : Forwarder) :
    List (FaceId × PeerSpec) → Forwarder
  | [] => fw
  | (id, spec) :: peers => buildPeers token up (buildPeerFace fw id spec token (up id)) peers

/-- The UDP multicast face, if an interface is configured and it can be set up. -/
def buildMulticast (fw : Forwarder) (iface : Option String) (id : FaceId) (token : Token)
    (up : FaceId → Bool) : Forwarder :=
  if iface.isSome && up id then fw.addFace ⟨id, .multicast, token, false⟩ else fw

/-- The face of a radio that is configured. -/
def buildRadio (fw : Forwarder) (id : Option FaceId) (kind : FaceKind) (token : Token) :
    Forwarder :=
  match id with
  | none => fw
  | some id => fw.addFace ⟨id, kind, token, false⟩

/-- The in-process compute face, routed at its prefix. -/
def buildCompute (fw : Forwarder) (computePrefix : Option Name) : Forwarder :=
  match computePrefix with
  | none => fw
  | some p => (fw.allocId.addFace ⟨fw.nextId, .compute, .shutdown, false⟩).addNexthop p fw.nextId 0

/-- A stable face id for each peer. -/
def reservePeers (fw : Forwarder) : List PeerSpec → List (FaceId × PeerSpec) × Forwarder
  | [] => ([], fw)
  | spec :: specs =>
    let (peers, fw') := reservePeers fw.allocId specs
    ((fw.nextId, spec) :: peers, fw')

/-- An id, if one is wanted. -/
def Forwarder.allocIf (fw : Forwarder) (wanted : Bool) : Option FaceId × Forwarder :=
  if wanted then (some fw.nextId, fw.allocId) else (none, fw)

namespace MobileEngineBuilder

variable (b : MobileEngineBuilder)

def peerSpecs : List PeerSpec :=
  b.unicastPeers.map .udpUnicast ++ b.tcpPeers.map .tcp ++ b.wsPeers.map .webSocket ++
    b.serialPorts.map (fun (port, baud) => .serial port baud) ++
    b.webtransportPeers.map .webTransport

/-- The tables as `EngineBuilder` hands them over: the in-process face, and the root strategy. -/
def forwarder : Forwarder where
  nextId := 2
  faces := [⟨1, .app, .shutdown, false⟩]
  fib _ := []
  strategyTable := Function.update (fun _ => none) [] (some b.strategy.strategy)

/-- `build`; `up` says which network faces can be set up. -/
def build (up : FaceId → Bool) : MobileEngine :=
  let multicast := b.forwarder.allocIf b.multicastIface.isSome
  let multicastFaceId := multicast.1.getD 0
  let wifiAware := multicast.2.allocIf b.wifiAware
  let token := Token.network 0
  let fw := buildMulticast wifiAware.2 b.multicastIface multicastFaceId token up
  let networkPeers := reservePeers fw b.peerSpecs
  let fw := buildPeers token up networkPeers.2 networkPeers.1
  let fw := buildRadio fw wifiAware.1 .wifiAware token
  { forwarder := buildCompute fw b.computePrefix
    networkCancel := 0
    multicastIface := b.multicastIface
    multicastFaceId
    linkProfile := b.linkProfile
    networkPeers := networkPeers.1
    supervisors := networkPeers.1.map fun (id, spec) => (id, spec, token)
    wifiAware := wifiAware.1
    ble := none
    bulkPinned := fun _ => none }

end MobileEngineBuilder

/-- A radio's face at its stable id, a new one the first time, and the default route to it. -/
def Forwarder.mountRadio (fw : Forwarder) (id : Option FaceId) (kind : FaceKind)
    (token : Token) : FaceId × Forwarder :=
  let i := id.getD fw.nextId
  let fw := if id.isSome then fw else fw.allocId
  (i, (fw.addFace ⟨i, kind, token, false⟩).addNexthop [] i 0)

namespace MobileEngine

variable (e : MobileEngine)

/-- A child of the current network token. -/
def token : Token := .network e.networkCancel

/-! ## Radio faces -/

/-- `ensure_mesh_strategy`. -/
def ensureMeshStrategy : MobileEngine :=
  { e with forwarder := e.forwarder.setStrategy [] .multicast }

def attachWifiAware : MobileEngine :=
  let radio := e.forwarder.mountRadio e.wifiAware .wifiAware e.token
  { e with forwarder := radio.2, wifiAware := some radio.1 }.ensureMeshStrategy

def attachBle : MobileEngine :=
  let radio := e.forwarder.mountRadio e.ble .bluetooth e.token
  { e with forwarder := radio.2, ble := some radio.1 }.ensureMeshStrategy

/-! ## Bulk faces -/

abbrev IoError := String

/-- What the operating system answers while a bulk face is attached. -/
structure Os where
  bind : Except IoError Unit
  setNonblocking : Except IoError Unit
  fromStd : Except IoError Unit

/-- Every call succeeds. -/
def Os.ok : Os := ⟨.ok (), .ok (), .ok ()⟩

/-- The socket becomes a Tokio one. -/
def Os.adopt (os : Os) : Except IoError Unit := do
  os.setNonblocking
  os.fromStd

/-- `faces().alloc_id()` hands out `nextId`. -/
def allocId : MobileEngine := { e with forwarder := e.forwarder.allocId }

/-- The part of `attach_udp_bulk_face` after the socket is adopted. -/
def mountBulk (prefix' : Name) (kind : FaceKind) (id : FaceId) : MobileEngine :=
  { e with
    forwarder :=
      ((e.forwarder.addFace ⟨id, kind, e.token, false⟩).addNexthop prefix' id
        (e.linkProfile kind)).setStrategy prefix' .measured
    bulkPinned := Function.update e.bulkPinned prefix' (some id) }

def attachUdpBulkFace (prefix' : Name) (kind : FaceKind) (os : Os) :
    Except IoError FaceId × MobileEngine :=
  match os.adopt with
  | .error err => (.error err, e.allocId)
  | .ok () => (.ok e.forwarder.nextId, e.allocId.mountBulk prefix' kind e.forwarder.nextId)

def attachNdpFace (prefix' : Name) (os : Os) : Except IoError FaceId × MobileEngine :=
  e.attachUdpBulkFace prefix' .udp os

def attachWifiDirectFace (prefix' : Name) (os : Os) : Except IoError FaceId × MobileEngine :=
  e.attachUdpBulkFace prefix' .wifiDirect os

/-- The engine binds the socket itself. -/
def attachInfraTunnelFace (prefix' : Name) (os : Os) : Except IoError FaceId × MobileEngine :=
  match os.bind with
  | .error err => (.error err, e)
  | .ok () => e.attachUdpBulkFace prefix' .infraTunnel os

def attachInfraTunnelFd (prefix' : Name) (os : Os) : Except IoError FaceId × MobileEngine :=
  e.attachUdpBulkFace prefix' .infraTunnel os

/-- Every prefix pinned to the face loses its pin and goes back to fan-out. -/
def detachNdpFace (id : FaceId) : MobileEngine :=
  let fw := e.forwarder.removeFace id
  { e with
    forwarder := { fw with
      strategyTable := fun p =>
        if e.bulkPinned p = some id then some .multicast else fw.strategyTable p }
    bulkPinned := fun p => if e.bulkPinned p = some id then none else e.bulkPinned p }

/-! ## Routes of discovered peers -/

/-- The face names of the discovery dataset. -/
def radioKind (face : String) : Option FaceKind :=
  if face = "wifi-aware" then some .wifiAware
  else if face = "ble" then some .bluetooth
  else if face = "multicast" ∨ face = "udp" then some .udp
  else none

/-- The face a peer heard on a radio of this kind is reached by. -/
def radioFace : FaceKind → Option FaceId
  | .wifiAware => e.wifiAware
  | .bluetooth => e.ble
  | .udp => if e.multicastFaceId = 0 then none else some e.multicastFaceId
  | _ => none

def notePeerRoute (prefix' : Name) (face : String) : MobileEngine :=
  match radioKind face with
  | none => e
  | some kind =>
    match e.radioFace kind with
    | none => e
    | some id =>
      let fw := e.forwarder.addNexthop prefix' id (e.linkProfile kind)
      if (e.bulkPinned prefix').isSome then { e with forwarder := fw }
      else { e with forwarder := fw.setStrategy prefix' .multicast }

/-! ## Suspend and resume -/

def suspendNetworkFaces : MobileEngine :=
  { e with
    forwarder := e.forwarder.cancel e.token
    networkCancel := e.networkCancel + 1 }

/-- `resume_network_faces`; `up` says which faces can be set up again. -/
def resumeNetworkFaces (up : FaceId → Bool) : MobileEngine :=
  let fw := buildMulticast e.forwarder e.multicastIface e.multicastFaceId e.token up
  let fw := buildPeers e.token up fw e.networkPeers
  let fw := buildRadio fw e.wifiAware .wifiAware e.token
  let fw := buildRadio fw e.ble .bluetooth e.token
  { e with
    forwarder := fw
    supervisors := e.supervisors ++ e.networkPeers.map fun (id, spec) => (id, spec, e.token) }

/-- The token was cancelled by a suspend. -/
def cancelled : Token → Bool
  | .shutdown => false
  | .network gen => gen < e.networkCancel

/-- Supervisor `i` dials its peer again, and succeeds: it does so as long as its token is not
cancelled and no face has the peer's id. -/
def redial (i : Nat) : MobileEngine :=
  match e.supervisors[i]? with
  | none => e
  | some (id, spec, token) =>
    if e.cancelled token || e.forwarder.faces.any (·.id == id) then e
    else { e with forwarder := buildPeerFace e.forwarder id spec token true }

end MobileEngine

/-! ## What only adds faces -/

/-- `fw'` is `fw` with more faces, all with these ids. -/
def Forwarder.Grows (ids : List FaceId) (fw fw' : Forwarder) : Prop :=
  ∃ l, fw' = { fw with faces := fw.faces ++ l } ∧ ∀ f ∈ l, f.id ∈ ids

namespace Forwarder.Grows

variable {ids : List FaceId} {fw fw' fw'' : Forwarder}

theorem refl (ids : List FaceId) (fw : Forwarder) : Grows ids fw fw := ⟨[], by simp, nofun⟩

theorem trans (h1 : Grows ids fw fw') (h2 : Grows ids fw' fw'') : Grows ids fw fw'' := by
  obtain ⟨l1, rfl, hl1⟩ := h1
  obtain ⟨l2, rfl, hl2⟩ := h2
  refine ⟨l1 ++ l2, by simp [List.append_assoc], fun f hf => ?_⟩
  rcases List.mem_append.mp hf with hf | hf
  · exact hl1 f hf
  · exact hl2 f hf

theorem addFace {f : Face} (h : f.id ∈ ids) : Grows ids fw (fw.addFace f) :=
  ⟨[f], rfl, fun g hg => by rw [List.mem_singleton.mp hg]; exact h⟩

theorem buildPeerFace {id : FaceId} {spec : PeerSpec} {token : Token} {up : Bool}
    (h : id ∈ ids) : Grows ids fw (buildPeerFace fw id spec token up) := by
  unfold Engine.buildPeerFace
  split
  · exact addFace h
  · exact refl ids fw

theorem buildPeers {token : Token} {up : FaceId → Bool} {peers : List (FaceId × PeerSpec)}
    (h : ∀ x ∈ peers, x.1 ∈ ids) : Grows ids fw (buildPeers token up fw peers) := by
  induction peers generalizing fw with
  | nil => exact refl ids fw
  | cons x peers ih =>
    obtain ⟨hx, hr⟩ := List.forall_mem_cons.mp h
    exact (buildPeerFace hx).trans (ih hr)

theorem buildMulticast {iface : Option String} {id : FaceId} {token : Token}
    {up : FaceId → Bool} (h : iface.isSome → id ∈ ids) :
    Grows ids fw (buildMulticast fw iface id token up) := by
  unfold Engine.buildMulticast
  split
  · rename_i hup
    exact addFace (h (by simp_all))
  · exact refl ids fw

theorem buildRadio {id : Option FaceId} {kind : FaceKind} {token : Token}
    (h : ∀ i, id = some i → i ∈ ids) : Grows ids fw (buildRadio fw id kind token) := by
  cases id with
  | none => exact refl ids fw
  | some i => exact addFace (h i rfl)

end Forwarder.Grows

namespace MobileEngine

/-- The ids at which faces are set up again and again: the multicast face, the peers and the
radios. -/
def stableIds (e : MobileEngine) : List FaceId :=
  (if e.multicastIface.isSome then [e.multicastFaceId] else []) ++
    e.networkPeers.map (·.1) ++ e.wifiAware.toList ++ e.ble.toList

theorem mem_stableIds {e : MobileEngine} {id : FaceId} : id ∈ e.stableIds ↔
    (e.multicastIface.isSome ∧ id = e.multicastFaceId) ∨ (∃ x ∈ e.networkPeers, x.1 = id) ∨
      e.wifiAware = some id ∨ e.ble = some id := by
  unfold stableIds
  split <;> simp_all

theorem resumeNetworkFaces_grows (e : MobileEngine) (up : FaceId → Bool) :
    e.forwarder.Grows e.stableIds (e.resumeNetworkFaces up).forwarder := by
  refine .trans (.buildMulticast fun h => ?_) <| .trans (.buildPeers fun x hx => ?_) <|
    .trans (.buildRadio fun id h => ?_) (.buildRadio fun id h => ?_)
  all_goals rw [mem_stableIds]
  · exact .inl ⟨h, rfl⟩
  · exact .inr (.inl ⟨x, hx, rfl⟩)
  · exact .inr (.inr (.inl h))
  · exact .inr (.inr (.inr h))

theorem redial_grows (e : MobileEngine) (i : Nat) {ids : List FaceId}
    (h : ∀ s ∈ e.supervisors, s.1 ∈ ids) : e.forwarder.Grows ids (e.redial i).forwarder := by
  unfold redial
  split
  · exact .refl ids e.forwarder
  · rename_i id spec token hs
    have hid : id ∈ ids := h _ (List.mem_of_getElem? hs)
    split
    · exact .refl ids e.forwarder
    · dsimp only
      exact .buildPeerFace hid

/-- A redial changes nothing but the faces. -/
theorem redial_eq (e : MobileEngine) (i : Nat) :
    e.redial i = { e with forwarder := (e.redial i).forwarder } := by
  unfold redial
  split
  · rfl
  · split <;> rfl

/-! ## Ids in use -/

/-- Every id in use was handed out, and every supervisor dials a configured peer. -/
structure Ids (e : MobileEngine) : Prop where
  faces : ∀ f ∈ e.forwarder.faces, f.id < e.forwarder.nextId
  stable : ∀ id ∈ e.stableIds, id < e.forwarder.nextId
  supervised : ∀ s ∈ e.supervisors, ∃ x ∈ e.networkPeers, x.1 = s.1

end MobileEngine

/-- Every face has an id that was handed out. -/
def Forwarder.IdsLt (fw : Forwarder) : Prop := ∀ f ∈ fw.faces, f.id < fw.nextId

theorem Forwarder.Grows.nextId {ids : List FaceId} {fw fw' : Forwarder} (h : fw.Grows ids fw') :
    fw'.nextId = fw.nextId := by
  obtain ⟨l, rfl, -⟩ := h
  rfl

/-- From `fw` to `fw'`, ids stay below the next one to be handed out. -/
structure Forwarder.Allots (fw fw' : Forwarder) : Prop where
  idsLt : fw.IdsLt → fw'.IdsLt
  le : fw.nextId ≤ fw'.nextId

namespace Forwarder.Allots

variable {fw fw' fw'' : Forwarder}

theorem trans (h1 : fw.Allots fw') (h2 : fw'.Allots fw'') : fw.Allots fw'' :=
  ⟨fun h => h2.idsLt (h1.idsLt h), Nat.le_trans h1.le h2.le⟩

theorem nextId (hf : fw'.faces = fw.faces) (hn : fw.nextId ≤ fw'.nextId) : fw.Allots fw' :=
  ⟨fun h f hm => Nat.lt_of_lt_of_le (h f (hf ▸ hm)) hn, hn⟩

theorem addFace {f : Face} (h : f.id < fw.nextId) : fw.Allots (fw.addFace f) := by
  refine ⟨fun hf g hm => ?_, Nat.le_refl _⟩
  rcases List.mem_append.mp hm with hm | hm
  · exact hf g hm
  · exact List.mem_singleton.mp hm ▸ h

theorem grows {ids : List FaceId} (h : fw.Grows ids fw') (hi : ∀ id ∈ ids, id < fw.nextId) :
    fw.Allots fw' := by
  obtain ⟨l, rfl, hl⟩ := h
  refine ⟨fun hf f hm => ?_, Nat.le_refl _⟩
  rcases List.mem_append.mp hm with hm | hm
  · exact hf f hm
  · exact hi _ (hl f hm)

theorem buildMulticast {iface : Option String} {id : FaceId} {token : Token}
    {up : FaceId → Bool} (h : iface.isSome → id < fw.nextId) :
    fw.Allots (buildMulticast fw iface id token up) := by
  unfold Engine.buildMulticast
  split
  · rename_i hup
    have hs : iface.isSome ∧ up id := by simpa using hup
    exact addFace (h hs.1)
  · exact nextId rfl (Nat.le_refl _)

theorem buildPeers {token : Token} {up : FaceId → Bool} {peers : List (FaceId × PeerSpec)}
    (h : ∀ x ∈ peers, x.1 < fw.nextId) : fw.Allots (buildPeers token up fw peers) :=
  grows (.buildPeers fun _ hx => List.mem_map_of_mem hx) fun i hi => by
    obtain ⟨x, hx, rfl⟩ := List.mem_map.mp hi
    exact h x hx

theorem buildRadio {id : Option FaceId} {kind : FaceKind} {token : Token}
    (h : ∀ i, id = some i → i < fw.nextId) : fw.Allots (buildRadio fw id kind token) := by
  cases id with
  | none => exact nextId rfl (Nat.le_refl _)
  | some i => exact addFace (h i rfl)

theorem allocIf (wanted : Bool) : fw.Allots (fw.allocIf wanted).2 := by
  cases wanted with
  | true => exact nextId rfl (Nat.le_succ _)
  | false => exact nextId rfl (Nat.le_refl _)

theorem reservePeers (specs : List PeerSpec) : fw.Allots (reservePeers fw specs).2 := by
  induction specs generalizing fw with
  | nil => exact nextId rfl (Nat.le_refl _)
  | cons spec specs ih =>
    have h : fw.Allots fw.allocId := nextId rfl (Nat.le_succ _)
    exact h.trans ih

theorem buildCompute (computePrefix : Option Name) : fw.Allots (buildCompute fw computePrefix) := by
  cases computePrefix with
  | none => exact nextId rfl (Nat.le_refl _)
  | some p =>
    have h1 : fw.Allots fw.allocId := nextId rfl (Nat.le_succ _)
    have h2 : fw.allocId.Allots (fw.allocId.addFace ⟨fw.nextId, .compute, .shutdown, false⟩) :=
      addFace (Nat.lt_succ_self _)
    exact h1.trans (h2.trans (nextId rfl (Nat.le_refl _)))

theorem mountRadio {id : Option FaceId} {kind : FaceKind} {token : Token}
    (h : ∀ i, id = some i → i < fw.nextId) : fw.Allots (fw.mountRadio id kind token).2 := by
  cases id with
  | none =>
    have h1 : fw.Allots fw.allocId := nextId rfl (Nat.le_succ _)
    have h2 : fw.allocId.Allots (fw.allocId.addFace ⟨fw.nextId, kind, token, false⟩) :=
      addFace (Nat.lt_succ_self _)
    exact h1.trans (h2.trans (nextId rfl (Nat.le_refl _)))
  | some i =>
    have h1 : fw.Allots (fw.addFace ⟨i, kind, token, false⟩) := addFace (h i rfl)
    exact h1.trans (nextId rfl (Nat.le_refl _))

end Forwarder.Allots

theorem Forwarder.isSome_allocIf (fw : Forwarder) (wanted : Bool) :
    (fw.allocIf wanted).1.isSome = wanted := by
  cases wanted <;> rfl

theorem Forwarder.allocIf_lt {fw : Forwarder} {wanted : Bool} {i : FaceId}
    (h : (fw.allocIf wanted).1 = some i) : i < (fw.allocIf wanted).2.nextId := by
  cases wanted with
  | true => exact Option.some.inj h ▸ Nat.lt_succ_self _
  | false => cases h

theorem reservePeers_lt (fw : Forwarder) (specs : List PeerSpec) :
    ∀ x ∈ (reservePeers fw specs).1, x.1 < (reservePeers fw specs).2.nextId := by
  induction specs generalizing fw with
  | nil => exact nofun
  | cons spec specs ih =>
    intro x hx
    rcases List.mem_cons.mp hx with rfl | hx
    · have h : fw.nextId < fw.allocId.nextId := Nat.lt_succ_self _
      exact Nat.lt_of_lt_of_le h (Forwarder.Allots.reservePeers specs).le
    · exact ih fw.allocId x hx

/-- A built engine hands out ids above all those in use. -/
theorem ids_build (b : MobileEngineBuilder) (up : FaceId → Bool) : (b.build up).Ids := by
  let multicast := b.forwarder.allocIf b.multicastIface.isSome
  let radio := multicast.2.allocIf b.wifiAware
  let fw1 := buildMulticast radio.2 b.multicastIface (multicast.1.getD 0) (.network 0) up
  let peers := reservePeers fw1 b.peerSpecs
  let fw2 := buildPeers (.network 0) up peers.2 peers.1
  let fw3 := buildRadio fw2 radio.1 .wifiAware (.network 0)
  let fw4 := buildCompute fw3 b.computePrefix
  have hb : b.forwarder.IdsLt := fun f hf => by
    rw [List.mem_singleton.mp hf]
    exact Nat.lt_succ_self 1
  have hmulticast : b.forwarder.Allots multicast.2 := .allocIf _
  have hradio : multicast.2.Allots radio.2 := .allocIf _
  -- the ids the three kinds of faces get, each below the next one once it was handed out
  have hm : b.multicastIface.isSome → multicast.1.getD 0 < radio.2.nextId := fun hs => by
    obtain ⟨i, hi⟩ := Option.isSome_iff_exists.mp
      ((Forwarder.isSome_allocIf b.forwarder b.multicastIface.isSome).trans hs)
    rw [show multicast.1 = some i from hi]
    exact Nat.lt_of_lt_of_le (Forwarder.allocIf_lt hi) hradio.le
  have hp : ∀ x ∈ peers.1, x.1 < peers.2.nextId := reservePeers_lt fw1 b.peerSpecs
  have hw : ∀ i, radio.1 = some i → i < radio.2.nextId := fun i => Forwarder.allocIf_lt
  have h1 : radio.2.Allots fw1 := .buildMulticast hm
  have hpeers : fw1.Allots peers.2 := .reservePeers _
  have h2 : peers.2.Allots fw2 := .buildPeers hp
  have hle2 : radio.2.nextId ≤ fw2.nextId := (h1.trans (hpeers.trans h2)).le
  have h3 : fw2.Allots fw3 := .buildRadio fun i hi => Nat.lt_of_lt_of_le (hw i hi) hle2
  have h4 : fw3.Allots fw4 := .buildCompute _
  have hle4 : radio.2.nextId ≤ fw4.nextId := Nat.le_trans hle2 (h3.trans h4).le
  refine ⟨(hmulticast.trans <| hradio.trans <| h1.trans <| hpeers.trans <| h2.trans <|
    h3.trans h4).idsLt hb, fun id hid => ?_, fun s hs => ?_⟩
  · rcases MobileEngine.mem_stableIds.mp hid with ⟨hs, rfl⟩ | ⟨x, hx, rfl⟩ | hi | hi
    · exact Nat.lt_of_lt_of_le (hm hs) hle4
    · exact Nat.lt_of_lt_of_le (hp x hx) (h2.trans (h3.trans h4)).le
    · exact Nat.lt_of_lt_of_le (hw id hi) hle4
    · cases hi
  · obtain ⟨x, hx, rfl⟩ := List.mem_map.mp hs
    exact ⟨x, hx, rfl⟩

namespace MobileEngine

theorem mountRadio_lt {fw : Forwarder} {id : Option FaceId} {kind : FaceKind} {token : Token}
    (h : ∀ i, id = some i → i < fw.nextId) :
    (fw.mountRadio id kind token).1 < (fw.mountRadio id kind token).2.nextId := by
  cases id with
  | none => exact Nat.lt_succ_self _
  | some i => exact h i rfl

/-- A radio's face is set up at an id that was stable, or at a new one. -/
theorem Ids.mount {e e' : MobileEngine} {id : Option FaceId} {kind : FaceKind} (h : e.Ids)
    (hid : ∀ i, id = some i → i ∈ e.stableIds)
    (hfaces : e'.forwarder.faces = (e.forwarder.mountRadio id kind e.token).2.faces)
    (hnext : e'.forwarder.nextId = (e.forwarder.mountRadio id kind e.token).2.nextId)
    (hstable : ∀ i ∈ e'.stableIds,
      i ∈ e.stableIds ∨ i = (e.forwarder.mountRadio id kind e.token).1)
    (hsup : ∀ s ∈ e'.supervisors, ∃ x ∈ e'.networkPeers, x.1 = s.1) : e'.Ids := by
  have hlt : ∀ i, id = some i → i < e.forwarder.nextId := fun i hi => h.stable i (hid i hi)
  have ha : e.forwarder.Allots (e.forwarder.mountRadio id kind e.token).2 := .mountRadio hlt
  refine ⟨fun f hf => ?_, fun i hi => ?_, hsup⟩
  · rw [hnext]
    rw [hfaces] at hf
    exact ha.idsLt h.faces f hf
  · rw [hnext]
    rcases hstable i hi with hi | rfl
    · exact Nat.lt_of_lt_of_le (h.stable i hi) ha.le
    · exact mountRadio_lt hlt

theorem ids_attachWifiAware {e : MobileEngine} (h : e.Ids) : e.attachWifiAware.Ids := by
  refine h.mount (fun i hi => mem_stableIds.mpr (.inr (.inr (.inl hi)))) rfl rfl (fun i hi => ?_)
    h.supervised
  rcases mem_stableIds.mp hi with hm | hp | hw | hb
  · exact .inl (mem_stableIds.mpr (.inl hm))
  · exact .inl (mem_stableIds.mpr (.inr (.inl hp)))
  · exact .inr (Option.some.inj hw).symm
  · exact .inl (mem_stableIds.mpr (.inr (.inr (.inr hb))))

theorem ids_attachBle {e : MobileEngine} (h : e.Ids) : e.attachBle.Ids := by
  refine h.mount (fun i hi => mem_stableIds.mpr (.inr (.inr (.inr hi)))) rfl rfl (fun i hi => ?_)
    h.supervised
  rcases mem_stableIds.mp hi with hm | hp | hw | hb
  · exact .inl (mem_stableIds.mpr (.inl hm))
  · exact .inl (mem_stableIds.mpr (.inr (.inl hp)))
  · exact .inl (mem_stableIds.mpr (.inr (.inr (.inl hw))))
  · exact .inr (Option.some.inj hb).symm

end MobileEngine

end NdnMobile.Engine
