import Mathlib.Data.List.Nodup
import NdnMobile.Engine.SuspendResume
import NdnMobile.Identity.Core
import NdnMobile.Lib.SocketAddr
import NdnMobile.Packet.Uri

/-!
# Building the declared face set

`build_engine` folds the declared faces into a builder that keeps them by kind, builds, and
installs the default routes from the builder's one list of peers. A declared multicast face
replaces the one before it, so the engine has the declared faces only where there is at most
one (`lossless_iff`); and next to an uplink a serial face gets a default route too
(`routesDeclared_iff`). An address stays the text it was read from.
-/

namespace NdnMobile.Ffi

open NdnMobile.Lib NdnMobile.Packet NdnMobile.Engine NdnMobile.Identity MobileEngine

inductive NdnFaceSpec where
  | multicast (iface : String)
  | uplink (address : String)
  | serial (port : String) (baud : UInt32)
  deriving DecidableEq, Repr

structure NdnEngineConfig where
  faces : List NdnFaceSpec
  nodeName : Option String

/-- `matches!(f, NdnFaceSpec::Multicast { .. })`. -/
def NdnFaceSpec.isMulticast : NdnFaceSpec → Bool
  | .multicast _ => true
  | _ => false

def NdnFaceSpec.isUplink : NdnFaceSpec → Bool
  | .uplink _ => true
  | _ => false

def NdnFaceSpec.isSerial : NdnFaceSpec → Bool
  | .serial _ _ => true
  | _ => false

/-! ## The builder -/

/-- `MobileEngine::builder()`; the costs of a `LinkProfile` are the transport library's. -/
def engineBuilder (linkProfile : FaceKind → Nat) : MobileEngineBuilder where
  strategy := .bestRoute
  multicastIface := none
  unicastPeers := []
  tcpPeers := []
  wsPeers := []
  serialPorts := []
  webtransportPeers := []
  wifiAware := false
  computePrefix := none
  linkProfile := linkProfile

section

variable (b : MobileEngineBuilder)

def withUdpMulticast (iface : String) : MobileEngineBuilder :=
  { b with multicastIface := some iface }

def withTcpPeer (addr : String) : MobileEngineBuilder :=
  { b with tcpPeers := b.tcpPeers ++ [addr] }

def withSerial (port : String) (baud : UInt32) : MobileEngineBuilder :=
  { b with serialPorts := b.serialPorts ++ [(port, baud)] }

def withStrategy (strategy : MobileStrategy) : MobileEngineBuilder :=
  { b with strategy := strategy }

/-- One turn of the loop over `config.faces`. -/
def withFace : NdnFaceSpec → Except NdnError MobileEngineBuilder
  | .multicast iface =>
    if (parseIpv4 iface.toList).isSome then .ok (withUdpMulticast b iface)
    else .error (.invalidAddress iface)
  | .uplink address =>
    if (parseSocketAddr address.toList).isSome then .ok (withTcpPeer b address)
    else .error (.invalidAddress address)
  | .serial port baud => .ok (withSerial b port baud)

end

/-- The discovery name of the configuration is read; discovery edits no table while the engine
is built. -/
def checkNodeName (parse : String → Option Name) : Option String → Except NdnError Unit
  | none => .ok ()
  | some nodeName => if (parse nodeName).isSome then .ok () else .error (.invalidName nodeName)

/-- The routes of the root prefix that `build_engine` installs. -/
def installRoutes (parse : String → Option Name) (faces : List NdnFaceSpec)
    (engine : MobileEngine) : Except NdnError MobileEngine :=
  let engine :=
    if faces.any (·.isMulticast) then (engine.routeToMulticast []).2 else engine
  if faces.any (·.isUplink) then
    match parse "/" with
    | none => .error (.engine "bad root name")
    | some root =>
      .ok (engine.peers.foldl (fun engine peer => engine.routeToPeer root peer 0) engine)
  else .ok engine

/-- `build_engine`, on the part of the configuration that decides its faces and routes; the
builder's own `build` is taken to succeed. -/
def buildEngine (parse : String → Option Name) (linkProfile : FaceKind → Nat)
    (up : FaceId → Bool) (config : NdnEngineConfig) : Except NdnError MobileEngine := do
  let builder ← config.faces.foldlM withFace (engineBuilder linkProfile)
  checkNodeName parse config.nodeName
  let builder :=
    if config.faces.any (·.isMulticast) then withStrategy builder .multicast else builder
  installRoutes parse config.faces (builder.build up)

/-! ## What is declared and what is there -/

/-- The address of the spec, if it has one, is read. -/
def NdnFaceSpec.Parses : NdnFaceSpec → Prop
  | .multicast iface => (parseIpv4 iface.toList).isSome
  | .uplink address => (parseSocketAddr address.toList).isSome
  | .serial _ _ => True

instance : DecidablePred NdnFaceSpec.Parses
  | .multicast _ => inferInstanceAs (Decidable (_ = true))
  | .uplink _ => inferInstanceAs (Decidable (_ = true))
  | .serial _ _ => inferInstanceAs (Decidable True)

/-- A network face of an engine. -/
inductive NetworkFace where
  | multicast (iface : String)
  | peer (spec : PeerSpec)
  deriving DecidableEq, Repr

/-- The face a spec declares. -/
def NdnFaceSpec.face : NdnFaceSpec → NetworkFace
  | .multicast iface => .multicast iface
  | .uplink address => .peer (.tcp address)
  | .serial port baud => .peer (.serial port baud)

/-- The network faces an engine sets up, with their ids. -/
def setUpFaces (e : MobileEngine) : List (FaceId × NetworkFace) :=
  (e.multicastIface.map fun iface => (e.multicastFaceId, NetworkFace.multicast iface)).toList ++
    e.networkPeers.map fun (id, spec) => (id, .peer spec)

/-- Its entry in the face table. -/
def tableFace (token : Token) : FaceId × NetworkFace → Face
  | (id, .multicast _) => ⟨id, .multicast, token, false⟩
  | (id, .peer spec) => ⟨id, spec.kind, token, true⟩

/-- The network faces are the declared ones, one for one, each under an id of its own, and the
face table holds them and the in-process face. -/
structure Lossless (faces : List NdnFaceSpec) (e : MobileEngine) : Prop where
  specs : ((setUpFaces e).map (·.2)).Perm (faces.map (·.face))
  ids : ((setUpFaces e).map (·.1)).Nodup
  table : e.forwarder.faces = ⟨1, .app, .shutdown, false⟩ :: (setUpFaces e).map (tableFace e.token)

/-- The nexthops of the root prefix. -/
def rootIds (e : MobileEngine) : List FaceId := (e.forwarder.fib []).map (·.faceId)

/-- The root prefix has the multicast face, if one is declared, and the faces of the declared
uplinks for its nexthops, and no others. -/
def RoutesDeclared (faces : List NdnFaceSpec) (e : MobileEngine) : Prop :=
  ∀ id, id ∈ rootIds e ↔
    (∃ iface, .multicast iface ∈ faces ∧ id = e.multicastFaceId) ∨
      ∃ addr, .uplink addr ∈ faces ∧ (id, .tcp addr) ∈ e.networkPeers

/-- The interfaces of the declared multicast faces. -/
def multicasts (faces : List NdnFaceSpec) : List String :=
  faces.filterMap fun
    | .multicast iface => some iface
    | _ => none

def uplinks (faces : List NdnFaceSpec) : List String :=
  faces.filterMap fun
    | .uplink address => some address
    | _ => none

def serials (faces : List NdnFaceSpec) : List (String × UInt32) :=
  faces.filterMap fun
    | .serial port baud => some (port, baud)
    | _ => none

variable {faces : List NdnFaceSpec} {e : MobileEngine} {b : MobileEngineBuilder}
  {up : FaceId → Bool} {id : FaceId}

theorem mem_uplinks {address : String} : address ∈ uplinks faces ↔ .uplink address ∈ faces := by
  unfold uplinks
  rw [List.mem_filterMap]
  constructor
  · rintro ⟨f, hf, heq⟩
    cases f <;> cases heq
    exact hf
  · intro hf
    exact ⟨_, hf, rfl⟩

theorem any_isMulticast :
    faces.any (·.isMulticast) = true ↔ ∃ iface, .multicast iface ∈ faces := by
  rw [List.any_eq_true]
  constructor
  · rintro ⟨f, hf, hm⟩
    cases f with
    | multicast iface => exact ⟨iface, hf⟩
    | _ => cases hm
  · rintro ⟨iface, hf⟩
    exact ⟨_, hf, rfl⟩

theorem any_isUplink : faces.any (·.isUplink) = true ↔ uplinks faces ≠ [] := by
  induction faces with
  | nil => simp [uplinks]
  | cons f faces ih => cases f <;> simp_all [uplinks, NdnFaceSpec.isUplink]

theorem any_isSerial : faces.any (·.isSerial) = true ↔ serials faces ≠ [] := by
  induction faces with
  | nil => simp [serials]
  | cons f faces ih => cases f <;> simp_all [serials, NdnFaceSpec.isSerial]

/-! ## The loop over the faces -/

theorem withFace_multicast {iface : String} (h : (NdnFaceSpec.multicast iface).Parses) :
    withFace b (.multicast iface) = .ok (withUdpMulticast b iface) := if_pos h

theorem withFace_uplink {address : String} (h : (NdnFaceSpec.uplink address).Parses) :
    withFace b (.uplink address) = .ok (withTcpPeer b address) := if_pos h

theorem withFace_serial (port : String) (baud : UInt32) :
    withFace b (.serial port baud) = .ok (withSerial b port baud) := rfl

/-- The builder has the last multicast interface, and the peers in order. -/
theorem foldlM_withFace (h : ∀ f ∈ faces, f.Parses) (b : MobileEngineBuilder) :
    faces.foldlM withFace b = .ok { b with
      multicastIface := (multicasts faces).getLast?.or b.multicastIface
      tcpPeers := b.tcpPeers ++ uplinks faces
      serialPorts := b.serialPorts ++ serials faces } := by
  induction faces generalizing b with
  | nil => simp [multicasts, uplinks, serials, pure, Except.pure]
  | cons f faces ih =>
    obtain ⟨hf, hfaces⟩ := List.forall_mem_cons.mp h
    rw [List.foldlM_cons]
    cases f with
    | multicast iface =>
      rw [withFace_multicast hf]
      refine (ih hfaces (withUdpMulticast b iface)).trans (congrArg Except.ok ?_)
      have hlast : (multicasts (.multicast iface :: faces)).getLast? =
          (multicasts faces).getLast?.or (some iface) := by
        rw [show multicasts (.multicast iface :: faces) = iface :: multicasts faces from rfl,
          List.getLast?_cons]
        cases (multicasts faces).getLast? <;> rfl
      rw [hlast, Option.or_assoc]
      rfl
    | uplink address =>
      rw [withFace_uplink hf]
      refine (ih hfaces (withTcpPeer b address)).trans (congrArg Except.ok ?_)
      simp [withTcpPeer, multicasts, uplinks, serials]
    | serial port baud =>
      rw [withFace_serial]
      refine (ih hfaces (withSerial b port baud)).trans (congrArg Except.ok ?_)
      simp [withSerial, multicasts, uplinks, serials]

/-- The builder that `build_engine` builds from. -/
def declaredBuilder (linkProfile : FaceKind → Nat) (faces : List NdnFaceSpec) :
    MobileEngineBuilder :=
  { engineBuilder linkProfile with
    strategy := if faces.any (·.isMulticast) then .multicast else .bestRoute
    multicastIface := (multicasts faces).getLast?
    tcpPeers := uplinks faces
    serialPorts := serials faces }

/-- The default routes that `build_engine` installs. -/
def withRoutes (faces : List NdnFaceSpec) (e : MobileEngine) : MobileEngine :=
  let e := if faces.any (·.isMulticast) then (e.routeToMulticast []).2 else e
  if faces.any (·.isUplink) then e.peers.foldl (fun e peer => e.routeToPeer [] peer 0) e else e

theorem installRoutes_eq {parse : String → Option Name} (hroot : parse "/" = some [])
    (e : MobileEngine) : installRoutes parse faces e = .ok (withRoutes faces e) := by
  unfold installRoutes withRoutes
  rw [hroot]
  cases faces.any (·.isUplink) <;> rfl

theorem buildEngine_eq {parse : String → Option Name} {linkProfile : FaceKind → Nat}
    {config : NdnEngineConfig} (hroot : parse "/" = some [])
    (hname : ∀ n, config.nodeName = some n → (parse n).isSome)
    (hfaces : ∀ f ∈ config.faces, f.Parses) :
    buildEngine parse linkProfile up config =
      .ok (withRoutes config.faces ((declaredBuilder linkProfile config.faces).build up)) := by
  have hcheck : checkNodeName parse config.nodeName = .ok () := by
    cases hn : config.nodeName with
    | none => rfl
    | some n => exact if_pos (hname n hn)
  rw [buildEngine, foldlM_withFace hfaces]
  simp only [bind, Except.bind, hcheck, installRoutes_eq hroot]
  refine congrArg
    (fun b : MobileEngineBuilder => Except.ok (withRoutes config.faces (b.build up))) ?_
  unfold declaredBuilder withStrategy
  split <;> simp [engineBuilder]

/-! ## What is built -/

theorem reservePeers_snd (fw : Forwarder) (specs : List PeerSpec) :
    (reservePeers fw specs).1.map (·.2) = specs := by
  induction specs generalizing fw with
  | nil => rfl
  | cons spec specs ih => exact congrArg (spec :: ·) (ih fw.allocId)

theorem reservePeers_fib (fw : Forwarder) (specs : List PeerSpec) :
    (reservePeers fw specs).2.fib = fw.fib := by
  induction specs generalizing fw with
  | nil => rfl
  | cons spec specs ih => exact ih fw.allocId

theorem networkPeers_snd (b : MobileEngineBuilder) (up : FaceId → Bool) :
    (b.build up).networkPeers.map (·.2) = b.peerSpecs := reservePeers_snd _ b.peerSpecs

theorem networkPeers_nodup (b : MobileEngineBuilder) (up : FaceId → Bool) :
    ((b.build up).networkPeers.map (·.1)).Nodup := reservePeers_nodup _ b.peerSpecs

theorem multicastFaceId_build (h : b.multicastIface.isSome) :
    (b.build up).multicastFaceId = 2 := by
  show ((b.forwarder.allocIf b.multicastIface.isSome).1).getD 0 = 2
  rw [h]
  rfl

theorem multicastFaceId_lt (h : b.multicastIface.isSome) :
    ∀ x ∈ (b.build up).networkPeers, (b.build up).multicastFaceId < x.1 :=
  build_broadcast_lt_peers b up _ (mem_broadcastIds.mpr (.inl ⟨h, rfl⟩))

/-- Without radios and compute, the tables hold the in-process face and the configured ones,
and no route. -/
theorem build_plain (hw : b.wifiAware = false) (hc : b.computePrefix = none) :
    (b.build up).forwarder.faces =
      ⟨1, .app, .shutdown, false⟩ :: (b.build up).networkFaces up ∧
    ∀ p, (b.build up).forwarder.fib p = [] := by
  let fw1 := buildMulticast b.radioIds.2 b.multicastIface (b.multicastId.1.getD 0) (.network 0) up
  let peers := reservePeers fw1 b.peerSpecs
  have hradio : b.radioIds = (none, b.multicastId.2) := by
    unfold MobileEngineBuilder.radioIds
    rw [hw]
    rfl
  have hbuilt : (b.build up).forwarder = buildPeers (.network 0) up peers.2 peers.1 := by
    show buildCompute (buildRadio _ b.radioIds.1 _ _) b.computePrefix = _
    rw [hc, hradio]
    rfl
  have hmulti : b.multicastId.2.faces = [⟨1, .app, .shutdown, false⟩] ∧
      b.multicastId.2.fib = fun _ => [] := by
    unfold MobileEngineBuilder.multicastId
    cases b.multicastIface.isSome <;> exact ⟨rfl, rfl⟩
  have hfw1 : fw1 = buildMulticast b.multicastId.2 b.multicastIface (b.multicastId.1.getD 0)
      (.network 0) up := by
    show buildMulticast b.radioIds.2 _ _ _ _ = _
    rw [hradio]
  rw [buildMulticast_eq] at hfw1
  have hradio1 : (b.build up).wifiAware = none := congrArg Prod.fst hradio
  rw [hbuilt, buildPeers_eq]
  constructor
  · show peers.2.faces ++ _ = _
    rw [reservePeers_faces, hfw1, hmulti.1, networkFaces, hradio1]
    show (_ ++ _) ++ _ = _ :: (((_ ++ _) ++ []) ++ [])
    rw [List.append_nil, List.append_nil, List.append_assoc]
    rfl
  · intro p
    show peers.2.fib p = []
    rw [reservePeers_fib, hfw1, hmulti.2]

/-! ## The default routes -/

/-- Only routes differ. -/
def SameButRoutes (e e' : MobileEngine) : Prop :=
  ∃ fib, e' = { e with forwarder := { e.forwarder with fib := fib } }

theorem SameButRoutes.refl (e : MobileEngine) : SameButRoutes e e := ⟨e.forwarder.fib, rfl⟩

theorem SameButRoutes.trans {e₁ e₂ e₃ : MobileEngine} (h₁ : SameButRoutes e₁ e₂)
    (h₂ : SameButRoutes e₂ e₃) : SameButRoutes e₁ e₃ := by
  obtain ⟨fib₁, rfl⟩ := h₁
  obtain ⟨fib₂, rfl⟩ := h₂
  exact ⟨fib₂, rfl⟩

theorem routeToPeer_same (e : MobileEngine) (peer : PeerRef) :
    SameButRoutes e (e.routeToPeer [] peer 0) := ⟨_, rfl⟩

theorem mem_rootIds_addNexthop {i : FaceId} {cost : Nat} :
    id ∈ rootIds { e with forwarder := e.forwarder.addNexthop [] i cost } ↔
      id ∈ rootIds e ∨ id = i := by
  unfold rootIds Forwarder.addNexthop
  simp only [Function.update_self, List.map_append, List.mem_append, List.mem_map,
    List.mem_filter, List.map_cons, List.map_nil, List.mem_singleton, bne_iff_ne]
  constructor
  · rintro (⟨nh, ⟨hnh, -⟩, rfl⟩ | h)
    · exact .inl ⟨nh, hnh, rfl⟩
    · exact .inr h
  · rintro (⟨nh, hnh, rfl⟩ | h)
    · by_cases hi : nh.faceId = i
      · exact .inr hi
      · exact .inl ⟨nh, ⟨hnh, hi⟩, rfl⟩
    · exact .inr h

theorem foldl_routeToPeer (peers : List PeerRef) (e : MobileEngine) (id : FaceId) :
    SameButRoutes e (peers.foldl (fun e peer => e.routeToPeer [] peer 0) e) ∧
    (id ∈ rootIds (peers.foldl (fun e peer => e.routeToPeer [] peer 0) e) ↔
      id ∈ rootIds e ∨ ∃ peer ∈ peers, peer.id = id) := by
  induction peers generalizing e with
  | nil => exact ⟨.refl e, by simp⟩
  | cons peer peers ih =>
    obtain ⟨hsame, hmem⟩ := ih (e.routeToPeer [] peer 0)
    refine ⟨(routeToPeer_same e peer).trans hsame, ?_⟩
    rw [List.foldl_cons, hmem, MobileEngine.routeToPeer, mem_rootIds_addNexthop,
      List.exists_mem_cons_iff, or_assoc, eq_comm (a := id)]

theorem mem_peers : (∃ peer ∈ e.peers, peer.id = id) ↔ ∃ x ∈ e.networkPeers, x.1 = id := by
  simp [peers]

/-- What is routed is the multicast face where one is declared, and every peer where an uplink
is. -/
theorem withRoutes_spec (hm : faces.any (·.isMulticast) = true → e.multicastFaceId ≠ 0)
    (id : FaceId) :
    SameButRoutes e (withRoutes faces e) ∧
    (id ∈ rootIds (withRoutes faces e) ↔ id ∈ rootIds e ∨
      (faces.any (·.isMulticast) = true ∧ id = e.multicastFaceId) ∨
      (faces.any (·.isUplink) = true ∧ ∃ x ∈ e.networkPeers, x.1 = id)) := by
  let e₁ := if faces.any (·.isMulticast) then (e.routeToMulticast []).2 else e
  have h₁ : SameButRoutes e e₁ ∧ (id ∈ rootIds e₁ ↔ id ∈ rootIds e ∨
      (faces.any (·.isMulticast) = true ∧ id = e.multicastFaceId)) := by
    by_cases h : faces.any (·.isMulticast) = true
    · have heq : e₁ = { e with
          forwarder := e.forwarder.addNexthop [] e.multicastFaceId 0 } := by
        show (if _ then _ else _) = _
        rw [if_pos h, routeToMulticast, if_neg (hm h)]
      rw [heq, mem_rootIds_addNexthop]
      exact ⟨⟨_, rfl⟩, by simp [h]⟩
    · have heq : e₁ = e := if_neg h
      rw [heq]
      exact ⟨.refl e, by simp [h]⟩
  have hpeers : e₁.networkPeers = e.networkPeers := by
    obtain ⟨fib, hfib⟩ := h₁.1
    rw [hfib]
  by_cases h : faces.any (·.isUplink) = true
  · have heq : withRoutes faces e = e₁.peers.foldl (fun e peer => e.routeToPeer [] peer 0) e₁ :=
      if_pos h
    obtain ⟨hsame, hmem⟩ := foldl_routeToPeer e₁.peers e₁ id
    rw [heq, hmem, mem_peers, h₁.2, hpeers]
    exact ⟨h₁.1.trans hsame, by simp [h, or_assoc]⟩
  · have heq : withRoutes faces e = e₁ := if_neg h
    rw [heq, h₁.2]
    exact ⟨h₁.1, by simp [h]⟩

/-! ## Which faces are set up -/

section

variable {linkProfile : FaceKind → Nat}

theorem setUpFaces_same {e' : MobileEngine} (h : SameButRoutes e e') :
    setUpFaces e' = setUpFaces e ∧ e'.forwarder.faces = e.forwarder.faces ∧
      e'.token = e.token := by
  obtain ⟨fib, rfl⟩ := h
  exact ⟨rfl, rfl, rfl⟩

theorem lossless_same {e' : MobileEngine} (h : SameButRoutes e e') :
    Lossless faces e' ↔ Lossless faces e := by
  obtain ⟨hset, hfaces, htoken⟩ := setUpFaces_same h
  constructor
  · rintro ⟨h1, h2, h3⟩
    exact ⟨hset ▸ h1, hset ▸ h2, by rw [← hfaces, h3, hset, htoken]⟩
  · rintro ⟨h1, h2, h3⟩
    exact ⟨hset ▸ h1, hset ▸ h2, by rw [hfaces, h3, hset, htoken]⟩

/-- The faces by kind, in the order in which the builder has them. -/
def byKind (ms : List String) (us : List String) (ss : List (String × UInt32)) :
    List NetworkFace :=
  ms.map .multicast ++
    (us.map PeerSpec.tcp ++ ss.map fun s => PeerSpec.serial s.1 s.2).map .peer

/-- Sorted by kind, the declared faces are all there. -/
theorem byKind_perm (faces : List NdnFaceSpec) :
    (byKind (multicasts faces) (uplinks faces) (serials faces)).Perm (faces.map (·.face)) := by
  induction faces with
  | nil => exact .nil
  | cons f faces ih =>
    cases f with
    | multicast iface => exact ih.cons _
    | uplink address =>
      refine List.Perm.trans ?_ (ih.cons (.peer (.tcp address)))
      unfold byKind
      exact List.perm_middle
    | serial port baud =>
      refine List.Perm.trans ?_ (ih.cons (.peer (.serial port baud)))
      unfold byKind
      rw [show serials (.serial port baud :: faces) = (port, baud) :: serials faces from rfl,
        List.map_append, List.map_append, ← List.append_assoc, ← List.append_assoc]
      exact List.perm_middle

theorem setUpFaces_snd (linkProfile : FaceKind → Nat) (up : FaceId → Bool)
    (faces : List NdnFaceSpec) :
    (setUpFaces ((declaredBuilder linkProfile faces).build up)).map (·.2) =
      byKind (multicasts faces).getLast?.toList (uplinks faces) (serials faces) := by
  have hpeers := networkPeers_snd (declaredBuilder linkProfile faces) up
  have hspecs : (declaredBuilder linkProfile faces).peerSpecs =
      (uplinks faces).map PeerSpec.tcp ++
        (serials faces).map fun s => PeerSpec.serial s.1 s.2 := by
    simp [MobileEngineBuilder.peerSpecs, declaredBuilder, engineBuilder]
  rw [hspecs] at hpeers
  unfold setUpFaces byKind
  rw [List.map_append, ← hpeers, List.map_map, List.map_map]
  congr 1
  show ((((multicasts faces).getLast?).map _).toList).map _ = _
  cases (multicasts faces).getLast? <;> rfl

theorem setUpFaces_nodup (b : MobileEngineBuilder) (up : FaceId → Bool) :
    ((setUpFaces (b.build up)).map (·.1)).Nodup := by
  have hpeers := networkPeers_nodup b up
  have hfst : ((b.build up).networkPeers.map fun (id, spec) => (id, NetworkFace.peer spec)).map
      (·.1) = (b.build up).networkPeers.map (·.1) := by rw [List.map_map]; rfl
  unfold setUpFaces
  rw [List.map_append, hfst]
  cases hm : (b.build up).multicastIface with
  | none => exact hpeers
  | some iface =>
    have hsome : b.multicastIface.isSome := by
      rw [show b.multicastIface = some iface from hm]
      rfl
    refine List.nodup_cons.mpr ⟨fun hmem => ?_, hpeers⟩
    obtain ⟨x, hx, heq⟩ := List.mem_map.mp hmem
    exact absurd (multicastFaceId_lt hsome x hx) (heq ▸ Nat.lt_irrefl _)

/-- With every face coming up, the face table holds what is set up. -/
theorem setUpFaces_table (hw : b.wifiAware = false) (hc : b.computePrefix = none) :
    (b.build fun _ => true).forwarder.faces = ⟨1, .app, .shutdown, false⟩ ::
      (setUpFaces (b.build fun _ => true)).map (tableFace (b.build fun _ => true).token) := by
  have hwifi : (b.build fun _ => true).wifiAware = none := by
    show (b.multicastId.2.allocIf b.wifiAware).1 = none
    rw [hw]
    rfl
  rw [(build_plain hw hc).1, networkFaces, hwifi, setUpFaces, List.map_append, List.map_map]
  refine congrArg (List.cons (⟨1, .app, .shutdown, false⟩ : Face)) ?_
  show ((_ ++ _) ++ []) ++ [] = _
  rw [List.append_nil, List.append_nil, List.filter_true]
  congr 1
  cases (b.build fun _ => true).multicastIface <;> rfl

theorem countP_isMulticast (faces : List NdnFaceSpec) :
    faces.countP (·.isMulticast) = (multicasts faces).length := by
  induction faces with
  | nil => rfl
  | cons f faces ih =>
    rw [List.countP_cons, ih]
    cases f <;> rfl

theorem getLast?_toList_of_le {α : Type} {l : List α} (h : l.length ≤ 1) :
    l.getLast?.toList = l := by
  match l, h with
  | [], _ => rfl
  | [_], _ => rfl

theorem isSome_multicastIface (linkProfile : FaceKind → Nat) (faces : List NdnFaceSpec) :
    (declaredBuilder linkProfile faces).multicastIface.isSome =
      faces.any (·.isMulticast) := by
  show (multicasts faces).getLast?.isSome = _
  induction faces with
  | nil => rfl
  | cons f faces ih =>
    cases f with
    | multicast iface =>
      rw [show multicasts (.multicast iface :: faces) = iface :: multicasts faces from rfl,
        List.getLast?_cons]
      rfl
    | _ => exact ih

theorem multicastFaceId_ne_zero (h : faces.any (·.isMulticast) = true) :
    ((declaredBuilder linkProfile faces).build up).multicastFaceId ≠ 0 := by
  rw [multicastFaceId_build ((isSome_multicastIface linkProfile faces).trans h)]
  decide

/-- **Every declared face**: the engine that `build_engine` makes of parseable faces has them
all, with none lost, if and only if at most one of them is a multicast face. -/
theorem lossless_iff (parse : String → Option Name) (linkProfile : FaceKind → Nat)
    (config : NdnEngineConfig) (hroot : parse "/" = some [])
    (hname : ∀ n, config.nodeName = some n → (parse n).isSome)
    (hfaces : ∀ f ∈ config.faces, f.Parses) :
    ∃ e, buildEngine parse linkProfile (fun _ => true) config = .ok e ∧
      (Lossless config.faces e ↔ config.faces.countP (·.isMulticast) ≤ 1) := by
  refine ⟨_, buildEngine_eq hroot hname hfaces, ?_⟩
  rw [lossless_same (withRoutes_spec multicastFaceId_ne_zero 0).1, countP_isMulticast]
  have hsnd := setUpFaces_snd linkProfile (fun _ => true) config.faces
  constructor
  · intro h
    have hlen := h.specs.length_eq
    have hall := (byKind_perm config.faces).length_eq
    rw [hsnd] at hlen
    simp only [byKind, List.length_append, List.length_map] at hlen hall
    have hone : (multicasts config.faces).getLast?.toList.length ≤ 1 := by
      cases (multicasts config.faces).getLast? <;> simp
    omega
  · intro h
    refine ⟨?_, setUpFaces_nodup _ _, setUpFaces_table rfl rfl⟩
    rw [hsnd, getLast?_toList_of_le h]
    exact byKind_perm config.faces

/-- A node with a multicast face, an uplink and a serial radio. -/
def fieldNode : NdnEngineConfig where
  faces := [.multicast "192.168.1.7", .uplink "10.0.0.1:6363", .serial "/dev/ttyACM0" 115200]
  nodeName := none

theorem lossless_iff_fieldNode : ∃ e,
    buildEngine UriSyntax.percent.parse (fun _ => 10) (fun _ => true) fieldNode = .ok e ∧
      Lossless fieldNode.faces e := by
  obtain ⟨e, he, hiff⟩ :=
    lossless_iff UriSyntax.percent.parse (fun _ => 10) fieldNode (by decide) nofun (by decide)
  exact ⟨e, he, hiff.mpr (by decide)⟩

/-- A phone on an access point and in a Wi-Fi Direct group. -/
def twoGroups : NdnEngineConfig where
  faces := [.multicast "192.168.1.7", .multicast "192.168.49.1"]
  nodeName := none

/-- The face on the access point is lost. -/
theorem lossless_fails : ∃ e,
    buildEngine UriSyntax.percent.parse (fun _ => 10) (fun _ => true) twoGroups = .ok e ∧
      setUpFaces e = [(2, .multicast "192.168.49.1")] ∧ ¬ Lossless twoGroups.faces e := by
  refine ⟨_, rfl, rfl, fun h => ?_⟩
  exact absurd h.specs.length_eq (by decide)

/-! ## Which routes are installed -/

theorem mem_networkPeers_snd {spec : PeerSpec} :
    (∃ x ∈ ((declaredBuilder linkProfile faces).build up).networkPeers, x.2 = spec) ↔
      (∃ address, .uplink address ∈ faces ∧ spec = .tcp address) ∨
        ∃ s ∈ serials faces, spec = .serial s.1 s.2 := by
  rw [← List.mem_map, networkPeers_snd]
  simp only [MobileEngineBuilder.peerSpecs, declaredBuilder, engineBuilder, List.map_nil,
    List.nil_append, List.append_nil, List.mem_append, List.mem_map, mem_uplinks, eq_comm]

/-- **The default routes**: of the engine that `build_engine` makes of parseable faces they
are those to the declared multicast face and uplinks, if and only if there is no serial face
next to an uplink. -/
theorem routesDeclared_iff (parse : String → Option Name) (linkProfile : FaceKind → Nat)
    (up : FaceId → Bool) (config : NdnEngineConfig) (hroot : parse "/" = some [])
    (hname : ∀ n, config.nodeName = some n → (parse n).isSome)
    (hfaces : ∀ f ∈ config.faces, f.Parses) :
    ∃ e, buildEngine parse linkProfile up config = .ok e ∧
      (RoutesDeclared config.faces e ↔
        ¬ (config.faces.any (·.isUplink) = true ∧ config.faces.any (·.isSerial) = true)) := by
  refine ⟨_, buildEngine_eq hroot hname hfaces, ?_⟩
  generalize config.faces = faces
  let e := (declaredBuilder linkProfile faces).build up
  have hsame : SameButRoutes e (withRoutes faces e) :=
    (withRoutes_spec multicastFaceId_ne_zero 0).1
  have hroots : ∀ id, id ∈ rootIds (withRoutes faces e) ↔
      (faces.any (·.isMulticast) = true ∧ id = e.multicastFaceId) ∨
      (faces.any (·.isUplink) = true ∧ ∃ x ∈ e.networkPeers, x.1 = id) := fun id => by
    have hempty : rootIds e = [] := by
      rw [rootIds, (build_plain rfl rfl).2]
      rfl
    rw [(withRoutes_spec multicastFaceId_ne_zero id).2, hempty, or_iff_right List.not_mem_nil]
  have hfields : (withRoutes faces e).networkPeers = e.networkPeers ∧
      (withRoutes faces e).multicastFaceId = e.multicastFaceId := by
    obtain ⟨fib, hfib⟩ := hsame
    rw [hfib]
    exact ⟨rfl, rfl⟩
  have hdeclared : RoutesDeclared faces (withRoutes faces e) ↔ ∀ id,
      (faces.any (·.isMulticast) = true ∧ id = e.multicastFaceId) ∨
        (faces.any (·.isUplink) = true ∧ ∃ x ∈ e.networkPeers, x.1 = id) ↔
      (faces.any (·.isMulticast) = true ∧ id = e.multicastFaceId) ∨
        ∃ addr, .uplink addr ∈ faces ∧ (id, .tcp addr) ∈ e.networkPeers := by
    unfold RoutesDeclared
    simp only [hroots, hfields, any_isMulticast, exists_and_right]
  rw [hdeclared]
  constructor
  · rintro h ⟨hu, hs⟩
    obtain ⟨s, hs⟩ := List.exists_mem_of_ne_nil _ (any_isSerial.mp hs)
    obtain ⟨x, hx, hspec⟩ := mem_networkPeers_snd.mpr (.inr ⟨s, hs, rfl⟩)
    rcases (h x.1).mp (.inr ⟨hu, x, hx, rfl⟩) with ⟨hm, heq⟩ | ⟨addr, -, htcp⟩
    · have hlt := multicastFaceId_lt ((isSome_multicastIface linkProfile faces).trans hm) x hx
      exact absurd heq (Nat.ne_of_gt hlt)
    · -- one peer's id is another's: they are the same peer
      have hnodup := networkPeers_nodup (declaredBuilder linkProfile faces) up
      have hx' : x = (x.1, .tcp addr) := List.inj_on_of_nodup_map hnodup hx htcp rfl
      rw [hx'] at hspec
      cases hspec
  · intro h id
    refine or_congr_right ⟨?_, ?_⟩
    · rintro ⟨hu, x, hx, rfl⟩
      rcases mem_networkPeers_snd.mp ⟨x, hx, rfl⟩ with ⟨addr, hmem, hspec⟩ | ⟨s, hs, -⟩
      · exact ⟨addr, hmem, hspec ▸ hx⟩
      · exact absurd ⟨hu, any_isSerial.mpr (List.ne_nil_of_mem hs)⟩ h
    · rintro ⟨addr, hmem, hx⟩
      exact ⟨any_isUplink.mpr (List.ne_nil_of_mem (mem_uplinks.mpr hmem)), _, hx, rfl⟩

/-- A node with a multicast face and two uplinks. -/
def twoUplinks : NdnEngineConfig where
  faces := [.multicast "192.168.1.7", .uplink "10.0.0.1:6363", .uplink "10.0.0.2:6363"]
  nodeName := none

theorem routesDeclared_iff_twoUplinks : ∃ e,
    buildEngine UriSyntax.percent.parse (fun _ => 10) (fun _ => true) twoUplinks = .ok e ∧
      RoutesDeclared twoUplinks.faces e := by
  obtain ⟨e, he, hiff⟩ := routesDeclared_iff UriSyntax.percent.parse (fun _ => 10) (fun _ => true)
    twoUplinks (by decide) nofun (by decide)
  exact ⟨e, he, hiff.mpr (by decide)⟩

/-- The serial radio gets a default route, which it would not have without the uplink. -/
theorem routesDeclared_fails : ∃ e,
    buildEngine UriSyntax.percent.parse (fun _ => 10) (fun _ => true) fieldNode = .ok e ∧
      e.networkPeers = [(3, .tcp "10.0.0.1:6363"), (4, .serial "/dev/ttyACM0" 115200)] ∧
      rootIds e = [2, 3, 4] ∧ ¬ RoutesDeclared fieldNode.faces e := by
  refine ⟨_, rfl, rfl, by decide, fun h => ?_⟩
  rcases (h 4).mp (by decide) with ⟨-, -, heq⟩ | ⟨addr, -, hmem⟩
  · cases heq
  · rcases List.mem_cons.mp hmem with heq | hmem
    · cases heq
    · cases List.mem_singleton.mp hmem

end

end NdnMobile.Ffi
