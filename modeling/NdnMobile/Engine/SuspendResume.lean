import NdnMobile.Engine.MobileEngine
import NdnMobile.Lib.Run

/-!
# Suspend, then resume

Suspending cancels the network faces, and with those that are not persistent their nexthops;
resuming sets up again what is configured, at the old ids, but installs no route. The peers
are persistent. The multicast face and the radios are not, so a set-up engine comes back as
it was exactly when no route points at one of these.
-/

namespace NdnMobile.Engine

open NdnMobile.Lib NdnMobile.Packet

/-- An opaque handle to a configured peer. -/
structure PeerRef where
  id : FaceId
  uri : String
  deriving DecidableEq, Repr

def PeerSpec.uri : PeerSpec → String
  | .udpUnicast addr => "udp4://" ++ addr
  | .tcp addr => "tcp4://" ++ addr
  | .webSocket url => url
  | .serial port baud => "serial://" ++ port ++ "?baud=" ++ toString baud
  | .webTransport url => url

namespace MobileEngine

variable (e : MobileEngine)

def peers : List PeerRef := e.networkPeers.map fun (id, spec) => ⟨id, spec.uri⟩

def routeToPeer (prefix' : Name) (peer : PeerRef) (cost : Nat) : MobileEngine :=
  { e with forwarder := e.forwarder.addNexthop prefix' peer.id cost }

def routeToMulticast (prefix' : Name) : Bool × MobileEngine :=
  if e.multicastFaceId = 0 then (false, e)
  else (true, { e with forwarder := e.forwarder.addNexthop prefix' e.multicastFaceId 0 })

/-! ## The configured faces -/

/-- The faces that are configured and can be set up, under the current token. -/
def networkFaces (up : FaceId → Bool) : List Face :=
  (if e.multicastIface.isSome && up e.multicastFaceId then
    [⟨e.multicastFaceId, .multicast, e.token, false⟩] else []) ++
  (e.networkPeers.filter fun x => up x.1).map (fun (id, spec) => ⟨id, spec.kind, e.token, true⟩) ++
  e.wifiAware.toList.map (fun id => ⟨id, .wifiAware, e.token, false⟩) ++
  e.ble.toList.map fun id => ⟨id, .bluetooth, e.token, false⟩

/-- Every configured face. -/
def configured : List Face := e.networkFaces fun _ => true

/-- The ids of the faces that everyone in range hears: multicast and the radios. -/
def broadcastIds : List FaceId :=
  (if e.multicastIface.isSome then [e.multicastFaceId] else []) ++ e.wifiAware.toList ++
    e.ble.toList

end MobileEngine

open MobileEngine

variable {e : MobileEngine} {f : Face} {up : FaceId → Bool}

theorem mem_networkFaces : f ∈ e.networkFaces up ↔
    (e.multicastIface.isSome = true ∧ up e.multicastFaceId = true ∧
      f = ⟨e.multicastFaceId, .multicast, e.token, false⟩) ∨
    (∃ x ∈ e.networkPeers, up x.1 = true ∧ f = ⟨x.1, x.2.kind, e.token, true⟩) ∨
    (∃ id, e.wifiAware = some id ∧ f = ⟨id, .wifiAware, e.token, false⟩) ∨
    ∃ id, e.ble = some id ∧ f = ⟨id, .bluetooth, e.token, false⟩ := by
  unfold networkFaces
  simp only [List.mem_append, List.mem_map, List.mem_filter, Option.mem_toList, or_assoc]
  refine or_congr ?_ (or_congr ?_ (or_congr ?_ ?_))
  · by_cases hm : (e.multicastIface.isSome && up e.multicastFaceId) = true
    · rw [if_pos hm, List.mem_singleton]
      rw [Bool.and_eq_true] at hm
      exact ⟨fun h => ⟨hm.1, hm.2, h⟩, fun h => h.2.2⟩
    · rw [if_neg hm]
      refine iff_of_false List.not_mem_nil fun h => hm ?_
      rw [h.1, h.2.1]
      rfl
  · exact ⟨fun ⟨x, ⟨hx, hu⟩, h⟩ => ⟨x, hx, hu, h.symm⟩, fun ⟨x, hx, hu, h⟩ => ⟨x, ⟨hx, hu⟩, h.symm⟩⟩
  · exact ⟨fun ⟨i, hi, h⟩ => ⟨i, hi, h.symm⟩, fun ⟨i, hi, h⟩ => ⟨i, hi, h.symm⟩⟩
  · exact ⟨fun ⟨i, hi, h⟩ => ⟨i, hi, h.symm⟩, fun ⟨i, hi, h⟩ => ⟨i, hi, h.symm⟩⟩

theorem mem_broadcastIds {id : FaceId} : id ∈ e.broadcastIds ↔
    (e.multicastIface.isSome = true ∧ id = e.multicastFaceId) ∨ e.wifiAware = some id ∨
      e.ble = some id := by
  unfold broadcastIds
  by_cases hm : e.multicastIface.isSome = true
  · rw [if_pos hm]
    simp [hm]
  · rw [if_neg hm]
    simp [hm]

theorem mem_configured_of_broadcast {id : FaceId} (h : id ∈ e.broadcastIds) :
    ∃ f ∈ e.configured, f.id = id ∧ f.token = e.token ∧ f.persistent = false := by
  rcases mem_broadcastIds.mp h with ⟨hm, rfl⟩ | hw | hb
  · exact ⟨_, mem_networkFaces.mpr (.inl ⟨hm, rfl, rfl⟩), rfl, rfl, rfl⟩
  · exact ⟨_, mem_networkFaces.mpr (.inr (.inr (.inl ⟨id, hw, rfl⟩))), rfl, rfl, rfl⟩
  · exact ⟨_, mem_networkFaces.mpr (.inr (.inr (.inr ⟨id, hb, rfl⟩))), rfl, rfl, rfl⟩

/-! ## What is built -/

theorem buildPeers_eq (token : Token) (fw : Forwarder) (peers : List (FaceId × PeerSpec)) :
    buildPeers token up fw peers = { fw with
      faces := fw.faces ++ (peers.filter fun x => up x.1).map
        fun (id, spec) => ⟨id, spec.kind, token, true⟩ } := by
  induction peers generalizing fw with
  | nil => simp [buildPeers]
  | cons x peers ih =>
    obtain ⟨id, spec⟩ := x
    unfold buildPeers
    rw [ih]
    unfold buildPeerFace
    by_cases hu : up id = true
    · rw [if_pos hu]
      simp [Forwarder.addFace, hu]
    · rw [if_neg hu]
      simp [hu]

theorem buildMulticast_eq (fw : Forwarder) (iface : Option String) (id : FaceId) (token : Token) :
    buildMulticast fw iface id token up = { fw with
      faces := fw.faces ++
        if iface.isSome && up id then [⟨id, .multicast, token, false⟩] else [] } := by
  unfold buildMulticast
  split
  · rfl
  · simp

theorem buildRadio_eq (fw : Forwarder) (id : Option FaceId) (kind : FaceKind) (token : Token) :
    buildRadio fw id kind token = { fw with
      faces := fw.faces ++ id.toList.map fun id => ⟨id, kind, token, false⟩ } := by
  cases id with
  | none => simp [buildRadio]
  | some id => rfl

/-- Resuming sets up the configured faces and touches no route. -/
theorem resume_forwarder (e : MobileEngine) (up : FaceId → Bool) :
    (e.resumeNetworkFaces up).forwarder =
      { e.forwarder with faces := e.forwarder.faces ++ e.networkFaces up } := by
  unfold resumeNetworkFaces networkFaces
  simp only [buildMulticast_eq, buildPeers_eq, buildRadio_eq, List.append_assoc]

namespace MobileEngineBuilder

variable (b : MobileEngineBuilder)

/-- The id of the multicast face, and the tables once it is handed out. -/
def multicastId : Option FaceId × Forwarder := b.forwarder.allocIf b.multicastIface.isSome

/-- The id of the radio face, and the tables once it is handed out. -/
def radioIds : Option FaceId × Forwarder := b.multicastId.2.allocIf b.wifiAware

end MobileEngineBuilder

/-- The broadcast faces get their ids first. -/
theorem build_broadcast_lt (b : MobileEngineBuilder) (up : FaceId → Bool) :
    ∀ id ∈ (b.build up).broadcastIds, id < b.radioIds.2.nextId := by
  intro id hid
  rcases mem_broadcastIds.mp hid with ⟨hs, rfl⟩ | hw | hb
  · have hsome := (Forwarder.isSome_allocIf b.forwarder b.multicastIface.isSome).trans hs
    obtain ⟨i, hi⟩ := Option.isSome_iff_exists.mp hsome
    have hradio : b.multicastId.2.Allots b.radioIds.2 := .allocIf _
    show Option.getD (b.forwarder.allocIf _).1 0 < _
    rw [hi]
    exact Nat.lt_of_lt_of_le (Forwarder.allocIf_lt hi) hradio.le
  · exact Forwarder.allocIf_lt hw
  · cases hb

theorem allocIf_faces (fw : Forwarder) (wanted : Bool) :
    (fw.allocIf wanted).2.faces = fw.faces := by
  cases wanted <;> rfl

theorem reservePeers_faces (fw : Forwarder) (specs : List PeerSpec) :
    (reservePeers fw specs).2.faces = fw.faces := by
  induction specs generalizing fw with
  | nil => rfl
  | cons spec specs ih => exact ih fw.allocId

/-- The faces of a built engine: the in-process one, the configured ones that could be set up,
and the compute face. -/
theorem build_faces (b : MobileEngineBuilder) (up : FaceId → Bool) :
    ∃ l, (b.build up).forwarder.faces =
        ⟨1, .app, .shutdown, false⟩ :: ((b.build up).networkFaces up ++ l) ∧
      ∀ f ∈ l, f.token = .shutdown ∧ ∀ id ∈ (b.build up).broadcastIds, id < f.id := by
  let multicast := b.multicastId
  let radio := b.radioIds
  let fw1 := buildMulticast radio.2 b.multicastIface (multicast.1.getD 0) (.network 0) up
  let peers := reservePeers fw1 b.peerSpecs
  let fw2 := buildPeers (.network 0) up peers.2 peers.1
  let fw3 := buildRadio fw2 radio.1 .wifiAware (.network 0)
  have hstart : radio.2.faces = [⟨1, .app, .shutdown, false⟩] := by
    show ((b.forwarder.allocIf _).2.allocIf _).2.faces = _
    rw [allocIf_faces, allocIf_faces]
    rfl
  have hreserve : peers.2.faces = fw1.faces := reservePeers_faces fw1 b.peerSpecs
  have hnet : fw3.faces = ⟨1, .app, .shutdown, false⟩ :: (b.build up).networkFaces up := by
    show (buildRadio (buildPeers (.network 0) up peers.2 peers.1) radio.1 .wifiAware _).faces = _
    rw [buildRadio_eq, buildPeers_eq]
    show (peers.2.faces ++ _) ++ _ = _
    rw [hreserve]
    show ((buildMulticast radio.2 b.multicastIface _ _ up).faces ++ _) ++ _ = _
    rw [buildMulticast_eq]
    show (((radio.2.faces ++ _) ++ _) ++ _) = _
    rw [hstart]
    simp [networkFaces, MobileEngineBuilder.build, token, multicast, radio, peers, fw1,
      MobileEngineBuilder.multicastId, MobileEngineBuilder.radioIds]
  show ∃ l, (buildCompute fw3 b.computePrefix).faces = _ ∧ _
  cases hc : b.computePrefix with
  | none => exact ⟨[], by rw [List.append_nil]; exact hnet, nofun⟩
  | some p =>
    refine ⟨[⟨fw3.nextId, .compute, .shutdown, false⟩], ?_, fun f hf => ?_⟩
    · show fw3.faces ++ _ = _
      rw [hnet]
      rfl
    · rw [List.mem_singleton.mp hf]
      refine ⟨rfl, fun id hid => Nat.lt_of_lt_of_le (build_broadcast_lt b up id hid) ?_⟩
      have h1 : fw1.Allots peers.2 := .reservePeers _
      have h2 : peers.2.nextId ≤ fw3.nextId := by
        show _ ≤ (buildRadio (buildPeers _ up peers.2 peers.1) radio.1 .wifiAware _).nextId
        rw [buildRadio_eq, buildPeers_eq]
      have h3 : radio.2.nextId = fw1.nextId := by
        show _ = (buildMulticast radio.2 _ _ _ up).nextId
        rw [buildMulticast_eq]
      exact Nat.le_trans (Nat.le_of_eq h3) (Nat.le_trans h1.le h2)

/-! ## Ids of the configured faces -/

theorem reservePeers_le (fw : Forwarder) (specs : List PeerSpec) :
    ∀ x ∈ (reservePeers fw specs).1, fw.nextId ≤ x.1 := by
  induction specs generalizing fw with
  | nil => intro x hx; cases hx
  | cons spec specs ih =>
    intro x hx
    rcases List.mem_cons.mp hx with rfl | hx
    · exact Nat.le_refl _
    · have hle : fw.nextId + 1 ≤ x.1 := ih fw.allocId x hx
      exact Nat.le_of_succ_le hle

theorem reservePeers_nodup (fw : Forwarder) (specs : List PeerSpec) :
    ((reservePeers fw specs).1.map (·.1)).Nodup := by
  induction specs generalizing fw with
  | nil => exact List.nodup_nil
  | cons spec specs ih =>
    refine List.nodup_cons.mpr ⟨fun hm => ?_, ih fw.allocId⟩
    obtain ⟨x, hx, he⟩ := List.mem_map.mp hm
    have hle : fw.nextId + 1 ≤ x.1 := reservePeers_le fw.allocId specs x hx
    exact absurd he.symm (Nat.ne_of_lt hle)

/-- The broadcast faces get their ids before the peers. -/
theorem build_broadcast_lt_peers (b : MobileEngineBuilder) (up : FaceId → Bool) :
    ∀ id ∈ (b.build up).broadcastIds, ∀ x ∈ (b.build up).networkPeers, id < x.1 := by
  intro id hid x hx
  have hle := reservePeers_le (buildMulticast (b.radioIds.2) b.multicastIface
    (b.multicastId.1.getD 0) (.network 0) up) b.peerSpecs x hx
  rw [buildMulticast_eq] at hle
  exact Nat.lt_of_lt_of_le (build_broadcast_lt b up id hid) hle

/-! ## Setting up an engine -/

/-- What an app calls while it sets its engine up. -/
inductive SetUp where
  | routeToPeer (prefix' : Name) (peer : PeerRef) (cost : Nat)
  | routeToMulticast (prefix' : Name)
  | attachWifiAware
  | attachBle
  deriving DecidableEq, Repr

def setUp (e : MobileEngine) : SetUp → Option MobileEngine
  | .routeToPeer p peer cost => some (e.routeToPeer p peer cost)
  | .routeToMulticast p => some (e.routeToMulticast p).2
  | .attachWifiAware => some e.attachWifiAware
  | .attachBle => some e.attachBle

/-- **Invariant** of a set-up engine: every configured face is up under the current token, and
the faces that go with their routes when it is cancelled are the broadcast ones. -/
structure Mounted (e : MobileEngine) : Prop where
  ids : e.Ids
  up : ∀ f ∈ e.configured, f ∈ e.forwarder.faces
  persistent : ∀ f ∈ e.forwarder.faces, f.token = e.token → f.persistent = false →
    f.id ∈ e.broadcastIds
  disjoint : ∀ x ∈ e.networkPeers, x.1 ∉ e.broadcastIds

theorem mounted_build (b : MobileEngineBuilder) : Mounted (b.build fun _ => true) := by
  obtain ⟨l, hfaces, hl⟩ := build_faces b fun _ => true
  refine ⟨ids_build b _, fun f hf => ?_, fun f hf htok hpers => ?_, fun x hx hm => ?_⟩
  · rw [hfaces]
    exact List.mem_cons_of_mem _ (List.mem_append_left _ hf)
  · rw [hfaces] at hf
    rcases List.mem_cons.mp hf with rfl | hf
    · cases htok
    · rcases List.mem_append.mp hf with hf | hf
      · rcases mem_networkFaces.mp hf with ⟨hm, -, rfl⟩ | ⟨x, hx, -, rfl⟩ | ⟨id, hw, rfl⟩ |
          ⟨id, hb, rfl⟩
        · exact mem_broadcastIds.mpr (.inl ⟨hm, rfl⟩)
        · cases hpers
        · exact mem_broadcastIds.mpr (.inr (.inl hw))
        · exact mem_broadcastIds.mpr (.inr (.inr hb))
      · rw [(hl f hf).1] at htok
        cases htok
  · exact absurd (build_broadcast_lt_peers b _ x.1 hm x hx) (Nat.lt_irrefl _)

/-- Only routes changed. -/
theorem Mounted.route {p : Name} {id : FaceId} {cost : Nat} (h : Mounted e) :
    Mounted { e with forwarder := e.forwarder.addNexthop p id cost } :=
  ⟨⟨h.ids.faces, h.ids.stable, h.ids.supervised⟩, h.up, h.persistent, h.disjoint⟩

/-- Attaching a radio adds its face at its id, new or not, and a route to it. -/
theorem Mounted.attach {e' : MobileEngine} {f : Face} (h : Mounted e) (hids : e'.Ids)
    (hfaces : e'.forwarder.faces = e.forwarder.faces ++ [f]) (htok : e'.token = e.token)
    (hpeers : e'.networkPeers = e.networkPeers)
    (hconf : ∀ g, g ∈ e'.configured → g ∈ e.configured ∨ g = f)
    (hbroad : ∀ id, id ∈ e'.broadcastIds ↔ id ∈ e.broadcastIds ∨ id = f.id)
    (hnew : f.id ∈ e.broadcastIds ∨ e.forwarder.nextId ≤ f.id) : Mounted e' := by
  refine ⟨hids, fun g hg => ?_, fun g hg ht hp => ?_, fun x hx hm => ?_⟩
  · rw [hfaces]
    rcases hconf g hg with hg | rfl
    · exact List.mem_append_left _ (h.up g hg)
    · exact List.mem_append_right _ (List.mem_singleton_self _)
  · rw [hfaces] at hg
    rw [hbroad]
    rcases List.mem_append.mp hg with hg | hg
    · exact .inl (h.persistent g hg (htok ▸ ht) hp)
    · exact .inr (congrArg Face.id (List.mem_singleton.mp hg))
  · rw [hpeers] at hx
    rcases (hbroad x.1).mp hm with hm | he
    · exact h.disjoint x hx hm
    · rcases hnew with hb | hlt
      · exact h.disjoint x hx (he ▸ hb)
      · have hx' := h.ids.stable x.1 (mem_stableIds.mpr (.inr (.inl ⟨x, hx, rfl⟩)))
        exact absurd (Nat.lt_of_lt_of_le hx' hlt) (he ▸ Nat.lt_irrefl _)

/-- The stable id of a radio, the old one or a new one. -/
theorem some_getD_iff {old : Option FaceId} {new id : FaceId} :
    some (old.getD new) = some id ↔ old = some id ∨ id = old.getD new := by
  have hnew : some (old.getD new) = some id ↔ id = old.getD new :=
    ⟨fun h => (Option.some.inj h).symm, fun h => congrArg some h.symm⟩
  cases old with
  | none => exact hnew.trans ⟨.inr, fun h => h.resolve_left nofun⟩
  | some i => exact ⟨.inl, fun h => h.elim (fun hi => hi) hnew.mpr⟩

theorem mounted_attachWifiAware (h : Mounted e) : Mounted e.attachWifiAware := by
  have hfaces : e.attachWifiAware.forwarder.faces = e.forwarder.faces ++
      [⟨e.wifiAware.getD e.forwarder.nextId, .wifiAware, e.token, false⟩] := by
    unfold attachWifiAware Forwarder.mountRadio
    cases e.wifiAware <;> rfl
  refine h.attach (ids_attachWifiAware h.ids) hfaces rfl rfl (fun g hg => ?_) (fun id => ?_) ?_
  · rcases mem_networkFaces.mp hg with hm | hp | ⟨id, hw, rfl⟩ | hb
    · exact .inl (mem_networkFaces.mpr (.inl hm))
    · exact .inl (mem_networkFaces.mpr (.inr (.inl hp)))
    · exact .inr (by rw [← Option.some.inj hw]; rfl)
    · exact .inl (mem_networkFaces.mpr (.inr (.inr (.inr hb))))
  · have hid : e.attachWifiAware.wifiAware = some id ↔ _ := some_getD_iff
    rw [mem_broadcastIds, mem_broadcastIds, hid]
    tauto
  · cases hw : e.wifiAware with
    | none => exact .inr (Nat.le_refl _)
    | some i => exact .inl (mem_broadcastIds.mpr (.inr (.inl hw)))

theorem mounted_attachBle (h : Mounted e) : Mounted e.attachBle := by
  have hfaces : e.attachBle.forwarder.faces = e.forwarder.faces ++
      [⟨e.ble.getD e.forwarder.nextId, .bluetooth, e.token, false⟩] := by
    unfold attachBle Forwarder.mountRadio
    cases e.ble <;> rfl
  refine h.attach (ids_attachBle h.ids) hfaces rfl rfl (fun g hg => ?_) (fun id => ?_) ?_
  · rcases mem_networkFaces.mp hg with hm | hp | hw | ⟨id, hb, rfl⟩
    · exact .inl (mem_networkFaces.mpr (.inl hm))
    · exact .inl (mem_networkFaces.mpr (.inr (.inl hp)))
    · exact .inl (mem_networkFaces.mpr (.inr (.inr (.inl hw))))
    · exact .inr (by rw [← Option.some.inj hb]; rfl)
  · have hid : e.attachBle.ble = some id ↔ _ := some_getD_iff
    rw [mem_broadcastIds, mem_broadcastIds, hid]
    tauto
  · cases hb : e.ble with
    | none => exact .inr (Nat.le_refl _)
    | some i => exact .inl (mem_broadcastIds.mpr (.inr (.inr hb)))

theorem mounted_setUp {e' : MobileEngine} {c : SetUp} (h : Mounted e) (hs : setUp e c = some e') :
    Mounted e' := by
  cases c with
  | routeToPeer p peer cost =>
    cases hs
    exact h.route
  | routeToMulticast p =>
    cases hs
    unfold routeToMulticast
    split
    · exact h
    · exact h.route
  | attachWifiAware =>
    cases hs
    exact mounted_attachWifiAware h
  | attachBle =>
    cases hs
    exact mounted_attachBle h

/-! ## What comes back -/

/-- Every configured face is up in `r` at its id, and every route to one is still there. -/
structure Restored (e r : MobileEngine) : Prop where
  live : ∀ f ∈ e.configured, ∃ g ∈ r.forwarder.faces, g.id = f.id ∧ g.kind = f.kind ∧
    g.token = r.token
  routed : ∀ p, ∀ nh ∈ e.forwarder.fib p, (∃ f ∈ e.configured, f.id = nh.faceId) →
    nh ∈ r.forwarder.fib p

/-- The routes left after a suspend and a resume. -/
theorem mem_fib_resume (e : MobileEngine) (p : Name) (nh : Nexthop) :
    nh ∈ (e.suspendNetworkFaces.resumeNetworkFaces up).forwarder.fib p ↔
      nh ∈ e.forwarder.fib p ∧ ¬ ∃ f ∈ e.forwarder.faces, f.id = nh.faceId ∧ f.token = e.token ∧
        f.persistent = false := by
  rw [resume_forwarder]
  unfold suspendNetworkFaces Forwarder.cancel Forwarder.dropNexthops
  simp only [List.mem_filter, Bool.not_eq_true', List.any_eq_false, Bool.and_eq_true, beq_iff_eq,
    not_exists, not_and, Bool.not_eq_false, and_imp]

/-- The configured faces come back under the new token. -/
theorem live_resume (e : MobileEngine) : ∀ f ∈ e.configured,
    ∃ g ∈ (e.suspendNetworkFaces.resumeNetworkFaces fun _ => true).forwarder.faces,
      g.id = f.id ∧ g.kind = f.kind ∧
        g.token = (e.suspendNetworkFaces.resumeNetworkFaces fun _ => true).token := by
  intro f hf
  rw [resume_forwarder]
  refine ⟨{ f with token := e.suspendNetworkFaces.token }, ?_, rfl, rfl, rfl⟩
  refine List.mem_append_right _ (mem_networkFaces.mpr ?_)
  rcases mem_networkFaces.mp hf with ⟨hm, hu, rfl⟩ | ⟨x, hx, hu, rfl⟩ | ⟨id, hw, rfl⟩ |
    ⟨id, hb, rfl⟩
  · exact .inl ⟨hm, hu, rfl⟩
  · exact .inr (.inl ⟨x, hx, hu, rfl⟩)
  · exact .inr (.inr (.inl ⟨id, hw, rfl⟩))
  · exact .inr (.inr (.inr ⟨id, hb, rfl⟩))

theorem Mounted.restores_iff (h : Mounted e) :
    Restored e (e.suspendNetworkFaces.resumeNetworkFaces fun _ => true) ↔
      ∀ p, ∀ nh ∈ e.forwarder.fib p, nh.faceId ∉ e.broadcastIds := by
  constructor
  · intro hr p nh hnh hb
    obtain ⟨f, hf, hid, htok, hpers⟩ := mem_configured_of_broadcast hb
    have hkept := (mem_fib_resume e p nh).mp (hr.routed p nh hnh ⟨f, hf, hid⟩)
    exact hkept.2 ⟨f, h.up f hf, hid, htok, hpers⟩
  · intro hroutes
    refine ⟨live_resume e, fun p nh hnh _ => (mem_fib_resume e p nh).mpr ⟨hnh, ?_⟩⟩
    rintro ⟨f, hf, hid, htok, hpers⟩
    exact hroutes p nh hnh (hid ▸ h.persistent f hf htok hpers)

/-- **Suspend, then resume.** A set-up engine gets every configured face back at its id, and
every route to one is still installed, exactly when no route points at the multicast face or
a radio. -/
theorem restored_iff (b : MobileEngineBuilder) {tr : List (Trans MobileEngine SetUp)}
    (hrun : Run (stepRel setUp) (b.build fun _ => true) tr e) :
    Restored e (e.suspendNetworkFaces.resumeNetworkFaces fun _ => true) ↔
      ∀ p, ∀ nh ∈ e.forwarder.fib p, nh.faceId ∉ e.broadcastIds := by
  have h := (hrun.inv (I := Mounted) (fun hi hs => mounted_setUp hi hs) (mounted_build b)).1
  exact h.restores_iff

/-- A node on one interface, with one gateway. -/
def gatewayNode : MobileEngineBuilder where
  strategy := .bestRoute
  multicastIface := some "192.168.1.7"
  unicastPeers := []
  tcpPeers := ["10.0.0.1:6363"]
  wsPeers := []
  serialPorts := []
  webtransportPeers := []
  wifiAware := false
  computePrefix := none
  linkProfile _ := 10

/-- The gateway's face, after the multicast one. -/
def gateway : PeerRef := ⟨3, "tcp4://10.0.0.1:6363"⟩

/-- A route to the gateway comes back. -/
theorem restored_iff_gatewayNode : ∃ tr e,
    Run (stepRel setUp) (gatewayNode.build fun _ => true) tr e ∧ gateway ∈ e.peers ∧
      Restored e (e.suspendNetworkFaces.resumeNetworkFaces fun _ => true) := by
  have hstep : setUp (gatewayNode.build fun _ => true) (.routeToPeer [] gateway 0) =
      some ((gatewayNode.build fun _ => true).routeToPeer [] gateway 0) := rfl
  have hrun : Run (stepRel setUp) (gatewayNode.build fun _ => true) _ _ := .cons hstep (.nil _)
  refine ⟨_, _, hrun, by decide, (restored_iff gatewayNode hrun).mpr fun p nh hnh => ?_⟩
  by_cases hp : p = []
  · subst hp
    have hnh' : nh ∈ [(⟨3, 0⟩ : Nexthop)] := hnh
    rw [List.mem_singleton.mp hnh']
    decide
  · have hnil : nh ∈ ([] : List Nexthop) := by
      have hfib : ((gatewayNode.build fun _ => true).routeToPeer [] gateway 0).forwarder.fib p =
          [] := Function.update_of_ne hp _ _
      exact hfib ▸ hnh
    cases hnil

/-- A default route to the multicast group is lost. -/
theorem restored_fails : ¬ ∀ (b : MobileEngineBuilder) (tr : List (Trans MobileEngine SetUp))
    (e : MobileEngine), Run (stepRel setUp) (b.build fun _ => true) tr e →
      Restored e (e.suspendNetworkFaces.resumeNetworkFaces fun _ => true) := by
  intro h
  have hstep : setUp (gatewayNode.build fun _ => true) (.routeToMulticast []) =
      some ((gatewayNode.build fun _ => true).routeToMulticast []).2 := rfl
  have hr := h gatewayNode _ _ (.cons hstep (.nil _))
  have hlost := hr.routed [] ⟨2, 0⟩ (by decide) ⟨⟨2, .multicast, .network 0, false⟩, by decide, rfl⟩
  revert hlost
  decide

end NdnMobile.Engine
