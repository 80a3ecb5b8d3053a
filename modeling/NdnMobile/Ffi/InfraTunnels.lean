import NdnMobile.Ffi.NotePeer

/-!
# One infra tunnel per peer

`infra_peers` reserves a peer before its same-AP bulk face is raised, so that its beacons
attach at most one. A change of the node's own address, and a new socket, clear the
reservations but leave the faces up. Runs of the calls involved, with a record of the faces
raised for each peer and of those that are older than the last clearing: a peer has at most
one tunnel exactly as long as no beacon raises one beside an older one (`oneTunnel_iff`).
-/

namespace NdnMobile.Ffi

open NdnMobile.Lib NdnMobile.Packet NdnMobile.Engine

namespace NdnEngine

variable (P : Parsers) (e : NdnEngine)

def detachNdpFace (id : FaceId) : NdnEngine :=
  { e with inner := e.inner.map fun engine => engine.detachNdpFace id }

/-- The `InfraTunnel` faces that are up. -/
def tunnels : List FaceId :=
  e.inner.elim [] fun m =>
    (m.forwarder.faces.filter fun f => f.kind == .infraTunnel).map fun f => f.id

/-- The face id to be handed out next. -/
def nextFace : FaceId := e.inner.elim 0 fun m => m.forwarder.nextId

/-- The beacon finds a socket armed for it, which the operating system lets the engine adopt. -/
def Raises (b : Beacon) (os : MobileEngine.Os) : Prop :=
  b.id ≠ "" ∧ P.name (peerNodePrefix b.id) ≠ none ∧ e.inner.isSome = true ∧
    (∃ peerIp, b.infra = some peerIp ∧ e.armed P b.id peerIp ≠ none) ∧ os.adopt = .ok ()

end NdnEngine

/-- The engine, the tunnels that beacons raised, with their peers, and those of them raised
before the reservations were last cleared. -/
structure Tunnels where
  engine : NdnEngine
  raised : List (String × FaceId)
  older : List (String × FaceId)

inductive TunnelCall where
  | setInfraAddr (ipv4 : String)
  | setInfraSocket (fd : Fd)
  | notePeer (b : Beacon) (now : Instant) (os : MobileEngine.Os)
  | detachNdpFace (id : FaceId)
  | startDiscovery (nodeId label : String)

namespace Tunnels

variable (P : Parsers) (w : Tunnels)

/-- A built engine with its radios. -/
def start (b : MobileEngineBuilder) (up : FaceId → Bool) (radios : List Radio) : Tunnels :=
  ⟨.new (World.start b up radios).engine, [], []⟩

/-- The record of a beacon: the tunnels that were not up before it. -/
def record (id : String) (e : NdnEngine) : Tunnels where
  engine := e
  raised := w.raised ++ (e.tunnels.filter fun f => f ∉ w.engine.tunnels).map fun f => (id, f)
  older := w.older

def step : TunnelCall → Option Tunnels
  | .setInfraAddr ipv4 =>
    let e := w.engine.setInfraAddr ipv4
    let changed := e.localInfraAddr ≠ w.engine.localInfraAddr
    some { w with engine := e, older := if changed then w.raised else w.older }
  | .setInfraSocket fd =>
    some { w with engine := w.engine.setInfraSocket fd, older := w.raised }
  | .notePeer b now os => some (w.record b.id (w.engine.notePeer P b now os))
  | .detachNdpFace id => some { w with engine := w.engine.detachNdpFace id }
  | .startDiscovery nodeId label =>
    some { w with engine := w.engine.startDiscovery nodeId label }

/-- At most one live tunnel was raised for each peer. -/
def OneTunnel : Prop :=
  ∀ id f g, (id, f) ∈ w.raised → (id, g) ∈ w.raised →
    f ∈ w.engine.tunnels → g ∈ w.engine.tunnels → f = g

end Tunnels

/-- A peer is reserved by a step only together with a tunnel that the step raises for it. -/
def ReservesUp (x : Trans Tunnels TunnelCall) : Prop :=
  ∀ id ∈ x.post.engine.infraPeers, id ∉ x.pre.engine.infraPeers →
    ∃ f ∈ x.post.engine.tunnels, (id, f) ∈ x.post.raised ∧ (id, f) ∉ x.pre.raised

/-- A beacon raises no tunnel while one of the peer that is older than the last clearing of the
reservations is up. -/
def TunnelCall.SparesOlder (P : Parsers) (w : Tunnels) : TunnelCall → Prop
  | .notePeer b _ os => w.engine.Raises P b os → ∀ f ∈ w.engine.tunnels, (b.id, f) ∉ w.older
  | _ => True

/-- No tunnel that is older than the last clearing is up. -/
def Tunnels.noneOlder (w : Tunnels) : Bool :=
  w.engine.tunnels.all fun f => w.older.all fun x => x.2 ≠ f

variable {P : Parsers} {e : NdnEngine} {b : Beacon} {os : MobileEngine.Os} {now : Instant}
  {w t : Tunnels} {c : TunnelCall} {m : MobileEngine} {p : Name}

theorem sparesOlder_of_noneOlder (h : w.noneOlder = true) (c : TunnelCall) :
    c.SparesOlder P w := by
  cases c with
  | notePeer b now os =>
    intro _ f hf hold
    exact of_decide_eq_true (List.all_eq_true.mp (List.all_eq_true.mp h f hf) _ hold) rfl
  | _ => trivial

/-! ## What a call does to the tunnels -/

/-- No tunnel is raised and no peer reserved. -/
structure Unraised (e e' : NdnEngine) : Prop where
  tunnels : e'.tunnels = e.tunnels
  nextFace : e.nextFace ≤ e'.nextFace
  infraPeers : e'.infraPeers = e.infraPeers

/-- A tunnel is raised for a peer that was not reserved, and is now. -/
structure Raised (id : String) (e e' : NdnEngine) : Prop where
  tunnels : e'.tunnels = e.tunnels ++ [e.nextFace]
  nextFace : e'.nextFace = e.nextFace + 1
  infraPeers : e'.infraPeers = insert id e.infraPeers
  unreserved : id ∉ e.infraPeers

theorem Unraised.refl (e : NdnEngine) : Unraised e e := ⟨rfl, Nat.le_refl _, rfl⟩

theorem notePeerRoute_faces (m : MobileEngine) (p : Name) (face : String) :
    (m.notePeerRoute p face).forwarder.faces = m.forwarder.faces ∧
    (m.notePeerRoute p face).forwarder.nextId = m.forwarder.nextId := by
  cases h : radioOf m face with
  | none =>
    rw [notePeerRoute_none h]
    exact ⟨rfl, rfl⟩
  | some x =>
    rw [notePeerRoute_some h]
    dsimp only
    split <;> exact ⟨rfl, rfl⟩

/-- The table and the route of a beacon raise nothing. -/
theorem unraised_route (hm : e.inner = some m) (d : Option DiscoveryState) (face : String) :
    Unraised e { e with discovery := d, inner := some (m.notePeerRoute p face) } := by
  obtain ⟨hf, hn⟩ := notePeerRoute_faces m p face
  refine ⟨?_, ?_, rfl⟩
  · unfold NdnEngine.tunnels
    rw [hm, Option.elim_some, Option.elim_some, hf]
  · unfold NdnEngine.nextFace
    rw [hm, Option.elim_some, Option.elim_some, hn]

theorem unraised_error {err : MobileEngine.IoError} (hm : e.inner = some m)
    (h : os.adopt = .error err) (fds : Descriptors) (held : Option Fd) :
    Unraised e { e with
      inner := some (m.attachInfraTunnelFd p os).2, infraSocketFd := held, fds := fds } := by
  have hr : (m.attachInfraTunnelFd p os).2 = m.allocId := by
    unfold MobileEngine.attachInfraTunnelFd MobileEngine.attachUdpBulkFace
    rw [h]
  refine ⟨?_, ?_, rfl⟩
  · unfold NdnEngine.tunnels
    rw [hm, hr]
    rfl
  · unfold NdnEngine.nextFace
    rw [hm, hr]
    exact Nat.le_succ _

theorem raised_ok {id : String} (hm : e.inner = some m) (h : os.adopt = .ok ())
    (hid : id ∉ e.infraPeers) (fds : Descriptors) (held : Option Fd) :
    Raised id e { e with
      inner := some (m.attachInfraTunnelFd p os).2
      infraPeers := insert id e.infraPeers, infraSocketFd := held, fds := fds } := by
  have hr : (m.attachInfraTunnelFd p os).2 =
      m.allocId.mountBulk p .infraTunnel m.forwarder.nextId := by
    unfold MobileEngine.attachInfraTunnelFd MobileEngine.attachUdpBulkFace
    rw [h]
  refine ⟨?_, ?_, rfl, hid⟩
  · unfold NdnEngine.tunnels NdnEngine.nextFace
    rw [hm, hr]
    simp [MobileEngine.mountBulk, MobileEngine.allocId]
  · unfold NdnEngine.nextFace
    rw [hm, hr]
    rfl

/-- **What a beacon does**: it raises a tunnel and reserves its peer, or does neither. -/
theorem notePeer_raised (e : NdnEngine) (now : Instant) (h : e.Raises P b os) :
    Raised b.id e (e.notePeer P b now os) := by
  obtain ⟨hid, hname, hinner, ⟨peerIp, hip, ha⟩, hos⟩ := h
  obtain ⟨p, hp⟩ := Option.ne_none_iff_exists'.mp hname
  obtain ⟨m, hm⟩ := Option.isSome_iff_exists.mp hinner
  obtain ⟨fd, ha⟩ := Option.ne_none_iff_exists'.mp ha
  have hres := (infraSocketFd_of_armed ha).2
  have hok : (((m.notePeerRoute p b.face).attachInfraTunnelFd p os).1).isOk = true := by
    unfold MobileEngine.attachInfraTunnelFd MobileEngine.attachUdpBulkFace
    rw [hos]
    rfl
  unfold NdnEngine.notePeer
  rw [if_neg hid, NdnEngine.routePeer, hp, hm]
  dsimp only
  rw [hip]
  dsimp only
  rw [maybeAttachInfraTunnel_some (by exact ha), if_pos hok]
  -- the route comes first, and moves no face
  have hroute := unraised_route (e := e) (p := p) hm
    (e.discovery.map fun s : DiscoveryState => s.notePeer b now) b.face
  have hnext := (notePeerRoute_faces m p b.face).2
  have hraised := raised_ok (e := { e with
      discovery := e.discovery.map fun s : DiscoveryState => s.notePeer b now
      inner := some (m.notePeerRoute p b.face) }) (p := p) rfl hos hres
    (e.fds.bulk fd ((m.notePeerRoute p b.face).attachInfraTunnelFd p os).1) none
  have hn : e.nextFace = (m.notePeerRoute p b.face).forwarder.nextId := by
    unfold NdnEngine.nextFace
    rw [hm, hnext]
    rfl
  refine ⟨?_, ?_, rfl, hres⟩
  · rw [hn, ← hroute.tunnels]
    exact hraised.tunnels
  · rw [hn]
    exact hraised.nextFace

theorem Unraised.trans {e₁ e₂ : NdnEngine} (h₁ : Unraised e e₁) (h₂ : Unraised e₁ e₂) :
    Unraised e e₂ :=
  ⟨h₂.tunnels.trans h₁.tunnels, Nat.le_trans h₁.nextFace h₂.nextFace,
    h₂.infraPeers.trans h₁.infraPeers⟩

/-- An attach that fails takes the reservation back, and so does one without a socket. -/
theorem notePeer_unraised (e : NdnEngine) (now : Instant) (h : ¬ e.Raises P b os) :
    Unraised e (e.notePeer P b now os) := by
  unfold NdnEngine.notePeer
  by_cases hid : b.id = ""
  · rw [if_pos hid]
    exact .refl e
  rw [if_neg hid, NdnEngine.routePeer]
  cases hp : P.name (peerNodePrefix b.id) with
  | none => exact ⟨rfl, Nat.le_refl _, rfl⟩
  | some p =>
    cases hm : e.inner with
    | none =>
      refine ⟨?_, Nat.le_of_eq ?_, rfl⟩
      · unfold NdnEngine.tunnels
        rw [hm]
      · unfold NdnEngine.nextFace
        rw [hm]
    | some m =>
      have hroute := unraised_route (e := e) (p := p) hm
        (e.discovery.map fun s : DiscoveryState => s.notePeer b now) b.face
      dsimp only
      cases hi : b.infra with
      | none => exact hroute
      | some peerIp =>
        dsimp only
        cases ha : e.armed P b.id peerIp with
        | none =>
          rw [maybeAttachInfraTunnel_none (by exact ha)]
          exact hroute
        | some fd =>
          cases hos : os.adopt with
          | ok _ =>
            have hname : P.name (peerNodePrefix b.id) ≠ none := hp ▸ Option.some_ne_none p
            have harmed : e.armed P b.id peerIp ≠ none := ha ▸ Option.some_ne_none fd
            exact absurd ⟨hid, hname, by rw [hm]; rfl, ⟨peerIp, hi, harmed⟩, hos⟩ h
          | error err =>
            have herr : (((m.notePeerRoute p b.face).attachInfraTunnelFd p os).1).isOk =
                false := by
              unfold MobileEngine.attachInfraTunnelFd MobileEngine.attachUdpBulkFace
              rw [hos]
              rfl
            rw [maybeAttachInfraTunnel_some (by exact ha), if_neg (ne_true_of_eq_false herr)]
            exact hroute.trans (unraised_error (e := { e with
              discovery := e.discovery.map fun s : DiscoveryState => s.notePeer b now
              inner := some (m.notePeerRoute p b.face) }) rfl hos _ _)

theorem mem_tunnels_detach {f id : FaceId} :
    f ∈ (e.detachNdpFace id).tunnels ↔ f ∈ e.tunnels ∧ f ≠ id := by
  unfold NdnEngine.tunnels NdnEngine.detachNdpFace
  cases e.inner with
  | none => simp
  | some m =>
    simp only [Option.map_some, Option.elim_some, MobileEngine.detachNdpFace,
      Forwarder.faces_removeFace, List.mem_map, List.mem_filter]
    constructor
    · rintro ⟨g, ⟨⟨hg, hne⟩, hk⟩, rfl⟩
      exact ⟨⟨g, ⟨hg, hk⟩, rfl⟩, by simpa using hne⟩
    · rintro ⟨⟨g, ⟨hg, hk⟩, rfl⟩, hne⟩
      exact ⟨g, ⟨⟨hg, by simpa using hne⟩, hk⟩, rfl⟩

theorem nextFace_detach {id : FaceId} : (e.detachNdpFace id).nextFace = e.nextFace := by
  unfold NdnEngine.nextFace NdnEngine.detachNdpFace
  cases e.inner <;> rfl

/-! ## Runs -/

/-- What a call can do: end a tunnel, clear the reservations, raise a tunnel, or none of it. -/
inductive TunnelMove (P : Parsers) (w : Tunnels) : TunnelCall → Tunnels → Prop where
  | quiet {c : TunnelCall} {e : NdnEngine} : c.SparesOlder P w → Unraised w.engine e →
    TunnelMove P w c { w with engine := e }
  | detach (id : FaceId) :
    TunnelMove P w (.detachNdpFace id) { w with engine := w.engine.detachNdpFace id }
  | clear {c : TunnelCall} {e : NdnEngine} : c.SparesOlder P w →
    e.tunnels = w.engine.tunnels → e.nextFace = w.engine.nextFace → e.infraPeers = ∅ →
    TunnelMove P w c { w with engine := e, older := w.raised }
  | raise {b : Beacon} {now : Instant} {os : MobileEngine.Os} {e : NdnEngine} :
    w.engine.Raises P b os → Raised b.id w.engine e →
    TunnelMove P w (.notePeer b now os) (w.record b.id e)

theorem step_tunnelMove (h : w.step P c = some t) : TunnelMove P w c t := by
  cases c with
  | setInfraAddr ipv4 =>
    cases h
    unfold NdnEngine.setInfraAddr
    dsimp only
    by_cases hsame : w.engine.localInfraAddr = if ipv4 = "" then none else some ipv4
    · rw [if_pos hsame, if_neg (not_not_intro rfl)]
      exact .quiet trivial (.refl _)
    · rw [if_neg hsame, if_pos (Ne.symm hsame)]
      exact .clear trivial rfl rfl rfl
  | setInfraSocket fd =>
    cases h
    exact .clear trivial rfl rfl rfl
  | notePeer b now os =>
    cases h
    by_cases hr : w.engine.Raises P b os
    · exact .raise hr (notePeer_raised _ now hr)
    · have hu := notePeer_unraised w.engine now hr
      have hrec : w.record b.id (w.engine.notePeer P b now os) =
          { w with engine := w.engine.notePeer P b now os } := by
        unfold Tunnels.record
        rw [hu.tunnels, List.filter_eq_nil_iff.mpr fun f hf => by simpa using hf]
        simp
      rw [hrec]
      exact .quiet (fun h => absurd h hr) hu
  | detachNdpFace id =>
    cases h
    exact .detach id
  | startDiscovery nodeId label =>
    cases h
    exact .quiet trivial ⟨rfl, Nat.le_refl _, rfl⟩

/-- **Invariant**: ids are not handed out twice, and a peer with a live tunnel is reserved unless
the tunnel is older than the last clearing. -/
structure Reserved (w : Tunnels) : Prop where
  up : ∀ f ∈ w.engine.tunnels, f < w.engine.nextFace
  raised : ∀ x ∈ w.raised, x.2 < w.engine.nextFace
  older : ∀ x ∈ w.older, x ∈ w.raised
  reserved : ∀ x ∈ w.raised, x.2 ∈ w.engine.tunnels → x ∈ w.older ∨ x.1 ∈ w.engine.infraPeers
  one : w.OneTunnel

/-- The record of a tunnel raised is its peer with a new id. -/
theorem raised_record (h : Reserved w) {id : String} (hr : Raised id w.engine e) :
    (w.record id e).raised = w.raised ++ [(id, w.engine.nextFace)] := by
  have hnew : w.engine.nextFace ∉ w.engine.tunnels := fun hm => Nat.lt_irrefl _ (h.up _ hm)
  unfold Tunnels.record
  rw [hr.tunnels, List.filter_append, List.filter_eq_nil_iff.mpr fun f hf => by simpa using hf]
  simp [hnew]

theorem mem_raised_record (h : Reserved w) {id : String} (hr : Raised id w.engine e) :
    (id, w.engine.nextFace) ∈ (w.record id e).raised := by
  rw [raised_record h hr]
  exact List.mem_concat_self

theorem Raised.up {id : String} {e' : NdnEngine} (h : Raised id e e') :
    e.nextFace ∈ e'.tunnels := by
  rw [h.tunnels]
  exact List.mem_concat_self

theorem reserved_raise (h : Reserved w) {id : String} (hr : Raised id w.engine e)
    (hc : ∀ f ∈ w.engine.tunnels, (id, f) ∉ w.older) : Reserved (w.record id e) := by
  have hrec := raised_record h hr
  have hmem : ∀ f, f ∈ (w.record id e).engine.tunnels ↔
      f ∈ w.engine.tunnels ∨ f = w.engine.nextFace := fun f => by
    show f ∈ e.tunnels ↔ _
    rw [hr.tunnels, List.mem_append, List.mem_singleton]
  have hnext : (w.record id e).engine.nextFace = w.engine.nextFace + 1 := hr.nextFace
  have hpeers : (w.record id e).engine.infraPeers = insert id w.engine.infraPeers :=
    hr.infraPeers
  -- a live tunnel of the peer is the new one: an earlier one would be old, or its reservation
  have hlive : ∀ f, (id, f) ∈ w.raised → f ∉ w.engine.tunnels := by
    intro f hm hf
    rcases h.reserved _ hm hf with ho | hp
    · exact hc f hf ho
    · exact hr.unreserved hp
  -- and a tunnel raised before, if it is up, was up before
  have hup : ∀ x ∈ w.raised, x.2 ∈ (w.record id e).engine.tunnels → x.2 ∈ w.engine.tunnels := by
    intro x hx hf
    rcases (hmem _).mp hf with hf | hf
    · exact hf
    · exact absurd hf (Nat.ne_of_lt (h.raised x hx))
  refine ⟨fun f hf => ?_, fun x hx => ?_, fun x hx => ?_, fun x hx hf => ?_,
    fun q f g hf hg hfu hgu => ?_⟩
  · rw [hnext]
    rcases (hmem f).mp hf with hf | rfl
    · exact Nat.lt_succ_of_lt (h.up f hf)
    · exact Nat.lt_succ_self _
  · rw [hnext]
    rw [hrec] at hx
    rcases List.mem_append.mp hx with hx | hx
    · exact Nat.lt_succ_of_lt (h.raised x hx)
    · rw [List.mem_singleton.mp hx]
      exact Nat.lt_succ_self _
  · rw [hrec]
    exact List.mem_append_left _ (h.older x hx)
  · rw [hpeers]
    rw [hrec] at hx
    rcases List.mem_append.mp hx with hx | hx
    · exact (h.reserved x hx (hup x hx hf)).imp_right (Finset.mem_insert_of_mem ·)
    · rw [List.mem_singleton.mp hx]
      exact .inr (Finset.mem_insert_self _ _)
  · rw [hrec] at hf hg
    rcases List.mem_append.mp hf with hf | hf <;> rcases List.mem_append.mp hg with hg | hg
    · exact h.one q f g hf hg (hup _ hf hfu) (hup _ hg hgu)
    · cases List.mem_singleton.mp hg
      exact absurd (hup _ hf hfu) (hlive f hf)
    · cases List.mem_singleton.mp hf
      exact absurd (hup _ hg hgu) (hlive g hg)
    · cases List.mem_singleton.mp hf
      cases List.mem_singleton.mp hg
      rfl

theorem reserved_move (h : Reserved w) (hc : c.SparesOlder P w) (hm : TunnelMove P w c t) :
    Reserved t := by
  cases hm with
  | @quiet _ e _ hu =>
    refine ⟨fun f hf => ?_, fun x hx => ?_, h.older, fun x hx hf => ?_,
      fun q f g hf hg hfu hgu => ?_⟩
    · exact Nat.lt_of_lt_of_le (h.up f (hu.tunnels ▸ hf)) hu.nextFace
    · exact Nat.lt_of_lt_of_le (h.raised x hx) hu.nextFace
    · rw [hu.infraPeers]
      exact h.reserved x hx (hu.tunnels ▸ hf)
    · exact h.one q f g hf hg (hu.tunnels ▸ hfu) (hu.tunnels ▸ hgu)
  | detach id =>
    refine ⟨fun f hf => ?_, fun x hx => ?_, h.older, fun x hx hf => ?_,
      fun q f g hf hg hfu hgu => ?_⟩
    · rw [nextFace_detach]
      exact h.up f (mem_tunnels_detach.mp hf).1
    · rw [nextFace_detach]
      exact h.raised x hx
    · exact h.reserved x hx (mem_tunnels_detach.mp hf).1
    · exact h.one q f g hf hg (mem_tunnels_detach.mp hfu).1 (mem_tunnels_detach.mp hgu).1
  | @clear _ e _ ht hn hp =>
    refine ⟨fun f hf => ?_, fun x hx => ?_, fun _ hx => hx, fun x hx _ => .inl hx,
      fun q f g hf hg hfu hgu => ?_⟩
    · rw [hn]
      exact h.up f (ht ▸ hf)
    · rw [hn]
      exact h.raised x hx
    · exact h.one q f g hf hg (ht ▸ hfu) (ht ▸ hgu)
  | raise hr hraised => exact reserved_raise h hraised (hc hr)

/-- A step that leaves every peer one tunnel raised none beside an older one. -/
theorem sparesOlder_of_one (h : Reserved w) (hm : TunnelMove P w c t) (ht : t.OneTunnel) :
    c.SparesOlder P w := by
  cases hm with
  | quiet hc => exact hc
  | detach id => trivial
  | clear hc => exact hc
  | @raise b now os e hr hraised =>
    intro _ f hf ho
    have hold : (b.id, f) ∈ (w.record b.id e).raised := by
      rw [raised_record h hraised]
      exact List.mem_append_left _ (h.older _ ho)
    have hup : f ∈ e.tunnels := by
      rw [hraised.tunnels]
      exact List.mem_append_left _ hf
    have heq : f = w.engine.nextFace :=
      ht b.id f w.engine.nextFace hold (mem_raised_record h hraised) hup hraised.up
    exact Nat.ne_of_lt (h.up f hf) heq

/-- Failed attaches and beacons that find no socket leave no reservation. -/
theorem reservesUp_move (h : Reserved w) (hm : TunnelMove P w c t) : ReservesUp ⟨w, c, t⟩ := by
  intro id hid hnot
  cases hm with
  | quiet _ hu => exact absurd (hu.infraPeers ▸ hid) hnot
  | detach _ => exact absurd hid hnot
  | clear _ _ _ hp =>
    dsimp only at hid
    rw [hp] at hid
    exact absurd hid (Finset.notMem_empty id)
  | @raise b now os e hr hraised =>
    have hid : id ∈ insert b.id w.engine.infraPeers := hraised.infraPeers ▸ hid
    obtain rfl := (Finset.mem_insert.mp hid).resolve_right hnot
    exact ⟨w.engine.nextFace, hraised.up, mem_raised_record h hraised,
      fun hold => Nat.lt_irrefl _ (h.raised _ hold)⟩

theorem reserved_start (b : MobileEngineBuilder) (up : FaceId → Bool) (radios : List Radio) :
    Reserved (.start b up radios) := by
  have hids := ids_radios radios (ids_build b up)
  refine ⟨fun f hf => ?_, nofun, nofun, nofun, nofun⟩
  obtain ⟨g, hg, rfl⟩ := List.mem_map.mp hf
  exact hids.faces g (List.mem_of_mem_filter hg)

/-- **One tunnel per peer**, and no reservation without one, throughout a run, exactly when no
beacon in it raises a tunnel beside an older one of its peer. -/
theorem oneTunnel_iff (P : Parsers) (b : MobileEngineBuilder) (up : FaceId → Bool)
    (radios : List Radio) {tr : List (Trans Tunnels TunnelCall)} {u : Tunnels}
    (hrun : Run (stepRel (Tunnels.step P)) (.start b up radios) tr u) :
    (∀ x ∈ tr, x.post.OneTunnel ∧ ReservesUp x) ↔ ∀ x ∈ tr, x.act.SparesOlder P x.pre := by
  refine hrun.exact (I := Reserved) (C := fun w c => c.SparesOlder P w)
    (P := fun x => x.post.OneTunnel ∧ ReservesUp x) ?_ ?_ (reserved_start b up radios)
  · intro w c t hi hs
    have hm : TunnelMove P w c t := step_tunnelMove hs
    constructor
    · rintro ⟨hone, -⟩
      exact sparesOlder_of_one hi hm hone
    · intro hc
      exact ⟨(reserved_move hi hc hm).one, reservesUp_move hi hm⟩
  · intro w c t hi hc hs
    exact reserved_move hi hc (step_tunnelMove hs)

/-- A node with a NAN radio and no tunnel. -/
def phoneTunnels : Tunnels := .start plainNode (fun _ => true) [.wifiAware]

/-- A beacon of a peer on the same access point. -/
def heardOnAp : Beacon := ⟨"a", "A", "wifi-aware", 0, "192.168.1.7"⟩

/-- A tunnel is raised, goes down, and is raised again on a new socket. -/
def reconnects : List TunnelCall :=
  [.setInfraAddr "192.168.1.5", .setInfraSocket 9, .notePeer heardOnAp 0 .ok, .detachNdpFace 3,
    .setInfraSocket 10, .notePeer heardOnAp 1 .ok]

theorem oneTunnel_iff_reconnects : ∃ tr u,
    Run (stepRel (Tunnels.step .std)) phoneTunnels tr u ∧
    u.raised = [("a", 3), ("a", 4)] ∧ u.engine.tunnels = [4] ∧
    ∀ x ∈ tr, x.post.OneTunnel ∧ ReservesUp x := by
  obtain ⟨u, hu, hr, ht⟩ : ∃ u, exec (guarded (fun w _ => w.noneOlder) (Tunnels.step .std))
    phoneTunnels reconnects = some u ∧ u.raised = [("a", 3), ("a", 4)] ∧ u.engine.tunnels = [4] :=
    ⟨_, rfl, by decide, by decide⟩
  obtain ⟨tr, hrun, -, hnone⟩ := exec_guarded hu
  refine ⟨tr, u, hrun, hr, ht, ?_⟩
  refine (oneTunnel_iff .std plainNode (fun _ => true) [.wifiAware] hrun).mpr fun x hx => ?_
  exact sparesOlder_of_noneOlder (hnone x hx) x.act

/-- With a new socket and the first tunnel still up, the peer's next beacon raises a second. -/
theorem oneTunnel_fails : ¬ ∀ (P : Parsers) (b : MobileEngineBuilder) (up : FaceId → Bool)
    (radios : List Radio) (tr : List (Trans Tunnels TunnelCall)) (u : Tunnels),
    Run (stepRel (Tunnels.step P)) (.start b up radios) tr u →
      ∀ x ∈ tr, x.post.OneTunnel ∧ ReservesUp x := by
  intro h
  obtain ⟨u, hu, hr, ht⟩ : ∃ u, exec (Tunnels.step .std) phoneTunnels
    [.setInfraAddr "192.168.1.5", .setInfraSocket 9, .notePeer heardOnAp 0 .ok,
      .setInfraSocket 10, .notePeer heardOnAp 1 .ok] = some u ∧
    u.raised = [("a", 3), ("a", 4)] ∧ u.engine.tunnels = [3, 4] := ⟨_, rfl, by decide, by decide⟩
  obtain ⟨tr, hrun, hacts⟩ := exec_run hu
  obtain ⟨x, hx, rfl⟩ := hrun.last_mem (by rintro rfl; cases hacts)
  have hone := (h .std plainNode (fun _ => true) [.wifiAware] tr _ hrun x hx).1 "a" 3 4
  rw [hr, ht] at hone
  exact absurd (hone (by decide) (by decide) (by decide) (by decide)) (by decide)

end NdnMobile.Ffi
