import NdnMobile.Ffi.NotePeer
import NdnMobile.Offer.Board

/-!
# Descriptors handed over

The FFI methods that take ownership of a descriptor, on the client and on the engine, with a
ledger of what became of each one: a live object owns it, or it was closed. A method that
parses its other arguments, or finds the engine shut down, before it adopts the descriptor
leaks it when it returns that error, and so does an engine freed while it holds a socket. In
runs without these every descriptor is owned once or closed once (`settled_iff_safe`).
-/

namespace NdnMobile.Ffi

open NdnMobile.Lib NdnMobile.Packet NdnMobile.Identity NdnMobile.Engine NdnMobile.Offer

/-- `fetch_object_to_fd`, the same on both objects: the file is adopted once both names are
read, and closed when the fetch is over. -/
def fetchToFd (P : Parsers) (d : Descriptors) (name hint : String) (fd : Fd)
    (fetched : Except NdnError UInt64) : Except NdnError UInt64 × Descriptors :=
  match P.name name, P.name hint with
  | none, _ => (.error (.invalidName name), d)
  | some _, none => (.error (.invalidName hint), d)
  | some _, some _ => (fetched, d.close fd)

/-! ## The client -/

structure NdnClient where
  /-- `None` until `start_offer_board`. -/
  offerBoard : Option OfferBoard
  fds : Descriptors

namespace NdnClient

variable (P : Parsers) (c : NdnClient)

def new : NdnClient := ⟨none, .empty⟩

def fetchObjectToFd (name hint : String) (fd : Fd) (fetched : Except NdnError UInt64) :
    Except NdnError UInt64 × NdnClient :=
  let r := fetchToFd P c.fds name hint fd fetched
  (r.1, { c with fds := r.2 })

/-- The file is adopted at once; the object that is offered keeps it. -/
def offerFd (call : AddCall) (fd : Fd) : Except NdnError String × NdnClient :=
  match c.offerBoard with
  | none =>
    (.error (.engine "offer board not started — call start_offer_board first"),
      { c with fds := c.fds.close fd })
  | some board =>
    match board.servedName call with
    | .error err => (.error err, { c with fds := c.fds.close fd })
    | .ok serves =>
      (.ok (board.display (board.objectName call.fileId)),
        { c with fds := c.fds.adopt fd (.object serves) })

def addOfferFd (fileId displayName mime : String) (fd : Fd) (size : UInt64) :
    Except NdnError String × NdnClient :=
  c.offerFd ⟨fileId, displayName, mime, .file size⟩ fd

def addOfferFdStreamed (fileId displayName mime : String) (fd : Fd) (size : UInt64) :
    Except NdnError String × NdnClient :=
  c.offerFd ⟨fileId, displayName, mime, .streamed size⟩ fd

end NdnClient

/-! ## The engine -/

namespace NdnEngine

variable (P : Parsers) (e : NdnEngine)

def fetchObjectToFd (name hint : String) (fd : Fd) (fetched : Except NdnError UInt64) :
    Except NdnError UInt64 × NdnEngine :=
  let r := fetchToFd P e.fds name hint fd fetched
  (r.1, { e with fds := r.2 })

/-- The two ways to hand over a bulk socket: what the peer's address may be, what the error
says if it is not, the attach, and what its error says. -/
def attachBulkFace (accepts : String → Bool) (unparseable failed : String)
    (attach : MobileEngine → Name → Except MobileEngine.IoError FaceId × MobileEngine)
    (nodeId : String) (fd : Fd) (peerIp : String) : Except NdnError FaceId × NdnEngine :=
  match P.name (peerNodePrefix nodeId) with
  | none => (.error (.invalidName (peerNodePrefix nodeId)), e)
  | some prefix' =>
    if accepts peerIp = false then
      (.error (.engine (unparseable ++ " '" ++ peerIp ++ "'")), e)
    else
      match e.inner with
      | none => (.error (.engine "engine is shut down"), e)
      | some engine =>
        let (r, engine) := attach engine prefix'
        (r.mapError fun err => .engine (failed ++ ": " ++ err),
          { e with inner := some engine, fds := e.fds.bulk fd r })

def attachNdpFace (nodeId : String) (fd : Fd) (peerIp : String) (os : MobileEngine.Os) :
    Except NdnError FaceId × NdnEngine :=
  e.attachBulkFace P P.ipv6 "unparseable NDP peer IPv6" "attach NDP face"
    (fun engine prefix' => engine.attachNdpFace prefix' os) nodeId fd peerIp

def attachWifiDirectFace (nodeId : String) (fd : Fd) (peerIp : String) (os : MobileEngine.Os) :
    Except NdnError FaceId × NdnEngine :=
  e.attachBulkFace P P.ip "unparseable Wi-Fi Direct peer ip" "attach Wi-Fi Direct face"
    (fun engine prefix' => engine.attachWifiDirectFace prefix' os) nodeId fd peerIp

end NdnEngine

namespace Descriptors

variable (d : Descriptors)

/-- An owner ends, and closes what it owns. -/
def release (fd : Fd) (o : Owner) : Descriptors :=
  ⟨d.owned.erase (fd, o), fd :: d.closed⟩

/-- All owners end. -/
def releaseAll : Descriptors := ⟨[], d.owned.map (·.1) ++ d.closed⟩

/-- How many objects own the descriptor. -/
def owners (fd : Fd) : Nat := d.owned.countP fun x => x.1 == fd

/-- How often it was closed. -/
def closes (fd : Fd) : Nat := d.closed.count fd

end Descriptors

/-! ## Runs -/

/-- The two FFI objects of a process, and every descriptor it handed over. -/
structure Host where
  client : NdnClient
  engine : NdnEngine
  /-- The engine object was freed. -/
  freed : Bool
  handed : List Fd

def Host.new (engine : MobileEngine) : Host := ⟨.new, .new engine, false, []⟩

inductive Handover where
  | clientFetchObjectToFd (name hint : String) (fd : Fd) (fetched : Except NdnError UInt64)
  | addOfferFd (fileId displayName mime : String) (fd : Fd) (size : UInt64)
  | addOfferFdStreamed (fileId displayName mime : String) (fd : Fd) (size : UInt64)
  | startOfferBoard (board : OfferBoard)
  | engineFetchObjectToFd (name hint : String) (fd : Fd) (fetched : Except NdnError UInt64)
  | attachNdpFace (nodeId : String) (fd : Fd) (peerIp : String) (os : MobileEngine.Os)
  | attachWifiDirectFace (nodeId : String) (fd : Fd) (peerIp : String) (os : MobileEngine.Os)
  | setInfraSocket (fd : Fd)
  | setInfraAddr (ipv4 : String)
  | startDiscovery (nodeId label : String)
  | notePeer (b : Beacon) (now : Instant) (os : MobileEngine.Os)
  /-- Any other call on the mobile engine. -/
  | call (f : MobileEngine → MobileEngine)
  | shutdown
  | freeEngine
  /-- An offer of the client ends, or a face of the engine. -/
  | clientReleased (fd : Fd) (o : Owner)
  | engineReleased (fd : Fd) (o : Owner)

/-- The descriptor a call takes ownership of. -/
def Handover.takes : Handover → Option Fd
  | .clientFetchObjectToFd _ _ fd _ | .addOfferFd _ _ _ fd _ | .addOfferFdStreamed _ _ _ fd _
  | .engineFetchObjectToFd _ _ fd _ | .attachNdpFace _ fd _ _ | .attachWifiDirectFace _ fd _ _
  | .setInfraSocket fd => some fd
  | _ => none

namespace Host

variable (P : Parsers) (h : Host)

/-- What a call does to the two objects. -/
def run : Handover → Host
  | .clientFetchObjectToFd name hint fd fetched =>
    { h with client := (h.client.fetchObjectToFd P name hint fd fetched).2 }
  | .addOfferFd fileId displayName mime fd size =>
    { h with client := (h.client.addOfferFd fileId displayName mime fd size).2 }
  | .addOfferFdStreamed fileId displayName mime fd size =>
    { h with client := (h.client.addOfferFdStreamed fileId displayName mime fd size).2 }
  | .startOfferBoard board => { h with client := { h.client with offerBoard := some board } }
  | .engineFetchObjectToFd name hint fd fetched =>
    { h with engine := (h.engine.fetchObjectToFd P name hint fd fetched).2 }
  | .attachNdpFace nodeId fd peerIp os =>
    { h with engine := (h.engine.attachNdpFace P nodeId fd peerIp os).2 }
  | .attachWifiDirectFace nodeId fd peerIp os =>
    { h with engine := (h.engine.attachWifiDirectFace P nodeId fd peerIp os).2 }
  | .setInfraSocket fd => { h with engine := h.engine.setInfraSocket fd }
  | .setInfraAddr ipv4 => { h with engine := h.engine.setInfraAddr ipv4 }
  | .startDiscovery nodeId label => { h with engine := h.engine.startDiscovery nodeId label }
  | .notePeer b now os => { h with engine := h.engine.notePeer P b now os }
  | .call f => { h with engine := { h.engine with inner := h.engine.inner.map f } }
  | .shutdown => { h with engine := h.engine.shutdown }
  -- the faces go with the runtime; a held socket is a plain number
  | .freeEngine =>
    { h with engine := { h.engine.shutdown with fds := h.engine.fds.releaseAll }, freed := true }
  | .clientReleased fd o =>
    { h with client := { h.client with fds := h.client.fds.release fd o } }
  | .engineReleased fd o =>
    { h with engine := { h.engine with fds := h.engine.fds.release fd o } }

/-- A call on the engine object, or an end of a face. -/
def onEngine : Handover → Bool
  | .clientFetchObjectToFd .. | .addOfferFd .. | .addOfferFdStreamed .. | .startOfferBoard _
  | .clientReleased .. => false
  | _ => true

/-- A call is possible with a descriptor not handed over before, on an object not freed. -/
def enabled (c : Handover) : Bool :=
  (c.takes.all fun fd => fd ∉ h.handed) && !(h.freed && onEngine c) &&
    match c with
    | .clientReleased fd o => decide ((fd, o) ∈ h.client.fds.owned)
    | .engineReleased fd o => decide ((fd, o) ∈ h.engine.fds.owned)
    | _ => true

def step (c : Handover) : Option Host :=
  if h.enabled c then some { h.run P c with handed := c.takes.toList ++ h.handed } else none

/-- How many live objects own the descriptor: an offer, a face, or the engine itself. -/
def owners (fd : Fd) : Nat :=
  h.client.fds.owners fd + h.engine.fds.owners fd +
    if h.freed = false ∧ h.engine.infraSocketFd = some fd then 1 else 0

def closes (fd : Fd) : Nat := h.client.fds.closes fd + h.engine.fds.closes fd

/-- The descriptor has one owner, or was closed once. -/
def Settled (fd : Fd) : Prop :=
  h.owners fd = 1 ∧ h.closes fd = 0 ∨ h.owners fd = 0 ∧ h.closes fd = 1

end Host

/-- No error is returned before the descriptor is adopted, and no engine is freed with a socket
it holds. -/
def Handover.Safe (P : Parsers) (h : Host) : Handover → Prop
  | .clientFetchObjectToFd name hint _ _ | .engineFetchObjectToFd name hint _ _ =>
    P.name name ≠ none ∧ P.name hint ≠ none
  | .attachNdpFace nodeId _ peerIp _ =>
    P.name (peerNodePrefix nodeId) ≠ none ∧ P.ipv6 peerIp = true ∧ h.engine.inner.isSome = true
  | .attachWifiDirectFace nodeId _ peerIp _ =>
    P.name (peerNodePrefix nodeId) ≠ none ∧ P.ip peerIp = true ∧ h.engine.inner.isSome = true
  | .freeEngine => h.engine.infraSocketFd = none
  | _ => True

variable {P : Parsers} {h u : Host} {c : Handover} {d : Descriptors} {e : NdnEngine} {fd x : Fd}
  {o : Owner} {b : Beacon} {now : Instant} {os : MobileEngine.Os}

/-! ## The ledger -/

namespace Descriptors

/-- Owners and closes of a descriptor together. -/
def total (d : Descriptors) (fd : Fd) : Nat := d.owners fd + d.closes fd

theorem total_adopt : (d.adopt fd o).total x = d.total x + if fd = x then 1 else 0 := by
  unfold total owners closes adopt
  rw [List.countP_cons]
  simp only [beq_iff_eq]
  omega

theorem total_close : (d.close fd).total x = d.total x + if fd = x then 1 else 0 := by
  unfold total owners closes close
  rw [List.count_cons]
  simp only [beq_iff_eq]
  omega

/-- Whether the socket is adopted or closed, it is accounted for once more. -/
theorem total_bulk (r : Except MobileEngine.IoError FaceId) :
    (d.bulk fd r).total x = d.total x + if fd = x then 1 else 0 := by
  cases r with
  | ok id => exact total_adopt
  | error err => exact total_close

theorem total_release (hm : (fd, o) ∈ d.owned) : (d.release fd o).total x = d.total x := by
  unfold total owners closes release
  rw [List.count_cons, List.countP_erase]
  by_cases hx : fd = x
  · subst hx
    have hpos : 0 < d.owned.countP fun y => y.1 == fd :=
      List.countP_pos_iff.mpr ⟨(fd, o), hm, by simp⟩
    simp only [hm, beq_self_eq_true, and_self, if_true]
    omega
  · simp [hm, hx]

theorem total_releaseAll : d.releaseAll.total x = d.total x := by
  unfold total owners closes releaseAll
  rw [List.countP_nil, List.count_append, List.count, List.countP_map]
  have hcomp : ((fun y => y == x) ∘ fun y : Fd × Owner => y.1) = fun y => y.1 == x := rfl
  rw [hcomp]
  omega

end Descriptors

namespace NdnEngine

/-- What the engine has on a descriptor, the socket it holds included. -/
def total (e : NdnEngine) (fd : Fd) : Nat :=
  e.fds.total fd + if e.infraSocketFd = some fd then 1 else 0

/-- What only the ledger learns, the engine has. -/
theorem total_fds {k : Nat} (hd : d.total x = e.fds.total x + k) :
    ({ e with fds := d } : NdnEngine).total x = e.total x + k := by
  unfold total
  dsimp only
  omega

theorem total_setInfraAddr (ipv4 : String) : (e.setInfraAddr ipv4).total x = e.total x := by
  unfold setInfraAddr
  dsimp only
  by_cases hsame : e.localInfraAddr = if ipv4 = "" then none else some ipv4
  · rw [if_pos hsame]
  · rw [if_neg hsame]
    rfl

theorem total_setInfraSocket :
    (e.setInfraSocket fd).total x = e.total x + if fd = x then 1 else 0 := by
  unfold total setInfraSocket
  cases hi : e.infraSocketFd with
  | none =>
    dsimp only
    simp only [Option.some.injEq, reduceCtorEq, if_false, Nat.add_zero]
  | some old =>
    dsimp only
    rw [Descriptors.total_close]
    simp only [Option.some.injEq]

theorem total_maybeAttach {id peerIp : String} {p : Name} {m : MobileEngine} :
    (e.maybeAttachInfraTunnel P id p peerIp m os).total x = e.total x := by
  cases ha : e.armed P id peerIp with
  | none => rw [maybeAttachInfraTunnel_none ha]
  | some fd =>
    rw [maybeAttachInfraTunnel_some ha]
    unfold total
    dsimp only
    rw [Descriptors.total_bulk, (infraSocketFd_of_armed ha).1]
    simp only [Option.some.injEq, reduceCtorEq, if_false]
    omega

/-- A beacon moves the held socket to a face, or closes it. -/
theorem total_notePeer : (e.notePeer P b now os).total x = e.total x := by
  unfold notePeer
  split
  · rfl
  · unfold routePeer
    split
    · dsimp only
      split
      · rfl
      · exact total_maybeAttach
    · rfl

end NdnEngine

/-! ## One call -/

theorem total_fetchToFd {name hint : String} {fetched : Except NdnError UInt64}
    (hp : P.name name ≠ none ∧ P.name hint ≠ none) :
    (fetchToFd P d name hint fd fetched).2.total x = d.total x + if fd = x then 1 else 0 := by
  unfold fetchToFd
  cases hn : P.name name with
  | none => exact absurd hn hp.1
  | some _ =>
    cases hh : P.name hint with
    | none => exact absurd hh hp.2
    | some _ => exact Descriptors.total_close

/-- A name that does not parse leaks the descriptor. -/
theorem fetchToFd_leak {name hint : String} {fetched : Except NdnError UInt64}
    (hp : ¬ (P.name name ≠ none ∧ P.name hint ≠ none)) :
    (fetchToFd P d name hint fd fetched).2 = d := by
  unfold fetchToFd
  cases hn : P.name name with
  | none => rfl
  | some _ =>
    cases hh : P.name hint with
    | none => rfl
    | some _ => exact absurd ⟨by rw [hn]; nofun, by rw [hh]; nofun⟩ hp

theorem NdnClient.total_offerFd {c : NdnClient} {call : AddCall} :
    (c.offerFd call fd).2.fds.total x = c.fds.total x + if fd = x then 1 else 0 := by
  unfold offerFd
  split
  · exact Descriptors.total_close
  · split
    · exact Descriptors.total_close
    · exact Descriptors.total_adopt

section Attach

variable {accepts : String → Bool} {unparseable failed nodeId peerIp : String}
  {attach : MobileEngine → Name → Except MobileEngine.IoError FaceId × MobileEngine}

theorem NdnEngine.total_attachBulkFace
    (hp : P.name (peerNodePrefix nodeId) ≠ none ∧ accepts peerIp = true ∧ e.inner.isSome = true) :
    (e.attachBulkFace P accepts unparseable failed attach nodeId fd peerIp).2.total x =
      e.total x + if fd = x then 1 else 0 := by
  obtain ⟨hn, ha, hi⟩ := hp
  unfold attachBulkFace
  cases hname : P.name (peerNodePrefix nodeId) with
  | none => exact absurd hname hn
  | some p =>
    dsimp only
    rw [if_neg (ne_false_of_eq_true ha)]
    cases hm : e.inner with
    | none =>
      rw [hm] at hi
      cases hi
    | some m =>
      unfold total
      dsimp only
      rw [Descriptors.total_bulk]
      omega

/-- An error before the attach itself leaks the descriptor. -/
theorem NdnEngine.attachBulkFace_leak
    (hp : ¬ (P.name (peerNodePrefix nodeId) ≠ none ∧ accepts peerIp = true ∧
      e.inner.isSome = true)) :
    (e.attachBulkFace P accepts unparseable failed attach nodeId fd peerIp).2 = e := by
  unfold attachBulkFace
  cases hname : P.name (peerNodePrefix nodeId) with
  | none => rfl
  | some p =>
    dsimp only
    by_cases ha : accepts peerIp = false
    · rw [if_pos ha]
    · rw [if_neg ha]
      cases hm : e.inner with
      | none => rfl
      | some m =>
        have ha' : accepts peerIp = true := Bool.eq_true_of_not_eq_false ha
        exact absurd ⟨by rw [hname]; nofun, ha', by rw [hm]; rfl⟩ hp

end Attach

namespace Host

def total (h : Host) (fd : Fd) : Nat := h.owners fd + h.closes fd

theorem settled_iff_total : h.Settled fd ↔ h.total fd = 1 := by
  unfold Settled total
  omega

theorem total_of_running (hf : h.freed = false) :
    h.total x = h.client.fds.total x + h.engine.total x := by
  unfold total owners closes NdnEngine.total Descriptors.total
  simp only [hf, true_and]
  omega

theorem total_client {c' : NdnClient} {k : Nat} (hc : c'.fds.total x = h.client.fds.total x + k) :
    ({ h with client := c' } : Host).total x = h.total x + k := by
  unfold Descriptors.total at hc
  unfold total owners closes
  dsimp only
  omega

theorem total_engine {e' : NdnEngine} {k : Nat} (hf : h.freed = false)
    (he : e'.total x = h.engine.total x + k) :
    ({ h with engine := e' } : Host).total x = h.total x + k := by
  rw [total_of_running (h := { h with engine := e' }) hf, total_of_running hf, he, Nat.add_assoc]

theorem running_of_enabled (hen : h.enabled c = true) (hc : onEngine c = true) :
    h.freed = false := by
  unfold enabled at hen
  simp only [Bool.and_eq_true, Bool.not_eq_true', Bool.and_eq_false_iff] at hen
  rcases hen.1.2 with hf | hno
  · exact hf
  · rw [hc] at hno
    cases hno

theorem fresh_of_enabled (hen : h.enabled c = true) (ht : c.takes = some fd) : fd ∉ h.handed := by
  unfold enabled at hen
  rw [ht] at hen
  simp only [Bool.and_eq_true] at hen
  exact of_decide_eq_true hen.1.1

theorem total_free :
    (h.run P .freeEngine).total x = h.client.fds.total x + h.engine.fds.total x := by
  have hall := Descriptors.total_releaseAll (d := h.engine.fds) (x := x)
  unfold Descriptors.total at hall ⊢
  unfold total owners closes run
  simp only [reduceCtorEq, false_and, if_false]
  omega

/-- Only what is owned is released. -/
theorem released_of_enabled {own : List (Fd × Owner)} {rest : Bool}
    (hen : (rest && decide ((fd, o) ∈ own)) = true) : (fd, o) ∈ own := by
  rw [Bool.and_eq_true] at hen
  exact of_decide_eq_true hen.2

/-- A safe call accounts for the descriptor it takes, and leaves the others as they are. -/
theorem total_run (hen : h.enabled c = true) (hs : c.Safe P h) :
    (h.run P c).total x = h.total x + if c.takes = some x then 1 else 0 := by
  have hrunning : onEngine c = true → h.freed = false := running_of_enabled hen
  cases c with
  | clientFetchObjectToFd name hint fd fetched =>
    simp only [Handover.takes, Option.some.injEq]
    exact total_client (total_fetchToFd hs)
  | addOfferFd fileId displayName mime fd size =>
    simp only [Handover.takes, Option.some.injEq]
    exact total_client NdnClient.total_offerFd
  | addOfferFdStreamed fileId displayName mime fd size =>
    simp only [Handover.takes, Option.some.injEq]
    exact total_client NdnClient.total_offerFd
  | startOfferBoard board => exact total_client rfl
  | engineFetchObjectToFd name hint fd fetched =>
    simp only [Handover.takes, Option.some.injEq]
    exact total_engine (hrunning rfl) (NdnEngine.total_fds (total_fetchToFd hs))
  | attachNdpFace nodeId fd peerIp os =>
    simp only [Handover.takes, Option.some.injEq]
    exact total_engine (hrunning rfl) (NdnEngine.total_attachBulkFace hs)
  | attachWifiDirectFace nodeId fd peerIp os =>
    simp only [Handover.takes, Option.some.injEq]
    exact total_engine (hrunning rfl) (NdnEngine.total_attachBulkFace hs)
  | setInfraSocket fd =>
    simp only [Handover.takes, Option.some.injEq]
    exact total_engine (hrunning rfl) NdnEngine.total_setInfraSocket
  | setInfraAddr ipv4 => exact total_engine (hrunning rfl) (NdnEngine.total_setInfraAddr ipv4)
  | startDiscovery nodeId label => exact total_engine (hrunning rfl) rfl
  | notePeer b now os => exact total_engine (hrunning rfl) NdnEngine.total_notePeer
  | call f => exact total_engine (hrunning rfl) rfl
  | shutdown => exact total_engine (hrunning rfl) rfl
  | freeEngine =>
    rw [total_free, total_of_running (hrunning rfl), NdnEngine.total, if_neg (by rw [hs]; nofun)]
    rfl
  | clientReleased fd o => exact total_client (Descriptors.total_release (released_of_enabled hen))
  | engineReleased fd o =>
    exact total_engine (hrunning rfl)
      (NdnEngine.total_fds (Descriptors.total_release (released_of_enabled hen)))

/-- **Invariant**: every descriptor handed over is accounted for once, and no other. -/
def Accounted (h : Host) : Prop := ∀ fd, h.total fd = if fd ∈ h.handed then 1 else 0

theorem accounted_new (m : MobileEngine) : (Host.new m).Accounted := by
  intro fd
  rfl

theorem Accounted.settled (hI : h.Accounted) : ∀ fd ∈ h.handed, h.Settled fd := by
  intro fd hfd
  rw [settled_iff_total, hI fd, if_pos hfd]

theorem step_eq (hst : h.step P c = some u) : h.enabled c = true ∧
    u = { h.run P c with handed := c.takes.toList ++ h.handed } := by
  unfold step at hst
  split at hst
  · rename_i hen
    exact ⟨hen, (Option.some.inj hst).symm⟩
  · cases hst

theorem accounted_step (hI : h.Accounted) (hs : c.Safe P h) (hst : h.step P c = some u) :
    u.Accounted := by
  obtain ⟨hen, rfl⟩ := step_eq hst
  intro fd
  show (h.run P c).total fd = if fd ∈ c.takes.toList ++ h.handed then 1 else 0
  rw [total_run hen hs, hI fd]
  by_cases ht : c.takes = some fd
  · rw [if_pos ht, if_neg (fresh_of_enabled hen ht), ht]
    simp
  · have hiff : fd ∈ c.takes.toList ++ h.handed ↔ fd ∈ h.handed := by
      rw [List.mem_append, Option.mem_toList, or_iff_right ht]
    rw [if_neg ht, Nat.add_zero]
    by_cases hfd : fd ∈ h.handed
    · rw [if_pos hfd, if_pos (hiff.mpr hfd)]
    · rw [if_neg hfd, if_neg fun hm => hfd (hiff.mp hm)]

/-- A call that is not safe leaves a descriptor with no owner, and open. -/
theorem leak_run (hI : h.Accounted) (hen : h.enabled c = true) (hs : ¬ c.Safe P h) :
    ∃ fd ∈ c.takes.toList ++ h.handed, (h.run P c).total fd = 0 := by
  have hlost : ∀ fd, c.takes = some fd → (h.run P c).total fd = h.total fd →
      ∃ fd ∈ c.takes.toList ++ h.handed, (h.run P c).total fd = 0 := by
    intro fd ht hsame
    refine ⟨fd, List.mem_append_left _ (Option.mem_toList.mpr ht), ?_⟩
    rw [hsame, hI fd, if_neg (fresh_of_enabled hen ht)]
  cases c with
  | clientFetchObjectToFd name hint fd fetched =>
    exact hlost fd rfl
      (total_client (k := 0) (congrArg (Descriptors.total · fd) (fetchToFd_leak hs)))
  | engineFetchObjectToFd name hint fd fetched =>
    have hf := running_of_enabled hen rfl
    exact hlost fd rfl (total_engine (k := 0) hf
      (NdnEngine.total_fds (congrArg (Descriptors.total · fd) (fetchToFd_leak hs))))
  | attachNdpFace nodeId fd peerIp os =>
    have hf := running_of_enabled hen rfl
    exact hlost fd rfl (total_engine (k := 0) hf
      (congrArg (NdnEngine.total · fd) (NdnEngine.attachBulkFace_leak hs)))
  | attachWifiDirectFace nodeId fd peerIp os =>
    have hf := running_of_enabled hen rfl
    exact hlost fd rfl (total_engine (k := 0) hf
      (congrArg (NdnEngine.total · fd) (NdnEngine.attachBulkFace_leak hs)))
  | freeEngine =>
    have hf := running_of_enabled hen rfl
    obtain ⟨fd, hfd⟩ := Option.ne_none_iff_exists'.mp hs
    have htotal := total_of_running (x := fd) hf
    rw [NdnEngine.total, if_pos hfd, hI fd] at htotal
    by_cases hmem : fd ∈ h.handed
    · rw [if_pos hmem] at htotal
      refine ⟨fd, List.mem_append_right _ hmem, ?_⟩
      rw [total_free]
      omega
    · rw [if_neg hmem] at htotal
      omega
  | _ => exact absurd trivial hs

end Host

/-- Every descriptor handed over has one owner or was closed once, throughout a run, exactly
when every call of the run is safe. -/
theorem settled_iff_safe (P : Parsers) (m : MobileEngine) {tr : List (Trans Host Handover)}
    {u : Host} (hrun : Run (stepRel (Host.step P)) (.new m) tr u) :
    (∀ x ∈ tr, ∀ fd ∈ x.post.handed, x.post.Settled fd) ↔ ∀ x ∈ tr, x.act.Safe P x.pre := by
  refine hrun.exact (I := Host.Accounted) (C := fun h c => c.Safe P h)
    (P := fun x => ∀ fd ∈ x.post.handed, x.post.Settled fd) ?_ ?_ (Host.accounted_new m)
  · intro h c u hI hst
    constructor
    · intro hall
      by_contra hs
      obtain ⟨hen, rfl⟩ := Host.step_eq hst
      obtain ⟨fd, hfd, hzero⟩ := Host.leak_run hI hen hs
      have hone := Host.settled_iff_total.mp (hall fd hfd)
      have hsame : (h.run P c).total fd = 1 := hone
      omega
    · intro hs
      exact (Host.accounted_step hI hs hst).settled
  · intro h c u hI hs hst
    exact Host.accounted_step hI hs hst

/-- A node with a NAN radio, and its client. -/
def phoneHost : Host := .new phoneEngine

/-- A socket is held while an NDP comes up to node "a". -/
theorem settled_iff_safe_phoneHost : ∃ tr u, Run (stepRel (Host.step .std)) phoneHost tr u ∧
    u.handed = [6, 5] ∧ ∀ x ∈ tr, ∀ fd ∈ x.post.handed, x.post.Settled fd := by
  obtain ⟨s, hs⟩ : ∃ s, Host.step .std phoneHost (.setInfraSocket 5) = some s := ⟨_, rfl⟩
  obtain ⟨u, hu, hh⟩ : ∃ u, Host.step .std s (.attachNdpFace "a" 6 "fe80::1" .ok) = some u ∧
      u.handed = [6, 5] := by
    cases hs
    exact ⟨_, rfl, rfl⟩
  have hrun : Run (stepRel (Host.step .std)) phoneHost _ u := .cons hs (.cons hu (.nil u))
  refine ⟨_, u, hrun, hh, (settled_iff_safe .std phoneEngine hrun).mpr fun x hx => ?_⟩
  rcases List.mem_cons.mp hx with rfl | hx
  · trivial
  · rw [List.mem_singleton] at hx
    subst hx
    cases hs
    exact ⟨by decide, rfl, rfl⟩

/-- A hint that does not parse leaks the file of the download. -/
theorem settled_fails : ¬ ∀ (P : Parsers) (m : MobileEngine) (tr : List (Trans Host Handover))
    (u : Host), Run (stepRel (Host.step P)) (.new m) tr u →
      ∀ x ∈ tr, ∀ fd ∈ x.post.handed, x.post.Settled fd := by
  intro h
  have hs : Host.step .std phoneHost (.clientFetchObjectToFd "/a" "%" 5 (.ok 0)) =
      some { phoneHost with handed := [5] } := rfl
  have hsettled := h .std phoneEngine _ _ (.cons hs (.nil _)) _
    List.mem_cons_self 5 List.mem_cons_self
  have hnone : ¬ ({ phoneHost with handed := [5] } : Host).Settled 5 := by
    unfold Host.Settled
    decide
  exact hnone hsettled

end NdnMobile.Ffi
