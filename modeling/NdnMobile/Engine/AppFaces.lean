import NdnMobile.Engine.BulkPins
import NdnMobile.Engine.SuspendResume

/-!
# App faces

The in-process side of the engine: the handles of app components, the app sockets it adopts
or accepts, and the producers registered on them, between all the calls that edit the network
side. App faces are children of the shutdown token and their ids come from the one counter,
so no suspend ends them and no radio, peer or bulk face is ever put at their ids: an app face
that was not closed is up, alone at its id, with a nexthop from every prefix registered on it,
and no face comes back at the id of one that was (`producers_served`).
-/

namespace NdnMobile.Engine

open NdnMobile.Lib NdnMobile.Packet MobileEngine

namespace MobileEngine

variable (e : MobileEngine)

/-- `InProcFace::new` and `ipc_face_from_raw_fd` both make faces of kind `App`. -/
def addAppFace (id : FaceId) : MobileEngine :=
  { e with forwarder := e.forwarder.addFace ⟨id, .app, .shutdown, false⟩ }

def addRoute (prefix' : Name) (faceId : FaceId) (cost : Nat) : MobileEngine :=
  { e with forwarder := e.forwarder.addNexthop prefix' faceId cost }

def newAppHandle : FaceId × MobileEngine :=
  (e.forwarder.nextId, e.allocId.addAppFace e.forwarder.nextId)

/-- The id is allocated before the socket is adopted. -/
def mountAppFd (fromRawFd : Except IoError Unit) : Except IoError FaceId × MobileEngine :=
  match fromRawFd with
  | .error err => (.error err, e.allocId)
  | .ok () => (.ok e.forwarder.nextId, e.allocId.addAppFace e.forwarder.nextId)

/-- An in-process face and the FIB route for the prefix; `EngineAppExt` picks the cost. -/
def registerProducer (prefix' : Name) (cost : Nat) : FaceId × MobileEngine :=
  (e.forwarder.nextId,
    (e.allocId.addAppFace e.forwarder.nextId).addRoute prefix' e.forwarder.nextId cost)

/-- `RegisteringInProcConnection::register_prefix`, of the connection over `faceId`. -/
def registerPrefix (faceId : FaceId) (prefix' : Name) : MobileEngine :=
  e.addRoute prefix' faceId 0

def attachWifiDirectMulticastFace (ndnDefault : Except IoError Unit) :
    Except IoError FaceId × MobileEngine :=
  match ndnDefault with
  | .error err => (.error err, e.allocId)
  | .ok () =>
    let fw := e.allocId.forwarder.addFace ⟨e.forwarder.nextId, .wifiDirect, e.token, false⟩
    (.ok e.forwarder.nextId, ensureMeshStrategy
      { e.allocId with forwarder := fw.addNexthop [] e.forwarder.nextId 0 })

end MobileEngine

/-! ## Runs -/

/-- An engine with its bulk faces, and what the local side was given. -/
structure Node where
  net : World
  /-- App faces handed out and not closed. -/
  openFaces : List FaceId
  closed : List FaceId
  /-- The id the listener allocated for the socket it waits for. -/
  waiting : Option FaceId
  /-- What is registered on the app faces that are open. -/
  registered : List (Name × FaceId)

namespace Node

variable (n : Node)

def engine : MobileEngine := n.net.engine

def setEngine (e : MobileEngine) : Node := { n with net := { n.net with engine := e } }

/-- The ids of all app faces, past and to come. -/
def appIds : List FaceId := n.openFaces ++ n.closed ++ n.waiting.toList

def opened (id : FaceId) : Node := { n with openFaces := id :: n.openFaces }

/-- The face with this id ended. -/
def close (id : FaceId) : Node :=
  { n with
    openFaces := n.openFaces.filter (· != id)
    closed := if id ∈ n.openFaces then id :: n.closed else n.closed
    registered := n.registered.filter fun x => x.2 != id }

def register (prefix' : Name) (id : FaceId) : Node :=
  if id ∈ n.openFaces then { n with registered := (prefix', id) :: n.registered } else n

/-- A built engine: `build` hands out the face with id 1. -/
def start (b : MobileEngineBuilder) (up : FaceId → Bool) : Node :=
  ⟨.start b up [], [1], [], none, []⟩

end Node

inductive NodeCall where
  | net (c : Call)
  | attach (radio : Radio)
  | attachWifiDirectMulticastFace (ndnDefault : Except IoError Unit)
  | routeToPeer (prefix' : Name) (peer : PeerRef) (cost : Nat)
  | routeToMulticast (prefix' : Name)
  | addRoute (prefix' : Name) (faceId : FaceId) (cost : Nat)
  | newAppHandle
  | mountAppFd (fromRawFd : Except IoError Unit)
  | registerProducer (prefix' : Name) (cost : Nat)
  | registerPrefix (faceId : FaceId) (prefix' : Name)
  /-- The listener's loop allocates the id of the next socket. -/
  | listen
  /-- `accept_as` returns. -/
  | accept (socket : Except IoError Unit)
  /-- The other side of an app face is gone, and the engine drops the face. -/
  | hangUp (id : FaceId)

/-- The face that a call on the network side removes. -/
def Call.removes : Call → Option FaceId
  | .detachNdpFace id => some id
  | _ => none

def Node.step (n : Node) : NodeCall → Option Node
  | .net c =>
    (Engine.step n.net c).map fun net => c.removes.elim { n with net } { n with net }.close
  | .attach radio => some (n.setEngine (radio.attach n.engine))
  | .attachWifiDirectMulticastFace ndnDefault =>
    some (n.setEngine (n.engine.attachWifiDirectMulticastFace ndnDefault).2)
  | .routeToPeer p peer cost => some (n.setEngine (n.engine.routeToPeer p peer cost))
  | .routeToMulticast p => some (n.setEngine (n.engine.routeToMulticast p).2)
  | .addRoute p id cost => some (n.setEngine (n.engine.addRoute p id cost))
  | .newAppHandle =>
    let (id, e) := n.engine.newAppHandle
    some ((n.setEngine e).opened id)
  | .mountAppFd fromRawFd =>
    match n.engine.mountAppFd fromRawFd with
    | (.ok id, e) => some ((n.setEngine e).opened id)
    | (.error _, e) => some (n.setEngine e)
  | .registerProducer p cost =>
    let (id, e) := n.engine.registerProducer p cost
    some (((n.setEngine e).opened id).register p id)
  | .registerPrefix id p =>
    if id ∈ n.openFaces ++ n.closed then
      some ((n.setEngine (n.engine.registerPrefix id p)).register p id)
    else none
  | .listen =>
    match n.waiting with
    | none => some { n.setEngine n.engine.allocId with waiting := some n.engine.forwarder.nextId }
    | some _ => none
  | .accept socket =>
    match n.waiting, socket with
    | some id, .ok () =>
      some (({ n with waiting := none }.setEngine (n.engine.addAppFace id)).opened id)
    | some _, .error _ => some { n with waiting := none }
    | none, _ => none
  | .hangUp id =>
    if id ∈ n.openFaces then
      some ((n.setEngine { n.engine with forwarder := n.engine.forwarder.removeFace id }).close id)
    else none

/-! ## Edits that spare app faces -/

namespace Forwarder

/-- The faces added at an id. -/
def facesAt (fw : Forwarder) (id : FaceId) : List Face := fw.faces.filter fun f => f.id == id

/-- An Interest under the prefix may be forwarded to the face. -/
def Routes (fw : Forwarder) (prefix' : Name) (id : FaceId) : Prop :=
  ∃ nh ∈ fw.fib prefix', nh.faceId = id

/-- From `fw` to `fw'`, nothing is done to the faces at these ids, and no route to them is lost. -/
structure Spares (ids : List FaceId) (fw fw' : Forwarder) : Prop where
  facesAt : ∀ id ∈ ids, fw'.facesAt id = fw.facesAt id
  routes : ∀ id ∈ ids, ∀ p, fw.Routes p id → fw'.Routes p id

variable {ids : List FaceId} {fw fw' fw'' : Forwarder} {id j : FaceId} {p q : Name}

theorem mem_facesAt {f : Face} : f ∈ fw.facesAt id ↔ f ∈ fw.faces ∧ f.id = id := by
  simp [facesAt]

theorem facesAt_addFace (fw : Forwarder) (f : Face) (id : FaceId) :
    (fw.addFace f).facesAt id = fw.facesAt id ++ if f.id = id then [f] else [] := by
  unfold facesAt
  rw [faces_addFace, List.filter_append]
  by_cases h : f.id = id <;> simp [h]

theorem facesAt_eq_nil (h : ∀ f ∈ fw.faces, f.id ≠ id) : fw.facesAt id = [] :=
  List.filter_eq_nil_iff.mpr fun f hf => by simpa using h f hf

theorem facesAt_removeFace (fw : Forwarder) (j id : FaceId) :
    (fw.removeFace j).facesAt id = if id = j then [] else fw.facesAt id := by
  unfold facesAt
  rw [faces_removeFace, List.filter_filter]
  split
  · rename_i h
    refine List.filter_eq_nil_iff.mpr fun f _ => ?_
    simp [h]
  · rename_i h
    refine List.filter_congr fun f _ => ?_
    by_cases hf : f.id = id
    · simp [hf, h]
    · simp [hf]

theorem routes_addNexthop_self (fw : Forwarder) (p : Name) (id : FaceId) (cost : Nat) :
    (fw.addNexthop p id cost).Routes p id := by
  refine ⟨⟨id, cost⟩, ?_, rfl⟩
  simp [addNexthop]

theorem Routes.addNexthop {cost : Nat} (h : fw.Routes p id) :
    (fw.addNexthop q j cost).Routes p id := by
  by_cases hj : q = p ∧ j = id
  · obtain ⟨rfl, rfl⟩ := hj
    exact routes_addNexthop_self fw q j cost
  · obtain ⟨nh, hm, rfl⟩ := h
    refine ⟨nh, ?_, rfl⟩
    simp only [Forwarder.addNexthop, Function.update_apply]
    split
    · rename_i hp
      have hne : nh.faceId ≠ j := fun he => hj ⟨hp.symm, he.symm⟩
      exact List.mem_append_left _ (List.mem_filter.mpr ⟨hp ▸ hm, by simpa using hne⟩)
    · exact hm

theorem Routes.dropNexthops {gone : FaceId → Bool} (h : fw.Routes p id) (hg : gone id = false) :
    (fw.dropNexthops gone).Routes p id := by
  obtain ⟨nh, hm, rfl⟩ := h
  exact ⟨nh, List.mem_filter.mpr ⟨hm, by simp [hg]⟩, rfl⟩

theorem Routes.removeFace (h : fw.Routes p id) (hne : id ≠ j) : (fw.removeFace j).Routes p id := by
  have hd : (fw.dropNexthops (· == j)).Routes p id :=
    h.dropNexthops (beq_eq_false_iff_ne.mpr hne)
  exact hd

namespace Spares

theorem refl (ids : List FaceId) (fw : Forwarder) : Spares ids fw fw :=
  ⟨fun _ _ => rfl, fun _ _ _ h => h⟩

theorem trans (h1 : Spares ids fw fw') (h2 : Spares ids fw' fw'') : Spares ids fw fw'' :=
  ⟨fun id hid => (h2.facesAt id hid).trans (h1.facesAt id hid),
    fun id hid p h => h2.routes id hid p (h1.routes id hid p h)⟩

/-- Neither faces nor routes changed. -/
theorem same (hf : fw'.faces = fw.faces) (hr : fw'.fib = fw.fib) : Spares ids fw fw' := by
  refine ⟨fun id _ => ?_, fun id _ p h => ?_⟩
  · unfold Forwarder.facesAt
    rw [hf]
  · unfold Routes at h ⊢
    rwa [hr]

theorem addFace {f : Face} (h : f.id ∉ ids) : Spares ids fw (fw.addFace f) := by
  refine ⟨fun id hid => ?_, fun _ _ _ h => h⟩
  have hne : f.id ≠ id := fun he => h (he ▸ hid)
  rw [facesAt_addFace, if_neg hne, List.append_nil]

theorem addNexthop (fw : Forwarder) (q : Name) (j : FaceId) (cost : Nat) :
    Spares ids fw (fw.addNexthop q j cost) :=
  ⟨fun _ _ => rfl, fun _ _ _ h => h.addNexthop⟩

theorem grows {new : List FaceId} (h : fw.Grows new fw') (hn : ∀ id ∈ ids, id ∉ new) :
    Spares ids fw fw' := by
  obtain ⟨l, rfl, hl⟩ := h
  refine ⟨fun id hid => ?_, fun _ _ _ h => h⟩
  have hnil : l.filter (fun f => f.id == id) = [] := List.filter_eq_nil_iff.mpr fun f hf => by
    simp only [beq_iff_eq]
    rintro rfl
    exact hn f.id hid (hl f hf)
  unfold Forwarder.facesAt
  rw [List.filter_append, hnil, List.append_nil]

theorem removeFace (h : j ∉ ids) : Spares ids fw (fw.removeFace j) := by
  have hne : ∀ id ∈ ids, id ≠ j := fun id hid he => h (he ▸ hid)
  refine ⟨fun id hid => ?_, fun id hid p hr => ?_⟩
  · rw [facesAt_removeFace, if_neg (hne id hid)]
  · exact hr.removeFace (hne id hid)

/-- Cancelling another token than that of the faces. -/
theorem cancel {tok : Token} (h : ∀ id ∈ ids, ∀ f ∈ fw.facesAt id, f.token ≠ tok) :
    Spares ids fw (fw.cancel tok) := by
  refine ⟨fun id hid => ?_, fun id hid p hr => ?_⟩
  · unfold Forwarder.facesAt
    rw [faces_cancel, List.filter_filter]
    refine List.filter_congr fun f hf => ?_
    by_cases he : f.id = id
    · have hne := h id hid f (mem_facesAt.mpr ⟨hf, he⟩)
      simp [he, hne]
    · simp [he]
  · have hf : Routes { fw with faces := fw.faces.filter (·.token != tok) } p id := hr
    refine hf.dropNexthops ?_
    refine List.any_eq_false.mpr fun f hf hc => ?_
    simp only [Bool.and_eq_true, beq_iff_eq] at hc
    exact h id hid f (mem_facesAt.mpr ⟨hf, hc.1.1⟩) hc.1.2

end Spares

end Forwarder

/-! ## The invariant -/

/-- **Invariant**: the ids of app faces are used for nothing else. -/
structure Apart (n : Node) : Prop where
  ids : n.engine.Ids
  nodup : n.appIds.Nodup
  known : ∀ id ∈ n.appIds, id < n.engine.forwarder.nextId ∧ id ∉ n.engine.stableIds
  up : ∀ id ∈ n.openFaces, n.engine.forwarder.facesAt id = [⟨id, .app, .shutdown, false⟩]
  gone : ∀ id ∈ n.closed ++ n.waiting.toList, n.engine.forwarder.facesAt id = []
  routed : ∀ x ∈ n.registered, x.2 ∈ n.openFaces ∧ n.engine.forwarder.Routes x.1 x.2

variable {n : Node} {id : FaceId} {p : Name}

theorem Node.mem_appIds_open (h : id ∈ n.openFaces) : id ∈ n.appIds :=
  List.mem_append_left _ (List.mem_append_left _ h)

theorem Node.mem_appIds_gone (h : id ∈ n.closed ++ n.waiting.toList) : id ∈ n.appIds := by
  unfold appIds
  rw [List.append_assoc]
  exact List.mem_append_right _ h

namespace Apart

/-- A call that spares the app faces. -/
theorem edit (h : Apart n) {net : World} (hids : net.engine.Ids)
    (hle : n.engine.forwarder.nextId ≤ net.engine.forwarder.nextId)
    (hstable : ∀ id ∈ n.appIds, id ∉ net.engine.stableIds)
    (hs : Forwarder.Spares n.appIds n.engine.forwarder net.engine.forwarder) :
    Apart { n with net := net } where
  ids := hids
  nodup := h.nodup
  known id hid := ⟨Nat.lt_of_lt_of_le (h.known id hid).1 hle, hstable id hid⟩
  up id hid := (hs.facesAt id (Node.mem_appIds_open hid)).trans (h.up id hid)
  gone id hid := (hs.facesAt id (Node.mem_appIds_gone hid)).trans (h.gone id hid)
  routed x hx := by
    obtain ⟨ho, hr⟩ := h.routed x hx
    exact ⟨ho, hs.routes x.2 (Node.mem_appIds_open ho) x.1 hr⟩

/-- A call that edits the tables only, and hands out ids at most. -/
theorem tables (h : Apart n) {fw : Forwarder} {bulk : List (Name × FaceId)}
    {pins : Name → Option FaceId} (hids : fw.IdsLt)
    (hle : n.engine.forwarder.nextId ≤ fw.nextId)
    (hs : Forwarder.Spares n.appIds n.engine.forwarder fw) :
    Apart { n with net := ⟨{ n.engine with forwarder := fw, bulkPinned := pins }, bulk⟩ } :=
  h.edit ⟨hids, fun id hid => Nat.lt_of_lt_of_le (h.ids.stable id hid) hle, h.ids.supervised⟩ hle
    (fun id hid => (h.known id hid).2) hs

theorem nextId_notMem (h : Apart n) : n.engine.forwarder.nextId ∉ n.appIds :=
  fun hm => Nat.lt_irrefl _ (h.known _ hm).1

theorem facesAt_nextId (h : Apart n) :
    n.engine.forwarder.facesAt n.engine.forwarder.nextId = [] :=
  Forwarder.facesAt_eq_nil fun f hf => Nat.ne_of_lt (h.ids.faces f hf)

theorem alloc (h : Apart n) : Apart (n.setEngine n.engine.allocId) :=
  h.tables (fun f hf => Nat.lt_succ_of_lt (h.ids.faces f hf)) (Nat.le_succ _) (.same rfl rfl)

/-- A new face, not an app face, at an id that was just handed out, and a route to it. -/
theorem mount (h : Apart n) {f : Face} {cost : Nat} {fw : Forwarder} {bulk : List (Name × FaceId)}
    {pins : Name → Option FaceId} (hf : f.id = n.engine.forwarder.nextId)
    (hfaces : fw.faces = n.engine.forwarder.faces ++ [f])
    (hnext : fw.nextId = n.engine.forwarder.nextId + 1)
    (hfib : fw.fib = (n.engine.forwarder.addNexthop p f.id cost).fib) :
    Apart { n with net := ⟨{ n.engine with forwarder := fw, bulkPinned := pins }, bulk⟩ } := by
  refine h.tables (fun g hg => ?_) (by rw [hnext]; exact Nat.le_succ _) ?_
  · rw [hnext]
    rcases List.mem_append.mp (hfaces ▸ hg) with hg | hg
    · exact Nat.lt_succ_of_lt (h.ids.faces g hg)
    · rw [List.mem_singleton.mp hg, hf]
      exact Nat.lt_succ_self _
  · have hadd : Forwarder.Spares n.appIds n.engine.forwarder (n.engine.forwarder.addFace f) :=
      .addFace (hf ▸ h.nextId_notMem)
    have hroute := hadd.trans (.addNexthop _ p f.id cost)
    exact hroute.trans (.same hfaces hfib)

/-- An app face comes up at an id that is not yet used. -/
theorem openAt (h : Apart n) (hlt : id < n.engine.forwarder.nextId)
    (hstable : id ∉ n.engine.stableIds) (hnew : id ∉ n.appIds)
    (hnil : n.engine.forwarder.facesAt id = []) :
    Apart ((n.setEngine (n.engine.addAppFace id)).opened id) := by
  have hs : Forwarder.Spares n.appIds n.engine.forwarder (n.engine.addAppFace id).forwarder :=
    .addFace hnew
  have he : Apart (n.setEngine (n.engine.addAppFace id)) := by
    refine h.tables (fun f hf => ?_) (Nat.le_refl _) hs
    rcases List.mem_append.mp hf with hf | hf
    · exact h.ids.faces f hf
    · rw [List.mem_singleton.mp hf]
      exact hlt
  refine ⟨he.ids, List.nodup_cons.mpr ⟨hnew, h.nodup⟩, fun j hj => ?_, fun j hj => ?_, he.gone,
    fun x hx => ?_⟩
  · rcases List.mem_cons.mp hj with rfl | hj
    · exact ⟨hlt, hstable⟩
    · exact he.known j hj
  · rcases List.mem_cons.mp hj with rfl | hj
    · show (n.engine.forwarder.addFace _).facesAt j = _
      rw [Forwarder.facesAt_addFace, hnil]
      simp
    · exact he.up j hj
  · exact ⟨List.mem_cons_of_mem _ (he.routed x hx).1, (he.routed x hx).2⟩

/-- An app face at the next id. -/
theorem openNext (h : Apart n) :
    Apart ((n.setEngine (n.engine.allocId.addAppFace n.engine.forwarder.nextId)).opened
      n.engine.forwarder.nextId) :=
  h.alloc.openAt (Nat.lt_succ_self _) (fun hm => Nat.lt_irrefl _ (h.ids.stable _ hm))
    h.nextId_notMem h.facesAt_nextId

theorem route (h : Apart n) (q : Name) (j : FaceId) (cost : Nat) :
    Apart (n.setEngine (n.engine.addRoute q j cost)) :=
  h.tables h.ids.faces (Nat.le_refl _) (.addNexthop _ q j cost)

theorem register (h : Apart n) {cost : Nat} :
    Apart ((n.setEngine (n.engine.addRoute p id cost)).register p id) := by
  have hr := h.route p id cost
  unfold Node.register
  split
  · rename_i ho
    refine ⟨hr.ids, hr.nodup, hr.known, hr.up, hr.gone, fun x hx => ?_⟩
    rcases List.mem_cons.mp hx with rfl | hx
    · exact ⟨ho, Forwarder.routes_addNexthop_self _ p id cost⟩
    · exact hr.routed x hx
  · exact hr

end Apart

/-! ## A face is closed -/

namespace Node

@[simp] theorem mem_openFaces_close {j : FaceId} :
    j ∈ (n.close id).openFaces ↔ j ∈ n.openFaces ∧ j ≠ id := by
  simp [close]

theorem mem_closed_close {j : FaceId} :
    j ∈ (n.close id).closed ↔ j ∈ n.closed ∨ j = id ∧ id ∈ n.openFaces := by
  unfold close
  dsimp only
  split
  · rename_i h
    simp [h, or_comm]
  · rename_i h
    simp [h]

/-- Closing moves an id from the open faces to the closed ones. -/
theorem appIds_close (h : n.appIds.Nodup) (id : FaceId) : (n.close id).appIds.Perm n.appIds := by
  unfold appIds at h ⊢
  refine List.Perm.append_right _ ?_
  unfold close
  dsimp only
  have hnodup : n.openFaces.Nodup := (List.nodup_append.mp (List.nodup_append.mp h).1).1
  rw [← hnodup.erase_eq_filter]
  split
  · rename_i hm
    have hcons : (id :: n.openFaces.erase id).Perm n.openFaces := (List.perm_cons_erase hm).symm
    exact List.perm_middle.trans (hcons.append_right n.closed)
  · rename_i hm
    rw [List.erase_of_not_mem hm]

end Node

/-- A face is removed, with the routes to it. -/
theorem Apart.close (h : Apart n) {net : World} (hids : net.engine.Ids)
    (hnext : net.engine.forwarder.nextId = n.engine.forwarder.nextId)
    (hstable : net.engine.stableIds = n.engine.stableIds)
    (hfaces : net.engine.forwarder.faces = (n.engine.forwarder.removeFace id).faces)
    (hfib : net.engine.forwarder.fib = (n.engine.forwarder.removeFace id).fib) :
    Apart ({ n with net := net }.close id) := by
  have hperm : ({ n with net := net }.close id).appIds.Perm n.appIds :=
    Node.appIds_close (n := { n with net := net }) h.nodup id
  have hat (j : FaceId) : net.engine.forwarder.facesAt j =
      if j = id then [] else n.engine.forwarder.facesAt j := by
    rw [← Forwarder.facesAt_removeFace]
    unfold Forwarder.facesAt
    rw [hfaces]
  refine ⟨hids, hperm.nodup_iff.mpr h.nodup, fun j hj => ?_, fun j hj => ?_, fun j hj => ?_,
    fun x hx => ?_⟩
  · obtain ⟨hlt, hns⟩ := h.known j (hperm.mem_iff.mp hj)
    exact ⟨Nat.lt_of_lt_of_eq hlt hnext.symm, fun hm => hns (hstable ▸ hm)⟩
  · obtain ⟨ho, hne⟩ := Node.mem_openFaces_close.mp hj
    exact (hat j).trans ((if_neg hne).trans (h.up j ho))
  · refine (hat j).trans ?_
    split
    · rfl
    · rename_i hne
      rcases List.mem_append.mp hj with hj | hj
      · rcases Node.mem_closed_close.mp hj with hj | ⟨he, -⟩
        · exact h.gone j (List.mem_append_left _ hj)
        · exact absurd he hne
      · exact h.gone j (List.mem_append_right _ hj)
  · obtain ⟨hx, hne⟩ := List.mem_filter.mp hx
    have hne : x.2 ≠ id := by simpa using hne
    obtain ⟨ho, hr⟩ := h.routed x hx
    have hd : (n.engine.forwarder.removeFace id).Routes x.1 x.2 := hr.removeFace hne
    refine ⟨Node.mem_openFaces_close.mpr ⟨ho, hne⟩, ?_⟩
    unfold Forwarder.Routes at hd ⊢
    rwa [← hfib] at hd

/-! ## The network side -/

/-- An app face is not a child of a network token. -/
theorem Apart.cancel (h : Apart n) (gen : Nat) :
    Forwarder.Spares n.appIds n.engine.forwarder (n.engine.forwarder.cancel (.network gen)) := by
  refine .cancel fun id hid f hf => ?_
  unfold Node.appIds at hid
  rw [List.append_assoc] at hid
  rcases List.mem_append.mp hid with ho | hg
  · rw [h.up id ho, List.mem_singleton] at hf
    rw [hf]
    exact Token.noConfusion
  · rw [h.gone id hg] at hf
    cases hf

theorem apart_attach (h : Apart n) {t : World} (hm : AttachMove n.net p t) :
    Apart { n with net := t } := by
  cases hm with
  | refused => exact h
  | failed => exact h.alloc
  | mounted kind => exact h.mount (f := ⟨_, kind, n.engine.token, false⟩) rfl rfl rfl rfl

theorem apart_notePeerRoute (h : Apart n) (p : Name) (face : String) :
    Apart (n.setEngine (n.engine.notePeerRoute p face)) := by
  unfold notePeerRoute
  split
  · exact h
  split
  · exact h
  dsimp only
  split
  · exact h.route p _ _
  · refine h.tables h.ids.faces (Nat.le_refl _) ?_
    exact (Forwarder.Spares.addNexthop _ p _ _).trans (.same rfl rfl)

/-- Faces set up again at stable ids. -/
theorem Apart.grows (h : Apart n) {fw : Forwarder} {sup : List (FaceId × PeerSpec × Token)}
    (hg : n.engine.forwarder.Grows n.engine.stableIds fw)
    (hsup : ∀ s ∈ sup, ∃ x ∈ n.engine.networkPeers, x.1 = s.1) :
    Apart (n.setEngine { n.engine with forwarder := fw, supervisors := sup }) := by
  have hids : fw.IdsLt := (Forwarder.Allots.grows hg h.ids.stable).idsLt h.ids.faces
  refine h.edit ⟨hids, fun id hid => ?_, hsup⟩ (Nat.le_of_eq hg.nextId.symm)
    (fun id hid => (h.known id hid).2) (.grows hg fun id hid => (h.known id hid).2)
  exact Nat.lt_of_lt_of_eq (h.ids.stable id hid) hg.nextId.symm

theorem apart_net {c : Call} {t : World} (h : Apart n) (hm : Move n.net c t) :
    Apart (c.removes.elim { n with net := t } { n with net := t }.close) := by
  cases hm with
  | @attach c p t hc ha =>
    have ht := apart_attach h ha
    cases c with
    | detachNdpFace id => cases hc
    | _ => exact ht
  | detach id =>
    refine h.close ⟨fun f hf => ?_, h.ids.stable, h.ids.supervised⟩ rfl rfl rfl rfl
    exact h.ids.faces f (List.mem_of_mem_filter hf)
  | note p face => exact apart_notePeerRoute h p face
  | suspend =>
    refine h.edit ⟨fun f hf => ?_, h.ids.stable, h.ids.supervised⟩ (Nat.le_refl _)
      (fun id hid => (h.known id hid).2) (h.cancel n.engine.networkCancel)
    exact h.ids.faces f (List.mem_of_mem_filter hf)
  | resume up =>
    refine h.grows (resumeNetworkFaces_grows n.engine up) fun s hs => ?_
    rcases List.mem_append.mp hs with hs | hs
    · exact h.ids.supervised s hs
    · obtain ⟨x, hx, rfl⟩ := List.mem_map.mp hs
      exact ⟨x, hx, rfl⟩
  | redial i =>
    have hsup : ∀ s ∈ n.engine.supervisors, s.1 ∈ n.engine.stableIds := fun s hs => by
      obtain ⟨x, hx, he⟩ := h.ids.supervised s hs
      exact mem_stableIds.mpr (.inr (.inl ⟨x, hx, he⟩))
    have hg := redial_grows n.engine i hsup
    have hr := h.grows hg h.ids.supervised
    show Apart (n.setEngine (n.engine.redial i))
    rw [redial_eq]
    exact hr

/-- A radio comes up at its stable id, or at the next one. -/
theorem Apart.radio (h : Apart n) {e : MobileEngine} {old : Option FaceId} (kind : FaceKind)
    (hold : ∀ i, old = some i → i ∈ n.engine.stableIds) (hids : e.Ids)
    (hfw : e.forwarder =
      (n.engine.forwarder.mountRadio old kind n.engine.token).2.setStrategy [] .multicast)
    (hstable : ∀ i ∈ e.stableIds,
      i ∈ n.engine.stableIds ∨ i = old.getD n.engine.forwarder.nextId) :
    Apart (n.setEngine e) := by
  have hnew : old.getD n.engine.forwarder.nextId ∉ n.appIds := by
    cases old with
    | none => exact h.nextId_notMem
    | some i => exact fun hm => (h.known i hm).2 (hold i rfl)
  have hmount : Forwarder.Spares n.appIds n.engine.forwarder
      (n.engine.forwarder.mountRadio old kind n.engine.token).2 := by
    refine .trans ?_ (.addNexthop _ [] _ 0)
    refine .trans ?_ (.addFace hnew)
    split <;> exact .same rfl rfl
  have hle : n.engine.forwarder.nextId ≤ e.forwarder.nextId := by
    have ha : n.engine.forwarder.Allots
        (n.engine.forwarder.mountRadio old kind n.engine.token).2 :=
      .mountRadio fun i hi => h.ids.stable i (hold i hi)
    rw [hfw]
    exact ha.le
  refine h.edit hids hle (fun id hid hm => ?_) ?_
  · rcases hstable id hm with hs | rfl
    · exact (h.known id hid).2 hs
    · exact hnew hid
  · show Forwarder.Spares n.appIds n.engine.forwarder e.forwarder
    rw [hfw]
    exact hmount.trans (.same rfl rfl)

theorem apart_attachWifiAware (h : Apart n) : Apart (n.setEngine n.engine.attachWifiAware) := by
  refine h.radio .wifiAware (fun i hi => mem_stableIds.mpr (.inr (.inr (.inl hi))))
    (ids_attachWifiAware h.ids) rfl fun i hi => ?_
  rcases mem_stableIds.mp hi with hm | hp | hw | hb
  · exact .inl (mem_stableIds.mpr (.inl hm))
  · exact .inl (mem_stableIds.mpr (.inr (.inl hp)))
  · exact .inr (Option.some.inj hw).symm
  · exact .inl (mem_stableIds.mpr (.inr (.inr (.inr hb))))

theorem apart_attachBle (h : Apart n) : Apart (n.setEngine n.engine.attachBle) := by
  refine h.radio .bluetooth (fun i hi => mem_stableIds.mpr (.inr (.inr (.inr hi))))
    (ids_attachBle h.ids) rfl fun i hi => ?_
  rcases mem_stableIds.mp hi with hm | hp | hw | hb
  · exact .inl (mem_stableIds.mpr (.inl hm))
  · exact .inl (mem_stableIds.mpr (.inr (.inl hp)))
  · exact .inl (mem_stableIds.mpr (.inr (.inr (.inl hw))))
  · exact .inr (Option.some.inj hb).symm

theorem apart_attachWifiDirectMulticastFace (h : Apart n) (ndnDefault : Except IoError Unit) :
    Apart (n.setEngine (n.engine.attachWifiDirectMulticastFace ndnDefault).2) := by
  cases ndnDefault with
  | error err => exact h.alloc
  | ok _ => exact h.mount (p := []) (f := ⟨_, .wifiDirect, n.engine.token, false⟩) rfl rfl rfl rfl

/-! ## What a step does -/

/-- The listener takes the id of its next socket. -/
theorem Apart.listen (h : Apart n) (hw : n.waiting = none) :
    Apart { n.setEngine n.engine.allocId with waiting := some n.engine.forwarder.nextId } := by
  have ha := h.alloc
  have hids : ({ n.setEngine n.engine.allocId with
      waiting := some n.engine.forwarder.nextId } : Node).appIds =
      n.appIds ++ [n.engine.forwarder.nextId] := by
    simp [Node.appIds, Node.setEngine, hw]
  refine ⟨ha.ids, ?_, fun id hid => ?_, ha.up, fun id hid => ?_, ha.routed⟩
  · rw [hids]
    exact List.nodup_append.mpr ⟨h.nodup, List.pairwise_singleton _ _, fun a ha b hb => by
      rw [List.mem_singleton.mp hb]
      exact fun he => h.nextId_notMem (he ▸ ha)⟩
  · rw [hids] at hid
    rcases List.mem_append.mp hid with hid | hid
    · exact ha.known id hid
    · rw [List.mem_singleton.mp hid]
      exact ⟨Nat.lt_succ_self _, fun hm => Nat.lt_irrefl _ (h.ids.stable _ hm)⟩
  · rcases List.mem_append.mp hid with hid | hid
    · exact ha.gone id (List.mem_append_left _ hid)
    · rw [List.mem_singleton.mp hid]
      exact h.facesAt_nextId

/-- The listener gives its id up. -/
theorem Apart.unlisten (h : Apart n) : Apart { n with waiting := none } := by
  have hsub : ({ n with waiting := none } : Node).appIds.Sublist n.appIds := by
    show (n.openFaces ++ n.closed ++ []).Sublist (n.openFaces ++ n.closed ++ n.waiting.toList)
    exact List.Sublist.append_left (List.nil_sublist _) _
  refine ⟨h.ids, h.nodup.sublist hsub, fun id hid => h.known id (hsub.subset hid), h.up,
    fun id hid => ?_, h.routed⟩
  rw [Option.toList_none, List.append_nil] at hid
  exact h.gone id (List.mem_append_left _ hid)

theorem Apart.accept (h : Apart n) (hw : n.waiting = some id) :
    Apart (({ n with waiting := none }.setEngine (n.engine.addAppFace id)).opened id) := by
  have hmem : id ∈ n.appIds := by simp [Node.appIds, hw]
  have hnew : id ∉ ({ n with waiting := none } : Node).appIds := by
    have hn := h.nodup
    unfold Node.appIds at hn ⊢
    rw [hw] at hn
    intro hm
    rw [Option.toList_none, List.append_nil] at hm
    exact (List.nodup_append.mp hn).2.2 id hm id (List.mem_singleton_self id) rfl
  obtain ⟨hlt, hs⟩ := h.known id hmem
  refine h.unlisten.openAt hlt hs hnew (h.gone id ?_)
  simp [hw]

theorem apart_step {c : NodeCall} {t : Node} (h : Apart n) (hs : n.step c = some t) :
    Apart t := by
  cases c with
  | net c =>
    obtain ⟨net, hnet, rfl⟩ := Option.map_eq_some_iff.mp hs
    exact apart_net h (step_move hnet)
  | attach radio =>
    cases hs
    cases radio with
    | wifiAware => exact apart_attachWifiAware h
    | ble => exact apart_attachBle h
  | attachWifiDirectMulticastFace ndnDefault =>
    cases hs
    exact apart_attachWifiDirectMulticastFace h ndnDefault
  | routeToPeer q peer cost =>
    cases hs
    exact h.route q peer.id cost
  | routeToMulticast q =>
    cases hs
    unfold routeToMulticast
    split
    · exact h
    · exact h.route q _ 0
  | addRoute q j cost =>
    cases hs
    exact h.route q j cost
  | newAppHandle =>
    cases hs
    exact h.openNext
  | mountAppFd fromRawFd =>
    cases fromRawFd with
    | error err =>
      cases hs
      exact h.alloc
    | ok _ =>
      cases hs
      exact h.openNext
  | registerProducer q cost =>
    cases hs
    exact h.openNext.register
  | registerPrefix j q =>
    simp only [Node.step] at hs
    split at hs
    · cases hs
      exact h.register
    · cases hs
  | listen =>
    simp only [Node.step] at hs
    split at hs
    · rename_i hw
      cases hs
      exact h.listen hw
    · cases hs
  | accept socket =>
    simp only [Node.step] at hs
    split at hs
    · rename_i id hw
      cases hs
      exact h.accept hw
    · cases hs
      exact h.unlisten
    · cases hs
  | hangUp j =>
    simp only [Node.step] at hs
    split at hs
    · cases hs
      refine h.close ⟨fun f hf => ?_, h.ids.stable, h.ids.supervised⟩ rfl rfl rfl rfl
      exact h.ids.faces f (List.mem_of_mem_filter hf)
    · cases hs

/-! ## A built engine -/

theorem Forwarder.allocIf_ge {fw : Forwarder} {wanted : Bool} {i : FaceId}
    (h : (fw.allocIf wanted).1 = some i) : fw.nextId ≤ i := by
  cases wanted with
  | true => exact Nat.le_of_eq (Option.some.inj h)
  | false => cases h

/-- The ids of the configured faces come after that of the first app face. -/
theorem build_stable_ge (b : MobileEngineBuilder) (up : FaceId → Bool) :
    ∀ id ∈ (b.build up).stableIds, 2 ≤ id := by
  intro id hid
  have hmulticast : b.forwarder.Allots b.multicastId.2 := .allocIf _
  have hradio : b.multicastId.2.Allots b.radioIds.2 := .allocIf _
  rcases mem_stableIds.mp hid with ⟨hs, rfl⟩ | ⟨x, hx, rfl⟩ | hw | hb
  · obtain ⟨i, hi⟩ := Option.isSome_iff_exists.mp
      ((Forwarder.isSome_allocIf b.forwarder b.multicastIface.isSome).trans hs)
    show 2 ≤ Option.getD (b.forwarder.allocIf _).1 0
    rw [hi]
    exact Forwarder.allocIf_ge hi
  · have hle := reservePeers_le (buildMulticast b.radioIds.2 b.multicastIface
      (b.multicastId.1.getD 0) (.network 0) up) b.peerSpecs x hx
    rw [buildMulticast_eq] at hle
    exact Nat.le_trans (Nat.le_trans hmulticast.le hradio.le) hle
  · exact Nat.le_trans hmulticast.le (Forwarder.allocIf_ge hw)
  · cases hb

theorem reservePeers_fib (fw : Forwarder) (specs : List PeerSpec) :
    (reservePeers fw specs).2.fib = fw.fib := by
  induction specs generalizing fw with
  | nil => rfl
  | cons spec specs ih => exact ih fw.allocId

/-- Building puts nothing at the id of the first app face. -/
theorem build_spares (b : MobileEngineBuilder) (up : FaceId → Bool) :
    Forwarder.Spares [1] b.forwarder (b.build up).forwarder := by
  let fw1 := buildMulticast b.radioIds.2 b.multicastIface (b.multicastId.1.getD 0) (.network 0) up
  let peers := reservePeers fw1 b.peerSpecs
  let fw2 := buildPeers (.network 0) up peers.2 peers.1
  let fw3 := buildRadio fw2 b.radioIds.1 .wifiAware (.network 0)
  have hge := build_stable_ge b up
  have hone : ∀ id ∈ [1], id ∉ (b.build up).stableIds := fun id hid hm => by
    rw [List.mem_singleton.mp hid] at hm
    exact absurd (hge 1 hm) (by decide)
  have hradio : b.radioIds.2.faces = b.forwarder.faces := by
    show ((b.forwarder.allocIf _).2.allocIf _).2.faces = _
    rw [allocIf_faces, allocIf_faces]
  have hfib : b.radioIds.2.fib = b.forwarder.fib := by
    show ((b.forwarder.allocIf _).2.allocIf _).2.fib = _
    cases b.multicastIface.isSome <;> cases b.wifiAware <;> rfl
  have h0 : Forwarder.Spares [1] b.forwarder b.radioIds.2 := .same hradio hfib
  have h1 : Forwarder.Spares [1] b.radioIds.2 fw1 :=
    .grows (.buildMulticast fun hs => mem_stableIds.mpr (.inl ⟨hs, rfl⟩)) hone
  have h2 : Forwarder.Spares [1] fw1 peers.2 :=
    .same (reservePeers_faces fw1 b.peerSpecs) (reservePeers_fib fw1 b.peerSpecs)
  have h3 : Forwarder.Spares [1] peers.2 fw2 :=
    .grows (.buildPeers fun x hx => mem_stableIds.mpr (.inr (.inl ⟨x, hx, rfl⟩))) hone
  have h4 : Forwarder.Spares [1] fw2 fw3 :=
    .grows (.buildRadio fun i hi => mem_stableIds.mpr (.inr (.inr (.inl hi)))) hone
  refine h0.trans (h1.trans (h2.trans (h3.trans (h4.trans ?_))))
  show Forwarder.Spares [1] fw3 (buildCompute fw3 b.computePrefix)
  cases b.computePrefix with
  | none => exact .refl _ _
  | some p =>
    -- the compute face gets the id that is next by then
    have hnext : 2 ≤ fw3.nextId := by
      have ha : b.forwarder.Allots b.multicastId.2 := .allocIf _
      have hb : b.multicastId.2.Allots b.radioIds.2 := .allocIf _
      have hc : fw1.nextId = b.radioIds.2.nextId := by
        show (buildMulticast b.radioIds.2 _ _ _ up).nextId = _
        rw [buildMulticast_eq]
      have hd : fw1.Allots peers.2 := .reservePeers _
      have he : fw3.nextId = peers.2.nextId := by
        show (buildRadio (buildPeers _ up peers.2 peers.1) _ _ _).nextId = _
        rw [buildRadio_eq, buildPeers_eq]
      rw [he]
      exact Nat.le_trans (Nat.le_trans ha.le hb.le) (hc ▸ hd.le)
    have hface : Forwarder.Spares [1] fw3.allocId
        (fw3.allocId.addFace ⟨fw3.nextId, .compute, .shutdown, false⟩) :=
      .addFace fun hm => by
        have heq : fw3.nextId = 1 := List.mem_singleton.mp hm
        rw [heq] at hnext
        exact absurd hnext (by decide)
    have halloc : Forwarder.Spares [1] fw3 fw3.allocId := .same rfl rfl
    exact halloc.trans (hface.trans (.addNexthop _ p _ 0))

theorem apart_start (b : MobileEngineBuilder) (up : FaceId → Bool) : Apart (.start b up) where
  ids := ids_build b up
  nodup := List.pairwise_singleton _ _
  known id hid := by
    rw [show id = 1 from List.mem_singleton.mp hid]
    have hs := (build_spares b up).facesAt 1 (List.mem_singleton_self 1)
    have hm : (⟨1, .app, .shutdown, false⟩ : Face) ∈ (b.build up).forwarder.facesAt 1 := by
      rw [hs]
      exact List.mem_singleton_self _
    refine ⟨(ids_build b up).faces _ (Forwarder.mem_facesAt.mp hm).1, fun hst => ?_⟩
    exact absurd (build_stable_ge b up 1 hst) (by decide)
  up id hid := by
    rw [show id = 1 from List.mem_singleton.mp hid]
    exact (build_spares b up).facesAt 1 (List.mem_singleton_self 1)
  gone := nofun
  routed := nofun

/-- What the local side of a node can rely on. -/
structure Node.Served (n : Node) : Prop where
  /-- An open app face is up, alone at its id, and only the engine's shutdown ends it. -/
  up : ∀ id ∈ n.openFaces, n.engine.forwarder.facesAt id = [⟨id, .app, .shutdown, false⟩]
  /-- A registered prefix has a nexthop to its producer, which is open. -/
  routed : ∀ p id, (p, id) ∈ n.registered →
    id ∈ n.openFaces ∧ n.engine.forwarder.Routes p id
  /-- Nothing comes up at the id of a closed app face, and the id is not handed out again. -/
  gone : ∀ id ∈ n.closed, n.engine.forwarder.facesAt id = [] ∧ id ∉ n.openFaces
  /-- No id is that of two app faces, or of a face that is set up again and again. -/
  apart : n.openFaces.Nodup ∧ ∀ id ∈ n.openFaces, id ∉ n.engine.stableIds

theorem Apart.served (h : Apart n) : n.Served where
  up := h.up
  routed p id hm := h.routed (p, id) hm
  gone id hid := by
    refine ⟨h.gone id (List.mem_append_left _ hid), fun ho => ?_⟩
    have hn := (List.nodup_append.mp h.nodup).1
    exact (List.nodup_append.mp hn).2.2 id ho id hid rfl
  apart := by
    refine ⟨(List.nodup_append.mp (List.nodup_append.mp h.nodup).1).1, fun id hid => ?_⟩
    exact (h.known id (Node.mem_appIds_open hid)).2

/-- **Local producers are served** in every state of every run: whatever is suspended, resumed,
attached, detached or routed meanwhile, the app faces that were not closed are up with their
routes, and no other face takes their ids. -/
theorem producers_served (b : MobileEngineBuilder) (up : FaceId → Bool)
    {tr : List (Trans Node NodeCall)} {u : Node}
    (hrun : Run (stepRel Node.step) (.start b up) tr u) :
    u.Served ∧ ∀ x ∈ tr, x.post.Served := by
  obtain ⟨hu, hmem⟩ := hrun.inv (I := Apart) (fun hi hs => apart_step hi hs) (apart_start b up)
  exact ⟨hu.served, fun x hx => (hmem x hx).2.served⟩

/-- A producer registers and the UI process connects, while the app goes to the background and
comes back with BLE and an NDP. -/
def backgroundCalls : List NodeCall :=
  [.registerProducer peerPrefix 0, .listen, .attach .ble, .net .suspendNetworkFaces,
    .accept (.ok ()), .net (.resumeNetworkFaces fun _ => true),
    .net (.attachNdpFace peerPrefix .ok), .net (.detachNdpFace 6), .hangUp 4]

theorem producers_served_backgroundCalls : ∃ tr u,
    Run (stepRel Node.step) (.start nanNode fun _ => true) tr u ∧
    u.registered = [(peerPrefix, 3)] ∧ u.closed = [4] ∧
    (u.Served ∧ ∀ x ∈ tr, x.post.Served) := by
  obtain ⟨u, hu, hr, hc⟩ : ∃ u, exec Node.step (.start nanNode fun _ => true) backgroundCalls =
    some u ∧ u.registered = [(peerPrefix, 3)] ∧ u.closed = [4] := ⟨_, rfl, rfl, rfl⟩
  obtain ⟨tr, hrun, -⟩ := exec_run hu
  exact ⟨tr, u, hrun, hr, hc, producers_served nanNode (fun _ => true) hrun⟩

end NdnMobile.Engine
