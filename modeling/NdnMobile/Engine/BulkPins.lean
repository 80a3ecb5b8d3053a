import NdnMobile.Engine.MobileEngine
import NdnMobile.Lib.Run

/-!
# Bulk pins

`bulkPinned` remembers one face for a prefix: while it does, `notePeerRoute` leaves the
prefix's strategy alone. Runs of the calls that touch the pins, over an engine that was
built and given its radios, with a record of the bulk faces attached and not detached. A
prefix with a bulk face keeps `MeasuredStrategy` exactly when no detach takes its pinned
face from beside another one (`measured_iff`); pins name live faces, and beacons fan out,
exactly when no suspend finds a pin (`pinsLive_iff`).
-/

namespace NdnMobile.Engine

open NdnMobile.Lib NdnMobile.Packet MobileEngine

/-- An engine and the bulk faces, with their prefixes, attached to it and not detached. -/
structure World where
  engine : MobileEngine
  bulk : List (Name × FaceId)

inductive Call where
  | attachNdpFace (prefix' : Name) (os : Os)
  | attachWifiDirectFace (prefix' : Name) (os : Os)
  | attachInfraTunnelFace (prefix' : Name) (os : Os)
  | attachInfraTunnelFd (prefix' : Name) (os : Os)
  | detachNdpFace (id : FaceId)
  | notePeerRoute (prefix' : Name) (face : String)
  | suspendNetworkFaces
  | resumeNetworkFaces (up : FaceId → Bool)
  | redial (i : Nat)

/-- An attach, recorded if it succeeds. -/
def World.attach (w : World) (prefix' : Name) : Except IoError FaceId × MobileEngine → World
  | (.ok id, e) => ⟨e, (prefix', id) :: w.bulk⟩
  | (.error _, e) => ⟨e, w.bulk⟩

def step (w : World) : Call → Option World
  | .attachNdpFace p os => some (w.attach p (w.engine.attachNdpFace p os))
  | .attachWifiDirectFace p os => some (w.attach p (w.engine.attachWifiDirectFace p os))
  | .attachInfraTunnelFace p os => some (w.attach p (w.engine.attachInfraTunnelFace p os))
  | .attachInfraTunnelFd p os => some (w.attach p (w.engine.attachInfraTunnelFd p os))
  | .detachNdpFace id =>
    some ⟨w.engine.detachNdpFace id, w.bulk.filter fun x => x.2 != id⟩
  | .notePeerRoute p face => some { w with engine := w.engine.notePeerRoute p face }
  | .suspendNetworkFaces => some { w with engine := w.engine.suspendNetworkFaces }
  | .resumeNetworkFaces up => some { w with engine := w.engine.resumeNetworkFaces up }
  | .redial i => some { w with engine := w.engine.redial i }

/-- Radios attached after the engine was built. -/
inductive Radio where
  | wifiAware
  | ble
  deriving DecidableEq, Repr

def Radio.attach (e : MobileEngine) : Radio → MobileEngine
  | .wifiAware => e.attachWifiAware
  | .ble => e.attachBle

/-- A built engine with its radios, and no bulk face yet. -/
def World.start (b : MobileEngineBuilder) (up : FaceId → Bool) (radios : List Radio) : World :=
  ⟨radios.foldl Radio.attach (b.build up), []⟩

variable {w t : World} {p : Name} {tr : List (Trans World Call)}

/-- What attaching a bulk face can do: the socket is not bound, or not adopted once an id is
allocated, or the face is mounted. -/
inductive AttachMove (w : World) (p : Name) : World → Prop where
  | refused : AttachMove w p w
  | failed : AttachMove w p { w with engine := w.engine.allocId }
  | mounted (kind : FaceKind) : AttachMove w p
    ⟨w.engine.allocId.mountBulk p kind w.engine.forwarder.nextId,
      (p, w.engine.forwarder.nextId) :: w.bulk⟩

theorem attachUdpBulkFace_move (w : World) (p : Name) (kind : FaceKind) (os : Os) :
    AttachMove w p (w.attach p (w.engine.attachUdpBulkFace p kind os)) := by
  unfold attachUdpBulkFace
  cases os.adopt with
  | error err => exact .failed
  | ok _ => exact .mounted kind

theorem attachInfraTunnelFace_move (w : World) (p : Name) (os : Os) :
    AttachMove w p (w.attach p (w.engine.attachInfraTunnelFace p os)) := by
  unfold attachInfraTunnelFace
  cases os.bind with
  | error err => exact .refused
  | ok _ => exact attachUdpBulkFace_move w p .infraTunnel os

/-- The prefix that a call attaches a bulk face to. -/
def Call.attaches : Call → Option Name
  | .attachNdpFace p _ | .attachWifiDirectFace p _ | .attachInfraTunnelFace p _
  | .attachInfraTunnelFd p _ => some p
  | _ => none

/-- What a step can do, the four attach calls taken together. -/
inductive Move (w : World) : Call → World → Prop where
  | attach {c : Call} {p : Name} {t : World} : c.attaches = some p → AttachMove w p t → Move w c t
  | detach (id : FaceId) : Move w (.detachNdpFace id)
    ⟨w.engine.detachNdpFace id, w.bulk.filter fun x => x.2 != id⟩
  | note (p : Name) (face : String) :
    Move w (.notePeerRoute p face) { w with engine := w.engine.notePeerRoute p face }
  | suspend : Move w .suspendNetworkFaces { w with engine := w.engine.suspendNetworkFaces }
  | resume (up : FaceId → Bool) : Move w (.resumeNetworkFaces up)
    { w with engine := w.engine.resumeNetworkFaces up }
  | redial (i : Nat) : Move w (.redial i) { w with engine := w.engine.redial i }

theorem step_move {c : Call} (h : step w c = some t) : Move w c t := by
  cases c <;> cases h
  case attachInfraTunnelFace p os =>
    exact .attach rfl (attachInfraTunnelFace_move w p os)
  case detachNdpFace id => exact .detach id
  case notePeerRoute p face => exact .note p face
  case suspendNetworkFaces => exact .suspend
  case resumeNetworkFaces up => exact .resume up
  case redial i => exact .redial i
  all_goals exact .attach rfl (attachUdpBulkFace_move w _ _ _)

/-! ## A bulk face keeps the measured strategy -/

/-- Every prefix with a bulk face has `MeasuredStrategy`. -/
def World.Measured (w : World) : Prop :=
  ∀ p id, (p, id) ∈ w.bulk → w.engine.forwarder.strategyTable p = some .measured

/-- A detach takes the pinned face of a prefix only if it is the prefix's last bulk face. -/
def Call.TakesLast (w : World) : Call → Prop
  | .detachNdpFace id => ∀ p, w.engine.bulkPinned p = some id → ∀ f, (p, f) ∈ w.bulk → f = id
  | _ => True

/-- It is enough to look at the recorded faces. -/
instance (w : World) (c : Call) : Decidable (c.TakesLast w) :=
  match c with
  | .detachNdpFace id =>
    decidable_of_iff (∀ x ∈ w.bulk, w.engine.bulkPinned x.1 = some id → x.2 = id)
      ⟨fun h p hp f hf => h (p, f) hf hp, fun h x hx hp => h x.1 hp x.2 hx⟩
  | .attachNdpFace .. | .attachWifiDirectFace .. | .attachInfraTunnelFace ..
  | .attachInfraTunnelFd .. | .notePeerRoute .. | .suspendNetworkFaces
  | .resumeNetworkFaces _ | .redial _ => .isTrue trivial

/-- **Invariant**: the prefixes with a bulk face are the pinned ones, and measured. -/
structure Pinned (w : World) : Prop where
  measured : w.Measured
  pinned : ∀ p id, (p, id) ∈ w.bulk → (w.engine.bulkPinned p).isSome
  recorded : ∀ p id, w.engine.bulkPinned p = some id → (p, id) ∈ w.bulk

/-- Neither the pins nor the strategies changed. -/
theorem Pinned.frame (h : Pinned w) (hb : t.bulk = w.bulk)
    (hp : t.engine.bulkPinned = w.engine.bulkPinned)
    (hs : t.engine.forwarder.strategyTable = w.engine.forwarder.strategyTable) : Pinned t := by
  refine ⟨fun p id hm => ?_, fun p id hm => ?_, fun p id hm => ?_⟩
  · exact hs ▸ h.measured p id (hb ▸ hm)
  · exact hp ▸ h.pinned p id (hb ▸ hm)
  · exact hb ▸ h.recorded p id (hp ▸ hm)

theorem pinned_mountBulk (h : Pinned w) (kind : FaceKind) (id : FaceId) :
    Pinned ⟨w.engine.mountBulk p kind id, (p, id) :: w.bulk⟩ := by
  refine ⟨fun q f hm => ?_, fun q f hm => ?_, fun q f hm => ?_⟩
  all_goals simp only [mountBulk, Forwarder.strategyTable_setStrategy,
    Forwarder.strategyTable_addNexthop, Forwarder.strategyTable_addFace,
    Function.update_apply, List.mem_cons, Prod.mk.injEq] at hm ⊢
  · split
    · rfl
    · rcases hm with ⟨hq, -⟩ | hm
      · exact absurd hq ‹_›
      · exact h.measured q f hm
  · split
    · rfl
    · rcases hm with ⟨hq, -⟩ | hm
      · exact absurd hq ‹_›
      · exact h.pinned q f hm
  · split at hm
    · exact .inl ⟨‹_›, (Option.some.inj hm).symm⟩
    · exact .inr (h.recorded q f hm)

theorem pinned_detach {id : FaceId} (h : Pinned w) (hc : (Call.detachNdpFace id).TakesLast w) :
    Pinned ⟨w.engine.detachNdpFace id, w.bulk.filter fun x => x.2 != id⟩ := by
  -- A prefix that keeps a bulk face was not pinned to the one that goes.
  have hkeep {q : Name} {f : FaceId} (hm : (q, f) ∈ w.bulk.filter fun x => x.2 != id) :
      (q, f) ∈ w.bulk ∧ w.engine.bulkPinned q ≠ some id := by
    obtain ⟨hm, hne⟩ := List.mem_filter.mp hm
    exact ⟨hm, fun hq => by simp [hc q hq f hm] at hne⟩
  refine ⟨fun q f hm => ?_, fun q f hm => ?_, fun q f hm => ?_⟩
  · obtain ⟨hm, hq⟩ := hkeep hm
    simp only [detachNdpFace, if_neg hq]
    exact h.measured q f hm
  · obtain ⟨hm, hq⟩ := hkeep hm
    simp only [detachNdpFace, if_neg hq]
    exact h.pinned q f hm
  · simp only [detachNdpFace] at hm
    split at hm
    · cases hm
    · rename_i hq
      refine List.mem_filter.mpr ⟨h.recorded q f hm, ?_⟩
      simp only [bne_iff_ne, ne_eq]
      rintro rfl
      exact hq hm

theorem pinned_notePeerRoute (h : Pinned w) (p : Name) (face : String) :
    Pinned { w with engine := w.engine.notePeerRoute p face } := by
  unfold notePeerRoute
  split
  · exact h
  split
  · exact h
  dsimp only
  split
  · exact h.frame rfl rfl rfl
  · rename_i hq
    refine ⟨fun q f hm => ?_, h.pinned, h.recorded⟩
    simp only [Forwarder.strategyTable_setStrategy, Forwarder.strategyTable_addNexthop,
      Function.update_apply]
    split
    · rename_i he
      exact absurd (he ▸ h.pinned q f hm) hq
    · exact h.measured q f hm

theorem pinned_grows {fw : Forwarder} {ids : List FaceId} (h : Pinned w)
    (hg : w.engine.forwarder.Grows ids fw) (he : t.engine.forwarder = fw) (hb : t.bulk = w.bulk)
    (hp : t.engine.bulkPinned = w.engine.bulkPinned) : Pinned t := by
  obtain ⟨l, rfl, -⟩ := hg
  exact h.frame hb hp (by rw [he])

theorem pinned_move {c : Call} (h : Pinned w) (hc : c.TakesLast w) (hm : Move w c t) :
    Pinned t := by
  cases hm with
  | attach _ ha =>
    cases ha with
    | refused => exact h
    | failed => exact h.frame rfl rfl rfl
    | mounted kind =>
      have ha : Pinned ⟨w.engine.allocId, w.bulk⟩ := h.frame rfl rfl rfl
      exact pinned_mountBulk ha kind _
  | detach id => exact pinned_detach h hc
  | note p face => exact pinned_notePeerRoute h p face
  | suspend => exact h.frame rfl rfl rfl
  | resume up => exact pinned_grows h (resumeNetworkFaces_grows w.engine up) rfl rfl rfl
  | redial i =>
    have hg := redial_grows w.engine i fun s hs => List.mem_map_of_mem (f := Prod.fst) hs
    refine pinned_grows h hg rfl rfl ?_
    dsimp only
    rw [redial_eq]

/-- A detach that leaves a prefix measured took its last bulk face. -/
theorem takesLast_of_measured {c : Call} (hm : Move w c t) (ht : t.Measured) :
    c.TakesLast w := by
  cases hm with
  | detach id =>
    intro q hq f hf
    by_contra hne
    have := ht q f (List.mem_filter.mpr ⟨hf, by simpa using hne⟩)
    simp only [detachNdpFace, if_pos hq] at this
    exact absurd this (by decide)
  | @attach c p t hp =>
    cases c with
    | detachNdpFace id => cases hp
    | _ => trivial
  | note | suspend | resume | redial => trivial

theorem bulkPinned_radios (radios : List Radio) (e : MobileEngine)
    (h : ∀ p, e.bulkPinned p = none) : ∀ p, (radios.foldl Radio.attach e).bulkPinned p = none := by
  induction radios generalizing e with
  | nil => exact h
  | cons r rs ih => cases r <;> exact ih _ h

theorem bulkPinned_start (b : MobileEngineBuilder) (up : FaceId → Bool) (radios : List Radio) :
    ∀ p, (World.start b up radios).engine.bulkPinned p = none :=
  bulkPinned_radios radios (b.build up) fun _ => rfl

theorem pinned_start (b : MobileEngineBuilder) (up : FaceId → Bool) (radios : List Radio) :
    Pinned (.start b up radios) :=
  ⟨nofun, nofun, fun p id h => by rw [bulkPinned_start] at h; cases h⟩

/-- **Bulk faces keep `MeasuredStrategy`** throughout a run, exactly when no detach in it takes
the pinned face of a prefix that has another bulk face. -/
theorem measured_iff (b : MobileEngineBuilder) (up : FaceId → Bool) (radios : List Radio)
    {tr : List (Trans World Call)} {u : World}
    (hrun : Run (stepRel step) (.start b up radios) tr u) :
    (∀ x ∈ tr, x.post.Measured) ↔ ∀ x ∈ tr, x.act.TakesLast x.pre := by
  refine hrun.exact (I := Pinned) (C := fun w c => c.TakesLast w) (P := fun x => x.post.Measured)
    ?_ ?_ (pinned_start b up radios)
  · intro w c t hi hs
    have hm : Move w c t := step_move hs
    exact ⟨takesLast_of_measured hm, fun hc => (pinned_move hi hc hm).measured⟩
  · intro w c t hi hc hs
    exact pinned_move hi hc (step_move hs)

/-- A node with a NAN radio and no configured peers. -/
def nanNode : MobileEngineBuilder where
  strategy := .bestRoute
  multicastIface := none
  unicastPeers := []
  tcpPeers := []
  wsPeers := []
  serialPorts := []
  webtransportPeers := []
  wifiAware := true
  computePrefix := none
  linkProfile
    | .wifiDirect => 8
    | .udp => 10
    | .infraTunnel => 12
    | .wifiAware => 20
    | _ => 50

def nanStart : World := .start nanNode (fun _ => true) []

/-- The prefix of a peer. -/
def peerPrefix : Name := [⟨8, [112]⟩]

/-- Wi-Fi Direct comes up beside an NDP, the NDP goes down, and a beacon is heard. -/
def handoverCalls : List Call :=
  [.attachNdpFace peerPrefix .ok, .attachWifiDirectFace peerPrefix .ok, .detachNdpFace 3,
    .notePeerRoute peerPrefix "wifi-aware"]

theorem measured_iff_handoverCalls : ∃ tr u, Run (stepRel step) nanStart tr u ∧
    u.bulk = [(peerPrefix, 4)] ∧ ∀ x ∈ tr, x.post.Measured := by
  obtain ⟨u, hu, hb⟩ : ∃ u, exec (guarded (fun w c => decide (c.TakesLast w)) step) nanStart
    handoverCalls = some u ∧ u.bulk = [(peerPrefix, 4)] := ⟨_, rfl, rfl⟩
  obtain ⟨tr, hrun, -, hlast⟩ := exec_guarded hu
  refine ⟨tr, u, hrun, hb, (measured_iff nanNode (fun _ => true) [] hrun).mpr fun x hx => ?_⟩
  exact of_decide_eq_true (hlast x hx)

/-- The other way round, the prefix of the NDP that stays up is fanned out. -/
theorem measured_fails : ¬ ∀ (b : MobileEngineBuilder) (up : FaceId → Bool) (radios : List Radio)
    (tr : List (Trans World Call)) (u : World), Run (stepRel step) (.start b up radios) tr u →
      ∀ x ∈ tr, x.post.Measured := by
  intro h
  obtain ⟨u, hu, hb, hs⟩ : ∃ u, exec step nanStart [.attachNdpFace peerPrefix .ok,
      .attachWifiDirectFace peerPrefix .ok, .detachNdpFace 4] = some u ∧
      u.bulk = [(peerPrefix, 3)] ∧
      u.engine.forwarder.strategyTable peerPrefix = some .multicast := ⟨_, rfl, rfl, rfl⟩
  obtain ⟨tr, hrun, hacts⟩ := exec_run hu
  obtain ⟨x, hx, rfl⟩ := hrun.last_mem (by rintro rfl; cases hacts)
  have hm := h nanNode (fun _ => true) [] tr _ hrun x hx peerPrefix 3 (by simp [hb])
  rw [hs] at hm
  exact absurd hm (by decide)

/-! ## Pins name live faces -/

/-- A live bulk face serves the prefix. -/
def World.Serves (w : World) (p : Name) : Prop :=
  ∃ id, (p, id) ∈ w.bulk ∧ w.engine.forwarder.Live id

/-- Every pin names a live face. -/
def World.PinsLive (w : World) : Prop :=
  ∀ p id, w.engine.bulkPinned p = some id → w.engine.forwarder.Live id

/-- After a beacon heard on a radio that is attached, a prefix that no live bulk face serves is
fanned out. -/
def FansOut (x : Trans World Call) : Prop :=
  ∀ p face kind, x.act = .notePeerRoute p face → radioKind face = some kind →
    (x.pre.engine.radioFace kind).isSome → ¬ x.post.Serves p →
      x.post.engine.forwarder.strategyTable p = some .multicast

/-- A suspend finds no prefix pinned. -/
def Call.Unpinned (w : World) : Call → Prop
  | .suspendNetworkFaces => ∀ p, w.engine.bulkPinned p = none
  | _ => True

def Call.isSuspend : Call → Bool
  | .suspendNetworkFaces => true
  | _ => false

/-- **Invariant**: pins name live bulk faces, and bulk faces have ids of their own and the
current network token. -/
structure LivePins (w : World) : Prop where
  ids : w.engine.Ids
  live : w.PinsLive
  recorded : ∀ p id, w.engine.bulkPinned p = some id → (p, id) ∈ w.bulk
  bulk : ∀ x ∈ w.bulk, x.2 < w.engine.forwarder.nextId ∧ x.2 ∉ w.engine.stableIds
  current : ∀ x ∈ w.bulk, ∀ f ∈ w.engine.forwarder.faces, f.id = x.2 → f.token = w.engine.token

/-- With no bulk face left, nothing is pinned. -/
theorem LivePins.unpinned (h : LivePins w) (hb : w.bulk = []) :
    ∀ p, w.engine.bulkPinned p = none := by
  refine fun p => Option.eq_none_iff_forall_ne_some.mpr fun id hp => ?_
  exact List.not_mem_nil (hb ▸ h.recorded p id hp)

/-- Table edits that leave the faces alone. -/
theorem LivePins.sameFaces {fw : Forwarder} (h : LivePins w)
    (hf : fw.faces = w.engine.forwarder.faces) (hn : w.engine.forwarder.nextId ≤ fw.nextId) :
    LivePins { w with engine := { w.engine with forwarder := fw } } where
  ids := ⟨fun f hm => Nat.lt_of_lt_of_le (h.ids.faces f (hf ▸ hm)) hn,
    fun id hid => Nat.lt_of_lt_of_le (h.ids.stable id hid) hn, h.ids.supervised⟩
  live p id hp := by
    obtain ⟨f, hm, hid⟩ := h.live p id hp
    exact ⟨f, hf ▸ hm, hid⟩
  recorded := h.recorded
  bulk x hx := ⟨Nat.lt_of_lt_of_le (h.bulk x hx).1 hn, (h.bulk x hx).2⟩
  current x hx f hm := h.current x hx f (hf ▸ hm)

/-- Faces set up again at stable ids. -/
theorem LivePins.grows {fw : Forwarder} {sup : List (FaceId × PeerSpec × Token)}
    (h : LivePins w) (hg : w.engine.forwarder.Grows w.engine.stableIds fw)
    (hsup : ∀ s ∈ sup, ∃ x ∈ w.engine.networkPeers, x.1 = s.1) :
    LivePins { w with engine := { w.engine with forwarder := fw, supervisors := sup } } where
  ids := ⟨(Forwarder.Allots.grows hg h.ids.stable).idsLt h.ids.faces,
    fun id hid => hg.nextId ▸ h.ids.stable id hid, hsup⟩
  live p id hp := by
    obtain ⟨f, hm, hid⟩ := h.live p id hp
    obtain ⟨l, rfl, -⟩ := hg
    exact ⟨f, List.mem_append_left l hm, hid⟩
  recorded := h.recorded
  bulk x hx := ⟨hg.nextId ▸ (h.bulk x hx).1, (h.bulk x hx).2⟩
  current x hx f hm hid := by
    obtain ⟨l, rfl, hl⟩ := hg
    rcases List.mem_append.mp hm with hm | hm
    · exact h.current x hx f hm hid
    · exact absurd (hid ▸ hl f hm) (h.bulk x hx).2

theorem livePins_mountBulk (h : LivePins w) (p : Name) (kind : FaceKind) :
    LivePins ⟨w.engine.allocId.mountBulk p kind w.engine.forwarder.nextId,
      (p, w.engine.forwarder.nextId) :: w.bulk⟩ where
  ids := ⟨fun f hm => by
      rcases List.mem_append.mp hm with hm | hm
      · exact Nat.lt_succ_of_lt (h.ids.faces f hm)
      · rw [List.mem_singleton.mp hm]
        exact Nat.lt_succ_self _,
    fun id hid => Nat.lt_succ_of_lt (h.ids.stable id hid), h.ids.supervised⟩
  live q id hq := by
    simp only [mountBulk, allocId, Function.update_apply] at hq
    split at hq
    · rw [Option.some.injEq] at hq
      exact ⟨_, List.mem_concat_self, hq⟩
    · obtain ⟨f, hm, hid⟩ := h.live q id hq
      exact ⟨f, List.mem_append_left _ hm, hid⟩
  recorded q id hq := by
    simp only [mountBulk, allocId, Function.update_apply] at hq
    split at hq
    · rename_i he
      rw [Option.some.injEq] at hq
      exact List.mem_cons.mpr (.inl (by rw [he, hq]))
    · exact List.mem_cons_of_mem _ (h.recorded q id hq)
  bulk x hx := by
    rcases List.mem_cons.mp hx with rfl | hx
    · exact ⟨Nat.lt_succ_self _, fun hs => Nat.lt_irrefl _ (h.ids.stable _ hs)⟩
    · exact ⟨Nat.lt_succ_of_lt (h.bulk x hx).1, (h.bulk x hx).2⟩
  current x hx f hm hid := by
    rcases List.mem_append.mp hm with hm | hm
    · rcases List.mem_cons.mp hx with rfl | hx
      · exact absurd hid (Nat.ne_of_lt (h.ids.faces f hm))
      · exact h.current x hx f hm hid
    · rw [List.mem_singleton.mp hm]
      rfl

theorem livePins_detach (h : LivePins w) (id : FaceId) :
    LivePins ⟨w.engine.detachNdpFace id, w.bulk.filter fun x => x.2 != id⟩ := by
  -- A pin that stays names another face.
  have hkeep {q : Name} {f : FaceId} (hq : (w.engine.detachNdpFace id).bulkPinned q = some f) :
      w.engine.bulkPinned q = some f ∧ f ≠ id := by
    simp only [detachNdpFace] at hq
    split at hq
    · cases hq
    · exact ⟨hq, by rintro rfl; exact absurd hq ‹_›⟩
  refine ⟨⟨fun f hm => h.ids.faces f (List.mem_of_mem_filter hm), h.ids.stable,
    h.ids.supervised⟩, fun q f hq => ?_, fun q f hq => ?_, fun x hx => ?_, fun x hx f hm => ?_⟩
  · obtain ⟨hq, hne⟩ := hkeep hq
    obtain ⟨g, hm, rfl⟩ := h.live q f hq
    exact ⟨g, List.mem_filter.mpr ⟨hm, by simpa using hne⟩, rfl⟩
  · obtain ⟨hq, hne⟩ := hkeep hq
    exact List.mem_filter.mpr ⟨h.recorded q f hq, by simpa using hne⟩
  · exact h.bulk x (List.mem_of_mem_filter hx)
  · exact h.current x (List.mem_of_mem_filter hx) f (List.mem_of_mem_filter hm)

/-- After a suspend no bulk face is up. -/
theorem not_live_suspend (h : LivePins w) {x : Name × FaceId} (hx : x ∈ w.bulk) :
    ¬ w.engine.suspendNetworkFaces.forwarder.Live x.2 := by
  rintro ⟨f, hm, hid⟩
  obtain ⟨hm, hne⟩ := List.mem_filter.mp hm
  rw [h.current x hx f hm hid] at hne
  simp at hne

theorem livePins_suspend (h : LivePins w) (hp : ∀ p, w.engine.bulkPinned p = none) :
    LivePins { w with engine := w.engine.suspendNetworkFaces } where
  ids := ⟨fun f hm => h.ids.faces f (List.mem_of_mem_filter hm), h.ids.stable, h.ids.supervised⟩
  live p id hq := by
    rw [show w.engine.suspendNetworkFaces.bulkPinned p = none from hp p] at hq
    cases hq
  recorded p id hq := by
    rw [show w.engine.suspendNetworkFaces.bulkPinned p = none from hp p] at hq
    cases hq
  bulk := h.bulk
  current x hx f hm hid := absurd ⟨f, hm, hid⟩ (not_live_suspend h hx)

theorem livePins_notePeerRoute (h : LivePins w) (p : Name) (face : String) :
    LivePins { w with engine := w.engine.notePeerRoute p face } := by
  unfold notePeerRoute
  split
  · exact h
  split
  · exact h
  dsimp only
  split <;> exact h.sameFaces rfl (Nat.le_refl _)

theorem livePins_move {c : Call} (h : LivePins w) (hc : c.Unpinned w) (hm : Move w c t) :
    LivePins t := by
  cases hm with
  | attach _ ha =>
    cases ha with
    | refused => exact h
    | failed => exact h.sameFaces rfl (Nat.le_succ _)
    | mounted kind => exact livePins_mountBulk h _ kind
  | detach id => exact livePins_detach h id
  | note p face => exact livePins_notePeerRoute h p face
  | suspend => exact livePins_suspend h hc
  | resume up =>
    refine h.grows (resumeNetworkFaces_grows w.engine up) fun s hs => ?_
    rcases List.mem_append.mp hs with hs | hs
    · exact h.ids.supervised s hs
    · obtain ⟨x, hx, rfl⟩ := List.mem_map.mp hs
      exact ⟨x, hx, rfl⟩
  | redial i =>
    rw [redial_eq]
    refine h.grows (redial_grows w.engine i fun s hs => ?_) h.ids.supervised
    obtain ⟨x, hx, he⟩ := h.ids.supervised s hs
    exact mem_stableIds.mpr (.inr (.inl ⟨x, hx, he⟩))

/-- A beacon fans its prefix out, or finds it pinned to a live bulk face. -/
theorem fansOut_move {c : Call} (h : LivePins w) (hm : Move w c t) : FansOut ⟨w, c, t⟩ := by
  rintro p face kind rfl hk hr hs
  cases hm with
  | attach hp => cases hp
  | note p face =>
    obtain ⟨id, hid⟩ := Option.isSome_iff_exists.mp hr
    simp only [notePeerRoute, hk, hid] at hs ⊢
    split
    · rename_i hpin
      obtain ⟨f, hf⟩ := Option.isSome_iff_exists.mp hpin
      rw [if_pos hpin] at hs
      exact absurd ⟨f, h.recorded p f hf, h.live p f hf⟩ hs
    · simp

/-- A suspend after which all pins name live faces found no pin. -/
theorem unpinned_of_pinsLive {c : Call} (h : LivePins w) (hm : Move w c t) (ht : t.PinsLive) :
    c.Unpinned w := by
  cases hm with
  | suspend =>
    intro p
    by_contra hne
    obtain ⟨id, hid⟩ := Option.ne_none_iff_exists'.mp hne
    exact not_live_suspend h (h.recorded p id hid) (ht p id hid)
  | @attach c p t hp =>
    cases c with
    | suspendNetworkFaces => cases hp
    | _ => trivial
  | detach | note | resume | redial => trivial

theorem ids_radios (radios : List Radio) {e : MobileEngine} (h : e.Ids) :
    (radios.foldl Radio.attach e).Ids := by
  induction radios generalizing e with
  | nil => exact h
  | cons r rs ih =>
    cases r with
    | wifiAware => exact ih (ids_attachWifiAware h)
    | ble => exact ih (ids_attachBle h)

theorem livePins_start (b : MobileEngineBuilder) (up : FaceId → Bool) (radios : List Radio) :
    LivePins (.start b up radios) where
  ids := ids_radios radios (ids_build b up)
  live p id h := by rw [bulkPinned_start] at h; cases h
  recorded p id h := by rw [bulkPinned_start] at h; cases h
  bulk := nofun
  current := nofun

theorem livePins_run {b : MobileEngineBuilder} {up : FaceId → Bool} {radios : List Radio}
    (hrun : Run (stepRel step) (.start b up radios) tr w)
    (h : ∀ x ∈ tr, x.act.Unpinned x.pre) : LivePins w :=
  (hrun.inv_mem (I := LivePins) (G := fun w c => c.Unpinned w)
    (fun hi hc hs => livePins_move hi hc (step_move hs)) (livePins_start b up radios) h).1

/-- **Pins name live faces, and beacons fan out what no live bulk face serves**, throughout a
run, exactly when every suspend in it finds no prefix pinned. -/
theorem pinsLive_iff (b : MobileEngineBuilder) (up : FaceId → Bool) (radios : List Radio)
    {tr : List (Trans World Call)} {u : World}
    (hrun : Run (stepRel step) (.start b up radios) tr u) :
    (∀ x ∈ tr, x.post.PinsLive ∧ FansOut x) ↔ ∀ x ∈ tr, x.act.Unpinned x.pre := by
  refine hrun.exact (I := LivePins) (C := fun w c => c.Unpinned w)
    (P := fun x => x.post.PinsLive ∧ FansOut x) ?_ ?_ (livePins_start b up radios)
  · intro w c t hi hs
    have hm : Move w c t := step_move hs
    constructor
    · intro hp
      exact unpinned_of_pinsLive hi hm hp.1
    · intro hc
      exact ⟨(livePins_move hi hc hm).live, fansOut_move hi hm⟩
  · intro w c t hi hc hs
    exact livePins_move hi hc (step_move hs)

/-- Calls other than a suspend meet the condition. -/
theorem unpinned_of_act_mem {cs : List Call} (hacts : tr.map (·.act) = cs)
    (hcs : ∀ c ∈ cs, c.isSuspend = false) : ∀ x ∈ tr, x.act.Unpinned x.pre := by
  intro x hx
  have hc : x.act.isSuspend = false := hcs x.act (hacts ▸ List.mem_map_of_mem hx)
  generalize x.act = c at hc
  cases c with
  | suspendNetworkFaces => cases hc
  | _ => trivial

/-- Before the app goes to the background, the NDP of a peer has ended. -/
def foregroundCalls : List Call := [.attachNdpFace peerPrefix .ok, .detachNdpFace 3]

/-- The prefix of another peer. -/
def otherPrefix : Name := [⟨8, [113]⟩]

/-- Back from there the peer gets a new one, and another peer is heard. -/
def returnCalls : List Call :=
  [.resumeNetworkFaces fun _ => true, .attachNdpFace peerPrefix .ok,
    .notePeerRoute otherPrefix "wifi-aware"]

theorem pinsLive_iff_returnCalls : ∃ tr u, Run (stepRel step) nanStart tr u ∧
    tr.map (·.act) = foregroundCalls ++ .suspendNetworkFaces :: returnCalls ∧
    (∀ x ∈ tr, x.post.PinsLive ∧ FansOut x) ∧ u.engine.bulkPinned peerPrefix = some 4 ∧
    u.bulk = [(peerPrefix, 4)] ∧
    u.engine.forwarder.strategyTable otherPrefix = some .multicast := by
  obtain ⟨v, hv, hempty⟩ : ∃ v, exec step nanStart foregroundCalls = some v ∧ v.bulk = [] :=
    ⟨_, rfl, rfl⟩
  obtain ⟨tr, hrun, hacts⟩ := exec_run hv
  have hbefore : ∀ x ∈ tr, x.act.Unpinned x.pre := unpinned_of_act_mem hacts (by decide)
  have hnone : ∀ p, v.engine.bulkPinned p = none := (livePins_run hrun hbefore).unpinned hempty
  obtain ⟨w, hw⟩ : ∃ w, step v .suspendNetworkFaces = some w := ⟨_, rfl⟩
  obtain ⟨u, hu, hpin, hbulk, hs⟩ : ∃ u, exec step w returnCalls = some u ∧
      u.engine.bulkPinned peerPrefix = some 4 ∧ u.bulk = [(peerPrefix, 4)] ∧
      u.engine.forwarder.strategyTable otherPrefix = some .multicast := by
    cases hv
    cases hw
    exact ⟨_, rfl, rfl, rfl, rfl⟩
  obtain ⟨tr', hrun', hacts'⟩ := exec_run hu
  have hall : Run (stepRel step) nanStart (tr ++ ⟨v, .suspendNetworkFaces, w⟩ :: tr') u :=
    hrun.append (.cons hw hrun')
  refine ⟨_, u, hall, by simp [hacts, hacts'], ?_, hpin, hbulk, hs⟩
  -- the suspend is the only call with a condition
  refine (pinsLive_iff nanNode (fun _ => true) [] hall).mpr fun x hx => ?_
  rcases List.mem_append.mp hx with hx | hx
  · exact hbefore x hx
  rcases List.mem_cons.mp hx with rfl | hx
  · exact hnone
  · exact unpinned_of_act_mem hacts' (by decide) x hx

/-- An NDP is up when the app goes to the background; after it comes back, a beacon leaves the
prefix to the face that ended. -/
theorem pinsLive_fails : ¬ ∀ (b : MobileEngineBuilder) (up : FaceId → Bool) (radios : List Radio)
    (tr : List (Trans World Call)) (u : World), Run (stepRel step) (.start b up radios) tr u →
      ∀ x ∈ tr, x.post.PinsLive ∧ FansOut x := by
  intro h
  obtain ⟨u, hu, hp, hf⟩ : ∃ u, exec step nanStart [.attachNdpFace peerPrefix .ok,
      .suspendNetworkFaces, .resumeNetworkFaces fun _ => true,
      .notePeerRoute peerPrefix "wifi-aware"] = some u ∧
      u.engine.bulkPinned peerPrefix = some 3 ∧ ¬ u.engine.forwarder.Live 3 :=
    ⟨_, rfl, rfl, by decide⟩
  obtain ⟨tr, hrun, hacts⟩ := exec_run hu
  obtain ⟨x, hx, rfl⟩ := hrun.last_mem (by rintro rfl; cases hacts)
  exact hf ((h nanNode (fun _ => true) [] tr _ hrun x hx).1 peerPrefix 3 hp)

end NdnMobile.Engine
