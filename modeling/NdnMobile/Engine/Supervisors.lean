import NdnMobile.Engine.SuspendResume
import Mathlib.Data.List.Nodup

/-!
# One supervisor for each peer

Every resume spawns a supervisor for each configured peer and adds the multicast face; a
suspend cancels the token of all those there are. Runs of lifecycle calls, in any order, on a
built engine: each peer has one running supervisor and the multicast face one instance, and
none while suspended, exactly when no resume comes without a suspend before it (or has
nothing to build a second time).
-/

namespace NdnMobile.Engine

open NdnMobile.Lib NdnMobile.Packet MobileEngine

/-- The lifecycle calls, and the supervisors at work between them. -/
inductive Lifecycle where
  | suspendNetworkFaces
  | resumeNetworkFaces (up : FaceId → Bool)
  | redial (i : Nat)

/-- An engine, and whether the last lifecycle call suspended it. -/
structure Session where
  engine : MobileEngine
  suspended : Bool

def lifecycle (s : Session) : Lifecycle → Option Session
  | .suspendNetworkFaces => some ⟨s.engine.suspendNetworkFaces, true⟩
  | .resumeNetworkFaces up => some ⟨s.engine.resumeNetworkFaces up, false⟩
  | .redial i => some { s with engine := s.engine.redial i }

namespace MobileEngine

variable (e : MobileEngine)

/-- How many supervisors of a peer have a token that is not cancelled. -/
def supervising (id : FaceId) : Nat :=
  e.supervisors.countP fun s => s.1 == id && !e.cancelled s.2.2

/-- How many instances of a face have a token that is not cancelled. -/
def instances (id : FaceId) : Nat :=
  e.forwarder.faces.countP fun f => f.id == id && !e.cancelled f.token

end MobileEngine

/-- At most one supervisor runs for each peer and one instance of the multicast face, and none
while suspended. -/
structure Session.Single (s : Session) : Prop where
  supervising : ∀ x ∈ s.engine.networkPeers, s.engine.supervising x.1 ≤ 1
  multicast : s.engine.multicastIface.isSome = true →
    s.engine.instances s.engine.multicastFaceId ≤ 1
  suspended : s.suspended = true →
    (∀ x ∈ s.engine.networkPeers, s.engine.supervising x.1 = 0) ∧
    (s.engine.multicastIface.isSome = true → s.engine.instances s.engine.multicastFaceId = 0)

/-- A resume comes after a suspend, or has nothing to build a second time. -/
def Lifecycle.Paired (s : Session) : Lifecycle → Prop
  | .resumeNetworkFaces up => s.suspended = true ∨ s.engine.networkPeers = [] ∧
    (s.engine.multicastIface.isSome = true → up s.engine.multicastFaceId = true →
      s.engine.instances s.engine.multicastFaceId = 0)
  | _ => True

/-- **Invariant**: what is configured has ids of its own, what it runs on has network tokens
handed out so far, and how much of it runs. -/
structure Supervised (s : Session) : Prop where
  nodup : (s.engine.networkPeers.map (·.1)).Nodup
  apart : s.engine.multicastIface.isSome = true →
    (∀ x ∈ s.engine.networkPeers, x.1 ≠ s.engine.multicastFaceId) ∧
    s.engine.wifiAware ≠ some s.engine.multicastFaceId ∧
    s.engine.ble ≠ some s.engine.multicastFaceId
  peers : ∀ t ∈ s.engine.supervisors, ∃ x ∈ s.engine.networkPeers, x.1 = t.1
  supervisors : ∀ t ∈ s.engine.supervisors, ∃ gen ≤ s.engine.networkCancel, t.2.2 = .network gen
  faces : s.engine.multicastIface.isSome = true → ∀ f ∈ s.engine.forwarder.faces,
    f.id = s.engine.multicastFaceId → ∃ gen ≤ s.engine.networkCancel, f.token = .network gen
  running : ∀ x ∈ s.engine.networkPeers,
    s.engine.supervising x.1 = if s.suspended then 0 else 1
  single : s.Single

variable {s t : Session} {e : MobileEngine} {up : FaceId → Bool}

/-! ## Counting -/

theorem cancelled_token (e : MobileEngine) : e.cancelled e.token = false := by
  unfold cancelled token
  simp

/-- After a suspend nothing runs on a token handed out before. -/
theorem cancelled_suspend {tok : Token} (h : ∃ gen ≤ e.networkCancel, tok = .network gen) :
    e.suspendNetworkFaces.cancelled tok = true := by
  obtain ⟨gen, hle, rfl⟩ := h
  have hlt : gen < e.networkCancel + 1 := Nat.lt_succ_of_le hle
  exact decide_eq_true hlt

theorem countP_of_nodup {l : List (FaceId × PeerSpec)} (hn : (l.map (·.1)).Nodup)
    {x : FaceId × PeerSpec} (hx : x ∈ l) : l.countP (fun y => y.1 == x.1) = 1 := by
  have hcount : (l.map (·.1)).count x.1 = 1 := List.count_eq_one_of_mem hn (List.mem_map_of_mem hx)
  rw [List.count, List.countP_map] at hcount
  exact hcount

theorem token_networkFaces {f : Face} (hf : f ∈ e.networkFaces up) : f.token = e.token := by
  rcases mem_networkFaces.mp hf with ⟨-, -, rfl⟩ | ⟨x, -, -, rfl⟩ | ⟨id, -, rfl⟩ | ⟨id, -, rfl⟩
  all_goals rfl

/-- Of the supervisors spawned together, one is each peer's. -/
theorem supervising_map (hn : (e.networkPeers.map (·.1)).Nodup) {x : FaceId × PeerSpec}
    (hx : x ∈ e.networkPeers) :
    (e.networkPeers.map fun (id, spec) => (id, spec, e.token)).countP
      (fun s => s.1 == x.1 && !e.cancelled s.2.2) = 1 := by
  rw [List.countP_map, ← countP_of_nodup hn hx]
  congr 1
  funext y
  simp [cancelled_token]

/-- A resume adds one supervisor for each peer. -/
theorem supervising_resume (up : FaceId → Bool) (hn : (e.networkPeers.map (·.1)).Nodup)
    {x : FaceId × PeerSpec} (hx : x ∈ e.networkPeers) :
    (e.resumeNetworkFaces up).supervising x.1 = e.supervising x.1 + 1 := by
  unfold supervising
  rw [← supervising_map hn hx, ← List.countP_append]
  rfl

/-- The multicast face is once among the configured ones, if it can be set up. -/
theorem countP_networkFaces (up : FaceId → Bool) (hi : e.multicastIface.isSome = true)
    (hp : ∀ x ∈ e.networkPeers, x.1 ≠ e.multicastFaceId)
    (hw : e.wifiAware ≠ some e.multicastFaceId) (hb : e.ble ≠ some e.multicastFaceId) :
    (e.networkFaces up).countP (fun f => f.id == e.multicastFaceId && !e.cancelled f.token) =
      if up e.multicastFaceId then 1 else 0 := by
  have hmulti : (if e.multicastIface.isSome && up e.multicastFaceId then
      [(⟨e.multicastFaceId, .multicast, e.token, false⟩ : Face)] else []).countP
        (fun f => f.id == e.multicastFaceId && !e.cancelled f.token) =
          if up e.multicastFaceId then 1 else 0 := by
    rw [hi, Bool.true_and]
    split
    · simp [cancelled_token]
    · rfl
  have hrest {l : List Face} (hl : ∀ f ∈ l, f.id ≠ e.multicastFaceId) :
      l.countP (fun f => f.id == e.multicastFaceId && !e.cancelled f.token) = 0 := by
    rw [List.countP_eq_zero]
    intro f hf
    simp [hl f hf]
  have hpeers := hrest (l := (e.networkPeers.filter fun x => up x.1).map
    fun (id, spec) => ⟨id, spec.kind, e.token, true⟩) fun f hf => by
      obtain ⟨x, hx, rfl⟩ := List.mem_map.mp hf
      exact hp x (List.mem_of_mem_filter hx)
  have hwifi := hrest (l := e.wifiAware.toList.map fun id => ⟨id, .wifiAware, e.token, false⟩)
    fun f hf => by
      obtain ⟨id, hid, rfl⟩ := List.mem_map.mp hf
      rintro rfl
      exact hw (Option.mem_toList.mp hid)
  have hble := hrest (l := e.ble.toList.map fun id => ⟨id, .bluetooth, e.token, false⟩)
    fun f hf => by
      obtain ⟨id, hid, rfl⟩ := List.mem_map.mp hf
      rintro rfl
      exact hb (Option.mem_toList.mp hid)
  unfold networkFaces
  rw [List.countP_append, List.countP_append, List.countP_append, hmulti, hpeers, hwifi, hble]
  rfl

/-- A resume adds the multicast face once, if it can be set up. -/
theorem instances_resume (up : FaceId → Bool) (hi : e.multicastIface.isSome = true)
    (hp : ∀ x ∈ e.networkPeers, x.1 ≠ e.multicastFaceId)
    (hw : e.wifiAware ≠ some e.multicastFaceId) (hb : e.ble ≠ some e.multicastFaceId) :
    (e.resumeNetworkFaces up).instances e.multicastFaceId =
      e.instances e.multicastFaceId + if up e.multicastFaceId then 1 else 0 := by
  unfold instances
  rw [resume_forwarder, List.countP_append]
  exact congrArg (_ + ·) (countP_networkFaces up hi hp hw hb)

theorem instances_addFace {f : Face} {id : FaceId} (h : f.id ≠ id) :
    MobileEngine.instances { e with forwarder := e.forwarder.addFace f } id = e.instances id := by
  unfold instances
  show List.countP _ (e.forwarder.faces ++ [f]) = _
  rw [List.countP_append, List.countP_singleton, if_neg (by simp [h])]
  rfl

/-! ## The steps -/

theorem supervised_suspend (h : Supervised s) :
    Supervised ⟨s.engine.suspendNetworkFaces, true⟩ := by
  have hnone (id : FaceId) : s.engine.suspendNetworkFaces.supervising id = 0 := by
    unfold supervising
    rw [List.countP_eq_zero]
    intro t ht
    simp [cancelled_suspend (h.supervisors t ht)]
  have hgone : s.engine.multicastIface.isSome = true →
      s.engine.suspendNetworkFaces.instances s.engine.multicastFaceId = 0 := by
    intro hi
    unfold instances
    rw [List.countP_eq_zero]
    intro f hf
    have hf' : f ∈ s.engine.forwarder.faces := List.mem_of_mem_filter hf
    by_cases hid : f.id = s.engine.multicastFaceId
    · simp [cancelled_suspend (h.faces hi f hf' hid)]
    · simp [hid]
  have hle {gen : Nat} (hg : gen ≤ s.engine.networkCancel) : gen ≤ s.engine.networkCancel + 1 :=
    Nat.le_succ_of_le hg
  refine ⟨h.nodup, h.apart, h.peers, fun t ht => ?_, fun hi f hf hid => ?_,
    fun x _ => hnone x.1, ⟨fun x _ => ?_, fun hi => ?_, fun _ => ⟨fun x _ => hnone x.1, hgone⟩⟩⟩
  · obtain ⟨gen, hg, ht⟩ := h.supervisors t ht
    exact ⟨gen, hle hg, ht⟩
  · obtain ⟨gen, hg, ht⟩ := h.faces hi f (List.mem_of_mem_filter hf) hid
    exact ⟨gen, hle hg, ht⟩
  · exact Nat.le_trans (Nat.le_of_eq (hnone x.1)) (Nat.zero_le 1)
  · exact Nat.le_trans (Nat.le_of_eq (hgone hi)) (Nat.zero_le 1)

/-- What a resume leaves running. -/
theorem single_resume (h : Supervised s) :
    Session.Single ⟨s.engine.resumeNetworkFaces up, false⟩ ↔
      (Lifecycle.resumeNetworkFaces up).Paired s := by
  have hcount := fun x hx => supervising_resume up h.nodup (x := x) hx
  constructor
  · intro hs
    by_cases hsus : s.suspended = true
    · exact .inl hsus
    · refine .inr ⟨?_, fun hi hu => ?_⟩
      · refine List.eq_nil_iff_forall_not_mem.mpr fun x hx => ?_
        have hle : (s.engine.resumeNetworkFaces up).supervising x.1 ≤ 1 := hs.supervising x hx
        rw [hcount x hx, h.running x hx, if_neg hsus] at hle
        omega
      · have hle : (s.engine.resumeNetworkFaces up).instances s.engine.multicastFaceId ≤ 1 :=
          hs.multicast hi
        obtain ⟨hp, hw, hb⟩ := h.apart hi
        rw [instances_resume up hi hp hw hb, if_pos hu] at hle
        omega
  · intro hc
    refine ⟨fun x hx => ?_, fun hi => ?_, fun hsus => by cases hsus⟩
    · have heq := hcount x hx
      rcases hc with hsus | ⟨hnil, -⟩
      · rw [h.running x hx, if_pos hsus] at heq
        exact Nat.le_of_eq heq
      · have hx' : x ∈ s.engine.networkPeers := hx
        rw [hnil] at hx'
        cases hx'
    · have hi' : s.engine.multicastIface.isSome = true := hi
      obtain ⟨hp, hw, hb⟩ := h.apart hi'
      have heq := instances_resume up hi' hp hw hb
      have hzero : up s.engine.multicastFaceId = true →
          s.engine.instances s.engine.multicastFaceId = 0 := by
        intro hu
        rcases hc with hsus | ⟨-, hnone⟩
        · exact (h.single.suspended hsus).2 hi
        · exact hnone hi hu
      have hle := h.single.multicast hi
      show (s.engine.resumeNetworkFaces up).instances s.engine.multicastFaceId ≤ 1
      rw [heq]
      split
      · rw [hzero ‹_›]
      · omega

theorem supervised_resume (h : Supervised s)
    (hc : (Lifecycle.resumeNetworkFaces up).Paired s) :
    Supervised ⟨s.engine.resumeNetworkFaces up, false⟩ := by
  refine ⟨h.nodup, h.apart, fun t ht => ?_, fun t ht => ?_, fun hi f hf hid => ?_,
    fun x hx => ?_, (single_resume h).mpr hc⟩
  · rcases List.mem_append.mp ht with ht | ht
    · exact h.peers t ht
    · obtain ⟨x, hx, rfl⟩ := List.mem_map.mp ht
      exact ⟨x, hx, rfl⟩
  · rcases List.mem_append.mp ht with ht | ht
    · exact h.supervisors t ht
    · obtain ⟨x, hx, rfl⟩ := List.mem_map.mp ht
      exact ⟨_, Nat.le_refl _, rfl⟩
  · rw [resume_forwarder] at hf
    rcases List.mem_append.mp hf with hf | hf
    · exact h.faces hi f hf hid
    · exact ⟨_, Nat.le_refl _, token_networkFaces hf⟩
  · have heq := supervising_resume up h.nodup hx
    rw [h.running x hx] at heq
    show (s.engine.resumeNetworkFaces up).supervising x.1 = _
    rw [heq]
    rcases hc with hsus | ⟨hnil, -⟩
    · rw [if_pos hsus]
      rfl
    · have hx' : x ∈ s.engine.networkPeers := hx
      rw [hnil] at hx'
      cases hx'

theorem supervised_redial {i : Nat} (h : Supervised s) :
    Supervised { s with engine := s.engine.redial i } := by
  unfold redial
  split
  · exact h
  · rename_i id spec tok hi
    split
    · exact h
    · -- The face that comes up is a peer's, so not the multicast one.
      have hne (hs : s.engine.multicastIface.isSome = true) : id ≠ s.engine.multicastFaceId := by
        obtain ⟨x, hx, hid⟩ := h.peers _ (List.mem_of_getElem? hi)
        have hx' : x.1 = id := hid
        exact hx' ▸ (h.apart hs).1 x hx
      refine ⟨h.nodup, h.apart, h.peers, h.supervisors, fun hs f hf hid => ?_, h.running,
        h.single.supervising, fun hs => ?_, fun hsus => ⟨(h.single.suspended hsus).1, fun hs => ?_⟩⟩
      · rcases List.mem_append.mp hf with hf | hf
        · exact h.faces hs f hf hid
        · rw [List.mem_singleton.mp hf] at hid
          exact absurd hid (hne hs)
      · have heq := instances_addFace (e := s.engine) (f := ⟨id, spec.kind, tok, true⟩) (hne hs)
        exact Nat.le_trans (Nat.le_of_eq heq) (h.single.multicast hs)
      · have heq := instances_addFace (e := s.engine) (f := ⟨id, spec.kind, tok, true⟩) (hne hs)
        exact heq.trans ((h.single.suspended hsus).2 hs)

theorem supervised_lifecycle {c : Lifecycle} (h : Supervised s) (hc : c.Paired s)
    (hs : lifecycle s c = some t) : Supervised t := by
  cases c with
  | suspendNetworkFaces =>
    cases hs
    exact supervised_suspend h
  | resumeNetworkFaces up =>
    cases hs
    exact supervised_resume h hc
  | redial i =>
    cases hs
    exact supervised_redial h

/-- A built engine runs a supervisor for each peer. -/
theorem supervised_build (b : MobileEngineBuilder) (up : FaceId → Bool) :
    Supervised ⟨b.build up, false⟩ := by
  obtain ⟨l, hfaces, hl⟩ := build_faces b up
  have hnodup : ((b.build up).networkPeers.map (·.1)).Nodup := reservePeers_nodup _ _
  have hmulti (hs : b.multicastIface.isSome = true) : (b.build up).multicastFaceId = 2 := by
    show Option.getD (b.forwarder.allocIf _).1 0 = 2
    rw [hs]
    rfl
  have hbroad (hs : b.multicastIface.isSome = true) :
      (b.build up).multicastFaceId ∈ (b.build up).broadcastIds :=
    mem_broadcastIds.mpr (.inl ⟨hs, rfl⟩)
  have hwifi (hs : b.multicastIface.isSome = true) :
      (b.build up).wifiAware ≠ some (b.build up).multicastFaceId := by
    rw [hmulti hs]
    show ((b.forwarder.allocIf b.multicastIface.isSome).2.allocIf b.wifiAware).1 ≠ _
    rw [hs]
    cases b.wifiAware with
    | false => rintro ⟨⟩
    | true => exact fun h => absurd (Option.some.inj h) (by decide : ¬ (3 : FaceId) = 2)
  have hpeers (hs : b.multicastIface.isSome = true) :
      ∀ x ∈ (b.build up).networkPeers, x.1 ≠ (b.build up).multicastFaceId := fun x hx =>
    Nat.ne_of_gt (build_broadcast_lt_peers b up _ (hbroad hs) x hx)
  have hble : (b.build up).ble = none := rfl
  have hsupervising : ∀ x ∈ (b.build up).networkPeers, (b.build up).supervising x.1 = 1 := by
    intro x hx
    exact supervising_map hnodup hx
  have hinstances (hs : b.multicastIface.isSome = true) :
      (b.build up).instances (b.build up).multicastFaceId ≤ 1 := by
    have hnet := countP_networkFaces up hs (hpeers hs) (hwifi hs) (by rw [hble]; rintro ⟨⟩)
    have hcompute : l.countP (fun f => f.id == (b.build up).multicastFaceId &&
        !(b.build up).cancelled f.token) = 0 := by
      rw [List.countP_eq_zero]
      intro f hf
      have hne := Nat.ne_of_gt ((hl f hf).2 _ (hbroad hs))
      simp [hne]
    have happ : (1 : FaceId) ≠ (b.build up).multicastFaceId := by
      rw [hmulti hs]
      decide
    unfold instances
    rw [hfaces, List.countP_cons_of_neg (by simp [happ]), List.countP_append, hnet, hcompute]
    split <;> decide
  refine ⟨hnodup, fun hs => ⟨hpeers hs, hwifi hs, by rw [hble]; nofun⟩, fun t ht => ?_,
    fun t ht => ?_, fun hs f hf hid => ?_, hsupervising,
    fun x hx => Nat.le_of_eq (hsupervising x hx), hinstances, fun hsus => by cases hsus⟩
  · obtain ⟨x, hx, rfl⟩ := List.mem_map.mp ht
    exact ⟨x, hx, rfl⟩
  · obtain ⟨x, hx, rfl⟩ := List.mem_map.mp ht
    exact ⟨0, Nat.le_refl _, rfl⟩
  · have happ : (1 : FaceId) ≠ (b.build up).multicastFaceId := by
      rw [hmulti hs]
      decide
    have hf' : f ∈ (b.build up).forwarder.faces := hf
    rw [hfaces] at hf'
    rcases List.mem_cons.mp hf' with rfl | hf'
    · exact absurd hid happ
    · rcases List.mem_append.mp hf' with hf' | hf'
      · refine ⟨0, Nat.le_refl _, ?_⟩
        exact token_networkFaces hf'
      · exact absurd hid (Nat.ne_of_gt ((hl f hf').2 _ (hbroad hs)))

/-- **One supervisor for each peer**, one instance of the multicast face, and none of either
while suspended, throughout a run of lifecycle calls on a built engine, exactly when each of
its resumes comes after a suspend or has nothing to build a second time. -/
theorem single_iff (b : MobileEngineBuilder) (up : FaceId → Bool)
    {tr : List (Trans Session Lifecycle)} {u : Session}
    (hrun : Run (stepRel lifecycle) ⟨b.build up, false⟩ tr u) :
    (∀ x ∈ tr, x.post.Single) ↔ ∀ x ∈ tr, x.act.Paired x.pre := by
  refine hrun.exact (I := Supervised) (C := fun s c => c.Paired s) (P := fun x => x.post.Single)
    (fun {s c t} hi hs => ?_) (fun hi hc hs => supervised_lifecycle hi hc hs)
    (supervised_build b up)
  cases c with
  | suspendNetworkFaces =>
    cases hs
    exact iff_of_true (supervised_suspend hi).single trivial
  | resumeNetworkFaces up =>
    cases hs
    exact single_resume hi
  | redial i =>
    cases hs
    exact iff_of_true (supervised_redial hi).single trivial

/-- A gateway node goes to the background and comes back. -/
theorem single_iff_gatewayNode : ∃ tr u,
    Run (stepRel lifecycle) ⟨gatewayNode.build fun _ => true, false⟩ tr u ∧
      tr.length = 2 ∧ ∀ x ∈ tr, x.post.Single := by
  have hsuspend : lifecycle ⟨gatewayNode.build fun _ => true, false⟩ .suspendNetworkFaces =
      some ⟨(gatewayNode.build fun _ => true).suspendNetworkFaces, true⟩ := rfl
  have hresume : lifecycle ⟨(gatewayNode.build fun _ => true).suspendNetworkFaces, true⟩
      (.resumeNetworkFaces fun _ => true) = some _ := rfl
  have hrun : Run (stepRel lifecycle) ⟨gatewayNode.build fun _ => true, false⟩ _ _ :=
    .cons hsuspend (.cons hresume (.nil _))
  refine ⟨_, _, hrun, rfl, (single_iff gatewayNode (fun _ => true) hrun).mpr fun x hx => ?_⟩
  rcases List.mem_cons.mp hx with rfl | hx
  · trivial
  · rw [List.mem_singleton.mp hx]
    exact .inl rfl

/-- `onResume` at the first start: the gateway gets a second supervisor. -/
theorem single_fails : ¬ ∀ (b : MobileEngineBuilder) (up : FaceId → Bool)
    (tr : List (Trans Session Lifecycle)) (u : Session),
      Run (stepRel lifecycle) ⟨b.build up, false⟩ tr u → ∀ x ∈ tr, x.post.Single := by
  intro h
  have hstep : lifecycle ⟨gatewayNode.build fun _ => true, false⟩
      (.resumeNetworkFaces fun _ => true) =
    some ⟨(gatewayNode.build fun _ => true).resumeNetworkFaces fun _ => true, false⟩ := rfl
  have hsingle := h gatewayNode (fun _ => true) _ _ (.cons hstep (.nil _)) _ List.mem_cons_self
  have hle := hsingle.supervising (3, .tcp "10.0.0.1:6363") (by decide)
  revert hle
  decide

end NdnMobile.Engine
