import Mathlib.Data.List.Induction
import NdnMobile.Lib.Network
import NdnMobile.Tunnel.Downlink
import NdnMobile.Tunnel.Subscription
import NdnMobile.Tunnel.Uplink

/-!
# From one end of the tunnel to the other

`Link` puts the uplink of one endpoint, the network, and the downlink of the endpoint that
subscribed to it together: a Data the uplink publishes is in flight, and the network
delivers it to the subscription, loses it or copies it, at any time and in any order. Each
of the three runs its own law (`uplink_exact`, `Network`, `downlink_exact`), and
`link_exact` is what they say together about the packets that `inject` accepted at one end
and `next` returned at the other.
-/

namespace NdnMobile.Tunnel

open NdnMobile.Lib NdnMobile.Packet

structure Link where
  up : State
  net : Network Data
  down : Downlink
  deriving DecidableEq, Repr

namespace Link

def init : Link := ⟨.init, .empty, .init⟩

inductive Event where
  /-- Any step of the uplink, Interests from anyone included. -/
  | up (a : Tunnel.Act)
  /-- The `i`-th Data in flight reaches the subscription. -/
  | data (i : Nat)
  | lose (i : Nat)
  | copy (i : Nat)
  /-- Any step of the downlink but the arrival of a Data. -/
  | down (a : Downlink.Act)
  deriving DecidableEq, Repr

def step (cfg : Config) (w : Link) : Event → Option Link
  | .up a =>
    (Tunnel.step cfg w.up a).map fun s =>
      { w with up := s, net := w.net.publish (w.up.arrival a) }
  | .data i => do
    let data ← w.net.flight[i]?
    let net ← w.net.step (.deliver i)
    let down ← w.down.step (.recv (some data))
    return { w with net := net, down := down }
  | .lose i => (w.net.step (.lose i)).map fun net => { w with net := net }
  | .copy i => (w.net.step (.copy i)).map fun net => { w with net := net }
  | .down (.recv (some _)) => none
  | .down a => (w.down.step a).map fun s => { w with down := s }

/-! ## The three parts -/

def upAct (x : Trans Link Event) : Option Tunnel.Act :=
  match x.act with
  | .up a => some a
  | _ => none

def netAct (x : Trans Link Event) : Option (Network.Act Data) :=
  match x.act with
  | .up a => (x.pre.up.arrival a).map .send
  | .data i => some (.deliver i)
  | .lose i => some (.lose i)
  | .copy i => some (.copy i)
  | .down _ => none

def downAct (x : Trans Link Event) : Option Downlink.Act :=
  match x.act with
  | .data i => some (.recv x.pre.net.flight[i]?)
  | .down a => some a
  | _ => none

def upRun (tr : List (Trans Link Event)) : List (Trans State Tunnel.Act) :=
  tr.filterMap fun x => (upAct x).map fun a => ⟨x.pre.up, a, x.post.up⟩

def netRun (tr : List (Trans Link Event)) : List (Trans (Network Data) (Network.Act Data)) :=
  tr.filterMap fun x => (netAct x).map fun a => ⟨x.pre.net, a, x.post.net⟩

def downRun (tr : List (Trans Link Event)) : List (Trans Downlink Downlink.Act) :=
  tr.filterMap fun x => (downAct x).map fun a => ⟨x.pre.down, a, x.post.down⟩

inductive Move (cfg : Config) (w : Link) : Event → Link → Prop where
  | up {a : Tunnel.Act} {s : State} : Tunnel.step cfg w.up a = some s →
    Move cfg w (.up a) { w with up := s, net := w.net.publish (w.up.arrival a) }
  | data {i : Nat} {data : Data} {net : Network Data} {down : Downlink} :
    w.net.flight[i]? = some data → w.net.step (.deliver i) = some net →
    w.down.step (.recv (some data)) = some down →
    Move cfg w (.data i) { w with net := net, down := down }
  | lose {i : Nat} {net : Network Data} : w.net.step (.lose i) = some net →
    Move cfg w (.lose i) { w with net := net }
  | copy {i : Nat} {net : Network Data} : w.net.step (.copy i) = some net →
    Move cfg w (.copy i) { w with net := net }
  | down {a : Downlink.Act} {s : Downlink} : (∀ data, a ≠ .recv (some data)) →
    w.down.step a = some s → Move cfg w (.down a) { w with down := s }

variable {cfg : Config} {w v : Link} {e : Event}

theorem step_move (h : step cfg w e = some v) : Move cfg w e v := by
  cases e with
  | up a => obtain ⟨s, hs, rfl⟩ := Option.map_eq_some_iff.mp h; exact .up hs
  | data i =>
    simp only [step, Option.bind_eq_bind, Option.bind_eq_some_iff, Option.pure_def,
      Option.some.injEq] at h
    obtain ⟨data, hdata, net, hnet, down, hdown, rfl⟩ := h
    exact .data hdata hnet hdown
  | lose i => obtain ⟨net, hnet, rfl⟩ := Option.map_eq_some_iff.mp h; exact .lose hnet
  | copy i => obtain ⟨net, hnet, rfl⟩ := Option.map_eq_some_iff.mp h; exact .copy hnet
  | down a =>
    by_cases ha : ∃ data, a = .recv (some data)
    · obtain ⟨data, rfl⟩ := ha
      cases h
    · have hstep : (w.down.step a).map (fun s => { w with down := s }) = some v := by
        cases a with
        | recv data =>
          cases data with
          | none => exact h
          | some data => exact absurd ⟨data, rfl⟩ ha
        | _ => exact h
      obtain ⟨s, hs, rfl⟩ := Option.map_eq_some_iff.mp hstep
      exact .down (fun data hd => ha ⟨data, hd⟩) hs

theorem up_step (h : step cfg w e = some v) :
    (∃ a, upAct ⟨w, e, v⟩ = some a ∧ stepRel (Tunnel.step cfg) w.up a v.up) ∨
      upAct ⟨w, e, v⟩ = none ∧ v.up = w.up := by
  cases step_move h with
  | up hs => exact .inl ⟨_, rfl, hs⟩
  | data | lose | copy | down => exact .inr ⟨rfl, rfl⟩

theorem net_step (h : step cfg w e = some v) :
    (∃ a, netAct ⟨w, e, v⟩ = some a ∧ stepRel Network.step w.net a v.net) ∨
      netAct ⟨w, e, v⟩ = none ∧ v.net = w.net := by
  cases step_move h with
  | @up a s hs =>
    cases harr : w.up.arrival a with
    | none => exact .inr ⟨by simp only [netAct, harr]; rfl, rfl⟩
    | some data => exact .inl ⟨.send data, by simp only [netAct, harr]; rfl, rfl⟩
  | data _ hnet _ => exact .inl ⟨_, rfl, hnet⟩
  | lose hnet => exact .inl ⟨_, rfl, hnet⟩
  | copy hnet => exact .inl ⟨_, rfl, hnet⟩
  | down => exact .inr ⟨rfl, rfl⟩

theorem down_step (h : step cfg w e = some v) :
    (∃ a, downAct ⟨w, e, v⟩ = some a ∧ stepRel Downlink.step w.down a v.down) ∨
      downAct ⟨w, e, v⟩ = none ∧ v.down = w.down := by
  cases step_move h with
  | data hdata _ hdown =>
    refine .inl ⟨_, rfl, ?_⟩
    rw [hdata]
    exact hdown
  | down _ hs => exact .inl ⟨_, rfl, hs⟩
  | up | lose | copy => exact .inr ⟨rfl, rfl⟩

/-! ## Where the parts meet -/

variable {past tr : List (Trans Link Event)} {u : Link}

/-- The Data a step hands to the forwarder. -/
def publishing (x : Trans Link Event) : Option Data :=
  match x.act with
  | .up a => x.pre.up.arrival a
  | _ => none

theorem sent_net (tr : List (Trans Link Event)) :
    Network.sent (netRun tr) = tr.filterMap publishing := by
  rw [Network.sent, netRun, List.filterMap_filterMap]
  congr 1
  funext ⟨w, e, v⟩
  cases e with
  | up a =>
    simp only [netAct, publishing]
    cases w.up.arrival a <;> rfl
  | _ => rfl

theorem published_step {s t : State} {a : Tunnel.Act} (hm : Tunnel.Move cfg s a t) :
    t.published = s.published ++ (s.arrival a).toList := by
  cases hm with
  | publish hs => simp only [State.arrival, hs, Option.toList_some]
  | _ => exact (List.append_nil _).symm

/-- What the uplink has published is what it handed to the network. -/
theorem published_sent (h : Run (stepRel (step cfg)) .init tr u) :
    u.up.published = Network.sent (netRun tr) := by
  rw [sent_net]
  refine h.inv_hist (I := fun past w => w.up.published = past.filterMap publishing)
    (fun {past w e v} hi hs => ?_) rfl
  rw [filterMap_snoc, ← hi]
  cases step_move hs with
  | up hup => exact published_step (Tunnel.step_move hup)
  | data | lose | copy | down => exact (List.append_nil _).symm

/-- What comes in at the downlink is what the network delivers. -/
theorem contents_delivered (h : Run (stepRel (step cfg)) .init tr u) :
    Downlink.contents (downRun tr) = (Network.delivered (netRun tr)).filterMap (·.content) := by
  rw [Downlink.contents, downRun, Network.delivered, netRun, List.filterMap_filterMap,
    List.filterMap_filterMap, List.filterMap_filterMap]
  refine List.filterMap_congr fun ⟨w, e, v⟩ hx => ?_
  have hm : Move cfg w e v := step_move (h.step_of_mem hx)
  cases hm with
  | @up a s hs =>
    simp only [downAct, netAct]
    cases w.up.arrival a <;> rfl
  | data hdata _ _ =>
    simp only [downAct, netAct, Option.map_some, Option.bind_some, Downlink.incoming,
      Network.delivering, hdata]
  | lose | copy => rfl
  | @down a s ha hs =>
    cases a with
    | recv data =>
      cases data with
      | none => rfl
      | some data => exact absurd rfl (ha data)
    | _ => rfl

theorem contents_mapIdx (cfg : Config) (packets : List Bytes) :
    (packets.mapIdx cfg.data).filterMap (·.content) = packets := by
  induction packets using List.reverseRecOn with
  | nil => rfl
  | append_singleton packets ip ih =>
    rw [List.mapIdx_concat, filterMap_snoc, ih]
    rfl

/-! ## Runs -/

def Event.NoCopy : Event → Prop
  | .copy _ => False
  | _ => True

/-- The network makes no copies and delivers in order. -/
def Event.Fifo : Event → Prop
  | .copy _ => False
  | .data i => i = 0
  | _ => True

def Event.NoLoss : Event → Prop
  | .lose _ => False
  | _ => True

theorem net_forall {P : Event → Prop} {Q : Network.Act Data → Prop}
    (hQ : ∀ x a, P x.act → netAct x = some a → Q a) (hP : ∀ x ∈ tr, P x.act) :
    ∀ y ∈ netRun tr, Q y.act := by
  intro y hy
  obtain ⟨x, hx, hxy⟩ := List.mem_filterMap.mp hy
  obtain ⟨a, ha, rfl⟩ := Option.map_eq_some_iff.mp hxy
  exact hQ x a (hP x hx) ha

theorem net_noCopy {x : Trans Link Event} {a : Network.Act Data} (hx : x.act.NoCopy)
    (ha : netAct x = some a) : a.NoCopy := by
  obtain ⟨w, e, v⟩ := x
  cases e with
  | up b =>
    obtain ⟨data, -, rfl⟩ := Option.map_eq_some_iff.mp ha
    trivial
  | data | lose => cases ha; trivial
  | copy => exact absurd hx id
  | down => cases ha

theorem net_fifo {x : Trans Link Event} {a : Network.Act Data} (hx : x.act.Fifo)
    (ha : netAct x = some a) : a.Fifo := by
  obtain ⟨w, e, v⟩ := x
  cases e with
  | up b =>
    obtain ⟨data, -, rfl⟩ := Option.map_eq_some_iff.mp ha
    trivial
  | data => cases ha; exact hx
  | lose => cases ha; trivial
  | copy => exact absurd hx id
  | down => cases ha

theorem net_noLoss {x : Trans Link Event} {a : Network.Act Data} (hx : x.act.NoLoss)
    (ha : netAct x = some a) : a.NoLoss := by
  obtain ⟨w, e, v⟩ := x
  cases e with
  | up b =>
    obtain ⟨data, -, rfl⟩ := Option.map_eq_some_iff.mp ha
    trivial
  | data | copy => cases ha; trivial
  | lose => exact absurd hx id
  | down => cases ha

/-- The packets `inject` accepted at one end, and those `next` returned at the other. -/
def injected (tr : List (Trans Link Event)) : List Bytes := accepted (upRun tr)

def returned (tr : List (Trans Link Event)) : List Bytes := Downlink.returned (downRun tr)

/-- The packets the network has delivered are some of those published. -/
structure Carried (cfg : Config) (tr : List (Trans Link Event)) (u : Link)
    (packets : List Bytes) : Prop where
  up : u.up.published = packets.mapIdx cfg.data
  all : Downlink.contents (downRun tr) ⊆ packets
  once : (∀ x ∈ tr, x.act.NoCopy) → (Downlink.contents (downRun tr)).Subperm packets
  order : (∀ x ∈ tr, x.act.Fifo) → (Downlink.contents (downRun tr)).Sublist packets
  whole : (∀ x ∈ tr, x.act.Fifo) → (∀ x ∈ tr, x.act.NoLoss) →
    packets = Downlink.contents (downRun tr) ++ u.net.flight.filterMap (·.content)

theorem carried (h : Run (stepRel (step cfg)) .init tr u) {packets : List Bytes}
    (hup : u.up.published = packets.mapIdx cfg.data) : Carried cfg tr u packets := by
  obtain ⟨tr', hnet, htr⟩ := h.component net netAct net_step
  obtain rfl : tr' = netRun tr := htr
  have hsent : (Network.sent (netRun tr)).filterMap (·.content) = packets := by
    rw [← published_sent h, hup, contents_mapIdx]
  refine ⟨hup, ?_, fun hcopy => ?_, fun hfifo => ?_, fun hfifo hloss => ?_⟩
  · rw [contents_delivered h, ← hsent]
    exact List.filterMap_subset _ (Network.delivered_mem hnet)
  · have hperm := Network.delivered_perm hnet (net_forall (fun _ _ => net_noCopy) hcopy)
    rw [contents_delivered h, ← hsent]
    exact ((List.sublist_append_left ..).filterMap _).subperm.trans (hperm.filterMap _).subperm
  · have hsub := Network.delivered_sublist hnet (net_forall (fun _ _ => net_fifo) hfifo)
    rw [contents_delivered h, ← hsent]
    exact ((List.sublist_append_left ..).trans hsub).filterMap _
  · have hall := Network.delivered_whole hnet (net_forall (fun _ _ => net_fifo) hfifo)
      (net_forall (fun _ _ => net_noLoss) hloss)
    rw [contents_delivered h, ← hsent, ← List.filterMap_append, hall]

/-- The packets on their way, in order: at the downlink, in flight, at the uplink. -/
def inTransit (w : Link) : List Bytes :=
  (w.down.deliver.queue ++ w.down.task.held) ++
    (w.net.flight.filterMap (·.content) ++ (w.up.streamer.held ++ w.up.queue))

/-- **From end to end, over every run**: `next` returns only packets that `inject` accepted
at the other end, whatever the network does; none more than once if the network makes no
copies; in the order they were accepted in if it also keeps the order; and if it loses none
either, then while both ends are up, every accepted packet has been returned or is on its
way. -/
theorem link_exact (cfg : Config) {tr : List (Trans Link Event)} {u : Link}
    (h : Run (stepRel (step cfg)) .init tr u) :
    returned tr ⊆ injected tr ∧
      ((∀ x ∈ tr, x.act.NoCopy) → (returned tr).Subperm (injected tr)) ∧
      ((∀ x ∈ tr, x.act.Fifo) → (returned tr).Sublist (injected tr)) ∧
      ((∀ x ∈ tr, x.act.Fifo) → (∀ x ∈ tr, x.act.NoLoss) → u.up.streamer ≠ .stopped →
        u.down.deliver.rx = true → injected tr = returned tr ++ u.inTransit) := by
  obtain ⟨upTr, hup, heq⟩ := h.component up upAct up_step
  obtain rfl : upTr = upRun tr := heq
  obtain ⟨downTr, hdown, heq⟩ := h.component down downAct down_step
  obtain rfl : downTr = downRun tr := heq
  obtain ⟨packets, hflow⟩ := hup.inv_hist (I := fun past s => ∃ packets, Flow cfg past packets s)
    (fun ⟨_, hf⟩ hs => hf.step (Tunnel.step_move hs)) ⟨[], Flow.init⟩
  have hc := carried h hflow.published
  obtain ⟨hfirst, horder, -⟩ := Downlink.chan_exact hdown
  have hh := Downlink.handed_run hdown
  have hret : returned tr <+: Downlink.contents (downRun tr) := hfirst.trans hh.first
  refine ⟨?_, fun hcopy => ?_, fun hfifo => ?_, fun hfifo hloss hs hrx => ?_⟩
  · exact List.Subset.trans (List.Subset.trans hret.subset hc.all) hflow.first.subset
  · exact (hret.sublist.subperm.trans (hc.once hcopy)).trans hflow.first.sublist.subperm
  · exact (hret.sublist.trans (hc.order hfifo)).trans hflow.first.sublist
  · rw [injected, hflow.order hs, hc.whole hfifo hloss, hh.order (fun _ => hrx), horder hrx,
      returned, inTransit]
    simp only [List.append_assoc]

/-- One packet all the way, and a second one in flight. -/
def onePacketOver : List Event := [.down .head, .down (.subscribe true), .up (.interest (some 2)),
  .up (.inject [1]), .up (.grant 0), .up .recv, .up .acquire, .up (.publish true),
  .up (.inject [2]), .data 0, .down .deliver, .up .recv, .up .acquire, .up (.publish true),
  .down .next]

theorem link_exact_onePacketOver : ∃ tr u,
    Run (stepRel (step .phone)) .init tr u ∧ tr.map (·.act) = onePacketOver ∧
    returned tr ⊆ injected tr ∧
      ((∀ x ∈ tr, x.act.NoCopy) → (returned tr).Subperm (injected tr)) ∧
      ((∀ x ∈ tr, x.act.Fifo) → (returned tr).Sublist (injected tr)) ∧
      ((∀ x ∈ tr, x.act.Fifo) → (∀ x ∈ tr, x.act.NoLoss) → u.up.streamer ≠ .stopped →
        u.down.deliver.rx = true → injected tr = returned tr ++ u.inTransit) := by
  obtain ⟨u, hu⟩ : ∃ u, exec (step .phone) .init onePacketOver = some u := ⟨_, rfl⟩
  obtain ⟨tr, hrun, hacts⟩ := exec_run hu
  exact ⟨tr, u, hrun, hacts, link_exact .phone hrun⟩

end Link

end NdnMobile.Tunnel
