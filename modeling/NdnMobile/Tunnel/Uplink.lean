import NdnMobile.Tunnel.Model

/-!
# The uplink is an ordered stream within its credit

Over any run, `accepted` lists the packets `inject` accepted and `granted` adds up the
credits the handlers granted. `Flow` ties the queue, the packet the streamer holds, the
sequence counter and what was published to the accepted packets, and `Funded` the permits
to the credits. Every step keeps both, so `uplink_exact` holds of every run.
-/

namespace NdnMobile.Tunnel

open NdnMobile.Lib NdnMobile.Packet

/-- The Data that carries the `i`-th packet. -/
def Config.data (cfg : Config) (i : Nat) (ip : Bytes) : Data :=
  ⟨cfg.naming.appendSegment cfg.selfPrefix (UInt64.ofNat i), some ip⟩

/-- The packet a call of `inject` put in the queue. -/
def acceptedPacket (x : Trans State Act) : Option Bytes :=
  match x.act with
  | .inject ip => if x.pre.streamer = .stopped then none else some ip
  | _ => none

def accepted (tr : List (Trans State Act)) : List Bytes := tr.filterMap acceptedPacket

/-- The permits a handler added. -/
def grantedCredit (cfg : Config) (x : Trans State Act) : Nat :=
  match x.act with
  | .grant i =>
    match x.pre.grants[i]? with
    | none => 0
    | some subscription =>
      if x.pre.budget.permits + credit subscription ≤ cfg.target.maxPermits then
        credit subscription
      else 0
  | _ => 0

def granted (cfg : Config) (tr : List (Trans State Act)) : Nat :=
  (tr.map (grantedCredit cfg)).sum

/-- The accepted packet that is in neither the queue nor a published Data. -/
def Streamer.held : Streamer → List Bytes
  | .acquiring ip => [ip]
  | .publishing data => [data.bytes]
  | _ => []

theorem Streamer.held_length (st : Streamer) : st.held.length ≤ 1 := by
  cases st <;> simp [held]

variable {cfg : Config} {past : List (Trans State Act)} {s t : State} {a : Act}

theorem accepted_snoc (x : Trans State Act) :
    accepted (past ++ [x]) = accepted past ++ (acceptedPacket x).toList :=
  filterMap_snoc acceptedPacket past x

theorem accepted_of_none {x : Trans State Act} (hx : acceptedPacket x = none) :
    accepted (past ++ [x]) = accepted past := by
  rw [accepted_snoc, hx, Option.toList_none, List.append_nil]

theorem granted_snoc (x : Trans State Act) :
    granted cfg (past ++ [x]) = granted cfg past + grantedCredit cfg x := by
  simp [granted]

/-! ## Packets -/

/-- What is published are the first `packets` in order, and while the streamer runs, every
other accepted packet is held or in the queue. -/
structure Flow (cfg : Config) (past : List (Trans State Act)) (packets : List Bytes)
    (s : State) : Prop where
  published : s.published = packets.mapIdx cfg.data
  first : packets <+: accepted past
  order : s.streamer ≠ .stopped → accepted past = packets ++ (s.streamer.held ++ s.queue)
  seq : s.streamer ≠ .stopped → s.seq = UInt64.ofNat (packets.length + s.streamer.taken)
  next : ∀ data, s.streamer = .publishing data → ∃ ip, data = cfg.data packets.length ip

theorem Flow.init : Flow cfg [] [] .init where
  published := rfl
  first := List.prefix_refl _
  order _ := rfl
  seq _ := rfl
  next _ h := by cases h

theorem addU64_one {tg : Target} {x y : UInt64} (h : tg.addU64 x 1 = .ok y) : y = x + 1 := by
  unfold Target.addU64 at h
  split at h <;> cases h
  rfl

/-- A step that accepts nothing and after which the streamer is stopped. -/
theorem Flow.stop {packets : List Bytes} (hf : Flow cfg past packets s) {x : Trans State Act}
    (hx : acceptedPacket x = none) (hstop : t.streamer = .stopped)
    (hpub : t.published = s.published) : Flow cfg (past ++ [x]) packets t where
  published := hpub.trans hf.published
  first := by
    rw [accepted_of_none hx]
    exact hf.first
  order h := absurd hstop h
  seq h := absurd hstop h
  next data h := by rw [hstop] at h; cases h

/-- A step that accepts nothing and leaves the streamer and the queue alone. -/
theorem Flow.frame {packets : List Bytes} (hf : Flow cfg past packets s) {x : Trans State Act}
    (hx : acceptedPacket x = none) (hstreamer : t.streamer = s.streamer)
    (hqueue : t.queue = s.queue) (hseq : t.seq = s.seq) (hpub : t.published = s.published) :
    Flow cfg (past ++ [x]) packets t where
  published := hpub.trans hf.published
  first := by
    rw [accepted_of_none hx]
    exact hf.first
  order h := by
    rw [hstreamer] at h
    rw [accepted_of_none hx, hstreamer, hqueue, ← hf.order h]
  seq h := by
    rw [hstreamer] at h ⊢
    rw [hseq, hf.seq h]
  next data h := hf.next data (hstreamer ▸ h)

theorem Flow.inject {packets : List Bytes} {ip : Bytes} (hf : Flow cfg past packets s)
    (hs : s.streamer ≠ .stopped) :
    Flow cfg (past ++ [⟨s, .inject ip, { s with queue := s.queue ++ [ip] }⟩]) packets
      { s with queue := s.queue ++ [ip] } := by
  have hx : acceptedPacket ⟨s, .inject ip, { s with queue := s.queue ++ [ip] }⟩ = some ip :=
    if_neg hs
  refine { hf with first := ?_, order := fun _ => ?_ }
  · rw [accepted_snoc]
    exact hf.first.trans (List.prefix_append ..)
  · rw [accepted_snoc, hx, hf.order hs]
    simp

theorem Flow.recv {packets : List Bytes} {ip : Bytes} {queue : List Bytes} {x : Trans State Act}
    (hf : Flow cfg past packets s) (hx : acceptedPacket x = none) (hs : s.streamer = .receiving)
    (hq : s.queue = ip :: queue) :
    Flow cfg (past ++ [x]) packets { s with queue := queue, streamer := .acquiring ip } where
  published := hf.published
  first := by
    rw [accepted_of_none hx]
    exact hf.first
  order _ := by
    rw [accepted_of_none hx, hf.order (by simp [hs]), hs, hq]
    rfl
  seq _ := by
    rw [show s.seq = _ from hf.seq (by simp [hs]), hs]
    rfl
  next data h := by cases h

theorem Flow.acquire {packets : List Bytes} {ip : Bytes} {budget : Semaphore} {seq : UInt64}
    {x : Trans State Act} (hf : Flow cfg past packets s) (hx : acceptedPacket x = none)
    (hs : s.streamer = .acquiring ip) (hseq : cfg.target.addU64 s.seq 1 = .ok seq) :
    Flow cfg (past ++ [x]) packets
      { s with
        budget := budget
        seq := seq
        streamer := .publishing ⟨cfg.naming.appendSegment cfg.selfPrefix s.seq, some ip⟩ } := by
  have hnum : s.seq = UInt64.ofNat packets.length := by
    rw [hf.seq (by simp [hs]), hs]
    rfl
  refine ⟨hf.published, ?_, fun _ => ?_, fun _ => ?_, fun data h => ?_⟩
  · rw [accepted_of_none hx]
    exact hf.first
  · rw [accepted_of_none hx, hf.order (by simp [hs]), hs]
    rfl
  · rw [addU64_one hseq, hnum]
    simp [Streamer.taken]
  · cases h
    exact ⟨ip, by rw [hnum]; rfl⟩

theorem Flow.publish {packets : List Bytes} {data : Data} {x : Trans State Act}
    (hf : Flow cfg past packets s) (hx : acceptedPacket x = none)
    (hs : s.streamer = .publishing data) : ∃ ip, Flow cfg (past ++ [x]) (packets ++ [ip])
      { s with published := s.published ++ [data], streamer := .receiving } := by
  obtain ⟨ip, rfl⟩ := hf.next data hs
  have horder := hf.order (by simp [hs])
  rw [hs] at horder
  refine ⟨ip, ?_, ?_, fun _ => ?_, fun _ => ?_, fun _ h => by cases h⟩
  · rw [List.mapIdx_concat, ← hf.published]
  · rw [accepted_of_none hx, horder]
    exact ⟨s.queue, by simp [Streamer.held, Config.data, Data.bytes]⟩
  · rw [accepted_of_none hx, horder]
    simp [Streamer.held, Config.data, Data.bytes]
  · rw [show s.seq = _ from hf.seq (by simp [hs]), hs]
    simp [Streamer.taken]

theorem Flow.step {packets : List Bytes} (hf : Flow cfg past packets s) (hm : Move cfg s a t) :
    ∃ packets', Flow cfg (past ++ [⟨s, a, t⟩]) packets' t := by
  cases hm with
  | inject hs _ => exact ⟨packets, hf.inject hs⟩
  | refuse hs => exact ⟨packets, hf.stop (if_pos hs) hs rfl⟩
  | close | interest | grant _ _ | overflow _ _ | cancel =>
    exact ⟨packets, hf.frame rfl rfl rfl rfl rfl⟩
  | recv hs hq => exact ⟨packets, hf.recv rfl hs hq⟩
  | acquire hs _ hseq => exact ⟨packets, hf.acquire rfl hs hseq⟩
  | publish hs =>
    obtain ⟨ip, hf'⟩ := hf.publish (x := ⟨s, .publish true, _⟩) rfl hs
    exact ⟨packets ++ [ip], hf'⟩
  | drained | exhausted | failed | cancelled => exact ⟨packets, hf.stop rfl rfl rfl⟩

/-! ## Credits -/

/-- What has become of the permits: used, taken, free. -/
def State.permits (s : State) : Nat :=
  s.published.length + s.streamer.taken + s.budget.permits

theorem grantedCredit_grant {i : Nat} {subscription : Option UInt32} {budget : Semaphore}
    (hi : s.grants[i]? = some subscription)
    (hb : s.budget.addPermits cfg.target.maxPermits (credit subscription) = some budget) :
    grantedCredit cfg ⟨s, .grant i, t⟩ = credit subscription := by
  have hle : s.budget.permits + credit subscription ≤ cfg.target.maxPermits := by
    by_contra hgt
    rw [Semaphore.addPermits, if_neg hgt] at hb
    cases hb
  simp only [grantedCredit, hi, if_pos hle]

/-- A step makes no permits beyond the credit it grants. -/
theorem permits_step (hm : Move cfg s a t) :
    t.permits ≤ s.permits + grantedCredit cfg ⟨s, a, t⟩ := by
  cases hm with
  | inject | refuse | close | interest | overflow _ _ | cancel => exact Nat.le_add_right _ _
  | grant hi hb =>
    rw [grantedCredit_grant hi hb]
    simp only [State.permits, Semaphore.addPermits_some hb]
    omega
  | recv hs _ =>
    refine Nat.le_add_right_of_le ?_
    simp [State.permits, hs, Streamer.taken]
  | acquire hs hb _ =>
    refine Nat.le_add_right_of_le ?_
    simp only [State.permits, hs, Streamer.taken, Semaphore.acquire_some hb]
    omega
  | exhausted hs hb =>
    refine Nat.le_add_right_of_le ?_
    simp only [State.permits, State.stop, hs, Streamer.taken, Semaphore.acquire_some hb]
    omega
  | publish hs =>
    refine Nat.le_add_right_of_le ?_
    simp only [State.permits, hs, Streamer.taken, List.length_append, List.length_singleton]
    omega
  | drained | failed | cancelled =>
    refine Nat.le_add_right_of_le ?_
    simp only [State.permits, State.stop, Streamer.taken]
    omega

/-- Every permit was granted. -/
def Funded (cfg : Config) (past : List (Trans State Act)) (s : State) : Prop :=
  s.permits ≤ granted cfg past

theorem Funded.step (hf : Funded cfg past s) (hm : Move cfg s a t) :
    Funded cfg (past ++ [⟨s, a, t⟩]) t := by
  have hle := permits_step hm
  unfold Funded at hf ⊢
  rw [granted_snoc]
  omega

/-- **The uplink, over every run**: what it has published are the first accepted packets in
order under the segment numbers 0, 1, 2, ...; while it runs, every other accepted packet is
in the queue but for at most one; and it never publishes more than the handlers granted. -/
theorem uplink_exact (cfg : Config) {tr : List (Trans State Act)} {u : State}
    (h : Run (stepRel (step cfg)) .init tr u) :
    ∃ packets, u.published = packets.mapIdx cfg.data ∧ packets <+: accepted tr ∧
      (u.streamer ≠ .stopped → ∃ held, held.length ≤ 1 ∧
        accepted tr = packets ++ (held ++ u.queue)) ∧
      u.published.length ≤ granted cfg tr := by
  obtain ⟨⟨packets, hflow⟩, hfunded⟩ := h.inv_hist
    (I := fun past s => (∃ packets, Flow cfg past packets s) ∧ Funded cfg past s)
    (fun ⟨⟨_, hf⟩, hb⟩ hs => ⟨hf.step (step_move hs), hb.step (step_move hs)⟩)
    ⟨⟨[], Flow.init⟩, Nat.le_refl 0⟩
  refine ⟨packets, hflow.published, hflow.first, fun hs => ?_, ?_⟩
  · exact ⟨u.streamer.held, u.streamer.held_length, hflow.order hs⟩
  · unfold Funded State.permits at hfunded
    omega

/-- Two packets and a budget of two, in the middle of the second Data. -/
def twoPackets : List Act := [.inject [1], .interest (some 2), .inject [2], .recv, .grant 0,
  .acquire, .publish true, .recv, .acquire]

theorem uplink_exact_twoPackets : ∃ tr u,
    Run (stepRel (step .phone)) .init tr u ∧ tr.map (·.act) = twoPackets ∧
    ∃ packets, u.published = packets.mapIdx (Config.data .phone) ∧ packets <+: accepted tr ∧
      (u.streamer ≠ .stopped → ∃ held, held.length ≤ 1 ∧
        accepted tr = packets ++ (held ++ u.queue)) ∧
      u.published.length ≤ granted .phone tr := by
  obtain ⟨u, hu⟩ : ∃ u, exec (step .phone) .init twoPackets = some u := ⟨_, rfl⟩
  obtain ⟨tr, hrun, hacts⟩ := exec_run hu
  exact ⟨tr, u, hrun, hacts, uplink_exact .phone hrun⟩

end NdnMobile.Tunnel
