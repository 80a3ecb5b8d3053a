import NdnMobile.Lib.Drain
import NdnMobile.Tunnel.Uplink

/-!
# The uplink publishes all it can

The steps the uplink takes by itself (`Inner`: a handler runs, the streamer receives, takes
a permit, publishes) decrease `State.work`, so once the environment pauses they come to an
end, and where none is left the packets published are the accepted ones, as many as there is
credit for. With `uplink_exact`, which says that it is never more than that, no packet is
stuck in the queue while there is credit.
-/

namespace NdnMobile.Tunnel

open NdnMobile.Lib NdnMobile.Packet

/-- A step of the uplink's own, none of which fails. -/
def Act.Inner : Act → Prop
  | .grant _ | .recv | .acquire => True
  | .publish ok => ok = true
  | _ => False

def Inner (cfg : Config) (s : State) (a : Act) (t : State) : Prop :=
  a.Inner ∧ step cfg s a = some t

/-- How many of its own steps the streamer has left for the packet in hand, and one for
the end. -/
def Streamer.work : Streamer → Nat
  | .receiving => 1
  | .acquiring _ => 3
  | .publishing _ => 2
  | .stopped => 0

@[simp] theorem work_receiving : Streamer.receiving.work = 1 := rfl

@[simp] theorem work_acquiring (ip : Bytes) : (Streamer.acquiring ip).work = 3 := rfl

@[simp] theorem work_publishing (data : Data) : (Streamer.publishing data).work = 2 := rfl

@[simp] theorem work_stopped : Streamer.stopped.work = 0 := rfl

def State.work (s : State) : Nat := s.grants.length + (3 * s.queue.length + s.streamer.work)

variable {cfg : Config} {past : List (Trans State Act)} {s t : State} {a : Act}

theorem eraseIdx_lt {grants : List (Option UInt32)} {i : Nat} {c : Option UInt32}
    (h : grants[i]? = some c) : (grants.eraseIdx i).length < grants.length := by
  obtain ⟨hi, -⟩ := List.getElem?_eq_some_iff.mp h
  rw [List.length_eraseIdx_of_lt hi]
  omega

theorem inner_drains (cfg : Config) : Drains (Inner cfg) State.work := by
  rintro s a t ⟨ha, hstep⟩
  cases step_move hstep with
  | inject | refuse | close | interest | cancel | cancelled => exact absurd ha id
  | failed => exact absurd ha Bool.false_ne_true
  | grant hi _ | overflow hi _ =>
    have := eraseIdx_lt hi
    simp only [State.work]
    omega
  | recv hs hq =>
    simp only [State.work, hs, hq, work_receiving, work_acquiring, List.length_cons]
    omega
  | drained hs =>
    simp only [State.work, State.stop, hs, work_receiving, work_stopped, List.length_nil]
    omega
  | acquire hs _ _ =>
    simp only [State.work, hs, work_acquiring, work_publishing]
    omega
  | exhausted hs _ =>
    simp only [State.work, State.stop, hs, work_acquiring, work_stopped, List.length_nil]
    omega
  | publish hs =>
    simp only [State.work, hs, work_publishing, work_receiving]
    omega

/-! ## Where no step is left -/

/-- What the streamer still could do needs a permit or a packet. -/
structure Idle (s : State) : Prop where
  grants : s.grants = []
  streamer : s.streamer = .stopped ∨ s.streamer = .receiving ∧ s.queue = [] ∨
    ∃ ip, s.streamer = .acquiring ip ∧ s.budget.permits = 0

theorem idle_of_stuck (h : Stuck (Inner cfg) s) : Idle s := by
  constructor
  · cases hg : s.grants with
    | nil => rfl
    | cons subscription grants =>
      obtain ⟨t, ht⟩ : ∃ t, step cfg s (.grant 0) = some t := by
        simp only [step, hg, List.getElem?_cons_zero]
        cases s.budget.addPermits cfg.target.maxPermits (credit subscription) <;> exact ⟨_, rfl⟩
      exact absurd ⟨trivial, ht⟩ (h (.grant 0) t)
  · cases hs : s.streamer with
    | stopped => exact .inl rfl
    | receiving =>
      refine .inr (.inl ⟨rfl, ?_⟩)
      cases hq : s.queue with
      | nil => rfl
      | cons ip queue =>
        exact absurd ⟨trivial, by simp only [step, hs, hq]⟩
          (h .recv { s with queue := queue, streamer := .acquiring ip })
    | acquiring ip =>
      refine .inr (.inr ⟨ip, rfl, ?_⟩)
      by_contra hpos
      have hb : s.budget.acquire = some ⟨s.budget.permits - 1⟩ :=
        if_pos (Nat.pos_of_ne_zero hpos)
      obtain ⟨t, ht⟩ : ∃ t, step cfg s .acquire = some t := by
        simp only [step, hs, hb]
        cases cfg.target.addU64 s.seq 1 <;> exact ⟨_, rfl⟩
      exact h .acquire t ⟨trivial, ht⟩
    | publishing data =>
      exact absurd ⟨rfl, by simp only [step, hs, if_pos]⟩ (h (.publish true)
        { s with published := s.published ++ [data], streamer := .receiving })

/-! ## No permit is lost -/

/-- While the streamer runs, every permit granted is used, taken or free. -/
def Kept (cfg : Config) (past : List (Trans State Act)) (s : State) : Prop :=
  s.streamer ≠ .stopped → s.permits = granted cfg past

theorem Kept.step (h : Kept cfg past s) (hm : Move cfg s a t) :
    Kept cfg (past ++ [⟨s, a, t⟩]) t := by
  intro ht
  rw [granted_snoc]
  cases hm with
  | inject hs _ => exact h hs
  | refuse hs => exact absurd hs ht
  | close | interest | cancel => exact h ht
  | grant hi hb =>
    have hkept := h ht
    rw [grantedCredit_grant hi hb]
    simp only [State.permits, Semaphore.addPermits_some hb] at hkept ⊢
    omega
  | @overflow i subscription hi hb =>
    have hno : ¬ s.budget.permits + credit subscription ≤ cfg.target.maxPermits := fun hle => by
      rw [Semaphore.addPermits, if_pos hle] at hb
      cases hb
    simp only [grantedCredit, hi, if_neg hno]
    exact h ht
  | recv hs _ =>
    have hkept := h (by simp [hs])
    simp only [State.permits, hs, Streamer.taken, grantedCredit] at hkept ⊢
    exact hkept
  | acquire hs hb _ =>
    have hkept := h (by simp [hs])
    have htake := Semaphore.acquire_some hb
    simp only [State.permits, hs, Streamer.taken, grantedCredit] at hkept ⊢
    omega
  | publish hs =>
    have hkept := h (by simp [hs])
    simp only [State.permits, hs, Streamer.taken, grantedCredit, List.length_append,
      List.length_singleton] at hkept ⊢
    omega
  | drained | exhausted | failed | cancelled => exact absurd rfl ht

/-! ## Runs -/

theorem accepted_inner {tr : List (Trans State Act)} {u : State} (h : Run (Inner cfg) s tr u) :
    accepted tr = [] := by
  refine List.filterMap_eq_nil_iff.mpr fun x hx => ?_
  obtain ⟨ha, -⟩ := h.step_of_mem hx
  unfold acceptedPacket
  split
  · rename_i hact
    rw [hact] at ha
    exact absurd ha id
  · rfl

/-- **What the uplink does when the environment pauses**: from every state that a run
reaches it takes finitely many steps of its own, at most `State.work`, it can take them
until none is left, and then no handler is waiting and, unless the streamer has stopped, the
packets published are the accepted ones, as many as the credits granted allow. -/
theorem uplink_drains (cfg : Config) {tr : List (Trans State Act)} {s : State}
    (h : Run (stepRel (step cfg)) .init tr s) :
    (∀ tr' u, Run (Inner cfg) s tr' u → tr'.length ≤ s.work) ∧
      (∃ tr' u, Run (Inner cfg) s tr' u ∧ Stuck (Inner cfg) u) ∧
      ∀ tr' u, Run (Inner cfg) s tr' u → Stuck (Inner cfg) u → u.grants = [] ∧
        (u.streamer ≠ .stopped →
          u.published = ((accepted tr).take (granted cfg (tr ++ tr'))).mapIdx cfg.data) := by
  refine ⟨fun _ _ hr => (inner_drains cfg).length_le hr, (inner_drains cfg).exists_stuck s,
    fun tr' u hr hstuck => ?_⟩
  have hidle := idle_of_stuck hstuck
  refine ⟨hidle.grants, fun hrun => ?_⟩
  have hall := h.append (hr.mono And.right)
  obtain ⟨⟨packets, hflow⟩, hkept⟩ := hall.inv_hist
    (I := fun past s => (∃ packets, Flow cfg past packets s) ∧ Kept cfg past s)
    (fun ⟨⟨_, hf⟩, hk⟩ hs => ⟨hf.step (step_move hs), hk.step (step_move hs)⟩)
    ⟨⟨[], Flow.init⟩, fun _ => rfl⟩
  have horder := hflow.order hrun
  have hpermits := hkept hrun
  have haccepted : accepted (tr ++ tr') = accepted tr := by
    rw [accepted, List.filterMap_append, ← accepted, ← accepted, accepted_inner hr,
      List.append_nil]
  rw [haccepted] at horder
  have hlen : u.published.length = packets.length := by
    rw [hflow.published, List.length_mapIdx]
  rw [hflow.published]
  congr 1
  rcases hidle.streamer with hs | ⟨hs, hq⟩ | ⟨ip, hs, hb⟩
  · exact absurd hs hrun
  · -- every accepted packet is published
    simp only [hs, hq, Streamer.held, List.append_nil] at horder
    rw [horder, List.take_of_length_le]
    rw [← hpermits, State.permits, hlen]
    omega
  · -- every permit is used
    rw [← hpermits, State.permits, hlen, hs, hb, horder]
    simp [Streamer.taken]

theorem uplink_drains_twoPackets : ∃ tr s,
    Run (stepRel (step .phone)) .init tr s ∧ tr.map (·.act) = twoPackets ∧
    (∀ tr' u, Run (Inner .phone) s tr' u → tr'.length ≤ s.work) ∧
      (∃ tr' u, Run (Inner .phone) s tr' u ∧ Stuck (Inner .phone) u) ∧
      ∀ tr' u, Run (Inner .phone) s tr' u → Stuck (Inner .phone) u → u.grants = [] ∧
        (u.streamer ≠ .stopped →
          u.published =
            ((accepted tr).take (granted .phone (tr ++ tr'))).mapIdx (Config.data .phone)) := by
  obtain ⟨s, hs⟩ : ∃ s, exec (step .phone) .init twoPackets = some s := ⟨_, rfl⟩
  obtain ⟨tr, hrun, hacts⟩ := exec_run hs
  exact ⟨tr, s, hrun, hacts, uplink_drains .phone hrun⟩

end NdnMobile.Tunnel
