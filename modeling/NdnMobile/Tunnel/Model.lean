import NdnMobile.Lib.Run
import NdnMobile.Lib.Semaphore
import NdnMobile.Packet.Name
import NdnMobile.Rust

/-!
# The tunnel's uplink

The producer half of `spawn_tunnel` as one transition system: `TunHandle::inject` filling
the bounded queue, the handlers of the Interests that reach the producer, each granting
budget, and the uplink streamer, which waits for a packet, then for a permit, and
publishes. The environment decides which Interests arrive, in which order their handlers
run, whether a publish fails, and when the tunnel is cancelled or its handle dropped.
-/

namespace NdnMobile.Tunnel

open NdnMobile.Lib NdnMobile.Packet

structure Config where
  target : Target
  naming : SegmentNaming
  selfPrefix : Name

/-- A tunnel below the root on a phone. -/
def Config.phone : Config := ⟨.mobile, .nni, []⟩

/-- `TUN_QUEUE_CAP`. -/
def tunQueueCap : Nat := 1024

/-- Where the uplink streamer is. -/
inductive Streamer where
  /-- At the first `select!`, in `inject_rx.recv()`. -/
  | receiving
  /-- At the second one, in `budget.acquire()`. -/
  | acquiring (ip : Bytes)
  /-- In `producer.publish(data)`. -/
  | publishing (data : Data)
  /-- Out of the loop, the receiver dropped. -/
  | stopped
  deriving DecidableEq, Repr

/-- The permits the streamer has taken for a Data it has not published. -/
def Streamer.taken : Streamer → Nat
  | .publishing _ => 1
  | _ => 0

structure State where
  queue : List Bytes
  budget : Semaphore
  /-- The `max_data_count` of each Interest whose handler has not run; none without a
  `SubscriptionRequest`. -/
  grants : List (Option UInt32)
  streamer : Streamer
  seq : UInt64
  cancelled : Bool
  /-- The `TunHandle` is gone. -/
  closed : Bool
  /-- The Data published, oldest first. -/
  published : List Data
  deriving DecidableEq, Repr

/-- `spawn_tunnel`. -/
def State.init : State where
  queue := []
  budget := .new 0
  grants := []
  streamer := .receiving
  seq := 0
  cancelled := false
  closed := false
  published := []

/-- The streamer's task ends. -/
def State.stop (s : State) : State := { s with streamer := .stopped, queue := [] }

/-- `.map(|s| s.max_data_count as usize).unwrap_or(1)`. -/
def credit (subscription : Option UInt32) : Nat := (subscription.map (·.toNat)).getD 1

inductive Act where
  /-- A call of `TunHandle::inject` goes through. -/
  | inject (ip : Bytes)
  /-- The handle is dropped. -/
  | close
  /-- An Interest reaches the producer. -/
  | interest (subscription : Option UInt32)
  /-- The handler of the `i`-th of them runs. -/
  | grant (i : Nat)
  | recv
  | acquire
  | publish (ok : Bool)
  | cancel
  /-- The streamer sees the cancellation. -/
  | cancelled
  deriving DecidableEq, Repr

def step (cfg : Config) (s : State) : Act → Option State
  | .inject ip =>
    if s.closed then none
    else if s.streamer = .stopped then some s
    else if s.queue.length < tunQueueCap then some { s with queue := s.queue ++ [ip] }
    else none
  | .close => some { s with closed := true }
  | .interest subscription => some { s with grants := s.grants ++ [subscription] }
  | .grant i =>
    match s.grants[i]? with
    | none => none
    | some subscription =>
      match s.budget.addPermits cfg.target.maxPermits (credit subscription) with
      | some budget => some { s with grants := s.grants.eraseIdx i, budget := budget }
      -- the handler panics
      | none => some { s with grants := s.grants.eraseIdx i }
  | .recv =>
    match s.streamer, s.queue with
    | .receiving, ip :: queue => some { s with queue := queue, streamer := .acquiring ip }
    | .receiving, [] => if s.closed then some s.stop else none
    | _, _ => none
  | .acquire =>
    match s.streamer, s.budget.acquire with
    | .acquiring ip, some budget =>
      match cfg.target.addU64 s.seq 1 with
      | .ok seq => some { s with
          budget := budget
          seq := seq
          streamer := .publishing ⟨cfg.naming.appendSegment cfg.selfPrefix s.seq, some ip⟩ }
      -- the streamer panics
      | .error _ => some { s.stop with budget := budget }
    | _, _ => none
  | .publish ok =>
    match s.streamer with
    | .publishing data =>
      if ok then some { s with published := s.published ++ [data], streamer := .receiving }
      else some s.stop
    | _ => none
  | .cancel => some { s with cancelled := true }
  | .cancelled =>
    match s.streamer with
    | .receiving | .acquiring _ => if s.cancelled then some s.stop else none
    | _ => none

/-! ## What a step can do -/

inductive Move (cfg : Config) (s : State) : Act → State → Prop where
  | inject {ip : Bytes} : s.streamer ≠ .stopped → s.queue.length < tunQueueCap →
    Move cfg s (.inject ip) { s with queue := s.queue ++ [ip] }
  /-- `Err(TunClosed)`. -/
  | refuse {ip : Bytes} : s.streamer = .stopped → Move cfg s (.inject ip) s
  | close : Move cfg s .close { s with closed := true }
  | interest {subscription : Option UInt32} :
    Move cfg s (.interest subscription) { s with grants := s.grants ++ [subscription] }
  | grant {i : Nat} {subscription : Option UInt32} {budget : Semaphore} :
    s.grants[i]? = some subscription →
    s.budget.addPermits cfg.target.maxPermits (credit subscription) = some budget →
    Move cfg s (.grant i) { s with grants := s.grants.eraseIdx i, budget := budget }
  | overflow {i : Nat} {subscription : Option UInt32} :
    s.grants[i]? = some subscription →
    s.budget.addPermits cfg.target.maxPermits (credit subscription) = none →
    Move cfg s (.grant i) { s with grants := s.grants.eraseIdx i }
  | recv {ip : Bytes} {queue : List Bytes} : s.streamer = .receiving → s.queue = ip :: queue →
    Move cfg s .recv { s with queue := queue, streamer := .acquiring ip }
  | drained : s.streamer = .receiving → Move cfg s .recv s.stop
  | acquire {ip : Bytes} {budget : Semaphore} {seq : UInt64} : s.streamer = .acquiring ip →
    s.budget.acquire = some budget → cfg.target.addU64 s.seq 1 = .ok seq →
    Move cfg s .acquire { s with
      budget := budget
      seq := seq
      streamer := .publishing ⟨cfg.naming.appendSegment cfg.selfPrefix s.seq, some ip⟩ }
  | exhausted {ip : Bytes} {budget : Semaphore} : s.streamer = .acquiring ip →
    s.budget.acquire = some budget → Move cfg s .acquire { s.stop with budget := budget }
  | publish {data : Data} : s.streamer = .publishing data →
    Move cfg s (.publish true)
      { s with published := s.published ++ [data], streamer := .receiving }
  | failed {data : Data} : s.streamer = .publishing data → Move cfg s (.publish false) s.stop
  | cancel : Move cfg s .cancel { s with cancelled := true }
  | cancelled : s.cancelled = true → Move cfg s .cancelled s.stop

theorem step_move {cfg : Config} {s t : State} {a : Act} (h : step cfg s a = some t) :
    Move cfg s a t := by
  cases a with
  | inject ip =>
    simp only [step] at h
    split at h
    · cases h
    split at h
    · rename_i hs
      cases h
      exact .refuse hs
    · rename_i hs
      split at h <;> cases h
      exact .inject hs ‹_›
  | close => cases h; exact .close
  | interest subscription => cases h; exact .interest
  | grant i =>
    simp only [step] at h
    split at h
    · cases h
    · rename_i subscription hi
      split at h <;> cases h
      · exact .grant hi ‹_›
      · exact .overflow hi ‹_›
  | recv =>
    simp only [step] at h
    split at h
    · rename_i hs hq
      cases h
      exact .recv hs hq
    · rename_i hs hq
      split at h <;> cases h
      exact .drained hs
    · cases h
  | acquire =>
    simp only [step] at h
    split at h
    · rename_i ip budget hs hb
      split at h <;> cases h
      · exact .acquire hs hb ‹_›
      · exact .exhausted hs hb
    · cases h
  | publish ok =>
    simp only [step] at h
    split at h
    · rename_i data hs
      cases ok <;> cases h
      · exact .failed hs
      · exact .publish hs
    · cases h
  | cancel => cases h; exact .cancel
  | cancelled =>
    simp only [step] at h
    split at h
    · split at h <;> cases h
      exact .cancelled ‹_›
    · split at h <;> cases h
      exact .cancelled ‹_›
    · cases h

end NdnMobile.Tunnel
