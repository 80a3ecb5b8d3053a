import NdnMobile.Lib.Run

/-!
# Bounded channels

A queue of at most `cap` messages between a sender and a receiver, either of which may go
away. `send` waits for room and `trySend` drops the message instead. Over any run of such
operations, `Channel.run_exact` says that what was received is what went in, in order and
each once, and that while the receiver is there the rest is in the queue.
-/

namespace NdnMobile.Lib

structure Channel (α : Type) where
  queue : List α
  /-- The sender is there. -/
  tx : Bool
  /-- The receiver is there. -/
  rx : Bool
  deriving DecidableEq, Repr

namespace Channel

variable {α : Type} {cap : Nat} {c d : Channel α} {x : α}

def new : Channel α := ⟨[], true, true⟩

/-- A message sent now would go in. -/
def hasRoom (cap : Nat) (c : Channel α) : Bool := c.rx && decide (c.queue.length < cap)

def push (c : Channel α) (x : α) : Channel α := { c with queue := c.queue ++ [x] }

/-- No result while the queue is full; the error once the receiver is gone. -/
def send (cap : Nat) (c : Channel α) (x : α) : Option (Except Unit (Channel α)) :=
  if c.rx then if c.hasRoom cap then some (.ok (c.push x)) else none else some (.error ())

/-- A message that does not go in is dropped. -/
def trySend (cap : Nat) (c : Channel α) (x : α) : Channel α :=
  if c.hasRoom cap then c.push x else c

/-- No result while the queue is empty; `none` in it once the sender is gone as well. -/
def recv (c : Channel α) : Option (Option α × Channel α) :=
  match c.queue with
  | x :: queue => some (some x, { c with queue := queue })
  | [] => if c.tx then none else some (none, c)

def hangUp (c : Channel α) : Channel α := { c with tx := false }

def leave (c : Channel α) : Channel α := { c with rx := false, queue := [] }

/-! ## Runs -/

inductive Act (α : Type) where
  | send (x : α)
  | trySend (x : α)
  | recv
  | hangUp
  | leave
  deriving DecidableEq, Repr

def step (cap : Nat) (c : Channel α) : Act α → Option (Channel α)
  | .send x => (c.send cap x).map fun r => r.toOption.getD c
  | .trySend x => some (c.trySend cap x)
  | .recv => if c.rx then c.recv.map (·.2) else none
  | .hangUp => some c.hangUp
  | .leave => some c.leave

/-- The message an operation put in the queue. -/
def wentIn (cap : Nat) (y : Trans (Channel α) (Act α)) : Option α :=
  match y.act with
  | .send x | .trySend x => if y.pre.hasRoom cap then some x else none
  | _ => none

/-- The message an operation took from it. -/
def cameOut (y : Trans (Channel α) (Act α)) : Option α :=
  match y.act with
  | .recv => y.pre.queue.head?
  | _ => none

def sent (cap : Nat) (tr : List (Trans (Channel α) (Act α))) : List α := tr.filterMap (wentIn cap)

def received (tr : List (Trans (Channel α) (Act α))) : List α := tr.filterMap cameOut

inductive Moved (cap : Nat) (c : Channel α) : Act α → Channel α → Prop where
  | send {x : α} : c.hasRoom cap = true → Moved cap c (.send x) (c.push x)
  | refused {x : α} : c.hasRoom cap = false → Moved cap c (.send x) c
  | trySend {x : α} : c.hasRoom cap = true → Moved cap c (.trySend x) (c.push x)
  | shed {x : α} : c.hasRoom cap = false → Moved cap c (.trySend x) c
  | recv {x : α} {queue : List α} : c.rx = true → c.queue = x :: queue →
    Moved cap c .recv { c with queue := queue }
  | ended : c.rx = true → c.queue = [] → Moved cap c .recv c
  | hangUp : Moved cap c .hangUp c.hangUp
  | leave : Moved cap c .leave c.leave

theorem step_moved {a : Act α} (h : step cap c a = some d) : Moved cap c a d := by
  cases a with
  | send x =>
    simp only [step, Channel.send] at h
    split at h
    · split at h <;> cases h
      exact .send ‹_›
    · rename_i hrx
      cases h
      exact .refused (by simp only [hasRoom, hrx, Bool.false_and])
  | trySend x =>
    simp only [step, Channel.trySend, Option.some.injEq] at h
    split at h <;> subst h
    · exact .trySend ‹_›
    · exact .shed (Bool.eq_false_iff.mpr ‹_›)
  | recv =>
    simp only [step, Channel.recv] at h
    split at h
    · rename_i hrx
      split at h
      · cases h
        exact .recv hrx ‹_›
      · split at h <;> cases h
        exact .ended hrx ‹_›
    · cases h
  | hangUp => cases h; exact .hangUp
  | leave => cases h; exact .leave

variable {past : List (Trans (Channel α) (Act α))} {a : Act α}

theorem sent_snoc (y : Trans (Channel α) (Act α)) :
    sent cap (past ++ [y]) = sent cap past ++ (wentIn cap y).toList := filterMap_snoc _ past y

theorem received_snoc (y : Trans (Channel α) (Act α)) :
    received (past ++ [y]) = received past ++ (cameOut y).toList := filterMap_snoc _ past y

theorem hasRoom_iff : c.hasRoom cap = true ↔ c.rx = true ∧ c.queue.length < cap := by
  simp [hasRoom]

/-- What was received went in, in order, and is followed by the queue. -/
structure InOrder (cap : Nat) (past : List (Trans (Channel α) (Act α))) (c : Channel α) :
    Prop where
  first : received past <+: sent cap past
  order : c.rx = true → sent cap past = received past ++ c.queue
  bounded : c.queue.length ≤ cap

theorem InOrder.push {y : Trans (Channel α) (Act α)} (h : InOrder cap past c)
    (hroom : c.hasRoom cap = true) (hin : wentIn cap y = some x) (hout : cameOut y = none) :
    InOrder cap (past ++ [y]) (c.push x) := by
  obtain ⟨hrx, hlen⟩ := hasRoom_iff.mp hroom
  refine ⟨?_, fun _ => ?_, ?_⟩
  · rw [received_snoc, hout, sent_snoc]
    simpa using h.first.trans (List.prefix_append ..)
  · rw [received_snoc, hout, sent_snoc, hin, h.order hrx]
    simp [Channel.push]
  · rw [Channel.push, List.length_append]
    exact hlen

/-- An operation that moves no message, after which the receiver is there only where it was
and then the queue is what it was. -/
theorem InOrder.frame {y : Trans (Channel α) (Act α)} (h : InOrder cap past c)
    (hin : wentIn cap y = none) (hout : cameOut y = none)
    (hrx : d.rx = true → c.rx = true ∧ d.queue = c.queue) (hlen : d.queue.length ≤ cap) :
    InOrder cap (past ++ [y]) d := by
  refine ⟨?_, fun hd => ?_, hlen⟩
  · rw [received_snoc, hout, sent_snoc, hin]
    simpa using h.first
  · rw [received_snoc, hout, sent_snoc, hin, (hrx hd).2, Option.toList_none, List.append_nil,
      List.append_nil]
    exact h.order (hrx hd).1

theorem InOrder.step (h : InOrder cap past c) (hm : Moved cap c a d) :
    InOrder cap (past ++ [⟨c, a, d⟩]) d := by
  cases hm with
  | send hroom | trySend hroom => exact h.push hroom (if_pos hroom) rfl
  | refused hroom | shed hroom =>
    exact h.frame (if_neg (by simp [hroom])) rfl (fun hrx => ⟨hrx, rfl⟩) h.bounded
  | @recv x queue hrx hq =>
    have hout : cameOut ⟨c, .recv, { c with queue := queue }⟩ = some x := by simp [cameOut, hq]
    have horder := h.order hrx
    rw [hq] at horder
    refine ⟨?_, fun _ => ?_, ?_⟩
    · rw [received_snoc, hout, sent_snoc, horder]
      exact ⟨queue, by simp [wentIn]⟩
    · rw [received_snoc, hout, sent_snoc, horder]
      simp [wentIn]
    · have := h.bounded
      rw [hq] at this
      exact Nat.le_of_succ_le this
  | ended hrx hq =>
    exact h.frame rfl (by simp [cameOut, hq]) (fun hrx => ⟨hrx, rfl⟩) h.bounded
  | hangUp => exact h.frame rfl rfl (fun hrx => ⟨hrx, rfl⟩) h.bounded
  | leave => exact h.frame rfl rfl (fun hrx => absurd hrx Bool.false_ne_true) (Nat.zero_le _)

/-- **The channel, over every run.** -/
theorem run_exact {tr : List (Trans (Channel α) (Act α))} {u : Channel α}
    (h : Run (stepRel (step cap)) .new tr u) : InOrder cap tr u :=
  h.inv_hist (I := InOrder cap) (fun hi hs => hi.step (step_moved hs))
    ⟨List.prefix_refl _, fun _ => rfl, Nat.zero_le _⟩

/-- The sender does not come back. -/
theorem Moved.tx (h : Moved cap c a d) (hc : c.tx = false) : d.tx = false := by
  cases h with
  | hangUp => rfl
  | _ => exact hc

/-- Only what goes in fills an empty queue. -/
theorem Moved.queue (h : Moved cap c a d) (hc : c.queue = [])
    (hin : wentIn cap ⟨c, a, d⟩ = none) : d.queue = [] := by
  cases h with
  | send hroom | trySend hroom => simp [wentIn, hroom] at hin
  | recv _ hq => rw [hc] at hq; cases hq
  | leave => rfl
  | _ => exact hc

end Channel

end NdnMobile.Lib
