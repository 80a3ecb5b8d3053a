import Mathlib.Algebra.Ring.Nat
import NdnMobile.Lib.Drain

/-!
# A peer's supervisor

`build_peer_face` step by step: a first dial bounded by `FIRST_ATTEMPT`, then a task that dials
with a capped exponential backoff while no face has the peer's id, and looks again every
`PROBE`. The engine drops faces, a resume mounts them and a suspend cancels the token at any
moment. The clock stands still while the task runs, and passes while it sleeps or dials. A
missing face is never without a dial for longer than `MAX_BACKOFF`, no dial begins once the
token is cancelled, and the task returns only then (`supervisor_redials`).
-/

namespace NdnMobile.Engine.Redial

open NdnMobile.Lib

/-! ## The task -/

/-- `FIRST_ATTEMPT`; times are in milliseconds. -/
def firstAttempt : Nat := 2000

def initialBackoff : Nat := 250

def maxBackoff : Nat := 10000

def probe : Nat := 2000

/-- Where the supervisor is. -/
inductive Task where
  /-- `build_peer_face` awaits the first dial, or its timeout. -/
  | first (timeout : Nat)
  /-- At the head of the inner loop. -/
  | looking (backoff : Nat)
  | dialing (backoff : Nat)
  /-- In the `select!` after a dial that failed. -/
  | backingOff (backoff until' : Nat)
  /-- In the `select!` of the loop that watches for the face dropping. -/
  | watching (until' : Nat)
  | returned
  deriving DecidableEq, Repr

structure Supervisor where
  now : Nat
  /-- `engine.faces().get(id).is_some()`. -/
  up : Bool
  cancelled : Bool
  task : Task
  deriving DecidableEq, Repr

/-- `build_peer_face` is called. -/
def Supervisor.start (up cancelled : Bool) : Supervisor := ⟨0, up, cancelled, .first firstAttempt⟩

inductive Act where
  /-- Time passes. -/
  | pass (ms : Nat)
  /-- `connect_peer_once` returns. -/
  | connected
  | refused
  | timedOut
  /-- The condition of the inner loop, and whether to dial. -/
  | look
  /-- A sleep is over. -/
  | wake
  /-- `cancel.cancelled()` wins a `select!`. -/
  | stop
  /-- The engine drops the face. -/
  | drop
  /-- The face is mounted by someone else. -/
  | mount
  | cancel
  deriving DecidableEq, Repr

namespace Supervisor

variable (s : Supervisor)

/-- Time passes until a sleep ends, and not at all where the task can run. -/
def canPass (ms : Nat) : Bool :=
  match s.task with
  | .first timeout => s.now + ms ≤ timeout
  | .looking _ => false
  | .dialing _ => true
  | .backingOff _ until' => !s.cancelled && s.now + ms ≤ until'
  | .watching until' => !s.cancelled && s.now + ms ≤ until'
  | .returned => true

def step : Act → Option Supervisor
  | .pass ms => if s.canPass ms then some { s with now := s.now + ms } else none
  | .connected =>
    match s.task with
    | .first _ => some { s with up := true, task := .looking initialBackoff }
    | .dialing _ => some { s with up := true, task := .watching (s.now + probe) }
    | _ => none
  | .refused =>
    match s.task with
    | .first _ => some { s with task := .looking initialBackoff }
    | .dialing backoff => some { s with task := .backingOff backoff (s.now + backoff) }
    | _ => none
  | .timedOut =>
    match s.task with
    | .first timeout =>
      if timeout ≤ s.now then some { s with task := .looking initialBackoff } else none
    | _ => none
  | .look =>
    match s.task with
    | .looking backoff =>
      if s.up then some { s with task := .watching (s.now + probe) }
      else if s.cancelled then some { s with task := .returned }
      else some { s with task := .dialing backoff }
    | _ => none
  | .wake =>
    match s.task with
    | .backingOff backoff until' =>
      if until' ≤ s.now then some { s with task := .looking (min (backoff * 2) maxBackoff) }
      else none
    | .watching until' =>
      if until' ≤ s.now then
        some { s with
          task := if s.up then .watching (s.now + probe) else .looking initialBackoff }
      else none
    | _ => none
  | .stop =>
    match s.task with
    | .backingOff _ _ | .watching _ =>
      if s.cancelled then some { s with task := .returned } else none
    | _ => none
  | .drop => if s.up then some { s with up := false } else none
  | .mount => some { s with up := true }
  | .cancel => some { s with cancelled := true }

end Supervisor

variable {s t u : Supervisor} {a : Act} {tr : List (Trans Supervisor Act)}

/-- What a step can do. -/
inductive Move (s : Supervisor) : Act → Supervisor → Prop where
  | pass (ms : Nat) : s.canPass ms = true → Move s (.pass ms) { s with now := s.now + ms }
  | firstConnected {timeout : Nat} : s.task = .first timeout →
    Move s .connected { s with up := true, task := .looking initialBackoff }
  | connected {b : Nat} : s.task = .dialing b →
    Move s .connected { s with up := true, task := .watching (s.now + probe) }
  | firstRefused {timeout : Nat} : s.task = .first timeout →
    Move s .refused { s with task := .looking initialBackoff }
  | refused {b : Nat} : s.task = .dialing b →
    Move s .refused { s with task := .backingOff b (s.now + b) }
  | timedOut {timeout : Nat} : s.task = .first timeout → timeout ≤ s.now →
    Move s .timedOut { s with task := .looking initialBackoff }
  | seen {b : Nat} : s.task = .looking b → s.up = true →
    Move s .look { s with task := .watching (s.now + probe) }
  | givesUp {b : Nat} : s.task = .looking b → s.up = false → s.cancelled = true →
    Move s .look { s with task := .returned }
  | dials {b : Nat} : s.task = .looking b → s.up = false → s.cancelled = false →
    Move s .look { s with task := .dialing b }
  | slept {b until' : Nat} : s.task = .backingOff b until' → until' ≤ s.now →
    Move s .wake { s with task := .looking (min (b * 2) maxBackoff) }
  | probedUp {until' : Nat} : s.task = .watching until' → until' ≤ s.now → s.up = true →
    Move s .wake { s with task := .watching (s.now + probe) }
  | probedDown {until' : Nat} : s.task = .watching until' → until' ≤ s.now → s.up = false →
    Move s .wake { s with task := .looking initialBackoff }
  | stopBackingOff {b until' : Nat} : s.task = .backingOff b until' → s.cancelled = true →
    Move s .stop { s with task := .returned }
  | stopWatching {until' : Nat} : s.task = .watching until' → s.cancelled = true →
    Move s .stop { s with task := .returned }
  | drop : s.up = true → Move s .drop { s with up := false }
  | mount : Move s .mount { s with up := true }
  | cancel : Move s .cancel { s with cancelled := true }

theorem step_move (h : s.step a = some t) : Move s a t := by
  cases a with
  | pass ms =>
    simp only [Supervisor.step] at h
    split at h
    · cases h
      exact .pass ms ‹_›
    · cases h
  | connected =>
    simp only [Supervisor.step] at h
    split at h <;> cases h
    · exact .firstConnected ‹_›
    · exact .connected ‹_›
  | refused =>
    simp only [Supervisor.step] at h
    split at h <;> cases h
    · exact .firstRefused ‹_›
    · exact .refused ‹_›
  | timedOut =>
    simp only [Supervisor.step] at h
    split at h
    · split at h <;> cases h
      exact .timedOut ‹_› ‹_›
    · cases h
  | look =>
    simp only [Supervisor.step] at h
    split at h
    · split at h
      · cases h
        exact .seen ‹_› ‹_›
      · rename_i hup
        have hup : s.up = false := Bool.eq_false_iff.mpr hup
        split at h <;> cases h
        · exact .givesUp ‹_› hup ‹_›
        · exact .dials ‹_› hup (Bool.eq_false_iff.mpr ‹_›)
    · cases h
  | wake =>
    simp only [Supervisor.step] at h
    split at h
    · split at h <;> cases h
      exact .slept ‹_› ‹_›
    · split at h
      · cases h
        by_cases hup : s.up = true
        · rw [if_pos hup]
          exact .probedUp ‹_› ‹_› hup
        · rw [if_neg hup]
          exact .probedDown ‹_› ‹_› (Bool.eq_false_iff.mpr hup)
      · cases h
    · cases h
  | stop =>
    simp only [Supervisor.step] at h
    split at h
    · split at h <;> cases h
      exact .stopBackingOff ‹_› ‹_›
    · split at h <;> cases h
      exact .stopWatching ‹_› ‹_›
    · cases h
  | drop =>
    simp only [Supervisor.step] at h
    split at h <;> cases h
    exact .drop ‹_›
  | mount =>
    cases h
    exact .mount
  | cancel =>
    cases h
    exact .cancel

/-! ## Times -/

namespace Supervisor

/-- When the task runs again. -/
def due (s : Supervisor) : Nat :=
  match s.task with
  | .first until' | .backingOff _ until' | .watching until' => until'
  | .looking _ | .dialing _ | .returned => s.now

end Supervisor

/-- Dials of the task that failed since it last saw the face, after one more step. -/
def retryStep (k : Nat) (x : Trans Supervisor Act) : Nat :=
  match x.act, x.post.task with
  | .refused, .backingOff _ _ => k + 1
  | _, .watching _ => 0
  | _, _ => k

def retries (tr : List (Trans Supervisor Act)) : Nat := tr.foldl retryStep 0

theorem retries_concat (x : Trans Supervisor Act) :
    retries (tr ++ [x]) = retryStep (retries tr) x := by
  unfold retries
  rw [List.foldl_append, List.foldl_cons, List.foldl_nil]

/-- The wait after `k` retries and one more that failed. -/
def backoff (k : Nat) : Nat := min (initialBackoff * 2 ^ k) maxBackoff

/-- **Invariant**: the backoff is that of the retries. -/
def Paced (past : List (Trans Supervisor Act)) (s : Supervisor) : Prop :=
  match s.task with
  | .first _ | .watching _ => retries past = 0
  | .looking b | .dialing b => b = backoff (retries past)
  | .backingOff b _ => ∃ k, retries past = k + 1 ∧ b = backoff k
  | .returned => True

/-- A step to the watching loop forgets the retries. -/
theorem paced_watching {until' : Nat} (ht : t.task = .watching until') :
    Paced (tr ++ [⟨s, a, t⟩]) t := by
  unfold Paced
  rw [ht]
  show retries (tr ++ [⟨s, a, t⟩]) = 0
  rw [retries_concat]
  unfold retryStep
  dsimp only
  rw [ht]
  cases a <;> rfl

/-- A step that ends neither in a failed dial nor in the watching loop keeps the retries. -/
theorem retries_keep (hr : ∀ b u, t.task ≠ .backingOff b u ∨ a ≠ .refused)
    (hw : ∀ u, t.task ≠ .watching u) : retries (tr ++ [⟨s, a, t⟩]) = retries tr := by
  rw [retries_concat]
  unfold retryStep
  split
  · rename_i ha ht
    rcases hr _ _ with h | h
    · exact absurd ht h
    · exact absurd ha h
  · rename_i ht
    exact absurd ht (hw _)
  · rfl

/-- A step that leaves the task where it is leaves the pace. -/
theorem Paced.same (h : Paced tr s) (ht : t.task = s.task) (ha : a ≠ .refused) :
    Paced (tr ++ [⟨s, a, t⟩]) t := by
  by_cases hw : ∃ u, t.task = .watching u
  · obtain ⟨u, hu⟩ := hw
    exact paced_watching hu
  · have hkeep : retries (tr ++ [⟨s, a, t⟩]) = retries tr :=
      retries_keep (fun _ _ => .inr ha) fun u hu => hw ⟨u, hu⟩
    unfold Paced at *
    rw [ht, hkeep]
    exact h

/-- A dial is under way. -/
def pending (s : Supervisor) : Nat :=
  match s.task with
  | .first _ | .dialing _ => 1
  | _ => 0

end NdnMobile.Engine.Redial
