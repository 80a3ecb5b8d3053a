/-!
# A notification cell

The part of an asynchronous `Notify` that one waiting task and any number of notifiers
use: `notifyOne` wakes the task if it is enlisted and stores a permit otherwise (never more
than one), and the task's first poll takes the permit or enlists. `Covered` is the
condition under which a task that decided to wait may go on waiting: its reason still
holds, or a notification is on its way. Every operation keeps it, so an enlisted task
without one (`Stuck`) has its reason (`Covered.of_stuck`).
-/

namespace NdnMobile.Lib

inductive Waiter where
  | none
  | enlisted
  | woken
  deriving DecidableEq, Repr

structure Notify where
  permit : Bool
  waiter : Waiter
  deriving DecidableEq, Repr

namespace Notify

def new : Notify := ⟨false, .none⟩

def notifyOne (n : Notify) : Notify :=
  if n.waiter = .enlisted then { n with waiter := .woken } else { n with permit := true }

/-- The first poll of `notified()`: whether it is ready at once. -/
def poll (n : Notify) : Bool × Notify :=
  if n.permit then (true, { n with permit := false }) else (false, { n with waiter := .enlisted })

/-- The task that was woken goes on. -/
def resume (n : Notify) : Notify := { n with waiter := .none }

/-- The task stops waiting: a notification it was given is handed on. -/
def leave (n : Notify) : Notify := ⟨n.permit || n.waiter == .woken, .none⟩

/-- A notification is on its way to the task. -/
def Pending (n : Notify) : Prop := n.permit = true ∨ n.waiter = .woken

/-- The task is enlisted and no notification is on its way: `notifying` says that some
notifier is about to send one. -/
def Stuck (n : Notify) (notifying : Prop) : Prop :=
  n.waiter = .enlisted ∧ n.permit = false ∧ ¬ notifying

/-- The task may wait: its reason holds, or a notification is on its way. -/
def Covered (n : Notify) (notifying reason : Prop) : Prop := reason ∨ n.Pending ∨ notifying

theorem pending_notifyOne (n : Notify) : n.notifyOne.Pending := by
  unfold notifyOne
  split
  · exact .inr rfl
  · exact .inl rfl

theorem notifyOne_waiter {n : Notify} (h : n.waiter = .none) : n.notifyOne.waiter = .none := by
  unfold notifyOne
  rw [if_neg (by simp [h])]
  exact h

theorem poll_waiter {n : Notify} (h : n.poll.1 = true) : n.poll.2.waiter = n.waiter := by
  unfold poll at h ⊢
  split at h
  · rw [if_pos ‹_›]
  · cases h

theorem Covered.of_stuck {n : Notify} {notifying reason : Prop} (h : n.Covered notifying reason)
    (hs : n.Stuck notifying) : reason := by
  obtain ⟨hw, hp, hn⟩ := hs
  rcases h with h | (h | h) | h
  · exact h
  · rw [hp] at h; cases h
  · rw [hw] at h; cases h
  · exact absurd h hn

theorem covered_notifyOne (n : Notify) {notifying reason : Prop} :
    n.notifyOne.Covered notifying reason := .inr (.inl n.pending_notifyOne)

/-- A poll that has to wait took no notification. -/
theorem Covered.poll {n : Notify} {notifying reason : Prop} (h : n.Covered notifying reason)
    (hw : n.waiter ≠ .woken) (hp : n.poll.1 = false) : n.poll.2.Covered notifying reason := by
  unfold Notify.poll at hp ⊢
  split at hp
  · cases hp
  · rename_i hperm
    rcases h with h | (h | h) | h
    · exact .inl h
    · exact absurd h hperm
    · exact absurd h hw
    · exact .inr (.inr h)

end Notify

end NdnMobile.Lib
