/-!
# A counting semaphore

The part of an asynchronous `Semaphore` that streamers use: `addPermits` adds permits, up
to a limit, and `acquire` takes one for good (the permit is forgotten), or has to wait.
-/

namespace NdnMobile.Lib

structure Semaphore where
  permits : Nat
  deriving DecidableEq, Repr

namespace Semaphore

def new (permits : Nat) : Semaphore := ⟨permits⟩

/-- No result where the permits would exceed the limit: the caller panics. -/
def addPermits (limit : Nat) (s : Semaphore) (n : Nat) : Option Semaphore :=
  if s.permits + n ≤ limit then some ⟨s.permits + n⟩ else none

/-- No result while there is no permit. -/
def acquire (s : Semaphore) : Option Semaphore :=
  if 0 < s.permits then some ⟨s.permits - 1⟩ else none

theorem addPermits_some {limit n : Nat} {s t : Semaphore} (h : s.addPermits limit n = some t) :
    t.permits = s.permits + n := by
  unfold addPermits at h
  split at h <;> cases h
  rfl

theorem acquire_some {s t : Semaphore} (h : s.acquire = some t) :
    s.permits = t.permits + 1 := by
  unfold acquire at h
  split at h <;> cases h
  simp only
  omega

end Semaphore

end NdnMobile.Lib
