import NdnMobile.Engine.AppFaces
import NdnMobile.Ffi.NotePeer
import NdnMobile.Lib.LockOrder
import NdnMobile.Offer.Board

/-!
# The shared consumer

The blocking fetches of the engine share one app connection: `with_consumer` keeps it in a mutex
that it holds across the fetch, and the first fetch makes it of the primary handle, under two
more mutexes (`take_consumer_handle`). Here any number of threads fetch, beside the calls that
lock the engine and its shutdown, while the UI polls the progress counters: the fetches run one
at a time and whole, all over the primary handle, and the counters never show more segments
received than there are (`fetches_in_turn`).
-/

namespace NdnMobile.Ffi.SharedConsumer

open NdnMobile.Lib NdnMobile.Packet NdnMobile.Engine
open NdnMobile.Offer (ThreadId)

inductive FetchLock where
  | consumerConn
  | defaultHandle
  | inner
  deriving DecidableEq, Repr

/-- What the application library does in the course of a fetch. -/
inductive FetchEvent where
  | interest (name : Name)
  | progress (received total : UInt64)
  deriving DecidableEq, Repr

def FetchEvent.report : FetchEvent → Option (UInt64 × UInt64)
  | .interest _ => none
  | .progress r t => some (r, t)

/-- A fetch that reports its progress: never more segments than there are, and never fewer there
than before. -/
structure ObjectFetch where
  events : List FetchEvent
  counted : ∀ x ∈ events.filterMap FetchEvent.report, x.1 ≤ x.2
  grows : (events.filterMap FetchEvent.report).Pairwise fun x y => x.2 ≤ y.2
  deriving DecidableEq

/-- What is handed to `with_consumer`. -/
inductive Fetch where
  | plain (interests : List Name)
  | toFd (o : ObjectFetch)
  deriving DecidableEq

/-- One thing done while the connection is held. -/
inductive Beat where
  | interest (name : Name)
  | received (r : UInt64)
  | total (t : UInt64)
  deriving DecidableEq, Repr

/-- The closure stores the total first. -/
def FetchEvent.beats : FetchEvent → List Beat
  | .interest name => [.interest name]
  | .progress r t => [.total t, .received r]

def Fetch.script : Fetch → List Beat
  | .plain interests => interests.map .interest
  | .toFd o => .received 0 :: .total 0 :: o.events.flatMap FetchEvent.beats

/-- The fields of `NdnEngine` that a fetch uses; a handle is the id of its app face. -/
structure Fetching where
  inner : Option MobileEngine
  defaultHandle : Option FaceId
  consumerConn : Option FaceId
  fetchReceived : UInt64
  fetchTotal : UInt64

namespace Fetching

def new (m : MobileEngine) (primary : FaceId) : Fetching := ⟨some m, some primary, none, 0, 0⟩

def store (e : Fetching) : Beat → Fetching
  | .interest _ => e
  | .received r => { e with fetchReceived := r }
  | .total t => { e with fetchTotal := t }

end Fetching

inductive FetchSection where
  /-- `with_consumer`. -/
  | connect (f : Fetch)
  /-- `take_consumer_handle`: the primary handle, or else a fresh one. -/
  | takeHandle (f : Fetch)
  | allocHandle (f : Fetch)
  | install (id : FaceId) (f : Fetch)
  | beat (id : FaceId) (b : Beat) (rest : List Beat)
  /-- The other calls that lock the engine. -/
  | call (g : MobileEngine → MobileEngine)
  | shutdown

abbrev FetchPoint := Point FetchSection FetchLock

namespace FetchSection

def lock : FetchSection → Option FetchLock
  | connect _ => some .consumerConn
  | takeHandle _ => some .defaultHandle
  | allocHandle _ | call _ | shutdown => some .inner
  | install .. | beat .. => none

/-- The fetch over the connection, up to where `with_consumer` gives it back. -/
def runOver (id : FaceId) : List Beat → FetchPoint
  | [] => .leave [.consumerConn]
  | b :: rest => .wait (beat id b rest)

def run (e : Fetching) : FetchSection → Fetching × FetchPoint
  | connect f =>
    match e.consumerConn with
    | none => (e, .wait (takeHandle f))
    | some id => (e, runOver id f.script)
  | takeHandle f =>
    match e.defaultHandle with
    | some id => ({ e with defaultHandle := none }, .out .defaultHandle (.wait (install id f)))
    | none => (e, .wait (allocHandle f))
  | allocHandle f =>
    match e.inner with
    | none => (e, .leave [.inner, .defaultHandle, .consumerConn]) -- engine is shut down
    | some m =>
      ({ e with inner := some m.newAppHandle.2 },
        .out .inner (.out .defaultHandle (.wait (install m.newAppHandle.1 f))))
  | install id f => ({ e with consumerConn := some id }, runOver id f.script)
  | beat id b rest => (e.store b, runOver id rest)
  | call g => ({ e with inner := e.inner.map g }, .leave [.inner])
  | shutdown => ({ e with inner := none }, .leave [.inner])

end FetchSection

/-- The calls, with what the application library does in each fetch. -/
inductive FetchVerb where
  | fetch (name : String) (interests : List Name)
  | get (name : String) (interests : List Name)
  | fetchObject (name : String) (interests : List Name)
  | fetchObjectVerified (name : String) (interests : List Name)
  | fetchObjectVerifiedHinted (name hint : String) (interests : List Name)
  | fetchObjectToFd (name hint : String) (o : ObjectFetch)
  | call (g : MobileEngine → MobileEngine)
  | shutdown

namespace FetchVerb

variable (P : Parsers)

/-- The fetch of a call whose names are read. -/
def asks : FetchVerb → Option Fetch
  | fetch name interests | get name interests | fetchObject name interests
  | fetchObjectVerified name interests => (P.name name).map fun _ => .plain interests
  | fetchObjectVerifiedHinted name hint interests =>
    (P.name name).bind fun _ => (P.name hint).map fun _ => .plain interests
  | fetchObjectToFd name hint o =>
    (P.name name).bind fun _ => (P.name hint).map fun _ => .toFd o
  | call _ | shutdown => none

def enter (c : FetchVerb) : FetchPoint :=
  match c with
  | call g => .wait (.call g)
  | shutdown => .wait .shutdown
  | c => (c.asks P).elim .idle fun f => .wait (.connect f)

end FetchVerb

def fetchCode (P : Parsers) : Code Fetching FetchSection FetchLock FetchVerb where
  lock := FetchSection.lock
  run s e := s.run e
  enter := FetchVerb.enter P

variable {P : Parsers} {e : Fetching} {s : FetchSection} {id h : FaceId} {f : Fetch}
  {bs rest : List Beat}

/-! ## The order of the mutexes -/

namespace FetchSection

def held : FetchSection → List FetchLock
  | takeHandle _ | install .. | beat .. => [.consumerConn]
  | allocHandle _ => [.defaultHandle, .consumerConn]
  | _ => []

def cost : FetchSection → Nat
  | connect f => 2 * f.script.length + 10
  | takeHandle f => 2 * f.script.length + 8
  | allocHandle f => 2 * f.script.length + 6
  | install _ f => 2 * f.script.length + 2
  | beat _ _ rest => 2 * rest.length + 2
  | call _ | shutdown => 2

end FetchSection

def FetchLock.rank : FetchLock → Nat
  | .consumerConn => 0
  | .defaultHandle => 1
  | .inner => 2

theorem over_holds (id : FaceId) (bs : List Beat) :
    (fetchCode P).holds FetchSection.held (FetchSection.runOver id bs) = [.consumerConn] := by
  cases bs <;> rfl

theorem over_left (id : FaceId) (bs : List Beat) :
    (FetchSection.runOver id bs).left FetchSection.cost = 2 * bs.length + 1 := by
  cases bs with
  | nil => rfl
  | cons b rest =>
    rw [FetchSection.runOver, Point.left, FetchSection.cost, List.length_cons]
    omega

def fetchDiscipline (P : Parsers) : Discipline (fetchCode P) where
  rank := FetchLock.rank
  height := 3
  rank_lt l := by cases l <;> decide
  held := FetchSection.held
  cost := FetchSection.cost
  ordered s := by
    cases s <;> simp [fetchCode, FetchSection.lock, FetchSection.held, FetchLock.rank]
  enter_holds c := by
    cases c with
    | call | shutdown => rfl
    | _ =>
      simp only [fetchCode, FetchVerb.enter]
      cases FetchVerb.asks P _ <;> rfl
  run_holds s e := by
    cases s with
    | connect f =>
      simp only [fetchCode, FetchSection.run]
      split
      · rfl
      · exact over_holds ..
    | takeHandle f =>
      simp only [fetchCode, FetchSection.run]
      split <;> rfl
    | allocHandle f =>
      simp only [fetchCode, FetchSection.run]
      split <;> rfl
    | install id f => exact over_holds ..
    | beat id b rest => exact over_holds ..
    | call | shutdown => rfl
  run_left s e := by
    cases s with
    | connect f =>
      simp only [fetchCode, FetchSection.run]
      split
      · simp only [Point.left, FetchSection.cost]
        omega
      · rw [over_left, FetchSection.cost]
        omega
    | takeHandle f =>
      simp only [fetchCode, FetchSection.run]
      split <;> simp only [Point.left, FetchSection.cost] <;> omega
    | allocHandle f =>
      simp only [fetchCode, FetchSection.run]
      split <;> simp only [Point.leave, Point.left, FetchSection.cost, List.foldr] <;> omega
    | install id f =>
      simp only [fetchCode, FetchSection.run]
      rw [over_left, FetchSection.cost]
      omega
    | beat id b rest =>
      simp only [fetchCode, FetchSection.run]
      rw [over_left, FetchSection.cost]
      omega
    | call | shutdown => exact Nat.lt_succ_self 1

/-! ## What a fetch finds -/

/-- Along these beats the counters never show more segments received than there are. -/
def Counts : List Beat → UInt64 → UInt64 → Prop
  | [], r, t => r ≤ t
  | .interest _ :: rest, r, t => r ≤ t ∧ Counts rest r t
  | .received r' :: rest, r, t => r ≤ t ∧ Counts rest r' t
  | .total t' :: rest, r, t => r ≤ t ∧ Counts rest r t'

theorem Counts.le {r t : UInt64} (hc : Counts bs r t) : r ≤ t := by
  cases bs with
  | nil => exact hc
  | cons b rest => cases b <;> exact hc.1

theorem Counts.store {b : Beat} (hc : Counts (b :: rest) e.fetchReceived e.fetchTotal) :
    Counts rest (e.store b).fetchReceived (e.store b).fetchTotal := by
  cases b <;> exact hc.2

theorem counts_interests {r t : UInt64} (hle : r ≤ t) (names : List Name) :
    Counts (names.map .interest) r t := by
  induction names with
  | nil => exact hle
  | cons name names ih => exact ⟨hle, ih⟩

theorem counts_events {r t : UInt64} (hle : r ≤ t) {es : List FetchEvent}
    (hcounted : ∀ x ∈ es.filterMap FetchEvent.report, x.1 ≤ x.2)
    (hgrows : (es.filterMap FetchEvent.report).Pairwise fun x y => x.2 ≤ y.2)
    (ht : ∀ x ∈ es.filterMap FetchEvent.report, t ≤ x.2) :
    Counts (es.flatMap FetchEvent.beats) r t := by
  induction es generalizing r t with
  | nil => exact hle
  | cons ev es ih =>
    cases ev with
    | interest name => exact ⟨hle, ih hle hcounted hgrows ht⟩
    | progress r' t' =>
      have hreports : (FetchEvent.progress r' t' :: es).filterMap FetchEvent.report =
          (r', t') :: es.filterMap FetchEvent.report := rfl
      rw [hreports] at hcounted hgrows ht
      rw [List.pairwise_cons] at hgrows
      have htotal : t ≤ t' := ht (r', t') List.mem_cons_self
      have hreport : r' ≤ t' := hcounted (r', t') List.mem_cons_self
      exact ⟨hle, UInt64.le_trans hle htotal, ih hreport
        (fun x hx => hcounted x (List.mem_cons_of_mem _ hx)) hgrows.2 hgrows.1⟩

/-- A fetch begins wherever the one before it left the counters. -/
theorem counts_script {r t : UInt64} (hle : r ≤ t) (f : Fetch) : Counts f.script r t := by
  cases f with
  | plain names => exact counts_interests hle names
  | toFd o =>
    exact ⟨hle, UInt64.zero_le, counts_events (UInt64.le_refl 0) o.counted o.grows
      fun _ _ => UInt64.zero_le⟩

/-- The connection is over the primary handle, or that is still to be taken. -/
def Fetching.Primary (h : FaceId) (e : Fetching) : Prop :=
  e.consumerConn = some h ∨ e.consumerConn = none ∧ e.defaultHandle = some h

/-- What `with_consumer`'s mutex guards. -/
def Guarded (h : FaceId) : FetchLock → Fetching → Prop
  | .consumerConn, e => e.Primary h ∧ e.fetchReceived ≤ e.fetchTotal
  | _, _ => True

/-- What a section finds. No fetch comes to a fresh handle. -/
def FetchSection.Finds (h : FaceId) : FetchSection → Fetching → Prop
  | takeHandle _, e =>
    e.consumerConn = none ∧ e.defaultHandle = some h ∧ e.fetchReceived ≤ e.fetchTotal
  | allocHandle _, _ => False
  | install id _, e => id = h ∧ e.fetchReceived ≤ e.fetchTotal
  | beat id b rest, e =>
    id = h ∧ e.consumerConn = some h ∧ Counts (b :: rest) e.fetchReceived e.fetchTotal
  | _, _ => True

theorem knows_over (hconn : e.consumerConn = some h)
    (hc : Counts bs e.fetchReceived e.fetchTotal) :
    (fetchCode P).Knows (FetchSection.Finds h) (Guarded h) (FetchSection.runOver h bs) e := by
  cases bs with
  | nil => exact ⟨⟨.inl hconn, hc⟩, trivial⟩
  | cons b rest => exact ⟨rfl, hconn, hc⟩

/-- Only who has the connection changes it, the primary handle or the counters. -/
theorem run_frame (hs : FetchLock.consumerConn ∉
    (fetchDiscipline P).holds (.inside s : FetchPoint)) :
    (s.run e).1.consumerConn = e.consumerConn ∧ (s.run e).1.defaultHandle = e.defaultHandle ∧
      (s.run e).1.fetchReceived = e.fetchReceived ∧ (s.run e).1.fetchTotal = e.fetchTotal := by
  cases s with
  | call g | shutdown => exact ⟨rfl, rfl, rfl, rfl⟩
  | _ => simp [Code.holds, fetchDiscipline, fetchCode, FetchSection.lock, FetchSection.held] at hs

theorem outline (P : Parsers) (h : FaceId) :
    (fetchDiscipline P).Outline (FetchSection.Finds h) (Guarded h) where
  enter c e := by
    cases c with
    | call | shutdown => trivial
    | _ =>
      simp only [fetchCode, FetchVerb.enter]
      cases FetchVerb.asks P _ <;> trivial
  run s e hs := by
    cases s with
    | connect f =>
      obtain ⟨hprimary, hle⟩ := hs.2 .consumerConn rfl
      simp only [fetchCode, FetchSection.run]
      rcases hprimary with hconn | ⟨hconn, hhandle⟩
      · rw [hconn]
        exact knows_over hconn (counts_script hle f)
      · rw [hconn]
        exact ⟨hconn, hhandle, hle⟩
    | takeHandle f =>
      obtain ⟨hconn, hhandle, hle⟩ := hs.1
      simp only [fetchCode, FetchSection.run, hhandle]
      exact ⟨trivial, rfl, hle⟩
    | allocHandle f => exact absurd hs.1 id
    | install id f =>
      obtain ⟨rfl, hle⟩ := hs.1
      exact knows_over (e := { e with consumerConn := some id }) rfl (counts_script hle f)
    | beat id b rest =>
      obtain ⟨rfl, hconn, hc⟩ := hs.1
      apply knows_over _ hc.store
      cases b <;> exact hconn
    | call | shutdown => exact ⟨trivial, trivial⟩
  stable s e s' hs' hdisjoint := by
    have hframe (hheld : FetchLock.consumerConn ∈ s'.held) :=
      run_frame (P := P) (e := e) fun hmem => hdisjoint .consumerConn hmem hheld
    cases s' with
    | takeHandle f | install id f | beat id b rest =>
      obtain ⟨hconn, hhandle, hreceived, htotal⟩ := hframe (List.mem_singleton.mpr rfl)
      simp only [FetchSection.Finds] at hs' ⊢
      simp only [fetchCode, hconn, hhandle, hreceived, htotal]
      exact hs'
    | _ => exact hs'
  guarded s e l hl hmem := by
    cases l with
    | consumerConn =>
      obtain ⟨hconn, hhandle, hreceived, htotal⟩ := run_frame (e := e) hmem
      simp only [Guarded, Fetching.Primary] at hl ⊢
      simp only [fetchCode, hconn, hhandle, hreceived, htotal]
      exact hl
    | _ => trivial

theorem knows_counted {q : FetchPoint}
    (hq : (fetchCode P).Knows (FetchSection.Finds h) (Guarded h) q e)
    (hmem : FetchLock.consumerConn ∈ (fetchDiscipline P).holds q) :
    e.fetchReceived ≤ e.fetchTotal := by
  have hfinds {s : FetchSection} (hs : s.Finds h e) (hheld : FetchLock.consumerConn ∈ s.held) :
      e.fetchReceived ≤ e.fetchTotal := by
    cases s with
    | takeHandle f => exact hs.2.2
    | allocHandle f => exact absurd hs id
    | install id f => exact hs.2
    | beat id b rest => exact hs.2.2.le
    | _ => exact absurd hheld List.not_mem_nil
  induction q with
  | idle => exact absurd hmem List.not_mem_nil
  | wait s => exact hfinds hq hmem
  | inside s =>
    rcases List.mem_append.mp hmem with hlock | hheld
    · exact (hq.2 _ (Option.mem_toList.mp hlock)).2
    · exact hfinds hq.1 hheld
  | out l q ih =>
    rcases List.mem_cons.mp hmem with rfl | hmem
    · exact hq.1.2
    · exact ih hq.2 hmem

/-! ## One fetch at a time -/

namespace FetchSection

/-- The fetch that a section connects. -/
def connected : FetchSection → Option Fetch
  | connect f => some f
  | _ => none

/-- What is done over a connection. -/
def done : FetchSection → List (FaceId × Beat)
  | beat id b _ => [(id, b)]
  | _ => []

/-- What is left to do while the connection is held, where the primary handle is `h`. -/
def due (h : FaceId) : FetchSection → List (FaceId × Beat)
  | takeHandle f | allocHandle f => f.script.map fun b => (h, b)
  | install id f => f.script.map fun b => (id, b)
  | beat id b rest => (b :: rest).map fun b => (id, b)
  | _ => []

end FetchSection

/-- A fetch from its first beat to its last, over a connection. -/
def Fetch.whole (id : FaceId) (f : Fetch) : List (FaceId × Beat) := f.script.map fun b => (id, b)

theorem rest_over :
    (FetchSection.runOver id bs).rest (FetchSection.due h) = bs.map fun b => (id, b) := by
  cases bs <;> rfl

theorem serial (P : Parsers) (h : FaceId) :
    (fetchDiscipline P).Serial (FetchSection.Finds h) (Guarded h) .consumerConn
      (fun s => s.connected.elim [] (Fetch.whole h)) (FetchSection.due h) FetchSection.done where
  due_held s hs := by
    cases s with
    | takeHandle | allocHandle | install | beat =>
      simp [fetchDiscipline, FetchSection.held] at hs
    | _ => rfl
  opens_lock s hs := by
    cases s with
    | connect f => exact absurd rfl hs
    | _ => rfl
  emits_held s hs := by
    cases s with
    | beat =>
      simp [Code.holds, fetchDiscipline, fetchCode, FetchSection.lock, FetchSection.held] at hs
    | _ => rfl
  run s e hs := by
    cases s with
    | connect f =>
      simp only [fetchCode, FetchSection.run]
      rcases (hs.2 .consumerConn rfl).1 with hconn | ⟨hconn, -⟩
      · rw [hconn]
        exact rest_over.trans (List.append_nil _).symm
      · rw [hconn]
        exact (List.append_nil _).symm
    | takeHandle f =>
      obtain ⟨-, hhandle, -⟩ := hs.1
      simp only [fetchCode, FetchSection.run, hhandle]
      rfl
    | allocHandle f => exact absurd hs.1 id
    | install id f => exact rest_over
    | beat id b rest => exact congrArg ((id, b) :: ·) rest_over
    | call | shutdown => rfl

/-! ## Each fetch once -/

/-- What a call asks for. -/
def asked (P : Parsers) : PoolAct FetchVerb ThreadId → Option Fetch
  | .call _ c => c.asks P
  | .step _ => none

theorem enter_carries (f : Fetch) (c : FetchVerb) :
    (c.enter P).carries (fun s => if s.connected = some f then 1 else 0) =
      if c.asks P = some f then 1 else 0 := by
  cases c with
  | call | shutdown => rfl
  | _ =>
    simp only [FetchVerb.enter]
    cases FetchVerb.asks P _ <;> rfl

theorem over_carries (f : Fetch) : (FetchSection.runOver id bs).carries
    (fun s => if s.connected = some f then 1 else 0) = 0 := by
  cases bs <;> rfl

/-- A fetch that was asked for is on its way to the connection, or was connected. -/
theorem ledger (P : Parsers) (h : FaceId) (f : Fetch) :
    Discipline.Ledger (fetchCode P) (FetchSection.Finds h) (Guarded h) (fun _ => 0)
      (fun s => if s.connected = some f then 1 else 0)
      (fun s => if s.connected = some f then 1 else 0)
      (fun c => if c.asks P = some f then 1 else 0) where
  enter := enter_carries f
  run s e _ := by
    suffices hnone : ((fetchCode P).run s e).2.carries
        (fun s => if s.connected = some f then 1 else 0) = 0 by rw [hnone]
    cases s with
    | connect g =>
      simp only [fetchCode, FetchSection.run]
      split
      · rfl
      · exact over_carries f
    | takeHandle g =>
      simp only [fetchCode, FetchSection.run]
      split <;> rfl
    | allocHandle g =>
      simp only [fetchCode, FetchSection.run]
      split <;> rfl
    | install id g => exact over_carries f
    | beat id b rest => exact over_carries f
    | call | shutdown => rfl

theorem sum_eq_count {α : Type} (g : α → Option Fetch) (f : Fetch) (xs : List α) :
    (xs.map fun x => if g x = some f then 1 else 0).sum = (xs.filterMap g).count f := by
  induction xs with
  | nil => rfl
  | cons x xs ih =>
    rw [List.map_cons, List.sum_cons, ih, List.filterMap_cons]
    cases hx : g x with
    | none => simp
    | some f' =>
      by_cases hf : f' = f
      · simp [hf, Nat.add_comm]
      · simp [hf]

/-! ## Runs -/

abbrev FetchPool := Pool Fetching FetchSection FetchLock ThreadId

abbrev FetchAct := PoolAct FetchVerb ThreadId

variable {tr : List (Trans FetchPool FetchAct)} {u : FetchPool}

/-- The fetches that a run connected, in order. -/
def fetched (tr : List (Trans FetchPool FetchAct)) : List Fetch :=
  (works tr).filterMap FetchSection.connected

/-- What a run did over connections. -/
def beats (tr : List (Trans FetchPool FetchAct)) : List (FaceId × Beat) :=
  (works tr).flatMap FetchSection.done

theorem guarded_new (m : MobileEngine) (h : FaceId) (l : FetchLock) :
    Guarded h l (.new m h) := by
  cases l with
  | consumerConn => exact ⟨.inr ⟨rfl, rfl⟩, UInt64.le_refl 0⟩
  | _ => trivial

/-- Where no fetch is under way, those that were asked for have been connected, each as often. -/
theorem fetched_perm (m : MobileEngine) (hrun : Run (stepRel (fetchCode P).step)
    (.new (.new m h)) tr u) (hidle : u.Idle) :
    (fetched tr).Perm (tr.filterMap fun x => asked P x.act) := by
  apply List.perm_iff_count.mpr
  intro f
  have haccounts := (ledger P h f).accounts (outline P h) (guarded_new m h) hrun
  have hnone : ∑ t ∈ threadsOf PoolAct.thread tr, (u.point t).carries
      (fun s => if s.connected = some f then 1 else 0) = 0 :=
    Finset.sum_eq_zero fun t _ => by rw [hidle t]; rfl
  have hbrought : (tr.map fun x => x.act.brought fun c => if c.asks P = some f then 1 else 0) =
      tr.map fun x => if asked P x.act = some f then 1 else 0 :=
    List.map_congr_left fun x _ => by
      cases x.act with
      | call t c => rfl
      | step t => rfl
  rw [hnone, hbrought, Nat.zero_add, Nat.zero_add, sum_eq_count, sum_eq_count] at haccounts
  exact haccounts

/-- **Fetches from any number of threads**: at any time what was done over the connection is the
fetches one after the other, each whole, but for what its holder has left, all over the primary
handle; the counters show no more segments received than there are; no fetch comes to a fresh
handle, so none finds the engine shut down; no thread waits for ever: the calls under way come
to their ends, each in the steps it has left; and with no call under way every fetch asked for
has been made once. -/
theorem fetches_in_turn (P : Parsers) (m : MobileEngine) (h : FaceId)
    (hrun : Run (stepRel (fetchCode P).step) (.new (.new m h)) tr u) :
    beats tr ++ u.rest .consumerConn (FetchSection.due h) = (fetched tr).flatMap (Fetch.whole h) ∧
    u.shared.fetchReceived ≤ u.shared.fetchTotal ∧
    (∀ f, ¬ u.Ahead (.allocHandle f)) ∧
    ((∀ {tr' v}, Run (fetchCode P).Own u tr' v →
        (∀ t, stepsOf (fun t => t) t tr' ≤ (u.point t).left FetchSection.cost) ∧
        tr'.length ≤ ∑ t ∈ threadsOf PoolAct.thread tr, (u.point t).left FetchSection.cost) ∧
      ∃ tr' v, Run (fetchCode P).Own u tr' v ∧ v.Idle ∧ ∀ l, v.owner l = none) ∧
    (u.Idle → beats tr = (fetched tr).flatMap (Fetch.whole h) ∧
      (fetched tr).Perm (tr.filterMap fun x => asked P x.act)) := by
  have hknown := (outline P h).run_known (guarded_new m h) hrun
  have horderly := (fetchDiscipline P).orderly_run hrun
  have hturn : beats tr ++ u.rest .consumerConn (FetchSection.due h) =
      (fetched tr).flatMap (Fetch.whole h) := by
    have hserial := (serial P h).in_turn (outline P h) (guarded_new m h) hrun
    rw [beats, hserial, fetched]
    induction works tr with
    | nil => rfl
    | cons s ss ih =>
      rw [List.flatMap_cons, ih, List.filterMap_cons]
      cases s.connected <;> rfl
  refine ⟨hturn, ?_, fun f hahead => ?_, (fetchDiscipline P).ends hrun, fun hidle => ⟨?_, ?_⟩⟩
  · cases howner : u.owner .consumerConn with
    | none => exact (hknown.free .consumerConn howner).2
    | some t => exact knows_counted (hknown.point t) ((horderly.owner _ t).mp howner)
  · obtain ⟨t, ht⟩ := hahead
    exact Discipline.knows_ahead (hknown.point t) ht
  · have hrest : u.rest .consumerConn (FetchSection.due h) = [] := by
      rw [Pool.rest, horderly.free hidle]
      rfl
    rwa [hrest, List.append_nil] at hturn
  · exact fetched_perm m hrun hidle

/-- Two segments. -/
def clipFetch : ObjectFetch where
  events := [.interest [], .progress 0 2, .interest [], .progress 2 2]
  counted := List.forall_mem_cons.mpr
    ⟨UInt64.zero_le, List.forall_mem_singleton.mpr (UInt64.le_refl 2)⟩
  grows := List.pairwise_pair.mpr (UInt64.le_refl 2)

/-- A fetch to a descriptor waits for another's connection, and runs over it after a shutdown. -/
def twoFetchers : List FetchAct :=
  let go (t n : Nat) : List FetchAct := List.replicate n (.step t)
  .call 0 (.get "/a" [[]]) :: go 0 5 ++ .call 1 (.fetchObjectToFd "/b" "/c" clipFetch) ::
    .call 2 .shutdown :: go 2 3 ++ go 0 5 ++ go 1 19

theorem fetches_in_turn_twoFetchers : ∃ tr u,
    Run (stepRel (fetchCode .std).step) (.new (.new phoneEngine 0)) tr u ∧
    u.shared.inner.isNone = true ∧ u.shared.fetchReceived = 2 ∧
    beats tr ++ u.rest .consumerConn (FetchSection.due 0) =
      (fetched tr).flatMap (Fetch.whole 0) := by
  obtain ⟨u, hu, hinner, hreceived⟩ : ∃ u,
    exec (fetchCode .std).step (.new (.new phoneEngine 0)) twoFetchers = some u ∧
    u.shared.inner.isNone = true ∧ u.shared.fetchReceived = 2 := ⟨_, rfl, rfl, rfl⟩
  obtain ⟨tr, hrun, -⟩ := exec_run hu
  exact ⟨tr, u, hrun, hinner, hreceived, (fetches_in_turn .std phoneEngine 0 hrun).1⟩

end NdnMobile.Ffi.SharedConsumer
