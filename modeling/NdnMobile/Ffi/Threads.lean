import NdnMobile.Ffi.Descriptors
import NdnMobile.Ffi.InfraTunnels
import NdnMobile.Ffi.PeerTable
import NdnMobile.Lib.LockOrder
import NdnMobile.Lib.Past

/-!
# Calls from many threads

The engine object is shared by the app's threads, and its calls lock one field after another:
`note_peer` gives the table back before it locks the engine, and `set_infra_addr` and
`set_infra_socket` change the address, the socket and the reservations without the engine's
lock, while a beacon may be between its test of the address and the face it raises. Here the
calls are the critical sections they are made of (`engineCode`), run by any number of threads.
-/

namespace NdnMobile.Ffi

open NdnMobile.Lib NdnMobile.Packet NdnMobile.Engine
open NdnMobile.Offer (ThreadId)

/-- The mutexes of `NdnEngine`; `peers` is the one within `DiscoveryState`. -/
inductive EngineLock where
  | inner
  | discovery
  | peers
  | localInfraAddr
  | infraPeers
  | infraSocketFd
  deriving DecidableEq, Repr

/-- What `maybe_attach_infra_tunnel` is called with. -/
structure Candidate where
  id : String
  prefix' : Name
  peerIp : String
  os : MobileEngine.Os

inductive EngineSection where
  /-- `start_discovery`: the producer region, and the table. -/
  | region (nodeId label : String)
  | table (nodeId label : String)
  /-- `note_peer`: the table there is, its entry, the route. -/
  | hear (b : Beacon) (now : Instant) (os : MobileEngine.Os)
  | note (b : Beacon) (now : Instant) (os : MobileEngine.Os)
  | route (b : Beacon) (os : MobileEngine.Os) (prefix' : Name)
  /-- `maybe_attach_infra_tunnel`. -/
  | address (c : Candidate)
  | reserve (c : Candidate)
  | adopt (c : Candidate)
  | attach (c : Candidate) (fd : Fd)
  | unreserve (c : Candidate)
  /-- `set_infra_addr`. -/
  | setAddr (ipv4 : String)
  | rearm
  /-- `set_infra_socket`. -/
  | setSocket (fd : Fd)
  | close (old : Fd)
  | clear
  /-- The other calls that lock the engine. -/
  | call (f : MobileEngine → MobileEngine)
  | shutdown
  /-- The dataset's snapshot of the table. -/
  | snapshot (now : Instant)
  /-- A face of the engine ends, on the runtime's threads. -/
  | ended (fd : Fd) (o : Owner)

abbrev EnginePoint := Point EngineSection EngineLock

inductive EngineCall where
  | startDiscovery (nodeId label : String)
  | notePeer (b : Beacon) (now : Instant) (os : MobileEngine.Os)
  | setInfraAddr (ipv4 : String)
  | setInfraSocket (fd : Fd)
  | call (f : MobileEngine → MobileEngine)
  | shutdown
  | snapshotJson (now : Instant)
  | ended (fd : Fd) (o : Owner)

namespace EngineSection

/-- The mutex of a section. What `maybe_attach_infra_tunnel` does to the engine it does in the
section of its caller. -/
def lock : EngineSection → Option EngineLock
  | region .. | route .. | call _ | shutdown => some .inner
  | table .. | hear .. => some .discovery
  | note .. | snapshot _ => some .peers
  | address _ | setAddr _ => some .localInfraAddr
  | reserve _ | unreserve _ | rearm | clear => some .infraPeers
  | adopt _ | setSocket _ => some .infraSocketFd
  | attach .. | close _ | ended .. => none

/-- Where `note_peer` goes on once it has given the table back. -/
def heard (P : Parsers) (b : Beacon) (os : MobileEngine.Os) : EnginePoint :=
  match P.name (peerNodePrefix b.id) with
  | some prefix' => .wait (route b os prefix')
  | none => .idle

variable (P : Parsers) (e : NdnEngine)

def run : EngineSection → NdnEngine × EnginePoint
  | region nodeId label => (e, .out .inner (.wait (table nodeId label)))
  | table nodeId label =>
    ({ e with discovery := some (.new nodeId label) }, .leave [.discovery])
  | hear b now os =>
    match e.discovery with
    | none => (e, .out .discovery (heard P b os))
    | some s =>
      if b.id = s.localId then (e, .out .discovery (heard P b os)) -- never list ourselves
      else (e, .wait (note b now os))
  | note b now os =>
    ({ e with discovery := e.discovery.map fun s : DiscoveryState => s.notePeer b now },
      .out .peers (.out .discovery (heard P b os)))
  | route b os prefix' =>
    match e.inner with
    | none => (e, .leave [.inner])
    | some engine =>
      ({ e with inner := some (engine.notePeerRoute prefix' b.face) },
        match b.infra with
        | none => .leave [.inner]
        | some peerIp => .wait (address ⟨b.id, prefix', peerIp, os⟩))
  | address c =>
    (e, .out .localInfraAddr <|
      match e.localInfraAddr with
      | none => .leave [.inner]
      | some localIp =>
        if sameSubnet24 localIp c.peerIp = false then .leave [.inner]
        else if P.socketAddr (c.peerIp ++ ":" ++ toString infraPort) = false then .leave [.inner]
        else .wait (reserve c))
  | reserve c =>
    if c.id ∈ e.infraPeers then (e, .out .infraPeers (.leave [.inner]))
    else
      ({ e with infraPeers := insert c.id e.infraPeers }, .out .infraPeers (.wait (adopt c)))
  | adopt c =>
    match e.infraSocketFd with
    | none => (e, .out .infraSocketFd (.wait (unreserve c)))
    | some fd =>
      ({ e with infraSocketFd := none }, .out .infraSocketFd (.wait (attach c fd)))
  | attach c fd =>
    match e.inner with
    | none => (e, .leave [.inner])
    | some engine =>
      let (r, engine) := engine.attachInfraTunnelFd c.prefix' c.os
      ({ e with inner := some engine, fds := e.fds.bulk fd r },
        match r with
        | .ok _ => .leave [.inner]
        | .error _ => .wait (unreserve c))
  | unreserve c =>
    ({ e with infraPeers := e.infraPeers.erase c.id }, .leave [.infraPeers, .inner])
  | setAddr ipv4 =>
    let next := if ipv4 = "" then none else some ipv4
    if e.localInfraAddr = next then (e, .leave [.localInfraAddr])
    else ({ e with localInfraAddr := next }, .wait rearm)
  | rearm => ({ e with infraPeers := ∅ }, .leave [.infraPeers, .localInfraAddr])
  | setSocket fd =>
    ({ e with infraSocketFd := some fd }, .out .infraSocketFd <|
      match e.infraSocketFd with
      | none => .wait clear
      | some old => .wait (close old))
  | close old => ({ e with fds := e.fds.close old }, .wait clear)
  | clear => ({ e with infraPeers := ∅ }, .leave [.infraPeers])
  | call f => ({ e with inner := e.inner.map f }, .leave [.inner])
  | shutdown => ({ e with inner := none }, .leave [.inner])
  | snapshot now =>
    ({ e with discovery := e.discovery.map fun s => s.retain now }, .leave [.peers])
  | ended fd o =>
    (if e.fds.owned.any (· = (fd, o)) then { e with fds := e.fds.release fd o } else e, .idle)

end EngineSection

namespace EngineCall

variable (P : Parsers)

def enter : EngineCall → EnginePoint
  | startDiscovery nodeId label =>
    .wait <|
      match P.name (peerNodePrefix nodeId) with
      | some _ => .region nodeId label
      | none => .table nodeId label
  | notePeer b now os => if b.id = "" then .idle else .wait (.hear b now os)
  | setInfraAddr ipv4 => .wait (.setAddr ipv4)
  | setInfraSocket fd => .wait (.setSocket fd)
  | call f => .wait (.call f)
  | shutdown => .wait .shutdown
  | snapshotJson now => .wait (.snapshot now)
  | ended fd o => .wait (.ended fd o)

/-- The call in one go. -/
def run (e : NdnEngine) : EngineCall → NdnEngine
  | startDiscovery nodeId label => e.startDiscovery nodeId label
  | notePeer b now os => e.notePeer P b now os
  | setInfraAddr ipv4 => e.setInfraAddr ipv4
  | setInfraSocket fd => e.setInfraSocket fd
  | call f => { e with inner := e.inner.map f }
  | shutdown => e.shutdown
  | snapshotJson now => { e with discovery := e.discovery.map fun s => s.retain now }
  | ended fd o =>
    if e.fds.owned.any (· = (fd, o)) then { e with fds := e.fds.release fd o } else e

end EngineCall

def engineCode (P : Parsers) : Code NdnEngine EngineSection EngineLock EngineCall where
  lock := EngineSection.lock
  run s e := s.run P e
  enter := EngineCall.enter P

/-- What a section may do, and where its thread goes on. -/
inductive EngineSection.Ran (P : Parsers) (e : NdnEngine) :
    EngineSection → NdnEngine → EnginePoint → Prop where
  | region {nodeId label : String} :
    Ran P e (.region nodeId label) e (.out .inner (.wait (.table nodeId label)))
  | table {nodeId label : String} :
    Ran P e (.table nodeId label) { e with discovery := some (.new nodeId label) }
      (.leave [.discovery])
  | unheard {b : Beacon} {now : Instant} {os : MobileEngine.Os} :
    Ran P e (.hear b now os) e (.out .discovery (heard P b os))
  | hear {b : Beacon} {now : Instant} {os : MobileEngine.Os} :
    Ran P e (.hear b now os) e (.wait (.note b now os))
  | note {b : Beacon} {now : Instant} {os : MobileEngine.Os} :
    Ran P e (.note b now os)
      { e with discovery := e.discovery.map fun s : DiscoveryState => s.notePeer b now }
      (.out .peers (.out .discovery (heard P b os)))
  | down {b : Beacon} {os : MobileEngine.Os} {p : Name} : e.inner = none →
    Ran P e (.route b os p) e (.leave [.inner])
  | routed {b : Beacon} {os : MobileEngine.Os} {p : Name} {m : MobileEngine} :
    e.inner = some m →
    Ran P e (.route b os p) { e with inner := some (m.notePeerRoute p b.face) } (.leave [.inner])
  | candidate {b : Beacon} {os : MobileEngine.Os} {p : Name} {m : MobileEngine} {ip : String} :
    e.inner = some m →
    Ran P e (.route b os p) { e with inner := some (m.notePeerRoute p b.face) }
      (.wait (.address ⟨b.id, p, ip, os⟩))
  | unfit {c : Candidate} : Ran P e (.address c) e (.out .localInfraAddr (.leave [.inner]))
  | fit {c : Candidate} : Ran P e (.address c) e (.out .localInfraAddr (.wait (.reserve c)))
  | reserved {c : Candidate} : Ran P e (.reserve c) e (.out .infraPeers (.leave [.inner]))
  | reserve {c : Candidate} :
    Ran P e (.reserve c) { e with infraPeers := insert c.id e.infraPeers }
      (.out .infraPeers (.wait (.adopt c)))
  | unarmed {c : Candidate} : e.infraSocketFd = none →
    Ran P e (.adopt c) e (.out .infraSocketFd (.wait (.unreserve c)))
  | adopt {c : Candidate} {fd : Fd} : e.infraSocketFd = some fd →
    Ran P e (.adopt c) { e with infraSocketFd := none } (.out .infraSocketFd (.wait (.attach c fd)))
  | freed {c : Candidate} {fd : Fd} : e.inner = none → Ran P e (.attach c fd) e (.leave [.inner])
  | attached {c : Candidate} {fd : Fd} {m : MobileEngine} {id : FaceId} : e.inner = some m →
    (m.attachInfraTunnelFd c.prefix' c.os).1 = .ok id →
    Ran P e (.attach c fd)
      { e with
        inner := some (m.attachInfraTunnelFd c.prefix' c.os).2
        fds := e.fds.adopt fd (.face id) }
      (.leave [.inner])
  | refused {c : Candidate} {fd : Fd} {m : MobileEngine} {err : MobileEngine.IoError} :
    e.inner = some m → (m.attachInfraTunnelFd c.prefix' c.os).1 = .error err →
    Ran P e (.attach c fd)
      { e with
        inner := some (m.attachInfraTunnelFd c.prefix' c.os).2
        fds := e.fds.close fd }
      (.wait (.unreserve c))
  | unreserve {c : Candidate} :
    Ran P e (.unreserve c) { e with infraPeers := e.infraPeers.erase c.id }
      (.leave [.infraPeers, .inner])
  | same {ipv4 : String} : Ran P e (.setAddr ipv4) e (.leave [.localInfraAddr])
  | setAddr {ipv4 : String} {next : Option String} :
    Ran P e (.setAddr ipv4) { e with localInfraAddr := next } (.wait .rearm)
  | rearm : Ran P e .rearm { e with infraPeers := ∅ } (.leave [.infraPeers, .localInfraAddr])
  | setSocket {fd : Fd} : e.infraSocketFd = none →
    Ran P e (.setSocket fd) { e with infraSocketFd := some fd } (.out .infraSocketFd (.wait .clear))
  | replace {fd old : Fd} : e.infraSocketFd = some old →
    Ran P e (.setSocket fd) { e with infraSocketFd := some fd }
      (.out .infraSocketFd (.wait (.close old)))
  | close {old : Fd} : Ran P e (.close old) { e with fds := e.fds.close old } (.wait .clear)
  | clear : Ran P e .clear { e with infraPeers := ∅ } (.leave [.infraPeers])
  | call {f : MobileEngine → MobileEngine} :
    Ran P e (.call f) { e with inner := e.inner.map f } (.leave [.inner])
  | shutdown : Ran P e .shutdown { e with inner := none } (.leave [.inner])
  | snapshot {now : Instant} :
    Ran P e (.snapshot now) { e with discovery := e.discovery.map fun s => s.retain now }
      (.leave [.peers])
  | ended {fd : Fd} {o : Owner} : (fd, o) ∈ e.fds.owned →
    Ran P e (.ended fd o) { e with fds := e.fds.release fd o } .idle
  | unowned {fd : Fd} {o : Owner} : Ran P e (.ended fd o) e .idle

variable {P : Parsers} {e : NdnEngine} {s : EngineSection}

theorem run_ran (P : Parsers) (s : EngineSection) (e : NdnEngine) :
    s.Ran P e (s.run P e).1 (s.run P e).2 := by
  cases s with
  | hear b now os =>
    simp only [EngineSection.run]
    split
    · exact .unheard
    · split
      · exact .unheard
      · exact .hear
  | route b os p =>
    simp only [EngineSection.run]
    split
    · exact .down ‹_›
    · split
      · exact .routed ‹_›
      · exact .candidate ‹_›
  | address c =>
    simp only [EngineSection.run]
    split
    · exact .unfit
    · split
      · exact .unfit
      · split
        · exact .unfit
        · exact .fit
  | reserve c =>
    simp only [EngineSection.run]
    split
    · exact .reserved
    · exact .reserve
  | adopt c =>
    simp only [EngineSection.run]
    split
    · exact .unarmed ‹_›
    · exact .adopt ‹_›
  | attach c fd =>
    simp only [EngineSection.run]
    split
    · exact .freed ‹_›
    · rename_i m hm
      dsimp only
      split
      · rename_i id hr
        rw [hr]
        exact .attached hm hr
      · rename_i err hr
        rw [hr]
        exact .refused hm hr
  | setAddr ipv4 =>
    by_cases hsame : e.localInfraAddr = if ipv4 = "" then none else some ipv4
    · rw [EngineSection.run, if_pos hsame]
      exact .same
    · rw [EngineSection.run, if_neg hsame]
      exact .setAddr
  | setSocket fd =>
    simp only [EngineSection.run]
    split
    · exact .setSocket ‹_›
    · exact .replace ‹_›
  | ended fd o =>
    simp only [EngineSection.run]
    split
    · rename_i howned
      obtain ⟨y, hy, he⟩ := List.any_eq_true.mp howned
      exact .ended (of_decide_eq_true he ▸ hy)
    · exact .unowned
  | region => exact .region
  | table => exact .table
  | note => exact .note
  | unreserve => exact .unreserve
  | rearm => exact .rearm
  | close => exact .close
  | clear => exact .clear
  | call => exact .call
  | shutdown => exact .shutdown
  | snapshot => exact .snapshot

/-! ## The order of the mutexes -/

namespace EngineSection

/-- The mutexes a section is entered with. -/
def held : EngineSection → List EngineLock
  | note .. => [.discovery]
  | address _ | reserve _ | adopt _ | attach .. | unreserve _ => [.inner]
  | rearm => [.localInfraAddr]
  | _ => []

/-- The most steps from within a section to the end of its call. -/
def cost : EngineSection → Nat
  | ended .. => 1
  | table .. | clear | call _ | shutdown | snapshot _ => 2
  | rearm | unreserve _ => 3
  | close _ => 4
  | region .. | setAddr _ | attach .. => 5
  | setSocket _ => 7
  | adopt _ => 8
  | reserve _ => 11
  | address _ => 14
  | route .. => 16
  | note .. => 20
  | hear .. => 22

end EngineSection

def EngineLock.rank : EngineLock → Nat
  | .discovery => 0
  | .inner => 1
  | .peers | .localInfraAddr => 2
  | .infraPeers | .infraSocketFd => 3

theorem heard_holds (b : Beacon) (os : MobileEngine.Os) :
    (engineCode P).holds EngineSection.held (EngineSection.heard P b os) = [] := by
  unfold EngineSection.heard
  split <;> rfl

theorem heard_left (b : Beacon) (os : MobileEngine.Os) :
    (EngineSection.heard P b os).left EngineSection.cost ≤ 17 := by
  unfold EngineSection.heard
  split
  · exact Nat.le_refl _
  · exact Nat.zero_le _

variable {e' : NdnEngine} {q : EnginePoint}

theorem ran_holds (h : s.Ran P e e' q) : (engineCode P).holds EngineSection.held q =
    (engineCode P).holds EngineSection.held (.inside s) := by
  cases h with
  | unheard | note =>
    simp only [Code.holds, heard_holds]
    rfl
  | _ => rfl

theorem ran_left (h : s.Ran P e e' q) : q.left EngineSection.cost < s.cost := by
  cases h with
  | @unheard b _ os | @note b _ os =>
    have hle := heard_left (P := P) b os
    simp only [Point.left, EngineSection.cost]
    omega
  | _ => simp [Point.leave, Point.left, EngineSection.cost]

def engineDiscipline (P : Parsers) : Discipline (engineCode P) where
  rank := EngineLock.rank
  height := 4
  rank_lt l := by cases l <;> decide
  held := EngineSection.held
  cost := EngineSection.cost
  ordered s := by
    cases s <;> simp [engineCode, EngineSection.lock, EngineSection.held, EngineLock.rank]
  enter_holds c := by
    cases c with
    | startDiscovery nodeId label =>
      simp only [engineCode, EngineCall.enter]
      split <;> rfl
    | notePeer b now os =>
      simp only [engineCode, EngineCall.enter]
      split <;> rfl
    | _ => rfl
  run_holds s e := ran_holds (run_ran P s e)
  run_left s e := ran_left (run_ran P s e)

theorem enter_left (c : EngineCall) : (c.enter P).left EngineSection.cost ≤ 23 := by
  cases c with
  | startDiscovery nodeId label =>
    simp only [EngineCall.enter]
    split <;> simp [Point.left, EngineSection.cost]
  | notePeer b now os =>
    simp only [EngineCall.enter]
    split <;> simp [Point.left, EngineSection.cost]
  | _ => simp [EngineCall.enter, Point.left, EngineSection.cost]

/-! ## What a thread knows -/

/-- The sections of `maybe_attach_infra_tunnel`, within the lock of the engine. -/
def EngineSection.Attaching : EngineSection → Prop
  | address _ | reserve _ | adopt _ | attach .. | unreserve _ => True
  | _ => False

/-- No `shutdown` comes between the route of a beacon and its bulk face. -/
def EngineSection.FindsEngine (s : EngineSection) (e : NdnEngine) : Prop :=
  s.Attaching → e.inner.isSome = true

theorem heard_ahead {b : Beacon} {os : MobileEngine.Os}
    (h : s ∈ (EngineSection.heard P b os).ahead) : ∃ p, s = .route b os p := by
  unfold EngineSection.heard at h
  split at h
  · exact ⟨_, (Option.mem_some.mp h).symm⟩
  · cases h

theorem enter_attaching {c : EngineCall} (h : s ∈ (c.enter P).ahead) : ¬ s.Attaching := by
  cases c with
  | startDiscovery nodeId label =>
    simp only [EngineCall.enter, Point.ahead, Option.mem_some] at h
    subst h
    split <;> exact id
  | notePeer b now os =>
    simp only [EngineCall.enter] at h
    split at h
    · cases h
    · obtain rfl := Option.mem_some.mp h
      exact id
  | _ =>
    obtain rfl := Option.mem_some.mp h
    exact id

theorem EngineSection.Ran.attaching {s' : EngineSection} (h : s.Ran P e e' q) (hs : s.FindsEngine e)
    (hs' : s' ∈ q.ahead) (ha : s'.Attaching) : e'.inner.isSome = true := by
  cases h with
  | unheard | note =>
    obtain ⟨p, rfl⟩ := heard_ahead hs'
    exact absurd ha id
  | candidate => rfl
  | refused => rfl
  | fit | reserve | unarmed | adopt => exact hs trivial
  | region | hear | setAddr | setSocket | replace | close =>
    obtain rfl := Option.mem_some.mp hs'
    exact absurd ha id
  | _ => cases hs'

/-- Only `shutdown` takes the engine away. -/
theorem EngineSection.Ran.inner (h : s.Ran P e e' q) (hs : s ≠ .shutdown)
    (he : e.inner.isSome = true) : e'.inner.isSome = true := by
  cases h with
  | routed | candidate | attached | refused => rfl
  | call => rwa [Option.isSome_map]
  | shutdown => exact absurd rfl hs
  | _ => exact he

theorem attaching_held (h : s.Attaching) : EngineLock.inner ∈ s.held := by
  cases s <;> first | exact List.mem_singleton.mpr rfl | exact absurd h id

/-- No mutex of the engine guards anything that a call relies on. -/
abbrev Unguarded : EngineLock → NdnEngine → Prop := fun _ _ => True

theorem outline (P : Parsers) :
    (engineDiscipline P).Outline EngineSection.FindsEngine Unguarded where
  enter c e :=
    Discipline.knows_of_ahead (fun _ => trivial) fun s hs ha => absurd ha (enter_attaching hs)
  run s e h :=
    Discipline.knows_of_ahead (fun _ => trivial) fun s' hs' ha =>
      (run_ran P s e).attaching h.1 hs' ha
  stable s e s' hs' hdisjoint ha := by
    refine (run_ran P s e).inner (fun he => ?_) (hs' ha)
    subst he
    exact hdisjoint .inner (List.mem_singleton.mpr rfl) (attaching_held ha)
  guarded _ _ _ _ _ := trivial

/-! ## Descriptors -/

/-- The sockets that a thread has in its hands on the way to a section. -/
def EngineSection.hand (fd : Fd) : EngineSection → Nat
  | setSocket f | attach _ f | close f => if f = fd then 1 else 0
  | _ => 0

def EngineCall.brings (fd : Fd) : EngineCall → Nat
  | setInfraSocket f => if f = fd then 1 else 0
  | _ => 0

theorem heard_carries (fd : Fd) (b : Beacon) (os : MobileEngine.Os) :
    (EngineSection.heard P b os).carries (EngineSection.hand fd) = 0 := by
  unfold EngineSection.heard
  split <;> rfl

/-- A section moves descriptors between the ledger, the slot and its thread's hands. -/
theorem EngineSection.Ran.total {fd : Fd} (h : s.Ran P e e' q) (hs : s.FindsEngine e) :
    e'.total fd + q.carries (EngineSection.hand fd) = e.total fd + s.hand fd := by
  cases h with
  | unheard | note =>
    simp only [Point.carries, Point.ahead]
    exact congrArg _ (heard_carries fd _ _)
  | adopt hfd | setSocket hfd =>
    simp [NdnEngine.total, Point.carries, Point.ahead, EngineSection.hand, hfd]
  | replace hfd =>
    simp [NdnEngine.total, Point.carries, Point.ahead, EngineSection.hand, hfd]
    omega
  | freed hinner =>
    rw [EngineSection.FindsEngine, hinner] at hs
    cases hs trivial
  | attached =>
    simp only [NdnEngine.total, Descriptors.total_adopt]
    simp [Point.carries, Point.ahead, Point.leave, EngineSection.hand]
    omega
  | refused | close =>
    simp only [NdnEngine.total, Descriptors.total_close]
    simp [Point.carries, Point.ahead, EngineSection.hand]
    omega
  | ended hmem =>
    simp only [NdnEngine.total, Descriptors.total_release hmem]
    rfl
  | _ => rfl

theorem ledger (P : Parsers) (fd : Fd) :
    Discipline.Ledger (engineCode P) EngineSection.FindsEngine Unguarded (fun e => e.total fd)
      (EngineSection.hand fd) (fun _ => 0) (EngineCall.brings fd) where
  enter c := by
    cases c with
    | startDiscovery nodeId label =>
      simp only [engineCode, EngineCall.enter]
      split <;> rfl
    | notePeer b now os =>
      simp only [engineCode, EngineCall.enter]
      split <;> rfl
    | _ => rfl
  run s e h := (run_ran P s e).total h.1

/-! ## Reservations -/

abbrev EnginePool := Pool NdnEngine EngineSection EngineLock ThreadId

abbrev EngineAct := PoolAct EngineCall ThreadId

/-- On the way to where `set_infra_socket` clears the reservations, its socket in the slot. -/
def EngineSection.Clearing : EngineSection → Prop
  | close _ | clear => True
  | _ => False

/-- The peer that a thread has reserved and not yet attached. -/
def EngineSection.pending : EngineSection → Option String
  | adopt c | attach c _ | unreserve c => some c.id
  | _ => none

/-- The reservations are cleared. -/
def Clears (x : Trans EnginePool EngineAct) : Prop :=
  worked x.pre x.act = some .clear ∨ worked x.pre x.act = some .rearm

/-- A bulk face is raised for the peer. -/
def Raises (id : String) (x : Trans EnginePool EngineAct) : Prop :=
  ∃ c fd m, worked x.pre x.act = some (.attach c fd) ∧ c.id = id ∧ x.pre.shared.inner = some m ∧
    (m.attachInfraTunnelFd c.prefix' c.os).1.isOk = true

/-- **Invariant**: a socket that waits finds no peer reserved but by who comes for it, unless the
reservations are about to be cleared; and a reserved peer is on the way to its face, or has had
one since they were. -/
structure Reservations (past : List (Trans EnginePool EngineAct)) (p : EnginePool) : Prop where
  waiting : p.shared.infraSocketFd ≠ none → (∃ s, p.Ahead s ∧ s.Clearing) ∨
    ∀ id ∈ p.shared.infraPeers, ∃ c, p.Ahead (.adopt c) ∧ c.id = id
  raised : ∀ id ∈ p.shared.infraPeers, (∃ s, p.Ahead s ∧ s.pending = some id) ∨
    Since (fun x => ¬ Clears x) (Raises id) past.reverse

variable {past : List (Trans EnginePool EngineAct)} {x : Trans EnginePool EngineAct}

/-- A step that puts no socket in the slot and reserves no peer. -/
theorem Reservations.waiting_frame (h : Reservations past x.pre)
    (ht : Code.Turn (engineCode P) x.pre x.act x.post)
    (hfd : x.post.shared.infraSocketFd = x.pre.shared.infraSocketFd)
    (hpeers : x.post.shared.infraPeers ⊆ x.pre.shared.infraPeers)
    (hworked : ∀ s, worked x.pre x.act = some s → ¬ s.Clearing ∧ ∀ c, s ≠ .adopt c)
    (hpost : x.post.shared.infraSocketFd ≠ none) : (∃ s, x.post.Ahead s ∧ s.Clearing) ∨
      ∀ id ∈ x.post.shared.infraPeers, ∃ c, x.post.Ahead (.adopt c) ∧ c.id = id := by
  rcases h.waiting (hfd ▸ hpost) with ⟨s, hs, hc⟩ | hids
  · exact .inl ⟨s, (ht.ahead s hs).resolve_right fun hw => (hworked s hw).1 hc, hc⟩
  · refine .inr fun id hid => ?_
    obtain ⟨c, hc, he⟩ := hids id (hpeers hid)
    exact ⟨c, (ht.ahead _ hc).resolve_right fun hw => (hworked _ hw).2 c rfl, he⟩

/-- A reserved peer, under a step that clears no reservation. -/
theorem Reservations.raised_frame (h : Reservations past x.pre)
    (ht : Code.Turn (engineCode P) x.pre x.act x.post) {id : String}
    (hid : id ∈ x.pre.shared.infraPeers) (hclears : ¬ Clears x)
    (hworked : ∀ s, worked x.pre x.act = some s → s.pending = some id →
      (∃ s', x.post.Ahead s' ∧ s'.pending = some id) ∨ Raises id x) :
    (∃ s, x.post.Ahead s ∧ s.pending = some id) ∨
      Since (fun y => ¬ Clears y) (Raises id) (past ++ [x]).reverse := by
  rw [List.reverse_append, List.reverse_singleton, List.singleton_append]
  rcases h.raised id hid with ⟨s, hs, hp⟩ | hsince
  · rcases ht.ahead s hs with hahead | hw
    · exact .inl ⟨s, hahead, hp⟩
    · exact (hworked s hw hp).imp_right Since.now
  · exact .inr (.cons hclears hsince)

theorem Reservations.waiting_step (h : Reservations past x.pre)
    (ht : Code.Turn (engineCode P) x.pre x.act x.post) (hw : worked x.pre x.act = some s)
    (hran : s.Ran P x.pre.shared e' q) (he : x.post.shared = e')
    (hnext : ∀ s' ∈ q.ahead, x.post.Ahead s') (hpost : x.post.shared.infraSocketFd ≠ none) :
    (∃ s, x.post.Ahead s ∧ s.Clearing) ∨
      ∀ id ∈ x.post.shared.infraPeers, ∃ c, x.post.Ahead (.adopt c) ∧ c.id = id := by
  have hother {s' : EngineSection} (hs' : x.pre.Ahead s') (hne : s ≠ s') : x.post.Ahead s' :=
    (ht.ahead s' hs').resolve_right fun hw' => hne (Option.some.inj (hw.symm.trans hw'))
  have hself {Q : EngineSection → Prop} (hs : Q s) : ∀ s', worked x.pre x.act = some s' → Q s' :=
    fun s' hw' => Option.some.inj (hw.symm.trans hw') ▸ hs
  cases hran with
  | unarmed hfd =>
    rw [he] at hpost
    exact absurd hfd hpost
  | adopt hfd =>
    rw [he] at hpost
    exact absurd rfl hpost
  | rearm | clear =>
    refine .inr fun id hid => ?_
    rw [he] at hid
    exact absurd hid (Finset.notMem_empty id)
  | setSocket | replace => exact .inl ⟨_, hnext _ rfl, trivial⟩
  | close => exact .inl ⟨_, hnext _ rfl, trivial⟩
  | @reserve c =>
    rw [he] at hpost
    rcases h.waiting hpost with ⟨s', hs', hc⟩ | hids
    · exact .inl ⟨s', hother hs' fun hs => by rw [← hs] at hc; exact hc, hc⟩
    · refine .inr fun id hid => ?_
      rw [he, Finset.mem_insert] at hid
      rcases hid with rfl | hid
      · exact ⟨c, hnext _ rfl, rfl⟩
      · obtain ⟨c', hc', hid'⟩ := hids id hid
        exact ⟨c', hother hc' nofun, hid'⟩
  | unreserve =>
    apply h.waiting_frame ht (by rw [he]) _ (hself ⟨fun hc => hc, fun _ => nofun⟩) hpost
    rw [he]
    exact Finset.erase_subset ..
  | _ =>
    exact h.waiting_frame ht (by rw [he]) (by rw [he])
      (hself ⟨fun hc => hc, fun _ => nofun⟩) hpost

theorem Reservations.raised_step (h : Reservations past x.pre)
    (ht : Code.Turn (engineCode P) x.pre x.act x.post) (hw : worked x.pre x.act = some s)
    (hran : s.Ran P x.pre.shared e' q) (he : x.post.shared = e')
    (hnext : ∀ s' ∈ q.ahead, x.post.Ahead s') (hfinds : s.FindsEngine x.pre.shared) {id : String}
    (hid : id ∈ x.post.shared.infraPeers) : (∃ s, x.post.Ahead s ∧ s.pending = some id) ∨
      Since (fun y => ¬ Clears y) (Raises id) (past ++ [x]).reverse := by
  have hself {Q : EngineSection → Prop} (hs : Q s) : ∀ s', worked x.pre x.act = some s' → Q s' :=
    fun s' hw' => Option.some.inj (hw.symm.trans hw') ▸ hs
  have hclears (hclear : s ≠ .clear) (hrearm : s ≠ .rearm) : ¬ Clears x := by
    rintro (hc | hc)
    · exact hclear (Option.some.inj (hw.symm.trans hc))
    · exact hrearm (Option.some.inj (hw.symm.trans hc))
  rw [he] at hid
  cases hran with
  | rearm | clear => exact absurd hid (Finset.notMem_empty id)
  | @reserve c =>
    rcases Finset.mem_insert.mp hid with rfl | hid
    · exact .inl ⟨_, hnext _ rfl, rfl⟩
    · exact h.raised_frame ht hid (hclears nofun nofun) (hself nofun)
  | unarmed | adopt | refused =>
    exact h.raised_frame ht hid (hclears nofun nofun)
      (hself fun hp => .inl ⟨_, hnext _ rfl, hp⟩)
  | @attached c fd m _ hinner hattach =>
    refine h.raised_frame ht hid (hclears nofun nofun) (hself fun hp => .inr ?_)
    exact ⟨c, fd, m, hw, Option.some.inj hp, hinner, by rw [hattach]; rfl⟩
  | freed hinner =>
    rw [EngineSection.FindsEngine, hinner] at hfinds
    cases hfinds trivial
  | unreserve =>
    obtain ⟨hne, hid⟩ := Finset.mem_erase.mp hid
    exact h.raised_frame ht hid (hclears nofun nofun)
      (hself fun hp => absurd (Option.some.inj hp).symm hne)
  | _ => exact h.raised_frame ht hid (hclears nofun nofun) (hself nofun)

theorem Reservations.step (h : Reservations past x.pre)
    (hk : Discipline.Known (engineCode P) EngineSection.FindsEngine Unguarded x.pre)
    (ht : Code.Turn (engineCode P) x.pre x.act x.post) :
    Reservations (past ++ [x]) x.post := by
  cases hw : worked x.pre x.act with
  | none =>
    have hshared := ht.same hw
    have hnone (s : EngineSection) : worked x.pre x.act ≠ some s := by
      rw [hw]
      exact nofun
    exact ⟨h.waiting_frame ht (by rw [hshared]) (by rw [hshared]) fun s hs => absurd hs (hnone s),
      fun id hid => h.raised_frame ht (hshared ▸ hid) (fun hc => hc.elim (hnone _) (hnone _))
        fun s hs => absurd hs (hnone s)⟩
  | some s =>
    obtain ⟨hshared, hnext⟩ := ht.run s hw
    have hran := run_ran P s x.pre.shared
    obtain ⟨t, hs⟩ := ahead_of_worked hw
    exact ⟨h.waiting_step ht hw hran hshared hnext,
      fun _ hid => h.raised_step ht hw hran hshared hnext
        (Discipline.knows_ahead (hk.point t) hs) hid⟩

/-! ## A call by itself -/

theorem engineCode_run : (engineCode P).run s e = s.run P e := rfl

theorem solo_unreserve (c : Candidate) (n : Nat) :
    (engineCode P).solo (n + 2) (.wait (.unreserve c)) e =
      { e with infraPeers := e.infraPeers.erase c.id } := Code.solo_leave ..

theorem solo_attach {c : Candidate} {m : MobileEngine} (hm : e.inner = some m) (fd : Fd) (n : Nat) :
    (engineCode P).solo (n + 4) (.wait (.attach c fd)) e =
      let e' := { e with
        inner := some (m.attachInfraTunnelFd c.prefix' c.os).2
        fds := e.fds.bulk fd (m.attachInfraTunnelFd c.prefix' c.os).1 }
      match (m.attachInfraTunnelFd c.prefix' c.os).1 with
      | .ok _ => e'
      | .error _ => { e' with infraPeers := e'.infraPeers.erase c.id } := by
  rw [Code.solo_wait, engineCode_run]
  simp only [EngineSection.run, hm]
  split
  · exact Code.solo_leave ..
  · exact solo_unreserve ..

theorem solo_adopt {c : Candidate} {m : MobileEngine} (hm : e.inner = some m) (n : Nat) :
    (engineCode P).solo (n + 7) (.wait (.adopt c)) e =
      match e.infraSocketFd with
      | none => { e with infraPeers := e.infraPeers.erase c.id }
      | some fd =>
        let e' := { e with
          infraSocketFd := none
          inner := some (m.attachInfraTunnelFd c.prefix' c.os).2
          fds := e.fds.bulk fd (m.attachInfraTunnelFd c.prefix' c.os).1 }
        match (m.attachInfraTunnelFd c.prefix' c.os).1 with
        | .ok _ => e'
        | .error _ => { e' with infraPeers := e'.infraPeers.erase c.id } := by
  rw [Code.solo_wait, engineCode_run]
  simp only [EngineSection.run]
  split
  · exact solo_unreserve ..
  · rw [Code.solo_out]
    exact solo_attach (e := { e with infraSocketFd := none }) hm ..

theorem solo_address {c : Candidate} {m : MobileEngine} (hm : e.inner = some m) (n : Nat) :
    (engineCode P).solo (n + 13) (.wait (.address c)) e =
      e.maybeAttachInfraTunnel P c.id c.prefix' c.peerIp m c.os := by
  unfold NdnEngine.maybeAttachInfraTunnel
  rw [Code.solo_wait, engineCode_run]
  simp only [EngineSection.run]
  rw [Code.solo_out]
  cases hl : e.localInfraAddr with
  | none => exact Code.solo_leave ..
  | some localIp =>
    dsimp only
    by_cases hnet : sameSubnet24 localIp c.peerIp = false
    · rw [if_pos hnet, if_pos hnet, Code.solo_leave]
    by_cases haddr : P.socketAddr (c.peerIp ++ ":" ++ toString infraPort) = false
    · rw [if_neg hnet, if_pos haddr, if_neg hnet, if_pos haddr, Code.solo_leave]
    rw [if_neg hnet, if_neg haddr, if_neg hnet, if_neg haddr, Code.solo_wait, engineCode_run]
    simp only [EngineSection.run]
    by_cases hmem : c.id ∈ e.infraPeers
    · rw [if_pos hmem, if_pos hmem]
      exact Code.solo_leave ..
    · rw [if_neg hmem, if_neg hmem, Code.solo_out, ← hl]
      exact solo_adopt (e := { e with infraPeers := insert c.id e.infraPeers }) hm n

theorem solo_heard (b : Beacon) (os : MobileEngine.Os) (n : Nat) :
    (engineCode P).solo (n + 15) (EngineSection.heard P b os) e = e.routePeer P b os := by
  unfold EngineSection.heard NdnEngine.routePeer
  cases P.name (peerNodePrefix b.id) with
  | none => rfl
  | some p =>
    dsimp only
    rw [Code.solo_wait, engineCode_run]
    simp only [EngineSection.run]
    cases e.inner with
    | none => exact Code.solo_leave ..
    | some m =>
      dsimp only
      cases b.infra with
      | none => exact Code.solo_leave ..
      | some peerIp => exact solo_address rfl n

/-- **By itself** a call does what it does in one go. -/
theorem solo_enter (c : EngineCall) (e : NdnEngine) :
    (engineCode P).solo 23 (c.enter P) e = c.run P e := by
  cases c with
  | startDiscovery nodeId label =>
    simp only [EngineCall.enter, EngineCall.run]
    split <;> rfl
  | notePeer b now os =>
    simp only [EngineCall.enter, EngineCall.run, NdnEngine.notePeer]
    by_cases hid : b.id = ""
    · rw [if_pos hid, if_pos hid]
      rfl
    rw [if_neg hid, if_neg hid, Code.solo_wait, engineCode_run]
    simp only [EngineSection.run]
    cases hd : e.discovery with
    | none =>
      have he : ({ e with discovery := none } : NdnEngine) = e := hd ▸ rfl
      rw [Option.map_none, he]
      exact solo_heard ..
    | some s =>
      dsimp only
      by_cases hown : b.id = s.localId
      · have hs : s.notePeer b now = s := by rw [DiscoveryState.notePeer, if_pos (.inr hown)]
        have he : ({ e with discovery := some s } : NdnEngine) = e := hd ▸ rfl
        rw [if_pos hown, Option.map_some, hs, he]
        exact solo_heard ..
      · rw [if_neg hown, Code.solo_wait, engineCode_run]
        simp only [EngineSection.run]
        rw [Code.solo_out, Code.solo_out, hd]
        exact solo_heard ..
  | setInfraAddr ipv4 =>
    simp only [EngineCall.enter, EngineCall.run, NdnEngine.setInfraAddr]
    rw [Code.solo_wait, engineCode_run, EngineSection.run]
    by_cases hsame : e.localInfraAddr = if ipv4 = "" then none else some ipv4
    · rw [if_pos hsame, if_pos hsame]
      rfl
    · rw [if_neg hsame, if_neg hsame]
      rfl
  | setInfraSocket fd =>
    simp only [EngineCall.enter, EngineCall.run, NdnEngine.setInfraSocket]
    rw [Code.solo_wait, engineCode_run, EngineSection.run]
    cases e.infraSocketFd <;> rfl
  | _ => rfl

/-! ## Runs -/

/-- The sockets that threads have in their hands. -/
def inHand (fd : Fd) (tr : List (Trans EnginePool EngineAct)) (p : EnginePool) : Nat :=
  ∑ t ∈ threadsOf PoolAct.thread tr, (p.point t).carries (EngineSection.hand fd)

/-- How often a descriptor was handed to `set_infra_socket`. -/
def handed (fd : Fd) (tr : List (Trans EnginePool EngineAct)) : Nat :=
  (tr.map fun x => x.act.brought (EngineCall.brings fd)).sum

/-- **The engine under any interleaving of its calls**: the calls under way come to their ends,
none left waiting, each in at most 23 steps; a socket handed over is in the slot, in a thread's
hands, with a face, or closed, once for each time it was handed over; and with no call under way a
socket that waits finds no peer reserved, a reserved peer has had its bulk face raised since the
reservations were last cleared, and a call that runs by itself does what it does in one go. -/
theorem calls_exact (P : Parsers) (m : MobileEngine) {tr : List (Trans EnginePool EngineAct)}
    {u : EnginePool} (h : Run (stepRel (engineCode P).step) (.new (.new m)) tr u) :
    ((∀ {tr' v}, Run (engineCode P).Own u tr' v → (∀ t, stepsOf (fun t => t) t tr' ≤ 23) ∧
        tr'.length ≤ 23 * (threadsOf PoolAct.thread tr).card) ∧
      ∃ tr' v, Run (engineCode P).Own u tr' v ∧ v.Idle ∧ ∀ l, v.owner l = none) ∧
    (∀ fd, u.shared.total fd + inHand fd tr u = handed fd tr) ∧
    (u.Idle →
      (u.shared.infraSocketFd ≠ none → u.shared.infraPeers = ∅) ∧
      (∀ id ∈ u.shared.infraPeers, Since (fun x => ¬ Clears x) (Raises id) tr.reverse) ∧
      ∀ t c, ∃ n v,
        exec (engineCode P).step u (.call t c :: List.replicate n (.step t)) = some v ∧
          v.Idle ∧ v.shared = c.run P u.shared) := by
  have hreservations : Reservations tr u := by
    refine (h.inv_hist (I := fun past p => (engineDiscipline P).Orderly p ∧
      Discipline.Known (engineCode P) EngineSection.FindsEngine Unguarded p ∧ Reservations past p)
      (fun {past p a u} hi st => ?_)
      ⟨Discipline.orderly_new _, Discipline.known_new fun _ => trivial, ?_⟩).2.2
    · obtain ⟨ho, hk, hr⟩ := hi
      have hm := Code.step_move st
      exact ⟨ho.step hm, (outline P).step ho hk hm, hr.step (x := ⟨p, a, u⟩) hk hm.turn⟩
    · exact ⟨fun hne => absurd rfl hne, fun id hid => absurd hid (Finset.notMem_empty id)⟩
  obtain ⟨hbound, hend⟩ := (engineDiscipline P).ends h
  have hleft := (engineDiscipline P).left_run enter_left h
  refine ⟨⟨fun hown => ⟨fun t => ((hbound hown).1 t).trans (hleft t), (hbound hown).2.trans ?_⟩,
    hend⟩, fun fd => ?_, fun hidle => ⟨fun hne => ?_, fun id hid => ?_, fun t c => ?_⟩⟩
  · rw [Nat.mul_comm]
    exact Finset.sum_le_card_nsmul _ _ _ fun t _ => hleft t
  · have haccounts := (ledger P fd).accounts (outline P) (fun _ => trivial) h
    have hspent : ((works tr).map fun _ => 0).sum = 0 := by simp
    rwa [hspent, Nat.add_zero, show (NdnEngine.new m).total fd = 0 from rfl, Nat.zero_add]
      at haccounts
  · rcases hreservations.waiting hne with ⟨s, hs, -⟩ | hids
    · exact absurd hs (hidle.not_ahead s)
    · apply Finset.eq_empty_of_forall_notMem
      intro id hid
      obtain ⟨c, hc, -⟩ := hids id hid
      exact hidle.not_ahead _ hc
  · rcases hreservations.raised id hid with ⟨s, hs, -⟩ | hsince
    · exact absurd hs (hidle.not_ahead s)
    · exact hsince
  · obtain ⟨n, v, hexec, hv, hshared⟩ :=
      ((engineDiscipline P).orderly_run h).call_alone hidle (enter_left c) t
    exact ⟨n, v, hexec, hv, hshared.trans (solo_enter c u.shared)⟩

/-- A thread hands over a second socket while another is between its reservation and the slot:
the first is closed, the second is adopted, and the reservation is gone. -/
def secondSocket : List EngineAct :=
  let go (t n : Nat) : List EngineAct := List.replicate n (.step t)
  .call 0 (.setInfraAddr "192.168.1.5") :: go 0 6 ++ .call 0 (.setInfraSocket 9) :: go 0 6 ++
    .call 1 (.notePeer heardOnAp 0 .ok) :: go 1 11 ++ .call 0 (.setInfraSocket 10) :: go 0 3 ++
    go 1 3 ++ go 0 5 ++ go 1 3

theorem calls_exact_secondSocket : ∃ tr u,
    Run (stepRel (engineCode .std).step) (.new phone) tr u ∧
    u.shared.fds = ⟨[(10, .face 3)], [9]⟩ ∧ u.shared.infraPeers = ∅ ∧
    u.shared.total 10 + inHand 10 tr u = 1 := by
  obtain ⟨u, hu, hfds, hpeers⟩ : ∃ u,
    exec (engineCode .std).step (.new phone) secondSocket = some u ∧
    u.shared.fds = ⟨[(10, .face 3)], [9]⟩ ∧ u.shared.infraPeers = ∅ :=
    ⟨_, rfl, by decide, by decide⟩
  obtain ⟨tr, hrun, hacts⟩ := exec_run hu
  have haccounts := (calls_exact .std phoneEngine hrun).2.1 10
  have hhanded : handed 10 tr = 1 := by
    have hmap : tr.map (fun x => x.act.brought (EngineCall.brings 10)) =
        secondSocket.map fun a => a.brought (EngineCall.brings 10) := by
      rw [← hacts, List.map_map]
      rfl
    rw [handed, hmap]
    rfl
  exact ⟨tr, u, hrun, hfds, hpeers, haccounts.trans hhanded⟩

end NdnMobile.Ffi
