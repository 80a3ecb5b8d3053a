import NdnMobile.Identity.Core
import NdnMobile.Lib.Past
import NdnMobile.Lib.Run

/-!
# The RemoteSigner responder

The node that holds the key answers sign requests: one by one from the host
(`respond_to_sign_request`) and from the network (`serve_remote_signer`). A request is a
task that goes through phases, and between two phases of a task anything else may happen:
grants, stops, identity changes, the clock, other requests. The serve loop handles one
Interest at a time until it spawns the signature; here any number may be under way, which
includes its runs. What a history records is what the guarantees are about.
-/

namespace NdnMobile.RemoteSigner

open NdnMobile.Lib NdnMobile.Packet NdnMobile.Identity

/-! ## Requests, grants and the custody library -/

structure WireSignRequest where
  reqId : UInt64
  region : Bytes
  deriving DecidableEq, Repr

inductive WireSignResponse where
  | approved (reqId : UInt64) (signature : Bytes)
  | denied (reqId : UInt64)
  deriving DecidableEq, Repr

inductive ActionClass where
  | route
  | face
  | strategy
  | contentStore
  | other
  deriving DecidableEq, Repr

inductive NdnActionClass where
  | any
  | route
  | face
  | strategy
  | contentStore
  | other
  deriving DecidableEq, Repr

/-- `Any` is no filter. -/
def actionFilter : NdnActionClass → Option ActionClass
  | .any => none
  | .route => some .route
  | .face => some .face
  | .strategy => some .strategy
  | .contentStore => some .contentStore
  | .other => some .other

/-- Times are nanoseconds. -/
structure ScopedGrant where
  expiresAt : Nat
  actionFilter : Option ActionClass
  deriving DecidableEq, Repr

inductive Decision where
  | autoApprove
  | prompt
  deriving DecidableEq, Repr

/-- The custody and packet libraries under the responder. A `ScopedSigningPolicy` is the
list of its grants. -/
structure Custody where
  decodeRequest : Bytes → Except String WireSignRequest
  encodeResponse : WireSignResponse → Bytes
  decide : List ScopedGrant → Bytes → Nat → Decision
  activeGrants : List ScopedGrant → Nat → Nat
  /-- `Name::decode_from_tlv`. -/
  decodeName : Bytes → Option Name
  showName : Name → String
  /-- What a signer answers for a region; the last argument is what it draws. -/
  sign : Signer → Bytes → Nat → Except String Bytes

namespace Custody

variable (C : Custody)

/-- The policy approves only what an unexpired grant covers. -/
def ApprovesByGrant : Prop :=
  ∀ grants region now, C.decide grants region now = .autoApprove →
    ∃ g ∈ grants, now ≤ g.expiresAt

def signingSummary (region : Bytes) : String :=
  match C.decodeName region with
  | some name => s!"Authorize signing for {C.showName name}"
  | none => s!"Authorize signing {region.length} bytes"

end Custody

/-! ## The state -/

inductive Event where
  /-- A signer is the node's identity from now on. -/
  | loaded (signer : Signer)
  /-- The policy holds a new grant. -/
  | opened (time : Nat)
  | stopped
  | decided (task : Nat) (region : Bytes) (decision : Decision) (time : Nat)
  /-- The gate was shown the summary and answered. -/
  | asked (task : Nat) (summary : String) (answer : Bool)
  | signed (task : Nat) (signer : Signer) (region signature : Bytes)
  deriving DecidableEq, Repr

/-- How a request came and how it is answered. -/
inductive Via where
  | direct
  | served (replyName : Name)
  deriving DecidableEq, Repr

inductive Phase where
  | received (req : WireSignRequest)
  /-- In `gate.approve`. -/
  | prompting (req : WireSignRequest)
  | approved (req : WireSignRequest)
  | signing (req : WireSignRequest) (signer : Option Signer)
  | answered (response : WireSignResponse)
  | failed (e : NdnError)
  /-- A served request that does not decode is not answered. -/
  | dropped
  deriving DecidableEq, Repr

structure Task where
  via : Via
  wire : Bytes
  phase : Phase
  deriving DecidableEq, Repr

/-- A call of `grant_signing_scope`. -/
inductive GrantCall where
  | opening (grant : ScopedGrant)
  | counting
  | returned (active : Nat)
  deriving DecidableEq, Repr

structure State where
  now : Nat
  identity : Option Signer
  signPolicy : List ScopedGrant
  /-- The task that holds the lock of `signPolicy` over steps. -/
  policyLock : Option Nat
  grantCalls : List GrantCall
  tasks : List Task
  history : List Event

def State.init (now : Nat) : State := ⟨now, none, [], none, [], [], []⟩

def State.log (s : State) (e : Event) : State := { s with history := e :: s.history }

def State.receive (s : State) (via : Via) (wire : Bytes) (phase : Phase) : State :=
  { s with tasks := s.tasks ++ [⟨via, wire, phase⟩] }

def State.setTask (s : State) (i : Nat) (task : Task) (phase : Phase) : State :=
  { s with tasks := s.tasks.set i { task with phase } }

/-! ## The steps -/

def maxTtlSecs : Nat := 24 * 60 * 60

/-- `ttl_secs.clamp(1, MAX_TTL_SECS)`. -/
def clampTtl (ttlSecs : Nat) : Nat := max 1 (min ttlSecs maxTtlSecs)

inductive Act where
  | advance (ns : Nat)
  | load (signer : Signer)
  /-- `grant_signing_scope` reads the clock. -/
  | grant (action : NdnActionClass) (ttlSecs : Nat)
  | storeGrant (call : Nat)
  /-- `active_signing_scopes`, its result. -/
  | countGrants (call : Nat)
  | stop
  /-- `respond_to_sign_request`. -/
  | request (wire : Bytes)
  /-- `serve_remote_signer` gets an Interest. -/
  | interest (name : Name) (appParameters : Option Bytes)
  | decide (task : Nat)
  | answer (task : Nat) (approve : Bool)
  /-- An approved task reads the identity. -/
  | snapshot (task : Nat)
  | sign (task : Nat) (draw : Nat)
  deriving DecidableEq, Repr

variable (C : Custody)

/-- The task's decision, at the time it reads under the policy's lock. The direct responder
keeps the lock while it asks the gate. -/
def decideStep (s : State) (i : Nat) (task : Task) (req : WireSignRequest) : State :=
  let decision := C.decide s.signPolicy req.region s.now
  let s := s.log (.decided i req.region decision s.now)
  match decision with
  | .autoApprove => s.setTask i task (.approved req)
  | .prompt =>
    { s.setTask i task (.prompting req) with
      policyLock := if task.via = .direct then some i else none }

def answerStep (s : State) (i : Nat) (task : Task) (req : WireSignRequest) (approve : Bool) :
    State :=
  let s := s.log (.asked i (C.signingSummary req.region) approve)
  { s.setTask i task (if approve then .approved req else .signing req none) with
    policyLock := if task.via = .direct then none else s.policyLock }

/-- Without an identity the direct responder fails, and the served one denies. -/
def snapshotStep (s : State) (i : Nat) (task : Task) (req : WireSignRequest) : State :=
  match task.via, s.identity with
  | .direct, none => s.setTask i task (.failed (.identity "no identity loaded"))
  | _, signer => s.setTask i task (.signing req signer)

def signStep (s : State) (i : Nat) (task : Task) (req : WireSignRequest) (signer : Option Signer)
    (draw : Nat) : State :=
  match signer with
  | none => s.setTask i task (.answered (.denied req.reqId))
  | some signer =>
    match C.sign signer req.region draw with
    | .error _ => s.setTask i task (.answered (.denied req.reqId))
    | .ok signature =>
      (s.log (.signed i signer req.region signature)).setTask i task
        (.answered (.approved req.reqId signature))

def step (s : State) : Act → Option State
  | .advance ns => some { s with now := s.now + ns }
  | .load signer => some ({ s with identity := some signer }.log (.loaded signer))
  | .grant action ttlSecs => some { s with
      grantCalls := s.grantCalls ++
        [.opening ⟨s.now + clampTtl ttlSecs * 1000000000, actionFilter action⟩] }
  | .storeGrant k =>
    match s.policyLock, s.grantCalls[k]? with
    | none, some (.opening g) => some ({ s with
        signPolicy := s.signPolicy ++ [g]
        grantCalls := s.grantCalls.set k .counting }.log (.opened s.now))
    | _, _ => none
  | .countGrants k =>
    match s.policyLock, s.grantCalls[k]? with
    | none, some .counting => some { s with
        grantCalls := s.grantCalls.set k
          (.returned (C.activeGrants s.signPolicy s.now % 2 ^ 32)) }
    | _, _ => none
  | .stop =>
    match s.policyLock with
    | none => some ({ s with signPolicy := [] }.log .stopped)
    | some _ => none
  | .request wire =>
    match C.decodeRequest wire with
    | .error msg => some (s.receive .direct wire (.failed (.identity msg)))
    | .ok req => some (s.receive .direct wire (.received req))
  | .interest _ none => some s
  | .interest name (some wire) =>
    match C.decodeRequest wire with
    | .error _ => some (s.receive (.served name) wire .dropped)
    | .ok req => some (s.receive (.served name) wire (.received req))
  | .decide i =>
    match s.policyLock, s.tasks[i]? with
    | none, some ⟨via, wire, .received req⟩ =>
      some (decideStep C s i ⟨via, wire, .received req⟩ req)
    | _, _ => none
  | .answer i approve =>
    match s.tasks[i]? with
    | some ⟨via, wire, .prompting req⟩ =>
      some (answerStep C s i ⟨via, wire, .prompting req⟩ req approve)
    | _ => none
  | .snapshot i =>
    match s.tasks[i]? with
    | some ⟨via, wire, .approved req⟩ => some (snapshotStep s i ⟨via, wire, .approved req⟩ req)
    | _ => none
  | .sign i draw =>
    match s.tasks[i]? with
    | some ⟨via, wire, .signing req signer⟩ =>
      some (signStep C s i ⟨via, wire, .signing req signer⟩ req signer draw)
    | _ => none

/-- The Data the served responder has answered with. -/
def Task.reply : Task → Option Data
  | ⟨.served name, _, .answered response⟩ => some ⟨name, some (C.encodeResponse response)⟩
  | _ => none

/-! ## What a step does -/

inductive Move (s : State) : Act → State → Prop where
  | advance (ns : Nat) : Move s (.advance ns) { s with now := s.now + ns }
  | load (signer : Signer) :
    Move s (.load signer) ({ s with identity := some signer }.log (.loaded signer))
  | grant (action : NdnActionClass) (ttlSecs : Nat) : Move s (.grant action ttlSecs) { s with
      grantCalls := s.grantCalls ++
        [.opening ⟨s.now + clampTtl ttlSecs * 1000000000, actionFilter action⟩] }
  | storeGrant {k : Nat} {g : ScopedGrant} (hk : s.grantCalls[k]? = some (.opening g)) :
    Move s (.storeGrant k) ({ s with
      signPolicy := s.signPolicy ++ [g]
      grantCalls := s.grantCalls.set k .counting }.log (.opened s.now))
  | countGrants (k n : Nat) :
    Move s (.countGrants k) { s with grantCalls := s.grantCalls.set k (.returned n) }
  | stop : Move s .stop ({ s with signPolicy := [] }.log .stopped)
  | received {a : Act} {via : Via} {wire : Bytes} {req : WireSignRequest}
    (hd : C.decodeRequest wire = .ok req)
    (ha : ∀ name, via = .served name → a = .interest name (some wire)) :
    Move s a (s.receive via wire (.received req))
  | refused {a : Act} {via : Via} {wire : Bytes} {phase : Phase}
    (hp : phase = .dropped ∨ ∃ e, phase = .failed e)
    (ha : ∀ name, via = .served name → a = .interest name (some wire)) :
    Move s a (s.receive via wire phase)
  | noParameters (name : Name) : Move s (.interest name none) s
  | decide {i : Nat} {task : Task} {req : WireSignRequest} (hi : s.tasks[i]? = some task)
    (hp : task.phase = .received req) : Move s (.decide i) (decideStep C s i task req)
  | answer {i : Nat} {task : Task} {req : WireSignRequest} (approve : Bool)
    (hi : s.tasks[i]? = some task) (hp : task.phase = .prompting req) :
    Move s (.answer i approve) (answerStep C s i task req approve)
  | snapshot {i : Nat} {task : Task} {req : WireSignRequest} (hi : s.tasks[i]? = some task)
    (hp : task.phase = .approved req) : Move s (.snapshot i) (snapshotStep s i task req)
  | sign {i : Nat} {task : Task} {req : WireSignRequest} {signer : Option Signer} (draw : Nat)
    (hi : s.tasks[i]? = some task) (hp : task.phase = .signing req signer) :
    Move s (.sign i draw) (signStep C s i task req signer draw)

variable {C} {s t : State} {a : Act}

theorem step_move (h : step C s a = some t) : Move C s a t := by
  cases a with
  | advance ns => cases h; exact .advance ns
  | load signer => cases h; exact .load signer
  | grant action ttlSecs => cases h; exact .grant action ttlSecs
  | interest name appParameters =>
    cases appParameters with
    | none => cases h; exact .noParameters name
    | some wire =>
      simp only [step] at h
      split at h
      · cases h; exact .refused (.inl rfl) fun _ hv => by cases hv; rfl
      · rename_i hd
        cases h; exact .received hd fun _ hv => by cases hv; rfl
  | request wire =>
    simp only [step] at h
    split at h
    · cases h; exact .refused (.inr ⟨_, rfl⟩) nofun
    · rename_i hd
      cases h; exact .received hd nofun
  | storeGrant k =>
    simp only [step] at h
    split at h
    · rename_i hk
      cases h; exact .storeGrant hk
    · cases h
  | countGrants k =>
    simp only [step] at h
    split at h
    · cases h; exact .countGrants k _
    · cases h
  | stop =>
    simp only [step] at h
    split at h
    · cases h; exact .stop
    · cases h
  | decide i =>
    simp only [step] at h
    split at h
    · rename_i hi
      cases h; exact .decide hi rfl
    · cases h
  | answer i approve =>
    simp only [step] at h
    split at h
    · rename_i hi
      cases h; exact .answer approve hi rfl
    · cases h
  | snapshot i =>
    simp only [step] at h
    split at h
    · rename_i hi
      cases h; exact .snapshot hi rfl
    · cases h
  | sign i draw =>
    simp only [step] at h
    split at h
    · rename_i hi
      cases h; exact .sign draw hi rfl
    · cases h

/-! The steps of a task write its phase, and at most one event. -/

variable {i : Nat} {task : Task} {req : WireSignRequest}

theorem decideStep_eq : ∃ phase e lock,
    decideStep C s i task req = { (s.log e).setTask i task phase with policyLock := lock } := by
  unfold decideStep
  dsimp only
  split
  · exact ⟨_, _, s.policyLock, rfl⟩
  · exact ⟨_, _, _, rfl⟩

theorem snapshotStep_eq : ∃ phase, snapshotStep s i task req = s.setTask i task phase := by
  unfold snapshotStep
  split <;> exact ⟨_, rfl⟩

theorem signStep_eq {signer : Option Signer} {draw : Nat} : ∃ phase,
    signStep C s i task req signer draw = s.setTask i task phase ∨
    ∃ e, signStep C s i task req signer draw = (s.log e).setTask i task phase := by
  unfold signStep
  cases signer with
  | none => exact ⟨_, .inl rfl⟩
  | some signer =>
    dsimp only
    split
    · exact ⟨_, .inl rfl⟩
    · exact ⟨_, .inr ⟨_, rfl⟩⟩

end NdnMobile.RemoteSigner
