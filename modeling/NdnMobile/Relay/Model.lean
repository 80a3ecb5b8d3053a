import NdnMobile.Rust
import NdnMobile.Packet.Name
import NdnMobile.Lib.Notify
import NdnMobile.Lib.Run

/-!
# The object relay

The tasks of `spawn_object_relay` as one transition system: handlers of the Interests
that reach the producer of record, `run_relay` (started by the first of them that asks
for a segment) and any number of `backward_refetch` tasks, interleaved at every access
to what they share. The environment delivers Interests, source Data and late replies,
and decides timeouts, failed signatures and cancellation.
-/

namespace NdnMobile.Relay

open NdnMobile.Lib NdnMobile.Packet

structure Config where
  target : Target
  naming : SegmentNaming
  /-- `PreparedObject::answer_interest` has an answer under this name. -/
  isMetadata : Name → Bool
  /-- `<public>/v=<ver>`: the segment prefix the relay names and signs under. -/
  publicVersioned : Name
  sourcePrefix : Name
  lastSeg : UInt64
  lookahead : UInt64
  /-- The content of a segment of a version of the source object. -/
  source : Name → UInt64 → Bytes

namespace Config

variable (cfg : Config)

/-- `lookahead.max(1)`. -/
def lead : UInt64 := max cfg.lookahead 1

/-- A Data the source made: a segment of one of its versions has that segment's content. -/
def genuine (d : Data) : Bool :=
  match cfg.naming.trailing d.name with
  | none => true
  | some seg => d.bytes == cfg.source d.name.dropLast seg

end Config

/-- A Data signed with the node key. -/
structure Signed where
  name : Name
  content : Bytes
  deriving DecidableEq, Repr

/-- Where the handler of an Interest is. -/
inductive Handler where
  | arrived (name : Name)
  /-- At `demand.front.fetch_max`. -/
  | advancing (seg : UInt64)
  /-- At `demand.wake.notify_one`. -/
  | notifying (seg : UInt64)
  /-- At `inputs.lock().take()`. -/
  | starting (seg : UInt64)
  /-- At `refetch.produced.load`. -/
  | checking (seg : UInt64)
  /-- At `refetch.source_versioned.lock()`. -/
  | pulling (seg : UInt64)
  | done
  deriving DecidableEq, Repr

/-- Where `run_relay` is. -/
inductive RunRelay where
  /-- Its `RelayInputs` have not been taken. -/
  | unstarted
  | subscribing
  /-- Asleep after a failed subscription. -/
  | backoff
  /-- At the first `produced.load` of the pacing loop. -/
  | loadProduced
  | loadFront (p : UInt64)
  /-- At the second `produced.load`. -/
  | loadAgain
  /-- In the pacing `select!`, `notified()` not polled yet. -/
  | awaiting
  | waiting
  | receiving
  | signing (seg : UInt64) (content : Bytes)
  | inserting (seg : UInt64) (wire : Signed)
  | publishing (seg : UInt64)
  | storing (seg : UInt64)
  | stopped
  | panicked (p : Panic)
  deriving DecidableEq, Repr

/-- Where a `backward_refetch` is. -/
inductive BackwardRefetch where
  /-- At `refetch.consumer.lock()`. -/
  | locking (src : Name) (seg : UInt64)
  /-- In `fetch_wire`, holding the consumer. -/
  | fetching (src : Name) (seg : UInt64)
  | signing (seg : UInt64) (content : Bytes)
  | inserting (wire : Signed)
  | responding (wire : Signed)
  | done
  deriving DecidableEq, Repr

def BackwardRefetch.isFetching : BackwardRefetch → Bool
  | .fetching _ _ => true
  | _ => false

structure State where
  front : UInt64
  wake : Notify
  produced : UInt64
  sourceVersioned : Option Name
  cancelled : Bool
  handlers : List Handler
  relay : RunRelay
  refetches : List BackwardRefetch
  /-- Names the re-fetch consumer has asked for. -/
  asked : List Name
  /-- Data on the re-fetch consumer's face that it has not read. -/
  inbox : List Data
  cs : List Signed
  /-- Every Data signed, newest first. -/
  signed : List Signed
  /-- The segments `run_relay` has published, newest first. -/
  relayed : List UInt64
  deriving DecidableEq, Repr

/-- `spawn_object_relay`. -/
def State.init : State where
  front := 0
  wake := .new
  produced := 0
  sourceVersioned := none
  cancelled := false
  handlers := []
  relay := .unstarted
  refetches := []
  asked := []
  inbox := []
  cs := []
  signed := []
  relayed := []

/-! ## Steps -/

/-- One step of a handler and what it does to the rest; `signed`: signing metadata succeeds. -/
def serveStep (cfg : Config) (s : State) (signed : Bool) : Handler → Handler × State
  | .arrived name =>
    if cfg.isMetadata name && signed then (.done, s)
    else
      match cfg.naming.trailing name with
      | none => (.done, s)
      | some seg => (.advancing seg, s)
  | .advancing seg => (.notifying seg, { s with front := max s.front seg })
  | .notifying seg => (.starting seg, { s with wake := s.wake.notifyOne })
  | .starting seg =>
    (.checking seg, if s.relay = .unstarted then { s with relay := .subscribing } else s)
  | .checking seg => (if seg < s.produced then .pulling seg else .done, s)
  | .pulling seg =>
    match s.sourceVersioned with
    | none => (.done, s)
    | some src => (.done, { s with refetches := s.refetches ++ [.locking src seg] })
  | .done => (.done, s)

/-- What decides the next step of `run_relay`. -/
inductive RelayEvent where
  | next
  | subscribed (ok : Bool)
  | slept
  | data (d : Data)
  | recvFailed
  | signed (ok : Bool)
  | cancelled
  deriving DecidableEq, Repr

/-- A Data read from the subscription: its segment number, the source version if it is the
first, and on to signing. -/
def State.received (cfg : Config) (s : State) (d : Data) : State :=
  match cfg.naming.trailing d.name with
  | none => { s with relay := .loadProduced }
  | some seg =>
    { s with
      sourceVersioned := s.sourceVersioned.or (some d.name.dropLast)
      relay := .signing seg d.bytes }

/-- One step of `run_relay`. -/
def runRelayStep (cfg : Config) (s : State) (e : RelayEvent) : Option State :=
  match s.relay, e with
  | .subscribing, .subscribed ok =>
    if s.cancelled then some { s with relay := .stopped }
    else some { s with relay := if ok then .loadProduced else .backoff }
  | .backoff, .slept => some { s with relay := .subscribing }
  | .loadProduced, .next => some { s with relay := .loadFront s.produced }
  | .loadFront p, .next =>
    match cfg.target.addU64 s.front cfg.lead with
    | .error panic => some { s with relay := .panicked panic }
    | .ok bound => some { s with relay := if bound < p then .loadAgain else .receiving }
  | .loadAgain, .next =>
    some { s with relay := if s.produced ≤ cfg.lastSeg then .awaiting else .receiving }
  | .awaiting, .next =>
    some { s with
      wake := s.wake.poll.2
      relay := if s.wake.poll.1 then .loadProduced else .waiting }
  | .waiting, .next =>
    if s.wake.waiter = .woken then some { s with wake := s.wake.resume, relay := .loadProduced }
    else none
  | .receiving, .data d =>
    if cfg.sourcePrefix.isPrefixOf d.name && cfg.genuine d then some (s.received cfg d) else none
  | .receiving, .recvFailed => some { s with relay := .subscribing }
  | .signing seg content, .signed ok =>
    if ok then
      let wire := ⟨cfg.naming.appendSegment cfg.publicVersioned seg, content⟩
      some { s with signed := wire :: s.signed, relay := .inserting seg wire }
    else some { s with relay := .loadProduced }
  | .inserting seg wire, .next => some { s with cs := wire :: s.cs, relay := .publishing seg }
  | .publishing seg, .next => some { s with relayed := seg :: s.relayed, relay := .storing seg }
  | .storing seg, .next =>
    match cfg.target.addU64 seg 1 with
    | .error panic => some { s with relay := .panicked panic }
    | .ok m => some { s with produced := max s.produced m, relay := .loadProduced }
  -- Every `select!` of the loop also waits for the cancellation.
  | .backoff, .cancelled | .awaiting, .cancelled | .waiting, .cancelled | .receiving, .cancelled =>
    if s.cancelled then some { s with wake := s.wake.leave, relay := .stopped } else none
  | _, _ => none

/-- What decides the next step of a `backward_refetch`. -/
inductive RefetchEvent where
  | next
  | reply
  | timeout
  | signed (ok : Bool)
  deriving DecidableEq, Repr

/-- One step of a `backward_refetch`. `fetch_wire` takes the next Data on the consumer's face. -/
def backwardRefetchStep (cfg : Config) (s : State) (e : RefetchEvent) :
    BackwardRefetch → Option (BackwardRefetch × State)
  | .locking src seg =>
    if e = .next && !s.refetches.any (·.isFetching) then
      some (.fetching src seg, { s with asked := cfg.naming.appendSegment src seg :: s.asked })
    else none
  | .fetching _ seg =>
    match e, s.inbox with
    | .reply, d :: rest => some (.signing seg d.bytes, { s with inbox := rest })
    | .timeout, _ => some (.done, s)
    | _, _ => none
  | .signing seg content =>
    match e with
    | .signed true =>
      let wire := ⟨cfg.naming.appendSegment cfg.publicVersioned seg, content⟩
      some (.inserting wire, { s with signed := wire :: s.signed })
    | .signed false => some (.done, s)
    | _ => none
  | .inserting wire =>
    if e = .next then some (.responding wire, { s with cs := wire :: s.cs }) else none
  | .responding _ => if e = .next then some (.done, s) else none
  | .done => none

inductive Act where
  /-- An Interest reaches the producer of record. -/
  | interest (name : Name)
  | handler (i : Nat) (signed : Bool)
  | relay (e : RelayEvent)
  | refetch (i : Nat) (e : RefetchEvent)
  /-- The answer to an Interest of the re-fetch consumer arrives, however late. -/
  | answer (d : Data)
  | evict (wire : Signed)
  | cancel
  deriving DecidableEq, Repr

def step (cfg : Config) (s : State) : Act → Option State
  | .interest name => some { s with handlers := s.handlers ++ [.arrived name] }
  | .handler i signed =>
    match s.handlers[i]? with
    | none => none
    | some h =>
      let (h', s') := serveStep cfg s signed h
      some { s' with handlers := s'.handlers.set i h' }
  | .relay e => runRelayStep cfg s e
  | .refetch i e =>
    match s.refetches[i]? with
    | none => none
    | some r =>
      match backwardRefetchStep cfg s e r with
      | none => none
      | some (r', s') => some { s' with refetches := s'.refetches.set i r' }
  | .answer d =>
    if s.asked.contains d.name && cfg.genuine d then some { s with inbox := s.inbox ++ [d] }
    else none
  | .evict wire => some { s with cs := s.cs.erase wire }
  | .cancel => some { s with cancelled := true }

/-! ## What a handler leaves alone -/

section

variable (cfg : Config) (s : State) (ok : Bool) (h : Handler)

@[simp] theorem serveStep_handlers : (serveStep cfg s ok h).2.handlers = s.handlers := by
  cases h <;> simp only [serveStep] <;> repeat' split
  all_goals rfl

theorem serveStep_front : (serveStep cfg s ok h).2.front = s.front ∨
    ∃ seg, h = .advancing seg ∧ (serveStep cfg s ok h).2.front = max s.front seg := by
  cases h with
  | advancing seg => exact .inr ⟨seg, rfl, rfl⟩
  | _ =>
    left
    simp only [serveStep]
    repeat' split
    all_goals rfl

end

/-! ## What the steps of `run_relay` and `backward_refetch` can do -/

/-- What a step of `run_relay` can do. -/
inductive RelayMove (cfg : Config) (s : State) : RelayEvent → State → Prop where
  | halt {ok : Bool} : s.relay = .subscribing → s.cancelled = true →
    RelayMove cfg s (.subscribed ok) { s with relay := .stopped }
  | subscribe {ok : Bool} : s.relay = .subscribing →
    RelayMove cfg s (.subscribed ok) { s with relay := if ok then .loadProduced else .backoff }
  | retry : s.relay = .backoff → RelayMove cfg s .slept { s with relay := .subscribing }
  | loadProduced : s.relay = .loadProduced →
    RelayMove cfg s .next { s with relay := .loadFront s.produced }
  | compare {p bound : UInt64} : s.relay = .loadFront p →
    cfg.target.addU64 s.front cfg.lead = .ok bound →
    RelayMove cfg s .next { s with relay := if bound < p then .loadAgain else .receiving }
  | compareOverflow {p : UInt64} {panic : Panic} : s.relay = .loadFront p →
    RelayMove cfg s .next { s with relay := .panicked panic }
  | loadAgain : s.relay = .loadAgain →
    RelayMove cfg s .next
      { s with relay := if s.produced ≤ cfg.lastSeg then .awaiting else .receiving }
  | takePermit : s.relay = .awaiting → s.wake.poll.1 = true →
    RelayMove cfg s .next { s with wake := s.wake.poll.2, relay := .loadProduced }
  | enlist : s.relay = .awaiting → s.wake.poll.1 = false →
    RelayMove cfg s .next { s with wake := s.wake.poll.2, relay := .waiting }
  | wakeUp : s.relay = .waiting → s.wake.waiter = .woken →
    RelayMove cfg s .next { s with wake := s.wake.resume, relay := .loadProduced }
  | receive {d : Data} : s.relay = .receiving → cfg.genuine d = true →
    RelayMove cfg s (.data d) (s.received cfg d)
  | resubscribe : s.relay = .receiving →
    RelayMove cfg s .recvFailed { s with relay := .subscribing }
  | sign {seg : UInt64} {content : Bytes} : s.relay = .signing seg content →
    RelayMove cfg s (.signed true)
      { s with
        signed := ⟨cfg.naming.appendSegment cfg.publicVersioned seg, content⟩ :: s.signed
        relay := .inserting seg ⟨cfg.naming.appendSegment cfg.publicVersioned seg, content⟩ }
  | signFailed {seg : UInt64} {content : Bytes} {ok : Bool} : s.relay = .signing seg content →
    RelayMove cfg s (.signed ok) { s with relay := .loadProduced }
  | insert {seg : UInt64} {wire : Signed} : s.relay = .inserting seg wire →
    RelayMove cfg s .next { s with cs := wire :: s.cs, relay := .publishing seg }
  | publish {seg : UInt64} : s.relay = .publishing seg →
    RelayMove cfg s .next { s with relayed := seg :: s.relayed, relay := .storing seg }
  | store {seg m : UInt64} : s.relay = .storing seg → cfg.target.addU64 seg 1 = .ok m →
    RelayMove cfg s .next { s with produced := max s.produced m, relay := .loadProduced }
  | storeOverflow {seg : UInt64} {panic : Panic} : s.relay = .storing seg →
    RelayMove cfg s .next { s with relay := .panicked panic }
  | cancel : s.cancelled = true →
    RelayMove cfg s .cancelled { s with wake := s.wake.leave, relay := .stopped }

theorem runRelayStep_cancelled {cfg : Config} {s t : State}
    (h : runRelayStep cfg s .cancelled = some t) : RelayMove cfg s .cancelled t := by
  unfold runRelayStep at h
  cases hr : s.relay with
  | backoff | awaiting | waiting | receiving =>
    rw [hr] at h
    dsimp only at h
    split at h <;> cases h
    exact .cancel ‹_›
  | _ =>
    rw [hr] at h
    cases h

theorem runRelayStep_move {cfg : Config} {s t : State} {e : RelayEvent}
    (h : runRelayStep cfg s e = some t) : RelayMove cfg s e t := by
  by_cases he : e = .cancelled
  · subst he
    exact runRelayStep_cancelled h
  unfold runRelayStep at h
  cases hr : s.relay with
  | subscribing =>
    rw [hr] at h
    cases e with
    | subscribed ok =>
      dsimp only at h
      split at h <;> cases h
      · exact .halt hr ‹_›
      · exact .subscribe hr
    | _ => cases h
  | backoff =>
    rw [hr] at h
    cases e with
    | slept => cases h; exact .retry hr
    | cancelled => exact absurd rfl he
    | _ => cases h
  | loadProduced =>
    rw [hr] at h
    cases e with
    | next => cases h; exact .loadProduced hr
    | _ => cases h
  | loadFront p =>
    rw [hr] at h
    cases e with
    | next =>
      dsimp only at h
      split at h <;> cases h
      · exact .compareOverflow hr
      · exact .compare hr ‹_›
    | _ => cases h
  | loadAgain =>
    rw [hr] at h
    cases e with
    | next => cases h; exact .loadAgain hr
    | _ => cases h
  | awaiting =>
    rw [hr] at h
    cases e with
    | next =>
      cases h
      cases hp : s.wake.poll.1 with
      | true => exact .takePermit hr hp
      | false => exact .enlist hr hp
    | cancelled => exact absurd rfl he
    | _ => cases h
  | waiting =>
    rw [hr] at h
    cases e with
    | next =>
      dsimp only at h
      split at h <;> cases h
      exact .wakeUp hr ‹_›
    | cancelled => exact absurd rfl he
    | _ => cases h
  | receiving =>
    rw [hr] at h
    cases e with
    | data d =>
      dsimp only at h
      split at h <;> cases h
      rename_i hc
      exact .receive hr (Bool.and_eq_true_iff.mp hc).2
    | recvFailed => cases h; exact .resubscribe hr
    | cancelled => exact absurd rfl he
    | _ => cases h
  | signing seg content =>
    rw [hr] at h
    cases e with
    | signed ok =>
      cases ok with
      | true => cases h; exact .sign hr
      | false => cases h; exact .signFailed hr
    | _ => cases h
  | inserting seg wire =>
    rw [hr] at h
    cases e with
    | next => cases h; exact .insert hr
    | _ => cases h
  | publishing seg =>
    rw [hr] at h
    cases e with
    | next => cases h; exact .publish hr
    | _ => cases h
  | storing seg =>
    rw [hr] at h
    cases e with
    | next =>
      dsimp only at h
      split at h <;> cases h
      · exact .storeOverflow hr
      · exact .store hr ‹_›
    | _ => cases h
  | unstarted | stopped | panicked =>
    rw [hr] at h
    cases e <;> cases h

/-- What a step of a `backward_refetch` can do. -/
inductive RefetchMove (cfg : Config) (s : State) :
    RefetchEvent → BackwardRefetch → BackwardRefetch → State → Prop where
  | lock {src : Name} {seg : UInt64} : (∀ r ∈ s.refetches, r.isFetching = false) →
    RefetchMove cfg s .next (.locking src seg) (.fetching src seg)
      { s with asked := cfg.naming.appendSegment src seg :: s.asked }
  | reply {src : Name} {seg : UInt64} {d : Data} {rest : List Data} : s.inbox = d :: rest →
    RefetchMove cfg s .reply (.fetching src seg) (.signing seg d.bytes) { s with inbox := rest }
  | timeout {src : Name} {seg : UInt64} : RefetchMove cfg s .timeout (.fetching src seg) .done s
  | sign {seg : UInt64} {content : Bytes} :
    RefetchMove cfg s (.signed true) (.signing seg content)
      (.inserting ⟨cfg.naming.appendSegment cfg.publicVersioned seg, content⟩)
      { s with
        signed := ⟨cfg.naming.appendSegment cfg.publicVersioned seg, content⟩ :: s.signed }
  | signFailed {seg : UInt64} {content : Bytes} :
    RefetchMove cfg s (.signed false) (.signing seg content) .done s
  | insert {wire : Signed} :
    RefetchMove cfg s .next (.inserting wire) (.responding wire) { s with cs := wire :: s.cs }
  | respond {wire : Signed} : RefetchMove cfg s .next (.responding wire) .done s

theorem backwardRefetchStep_move {cfg : Config} {s t : State} {e : RefetchEvent}
    {r r' : BackwardRefetch} :
    backwardRefetchStep cfg s e r = some (r', t) → RefetchMove cfg s e r r' t := by
  intro h
  cases r with
  | locking src seg =>
    simp only [backwardRefetchStep] at h
    split at h <;> cases h
    rename_i hc
    simp only [Bool.and_eq_true, decide_eq_true_eq, Bool.not_eq_true', List.any_eq_false,
      Bool.not_eq_true] at hc
    exact hc.1 ▸ .lock hc.2
  | fetching src seg =>
    simp only [backwardRefetchStep] at h
    split at h <;> cases h
    · exact .reply ‹_›
    · exact .timeout
  | signing seg content =>
    simp only [backwardRefetchStep] at h
    split at h <;> cases h
    · exact .sign
    · exact .signFailed
  | inserting wire =>
    simp only [backwardRefetchStep] at h
    split at h <;> cases h
    rename_i he
    exact he ▸ .insert
  | responding wire =>
    simp only [backwardRefetchStep] at h
    split at h <;> cases h
    rename_i he
    exact he ▸ .respond
  | done => cases h

/-! ## Inverting a step -/

theorem step_handler {cfg : Config} {s t : State} {i : Nat} {signed : Bool}
    (h : step cfg s (.handler i signed) = some t) :
    ∃ hd, s.handlers[i]? = some hd ∧ t = { (serveStep cfg s signed hd).2 with
      handlers := (serveStep cfg s signed hd).2.handlers.set i (serveStep cfg s signed hd).1 } := by
  simp only [step] at h
  split at h <;> cases h
  exact ⟨_, ‹_›, rfl⟩

theorem step_refetch {cfg : Config} {s t : State} {i : Nat} {e : RefetchEvent}
    (h : step cfg s (.refetch i e) = some t) :
    ∃ r r' s', s.refetches[i]? = some r ∧ RefetchMove cfg s e r r' s' ∧
      t = { s' with refetches := s'.refetches.set i r' } := by
  simp only [step] at h
  split at h
  · cases h
  · split at h <;> cases h
    exact ⟨_, _, _, ‹_›, backwardRefetchStep_move ‹_›, rfl⟩

theorem step_answer {cfg : Config} {s t : State} {d : Data} (h : step cfg s (.answer d) = some t) :
    d.name ∈ s.asked ∧ cfg.genuine d = true ∧ t = { s with inbox := s.inbox ++ [d] } := by
  simp only [step] at h
  split at h <;> cases h
  rename_i hc
  simp only [List.contains_eq_mem, Bool.and_eq_true, decide_eq_true_eq] at hc
  exact ⟨hc.1, hc.2, rfl⟩

/-! ## A relay to run -/

/-- Six segments, each holding its own number, relayed with lookahead 1. -/
def sixSegments : Config where
  target := .mobile
  naming := .nni
  isMetadata _ := false
  publicVersioned := [⟨8, [112]⟩]
  sourcePrefix := [⟨8, [115]⟩]
  lastSeg := 5
  lookahead := 1
  source _ seg := nniBytes seg

/-- An Interest for a segment, handled to its end. -/
def demandActs (i : Nat) (seg : UInt64) : List Act :=
  .interest (sixSegments.naming.appendSegment sixSegments.publicVersioned seg) ::
    List.replicate 6 (.handler i false)

/-- `run_relay` subscribes and comes to its first read. -/
def startEvents : List RelayEvent := [.subscribed true, .next, .next]

/-- `run_relay` takes a segment through to `produced` and compares again. -/
def relayEvents (seg : UInt64) : List RelayEvent :=
  [.data ⟨sixSegments.naming.appendSegment sixSegments.sourcePrefix seg, some (nniBytes seg)⟩,
    .signed true, .next, .next, .next, .next, .next]

end NdnMobile.Relay
