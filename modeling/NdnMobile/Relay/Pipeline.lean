import NdnMobile.Lib.Chunks
import NdnMobile.Lib.Network
import NdnMobile.Offer.ContentStream
import NdnMobile.Relay.Content

/-!
# A streamed file through the relay

`Pipeline` puts the content server of a streamed file, the seam, and the relay that is the
file's producer of record together: what the server sends or answers with is in flight, and
the seam brings it to the relay's subscription or to its re-fetch consumer, loses it or copies
it. A Data that the server sends is the segment that its name ends in (`Own`), and what the
relay signs is made of those (`Sound`, `Refetched`), so `pipeline_exact` speaks of the file
alone.
-/

namespace NdnMobile.Relay

open NdnMobile.Lib NdnMobile.Packet
open NdnMobile.Offer (ContentAct ContentState ContentStream InOrder contentStep offerChunk)

/-- A file offered by `add_offer_file_streamed` and registered by `register_object_relay`. -/
structure StreamedOffer where
  stream : ContentStream
  file : Bytes
  /-- The Data that `answer_interest` answers a name with. -/
  answer : Name → Option Data
  /-- It is under the name asked for. -/
  answer_name : ∀ {name : Name} {d : Data}, answer name = some d → d.name = name
  /-- Under a name that ends in a segment number it is that segment of the file. -/
  answer_segment : ∀ {name : Name} {seg : UInt64} {d : Data},
    stream.naming.trailing name = some seg → answer name = some d →
      seg ≤ stream.last ∧ d.bytes = chunk offerChunk file seg.toNat
  covers : file.length ≤ offerChunk * (stream.last.toNat + 1)
  internalName : Name
  publicVersioned : Name
  isMetadata : Name → Bool
  lookahead : UInt64

namespace StreamedOffer

variable (o : StreamedOffer)

def segment (seg : UInt64) : Bytes := chunk offerChunk o.file seg.toNat

/-- The relay of the file; both ends cut it into segments of `OFFER_CHUNK`. -/
def relay : Config where
  target := o.stream.target
  naming := o.stream.naming
  isMetadata := o.isMetadata
  publicVersioned := o.publicVersioned
  sourcePrefix := o.internalName
  lastSeg := o.stream.last
  lookahead := o.lookahead
  source _ seg := o.segment seg

def publicName (seg : UInt64) : Name := o.stream.naming.appendSegment o.publicVersioned seg

/-- What the node should sign for a segment. -/
def wire (seg : UInt64) : Signed := ⟨o.publicName seg, o.segment seg⟩

/-- `answer_interest` finds what the step has it find. -/
def finds (s : ContentState) : ContentAct → Bool
  | .handle i found => (o.stream.subscription i).isSome || !found || (o.answer i.name).isSome
  | .streamer (.answer ok) => !ok || (o.answer (o.stream.segName s.streamer.seg)).isSome
  | _ => true

/-- The Data that a step of the server puts on the seam. -/
def emits (s : ContentState) : ContentAct → Option Data
  | .handle i true => if (o.stream.subscription i).isSome then none else o.answer i.name
  | .streamer (.send true) => o.answer (o.stream.segName s.streamer.seg)
  | _ => none

end StreamedOffer

/-- The Data that a step of the relay takes in. -/
def Act.brings : Act → Option Data
  | .relay (.data d) | .answer d => some d
  | _ => none

structure Pipeline where
  leaf : ContentState
  net : Network Data
  relay : State
  deriving DecidableEq, Repr

namespace Pipeline

def init (o : StreamedOffer) : Pipeline := ⟨.new o.stream, .empty, .init⟩

inductive Event where
  /-- Any step of the server, Interests from anyone included. -/
  | leaf (a : ContentAct)
  /-- `run_relay` reads the `i`-th Data in flight. -/
  | data (i : Nat)
  /-- The `i`-th Data in flight reaches the re-fetch consumer. -/
  | answer (i : Nat)
  | lose (i : Nat)
  | copy (i : Nat)
  /-- Any step of the relay that takes no Data in. -/
  | relay (a : Act)
  deriving DecidableEq, Repr

/-- The `i`-th Data in flight is taken in. -/
def bring (o : StreamedOffer) (p : Pipeline) (i : Nat) (a : Data → Act) : Option Pipeline := do
  let d ← p.net.flight[i]?
  let net ← p.net.step (.deliver i)
  let relay ← Relay.step o.relay p.relay (a d)
  return { p with net := net, relay := relay }

def step (o : StreamedOffer) (p : Pipeline) : Event → Option Pipeline
  | .leaf a =>
    if o.finds p.leaf a then
      (contentStep o.stream p.leaf a).map fun s =>
        { p with leaf := s, net := p.net.publish (o.emits p.leaf a) }
    else none
  | .data i => p.bring o i fun d => .relay (.data d)
  | .answer i => p.bring o i .answer
  | .lose i => (p.net.step (.lose i)).map fun net => { p with net := net }
  | .copy i => (p.net.step (.copy i)).map fun net => { p with net := net }
  | .relay a =>
    if a.brings.isSome then none
    else (Relay.step o.relay p.relay a).map fun s => { p with relay := s }

inductive Move (o : StreamedOffer) (p : Pipeline) : Event → Pipeline → Prop where
  | leaf {a : ContentAct} {s : ContentState} : o.finds p.leaf a = true →
    contentStep o.stream p.leaf a = some s →
    Move o p (.leaf a) { p with leaf := s, net := p.net.publish (o.emits p.leaf a) }
  | data {i : Nat} {d : Data} {net : Network Data} {s : State} : p.net.flight[i]? = some d →
    p.net.step (.deliver i) = some net → Relay.step o.relay p.relay (.relay (.data d)) = some s →
    Move o p (.data i) { p with net := net, relay := s }
  | answer {i : Nat} {d : Data} {net : Network Data} {s : State} : p.net.flight[i]? = some d →
    p.net.step (.deliver i) = some net → Relay.step o.relay p.relay (.answer d) = some s →
    Move o p (.answer i) { p with net := net, relay := s }
  | lose {i : Nat} {net : Network Data} : p.net.step (.lose i) = some net →
    Move o p (.lose i) { p with net := net }
  | copy {i : Nat} {net : Network Data} : p.net.step (.copy i) = some net →
    Move o p (.copy i) { p with net := net }
  | relay {a : Act} {s : State} : a.brings = none → Relay.step o.relay p.relay a = some s →
    Move o p (.relay a) { p with relay := s }

variable {o : StreamedOffer} {p q u : Pipeline} {e : Event} {past tr : List (Trans Pipeline Event)}

theorem bring_some {i : Nat} {a : Data → Act} (h : p.bring o i a = some q) :
    ∃ d net s, p.net.flight[i]? = some d ∧ p.net.step (.deliver i) = some net ∧
      Relay.step o.relay p.relay (a d) = some s ∧ q = { p with net := net, relay := s } := by
  simp only [bring, Option.bind_eq_bind, Option.bind_eq_some_iff, Option.pure_def,
    Option.some.injEq] at h
  obtain ⟨d, hd, net, hnet, s, hs, rfl⟩ := h
  exact ⟨d, net, s, hd, hnet, hs, rfl⟩

theorem step_move (h : step o p e = some q) : Move o p e q := by
  cases e with
  | leaf a =>
    simp only [step] at h
    split at h
    · obtain ⟨s, hs, rfl⟩ := Option.map_eq_some_iff.mp h
      exact .leaf ‹_› hs
    · cases h
  | data i => obtain ⟨d, net, s, hd, hnet, hs, rfl⟩ := bring_some h; exact .data hd hnet hs
  | answer i => obtain ⟨d, net, s, hd, hnet, hs, rfl⟩ := bring_some h; exact .answer hd hnet hs
  | lose i => obtain ⟨net, hnet, rfl⟩ := Option.map_eq_some_iff.mp h; exact .lose hnet
  | copy i => obtain ⟨net, hnet, rfl⟩ := Option.map_eq_some_iff.mp h; exact .copy hnet
  | relay a =>
    simp only [step] at h
    split at h
    · cases h
    · rename_i hb
      obtain ⟨s, hs, rfl⟩ := Option.map_eq_some_iff.mp h
      exact .relay (by simpa using hb) hs

end Pipeline

/-! ## What the server sends -/

namespace StreamedOffer

variable {o : StreamedOffer} {d : Data} {name : Name} {seg : UInt64}

/-- A Data whose name ends in a segment number is that segment of the file. -/
def Own (o : StreamedOffer) (d : Data) : Prop :=
  ∀ seg, o.stream.naming.trailing d.name = some seg →
    seg ≤ o.stream.last ∧ d.bytes = o.segment seg

theorem own_answer (h : o.answer name = some d) : o.Own d := by
  intro seg hseg
  rw [o.answer_name h] at hseg
  exact o.answer_segment hseg h

theorem own_emits {s : ContentState} {a : ContentAct} (h : o.emits s a = some d) : o.Own d := by
  unfold emits at h
  split at h
  · split at h
    · cases h
    · exact own_answer h
  · exact own_answer h
  · cases h

/-- What the relay makes of a Data it reads from its subscription. -/
def wireOf (o : StreamedOffer) (d : Data) : Option Signed :=
  (o.stream.naming.trailing d.name).map fun seg => ⟨o.publicName seg, d.bytes⟩

/-- What the node may sign: a segment of the file under its public name. -/
def Makes (o : StreamedOffer) (w : Signed) : Prop := ∃ seg ≤ o.stream.last, w = o.wire seg

theorem wireOf_own {w : Signed} (h : o.Own d) (hw : o.wireOf d = some w) : o.Makes w := by
  obtain ⟨seg, hseg, rfl⟩ := Option.map_eq_some_iff.mp hw
  obtain ⟨hle, hbytes⟩ := h seg hseg
  exact ⟨seg, hle, by rw [wire, hbytes]⟩

theorem wireOf_segName (h : o.answer (o.stream.segName seg) = some d) :
    o.wireOf d = some (o.wire seg) := by
  have hseg : o.stream.naming.trailing d.name = some seg := by
    rw [o.answer_name h, ContentStream.segName, SegmentNaming.trailing_appendSegment]
  rw [wireOf, hseg, Option.map_some, wire, (own_answer h seg hseg).2]

end StreamedOffer

/-! ## What the relay does with it -/

/-- The Data that `run_relay` is about to sign. -/
def RunRelay.held (cfg : Config) : RunRelay → Option Signed
  | .signing seg content => some ⟨cfg.naming.appendSegment cfg.publicVersioned seg, content⟩
  | _ => none

/-- The Data that a `backward_refetch` is about to sign. -/
def BackwardRefetch.held (cfg : Config) : BackwardRefetch → Option Signed
  | .signing seg content => some ⟨cfg.naming.appendSegment cfg.publicVersioned seg, content⟩
  | _ => none

section

variable {cfg : Config} {s t : State} {a : Act}

/-- What a step that takes no Data in does to what `run_relay` is about to sign. -/
structure Quiet (cfg : Config) (s : State) (a : Act) (t : State) : Prop where
  signed : ∀ ok, a = .relay (.signed ok) → t.relay.held cfg = none
  other : (∀ ok, a ≠ .relay (.signed ok)) → t.relay.held cfg = s.relay.held cfg

theorem held_of_cancelled (h : runRelayStep cfg s .cancelled = some t) :
    s.relay.held cfg = none := by
  cases hr : s.relay with
  | signing =>
    unfold runRelayStep at h
    rw [hr] at h
    cases h
  | _ => rfl

theorem quiet_relay {e : RelayEvent} (h : runRelayStep cfg s e = some t) (hd : ∀ d, e ≠ .data d) :
    Quiet cfg s (.relay e) t := by
  cases runRelayStep_move h with
  | receive => exact absurd rfl (hd _)
  | sign | signFailed => exact ⟨fun _ _ => rfl, fun hno => absurd rfl (hno _)⟩
  | cancel => exact ⟨fun _ _ => rfl, fun _ => (held_of_cancelled h).symm⟩
  | subscribe hr | compare hr | loadAgain hr =>
    refine ⟨fun _ ha => Act.noConfusion ha RelayEvent.noConfusion, fun _ => ?_⟩
    dsimp only
    rw [hr]
    split <;> rfl
  | halt hr | retry hr | loadProduced hr | compareOverflow hr | takePermit hr | enlist hr
  | wakeUp hr | resubscribe hr | insert hr | publish hr | store hr | storeOverflow hr =>
    refine ⟨fun _ ha => Act.noConfusion ha RelayEvent.noConfusion, fun _ => ?_⟩
    rw [hr]
    rfl

theorem quiet_serve (i : Nat) (ok : Bool) (hd : Handler) :
    Quiet cfg s (.handler i ok) (serveStep cfg s ok hd).2 := by
  have quiet {t : State} (hr : t.relay.held cfg = s.relay.held cfg) :
      Quiet cfg s (.handler i ok) t := ⟨fun _ ha => Act.noConfusion ha, fun _ => hr⟩
  cases hd with
  | arrived name =>
    simp only [serveStep]
    split
    · exact quiet rfl
    · split <;> exact quiet rfl
  | starting seg =>
    simp only [serveStep]
    split
    · rename_i hr
      exact quiet (by rw [hr]; rfl)
    · exact quiet rfl
  | pulling seg =>
    simp only [serveStep]
    split <;> exact quiet rfl
  | advancing seg | notifying seg | checking seg | done => exact quiet rfl

theorem step_quiet (h : Relay.step cfg s a = some t) (hb : a.brings = none) :
    Quiet cfg s a t := by
  cases a with
  | handler i ok =>
    obtain ⟨hd, -, rfl⟩ := step_handler h
    have hq : Quiet cfg s (.handler i ok) (serveStep cfg s ok hd).2 := quiet_serve i ok hd
    exact ⟨hq.signed, hq.other⟩
  | relay e =>
    refine quiet_relay h fun d he => ?_
    subst he
    cases hb
  | refetch i e =>
    obtain ⟨r, r', s', -, hm, rfl⟩ := step_refetch h
    cases hm <;> exact ⟨fun _ ha => Act.noConfusion ha, fun _ => rfl⟩
  | answer d => cases hb
  | interest name | evict wire | cancel =>
    cases h
    exact ⟨fun _ ha => Act.noConfusion ha, fun _ => rfl⟩

theorem step_data {d : Data} (h : Relay.step cfg s (.relay (.data d)) = some t) :
    s.relay = .receiving ∧ t = s.received cfg d := by
  cases runRelayStep_move h with
  | receive hr _ => exact ⟨hr, rfl⟩

end

namespace Pipeline

variable {o : StreamedOffer} {p q u : Pipeline} {e : Event} {past tr : List (Trans Pipeline Event)}

/-! ## The forward path -/

theorem held_received (s : State) (d : Data) :
    (s.received o.relay d).relay.held o.relay = o.wireOf d := by
  have hw : o.wireOf d =
      (o.relay.naming.trailing d.name).map fun seg => ⟨o.publicName seg, d.bytes⟩ := rfl
  unfold State.received
  cases hseg : o.relay.naming.trailing d.name with
  | none => rw [hw, hseg]; rfl
  | some seg => rw [hw, hseg]; rfl

/-- **Invariant**: what is in flight is the server's own, and what `run_relay` is about to sign
is a segment of the file under its public name. -/
structure Sound (o : StreamedOffer) (p : Pipeline) : Prop where
  flight : ∀ d ∈ p.net.flight, o.Own d
  held : ∀ w, p.relay.relay.held o.relay = some w → o.Makes w

theorem Sound.init : Sound o (.init o) := ⟨nofun, nofun⟩

theorem Sound.taken {i : Nat} {d : Data} (h : Sound o p) (hi : p.net.flight[i]? = some d) :
    o.Own d := h.flight d (List.mem_of_getElem? hi)

/-- The seam brings nothing that the server did not send. -/
theorem Sound.seam {a : Network.Act Data} {net : Network Data} (h : Sound o p)
    (hs : p.net.step a = some net) (ha : ∀ d, a ≠ .send d) : ∀ d ∈ net.flight, o.Own d :=
  fun d hd => h.flight d (Network.flight_subset hs ha hd)

theorem Sound.step (h : Sound o p) (hm : Move o p e q) : Sound o q := by
  cases hm with
  | leaf _ _ =>
    refine ⟨fun d hd => ?_, h.held⟩
    rcases Network.mem_publish hd with hd | hd
    · exact h.flight d hd
    · exact o.own_emits hd
  | @data i d net s hi hnet hs =>
    obtain ⟨-, rfl⟩ := step_data hs
    refine ⟨h.seam hnet nofun, fun w hw => ?_⟩
    rw [held_received] at hw
    exact StreamedOffer.wireOf_own (h.taken hi) hw
  | answer _ hnet hs =>
    obtain ⟨-, -, rfl⟩ := step_answer hs
    exact ⟨h.seam hnet nofun, h.held⟩
  | lose hnet => exact ⟨h.seam hnet nofun, h.held⟩
  | copy hnet => exact ⟨h.seam hnet nofun, h.held⟩
  | @relay a s hb hs =>
    have hq := step_quiet hs hb
    refine ⟨h.flight, fun w hw => ?_⟩
    by_cases ha : ∃ ok, a = .relay (.signed ok)
    · obtain ⟨ok, ha⟩ := ha
      cases (hq.signed ok ha).symm.trans hw
    · exact h.held w ((hq.other fun ok he => ha ⟨ok, he⟩).symm.trans hw)

/-! ## Re-fetches -/

/-- A reply read by a `backward_refetch` is the Data it asked for. -/
def meant (o : StreamedOffer) (p : Pipeline) : Event → Bool
  | .relay a => inStep o.relay p.relay a
  | _ => true

/-- **Invariant**: what the re-fetch consumer has not read is the server's own, and what a
`backward_refetch` is about to sign, and all that was signed, are segments of the file. -/
structure Refetched (o : StreamedOffer) (s : State) : Prop where
  inbox : ∀ d ∈ s.inbox, o.Own d
  held : ∀ r ∈ s.refetches, ∀ w ∈ r.held o.relay, o.Makes w
  signed : ∀ w ∈ s.signed, o.Makes w

theorem Refetched.init : Refetched o .init := ⟨nofun, nofun, nofun⟩

/-- A `backward_refetch` with nothing to sign. -/
theorem makes_none : ∀ w ∈ (none : Option Signed), o.Makes w := by
  rintro _ ⟨⟩

variable {s t : State}

/-- What `run_relay` signs it held. -/
theorem Refetched.relay {e : RelayEvent} (h : Refetched o s)
    (hheld : ∀ w, s.relay.held o.relay = some w → o.Makes w)
    (hm : RelayMove o.relay s e t) : Refetched o t := by
  cases hm with
  | receive =>
    unfold State.received
    split <;> exact ⟨h.inbox, h.held, h.signed⟩
  | @sign seg content hr =>
    refine ⟨h.inbox, h.held, List.forall_mem_cons.mpr ⟨hheld _ ?_, h.signed⟩⟩
    rw [hr]
    rfl
  | _ => exact ⟨h.inbox, h.held, h.signed⟩

/-- A handler may start a `backward_refetch`, which has nothing to sign yet. -/
theorem Refetched.serve {i : Nat} {ok : Bool} {hd : Handler} (h : Refetched o s) :
    Refetched o { (serveStep o.relay s ok hd).2 with
      handlers := (serveStep o.relay s ok hd).2.handlers.set i (serveStep o.relay s ok hd).1 } := by
  cases hd with
  | arrived name =>
    simp only [serveStep]
    split
    · exact ⟨h.inbox, h.held, h.signed⟩
    · split <;> exact ⟨h.inbox, h.held, h.signed⟩
  | starting seg =>
    simp only [serveStep]
    split <;> exact ⟨h.inbox, h.held, h.signed⟩
  | pulling seg =>
    simp only [serveStep]
    split
    · exact ⟨h.inbox, h.held, h.signed⟩
    · exact ⟨h.inbox, List.forall_mem_append.mpr ⟨h.held,
        List.forall_mem_singleton.mpr makes_none⟩, h.signed⟩
  | advancing seg | notifying seg | checking seg | done => exact ⟨h.inbox, h.held, h.signed⟩

/-- A `backward_refetch` that reads the Data it asked for has that segment of the file. -/
theorem Refetched.refetch {i : Nat} {e : RefetchEvent} {r r' : BackwardRefetch}
    (h : Refetched o s) (hin : inStep o.relay s (.refetch i e) = true)
    (hi : s.refetches[i]? = some r) (hm : RefetchMove o.relay s e r r' t) :
    Refetched o { t with refetches := t.refetches.set i r' } := by
  have hr := h.held r (List.mem_of_getElem? hi)
  have set (hr' : ∀ w ∈ r'.held o.relay, o.Makes w) :
      ∀ x ∈ s.refetches.set i r', ∀ w ∈ x.held o.relay, o.Makes w := fun x hx => by
    rcases List.mem_or_eq_of_mem_set hx with hx | rfl
    · exact h.held x hx
    · exact hr'
  cases hm with
  | @reply src seg d rest hbox =>
    have hown : o.Own d := h.inbox d (by simp [hbox])
    have hname : d.name = o.relay.naming.appendSegment src seg := by
      simpa [inStep, hi, hbox] using hin
    have hseg : o.relay.naming.trailing d.name = some seg := by
      rw [hname, SegmentNaming.trailing_appendSegment]
    obtain ⟨hle, hbytes⟩ := hown seg hseg
    refine ⟨fun x hx => h.inbox x (by simp [hbox, hx]), set ?_, h.signed⟩
    rintro _ ⟨⟩
    exact ⟨seg, hle, by rw [hbytes]; rfl⟩
  | sign => exact ⟨h.inbox, set makes_none, List.forall_mem_cons.mpr ⟨hr _ rfl, h.signed⟩⟩
  | lock | timeout | signFailed | insert | respond =>
    exact ⟨h.inbox, set makes_none, h.signed⟩

theorem Refetched.step {a : Act} (h : Refetched o s)
    (hheld : ∀ w, s.relay.held o.relay = some w → o.Makes w)
    (hin : ∀ i e, a = .refetch i e → inStep o.relay s a = true)
    (hown : ∀ d, a = .answer d → o.Own d) (hs : Relay.step o.relay s a = some t) :
    Refetched o t := by
  cases a with
  | handler i ok =>
    obtain ⟨hd, -, rfl⟩ := step_handler hs
    exact h.serve
  | relay e => exact h.relay hheld (runRelayStep_move hs)
  | refetch i e =>
    obtain ⟨r, r', s', hi, hm, rfl⟩ := step_refetch hs
    exact h.refetch (hin i e rfl) hi hm
  | answer d =>
    obtain ⟨-, -, rfl⟩ := step_answer hs
    exact ⟨List.forall_mem_append.mpr ⟨h.inbox, List.forall_mem_singleton.mpr (hown d rfl)⟩,
      h.held, h.signed⟩
  | interest name | evict wire | cancel =>
    cases hs
    exact ⟨h.inbox, h.held, h.signed⟩

theorem refetched_move (hp : Sound o p) (h : Refetched o p.relay) (he : meant o p e = true)
    (hm : Move o p e q) : Refetched o q.relay := by
  cases hm with
  | data _ _ hs =>
    exact h.step hp.held (fun _ _ ha => Act.noConfusion ha) (fun _ ha => Act.noConfusion ha) hs
  | answer hi _ hs =>
    refine h.step hp.held (fun _ _ ha => Act.noConfusion ha) (fun d' hd' => ?_) hs
    exact Act.answer.inj hd' ▸ hp.taken hi
  | relay hb hs =>
    refine h.step hp.held (fun _ _ _ => he) (fun d hd => ?_) hs
    subst hd
    cases hb
  | leaf | lose | copy => exact h

/-! ## The seam in order -/

/-- The Data that a step puts on the seam. -/
def emitting (o : StreamedOffer) (x : Trans Pipeline Event) : Option Data :=
  match x.act with
  | .leaf a => o.emits x.pre.leaf a
  | _ => none

/-- The Data that `run_relay` reads in a step. -/
def taking (x : Trans Pipeline Event) : Option Data :=
  match x.act with
  | .data i => x.pre.net.flight[i]?
  | _ => none

/-- The Data that `run_relay` signs in a step. -/
def forwarding (o : StreamedOffer) (x : Trans Pipeline Event) : Option Signed :=
  match x.act with
  | .relay (.relay (.signed true)) => x.pre.relay.relay.held o.relay
  | _ => none

/-- What `run_relay` has signed, in order. -/
def forwarded (o : StreamedOffer) (tr : List (Trans Pipeline Event)) : List Signed :=
  tr.filterMap (forwarding o)

def taken (o : StreamedOffer) (tr : List (Trans Pipeline Event)) : List Signed :=
  (tr.filterMap taking).filterMap o.wireOf

def netAct (o : StreamedOffer) (x : Trans Pipeline Event) : Option (Network.Act Data) :=
  match x.act with
  | .leaf a => (o.emits x.pre.leaf a).map .send
  | .data i | .answer i => some (.deliver i)
  | .lose i => some (.lose i)
  | .copy i => some (.copy i)
  | .relay _ => none

def netRun (o : StreamedOffer) (tr : List (Trans Pipeline Event)) :
    List (Trans (Network Data) (Network.Act Data)) :=
  tr.filterMap fun x => (netAct o x).map fun a => ⟨x.pre.net, a, x.post.net⟩

theorem net_step (h : step o p e = some q) :
    (∃ a, netAct o ⟨p, e, q⟩ = some a ∧ stepRel Network.step p.net a q.net) ∨
      netAct o ⟨p, e, q⟩ = none ∧ q.net = p.net := by
  cases step_move h with
  | @leaf a s _ _ =>
    cases he : o.emits p.leaf a with
    | none => exact .inr ⟨by simp only [netAct, he]; rfl, rfl⟩
    | some d => exact .inl ⟨.send d, by simp only [netAct, he]; rfl, rfl⟩
  | data _ hnet _ => exact .inl ⟨_, rfl, hnet⟩
  | answer _ hnet _ => exact .inl ⟨_, rfl, hnet⟩
  | lose hnet => exact .inl ⟨_, rfl, hnet⟩
  | copy hnet => exact .inl ⟨_, rfl, hnet⟩
  | relay => exact .inr ⟨rfl, rfl⟩

theorem sent_net (tr : List (Trans Pipeline Event)) :
    Network.sent (netRun o tr) = tr.filterMap (emitting o) := by
  rw [Network.sent, netRun, List.filterMap_filterMap]
  congr 1
  funext ⟨p, e, q⟩
  cases e with
  | leaf a =>
    simp only [netAct, emitting]
    cases o.emits p.leaf a <;> rfl
  | _ => rfl

/-- The Data that the seam delivers in a step. -/
def delivering (x : Trans Pipeline Event) : Option Data :=
  match x.act with
  | .data i | .answer i => x.pre.net.flight[i]?
  | _ => none

theorem delivered_net (tr : List (Trans Pipeline Event)) :
    Network.delivered (netRun o tr) = tr.filterMap delivering := by
  rw [Network.delivered, netRun, List.filterMap_filterMap]
  congr 1
  funext ⟨p, e, q⟩
  cases e with
  | leaf a =>
    simp only [netAct, delivering]
    cases o.emits p.leaf a <;> rfl
  | _ => rfl

theorem taking_sublist (tr : List (Trans Pipeline Event)) :
    (tr.filterMap taking).Sublist (tr.filterMap delivering) := by
  induction tr with
  | nil => exact .slnil
  | cons x tr ih =>
    obtain ⟨p, e, q⟩ := x
    have happ {f : Trans Pipeline Event → Option Data} (y : Trans Pipeline Event) :
        (y :: tr).filterMap f = (f y).toList ++ tr.filterMap f := by
      rw [List.filterMap_cons]
      cases f y <;> rfl
    rw [happ, happ]
    refine List.Sublist.append ?_ ih
    cases e with
    | data i => exact List.Sublist.refl _
    | _ => exact List.nil_sublist _

/-! ## In order -/

/-- No plain Interest is answered. -/
def Event.Streams : Event → Prop
  | .leaf (.handle _ found) => found = false
  | _ => True

/-- The seam makes no copies and delivers in order. -/
def Event.Fifo : Event → Prop
  | .copy _ => False
  | .data i | .answer i => i = 0
  | _ => True

/-- Every Data on the seam goes to the subscription, and the node can sign it. -/
def Event.Whole : Event → Prop
  | .lose _ | .answer _ | .relay (.relay (.signed false)) => False
  | _ => True

/-- What the server has put on the seam, while it answers no plain Interests. -/
structure Streamed (o : StreamedOffer) (past : List (Trans Pipeline Event)) (p : Pipeline) :
    Prop where
  inOrder : InOrder o.stream p.leaf
  ready : p.leaf.streamer.phase = .sending →
    (o.answer (o.stream.segName p.leaf.streamer.seg)).isSome
  found : ∀ name ∈ p.leaf.sent, (o.answer name).isSome
  sent : (∀ x ∈ past, x.act.Streams) →
    past.filterMap (emitting o) = p.leaf.sent.filterMap o.answer

theorem Streamed.init : Streamed o [] (.init o) := ⟨.new, nofun, nofun, fun _ => rfl⟩

/-- A step that puts nothing on the seam and sends no segment. -/
theorem Streamed.frame (h : Streamed o past p) (hin : InOrder o.stream q.leaf)
    (hready : q.leaf.streamer.phase = .sending →
      (o.answer (o.stream.segName q.leaf.streamer.seg)).isSome)
    (hsent : q.leaf.sent = p.leaf.sent)
    (hquiet : e.Streams → emitting o ⟨p, e, q⟩ = none) :
    Streamed o (past ++ [⟨p, e, q⟩]) q := by
  refine ⟨hin, hready, hsent ▸ h.found, fun hall => ?_⟩
  obtain ⟨hpast, hlast⟩ := List.forall_mem_append.mp hall
  rw [filterMap_snoc, hquiet (hlast _ (List.mem_singleton.mpr rfl)), hsent, h.sent hpast]
  exact List.append_nil _

theorem Streamed.leaf (h : Streamed o past p) {a : ContentAct} {s : ContentState}
    (hf : o.finds p.leaf a = true) (hs : contentStep o.stream p.leaf a = some s) :
    Streamed o (past ++ [⟨p, .leaf a,
      { p with leaf := s, net := p.net.publish (o.emits p.leaf a) }⟩])
      { p with leaf := s, net := p.net.publish (o.emits p.leaf a) } := by
  have hin : InOrder o.stream s := h.inOrder.step hs
  cases Offer.content_move hs with
  | receive => exact h.frame hin h.ready rfl fun _ => rfl
  | @grant i n found _ hn =>
    obtain ⟨-, hseg, hphase⟩ := Offer.grant_frame o.stream.target p.leaf.streamer n
    refine h.frame hin (fun hp => ?_) rfl fun hfound => ?_
    · rw [hphase] at hp
      rw [hseg]
      exact h.ready hp
    · obtain rfl : found = false := hfound
      rfl
  | @reply i found _ _ =>
    refine h.frame hin h.ready rfl fun hfound => ?_
    obtain rfl : found = false := hfound
    rfl
  | @streamer e st hst =>
    cases Offer.streamer_move h.inOrder.within hst with
    | acquire => exact h.frame hin nofun (List.append_nil _) fun _ => rfl
    | @answer ok _ =>
      refine h.frame hin (fun hp => ?_) (List.append_nil _) fun _ => rfl
      cases ok with
      | false => cases hp
      | true => exact hf
    | failed => exact h.frame hin nofun (List.append_nil _) fun _ => rfl
    | sent hp _ =>
      have hready := h.ready hp
      obtain ⟨d, hd⟩ := Option.isSome_iff_exists.mp hready
      refine ⟨hin, fun hnext => ?_, fun name hname => ?_, fun hall => ?_⟩
      · dsimp only at hnext
        split at hnext <;> cases hnext
      · rcases List.mem_append.mp hname with hname | hname
        · exact h.found name hname
        · rw [List.mem_singleton.mp hname]
          exact hready
      · have hpast := (List.forall_mem_append.mp hall).1
        have hone : p.leaf.sends o.stream (.send true) =
            [o.stream.segName p.leaf.streamer.seg] := rfl
        have hemit : (p.leaf.sends o.stream (.send true)).filterMap o.answer = [d] := by
          rw [hone, List.filterMap_cons_some hd, List.filterMap_nil]
        dsimp only
        rw [filterMap_snoc, h.sent hpast, List.filterMap_append, hemit]
        exact congrArg _ (congrArg Option.toList hd)

theorem Streamed.step (h : Streamed o past p) (hm : Move o p e q) :
    Streamed o (past ++ [⟨p, e, q⟩]) q := by
  cases hm with
  | leaf hf hs => exact h.leaf hf hs
  | data | answer | lose | copy | relay => exact h.frame h.inOrder h.ready rfl fun _ => rfl

/-- The segments that the server has streamed, as the node should sign them. -/
def streamed (o : StreamedOffer) (p : Pipeline) : List Signed :=
  (List.range p.leaf.sent.length).map fun i => o.wire (UInt64.ofNat i)

theorem Streamed.wires (h : Streamed o tr u) (hall : ∀ x ∈ tr, x.act.Streams) :
    (tr.filterMap (emitting o)).filterMap o.wireOf = streamed o u := by
  have hwire : ∀ i ∈ List.range u.leaf.sent.length,
      (o.answer (o.stream.segName (UInt64.ofNat i))).bind o.wireOf =
        some (o.wire (UInt64.ofNat i)) := by
    intro i hi
    have hmem : o.stream.segName (UInt64.ofNat i) ∈ u.leaf.sent := by
      rw [h.inOrder.sent]
      exact List.mem_map_of_mem hi
    obtain ⟨d, hd⟩ := Option.isSome_iff_exists.mp (h.found _ hmem)
    rw [hd, Option.bind_some, StreamedOffer.wireOf_segName hd]
  rw [h.sent hall, List.filterMap_filterMap]
  conv_lhs => rw [h.inOrder.sent]
  rw [List.filterMap_map, streamed, ← List.filterMap_eq_map]
  exact List.filterMap_congr hwire

/-- What was read from the subscription was signed, or is about to be, or could not be. -/
structure Handled (o : StreamedOffer) (past : List (Trans Pipeline Event)) (p : Pipeline) :
    Prop where
  order : (forwarded o past ++ (p.relay.relay.held o.relay).toList).Sublist (taken o past)
  whole : (∀ x ∈ past, x.act.Whole) →
    taken o past = forwarded o past ++ (p.relay.relay.held o.relay).toList

theorem taken_snoc (x : Trans Pipeline Event) :
    taken o (past ++ [x]) = taken o past ++ ((taking x).bind o.wireOf).toList := by
  rw [taken, filterMap_snoc, List.filterMap_append]
  cases taking x with
  | none => rfl
  | some d =>
    rw [Option.toList_some, Option.bind_some, List.filterMap_cons, List.filterMap_nil]
    cases o.wireOf d <;> rfl

theorem forwarded_snoc (x : Trans Pipeline Event) :
    forwarded o (past ++ [x]) = forwarded o past ++ (forwarding o x).toList :=
  filterMap_snoc _ past x

theorem Handled.frame (h : Handled o past p) (htake : taking ⟨p, e, q⟩ = none)
    (hforward : forwarding o ⟨p, e, q⟩ = none)
    (hheld : q.relay.relay.held o.relay = p.relay.relay.held o.relay) :
    Handled o (past ++ [⟨p, e, q⟩]) q := by
  refine ⟨?_, fun hall => ?_⟩
  · rw [taken_snoc, forwarded_snoc, htake, hforward, hheld]
    simpa using h.order
  · rw [taken_snoc, forwarded_snoc, htake, hforward, hheld]
    simpa using h.whole (List.forall_mem_append.mp hall).1

/-- Whether it could be signed or not, `run_relay` has done with what it held. -/
theorem Handled.signed (h : Handled o past p) {ok : Bool} (he : e = .relay (.relay (.signed ok)))
    (hheld : q.relay.relay.held o.relay = none) : Handled o (past ++ [⟨p, e, q⟩]) q := by
  subst he
  have htaken : taken o (past ++ [⟨p, .relay (.relay (.signed ok)), q⟩]) = taken o past := by
    rw [taken_snoc]
    exact List.append_nil _
  cases ok with
  | true =>
    have hforward : forwarded o (past ++ [⟨p, .relay (.relay (.signed true)), q⟩]) =
        forwarded o past ++ (p.relay.relay.held o.relay).toList := forwarded_snoc _
    refine ⟨?_, fun hall => ?_⟩
    · rw [htaken, hforward, hheld, Option.toList_none, List.append_nil]
      exact h.order
    · rw [htaken, hforward, hheld, Option.toList_none, List.append_nil]
      exact h.whole (List.forall_mem_append.mp hall).1
  | false =>
    have hforward : forwarded o (past ++ [⟨p, .relay (.relay (.signed false)), q⟩]) =
        forwarded o past := by
      rw [forwarded_snoc]
      exact List.append_nil _
    refine ⟨?_, fun hall => ?_⟩
    · rw [htaken, hforward, hheld, Option.toList_none, List.append_nil]
      exact (List.sublist_append_left ..).trans h.order
    · exact absurd ((List.forall_mem_append.mp hall).2 _ (List.mem_singleton.mpr rfl)) id

theorem Handled.step (h : Handled o past p) (hm : Move o p e q) :
    Handled o (past ++ [⟨p, e, q⟩]) q := by
  cases hm with
  | @data i d net s hi hnet hs =>
    obtain ⟨hr, rfl⟩ := step_data hs
    have hheld : p.relay.relay.held o.relay = none := by rw [hr]; rfl
    have hread : taking ⟨p, .data i, { p with net := net, relay := p.relay.received o.relay d }⟩ =
        some d := hi
    have hforward : forwarded o (past ++
        [⟨p, .data i, { p with net := net, relay := p.relay.received o.relay d }⟩]) =
        forwarded o past := by
      rw [forwarded_snoc]
      exact List.append_nil _
    refine ⟨?_, fun hall => ?_⟩
    · have horder := h.order
      rw [hheld, Option.toList_none, List.append_nil] at horder
      rw [taken_snoc, hforward, hread, Option.bind_some, held_received]
      exact horder.append (List.Sublist.refl _)
    · have hwhole := h.whole (List.forall_mem_append.mp hall).1
      rw [hheld, Option.toList_none, List.append_nil] at hwhole
      rw [taken_snoc, hforward, hread, Option.bind_some, held_received, hwhole]
  | answer _ _ hs =>
    obtain ⟨-, -, rfl⟩ := step_answer hs
    exact h.frame rfl rfl rfl
  | @relay a s hb hs =>
    have hq := step_quiet hs hb
    by_cases ha : ∃ ok, a = .relay (.signed ok)
    · obtain ⟨ok, ha⟩ := ha
      exact h.signed (congrArg Event.relay ha) (hq.signed ok ha)
    · refine h.frame rfl ?_ (hq.other fun ok he => ha ⟨ok, he⟩)
      unfold forwarding
      split
      · rename_i he
        exact absurd ⟨true, Event.relay.inj he⟩ ha
      · rfl
  | leaf | lose | copy => exact h.frame rfl rfl rfl

/-! ## Runs -/

theorem net_forall {P : Event → Prop} {Q : Network.Act Data → Prop}
    (hQ : ∀ x a, P x.act → netAct o x = some a → Q a) (hP : ∀ x ∈ tr, P x.act) :
    ∀ y ∈ netRun o tr, Q y.act := by
  intro y hy
  obtain ⟨x, hx, hxy⟩ := List.mem_filterMap.mp hy
  obtain ⟨a, ha, rfl⟩ := Option.map_eq_some_iff.mp hxy
  exact hQ x a (hP x hx) ha

theorem net_fifo {x : Trans Pipeline Event} {a : Network.Act Data} (hx : x.act.Fifo)
    (ha : netAct o x = some a) : a.Fifo := by
  obtain ⟨p, e, q⟩ := x
  cases e with
  | leaf b =>
    obtain ⟨d, -, rfl⟩ := Option.map_eq_some_iff.mp ha
    trivial
  | data | answer => cases ha; exact hx
  | lose => cases ha; trivial
  | copy => exact absurd hx id
  | relay => cases ha

theorem net_noLoss {x : Trans Pipeline Event} {a : Network.Act Data} (hx : x.act.Whole)
    (ha : netAct o x = some a) : a.NoLoss := by
  obtain ⟨p, e, q⟩ := x
  cases e with
  | leaf b =>
    obtain ⟨d, -, rfl⟩ := Option.map_eq_some_iff.mp ha
    trivial
  | data | copy => cases ha; trivial
  | answer | lose => exact absurd hx id
  | relay => cases ha

/-- A consumer that has the segments by their names has the file. -/
theorem assembled {got signed : List Signed} (hsigned : ∀ w ∈ signed, o.Makes w)
    (hgot : got ⊆ signed) (hnames : got.map (·.name) =
      (List.range (o.stream.last.toNat + 1)).map fun i => o.publicName (UInt64.ofNat i)) :
    (got.map (·.content)).flatten = o.file := by
  let content (name : Name) : Bytes := ((o.stream.naming.trailing name).map o.segment).getD []
  have hpublic : ∀ seg, content (o.publicName seg) = o.segment seg := fun seg => by
    simp only [content, StreamedOffer.publicName, SegmentNaming.trailing_appendSegment,
      Option.map_some, Option.getD_some]
  have hcontent : ∀ w ∈ got, w.content = content w.name := fun w hw => by
    obtain ⟨seg, -, rfl⟩ := hsigned w (hgot hw)
    exact (hpublic seg).symm
  have hsegments : got.map (·.content) =
      (List.range (o.stream.last.toNat + 1)).map (chunk offerChunk o.file) := by
    calc got.map (·.content)
      _ = (got.map (·.name)).map content := by
        rw [List.map_map]
        exact List.map_congr_left hcontent
      _ = (List.range (o.stream.last.toNat + 1)).map (chunk offerChunk o.file) := by
        rw [hnames, List.map_map]
        refine List.map_congr_left fun i hi => ?_
        have hlt : i < 2 ^ 64 := by
          have hlast := o.stream.last.toNat_lt
          rw [List.mem_range] at hi
          omega
        rw [Function.comp_apply, hpublic, StreamedOffer.segment, UInt64.toNat_ofNat',
          Nat.mod_eq_of_lt hlt]
  rw [hsegments, flatten_map_chunk, List.take_of_length_le o.covers]

/-- The segments on their way, in order: at `run_relay`, on the seam. -/
def inTransit (o : StreamedOffer) (p : Pipeline) : List Signed :=
  (p.relay.relay.held o.relay).toList ++ p.net.flight.filterMap o.wireOf

/-- **A streamed file, from the leaf to what the node signs**, over every run: whatever the
seam does, `run_relay` signs segments of the file only, each under its own public name. If each
reply a `backward_refetch` reads is the Data it asked for, so is everything that is signed, and
who has the segments by their names has the file. If the seam keeps the order and no plain
Interest is answered, the segments are signed in the order of the file, each at most once; and
if all goes to the subscription and the node can sign it, every segment streamed is signed or
on its way. -/
theorem pipeline_exact (o : StreamedOffer) {tr : List (Trans Pipeline Event)} {u : Pipeline}
    (h : Run (stepRel (step o)) (.init o) tr u) :
    (∀ w ∈ forwarded o tr, ∃ seg ≤ o.stream.last, w = o.wire seg) ∧
      ((∀ x ∈ tr, meant o x.pre x.act = true) →
        (∀ w ∈ u.relay.signed, ∃ seg ≤ o.stream.last, w = o.wire seg) ∧
        ∀ got ⊆ u.relay.signed, got.map (·.name) = (List.range (o.stream.last.toNat + 1)).map
          (fun i => o.publicName (UInt64.ofNat i)) → (got.map (·.content)).flatten = o.file) ∧
      ((∀ x ∈ tr, x.act.Fifo) → (∀ x ∈ tr, x.act.Streams) →
        (forwarded o tr).Sublist (streamed o u)) ∧
      ((∀ x ∈ tr, x.act.Fifo) → (∀ x ∈ tr, x.act.Streams) → (∀ x ∈ tr, x.act.Whole) →
        streamed o u = forwarded o tr ++ u.inTransit o) := by
  obtain ⟨-, hsound⟩ := h.inv (I := Sound o) (fun hi hs => hi.step (step_move hs)) .init
  obtain ⟨tr', hnet, htr⟩ := h.component net (netAct o) net_step
  obtain rfl : tr' = netRun o tr := htr
  have hstreamed : Streamed o tr u :=
    h.inv_hist (I := Streamed o) (fun hi hs => hi.step (step_move hs)) .init
  have hhandled : Handled o tr u :=
    h.inv_hist (I := Handled o) (fun hi hs => hi.step (step_move hs))
      ⟨List.Sublist.refl _, fun _ => rfl⟩
  refine ⟨fun w hw => ?_, fun hmeant => ?_, fun hfifo hplain => ?_, fun hfifo hplain hwhole => ?_⟩
  · obtain ⟨⟨p, e, q⟩, hx, hxw⟩ := List.mem_filterMap.mp hw
    unfold forwarding at hxw
    split at hxw
    · exact (hsound _ hx).1.held w hxw
    · cases hxw
  · obtain ⟨⟨-, hrefetched⟩, -⟩ := h.inv_mem (I := fun p => Sound o p ∧ Refetched o p.relay)
      (G := fun p e => meant o p e = true)
      (fun hi he hs => ⟨hi.1.step (step_move hs), refetched_move hi.1 hi.2 he (step_move hs)⟩)
      ⟨.init, .init⟩ hmeant
    exact ⟨hrefetched.signed, fun got hgot hnames => assembled hrefetched.signed hgot hnames⟩
  · have hseam := Network.delivered_sublist hnet (net_forall (fun _ _ => net_fifo) hfifo)
    rw [sent_net, delivered_net] at hseam
    have htaken := (taking_sublist tr).trans ((List.sublist_append_left ..).trans hseam)
    rw [← hstreamed.wires hplain]
    exact (List.sublist_append_left ..).trans (hhandled.order.trans (htaken.filterMap _))
  · have hseam := Network.delivered_whole hnet (net_forall (fun _ _ => net_fifo) hfifo)
      (net_forall (fun _ _ => net_noLoss) hwhole)
    rw [sent_net, delivered_net] at hseam
    have htaken : tr.filterMap taking = tr.filterMap delivering :=
      List.filterMap_congr fun ⟨p, e, q⟩ hx => by
        cases e with
        | answer i => exact absurd (hwhole _ hx) id
        | _ => rfl
    rw [← hstreamed.wires hplain, ← hseam, List.filterMap_append, ← htaken, ← taken,
      hhandled.whole hwhole, inTransit, List.append_assoc]

/-! ## A clip of three segments -/

/-- What `answer_interest` of an object that holds the file finds. -/
def answerFrom (stream : ContentStream) (file : Bytes) (name : Name) : Option Data := do
  let seg ← stream.naming.trailing name
  if name.dropLast = stream.versionedName ∧ seg ≤ stream.last then
    some ⟨name, some (chunk offerChunk file seg.toNat)⟩
  else none

theorem answerFrom_some {stream : ContentStream} {file : Bytes} {name : Name} {d : Data}
    (h : answerFrom stream file name = some d) : ∃ seg, stream.naming.trailing name = some seg ∧
      seg ≤ stream.last ∧ d = ⟨name, some (chunk offerChunk file seg.toNat)⟩ := by
  simp only [answerFrom, Option.bind_eq_bind, Option.bind_eq_some_iff] at h
  obtain ⟨seg, hseg, h⟩ := h
  split at h <;> cases h
  rename_i hc
  exact ⟨seg, hseg, hc.2, rfl⟩

def clipStream : ContentStream :=
  { Offer.clipStream with versionedName := [⟨8, [99]⟩, ⟨54, [1]⟩], size := 16385 }

def clipFile : Bytes := List.replicate 8192 1 ++ (List.replicate 8192 2 ++ [3])

def clip : StreamedOffer where
  stream := clipStream
  file := clipFile
  answer := answerFrom clipStream clipFile
  answer_name h := by
    obtain ⟨_, -, -, rfl⟩ := answerFrom_some h
    rfl
  answer_segment hseg h := by
    obtain ⟨_, hseg', hle, rfl⟩ := answerFrom_some h
    obtain rfl := Option.some.inj (hseg'.symm.trans hseg)
    exact ⟨hle, rfl⟩
  covers := by
    simp only [clipFile, List.length_append, List.length_replicate, List.length_singleton]
    decide
  internalName := [⟨8, [99]⟩]
  publicVersioned := [⟨8, [112]⟩]
  isMetadata _ := false
  lookahead := 1

/-- An Interest for a segment, handled to its end. -/
def clipDemand (i : Nat) (seg : UInt64) : List Event :=
  .relay (.interest (clip.publicName seg)) :: List.replicate 6 (.relay (.handler i false))

/-- The last segment is asked for, which starts the relay, and it subscribes. -/
def clipStart : List Event :=
  let sub : Offer.StreamInterest := ⟨clip.internalName, some [64]⟩
  clipDemand 0 2 ++ [.relay (.relay (.subscribed true)), .relay (.relay .next),
    .relay (.relay .next), .leaf (.receive sub), .leaf (.handle sub false)]

/-- The server sends the next segment. -/
def clipSend : List Event :=
  [.leaf (.streamer .acquire), .leaf (.streamer (.answer true)), .leaf (.streamer (.send true))]

/-- `run_relay` takes what it has read through to `produced` and compares again. -/
def clipSign : List Event :=
  .relay (.relay (.signed true)) :: List.replicate 5 (.relay (.relay .next))

/-- The clip is sent; one segment is signed, the next is about to be. -/
def clipMidway : List Event :=
  clipStart ++ clipSend ++ [.data 0] ++ clipSign ++ clipSend ++ clipSend ++ [.data 0]

/-- All of it is signed, and the last segment fetched again by a `backward_refetch`. -/
def clipAgain : List Event :=
  let again : Offer.StreamInterest := ⟨clipStream.segName 2, none⟩
  clipSign ++ [.data 0] ++ clipSign ++ clipDemand 1 2 ++ [.relay (.refetch 0 .next),
    .leaf (.receive again), .leaf (.handle again true), .answer 0, .relay (.refetch 0 .reply),
    .relay (.refetch 0 (.signed true))]

theorem exec_clip : ((exec (guarded (meant clip) (step clip)) (.init clip) clipMidway).bind fun u =>
    (exec (guarded (meant clip) (step clip)) u clipAgain).map fun v =>
      (u.leaf.sent.length, (u.inTransit clip).length, v.relay.signed.map (·.name))) =
    some (3, 2, [2, 2, 1, 0].map clip.publicName) := by
  decide +kernel

/-- Midway one segment is signed and two are on their way, in order; at the end what was signed
before the re-fetch is the clip. -/
theorem pipeline_exact_clip : ∃ tr u tr' v, Run (stepRel (step clip)) (.init clip) tr u ∧
    Run (stepRel (step clip)) u tr' v ∧
    (forwarded clip tr).Sublist [clip.wire 0, clip.wire 1, clip.wire 2] ∧
    forwarded clip tr = [clip.wire 0] ∧ u.inTransit clip = [clip.wire 1, clip.wire 2] ∧
    v.relay.signed.map (·.name) = [2, 2, 1, 0].map clip.publicName ∧
    (v.relay.signed.tail.reverse.map (·.content)).flatten = clip.file := by
  obtain ⟨u, hu, hv⟩ := Option.bind_eq_some_iff.mp exec_clip
  obtain ⟨v, hv, hends⟩ := Option.map_eq_some_iff.mp hv
  obtain ⟨hsent, hends⟩ := Prod.mk.inj hends
  obtain ⟨htransit, hsigned⟩ := Prod.mk.inj hends
  obtain ⟨tr, hrun, hacts⟩ := exec_run hu
  obtain ⟨tr', hrun', -⟩ := exec_run hv
  obtain ⟨-, hmeant⟩ := (hrun.append hrun').of_guarded
  obtain ⟨hrun, -⟩ := hrun.of_guarded
  obtain ⟨hrun', -⟩ := hrun'.of_guarded
  have hall {P : Event → Prop} (hP : ∀ a ∈ clipMidway, P a) : ∀ x ∈ tr, P x.act :=
    fun x hx => hP x.act (hacts ▸ List.mem_map_of_mem hx)
  have hfifo := hall (P := Event.Fifo) (by
    simp [clipMidway, clipStart, clipDemand, clipSend, clipSign, Event.Fifo])
  have hplain := hall (P := Event.Streams) (by
    simp [clipMidway, clipStart, clipDemand, clipSend, clipSign, Event.Streams])
  have hwhole := hall (P := Event.Whole) (by
    simp [clipMidway, clipStart, clipDemand, clipSend, clipSign, Event.Whole])
  have hstreamed : streamed clip u = [clip.wire 0, clip.wire 1, clip.wire 2] := by
    rw [streamed, hsent]
    rfl
  obtain ⟨-, -, horder, hcount⟩ := pipeline_exact clip hrun
  have hsplit : [clip.wire 0] ++ [clip.wire 1, clip.wire 2] =
      forwarded clip tr ++ u.inTransit clip := hstreamed.symm.trans (hcount hfifo hplain hwhole)
  obtain ⟨hforward, htwo⟩ := List.append_inj' hsplit htransit.symm
  refine ⟨tr, u, tr', v, hrun, hrun', hstreamed ▸ horder hfifo hplain, hforward.symm, htwo.symm,
    hsigned, ?_⟩
  refine ((pipeline_exact clip (hrun.append hrun')).2.1 hmeant).2 _ (fun w hw => ?_) ?_
  · exact List.mem_of_mem_tail (List.mem_reverse.mp hw)
  · rw [List.map_reverse, List.map_tail, hsigned]
    rfl

end Pipeline

end NdnMobile.Relay
