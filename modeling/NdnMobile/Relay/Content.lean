import NdnMobile.Relay.Model

/-!
# What the relay signs

A segment reaches the signer from the subscription, under the number at the end of its
Data's name, or from a `backward_refetch`, under the number that was asked for. Neither
path looks at the rest of the name: the subscription takes any version of the source, and
`fetch_wire` hands over whatever Data comes next. While every Data taken is the one that was
meant (`inStep`), all that is signed is one version of the source (`OneVersion`).
-/

namespace NdnMobile.Relay

open NdnMobile.Lib NdnMobile.Packet

/-- Everything signed carries the segment its name says, of one version of the source. -/
def State.OneVersion (cfg : Config) (s : State) : Prop :=
  ∃ v, ∀ w ∈ s.signed, ∃ seg,
    w = ⟨cfg.naming.appendSegment cfg.publicVersioned seg, cfg.source v seg⟩

/-- A segment read from the subscription is of the version learned first, and a reply read
by a `backward_refetch` is the Data it asked for. -/
def inStep (cfg : Config) (s : State) : Act → Bool
  | .relay (.data d) =>
    (cfg.naming.trailing d.name).isNone || s.sourceVersioned.isNone ||
      s.sourceVersioned == some d.name.dropLast
  | .refetch i .reply =>
    match s.refetches[i]?, s.inbox with
    | some (.fetching src seg), d :: _ => d.name == cfg.naming.appendSegment src seg
    | _, _ => true
  | _ => true

/-- `content` is segment `seg` of the version that was learned. -/
def State.Sourced (cfg : Config) (s : State) (seg : UInt64) (content : Bytes) : Prop :=
  ∃ v, s.sourceVersioned = some v ∧ content = cfg.source v seg

/-- What a `backward_refetch` has in hand. -/
def BackwardRefetch.Holds (cfg : Config) (s : State) : BackwardRefetch → Prop
  | .locking src _ | .fetching src _ => s.sourceVersioned = some src
  | .signing seg content => s.Sourced cfg seg content
  | _ => True

/-- **Invariant**: what is about to be signed, or was, is of the version that was learned. -/
structure Sourced (cfg : Config) (s : State) : Prop where
  relay : ∀ seg content, s.relay = .signing seg content → s.Sourced cfg seg content
  refetches : ∀ r ∈ s.refetches, r.Holds cfg s
  inbox : ∀ d ∈ s.inbox, cfg.genuine d = true
  signed : ∀ w ∈ s.signed, ∃ seg content, s.Sourced cfg seg content ∧
    w = ⟨cfg.naming.appendSegment cfg.publicVersioned seg, content⟩

variable {cfg : Config} {s t : State}

theorem genuine_eq {d : Data} {seg : UInt64} (h : cfg.genuine d = true)
    (hseg : cfg.naming.trailing d.name = some seg) : d.bytes = cfg.source d.name.dropLast seg := by
  simpa [Config.genuine, hseg] using h

theorem sourced_init : Sourced cfg .init := ⟨nofun, nofun, nofun, nofun⟩

theorem Sourced.oneVersion (h : Sourced cfg s) : s.OneVersion cfg := by
  refine ⟨s.sourceVersioned.getD [], fun w hw => ?_⟩
  obtain ⟨seg, _, ⟨v, hv, rfl⟩, rfl⟩ := h.signed w hw
  exact ⟨seg, by rw [hv]; rfl⟩

/-! ## Steps -/

/-- The version, once learned, stays. -/
theorem BackwardRefetch.Holds.mono {r : BackwardRefetch} (h : r.Holds cfg s)
    (hv : ∀ v, s.sourceVersioned = some v → t.sourceVersioned = some v) : r.Holds cfg t := by
  cases r with
  | locking src _ | fetching src _ => exact hv src h
  | signing seg content =>
    obtain ⟨v, hs, hc⟩ := h
    exact ⟨v, hv v hs, hc⟩
  | _ => trivial

theorem sourced_received {d : Data} (h : Sourced cfg s) (hg : cfg.genuine d = true)
    (hin : inStep cfg s (.relay (.data d)) = true) : Sourced cfg (s.received cfg d) := by
  unfold State.received
  split
  · exact ⟨nofun, h.refetches, h.inbox, h.signed⟩
  · rename_i seg hseg
    have hlearn : s.sourceVersioned.or (some d.name.dropLast) = some d.name.dropLast := by
      cases hv : s.sourceVersioned with
      | none => rfl
      | some v => simpa [inStep, hseg, hv] using hin
    have hmono : ∀ v, s.sourceVersioned = some v →
        s.sourceVersioned.or (some d.name.dropLast) = some v := fun v hv => by rw [hv]; rfl
    refine ⟨?_, fun r hr => (h.refetches r hr).mono hmono, h.inbox, fun w hw => ?_⟩
    · rintro _ _ ⟨⟩
      exact ⟨_, hlearn, genuine_eq hg hseg⟩
    · obtain ⟨seg', content, ⟨v, hv, hc⟩, hw⟩ := h.signed w hw
      exact ⟨seg', content, ⟨v, hmono v hv, hc⟩, hw⟩

theorem sourced_relayMove {e : RelayEvent} (h : Sourced cfg s)
    (hin : inStep cfg s (.relay e) = true) (hm : RelayMove cfg s e t) : Sourced cfg t := by
  cases hm with
  | receive _ hg => exact sourced_received h hg hin
  | @sign seg content hr =>
    refine ⟨nofun, h.refetches, h.inbox, fun w hw => ?_⟩
    rcases List.mem_cons.mp hw with rfl | hw
    · exact ⟨seg, content, h.relay seg content hr, rfl⟩
    · exact h.signed w hw
  | subscribe | compare | loadAgain =>
    exact ⟨by dsimp only; split <;> exact nofun, h.refetches, h.inbox, h.signed⟩
  | _ => exact ⟨nofun, h.refetches, h.inbox, h.signed⟩

/-- A `backward_refetch` that reads the Data it asked for has the segment of the version
that was learned. -/
theorem sourced_refetchMove {i : Nat} {e : RefetchEvent} {r r' : BackwardRefetch}
    (h : Sourced cfg s) (hin : inStep cfg s (.refetch i e) = true) (hi : s.refetches[i]? = some r)
    (hm : RefetchMove cfg s e r r' t) :
    Sourced cfg { t with refetches := t.refetches.set i r' } := by
  have hr := h.refetches r (List.mem_of_getElem? hi)
  have set {P : BackwardRefetch → Prop} (hs : ∀ x ∈ s.refetches, P x) (hr' : P r') :
      ∀ x ∈ s.refetches.set i r', P x := fun x hx => by
    rcases List.mem_or_eq_of_mem_set hx with hx | rfl
    · exact hs x hx
    · exact hr'
  cases hm with
  | lock => exact ⟨h.relay, set h.refetches hr, h.inbox, h.signed⟩
  | @reply src seg d rest hbox =>
    have hd := h.inbox d (by simp [hbox])
    have hname : d.name = cfg.naming.appendSegment src seg := by
      simpa [inStep, hi, hbox] using hin
    refine ⟨h.relay, set h.refetches ⟨src, hr, ?_⟩, fun x hx => h.inbox x (by simp [hbox, hx]),
      h.signed⟩
    rw [genuine_eq hd (by rw [hname, SegmentNaming.trailing_appendSegment]), hname,
      SegmentNaming.dropLast_appendSegment]
  | @sign seg content =>
    refine ⟨h.relay, set h.refetches trivial, h.inbox, fun w hw => ?_⟩
    rcases List.mem_cons.mp hw with rfl | hw
    · exact ⟨seg, content, hr, rfl⟩
    · exact h.signed w hw
  | timeout | signFailed | insert | respond =>
    exact ⟨h.relay, set h.refetches trivial, h.inbox, h.signed⟩

theorem sourced_serveStep {i : Nat} {ok : Bool} {hd : Handler} (h : Sourced cfg s) :
    Sourced cfg { (serveStep cfg s ok hd).2 with
      handlers := (serveStep cfg s ok hd).2.handlers.set i (serveStep cfg s ok hd).1 } := by
  cases hd with
  | arrived name =>
    simp only [serveStep]
    split
    · exact ⟨h.relay, h.refetches, h.inbox, h.signed⟩
    · split <;> exact ⟨h.relay, h.refetches, h.inbox, h.signed⟩
  | starting seg =>
    simp only [serveStep]
    split
    · exact ⟨by rintro _ _ ⟨⟩, h.refetches, h.inbox, h.signed⟩
    · exact ⟨h.relay, h.refetches, h.inbox, h.signed⟩
  | pulling seg =>
    simp only [serveStep]
    split
    · exact ⟨h.relay, h.refetches, h.inbox, h.signed⟩
    · rename_i src hsrc
      refine ⟨h.relay, fun r hr => ?_, h.inbox, h.signed⟩
      rcases List.mem_append.mp hr with hr | hr
      · exact h.refetches r hr
      · rw [List.mem_singleton.mp hr]
        exact hsrc
  | advancing seg | notifying seg | checking seg | done =>
    exact ⟨h.relay, h.refetches, h.inbox, h.signed⟩

theorem sourced_step {a : Act} (h : Sourced cfg s) (hin : inStep cfg s a = true)
    (hs : step cfg s a = some t) : Sourced cfg t := by
  cases a with
  | handler i ok =>
    obtain ⟨hd, -, rfl⟩ := step_handler hs
    exact sourced_serveStep h
  | relay e => exact sourced_relayMove h hin (runRelayStep_move hs)
  | refetch i e =>
    obtain ⟨r, r', s', hi, hm, rfl⟩ := step_refetch hs
    exact sourced_refetchMove h hin hi hm
  | answer d =>
    obtain ⟨-, hg, rfl⟩ := step_answer hs
    refine ⟨h.relay, h.refetches, fun x hx => ?_, h.signed⟩
    rcases List.mem_append.mp hx with hx | hx
    · exact h.inbox x hx
    · exact List.mem_singleton.mp hx ▸ hg
  | interest name | evict wire | cancel =>
    cases hs
    exact ⟨h.relay, h.refetches, h.inbox, h.signed⟩

/-! ## Whole runs -/

/-- **The relay signs one version of the source**, segment by segment, as long as every Data
it takes is the one that was meant. -/
theorem signed_oneVersion (cfg : Config) {tr : List (Trans State Act)} {u : State}
    (hrun : Run (stepRel (step cfg)) .init tr u)
    (hin : ∀ x ∈ tr, inStep cfg x.pre x.act = true) : ∀ x ∈ tr, x.post.OneVersion cfg := by
  obtain ⟨-, hinv⟩ := hrun.inv_mem (I := Sourced cfg) (G := fun s a => inStep cfg s a = true)
    (fun h hg hs => sourced_step h hg hs) sourced_init hin
  intro x hx
  have hpost : Sourced cfg x.post := (hinv x hx).2
  exact hpost.oneVersion

/-- Segment 0 is asked for again after it was relayed, and its answer arrives in time. -/
def refetchActs : List Act :=
  demandActs 0 0 ++ (startEvents ++ relayEvents 0).map .relay ++ demandActs 1 0 ++
    [.refetch 0 .next,
      .answer ⟨sixSegments.naming.appendSegment sixSegments.sourcePrefix 0, some (nniBytes 0)⟩,
      .refetch 0 .reply, .refetch 0 (.signed true)]

theorem signed_oneVersion_refetchActs : ∃ tr u, Run (stepRel (step sixSegments)) .init tr u ∧
    u.signed.length = 2 ∧ ∀ x ∈ tr, x.post.OneVersion sixSegments := by
  have hexec : (exec (guarded (inStep sixSegments) (step sixSegments)) .init refetchActs).map
      (fun s => s.signed.length) = some 2 := by rfl
  obtain ⟨u, hu, hend⟩ := Option.map_eq_some_iff.mp hexec
  obtain ⟨tr, hrun, -, hin⟩ := exec_guarded hu
  exact ⟨tr, u, hrun, hend, signed_oneVersion sixSegments hrun hin⟩

/-- The re-fetch of segment 0 times out; its answer arrives while segment 1 is being
re-fetched. -/
def lateActs : List Act :=
  demandActs 0 0 ++ (startEvents ++ relayEvents 0 ++ relayEvents 1).map .relay ++
    demandActs 1 0 ++ [.refetch 0 .next, .refetch 0 .timeout] ++
    demandActs 2 1 ++ [.refetch 1 .next,
      .answer ⟨sixSegments.naming.appendSegment sixSegments.sourcePrefix 0, some (nniBytes 0)⟩,
      .refetch 1 .reply, .refetch 1 (.signed true)]

/-- After it, segment 1 is signed with the content of segment 0. -/
theorem signed_lateReply : ¬ ∀ (cfg : Config) (tr : List (Trans State Act)) (u : State),
    Run (stepRel (step cfg)) .init tr u → ∀ x ∈ tr, x.post.OneVersion cfg := by
  intro h
  have hexec : (exec (step sixSegments) .init lateActs).map (fun s => s.signed.head?) =
      some (some ⟨sixSegments.naming.appendSegment sixSegments.publicVersioned 1,
        nniBytes 0⟩) := by rfl
  obtain ⟨u, hu, hend⟩ := Option.map_eq_some_iff.mp hexec
  obtain ⟨tr, hrun, hacts⟩ := exec_run hu
  obtain ⟨x, hx, rfl⟩ := hrun.last_mem (by rintro rfl; simp [lateActs, demandActs] at hacts)
  obtain ⟨v, hv⟩ := h sixSegments tr _ hrun x hx
  obtain ⟨seg, hw⟩ := hv _ (List.mem_of_mem_head? hend)
  rw [Signed.mk.injEq] at hw
  obtain rfl := SegmentNaming.appendSegment_inj _ hw.1
  exact absurd (show nniBytes 0 = nniBytes 1 from hw.2) (by decide)

end NdnMobile.Relay
