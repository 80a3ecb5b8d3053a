import NdnMobile.Relay.Stream

/-!
# Which misses are re-fetched

The handler of an Interest that missed the content store compares its segment with the
relay's high-water mark: below it, the segment is pulled from the source once more; at or
above it, `run_relay` is expected to publish it. Once the source's stream has ended nothing
more is published, so a segment is reachable exactly when it, or one after it, was relayed.
-/

namespace NdnMobile.Relay

open NdnMobile.Lib NdnMobile.Packet

/-- The handler of the `i`-th Interest spawns a `backward_refetch` of segment `n`. -/
def Spawns (i : Nat) (n : UInt64) (x : Trans State Act) : Prop :=
  ∃ ok src, x.act = .handler i ok ∧ x.pre.sourceVersioned = some src ∧
    x.post.refetches = x.pre.refetches ++ [.locking src n]

/-- `run_relay` reads no Data: the source's stream has ended. -/
def Silent (tr : List (Trans State Act)) : Prop := ∀ x ∈ tr, ∀ d, x.act ≠ .relay (.data d)

/-- The source streams its segments in order and once; some may be lost on the way. -/
def InOrder (cfg : Config) (tr : List (Trans State Act)) : Prop :=
  (readSegs cfg tr).Pairwise (· < ·) ∧ ∀ n ∈ readSegs cfg tr, n ≤ cfg.lastSeg

/-- The handler of an Interest for segment `n`, which it has not decided about or has
decided to pull. -/
inductive Seeking (cfg : Config) (s : State) (n : UInt64) : Handler → Prop where
  | arrived : Seeking cfg s n (.arrived (cfg.segmentName n))
  | advancing : Seeking cfg s n (.advancing n)
  | notifying : Seeking cfg s n (.notifying n)
  | starting : Seeking cfg s n (.starting n)
  | checking : Seeking cfg s n (.checking n)
  | pulling : n < s.produced → Seeking cfg s n (.pulling n)

variable {cfg : Config} {s t u : State} {tr : List (Trans State Act)} {i : Nat} {n : UInt64}

theorem Seeking.congr {h : Handler} (hs : Seeking cfg s n h) (hp : t.produced = s.produced) :
    Seeking cfg t n h := by
  cases hs with
  | pulling hlt => exact .pulling (hp ▸ hlt)
  | _ => constructor

/-! ## After the stream has ended -/

/-- With no Data in hand and none to read, the high-water mark and what was learned stay. -/
theorem quiet_step {a : Act} (hi : s.relay.Idle) (ha : ∀ d, a ≠ .relay (.data d))
    (hs : step cfg s a = some t) :
    t.relay.Idle ∧ t.produced = s.produced ∧ t.sourceVersioned = s.sourceVersioned := by
  cases a with
  | handler j signed =>
    obtain ⟨h, -, rfl⟩ := step_handler hs
    obtain ⟨hp, -, hv, -, hidle⟩ := serveStep_stream cfg s signed h
    exact ⟨hidle.mpr hi, hp, hv⟩
  | relay e =>
    cases runRelayStep_move hs with
    | @receive d => exact absurd rfl (ha d)
    | subscribe | compare | loadAgain => exact ⟨by dsimp only; split <;> rfl, rfl, rfl⟩
    | halt | retry | loadProduced | compareOverflow | takePermit | enlist | wakeUp | resubscribe
    | cancel => exact ⟨rfl, rfl, rfl⟩
    | sign hpc | signFailed hpc | insert hpc | publish hpc | store hpc | storeOverflow hpc =>
      rw [hpc] at hi
      cases hi
  | refetch j e =>
    obtain ⟨r, r', s', -, hm, rfl⟩ := step_refetch hs
    cases hm <;> exact ⟨hi, rfl, rfl⟩
  | answer d =>
    obtain ⟨-, -, rfl⟩ := step_answer hs
    exact ⟨hi, rfl, rfl⟩
  | interest name | evict wire | cancel =>
    cases hs
    exact ⟨hi, rfl, rfl⟩

/-- Only its own step moves a handler. -/
theorem step_getElem {a : Act} {h : Handler} (ha : ∀ ok, a ≠ .handler i ok)
    (hs : step cfg s a = some t) (hi : s.handlers[i]? = some h) : t.handlers[i]? = some h := by
  cases a with
  | interest name =>
    cases hs
    have hlt := (List.getElem?_eq_some_iff.mp hi).1
    show (s.handlers ++ [_])[i]? = _
    rw [List.getElem?_append_left hlt, hi]
  | handler j signed =>
    obtain ⟨hd, -, rfl⟩ := step_handler hs
    have hne : j ≠ i := by
      rintro rfl
      exact ha _ rfl
    rw [serveStep_handlers, List.getElem?_set_ne hne, hi]
  | relay e =>
    cases runRelayStep_move hs with
    | receive => unfold State.received; split <;> exact hi
    | _ => exact hi
  | refetch j e =>
    obtain ⟨r, r', s', -, hm, rfl⟩ := step_refetch hs
    cases hm <;> exact hi
  | answer d =>
    obtain ⟨-, -, rfl⟩ := step_answer hs
    exact hi
  | evict wire | cancel =>
    cases hs
    exact hi

theorem not_spawns {x : Trans State Act} (h : x.post.refetches = x.pre.refetches) :
    ¬ Spawns i n x := by
  rintro ⟨ok, src, -, -, hr⟩
  rw [h] at hr
  simpa using congrArg List.length hr

theorem not_spawns_of_act {x : Trans State Act} (h : ∀ ok, x.act ≠ .handler i ok) :
    ¬ Spawns i n x := fun ⟨ok, _, ha, _⟩ => h ok ha

/-- A handler's own step, seen at its place in the list. -/
theorem step_handler_at {ok : Bool} {h : Handler} (hi : s.handlers[i]? = some h)
    (hs : step cfg s (.handler i ok) = some t) :
    t = { (serveStep cfg s ok h).2 with
      handlers := s.handlers.set i (serveStep cfg s ok h).1 } ∧
    t.handlers[i]? = some (serveStep cfg s ok h).1 := by
  obtain ⟨h', hi', rfl⟩ := step_handler hs
  obtain rfl : h = h' := Option.some.inj (hi.symm.trans hi')
  rw [serveStep_handlers]
  exact ⟨rfl, List.getElem?_set_self (List.getElem?_eq_some_iff.mp hi).1⟩

/-- A handler that is done spawns nothing. -/
theorem not_spawns_of_done (hrun : Run (stepRel (step cfg)) s tr u)
    (hi : s.handlers[i]? = some .done) : ¬ ∃ x ∈ tr, Spawns i n x := by
  induction hrun with
  | nil => rintro ⟨x, hx, -⟩; cases hx
  | @cons s t u a tr hs hr ih =>
    rw [List.exists_mem_cons_iff, not_or]
    by_cases ha : ∃ ok, a = .handler i ok
    · obtain ⟨ok, rfl⟩ := ha
      obtain ⟨ht, hi'⟩ := step_handler_at hi hs
      exact ⟨not_spawns (by rw [ht]; rfl), ih hi'⟩
    · have ha' : ∀ ok, a ≠ .handler i ok := fun ok he => ha ⟨ok, he⟩
      exact ⟨not_spawns_of_act ha', ih (step_getElem ha' hs hi)⟩

/-- **The decision.** After the stream has ended, the handler of an Interest for segment `n`
that runs to its end spawns a re-fetch exactly when `n` is below the high-water mark. -/
theorem spawns_lt_produced (hm : cfg.MetadataOnly) {h : Handler}
    (hrun : Run (stepRel (step cfg)) s tr u) (hidle : s.relay.Idle)
    (hv : 0 < s.produced → s.sourceVersioned.isSome = true) (hi : s.handlers[i]? = some h)
    (hh : Seeking cfg s n h) (hsilent : Silent tr) (hdone : u.handlers[i]? = some .done) :
    (∃ x ∈ tr, Spawns i n x) ↔ n < s.produced := by
  induction hrun generalizing h with
  | nil s =>
    obtain rfl : h = .done := Option.some.inj (hi.symm.trans hdone)
    cases hh
  | @cons s t u a tr hs hr ih =>
    obtain ⟨hidle', hp, hsv⟩ := quiet_step hidle (hsilent _ List.mem_cons_self) hs
    have hsilent' : Silent tr := fun x hx => hsilent x (List.mem_cons_of_mem _ hx)
    have hv' : 0 < t.produced → t.sourceVersioned.isSome = true := by
      rw [hp, hsv]
      exact hv
    rw [List.exists_mem_cons_iff]
    by_cases ha : ∃ ok, a = .handler i ok
    · obtain ⟨ok, rfl⟩ := ha
      obtain ⟨ht, hi'⟩ := step_handler_at hi hs
      -- A step that spawns nothing and leaves the handler seeking leaves the rest to the run.
      have goes {h' : Handler} (hnext : (serveStep cfg s ok h).1 = h') (hh' : Seeking cfg s n h')
          (hsame : (serveStep cfg s ok h).2.refetches = s.refetches) :
          (Spawns i n ⟨s, .handler i ok, t⟩ ∨ ∃ x ∈ tr, Spawns i n x) ↔ n < s.produced := by
        rw [hnext] at hi'
        have hnot : ¬ Spawns i n ⟨s, .handler i ok, t⟩ := not_spawns (by rw [ht]; exact hsame)
        rw [ih hidle' hv' hi' (hh'.congr hp) hsilent' hdone, hp, or_iff_right hnot]
      cases hh with
      | arrived =>
        have hstep : serveStep cfg s ok (.arrived (cfg.segmentName n)) = (.advancing n, s) := by
          simp [serveStep, hm n]
        exact goes (congrArg Prod.fst hstep) .advancing (by rw [hstep])
      | advancing => exact goes rfl .notifying rfl
      | notifying => exact goes rfl .starting rfl
      | starting => exact goes rfl .checking (by unfold serveStep; dsimp only; split <;> rfl)
      | checking =>
        by_cases hlt : n < s.produced
        · exact goes (if_pos hlt) (.pulling hlt) rfl
        · have hnext : (serveStep cfg s ok (.checking n)).1 = .done := if_neg hlt
          rw [hnext] at hi'
          have hnot : ¬ Spawns i n ⟨s, .handler i ok, t⟩ := not_spawns (by rw [ht]; rfl)
          rw [or_iff_right hnot]
          exact iff_of_false (not_spawns_of_done hr hi') hlt
      | pulling hlt =>
        have hpos : 0 < s.produced := by
          rw [UInt64.lt_iff_toNat_lt] at hlt ⊢
          have hz : (0 : UInt64).toNat = 0 := rfl
          omega
        obtain ⟨src, hsrc⟩ := Option.isSome_iff_exists.mp (hv hpos)
        refine iff_of_true (.inl ⟨ok, src, rfl, hsrc, ?_⟩) hlt
        rw [ht]
        simp only [serveStep, hsrc]
    · have ha' : ∀ ok, a ≠ .handler i ok := fun ok he => ha ⟨ok, he⟩
      have hrest := ih hidle' hv' (step_getElem ha' hs hi) (hh.congr hp) hsilent' hdone
      rw [hrest, hp, or_iff_right (not_spawns_of_act ha')]

/-! ## Reachable segments -/

/-- **What is reachable after the stream.** An Interest for segment `n` that misses the content
store after the stream has ended is re-fetched exactly when a segment at or after `n` was
relayed; and the source's version is known whenever anything counts as produced. -/
theorem spawns_iff (cfg : Config) (hm : cfg.MetadataOnly) {tr tr' : List (Trans State Act)}
    {s t u : State} (hrun : Run (stepRel (step cfg)) .init tr s) (hidle : s.relay.Idle) (n : UInt64)
    (hafter : Run (stepRel (step cfg)) s (⟨s, .interest (cfg.segmentName n), t⟩ :: tr') u)
    (hsilent : Silent tr') (hdone : u.handlers[s.handlers.length]? = some .done) :
    ((∃ x ∈ tr', Spawns s.handlers.length n x) ↔
      ∃ m ∈ s.relayed, n ≤ m ∧ m.toNat + 1 < 2 ^ 64) ∧
    ∀ x ∈ tr, 0 < x.post.produced → x.post.sourceVersioned.isSome = true := by
  obtain ⟨⟨hrec, hlearn⟩, hinv⟩ := streamed_run hrun
  refine ⟨?_, fun x hx => (hinv x hx).2.1.learned (hinv x hx).2.2⟩
  cases hafter with
  | cons hs hr =>
    cases hs
    have hi : (s.handlers ++ [.arrived (cfg.segmentName n)])[s.handlers.length]? =
        some (.arrived (cfg.segmentName n)) := by simp
    rw [spawns_lt_produced hm hr hidle (hrec.learned hlearn) hi .arrived hsilent hdone]
    exact hrec.idle hidle n

/-- Segment 0 of six is demanded and relayed. -/
def firstActs : List Act := demandActs 0 0 ++ (startEvents ++ relayEvents 0).map .relay

/-- An Interest for segment `n` after `firstActs`, handled to its end. -/
theorem exec_firstActs {n : UInt64} (hend : ((exec (step sixSegments) .init firstActs).bind fun s =>
      (exec (step sixSegments) s (demandActs 1 n)).map (·.handlers)) = some [.done, .done]) :
    ∃ tr s t tr' u, Run (stepRel (step sixSegments)) .init tr s ∧
      Run (stepRel (step sixSegments)) s
        (⟨s, .interest (sixSegments.segmentName n), t⟩ :: tr') u ∧
      readSegs sixSegments tr = [0] ∧ s.relay.Idle ∧ s.produced = 1 ∧ s.relayed = [0] ∧
      s.cs.map (·.name) = [sixSegments.segmentName 0] ∧ Silent tr' ∧
      u.handlers[s.handlers.length]? = some .done := by
  have hexec : (exec (step sixSegments) .init firstActs).map
      (fun s => (s.relay, s.produced, s.relayed, s.cs.map (·.name), s.handlers)) =
        some (.receiving, 1, [0], [sixSegments.segmentName 0], [.done]) := by rfl
  obtain ⟨s, hs, hat⟩ := Option.map_eq_some_iff.mp hexec
  simp only [Prod.mk.injEq] at hat
  obtain ⟨hrel, hp, hrelayed, hcs, hhandlers⟩ := hat
  rw [hs, Option.bind_some] at hend
  obtain ⟨u, hu, hdone⟩ := Option.map_eq_some_iff.mp hend
  obtain ⟨tr, hrun, hacts⟩ := exec_run hs
  obtain ⟨tr', hrun', hacts'⟩ := exec_run hu
  cases hrun' with
  | nil => cases hacts'
  | @cons _ t _ a tr' hstep hrest =>
    obtain ⟨rfl, htail⟩ := List.cons.inj hacts'
    refine ⟨tr, s, t, tr', u, hrun, .cons hstep hrest, ?_, by rw [hrel]; rfl, hp, hrelayed, hcs,
      fun x hx d he => ?_, by rw [hhandlers, hdone]; rfl⟩
    · rw [readSegs_acts, hacts]
      rfl
    · have hmem : x.act ∈ List.replicate 6 (Act.handler 1 false) :=
        htail ▸ List.mem_map_of_mem hx
      rw [he] at hmem
      cases List.eq_of_mem_replicate hmem

/-- An Interest for segment 0 after it was relayed is re-fetched. -/
theorem spawns_iff_firstActs : ∃ (tr tr' : List (Trans State Act)) (s t u : State),
    Run (stepRel (step sixSegments)) .init tr s ∧
    Run (stepRel (step sixSegments)) s
      (⟨s, .interest (sixSegments.segmentName 0), t⟩ :: tr') u ∧
    ∃ x ∈ tr', Spawns s.handlers.length 0 x := by
  obtain ⟨tr, s, t, tr', u, hrun, hafter, -, hidle, -, hrelayed, -, hsilent, hdone⟩ :=
    exec_firstActs (n := 0) (by rfl)
  obtain ⟨hiff, -⟩ :=
    spawns_iff sixSegments (fun _ => rfl) hrun hidle 0 hafter hsilent hdone
  refine ⟨tr, tr', s, t, u, hrun, hafter, hiff.mpr ⟨0, ?_, by decide, by decide⟩⟩
  rw [hrelayed]
  exact List.mem_singleton_self _

/-- Segments 1 to 5 are lost on the way: an Interest for segment 5 that misses the content
store is not re-fetched, and nothing will publish it. -/
theorem spawns_fails : ¬ ∀ (cfg : Config) (tr tr' : List (Trans State Act)) (s t u : State)
    (n : UInt64), cfg.MetadataOnly → Run (stepRel (step cfg)) .init tr s → InOrder cfg tr →
      s.relay.Idle → n ≤ cfg.lastSeg → (∀ wire ∈ s.cs, wire.name ≠ cfg.segmentName n) →
      Run (stepRel (step cfg)) s (⟨s, .interest (cfg.segmentName n), t⟩ :: tr') u → Silent tr' →
      u.handlers[s.handlers.length]? = some .done → ∃ x ∈ tr', Spawns s.handlers.length n x := by
  intro h
  obtain ⟨tr, s, t, tr', u, hrun, hafter, hread, hidle, hp, -, hcs, hsilent, hdone⟩ :=
    exec_firstActs (n := 5) (by rfl)
  have horder : InOrder sixSegments tr := by
    unfold InOrder
    rw [hread]
    exact ⟨List.pairwise_singleton _ _, fun n hn => by rw [List.mem_singleton.mp hn]; decide⟩
  have hmiss : ∀ wire ∈ s.cs, wire.name ≠ sixSegments.segmentName 5 := by
    intro wire hw he
    have hmem : wire.name ∈ s.cs.map (·.name) := List.mem_map_of_mem hw
    rw [hcs, List.mem_singleton, he] at hmem
    exact absurd hmem (by decide)
  have hspawn := h sixSegments tr tr' s t u 5 (fun _ => rfl) hrun horder hidle (by decide) hmiss
    hafter hsilent hdone
  have hknown : 0 < s.produced → s.sourceVersioned.isSome = true := fun _ =>
    have hinv := (streamed_run hrun).1
    hinv.1.learned hinv.2 ‹_›
  cases hafter with
  | cons hs hr =>
    cases hs
    have hlt := (spawns_lt_produced (fun _ => rfl) hr hidle hknown (by simp) .arrived hsilent
      hdone).mp hspawn
    rw [hp] at hlt
    exact absurd hlt (by decide)

end NdnMobile.Relay
