import NdnMobile.Relay.Model

/-!
# Pacing

`run_relay` waits on `demand.wake` after it read `produced` and then `front`; a handler
advances `front` and then notifies. While the relay is between its comparison and its wake-up
(`Paced`), either it is still ahead of the demand by more than its lead, or a notification
is on its way, so no wake-up is lost. The comparison adds in `u64`: it is the
comparison of the natural numbers only while `front + lookahead` stays below `2 ^ 64`.
-/

namespace NdnMobile.Relay

open NdnMobile.Lib NdnMobile.Packet

/-- Some handler is about to notify. -/
def State.Notifying (s : State) : Prop := ∃ seg, Handler.notifying seg ∈ s.handlers

/-- `run_relay` waits, with no permit stored and no handler about to notify. -/
def State.Stuck (s : State) : Prop := s.relay = .waiting ∧ s.wake.Stuck s.Notifying

/-- More than the lookahead past the demand front, over the natural numbers. -/
def State.Ahead (cfg : Config) (s : State) : Prop :=
  s.front.toNat + cfg.lead.toNat < s.produced.toNat

/-- `n + lookahead` does not wrap: it fits, or the build checks it. -/
def Config.NoWrap (cfg : Config) (n : UInt64) : Prop :=
  cfg.target.overflowChecks = true ∨ n.toNat + cfg.lead.toNat < 2 ^ 64

/-- The Interest names no segment so high that `front + lookahead` wraps. -/
def Act.Bounded (cfg : Config) : Act → Prop
  | .interest name => ∀ seg, cfg.naming.trailing name = some seg → cfg.NoWrap seg
  | _ => True

/-! ## No lost wake-up -/

/-- What `run_relay` relies on where it is. -/
def RunRelay.Holds (cfg : Config) (s : State) : RunRelay → Prop
  | .loadFront p => p = s.produced
  | .loadAgain => s.wake.Covered s.Notifying (s.Ahead cfg)
  | .awaiting | .waiting =>
    s.wake.Covered s.Notifying (s.Ahead cfg) ∧ s.produced ≤ cfg.lastSeg
  | _ => True

/-- **Invariant** of the pacing loop. -/
structure Paced (cfg : Config) (s : State) : Prop where
  waiter : s.relay ≠ .waiting → s.wake.waiter = .none
  holds : s.relay.Holds cfg s

variable {cfg : Config} {s t : State}

theorem paced_init : Paced cfg .init := ⟨fun _ => rfl, trivial⟩

theorem RunRelay.Holds.mono {pc : RunRelay} (h : pc.Holds cfg s) (hp : t.produced = s.produced)
    (hc : s.wake.Covered s.Notifying (s.Ahead cfg) → t.wake.Covered t.Notifying (t.Ahead cfg)) :
    pc.Holds cfg t := by
  cases pc with
  | loadFront p => exact h.trans hp.symm
  | loadAgain => exact hc h
  | awaiting | waiting => exact ⟨hc h.1, hp ▸ h.2⟩
  | _ => trivial

/-- The relay and what it shares are as before, and no notifier went away. -/
theorem Paced.frame (h : Paced cfg s) (hf : t.front = s.front) (hw : t.wake = s.wake)
    (hp : t.produced = s.produced) (hr : t.relay = s.relay) (hn : s.Notifying → t.Notifying) :
    Paced cfg t := by
  refine ⟨fun hne => hw ▸ h.waiter (hr ▸ hne), hr ▸ h.holds.mono hp fun hc => ?_⟩
  rw [hw]
  rcases hc with hc | hc | hc
  · exact .inl (by unfold State.Ahead at hc ⊢; rwa [hf, hp])
  · exact .inr (.inl hc)
  · exact .inr (.inr (hn hc))

theorem paced_relayMove {e : RelayEvent} (h : Paced cfg s) (hb : cfg.NoWrap s.front)
    (hm : RelayMove cfg s e t) : Paced cfg t := by
  have idle {pc : RunRelay} (hr : s.relay = pc) (hne : pc ≠ .waiting) : s.wake.waiter = .none :=
    h.waiter (hr ▸ hne)
  have hh := h.holds
  cases hm with
  | loadProduced hr => exact ⟨fun _ => idle hr nofun, rfl⟩
  | compare hr hadd =>
    rw [hr] at hh
    refine ⟨fun _ => idle hr nofun, ?_⟩
    split
    · rename_i hlt
      refine .inl ?_
      have hsum := cfg.target.addU64_exact hb hadd
      have hp : _ = s.produced := hh
      rw [hp, UInt64.lt_iff_toNat_lt, hsum] at hlt
      exact hlt
    · trivial
  | loadAgain hr =>
    rw [hr] at hh
    refine ⟨fun _ => idle hr nofun, ?_⟩
    split
    · exact ⟨hh, ‹_›⟩
    · trivial
  | takePermit hr hp => exact ⟨fun _ => (Notify.poll_waiter hp).trans (idle hr nofun), trivial⟩
  | enlist hr hp =>
    rw [hr] at hh
    refine ⟨fun hne => absurd rfl hne, hh.1.poll ?_ hp, hh.2⟩
    rw [idle hr nofun]
    nofun
  | wakeUp hr hw => exact ⟨fun _ => rfl, trivial⟩
  | cancel => exact ⟨fun _ => rfl, trivial⟩
  | receive hr =>
    unfold State.received
    split <;> exact ⟨fun _ => idle hr nofun, trivial⟩
  | subscribe hr => exact ⟨fun _ => idle hr nofun, by split <;> trivial⟩
  | halt hr | retry hr | compareOverflow hr | resubscribe hr | sign hr | signFailed hr
  | insert hr | publish hr | store hr | storeOverflow hr =>
    exact ⟨fun _ => idle hr nofun, trivial⟩

theorem mem_set_of_ne {α : Type} {l : List α} {i : Nat} {a b x : α} (hi : l[i]? = some a)
    (hx : x ∈ l) (hne : x ≠ a) : x ∈ l.set i b := by
  obtain ⟨j, hj⟩ := List.mem_iff_getElem?.mp hx
  refine List.mem_iff_getElem?.mpr ⟨j, ?_⟩
  rw [List.getElem?_set_ne, hj]
  rintro rfl
  exact hne (Option.some.inj (hj.symm.trans hi))

theorem paced_serveStep {i : Nat} {signed : Bool} {h : Handler} (hp : Paced cfg s)
    (hi : s.handlers[i]? = some h) :
    Paced cfg { (serveStep cfg s signed h).2 with
      handlers := (serveStep cfg s signed h).2.handlers.set i (serveStep cfg s signed h).1 } := by
  -- A handler that is not the notifying one leaves the notifying one in place.
  have stays {b : Handler} (hne : ∀ seg, h ≠ .notifying seg) :
      s.Notifying → ∃ seg, Handler.notifying seg ∈ s.handlers.set i b := fun ⟨seg, hm⟩ =>
    ⟨seg, mem_set_of_ne hi hm (hne seg).symm⟩
  cases h with
  | arrived name =>
    simp only [serveStep]
    split
    · exact hp.frame rfl rfl rfl rfl (stays (by rintro _ ⟨⟩))
    · split <;> exact hp.frame rfl rfl rfl rfl (stays (by rintro _ ⟨⟩))
  | advancing seg =>
    refine ⟨hp.waiter, hp.holds.mono rfl fun _ => .inr (.inr ⟨seg, ?_⟩)⟩
    exact List.mem_set (List.getElem?_eq_some_iff.mp hi).1 _
  | notifying seg =>
    refine ⟨fun hne => ?_, hp.holds.mono rfl fun _ => s.wake.covered_notifyOne⟩
    exact Notify.notifyOne_waiter (hp.waiter hne)
  | starting seg =>
    simp only [serveStep]
    split
    · rename_i hr
      exact ⟨fun _ => hp.waiter (by simp [hr]), trivial⟩
    · exact hp.frame rfl rfl rfl rfl (stays (by rintro _ ⟨⟩))
  | checking seg => exact hp.frame rfl rfl rfl rfl (stays (by rintro _ ⟨⟩))
  | pulling seg =>
    simp only [serveStep]
    split <;> exact hp.frame rfl rfl rfl rfl (stays (by rintro _ ⟨⟩))
  | done => exact hp.frame rfl rfl rfl rfl (stays (by rintro _ ⟨⟩))

/-- A re-fetch touches nothing the pacing loop depends on. -/
theorem paced_refetchMove {e : RefetchEvent} {r r' : BackwardRefetch} (hp : Paced cfg s)
    (hm : RefetchMove cfg s e r r' t) : Paced cfg t := by
  cases hm <;> exact hp.frame rfl rfl rfl rfl id

theorem paced_step {a : Act} (hp : Paced cfg s) (hb : cfg.NoWrap s.front)
    (hs : step cfg s a = some t) : Paced cfg t := by
  cases a with
  | interest name =>
    cases hs
    exact hp.frame rfl rfl rfl rfl fun ⟨seg, hm⟩ => ⟨seg, List.mem_append_left _ hm⟩
  | handler i signed =>
    obtain ⟨h, hi, rfl⟩ := step_handler hs
    exact paced_serveStep hp hi
  | relay e => exact paced_relayMove hp hb (runRelayStep_move hs)
  | refetch i e =>
    obtain ⟨r, r', s', -, hm, rfl⟩ := step_refetch hs
    exact (paced_refetchMove hp hm).frame rfl rfl rfl rfl id
  | answer d =>
    obtain ⟨-, -, rfl⟩ := step_answer hs
    exact hp.frame rfl rfl rfl rfl id
  | evict wire | cancel =>
    cases hs
    exact hp.frame rfl rfl rfl rfl id

/-! ## No wrap-around -/

/-- The segment a handler is still to record as demanded. -/
def Handler.demand (cfg : Config) : Handler → Option UInt64
  | .arrived name => cfg.naming.trailing name
  | .advancing seg => some seg
  | _ => none

/-- **Invariant** of bounded Interests: nothing recorded as demanded, or about to be, wraps. -/
structure Demanded (cfg : Config) (s : State) : Prop where
  front : cfg.NoWrap s.front
  handlers : ∀ h ∈ s.handlers, ∀ seg, h.demand cfg = some seg → cfg.NoWrap seg

theorem demanded_init : Demanded cfg .init :=
  ⟨.inr (by simpa [State.init] using cfg.lead.toNat_lt), nofun⟩

theorem noWrap_max {a b : UInt64} (ha : cfg.NoWrap a) (hb : cfg.NoWrap b) :
    cfg.NoWrap (max a b) := by
  change cfg.NoWrap (if a ≤ b then b else a)
  split
  · exact hb
  · exact ha

/-- A handler's step asks for no segment that it did not ask for before. -/
theorem demand_serveStep {signed : Bool} {h : Handler} {seg : UInt64}
    (hd : (serveStep cfg s signed h).1.demand cfg = some seg) : h.demand cfg = some seg := by
  cases h with
  | arrived name =>
    simp only [serveStep] at hd
    split at hd
    · cases hd
    · split at hd
      · cases hd
      · rename_i hseg
        exact hseg.trans hd
  | checking seg =>
    simp only [serveStep] at hd
    split at hd <;> cases hd
  | pulling seg =>
    simp only [serveStep] at hd
    split at hd <;> cases hd
  | advancing seg | notifying seg | starting seg | done => cases hd

theorem demanded_step {a : Act} (hd : Demanded cfg s) (hb : a.Bounded cfg)
    (hs : step cfg s a = some t) : Demanded cfg t := by
  cases a with
  | interest name =>
    cases hs
    refine ⟨hd.front, fun h hm => ?_⟩
    rcases List.mem_append.mp hm with hm | hm
    · exact hd.handlers h hm
    · rw [List.mem_singleton.mp hm]
      exact hb
  | handler i signed =>
    obtain ⟨h, hi, rfl⟩ := step_handler hs
    have hh := hd.handlers h (List.mem_of_getElem? hi)
    refine ⟨?_, fun h' hm seg hseg => ?_⟩
    · rcases serveStep_front cfg s signed h with hf | ⟨seg, rfl, hf⟩
      · exact hf ▸ hd.front
      · exact hf ▸ noWrap_max hd.front (hh seg rfl)
    · rw [serveStep_handlers] at hm
      rcases List.mem_or_eq_of_mem_set hm with hm | rfl
      · exact hd.handlers h' hm seg hseg
      · exact hh seg (demand_serveStep hseg)
  | relay e =>
    cases runRelayStep_move hs with
    | receive => unfold State.received; split <;> exact ⟨hd.front, hd.handlers⟩
    | _ => exact ⟨hd.front, hd.handlers⟩
  | refetch i e =>
    obtain ⟨r, r', s', -, hm, rfl⟩ := step_refetch hs
    cases hm <;> exact ⟨hd.front, hd.handlers⟩
  | answer d =>
    obtain ⟨-, -, rfl⟩ := step_answer hs
    exact ⟨hd.front, hd.handlers⟩
  | evict wire | cancel =>
    cases hs
    exact ⟨hd.front, hd.handlers⟩

/-! ## Where the relay waits -/

/-- **The relay pauses only at its lead**, as long as no Interest makes `front + lookahead`
wrap: stuck waiting, it has produced more than the lookahead past the demand front and has
not passed the last segment, so nothing demanded is left to produce. -/
theorem stuck_ahead (cfg : Config) {tr : List (Trans State Act)} {u : State}
    (hrun : Run (stepRel (step cfg)) .init tr u) (hb : ∀ x ∈ tr, x.act.Bounded cfg) :
    ∀ x ∈ tr, x.post.Stuck →
      x.post.Ahead cfg ∧ x.post.produced ≤ cfg.lastSeg ∧ x.post.front < x.post.produced := by
  obtain ⟨-, hinv⟩ := hrun.inv_mem (I := fun s => Paced cfg s ∧ Demanded cfg s)
    (G := fun _ a => a.Bounded cfg)
    (fun hi hg hs => ⟨paced_step hi.1 hi.2.front hs, demanded_step hi.2 hg hs⟩)
    ⟨paced_init, demanded_init⟩ hb
  intro x hx ⟨hr, hw⟩
  have hholds := (hinv x hx).2.1.holds
  rw [hr] at hholds
  obtain ⟨hc, hlast⟩ := hholds
  have hahead := hc.of_stuck hw
  refine ⟨hahead, hlast, UInt64.lt_iff_toNat_lt.mpr ?_⟩
  unfold State.Ahead at hahead
  omega

/-! ## Two runs -/

/-- `run_relay` uses up a stored permit, compares again and waits. -/
def pauseEvents : List RelayEvent := List.replicate 6 .next

def leadActs : List Act :=
  demandActs 0 0 ++ (startEvents ++ relayEvents 0 ++ relayEvents 1 ++ pauseEvents).map .relay

theorem bounded_demandActs {i : Nat} {seg : UInt64} (h : sixSegments.NoWrap seg) :
    ∀ a ∈ demandActs i seg, a.Bounded sixSegments := by
  intro a ha
  rcases List.mem_cons.mp ha with rfl | ha
  · intro n hn
    rw [SegmentNaming.trailing_appendSegment, Option.some.injEq] at hn
    exact hn ▸ h
  · rw [List.eq_of_mem_replicate ha]
    trivial

/-- With segment 0 demanded and 0 and 1 relayed, the relay pauses at its lead. -/
theorem stuck_ahead_leadActs : ∃ tr u, Run (stepRel (step sixSegments)) .init tr u ∧
    (∃ x ∈ tr, x.post.Stuck) ∧ ∀ x ∈ tr, x.post.Stuck →
      x.post.Ahead sixSegments ∧ x.post.produced ≤ 5 ∧ x.post.front < x.post.produced := by
  have hexec : (exec (step sixSegments) .init leadActs).map
      (fun s => (s.relay, s.wake, s.handlers)) =
        some (.waiting, ⟨false, .enlisted⟩, [.done]) := by rfl
  obtain ⟨u, hu, hend⟩ := Option.map_eq_some_iff.mp hexec
  obtain ⟨tr, hrun, hacts⟩ := exec_run hu
  simp only [Prod.mk.injEq] at hend
  obtain ⟨hr, hw, hh⟩ := hend
  refine ⟨tr, u, hrun, ?_, stuck_ahead sixSegments hrun fun x hx => ?_⟩
  · obtain ⟨x, hx, rfl⟩ := hrun.last_mem (by rintro rfl; simp [leadActs, demandActs] at hacts)
    exact ⟨x, hx, hr, by rw [hw], by rw [hw], by simp [State.Notifying, hh]⟩
  · have hmem : x.act ∈ leadActs := hacts ▸ List.mem_map_of_mem hx
    rcases List.mem_append.mp hmem with hmem | hmem
    · exact bounded_demandActs (.inr (by decide)) _ hmem
    · obtain ⟨e, -, he⟩ := List.mem_map.mp hmem
      rw [← he]
      trivial

/-- An Interest for segment `2 ^ 64 - 1` makes `front + lookahead` wrap to zero: the relay
stops for good after its first segment. -/
def wrapActs : List Act :=
  demandActs 0 0 ++ demandActs 1 (0xFFFFFFFFFFFFFFFF) ++
    (startEvents ++ relayEvents 0 ++ pauseEvents).map .relay

theorem stuck_behind : ¬ ∀ (cfg : Config) (tr : List (Trans State Act)) (u : State),
    Run (stepRel (step cfg)) .init tr u → ∀ x ∈ tr, x.post.Stuck →
      x.post.Ahead cfg ∧ x.post.produced ≤ cfg.lastSeg ∧ x.post.front < x.post.produced := by
  intro h
  have hexec : (exec (step sixSegments) .init wrapActs).map
      (fun s => (s.relay, s.wake, s.handlers, s.front, s.produced)) =
        some (.waiting, ⟨false, .enlisted⟩, [.done, .done], 0xFFFFFFFFFFFFFFFF, 1) := by rfl
  obtain ⟨u, hu, hend⟩ := Option.map_eq_some_iff.mp hexec
  obtain ⟨tr, hrun, hacts⟩ := exec_run hu
  simp only [Prod.mk.injEq] at hend
  obtain ⟨hr, hw, hh, hf, hp⟩ := hend
  obtain ⟨x, hx, rfl⟩ := hrun.last_mem (by rintro rfl; simp [wrapActs, demandActs] at hacts)
  obtain ⟨-, -, hlt⟩ := h sixSegments tr _ hrun x hx
    ⟨hr, by rw [hw], by rw [hw], by simp [State.Notifying, hh]⟩
  rw [hf, hp] at hlt
  exact absurd hlt (by decide)

end NdnMobile.Relay
