import NdnMobile.Relay.Model

/-!
# What a run has done with the source's stream

A run's transitions show which segments `run_relay` read and which of them it skipped
because they could not be signed. Between two Data (`Idle`) the high-water mark `produced`
says which segments lie at or below one that was relayed (`Recorded`), and the source's
version is known as soon as a Data was read (`Learned`).
-/

namespace NdnMobile.Relay

open NdnMobile.Lib NdnMobile.Packet

/-- `public_versioned.append_segment(n)`. -/
def Config.segmentName (cfg : Config) (n : UInt64) : Name :=
  cfg.naming.appendSegment cfg.publicVersioned n

@[simp] theorem Config.trailing_segmentName (cfg : Config) (n : UInt64) :
    cfg.naming.trailing (cfg.segmentName n) = some n := cfg.naming.trailing_appendSegment _ n

/-- A metadata-only object has no answer to a segment Interest. -/
def Config.MetadataOnly (cfg : Config) : Prop := ∀ n, cfg.isMetadata (cfg.segmentName n) = false

/-- The segment `run_relay` works on between reading it and recording it as produced. -/
def RunRelay.working : RunRelay → Option UInt64
  | .signing seg _ | .inserting seg _ | .publishing seg | .storing seg => some seg
  | _ => none

/-- The segment that is published and not yet recorded as produced. -/
def RunRelay.unrecorded : RunRelay → Option UInt64
  | .storing seg => some seg
  | _ => none

/-- Not working on a Data it read. -/
def RunRelay.Idle (pc : RunRelay) : Prop := pc.working = none

instance (pc : RunRelay) : Decidable pc.Idle := inferInstanceAs (Decidable (_ = _))

theorem RunRelay.Idle.unrecorded {pc : RunRelay} (h : pc.Idle) : pc.unrecorded = none := by
  cases pc with
  | storing seg => cases h
  | _ => rfl

/-- The segment `run_relay` reads in a step. -/
def Act.readSeg (cfg : Config) : Act → Option UInt64
  | .relay (.data d) => cfg.naming.trailing d.name
  | _ => none

/-- The segment skipped in a transition because its signature failed. -/
def skippedSeg (x : Trans State Act) : Option UInt64 :=
  match x.act, x.pre.relay with
  | .relay (.signed false), .signing seg _ => some seg
  | _, _ => none

def readSegs (cfg : Config) (tr : List (Trans State Act)) : List UInt64 :=
  tr.filterMap (·.act.readSeg cfg)

def skippedSegs (tr : List (Trans State Act)) : List UInt64 := tr.filterMap skippedSeg

variable {cfg : Config} {s t : State} {tr : List (Trans State Act)}

theorem readSegs_acts : readSegs cfg tr = (tr.map (·.act)).filterMap (Act.readSeg cfg) := by
  rw [List.filterMap_map]
  rfl

/-! ## What the high-water mark records -/

/-- **Invariant**: `n` is below `produced` when a segment at or after it was recorded. -/
def Recorded (s : State) : Prop := ∃ counted, s.relayed = s.relay.unrecorded.toList ++ counted ∧
  ∀ n, n < s.produced ↔ ∃ m ∈ counted, n ≤ m ∧ m.toNat + 1 < 2 ^ 64

/-- **Invariant**: once a Data was read the source's version is known. -/
def Learned (s : State) : Prop :=
  ¬ s.relay.Idle ∨ s.relayed ≠ [] → s.sourceVersioned.isSome = true

theorem recorded_init : Recorded .init := by
  refine ⟨[], rfl, fun n => ⟨fun h => ?_, fun ⟨m, hm, _⟩ => absurd hm List.not_mem_nil⟩⟩
  have hlt := UInt64.lt_iff_toNat_lt.mp h
  have hz : (State.init.produced).toNat = 0 := rfl
  omega

theorem learned_init : Learned .init := by
  rintro (h | h)
  · exact absurd rfl h
  · exact absurd rfl h

theorem Recorded.frame (h : Recorded s) (hp : t.produced = s.produced) (hr : t.relayed = s.relayed)
    (hu : t.relay.unrecorded = s.relay.unrecorded) : Recorded t := by
  obtain ⟨counted, hc, hn⟩ := h
  refine ⟨counted, ?_, fun n => ?_⟩
  · rw [hr, hu, hc]
  · rw [hp, hn]

theorem Learned.frame (h : Learned s) (hv : t.sourceVersioned = s.sourceVersioned)
    (hr : t.relayed = s.relayed) (hi : s.relay.Idle → t.relay.Idle) : Learned t := by
  intro ht
  rw [hv]
  rw [hr] at ht
  exact h (ht.imp_left (mt hi))

/-- Recording `seg` moves the high-water mark past it, unless `seg + 1` does not fit. -/
theorem lt_max_succ {m n p seg : UInt64} (h : cfg.target.addU64 seg 1 = .ok m) :
    n < max p m ↔ (n ≤ seg ∧ seg.toNat + 1 < 2 ^ 64) ∨ n < p := by
  have hone : (1 : UInt64).toNat = 1 := rfl
  have hmax : (max p m).toNat = max p.toNat m.toNat := by
    show (if p ≤ m then m else p).toNat = _
    split
    · rename_i hle
      have := UInt64.le_iff_toNat_le.mp hle
      omega
    · rename_i hle
      rw [UInt64.le_iff_toNat_le] at hle
      omega
  rw [UInt64.lt_iff_toNat_lt, UInt64.le_iff_toNat_le, UInt64.lt_iff_toNat_lt, hmax]
  by_cases hfit : seg.toNat + 1 < 2 ^ 64
  · have hm := cfg.target.addU64_exact (.inr (by omega)) h
    omega
  · have hseg := seg.toNat_lt
    have hm : m.toNat = 0 := by
      unfold Target.addU64 at h
      split at h
      · cases h
      · rw [Except.ok.injEq] at h
        rw [← h, UInt64.toNat_add]
        omega
    omega

theorem idle_of_cancelled (hs : runRelayStep cfg s .cancelled = some t) : s.relay.Idle := by
  unfold runRelayStep at hs
  cases hr : s.relay with
  | signing | inserting | publishing | storing =>
    rw [hr] at hs
    cases hs
  | _ => rfl

theorem serveStep_relay (cfg : Config) (s : State) (ok : Bool) (h : Handler) :
    (serveStep cfg s ok h).2.relay = s.relay ∨
    s.relay = .unstarted ∧ (serveStep cfg s ok h).2.relay = .subscribing := by
  cases h with
  | starting seg =>
    unfold serveStep
    dsimp only
    split
    · exact .inr ⟨‹_›, rfl⟩
    · exact .inl rfl
  | _ =>
    left
    unfold serveStep
    dsimp only
    repeat' split
    all_goals rfl

theorem serveStep_front_le (cfg : Config) (s : State) (ok : Bool) (h : Handler) :
    s.front.toNat ≤ (serveStep cfg s ok h).2.front.toNat := by
  rcases serveStep_front cfg s ok h with hf | ⟨seg, -, hf⟩
  · rw [hf]
  · rw [hf]
    show _ ≤ (if s.front ≤ seg then seg else s.front).toNat
    split
    · exact UInt64.le_iff_toNat_le.mp ‹_›
    · exact Nat.le_refl _

/-- A handler leaves the stream alone; it only starts `run_relay`. -/
theorem serveStep_stream (cfg : Config) (s : State) (ok : Bool) (h : Handler) :
    (serveStep cfg s ok h).2.produced = s.produced ∧
    (serveStep cfg s ok h).2.relayed = s.relayed ∧
    (serveStep cfg s ok h).2.sourceVersioned = s.sourceVersioned ∧
    (serveStep cfg s ok h).2.relay.unrecorded = s.relay.unrecorded ∧
    ((serveStep cfg s ok h).2.relay.Idle ↔ s.relay.Idle) := by
  cases h with
  | starting seg =>
    simp only [serveStep]
    split
    · rename_i hr
      rw [hr]
      exact ⟨rfl, rfl, rfl, rfl, Iff.rfl⟩
    · exact ⟨rfl, rfl, rfl, rfl, Iff.rfl⟩
  | _ =>
    unfold serveStep
    dsimp only
    repeat' split
    all_goals exact ⟨rfl, rfl, rfl, rfl, Iff.rfl⟩

/-- Where `seg + 1` fits, recording `seg` does not panic. -/
theorem storing_fits {seg : UInt64} (hpc : s.relay = .storing seg) (hfit : seg.toNat + 1 < 2 ^ 64)
    (hs : runRelayStep cfg s .next = some t) : ∃ m : UInt64, m.toNat = seg.toNat + 1 ∧
      t = { s with produced := max s.produced m, relay := .loadProduced } := by
  have hone : (1 : UInt64).toNat = 1 := rfl
  have hok : cfg.target.addU64 seg 1 = .ok (seg + 1) := if_neg (by omega)
  refine ⟨seg + 1, cfg.target.addU64_exact (.inr (by omega)) hok, ?_⟩
  unfold runRelayStep at hs
  rw [hpc] at hs
  dsimp only at hs
  rw [hok] at hs
  exact (Option.some.inj hs).symm

theorem recorded_relayStep {e : RelayEvent} (hr : Recorded s)
    (hs : runRelayStep cfg s e = some t) : Recorded t := by
  have hmove := runRelayStep_move hs
  cases hmove with
  | publish hpc =>
    obtain ⟨counted, hc, hn⟩ := hr
    rw [hpc] at hc
    exact ⟨counted, congrArg (_ :: ·) hc, hn⟩
  | @store seg m hpc hadd =>
    obtain ⟨counted, hc, hn⟩ := hr
    rw [hpc] at hc
    refine ⟨seg :: counted, hc, fun n => ?_⟩
    rw [List.exists_mem_cons_iff, ← hn]
    exact lt_max_succ hadd
  | @storeOverflow seg panic hpc =>
    obtain ⟨counted, hc, hn⟩ := hr
    rw [hpc] at hc
    refine ⟨seg :: counted, hc, fun n => ?_⟩
    rw [List.exists_mem_cons_iff, ← hn]
    -- The addition panicked, so `seg + 1` does not fit.
    have hbig : ¬ seg.toNat + 1 < 2 ^ 64 := by
      intro hfit
      obtain ⟨m, -, ht⟩ := storing_fits hpc hfit hs
      have hrel := congrArg State.relay ht
      cases hrel
    constructor
    · exact .inr
    · rintro (⟨-, hfit⟩ | hlt)
      · exact absurd hfit hbig
      · exact hlt
  | receive hpc =>
    unfold State.received
    split <;> exact hr.frame rfl rfl (by rw [hpc]; rfl)
  | subscribe hpc => exact hr.frame rfl rfl (by rw [hpc]; dsimp only; split <;> rfl)
  | compare hpc => exact hr.frame rfl rfl (by rw [hpc]; dsimp only; split <;> rfl)
  | loadAgain hpc => exact hr.frame rfl rfl (by rw [hpc]; dsimp only; split <;> rfl)
  | halt hpc | retry hpc | loadProduced hpc | compareOverflow hpc | takePermit hpc | enlist hpc
  | wakeUp hpc | resubscribe hpc | sign hpc | signFailed hpc | insert hpc =>
    exact hr.frame rfl rfl (by rw [hpc]; rfl)
  | cancel => exact hr.frame rfl rfl (idle_of_cancelled hs).unrecorded.symm

theorem learned_relayStep {e : RelayEvent} (hl : Learned s)
    (hs : runRelayStep cfg s e = some t) : Learned t := by
  have hmove := runRelayStep_move hs
  -- Past the first read the version is known, whatever else a step does.
  have known (hne : ¬ s.relay.Idle) (hv : t.sourceVersioned = s.sourceVersioned) : Learned t :=
    fun _ => by rw [hv]; exact hl (.inl hne)
  cases hmove with
  | receive hpc =>
    unfold State.received
    split
    · exact hl.frame rfl rfl fun _ => rfl
    · intro _
      show (s.sourceVersioned.or (some _)).isSome = true
      simp
  | subscribe | compare | loadAgain => exact hl.frame rfl rfl fun _ => by dsimp only; split <;> rfl
  | halt | retry | loadProduced | compareOverflow | takePermit | enlist | wakeUp | resubscribe
  | cancel => exact hl.frame rfl rfl fun _ => rfl
  | sign hpc | signFailed hpc | insert hpc | publish hpc | store hpc | storeOverflow hpc =>
    exact known (by rw [hpc]; nofun) rfl

/-! ## Every step -/

theorem recorded_step {a : Act} (hr : Recorded s) (hs : step cfg s a = some t) : Recorded t := by
  cases a with
  | handler i signed =>
    obtain ⟨h, -, rfl⟩ := step_handler hs
    obtain ⟨hp, hrel, -, hu, -⟩ := serveStep_stream cfg s signed h
    exact hr.frame hp hrel hu
  | relay e => exact recorded_relayStep hr hs
  | refetch i e =>
    obtain ⟨r, r', s', -, hm, rfl⟩ := step_refetch hs
    cases hm <;> exact hr.frame rfl rfl rfl
  | answer d =>
    obtain ⟨-, -, rfl⟩ := step_answer hs
    exact hr.frame rfl rfl rfl
  | interest name | evict wire | cancel =>
    cases hs
    exact hr.frame rfl rfl rfl

theorem learned_step {a : Act} (hl : Learned s) (hs : step cfg s a = some t) : Learned t := by
  cases a with
  | handler i signed =>
    obtain ⟨h, -, rfl⟩ := step_handler hs
    obtain ⟨-, hrel, hv, -, hi⟩ := serveStep_stream cfg s signed h
    exact hl.frame hv hrel hi.mpr
  | relay e => exact learned_relayStep hl hs
  | refetch i e =>
    obtain ⟨r, r', s', -, hm, rfl⟩ := step_refetch hs
    cases hm <;> exact hl.frame rfl rfl id
  | answer d =>
    obtain ⟨-, -, rfl⟩ := step_answer hs
    exact hl.frame rfl rfl id
  | interest name | evict wire | cancel =>
    cases hs
    exact hl.frame rfl rfl id

theorem streamed_run {u : State} (hrun : Run (stepRel (step cfg)) .init tr u) :
    (Recorded u ∧ Learned u) ∧
    ∀ x ∈ tr, (Recorded x.pre ∧ Learned x.pre) ∧ Recorded x.post ∧ Learned x.post :=
  hrun.inv (I := fun s => Recorded s ∧ Learned s)
    (fun hi hs => ⟨recorded_step hi.1 hs, learned_step hi.2 hs⟩)
    ⟨recorded_init, learned_init⟩

/-- With no Data in hand, `n` is below `produced` exactly when a segment at or after it was
relayed. -/
theorem Recorded.idle (hr : Recorded s) (hi : s.relay.Idle) (n : UInt64) :
    n < s.produced ↔ ∃ m ∈ s.relayed, n ≤ m ∧ m.toNat + 1 < 2 ^ 64 := by
  obtain ⟨counted, hc, hn⟩ := hr
  rw [hi.unrecorded] at hc
  rw [hc]
  exact hn n

/-- `produced` is not zero only after a Data was read. -/
theorem Recorded.learned (hr : Recorded s) (hl : Learned s) (hp : 0 < s.produced) :
    s.sourceVersioned.isSome = true := by
  obtain ⟨counted, hc, hn⟩ := hr
  obtain ⟨m, hm, -⟩ := (hn 0).mp hp
  refine hl (.inr ?_)
  rw [hc]
  exact List.ne_nil_of_mem (List.mem_append_right _ hm)

end NdnMobile.Relay
