import NdnMobile.Relay.Stream
import Mathlib.Data.List.Nodup

/-!
# The relay's lead

`run_relay` reads the next Data only while `produced` is at most the demand front plus the
lookahead, so with a source that delivers its segments in order and without gaps the segment
it works on is bounded by the two. A segment whose signature fails is skipped and `produced`
does not move for it: the bound grows by the segments skipped since the last one that counts
as produced (`lag`).
-/

namespace NdnMobile.Relay

open NdnMobile.Lib NdnMobile.Packet

/-- The source delivers its segments 0, 1, 2, … in order without gaps. -/
structure Gapless (cfg : Config) (reads : List UInt64) : Prop where
  range : reads.map (·.toNat) = List.range reads.length
  last : reads.length ≤ cfg.lastSeg.toNat + 1

/-- The segment `run_relay` has read and not published yet. -/
def RunRelay.unpublished : RunRelay → Option UInt64
  | .signing seg _ | .inserting seg _ | .publishing seg => some seg
  | _ => none

/-- How many of the skipped segments lie past the last one that counts as produced. -/
def State.lag (s : State) (skipped : List UInt64) : Nat :=
  (skipped.filter (s.produced ≤ ·)).length

/-- **Invariant** of the relay loop, with the segments it has read and skipped. -/
structure Leads (cfg : Config) (reads skipped : List UInt64) (s : State) : Prop where
  kept : reads.filter (· ∉ skipped) = s.relayed.reverse ++ s.relay.unpublished.toList
  total : reads.length =
    s.relayed.length + s.relay.unpublished.toList.length + skipped.length
  count : s.produced.toNat + s.lag skipped + s.relay.working.toList.length = reads.length
  past : ∀ seg ∈ skipped, seg.toNat < reads.length
  last : ∀ seg, s.relay.working = some seg → seg.toNat + 1 = reads.length
  bounded : ∀ seg, s.relay.working = some seg →
    seg.toNat ≤ s.front.toNat + cfg.lead.toNat + s.lag skipped
  loaded : ∀ p, s.relay = .loadFront p → p = s.produced
  reading : s.relay = .receiving →
    s.produced.toNat ≤ s.front.toNat + cfg.lead.toNat ∨ cfg.lastSeg < s.produced

variable {cfg : Config} {s t : State} {reads skipped : List UInt64} {seg : UInt64}

theorem Gapless.snoc (h : Gapless cfg (reads ++ [seg])) :
    Gapless cfg reads ∧ seg.toNat = reads.length ∧ reads.length ≤ cfg.lastSeg.toNat := by
  have hr := h.range
  have hl := h.last
  rw [List.length_append, List.length_singleton] at hr hl
  rw [List.map_append, List.range_succ] at hr
  obtain ⟨hinit, hseg⟩ := List.append_inj hr (by simp)
  refine ⟨⟨hinit, by omega⟩, ?_, by omega⟩
  simpa using hseg

theorem Gapless.nodup (h : Gapless cfg reads) : reads.Nodup := by
  have hm : (reads.map (·.toNat)).Nodup := by
    rw [h.range]
    exact List.nodup_range
  exact List.Nodup.of_map _ hm

theorem leads_init : Leads cfg [] [] .init where
  kept := rfl
  total := rfl
  count := rfl
  past := nofun
  last := nofun
  bounded := nofun
  loaded := nofun
  reading := nofun

/-- A step that reads, skips, publishes and records nothing, and lowers no front. -/
theorem Leads.move (h : Leads cfg reads skipped s) (hf : s.front.toNat ≤ t.front.toNat)
    (hp : t.produced = s.produced) (hr : t.relayed = s.relayed)
    (hw : t.relay.working = s.relay.working) (hu : t.relay.unpublished = s.relay.unpublished)
    (hload : ∀ p, t.relay = .loadFront p → p = t.produced)
    (hread : t.relay = .receiving →
      s.produced.toNat ≤ s.front.toNat + cfg.lead.toNat ∨ cfg.lastSeg < s.produced) :
    Leads cfg reads skipped t := by
  have hlag : t.lag skipped = s.lag skipped := by
    unfold State.lag
    rw [hp]
  refine ⟨?_, ?_, ?_, h.past, ?_, ?_, hload, ?_⟩
  · rw [hr, hu, h.kept]
  · rw [hr, hu, h.total]
  · rw [hp, hlag, hw, h.count]
  · intro seg hseg
    exact h.last seg (hw ▸ hseg)
  · intro seg hseg
    have hb := h.bounded seg (hw ▸ hseg)
    omega
  · intro ht
    rw [hp]
    rcases hread ht with hle | hpast
    · exact .inl (by omega)
    · exact .inr hpast

/-- A step between two Data. -/
theorem Leads.idle (h : Leads cfg reads skipped s) (hi : s.relay.Idle) (ht : t.relay.Idle)
    (hf : t.front = s.front) (hp : t.produced = s.produced) (hr : t.relayed = s.relayed)
    (hload : ∀ p, t.relay = .loadFront p → p = t.produced)
    (hread : t.relay = .receiving →
      s.produced.toNat ≤ s.front.toNat + cfg.lead.toNat ∨ cfg.lastSeg < s.produced) :
    Leads cfg reads skipped t := by
  have hnone {pc : RunRelay} (hpc : pc.Idle) : pc.unpublished = none := by
    cases pc with
    | signing | inserting | publishing => cases hpc
    | _ => rfl
  refine h.move (by rw [hf]) hp hr ?_ ?_ hload hread
  · rw [show t.relay.working = none from ht, show s.relay.working = none from hi]
  · rw [hnone ht, hnone hi]

/-! ## The steps of the loop that move the stream -/

theorem Leads.read (h : Leads cfg reads skipped s) (hg : Gapless cfg (reads ++ [seg]))
    (hpc : s.relay = .receiving) (hf : t.front = s.front) (hp : t.produced = s.produced)
    (hr : t.relayed = s.relayed) {content : Bytes} (ht : t.relay = .signing seg content) :
    Leads cfg (reads ++ [seg]) skipped t := by
  obtain ⟨-, hseg, hlast⟩ := hg.snoc
  have hlag : t.lag skipped = s.lag skipped := by
    unfold State.lag
    rw [hp]
  have hkept := h.kept
  have htotal := h.total
  have hcount := h.count
  have hread := h.reading hpc
  rw [hpc] at hkept htotal hcount
  have hnot : seg ∉ skipped := by
    intro hm
    have := h.past seg hm
    omega
  refine ⟨?_, ?_, ?_, ?_, ?_, ?_, ?_, ?_⟩
  · rw [hr, ht, List.filter_append, hkept, List.filter_cons_of_pos (by simpa using hnot)]
    simp [RunRelay.unpublished]
  · rw [hr, ht]
    simp only [List.length_append, List.length_singleton, RunRelay.unpublished,
      Option.toList_some, Option.toList_none, List.length_nil] at htotal ⊢
    omega
  · rw [hp, hlag, ht]
    simp only [List.length_append, List.length_singleton, RunRelay.working, Option.toList_some,
      Option.toList_none, List.length_nil] at hcount ⊢
    omega
  · intro k hk
    have := h.past k hk
    rw [List.length_append]
    omega
  · intro k hk
    rw [ht] at hk
    obtain rfl : seg = k := Option.some.inj hk
    rw [List.length_append, List.length_singleton]
    omega
  · intro k hk
    rw [ht] at hk
    obtain rfl : seg = k := Option.some.inj hk
    rw [hlag, hf]
    simp only [RunRelay.working, Option.toList_none, List.length_nil] at hcount
    rw [UInt64.lt_iff_toNat_lt] at hread
    -- Past the last segment nothing is left to deliver.
    omega
  · intro p hload
    rw [ht] at hload
    cases hload
  · intro hrec
    rw [ht] at hrec
    cases hrec

theorem Leads.skip (h : Leads cfg reads skipped s) (hg : Gapless cfg reads) {content : Bytes}
    (hpc : s.relay = .signing seg content) :
    Leads cfg reads (skipped ++ [seg]) { s with relay := .loadProduced } := by
  have hkept := h.kept
  have htotal := h.total
  have hcount := h.count
  have hseg := h.last seg (by rw [hpc]; rfl)
  rw [hpc] at hkept htotal hcount
  simp only [RunRelay.unpublished, RunRelay.working, Option.toList_some,
    List.length_singleton] at hkept htotal hcount
  have hnodup : (s.relayed.reverse ++ [seg]).Nodup := hkept ▸ hg.nodup.filter _
  have hnew : seg ∉ s.relayed.reverse := by
    intro hm
    exact (List.nodup_append.mp hnodup).2.2 seg hm seg (List.mem_singleton_self _) rfl
  have hlag : State.lag { s with relay := .loadProduced } (skipped ++ [seg]) =
      s.lag skipped + 1 := by
    have hle : s.produced ≤ seg := by
      rw [UInt64.le_iff_toNat_le]
      omega
    unfold State.lag
    rw [List.filter_append, List.filter_cons_of_pos (by simpa using hle)]
    simp
  refine ⟨?_, ?_, ?_, ?_, nofun, nofun, nofun, nofun⟩
  · have hsplit : reads.filter (· ∉ skipped ++ [seg]) =
        (reads.filter (· ∉ skipped)).filter (· ≠ seg) := by
      rw [List.filter_filter]
      apply List.filter_congr
      intro k _
      simp [and_comm]
    rw [hsplit, hkept, List.filter_append, List.filter_eq_self.mpr]
    · simp [RunRelay.unpublished]
    · intro k hk
      have hne : k ≠ seg := by
        rintro rfl
        exact hnew hk
      simpa using hne
  · simp only [RunRelay.unpublished, Option.toList_none, List.length_nil, List.length_append,
      List.length_singleton]
    omega
  · rw [hlag]
    simp only [RunRelay.working, Option.toList_none, List.length_nil]
    omega
  · intro k hk
    rcases List.mem_append.mp hk with hk | hk
    · exact h.past k hk
    · rw [List.mem_singleton.mp hk]
      omega

theorem Leads.publish (h : Leads cfg reads skipped s) (hpc : s.relay = .publishing seg) :
    Leads cfg reads skipped { s with relayed := seg :: s.relayed, relay := .storing seg } := by
  have hkept := h.kept
  have htotal := h.total
  have hcount := h.count
  rw [hpc] at hkept htotal hcount
  simp only [RunRelay.unpublished, Option.toList_some, List.length_singleton] at hkept htotal
  refine ⟨?_, ?_, hcount, h.past, ?_, ?_, nofun, nofun⟩
  · rw [hkept]
    simp [RunRelay.unpublished]
  · simp only [RunRelay.unpublished, Option.toList_none, List.length_nil, List.length_cons]
    omega
  · intro k hk
    exact h.last k (by rw [hpc]; exact hk)
  · intro k hk
    exact h.bounded k (by rw [hpc]; exact hk)

theorem Leads.store (h : Leads cfg reads skipped s) (hpc : s.relay = .storing seg) {m : UInt64}
    (hm : m.toNat = seg.toNat + 1) :
    Leads cfg reads skipped { s with produced := max s.produced m, relay := .loadProduced } := by
  have hkept := h.kept
  have htotal := h.total
  have hcount := h.count
  have hseg := h.last seg (by rw [hpc]; rfl)
  rw [hpc] at hkept htotal hcount
  simp only [RunRelay.working, Option.toList_some, List.length_singleton] at hcount
  have hmax : max s.produced m = m := by
    show (if s.produced ≤ m then m else s.produced) = m
    rw [if_pos]
    rw [UInt64.le_iff_toNat_le]
    omega
  have hlag : State.lag { s with produced := m, relay := .loadProduced } skipped = 0 := by
    unfold State.lag
    rw [List.length_eq_zero_iff, List.filter_eq_nil_iff]
    intro k hk hle
    have hlt := h.past k hk
    have hle := UInt64.le_iff_toNat_le.mp (of_decide_eq_true hle)
    dsimp only at hle
    omega
  rw [hmax]
  refine ⟨hkept, htotal, ?_, h.past, nofun, nofun, nofun, nofun⟩
  rw [hlag]
  simp only [RunRelay.working, Option.toList_none, List.length_nil]
  omega

/-! ## Every step -/

/-- A step that reads and skips nothing leaves the two lists alone. -/
theorem leads_quiet {a : Act} (hread : a.readSeg cfg = none) (hskip : skippedSeg ⟨s, a, t⟩ = none)
    (h : Leads cfg reads skipped t) :
    Leads cfg (reads ++ (a.readSeg cfg).toList) (skipped ++ (skippedSeg ⟨s, a, t⟩).toList) t := by
  rw [hread, hskip, Option.toList_none, List.append_nil, List.append_nil]
  exact h

theorem addU64_le {a b c : UInt64} (h : cfg.target.addU64 a b = .ok c) :
    c.toNat ≤ a.toNat + b.toNat := by
  unfold Target.addU64 at h
  split at h
  · cases h
  · rw [Except.ok.injEq] at h
    rw [← h, UInt64.toNat_add]
    exact Nat.mod_le _ _

theorem leads_relayStep {e : RelayEvent} (h : Leads cfg reads skipped s)
    (hlast : cfg.lastSeg.toNat + 1 < 2 ^ 64)
    (hg : Gapless cfg (reads ++ ((Act.relay e).readSeg cfg).toList))
    (hs : runRelayStep cfg s e = some t) :
    Leads cfg (reads ++ ((Act.relay e).readSeg cfg).toList)
      (skipped ++ (skippedSeg ⟨s, .relay e, t⟩).toList) t := by
  have hmove := runRelayStep_move hs
  have idle {pc : RunRelay} (hpc : s.relay = pc) (hi : pc.Idle) : s.relay.Idle := hpc ▸ hi
  cases hmove with
  | halt hpc | retry hpc | takePermit hpc | enlist hpc | wakeUp hpc | resubscribe hpc
  | compareOverflow hpc =>
    exact leads_quiet rfl rfl (h.idle (idle hpc rfl) rfl rfl rfl rfl nofun nofun)
  | cancel => exact leads_quiet rfl rfl (h.idle (idle_of_cancelled hs) rfl rfl rfl rfl nofun nofun)
  | loadProduced hpc =>
    refine leads_quiet rfl rfl (h.idle (idle hpc rfl) rfl rfl rfl rfl ?_ nofun)
    intro p hp
    cases hp
    rfl
  | subscribe hpc =>
    refine leads_quiet rfl rfl (h.idle (idle hpc rfl) ?_ rfl rfl rfl ?_ ?_)
    all_goals dsimp only; split
    all_goals first | rfl | nofun
  | @compare p bound hpc hadd =>
    have hp := h.loaded p hpc
    have hle := addU64_le hadd
    refine leads_quiet rfl rfl (h.idle (idle hpc rfl) ?_ rfl rfl rfl ?_ ?_)
    · dsimp only
      split <;> rfl
    · dsimp only
      split <;> nofun
    · intro hrec
      dsimp only at hrec
      split at hrec
      · cases hrec
      · rename_i hnlt
        rw [UInt64.lt_iff_toNat_lt, hp] at hnlt
        exact .inl (by omega)
  | loadAgain hpc =>
    refine leads_quiet rfl rfl (h.idle (idle hpc rfl) ?_ rfl rfl rfl ?_ ?_)
    · dsimp only
      split <;> rfl
    · dsimp only
      split <;> nofun
    · intro hrec
      dsimp only at hrec
      split at hrec
      · cases hrec
      · rename_i hnle
        rw [UInt64.le_iff_toNat_le] at hnle
        refine .inr ?_
        rw [UInt64.lt_iff_toNat_lt]
        omega
  | @receive d hpc =>
    have hskip : skippedSeg ⟨s, .relay (.data d), s.received cfg d⟩ = none := rfl
    rw [hskip, Option.toList_none, List.append_nil]
    simp only [Act.readSeg] at hg ⊢
    unfold State.received
    cases hseg : cfg.naming.trailing d.name with
    | none =>
      rw [Option.toList_none, List.append_nil]
      exact h.idle (idle hpc rfl) rfl rfl rfl rfl nofun nofun
    | some seg =>
      rw [hseg] at hg
      exact h.read hg hpc rfl rfl rfl rfl
  | sign hpc =>
    exact leads_quiet rfl rfl
      (h.move (Nat.le_refl _) rfl rfl (by rw [hpc]; rfl) (by rw [hpc]; rfl) nofun nofun)
  | @signFailed seg content ok hpc =>
    have hok : ok = false := by
      cases ok with
      | false => rfl
      | true =>
        unfold runRelayStep at hs
        rw [hpc] at hs
        have hrel := congrArg State.relay (Option.some.inj hs)
        cases hrel
    subst hok
    have hskip : skippedSeg ⟨s, .relay (.signed false), { s with relay := .loadProduced }⟩ =
        some seg := by
      simp [skippedSeg, hpc]
    rw [hskip]
    simp only [Act.readSeg, Option.toList_none, List.append_nil] at hg ⊢
    exact h.skip hg hpc
  | insert hpc =>
    exact leads_quiet rfl rfl
      (h.move (Nat.le_refl _) rfl rfl (by rw [hpc]; rfl) (by rw [hpc]; rfl) nofun nofun)
  | publish hpc => exact leads_quiet rfl rfl (h.publish hpc)
  | @store seg _ hpc | @storeOverflow seg _ hpc =>
    simp only [Act.readSeg, Option.toList_none, List.append_nil] at hg
    have hend := h.last seg (by rw [hpc]; rfl)
    have hlen := hg.last
    obtain ⟨m, hm, ht⟩ := storing_fits hpc (by omega) hs
    exact leads_quiet rfl rfl (ht ▸ h.store hpc hm)

theorem leads_step {a : Act} (h : Leads cfg reads skipped s)
    (hlast : cfg.lastSeg.toNat + 1 < 2 ^ 64)
    (hg : Gapless cfg (reads ++ (a.readSeg cfg).toList)) (hs : step cfg s a = some t) :
    Leads cfg (reads ++ (a.readSeg cfg).toList) (skipped ++ (skippedSeg ⟨s, a, t⟩).toList) t := by
  -- Where the relay stays where it is, only the front may have moved up.
  have still (hf : s.front.toNat ≤ t.front.toNat) (hp : t.produced = s.produced)
      (hr : t.relayed = s.relayed) (hpc : t.relay = s.relay) : Leads cfg reads skipped t :=
    h.move hf hp hr (by rw [hpc]) (by rw [hpc]) (fun p hload => hp ▸ h.loaded p (hpc ▸ hload))
      fun hrec => h.reading (hpc ▸ hrec)
  cases a with
  | handler i signed =>
    obtain ⟨hd, -, rfl⟩ := step_handler hs
    obtain ⟨hp, hr, -⟩ := serveStep_stream cfg s signed hd
    refine leads_quiet rfl rfl ?_
    rcases serveStep_relay cfg s signed hd with hpc | ⟨hpc, hpc'⟩
    · exact still (serveStep_front_le cfg s signed hd) hp hr hpc
    · refine h.move (serveStep_front_le cfg s signed hd) hp hr ?_ ?_ ?_ ?_
      · exact (congrArg RunRelay.working hpc').trans (congrArg RunRelay.working hpc).symm
      · exact (congrArg RunRelay.unpublished hpc').trans (congrArg RunRelay.unpublished hpc).symm
      · intro p hload
        cases hpc'.symm.trans hload
      · intro hrec
        cases hpc'.symm.trans hrec
  | relay e => exact leads_relayStep h hlast hg hs
  | refetch i e =>
    obtain ⟨r, r', s', -, hm, rfl⟩ := step_refetch hs
    refine leads_quiet rfl rfl ?_
    cases hm <;> exact still (Nat.le_refl _) rfl rfl rfl
  | answer d =>
    obtain ⟨-, -, rfl⟩ := step_answer hs
    exact leads_quiet rfl rfl (still (Nat.le_refl _) rfl rfl rfl)
  | interest name | evict wire | cancel =>
    cases hs
    exact leads_quiet rfl rfl (still (Nat.le_refl _) rfl rfl rfl)

/-! ## Whole runs -/

theorem readSegs_snoc {tr : List (Trans State Act)} {x : Trans State Act} :
    readSegs cfg (tr ++ [x]) = readSegs cfg tr ++ (x.act.readSeg cfg).toList :=
  filterMap_snoc (fun x : Trans State Act => x.act.readSeg cfg) tr x

theorem skippedSegs_snoc {tr : List (Trans State Act)} {x : Trans State Act} :
    skippedSegs (tr ++ [x]) = skippedSegs tr ++ (skippedSeg x).toList :=
  filterMap_snoc skippedSeg tr x

theorem Gapless.init {o : Option UInt64} (h : Gapless cfg (reads ++ o.toList)) :
    Gapless cfg reads := by
  cases o with
  | none => simpa using h
  | some seg => exact h.snoc.1

theorem leads_run {tr : List (Trans State Act)} {u : State} (hlast : cfg.lastSeg.toNat + 1 < 2 ^ 64)
    (hrun : Run (stepRel (step cfg)) .init tr u) (hg : Gapless cfg (readSegs cfg tr)) :
    Leads cfg (readSegs cfg tr) (skippedSegs tr) u := by
  refine hrun.inv_hist
    (I := fun past s => Gapless cfg (readSegs cfg past) →
      Leads cfg (readSegs cfg past) (skippedSegs past) s) ?_ (fun _ => leads_init) hg
  intro past s a t ih hs hg
  rw [readSegs_snoc] at hg ⊢
  rw [skippedSegs_snoc]
  exact leads_step (ih hg.init) hlast hg hs

/-- Every skipped segment lies past the last one recorded as produced, or before it. -/
theorem lag_add (s : State) (skipped : List UInt64) :
    s.lag skipped + (skipped.filter (· < s.produced)).length = skipped.length := by
  unfold State.lag
  induction skipped with
  | nil => rfl
  | cons k skipped ih =>
    by_cases hk : k < s.produced
    · have hle : ¬ s.produced ≤ k := UInt64.not_le.mpr hk
      simp [hk, hle]
      omega
    · have hle : s.produced ≤ k := UInt64.not_lt.mp hk
      simp [hk, hle]
      omega

theorem RunRelay.working_length (pc : RunRelay) : pc.working.toList.length =
    pc.unpublished.toList.length + pc.unrecorded.toList.length := by
  cases pc <;> rfl

theorem Config.lead_of_le (h : 1 ≤ cfg.lookahead) : cfg.lead = cfg.lookahead := by
  show (if cfg.lookahead ≤ 1 then 1 else cfg.lookahead) = _
  split
  · exact UInt64.le_antisymm h ‹_›
  · rfl

/-- **Bounded lead.** With a source that delivers its segments in order without gaps, in every
state reached: the segment `run_relay` works on is at most the front plus the lookahead plus
the segments skipped since the last one that counts as produced; the segments read are
published in order and once each, but for the skipped ones; and `produced` counts those
published (once recorded) and those skipped below it. -/
theorem lead_bounded (cfg : Config) (hl : 1 ≤ cfg.lookahead) (size : UInt64) (chunk : Nat)
    (hlast : cfg.lastSeg.toNat = (size.toNat - 1) / chunk) {tr : List (Trans State Act)} {u : State}
    (hrun : Run (stepRel (step cfg)) .init tr u) (hg : Gapless cfg (readSegs cfg tr)) :
    (∀ seg, u.relay.working = some seg →
      seg.toNat ≤ u.front.toNat + cfg.lookahead.toNat + u.lag (skippedSegs tr)) ∧
    (readSegs cfg tr).filter (· ∉ skippedSegs tr) =
      u.relayed.reverse ++ u.relay.unpublished.toList ∧
    u.relayed.Nodup ∧
    u.produced.toNat + u.relay.unrecorded.toList.length =
      u.relayed.length + ((skippedSegs tr).filter (· < u.produced)).length := by
  have hfit : cfg.lastSeg.toNat + 1 < 2 ^ 64 := by
    have hdiv := Nat.div_le_self (size.toNat - 1) chunk
    have hsize := size.toNat_lt
    omega
  have h := leads_run hfit hrun hg
  refine ⟨?_, h.kept, ?_, ?_⟩
  · rw [← Config.lead_of_le hl]
    exact h.bounded
  · have hnodup : (u.relayed.reverse ++ u.relay.unpublished.toList).Nodup :=
      h.kept ▸ hg.nodup.filter _
    exact List.nodup_reverse.mp (List.nodup_append.mp hnodup).1
  · have htotal := h.total
    have hcount := h.count
    have hlag := lag_add u (skippedSegs tr)
    have hwork := u.relay.working_length
    omega

/-- Segment 0 of six is demanded and read, but cannot be signed; segment 1 is relayed. -/
def skipEvents : List RelayEvent :=
  startEvents ++ (relayEvents 0).take 1 ++ [.signed false, .next, .next] ++ relayEvents 1

theorem exec_skipEvents : ∃ tr u, Run (stepRel (step sixSegments)) .init tr u ∧
    Gapless sixSegments (readSegs sixSegments tr) ∧ readSegs sixSegments tr = [0, 1] ∧
    u.relay = .loadAgain ∧ u.produced = 2 ∧ u.relayed = [1] := by
  have hexec : (exec (step sixSegments) .init (demandActs 0 0 ++ skipEvents.map .relay)).map
      (fun s => (s.relay, s.produced, s.relayed)) = some (.loadAgain, 2, [1]) := by rfl
  obtain ⟨u, hu, hend⟩ := Option.map_eq_some_iff.mp hexec
  simp only [Prod.mk.injEq] at hend
  obtain ⟨hrel, hp, hr⟩ := hend
  obtain ⟨tr, hrun, hacts⟩ := exec_run hu
  have hread : readSegs sixSegments tr = [0, 1] := by
    rw [readSegs_acts, hacts]
    rfl
  exact ⟨tr, u, hrun, hread ▸ ⟨rfl, by decide⟩, hread, hrel, hp, hr⟩

theorem lead_bounded_skipEvents : ∃ tr u, Run (stepRel (step sixSegments)) .init tr u ∧
    (readSegs sixSegments tr).filter (· ∉ skippedSegs tr) = [1] ∧
    2 = 1 + ((skippedSegs tr).filter (· < u.produced)).length := by
  obtain ⟨tr, u, hrun, hg, -, hrel, hp, hr⟩ := exec_skipEvents
  obtain ⟨-, hkept, -, hcount⟩ :=
    lead_bounded sixSegments (by decide) 6 1 (by decide) hrun hg
  refine ⟨tr, u, hrun, ?_, ?_⟩
  · rw [hkept, hr, hrel]
    rfl
  · rw [hrel, hr] at hcount
    rw [← show u.produced.toNat = 2 by rw [hp]; rfl]
    exact hcount

/-- The skipped segment counts as produced although it was never relayed. -/
theorem lead_unbounded : ¬ ∀ (cfg : Config) (size : UInt64) (chunk : Nat)
    (tr : List (Trans State Act)) (u : State), 1 ≤ cfg.lookahead →
      cfg.lastSeg.toNat = (size.toNat - 1) / chunk → Run (stepRel (step cfg)) .init tr u →
      Gapless cfg (readSegs cfg tr) →
      (∀ seg, u.relay.working = some seg → seg.toNat ≤ u.front.toNat + cfg.lookahead.toNat) ∧
      (u.relay.Idle →
        readSegs cfg tr = u.relayed.reverse ∧ u.produced.toNat = u.relayed.length) := by
  intro h
  obtain ⟨tr, u, hrun, hg, -, hrel, hp, hr⟩ := exec_skipEvents
  obtain ⟨-, hidle⟩ := h sixSegments 6 1 tr u (by decide) (by decide) hrun hg
  obtain ⟨-, hcount⟩ := hidle (by rw [hrel]; rfl)
  rw [hp, hr] at hcount
  exact absurd hcount (by decide)

end NdnMobile.Relay
