import NdnMobile.Lib.Semaphore
import NdnMobile.Offer.Coherence

/-!
# Streamed offers

A streamed offer has a task of its own, which holds the object and sends a segment for
every permit that the serve handler adds. The handler goes with the serve guard; the task
shares only the semaphore with it, and nothing ever closes that. So dropping the guard
keeps new Interests out, but the task ends by itself or not at all (`returned_step`), and
`endsStreams_iff` says what that makes of `remove_offer` and of adding a file again.
-/

namespace NdnMobile.Offer

open NdnMobile.Lib NdnMobile.Packet

/-- `OFFER_CHUNK`. -/
def offerChunk : Nat := 8192

/-- `last_seg` of an object built from a file in chunks of `OFFER_CHUNK`. -/
structure ObjectLib where
  lastSeg : UInt64 → UInt64
  lastSeg_le : ∀ size, (lastSeg size).toNat ≤ size.toNat / offerChunk

/-! ## One streamer -/

inductive StreamerPhase where
  /-- At `budget.acquire()`. -/
  | acquiring
  /-- In `prepared.answer_interest(&seg_name, None)`. -/
  | answering
  /-- In `demux.send(wire)`. -/
  | sending
  /-- The task is over, and its hold on the object with it. -/
  | returned
  deriving DecidableEq, Repr

structure Streamer where
  last : UInt64
  seg : UInt64
  budget : Semaphore
  phase : StreamerPhase
  deriving DecidableEq, Repr

inductive StreamerEvent where
  | acquire
  | answer (ok : Bool)
  | send (ok : Bool)
  deriving DecidableEq, Repr

namespace Streamer

def new (last : UInt64) : Streamer := ⟨last, 0, .new 0, .acquiring⟩

/-- `budget.add_permits(sr.max_data_count.max(1) as usize)`; beyond the limit the handler
panics. -/
def grant (tg : Target) (st : Streamer) (maxDataCount : UInt32) : Streamer :=
  match st.budget.addPermits tg.maxPermits (max maxDataCount 1).toNat with
  | some budget => { st with budget := budget }
  | none => st

def step (tg : Target) (st : Streamer) : StreamerEvent → Option Streamer
  | .acquire =>
    match st.phase, st.budget.acquire with
    | .acquiring, some budget => some { st with budget := budget, phase := .answering }
    | _, _ => none
  | .answer ok =>
    match st.phase with
    | .answering => some { st with phase := if ok then .sending else .returned }
    | _ => none
  | .send ok =>
    match st.phase with
    | .sending =>
      if ok then
        match tg.addU64 st.seg 1 with
        | .error _ => some { st with phase := .returned }
        | .ok seg =>
          some { st with seg := seg, phase := if seg ≤ st.last then .acquiring else .returned }
      else some { st with phase := .returned }
    | _ => none

/-- The event is the task's last: the segment cannot be read or sent, or it is the last one. -/
def Ends (st : Streamer) : StreamerEvent → Prop
  | .acquire => False
  | .answer ok => ok = false
  | .send ok => ok = false ∨ st.last ≤ st.seg

/-- While the task runs its segment is one of the object's, and the counter cannot overflow. -/
def Within (st : Streamer) : Prop :=
  st.last.toNat + 1 < 2 ^ 64 ∧ (st.phase ≠ .returned → st.seg ≤ st.last)

end Streamer

/-! ## The board and its streamers -/

/-- The size of a streamed file. -/
def ServeGuard.streamed (g : ServeGuard) : Option UInt64 :=
  match g.call.source with
  | .streamed size => some size
  | _ => none

/-- The registration a step of the board made. -/
def State.newGuard (s u : State) : Option ServeGuard :=
  if s.registered.length < u.registered.length then u.registered.head? else none

/-- The entry a step takes out of the map, whose guard is dropped with it. -/
def State.takenEntry (s : State) : Act → Option OfferEntry
  | .insert t =>
    match s.phase t with
    | .adding c _ => s.offers[c.fileId]?
    | _ => none
  | .erase t =>
    match s.phase t with
    | .removing fileId => s.offers[fileId]?
    | _ => none
  | _ => none

structure StreamState where
  board : State
  /-- The streamers, by the id of their registration. -/
  streamers : Nat → Option Streamer
  /-- Handlers that have not run: their registration and the `max_data_count` they grant. -/
  handlers : List (Nat × UInt32)
  /-- The registrations whose guards were dropped. -/
  dropped : List Nat
  /-- The streamed registration that the call a thread is in has dropped. -/
  dropping : ThreadId → Option ServeGuard

inductive StreamAct where
  | board (a : Act)
  /-- A subscription Interest reaches the handler of a registration. -/
  | subscribe (id : Nat) (maxDataCount : UInt32)
  /-- The `i`-th handler runs. -/
  | grant (i : Nat)
  | streamer (id : Nat) (e : StreamerEvent)
  deriving DecidableEq, Repr

namespace StreamState

def new (board : OfferBoard) (now : Nat) : StreamState where
  board := .new board now
  streamers _ := none
  handlers := []
  dropped := []
  dropping _ := none

variable (lib : ObjectLib) (s : StreamState)

def setStreamer (id : Nat) (st : Streamer) : StreamState :=
  { s with streamers := Function.update s.streamers id (some st) }

/-- A new streamed registration starts a streamer. -/
def spawned (u : State) : Nat → Option Streamer :=
  match s.board.newGuard u with
  | none => s.streamers
  | some g =>
    match g.streamed with
    | none => s.streamers
    | some size => Function.update s.streamers g.id (some (.new (lib.lastSeg size)))

/-- What a step of the board does to the rest. -/
def afterBoard (a : Act) (u : State) : StreamState where
  board := u
  streamers := s.spawned lib u
  handlers := s.handlers
  dropped := ((s.board.takenEntry a).map (·.guard.id)).toList ++ s.dropped
  dropping :=
    match a with
    | .insert t | .erase t =>
      Function.update s.dropping t (((s.board.takenEntry a).map (·.guard)).filter
        (·.streamed.isSome))
    | .unlock t => Function.update s.dropping t none
    | _ => s.dropping

/-- The streamer's task is over: it does not hold the object any more. -/
def Returned (id : Nat) : Prop := ∃ st, s.streamers id = some st ∧ st.phase = .returned

end StreamState

def streamStep (lib : ObjectLib) (board : OfferBoard) (s : StreamState) :
    StreamAct → Option StreamState
  | .board a => (step board s.board a).map (s.afterBoard lib a)
  | .subscribe id n =>
    if (s.streamers id).isSome ∧ id ∉ s.dropped then
      some { s with handlers := s.handlers ++ [(id, n)] }
    else none
  | .grant i =>
    match s.handlers[i]? with
    | none => none
    | some (id, n) =>
      (s.streamers id).map fun st =>
        { s.setStreamer id (st.grant board.target n) with handlers := s.handlers.eraseIdx i }
  | .streamer id e =>
    ((s.streamers id).bind fun st => st.step board.target e).map (s.setStreamer id)

/-- The step is the last of a streamer. -/
def StreamAct.Ends (s : StreamState) (id : Nat) : StreamAct → Prop
  | .streamer id' e => id' = id ∧ ∃ st, s.streamers id = some st ∧ st.Ends e
  | _ => False

abbrev StreamTrans := Trans StreamState StreamAct

/-- A streamer came to its end in these steps, by itself. -/
def Finished (past : List StreamTrans) (id : Nat) : Prop := ∃ x ∈ past, x.act.Ends x.pre id

/-- At `x` a call returns that took the entry of the streamed registration `g` out of the map:
`remove_offer` with true, or an add call for the same `file_id`. -/
def Drops (x : StreamTrans) (g : ServeGuard) : Prop :=
  ∃ t, x.act = .board (.unlock t) ∧ x.pre.dropping t = some g

/-- Removing or replacing a streamed offer ends it: from the return of the call on, the task
does not hold the object, and no segment of it is sent. -/
def EndsStreams (tr : List StreamTrans) : Prop :=
  ∀ past x rest g, tr = past ++ x :: rest → Drops x g →
    x.post.Returned g.id ∧ ∀ y ∈ rest, y.act ≠ .streamer g.id (.send true)

/-- Whenever such a call returns, the streamer has already come to its end. -/
def FinishedFirst (tr : List StreamTrans) : Prop :=
  ∀ past x rest g, tr = past ++ x :: rest → Drops x g → Finished past g.id

/-- If the step is the return of a call, the streamer of what the call dropped has returned. -/
def StreamAct.dropsReturned (s : StreamState) : StreamAct → Bool
  | .board (.unlock t) =>
    (s.dropping t).all fun g => (s.streamers g.id).any fun st => st.phase = .returned
  | _ => true

variable {lib : ObjectLib} {board : OfferBoard} {s v : StreamState} {past : List StreamTrans}
  {x : StreamTrans} {tg : Target}

/-! ## Steps of a streamer -/

theorem Streamer.grant_phase (st : Streamer) (n : UInt32) :
    (st.grant tg n).phase = st.phase := by
  unfold Streamer.grant
  split <;> rfl

theorem Streamer.within_grant {st : Streamer} (h : st.Within) (n : UInt32) :
    (st.grant tg n).Within := by
  unfold Streamer.grant
  split
  · exact h
  · exact h

theorem Streamer.within_new (size : UInt64) : (Streamer.new (lib.lastSeg size)).Within := by
  have hle := lib.lastSeg_le size
  have hsize := size.toNat_lt
  rw [offerChunk] at hle
  exact ⟨by show (lib.lastSeg size).toNat + 1 < 2 ^ 64; omega, fun _ => UInt64.le_iff_toNat_le.mpr
    (Nat.zero_le _)⟩

/-- A running streamer ends exactly at its last event. -/
theorem Streamer.step_spec {st st' : Streamer} {e : StreamerEvent} (hw : st.Within)
    (h : st.step tg e = some st') :
    st.phase ≠ .returned ∧ st'.Within ∧ (st'.phase = .returned ↔ st.Ends e) := by
  cases e with
  | acquire =>
    simp only [Streamer.step] at h
    split at h <;> cases h
    rename_i hp _
    exact ⟨by simp [hp], ⟨hw.1, fun _ => hw.2 (by simp [hp])⟩, by simp [Streamer.Ends]⟩
  | answer ok =>
    simp only [Streamer.step] at h
    split at h <;> cases h
    rename_i hp
    refine ⟨by simp [hp], ⟨hw.1, fun _ => hw.2 (by simp [hp])⟩, ?_⟩
    cases ok <;> simp [Streamer.Ends]
  | send ok =>
    simp only [Streamer.step] at h
    split at h
    · rename_i hp
      have hle := UInt64.le_iff_toNat_le.mp (hw.2 (by simp [hp]))
      refine ⟨by simp [hp], ?_⟩
      cases ok with
      | false =>
        cases h
        exact ⟨⟨hw.1, fun h => absurd rfl h⟩, by simp [Streamer.Ends]⟩
      | true =>
        have hlt : st.seg.toNat + (1 : UInt64).toNat < 2 ^ 64 := by
          have := hw.1
          simp only [UInt64.reduceToNat]
          omega
        have hnext : (st.seg + 1).toNat = st.seg.toNat + 1 :=
          tg.addU64_exact (.inr hlt) (tg.addU64_of_lt hlt)
        rw [if_pos rfl, tg.addU64_of_lt hlt] at h
        cases h
        refine ⟨⟨hw.1, fun hne => ?_⟩, ?_⟩
        · by_contra hgt
          exact hne (if_neg hgt)
        · simp only [Streamer.Ends, reduceCtorEq, false_or, UInt64.le_iff_toNat_le, hnext]
          split
          · simp only [reduceCtorEq, false_iff]
            omega
          · simp only [true_iff]
            omega
    · cases h

/-! ## Steps of the board -/

theorem registered_cases {s u : State} {a : Act} (hm : Move board s a u) :
    u.registered = s.registered ∨
      ∃ g, g.id = s.registered.length ∧ u.registered = g :: s.registered := by
  cases hm with
  | registered t c serves _ => exact .inr ⟨⟨_, serves, c⟩, rfl, rfl⟩
  | _ => exact .inl rfl

theorem newGuard_of_cons {s u : State} {g : ServeGuard} (h : u.registered = g :: s.registered) :
    s.newGuard u = some g := by
  have hlt : s.registered.length < (g :: s.registered).length := Nat.lt_succ_self _
  rw [State.newGuard, h, if_pos hlt, List.head?_cons]

/-- A step of the board starts at most one streamer, under a new id. -/
theorem spawned_cases {u : State} {a : Act} (hm : Move board s.board a u) :
    s.spawned lib u = s.streamers ∨
      ∃ size, u.registered.length = s.board.registered.length + 1 ∧
        s.spawned lib u = Function.update s.streamers s.board.registered.length
          (some (.new (lib.lastSeg size))) := by
  unfold StreamState.spawned
  rcases registered_cases hm with hsame | ⟨g, hid, hreg⟩
  · rw [State.newGuard, hsame, if_neg (Nat.lt_irrefl _)]
    exact .inl rfl
  · rw [newGuard_of_cons hreg]
    cases hsize : g.streamed with
    | none => exact .inl (by simp only [hsize])
    | some size => exact .inr ⟨size, by rw [hreg, List.length_cons], by simp only [hsize, hid]⟩

/-! ## Runs -/

/-- The streamers that have returned are those that came to their end. -/
structure Tracked (past : List StreamTrans) (s : StreamState) : Prop where
  fresh : ∀ id, s.board.registered.length ≤ id → s.streamers id = none
  within : ∀ id st, s.streamers id = some st → st.Within
  ended : ∀ id, s.Returned id ↔ Finished past id

theorem tracked_new (board : OfferBoard) (now : Nat) : Tracked [] (.new board now) where
  fresh _ _ := rfl
  within _ _ h := by cases h
  ended id := iff_of_false (fun ⟨_, h, _⟩ => nomatch h) (fun ⟨_, h, _⟩ => nomatch h)

theorem finished_snoc {id : Nat} :
    Finished (past ++ [x]) id ↔ Finished past id ∨ x.act.Ends x.pre id := by
  simp [Finished, or_and_right, exists_or]

theorem returned_update {id j : Nat} {st : Streamer}
    (h : v.streamers = Function.update s.streamers id (some st)) :
    v.Returned j ↔ if j = id then st.phase = .returned else s.Returned j := by
  unfold StreamState.Returned
  rw [h]
  by_cases hj : j = id
  · subst hj
    simp
  · simp [hj]

/-- What keeps account of the streamers: none appears under an id that is not taken, each is
within its object, and one has returned if it had before or this was its last step. -/
theorem Tracked.next (h : Tracked past s)
    (hfresh : ∀ j, v.board.registered.length ≤ j → v.streamers j = none)
    (hwithin : ∀ j st, v.streamers j = some st → st.Within)
    (hret : ∀ j, v.Returned j ↔ s.Returned j ∨ x.act.Ends x.pre j) : Tracked (past ++ [x]) v :=
  ⟨hfresh, hwithin, fun j => by rw [finished_snoc, ← h.ended j, hret j]⟩

/-- No streamer changes. -/
theorem Tracked.frame (h : Tracked past s) (hends : ∀ j, ¬ x.act.Ends x.pre j)
    (hboard : s.board.registered.length ≤ v.board.registered.length)
    (hstreamers : v.streamers = s.streamers) : Tracked (past ++ [x]) v := by
  refine h.next (fun j hj => ?_) (fun j st hj => h.within j st (hstreamers ▸ hj)) fun j => ?_
  · rw [hstreamers]
    exact h.fresh j (Nat.le_trans hboard hj)
  · rw [or_iff_left (hends j)]
    unfold StreamState.Returned
    rw [hstreamers]

/-- A new streamer, which has not returned. -/
theorem Tracked.spawn {st : Streamer} (h : Tracked past s) (hends : ∀ j, ¬ x.act.Ends x.pre j)
    (hw : st.Within) (hrun : st.phase ≠ .returned)
    (hboard : v.board.registered.length = s.board.registered.length + 1)
    (hstreamers : v.streamers = Function.update s.streamers s.board.registered.length (some st)) :
    Tracked (past ++ [x]) v := by
  have hnone := h.fresh _ (Nat.le_refl _)
  refine h.next (fun j hj => ?_) (fun j stj hj => ?_) fun j => ?_
  · have hne : j ≠ s.board.registered.length := by omega
    rw [hstreamers, Function.update_of_ne hne, h.fresh j (by omega)]
  · rw [hstreamers] at hj
    by_cases hne : j = s.board.registered.length
    · subst hne
      rw [Function.update_self, Option.some.injEq] at hj
      exact hj ▸ hw
    · rw [Function.update_of_ne hne] at hj
      exact h.within j stj hj
  · rw [or_iff_left (hends j), returned_update hstreamers]
    split
    · rename_i heq
      subst heq
      exact iff_of_false hrun fun ⟨_, hsome, _⟩ => by rw [hnone] at hsome; cases hsome
    · rfl

/-- Only the streamer `id` changes. -/
theorem Tracked.set {id : Nat} {st st' : Streamer} (h : Tracked past s)
    (hs : s.streamers id = some st) (hw : st'.Within)
    (hret : st'.phase = .returned ↔ st.phase = .returned ∨ x.act.Ends x.pre id)
    (hother : ∀ j, j ≠ id → ¬ x.act.Ends x.pre j) (hboard : v.board = s.board)
    (hstreamers : v.streamers = Function.update s.streamers id (some st')) :
    Tracked (past ++ [x]) v := by
  refine h.next (fun j hj => ?_) (fun j stj hj => ?_) fun j => ?_
  · have hnone := h.fresh j (hboard ▸ hj)
    have hne : j ≠ id := fun heq => by
      rw [← heq, hnone] at hs
      cases hs
    rw [hstreamers, Function.update_of_ne hne, hnone]
  · rw [hstreamers] at hj
    by_cases hne : j = id
    · subst hne
      rw [Function.update_self, Option.some.injEq] at hj
      exact hj ▸ hw
    · rw [Function.update_of_ne hne] at hj
      exact h.within j stj hj
  · rw [returned_update hstreamers]
    split
    · rename_i heq
      subst heq
      rw [hret]
      simp [StreamState.Returned, hs]
    · rename_i hne
      rw [or_iff_left (hother j hne)]

theorem Tracked.boardStep {a : Act} {u : State} (h : Tracked past s)
    (hends : ∀ j, ¬ x.act.Ends x.pre j) (hm : Move board s.board a u) :
    Tracked (past ++ [x]) (s.afterBoard lib a u) := by
  have hle : s.board.registered.length ≤ u.registered.length := by
    rcases registered_cases hm with hsame | ⟨g, -, hreg⟩
    · rw [hsame]
    · rw [hreg]
      exact Nat.le_succ _
  have hspawned : s.spawned lib u = s.streamers ∨ _ := spawned_cases hm
  rcases hspawned with hsame | ⟨size, hlen, hnew⟩
  · exact h.frame hends hle hsame
  · exact h.spawn hends (Streamer.within_new size) nofun hlen hnew

/-- **A streamer returns exactly when it comes to its end by itself**, over every step. -/
theorem Tracked.step {a : StreamAct} (h : Tracked past s)
    (hstep : streamStep lib board s a = some v) : Tracked (past ++ [⟨s, a, v⟩]) v := by
  cases a with
  | board a =>
    obtain ⟨u, hu, rfl⟩ := Option.map_eq_some_iff.mp hstep
    exact h.boardStep (fun _ => id) (step_move hu)
  | subscribe id n =>
    simp only [streamStep] at hstep
    split at hstep <;> cases hstep
    exact h.frame (fun _ => False.elim) (Nat.le_refl _) rfl
  | grant i =>
    simp only [streamStep] at hstep
    split at hstep
    · cases hstep
    · obtain ⟨st, hs, rfl⟩ := Option.map_eq_some_iff.mp hstep
      refine h.set hs (Streamer.within_grant (h.within _ st hs) _) ?_ (fun _ _ => False.elim)
        rfl rfl
      rw [Streamer.grant_phase]
      exact (or_iff_left id).symm
  | streamer id e =>
    obtain ⟨st', hst', rfl⟩ := Option.map_eq_some_iff.mp hstep
    obtain ⟨st, hs, hst⟩ := Option.bind_eq_some_iff.mp hst'
    obtain ⟨hrun, hw, hret⟩ := Streamer.step_spec (h.within id st hs) hst
    refine h.set hs hw ?_ (fun j hj hends => hj hends.1.symm) rfl rfl
    rw [hret, or_iff_right hrun]
    simp [StreamAct.Ends, hs]

theorem not_returned {id : Nat} {e : StreamerEvent} (h : Tracked past s)
    (hstep : streamStep lib board s (.streamer id e) = some v) : ¬ s.Returned id := by
  obtain ⟨st', hst', -⟩ := Option.map_eq_some_iff.mp hstep
  obtain ⟨st, hs, hst⟩ := Option.bind_eq_some_iff.mp hst'
  rintro ⟨st₁, hs₁, hret⟩
  rw [hs] at hs₁
  cases hs₁
  exact (Streamer.step_spec (h.within id st hs) hst).1 hret

/-! ## What a call drops -/

/-- A registration for a streamed file has a streamer, and what a call drops is such a
registration. -/
structure Attached (board : OfferBoard) (s : StreamState) : Prop where
  guarded : Guarded board s.board
  started : ∀ g ∈ s.board.registered, g.streamed.isSome = true → (s.streamers g.id).isSome = true
  dropping : ∀ t g, s.dropping t = some g → g ∈ s.board.registered ∧ g.streamed.isSome = true

theorem attached_new (board : OfferBoard) (now : Nat) : Attached board (.new board now) where
  guarded := (sound_new board now).guarded
  started _ h := by cases h
  dropping _ _ h := by cases h

theorem isSome_update {id j : Nat} {f : Nat → Option Streamer} {st : Streamer}
    (h : (f j).isSome = true) : (Function.update f id (some st) j).isSome = true := by
  by_cases hj : j = id
  · subst hj
    rw [Function.update_self]
    rfl
  · rwa [Function.update_of_ne hj]

/-- A step away from the board. -/
theorem Attached.keep (h : Attached board s) (hboard : v.board = s.board)
    (hdropping : v.dropping = s.dropping)
    (hstreamers : ∀ j, (s.streamers j).isSome = true → (v.streamers j).isSome = true) :
    Attached board v where
  guarded := by
    rw [hboard]
    exact h.guarded
  started g hg hstr := hstreamers g.id (h.started g (hboard ▸ hg) hstr)
  dropping := by
    rw [hboard, hdropping]
    exact h.dropping

theorem Attached.spawned {a : Act} {u : State} (h : Attached board s)
    (hm : Move board s.board a u) {g : ServeGuard} (hg : g ∈ u.registered)
    (hstr : g.streamed.isSome = true) : (s.spawned lib u g.id).isSome = true := by
  rcases registered_cases hm with hsame | ⟨g', hid, hreg⟩
  · -- the step registers nothing
    rw [hsame] at hg
    rcases spawned_cases hm with hspawned | ⟨size, -, hspawned⟩
    · rw [hspawned]
      exact h.started g hg hstr
    · rw [hspawned]
      exact isSome_update (h.started g hg hstr)
  · rw [hreg] at hg
    unfold StreamState.spawned
    rw [newGuard_of_cons hreg]
    rcases List.mem_cons.mp hg with rfl | hg
    · -- the registration is the new one
      obtain ⟨size, hsize⟩ := Option.isSome_iff_exists.mp hstr
      simp only [hsize, Function.update_self, Option.isSome_some]
    · have hold := h.started g hg hstr
      cases hsize : g'.streamed with
      | none =>
        simp only [hsize]
        exact hold
      | some size =>
        simp only [hsize]
        exact isSome_update hold

/-- The entry that is taken out is one of the map's. -/
theorem takenEntry_mem {s : State} {a : Act} {e : OfferEntry} (h : s.takenEntry a = some e) :
    ∃ fileId : String, s.offers[fileId]? = some e := by
  unfold State.takenEntry at h
  split at h
  · split at h
    · exact ⟨_, h⟩
    · cases h
  · split at h
    · exact ⟨_, h⟩
    · cases h
  · cases h

theorem Attached.boardStep {a : Act} {u : State} (h : Attached board s)
    (hm : Move board s.board a u) : Attached board (s.afterBoard lib a u) where
  guarded := guarded_move h.guarded hm
  started _ hg hstr := h.spawned hm hg hstr
  dropping := by
    have hmono : ∀ g ∈ s.board.registered, g ∈ u.registered := fun g hg => by
      rcases registered_cases hm with hsame | ⟨g', -, hreg⟩
      · rwa [hsame]
      · rw [hreg]
        exact List.mem_cons_of_mem _ hg
    have hkept : ∀ t g, s.dropping t = some g → g ∈ u.registered ∧ g.streamed.isSome = true :=
      fun t g hg => ⟨hmono g (h.dropping t g hg).1, (h.dropping t g hg).2⟩
    have htaken : ∀ g, ((s.board.takenEntry a).map (·.guard)).filter (·.streamed.isSome) =
        some g → g ∈ u.registered ∧ g.streamed.isSome = true := fun g hg => by
      obtain ⟨hg, hstr⟩ := Option.filter_eq_some_iff.mp hg
      obtain ⟨e, he, rfl⟩ := Option.map_eq_some_iff.mp hg
      obtain ⟨fileId, he⟩ := takenEntry_mem he
      exact ⟨hmono _ (h.guarded.entries fileId e he).1, hstr⟩
    intro t g hg
    cases a with
    | insert t' | erase t' =>
      by_cases ht : t = t'
      · subst ht
        exact htaken g (by simpa [StreamState.afterBoard] using hg)
      · exact hkept t g (by simpa [StreamState.afterBoard, ht] using hg)
    | unlock t' =>
      by_cases ht : t = t'
      · subst ht
        simp [StreamState.afterBoard] at hg
      · exact hkept t g (by simpa [StreamState.afterBoard, ht] using hg)
    | _ => exact hkept t g hg

theorem Attached.step {a : StreamAct} (h : Attached board s)
    (hstep : streamStep lib board s a = some v) : Attached board v := by
  cases a with
  | board a =>
    obtain ⟨u, hu, rfl⟩ := Option.map_eq_some_iff.mp hstep
    exact h.boardStep (step_move hu)
  | subscribe id n =>
    simp only [streamStep] at hstep
    split at hstep <;> cases hstep
    exact h.keep rfl rfl fun _ hj => hj
  | grant i =>
    simp only [streamStep] at hstep
    split at hstep
    · cases hstep
    · obtain ⟨st, hs, rfl⟩ := Option.map_eq_some_iff.mp hstep
      exact h.keep rfl rfl fun _ => isSome_update
  | streamer id e =>
    obtain ⟨st', hst', rfl⟩ := Option.map_eq_some_iff.mp hstep
    exact h.keep rfl rfl fun _ => isSome_update

section

variable {now : Nat} {tr rest : List StreamTrans} {u : StreamState}

/-- Every transition of a run starts from an account of the streamers. -/
theorem tracked_at (h : Run (stepRel (streamStep lib board)) (.new board now) tr u)
    (htr : tr = past ++ x :: rest) :
    Tracked past x.pre ∧ streamStep lib board x.pre x.act = some x.post := by
  subst htr
  obtain ⟨s, hpast, hrest⟩ := h.of_append
  cases hrest with
  | cons hx _ =>
    exact ⟨hpast.inv_hist (fun ht hs => ht.step hs) (tracked_new board now), hx⟩

/-- What a call drops has a streamer: `EndsStreams` asks whether that one has returned. -/
theorem streamer_of_drops (h : Run (stepRel (streamStep lib board)) (.new board now) tr u)
    (hx : x ∈ tr) {g : ServeGuard} (hd : Drops x g) : ∃ st, x.pre.streamers g.id = some st := by
  obtain ⟨t, -, hg⟩ := hd
  have hpre : Attached board x.pre :=
    ((h.inv (fun ha hs => Attached.step ha hs) (attached_new board now)).2 x hx).1
  obtain ⟨hmem, hstr⟩ := hpre.dropping t g hg
  exact Option.isSome_iff_exists.mp (hpre.started g hmem hstr)

theorem Finished.append {id : Nat} (h : Finished past id) (more : List StreamTrans) :
    Finished (past ++ more) id := by
  obtain ⟨y, hy, hends⟩ := h
  exact ⟨y, List.mem_append_left more hy, hends⟩

/-- The return of the call ends no streamer. -/
theorem Drops.finished {g : ServeGuard} (hd : Drops x g) (j : Nat) :
    Finished (past ++ [x]) j ↔ Finished past j := by
  obtain ⟨t, hact, -⟩ := hd
  rw [finished_snoc, hact]
  exact or_iff_left id

/-- Where a streamer is found returned, it had come to its end. -/
theorem finishedFirst_of_returned
    (h : Run (stepRel (streamStep lib board)) (.new board now) tr u)
    (hret : ∀ x ∈ tr, x.act.dropsReturned x.pre = true) : FinishedFirst tr := by
  rintro past x rest g htr ⟨t, hact, hg⟩
  have hx := hret x (htr ▸ List.mem_append_right past List.mem_cons_self)
  rw [hact, StreamAct.dropsReturned, hg, Option.all_some] at hx
  obtain ⟨st, hst, hphase⟩ := (Option.any_eq_true _ _).mp hx
  exact ((tracked_at h htr).1.ended g.id).mp ⟨st, hst, of_decide_eq_true hphase⟩

/-- **Removing or replacing a streamed offer, over every run**: it ends the stream if and only
if the streamer has come to its end by itself whenever such a call returns. -/
theorem endsStreams_iff (lib : ObjectLib) (board : OfferBoard) (now : Nat)
    {tr : List StreamTrans} {u : StreamState}
    (h : Run (stepRel (streamStep lib board)) (.new board now) tr u) :
    EndsStreams tr ↔ FinishedFirst tr := by
  constructor
  · intro hends past x rest g htr hd
    obtain ⟨ht, hstep⟩ := tracked_at h htr
    have hret := (hends past x rest g htr hd).1
    exact (hd.finished g.id).mp (((ht.step hstep).ended g.id).mp hret)
  · intro hfin past x rest g htr hd
    obtain ⟨ht, hstep⟩ := tracked_at h htr
    have hpast := hfin past x rest g htr hd
    refine ⟨((ht.step hstep).ended g.id).mpr ((hd.finished g.id).mpr hpast), fun y hy hact => ?_⟩
    -- a later send of the streamer would find it returned
    obtain ⟨rest₁, rest₂, rfl⟩ := List.append_of_mem hy
    have hy : tr = (past ++ x :: rest₁) ++ y :: rest₂ := by
      rw [htr, List.append_assoc, List.cons_append]
    obtain ⟨hty, hystep⟩ := tracked_at h hy
    rw [hact] at hystep
    exact not_returned hty hystep ((hty.ended g.id).mpr (hpast.append _))

end

/-! ## A streamed file -/

def ObjectLib.chunked : ObjectLib where
  lastSeg size := UInt64.ofNat ((size.toNat - 1) / offerChunk)
  lastSeg_le size := by
    rw [UInt64.toNat_ofNat']
    exact (Nat.mod_le _ _).trans (Nat.div_le_div_right (Nat.sub_le _ _))

def clip (size : UInt64) : AddCall := ⟨"v", "video", "video/mp4", .streamed size⟩

/-- The file is offered, a subscriber grants a segment, and that one is sent. -/
def offerActs (size : UInt64) (credit : UInt32) : List StreamAct :=
  [.board (.add 0 (clip size)), .board (.lockAdd 0), .board (.insert 0), .board (.build 0 1),
    .board (.push 0), .board (.unlock 0), .subscribe 0 credit, .grant 0, .streamer 0 .acquire,
    .streamer 0 (.answer true), .streamer 0 (.send true)]

/-- And removed, up to the return of `remove_offer`. -/
def removeActs : List StreamAct :=
  [.board (.lockRemove 0 "v"), .board (.erase 0), .board (.build 0 2), .board (.push 0)]

/-- A longer file is offered in its place, and its first segment sent. -/
def replaceActs : List StreamAct :=
  [.board (.add 0 (clip 20000)), .board (.lockAdd 0), .board (.insert 0), .board (.build 0 2),
    .board (.push 0), .board (.unlock 0), .subscribe 1 1, .grant 0, .streamer 1 .acquire,
    .streamer 1 (.answer true), .streamer 1 (.send true)]

/-- A file of one segment is through when another replaces it. -/
theorem endsStreams_iff_clip : ∃ tr u,
    Run (stepRel (streamStep .chunked (boardOf .w64))) (.new (boardOf .w64) 0) tr u ∧
    tr.map (·.act) = offerActs 100 1 ++ replaceActs ∧ u.dropped = [0] ∧ EndsStreams tr := by
  obtain ⟨u, hu, hdropped⟩ : ∃ u, exec (guarded (fun s a => a.dropsReturned s)
      (streamStep .chunked (boardOf .w64))) (.new (boardOf .w64) 0)
      (offerActs 100 1 ++ replaceActs) = some u ∧ u.dropped = [0] := ⟨_, rfl, rfl⟩
  obtain ⟨tr, hrun, hacts, hret⟩ := exec_guarded hu
  refine ⟨tr, u, hrun, hacts, hdropped, ?_⟩
  exact (endsStreams_iff .chunked (boardOf .w64) 0 hrun).mpr (finishedFirst_of_returned hrun hret)

/-- A file of three segments with two granted is removed after the first: its streamer still
holds it, and sends the second. -/
theorem endsStreams_fails : ¬ ∀ (lib : ObjectLib) (board : OfferBoard) (now : Nat)
    (tr : List StreamTrans) (u : StreamState),
    Run (stepRel (streamStep lib board)) (.new board now) tr u → EndsStreams tr := by
  intro h
  have hstate : ((exec (streamStep .chunked (boardOf .w64)) (.new (boardOf .w64) 0)
      (offerActs 20000 2 ++ removeActs)).map fun s =>
        (s.board.phase 0, (s.dropping 0).map (·.id), (s.streamers 0).map (·.phase))) =
      some (.leaving, some 0, some .acquiring) := by decide
  obtain ⟨s, hs, heq⟩ := Option.map_eq_some_iff.mp hstate
  simp only [Prod.mk.injEq, Option.map_eq_some_iff] at heq
  obtain ⟨hphase, ⟨g, hg, hid⟩, st, hst, hrun⟩ := heq
  obtain ⟨tr, hpast, -⟩ := exec_run hs
  obtain ⟨v, hunlock⟩ : ∃ v, streamStep .chunked (boardOf .w64) s (.board (.unlock 0)) = some v :=
    ⟨s.afterBoard .chunked (.unlock 0) { s.board.goto 0 .idle with lock := none },
      by simp [streamStep, step, hphase]⟩
  have hall := hpast.append (.cons hunlock (.nil _))
  have hd : Drops ⟨s, .board (.unlock 0), v⟩ g := ⟨0, rfl, hg⟩
  have hret := (h _ _ _ _ _ hall tr _ [] g rfl hd).1
  -- the return of the call changes nothing for the streamer
  have ht := (tracked_at hall rfl).1
  obtain ⟨st', hst', hret'⟩ := (ht.ended g.id).mpr ((hd.finished g.id).mp
    (((ht.step hunlock).ended g.id).mp hret))
  rw [hid, hst] at hst'
  cases hst'
  rw [hrun] at hret'
  cases hret'

end NdnMobile.Offer
