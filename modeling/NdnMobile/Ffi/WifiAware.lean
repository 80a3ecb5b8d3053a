import Mathlib.Logic.Function.Basic
import NdnMobile.Lib.BigEndian
import NdnMobile.Lib.Mailbox
import NdnMobile.Lib.Run
import NdnMobile.Rust

/-!
# The match buffer of the NAN seam

`make_seam` puts one vector behind two objects: `NanSeam::on_match` records a discovered
peer there, at most `MATCH_BUFFER_CAP` of them, and `FfiNanBackend::drain_matches` takes
the vector away. Every attach makes a new pair, so a run is about any number of pairs with
calls on all of them. A buffer is the mailbox of what was recorded through its seam
(`Kept`), and `matches_exact` reads off what the drains return.
-/

namespace NdnMobile.Ffi

open NdnMobile.Lib

/-- `MATCH_BUFFER_CAP`. -/
def matchBufferCap : Nat := 64

/-- `[u8; 6]`. -/
structure Mac where
  bytes : Bytes
  six : bytes.length = 6
  deriving DecidableEq, Repr

/-- `<[u8; 6]>::try_from(peer.as_slice())`. -/
def Mac.tryFrom (peer : Bytes) : Option Mac :=
  if h : peer.length = 6 then some ⟨peer, h⟩ else none

structure NanServiceName where
  service : String
  deriving DecidableEq, Repr

structure NanMatch where
  service : NanServiceName
  peer : Mac
  deriving DecidableEq, Repr

/-- The vectors that `make_seam` has allocated, in order. -/
structure Seams where
  allocated : Nat
  buffers : Nat → List NanMatch

structure NanSeam where
  /-- Which vector `matches` shares. -/
  buffer : Nat
  deriving DecidableEq, Repr

structure FfiNanBackend where
  /-- Which vector `matches` shares. -/
  buffer : Nat
  deriving DecidableEq, Repr

namespace Seams

def new : Seams := ⟨0, fun _ => []⟩

variable (s : Seams)

def set (id : Nat) (buffer : List NanMatch) : Seams :=
  { s with buffers := Function.update s.buffers id buffer }

theorem set_self (id : Nat) (buffer : List NanMatch) : (s.set id buffer).buffers id = buffer :=
  Function.update_self ..

theorem set_ne {id j : Nat} (h : id ≠ j) (buffer : List NanMatch) :
    (s.set id buffer).buffers j = s.buffers j := Function.update_of_ne (Ne.symm h) ..

/-- `make_seam`. -/
def makeSeam : (FfiNanBackend × NanSeam) × Seams :=
  ((⟨s.allocated⟩, ⟨s.allocated⟩), { s.set s.allocated [] with allocated := s.allocated + 1 })

end Seams

/-- Nothing panics while the lock is held (`onMatch_eq`), so it is never poisoned. -/
def NanSeam.onMatch (seam : NanSeam) (service : String) (peer : Bytes) (s : Seams) :
    Except Panic Seams :=
  match Mac.tryFrom peer with
  | none => .ok s
  | some peer => do
    let buffer := s.buffers seam.buffer
    let buffer ← if matchBufferCap ≤ buffer.length then vecRemove buffer 0 else .ok buffer
    .ok (s.set seam.buffer (buffer ++ [⟨⟨service⟩, peer⟩]))

/-- `std::mem::take` leaves an empty vector. -/
def FfiNanBackend.drainMatches (backend : FfiNanBackend) (s : Seams) : List NanMatch × Seams :=
  (s.buffers backend.buffer, s.set backend.buffer [])

inductive SeamCall where
  | makeSeam
  | onMatch (seam : NanSeam) (service : String) (peer : Bytes)
  | drainMatches (backend : FfiNanBackend)
  deriving DecidableEq, Repr

/-- Calls are made on what `make_seam` returned. -/
def seamStep (s : Seams) : SeamCall → Option Seams
  | .makeSeam => some s.makeSeam.2
  | .onMatch seam service peer =>
    if seam.buffer < s.allocated then (seam.onMatch service peer s).toOption else none
  | .drainMatches backend =>
    if backend.buffer < s.allocated then some (backend.drainMatches s).2 else none

abbrev SeamTrans := Trans Seams SeamCall

/-! ## What was recorded and what was drained -/

/-- The record of a peer of six bytes. -/
def nanMatch (service : String) (peer : Bytes) : Option NanMatch :=
  if six : peer.length = 6 then some ⟨⟨service⟩, ⟨peer, six⟩⟩ else none

/-- What a call is to the `id`-th buffer. -/
def SeamCall.event (id : Nat) : SeamCall → Option (BoxEvent NanMatch)
  | .makeSeam => none
  | .onMatch seam service peer =>
    if seam.buffer = id then (nanMatch service peer).map .put else none
  | .drainMatches backend => if backend.buffer = id then some .take else none

/-- The recorded matches and the drains of the `id`-th buffer. -/
def seamEvents (id : Nat) (tr : List SeamTrans) : List (BoxEvent NanMatch) :=
  tr.filterMap fun x => x.act.event id

/-- What a drain of the `id`-th buffer returns. -/
def drainedBy (id : Nat) (x : SeamTrans) : Option (List NanMatch) :=
  match x.act with
  | .drainMatches backend =>
    if backend.buffer = id then some (backend.drainMatches x.pre).1 else none
  | _ => none

variable {past : List SeamTrans} {s t : Seams} {c : SeamCall}

theorem seamEvents_snoc (id : Nat) (x : SeamTrans) :
    seamEvents id (past ++ [x]) = seamEvents id past ++ (x.act.event id).toList :=
  filterMap_snoc (fun x : SeamTrans => x.act.event id) past x

/-! ## Steps -/

/-- A call records at most the one match, in place of the oldest where the buffer is full; it
never panics. -/
theorem onMatch_eq (seam : NanSeam) (service : String) (peer : Bytes) (s : Seams) :
    seam.onMatch service peer s = .ok ((nanMatch service peer).elim s fun m =>
      s.set seam.buffer (pushNewest matchBufferCap (s.buffers seam.buffer) m)) := by
  unfold NanSeam.onMatch nanMatch Mac.tryFrom
  by_cases six : peer.length = 6
  · simp only [dif_pos six, Option.elim_some, pushNewest]
    by_cases hfull : matchBufferCap ≤ (s.buffers seam.buffer).length
    · have hpos : 0 < (s.buffers seam.buffer).length := Nat.lt_of_lt_of_le (by decide) hfull
      rw [if_pos hfull, if_pos hfull, vecRemove_of_lt hpos, List.eraseIdx_zero]
      rfl
    · rw [if_neg hfull, if_neg hfull]
      rfl
  · simp only [dif_neg six, Option.elim_none]

inductive SeamMove (s : Seams) : SeamCall → Seams → Prop where
  | makeSeam : SeamMove s .makeSeam s.makeSeam.2
  | record {seam : NanSeam} {service : String} {peer : Bytes} {m : NanMatch} :
    seam.buffer < s.allocated → nanMatch service peer = some m →
    SeamMove s (.onMatch seam service peer)
      (s.set seam.buffer (pushNewest matchBufferCap (s.buffers seam.buffer) m))
  | ignore {seam : NanSeam} {service : String} {peer : Bytes} :
    nanMatch service peer = none → SeamMove s (.onMatch seam service peer) s
  | drainMatches {backend : FfiNanBackend} : backend.buffer < s.allocated →
    SeamMove s (.drainMatches backend) (s.set backend.buffer [])

theorem seamStep_move (h : seamStep s c = some t) : SeamMove s c t := by
  cases c with
  | makeSeam => cases h; exact .makeSeam
  | onMatch seam service peer =>
    simp only [seamStep, onMatch_eq] at h
    split at h
    · rename_i hmade
      cases hm : nanMatch service peer with
      | none => rw [hm] at h; cases h; exact .ignore hm
      | some m => rw [hm] at h; cases h; exact .record hmade hm
    · cases h
  | drainMatches backend =>
    simp only [seamStep] at h
    split at h
    · cases h; exact .drainMatches ‹_›
    · cases h

/-! ## Runs -/

/-- The `id`-th buffer holds the newest of what was recorded since its last drain, and what
its drains returned is in order and repeats nothing. -/
structure KeptAt (id : Nat) (past : List SeamTrans) (buffer : List NanMatch) : Prop where
  newest : buffer = (unread (seamEvents id past)).rtake matchBufferCap
  drained : ((past.filterMap (drainedBy id)).flatten ++ unread (seamEvents id past)).Sublist
    (messages (seamEvents id past))

theorem drainedBy_of_event {id : Nat} {x : SeamTrans} (h : x.act.event id ≠ some .take) :
    drainedBy id x = none := by
  unfold drainedBy
  split
  · rename_i backend hact
    rw [hact] at h
    exact if_neg fun hid => h (if_pos hid)
  · rfl

variable {id : Nat} {x : SeamTrans} {buffer : List NanMatch} {m : NanMatch}

/-- A step that the buffer has no part in. -/
theorem seamEvents_frame (hx : x.act.event id = none) :
    seamEvents id (past ++ [x]) = seamEvents id past := by
  rw [seamEvents_snoc, hx, Option.toList_none, List.append_nil]

theorem KeptAt.frame (h : KeptAt id past buffer) (hx : x.act.event id = none) :
    KeptAt id (past ++ [x]) buffer := by
  have hevents : seamEvents id (past ++ [x]) = seamEvents id past := seamEvents_frame hx
  have hdrained : drainedBy id x = none := drainedBy_of_event (by simp [hx])
  refine ⟨?_, ?_⟩
  · rw [hevents]
    exact h.newest
  · rw [hevents, filterMap_snoc, hdrained, Option.toList_none, List.append_nil]
    exact h.drained

theorem KeptAt.put (h : KeptAt id past buffer) (hx : x.act.event id = some (.put m)) :
    KeptAt id (past ++ [x]) (pushNewest matchBufferCap buffer m) := by
  have hevents : seamEvents id (past ++ [x]) = seamEvents id past ++ [.put m] := by
    rw [seamEvents_snoc, hx, Option.toList_some]
  have hdrained : drainedBy id x = none := drainedBy_of_event (by simp [hx])
  refine ⟨?_, ?_⟩
  · rw [hevents, unread_put, h.newest]
    exact pushNewest_rtake (by decide)
  · rw [hevents, filterMap_snoc, hdrained, Option.toList_none, List.append_nil, unread_put,
      messages_put, ← List.append_assoc]
    exact h.drained.append (List.Sublist.refl _)

theorem KeptAt.take (h : KeptAt id past buffer) {backend : FfiNanBackend}
    (hact : x.act = .drainMatches backend) (hid : backend.buffer = id)
    (hpre : x.pre.buffers id = buffer) : KeptAt id (past ++ [x]) [] := by
  have hevents : seamEvents id (past ++ [x]) = seamEvents id past ++ [.take] := by
    rw [seamEvents_snoc, hact, SeamCall.event, if_pos hid, Option.toList_some]
  have hdrained : drainedBy id x = some ((unread (seamEvents id past)).rtake matchBufferCap) := by
    simp only [drainedBy, hact, if_pos hid, FfiNanBackend.drainMatches]
    rw [hid, hpre, h.newest]
  refine ⟨?_, ?_⟩
  · rw [hevents, unread_take, List.rtake_nil]
  · rw [filterMap_snoc, hdrained, Option.toList_some, hevents]
    exact read_sublist h.drained

/-- **Invariant**: every buffer is kept, and those not allocated yet were never used. -/
structure Kept (past : List SeamTrans) (s : Seams) : Prop where
  fresh : ∀ id, s.allocated ≤ id → seamEvents id past = []
  kept : ∀ id, KeptAt id past (s.buffers id)

theorem Kept.new : Kept [] .new where
  fresh _ _ := rfl
  kept _ := ⟨rfl, List.Sublist.refl _⟩

/-- A call on a buffer that `make_seam` has allocated leaves the others alone. -/
theorem Kept.set (h : Kept past s) (hmade : id < s.allocated)
    (hother : ∀ j, id ≠ j → x.act.event j = none)
    (hkept : KeptAt id (past ++ [x]) buffer) : Kept (past ++ [x]) (s.set id buffer) where
  fresh j hj := by
    have hne : id ≠ j := Nat.ne_of_lt (Nat.lt_of_lt_of_le hmade hj)
    rw [seamEvents_frame (hother j hne)]
    exact h.fresh j hj
  kept j := by
    by_cases hj : id = j
    · subst hj
      rw [s.set_self]
      exact hkept
    · rw [s.set_ne hj]
      exact (h.kept j).frame (hother j hj)

theorem Kept.step (h : Kept past s) (hm : SeamMove s c t) : Kept (past ++ [⟨s, c, t⟩]) t := by
  cases hm with
  | makeSeam =>
    refine ⟨fun id hid => ?_, fun id => ?_⟩
    · rw [seamEvents_frame rfl]
      exact h.fresh id (Nat.le_of_succ_le hid)
    · -- nothing was recorded under the new id, so its buffer was empty before
      have hsame : s.makeSeam.2.buffers id = s.buffers id := by
        by_cases hid : s.allocated = id
        · subst hid
          rw [(h.kept s.allocated).newest, h.fresh _ (Nat.le_refl _)]
          exact s.set_self s.allocated []
        · exact s.set_ne hid []
      rw [hsame]
      exact (h.kept id).frame rfl
  | @ignore seam service peer hm =>
    have hnone : ∀ id, SeamCall.event id (.onMatch seam service peer) = none := fun id => by
      simp only [SeamCall.event, hm, Option.map_none, ite_self]
    exact ⟨fun id hid => (seamEvents_frame (hnone id)).trans (h.fresh id hid),
      fun id => (h.kept id).frame (hnone id)⟩
  | @record seam service peer m hmade hm =>
    refine h.set hmade (fun j hj => if_neg hj) ((h.kept seam.buffer).put ?_)
    simp only [SeamCall.event, hm, Option.map_some, if_pos]
  | @drainMatches backend hmade =>
    exact h.set hmade (fun j hj => if_neg hj) ((h.kept backend.buffer).take rfl rfl rfl)

/-- **The match buffer, over every run** of calls on any number of seams: it never holds more
than `MATCH_BUFFER_CAP` matches; a drain returns the last of those recorded through its seam
since the drain before it, at most that many, oldest first; all drains of a buffer together
return matches that were recorded, in order and each once; and no call panics. -/
theorem matches_exact {tr : List SeamTrans} {u : Seams} (h : Run (stepRel seamStep) .new tr u) :
    (∀ id, (u.buffers id).length ≤ matchBufferCap) ∧
    (∀ past x rest backend, tr = past ++ x :: rest → x.act = .drainMatches backend →
      (backend.drainMatches x.pre).1 <:+ unread (seamEvents backend.buffer past) ∧
      (backend.drainMatches x.pre).1.length =
        min (unread (seamEvents backend.buffer past)).length matchBufferCap) ∧
    (∀ id, (tr.filterMap (drainedBy id)).flatten.Sublist (messages (seamEvents id tr))) ∧
    ∀ seam service peer, ∃ v, NanSeam.onMatch seam service peer u = .ok v := by
  have hkept : ∀ {past s}, Run (stepRel seamStep) .new past s → Kept past s := fun hr =>
    hr.inv_hist (fun hk hs => hk.step (seamStep_move hs)) .new
  refine ⟨fun id => ?_, fun past x rest backend htr hact => ?_, fun id => ?_,
    fun seam service peer => ⟨_, onMatch_eq ..⟩⟩
  · rw [((hkept h).kept id).newest, length_rtake]
    exact Nat.min_le_right ..
  · subst htr
    obtain ⟨s, hpast, hrest⟩ := h.of_append
    cases hrest
    have hnewest := ((hkept hpast).kept backend.buffer).newest
    simp only [FfiNanBackend.drainMatches]
    rw [hnewest]
    exact ⟨rtake_suffix, length_rtake⟩
  · exact (List.sublist_append_left ..).trans ((hkept h).kept id).drained

/-- The matches of 65 peers. -/
def crowd : List NanMatch :=
  (List.range 65).map fun i => ⟨⟨"ndn"⟩, ⟨[2, 0, 0, 0, 0, UInt8.ofNat i], rfl⟩⟩

/-- They are recorded, one of them before a peer of three bytes and the others after it. -/
def crowdCalls : List SeamCall :=
  let calls := crowd.map fun m => .onMatch ⟨0⟩ m.service.service m.peer.bytes
  .makeSeam :: calls.take 1 ++ .onMatch ⟨0⟩ "svc" [1, 2, 3] :: calls.drop 1

/-- The first drain returns all matches but the oldest, and the second none. -/
theorem matches_exact_crowd : ∃ past s t v,
    Run (stepRel seamStep) .new
      (past ++ [⟨s, .drainMatches ⟨0⟩, t⟩, ⟨t, .drainMatches ⟨0⟩, v⟩]) v ∧
    past.map (·.act) = crowdCalls ∧ (FfiNanBackend.drainMatches ⟨0⟩ s).1 = crowd.drop 1 ∧
    (FfiNanBackend.drainMatches ⟨0⟩ t).1 = [] := by
  obtain ⟨s, hs, hmade⟩ : ∃ s, exec seamStep .new crowdCalls = some s ∧ s.allocated = 1 :=
    ⟨_, rfl, rfl⟩
  obtain ⟨past, hpast, hacts⟩ := exec_run hs
  have hrecorded : unread (seamEvents 0 past) = crowd := by
    have hevents : seamEvents 0 past = crowdCalls.filterMap (SeamCall.event 0) := by
      rw [← hacts, List.filterMap_map]
      rfl
    rw [hevents]
    rfl
  obtain ⟨t, ht, hleft⟩ : ∃ t, seamStep s (.drainMatches ⟨0⟩) = some t ∧ t.allocated = 1 :=
    ⟨_, if_pos (hmade ▸ Nat.one_pos), hmade⟩
  obtain ⟨v, hv⟩ : ∃ v, seamStep t (.drainMatches ⟨0⟩) = some v :=
    ⟨_, if_pos (hleft ▸ Nat.one_pos)⟩
  have hrun := hpast.append (.cons ht (.cons hv (.nil v)))
  obtain ⟨-, hdrains, -⟩ := matches_exact hrun
  refine ⟨past, s, t, v, hrun, hacts, ?_, ?_⟩
  · obtain ⟨hlast, hlen⟩ := hdrains past _ _ ⟨0⟩ rfl rfl
    rw [hrecorded] at hlast hlen
    rw [List.suffix_iff_eq_drop.mp hlast, hlen]
    rfl
  · obtain ⟨hlast, -⟩ := hdrains (past ++ [⟨s, .drainMatches ⟨0⟩, t⟩])
      ⟨t, .drainMatches ⟨0⟩, v⟩ [] ⟨0⟩ (by simp) rfl
    have hnone : unread (seamEvents 0 (past ++ [⟨s, .drainMatches ⟨0⟩, t⟩])) = [] := by
      rw [seamEvents_snoc]
      exact unread_take
    exact List.suffix_nil.mp (hnone ▸ hlast)

end NdnMobile.Ffi
