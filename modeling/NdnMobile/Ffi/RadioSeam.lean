import NdnMobile.Ffi.WifiAware
import NdnMobile.Lib.Channel

/-!
# The frames of a radio seam

What the platform's radio hears goes through `nan_deliver_followup` or `ble_deliver_frame`
into the bounded channel of the seam stored last, and the face of each attach reads its own
channel (`next_followup`, `next_scanned`). The two radios are one definition (`Radio`). A run
has any number of attaches, with calls on all backends between their steps. To a channel
that is a run of sends and receives (`chanAct`), so the channel's law gives what each face
reads (`radio_exact`).
-/

namespace NdnMobile.Ffi

open NdnMobile.Lib

/-! ## Frames -/

/-- `i8::try_from(rssi).ok().filter(|&r| r != 0)`. -/
def rssiDbm (rssi : Int32) : Option Int8 :=
  (if -128 ≤ rssi.toInt ∧ rssi.toInt ≤ 127 then some (Int8.ofInt rssi.toInt) else none).filter
    (· ≠ 0)

/-- `FollowupFrame`, its `peer` as the sender, and `ScannedFrame`, its `addr`. -/
structure HeardFrame where
  frame : Bytes
  sender : Option Mac
  rssiDbm : Option Int8
  deriving DecidableEq, Repr

/-- What a delivery call makes of its arguments. -/
def heardFrame (frame sender : Bytes) (rssi : Int32) : HeardFrame :=
  ⟨frame, Mac.tryFrom sender, rssiDbm rssi⟩

/-- A reported strength is passed on as it is or as unknown. -/
theorem rssiDbm_eq_some {rssi : Int32} {r : Int8} :
    rssiDbm rssi = some r ↔ r.toInt = rssi.toInt ∧ r ≠ 0 := by
  unfold rssiDbm
  have hlo := r.le_toInt
  have hhi := r.toInt_lt
  by_cases h : -128 ≤ rssi.toInt ∧ rssi.toInt ≤ 127
  · rw [if_pos h]
    have hval : (Int8.ofInt rssi.toInt).toInt = rssi.toInt := Int8.toInt_ofInt_of_le h.1 (by omega)
    simp only [Option.filter_eq_some_iff, Option.some.injEq, decide_eq_true_eq]
    constructor
    · rintro ⟨rfl, hr⟩
      exact ⟨hval, hr⟩
    · rintro ⟨hr, hne⟩
      exact ⟨Int8.toInt_inj.mp (hval.trans hr.symm), hne⟩
  · rw [if_neg h]
    simp only [Option.filter_none, reduceCtorEq, false_iff, not_and]
    intro hr
    exact absurd ⟨by omega, by omega⟩ h

/-! ## The engine's seam -/

/-- What the two radios differ in. -/
structure Radio where
  queueCap : Nat
  deriving DecidableEq, Repr

/-- `FOLLOWUP_QUEUE_CAP`. -/
def Radio.nan : Radio := ⟨256⟩

/-- `SCAN_QUEUE_CAP`. -/
def Radio.ble : Radio := ⟨256⟩

structure RadioState where
  /-- Not shut down. -/
  live : Bool
  /-- How many channels `make_seam` has made for an attach. -/
  made : Nat
  channels : Nat → Channel HeardFrame
  /-- The attach that has added its face and not stored its seam; it holds the engine. -/
  attaching : Option Nat
  /-- `nan_seam` or `ble_seam`. -/
  seam : Option Nat

namespace RadioState

def new : RadioState := ⟨true, 0, fun _ => .new, none, none⟩

variable (s : RadioState)

def setChannel (id : Nat) (c : Channel HeardFrame) : RadioState :=
  { s with channels := Function.update s.channels id c }

/-- The seam that is replaced, dropped. -/
def release : RadioState :=
  match s.seam with
  | none => s
  | some id => s.setChannel id (s.channels id).hangUp

end RadioState

inductive RadioCall where
  /-- `attach_wifi_aware` or `attach_ble`, up to the face that `add_face` starts. -/
  | attach
  /-- The rest of it. -/
  | store
  /-- `nan_deliver_followup` or `ble_deliver_frame`. -/
  | deliver (frame sender : Bytes) (rssi : Int32)
  /-- The face of the `id`-th attach calls `next_followup` or `next_scanned`. -/
  | next (id : Nat)
  /-- Its backend is dropped. -/
  | drop (id : Nat)
  | shutdown
  deriving DecidableEq, Repr

def radioStep (r : Radio) (s : RadioState) : RadioCall → Option RadioState
  | .attach =>
    if s.attaching.isSome then none -- waits for the engine
    else if s.live then some { s with made := s.made + 1, attaching := some s.made }
    else some s -- `engine is shut down`
  | .store =>
    match s.attaching with
    | none => none
    | some id => some { s.release with attaching := none, seam := some id }
  | .deliver frame sender rssi =>
    match s.seam with
    | none => some s
    | some id =>
      some (s.setChannel id ((s.channels id).trySend r.queueCap (heardFrame frame sender rssi)))
  | .next id =>
    if id < s.made ∧ (s.channels id).rx = true then
      (s.channels id).recv.map fun x => s.setChannel id x.2
    else none
  | .drop id => if id < s.made then some (s.setChannel id (s.channels id).leave) else none
  | .shutdown => if s.attaching.isSome then none else some { s with live := false }

abbrev RadioTrans := Trans RadioState RadioCall

/-- The frame a call puts in the channel of the `id`-th attach. -/
def acceptedFrame (r : Radio) (id : Nat) (x : RadioTrans) : Option HeardFrame :=
  match x.act with
  | .deliver frame sender rssi =>
    if x.pre.seam = some id ∧ (x.pre.channels id).hasRoom r.queueCap = true then
      some (heardFrame frame sender rssi)
    else none
  | _ => none

/-- The frame its face reads. -/
def readFrame (id : Nat) (x : RadioTrans) : Option HeardFrame :=
  match x.act with
  | .next i => if i = id then (x.pre.channels id).queue.head? else none
  | _ => none

def acceptedFrames (r : Radio) (id : Nat) (tr : List RadioTrans) : List HeardFrame :=
  tr.filterMap (acceptedFrame r id)

def readFrames (id : Nat) (tr : List RadioTrans) : List HeardFrame := tr.filterMap (readFrame id)

/-! ## What a call can do -/

inductive RadioMove (r : Radio) (s : RadioState) : RadioCall → RadioState → Prop where
  | attach : s.attaching = none → s.live = true →
    RadioMove r s .attach { s with made := s.made + 1, attaching := some s.made }
  | refused : s.attaching = none → RadioMove r s .attach s
  | store {id : Nat} : s.attaching = some id →
    RadioMove r s .store { s.release with attaching := none, seam := some id }
  | deliver {frame sender : Bytes} {rssi : Int32} {id : Nat} : s.seam = some id →
    RadioMove r s (.deliver frame sender rssi)
      (s.setChannel id ((s.channels id).trySend r.queueCap (heardFrame frame sender rssi)))
  | unattached {frame sender : Bytes} {rssi : Int32} : s.seam = none →
    RadioMove r s (.deliver frame sender rssi) s
  | next {id : Nat} {x : Option HeardFrame × Channel HeardFrame} : id < s.made →
    (s.channels id).rx = true → (s.channels id).recv = some x →
    RadioMove r s (.next id) (s.setChannel id x.2)
  | drop {id : Nat} : id < s.made →
    RadioMove r s (.drop id) (s.setChannel id (s.channels id).leave)
  | shutdown : s.attaching = none → RadioMove r s .shutdown { s with live := false }

variable {r : Radio} {s t : RadioState} {c : RadioCall} {id : Nat}

theorem radioStep_move (h : radioStep r s c = some t) : RadioMove r s c t := by
  cases c with
  | attach =>
    simp only [radioStep] at h
    split at h
    · cases h
    · rename_i hno
      have hnone : s.attaching = none := Option.not_isSome_iff_eq_none.mp hno
      split at h <;> cases h
      · exact .attach hnone ‹_›
      · exact .refused hnone
  | store =>
    simp only [radioStep] at h
    split at h <;> cases h
    exact .store ‹_›
  | deliver frame sender rssi =>
    simp only [radioStep] at h
    split at h <;> cases h
    · exact .unattached ‹_›
    · exact .deliver ‹_›
  | next id =>
    simp only [radioStep] at h
    split at h
    · rename_i hid
      obtain ⟨x, hx, rfl⟩ := Option.map_eq_some_iff.mp h
      exact .next hid.1 hid.2 hx
    · cases h
  | drop id =>
    simp only [radioStep] at h
    split at h <;> cases h
    exact .drop ‹_›
  | shutdown =>
    simp only [radioStep] at h
    split at h
    · cases h
    · cases h
      exact .shutdown (Option.not_isSome_iff_eq_none.mp ‹_›)

theorem RadioState.setChannel_self (s : RadioState) (id : Nat) (c : Channel HeardFrame) :
    (s.setChannel id c).channels id = c := Function.update_self ..

theorem RadioState.setChannel_ne (s : RadioState) {i j : Nat} (h : j ≠ i)
    (c : Channel HeardFrame) : (s.setChannel i c).channels j = s.channels j :=
  Function.update_of_ne h ..

theorem release_of_seam (h : s.seam = some id) :
    s.release.channels id = (s.channels id).hangUp := by
  rw [RadioState.release, h]
  exact s.setChannel_self ..

theorem release_of_ne (h : s.seam ≠ some id) : s.release.channels id = s.channels id := by
  unfold RadioState.release
  cases hs : s.seam with
  | none => rfl
  | some i => exact s.setChannel_ne (fun he => h (hs.trans (congrArg some he.symm))) _

/-! ## To one channel -/

/-- What a call does to the channel of the `id`-th attach. -/
def radioChan (id : Nat) (x : RadioTrans) : Option (Channel.Act HeardFrame) :=
  match x.act with
  | .store => if x.pre.seam = some id then some .hangUp else none
  | .deliver frame sender rssi =>
    if x.pre.seam = some id then some (.trySend (heardFrame frame sender rssi)) else none
  | .next i => if i = id then some .recv else none
  | .drop i => if i = id then some .leave else none
  | _ => none

theorem radio_chan (id : Nat) (h : radioStep r s c = some t) :
    (∃ b, radioChan id ⟨s, c, t⟩ = some b ∧
        stepRel (Channel.step r.queueCap) (s.channels id) b (t.channels id)) ∨
      radioChan id ⟨s, c, t⟩ = none ∧ t.channels id = s.channels id := by
  cases radioStep_move h with
  | attach | refused | shutdown => exact .inr ⟨rfl, rfl⟩
  | store =>
    by_cases hid : s.seam = some id
    · exact .inl ⟨.hangUp, if_pos hid, congrArg some (release_of_seam hid).symm⟩
    · exact .inr ⟨if_neg hid, release_of_ne hid⟩
  | @deliver frame sender rssi i hi =>
    by_cases hid : s.seam = some id
    · obtain rfl : i = id := Option.some.inj (hi.symm.trans hid)
      exact .inl ⟨.trySend _, if_pos hid, congrArg some (s.setChannel_self ..).symm⟩
    · exact .inr ⟨if_neg hid,
        s.setChannel_ne (fun he => hid (hi.trans (congrArg some he.symm))) _⟩
  | unattached hs => exact .inr ⟨if_neg (by simp [hs]), rfl⟩
  | @next i x _ hrx hx =>
    by_cases hid : i = id
    · subst hid
      refine .inl ⟨.recv, if_pos rfl, ?_⟩
      simp only [stepRel, Channel.step, if_pos hrx, hx, s.setChannel_self, Option.map_some]
    · exact .inr ⟨if_neg hid, s.setChannel_ne (Ne.symm hid) _⟩
  | @drop i _ =>
    by_cases hid : i = id
    · subst hid
      exact .inl ⟨.leave, if_pos rfl, congrArg some (s.setChannel_self ..).symm⟩
    · exact .inr ⟨if_neg hid, s.setChannel_ne (Ne.symm hid) _⟩

variable {tr : List RadioTrans} {u : RadioState}

theorem wentIn_radio (r : Radio) (id : Nat) (x : RadioTrans) :
    ((radioChan id x).map fun b => (⟨x.pre.channels id, b, x.post.channels id⟩ :
      Trans (Channel HeardFrame) (Channel.Act HeardFrame))).bind (Channel.wentIn r.queueCap) =
    acceptedFrame r id x := by
  obtain ⟨s, c, t⟩ := x
  cases c with
  | deliver frame sender rssi =>
    simp only [radioChan, acceptedFrame]
    by_cases hid : s.seam = some id
    · simp only [hid, true_and]
      rfl
    · simp only [hid, false_and]
      rfl
  | store => simp only [radioChan, acceptedFrame]; split <;> rfl
  | next i => simp only [radioChan, acceptedFrame]; split <;> rfl
  | drop i => simp only [radioChan, acceptedFrame]; split <;> rfl
  | attach | shutdown => rfl

theorem cameOut_radio (id : Nat) (x : RadioTrans) :
    ((radioChan id x).map fun b => (⟨x.pre.channels id, b, x.post.channels id⟩ :
      Trans (Channel HeardFrame) (Channel.Act HeardFrame))).bind Channel.cameOut =
    readFrame id x := by
  obtain ⟨s, c, t⟩ := x
  cases c with
  | next i =>
    simp only [radioChan, readFrame]
    by_cases hid : i = id
    · simp only [if_pos hid]
      rfl
    · simp only [if_neg hid]
      rfl
  | deliver => simp only [radioChan, readFrame]; split <;> rfl
  | store => simp only [radioChan, readFrame]; split <;> rfl
  | drop i => simp only [radioChan, readFrame]; split <;> rfl
  | attach | shutdown => rfl

/-- The channel's law, in the seam's words. -/
theorem radio_channel (id : Nat) (h : Run (stepRel (radioStep r)) .new tr u) :
    readFrames id tr <+: acceptedFrames r id tr ∧
      ((u.channels id).rx = true →
        acceptedFrames r id tr = readFrames id tr ++ (u.channels id).queue) ∧
      (u.channels id).queue.length ≤ r.queueCap := by
  obtain ⟨tr', hrun, rfl⟩ := h.component (fun s => s.channels id) (radioChan id)
    fun hs => radio_chan id hs
  obtain ⟨hfirst, horder, hlen⟩ := Channel.run_exact hrun
  simp only [Channel.received, Channel.sent, List.filterMap_filterMap, wentIn_radio,
    cameOut_radio] at hfirst horder
  exact ⟨hfirst, horder, hlen⟩

/-! ## Which channels are closed -/

/-- A channel whose sender is gone was made, and is neither stored nor about to be. -/
structure Wired (s : RadioState) : Prop where
  closed : ∀ id, (s.channels id).tx = false →
    id < s.made ∧ s.seam ≠ some id ∧ s.attaching ≠ some id
  stored : ∀ id, s.seam = some id → id < s.made ∧ s.attaching ≠ some id
  attaching : ∀ id, s.attaching = some id → id < s.made

theorem Wired.new : Wired .new where
  closed _ h := absurd h Bool.true_eq_false.mp
  stored _ h := by cases h
  attaching _ h := by cases h

theorem Wired.setChannel (h : Wired s) {i : Nat} {c : Channel HeardFrame}
    (htx : c.tx = (s.channels i).tx) : Wired (s.setChannel i c) where
  closed id hid := by
    by_cases hi : id = i
    · subst hi
      rw [s.setChannel_self, htx] at hid
      exact h.closed id hid
    · rw [s.setChannel_ne hi] at hid
      exact h.closed id hid
  stored := h.stored
  attaching := h.attaching

theorem trySend_tx (cap : Nat) (c : Channel HeardFrame) (f : HeardFrame) :
    (c.trySend cap f).tx = c.tx := by
  unfold Channel.trySend
  split <;> rfl

theorem recv_tx {c : Channel HeardFrame} {x : Option HeardFrame × Channel HeardFrame}
    (h : c.recv = some x) : x.2.tx = c.tx := by
  unfold Channel.recv at h
  split at h
  · cases h; rfl
  · split at h <;> cases h
    rfl

theorem release_frame (s : RadioState) : s.release.made = s.made := by
  unfold RadioState.release
  split <;> rfl

theorem Wired.step (h : Wired s) (hm : RadioMove r s c t) : Wired t := by
  cases hm with
  | refused | unattached => exact h
  | shutdown => exact ⟨h.closed, h.stored, h.attaching⟩
  | deliver _ => exact h.setChannel (trySend_tx ..)
  | next _ _ hx => exact h.setChannel (recv_tx hx)
  | drop _ => exact h.setChannel rfl
  | attach _ _ =>
    refine ⟨fun id hid => ?_, fun id hid => ?_, fun id hid => ?_⟩
    · obtain ⟨hmade, hseam, -⟩ := h.closed id hid
      exact ⟨Nat.lt_succ_of_lt hmade, hseam, fun he =>
        absurd (Option.some.inj he) (Nat.ne_of_gt hmade)⟩
    · have hmade := (h.stored id hid).1
      exact ⟨Nat.lt_succ_of_lt hmade, fun he => absurd (Option.some.inj he) (Nat.ne_of_gt hmade)⟩
    · exact Option.some.inj hid ▸ Nat.lt_succ_self _
  | @store i hi =>
    have hmade := h.attaching i hi
    refine ⟨fun id hid => ?_, fun id hid => ?_, fun id hid => by cases hid⟩
    · have hne : i ≠ id ∧ id < s.made := by
        by_cases hs : s.seam = some id
        · exact ⟨fun he => (h.stored id hs).2 (he ▸ hi), (h.stored id hs).1⟩
        · rw [release_of_ne hs] at hid
          exact ⟨fun he => (h.closed id hid).2.2 (he ▸ hi), (h.closed id hid).1⟩
      exact ⟨(release_frame s).symm ▸ hne.2, fun he => hne.1 (Option.some.inj he),
        (Option.some_ne_none id).symm⟩
    · exact ⟨(release_frame s).symm ▸ Option.some.inj hid ▸ hmade, (Option.some_ne_none id).symm⟩

/-! ## The end of a face's frames -/

/-- Everything that went to the `id`-th attach has been read, and nothing more comes. -/
structure Exhausted (r : Radio) (id : Nat) (past : List RadioTrans) (s : RadioState) : Prop where
  tx : (s.channels id).tx = false
  queue : (s.channels id).queue = []
  all : acceptedFrames r id past = readFrames id past

variable {past : List RadioTrans}

theorem acceptedFrames_snoc (x : RadioTrans) : acceptedFrames r id (past ++ [x]) =
    acceptedFrames r id past ++ (acceptedFrame r id x).toList := filterMap_snoc _ past x

theorem readFrames_snoc (x : RadioTrans) :
    readFrames id (past ++ [x]) = readFrames id past ++ (readFrame id x).toList :=
  filterMap_snoc _ past x

theorem Exhausted.step (h : Exhausted r id past s) (hw : Wired s) (hs : radioStep r s c = some t) :
    Exhausted r id (past ++ [⟨s, c, t⟩]) t := by
  have hin : acceptedFrame r id ⟨s, c, t⟩ = none := by
    unfold acceptedFrame
    split
    · exact if_neg fun hseam => (hw.closed id h.tx).2.1 hseam.1
    · rfl
  have hout : readFrame id ⟨s, c, t⟩ = none := by
    unfold readFrame
    split
    · rw [h.queue, List.head?_nil, ite_self]
    · rfl
  have hall : acceptedFrames r id (past ++ [⟨s, c, t⟩]) = readFrames id (past ++ [⟨s, c, t⟩]) := by
    rw [acceptedFrames_snoc, readFrames_snoc, hin, hout, h.all]
  rcases radio_chan id hs with ⟨b, hb, hchan⟩ | ⟨-, heq⟩
  · have hm := Channel.step_moved hchan
    have hno := wentIn_radio r id ⟨s, c, t⟩
    rw [hb, hin] at hno
    exact ⟨hm.tx h.tx, hm.queue h.queue hno, hall⟩
  · exact ⟨heq ▸ h.tx, heq ▸ h.queue, hall⟩

/-- A face gets `Err(Closed)` once another attach has replaced its own and everything
that went to it has been read. -/
theorem exhausted_of_closed (h : Run (stepRel (radioStep r)) .new tr u) {x : RadioTrans}
    (hx : x ∈ tr) (hact : x.act = .next id) (hnone : readFrame id x = none) :
    x.pre.seam ≠ some id ∧ acceptedFrames r id tr = readFrames id tr := by
  obtain ⟨before, after, rfl⟩ := List.append_of_mem hx
  obtain ⟨s, hbefore, hrest⟩ := h.of_append
  cases hrest with
  | @cons _ t _ c _ hs hafter =>
    subst hact
    have hwired : Wired s :=
      (hbefore.inv (I := Wired) (fun hw hs => hw.step (radioStep_move hs)) .new).1
    have hstart : Exhausted r id before s := by
      cases radioStep_move hs with
      | next _ hrx hrecv =>
        have hq : (s.channels id).queue = [] := by
          simpa [readFrame] using hnone
        have htx : (s.channels id).tx = false := by
          rw [Channel.recv, hq] at hrecv
          by_contra hopen
          rw [if_pos (by simpa using hopen)] at hrecv
          cases hrecv
        have horder := (radio_channel id hbefore).2.1 hrx
        exact ⟨htx, hq, by rw [horder, hq, List.append_nil]⟩
    have hrun := hafter.inv_hist_from
      (I := fun past s => Wired s ∧ Exhausted r id past s)
      (fun hi hs => ⟨hi.1.step (radioStep_move hs), hi.2.step hi.1 hs⟩) _
      ⟨hwired.step (radioStep_move hs), hstart.step hwired hs⟩
    rw [List.append_assoc] at hrun
    exact ⟨(hwired.closed id hstart.tx).2.1, hrun.2.all⟩

/-! ## Runs -/

/-- **The seam of a radio, over every run** of attaches, deliveries and reads: the face of
each attach reads the frames that were delivered while its seam was the stored one and its
queue had room, in order and each once; those it has not read are in its queue, which stays
within its cap; and it is told that the seam is closed only after another attach has replaced
its own and it has read them all. -/
theorem radio_exact (r : Radio) {tr : List RadioTrans} {u : RadioState}
    (h : Run (stepRel (radioStep r)) .new tr u) (id : Nat) :
    readFrames id tr <+: acceptedFrames r id tr ∧
      ((u.channels id).rx = true →
        acceptedFrames r id tr = readFrames id tr ++ (u.channels id).queue) ∧
      (u.channels id).queue.length ≤ r.queueCap ∧
      ∀ x ∈ tr, x.act = .next id → readFrame id x = none →
        x.pre.seam ≠ some id ∧ acceptedFrames r id tr = readFrames id tr := by
  obtain ⟨hfirst, horder, hlen⟩ := radio_channel id h
  exact ⟨hfirst, horder, hlen, fun x hx hact hnone => exhausted_of_closed h hx hact hnone⟩

/-- A frame before any attach, one to the first, a second attach while the first face still
has it to read, one to the second, and the end of the first. -/
def twoAttaches : List RadioCall := [.deliver [9] [] 0, .attach, .store,
  .deliver [1] [2, 0, 0, 0, 0, 122] (-42), .attach, .store, .next 0, .deliver [2] [1, 2] 200,
  .next 0, .next 1]

theorem radio_exact_twoAttaches : ∃ tr u,
    Run (stepRel (radioStep .nan)) .new tr u ∧ tr.map (·.act) = twoAttaches ∧
    readFrames 0 tr <+: acceptedFrames .nan 0 tr ∧
      ((u.channels 0).rx = true →
        acceptedFrames .nan 0 tr = readFrames 0 tr ++ (u.channels 0).queue) ∧
      (u.channels 0).queue.length ≤ Radio.nan.queueCap ∧
      ∀ x ∈ tr, x.act = .next 0 → readFrame 0 x = none →
        x.pre.seam ≠ some 0 ∧ acceptedFrames .nan 0 tr = readFrames 0 tr := by
  obtain ⟨u, hu⟩ : ∃ u, exec (radioStep .nan) .new twoAttaches = some u := ⟨_, rfl⟩
  obtain ⟨tr, hrun, hacts⟩ := exec_run hu
  exact ⟨tr, u, hrun, hacts, radio_exact .nan hrun 0⟩

end NdnMobile.Ffi
