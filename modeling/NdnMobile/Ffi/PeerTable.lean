import NdnMobile.Ffi.NdnEngine
import NdnMobile.Lib.Expiry
import Mathlib.Data.Finset.Basic

/-!
# Reading the peer list

`snapshot_json` drops the peers not heard for `PEER_TTL` from the table, and nothing else does:
an entry no one reads stays, and the next beacon is merged into it. So the peer list depends
on when it was read before, except where a peer that comes back after a silence says again
all that it had said (`readsInvisible_iff`).
-/

namespace NdnMobile.Ffi

open NdnMobile.Lib

/-- `PEER_TTL`; the clock counts nanoseconds. -/
def peerTtl : Nat := 30000000000

/-- What the list shows of a peer. -/
structure PeerRow where
  label : String
  faces : Finset String
  rssi : Int
  ageMs : Nat
  infra : Option String
  deriving DecidableEq

def PeerEntry.row (entry : PeerEntry) (now : Instant) : PeerRow where
  label := entry.label
  faces := entry.faces
  rssi := entry.rssiDbm
  ageMs := (now - entry.lastSeen) / 1000000
  infra := entry.infraAddr

namespace DiscoveryState

variable (s : DiscoveryState)

/-- `peers.retain` drops the entries that are not recent. -/
def retain (now : Instant) : DiscoveryState :=
  { s with peers := fun id => (s.peers id).filter fun e => now - e.lastSeen < peerTtl }

/-- The peers `snapshot_json` lists. -/
def listed (now : Instant) (id : String) : Option PeerRow :=
  ((s.retain now).peers id).map fun entry => entry.row now

end DiscoveryState

inductive TableCall where
  | notePeer (b : Beacon)
  | snapshotJson
  deriving DecidableEq, Repr

/-- What a call at a time does to the table. -/
def DiscoveryState.call (s : DiscoveryState) (x : Instant × TableCall) : DiscoveryState :=
  match x.2 with
  | .notePeer b => s.notePeer b x.1
  | .snapshotJson => s.retain x.1

/-- The table after some calls. -/
def DiscoveryState.after (s : DiscoveryState) (calls : List (Instant × TableCall)) :
    DiscoveryState := calls.foldl DiscoveryState.call s

/-- The beacons among the calls. -/
def notes (calls : List (Instant × TableCall)) : List (Instant × Beacon) :=
  calls.filterMap fun x =>
    match x.2 with
    | .notePeer b => some (x.1, b)
    | .snapshotJson => none

/-- Calls with these beacons and some reads, before the final one. -/
structure Schedule (beacons : List (Instant × Beacon)) (final : Instant)
    (calls : List (Instant × TableCall)) : Prop where
  timed : Timed calls
  notes : notes calls = beacons
  final : ∀ x ∈ calls, x.1 ≤ final

/-- The beacons of one peer. -/
def heardOf (id : String) (beacons : List (Instant × Beacon)) : List (Instant × Beacon) :=
  beacons.filter fun x => x.2.id = id

/-- The beacons fall apart where the peer is silent for `PEER_TTL`, and comes back. -/
def Returns (beacons before after : List (Instant × Beacon)) : Prop :=
  beacons = before ++ after ∧ after ≠ [] ∧ ∀ x ∈ before, ∀ y ∈ after, x.1 + peerTtl ≤ y.1

/-- Beacons and no reads. -/
def noteCalls (beacons : List (Instant × Beacon)) : List (Instant × TableCall) :=
  beacons.map fun x => (x.1, .notePeer x.2)

/-- **Reads are invisible**: the final list is the same under all schedules, and of a peer that
came back it shows what was heard since. -/
structure ReadsInvisible (s : DiscoveryState) (beacons : List (Instant × Beacon))
    (final : Instant) : Prop where
  same : ∀ calls calls', Schedule beacons final calls → Schedule beacons final calls' →
    (s.after calls).listed final = (s.after calls').listed final
  since : ∀ calls, Schedule beacons final calls → ∀ id before after,
    Returns (heardOf id beacons) before after →
      (s.after calls).listed final id = (s.after (noteCalls after)).listed final id

/-- What the beacons before a silence say of a peer, those after it say again. -/
structure Redundant (before after : List (Instant × Beacon)) : Prop where
  label : (∃ x ∈ before, x.2.label ≠ "") → ∃ x ∈ after, x.2.label ≠ ""
  faces : ∀ x ∈ before, x.2.face ≠ "" → ∃ y ∈ after, y.2.face = x.2.face
  infra : (∃ x ∈ before, x.2.infraAddr ≠ "") → ∃ x ∈ after, x.2.infraAddr ≠ ""

/-- Every peer on the list at the end repeats itself after each silence. -/
def Repeats (localId : String) (beacons : List (Instant × Beacon)) (final : Instant) : Prop :=
  ∀ id, id ≠ "" → id ≠ localId → (∃ x ∈ heardOf id beacons, final < x.1 + peerTtl) →
    ∀ before after, Returns (heardOf id beacons) before after → Redundant before after

variable {id localId localLabel : String} {s : DiscoveryState} {o : Option PeerEntry}
  {l before after beacons : List (Instant × Beacon)} {calls : List (Instant × TableCall)}
  {now final : Instant} {x : Instant × Beacon}

/-! ## One peer's entry -/

/-- A peer's entry is a cell that its beacons are put into. -/
def peerCell : Cell PeerEntry Beacon where
  put o now b := (o.getD ⟨b.label, ∅, b.rssi, none, now⟩).refresh b now
  seen e := e.lastSeen
  ttl := peerTtl
  seen_put _ _ _ := rfl

/-- What a call is to the entry of a peer. -/
def cellEvent (id : String) (x : Instant × TableCall) : Option (Instant × Option Beacon) :=
  match x.2 with
  | .notePeer b => if b.id = id then some (x.1, some b) else none
  | .snapshotJson => some (x.1, none)

/-- The entry of a peer after some calls. -/
theorem peers_after (hid : id ≠ "") (hself : id ≠ s.localId) :
    (s.after calls).peers id =
      (calls.filterMap (cellEvent id)).foldl peerCell.step (s.peers id) := by
  induction calls generalizing s with
  | nil => rfl
  | cons x calls ih =>
    obtain ⟨t, c⟩ := x
    show ((s.call (t, c)).after calls).peers id = _
    cases c with
    | snapshotJson =>
      rw [ih (s := s.call (t, .snapshotJson)) hself]
      rfl
    | notePeer b =>
      have hlocal : (s.call (t, .notePeer b)).localId = s.localId := by
        show (s.notePeer b t).localId = s.localId
        unfold DiscoveryState.notePeer
        split <;> rfl
      rw [ih (s := s.call (t, .notePeer b)) (hlocal ▸ hself)]
      by_cases hb : b.id = id
      · have hskip : ¬ (b.id = "" ∨ b.id = s.localId) := by
          rw [hb]
          exact not_or.mpr ⟨hid, hself⟩
        have hevent : cellEvent id (t, .notePeer b) = some (t, some b) := if_pos hb
        rw [List.filterMap_cons_some hevent, List.foldl_cons]
        show List.foldl _ ((s.notePeer b t).peers id) _ = _
        rw [DiscoveryState.notePeer, if_neg hskip]
        dsimp only
        rw [hb, Function.update_self]
        rfl
      · have hevent : cellEvent id (t, .notePeer b) = none := if_neg hb
        rw [List.filterMap_cons_none hevent]
        show List.foldl _ ((s.notePeer b t).peers id) _ = _
        unfold DiscoveryState.notePeer
        split
        · rfl
        · dsimp only
          rw [Function.update_of_ne (Ne.symm hb)]

/-- The node itself is never listed. -/
theorem peers_self (h : id = "" ∨ id = s.localId) (hnone : s.peers id = none) :
    (s.after calls).peers id = none := by
  induction calls generalizing s with
  | nil => exact hnone
  | cons x calls ih =>
    obtain ⟨t, c⟩ := x
    show ((s.call (t, c)).after calls).peers id = none
    cases c with
    | snapshotJson =>
      refine ih (s := s.call (t, .snapshotJson)) h ?_
      show (s.peers id).filter _ = none
      rw [hnone]
      rfl
    | notePeer b =>
      have hcall : s.call (t, .notePeer b) = s.notePeer b t := rfl
      rw [hcall]
      unfold DiscoveryState.notePeer
      split
      · exact ih h hnone
      · rename_i hskip
        refine ih (by exact h) ?_
        dsimp only
        rw [Function.update_of_ne, hnone]
        rintro rfl
        exact hskip h

/-! ## What beacons tell -/

/-- The entry of a peer that said nothing. -/
def blank : PeerEntry := ⟨"", ∅, 0, none, 0⟩

/-- An entry refreshed by one beacon after the other. -/
def told (entry : PeerEntry) (l : List (Instant × Beacon)) : PeerEntry :=
  l.foldl (fun entry x => entry.refresh x.2 x.1) entry

theorem told_append {entry : PeerEntry} :
    told entry (before ++ after) = told (told entry before) after := List.foldl_append

theorem told_concat {entry : PeerEntry} :
    told entry (l ++ [x]) = (told entry l).refresh x.2 x.1 := by
  rw [told_append]
  rfl

/-- A new entry says no more than a blank one. -/
theorem put_peerCell (b : Beacon) : peerCell.put o now b = (o.getD blank).refresh b now := by
  cases o with
  | some entry => rfl
  | none =>
    show PeerEntry.refresh _ b now = PeerEntry.refresh _ b now
    unfold PeerEntry.refresh blank
    dsimp only [Option.getD_none]
    split
    · rename_i hb
      rw [hb]
    · rfl

theorem merged_peerCell (hl : l ≠ []) : peerCell.merged o l = some (told (o.getD blank) l) := by
  induction l using List.reverseRecOn with
  | nil => exact absurd rfl hl
  | append_singleton l x ih =>
    rw [Cell.merged_concat, put_peerCell, told_concat]
    by_cases hl : l = []
    · subst hl
      rfl
    · rw [ih hl]
      rfl

theorem infra_isSome {b : Beacon} : b.infra.isSome = true ↔ b.infraAddr ≠ "" := by
  unfold Beacon.infra
  split
  · rename_i h
    exact iff_of_false nofun (not_not_intro h)
  · rename_i h
    exact iff_of_true rfl h

theorem exists_mem_concat {p : Instant × Beacon → Prop} :
    (∃ y ∈ l ++ [x], p y) ↔ (∃ y ∈ l, p y) ∨ p x := by
  simp only [List.mem_append, List.mem_singleton, or_and_right, exists_or, exists_eq_left]

section

variable {γ : Type} {field : PeerEntry → γ} {said : Beacon → Option γ}
  (hfield : ∀ entry b now, field (entry.refresh b now) = (said b).getD (field entry))
include hfield

/-- A field that some beacon overwrites does not depend on what it was before. -/
theorem told_of_said (h : ∃ x ∈ l, said x.2 ≠ none) :
    ∃ b v, said b = some v ∧ ∀ entry, field (told entry l) = v := by
  induction l using List.reverseRecOn with
  | nil => exact absurd h fun ⟨_, hx, _⟩ => List.not_mem_nil hx
  | append_singleton l x ih =>
    cases hx : said x.2 with
    | some v =>
      refine ⟨x.2, v, hx, fun entry => ?_⟩
      rw [told_concat, hfield, hx]
      rfl
    | none =>
      obtain ⟨b, v, hb, hv⟩ := ih ((exists_mem_concat.mp h).resolve_right fun hne => hne hx)
      refine ⟨b, v, hb, fun entry => ?_⟩
      rw [told_concat, hfield, hx]
      exact hv entry

theorem told_of_unsaid (h : ¬ ∃ x ∈ l, said x.2 ≠ none) (entry : PeerEntry) :
    field (told entry l) = field entry := by
  induction l using List.reverseRecOn with
  | nil => rfl
  | append_singleton l x ih =>
    rw [exists_mem_concat, not_or, not_not] at h
    rw [told_concat, hfield, h.2]
    exact ih h.1

/-- Without what was said before a silence such a field is the same exactly when nothing was, or
something is said after it. -/
theorem field_told_iff (hblank : ∀ b v, said b = some v → v ≠ field blank) :
    field (told (told blank before) after) = field (told blank after) ↔
      ((∃ x ∈ before, said x.2 ≠ none) → ∃ x ∈ after, said x.2 ≠ none) := by
  by_cases hafter : ∃ x ∈ after, said x.2 ≠ none
  · obtain ⟨b, v, -, hv⟩ := told_of_said hfield hafter
    rw [hv, hv]
    exact iff_of_true rfl fun _ => hafter
  · rw [told_of_unsaid hfield hafter, told_of_unsaid hfield hafter]
    by_cases hbefore : ∃ x ∈ before, said x.2 ≠ none
    · obtain ⟨b, v, hb, hv⟩ := told_of_said hfield hbefore
      rw [hv]
      exact iff_of_false (hblank b v hb) fun h => hafter (h hbefore)
    · rw [told_of_unsaid hfield hbefore]
      exact iff_of_true rfl fun h => absurd h hbefore

end

theorem mem_faces_told (entry : PeerEntry) {f : String} : f ∈ (told entry l).faces ↔
    f ∈ entry.faces ∨ f ≠ "" ∧ ∃ x ∈ l, x.2.face = f := by
  induction l using List.reverseRecOn with
  | nil => exact (or_iff_left fun h => nomatch h.2).symm
  | append_singleton l x ih =>
    rw [exists_mem_concat, told_concat]
    unfold PeerEntry.refresh
    dsimp only
    by_cases hx : x.2.face = ""
    · rw [if_pos hx, ih]
      refine or_congr_right ?_
      constructor
      · exact fun h => ⟨h.1, .inl h.2⟩
      · rintro ⟨hf, h | h⟩
        · exact ⟨hf, h⟩
        · exact absurd (h.symm.trans hx) hf
    · rw [if_neg hx, Finset.mem_insert, ih]
      constructor
      · rintro (rfl | h | h)
        · exact .inr ⟨hx, .inr rfl⟩
        · exact .inl h
        · exact .inr ⟨h.1, .inl h.2⟩
      · rintro (h | ⟨hf, h | h⟩)
        · exact .inr (.inl h)
        · exact .inr (.inr ⟨hf, h⟩)
        · exact .inl h.symm

/-- The rest of an entry is of the last beacon. -/
theorem told_last (entry entry' : PeerEntry) (hl : l ≠ []) :
    (told entry l).rssiDbm = (told entry' l).rssiDbm ∧
    (told entry l).lastSeen = (told entry' l).lastSeen := by
  induction l using List.reverseRecOn with
  | nil => exact absurd rfl hl
  | append_singleton l x _ =>
    rw [told_concat, told_concat]
    exact ⟨rfl, rfl⟩

/-- The label a beacon gives. -/
def Beacon.said (b : Beacon) : Option String := if b.label = "" then none else some b.label

theorem label_told_iff : (told (told blank before) after).label = (told blank after).label ↔
    ((∃ x ∈ before, x.2.label ≠ "") → ∃ x ∈ after, x.2.label ≠ "") := by
  have hsaid : ∀ b : Beacon, b.said ≠ none ↔ b.label ≠ "" := by
    intro b
    unfold Beacon.said
    by_cases hb : b.label = "" <;> simp [hb]
  have hfield : ∀ (entry : PeerEntry) (b : Beacon) (now : Instant),
      (entry.refresh b now).label = b.said.getD entry.label := by
    intro entry b now
    unfold PeerEntry.refresh Beacon.said
    by_cases hb : b.label = "" <;> simp [hb]
  have hblank : ∀ (b : Beacon) (v : String), b.said = some v → v ≠ blank.label := by
    intro b v hv
    unfold Beacon.said at hv
    split at hv
    · cases hv
    · rename_i hb
      cases hv
      exact hb
  simp only [← hsaid]
  exact field_told_iff hfield hblank

theorem infra_told_iff :
    (told (told blank before) after).infraAddr = (told blank after).infraAddr ↔
    ((∃ x ∈ before, x.2.infraAddr ≠ "") → ∃ x ∈ after, x.2.infraAddr ≠ "") := by
  have hsaid : ∀ b : Beacon, b.infra.map some ≠ none ↔ b.infraAddr ≠ "" := by
    intro b
    rw [← infra_isSome, Option.isSome_iff_ne_none, ne_eq, Option.map_eq_none_iff]
  have hfield : ∀ (entry : PeerEntry) (b : Beacon) (now : Instant),
      (entry.refresh b now).infraAddr = (b.infra.map some).getD entry.infraAddr := by
    intro entry b now
    unfold PeerEntry.refresh
    cases b.infra <;> rfl
  have hblank : ∀ (b : Beacon) (v : Option String), b.infra.map some = some v →
      v ≠ blank.infraAddr := by
    intro b v hv
    obtain ⟨addr, -, rfl⟩ := Option.map_eq_some_iff.mp hv
    exact Option.some_ne_none addr
  simp only [← hsaid]
  exact field_told_iff hfield hblank

theorem faces_told_iff : (told (told blank before) after).faces = (told blank after).faces ↔
    ∀ x ∈ before, x.2.face ≠ "" → ∃ y ∈ after, y.2.face = x.2.face := by
  have hblank : ∀ f, f ∉ blank.faces := fun f => Finset.notMem_empty f
  constructor
  · intro hf x hx hne
    have hmem : x.2.face ∈ (told (told blank before) after).faces :=
      (mem_faces_told _).mpr (.inl ((mem_faces_told _).mpr (.inr ⟨hne, x, hx, rfl⟩)))
    rw [hf, mem_faces_told] at hmem
    exact (hmem.resolve_left (hblank _)).2
  · intro h
    ext f
    rw [mem_faces_told, mem_faces_told, mem_faces_told]
    constructor
    · rintro ((hf | ⟨hf, x, hx, rfl⟩) | hf)
      · exact .inl hf
      · exact .inr ⟨hf, h x hx hf⟩
      · exact .inr hf
    · rintro (hf | hf)
      · exact .inl (.inl hf)
      · exact .inr hf

/-- An entry that kept what was said before a silence shows only what was said since exactly
when that says it all again. -/
theorem row_told_iff (hl : after ≠ []) :
    (told blank (before ++ after)).row now = (told blank after).row now ↔
      Redundant before after := by
  obtain ⟨hrssi, hseen⟩ := told_last (told blank before) blank hl
  rw [told_append]
  unfold PeerEntry.row
  rw [hrssi, hseen, PeerRow.mk.injEq, label_told_iff, faces_told_iff, infra_told_iff]
  constructor
  · rintro ⟨hlabel, hfaces, -, -, hinfra⟩
    exact ⟨hlabel, hfaces, hinfra⟩
  · intro h
    exact ⟨h.label, h.faces, rfl, rfl, h.infra⟩

/-! ## Schedules -/

theorem filterMap_noteCalls :
    (noteCalls l).filterMap (cellEvent id) = Cell.events (heardOf id l) := by
  induction l with
  | nil => rfl
  | cons x l ih =>
    show List.filterMap _ ((x.1, .notePeer x.2) :: noteCalls l) = _
    by_cases hx : x.2.id = id
    · have hevent : cellEvent id (x.1, .notePeer x.2) = some (x.1, some x.2) := if_pos hx
      have hheard : heardOf id (x :: l) = x :: heardOf id l :=
        List.filter_cons_of_pos (decide_eq_true hx)
      rw [List.filterMap_cons_some hevent, ih, hheard]
      rfl
    · have hevent : cellEvent id (x.1, .notePeer x.2) = none := if_neg hx
      have hheard : heardOf id (x :: l) = heardOf id l :=
        List.filter_cons_of_neg (by simpa using hx)
      rw [List.filterMap_cons_none hevent, ih, hheard]

theorem notes_noteCalls : notes (noteCalls l) = l := by
  unfold notes noteCalls
  rw [List.filterMap_map]
  exact List.filterMap_some

theorem puts_cellEvent (calls : List (Instant × TableCall)) :
    Cell.puts (calls.filterMap (cellEvent id)) = heardOf id (notes calls) := by
  unfold Cell.puts heardOf notes
  rw [List.filterMap_filterMap, List.filter_filterMap]
  refine List.filterMap_congr fun x _ => ?_
  obtain ⟨t, c⟩ := x
  cases c with
  | snapshotJson => rfl
  | notePeer b =>
    show (if b.id = id then _ else _ : Option (Instant × Option Beacon)).bind _ = _
    by_cases hb : b.id = id <;> simp [hb, Option.filter]

theorem timed_cellEvent (h : Timed calls) : Timed (calls.filterMap (cellEvent id)) := by
  have htime : ∀ x y, cellEvent id x = some y → y.1 = x.1 := by
    rintro ⟨t, c⟩ y hy
    cases c with
    | snapshotJson =>
      cases hy
      rfl
    | notePeer b =>
      dsimp only [cellEvent] at hy
      split at hy <;> cases hy
      rfl
  refine List.Pairwise.filterMap _ (fun x x' hxx y hy y' hy' => ?_) h
  rw [htime x y hy, htime x' y' hy']
  exact hxx

/-- The list shows of a peer what a read of its cell finds. -/
theorem listed_after (hid : id ≠ "") (hself : id ≠ localId) :
    ((DiscoveryState.new localId localLabel).after calls).listed final id =
      (peerCell.read ((calls.filterMap (cellEvent id)).foldl peerCell.step none) final).map
        fun entry => entry.row final := by
  have hpeers : ((DiscoveryState.new localId localLabel).after calls).peers id =
      (calls.filterMap (cellEvent id)).foldl peerCell.step none := peers_after hid hself
  unfold DiscoveryState.listed DiscoveryState.retain
  dsimp only
  rw [hpeers]
  rfl

theorem listed_noteCalls (hid : id ≠ "") (hself : id ≠ localId) :
    ((DiscoveryState.new localId localLabel).after (noteCalls l)).listed final id =
      (peerCell.read (peerCell.merged none (heardOf id l)) final).map
        fun entry => entry.row final := by
  rw [listed_after hid hself, filterMap_noteCalls, Cell.foldl_events]

theorem listed_self (h : id = "" ∨ id = localId) :
    ((DiscoveryState.new localId localLabel).after calls).listed final id = none := by
  have hnone : ((DiscoveryState.new localId localLabel).after calls).peers id = none :=
    peers_self h rfl
  unfold DiscoveryState.listed DiscoveryState.retain
  dsimp only
  rw [hnone]
  rfl

theorem recent_iff {t now : Nat} : now - t < peerTtl ↔ now < t + peerTtl := by
  unfold peerTtl
  omega

/-- Of a peer that came back, a read finds the same with and without what was said before the
silence exactly when the peer is off the list or repeated it. -/
theorem read_iff (ht : Timed (before ++ after)) (hne : after ≠ []) :
    ((peerCell.read (peerCell.merged none (before ++ after)) final).map fun e => e.row final) =
      ((peerCell.read (peerCell.merged none after) final).map fun e => e.row final) ↔
    ((∃ x ∈ before ++ after, final < x.1 + peerTtl) → Redundant before after) := by
  have hrow : (told blank (before ++ after)).row final = (told blank after).row final ↔
      Redundant before after := row_told_iff hne
  have hboth : before ++ after ≠ [] := List.append_ne_nil_of_right_ne_nil before hne
  have hmerged := merged_peerCell (o := none) hboth
  have hmerged' := merged_peerCell (o := none) hne
  obtain ⟨init, y, rfl⟩ := (List.eq_nil_or_concat' after).resolve_left hne
  rw [← List.append_assoc] at ht hmerged hrow ⊢
  have hlive : (∃ x ∈ before ++ init ++ [y], final < x.1 + peerTtl) ↔
      final - y.1 < peerCell.ttl := by
    show _ ↔ final - y.1 < peerTtl
    rw [recent_iff]
    constructor
    · rintro ⟨x, hx, hlt⟩
      have hxy : x.1 ≤ y.1 := by
        rcases List.mem_append.mp hx with hx | hx
        · exact ht.le_concat.2 x hx
        · exact Nat.le_of_eq (congrArg _ (List.mem_singleton.mp hx))
      exact Nat.lt_of_lt_of_le hlt (Nat.add_le_add_right hxy _)
    · intro hlt
      exact ⟨y, List.mem_concat_self, hlt⟩
  rw [hlive, Cell.read_merged_concat, Cell.read_merged_concat]
  by_cases hrecent : final - y.1 < peerCell.ttl
  · rw [if_pos hrecent, if_pos hrecent, hmerged, hmerged', Option.map_some, Option.map_some,
      Option.some.injEq]
    exact hrow.trans ⟨fun h _ => h, fun h => h hrecent⟩
  · rw [if_neg hrecent, if_neg hrecent]
    exact iff_of_true rfl fun h => absurd h hrecent

/-- Under any schedule, a list that repeats itself is what no reads give. -/
theorem listed_schedule (hs : Schedule beacons final calls)
    (hr : Repeats localId beacons final) (hid : id ≠ "") (hself : id ≠ localId) :
    ((DiscoveryState.new localId localLabel).after calls).listed final id =
      (peerCell.read (peerCell.merged none (heardOf id beacons)) final).map
        fun entry => entry.row final := by
  have htimed : Timed (calls.filterMap (cellEvent id)) := timed_cellEvent hs.timed
  have hfinal : ∀ x ∈ calls.filterMap (cellEvent id), x.1 ≤ final := by
    intro x hx
    obtain ⟨⟨t, c⟩, hm, he⟩ := List.mem_filterMap.mp hx
    have hle := hs.final _ hm
    cases c with
    | snapshotJson =>
      cases he
      exact hle
    | notePeer b =>
      dsimp only [cellEvent] at he
      split at he <;> cases he
      exact hle
  obtain ⟨before, after, hputs, hhold, hgap⟩ :=
    Cell.exists_after (c := peerCell) htimed final hfinal
  have ht : Timed (before ++ after) := hputs ▸ Cell.timed_puts htimed
  rw [puts_cellEvent, hs.notes] at hputs
  rw [listed_after hid hself, hhold, hputs]
  by_cases hafter : after = []
  · -- a read found the peer silent, and so does the last one
    subst hafter
    rw [List.append_nil]
    rcases List.eq_nil_or_concat' before with rfl | ⟨init, y, rfl⟩
    · rfl
    · have hy := (hgap y List.mem_concat_self).1
      have hold : ¬ final - y.1 < peerCell.ttl := fun h => Nat.not_le.mpr (recent_iff.mp h) hy
      rw [Cell.read_merged_concat, if_neg hold]
      rfl
  · refine ((read_iff ht hafter).mpr fun hlive => ?_).symm
    exact hr id hid hself (hputs ▸ hlive) before after
      ⟨hputs, hafter, fun x hx => (hgap x hx).2⟩

theorem timed_heardOf (h : Timed beacons) : Timed (heardOf id beacons) := List.Pairwise.filter _ h

theorem timed_noteCalls (h : Timed l) : Timed (noteCalls l) := by
  unfold Timed noteCalls
  rw [List.pairwise_map]
  exact h

/-- No reads at all is a schedule. -/
theorem schedule_noteCalls (ht : Timed beacons) (hf : ∀ x ∈ beacons, x.1 ≤ final) :
    Schedule beacons final (noteCalls beacons) := by
  refine ⟨timed_noteCalls ht, notes_noteCalls, fun x hx => ?_⟩
  obtain ⟨y, hy, rfl⟩ := List.mem_map.mp hx
  exact hf y hy

/-- One read, when a beacon comes in. -/
theorem schedule_cut (ht : Timed (before ++ x :: after))
    (hf : ∀ y ∈ before ++ x :: after, y.1 ≤ final) :
    Schedule (before ++ x :: after) final
      (noteCalls before ++ (x.1, .snapshotJson) :: noteCalls (x :: after)) := by
  refine ⟨?_, ?_, fun y hy => ?_⟩
  · have htimed := timed_noteCalls ht
    unfold noteCalls at htimed
    rw [List.map_append] at htimed
    obtain ⟨hbefore, hafter, hle⟩ := List.pairwise_append.mp htimed
    refine List.pairwise_append.mpr ⟨hbefore, List.pairwise_cons.mpr ⟨fun y hy => ?_, hafter⟩,
      fun y hy z hz => ?_⟩
    · rcases List.mem_cons.mp hy with rfl | hy
      · exact Nat.le_refl _
      · exact (List.pairwise_cons.mp hafter).1 y hy
    · rcases List.mem_cons.mp hz with rfl | hz
      · exact hle y hy (x.1, .notePeer x.2) List.mem_cons_self
      · exact hle y hy z hz
  · have hmid : notes [(x.1, TableCall.snapshotJson)] = [] := rfl
    rw [← List.singleton_append, notes, List.filterMap_append, List.filterMap_append]
    show notes (noteCalls before) ++ (notes [(x.1, TableCall.snapshotJson)] ++
      notes (noteCalls (x :: after))) = _
    rw [hmid, notes_noteCalls, notes_noteCalls, List.nil_append]
  · rcases List.mem_append.mp hy with hy | hy
    · obtain ⟨z, hz, rfl⟩ := List.mem_map.mp hy
      exact hf z (List.mem_append_left _ hz)
    · rcases List.mem_cons.mp hy with rfl | hy
      · exact hf x (List.mem_append_right _ List.mem_cons_self)
      · obtain ⟨z, hz, rfl⟩ := List.mem_map.mp hy
        exact hf z (List.mem_append_right _ hz)

/-- Where the final list is always the same, each peer on it repeats itself. -/
theorem repeats_of_same (ht : Timed beacons) (hf : ∀ x ∈ beacons, x.1 ≤ final)
    (h : ∀ calls calls', Schedule beacons final calls → Schedule beacons final calls' →
      ((DiscoveryState.new localId localLabel).after calls).listed final =
        ((DiscoveryState.new localId localLabel).after calls').listed final) :
    Repeats localId beacons final := by
  rintro id hid hself hlive before after ⟨hheard, hne, hgap⟩
  obtain ⟨x, after, rfl⟩ := List.exists_cons_of_ne_nil hne
  -- the read falls just before the first beacon after the silence
  obtain ⟨b₁, b₂, rfl, hb₁, hb₂⟩ := List.filter_eq_append_iff.mp hheard
  obtain ⟨c₁, c₂, rfl, hc₁, hx, hc₂⟩ := List.filter_eq_cons_iff.mp hb₂
  have hsplit : b₁ ++ (c₁ ++ x :: c₂) = (b₁ ++ c₁) ++ x :: c₂ := (List.append_assoc _ _ _).symm
  have hbefore : heardOf id (b₁ ++ c₁) = before := by
    unfold heardOf
    rw [List.filter_append, hb₁, List.filter_eq_nil_iff.mpr hc₁, List.append_nil]
  have hcons : heardOf id (x :: c₂) = x :: heardOf id c₂ := List.filter_cons_of_pos hx
  have hafter : heardOf id (x :: c₂) = x :: after := hcons.trans (congrArg (x :: ·) hc₂)
  have hevents : ((noteCalls (b₁ ++ c₁) ++ (x.1, .snapshotJson) :: noteCalls (x :: c₂)).filterMap
      (cellEvent id)) = Cell.events before ++ (x.1, none) :: Cell.events (x :: after) := by
    have hread : cellEvent id (x.1, .snapshotJson) = some (x.1, none) := rfl
    rw [List.filterMap_append, List.filterMap_cons_some hread, filterMap_noteCalls,
      filterMap_noteCalls, hbefore, hafter]
  rw [hsplit] at ht hf
  have hlisted := congrFun (h _ _ (hsplit ▸ schedule_noteCalls ht hf)
    (hsplit ▸ schedule_cut ht hf)) id
  rw [listed_noteCalls hid hself, listed_after hid hself, hevents, Cell.foldl_cut fun y hy =>
    hgap y hy x List.mem_cons_self, hheard] at hlisted
  have htimed : Timed (before ++ x :: after) := hheard ▸ timed_heardOf (hsplit ▸ ht)
  exact (read_iff htimed hne).mp hlisted (hheard ▸ hlive)

/-- **Reads are invisible** exactly when every peer on the final list repeats, after each silence
of `PEER_TTL`, what it had said before. -/
theorem readsInvisible_iff (localId localLabel : String) {beacons : List (Instant × Beacon)}
    {final : Instant} (ht : Timed beacons) (hf : ∀ x ∈ beacons, x.1 ≤ final) :
    ReadsInvisible (.new localId localLabel) beacons final ↔ Repeats localId beacons final := by
  constructor
  · intro h
    exact repeats_of_same ht hf h.same
  · intro hr
    refine ⟨fun calls calls' hs hs' => funext fun id => ?_,
      fun calls hs id before after hret => ?_⟩
    · by_cases hid : id = "" ∨ id = localId
      · rw [listed_self hid, listed_self hid]
      · obtain ⟨hid, hself⟩ := not_or.mp hid
        rw [listed_schedule hs hr hid hself, listed_schedule hs' hr hid hself]
    · by_cases hid : id = "" ∨ id = localId
      · rw [listed_self hid, listed_self hid]
      · obtain ⟨hid, hself⟩ := not_or.mp hid
        obtain ⟨hheard, hne, hgap⟩ := hret
        have hown : heardOf id after = after := by
          refine List.filter_eq_self.mpr fun x hx => ?_
          have hmem : x ∈ heardOf id beacons := hheard ▸ List.mem_append_right before hx
          exact (List.mem_filter.mp hmem).2
        rw [listed_schedule hs hr hid hself, listed_noteCalls hid hself, hown, hheard]
        refine (read_iff (hheard ▸ timed_heardOf ht) hne).mpr fun hlive => ?_
        exact hr id hid hself (hheard ▸ hlive) before after ⟨hheard, hne, hgap⟩

/-- A peer that moves from one radio to another within a silence, and is heard on both again. -/
def roams : List (Instant × Beacon) :=
  [(0, ⟨"a", "A", "ble", 0, ""⟩), (40000000000, ⟨"a", "A", "wifi-aware", 0, ""⟩),
    (41000000000, ⟨"a", "A", "ble", 0, ""⟩)]

theorem repeats_roams : Repeats "me" roams 50000000000 := by
  rintro id - - ⟨x, hx, -⟩ before after ⟨hheard, hne, hgap⟩
  obtain ⟨hx, hid⟩ := List.mem_filter.mp hx
  obtain rfl : "a" = id := by
    have hall : ∀ y ∈ roams, y.2.id = "a" := by simp [roams]
    exact (hall x hx).symm.trans (of_decide_eq_true hid)
  rw [show heardOf "a" roams = roams from rfl] at hheard
  have hbefore : ∀ y ∈ before, y ∈ roams := fun y hy => hheard ▸ List.mem_append_left after hy
  -- behind any silence there is the last beacon
  obtain ⟨init, last, rfl⟩ := (List.eq_nil_or_concat' after).resolve_left hne
  obtain rfl : (41000000000, ⟨"a", "A", "ble", 0, ""⟩) = last := by
    simpa [roams] using congrArg List.getLast? hheard
  refine ⟨fun _ => ⟨_, List.mem_concat_self, by decide⟩, fun y hy _ => ?_, ?_⟩
  · rcases List.mem_cons.mp (hbefore y hy) with rfl | hroams
    · exact ⟨_, List.mem_concat_self, rfl⟩
    · -- no silence follows the other two
      have hsilent := hgap y hy _ List.mem_concat_self
      rcases (by simpa using hroams : y = _ ∨ y = _) with rfl | rfl
      · exact absurd hsilent (by decide)
      · exact absurd hsilent (by decide)
  · rintro ⟨y, hy, hinfra⟩
    have hnone : ∀ y ∈ roams, y.2.infraAddr = "" := by simp [roams]
    exact absurd (hnone y (hbefore y hy)) hinfra

theorem readsInvisible_iff_roams : ReadsInvisible (.new "me" "Me") roams 50000000000 :=
  (readsInvisible_iff "me" "Me" (by unfold Timed roams; simp) (by unfold roams; simp)).mpr
    repeats_roams

/-- Without a read in between, a peer that comes back on another radio is listed on both. -/
theorem readsInvisible_fails : ¬ ∀ (localId localLabel : String)
    (beacons : List (Instant × Beacon)) (final : Instant), Timed beacons →
    (∀ x ∈ beacons, x.1 ≤ final) →
      ReadsInvisible (.new localId localLabel) beacons final := by
  intro h
  have hsame := (h "me" "Me" (roams.take 2) 50000000000 (by unfold Timed roams; simp)
    (by unfold roams; simp)).same (noteCalls (roams.take 2))
    [(0, .notePeer ⟨"a", "A", "ble", 0, ""⟩), (30000000000, .snapshotJson),
      (40000000000, .notePeer ⟨"a", "A", "wifi-aware", 0, ""⟩)]
    (schedule_noteCalls (by unfold Timed roams; simp) (by unfold roams; simp))
    ⟨by unfold Timed; simp, rfl, by simp⟩
  exact absurd (congrFun hsame "a") (by decide)

end NdnMobile.Ffi
