import NdnMobile.Ffi.PeerTable
import NdnMobile.Ffi.NotePeer

/-!
# The nearby list over a session

`start_discovery` begins an empty table, beacons come in through `note_peer` with everything
else that is called on the engine, and a leaf reads the dataset now and then, each read
dropping who was silent for `PEER_TTL`. Whenever it is read, the list has exactly the peers
heard within `PEER_TTL` since discovery started last, other than the node itself: with the
signal and the age of the last beacon, all that was said of faces, label and address within
`PEER_TTL`, and nothing that the peer never said (`nearby_exact`).
-/

namespace NdnMobile.Ffi

open NdnMobile.Lib NdnMobile.Engine

/-! ## A session -/

inductive SessionCall where
  | startDiscovery (nodeId label : String)
  | notePeer (b : Beacon) (os : MobileEngine.Os)
  /-- An Interest for the dataset is answered. -/
  | readPeers
  | setInfraAddr (ipv4 : String)
  | setInfraSocket (fd : Fd)
  | shutdown

/-- What a call at a time does to the engine; `snapshot_json` prunes the table it renders. -/
def NdnEngine.call (P : Parsers) (e : NdnEngine) (x : Instant × SessionCall) : NdnEngine :=
  match x.2 with
  | .startDiscovery nodeId label => e.startDiscovery nodeId label
  | .notePeer b os => e.notePeer P b x.1 os
  | .readPeers => { e with discovery := e.discovery.map fun s => s.retain x.1 }
  | .setInfraAddr ipv4 => e.setInfraAddr ipv4
  | .setInfraSocket fd => e.setInfraSocket fd
  | .shutdown => e.shutdown

/-- The engine after some calls. -/
def NdnEngine.after (P : Parsers) (e : NdnEngine) (calls : List (Instant × SessionCall)) :
    NdnEngine := calls.foldl (NdnEngine.call P) e

def SessionCall.starts : SessionCall → Bool
  | .startDiscovery _ _ => true
  | _ => false

/-- What a call is to the table of the running discovery. -/
def SessionCall.table : SessionCall → Option TableCall
  | .notePeer b _ => some (.notePeer b)
  | .readPeers => some .snapshotJson
  | _ => none

def tableCalls (calls : List (Instant × SessionCall)) : List (Instant × TableCall) :=
  calls.filterMap fun x => x.2.table.map fun c => (x.1, c)

/-! ## What the list should show -/

/-- A row that shows a peer, given its beacons and the time. -/
structure Shows (heard : List (Instant × Beacon)) (now : Instant) (row : PeerRow) : Prop where
  /-- The signal and the age are of the last beacon, which is recent. -/
  last : ∃ earlier y, heard = earlier ++ [y] ∧ now < y.1 + peerTtl ∧ row.rssi = y.2.rssi ∧
    row.ageMs = (now - y.1) / 1000000
  faces_recent : ∀ x ∈ heard, now < x.1 + peerTtl → x.2.face ≠ "" → x.2.face ∈ row.faces
  faces_heard : ∀ f ∈ row.faces, f ≠ "" ∧ ∃ x ∈ heard, x.2.face = f
  /-- The last label given, if that is recent. -/
  label_recent : ∀ earlier x later, heard = earlier ++ x :: later → now < x.1 + peerTtl →
    x.2.label ≠ "" → (∀ y ∈ later, y.2.label = "") → row.label = x.2.label
  label_heard : row.label ≠ "" → ∃ x ∈ heard, x.2.label = row.label
  infra_recent : ∀ earlier x later, heard = earlier ++ x :: later → now < x.1 + peerTtl →
    x.2.infraAddr ≠ "" → (∀ y ∈ later, y.2.infraAddr = "") → row.infra = some x.2.infraAddr
  infra_heard : ∀ addr, row.infra = some addr → addr ≠ "" ∧ ∃ x ∈ heard, x.2.infraAddr = addr

/-- What the list has of a peer. -/
structure Accurate (localId id : String) (heard : List (Instant × Beacon)) (now : Instant)
    (o : Option PeerRow) : Prop where
  listed : o.isSome = true ↔ id ≠ "" ∧ id ≠ localId ∧ ∃ x ∈ heard, now < x.1 + peerTtl
  shows : ∀ row, o = some row → Shows heard now row

variable {id localId localLabel : String}
  {heard before after earlier later : List (Instant × Beacon)}
  {now final : Instant} {x : Instant × Beacon} {P : Parsers} {e : NdnEngine}

/-! ## Fields that beacons overwrite -/

section

variable {γ : Type} {field : PeerEntry → γ} {said : Beacon → Option γ}
  (hfield : ∀ entry b now, field (entry.refresh b now) = (said b).getD (field entry))
include hfield

theorem told_of_last_said {v : γ} (hx : said x.2 = some v) (hlater : ∀ y ∈ later, said y.2 = none)
    (entry : PeerEntry) : field (told entry (earlier ++ x :: later)) = v := by
  have hun : ¬ ∃ y ∈ later, said y.2 ≠ none := fun ⟨y, hy, hne⟩ => hne (hlater y hy)
  rw [told_append]
  show field (told ((told entry earlier).refresh x.2 x.1) later) = v
  rw [told_of_unsaid hfield hun, hfield, hx]
  rfl

/-- A field is as it was, or some beacon said it. -/
theorem told_or_said (entry : PeerEntry) (l : List (Instant × Beacon)) :
    field (told entry l) = field entry ∨ ∃ y ∈ l, said y.2 = some (field (told entry l)) := by
  induction l using List.reverseRecOn with
  | nil => exact .inl rfl
  | append_singleton l y ih =>
    rw [told_concat, hfield]
    cases hy : said y.2 with
    | some v => exact .inr ⟨y, List.mem_concat_self, hy⟩
    | none =>
      rcases ih with h | ⟨z, hz, h⟩
      · exact .inl h
      · exact .inr ⟨z, List.mem_append_left _ hz, h⟩

end

theorem label_refresh (entry : PeerEntry) (b : Beacon) (now : Instant) :
    (entry.refresh b now).label = b.said.getD entry.label := by
  unfold PeerEntry.refresh Beacon.said
  by_cases hb : b.label = "" <;> simp [hb]

theorem said_eq_some {b : Beacon} {v : String} :
    b.said = some v ↔ b.label ≠ "" ∧ b.label = v := by
  unfold Beacon.said
  by_cases hb : b.label = "" <;> simp [hb]

theorem infra_refresh (entry : PeerEntry) (b : Beacon) (now : Instant) :
    (entry.refresh b now).infraAddr = (b.infra.map some).getD entry.infraAddr := by
  unfold PeerEntry.refresh
  cases b.infra <;> rfl

theorem infra_eq_some {b : Beacon} {v : String} :
    b.infra = some v ↔ b.infraAddr ≠ "" ∧ b.infraAddr = v := by
  unfold Beacon.infra
  by_cases hb : b.infraAddr = "" <;> simp [hb]

/-! ## One peer -/

/-- A recent beacon is not among the forgotten ones. -/
theorem mem_after_of_recent (hold : ∀ y ∈ before, y.1 + peerTtl ≤ now)
    (hx : x ∈ before ++ after) (hrecent : now < x.1 + peerTtl) : x ∈ after :=
  (List.mem_append.mp hx).resolve_left fun h => Nat.not_le.mpr hrecent (hold x h)

theorem split_of_recent (hold : ∀ y ∈ before, y.1 + peerTtl ≤ now)
    (h : before ++ after = earlier ++ x :: later) (hrecent : now < x.1 + peerTtl) :
    ∃ rest, after = rest ++ x :: later := by
  rcases List.append_eq_append_iff.mp h with ⟨rest, -, hafter⟩ | ⟨rest, hbefore, hx⟩
  · exact ⟨rest, hafter⟩
  · cases rest with
    | nil => exact ⟨[], hx.symm⟩
    | cons y rest =>
      obtain ⟨rfl, -⟩ := List.cons.inj hx
      have hmem : x ∈ before := hbefore ▸ List.mem_append_right _ List.mem_cons_self
      exact absurd (hold x hmem) (Nat.not_le.mpr hrecent)

/-- A row made of the beacons since a silence shows the peer. -/
theorem shows_told (hold : ∀ y ∈ before, y.1 + peerTtl ≤ now) (hrecent : now < x.1 + peerTtl) :
    Shows (before ++ (earlier ++ [x])) now ((told blank (earlier ++ [x])).row now) where
  last := by
    refine ⟨before ++ earlier, x, (List.append_assoc _ _ _).symm, hrecent, ?_, ?_⟩
    all_goals
      rw [told_concat]
      rfl
  faces_recent y hy hyrecent hface :=
    (mem_faces_told blank).mpr (.inr ⟨hface, y, mem_after_of_recent hold hy hyrecent, rfl⟩)
  faces_heard f hf := by
    obtain ⟨hne, y, hy, hface⟩ :=
      ((mem_faces_told blank).mp hf).resolve_left (Finset.notMem_empty f)
    exact ⟨hne, y, List.mem_append_right _ hy, hface⟩
  label_recent init y later heq hyrecent hlabel hlater := by
    obtain ⟨rest, hrest⟩ := split_of_recent hold heq hyrecent
    rw [hrest]
    refine told_of_last_said label_refresh (said_eq_some.mpr ⟨hlabel, rfl⟩) (fun z hz => ?_) blank
    unfold Beacon.said
    rw [if_pos (hlater z hz)]
  label_heard hne := by
    rcases told_or_said label_refresh blank (earlier ++ [x]) with h | ⟨y, hy, hsaid⟩
    · exact absurd h hne
    · exact ⟨y, List.mem_append_right _ hy, (said_eq_some.mp hsaid).2⟩
  infra_recent init y later heq hyrecent haddr hlater := by
    obtain ⟨rest, hrest⟩ := split_of_recent hold heq hyrecent
    rw [hrest]
    have hsaid : y.2.infra.map some = some (some y.2.infraAddr) :=
      congrArg (Option.map some) (infra_eq_some.mpr ⟨haddr, rfl⟩)
    refine told_of_last_said infra_refresh hsaid (fun z hz => ?_) blank
    unfold Beacon.infra
    rw [if_pos (hlater z hz)]
    rfl
  infra_heard addr hrow := by
    rcases told_or_said infra_refresh blank (earlier ++ [x]) with h | ⟨y, hy, hsaid⟩
    · exact absurd (h.symm.trans hrow) (Option.some_ne_none addr).symm
    · obtain ⟨v, hv, heq⟩ := Option.map_eq_some_iff.mp hsaid
      have haddr : some v = some addr := heq.trans hrow
      obtain ⟨hne, hva⟩ := infra_eq_some.mp hv
      rw [Option.some.inj haddr] at hva
      exact ⟨hva ▸ hne, y, List.mem_append_right _ hy, hva⟩

/-- A peer silent for `PEER_TTL` is not heard. -/
theorem not_recent_of_last (ht : Timed (earlier ++ [x])) (hx : ¬ now < x.1 + peerTtl) :
    ¬ ∃ y ∈ earlier ++ [x], now < y.1 + peerTtl := by
  rintro ⟨y, hy, hrecent⟩
  refine hx (Nat.lt_of_lt_of_le hrecent (Nat.add_le_add_right ?_ _))
  rcases List.mem_append.mp hy with hy | hy
  · exact ht.le_concat.2 y hy
  · exact Nat.le_of_eq (congrArg Prod.fst (List.mem_singleton.mp hy))

theorem accurate_listed {calls : List (Instant × TableCall)} (ht : Timed calls)
    (hf : ∀ x ∈ calls, x.1 ≤ final) (localId localLabel id : String) :
    Accurate localId id (heardOf id (notes calls)) final
      (((DiscoveryState.new localId localLabel).after calls).listed final id) := by
  by_cases hid : id = "" ∨ id = localId
  · rw [listed_self hid]
    refine ⟨iff_of_false Bool.false_ne_true fun h => ?_, fun row hrow => nomatch hrow⟩
    exact hid.elim h.1 h.2.1
  obtain ⟨hid, hself⟩ := not_or.mp hid
  have htimed : Timed (calls.filterMap (cellEvent id)) := timed_cellEvent ht
  have hfinal : ∀ x ∈ calls.filterMap (cellEvent id), x.1 ≤ final := by
    intro x hx
    obtain ⟨⟨t, c⟩, hm, he⟩ := List.mem_filterMap.mp hx
    have hle : t ≤ final := hf _ hm
    cases c with
    | snapshotJson =>
      cases he
      exact hle
    | notePeer b =>
      dsimp only [cellEvent] at he
      split at he <;> cases he
      exact hle
  obtain ⟨before, after, hputs, hhold, hgap⟩ :=
    Cell.exists_after (c := peerCell) htimed final hfinal
  have hsplit : Timed (before ++ after) := hputs ▸ Cell.timed_puts htimed
  have hold : ∀ y ∈ before, y.1 + peerTtl ≤ final := fun y hy => (hgap y hy).1
  rw [listed_after hid hself, hhold, ← puts_cellEvent, hputs]
  rcases List.eq_nil_or_concat' after with rfl | ⟨earlier, y, rfl⟩
  · -- a read found the peer silent, or nothing was heard of it
    refine ⟨iff_of_false Bool.false_ne_true ?_, fun row hrow => nomatch hrow⟩
    rintro ⟨-, -, x, hx, hrecent⟩
    exact List.not_mem_nil (mem_after_of_recent hold hx hrecent)
  have hne : earlier ++ [y] ≠ [] := List.append_ne_nil_of_right_ne_nil _ (List.cons_ne_nil y [])
  rw [Cell.read_merged_concat, merged_peerCell hne]
  have hiff : final - y.1 < peerCell.ttl ↔ final < y.1 + peerTtl := recent_iff
  by_cases hrecent : final < y.1 + peerTtl
  · rw [if_pos (hiff.mpr hrecent)]
    refine ⟨iff_of_true rfl ⟨hid, hself, y, ?_, hrecent⟩, fun row hrow => ?_⟩
    · exact List.mem_append_right _ List.mem_concat_self
    · cases hrow
      exact shows_told hold hrecent
  · rw [if_neg fun h => hrecent (hiff.mp h)]
    refine ⟨iff_of_false Bool.false_ne_true ?_, fun row hrow => nomatch hrow⟩
    rintro ⟨-, -, hheard⟩
    rw [← List.append_assoc] at hsplit hheard
    exact not_recent_of_last hsplit hrecent hheard

/-! ## The whole session -/

theorem discovery_maybeAttachInfraTunnel {peerIp : String} {p : Packet.Name} {m : MobileEngine}
    {os : MobileEngine.Os} :
    (e.maybeAttachInfraTunnel P id p peerIp m os).discovery = e.discovery := by
  unfold NdnEngine.maybeAttachInfraTunnel
  split
  · rfl
  split
  · rfl
  split
  · rfl
  split
  · rfl
  dsimp only
  split
  · rfl
  · split <;> rfl

/-- A beacon reaches the table, if there is one. -/
theorem discovery_notePeer (b : Beacon) (now : Instant) (os : MobileEngine.Os) :
    (e.notePeer P b now os).discovery = e.discovery.map fun s => s.notePeer b now := by
  unfold NdnEngine.notePeer
  split
  · rename_i hid
    have hnone : ∀ s : DiscoveryState, s.notePeer b now = s := fun s => if_pos (.inl hid)
    simp only [hnone, Option.map_id']
  · unfold NdnEngine.routePeer
    split
    · split
      · rfl
      · rw [discovery_maybeAttachInfraTunnel]
    · rfl

/-- A call that does not start discovery does to its table what it is to a table. -/
theorem discovery_call {y : Instant × SessionCall} (h : y.2.starts = false) :
    (e.call P y).discovery =
      y.2.table.elim e.discovery fun c => e.discovery.map fun s => s.call (y.1, c) := by
  obtain ⟨t, c⟩ := y
  cases c with
  | startDiscovery nodeId label => cases h
  | notePeer b os => exact discovery_notePeer b t os
  | readPeers => rfl
  | setInfraAddr ipv4 =>
    show (e.setInfraAddr ipv4).discovery = e.discovery
    unfold NdnEngine.setInfraAddr
    generalize (if ipv4 = "" then none else some ipv4) = next
    dsimp only
    split <;> rfl
  | setInfraSocket fd => rfl
  | shutdown => rfl

theorem discovery_after {calls : List (Instant × SessionCall)}
    (h : ∀ y ∈ calls, y.2.starts = false) :
    (e.after P calls).discovery = e.discovery.map fun s => s.after (tableCalls calls) := by
  induction calls generalizing e with
  | nil =>
    show e.discovery = e.discovery.map id
    rw [Option.map_id_fun, id_eq]
  | cons y calls ih =>
    obtain ⟨hy, hrest⟩ := List.forall_mem_cons.mp h
    show ((e.call P y).after P calls).discovery = _
    rw [ih hrest, discovery_call hy]
    unfold tableCalls
    rw [List.filterMap_cons]
    cases y.2.table with
    | none => rfl
    | some c =>
      dsimp only [Option.elim, Option.map_some]
      rw [Option.map_map]
      rfl

/-- The beacons of a session. -/
def sessionNotes (calls : List (Instant × SessionCall)) : List (Instant × Beacon) :=
  calls.filterMap fun x =>
    match x.2 with
    | .notePeer b _ => some (x.1, b)
    | _ => none

theorem notes_tableCalls (calls : List (Instant × SessionCall)) :
    notes (tableCalls calls) = sessionNotes calls := by
  unfold notes tableCalls sessionNotes
  rw [List.filterMap_filterMap]
  refine List.filterMap_congr fun y _ => ?_
  obtain ⟨t, c⟩ := y
  cases c <;> rfl

theorem mem_tableCalls {calls : List (Instant × SessionCall)} {y : Instant × TableCall}
    (h : y ∈ tableCalls calls) : ∃ z ∈ calls, z.1 = y.1 := by
  obtain ⟨z, hz, hy⟩ := List.mem_filterMap.mp h
  obtain ⟨c, -, rfl⟩ := Option.map_eq_some_iff.mp hy
  exact ⟨z, hz, rfl⟩

theorem timed_tableCalls {calls : List (Instant × SessionCall)} (h : Timed calls) :
    Timed (tableCalls calls) := by
  refine List.Pairwise.filterMap _ (fun y z hyz c hc d hd => ?_) h
  obtain ⟨_, -, rfl⟩ := Option.map_eq_some_iff.mp hc
  obtain ⟨_, -, rfl⟩ := Option.map_eq_some_iff.mp hd
  exact hyz

/-- What a leaf gets that reads the dataset: nothing before discovery is started, then the list
of the node that discovery was last started for. -/
structure NearbyExact (e : NdnEngine) (calls : List (Instant × SessionCall))
    (final : Instant) : Prop where
  unstarted : (∀ y ∈ calls, y.2.starts = false) → e.discovery = none
  started : ∀ earlier t nodeId label later,
    calls = earlier ++ (t, .startDiscovery nodeId label) :: later →
    (∀ y ∈ later, y.2.starts = false) →
      ∃ s, e.discovery = some s ∧ s.localId = nodeId ∧ s.localLabel = label ∧
        ∀ id, Accurate nodeId id (heardOf id (sessionNotes later)) final (s.listed final id)

theorem localId_after (s : DiscoveryState) (calls : List (Instant × TableCall)) :
    (s.after calls).localId = s.localId ∧ (s.after calls).localLabel = s.localLabel := by
  induction calls generalizing s with
  | nil => exact ⟨rfl, rfl⟩
  | cons y calls ih =>
    have hcall : (s.call y).localId = s.localId ∧ (s.call y).localLabel = s.localLabel := by
      obtain ⟨t, c⟩ := y
      cases c with
      | snapshotJson => exact ⟨rfl, rfl⟩
      | notePeer b =>
        show (s.notePeer b t).localId = _ ∧ (s.notePeer b t).localLabel = _
        unfold DiscoveryState.notePeer
        split <;> exact ⟨rfl, rfl⟩
    obtain ⟨h1, h2⟩ := ih (s.call y)
    exact ⟨h1.trans hcall.1, h2.trans hcall.2⟩

/-- **The nearby list is accurate** at any time of any session. -/
theorem nearby_exact (P : Parsers) (m : MobileEngine) {calls : List (Instant × SessionCall)}
    {final : Instant} (ht : Timed calls) (hf : ∀ x ∈ calls, x.1 ≤ final) :
    NearbyExact ((NdnEngine.new m).after P calls) calls final := by
  refine ⟨fun h => discovery_after h, fun earlier t nodeId label later heq hlater => ?_⟩
  subst heq
  have hstart : ((NdnEngine.new m).after P
      (earlier ++ (t, .startDiscovery nodeId label) :: later)).discovery =
      some ((DiscoveryState.new nodeId label).after (tableCalls later)) := by
    unfold NdnEngine.after
    rw [List.foldl_append, List.foldl_cons]
    exact discovery_after hlater
  have htimed : Timed later :=
    (List.pairwise_cons.mp (List.pairwise_append.mp ht).2.1).2
  obtain ⟨hid, hlabel⟩ := localId_after (.new nodeId label) (tableCalls later)
  refine ⟨_, hstart, hid, hlabel, fun id => ?_⟩
  rw [← notes_tableCalls]
  refine accurate_listed (timed_tableCalls htimed) (fun y hy => ?_) nodeId label id
  obtain ⟨z, hz, he⟩ := mem_tableCalls hy
  exact he ▸ hf z (List.mem_append_right _ (List.mem_cons_of_mem _ hz))

/-- A peer is heard on two radios around a read, with discovery started anew before. -/
def twoRadios : List (Instant × SessionCall) :=
  [(0, .startDiscovery "n" "Old"), (1, .notePeer ⟨"b", "B", "ble", -70, ""⟩ .ok),
    (2, .startDiscovery "n" "New"), (3, .notePeer ⟨"a", "A", "ble", -60, ""⟩ .ok), (4, .readPeers),
    (5, .notePeer ⟨"a", "", "wifi-aware", -50, ""⟩ .ok)]

theorem nearby_exact_twoRadios : ∃ s, (phone.after .std twoRadios).discovery = some s ∧
    s.localLabel = "New" ∧ (s.listed 2000005 "a").isSome = true ∧
    (s.listed 2000005 "b").isSome = false := by
  have hexact : NearbyExact (phone.after .std twoRadios) twoRadios 2000005 :=
    nearby_exact .std phoneEngine (by unfold Timed; decide) (by decide)
  obtain ⟨s, hs, -, hlabel, hacc⟩ :=
    hexact.started (twoRadios.take 2) 2 "n" "New" (twoRadios.drop 3) rfl (by decide)
  refine ⟨s, hs, hlabel, (hacc "a").listed.mpr (by decide), Bool.eq_false_iff.mpr fun hb => ?_⟩
  exact absurd ((hacc "b").listed.mp hb) (by decide)

end NdnMobile.Ffi
