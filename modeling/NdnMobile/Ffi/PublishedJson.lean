import NdnMobile.Ffi.PeerTable
import NdnMobile.Lib.Json
import NdnMobile.Offer.Board
import Mathlib.Data.Finset.Sort
import Mathlib.Data.Set.Finite.Basic
import Mathlib.Data.String.Basic

/-!
# The published JSON

The manifest of the offers and the peer list are JSON texts written by hand, from strings that
other nodes chose. Both are texts that a JSON reader accepts, and it reads from them one object
for each entry with the entry's numbers and strings; in a string only control characters may
have become spaces (`published_faithful`).
-/

namespace NdnMobile.Ffi

open NdnMobile.Lib

/-- `push_json_str` of the peer table, the same as the offer board's. -/
def pushJsonStr (out s : String) : String := Offer.pushJsonStr out s

/-- A loop that pushes a comma before each item but the first. -/
def pushSeparated {α : Type} (push : String → α → String) (out : String) : List α → String
  | [] => out
  | [x] => push out x
  | x :: y :: xs => pushSeparated push (push out x ++ ",") (y :: xs)

/-- One object of the peer list. -/
def pushPeer (out : String) (peer : String × PeerRow) : String :=
  let out := pushJsonStr (out ++ "\x7b\"id\":") peer.1
  let out := pushJsonStr (out ++ ",\"label\":") peer.2.label
  let out := pushSeparated pushJsonStr (out ++ ",\"faces\":[") (peer.2.faces.sort (· ≤ ·))
  let out := out ++ "],\"rssi\":" ++ toString peer.2.rssi
  let out := out ++ ",\"age_ms\":" ++ toString peer.2.ageMs
  let out := match peer.2.infra with
    | some addr => pushJsonStr (out ++ ",\"infra\":") addr
    | none => out
  out ++ "\x7d"

/-- The entries of a hash map in the order of an iteration over it. -/
structure Iteration {α : Type} (table : String → Option α) where
  entries : List (String × α)
  nodup : (entries.map Prod.fst).Nodup
  mem : ∀ id x, (id, x) ∈ entries ↔ table id = some x

/-- `snapshot_json`, with the order in which it meets the peers it lists. -/
def DiscoveryState.snapshotJson (s : DiscoveryState) (now : Instant)
    (peers : Iteration (s.listed now)) : String :=
  let out := pushJsonStr "\x7b\"self\":\x7b\"id\":" s.localId
  let out := pushJsonStr (out ++ ",\"label\":") s.localLabel
  pushSeparated pushPeer (out ++ "\x7d,\"peers\":[") peers.entries ++ "]\x7d"

/-! ## What is published -/

/-- A control character other than a newline, a carriage return and a tab becomes a space. -/
def cleanChar (c : Char) : Char :=
  if c.toNat < 0x20 ∧ c ≠ '\n' ∧ c ≠ '\r' ∧ c ≠ '\t' then ' ' else c

def clean (s : String) : String := String.ofList (s.toList.map cleanChar)

def strValue (s : String) : Json := .str (clean s)

def peerValue (peer : String × PeerRow) : Json :=
  .obj ([("id", strValue peer.1), ("label", strValue peer.2.label),
    ("faces", .arr ((peer.2.faces.sort (· ≤ ·)).map strValue)),
    ("rssi", .num peer.2.rssi 0), ("age_ms", .num peer.2.ageMs 0)] ++
    match peer.2.infra with
    | some addr => [("infra", strValue addr)]
    | none => [])

/-- The node itself, and an object for each peer. -/
def DiscoveryState.snapshotValue (s : DiscoveryState) {now : Instant}
    (peers : Iteration (s.listed now)) : Json :=
  .obj [("self", .obj [("id", strValue s.localId), ("label", strValue s.localLabel)]),
    ("peers", .arr (peers.entries.map peerValue))]

def offerValue (board : Offer.OfferBoard) (offer : String × Offer.OfferEntry) : Json :=
  .obj [("file_id", strValue offer.1), ("display_name", strValue offer.2.displayName),
    ("mime", strValue offer.2.mime), ("size", .num offer.2.size 0),
    ("name", strValue (board.display offer.2.name))]

/-- The node's prefix, and an object for each offer. -/
def offersValue (board : Offer.OfferBoard) (offers : Offer.Offers) : Json :=
  .obj [("node", strValue (board.display board.nodePrefix)),
    ("offers", .arr (offers.toList.map (offerValue board)))]

variable {s : DiscoveryState} {now : Instant} {out : String} {c : Char}

/-! ## Strings and numbers -/

theorem toList_pushJsonChar (out : String) (c : Char) :
    (Offer.pushJsonChar out c).toList = out.toList ++ Json.escapeChar (cleanChar c) := by
  unfold Offer.pushJsonChar
  by_cases hq : c = '"'
  · subst hq
    rw [if_pos rfl, String.toList_append]
    rfl
  by_cases hb : c = '\\'
  · subst hb
    rw [if_neg (by decide), if_pos rfl, String.toList_append]
    rfl
  by_cases hn : c = '\n'
  · subst hn
    rw [if_neg (by decide), if_neg (by decide), if_pos rfl, String.toList_append]
    rfl
  by_cases hr : c = '\r'
  · subst hr
    rw [if_neg (by decide), if_neg (by decide), if_neg (by decide), if_pos rfl,
      String.toList_append]
    rfl
  by_cases ht : c = '\t'
  · subst ht
    rw [if_neg (by decide), if_neg (by decide), if_neg (by decide), if_neg (by decide),
      if_pos rfl, String.toList_append]
    rfl
  rw [if_neg hq, if_neg hb, if_neg hn, if_neg hr, if_neg ht]
  unfold cleanChar
  by_cases hctl : c.toNat < 0x20
  · rw [if_pos hctl, if_pos ⟨hctl, hn, hr, ht⟩, String.toList_push]
    rfl
  · rw [if_neg hctl, if_neg fun h => hctl h.1, String.toList_push, Json.escapeChar, if_neg hq,
      if_neg hb, if_neg hn, if_neg hr, if_neg ht, if_neg hctl]

theorem toList_pushJsonChars (l : List Char) (out : String) :
    (l.foldl Offer.pushJsonChar out).toList =
      out.toList ++ (l.map cleanChar).flatMap Json.escapeChar := by
  induction l generalizing out with
  | nil => exact (List.append_nil _).symm
  | cons c l ih =>
    rw [List.foldl_cons, ih, toList_pushJsonChar, List.map_cons, List.flatMap_cons,
      List.append_assoc]

/-- What is pushed is the literal of the cleaned string. -/
theorem toList_pushJsonStr (out s : String) :
    (pushJsonStr out s).toList = out.toList ++ (strValue s).print := by
  unfold pushJsonStr Offer.pushJsonStr strValue clean
  rw [Json.print, Json.quote, String.toList_append, toList_pushJsonChars, String.toList_append]
  simp

theorem toList_natText (n : Nat) : (toString n).toList = (Json.num n 0).print := by
  rw [Json.print, if_pos rfl, List.append_nil]
  show (Nat.repr n).toList = Nat.toDigits 10 n
  simp

theorem toList_intText (m : Int) : (toString m).toList = (Json.num m 0).print := by
  cases m with
  | ofNat n => exact toList_natText n
  | negSucc n =>
    rw [Json.print, if_pos rfl, List.append_nil]
    show ("-" ++ toString (n + 1)).toList = '-' :: Nat.toDigits 10 (n + 1)
    simp

/-! ## Lists and objects -/

variable {α : Type} {push : String → α → String} {value : α → Json}

/-- Items pushed one by one make the text of an array's items. -/
theorem toList_pushSeparated
    (h : ∀ out x, (push out x).toList = out.toList ++ (value x).print) (l : List α)
    (out : String) :
    (pushSeparated push out l).toList = out.toList ++ Json.printElements (l.map value) := by
  induction l generalizing out with
  | nil => exact (List.append_nil _).symm
  | cons x l ih =>
    cases l with
    | nil =>
      rw [List.map_cons, List.map_nil, Json.printElements]
      exact h out x
    | cons y l =>
      have hprint : Json.printElements ((x :: y :: l).map value) =
          (value x).print ++ ',' :: Json.printElements ((y :: l).map value) := by
        rw [List.map_cons, List.map_cons, Json.printElements]
      rw [pushSeparated, ih, String.toList_append, h, hprint]
      simp

theorem toList_pushPeer (out : String) (peer : String × PeerRow) :
    (pushPeer out peer).toList = out.toList ++ (peerValue peer).print := by
  unfold pushPeer peerValue
  cases peer.2.infra with
  | none =>
    dsimp only
    rw [Json.print]
    simp only [Json.printMembers, String.toList_append, toList_pushJsonStr, toList_natText,
      toList_intText, toList_pushSeparated toList_pushJsonStr, List.append_nil]
    simp [Json.quote, Json.escapeChar, Json.print]
  | some addr =>
    dsimp only
    rw [Json.print]
    simp only [Json.printMembers, String.toList_append, toList_pushJsonStr, toList_natText,
      toList_intText, toList_pushSeparated toList_pushJsonStr, List.cons_append, List.nil_append]
    simp [Json.quote, Json.escapeChar, Json.print]

theorem toList_pushOffer (board : Offer.OfferBoard) (out : String)
    (offer : String × Offer.OfferEntry) :
    (board.pushOffer out offer.1 offer.2).toList =
      out.toList ++ (offerValue board offer).print := by
  have hstr : ∀ out s, (Offer.pushJsonStr out s).toList = out.toList ++ (strValue s).print :=
    toList_pushJsonStr
  unfold Offer.OfferBoard.pushOffer offerValue
  rw [Json.print]
  simp only [Json.printMembers, String.toList_append, hstr, toList_natText]
  simp [Json.quote, Json.escapeChar]

theorem pushOffers_eq (board : Offer.OfferBoard) (l : List (String × Offer.OfferEntry))
    (out : String) : board.pushOffers out l =
      pushSeparated (fun out offer => board.pushOffer out offer.1 offer.2) out l := by
  induction l generalizing out with
  | nil => rfl
  | cons x l ih =>
    cases l with
    | nil => rfl
    | cons y l => exact ih _

theorem toList_offersJson (board : Offer.OfferBoard) (offers : Offer.Offers) :
    (board.offersJson offers).toList = (offersValue board offers).print := by
  have hstr : ∀ out s, (Offer.pushJsonStr out s).toList = out.toList ++ (strValue s).print :=
    toList_pushJsonStr
  unfold Offer.OfferBoard.offersJson offersValue
  dsimp only
  rw [pushOffers_eq, String.toList_append, toList_pushSeparated (toList_pushOffer board),
    String.toList_append, hstr, Json.print]
  simp only [Json.printMembers]
  rw [Json.print.eq_def (.arr _)]
  simp [Json.quote, Json.escapeChar]

theorem toList_snapshotJson (s : DiscoveryState) (peers : Iteration (s.listed now)) :
    (s.snapshotJson now peers).toList = (s.snapshotValue peers).print := by
  unfold DiscoveryState.snapshotJson DiscoveryState.snapshotValue
  dsimp only
  rw [String.toList_append, toList_pushSeparated toList_pushPeer, String.toList_append,
    toList_pushJsonStr, String.toList_append, toList_pushJsonStr, Json.print]
  simp only [Json.printMembers]
  rw [Json.print.eq_def (.arr _), Json.print.eq_def (.obj [("id", _), _])]
  simp only [Json.printMembers]
  simp [Json.quote, Json.escapeChar]

/-- **The published texts are JSON, and faithful**: for any offers and any peers, in any order of
iteration, a reader gets back one object for each entry with its numbers and strings. -/
theorem published_faithful :
    (∀ (board : Offer.OfferBoard) (offers : Offer.Offers),
      Json.parse (board.offersJson offers) = some (offersValue board offers)) ∧
    ∀ (s : DiscoveryState) (now : Instant) (peers : Iteration (s.listed now)),
      Json.parse (s.snapshotJson now peers) = some (s.snapshotValue peers) := by
  constructor
  · intro board offers
    rw [← Json.parse_print, ← toList_offersJson, String.ofList_toList]
  · intro s now peers
    rw [← Json.parse_print, ← toList_snapshotJson, String.ofList_toList]

/-! ## Every table can be iterated over -/

/-- A call adds no peer but the beacon's. -/
theorem finite_call {s : DiscoveryState} (h : {id | s.peers id ≠ none}.Finite)
    (x : Instant × TableCall) : {id | (s.call x).peers id ≠ none}.Finite := by
  obtain ⟨t, c⟩ := x
  cases c with
  | snapshotJson =>
    refine h.subset fun id hid hnone => hid ?_
    show (s.peers id).filter _ = none
    rw [hnone]
    rfl
  | notePeer b =>
    refine (h.insert b.id).subset fun id hid => ?_
    by_cases hb : id = b.id
    · exact .inl hb
    · refine .inr fun hnone => hid ?_
      show (s.notePeer b t).peers id = none
      unfold DiscoveryState.notePeer
      split
      · exact hnone
      · dsimp only
        rw [Function.update_of_ne hb, hnone]

/-- The table after any calls has an iteration of what it lists. -/
theorem exists_iteration (localId localLabel : String) (calls : List (Instant × TableCall))
    (now : Instant) : Nonempty (Iteration
      (((DiscoveryState.new localId localLabel).after calls).listed now)) := by
  have hfin : ∀ s : DiscoveryState, {id | s.peers id ≠ none}.Finite →
      {id | (s.after calls).peers id ≠ none}.Finite := by
    induction calls with
    | nil => exact fun _ h => h
    | cons x calls ih => exact fun s h => ih (s.call x) (finite_call h x)
  have hnew : {id | (DiscoveryState.new localId localLabel).peers id ≠ none}.Finite := by
    simp [DiscoveryState.new]
  have hlisted : {id | ((DiscoveryState.new localId localLabel).after calls).listed now id ≠
      none}.Finite := by
    refine (hfin _ hnew).subset fun id hid hnone => hid ?_
    show Option.map _ ((_ : Option PeerEntry).filter _) = none
    rw [hnone]
    rfl
  generalize ((DiscoveryState.new localId localLabel).after calls).listed now = table at hlisted
  refine ⟨⟨hlisted.toFinset.toList.filterMap fun id => (table id).map fun row => (id, row),
    ?_, fun id row => ?_⟩⟩
  · rw [List.map_filterMap]
    refine List.Nodup.filterMap (fun id id' k hk hk' => ?_) (Finset.nodup_toList _)
    simp only [Option.map_map, Option.mem_map, Function.comp] at hk hk'
    obtain ⟨-, -, rfl⟩ := hk
    obtain ⟨-, -, h⟩ := hk'
    exact h.symm
  · rw [List.mem_filterMap]
    constructor
    · rintro ⟨id', -, hmap⟩
      obtain ⟨row', hrow, heq⟩ := Option.map_eq_some_iff.mp hmap
      obtain ⟨rfl, rfl⟩ := Prod.mk.inj heq
      exact hrow
    · intro hrow
      refine ⟨id, Finset.mem_toList.mpr (hlisted.mem_toFinset.mpr ?_), by rw [hrow]; rfl⟩
      show table id ≠ none
      rw [hrow]
      nofun

end NdnMobile.Ffi
