import NdnMobile.Ffi.NdnEngine
import NdnMobile.Identity.Core
import NdnMobile.Rust
import NdnMobile.Lib.Run

/-!
# The offer board

The files a node offers, in a map behind a lock, and a ring of the manifests last built from
it. An offer's object is prepared and its serve registration made outside the lock; the entry,
the manifest rebuilt from the map and the push to the ring come under it. `step` runs the
calls of any number of threads, a thread at a time.
-/

namespace NdnMobile.Offer

open NdnMobile.Lib NdnMobile.Packet NdnMobile.Identity NdnMobile.Ffi

def utf8 (s : String) : Bytes := s.toUTF8.toList

/-- `name.append(text)`. -/
def append (name : Name) (text : String) : Name := name ++ [⟨typGeneric, utf8 text⟩]

/-- `MANIFEST_HISTORY`. -/
def manifestHistory : Nat := 6

def internalContentPrefix : String := "/localhost/ripple/content"

/-- An object ready to be served in segments. The version is the clock when it was built. -/
structure PreparedObject where
  name : Name
  version : Nat
  content : Bytes
  chunk : Nat
  deriving DecidableEq, Repr

/-! ## Calls and entries -/

inductive Source where
  | content (bytes : Bytes)
  | file (size : UInt64)
  | streamed (size : UInt64)
  deriving DecidableEq, Repr

/-- A call of `add_offer`, `add_offer_file` or `add_offer_file_streamed`. -/
structure AddCall where
  fileId : String
  displayName : String
  mime : String
  source : Source
  deriving DecidableEq, Repr

/-- The length of the file as the caller gives it. -/
def Source.given : Source → Nat
  | .content bytes => bytes.length
  | .file size => size.toNat
  | .streamed size => size.toNat

/-- The length as a `usize`: the two file paths cast it. -/
def Source.size (t : Target) : Source → Nat
  | .content bytes => bytes.length
  | .file size => t.castUsize size.toNat
  | .streamed size => t.castUsize size.toNat

/-- A serve registration: what it serves, and the call that made it. -/
structure ServeGuard where
  id : Nat
  serves : Name
  call : AddCall
  deriving DecidableEq, Repr

structure OfferEntry where
  displayName : String
  mime : String
  name : Name
  size : Nat
  guard : ServeGuard
  deriving DecidableEq, Repr

abbrev Offers := Std.TreeMap String OfferEntry

/-- What a board is set up with: its prefixes, and how names are read and shown. -/
structure OfferBoard where
  target : Target
  identityPrefix : Name
  nodePrefix : Name
  parse : String → Option Name
  display : Name → String

namespace OfferBoard

/-- The part of `OfferBoard::new` that can fail. -/
def new (target : Target) (parse : String → Option Name) (display : Name → String)
    (nodeId : String) (identityPrefix : Name) : Except NdnError OfferBoard :=
  match parse (peerNodePrefix nodeId) with
  | none => .error (.invalidName (peerNodePrefix nodeId))
  | some nodePrefix => .ok ⟨target, identityPrefix, nodePrefix, parse, display⟩

variable (board : OfferBoard)

/-- `/<identity>/file/<file_id>`. -/
def objectName (fileId : String) : Name := append (append board.identityPrefix "file") fileId

/-- The name an add call serves under, unless it is refused. -/
def servedName (c : AddCall) : Except NdnError Name :=
  if c.fileId = "" then .error (.engine "offer file_id must not be empty")
  else
    match c.source with
    | .streamed _ =>
      match board.parse internalContentPrefix with
      | none => .error (.invalidName internalContentPrefix)
      | some p => .ok (append p c.fileId)
    | _ => .ok (board.objectName c.fileId)

def entry (c : AddCall) (guard : ServeGuard) : OfferEntry where
  displayName := c.displayName
  mime := c.mime
  name := board.objectName c.fileId
  size := c.source.size board.target
  guard := guard

end OfferBoard

/-! ## The manifest -/

def pushJsonChar (out : String) (c : Char) : String :=
  if c = '\"' then out ++ "\\\""
  else if c = '\\' then out ++ "\\\\"
  else if c = '\n' then out ++ "\\n"
  else if c = '\r' then out ++ "\\r"
  else if c = '\t' then out ++ "\\t"
  else if c.toNat < 0x20 then out.push ' '
  else out.push c

def pushJsonStr (out s : String) : String := s.toList.foldl pushJsonChar (out ++ "\"") ++ "\""

namespace OfferBoard

variable (board : OfferBoard)

def pushOffer (out : String) (fileId : String) (e : OfferEntry) : String :=
  let out := pushJsonStr (out ++ "\x7b\"file_id\":") fileId
  let out := pushJsonStr (out ++ ",\"display_name\":") e.displayName
  let out := pushJsonStr (out ++ ",\"mime\":") e.mime
  let out := out ++ ",\"size\":" ++ toString e.size
  pushJsonStr (out ++ ",\"name\":") (board.display e.name) ++ "\x7d"

/-- The entries, with commas between them. -/
def pushOffers (out : String) : List (String × OfferEntry) → String
  | [] => out
  | [(fileId, e)] => board.pushOffer out fileId e
  | (fileId, e) :: rest => pushOffers (board.pushOffer out fileId e ++ ",") rest

def offersJson (offers : Offers) : String :=
  let out := pushJsonStr "\x7b\"node\":" (board.display board.nodePrefix)
  board.pushOffers (out ++ ",\"offers\":[") offers.toList ++ "]\x7d"

def manifestName : Name := append board.nodePrefix "offers"

def buildManifest (offers : Offers) (now : Nat) : PreparedObject :=
  ⟨board.manifestName, now, utf8 (board.offersJson offers), 8192⟩

end OfferBoard

/-! ## Threads -/

abbrev ThreadId := Nat

/-- Where a thread is in a call; from `adding` on it holds the offers lock. -/
inductive Phase where
  | idle
  /-- The object is served; the lock is not taken yet. -/
  | built (c : AddCall) (guard : ServeGuard)
  | adding (c : AddCall) (guard : ServeGuard)
  | removing (fileId : String)
  | listing
  /-- The map was edited. -/
  | edited
  | rebuilt (manifest : PreparedObject)
  | leaving
  deriving DecidableEq, Repr

def Phase.locked : Phase → Bool
  | .idle | .built _ _ => false
  | _ => true

structure State where
  offers : Offers
  /-- The manifests that are served, newest first. -/
  ring : List PreparedObject
  /-- Who holds the offers lock. -/
  lock : Option ThreadId
  phase : ThreadId → Phase
  /-- Every registration made, newest first. -/
  registered : List ServeGuard
  /-- Every manifest pushed, newest first. -/
  rebuilds : List PreparedObject

/-- A new board serves an empty manifest. -/
def State.new (board : OfferBoard) (now : Nat) : State where
  offers := ∅
  ring := [board.buildManifest ∅ now]
  lock := none
  phase _ := .idle
  registered := []
  rebuilds := [board.buildManifest ∅ now]

inductive Act where
  | add (t : ThreadId) (c : AddCall)
  | lockAdd (t : ThreadId)
  | insert (t : ThreadId)
  | lockRemove (t : ThreadId) (fileId : String)
  | erase (t : ThreadId)
  | lockList (t : ThreadId)
  | list (t : ThreadId)
  | build (t : ThreadId) (now : Nat)
  | push (t : ThreadId)
  | unlock (t : ThreadId)
  deriving DecidableEq, Repr

namespace State

variable (s : State)

def goto (t : ThreadId) (p : Phase) : State := { s with phase := Function.update s.phase t p }

/-- The lock, if it is free. -/
def acquire (t : ThreadId) (p : Phase) : Option State :=
  if s.lock = none then some { s.goto t p with lock := some t } else none

/-- Prepare the object and serve it, or return the error. -/
def register (board : OfferBoard) (t : ThreadId) (c : AddCall) : State :=
  match board.servedName c with
  | .error _ => s
  | .ok serves =>
    let guard := ⟨s.registered.length, serves, c⟩
    { s.goto t (.built c guard) with registered := guard :: s.registered }

end State

def step (board : OfferBoard) (s : State) : Act → Option State
  | .add t c =>
    match s.phase t with
    | .idle => some (s.register board t c)
    | _ => none
  | .lockAdd t =>
    match s.phase t with
    | .built c guard => s.acquire t (.adding c guard)
    | _ => none
  | .insert t =>
    match s.phase t with
    | .adding c guard =>
      some { s.goto t .edited with offers := s.offers.insert c.fileId (board.entry c guard) }
    | _ => none
  | .lockRemove t fileId =>
    match s.phase t with
    | .idle => s.acquire t (.removing fileId)
    | _ => none
  | .erase t =>
    match s.phase t with
    | .removing fileId =>
      if fileId ∈ s.offers then some { s.goto t .edited with offers := s.offers.erase fileId }
      else some (s.goto t .leaving) -- nothing removed, nothing rebuilt
    | _ => none
  | .lockList t =>
    match s.phase t with
    | .idle => s.acquire t .listing
    | _ => none
  | .list t =>
    match s.phase t with
    | .listing => some (s.goto t .leaving)
    | _ => none
  | .build t now =>
    match s.phase t with
    | .edited => some (s.goto t (.rebuilt (board.buildManifest s.offers now)))
    | _ => none
  | .push t =>
    match s.phase t with
    | .rebuilt m =>
      some { s.goto t .leaving with
        ring := (m :: s.ring).take manifestHistory
        rebuilds := m :: s.rebuilds }
    | _ => none
  | .unlock t =>
    match s.phase t with
    | .leaving => some { s.goto t .idle with lock := none }
    | _ => none

end NdnMobile.Offer
