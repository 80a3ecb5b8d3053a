import NdnMobile.Ffi.NdnEngine
import NdnMobile.Identity.Core
import Mathlib.Data.List.DropRight

/-!
# The congestion strategy of a client's fetches

The client keeps the chosen strategy in one field and a shared consumer, with a strategy of its
own, in another. `fetch`, `get` and `fetch_object` make the consumer with the default and use it
as it is, `fetch_object_verified` takes its strategy over, and only the two hinted fetches read
the chosen one and leave the shared consumer with it. So a choice reaches the first kind when a
hinted fetch has come after it (`selected_iff`).
-/

namespace NdnMobile.Ffi

open NdnMobile.Packet NdnMobile.Identity

/-- The strategies of the application library. -/
structure CongestionControl (σ : Type) where
  parse : String → Option σ
  default : σ

structure Consumer (σ : Type) where
  congestionStrategy : σ
  deriving DecidableEq, Repr

/-- What the fetch verbs of `NdnClient` share. -/
structure ClientFetch (σ : Type) where
  ccStrategy : σ
  consumer : Option (Consumer σ)
  deriving DecidableEq, Repr

namespace ClientFetch

variable {σ : Type} (C : CongestionControl σ) (P : Parsers) (c : ClientFetch σ)

/-- `NdnClient::from_fd`. -/
def new : ClientFetch σ := ⟨C.default, none⟩

/-- `Consumer::new` over the shared demux. -/
def newConsumer : Consumer σ := ⟨C.default⟩

/-- The shared consumer, made on first use. -/
def shared : Consumer σ := c.consumer.getD (newConsumer C)

def demuxConsumer (strategy : σ) : Consumer σ := ⟨strategy⟩

def setCongestionStrategy (strategy : String) : Except NdnError Bool × ClientFetch σ :=
  match C.parse strategy with
  | none => (.error (.engine "congestion strategy must be 'aimd' or 'cubic'"), c)
  | some s => (.ok true, { c with ccStrategy := s })

/-- `fetch` and `get`: one Data over the shared consumer. -/
def fetch (name : String) : Except NdnError (Consumer σ) × ClientFetch σ :=
  match P.name name with
  | none => (.error (.invalidName name), c)
  | some _ => (.ok (c.shared C), { c with consumer := some (c.shared C) })

/-- The whole-object fetches say which strategy they run with, once the names are read. -/
def fetchObject (name : String) : Except NdnError σ × ClientFetch σ :=
  match P.name name with
  | none => (.error (.invalidName name), c)
  | some _ => (.ok (c.shared C).congestionStrategy, { c with consumer := some (c.shared C) })

def fetchObjectVerified (name : String) : Except NdnError σ × ClientFetch σ :=
  match P.name name with
  | none => (.error (.invalidName name), c)
  | some _ =>
    let strategy := (c.shared C).congestionStrategy
    (.ok strategy, { c with consumer := some (demuxConsumer strategy) })

/-- `fetch_object_verified_hinted` and `fetch_object_to_fd`. -/
def fetchObjectHinted (name hint : String) : Except NdnError σ × ClientFetch σ :=
  match P.name name with
  | none => (.error (.invalidName name), c)
  | some _ =>
    match P.name hint with
    | none => (.error (.invalidName hint), c)
    | some _ =>
      (.ok (demuxConsumer c.ccStrategy).congestionStrategy,
        { c with consumer := some (demuxConsumer c.ccStrategy) })

end ClientFetch

/-! ## Sequences of calls -/

inductive FetchCall where
  | setCongestionStrategy (strategy : String)
  | fetch (name : String)
  | get (name : String)
  | fetchObject (name : String)
  | fetchObjectVerified (name : String)
  | fetchObjectVerifiedHinted (name hint : String)
  | fetchObjectToFd (name hint : String)
  deriving DecidableEq, Repr

variable {σ : Type} (C : CongestionControl σ) (P : Parsers)

namespace ClientFetch

/-- The strategy a whole-object fetch ran with. -/
def used (c : ClientFetch σ) : FetchCall → Option σ
  | .fetchObject name => (c.fetchObject C P name).1.toOption
  | .fetchObjectVerified name => (c.fetchObjectVerified C P name).1.toOption
  | .fetchObjectVerifiedHinted name hint | .fetchObjectToFd name hint =>
    (c.fetchObjectHinted P name hint).1.toOption
  | _ => none

def run (c : ClientFetch σ) : FetchCall → ClientFetch σ
  | .setCongestionStrategy strategy => (c.setCongestionStrategy C strategy).2
  | .fetch name | .get name => (c.fetch C P name).2
  | .fetchObject name => (c.fetchObject C P name).2
  | .fetchObjectVerified name => (c.fetchObjectVerified C P name).2
  | .fetchObjectVerifiedHinted name hint | .fetchObjectToFd name hint =>
    (c.fetchObjectHinted P name hint).2

def after (calls : List FetchCall) : ClientFetch σ :=
  calls.foldl (run C P) (new C)

end ClientFetch

/-- The choice of the latest successful `set_congestion_strategy`, or the default. -/
def latest (calls : List FetchCall) : σ :=
  calls.foldl (fun s call => match call with
    | .setCongestionStrategy strategy => (C.parse strategy).getD s
    | _ => s) C.default

/-- A fetch that leaves the shared consumer with the chosen strategy. -/
def FetchCall.refills : FetchCall → Bool
  | .fetchObjectVerifiedHinted name hint | .fetchObjectToFd name hint =>
    (P.name name).isSome && (P.name hint).isSome
  | _ => false

/-- A fetch that runs with the strategy of the shared consumer. -/
def FetchCall.reuses : FetchCall → Bool
  | .fetchObject name | .fetchObjectVerified name => (P.name name).isSome
  | _ => false

/-- The calls up to the last hinted fetch. -/
def uptoRefill (calls : List FetchCall) : List FetchCall :=
  calls.rdropWhile fun call => !call.refills P

/-- **Every whole-object fetch runs with the latest choice.** -/
def Selected (calls : List FetchCall) : Prop :=
  ∀ past call rest, calls = past ++ call :: rest → ∀ s,
    (ClientFetch.after C P past).used C P call = some s → s = latest C past

/-- A fetch over the shared consumer comes after a hinted one with the same choice. -/
def Carried (calls : List FetchCall) : Prop :=
  ∀ past call rest, calls = past ++ call :: rest → call.reuses P = true →
    latest C (uptoRefill P past) = latest C past

variable {C P} {past : List FetchCall} {call : FetchCall} {c : ClientFetch σ}

theorem after_append : ClientFetch.after C P (past ++ [call]) =
    (ClientFetch.after C P past).run C P call := by
  simp [ClientFetch.after]

theorem latest_append : latest C (past ++ [call]) = (match call with
    | .setCongestionStrategy strategy => (C.parse strategy).getD (latest C past)
    | _ => latest C past) := by
  simp [latest]

theorem uptoRefill_append : uptoRefill P (past ++ [call]) =
    if call.refills P then past ++ [call] else uptoRefill P past := by
  unfold uptoRefill
  rw [List.rdropWhile_concat]
  cases call.refills P <;> rfl

/-! ## What a call does to the two fields -/

/-- The strategy the shared consumer has, or will be made with. -/
def ClientFetch.slot (C : CongestionControl σ) (c : ClientFetch σ) : σ :=
  (c.shared C).congestionStrategy

theorem run_ccStrategy : (c.run C P call).ccStrategy = (match call with
    | .setCongestionStrategy strategy => (C.parse strategy).getD c.ccStrategy
    | _ => c.ccStrategy) := by
  cases call <;> simp only [ClientFetch.run, ClientFetch.setCongestionStrategy, ClientFetch.fetch,
    ClientFetch.fetchObject, ClientFetch.fetchObjectVerified, ClientFetch.fetchObjectHinted]
  case setCongestionStrategy strategy => cases C.parse strategy <;> rfl
  case fetchObjectVerifiedHinted name hint | fetchObjectToFd name hint =>
    split
    · rfl
    · split <;> rfl
  all_goals split <;> rfl

/-- Only the hinted fetches change what the shared consumer runs with. -/
theorem run_slot : (c.run C P call).slot C =
    if call.refills P then c.ccStrategy else c.slot C := by
  cases call <;> simp only [ClientFetch.run, ClientFetch.setCongestionStrategy, ClientFetch.fetch,
    ClientFetch.fetchObject, ClientFetch.fetchObjectVerified, ClientFetch.fetchObjectHinted,
    FetchCall.refills]
  case setCongestionStrategy strategy => cases C.parse strategy <;> rfl
  case fetchObjectVerifiedHinted name hint | fetchObjectToFd name hint =>
    split
    · simp [*]
    · split <;> simp [*, ClientFetch.slot, ClientFetch.shared, ClientFetch.demuxConsumer]
  all_goals split <;> rfl

theorem used_eq : c.used C P call =
    if call.reuses P then some (c.slot C)
    else if call.refills P then some c.ccStrategy else none := by
  cases call <;> simp only [ClientFetch.used, ClientFetch.fetchObject,
    ClientFetch.fetchObjectVerified, ClientFetch.fetchObjectHinted, FetchCall.reuses,
    FetchCall.refills]
  case fetchObject name | fetchObjectVerified name =>
    split <;> simp [*, ClientFetch.slot, Except.toOption]
  case fetchObjectVerifiedHinted name hint | fetchObjectToFd name hint =>
    split
    · simp [*, Except.toOption]
    · split <;> simp [*, Except.toOption, ClientFetch.demuxConsumer]
  all_goals rfl

/-- **Invariant**: one field has the latest choice, the other the choice of the last hinted
fetch. -/
theorem after_fields (C : CongestionControl σ) (P : Parsers) (past : List FetchCall) :
    (ClientFetch.after C P past).ccStrategy = latest C past ∧
      (ClientFetch.after C P past).slot C = latest C (uptoRefill P past) := by
  induction past using List.reverseRecOn with
  | nil => exact ⟨rfl, rfl⟩
  | append_singleton past call ih =>
    obtain ⟨hcc, hslot⟩ := ih
    rw [after_append, run_ccStrategy, run_slot, latest_append, uptoRefill_append, hcc, hslot]
    refine ⟨rfl, ?_⟩
    by_cases hr : call.refills P = true
    · rw [if_pos hr, if_pos hr, latest_append]
      cases call <;> first | rfl | cases hr
    · rw [if_neg hr, if_neg hr]

/-- **Every whole-object fetch runs with the latest choice** exactly when each fetch over the
shared consumer comes after a hinted fetch with the same choice. -/
theorem selected_iff (C : CongestionControl σ) (P : Parsers) (calls : List FetchCall) :
    Selected C P calls ↔ Carried C P calls := by
  refine forall_congr' fun past => forall_congr' fun call => forall_congr' fun rest =>
    forall_congr' fun _ => ?_
  obtain ⟨hcc, hslot⟩ := after_fields C P past
  rw [used_eq, hcc, hslot]
  by_cases hre : call.reuses P = true
  · simp [hre]
  · by_cases href : call.refills P = true
    · simp [hre, href]
    · simp [hre, href]

/-- The strategies the library has. -/
inductive CongestionStrategy where
  | aimd
  | cubic
  deriving DecidableEq, Repr

def CongestionStrategy.control : CongestionControl CongestionStrategy where
  parse s := if s = "aimd" then some .aimd else if s = "cubic" then some .cubic else none
  default := .aimd

/-- CUBIC is chosen, and the next `fetch_object` runs with AIMD. -/
theorem selected_fails : ¬ ∀ (σ : Type) (C : CongestionControl σ) (P : Parsers)
    (calls : List FetchCall), Selected C P calls := by
  intro h
  have hused := h CongestionStrategy CongestionStrategy.control
    ⟨fun _ => some [], fun _ => true, fun _ => true, fun _ => true⟩
    [.setCongestionStrategy "cubic", .fetchObject "/a"] [.setCongestionStrategy "cubic"]
    (.fetchObject "/a") [] rfl .aimd rfl
  exact absurd hused (by decide)

end NdnMobile.Ffi
