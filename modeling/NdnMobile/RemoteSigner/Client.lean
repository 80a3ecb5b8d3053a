import NdnMobile.RemoteSigner.Signing

/-!
# The RemoteSigner client

`RemoteSignerClient::sign` round-trips a region to the responder: an Interest under the
responder's prefix that carries the request in its parameters, and the Data that answers
it. The system is the responder and any number of clients of its prefix, with the Interests
that were sent: each may reach the responder any number of times, or never, and a client may
be handed any reply, at any time, that somebody could have sent.
-/

namespace NdnMobile.RemoteSigner

open NdnMobile.Lib NdnMobile.Packet NdnMobile.Identity

structure Interest where
  name : Name
  appParameters : Option Bytes
  deriving DecidableEq, Repr

/-- The packet library under the client, over the wires `W` of its packets. -/
structure Packets (W : Type) where
  encodeRequest : WireSignRequest → Bytes
  decodeResponse : Bytes → Except String WireSignResponse
  /-- The ParametersSha256Digest component of a name. -/
  parametersDigest : Bytes → Component
  /-- `InterestBuilder` with a name and application parameters. -/
  buildInterest : Name → Bytes → W
  decodeInterest : W → Except String Interest
  isLpPacket : W → Bool
  /-- `LpPacket::decode`, its fragment. -/
  lpFragment : W → Except String (Option W)
  decodeData : W → Except String Data
  /-- The builder appends the digest of the parameters to the name. -/
  decode_build : ∀ name params, decodeInterest (buildInterest name params) =
    .ok ⟨name ++ [parametersDigest params], some params⟩

variable {W : Type}

/-- What is encoded is decoded again, and parameters are told apart by their digests. -/
structure Unambiguous (C : Custody) (K : Packets W) : Prop where
  request : ∀ req, C.decodeRequest (K.encodeRequest req) = .ok req
  response : ∀ response, K.decodeResponse (C.encodeResponse response) = .ok response
  digest : Function.Injective K.parametersDigest

variable (C : Custody) (K : Packets W) (prefix' : Name)

/-! ## A call of `sign` -/

def decodeReply (reply : W) : Except String Data := do
  let raw ←
    if K.isLpPacket reply then do
      let fragment ← (K.lpFragment reply).mapError fun e => s!"lp decode: {e}"
      okOr fragment "lp packet had no fragment"
    else pure reply
  (K.decodeData raw).mapError fun e => s!"data decode: {e}"

/-- Up to `fetch_correlated`: the Interest to send and the name it expects. -/
def signRequest (reqId : UInt64) (region : Bytes) : Except String (W × Name) := do
  let wire := K.buildInterest prefix' (K.encodeRequest ⟨reqId, region⟩)
  let interest ← (K.decodeInterest wire).mapError fun e => s!"remote signer: own interest: {e}"
  return (wire, interest.name)

/-- From the reply of `fetch_correlated` on. The response's `req_id` is not looked at. -/
def signReply (expected : Name) (reply : W) : Except String Bytes := do
  let data ← (decodeReply K reply).mapError fun e => s!"remote signer: undecodable Data: {e}"
  if data.name ≠ expected then
    throw "remote signer: correlation mismatch"
  else
    match K.decodeResponse data.bytes with
    | .ok (.approved _ signature) => return signature
    | .ok (.denied _) => throw "remote signer denied the request"
    | .error e => throw s!"remote signer: undecodable reply: {e}"

inductive SignCall where
  | waiting (region : Bytes) (expected : Name)
  | returned (region : Bytes) (result : Except String Bytes)

/-! ## The system -/

structure System (W : Type) where
  node : State
  /-- The `req_seq` of each client; a restarted client is a new one. -/
  clients : List UInt64
  calls : List SignCall
  /-- The Interests sent. -/
  sent : List W

def System.init (now : Nat) : System W := ⟨.init now, [], [], []⟩

/-- The Data the responder has sent. -/
def State.replies (s : State) : List Data := s.tasks.filterMap (Task.reply C)

/-- A wire that a client may be handed: only the responder answers under the prefix. -/
def System.mayArrive (s : System W) (wire : W) : Bool :=
  match decodeReply K wire with
  | .error _ => true
  | .ok data => !prefix'.isPrefixOf data.name || decide (data ∈ s.node.replies C)

inductive SysAct (W : Type) where
  /-- A step of the responder that takes no Interest. -/
  | node (a : Act)
  | connect
  | sign (client : Nat) (region : Bytes)
  /-- Another party sends an Interest. -/
  | foreign (name : Name) (params : Bytes)
  /-- An Interest reaches the responder. -/
  | deliver (k : Nat)
  /-- `fetch_correlated` hands over a reply. -/
  | reply (call : Nat) (wire : W)
  | noReply (call : Nat) (msg : String)

def Act.isInterest : Act → Bool
  | .interest .. => true
  | _ => false

def System.step (s : System W) : SysAct W → Option (System W)
  | .node a =>
    if a.isInterest then none
    else (RemoteSigner.step C s.node a).map fun node => { s with node }
  | .connect => some { s with clients := s.clients ++ [1] }
  | .sign client region =>
    match s.clients[client]? with
    | none => none
    | some reqId =>
      let s := { s with clients := s.clients.set client (reqId + 1) }
      match signRequest K prefix' reqId region with
      | .error msg => some { s with calls := s.calls ++ [.returned region (.error msg)] }
      | .ok (wire, expected) => some { s with
          calls := s.calls ++ [.waiting region expected]
          sent := s.sent ++ [wire] }
  | .foreign name params => some { s with sent := s.sent ++ [K.buildInterest name params] }
  | .deliver k =>
    match s.sent[k]? with
    | none => none
    | some wire =>
      match K.decodeInterest wire with
      | .error _ => some s
      | .ok interest =>
        (RemoteSigner.step C s.node (.interest interest.name interest.appParameters)).map
          fun node => { s with node }
  | .reply call wire =>
    match s.calls[call]? with
    | some (.waiting region expected) =>
      if s.mayArrive C K prefix' wire then
        some { s with calls := s.calls.set call (.returned region (signReply K expected wire)) }
      else none
    | _ => none
  | .noReply call msg =>
    match s.calls[call]? with
    | some (.waiting region _) => some { s with
        calls := s.calls.set call
          (.returned region (.error s!"remote signer: no reply: {msg}")) }
    | _ => none

/-! ## What the parts of a call come to -/

variable {C K prefix'}

theorem signRequest_eq (reqId : UInt64) (region : Bytes) :
    signRequest K prefix' reqId region =
      .ok (K.buildInterest prefix' (K.encodeRequest ⟨reqId, region⟩),
        prefix' ++ [K.parametersDigest (K.encodeRequest ⟨reqId, region⟩)]) := by
  simp only [signRequest, K.decode_build]
  rfl

theorem signReply_ok {expected : Name} {reply : W} {signature : Bytes}
    (h : signReply K expected reply = .ok signature) :
    ∃ data reqId, decodeReply K reply = .ok data ∧ data.name = expected ∧
      K.decodeResponse data.bytes = .ok (.approved reqId signature) := by
  simp only [signReply, except_bind_ok, mapError_ok] at h
  obtain ⟨data, hd, h⟩ := h
  split at h
  · cases h
  · rename_i hn
    split at h
    · rename_i reqId _ hr
      cases h
      exact ⟨data, reqId, hd, not_not.mp hn, hr⟩
    · cases h
    · cases h

theorem reply_eq_some {task : Task} {data : Data} (h : task.reply C = some data) :
    ∃ response, task.via = .served data.name ∧ task.phase = .answered response ∧
      data.bytes = C.encodeResponse response := by
  unfold Task.reply at h
  split at h
  · rename_i response
    cases h
    exact ⟨response, rfl, rfl, rfl⟩
  · cases h

end NdnMobile.RemoteSigner
