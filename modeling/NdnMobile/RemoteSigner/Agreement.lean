import NdnMobile.RemoteSigner.Client
import NdnMobile.RemoteSigner.Authorised

/-!
# Remote signing agreement

A signature a client gets is one the responder's signer made over the client's region. The
responder answers under the name of the Interest it got, the name carries the digest of the
request, and the client takes only the Data of the name it asked for: the three together
tie the reply to the request, though the response's id is not checked.
-/

namespace NdnMobile.RemoteSigner

open NdnMobile.Lib NdnMobile.Packet NdnMobile.Identity

variable {W : Type} (C : Custody) (K : Packets W) (prefix' : Name)

/-- An Interest's name ends in the digest of its parameters. -/
def Digested (name : Name) (params : Bytes) : Prop :=
  ∃ base, name = base ++ [K.parametersDigest params]

/-- A waiting call expects the name of a request for its region; a returned signature was made
over it. -/
def SignCall.Inv (history : List Event) : SignCall → Prop
  | .waiting region expected => ∃ reqId,
    expected = prefix' ++ [K.parametersDigest (K.encodeRequest ⟨reqId, region⟩)]
  | .returned region (.ok signature) => ∃ i, Once (SignsFor C i region signature) history
  | .returned _ (.error _) => True

/-- **The invariant of the system.** -/
structure System.Inv (s : System W) : Prop where
  node : RemoteSigner.Inv C s.node
  served : s.node.Served (Digested K)
  sent : ∀ wire ∈ s.sent, ∃ name params, wire = K.buildInterest name params
  calls : ∀ call ∈ s.calls, call.Inv C K prefix' s.node.history

variable {C K prefix'} {s t : System W}

theorem systemInv_init (now : Nat) : (System.init (W := W) now).Inv C K prefix' :=
  ⟨inv_init now, nofun, nofun, nofun⟩

theorem SignCall.Inv.history {h h' : List Event} {call : SignCall}
    (hc : call.Inv C K prefix' h) (hh : h' = h ∨ ∃ e, h' = e :: h) : call.Inv C K prefix' h' := by
  rcases hh with rfl | ⟨e, rfl⟩
  · exact hc
  · cases call with
    | waiting => exact hc
    | returned region result =>
      cases result with
      | error => trivial
      | ok signature =>
        obtain ⟨i, hs⟩ := hc
        exact ⟨i, hs.cons⟩

/-- The responder's moves keep the invariant, if the Interests they take are digested. -/
theorem System.Inv.node_move (h : s.Inv C K prefix') {a : Act} {node : State}
    (hm : Move C s.node a node)
    (ha : ∀ name wire, a = .interest name (some wire) → Digested K name wire) :
    { s with node }.Inv C K prefix' where
  node := inv_move h.node hm
  served := served_move h.served hm ha
  sent := h.sent
  calls call hc := (h.calls call hc).history (history_move hm)

/-- **A reply for the expected name answers the very request.** -/
theorem signed_of_reply (hK : Unambiguous C K) (h : s.Inv C K prefix') {reqId : UInt64}
    {region signature : Bytes} {wire : W} (ha : s.mayArrive C K prefix' wire = true)
    (hr : signReply K (prefix' ++ [K.parametersDigest (K.encodeRequest ⟨reqId, region⟩)]) wire
      = .ok signature) :
    ∃ i, Once (SignsFor C i region signature) s.node.history := by
  obtain ⟨data, respId, hdata, hname, hresp⟩ := signReply_ok hr
  have hmem : data ∈ s.node.replies C := by
    have hp : prefix'.isPrefixOf data.name = true := by
      rw [hname, List.isPrefixOf_iff_prefix]
      exact List.prefix_append ..
    simpa only [System.mayArrive, hdata, hp, Bool.not_true, Bool.false_or, decide_eq_true_eq]
      using ha
  obtain ⟨task, htask, hreply⟩ := List.mem_filterMap.mp hmem
  obtain ⟨response, hvia, hphase, hbytes⟩ := reply_eq_some hreply
  -- the task's request is the client's, by the digest in the name
  have hwire : task.wire = K.encodeRequest ⟨reqId, region⟩ := by
    obtain ⟨base, hbase⟩ := h.served task htask data.name hvia
    rw [hname] at hbase
    exact (hK.digest (List.singleton_inj.mp (List.append_inj_right' hbase rfl))).symm
  -- and the response is the task's
  have happr : response = .approved respId signature := by
    rw [hbytes, hK.response, Except.ok.injEq] at hresp
    exact hresp
  obtain ⟨i, hi⟩ := List.getElem?_of_mem htask
  have hinv := h.node.tasks i task hi
  rw [hphase, happr] at hinv
  obtain ⟨req, hd, -, hs⟩ := hinv
  rw [hwire, hK.request] at hd
  cases hd
  exact ⟨i, hs⟩

theorem mem_set_call {calls : List SignCall} {k : Nat} {call : SignCall} {Q : SignCall → Prop}
    (h : ∀ c ∈ calls, Q c) (hq : Q call) : ∀ c ∈ calls.set k call, Q c := by
  intro c hc
  rcases List.mem_or_eq_of_mem_set hc with hc | rfl
  · exact h c hc
  · exact hq

/-- **Step.** -/
theorem systemInv_step (hK : Unambiguous C K) (h : s.Inv C K prefix') {a : SysAct W}
    (hs : s.step C K prefix' a = some t) : t.Inv C K prefix' := by
  cases a with
  | node a =>
    simp only [System.step] at hs
    split at hs
    · cases hs
    · rename_i hi
      obtain ⟨node, hn, rfl⟩ := Option.map_eq_some_iff.mp hs
      refine h.node_move (step_move hn) fun name wire ha => ?_
      rw [ha] at hi
      exact absurd rfl hi
  | connect =>
    cases hs
    exact ⟨h.node, h.served, h.sent, h.calls⟩
  | sign client region =>
    simp only [System.step, signRequest_eq] at hs
    split at hs
    · cases hs
    · rename_i reqId _
      cases hs
      refine ⟨h.node, h.served, fun wire hw => ?_, fun call hc => ?_⟩
      · rcases List.mem_append.mp hw with hw | hw
        · exact h.sent wire hw
        · exact ⟨_, _, List.mem_singleton.mp hw⟩
      · rcases List.mem_append.mp hc with hc | hc
        · exact h.calls call hc
        · cases List.mem_singleton.mp hc
          exact ⟨reqId, rfl⟩
  | foreign name params =>
    cases hs
    refine ⟨h.node, h.served, fun wire hw => ?_, h.calls⟩
    rcases List.mem_append.mp hw with hw | hw
    · exact h.sent wire hw
    · exact ⟨name, params, List.mem_singleton.mp hw⟩
  | deliver k =>
    simp only [System.step] at hs
    split at hs
    · cases hs
    · rename_i wire hw
      obtain ⟨name, params, rfl⟩ := h.sent wire (List.mem_of_getElem? hw)
      rw [K.decode_build] at hs
      obtain ⟨node, hn, rfl⟩ := Option.map_eq_some_iff.mp hs
      refine h.node_move (step_move hn) fun n w ha => ?_
      cases ha
      exact ⟨name, rfl⟩
  | reply k wire =>
    simp only [System.step] at hs
    split at hs
    · rename_i region expected hk
      split at hs
      · rename_i ha
        cases hs
        refine ⟨h.node, h.served, h.sent, mem_set_call h.calls ?_⟩
        obtain ⟨reqId, rfl⟩ := h.calls _ (List.mem_of_getElem? hk)
        cases hr : signReply K _ wire with
        | error => trivial
        | ok signature => exact signed_of_reply hK h ha hr
      · cases hs
    · cases hs
  | noReply k msg =>
    simp only [System.step] at hs
    split at hs
    · cases hs
      exact ⟨h.node, h.served, h.sent, mem_set_call h.calls trivial⟩
    · cases hs

/-- **Agreement.** A signature that `sign` returns is one that a signer of the responder made over
the region of that call, for an approved request. -/
theorem sign_agreement (hK : Unambiguous C K) {now : Nat} {tr : List (Trans (System W) (SysAct W))}
    {u : System W} (hrun : Run (stepRel (System.step C K prefix')) (.init now) tr u)
    {region signature : Bytes} (hc : .returned region (.ok signature) ∈ u.calls) :
    ∃ i, Once (SignsFor C i region signature) u.node.history := by
  have h : u.Inv C K prefix' :=
    (hrun.inv (fun h hs => systemInv_step hK h hs) (systemInv_init now)).1
  exact h.calls _ hc

/-! ## A client, restarted -/

/-- Packets as they are. -/
inductive PlainWire where
  | interest (i : Interest)
  | data (d : Data)
  | lp (fragment : Option PlainWire)

/-- A packet library with plain encodings; a digest is the parameters themselves. -/
def plainPackets : Packets PlainWire where
  encodeRequest req := beBytes 8 req.reqId.toNat ++ req.region
  decodeResponse
    | 1 :: rest => .ok (.approved (UInt64.ofNat (beVal (rest.take 8))) (rest.drop 8))
    | 0 :: rest => .ok (.denied (UInt64.ofNat (beVal (rest.take 8))))
    | _ => .error "no response"
  parametersDigest params := ⟨2, params⟩
  buildInterest name params := .interest ⟨name ++ [⟨2, params⟩], some params⟩
  decodeInterest
    | .interest i => .ok i
    | _ => .error "no Interest"
  isLpPacket
    | .lp _ => true
    | _ => false
  lpFragment
    | .lp fragment => .ok fragment
    | _ => .error "no LpPacket"
  decodeData
    | .data d => .ok d
    | _ => .error "no Data"
  decode_build _ _ := rfl

theorem ofNat_beVal_beBytes (n : UInt64) (rest : Bytes) :
    UInt64.ofNat (beVal ((beBytes 8 n.toNat ++ rest).take 8)) = n := by
  rw [List.take_left' (beBytes_length ..), beVal_beBytes n.toNat_lt, UInt64.ofNat_toNat]

theorem plain_unambiguous : Unambiguous plainCustody plainPackets where
  request req := by
    have hlen : (beBytes 8 req.reqId.toNat).length = 8 := beBytes_length ..
    simp only [plainCustody, plainPackets, ofNat_beVal_beBytes, List.length_append, hlen,
      Nat.le_add_right, if_true, List.drop_left' hlen]
  response response := by
    cases response with
    | approved reqId signature =>
      have hlen : (beBytes 8 reqId.toNat).length = 8 := beBytes_length ..
      simp only [plainCustody, plainPackets, List.cons_append, ofNat_beVal_beBytes,
        List.drop_left' hlen]
    | denied reqId =>
      have h := ofNat_beVal_beBytes reqId []
      rw [List.append_nil] at h
      simp only [plainCustody, plainPackets, h]
  digest := fun _ _ h => (Component.mk.inj h).2

/-- The name of the first request of a client for a region, under `[]`. -/
def firstName (region : Bytes) : Name := [⟨2, [0, 0, 0, 0, 0, 0, 0, 1] ++ region⟩]

/-- A client asks, is restarted and asks again with the same id. The second request is served
first, and the first one twice. -/
def restartedClient : List (SysAct PlainWire) := [
  .node (.load nodeSigner), .connect, .sign 0 [9], .connect, .sign 1 [8],
  .deliver 1, .deliver 0, .deliver 0,
  .node (.decide 1), .node (.answer 1 true), .node (.snapshot 1), .node (.sign 1 0),
  .reply 0 (.lp (some (.data
    ⟨firstName [9], some (plainCustody.encodeResponse (.approved 1 [7, 9]))⟩)))]

theorem sign_agreement_restartedClient : ∃ tr u,
    Run (stepRel (System.step plainCustody plainPackets [])) (.init 0) tr u ∧
    SignCall.returned [9] (.ok [7, 9]) ∈ u.calls ∧
    ∃ i, Once (SignsFor plainCustody i [9] [7, 9]) u.node.history := by
  obtain ⟨u, hu, hc⟩ : ∃ u,
      exec (System.step plainCustody plainPackets []) (.init 0) restartedClient = some u ∧
      u.calls = [.returned [9] (.ok [7, 9]), .waiting [8] (firstName [8])] := ⟨_, rfl, rfl⟩
  obtain ⟨tr, hrun, -⟩ := exec_run hu
  have hm : SignCall.returned [9] (.ok [7, 9]) ∈ u.calls := hc ▸ List.mem_cons_self
  exact ⟨tr, u, hrun, hm, sign_agreement plain_unambiguous hrun hm⟩

end NdnMobile.RemoteSigner
