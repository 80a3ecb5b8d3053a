import NdnMobile.RemoteSigner.Responder

/-!
# What the responder signs

The invariant ties what a task knows in each phase to the history: the request it was
decoded from, the approval it got and the signature made for it. Nothing here depends on
how the policy decides.
-/

namespace NdnMobile.RemoteSigner

open NdnMobile.Lib NdnMobile.Packet NdnMobile.Identity

/-! ## The invariant -/

variable (C : Custody)

/-- The event approves the task: the gate's yes to the region's summary, or the policy's. -/
def Approves (i : Nat) (region : Bytes) (e : Event) (_past : List Event) : Prop :=
  e = .asked i (C.signingSummary region) true ∨ ∃ time, e = .decided i region .autoApprove time

/-- The event is a loaded signer's signature over the region, for a task that was approved. -/
def SignsFor (i : Nat) (region signature : Bytes) (e : Event) (past : List Event) : Prop :=
  ∃ signer draw, e = .signed i signer region signature ∧ C.sign signer region draw = .ok signature ∧
    .loaded signer ∈ past ∧ Once (Approves C i region) past

/-- **What is known of a task in each phase.** -/
def Phase.Inv (history : List Event) (i : Nat) (wire : Bytes) : Phase → Prop
  | .received req | .prompting req | .signing req none => C.decodeRequest wire = .ok req
  | .approved req => C.decodeRequest wire = .ok req ∧ Once (Approves C i req.region) history
  | .signing req (some signer) => C.decodeRequest wire = .ok req ∧
    Once (Approves C i req.region) history ∧ .loaded signer ∈ history
  | .answered (.denied reqId) => ∃ req, C.decodeRequest wire = .ok req ∧ reqId = req.reqId
  | .answered (.approved reqId signature) => ∃ req, C.decodeRequest wire = .ok req ∧
    reqId = req.reqId ∧ Once (SignsFor C i req.region signature) history
  | .failed _ | .dropped => True

/-- A task's request. -/
def State.wire (s : State) (i : Nat) : Option Bytes := s.tasks[i]?.map (·.wire)

structure Inv (s : State) : Prop where
  identity : ∀ signer, s.identity = some signer → .loaded signer ∈ s.history
  tasks : ∀ i (task : Task), s.tasks[i]? = some task → task.phase.Inv C s.history i task.wire
  signed : ∀ i signer region signature, .signed i signer region signature ∈ s.history →
    ∃ wire req, s.wire i = some wire ∧ C.decodeRequest wire = .ok req ∧ region = req.region

variable {C} {s t : State} {history : List Event} {e : Event} {i : Nat} {task : Task}
  {wire : Bytes} {phase : Phase} {req : WireSignRequest}

theorem Phase.Inv.cons (h : phase.Inv C history i wire) : phase.Inv C (e :: history) i wire := by
  cases phase with
  | received | prompting => exact h
  | approved req => exact ⟨h.1, h.2.cons⟩
  | signing req signer =>
    cases signer with
    | none => exact h
    | some signer => exact ⟨h.1, h.2.1.cons, List.mem_cons_of_mem _ h.2.2⟩
  | answered response =>
    cases response with
    | denied => exact h
    | approved reqId signature =>
      obtain ⟨req, hd, hid, hs⟩ := h
      exact ⟨req, hd, hid, hs.cons⟩
  | failed | dropped => trivial

theorem inv_init (now : Nat) : Inv C (.init now) where
  identity := nofun
  tasks := nofun
  signed := nofun

/-! ## What the parts of a step keep -/

theorem wire_setTask (hi : s.tasks[i]? = some task) (j : Nat) :
    (s.setTask i task phase).wire j = s.wire j := by
  simp only [State.wire, State.setTask, List.getElem?_set]
  split
  · subst i
    rw [hi]
    split
    · rfl
    · rw [List.getElem?_eq_none (by omega)] at hi
      cases hi
  · rfl

theorem wire_receive {via : Via} {w : Bytes} (h : s.wire i = some w) :
    (s.receive via wire phase).wire i = some w := by
  obtain ⟨task, ht, rfl⟩ := Option.map_eq_some_iff.mp h
  have hlt : i < s.tasks.length := (List.getElem?_eq_some_iff.mp ht).1
  simp only [State.wire, State.receive, List.getElem?_append_left hlt, ht, Option.map_some]

theorem Inv.log (h : Inv C s)
    (he : ∀ i signer region signature, e ≠ .signed i signer region signature) :
    Inv C (s.log e) where
  identity signer hs := List.mem_cons_of_mem _ (h.identity signer hs)
  tasks j task hj := (h.tasks j task hj).cons
  signed j signer region signature hm := by
    rcases List.mem_cons.mp hm with heq | hm
    · exact absurd heq.symm (he j signer region signature)
    · exact h.signed j signer region signature hm

theorem Inv.log_signed (h : Inv C s) {signer : Signer} {signature : Bytes}
    (hi : s.wire i = some wire) (hd : C.decodeRequest wire = .ok req) :
    Inv C (s.log (.signed i signer req.region signature)) where
  identity signer hs := List.mem_cons_of_mem _ (h.identity signer hs)
  tasks j task hj := (h.tasks j task hj).cons
  signed j signer' region' signature' hm := by
    rcases List.mem_cons.mp hm with heq | hm
    · cases heq
      exact ⟨wire, req, hi, hd, rfl⟩
    · exact h.signed j signer' region' signature' hm

theorem Inv.receive (h : Inv C s) {via : Via} (hp : ∀ i, phase.Inv C s.history i wire) :
    Inv C (s.receive via wire phase) where
  identity := h.identity
  tasks j task hj := by
    simp only [State.receive, List.getElem?_append] at hj
    split at hj
    · exact h.tasks j task hj
    · rw [List.getElem?_singleton] at hj
      split at hj
      · cases hj
        exact hp j
      · cases hj
  signed j signer region signature hm := by
    obtain ⟨w, req, hw, hd, hr⟩ := h.signed j signer region signature hm
    exact ⟨w, req, wire_receive hw, hd, hr⟩

theorem Inv.setTask (h : Inv C s) (hi : s.tasks[i]? = some task)
    (hp : phase.Inv C s.history i task.wire) : Inv C (s.setTask i task phase) where
  identity := h.identity
  tasks j task' hj := by
    simp only [State.setTask, List.getElem?_set] at hj
    split at hj
    · subst i
      split at hj
      · cases hj
        exact hp
      · cases hj
    · exact h.tasks j task' hj
  signed j signer region signature hm := by
    rw [wire_setTask hi]
    exact h.signed j signer region signature hm

theorem Inv.lock (h : Inv C s) (l : Option Nat) : Inv C { s with policyLock := l } :=
  ⟨h.identity, h.tasks, h.signed⟩

/-! ## Every step keeps the invariant -/

theorem inv_decideStep (h : Inv C s) (hi : s.tasks[i]? = some task)
    (hd : C.decodeRequest task.wire = .ok req) : Inv C (decideStep C s i task req) := by
  have hl := h.log (e := .decided i req.region (C.decide s.signPolicy req.region s.now) s.now)
    nofun
  unfold decideStep
  dsimp only
  split
  · rename_i ha
    refine hl.setTask hi ⟨hd, .now (.inr ⟨s.now, ?_⟩)⟩
    rw [ha]
  · refine (hl.setTask hi ?_).lock _
    exact hd

theorem inv_answerStep (h : Inv C s) (hi : s.tasks[i]? = some task)
    (hd : C.decodeRequest task.wire = .ok req) (approve : Bool) :
    Inv C (answerStep C s i task req approve) := by
  have hl := h.log (e := .asked i (C.signingSummary req.region) approve) nofun
  refine (hl.setTask hi ?_).lock _
  cases approve with
  | true => exact ⟨hd, .now (.inl rfl)⟩
  | false => exact hd

theorem inv_snapshotStep (h : Inv C s) (hi : s.tasks[i]? = some task)
    (hp : Phase.Inv C s.history i task.wire (.approved req)) :
    Inv C (snapshotStep s i task req) := by
  unfold snapshotStep
  split
  · exact h.setTask hi trivial
  · refine h.setTask hi ?_
    cases hs : s.identity with
    | none => exact hp.1
    | some signer => exact ⟨hp.1, hp.2, h.identity signer hs⟩

theorem inv_signStep (h : Inv C s) (hi : s.tasks[i]? = some task) {signer : Option Signer}
    (hp : Phase.Inv C s.history i task.wire (.signing req signer)) (draw : Nat) :
    Inv C (signStep C s i task req signer draw) := by
  unfold signStep
  cases signer with
  | none => exact h.setTask hi ⟨req, hp, rfl⟩
  | some signer =>
    obtain ⟨hd, ha, hl⟩ := hp
    dsimp only
    split
    · exact h.setTask hi ⟨req, hd, rfl⟩
    · rename_i signature hs
      have hw : s.wire i = some task.wire := by rw [State.wire, hi, Option.map_some]
      exact (h.log_signed hw hd).setTask hi ⟨req, hd, rfl, .now ⟨signer, draw, rfl, hs, hl, ha⟩⟩

/-- **Step.** -/
theorem inv_move {a : Act} (h : Inv C s) (hm : Move C s a t) : Inv C t := by
  cases hm with
  | advance | grant | countGrants => exact ⟨h.identity, h.tasks, h.signed⟩
  | load signer =>
    have hl := h.log (e := .loaded signer) nofun
    exact ⟨fun _ hs => by cases hs; exact List.mem_cons_self, hl.tasks, hl.signed⟩
  | storeGrant =>
    have hl := h.log (e := .opened s.now) nofun
    exact ⟨hl.identity, hl.tasks, hl.signed⟩
  | stop =>
    have hl := h.log (e := .stopped) nofun
    exact ⟨hl.identity, hl.tasks, hl.signed⟩
  | received hd => exact h.receive fun _ => hd
  | refused hp =>
    refine h.receive fun _ => ?_
    rcases hp with rfl | ⟨e, rfl⟩ <;> trivial
  | noParameters => exact h
  | decide hi hp =>
    have ht := h.tasks _ _ hi
    rw [hp] at ht
    exact inv_decideStep h hi ht
  | answer approve hi hp =>
    have ht := h.tasks _ _ hi
    rw [hp] at ht
    exact inv_answerStep h hi ht approve
  | snapshot hi hp =>
    have ht := h.tasks _ _ hi
    rw [hp] at ht
    exact inv_snapshotStep h hi ht
  | sign draw hi hp =>
    have ht := h.tasks _ _ hi
    rw [hp] at ht
    exact inv_signStep h hi ht draw

/-! ## Served tasks and the history -/

/-- The served tasks came as Interests that meet `P`. -/
def State.Served (P : Name → Bytes → Prop) (s : State) : Prop :=
  ∀ task ∈ s.tasks, ∀ name, task.via = .served name → P name task.wire

variable {P : Name → Bytes → Prop}

theorem State.Served.setTask (h : s.Served P) (hi : s.tasks[i]? = some task) :
    (s.setTask i task phase).Served P := by
  intro task' hm name hv
  rcases List.mem_or_eq_of_mem_set hm with hm | rfl
  · exact h task' hm name hv
  · exact h task (List.mem_of_getElem? hi) name hv

theorem State.Served.receive (h : s.Served P) {via : Via}
    (hp : ∀ name, via = .served name → P name wire) : (s.receive via wire phase).Served P := by
  intro task' hm name hv
  rcases List.mem_append.mp hm with hm | hm
  · exact h task' hm name hv
  · cases List.mem_singleton.mp hm
    exact hp name hv

theorem served_move {a : Act} (h : s.Served P) (hm : Move C s a t)
    (hp : ∀ name wire, a = .interest name (some wire) → P name wire) : t.Served P := by
  cases hm with
  | advance | load | grant | storeGrant | countGrants | stop | noParameters => exact h
  | received _ ha | refused _ ha => exact h.receive fun name hv => hp name _ (ha name hv)
  | decide hi =>
    obtain ⟨phase, e, lock, heq⟩ := decideStep_eq
    rw [heq]
    exact State.Served.setTask (s := s.log e) h hi
  | answer approve hi => exact State.Served.setTask (s := s.log _) h hi
  | snapshot hi =>
    obtain ⟨phase, heq⟩ := snapshotStep_eq
    rw [heq]
    exact h.setTask hi
  | sign draw hi =>
    obtain ⟨phase, heq | ⟨e, heq⟩⟩ := signStep_eq
    · rw [heq]
      exact h.setTask hi
    · rw [heq]
      exact State.Served.setTask (s := s.log e) h hi

/-- A step records at most one event. -/
theorem history_move {a : Act} (hm : Move C s a t) :
    t.history = s.history ∨ ∃ e, t.history = e :: s.history := by
  cases hm with
  | advance | grant | countGrants | received | refused | noParameters => exact .inl rfl
  | load | storeGrant | stop | answer => exact .inr ⟨_, rfl⟩
  | decide =>
    obtain ⟨phase, e, lock, heq⟩ := decideStep_eq
    rw [heq]
    exact .inr ⟨e, rfl⟩
  | snapshot =>
    obtain ⟨phase, heq⟩ := snapshotStep_eq
    rw [heq]
    exact .inl rfl
  | sign =>
    obtain ⟨phase, heq | ⟨e, heq⟩⟩ := signStep_eq
    · rw [heq]
      exact .inl rfl
    · rw [heq]
      exact .inr ⟨e, rfl⟩

end NdnMobile.RemoteSigner
