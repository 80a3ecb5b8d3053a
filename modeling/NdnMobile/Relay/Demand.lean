import NdnMobile.Relay.Stream
import Mathlib.Data.Multiset.Filter
import Mathlib.Data.List.Perm.Basic

/-!
# Whose Interests drive the relay

The handler takes any Interest whose name ends in a segment component for demand: the
version before it and the range of the number are not looked at. Interests without one
change nothing, and two runs that differ only in those end in the same state.
-/

namespace NdnMobile.Relay

open NdnMobile.Lib NdnMobile.Packet

/-- `public_versioned/seg=n` for some `n <= last_seg`. -/
def Config.demands (cfg : Config) (name : Name) : Bool :=
  match cfg.naming.trailing name with
  | none => false
  | some n => name == cfg.segmentName n && n ≤ cfg.lastSeg

def Act.interested : Act → Option Name
  | .interest name => some name
  | _ => none

/-- The names of the Interests delivered, in order: handler `i` has the `i`-th. -/
def interests (tr : List (Trans State Act)) : List Name := tr.filterMap (·.act.interested)

/-- A step of the handler of an Interest for `name`. -/
def Handles (tr : List (Trans State Act)) (name : Name) (x : Trans State Act) : Prop :=
  ∃ i ok, x.act = .handler i ok ∧ (interests tr)[i]? = some name

/-- The demand front stays, `run_relay` is not started and nothing is re-fetched. -/
def Harmless (x : Trans State Act) : Prop :=
  x.post.front = x.pre.front ∧ x.post.relay = x.pre.relay ∧ x.post.refetches = x.pre.refetches

variable {cfg : Config} {s t u : State} {tr : List (Trans State Act)} {name : Name}

/-! ## One name -/

theorem interests_snoc {x : Trans State Act} :
    interests (tr ++ [x]) = interests tr ++ x.act.interested.toList :=
  filterMap_snoc (fun x : Trans State Act => x.act.interested) tr x

theorem interests_acts : interests tr = (tr.map (·.act)).filterMap Act.interested := by
  rw [List.filterMap_map]
  rfl

/-- **Invariant**: the handler of an Interest without a segment component either has not run
or has returned. -/
def Unmoved (cfg : Config) (tr : List (Trans State Act)) (s : State) : Prop :=
  s.handlers.length = (interests tr).length ∧
  ∀ (i : Nat) (name : Name), (interests tr)[i]? = some name → cfg.naming.trailing name = none →
    s.handlers[i]? = some (.arrived name) ∨ s.handlers[i]? = some .done

theorem unmoved_init : Unmoved cfg [] .init := ⟨rfl, fun _ _ h => by cases h⟩

/-- Such a handler's step returns. -/
theorem serveStep_unmoved {ok : Bool} {h : Handler} (hn : cfg.naming.trailing name = none)
    (hh : h = .arrived name ∨ h = .done) : serveStep cfg s ok h = (.done, s) := by
  rcases hh with rfl | rfl
  · unfold serveStep
    dsimp only
    split
    · rfl
    · rw [hn]
  · rfl

theorem Unmoved.frame {a : Act} (h : Unmoved cfg tr s) (ha : a.interested = none)
    (ht : t.handlers = s.handlers) : Unmoved cfg (tr ++ [⟨s, a, t⟩]) t := by
  unfold Unmoved
  rw [interests_snoc, ha, Option.toList_none, List.append_nil, ht]
  exact h

theorem runRelayStep_handlers {e : RelayEvent} (hs : runRelayStep cfg s e = some t) :
    t.handlers = s.handlers := by
  cases runRelayStep_move hs with
  | receive => unfold State.received; split <;> rfl
  | _ => rfl

theorem unmoved_step {a : Act} (h : Unmoved cfg tr s) (hs : step cfg s a = some t) :
    Unmoved cfg (tr ++ [⟨s, a, t⟩]) t := by
  cases a with
  | interest name =>
    cases hs
    unfold Unmoved
    rw [interests_snoc]
    refine ⟨by simp [h.1, Act.interested], fun i n hi hn => ?_⟩
    rcases Nat.lt_or_ge i (interests tr).length with hlt | hge
    · rw [List.getElem?_append_left hlt] at hi
      rw [List.getElem?_append_left (h.1 ▸ hlt)]
      exact h.2 i n hi hn
    · rw [List.getElem?_append_right hge] at hi
      rw [List.getElem?_append_right (h.1 ▸ hge), h.1]
      obtain ⟨hlt, -⟩ := List.getElem?_eq_some_iff.mp hi
      have hz : i - (interests tr).length = 0 := by
        simp only [Act.interested, Option.toList_some, List.length_singleton] at hlt
        omega
      rw [hz] at hi ⊢
      exact .inl (congrArg (some ∘ Handler.arrived) (Option.some.inj hi))
  | handler j ok =>
    obtain ⟨hd, hj, rfl⟩ := step_handler hs
    unfold Unmoved
    rw [interests_snoc, serveStep_handlers]
    refine ⟨by simpa [Act.interested] using h.1, fun i n hi hn => ?_⟩
    simp only [Act.interested, Option.toList_none, List.append_nil] at hi
    have hcase := h.2 i n hi hn
    by_cases hij : j = i
    · subst hij
      rw [hj] at hcase
      rw [serveStep_unmoved hn (hcase.imp Option.some.inj Option.some.inj)]
      exact .inr (List.getElem?_set_self (List.getElem?_eq_some_iff.mp hj).1)
    · rw [List.getElem?_set_ne hij]
      exact hcase
  | relay e => exact h.frame rfl (runRelayStep_handlers hs)
  | refetch i e =>
    obtain ⟨r, r', s', -, hm, rfl⟩ := step_refetch hs
    cases hm <;> exact h.frame rfl rfl
  | answer d =>
    obtain ⟨-, -, rfl⟩ := step_answer hs
    exact h.frame rfl rfl
  | evict wire | cancel =>
    cases hs
    exact h.frame rfl rfl

theorem harmless_of_none (hn : cfg.naming.trailing name = none)
    (hrun : Run (stepRel (step cfg)) .init tr u) {x : Trans State Act} (hx : x ∈ tr)
    (hh : Handles tr name x) : Harmless x := by
  obtain ⟨past, rest, rfl⟩ := List.append_of_mem hx
  obtain ⟨s, hpast, hrest⟩ := hrun.of_append
  have hinv : Unmoved cfg past s :=
    hpast.inv_hist (I := Unmoved cfg) unmoved_step unmoved_init
  obtain ⟨i, ok, hact, hi⟩ := hh
  cases hrest with
  | cons hs hr =>
    dsimp only at hact
    subst hact
    obtain ⟨hd, hid, rfl⟩ := step_handler hs
    have hlt := (List.getElem?_eq_some_iff.mp hid).1
    have hpi : (interests past)[i]? = some name := by
      rw [← hi]
      unfold interests
      rw [List.filterMap_append, List.getElem?_append_left]
      exact hinv.1 ▸ hlt
    have hcase := hinv.2 i name hpi hn
    rw [hid] at hcase
    rw [serveStep_unmoved hn (hcase.imp Option.some.inj Option.some.inj)]
    exact ⟨rfl, rfl, rfl⟩

/-- An Interest that ends in a segment component starts `run_relay` when it is the first. -/
theorem harmful_of_some {n : UInt64} (hn : cfg.naming.trailing name = some n) :
    ∃ tr u, Run (stepRel (step cfg)) .init tr u ∧ ∃ x ∈ tr, Handles tr name x ∧ ¬ Harmless x := by
  have hexec : exec (step cfg) .init (.interest name :: List.replicate 3 (.handler 0 false)) =
      some { State.init with
        front := max 0 n
        wake := Notify.new.notifyOne
        handlers := [.starting n] } := by
    simp [exec, step, serveStep, hn, State.init, List.replicate]
  obtain ⟨tr, hrun, hacts⟩ := exec_run hexec
  have hstep : step cfg { State.init with
        front := max 0 n
        wake := Notify.new.notifyOne
        handlers := [.starting n] } (.handler 0 false) =
      some { State.init with
        front := max 0 n
        wake := Notify.new.notifyOne
        relay := .subscribing
        handlers := [.checking n] } := by
    simp [step, serveStep, State.init]
  refine ⟨_, _, hrun.append (.cons hstep (.nil _)), _,
    List.mem_append_right _ List.mem_cons_self, ⟨0, false, rfl, ?_⟩, ?_⟩
  · rw [interests_snoc, interests_acts, hacts]
    rfl
  · rintro ⟨-, hrel, -⟩
    cases hrel

/-! ## Two runs -/

/-- A handler that is at work on demand. -/
def Handler.live (cfg : Config) : Handler → Bool
  | .arrived name => cfg.demands name
  | .done => false
  | _ => true

/-- What is left of a step when Interests that demand nothing are not looked at. -/
inductive Visible where
  | handler (h : Handler) (signed : Bool)
  | act (a : Act)
  deriving DecidableEq, Repr

def visible (cfg : Config) (x : Trans State Act) : Option Visible :=
  match x.act with
  | .interest name => if cfg.demands name then some (.act (.interest name)) else none
  | .handler i signed =>
    match x.pre.handlers[i]? with
    | none => none
    | some h => if h.live cfg then some (.handler h signed) else none
  | a => some (.act a)

/-- The state and the handlers at work, in no order. -/
abbrev Observed := State × Multiset Handler

def State.observe (cfg : Config) (s : State) : Observed :=
  ({ s with handlers := [] }, (s.handlers : Multiset Handler).filter (·.live cfg))

/-- A visible step, on what is observed. -/
def observedStep (cfg : Config) (o : Observed) : Visible → Observed
  | .handler h signed =>
    ((serveStep cfg o.1 signed h).2,
      o.2.erase h + ({(serveStep cfg o.1 signed h).1} : Multiset Handler).filter (·.live cfg))
  | .act (.interest name) => (o.1, .arrived name ::ₘ o.2)
  | .act a => ((step cfg o.1 a).getD o.1, o.2)

/-- An Interest that demands nothing does not end in a segment component. -/
def Act.Plain (cfg : Config) (a : Act) : Prop :=
  ∀ name, a = .interest name → cfg.demands name = false → cfg.naming.trailing name = none

/-- **Invariant** of plain Interests. -/
def State.Plain (cfg : Config) (s : State) : Prop :=
  ∀ name, .arrived name ∈ s.handlers → cfg.demands name = false → cfg.naming.trailing name = none

theorem runRelayStep_with {e : RelayEvent} (hs : List Handler) :
    runRelayStep cfg { s with handlers := hs } e =
      (runRelayStep cfg s e).map ({ · with handlers := hs }) := by
  unfold runRelayStep
  cases hr : s.relay <;> cases e <;> dsimp only
  all_goals first | rfl | split
  all_goals first | rfl | skip
  -- A Data read is all that is not plain from the branches taken.
  unfold State.received
  dsimp only
  split <;> rfl

theorem backwardRefetchStep_with {e : RefetchEvent} {r : BackwardRefetch} (hs : List Handler) :
    backwardRefetchStep cfg { s with handlers := hs } e r =
      (backwardRefetchStep cfg s e r).map fun (r', t) => (r', { t with handlers := hs }) := by
  cases r <;> cases e <;> unfold backwardRefetchStep <;> dsimp only
  all_goals first | rfl | split
  all_goals rfl

theorem serveStep_with {signed : Bool} {h : Handler} (hs : List Handler) :
    serveStep cfg { s with handlers := hs } signed h =
      ((serveStep cfg s signed h).1, { (serveStep cfg s signed h).2 with handlers := hs }) := by
  cases h <;> unfold serveStep <;> dsimp only
  all_goals first | rfl | split
  all_goals first | rfl | split
  all_goals rfl

/-- Steps of anything but the handlers do not look at them. -/
theorem step_with {a : Act} (ha : a.interested = none) (hh : ∀ i ok, a ≠ .handler i ok)
    (hs : List Handler) :
    step cfg { s with handlers := hs } a = (step cfg s a).map ({ · with handlers := hs }) := by
  cases a with
  | interest name => cases ha
  | handler i ok => exact absurd rfl (hh i ok)
  | relay e => exact runRelayStep_with hs
  | refetch i e =>
    unfold step
    dsimp only
    split
    · rfl
    · rw [backwardRefetchStep_with]
      cases backwardRefetchStep cfg s e _ <;> rfl
  | answer d =>
    unfold step
    dsimp only
    split <;> rfl
  | evict wire | cancel => rfl

theorem step_handlers_eq {a : Act} (ha : a.interested = none) (hh : ∀ i ok, a ≠ .handler i ok)
    (hs : step cfg s a = some t) : t.handlers = s.handlers := by
  have hmap : step cfg s a = _ := step_with ha hh s.handlers
  rw [hs, Option.map_some] at hmap
  rw [Option.some.inj hmap]

theorem serveStep_not_arrived {ok : Bool} {h : Handler} :
    (serveStep cfg s ok h).1 ≠ .arrived name := by
  intro he
  cases h with
  | arrived n =>
    unfold serveStep at he
    dsimp only at he
    split at he
    · cases he
    · split at he <;> cases he
  | checking seg =>
    unfold serveStep at he
    dsimp only at he
    split at he <;> cases he
  | pulling seg =>
    unfold serveStep at he
    dsimp only at he
    split at he <;> cases he
  | advancing seg | notifying seg | starting seg | done => cases he

theorem plain_step {a : Act} (h : s.Plain cfg) (ha : a.Plain cfg) (hs : step cfg s a = some t) :
    t.Plain cfg := by
  by_cases hi : a.interested = none
  · by_cases hh : ∀ i ok, a ≠ .handler i ok
    · unfold State.Plain
      rw [step_handlers_eq hi hh hs]
      exact h
    · simp only [ne_eq, not_forall, not_not] at hh
      obtain ⟨i, ok, rfl⟩ := hh
      obtain ⟨hd, -, rfl⟩ := step_handler hs
      intro name hm
      rw [serveStep_handlers] at hm
      rcases List.mem_or_eq_of_mem_set hm with hm | he
      · exact h name hm
      · exact absurd he.symm (serveStep_not_arrived)
  · cases a with
    | interest name =>
      cases hs
      intro n hm
      rcases List.mem_append.mp hm with hm | hm
      · exact h n hm
      · exact ha n (congrArg Act.interest (Handler.arrived.inj (List.mem_singleton.mp hm)).symm)
    | _ => exact absurd rfl hi

theorem filter_live {h : Handler} (hl : h.live cfg = true) :
    ({h} : Multiset Handler).filter (·.live cfg) = {h} := by
  rw [Multiset.filter_singleton, if_pos hl]

theorem filter_dead {h : Handler} (hl : h.live cfg = false) :
    ({h} : Multiset Handler).filter (·.live cfg) = 0 := by
  rw [Multiset.filter_singleton, if_neg (by simp [hl])]
  rfl

theorem filter_set (cfg : Config) {l : List Handler} {i : Nat} {h : Handler} (h' : Handler)
    (hi : l[i]? = some h) :
    (l.set i h' : Multiset Handler).filter (·.live cfg) =
      ({h'} : Multiset Handler).filter (·.live cfg) +
        (l.eraseIdx i : Multiset Handler).filter (·.live cfg) ∧
    (l : Multiset Handler).filter (·.live cfg) =
      ({h} : Multiset Handler).filter (·.live cfg) +
        (l.eraseIdx i : Multiset Handler).filter (·.live cfg) := by
  obtain ⟨hlt, hget⟩ := List.getElem?_eq_some_iff.mp hi
  have hset : (l.set i h' : Multiset Handler) = {h'} + (l.eraseIdx i : Multiset Handler) :=
    Multiset.coe_eq_coe.mpr (List.set_perm_cons_eraseIdx hlt h')
  have hold : (l : Multiset Handler) = {h} + (l.eraseIdx i : Multiset Handler) := by
    refine Multiset.coe_eq_coe.mpr ?_
    have hperm := (List.getElem_cons_eraseIdx_perm hlt).symm
    rwa [hget] at hperm
  constructor
  · rw [hset, Multiset.filter_add]
  · rw [hold, Multiset.filter_add]

/-- A handler that is not at work on demand only returns. -/
theorem serveStep_dead {ok : Bool} {h : Handler} (hp : s.Plain cfg) (hm : h ∈ s.handlers)
    (hl : h.live cfg = false) : serveStep cfg s ok h = (.done, s) := by
  cases h with
  | arrived name => exact serveStep_unmoved (hp name hm hl) (.inl rfl)
  | done => rfl
  | advancing seg | notifying seg | starting seg | checking seg | pulling seg => cases hl

/-- **Step lemma**: an invisible step leaves what is observed alone, a visible one is
determined by it. -/
theorem observe_step {x : Trans State Act} (hp : x.pre.Plain cfg)
    (hs : step cfg x.pre x.act = some x.post) :
    x.post.observe cfg =
      (visible cfg x).elim (x.pre.observe cfg) (observedStep cfg (x.pre.observe cfg)) := by
  obtain ⟨s, a, t⟩ := x
  dsimp only at hp hs
  -- A step of anything but the handlers is visible and leaves them alone.
  have other (hv : visible cfg ⟨s, a, t⟩ = some (.act a)) (ha : a.interested = none)
      (hh : ∀ i ok, a ≠ .handler i ok) (he : observedStep cfg (s.observe cfg) (.act a) =
        ((step cfg (s.observe cfg).1 a).getD (s.observe cfg).1, (s.observe cfg).2)) :
      t.observe cfg =
        (visible cfg ⟨s, a, t⟩).elim (s.observe cfg) (observedStep cfg (s.observe cfg)) := by
    have hstep : step cfg (s.observe cfg).1 a = some { t with handlers := [] } := by
      unfold State.observe
      rw [step_with ha hh, hs]
      rfl
    rw [hv, Option.elim_some, he, hstep]
    unfold State.observe
    rw [step_handlers_eq ha hh hs]
    rfl
  cases a with
  | interest name =>
    cases hs
    have hfilter : ((s.handlers ++ [.arrived name] : List Handler) : Multiset Handler).filter
        (·.live cfg) = ({.arrived name} : Multiset Handler).filter (·.live cfg) +
          (s.handlers : Multiset Handler).filter (·.live cfg) := by
      rw [← Multiset.coe_add, Multiset.filter_add, Multiset.add_comm]
      rfl
    unfold visible State.observe
    dsimp only
    rw [hfilter]
    cases hd : cfg.demands name with
    | true =>
      rw [if_pos rfl, filter_live (h := .arrived name) hd]
      rfl
    | false =>
      rw [if_neg (by simp), filter_dead (h := .arrived name) hd, Multiset.zero_add]
      rfl
  | handler i ok =>
    obtain ⟨hd, hi, rfl⟩ := step_handler hs
    obtain ⟨hset, hold⟩ := filter_set cfg (serveStep cfg s ok hd).1 hi
    unfold visible State.observe
    dsimp only
    rw [serveStep_handlers, hi, hset, hold]
    dsimp only
    cases hl : hd.live cfg with
    | true =>
      rw [if_pos rfl, Option.elim_some, filter_live hl]
      unfold observedStep
      dsimp only
      rw [serveStep_with [], Multiset.singleton_add, Multiset.erase_cons_head, Multiset.add_comm]
    | false =>
      have hstay : serveStep cfg s ok hd = (.done, s) :=
        serveStep_dead hp (List.mem_of_getElem? hi) hl
      rw [if_neg (by simp), hstay, filter_dead hl, filter_dead (h := .done) rfl,
        Option.elim_none]
  | relay e => exact other rfl rfl (by rintro _ _ ⟨⟩) rfl
  | refetch i e => exact other rfl rfl (by rintro _ _ ⟨⟩) rfl
  | answer d => exact other rfl rfl (by rintro _ _ ⟨⟩) rfl
  | evict wire => exact other rfl rfl (by rintro _ _ ⟨⟩) rfl
  | cancel => exact other rfl rfl (by rintro _ _ ⟨⟩) rfl

/-- Two runs with plain Interests and the same visible steps end alike. -/
theorem observe_run {tr' : List (Trans State Act)} {u' : State}
    (hrun : Run (stepRel (step cfg)) .init tr u) (hrun' : Run (stepRel (step cfg)) .init tr' u')
    (hp : ∀ x ∈ tr, x.act.Plain cfg) (hp' : ∀ x ∈ tr', x.act.Plain cfg)
    (hv : tr.filterMap (visible cfg) = tr'.filterMap (visible cfg)) :
    u.observe cfg = u'.observe cfg := by
  have hinit : State.Plain cfg .init := fun _ hm => by cases hm
  have project {tr : List (Trans State Act)} {u : State} (h : Run (stepRel (step cfg)) .init tr u)
      (hp : ∀ x ∈ tr, x.act.Plain cfg) : u.observe cfg =
        (tr.filterMap (visible cfg)).foldl (observedStep cfg) (State.init.observe cfg) := by
    obtain ⟨-, hinv⟩ := h.inv_mem (I := State.Plain cfg) (G := fun _ a => a.Plain cfg)
      (fun hi ha hs => plain_step hi ha hs) hinit hp
    exact h.project fun x hx => observe_step (hinv x hx).1 (h.step_of_mem hx)
  rw [project hrun hp, project hrun' hp', hv]

/-! ## Genuine demand -/

/-- **What drives the relay.** The handlers of Interests for a name that demands nothing leave
the relay alone in every run exactly when the name does not end in a segment component; and
two runs whose other Interests are all of that kind, and that differ in those only, end in the
same state. -/
theorem harmless_iff (cfg : Config) :
    (∀ name, cfg.demands name = false →
      ((∀ tr u, Run (stepRel (step cfg)) .init tr u → ∀ x ∈ tr, Handles tr name x → Harmless x) ↔
        cfg.naming.trailing name = none)) ∧
    ∀ tr tr' u u', Run (stepRel (step cfg)) .init tr u → Run (stepRel (step cfg)) .init tr' u' →
      (∀ x ∈ tr, x.act.Plain cfg) → (∀ x ∈ tr', x.act.Plain cfg) →
      tr.filterMap (visible cfg) = tr'.filterMap (visible cfg) →
      { u with handlers := [] } = { u' with handlers := [] } := by
  constructor
  · intro name _
    constructor
    · intro h
      cases hn : cfg.naming.trailing name with
      | none => rfl
      | some n =>
        obtain ⟨tr, u, hrun, x, hx, hh, hbad⟩ := harmful_of_some hn
        exact absurd (h tr u hrun x hx hh) hbad
    · intro hn tr u hrun x hx hh
      exact harmless_of_none hn hrun hx hh
  · intro tr tr' u u' hrun hrun' hp hp' hv
    exact congrArg Prod.fst (observe_run hrun hrun' hp hp' hv)

/-- The name a consumer discovers the object under, without version and segment. -/
def plainName : Name := [⟨8, [109]⟩]

def plainEnd : State := { State.init with handlers := [.done] }

/-- An Interest for `plainName` and its handling. -/
def plainRun : List (Trans State Act) :=
  [⟨.init, .interest plainName, { State.init with handlers := [.arrived plainName] }⟩,
    ⟨{ State.init with handlers := [.arrived plainName] }, .handler 0 false, plainEnd⟩]

theorem harmless_iff_plainName : sixSegments.naming.trailing plainName = none ∧
    Run (stepRel (step sixSegments)) .init plainRun plainEnd ∧
    { plainEnd with handlers := [] } = { State.init with handlers := [] } := by
  have hrun : Run (stepRel (step sixSegments)) .init plainRun plainEnd :=
    .cons rfl (.cons rfl (.nil _))
  obtain ⟨hname, htwo⟩ := harmless_iff sixSegments
  have hplain : sixSegments.naming.trailing plainName = none := by decide
  have hnone := (hname plainName (by decide)).mp fun tr u hrun x hx hh =>
    harmless_of_none hplain hrun hx hh
  have hacts : ∀ x ∈ plainRun, x.act.Plain sixSegments := by
    intro x hx name ha _
    have hmem : x.act ∈ plainRun.map (·.act) := List.mem_map_of_mem hx
    rw [ha] at hmem
    rcases List.mem_cons.mp hmem with he | he
    · rw [Act.interest.inj he]
      exact hplain
    · cases List.mem_singleton.mp he
  exact ⟨hnone, hrun,
    htwo plainRun [] plainEnd .init hrun (.nil _) hacts (fun x hx => by cases hx) (by rfl)⟩

/-- An Interest with components after the relayed object's segment moves the demand front. -/
theorem harmless_fails : ¬ ∀ (cfg : Config) (name : Name), cfg.demands name = false →
    ∀ tr u, Run (stepRel (step cfg)) .init tr u → ∀ x ∈ tr, Handles tr name x → Harmless x := by
  intro h
  have hn : sixSegments.naming.trailing (sixSegments.naming.appendSegment
      (sixSegments.segmentName 0) 5) = some 5 := sixSegments.naming.trailing_appendSegment _ 5
  obtain ⟨tr, u, hrun, x, hx, hh, hbad⟩ := harmful_of_some hn
  exact hbad (h sixSegments _ (by decide) tr u hrun x hx hh)

end NdnMobile.Relay
