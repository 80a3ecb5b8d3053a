import NdnMobile.Ffi.NotePeer
import NdnMobile.Lib.LongestPrefix

/-!
# Peers and their prefixes

A peer's id is spliced into a URI as it came over the radio, and routes, strategies and pins
are keyed by the name read from it. A beacon edits these at its own peer's prefix only, which
by longest-prefix match leaves alone every name under another peer's, as long as neither
prefix is a prefix of the other. An id with a slash or a percent escape can be, or be below,
another one (`isolated_iff`).
-/

namespace NdnMobile.Ffi

open NdnMobile.Lib NdnMobile.Packet NdnMobile.Engine

namespace NdnEngine

variable (e : NdnEngine)

/-- Where an Interest goes: the FIB entry at its name's longest prefix that has one. -/
def route (n : Name) : Option (List Nexthop) :=
  longestMatch (fun p => if e.nexthops p = [] then none else some (e.nexthops p)) n

/-- The strategy that forwards an Interest. -/
def routeStrategy (n : Name) : Option Strategy := longestMatch e.strategy n

end NdnEngine

/-- What governs the Interests under a prefix is the same. -/
structure Undisturbed (e e' : NdnEngine) (p : Name) : Prop where
  route : ∀ n, p <+: n → e'.route n = e.route n
  strategy : ∀ n, p <+: n → e'.routeStrategy n = e.routeStrategy n
  bulkPin : ∀ n, p <+: n → e'.bulkPin n = e.bulkPin n

/-- Two peers have prefixes apart, and no beacon of the first disturbs the second. -/
structure Isolated (U : UriSyntax) (id₁ id₂ : String) : Prop where
  apart : ∀ p₁ p₂, U.parse (peerNodePrefix id₁) = some p₁ →
    U.parse (peerNodePrefix id₂) = some p₂ → p₁ ≠ p₂ ∧ ¬ p₁ <+: p₂ ∧ ¬ p₂ <+: p₁
  undisturbed : ∀ (P : Parsers), P.name = U.parse → ∀ (e : NdnEngine) (b : Beacon) (now : Instant)
    (os : MobileEngine.Os) (p₂ : Name), b.id = id₁ → U.parse (peerNodePrefix id₂) = some p₂ →
      Undisturbed e (e.notePeer P b now os) p₂

/-- Read by themselves, one id is a prefix of the other: they are equal once decoded, or one
goes on after a slash, or one is slashes only. -/
def Clash (U : UriSyntax) (id₁ id₂ : String) : Prop :=
  ∃ x₁ x₂, U.parse id₁ = some x₁ ∧ U.parse id₂ = some x₂ ∧ (x₁ <+: x₂ ∨ x₂ <+: x₁)

variable {P : Parsers} {e e' : NdnEngine} {b : Beacon} {p q n : Name} {m : MobileEngine}
  {now : Instant} {os : MobileEngine.Os}

/-! ## A beacon edits one prefix -/

/-- The tables are the same but at `p`. -/
structure SameElsewhere (p : Name) (e e' : NdnEngine) : Prop where
  nexthops : ∀ q, q ≠ p → e'.nexthops q = e.nexthops q
  strategy : ∀ q, q ≠ p → e'.strategy q = e.strategy q
  bulkPin : ∀ q, q ≠ p → e'.bulkPin q = e.bulkPin q

theorem SameElsewhere.refl (p : Name) (e : NdnEngine) : SameElsewhere p e e :=
  ⟨fun _ _ => rfl, fun _ _ => rfl, fun _ _ => rfl⟩

theorem SameElsewhere.trans {e'' : NdnEngine} (h : SameElsewhere p e e')
    (h' : SameElsewhere p e' e'') : SameElsewhere p e e'' :=
  ⟨fun q hq => (h'.nexthops q hq).trans (h.nexthops q hq),
    fun q hq => (h'.strategy q hq).trans (h.strategy q hq),
    fun q hq => (h'.bulkPin q hq).trans (h.bulkPin q hq)⟩

theorem sameElsewhere_notePeerRoute (hm : e.inner = some m) {face : String}
    (he : e'.inner = some (m.notePeerRoute p face)) : SameElsewhere p e e' := by
  refine ⟨fun q hq => ?_, fun q hq => ?_, fun q hq => ?_⟩
  · unfold NdnEngine.nexthops
    rw [hm, he]
    cases hr : radioOf m face with
    | none => rw [notePeerRoute_none hr]
    | some x =>
      rw [notePeerRoute_some hr]
      dsimp only [Option.elim_some]
      split
      · exact fib_addNexthop_ne hq
      · exact fib_addNexthop_ne hq
  · unfold NdnEngine.strategy
    rw [hm, he]
    cases hr : radioOf m face with
    | none => rw [notePeerRoute_none hr]
    | some x =>
      rw [notePeerRoute_some hr]
      dsimp only [Option.bind_some]
      split
      · rfl
      · exact Function.update_of_ne hq _ _
  · unfold NdnEngine.bulkPin
    rw [hm, he]
    exact congrFun (bulkPinned_notePeerRoute m p face) q

theorem sameElsewhere_attachInfraTunnelFd (hm : e.inner = some m)
    (he : e'.inner = some (m.attachInfraTunnelFd p os).2) : SameElsewhere p e e' := by
  unfold MobileEngine.attachInfraTunnelFd MobileEngine.attachUdpBulkFace at he
  cases hos : os.adopt with
  | error err =>
    rw [hos] at he
    refine ⟨fun q hq => ?_, fun q hq => ?_, fun q hq => ?_⟩
    · simp only [NdnEngine.nexthops, hm, he]
      rfl
    · simp only [NdnEngine.strategy, hm, he]
      rfl
    · simp only [NdnEngine.bulkPin, hm, he]
      rfl
  | ok _ =>
    rw [hos] at he
    refine ⟨fun q hq => ?_, fun q hq => ?_, fun q hq => ?_⟩
    · simp only [NdnEngine.nexthops, hm, he]
      exact Function.update_of_ne hq _ _
    · simp only [NdnEngine.strategy, hm, he]
      exact Function.update_of_ne hq _ _
    · simp only [NdnEngine.bulkPin, hm, he]
      exact Function.update_of_ne hq _ _

theorem sameElsewhere_routePeer (hp : ∀ p', P.name (peerNodePrefix b.id) = some p' → p' = p) :
    SameElsewhere p e (e.routePeer P b os) := by
  unfold NdnEngine.routePeer
  cases hn : P.name (peerNodePrefix b.id) with
  | none => exact .refl p e
  | some p' =>
    cases hp p' hn
    cases hm : e.inner with
    | none => exact .refl p e
    | some m =>
      have hroute : SameElsewhere p e { e with inner := some (m.notePeerRoute p b.face) } :=
        sameElsewhere_notePeerRoute hm rfl
      dsimp only
      cases b.infra with
      | none => exact hroute
      | some peerIp =>
        dsimp only
        cases ha : e.armed P b.id peerIp with
        | none =>
          rw [maybeAttachInfraTunnel_none (by exact ha)]
          exact hroute
        | some fd =>
          rw [maybeAttachInfraTunnel_some (by exact ha)]
          exact hroute.trans (sameElsewhere_attachInfraTunnelFd rfl rfl)

/-- A beacon leaves the tables alone but at its peer's prefix. -/
theorem sameElsewhere_notePeer (hp : ∀ p', P.name (peerNodePrefix b.id) = some p' → p' = p) :
    SameElsewhere p e (e.notePeer P b now os) := by
  unfold NdnEngine.notePeer
  split
  · exact .refl p e
  · let heard : NdnEngine := { e with discovery := e.discovery.map fun s => s.notePeer b now }
    have hroute : SameElsewhere p heard (heard.routePeer P b os) := sameElsewhere_routePeer hp
    exact ⟨hroute.nexthops, hroute.strategy, hroute.bulkPin⟩

/-- An edit at one prefix does not reach the names under another, if neither is below the
other. -/
theorem SameElsewhere.undisturbed (h : SameElsewhere p e e') (hpq : ¬ p <+: q)
    (hqp : ¬ q <+: p) : Undisturbed e e' q := by
  refine ⟨fun n hn => longestMatch_under hpq hqp hn fun r hr => ?_,
    fun n hn => longestMatch_under hpq hqp hn h.strategy, fun n hn => h.bulkPin n ?_⟩
  · rw [h.nexthops r hr]
  · rintro rfl
    exact hqp hn

/-- Where the tables are the same at whatever prefix, nothing is disturbed. -/
theorem SameElsewhere.undisturbed_of_all (h : ∀ p, SameElsewhere p e e') (q : Name) :
    Undisturbed e e' q := by
  have hne (r : Name) : r ≠ r ++ [⟨typGeneric, []⟩] := by
    intro heq
    have := congrArg List.length heq
    simp at this
  have hn : e'.nexthops = e.nexthops := funext fun r => (h _).nexthops r (hne r)
  have hs : e'.strategy = e.strategy := funext fun r => (h _).strategy r (hne r)
  refine ⟨fun n _ => ?_, fun n _ => ?_, fun n _ => (h _).bulkPin n (hne n)⟩
  · rw [NdnEngine.route, hn, NdnEngine.route]
  · rw [NdnEngine.routeStrategy, hs, NdnEngine.routeStrategy]

/-! ## Prefixes of ids -/

/-- The name of a peer's prefix is the root's, and the id's after it. -/
theorem parse_peerNodePrefix {U : UriSyntax} {root : Name} (hroot : U.parse nodePrefix = some root)
    (id : String) : U.parse (peerNodePrefix id) = (U.parse id).map fun x => root ++ x := by
  unfold peerNodePrefix
  rw [U.parse_slash, hroot]
  rfl

/-- Peers are isolated exactly when their ids, read by themselves, are apart. -/
theorem isolated_iff (U : UriSyntax) {root : Name} (hroot : U.parse nodePrefix = some root)
    (id₁ id₂ : String) : Isolated U id₁ id₂ ↔ ¬ Clash U id₁ id₂ := by
  constructor
  · rintro h ⟨x₁, x₂, h₁, h₂, hx⟩
    obtain ⟨-, h12, h21⟩ := h.apart (root ++ x₁) (root ++ x₂)
      (by rw [parse_peerNodePrefix hroot, h₁]; rfl) (by rw [parse_peerNodePrefix hroot, h₂]; rfl)
    rcases hx with hx | hx
    · exact h12 ((List.prefix_append_right_inj root).mpr hx)
    · exact h21 ((List.prefix_append_right_inj root).mpr hx)
  · intro hc
    -- both prefixes go on from the root with what the ids are read as
    have hapart : ∀ p₁ p₂, U.parse (peerNodePrefix id₁) = some p₁ →
        U.parse (peerNodePrefix id₂) = some p₂ → ¬ p₁ <+: p₂ ∧ ¬ p₂ <+: p₁ := by
      intro p₁ p₂ h₁ h₂
      rw [parse_peerNodePrefix hroot] at h₁ h₂
      obtain ⟨x₁, hx₁, rfl⟩ := Option.map_eq_some_iff.mp h₁
      obtain ⟨x₂, hx₂, rfl⟩ := Option.map_eq_some_iff.mp h₂
      constructor
      · intro hp
        exact hc ⟨x₁, x₂, hx₁, hx₂, .inl ((List.prefix_append_right_inj root).mp hp)⟩
      · intro hp
        exact hc ⟨x₁, x₂, hx₁, hx₂, .inr ((List.prefix_append_right_inj root).mp hp)⟩
    refine ⟨fun p₁ p₂ h₁ h₂ => ?_, ?_⟩
    · obtain ⟨h12, h21⟩ := hapart p₁ p₂ h₁ h₂
      refine ⟨?_, h12, h21⟩
      rintro rfl
      exact h12 (List.prefix_refl _)
    · intro P hP e b now os p₂ hb h₂
      cases h₁ : U.parse (peerNodePrefix id₁) with
      | none =>
        refine SameElsewhere.undisturbed_of_all
          (fun p => sameElsewhere_notePeer fun p' hp' => ?_) p₂
        rw [hP, hb, h₁] at hp'
        cases hp'
      | some p₁ =>
        obtain ⟨h12, h21⟩ := hapart p₁ p₂ h₁ h₂
        have hsame : SameElsewhere p₁ e (e.notePeer P b now os) := by
          refine sameElsewhere_notePeer fun p' hp' => ?_
          rw [hP, hb, h₁] at hp'
          exact (Option.some.inj hp').symm
        exact hsame.undisturbed h12 h21

/-- `/ndn/node`. -/
def nodeRoot : Name := [⟨8, [110, 100, 110]⟩, ⟨8, [110, 111, 100, 101]⟩]

theorem isolated_iff_percent : Isolated .percent "a" "b" := by
  have hroot : UriSyntax.percent.parse nodePrefix = some nodeRoot := by decide
  refine (isolated_iff .percent hroot "a" "b").mpr ?_
  rintro ⟨x₁, x₂, h₁, h₂, hx⟩
  have hx₁ : UriSyntax.percent.parse "a" = some [⟨8, [97]⟩] := by decide
  have hx₂ : UriSyntax.percent.parse "b" = some [⟨8, [98]⟩] := by decide
  rw [hx₁] at h₁
  rw [hx₂] at h₂
  cases h₁
  cases h₂
  revert hx
  decide

/-- A node with two radios, as "z". -/
def twoRadioNode : NdnEngine := (NdnEngine.new phoneEngine.attachBle).startDiscovery "z" "Z"

/-- A beacon of "a" turns the Interests of "a/b" to where "a" was heard, and "%61" is "a". -/
theorem isolated_fails : (∃ p, UriSyntax.percent.parse (peerNodePrefix "a/b") = some p ∧
      nodeA <+: p ∧ twoRadioNode.route p = some [⟨2, 0⟩, ⟨3, 0⟩] ∧
      (twoRadioNode.notePeer .std heard 0 .ok).route p = some [⟨2, 20⟩]) ∧
    UriSyntax.percent.parse (peerNodePrefix "%61") =
      UriSyntax.percent.parse (peerNodePrefix "a") ∧
    ¬ Isolated .percent "a" "a/b" ∧ ¬ Isolated .percent "%61" "a" := by
  refine ⟨⟨nodeA ++ [⟨8, [98]⟩], by decide, by decide, by decide, by decide⟩, by decide,
    fun h => ?_, fun h => ?_⟩
  · exact (h.apart nodeA (nodeA ++ [⟨8, [98]⟩]) (by decide) (by decide)).2.1 (by decide)
  · exact (h.apart nodeA nodeA (by decide) (by decide)).1 rfl

end NdnMobile.Ffi
