import NdnMobile.Offer.Board

/-!
# Manifest, map and ring

Under any interleaving of the calls the newest manifest is the JSON of the map whenever the
lock is free, the ring is the last manifests pushed, and an entry is what the call whose serve
guard it holds made of it (`Sound`). What an entry says of the size is the size given exactly
where a `usize` holds it (`coherent_iff_fits`).
-/

namespace NdnMobile.Offer

open NdnMobile.Lib NdnMobile.Packet

/-- `list_offers`. -/
def State.listOffers (board : OfferBoard) (s : State) : String := board.offersJson s.offers

/-- An entry holds the guard of one call and says what that call gave. -/
structure Described (board : OfferBoard) (s : State) (fileId : String) (e : OfferEntry) : Prop where
  registered : e.guard ∈ s.registered
  one : ∀ g ∈ s.registered, g.id = e.guard.id → g = e.guard
  fileId : e.guard.call.fileId = fileId
  displayName : e.displayName = e.guard.call.displayName
  mime : e.mime = e.guard.call.mime
  name : e.name = board.objectName e.guard.call.fileId
  size : e.size = e.guard.call.source.given

/-- The board is coherent: the newest manifest lists the map while the lock is free, and while
a thread lists it; the ring is the last manifests pushed; the entries are as their calls. -/
structure Coherent (board : OfferBoard) (s : State) : Prop where
  newest : s.lock = none ∨ (∃ t, s.phase t = .listing) →
    s.ring.head?.map (·.content) = some (utf8 (s.listOffers board))
  nonempty : 1 ≤ s.ring.length
  bounded : s.ring.length ≤ manifestHistory
  latest : s.ring = s.rebuilds.take manifestHistory
  entries : ∀ fileId e, s.offers[fileId]? = some e → Described board s fileId e

/-- An add call that inserts its entry has a size that a `usize` holds. -/
def Act.Fits (board : OfferBoard) (s : State) : Act → Prop
  | .insert t => ∀ c guard, s.phase t = .adding c guard →
    c.source.size board.target = c.source.given
  | _ => True

/-- The map was edited and the manifest of it is not pushed yet. -/
def Phase.stale : Phase → Bool
  | .edited | .rebuilt _ => true
  | _ => false

variable {board : OfferBoard} {s u : State} {a : Act} {t t' : ThreadId} {p : Phase}

/-! ## What one step can do -/

inductive Move (board : OfferBoard) (s : State) : Act → State → Prop where
  | refused (t : ThreadId) (c : AddCall) : Move board s (.add t c) s
  | registered (t : ThreadId) (c : AddCall) (serves : Name) (h : s.phase t = .idle) :
    Move board s (.add t c)
      { s.goto t (.built c ⟨s.registered.length, serves, c⟩) with
        registered := ⟨s.registered.length, serves, c⟩ :: s.registered }
  | acquired (a : Act) (t : ThreadId) (p : Phase) (hfree : s.lock = none)
    (hout : (s.phase t).locked = false) (hp : p.locked = true) (hclean : p.stale = false)
    (hguard : ∀ c guard, p = .adding c guard → s.phase t = .built c guard)
    (ha : ∀ t', a ≠ .insert t' ∧ a ≠ .push t') :
    Move board s a { s.goto t p with lock := some t }
  | inserted (t : ThreadId) (c : AddCall) (guard : ServeGuard)
    (h : s.phase t = .adding c guard) : Move board s (.insert t)
      { s.goto t .edited with offers := s.offers.insert c.fileId (board.entry c guard) }
  | erased (t : ThreadId) (fileId : String) (h : s.phase t = .removing fileId) :
    Move board s (.erase t) { s.goto t .edited with offers := s.offers.erase fileId }
  | settled (a : Act) (t : ThreadId) (hin : (s.phase t).locked = true)
    (hclean : (s.phase t).stale = false) (ha : ∀ t', a ≠ .insert t' ∧ a ≠ .push t') :
    Move board s a (s.goto t .leaving)
  | built (t : ThreadId) (now : Nat) (h : s.phase t = .edited) :
    Move board s (.build t now) (s.goto t (.rebuilt (board.buildManifest s.offers now)))
  | pushed (t : ThreadId) (m : PreparedObject) (h : s.phase t = .rebuilt m) :
    Move board s (.push t)
      { s.goto t .leaving with
        ring := (m :: s.ring).take manifestHistory
        rebuilds := m :: s.rebuilds }
  | unlocked (t : ThreadId) (h : s.phase t = .leaving) :
    Move board s (.unlock t) { s.goto t .idle with lock := none }

theorem acquire_eq (h : s.acquire t p = some u) :
    s.lock = none ∧ u = { s.goto t p with lock := some t } := by
  unfold State.acquire at h
  split at h
  · rename_i hfree
    exact ⟨hfree, (Option.some.inj h).symm⟩
  · cases h

theorem step_move (h : step board s a = some u) : Move board s a u := by
  cases a with
  | add t c =>
    simp only [step] at h
    split at h
    · rename_i hp
      cases h
      unfold State.register
      split
      · exact .refused t c
      · exact .registered t c _ hp
    · cases h
  | lockAdd t =>
    simp only [step] at h
    split at h
    · rename_i c guard hp
      obtain ⟨hfree, rfl⟩ := acquire_eq h
      exact .acquired _ t _ hfree (by rw [hp]; rfl) rfl rfl
        (fun _ _ heq => by cases heq; exact hp) fun _ => ⟨nofun, nofun⟩
    · cases h
  | insert t =>
    simp only [step] at h
    split at h
    · rename_i c guard hp
      cases h
      exact .inserted t c guard hp
    · cases h
  | lockRemove t fileId =>
    simp only [step] at h
    split at h
    · rename_i hp
      obtain ⟨hfree, rfl⟩ := acquire_eq h
      exact .acquired _ t _ hfree (by rw [hp]; rfl) rfl rfl nofun fun _ => ⟨nofun, nofun⟩
    · cases h
  | erase t =>
    simp only [step] at h
    split at h
    · rename_i fileId hp
      split at h
      · cases h
        exact .erased t fileId hp
      · cases h
        exact .settled _ t (by rw [hp]; rfl) (by rw [hp]; rfl) fun _ => ⟨nofun, nofun⟩
    · cases h
  | lockList t =>
    simp only [step] at h
    split at h
    · rename_i hp
      obtain ⟨hfree, rfl⟩ := acquire_eq h
      exact .acquired _ t _ hfree (by rw [hp]; rfl) rfl rfl nofun fun _ => ⟨nofun, nofun⟩
    · cases h
  | list t =>
    simp only [step] at h
    split at h
    · rename_i hp
      cases h
      exact .settled _ t (by rw [hp]; rfl) (by rw [hp]; rfl) fun _ => ⟨nofun, nofun⟩
    · cases h
  | build t now =>
    simp only [step] at h
    split at h
    · rename_i hp
      cases h
      exact .built t now hp
    · cases h
  | push t =>
    simp only [step] at h
    split at h
    · rename_i m hp
      cases h
      exact .pushed t m hp
    · cases h
  | unlock t =>
    simp only [step] at h
    split at h
    · rename_i hp
      cases h
      exact .unlocked t hp
    · cases h

/-! ## The lock -/

/-- A thread is past its lock exactly when it holds it. -/
def Exclusive (s : State) : Prop := ∀ t, (s.phase t).locked = true ↔ s.lock = some t

theorem Exclusive.eq (h : Exclusive s) (ht : (s.phase t).locked = true)
    (ht' : (s.phase t').locked = true) : t' = t :=
  Option.some.inj (((h t').mp ht').symm.trans ((h t).mp ht))

theorem phase_goto : (s.goto t p).phase t' = if t' = t then p else s.phase t' := by
  unfold State.goto
  by_cases ht : t' = t
  · subst ht
    simp
  · simp [ht]

/-- Inside the lock, or outside it, a thread may go on. -/
theorem Exclusive.goto (h : Exclusive s) (hp : p.locked = (s.phase t).locked) :
    Exclusive (s.goto t p) := by
  intro t'
  rw [phase_goto]
  by_cases ht : t' = t
  · subst ht
    rw [if_pos rfl, hp]
    exact h t'
  · rw [if_neg ht]
    exact h t'

theorem exclusive_move (h : Exclusive s) (hm : Move board s a u) : Exclusive u := by
  cases hm with
  | refused t c => exact h
  | registered t c serves hp => exact h.goto (t := t) (by rw [hp]; rfl)
  | acquired _ t p hfree hout hp hclean hguard ha =>
    intro t'
    show ((s.goto t p).phase t').locked = true ↔ some t = some t'
    rw [phase_goto]
    by_cases ht : t' = t
    · subst ht
      rw [if_pos rfl]
      exact iff_of_true hp rfl
    · rw [if_neg ht]
      refine iff_of_false (fun hl => ?_) fun heq => ht (Option.some.inj heq).symm
      rw [(h t').mp hl] at hfree
      cases hfree
  | inserted t c guard hp => exact h.goto (t := t) (by rw [hp]; rfl)
  | erased t fileId hp => exact h.goto (t := t) (by rw [hp]; rfl)
  | settled _ t hin hclean ha => exact h.goto (t := t) hin.symm
  | built t now hp => exact h.goto (t := t) (by rw [hp]; rfl)
  | pushed t m hp => exact h.goto (t := t) (by rw [hp]; rfl)
  | unlocked t hp =>
    intro t'
    show ((s.goto t .idle).phase t').locked = true ↔ none = some t'
    rw [phase_goto]
    by_cases ht : t' = t
    · subst ht
      rw [if_pos rfl]
      exact iff_of_false nofun nofun
    · rw [if_neg ht]
      refine iff_of_false (fun hl => ht ?_) nofun
      exact h.eq (by rw [hp]; rfl) hl

/-! ## The manifest -/

/-- The newest manifest is that of the map, unless a thread in the lock still has to push it;
a manifest to be pushed is that of the map. -/
structure Manifested (board : OfferBoard) (s : State) : Prop where
  newest : (∀ t, (s.phase t).stale = false) →
    s.ring.head?.map (·.content) = some (utf8 (board.offersJson s.offers))
  rebuilt : ∀ t m, s.phase t = .rebuilt m → m.content = utf8 (board.offersJson s.offers)

theorem locked_of_stale (h : p.stale = true) : p.locked = true := by
  cases p <;> first | rfl | cases h

/-- A step that leaves map and ring alone, out of no stale phase and into none. -/
theorem Manifested.of_clean (h : Manifested board s) (hclean : (s.phase t).stale = false)
    (hp : p.stale = false) (hphase : u.phase = (s.goto t p).phase) (hoffers : u.offers = s.offers)
    (hring : u.ring = s.ring) : Manifested board u := by
  refine ⟨fun hall => ?_, fun t' m hm => ?_⟩
  · rw [hring, hoffers]
    refine h.newest fun t' => ?_
    have ht' := hall t'
    rw [hphase, phase_goto] at ht'
    by_cases ht : t' = t
    · rw [ht]
      exact hclean
    · rwa [if_neg ht] at ht'
  · rw [hoffers]
    rw [hphase, phase_goto] at hm
    by_cases ht : t' = t
    · rw [if_pos ht] at hm
      rw [hm] at hp
      cases hp
    · rw [if_neg ht] at hm
      exact h.rebuilt t' m hm

/-- An edit of the map leaves the manifest to be rebuilt. -/
theorem Manifested.of_edit (hx : Exclusive s) (hin : (s.phase t).locked = true)
    (hphase : u.phase = (s.goto t .edited).phase) : Manifested board u := by
  refine ⟨fun hall => ?_, fun t' m hm => ?_⟩
  · have ht := hall t
    rw [hphase, phase_goto, if_pos rfl] at ht
    cases ht
  · rw [hphase, phase_goto] at hm
    by_cases ht : t' = t
    · rw [if_pos ht] at hm
      cases hm
    · rw [if_neg ht] at hm
      exact absurd (hx.eq hin (by rw [hm]; rfl)) ht

theorem manifested_move (hx : Exclusive s) (h : Manifested board s) (hm : Move board s a u) :
    Manifested board u := by
  cases hm with
  | refused t c => exact h
  | registered t c serves hp => exact h.of_clean (t := t) (by rw [hp]; rfl) rfl rfl rfl rfl
  | acquired _ t p hfree hout hp hclean hguard ha =>
    refine h.of_clean (t := t) ?_ hclean rfl rfl rfl
    cases hs : (s.phase t).stale with
    | false => rfl
    | true =>
      rw [locked_of_stale hs] at hout
      cases hout
  | inserted t c guard hp => exact .of_edit hx (by rw [hp]; rfl) rfl
  | erased t fileId hp => exact .of_edit hx (by rw [hp]; rfl) rfl
  | settled _ t hin hclean ha => exact h.of_clean hclean rfl rfl rfl rfl
  | built t now hp =>
    refine ⟨fun hall => ?_, fun t' m hm => ?_⟩
    · have ht := hall t
      rw [phase_goto, if_pos rfl] at ht
      cases ht
    · rw [phase_goto] at hm
      by_cases ht : t' = t
      · rw [if_pos ht] at hm
        cases hm
        rfl
      · rw [if_neg ht] at hm
        exact h.rebuilt t' m hm
  | pushed t m hp =>
    refine ⟨fun _ => ?_, fun t' m' hm => ?_⟩
    · exact congrArg some (h.rebuilt t m hp)
    · have hm : (s.goto t .leaving).phase t' = .rebuilt m' := hm
      rw [phase_goto] at hm
      by_cases ht : t' = t
      · rw [if_pos ht] at hm
        cases hm
      · rw [if_neg ht] at hm
        exact absurd (hx.eq (by rw [hp]; rfl) (by rw [hm]; rfl)) ht
  | unlocked t hp => exact h.of_clean (t := t) (by rw [hp]; rfl) rfl rfl rfl rfl

/-! ## The ring -/

/-- The ring is the last manifests pushed, of which there is one. -/
structure Kept (s : State) : Prop where
  latest : s.ring = s.rebuilds.take manifestHistory
  nonempty : s.rebuilds ≠ []

theorem kept_move (h : Kept s) (hm : Move board s a u) : Kept u := by
  cases hm with
  | pushed t m hp =>
    refine ⟨?_, List.cons_ne_nil _ _⟩
    show (m :: s.ring).take manifestHistory = (m :: s.rebuilds).take manifestHistory
    rw [h.latest, manifestHistory, List.take_succ_cons, List.take_succ_cons, List.take_take]
    rfl
  | _ => exact ⟨h.latest, h.nonempty⟩

theorem Kept.length (h : Kept s) : 1 ≤ s.ring.length ∧ s.ring.length ≤ manifestHistory := by
  rw [h.latest, List.length_take]
  have hpos : 0 < s.rebuilds.length := List.length_pos_iff.mpr h.nonempty
  rw [manifestHistory]
  omega

/-! ## Entries and guards -/

/-- Registrations have ids of their own; the guard of an entry, or of an add call on its way,
is the registration of its call. -/
structure Guarded (board : OfferBoard) (s : State) : Prop where
  lt : ∀ g ∈ s.registered, g.id < s.registered.length
  inj : ∀ g ∈ s.registered, ∀ g' ∈ s.registered, g.id = g'.id → g = g'
  onTheWay : ∀ t c guard, s.phase t = .built c guard ∨ s.phase t = .adding c guard →
    guard ∈ s.registered ∧ guard.call = c
  entries : ∀ fileId e, s.offers[fileId]? = some e →
    e.guard ∈ s.registered ∧ e.guard.call.fileId = fileId ∧ e = board.entry e.guard.call e.guard

/-- A step that registers nothing and leaves the map alone. -/
theorem Guarded.of_phase (h : Guarded board s)
    (hp : ∀ c guard, p = .built c guard ∨ p = .adding c guard →
      s.phase t = .built c guard ∨ s.phase t = .adding c guard)
    (hphase : u.phase = (s.goto t p).phase) (hoffers : u.offers = s.offers)
    (hreg : u.registered = s.registered) : Guarded board u := by
  refine ⟨by rw [hreg]; exact h.lt, by rw [hreg]; exact h.inj, fun t' c guard hon => ?_, ?_⟩
  · rw [hreg]
    rw [hphase, phase_goto] at hon
    by_cases ht : t' = t
    · rw [if_pos ht] at hon
      exact h.onTheWay t c guard (hp c guard hon)
    · rw [if_neg ht] at hon
      exact h.onTheWay t' c guard hon
  · rw [hreg, hoffers]
    exact h.entries

/-- A thread that leaves the registration it had, or had none. -/
theorem Guarded.of_other (h : Guarded board s)
    (hp : ∀ c guard, p ≠ .built c guard ∧ p ≠ .adding c guard)
    (hphase : u.phase = (s.goto t p).phase) (hoffers : u.offers = s.offers)
    (hreg : u.registered = s.registered) : Guarded board u := by
  refine h.of_phase (fun c guard hon => ?_) hphase hoffers hreg
  rcases hon with hon | hon
  · exact absurd hon (hp c guard).1
  · exact absurd hon (hp c guard).2

theorem guarded_move (h : Guarded board s) (hm : Move board s a u) : Guarded board u := by
  cases hm with
  | refused t c => exact h
  | registered t c serves hp =>
    refine ⟨fun g hg => ?_, fun g hg g' hg' heq => ?_, fun t' c' guard hon => ?_,
      fun fileId e he => ?_⟩
    · show g.id < s.registered.length + 1
      rcases List.mem_cons.mp hg with rfl | hg
      · exact Nat.lt_succ_self _
      · exact Nat.lt_succ_of_lt (h.lt g hg)
    · rcases List.mem_cons.mp hg with rfl | hg
      · rcases List.mem_cons.mp hg' with rfl | hg'
        · rfl
        · have hlt := h.lt g' hg'
          rw [← heq] at hlt
          exact absurd hlt (Nat.lt_irrefl _)
      · rcases List.mem_cons.mp hg' with rfl | hg'
        · have hlt := h.lt g hg
          rw [heq] at hlt
          exact absurd hlt (Nat.lt_irrefl _)
        · exact h.inj g hg g' hg' heq
    · have hon : (s.goto t (.built c ⟨s.registered.length, serves, c⟩)).phase t' = .built c' guard ∨
        (s.goto t (.built c ⟨s.registered.length, serves, c⟩)).phase t' = .adding c' guard := hon
      rw [phase_goto] at hon
      by_cases ht : t' = t
      · rw [if_pos ht] at hon
        rcases hon with hon | hon
        · cases hon
          exact ⟨List.mem_cons_self, rfl⟩
        · cases hon
      · rw [if_neg ht] at hon
        obtain ⟨hmem, hc⟩ := h.onTheWay t' c' guard hon
        exact ⟨List.mem_cons_of_mem _ hmem, hc⟩
    · obtain ⟨hmem, hrest⟩ := h.entries fileId e he
      exact ⟨List.mem_cons_of_mem _ hmem, hrest⟩
  | acquired _ t p hfree hout hp hclean hguard ha =>
    refine h.of_phase (t := t) (p := p) (fun c guard hon => ?_) rfl rfl rfl
    rcases hon with rfl | rfl
    · cases hp
    · exact .inl (hguard c guard rfl)
  | inserted t c guard hp =>
    obtain ⟨hmem, hc⟩ := h.onTheWay t c guard (.inr hp)
    have hphase : Guarded board (s.goto t .edited) :=
      h.of_other (t := t) (p := .edited) (fun _ _ => ⟨nofun, nofun⟩) rfl rfl rfl
    refine ⟨h.lt, h.inj, hphase.onTheWay, fun fileId e he => ?_⟩
    have he : (s.offers.insert c.fileId (board.entry c guard))[fileId]? = some e := he
    rw [Std.TreeMap.getElem?_insert] at he
    split at he
    · rename_i hkey
      cases he
      rw [Std.LawfulEqCmp.compare_eq_iff_eq] at hkey
      exact ⟨hmem, (congrArg AddCall.fileId hc).trans hkey, by rw [← hc]; rfl⟩
    · exact h.entries fileId e he
  | erased t fileId hp =>
    have hphase : Guarded board (s.goto t .edited) :=
      h.of_other (t := t) (p := .edited) (fun _ _ => ⟨nofun, nofun⟩) rfl rfl rfl
    refine ⟨h.lt, h.inj, hphase.onTheWay, fun fileId' e he => ?_⟩
    have he : (s.offers.erase fileId)[fileId']? = some e := he
    rw [Std.TreeMap.getElem?_erase] at he
    split at he
    · cases he
    · exact h.entries fileId' e he
  | settled _ t hin hclean ha =>
    exact h.of_other (t := t) (p := .leaving) (fun _ _ => ⟨nofun, nofun⟩) rfl rfl rfl
  | built t now hp =>
    exact h.of_other (t := t) (p := .rebuilt _) (fun _ _ => ⟨nofun, nofun⟩) rfl rfl rfl
  | pushed t m hp =>
    exact h.of_other (t := t) (p := .leaving) (fun _ _ => ⟨nofun, nofun⟩) rfl rfl rfl
  | unlocked t hp =>
    exact h.of_other (t := t) (p := .idle) (fun _ _ => ⟨nofun, nofun⟩) rfl rfl rfl

/-! ## Coherence -/

/-- What holds of a board whatever the sizes. -/
structure Sound (board : OfferBoard) (s : State) : Prop where
  exclusive : Exclusive s
  manifested : Manifested board s
  kept : Kept s
  guarded : Guarded board s

theorem sound_new (board : OfferBoard) (now : Nat) : Sound board (.new board now) := by
  refine ⟨fun t => iff_of_false nofun nofun, ⟨fun _ => rfl, fun t m h => ?_⟩,
    ⟨rfl, List.cons_ne_nil _ _⟩, nofun, nofun, fun t c guard h => ?_, fun fileId e he => ?_⟩
  · cases h
  · rcases h with h | h <;> cases h
  · have he : (∅ : Offers)[fileId]? = some e := he
    rw [Std.TreeMap.getElem?_emptyc] at he
    cases he

theorem sound_move (h : Sound board s) (hm : Move board s a u) : Sound board u :=
  ⟨exclusive_move h.exclusive hm, manifested_move h.exclusive h.manifested hm,
    kept_move h.kept hm, guarded_move h.guarded hm⟩

/-- Every entry's size is the one given. -/
def Sized (board : OfferBoard) (s : State) : Prop :=
  ∀ (fileId : String) (e : OfferEntry), s.offers[fileId]? = some e →
    e.guard.call.source.size board.target = e.guard.call.source.given

/-- While the lock is free, and while the map is listed, no manifest is due. -/
theorem Exclusive.clean (h : Exclusive s) (hl : s.lock = none ∨ ∃ t, s.phase t = .listing)
    (t' : ThreadId) : (s.phase t').stale = false := by
  cases hs : (s.phase t').stale with
  | false => rfl
  | true =>
    have hin := locked_of_stale hs
    rcases hl with hfree | ⟨t, ht⟩
    · rw [(h t').mp hin] at hfree
      cases hfree
    · rw [h.eq (by rw [ht]; rfl) hin, ht] at hs
      cases hs

theorem coherent_iff_sized (h : Sound board s) : Coherent board s ↔ Sized board s := by
  constructor
  · intro hc fileId e he
    obtain ⟨-, -, heq⟩ := h.guarded.entries fileId e he
    have hsize := (hc.entries fileId e he).size
    rw [heq] at hsize
    exact hsize
  · intro hs
    obtain ⟨hpos, hle⟩ := h.kept.length
    refine ⟨fun hl => h.manifested.newest (h.exclusive.clean hl), hpos, hle, h.kept.latest,
      fun fileId e he => ?_⟩
    obtain ⟨hmem, hkey, heq⟩ := h.guarded.entries fileId e he
    have hsize := hs fileId e he
    refine ⟨hmem, fun g hg hid => h.guarded.inj g hg _ hmem hid, hkey, ?_, ?_, ?_, ?_⟩
    · exact congrArg OfferEntry.displayName heq
    · exact congrArg OfferEntry.mime heq
    · exact congrArg OfferEntry.name heq
    · exact (congrArg OfferEntry.size heq).trans hsize

theorem Act.fits_of_ne (h : ∀ t, a ≠ .insert t) : a.Fits board s := by
  cases a with
  | insert t => exact absurd rfl (h t)
  | _ => trivial

/-- The sizes stay right exactly when a size that comes in fits. -/
theorem sized_iff_fits (hg : Guarded board s) (h : Sized board s) (hm : Move board s a u) :
    Sized board u ↔ a.Fits board s := by
  cases hm with
  | inserted t c guard hp =>
    obtain ⟨-, hc⟩ := hg.onTheWay t c guard (.inr hp)
    constructor
    · intro hs c' guard' hp'
      rw [hp] at hp'
      cases hp'
      have hself := hs c.fileId (board.entry c guard) Std.TreeMap.getElem?_insert_self
      rw [show (board.entry c guard).guard = guard from rfl, hc] at hself
      exact hself
    · intro hf fileId e he
      have he : (s.offers.insert c.fileId (board.entry c guard))[fileId]? = some e := he
      rw [Std.TreeMap.getElem?_insert] at he
      split at he
      · cases he
        rw [show (board.entry c guard).guard = guard from rfl, hc]
        exact hf c guard hp
      · exact h fileId e he
  | erased t fileId hp =>
    refine iff_of_true (fun fileId' e he => ?_) trivial
    have he : (s.offers.erase fileId)[fileId']? = some e := he
    rw [Std.TreeMap.getElem?_erase] at he
    split at he
    · cases he
    · exact h fileId' e he
  | acquired _ t p hfree hout hp hclean hguard ha =>
    exact iff_of_true h (Act.fits_of_ne fun t' => (ha t').1)
  | settled _ t hin hclean ha => exact iff_of_true h (Act.fits_of_ne fun t' => (ha t').1)
  | _ => exact iff_of_true h trivial

/-- The board is coherent throughout a run exactly when every size that comes in fits. -/
theorem coherent_iff_fits (board : OfferBoard) (now : Nat) {tr : List (Trans State Act)} {u : State}
    (hrun : Run (stepRel (step board)) (.new board now) tr u) :
    (∀ x ∈ tr, Coherent board x.post) ↔ ∀ x ∈ tr, x.act.Fits board x.pre := by
  refine hrun.exact (I := fun s => Sound board s ∧ Sized board s) (C := fun s a => a.Fits board s)
    (P := fun x => Coherent board x.post) ?_ ?_ ⟨sound_new board now, fun fileId e he => ?_⟩
  · rintro s a u ⟨hs, hz⟩ hst
    have hm := step_move hst
    rw [coherent_iff_sized (sound_move hs hm), sized_iff_fits hs.guarded hz hm]
  · rintro s a u ⟨hs, hz⟩ hf hst
    have hm := step_move hst
    exact ⟨sound_move hs hm, (sized_iff_fits hs.guarded hz hm).mpr hf⟩
  · have he : (∅ : Offers)[fileId]? = some e := he
    rw [Std.TreeMap.getElem?_emptyc] at he
    cases he

/-- Where `usize` has 64 bits every size fits. -/
theorem Act.fits_of_w64 (h : board.target.usize = .w64) (a : Act) (s : State) :
    a.Fits board s := by
  cases a with
  | insert t =>
    intro c guard _
    have hlt (size : UInt64) : board.target.castUsize size.toNat = size.toNat := by
      apply Target.castUsize_of_lt
      rw [h]
      exact size.toNat_lt
    cases hc : c.source with
    | content bytes => rfl
    | file size => exact hlt size
    | streamed size => exact hlt size
  | _ => trivial

/-- Plain components, each after a slash. -/
def showName (name : Name) : String :=
  String.ofList (name.flatMap fun c => '/' :: c.value.map fun b => Char.ofNat b.toNat)

/-- The board of node "a" with the identity "/me". -/
def boardOf (usize : UsizeWidth) : OfferBoard where
  target := ⟨usize, false⟩
  identityPrefix := append [] "me"
  nodePrefix := append (append (append [] "ndn") "node") "a"
  parse := UriSyntax.percent.parse
  display := showName

/-- A video of 4 GiB. -/
def video : AddCall := ⟨"v", "video", "video/mp4", .file 4294967296⟩

def videoActs : List Act :=
  [.add 0 video, .lockAdd 0, .insert 0, .build 0 1, .push 0, .unlock 0]

theorem coherent_iff_fits_videoActs :
    ∃ tr u, Run (stepRel (step (boardOf .w64))) (.new (boardOf .w64) 0) tr u ∧
    tr.map (·.act) = videoActs ∧ ∀ x ∈ tr, Coherent (boardOf .w64) x.post := by
  obtain ⟨u, hu⟩ : ∃ u, exec (step (boardOf .w64)) (.new (boardOf .w64) 0) videoActs = some u :=
    ⟨_, rfl⟩
  obtain ⟨tr, hrun, hacts⟩ := exec_run hu
  exact ⟨tr, u, hrun, hacts,
    (coherent_iff_fits (boardOf .w64) 0 hrun).mpr fun x _ => Act.fits_of_w64 rfl x.act x.pre⟩

/-- With 32 bits the manifest lists it as empty. -/
theorem coherent_fails_w32 : ¬ ∀ (board : OfferBoard) (now : Nat) (tr : List (Trans State Act))
    (u : State), Run (stepRel (step board)) (.new board now) tr u →
      ∀ x ∈ tr, Coherent board x.post := by
  intro h
  have hsizes : ((exec (step (boardOf .w32)) (.new (boardOf .w32) 0) videoActs).bind fun u =>
      u.offers["v"]?.map fun e => (e.size, e.guard.call.source.given)) = some (0, 4294967296) := by
    decide
  obtain ⟨u, hu, he⟩ := Option.bind_eq_some_iff.mp hsizes
  obtain ⟨tr, hrun, hacts⟩ := exec_run hu
  obtain ⟨x, hx, rfl⟩ := hrun.last_mem (by rintro rfl; cases hacts)
  obtain ⟨e, hv, hsize⟩ := Option.map_eq_some_iff.mp he
  have hd := (h (boardOf .w32) 0 tr _ hrun x hx).entries "v" e hv
  have heq : e.size = 0 ∧ e.guard.call.source.given = 4294967296 := by simpa using hsize
  have hzero := hd.size
  rw [heq.1, heq.2] at hzero
  cases hzero

end NdnMobile.Offer
