/-!
# Fallible operations on a state

`Op σ ε α`: an operation that reads and writes a state `σ` and ends with a result or an
error, keeping what it wrote in both cases. `exec` runs one, `ofExcept` lifts a
computation that touches no state, and the `ok_` lemmas take a successful run apart
step by step. An operation is `Atomic` if an error leaves the state as it was: it is when
nothing is written before the last step that can fail.
-/

namespace NdnMobile.Lib

abbrev Op (σ ε α : Type) := ExceptT ε (StateM σ) α

namespace Op

variable {σ ε α β : Type} {s t : σ} {a b : α}

def exec (x : Op σ ε α) (s : σ) : Except ε α × σ := x.run.run s

def ofExcept (e : Except ε α) : Op σ ε α := ExceptT.mk (pure e)

@[simp] theorem ok_pure : exec (pure a : Op σ ε α) s = (.ok b, t) ↔ a = b ∧ s = t := by
  show ((Except.ok a : Except ε α), s) = (.ok b, t) ↔ _
  rw [Prod.mk.injEq, Except.ok.injEq]

/-- The second operation runs on what the first one leaves, or not at all. -/
theorem exec_bind (x : Op σ ε α) (f : α → Op σ ε β) (s : σ) :
    exec (x >>= f) s = match exec x s with
      | (.ok a, u) => exec (f a) u
      | (.error e, u) => (.error e, u) := by
  show (match x s with
    | (r, u) => (ExceptT.bindCont f r : StateM σ _) u) = match x s with
    | (.ok a, u) => f a u
    | (.error e, u) => (.error e, u)
  rcases x s with ⟨_ | _, u⟩ <;> rfl

@[simp] theorem ok_bind {x : Op σ ε α} {f : α → Op σ ε β} {b : β} :
    exec (x >>= f) s = (.ok b, t) ↔
      ∃ a u, exec x s = (.ok a, u) ∧ exec (f a) u = (.ok b, t) := by
  rw [exec_bind]
  rcases exec x s with ⟨e | a, u⟩
  · exact ⟨nofun, fun ⟨_, _, h, _⟩ => nomatch h⟩
  · constructor
    · exact fun h => ⟨a, u, rfl, h⟩
    · rintro ⟨_, _, ⟨⟩, h⟩
      exact h

theorem exec_ofExcept (e : Except ε α) (s : σ) : exec (ofExcept e) s = (e, s) := rfl

theorem exec_modify (f : σ → σ) (s : σ) : exec (modify f : Op σ ε PUnit) s = (.ok .unit, f s) := rfl

@[simp] theorem ok_ofExcept {e : Except ε α} :
    exec (ofExcept e : Op σ ε α) s = (.ok a, t) ↔ e = .ok a ∧ s = t := by
  show (e, s) = (.ok a, t) ↔ _
  rw [Prod.mk.injEq]

@[simp] theorem ok_modify {f : σ → σ} {u : PUnit} :
    exec (modify f : Op σ ε PUnit) s = (.ok u, t) ↔ f s = t := by
  show ((Except.ok PUnit.unit : Except ε PUnit), f s) = (.ok u, t) ↔ _
  simp

@[simp] theorem ok_get {u : σ} : exec (get : Op σ ε σ) s = (.ok u, t) ↔ s = u ∧ s = t := by
  show ((Except.ok s : Except ε σ), s) = (.ok u, t) ↔ _
  rw [Prod.mk.injEq, Except.ok.injEq]

/-! The first step of an operation is taken off by what it is. -/

@[simp] theorem ok_ofExcept_bind {e : Except ε α} {f : α → Op σ ε β} {b : β} :
    exec (ofExcept e >>= f) s = (.ok b, t) ↔ ∃ a, e = .ok a ∧ exec (f a) s = (.ok b, t) := by
  rw [exec_bind, exec_ofExcept]
  cases e with
  | error e => exact ⟨nofun, fun ⟨_, h, _⟩ => nomatch h⟩
  | ok a => exact ⟨fun h => ⟨a, rfl, h⟩, fun ⟨_, ha, h⟩ => Except.ok.inj ha ▸ h⟩

@[simp] theorem ok_modify_bind {g : σ → σ} {f : PUnit → Op σ ε β} {b : β} :
    exec (modify g >>= f) s = (.ok b, t) ↔ exec (f .unit) (g s) = (.ok b, t) := by
  rw [exec_bind, exec_modify]

@[simp] theorem ok_get_bind {f : σ → Op σ ε β} {b : β} :
    exec (get >>= f) s = (.ok b, t) ↔ exec (f s) s = (.ok b, t) := by
  rw [exec_bind]
  rfl

/-- Run an operation for its effect. -/
def void (x : Op σ ε α) : Op σ ε Unit := do
  let _ ← x
  return ()

/-- The operation writes nothing. -/
def Reads (x : Op σ ε α) : Prop := ∀ s, (exec x s).2 = s

/-- The operation cannot fail. -/
def Succeeds (x : Op σ ε α) : Prop := ∀ s, ∃ a t, exec x s = (.ok a, t)

/-- An error leaves the state as it was. -/
def Atomic (x : Op σ ε α) : Prop := ∀ s e t, exec x s = (.error e, t) → t = s

variable {e : ε} {x : Op σ ε α} {f : α → Op σ ε β}

theorem error_bind : exec (x >>= f) s = (.error e, t) ↔
    exec x s = (.error e, t) ∨ ∃ a u, exec x s = (.ok a, u) ∧ exec (f a) u = (.error e, t) := by
  rw [exec_bind]
  rcases exec x s with ⟨e' | a, u⟩
  · simp
  · constructor
    · exact fun h => .inr ⟨a, u, rfl, h⟩
    · rintro (h | ⟨_, _, ⟨⟩, h⟩)
      · cases h
      · exact h

theorem reads_ofExcept (r : Except ε α) : Reads (ofExcept r : Op σ ε α) := fun _ => rfl

theorem reads_get : Reads (get : Op σ ε σ) := fun _ => rfl

theorem Reads.bind (hx : Reads x) (hf : ∀ a, Reads (f a)) : Reads (x >>= f) := by
  intro s
  have hs := hx s
  rw [exec_bind]
  revert hs
  rcases exec x s with ⟨e | a, u⟩
  · exact id
  · intro hs
    rw [← show u = s from hs]
    exact hf a u

theorem succeeds_pure (a : α) : Succeeds (pure a : Op σ ε α) := fun s => ⟨a, s, rfl⟩

theorem succeeds_modify (g : σ → σ) : Succeeds (modify g : Op σ ε PUnit) :=
  fun s => ⟨.unit, g s, rfl⟩

theorem Succeeds.bind (hx : Succeeds x) (hf : ∀ a, Succeeds (f a)) : Succeeds (x >>= f) := by
  intro s
  obtain ⟨a, u, ha⟩ := hx s
  obtain ⟨b, t, hb⟩ := hf a u
  exact ⟨b, t, ok_bind.mpr ⟨a, u, ha, hb⟩⟩

theorem Succeeds.atomic (hx : Succeeds x) : Atomic x := by
  intro s e t he
  obtain ⟨a, u, ha⟩ := hx s
  rw [ha] at he
  cases he

theorem Reads.atomic (hx : Reads x) : Atomic x := by
  intro s e t he
  have hs := hx s
  rwa [he] at hs

/-- Steps that only read may come before an atomic operation. -/
theorem Reads.bind_atomic (hx : Reads x) (hf : ∀ a, Atomic (f a)) : Atomic (x >>= f) := by
  intro s e t he
  rcases error_bind.mp he with he | ⟨a, u, ha, he⟩
  · exact hx.atomic s e t he
  · have hu : u = s := by simpa [ha] using hx s
    rw [hf a u e t he, hu]

/-- Steps that cannot fail may come after one. -/
theorem Atomic.bind_succeeds (hx : Atomic x) (hf : ∀ a, Succeeds (f a)) : Atomic (x >>= f) := by
  intro s e t he
  rcases error_bind.mp he with he | ⟨a, u, -, he⟩
  · exact hx s e t he
  · obtain ⟨b, v, hb⟩ := hf a u
    rw [hb] at he
    cases he

theorem error_void : exec (void x) s = (.error e, t) ↔ exec x s = (.error e, t) := by
  rw [void, error_bind]
  refine or_iff_left ?_
  rintro ⟨a, u, -, h⟩
  cases h

theorem Atomic.void (hx : Atomic x) : Atomic (void x) :=
  hx.bind_succeeds fun _ => succeeds_pure ()

end Op

/-! ## Computations without a state -/

variable {ε ε' α β : Type}

theorem except_bind_ok {x : Except ε α} {f : α → Except ε β} {b : β} :
    (x >>= f) = .ok b ↔ ∃ a, x = .ok a ∧ f a = .ok b := by
  cases x with
  | error e => exact ⟨nofun, fun ⟨_, h, _⟩ => nomatch h⟩
  | ok a => exact ⟨fun h => ⟨a, rfl, h⟩, fun ⟨_, h, hb⟩ => Except.ok.inj h ▸ hb⟩

theorem mapError_ok {x : Except ε α} {f : ε → ε'} {a : α} :
    x.mapError f = .ok a ↔ x = .ok a := by
  cases x with
  | error e => exact ⟨nofun, nofun⟩
  | ok b => exact ⟨fun h => by cases h; rfl, fun h => by cases h; rfl⟩

/-- `ok_or`. -/
def okOr (x : Option α) (e : ε) : Except ε α :=
  match x with
  | none => .error e
  | some a => .ok a

@[simp] theorem okOr_ok {x : Option α} {e : ε} {a : α} : okOr x e = .ok a ↔ x = some a := by
  cases x <;> simp [okOr]

end NdnMobile.Lib
