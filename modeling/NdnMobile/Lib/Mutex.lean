import Mathlib.Logic.Basic

/-!
# A mutex and the temporaries that hold it

Programs of one thread over a state with a mutex that is not reentrant: to lock it while the
thread holds it blocks for ever. An expression that locks it leaves the guard behind among
its temporaries, and where these end depends on where the expression stands: a `let` ends them
before what follows (`letIn`), a `match` after the arm that is taken (`matchOn`).
-/

namespace NdnMobile.Lib

inductive Outcome (σ α : Type) where
  | done (a : α) (s : σ)
  | blocked (s : σ)

variable {σ α β γ : Type}

def Outcome.state : Outcome σ α → σ
  | .done _ s => s
  | .blocked s => s

/-- A program from its state to its result, unless it blocks. -/
abbrev Prog (σ α : Type) := σ → Outcome σ α

namespace Prog

def ret (a : α) : Prog σ α := fun s => .done a s

def bind (p : Prog σ α) (f : α → Prog σ β) : Prog σ β := fun s =>
  match p s with
  | .done a s => f a s
  | .blocked s => .blocked s

/-- Whatever the program does, this part of the state stays. -/
def Keeps (part : σ → γ) (p : Prog σ α) : Prop := ∀ s, part (p s).state = part s

variable {part : σ → γ} {p : Prog σ α} {f : α → Prog σ β}

theorem keeps_ret (a : α) : Keeps part (ret a : Prog σ α) := fun _ => rfl

theorem Keeps.bind (hp : Keeps part p) (hf : ∀ a, Keeps part (f a)) : Keeps part (p.bind f) := by
  intro s
  have hs := hp s
  unfold Prog.bind
  cases h : p s with
  | done a t =>
    rw [h] at hs
    exact (hf a t).trans hs
  | blocked t =>
    rw [h] at hs
    exact hs

/-- The program ends, and leaves the state alone. -/
def Reads (p : Prog σ α) : Prop := ∀ s, ∃ a, p s = .done a s

/-- What only reads may follow without a trace. -/
theorem state_bind_reads (hf : ∀ a, Reads (f a)) (s : σ) : (p.bind f s).state = (p s).state := by
  unfold Prog.bind
  cases p s with
  | done a t =>
    obtain ⟨b, hb⟩ := hf a t
    exact congrArg Outcome.state hb
  | blocked t => rfl

theorem done_bind_reads (hf : ∀ a, Reads (f a)) (s : σ) :
    (∃ b t, p.bind f s = .done b t) ↔ ∃ a t, p s = .done a t := by
  unfold Prog.bind
  cases p s with
  | done a t =>
    obtain ⟨b, hb⟩ := hf a t
    exact iff_of_true ⟨b, t, hb⟩ ⟨a, t, rfl⟩
  | blocked t => exact iff_of_false (by rintro ⟨_, _, h⟩; cases h) (by rintro ⟨_, _, h⟩; cases h)

theorem blocked_bind_reads (hf : ∀ a, Reads (f a)) {s : σ} :
    (∃ t, p.bind f s = .blocked t) ↔ ∃ t, p s = .blocked t := by
  unfold Prog.bind
  cases p s with
  | done a t =>
    obtain ⟨b, hb⟩ := hf a t
    dsimp only
    rw [hb]
    exact iff_of_false (by rintro ⟨_, h⟩; cases h) (by rintro ⟨_, h⟩; cases h)
  | blocked t => exact iff_of_true ⟨t, rfl⟩ ⟨t, rfl⟩

end Prog

/-- Where the state says whether the thread holds the mutex. -/
structure Mutex (σ : Type) where
  held : σ → Bool
  set : σ → Bool → σ
  held_set : ∀ s b, held (set s b) = b

namespace Mutex

variable (m : Mutex σ)

/-- `mutex.lock().unwrap().call()`: the value, and whether a guard is left. -/
def lock (call : σ → α × σ) : Prog σ (α × Bool) := fun s =>
  if m.held s then .blocked s
  else .done ((call (m.set s true)).1, true) (call (m.set s true)).2

/-- The temporaries of an expression end. -/
def drop (guard : Bool) (s : σ) : σ := if guard then m.set s false else s

/-- `let x = e; body`. -/
def letIn (e : Prog σ (α × Bool)) (body : α → Prog σ β) : Prog σ β :=
  e.bind fun r s => body r.1 (m.drop r.2 s)

/-- `match e { arms }`. -/
def matchOn (e : Prog σ (α × Bool)) (arms : α → Prog σ β) : Prog σ β :=
  e.bind fun r => (arms r.1).bind fun b s => .done b (m.drop r.2 s)

/-- Started without the mutex, the program ends, and without it. -/
def Ends (p : Prog σ α) : Prop :=
  ∀ s, m.held s = false → ∃ a t, p s = .done a t ∧ m.held t = false

/-- Started with the mutex, the program blocks. -/
def Blocks (p : Prog σ α) : Prop := ∀ s, m.held s = true → p s = .blocked s

variable {m} {call : σ → α × σ} {body arms : α → Prog σ β} {p : Prog σ α} {f : α → Prog σ β}
  {part : σ → γ} {s : σ}

theorem ends_ret (a : α) : m.Ends (Prog.ret a) := fun s h => ⟨a, s, rfl, h⟩

theorem Ends.bind (hp : m.Ends p) (hf : ∀ a, m.Ends (f a)) : m.Ends (p.bind f) := by
  intro s hs
  obtain ⟨a, t, hrun, ht⟩ := hp s hs
  obtain ⟨b, u, hrun', hu⟩ := hf a t ht
  refine ⟨b, u, ?_, hu⟩
  unfold Prog.bind
  rw [hrun]
  exact hrun'

theorem Blocks.bind (hp : m.Blocks p) : m.Blocks (p.bind f) := by
  intro s hs
  unfold Prog.bind
  rw [hp s hs]

/-- **After a `let`** the mutex is free again. -/
theorem letIn_lock (h : m.held s = false) : m.letIn (m.lock call) body s =
    body (call (m.set s true)).1 (m.set (call (m.set s true)).2 false) := by
  unfold letIn Prog.bind lock
  rw [h]
  rfl

/-- **In the arms of a `match`** it is held. -/
theorem matchOn_lock (h : m.held s = false) : m.matchOn (m.lock call) arms s =
    (arms (call (m.set s true)).1).bind (fun b t => .done b (m.set t false))
      (call (m.set s true)).2 := by
  unfold matchOn lock
  show Prog.bind _ _ s = _
  rw [Prog.bind, h]
  rfl

theorem ends_letIn (hbody : ∀ a, m.Ends (body a)) : m.Ends (m.letIn (m.lock call) body) := by
  intro s hs
  rw [letIn_lock hs]
  exact hbody _ _ (m.held_set _ _)

/-- A thread that holds the mutex blocks where it locks it. -/
theorem blocks_letIn : m.Blocks (m.letIn (m.lock call) body) := by
  intro s hs
  unfold letIn Prog.bind lock
  rw [hs]
  rfl

theorem keeps_letIn (hset : ∀ s b, part (m.set s b) = part s)
    (hcall : ∀ s, part (call s).2 = part s) (hbody : ∀ a, (body a).Keeps part) :
    (m.letIn (m.lock call) body).Keeps part := by
  intro s
  cases hs : m.held s with
  | false =>
    rw [letIn_lock hs]
    exact (hbody _ _).trans ((hset _ _).trans ((hcall _).trans (hset _ _)))
  | true =>
    rw [blocks_letIn s hs]
    rfl

end Mutex

end NdnMobile.Lib
