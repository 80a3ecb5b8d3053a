/-!
# Histories

A history lists events, the latest first. `Once p` says that an event, with the history
before it, met `p`; `Always p` that every event did; `Since q p` that an event met `p` and
every later one meets `q`.
-/

namespace NdnMobile.Lib

variable {α : Type}

def Once (p : α → List α → Prop) : List α → Prop
  | [] => False
  | e :: past => p e past ∨ Once p past

def Always (p : α → List α → Prop) : List α → Prop
  | [] => True
  | e :: past => p e past ∧ Always p past

def Since (q p : α → Prop) : List α → Prop
  | [] => False
  | e :: past => p e ∨ q e ∧ Since q p past

variable {p p' a : α → List α → Prop} {q r r' : α → Prop} {e : α} {past : List α}

theorem Once.now (h : p e past) : Once p (e :: past) := .inl h

theorem Once.cons (h : Once p past) : Once p (e :: past) := .inr h

/-- What was once so was so under everything that always was. -/
theorem Once.of_always (h : Once p past) (ha : Always a past)
    (himp : ∀ {e past}, p e past → a e past → Always a past → p' e past) : Once p' past := by
  induction past with
  | nil => exact h
  | cons e past ih =>
    rcases h with h | h
    · exact .now (himp h ha.1 ha.2)
    · exact .cons (ih h ha.2)

theorem Since.now (h : r e) : Since q r (e :: past) := .inl h

theorem Since.cons (hq : q e) (h : Since q r past) : Since q r (e :: past) := .inr ⟨hq, h⟩

theorem Since.mono (h : Since q r past) (hr : ∀ {e}, r e → r' e) : Since q r' past := by
  induction past with
  | nil => exact h
  | cons e past ih =>
    rcases h with h | ⟨hq, h⟩
    · exact .now (hr h)
    · exact .cons hq (ih h)

end NdnMobile.Lib
