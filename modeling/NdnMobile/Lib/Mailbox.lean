import Mathlib.Data.List.DropRight

/-!
# A mailbox that keeps the newest messages

A log drops its oldest entry for a new one when it is full, and is emptied as a whole.
`unread` is what was put in since it was last emptied; the log holds the newest `cap` of
that (`pushNewest_rtake`), and what its readers got altogether is in order and repeats
nothing (`read_sublist`).
-/

namespace NdnMobile.Lib

variable {α : Type} {cap : Nat} {log : List α} {x : α}

/-- The new entry goes to the end, and where the log is full its first one goes. -/
def pushNewest (cap : Nat) (log : List α) (x : α) : List α :=
  (if cap ≤ log.length then log.tail else log) ++ [x]

theorem length_rtake : (log.rtake cap).length = min log.length cap := by
  rw [List.rtake, List.length_drop]
  omega

theorem rtake_suffix : log.rtake cap <:+ log := List.drop_suffix ..

theorem pushNewest_rtake (h : 0 < cap) :
    pushNewest cap (log.rtake cap) x = (log ++ [x]).rtake cap := by
  obtain ⟨n, rfl⟩ := Nat.exists_eq_add_one.mpr h
  rw [List.rtake_concat_succ, pushNewest, length_rtake]
  by_cases hfull : n + 1 ≤ log.length
  · rw [if_pos (by omega), List.rtake, List.rtake, List.tail_drop]
    congr 2
    omega
  · rw [if_neg (by omega), List.rtake, List.rtake]
    congr 2
    omega

/-! ## What was put in -/

/-- A message put in, or the box emptied. -/
inductive BoxEvent (α : Type) where
  | put (x : α)
  | take

namespace BoxEvent

def isPut : BoxEvent α → Bool
  | put _ => true
  | take => false

def message : BoxEvent α → Option α
  | put x => some x
  | take => none

end BoxEvent

variable {es : List (BoxEvent α)}

/-- All messages put in, oldest first. -/
def messages (es : List (BoxEvent α)) : List α := es.filterMap (·.message)

/-- Those since the box was last emptied. -/
def unread (es : List (BoxEvent α)) : List α := messages (es.rtakeWhile (·.isPut))

theorem messages_put : messages (es ++ [.put x]) = messages es ++ [x] := by
  rw [messages, List.filterMap_append]
  rfl

theorem messages_take : messages (es ++ [BoxEvent.take]) = messages es := by
  rw [messages, List.filterMap_append]
  exact List.append_nil _

theorem unread_put : unread (es ++ [.put x]) = unread es ++ [x] := by
  rw [unread, List.rtakeWhile_concat_pos _ _ _ rfl, messages_put]
  rfl

theorem unread_take : unread (es ++ [BoxEvent.take]) = [] := by
  rw [unread, List.rtakeWhile_concat_neg _ _ _ Bool.false_ne_true]
  rfl

/-- Reading the newest unread messages keeps what was read so far, with what is left to
read, within the messages. -/
theorem read_sublist {got : List (List α)} (h : (got.flatten ++ unread es).Sublist (messages es)) :
    ((got ++ [(unread es).rtake cap]).flatten ++ unread (es ++ [BoxEvent.take])).Sublist
      (messages (es ++ [BoxEvent.take])) := by
  rw [unread_take, messages_take, List.append_nil, List.flatten_append, List.flatten_singleton]
  exact ((List.Sublist.refl _).append rtake_suffix.sublist).trans h

end NdnMobile.Lib
