import Mathlib.Data.String.Basic

/-!
# The first occurrence of a separator

`splitOnce sep s` is what comes before and after the first occurrence of `sep` in `s`.
`splitOnce_eq_some` finds it where an occurrence is known and none starts earlier, and
`splitOn_splits` says that the first part `String.splitOn` makes ends there.
-/

namespace NdnMobile.Lib

section

variable {α : Type} [DecidableEq α] {sep s t : List α}

def splitOnce (sep : List α) : List α → Option (List α × List α)
  | [] => none
  | c :: cs =>
    if sep <+: c :: cs then some ([], (c :: cs).drop sep.length)
    else (splitOnce sep cs).map fun x => (c :: x.1, x.2)

theorem splitOnce_cons_of_not {c : α} (h : ¬ sep <+: c :: s) :
    splitOnce sep (c :: s) = (splitOnce sep s).map fun x => (c :: x.1, x.2) := if_neg h

theorem splitOnce_of_prefix (hsep : sep ≠ []) (s : List α) :
    splitOnce sep (sep ++ s) = some ([], s) := by
  obtain ⟨c, cs, rfl⟩ := List.exists_cons_of_ne_nil hsep
  rw [List.cons_append, splitOnce, if_pos ⟨s, rfl⟩]
  simp

theorem splitOnce_of_length_lt (h : s.length < sep.length) : splitOnce sep s = none := by
  induction s with
  | nil => rfl
  | cons c s ih =>
    have hno : ¬ sep <+: c :: s := fun hp => absurd hp.length_le (Nat.not_le.mpr h)
    rw [splitOnce_cons_of_not hno, ih (by simp at h; omega)]
    rfl

/-- No occurrence starts before `s` ends, and one starts there. -/
theorem splitOnce_eq_some (hsep : sep ≠ [])
    (h : ∀ a b, s = a ++ b → b ≠ [] → ¬ sep <+: b ++ (sep ++ t)) :
    splitOnce sep (s ++ (sep ++ t)) = some (s, t) := by
  induction s with
  | nil => exact splitOnce_of_prefix hsep t
  | cons c s ih =>
    have hno : ¬ sep <+: c :: (s ++ (sep ++ t)) := h [] (c :: s) rfl (by simp)
    rw [List.cons_append, splitOnce_cons_of_not hno, ih fun a b hs hb => ?_]
    · rfl
    · exact h (c :: a) b (by rw [hs]; rfl) hb

/-- Elements that are not the separator's first are passed over. -/
theorem splitOnce_skip {x : α} {a : List α} (h : x ∉ a) (s : List α) :
    splitOnce (x :: sep) (a ++ s) = (splitOnce (x :: sep) s).map fun y => (a ++ y.1, y.2) := by
  induction a with
  | nil => simp
  | cons c a ih =>
    rw [List.mem_cons, not_or] at h
    have hno : ¬ x :: sep <+: c :: (a ++ s) := fun hp => h.1 (List.cons_prefix_cons.mp hp).1
    rw [List.cons_append, splitOnce_cons_of_not hno, ih h.2, Option.map_map]
    rfl

theorem splitOnce_of_notMem {x : α} (h : x ∉ s) : splitOnce (x :: sep) s = none := by
  have hskip : splitOnce (x :: sep) (s ++ []) = _ := splitOnce_skip h []
  rwa [List.append_nil] at hskip

/-- What `splitOnce` returns is the list without the separator. -/
theorem splitOnce_append_eq {a b : List α} (h : splitOnce sep s = some (a, b)) :
    s = a ++ (sep ++ b) := by
  induction s generalizing a with
  | nil => cases h
  | cons c s ih =>
    rw [splitOnce] at h
    split at h
    · rename_i hp
      cases h
      exact (List.prefix_iff_eq_append.mp hp).symm
    · obtain ⟨⟨a', b'⟩, hs, hx⟩ := Option.map_eq_some_iff.mp h
      cases hx
      rw [ih hs]
      rfl

/-- The cut does not move when something is appended. -/
theorem splitOnce_append {a b : List α} (h : splitOnce sep s = some (a, b)) (t : List α) :
    splitOnce sep (s ++ t) = some (a, b ++ t) := by
  induction s generalizing a with
  | nil => cases h
  | cons c s ih =>
    rw [splitOnce] at h
    rw [List.cons_append, splitOnce]
    split at h
    · rename_i hp
      cases h
      have hpt : sep <+: c :: (s ++ t) := hp.trans (List.prefix_append (c :: s) t)
      rw [if_pos hpt, ← List.cons_append, List.drop_append_of_le_length hp.length_le]
    · rename_i hp
      obtain ⟨⟨a', b'⟩, hs, hx⟩ := Option.map_eq_some_iff.mp h
      cases hx
      have hlen : sep.length ≤ (c :: s).length := by
        rw [List.length_cons, splitOnce_append_eq hs]
        simp only [List.length_append]
        omega
      have hno : ¬ sep <+: c :: (s ++ t) := fun hpt =>
        hp (List.prefix_of_prefix_length_le hpt (List.prefix_append (c :: s) t) hlen)
      rw [if_neg hno, ih hs]
      rfl

theorem splitOnce_of_infix (hsep : sep ≠ []) (h : sep <:+: s) :
    ∃ a b, splitOnce sep s = some (a, b) := by
  induction s with
  | nil => exact absurd (List.infix_nil.mp h) hsep
  | cons c s ih =>
    rw [splitOnce]
    split
    · exact ⟨_, _, rfl⟩
    · rename_i hp
      obtain ⟨a, b, hs⟩ := ih ((List.infix_cons_iff.mp h).resolve_left hp)
      exact ⟨_, _, congrArg _ hs⟩

end

/-! ## `String.splitOn` -/

open String

/-- What `splitOn` makes of `t`, with `m` before it since the last cut. -/
def SplitsTo (sep m t : List Char) (parts : List String) : Prop :=
  match splitOnce sep t with
  | none => parts = [ofList (m ++ t)]
  | some (a, _) => ∃ y ys, parts = ofList (m ++ a) :: y :: ys

theorem SplitsTo.ne_nil {sep m t : List Char} {parts : List String} (h : SplitsTo sep m t parts) :
    ∃ y ys, parts = y :: ys := by
  unfold SplitsTo at h
  split at h
  · exact ⟨_, _, h⟩
  · obtain ⟨y, ys, h⟩ := h
    exact ⟨_, _, h⟩

/-- The characters that were passed over may count as seen since the cut. -/
theorem SplitsTo.cons {sep m t : List Char} {c : Char} {parts : List String}
    (hno : ¬ sep <+: c :: t) (h : SplitsTo sep (m ++ [c]) t parts) :
    SplitsTo sep m (c :: t) parts := by
  unfold SplitsTo at h ⊢
  rw [splitOnce_cons_of_not hno]
  cases hs : splitOnce sep t with
  | none =>
    rw [hs] at h
    simpa using h
  | some x =>
    rw [hs] at h
    simpa using h

/-- The loop of `splitOn`: the last cut is behind `l`, what was passed over since is `m`, then
comes the match so far, `p`, of which `q` is still to come, and `r` is the rest of the text. -/
def scan (l m p q r : List Char) (acc : List String) : List String :=
  splitOnAux (ofList (l ++ (m ++ (p ++ r)))) (ofList (p ++ q)) ⟨utf8Len l⟩
    ⟨utf8Len (l ++ (m ++ p))⟩ ⟨utf8Len p⟩ acc

section

variable (l m p q r : List Char) (c d : Char) (acc : List String)

theorem next_behind : Pos.Raw.next (ofList (p ++ c :: r)) ⟨utf8Len p⟩ =
    ⟨utf8Len (p ++ [c])⟩ := by
  rw [next_of_valid]
  simp

theorem get_behind : Pos.Raw.get (ofList (p ++ c :: r)) ⟨utf8Len p⟩ = c := by
  rw [get_of_valid]
  rfl

theorem not_atEnd_behind :
    ¬ Pos.Raw.atEnd (ofList (p ++ c :: r)) ⟨utf8Len p⟩ = true := by
  rw [atEnd_of_valid]
  exact List.cons_ne_nil _ _

theorem extract_behind : Pos.Raw.extract (ofList (l ++ (m ++ r))) ⟨utf8Len l⟩
    ⟨utf8Len (l ++ m)⟩ = ofList m := by
  rw [← List.append_assoc, utf8Len_append]
  exact extract_of_valid l m r

/-- Going back over the match. -/
theorem unoffsetBy_behind : (⟨utf8Len (l ++ (m ++ p))⟩ : Pos.Raw).unoffsetBy ⟨utf8Len p⟩ =
    ⟨utf8Len (l ++ m)⟩ := by
  simp [Pos.Raw.ext_iff]
  omega

/-- The text is at its end. -/
theorem scan_end : scan l m p q [] acc = acc.reverse ++ [ofList (m ++ p)] := by
  have hend := (atEnd_of_valid (l ++ (m ++ p)) []).mpr rfl
  have hlast := extract_behind l (m ++ p) []
  rw [List.append_nil] at hend hlast
  rw [scan, splitOnAux, List.append_nil, if_pos hend, List.reverse_cons, hlast]

/-- What the loop does with one more character. -/
theorem scan_cons : scan l m p (d :: q) (c :: r) acc =
    if c = d then
      if q = [] then scan (l ++ (m ++ (p ++ [c]))) [] [] (p ++ [c]) r (ofList m :: acc)
      else scan l m (p ++ [c]) q r acc
    else splitOnAux (ofList (l ++ (m ++ (p ++ c :: r)))) (ofList (p ++ d :: q)) ⟨utf8Len l⟩
      (Pos.Raw.next (ofList (l ++ (m ++ (p ++ c :: r)))) ⟨utf8Len (l ++ m)⟩) 0 acc := by
  have htext : l ++ (m ++ (p ++ c :: r)) = (l ++ (m ++ p)) ++ c :: r := by simp
  have hend : ¬ Pos.Raw.atEnd (ofList (l ++ (m ++ (p ++ c :: r))))
      ⟨utf8Len (l ++ (m ++ p))⟩ = true := by
    rw [htext]
    exact not_atEnd_behind (l ++ (m ++ p)) r c
  have hget : Pos.Raw.get (ofList (l ++ (m ++ (p ++ c :: r)))) ⟨utf8Len (l ++ (m ++ p))⟩ = c :=
    htext ▸ get_behind ..
  have hnext : Pos.Raw.next (ofList (l ++ (m ++ (p ++ c :: r)))) ⟨utf8Len (l ++ (m ++ p))⟩ =
      ⟨utf8Len (l ++ (m ++ (p ++ [c])))⟩ := by
    rw [htext, next_behind]
    simp
  rw [scan, splitOnAux, if_neg hend, hget, get_behind, hnext, next_behind, unoffsetBy_behind]
  by_cases hcd : c = d
  · subst hcd
    rw [if_pos (beq_self_eq_true c), if_pos rfl]
    have htext' : l ++ (m ++ (p ++ c :: r)) = l ++ (m ++ ((p ++ [c]) ++ r)) := by simp
    have hsep : p ++ c :: q = (p ++ [c]) ++ q := by simp
    rw [htext', hsep]
    dsimp only
    rw [unoffsetBy_behind]
    cases q with
    | nil =>
      have hdone := (atEnd_of_valid (p ++ [c]) []).mpr rfl
      rw [if_pos hdone, if_pos rfl, extract_behind, scan]
      simp
    | cons e q =>
      rw [if_neg (not_atEnd_behind (p ++ [c]) q e), if_neg (List.cons_ne_nil _ _)]
      rfl
  · rw [if_neg (by simpa using hcd), if_neg hcd]

/-- Where it does not go on with the match, it starts again one character further on. -/
theorem scan_restart {x : Char} {xs : List Char} (hcd : c ≠ d) (hx : p ++ c :: r = x :: xs) :
    scan l m p (d :: q) (c :: r) acc = scan l (m ++ [x]) [] (p ++ d :: q) xs acc := by
  have htext : l ++ (m ++ x :: xs) = (l ++ m) ++ x :: xs := by simp
  have hnext : Pos.Raw.next (ofList (l ++ (m ++ x :: xs))) ⟨utf8Len (l ++ m)⟩ =
      ⟨utf8Len (l ++ (m ++ [x]))⟩ := by
    rw [htext, next_behind]
    simp
  rw [scan_cons, if_neg hcd, hx, hnext, scan]
  simp

end

/-- What the loop returns beyond `acc` are the parts of the text behind `l`. The measure is the
loop's own: the text from the start of the match on, and what is left of `sep`. -/
theorem scan_splits (l m p : List Char) (d : Char) (q r : List Char) (acc : List String) :
    ∃ parts, SplitsTo (p ++ d :: q) m (p ++ r) parts ∧
      scan l m p (d :: q) r acc = acc.reverse ++ parts := by
  cases r with
  | nil =>
    refine ⟨[ofList (m ++ p)], ?_, scan_end ..⟩
    rw [SplitsTo, splitOnce_of_length_lt (by simp), List.append_nil]
  | cons c r =>
    by_cases hcd : c = d
    · subst hcd
      have htext : p ++ c :: r = (p ++ [c]) ++ r := by simp
      have hsep : p ++ c :: q = (p ++ [c]) ++ q := by simp
      rw [scan_cons, if_pos rfl, htext, hsep]
      cases q with
      | nil =>
        -- the separator is complete: cut, and go on behind it
        obtain ⟨e, es, he⟩ := List.exists_cons_of_ne_nil (List.concat_ne_nil c p)
        obtain ⟨parts, hparts, hrec⟩ :=
          scan_splits (l ++ (m ++ (p ++ [c]))) [] [] e es r (ofList m :: acc)
        obtain ⟨y, ys, rfl⟩ := hparts.ne_nil
        refine ⟨ofList m :: y :: ys, ?_, ?_⟩
        · rw [SplitsTo, List.append_nil, splitOnce_of_prefix (List.concat_ne_nil c p)]
          exact ⟨y, ys, by simp⟩
        · rw [← he] at hrec
          rw [if_pos rfl, hrec]
          simp
      | cons e q =>
        -- one more character is matched
        rw [if_neg (List.cons_ne_nil _ _)]
        exact scan_splits l m (p ++ [c]) e q r acc
    · obtain ⟨x, xs, hx⟩ := List.exists_cons_of_ne_nil
        (List.append_ne_nil_of_right_ne_nil p (List.cons_ne_nil c r))
      obtain ⟨e, es, he⟩ := List.exists_cons_of_ne_nil
        (List.append_ne_nil_of_right_ne_nil p (List.cons_ne_nil d q))
      have hlen : xs.length = p.length + r.length := by
        have := congrArg List.length hx
        simp at this
        omega
      have hno : ¬ p ++ d :: q <+: x :: xs := by
        rw [← hx, List.prefix_append_right_inj]
        exact fun h => hcd (List.cons_prefix_cons.mp h).1.symm
      obtain ⟨parts, hparts, hrec⟩ := scan_splits l (m ++ [x]) [] e es xs acc
      rw [← he] at hparts hrec
      rw [scan_restart l m p q r c d acc hcd hx, hx]
      exact ⟨parts, hparts.cons hno, hrec⟩
termination_by (p.length + r.length, q.length)
decreasing_by
  all_goals
    simp only [Prod.lex_def, List.length_append, List.length_cons, List.length_nil]
    omega

/-- **`splitOn` cuts at the first occurrence.** -/
theorem splitOn_splits {sep : List Char} (hsep : sep ≠ []) (s : List Char) :
    SplitsTo sep [] s (splitOn (ofList s) (ofList sep)) := by
  obtain ⟨d, q, rfl⟩ := List.exists_cons_of_ne_nil hsep
  obtain ⟨parts, hparts, h⟩ := scan_splits [] [] [] d q s []
  have hne : ¬ (ofList (d :: q) == "") = true := by simp
  rw [splitOn, if_neg hne]
  simp only [List.nil_append, List.reverse_nil] at h hparts
  rw [show splitOnAux (ofList s) (ofList (d :: q)) 0 0 0 [] = parts from h]
  exact hparts

/-- With an occurrence, the first part is what comes before it, and there is a second part. -/
theorem splitOn_of_splitOnce {sep s a b : List Char} (hsep : sep ≠ [])
    (h : splitOnce sep s = some (a, b)) :
    ∃ y ys, splitOn (ofList s) (ofList sep) = ofList a :: y :: ys := by
  have hs := splitOn_splits hsep s
  rw [SplitsTo, h] at hs
  exact hs

/-- Without one there is a single part. -/
theorem splitOn_of_splitOnce_none {sep s : List Char} (hsep : sep ≠ [])
    (h : splitOnce sep s = none) : splitOn (ofList s) (ofList sep) = [ofList s] := by
  have hs := splitOn_splits hsep s
  rw [SplitsTo, h] at hs
  exact hs

end NdnMobile.Lib
