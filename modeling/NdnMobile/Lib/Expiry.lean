import Mathlib.Data.List.Induction

/-!
# A cell that expires when it is read

What is put into a `Cell` is merged with what it holds. A read empties it first if the last
put is `ttl` or more ago, and nothing else does. So what a cell holds depends on the reads:
it is what the puts after some silence of `ttl` make of an empty cell (`exists_after`), and
a read at the end of a silence forgets the puts before it (`foldl_cut`).
-/

namespace NdnMobile.Lib

/-- How puts are merged, and what tells the time of the last one. -/
structure Cell (α β : Type) where
  put : Option α → Nat → β → α
  seen : α → Nat
  ttl : Nat
  seen_put : ∀ o t b, seen (put o t b) = t

/-- Events in the order of their times. -/
def Timed {γ : Type} (l : List (Nat × γ)) : Prop := l.Pairwise fun x y => x.1 ≤ y.1

theorem Timed.le_concat {γ : Type} {l : List (Nat × γ)} {x : Nat × γ} (h : Timed (l ++ [x])) :
    Timed l ∧ ∀ y ∈ l, y.1 ≤ x.1 := by
  obtain ⟨hl, -, hx⟩ := List.pairwise_append.mp h
  exact ⟨hl, fun y hy => hx y hy x (List.mem_singleton.mpr rfl)⟩

namespace Cell

variable {α β : Type} (c : Cell α β)

def read (o : Option α) (now : Nat) : Option α := o.filter fun a => now - c.seen a < c.ttl

/-- What an event does: a put, or a read. -/
def step (o : Option α) (x : Nat × Option β) : Option α :=
  match x.2 with
  | some b => some (c.put o x.1 b)
  | none => c.read o x.1

/-- What puts alone make of a cell. -/
def merged (o : Option α) (l : List (Nat × β)) : Option α :=
  l.foldl (fun o x => some (c.put o x.1 x.2)) o

/-- The puts among the events. -/
def puts (l : List (Nat × Option β)) : List (Nat × β) :=
  l.filterMap fun x => x.2.map fun b => (x.1, b)

/-- Puts as events. -/
def events (l : List (Nat × β)) : List (Nat × Option β) := l.map fun x => (x.1, some x.2)

variable {c} {o : Option α} {l before after : List (Nat × β)} {x : Nat × β} {now : Nat}

theorem merged_append : c.merged o (before ++ after) = c.merged (c.merged o before) after :=
  List.foldl_append

theorem merged_concat :
    c.merged o (l ++ [x]) = some (c.put (c.merged o l) x.1 x.2) := by
  rw [merged_append]
  rfl

theorem foldl_events : (events l).foldl c.step o = c.merged o l := by
  unfold events merged
  rw [List.foldl_map]
  rfl

/-- A read keeps a cell if the last put is recent. -/
theorem read_merged_concat : c.read (c.merged o (l ++ [x])) now =
    if now - x.1 < c.ttl then c.merged o (l ++ [x]) else none := by
  rw [merged_concat, read, Option.filter_some]
  simp only [c.seen_put, decide_eq_true_eq]

theorem puts_append {l l' : List (Nat × Option β)} : puts (l ++ l') = puts l ++ puts l' :=
  List.filterMap_append

theorem mem_puts {l : List (Nat × Option β)} (h : x ∈ puts l) : (x.1, some x.2) ∈ l := by
  obtain ⟨⟨t, b⟩, hm, hx⟩ := List.mem_filterMap.mp h
  obtain ⟨b, rfl, rfl⟩ := Option.map_eq_some_iff.mp hx
  exact hm

theorem timed_puts {l : List (Nat × Option β)} (h : Timed l) : Timed (puts l) := by
  refine List.Pairwise.filterMap _ (fun x y hxy b hb b' hb' => ?_) h
  obtain ⟨_, -, rfl⟩ := Option.map_eq_some_iff.mp hb
  obtain ⟨_, -, rfl⟩ := Option.map_eq_some_iff.mp hb'
  exact hxy

/-- A read forgets everything or nothing. -/
theorem read_merged (h : Timed after) (hnow : ∀ x ∈ after, x.1 ≤ now) :
    c.read (c.merged none after) now = c.merged none after ∨
    (c.read (c.merged none after) now = none ∧ ∀ x ∈ after, x.1 + c.ttl ≤ now) := by
  induction after using List.reverseRecOn with
  | nil => exact .inl rfl
  | append_singleton after y _ =>
    rw [read_merged_concat]
    by_cases hrecent : now - y.1 < c.ttl
    · exact .inl (if_pos hrecent)
    · refine .inr ⟨if_neg hrecent, fun x hx => ?_⟩
      have hy : y.1 ≤ now := hnow y List.mem_concat_self
      have hxy : x.1 ≤ y.1 := by
        rcases List.mem_append.mp hx with hx | hx
        · exact h.le_concat.2 x hx
        · exact Nat.le_of_eq (congrArg _ (List.mem_singleton.mp hx))
      omega

/-- **What a cell holds** is what the puts after a silence made of it: those before are `ttl` or
more earlier than each of these and than `now`. -/
theorem exists_after {l : List (Nat × Option β)} (h : Timed l) (now : Nat)
    (hnow : ∀ x ∈ l, x.1 ≤ now) : ∃ before after, puts l = before ++ after ∧
      l.foldl c.step none = c.merged none after ∧
      ∀ x ∈ before, x.1 + c.ttl ≤ now ∧ ∀ y ∈ after, x.1 + c.ttl ≤ y.1 := by
  induction l using List.reverseRecOn generalizing now with
  | nil => exact ⟨[], [], rfl, rfl, nofun⟩
  | append_singleton l z ih =>
    obtain ⟨hl, hz⟩ := h.le_concat
    have hle : z.1 ≤ now := hnow z List.mem_concat_self
    obtain ⟨before, after, hputs, hhold, hgap⟩ := ih hl z.1 hz
    have hkeep : ∀ x ∈ before, x.1 + c.ttl ≤ now ∧ ∀ y ∈ after, x.1 + c.ttl ≤ y.1 :=
      fun x hx => ⟨Nat.le_trans (hgap x hx).1 hle, (hgap x hx).2⟩
    obtain ⟨t, b⟩ := z
    rw [List.foldl_append, hhold, puts_append, hputs, List.foldl_cons, List.foldl_nil]
    cases b with
    | some b =>
      have hput : c.step (c.merged none after) (t, some b) = c.merged none (after ++ [(t, b)]) := by
        rw [merged_concat]
        rfl
      refine ⟨before, after ++ [(t, b)], List.append_assoc _ _ _, hput,
        fun x hx => ⟨(hkeep x hx).1, fun y hy => ?_⟩⟩
      rcases List.mem_append.mp hy with hy | hy
      · exact (hgap x hx).2 y hy
      · rw [List.mem_singleton.mp hy]
        exact (hgap x hx).1
    | none =>
      have hafter : ∀ x ∈ after, x.1 ≤ t := fun x hx =>
        hz _ (mem_puts (hputs ▸ List.mem_append_right before hx))
      have htimed : Timed after := (List.pairwise_append.mp (hputs ▸ timed_puts hl)).2.1
      rcases read_merged htimed hafter with hread | ⟨hread, hold⟩
      · exact ⟨before, after, List.append_nil _, hread, hkeep⟩
      · refine ⟨before ++ after, [], rfl, hread, fun x hx => ⟨?_, nofun⟩⟩
        rcases List.mem_append.mp hx with hx | hx
        · exact (hkeep x hx).1
        · exact Nat.le_trans (hold x hx) hle

/-- **A read at the end of a silence** forgets the puts before it. -/
theorem foldl_cut (h : ∀ x ∈ before, x.1 + c.ttl ≤ now) :
    (events before ++ (now, none) :: events after).foldl c.step none = c.merged none after := by
  rw [List.foldl_append, List.foldl_cons, foldl_events, foldl_events]
  show c.merged (c.read (c.merged none before) now) after = _
  induction before using List.reverseRecOn with
  | nil => rfl
  | append_singleton before x _ =>
    have hx := h x List.mem_concat_self
    rw [read_merged_concat, if_neg (by omega)]

end Cell

end NdnMobile.Lib
