import NdnMobile.Lib.Decimal

/-!
# JSON

JSON texts: a reader of the whole grammar, from characters to values, and a compact writer.
Numbers are exact, a mantissa and a power of ten; objects keep their members as they come.
The reader takes fuel, one unit for each value it goes into. It reads what the writer writes
(`parse_print`).
-/

namespace NdnMobile.Lib

inductive Json where
  | null
  | bool (b : Bool)
  /-- `m` times ten to the `e`. -/
  | num (m e : Int)
  | str (s : String)
  | arr (l : List Json)
  | obj (l : List (String × Json))

namespace Json

/-! ## Strings -/

def hexVal (c : Char) : Option Nat :=
  if c.isDigit then some (c.toNat - 48)
  else if 97 ≤ c.toNat ∧ c.toNat ≤ 102 then some (c.toNat - 87)
  else if 65 ≤ c.toNat ∧ c.toNat ≤ 70 then some (c.toNat - 55)
  else none

/-- Four hexadecimal digits. -/
def codeUnit : List Char → Option (Nat × List Char)
  | a :: b :: c :: d :: s =>
    match hexVal a, hexVal b, hexVal c, hexVal d with
    | some a, some b, some c, some d => some (((a * 16 + b) * 16 + c) * 16 + d, s)
    | _, _, _, _ => none
  | _ => none

/-- The second half of a surrogate pair. -/
def lowSurrogate (hi : Nat) : List Char → Option (Char × List Char)
  | b :: u :: s =>
    if b = '\\' ∧ u = 'u' ∧ hi < 0xDC00 then
      match codeUnit s with
      | none => none
      | some (lo, s) =>
        if 0xDC00 ≤ lo ∧ lo < 0xE000 then
          some (Char.ofNat (0x10000 + (hi - 0xD800) * 0x400 + (lo - 0xDC00)), s)
        else none
    else none
  | _ => none

def unicodeEscape (s : List Char) : Option (Char × List Char) :=
  match codeUnit s with
  | none => none
  | some (u, s) =>
    if 0xD800 ≤ u ∧ u < 0xE000 then lowSurrogate u s else some (Char.ofNat u, s)

/-- What one character after a backslash stands for. -/
def simpleEscape (c : Char) : Option Char :=
  if c = '"' ∨ c = '\\' ∨ c = '/' then some c
  else if c = 'b' then some (Char.ofNat 8)
  else if c = 'f' then some (Char.ofNat 12)
  else if c = 'n' then some '\n'
  else if c = 'r' then some '\r'
  else if c = 't' then some '\t'
  else none

/-- An escape, after its backslash. -/
def escape : List Char → Option (Char × List Char)
  | [] => none
  | c :: s => if c = 'u' then unicodeEscape s else (simpleEscape c).map fun e => (e, s)

/-- One character of a string. -/
def strChar (c : Char) (s : List Char) : Option (Char × List Char) :=
  if c = '\\' then escape s
  else if c.toNat < 0x20 then none
  else some (c, s)

/-- A string after its opening quote. -/
def strBody : Nat → List Char → Option (List Char × List Char)
  | 0, _ => none
  | _ + 1, [] => none
  | fuel + 1, c :: s =>
    if c = '"' then some ([], s)
    else
      match strChar c s with
      | none => none
      | some (c, s) => (strBody fuel s).map fun r => (c :: r.1, r.2)

/-! ## Numbers -/

def signed (neg : Bool) (n : Nat) : Int := if neg then -(n : Int) else n

/-- An optional minus. -/
def minus : List Char → Bool × List Char
  | [] => (false, [])
  | c :: s => if c = '-' then (true, s) else (false, c :: s)

/-- An optional sign. -/
def sign : List Char → Bool × List Char
  | [] => (false, [])
  | c :: s => if c = '-' then (true, s) else if c = '+' then (false, s) else (false, c :: s)

/-- Digits, at least one. -/
def digits (s : List Char) : Option (List Char × List Char) :=
  if takeDigits s = [] then none else some (takeDigits s, dropDigits s)

/-- Digits without a leading zero. -/
def intPart (s : List Char) : Option (List Char × List Char) :=
  match digits s with
  | none => none
  | some (ds, s) => if ds.head? = some '0' ∧ ds.length ≠ 1 then none else some (ds, s)

def fracPart : List Char → Option (List Char × List Char)
  | [] => some ([], [])
  | c :: s => if c = '.' then digits s else some ([], c :: s)

def expPart : List Char → Option (Int × List Char)
  | [] => some (0, [])
  | c :: s =>
    if c = 'e' ∨ c = 'E' then
      (digits (sign s).2).map fun r => (signed (sign s).1 (decVal r.1), r.2)
    else some (0, c :: s)

def number (s : List Char) : Option (Json × List Char) :=
  match intPart (minus s).2 with
  | none => none
  | some (i, s') =>
    match fracPart s' with
    | none => none
    | some (f, s') =>
      (expPart s').map fun r =>
        (.num (signed (minus s).1 (decVal (i ++ f))) (r.1 - f.length), r.2)

/-! ## Values -/

def isWs (c : Char) : Bool := c == ' ' || c == '\t' || c == '\n' || c == '\r'

def skipWs (s : List Char) : List Char := s.dropWhile isWs

/-- The rest of a text that goes on with a given one. -/
def keyword (word s : List Char) : Option (List Char) :=
  if word.isPrefixOf s then some (s.drop word.length) else none

/-- The next character, after whitespace. -/
def next (s : List Char) : Option (Char × List Char) :=
  match skipWs s with
  | [] => none
  | c :: s => some (c, s)

def string (s : List Char) : Option (String × List Char) :=
  (strBody s.length s).map fun r => (String.ofList r.1, r.2)

mutual

/-- A value that begins here. -/
def value : Nat → List Char → Option (Json × List Char)
  | 0, _ => none
  | _ + 1, [] => none
  | fuel + 1, c :: s =>
    if c = '[' then
      match next s with
      | none => none
      | some (d, s') =>
        if d = ']' then some (.arr [], s')
        else (elements fuel (d :: s')).map fun r => (.arr r.1, r.2)
    else if c = '\x7b' then
      match next s with
      | none => none
      | some (d, s') =>
        if d = '\x7d' then some (.obj [], s')
        else (members fuel (d :: s')).map fun r => (.obj r.1, r.2)
    else if c = '"' then (string s).map fun r => (.str r.1, r.2)
    else if c = 'n' then (keyword ['u', 'l', 'l'] s).map fun s => (.null, s)
    else if c = 't' then (keyword ['r', 'u', 'e'] s).map fun s => (.bool true, s)
    else if c = 'f' then (keyword ['a', 'l', 's', 'e'] s).map fun s => (.bool false, s)
    else number (c :: s)

/-- The values of an array, from one on, and its bracket. -/
def elements : Nat → List Char → Option (List Json × List Char)
  | 0, _ => none
  | fuel + 1, s =>
    match value fuel s with
    | none => none
    | some (v, s) =>
      match next s with
      | none => none
      | some (d, s) =>
        if d = ',' then (elements fuel (skipWs s)).map fun r => (v :: r.1, r.2)
        else if d = ']' then some ([v], s)
        else none

/-- The members of an object, from one on, and its brace. -/
def members : Nat → List Char → Option (List (String × Json) × List Char)
  | 0, _ => none
  | _ + 1, [] => none
  | fuel + 1, q :: s =>
    if q = '"' then
      match string s with
      | none => none
      | some (k, s) =>
        match next s with
        | none => none
        | some (d, s) =>
          if d = ':' then
            match value fuel (skipWs s) with
            | none => none
            | some (v, s) =>
              match next s with
              | none => none
              | some (d, s) =>
                if d = ',' then (members fuel (skipWs s)).map fun r => ((k, v) :: r.1, r.2)
                else if d = '\x7d' then some ([(k, v)], s)
                else none
          else none
    else none

end

/-- **The reader**: one value and nothing else but whitespace around it. -/
def parse (text : String) : Option Json :=
  match value (text.toList.length + 1) (skipWs text.toList) with
  | none => none
  | some (v, rest) => if skipWs rest = [] then some v else none

/-! ## The writer -/

/-- A control character as four hexadecimal digits. -/
def controlEscape (c : Char) : List Char :=
  ['\\', 'u', '0', '0', Nat.digitChar (c.toNat / 16), Nat.digitChar (c.toNat % 16)]

def escapeChar (c : Char) : List Char :=
  if c = '"' then ['\\', '"']
  else if c = '\\' then ['\\', '\\']
  else if c = '\n' then ['\\', 'n']
  else if c = '\r' then ['\\', 'r']
  else if c = '\t' then ['\\', 't']
  else if c.toNat < 0x20 then controlEscape c
  else [c]

def quote (s : String) : List Char := '"' :: s.toList.flatMap escapeChar ++ ['"']

def intText : Int → List Char
  | .ofNat n => Nat.toDigits 10 n
  | .negSucc n => '-' :: Nat.toDigits 10 (n + 1)

mutual

def print : Json → List Char
  | .null => ['n', 'u', 'l', 'l']
  | .bool true => ['t', 'r', 'u', 'e']
  | .bool false => ['f', 'a', 'l', 's', 'e']
  | .num m e => intText m ++ if e = 0 then [] else 'e' :: intText e
  | .str s => quote s
  | .arr l => '[' :: printElements l ++ [']']
  | .obj l => '\x7b' :: printMembers l ++ ['\x7d']

def printElements : List Json → List Char
  | [] => []
  | [v] => print v
  | v :: w :: vs => print v ++ ',' :: printElements (w :: vs)

def printMembers : List (String × Json) → List Char
  | [] => []
  | [(k, v)] => quote k ++ ':' :: print v
  | (k, v) :: w :: ms => quote k ++ ':' :: print v ++ ',' :: printMembers (w :: ms)

end

/-! ## Strings are read back -/

theorem hexVal_digitChar {n : Nat} (h : n < 16) : hexVal (Nat.digitChar n) = some n := by
  have hall : ∀ n < 16, hexVal (Nat.digitChar n) = some n := by decide
  exact hall n h

theorem strChar_control {c : Char} (h : c.toNat < 0x20) (s : List Char) :
    strChar '\\' ((controlEscape c).tail ++ s) = some (c, s) := by
  have hzero : hexVal '0' = some 0 := by decide
  have hval : ((0 * 16 + 0) * 16 + c.toNat / 16) * 16 + c.toNat % 16 = c.toNat := by omega
  have hunit : codeUnit ('0' :: '0' :: Nat.digitChar (c.toNat / 16) ::
      Nat.digitChar (c.toNat % 16) :: s) = some (c.toNat, s) := by
    unfold codeUnit
    dsimp only
    rw [hzero, hexVal_digitChar (by omega), hexVal_digitChar (by omega)]
    dsimp only
    rw [hval]
  have hesc : unicodeEscape ('0' :: '0' :: Nat.digitChar (c.toNat / 16) ::
      Nat.digitChar (c.toNat % 16) :: s) = some (c, s) := by
    unfold unicodeEscape
    rw [hunit]
    dsimp only
    rw [if_neg (by omega), Char.ofNat_toNat]
  exact hesc

/-- The text of a character reads as that character. -/
theorem strBody_escapeChar (c : Char) (fuel : Nat) (s : List Char) :
    strBody (fuel + 1) (escapeChar c ++ s) =
      (strBody fuel s).map fun r => (c :: r.1, r.2) := by
  unfold escapeChar
  split
  · rename_i h
    subst h
    rfl
  split
  · rename_i h
    subst h
    rfl
  split
  · rename_i h
    subst h
    rfl
  split
  · rename_i h
    subst h
    rfl
  split
  · rename_i h
    subst h
    rfl
  split
  · rename_i h
    rw [show controlEscape c ++ s = '\\' :: ((controlEscape c).tail ++ s) from rfl, strBody,
      if_neg (by decide), strChar_control h]
  · rename_i hquote hback _ _ _ hctl
    rw [List.singleton_append, strBody, if_neg hquote, strChar, if_neg hback, if_neg hctl]

theorem strBody_quote (l : List Char) {fuel : Nat} (hf : l.length < fuel) (rest : List Char) :
    strBody fuel (l.flatMap escapeChar ++ '"' :: rest) = some (l, rest) := by
  induction l generalizing fuel with
  | nil =>
    obtain ⟨fuel, rfl⟩ : ∃ k, fuel = k + 1 := ⟨fuel - 1, by rw [List.length_nil] at hf; omega⟩
    rfl
  | cons c l ih =>
    rw [List.length_cons] at hf
    obtain ⟨fuel, rfl⟩ : ∃ k, fuel = k + 1 := ⟨fuel - 1, by omega⟩
    rw [List.flatMap_cons, List.append_assoc, strBody_escapeChar, ih (Nat.lt_of_succ_lt_succ hf)]
    rfl

theorem length_escapeChar (c : Char) : 1 ≤ (escapeChar c).length := by
  unfold escapeChar controlEscape
  repeat' split
  all_goals simp

theorem length_flatMap_escapeChar (l : List Char) :
    l.length ≤ (l.flatMap escapeChar).length := by
  induction l with
  | nil => exact Nat.le_refl _
  | cons c l ih =>
    rw [List.flatMap_cons, List.length_append, List.length_cons]
    have hc := length_escapeChar c
    omega

theorem string_quote (s : String) (rest : List Char) :
    string (s.toList.flatMap escapeChar ++ '"' :: rest) = some (s, rest) := by
  unfold string
  have hlen := length_flatMap_escapeChar s.toList
  rw [strBody_quote _ (by rw [List.length_append, List.length_cons]; omega)]
  dsimp only [Option.map_some]
  rw [String.ofList_toList]

theorem quote_append (s : String) (rest : List Char) :
    quote s ++ rest = '"' :: (s.toList.flatMap escapeChar ++ '"' :: rest) := by
  unfold quote
  rw [List.append_assoc]
  rfl

/-! ## Numbers are read back -/

/-- A text that does not go on with more of a number. -/
structure EndsNumber (rest : List Char) : Prop where
  digits : EndsDigits rest
  other : ∀ c, rest.head? = some c → c ≠ '.' ∧ c ≠ 'e' ∧ c ≠ 'E'

theorem endsNumber_nil : EndsNumber [] := ⟨endsDigits_nil, nofun⟩

theorem endsNumber_cons {c : Char} (h : c = ',' ∨ c = ']' ∨ c = '\x7d') (rest : List Char) :
    EndsNumber (c :: rest) := by
  constructor
  · refine endsDigits_cons ?_ rest
    rcases h with rfl | rfl | rfl <;> decide
  · intro d hd
    cases hd
    rcases h with rfl | rfl | rfl <;> decide

theorem intText_eq (m : Int) :
    intText m = (if m < 0 then ['-'] else []) ++ Nat.toDigits 10 m.natAbs := by
  cases m with
  | ofNat n =>
    have hnot : ¬ Int.ofNat n < 0 := Int.not_lt.mpr (Int.natCast_nonneg n)
    rw [if_neg hnot]
    rfl
  | negSucc n =>
    rw [if_pos (Int.negSucc_lt_zero n)]
    rfl

theorem signed_natAbs (m : Int) : signed (decide (m < 0)) m.natAbs = m := by
  unfold signed
  by_cases h : m < 0
  · rw [if_pos (by simpa using h)]
    omega
  · rw [if_neg (by simpa using h)]
    omega

/-- The digits of a number begin with a digit. -/
theorem toDigits_cons (n : Nat) : ∃ c ds, Nat.toDigits 10 n = c :: ds ∧ c.isDigit = true := by
  obtain ⟨c, ds, h⟩ := List.exists_cons_of_ne_nil (Nat.toDigits_ne_nil (n := n) (b := 10))
  exact ⟨c, ds, h, isDigit_of_mem_toDigits (h ▸ List.mem_cons_self)⟩

theorem minus_intText (m : Int) (rest : List Char) :
    minus (intText m ++ rest) = (decide (m < 0), Nat.toDigits 10 m.natAbs ++ rest) := by
  rw [intText_eq]
  by_cases h : m < 0
  · rw [if_pos h, decide_eq_true h]
    rfl
  · rw [if_neg h, decide_eq_false h, List.nil_append]
    obtain ⟨c, ds, hds, hc⟩ := toDigits_cons m.natAbs
    rw [hds, List.cons_append, minus, if_neg (by rintro rfl; exact absurd hc (by decide))]

theorem sign_intText (m : Int) (rest : List Char) :
    sign (intText m ++ rest) = (decide (m < 0), Nat.toDigits 10 m.natAbs ++ rest) := by
  rw [intText_eq]
  by_cases h : m < 0
  · rw [if_pos h, decide_eq_true h]
    rfl
  · rw [if_neg h, decide_eq_false h, List.nil_append]
    obtain ⟨c, ds, hds, hc⟩ := toDigits_cons m.natAbs
    rw [hds, List.cons_append, sign, if_neg (by rintro rfl; exact absurd hc (by decide)),
      if_neg (by rintro rfl; exact absurd hc (by decide))]

theorem digits_toDigits (n : Nat) {rest : List Char} (hr : EndsDigits rest) :
    digits (Nat.toDigits 10 n ++ rest) = some (Nat.toDigits 10 n, rest) := by
  have hd : ∀ c ∈ Nat.toDigits 10 n, c.isDigit = true := fun _ => isDigit_of_mem_toDigits
  unfold digits
  rw [takeDigits_append hd hr, dropDigits_append hd hr, if_neg Nat.toDigits_ne_nil]

theorem intPart_toDigits (n : Nat) {rest : List Char} (hr : EndsDigits rest) :
    intPart (Nat.toDigits 10 n ++ rest) = some (Nat.toDigits 10 n, rest) := by
  unfold intPart
  rw [digits_toDigits n hr]
  refine if_neg fun h => h.2 ?_
  rw [head_toDigits h.1]
  rfl

theorem expPart_intText (e : Int) {rest : List Char} (hr : EndsDigits rest) :
    expPart ('e' :: (intText e ++ rest)) = some (e, rest) := by
  unfold expPart
  dsimp only
  rw [if_pos (.inl rfl), sign_intText]
  dsimp only
  rw [digits_toDigits _ hr, Option.map_some, decVal_toDigits, signed_natAbs]

theorem number_print (m e : Int) {rest : List Char} (hr : EndsNumber rest) :
    number (print (.num m e) ++ rest) = some (.num m e, rest) := by
  have hsign : signed (decide (m < 0)) (decVal (Nat.toDigits 10 m.natAbs ++ [])) = m := by
    rw [List.append_nil, decVal_toDigits, signed_natAbs]
  rw [print, List.append_assoc, number, minus_intText]
  dsimp only
  by_cases he : e = 0
  · subst he
    rw [if_pos rfl, List.nil_append, intPart_toDigits _ hr.digits]
    cases rest with
    | nil =>
      dsimp only [fracPart, expPart, Option.map_some]
      rw [hsign]
      rfl
    | cons c rest =>
      obtain ⟨hdot, he, hE⟩ := hr.other c rfl
      dsimp only [fracPart]
      rw [if_neg hdot]
      dsimp only [expPart]
      rw [if_neg (not_or.mpr ⟨he, hE⟩), Option.map_some, hsign]
      rfl
  · have hends : EndsDigits ('e' :: (intText e ++ rest)) := endsDigits_cons (by decide) _
    rw [if_neg he, List.cons_append, intPart_toDigits _ hends]
    dsimp only [fracPart]
    rw [if_neg (by decide)]
    dsimp only
    rw [expPart_intText e hr.digits, Option.map_some, hsign, List.length_nil]
    rw [show e - ((0 : Nat) : Int) = e from Int.sub_zero e]

/-! ## Values are read back -/

theorem skipWs_cons {c : Char} (h : isWs c = false) (s : List Char) : skipWs (c :: s) = c :: s :=
  List.dropWhile_cons_of_neg (by rw [h]; exact Bool.false_ne_true)

theorem next_cons {c : Char} (h : isWs c = false) (s : List Char) :
    next (c :: s) = some (c, s) := by
  unfold next
  rw [skipWs_cons h]

theorem keyword_append (word s : List Char) : keyword word (word ++ s) = some s := by
  unfold keyword
  rw [if_pos (List.isPrefixOf_iff_prefix.mpr (List.prefix_append word s)), List.drop_left]

/-- The text of a number begins with a minus or a digit. -/
theorem number_cons (m e : Int) : ∃ c s, print (.num m e) = c :: s ∧
    (c = '-' ∨ c.isDigit = true) := by
  rw [print, intText_eq]
  by_cases h : m < 0
  · rw [if_pos h]
    exact ⟨'-', _, rfl, .inl rfl⟩
  · rw [if_neg h]
    obtain ⟨c, ds, hds, hc⟩ := toDigits_cons m.natAbs
    rw [hds]
    exact ⟨c, _, rfl, .inr hc⟩

theorem ne_of_isDigit {c d : Char} (h : c = '-' ∨ c.isDigit = true) (hd : d ≠ '-')
    (hdigit : d.isDigit = false) : c ≠ d := by
  rintro rfl
  rcases h with h | h
  · exact hd h
  · rw [hdigit] at h
    cases h

theorem print_cons (j : Json) :
    ∃ c s, print j = c :: s ∧ isWs c = false ∧ c ≠ ']' ∧ c ≠ '\x7d' := by
  cases j with
  | null => exact ⟨'n', ['u', 'l', 'l'], by rw [print], by decide⟩
  | bool b =>
    cases b with
    | true => exact ⟨'t', ['r', 'u', 'e'], by rw [print], by decide⟩
    | false => exact ⟨'f', ['a', 'l', 's', 'e'], by rw [print], by decide⟩
  | num m e =>
    obtain ⟨c, s, hc, hd⟩ := number_cons m e
    have hne : ∀ d : Char, d ≠ '-' → d.isDigit = false → c ≠ d := fun d => ne_of_isDigit hd
    refine ⟨c, s, hc, ?_, hne ']' (by decide) (by decide), hne '\x7d' (by decide) (by decide)⟩
    unfold isWs
    simp only [Bool.or_eq_false_iff, beq_eq_false_iff_ne]
    exact ⟨⟨⟨hne ' ' (by decide) (by decide), hne '\t' (by decide) (by decide)⟩,
      hne '\n' (by decide) (by decide)⟩, hne '\r' (by decide) (by decide)⟩
  | str s => exact ⟨'"', s.toList.flatMap escapeChar ++ ['"'], by rw [print]; rfl, by decide⟩
  | arr l => exact ⟨'[', printElements l ++ [']'], by rw [print]; rfl, by decide⟩
  | obj l => exact ⟨'\x7b', printMembers l ++ ['\x7d'], by rw [print]; rfl, by decide⟩

theorem skipWs_print (j : Json) (rest : List Char) :
    skipWs (print j ++ rest) = print j ++ rest := by
  obtain ⟨c, s, hc, hws, -⟩ := print_cons j
  rw [hc, List.cons_append, skipWs_cons hws]

/-- A value after an opening bracket is not its closing. -/
theorem next_print (j : Json) (rest : List Char) : ∃ c s, print j ++ rest = c :: s ∧
    next (print j ++ rest) = some (c, s) ∧ c ≠ ']' := by
  obtain ⟨c, s, hc, hws, hb, -⟩ := print_cons j
  refine ⟨c, s ++ rest, by rw [hc]; rfl, ?_, hb⟩
  rw [hc, List.cons_append, next_cons hws]

/-- The scalar values. -/
theorem value_number (m e : Int) {fuel : Nat} {rest : List Char} (hr : EndsNumber rest) :
    value (fuel + 1) (print (.num m e) ++ rest) = some (.num m e, rest) := by
  have hnum := number_print m e hr
  obtain ⟨c, s, hc, hd⟩ := number_cons m e
  have hne : ∀ d : Char, d ≠ '-' → d.isDigit = false → c ≠ d := fun d => ne_of_isDigit hd
  rw [hc, List.cons_append] at hnum ⊢
  rw [value, if_neg (hne _ (by decide) (by decide)), if_neg (hne _ (by decide) (by decide)),
    if_neg (hne _ (by decide) (by decide)), if_neg (hne _ (by decide) (by decide)),
    if_neg (hne _ (by decide) (by decide)), if_neg (hne _ (by decide) (by decide))]
  exact hnum

theorem value_string (s : String) (fuel : Nat) (rest : List Char) :
    value (fuel + 1) (quote s ++ rest) = some (.str s, rest) := by
  rw [quote_append, value, if_neg (by decide), if_neg (by decide), if_pos rfl, string_quote]
  rfl

theorem length_print_pos (j : Json) : 1 ≤ (print j).length := by
  obtain ⟨c, s, hc, -⟩ := print_cons j
  rw [hc, List.length_cons]
  exact Nat.le_add_left _ _

theorem printElements_cons (v : Json) (vs : List Json) :
    ∃ t, printElements (v :: vs) = print v ++ t := by
  cases vs with
  | nil => exact ⟨[], by rw [printElements, List.append_nil]⟩
  | cons w vs => exact ⟨_, by rw [printElements]⟩

theorem printMembers_cons (k : String) (v : Json) (ms : List (String × Json)) :
    ∃ t, printMembers ((k, v) :: ms) = '"' :: t := by
  cases ms with
  | nil => exact ⟨_, by rw [printMembers, quote_append]⟩
  | cons w ms => exact ⟨_, by rw [printMembers, List.append_assoc, quote_append]⟩

mutual

/-- **A printed value reads back**, given a unit of fuel for each of its characters. -/
theorem value_print (j : Json) (fuel : Nat) (rest : List Char) (hf : (print j).length ≤ fuel)
    (hr : EndsNumber rest) : value fuel (print j ++ rest) = some (j, rest) := by
  have hpos := length_print_pos j
  obtain ⟨fuel, rfl⟩ : ∃ k, fuel = k + 1 := ⟨fuel - 1, by omega⟩
  match j with
  | .null => rw [print]; exact congrArg (Option.map _) (keyword_append ['u', 'l', 'l'] rest)
  | .bool true => rw [print]; exact congrArg (Option.map _) (keyword_append ['r', 'u', 'e'] rest)
  | .bool false =>
    rw [print]; exact congrArg (Option.map _) (keyword_append ['a', 'l', 's', 'e'] rest)
  | .num m e => exact value_number m e hr
  | .str s => rw [print]; exact value_string s fuel rest
  | .arr [] => rw [print, printElements]; rfl
  | .arr (v :: vs) =>
    rw [print, List.length_append, List.length_cons, List.length_singleton] at hf
    obtain ⟨t, ht⟩ := printElements_cons v vs
    obtain ⟨c, s, hcons, hnext, hc⟩ := next_print v (t ++ ']' :: rest)
    have helems := elements_print (v :: vs) (List.cons_ne_nil _ _) fuel rest (by omega)
    rw [ht, List.append_assoc, hcons] at helems
    rw [print, List.append_assoc, List.cons_append, List.singleton_append, ht, List.append_assoc,
      value, if_pos rfl, hnext]
    dsimp only
    rw [if_neg hc, helems]
    rfl
  | .obj [] => rw [print, printMembers]; rfl
  | .obj ((k, v) :: ms) =>
    rw [print, List.length_append, List.length_cons, List.length_singleton] at hf
    obtain ⟨t, ht⟩ := printMembers_cons k v ms
    have hmems := members_print ((k, v) :: ms) (List.cons_ne_nil _ _) fuel rest (by omega)
    rw [ht, List.cons_append] at hmems
    rw [print, List.append_assoc, List.cons_append, List.singleton_append, ht, List.cons_append,
      value, if_neg (by decide), if_pos rfl, next_cons (by decide)]
    dsimp only
    rw [if_neg (by decide), hmems]
    rfl

theorem elements_print (l : List Json) (hl : l ≠ []) (fuel : Nat) (rest : List Char)
    (hf : (printElements l).length < fuel) :
    elements fuel (printElements l ++ ']' :: rest) = some (l, rest) := by
  obtain ⟨fuel, rfl⟩ : ∃ k, fuel = k + 1 := ⟨fuel - 1, by omega⟩
  match l with
  | [] => exact absurd rfl hl
  | [v] =>
    rw [printElements] at hf ⊢
    have hv := value_print v fuel (']' :: rest) (by omega) (endsNumber_cons (.inr (.inl rfl)) _)
    rw [elements, hv]
    dsimp only
    rw [next_cons (by decide)]
    dsimp only
    rw [if_neg (by decide), if_pos rfl]
  | v :: w :: vs =>
    rw [printElements, List.length_append, List.length_cons] at hf
    have hpos := length_print_pos v
    have hv := value_print v fuel (',' :: (printElements (w :: vs) ++ ']' :: rest)) (by omega)
      (endsNumber_cons (.inl rfl) _)
    have hvs := elements_print (w :: vs) (List.cons_ne_nil _ _) fuel rest (by omega)
    obtain ⟨t, ht⟩ := printElements_cons w vs
    have hskip : skipWs (printElements (w :: vs) ++ ']' :: rest) =
        printElements (w :: vs) ++ ']' :: rest := by
      rw [ht, List.append_assoc, skipWs_print]
    rw [printElements, List.append_assoc, List.cons_append, elements, hv]
    dsimp only
    rw [next_cons (by decide)]
    dsimp only
    rw [if_pos rfl, hskip, hvs]
    rfl

theorem members_print (l : List (String × Json)) (hl : l ≠ []) (fuel : Nat) (rest : List Char)
    (hf : (printMembers l).length < fuel) :
    members fuel (printMembers l ++ '\x7d' :: rest) = some (l, rest) := by
  obtain ⟨fuel, rfl⟩ : ∃ k, fuel = k + 1 := ⟨fuel - 1, by omega⟩
  match l with
  | [] => exact absurd rfl hl
  | [(k, v)] =>
    rw [printMembers, List.length_append, List.length_cons] at hf
    have hv := value_print v fuel ('\x7d' :: rest) (by omega)
      (endsNumber_cons (.inr (.inr rfl)) _)
    rw [printMembers, List.append_assoc, quote_append, List.cons_append, members, if_pos rfl,
      string_quote]
    dsimp only
    rw [next_cons (by decide)]
    dsimp only
    rw [if_pos rfl, skipWs_print, hv]
    dsimp only
    rw [next_cons (by decide)]
    dsimp only
    rw [if_neg (by decide), if_pos rfl]
  | (k, v) :: w :: ms =>
    rw [printMembers, List.length_append, List.length_append, List.length_cons,
      List.length_cons] at hf
    have hv := value_print v fuel (',' :: (printMembers (w :: ms) ++ '\x7d' :: rest)) (by omega)
      (endsNumber_cons (.inl rfl) _)
    have hms := members_print (w :: ms) (List.cons_ne_nil _ _) fuel rest (by omega)
    obtain ⟨t, ht⟩ := printMembers_cons w.1 w.2 ms
    have hskip : skipWs (printMembers (w :: ms) ++ '\x7d' :: rest) =
        printMembers (w :: ms) ++ '\x7d' :: rest := by
      rw [ht, List.cons_append, skipWs_cons (by decide)]
    rw [printMembers, List.append_assoc, List.append_assoc, quote_append, List.cons_append,
      List.cons_append, members, if_pos rfl, string_quote]
    dsimp only
    rw [next_cons (by decide)]
    dsimp only
    rw [if_pos rfl, skipWs_print, hv]
    dsimp only
    rw [next_cons (by decide)]
    dsimp only
    rw [if_pos rfl, hskip, hms]
    rfl

end

/-- **The reader reads what the writer writes.** -/
theorem parse_print (j : Json) : parse (String.ofList j.print) = some j := by
  unfold parse
  have hskip := skipWs_print j []
  have hvalue := value_print j (j.print.length + 1) [] (Nat.le_succ _) endsNumber_nil
  rw [List.append_nil] at hskip hvalue
  rw [String.toList_ofList, hskip, hvalue]
  rfl

end Json

end NdnMobile.Lib
