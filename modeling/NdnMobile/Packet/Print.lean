import NdnMobile.Lib.Split
import NdnMobile.Packet.Uri

/-!
# Printing names

`UriText` is what a printer and a reader of names agree on: a component prints without a
slash, a name as its components behind a slash each, and a printed name reads back.
`UriText.typed` is such a pair, with percent escapes, `...` for an empty component and the
number of any type but the ordinary one in front.
-/

namespace NdnMobile.Packet

open NdnMobile.Lib

/-- Components behind a slash each. -/
def slashed (text : Component → List Char) (name : Name) : List Char :=
  name.flatMap fun c => '/' :: text c

structure UriText (parse : String → Option Name) (print : Name → String) where
  text : Component → List Char
  slash_notMem : ∀ c, '/' ∉ text c
  print_eq : ∀ name, name ≠ [] → print name = String.ofList (slashed text name)
  parse_print : ∀ name, parse (print name) = some name

variable {text : Component → List Char}

@[simp] theorem slashed_nil : slashed text [] = [] := rfl

@[simp] theorem slashed_cons (c : Component) (name : Name) :
    slashed text (c :: name) = '/' :: (text c ++ slashed text name) := rfl

@[simp] theorem slashed_append (a b : Name) :
    slashed text (a ++ b) = slashed text a ++ slashed text b := List.flatMap_append

theorem UriText.text_inj {parse : String → Option Name} {print : Name → String}
    (U : UriText parse print) {c d : Component} (h : U.text c = U.text d) : c = d := by
  have hprint : print [c] = print [d] := by
    rw [U.print_eq [c] (by simp), U.print_eq [d] (by simp)]
    simp [h]
  have hparse := congrArg parse hprint
  rw [U.parse_print, U.parse_print] at hparse
  simpa using hparse

/-! ## Reading the pieces back -/

theorem pieces_of_notMem {cs : List Char} (h : '/' ∉ cs) : pieces cs = [cs] := by
  induction cs with
  | nil => rfl
  | cons c cs ih =>
    rw [List.mem_cons, not_or] at h
    rw [pieces, if_neg (Ne.symm h.1), ih h.2]

theorem pieces_slashed (hslash : ∀ c, '/' ∉ text c) (name : Name) :
    pieces (slashed text name) = [] :: name.map text := by
  induction name with
  | nil => rfl
  | cons c name ih =>
    rw [slashed_cons, pieces_cons_slash, List.map_cons]
    refine congrArg _ ?_
    cases name with
    | nil => simpa using pieces_of_notMem (hslash c)
    | cons d name =>
      rw [slashed_cons, pieces_slash, pieces_of_notMem (hslash c)]
      rw [slashed_cons, pieces_cons_slash] at ih
      rw [List.singleton_append, (List.cons.inj ih).2]

/-- A name whose components print and read back piece by piece reads back. -/
theorem parse_slashed {U : UriSyntax} (hempty : U.piece [] = some [])
    (hslash : ∀ c, '/' ∉ text c) (hread : ∀ c, U.piece (text c) = some [c]) (name : Name) :
    U.parse (String.ofList (slashed text name)) = some name := by
  have hpieces : (name.map text).mapM U.piece = some (name.map fun c => [c]) := by
    induction name with
    | nil => rfl
    | cons c name ih => simp [hread, ih]
  rw [UriSyntax.parse, String.toList_ofList, pieces_slashed hslash]
  have hflat : (name.map fun c => [c]).flatten = name := by
    rw [← List.flatMap_def, List.flatMap_singleton']
  simp [hempty, hpieces, hflat]

/-! ## Escapes -/

def hexDigit (n : Nat) : Char := if n < 10 then Char.ofNat (48 + n) else Char.ofNat (55 + n)

/-- Letters and digits. -/
def Plain (n : Nat) : Prop := 48 ≤ n ∧ n ≤ 57 ∨ 65 ≤ n ∧ n ≤ 90 ∨ 97 ≤ n ∧ n ≤ 122

instance (n : Nat) : Decidable (Plain n) := inferInstanceAs (Decidable (_ ∨ _))

def escapeByte (b : UInt8) : List Char :=
  if Plain b.toNat then [Char.ofNat b.toNat]
  else ['%', hexDigit (b.toNat / 16), hexDigit (b.toNat % 16)]

def escape (bs : Bytes) : List Char := bs.flatMap escapeByte

theorem hexVal_hexDigit {n : Nat} (h : n < 16) : hexVal (hexDigit n) = some n := by
  have hall : ∀ n < 16, hexVal (hexDigit n) = some n := by decide
  exact hall n h

/-- The signs a printed name is built with. -/
def Reserved (c : Char) : Prop := c = '/' ∨ c = '=' ∨ c = '.'

theorem plain_spec {n : Nat} (h : Plain n) : ¬ Reserved (Char.ofNat n) ∧ Char.ofNat n ≠ '%' ∧
    String.utf8EncodeChar (Char.ofNat n) = [UInt8.ofNat n] := by
  have hall : ∀ n < 123, Plain n →
      ¬ (Char.ofNat n = '/' ∨ Char.ofNat n = '=' ∨ Char.ofNat n = '.') ∧ Char.ofNat n ≠ '%' ∧
        String.utf8EncodeChar (Char.ofNat n) = [UInt8.ofNat n] := by decide
  exact hall n (by unfold Plain at h; omega) h

theorem hexDigit_not_reserved {n : Nat} (h : n < 16) : ¬ Reserved (hexDigit n) := by
  have hall : ∀ n < 16, ¬ (hexDigit n = '/' ∨ hexDigit n = '=' ∨ hexDigit n = '.') := by decide
  exact hall n h

theorem escapeByte_not_reserved {b : UInt8} {c : Char} (h : c ∈ escapeByte b) : ¬ Reserved c := by
  have hb := b.toNat_lt
  unfold escapeByte at h
  split at h
  · rename_i hp
    rw [List.mem_singleton] at h
    subst h
    exact (plain_spec hp).1
  · simp only [List.mem_cons, List.not_mem_nil, or_false] at h
    rcases h with rfl | rfl | rfl
    · simp [Reserved]
    · exact hexDigit_not_reserved (by omega)
    · exact hexDigit_not_reserved (by omega)

theorem escape_not_reserved {bs : Bytes} {c : Char} (h : c ∈ escape bs) : ¬ Reserved c := by
  obtain ⟨b, -, hc⟩ := List.mem_flatMap.mp h
  exact escapeByte_not_reserved hc

theorem percentDecode_cons {c : Char} (hc : c ≠ '%') (cs : List Char) :
    percentDecode (c :: cs) =
      (percentDecode cs).map fun rest => String.utf8EncodeChar c ++ rest := by
  rw [percentDecode]
  · cases percentDecode cs <;> rfl
  · rintro a b cs rfl -
    exact hc rfl
  · rintro rfl
    exact hc rfl

theorem percentDecode_escapeByte (b : UInt8) (cs : List Char) :
    percentDecode (escapeByte b ++ cs) = (percentDecode cs).map (b :: ·) := by
  have hb := b.toNat_lt
  unfold escapeByte
  split
  · rename_i hp
    obtain ⟨-, hne, hutf⟩ := plain_spec hp
    rw [List.singleton_append, percentDecode_cons hne, hutf, UInt8.ofNat_toNat]
    rfl
  · have hsum : 16 * (b.toNat / 16) + b.toNat % 16 = b.toNat := Nat.div_add_mod ..
    have hhigh : b.toNat / 16 < 16 := by omega
    have hlow : b.toNat % 16 < 16 := Nat.mod_lt _ (by decide)
    simp only [List.cons_append, List.nil_append, percentDecode, hexVal_hexDigit hhigh,
      hexVal_hexDigit hlow, Option.bind_eq_bind, Option.bind_some, hsum, UInt8.ofNat_toNat]
    cases percentDecode cs <;> rfl

theorem percentDecode_escape (bs : Bytes) : percentDecode (escape bs) = some bs := by
  induction bs with
  | nil => rfl
  | cons b bs ih =>
    rw [escape, List.flatMap_cons, percentDecode_escapeByte]
    exact congrArg (Option.map (b :: ·)) ih

/-! ## Typed components -/

def typedText (c : Component) : List Char :=
  if c.typ = typGeneric then if c.value = [] then ['.', '.', '.'] else escape c.value
  else Nat.toDigits 10 c.typ ++ '=' :: escape c.value

def UriSyntax.typed : UriSyntax where
  piece
    | [] => some []
    | c :: cs =>
      if c :: cs = ['.', '.', '.'] then some [⟨typGeneric, []⟩]
      else
        match splitOnce ['='] (c :: cs) with
        | some (digits, value) =>
          (percentDecode value).map fun bytes => [⟨Nat.ofDigitChars 10 digits 0, bytes⟩]
        | none => (percentDecode (c :: cs)).map fun bytes => [⟨typGeneric, bytes⟩]

theorem digit_not_reserved {c : Char} (h : c.isDigit) : ¬ Reserved c := by
  rintro (rfl | rfl | rfl) <;> simp at h

theorem typedText_slash (c : Component) : '/' ∉ typedText c := by
  have hr : Reserved '/' := .inl rfl
  intro h
  unfold typedText at h
  split at h
  · split at h
    · simp at h
    · exact escape_not_reserved h hr
  · rcases List.mem_append.mp h with h | h
    · exact digit_not_reserved (Nat.isDigit_of_mem_toDigits (by decide) (by decide) h) hr
    · rcases List.mem_cons.mp h with h | h
      · cases h
      · exact escape_not_reserved h hr

theorem typed_piece {cs : List Char} (hne : cs ≠ []) (hdots : '.' ∉ cs ∨ '=' ∈ cs) :
    UriSyntax.typed.piece cs =
      match splitOnce ['='] cs with
      | some (digits, value) =>
        (percentDecode value).map fun bytes => [⟨Nat.ofDigitChars 10 digits 0, bytes⟩]
      | none => (percentDecode cs).map fun bytes => [⟨typGeneric, bytes⟩] := by
  obtain ⟨c, cs, rfl⟩ := List.exists_cons_of_ne_nil hne
  refine if_neg fun h => ?_
  rw [h] at hdots
  simp at hdots

theorem piece_escape {value : Bytes} (hne : value ≠ []) :
    UriSyntax.typed.piece (escape value) = some [⟨typGeneric, value⟩] := by
  have hescape : escape value ≠ [] := fun h => by
    have hdec := percentDecode_escape value
    rw [h] at hdec
    exact hne (Option.some.inj hdec).symm
  have hdots : '.' ∉ escape value := fun h => escape_not_reserved h (.inr (.inr rfl))
  have hequals : '=' ∉ escape value := fun h => escape_not_reserved h (.inr (.inl rfl))
  rw [typed_piece hescape (.inl hdots), splitOnce_of_notMem hequals]
  simp only [percentDecode_escape, Option.map_some]

theorem piece_digits (typ : Nat) (value : Bytes) :
    UriSyntax.typed.piece (Nat.toDigits 10 typ ++ '=' :: escape value) = some [⟨typ, value⟩] := by
  have hdigits : '=' ∉ Nat.toDigits 10 typ := fun h =>
    digit_not_reserved (Nat.isDigit_of_mem_toDigits (by decide) (by decide) h) (.inr (.inl rfl))
  have hcut : splitOnce ['='] ('=' :: escape value) = some ([], escape value) :=
    splitOnce_of_prefix (by simp) _
  rw [typed_piece (by simp) (.inr (by simp)), splitOnce_skip hdigits, hcut]
  simp only [Option.map_some, List.append_nil, percentDecode_escape, Nat.ofDigitChars_ten_toDigits]

theorem piece_typedText (c : Component) : UriSyntax.typed.piece (typedText c) = some [c] := by
  obtain ⟨typ, value⟩ := c
  unfold typedText
  split
  · rename_i ht
    subst ht
    split
    · rename_i hv
      subst hv
      rfl
    · rename_i hv
      exact piece_escape hv
  · exact piece_digits typ value

def UriText.typed : UriText UriSyntax.typed.parse
    (fun name => if name = [] then "/" else String.ofList (slashed typedText name)) where
  text := typedText
  slash_notMem := typedText_slash
  print_eq name h := if_neg h
  parse_print name := by
    by_cases h : name = []
    · subst h
      decide
    · rw [if_neg h]
      exact parse_slashed rfl typedText_slash piece_typedText name

end NdnMobile.Packet
