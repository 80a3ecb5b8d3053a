import Mathlib.Data.List.Induction
import Mathlib.Data.List.TakeWhile

/-!
# Decimal digits at the front of a text

`takeDigits` and `dropDigits` cut a text after the digits it begins with. The digits of a
number read back as that number, and digits without a leading zero are those of the number
they spell (`toDigits_decVal`).
-/

namespace NdnMobile.Lib

def takeDigits (s : List Char) : List Char := s.takeWhile Char.isDigit

def dropDigits (s : List Char) : List Char := s.dropWhile Char.isDigit

/-- The number that digits spell. -/
def decVal (ds : List Char) : Nat := Nat.ofDigitChars 10 ds 0

/-- A text that does not go on with a digit. -/
def EndsDigits (rest : List Char) : Prop := ∀ c, rest.head? = some c → c.isDigit = false

theorem endsDigits_nil : EndsDigits [] := nofun

theorem endsDigits_cons {c : Char} (h : c.isDigit = false) (rest : List Char) :
    EndsDigits (c :: rest) := by
  intro d hd
  cases hd
  exact h

theorem takeDigits_append_dropDigits (s : List Char) : takeDigits s ++ dropDigits s = s :=
  List.takeWhile_append_dropWhile

theorem isDigit_of_mem_takeDigits {s : List Char} {c : Char} (h : c ∈ takeDigits s) :
    c.isDigit = true := List.mem_takeWhile_imp h

section

variable {ds rest : List Char} (hd : ∀ c ∈ ds, c.isDigit = true) (hr : EndsDigits rest)
include hd hr

theorem takeDigits_append : takeDigits (ds ++ rest) = ds := by
  have hstop : rest.takeWhile Char.isDigit = [] := by
    cases rest with
    | nil => rfl
    | cons c rest => rw [List.takeWhile_cons_of_neg (by rw [hr c rfl]; exact Bool.false_ne_true)]
  rw [takeDigits, List.takeWhile_append_of_pos hd, hstop, List.append_nil]

theorem dropDigits_append : dropDigits (ds ++ rest) = rest := by
  have hcut := takeDigits_append_dropDigits (ds ++ rest)
  rwa [takeDigits_append hd hr, List.append_cancel_left_eq] at hcut

end

theorem isDigit_of_mem_toDigits {n : Nat} {c : Char} (h : c ∈ Nat.toDigits 10 n) :
    c.isDigit = true := Nat.isDigit_of_mem_toDigits (by decide) (by decide) h

theorem decVal_toDigits (n : Nat) : decVal (Nat.toDigits 10 n) = n := Nat.ofDigitChars_ten_toDigits

theorem toDigits_inj {m n : Nat} (h : Nat.toDigits 10 m = Nat.toDigits 10 n) : m = n := by
  rw [← decVal_toDigits m, h, decVal_toDigits]

theorem head?_append_of_ne {ds : List Char} (h : ds ≠ []) (rest : List Char) :
    (ds ++ rest).head? = ds.head? := by
  cases ds with
  | nil => exact absurd rfl h
  | cons c ds => rfl

/-- The digits of a number begin with a zero only if it is zero. -/
theorem head_toDigits {n : Nat} (h : (Nat.toDigits 10 n).head? = some '0') : n = 0 := by
  induction n using Nat.strongRecOn with
  | ind n ih =>
    rw [Nat.toDigits_eq_if (by decide)] at h
    split at h
    · rename_i hlt
      rw [List.head?_cons, Option.some.injEq] at h
      have hval := Nat.toNat_digitChar_sub_48_of_lt_ten hlt
      rw [h] at hval
      exact hval.symm
    · rename_i hge
      rw [head?_append_of_ne Nat.toDigits_ne_nil] at h
      have hzero := ih (n / 10) (by omega) h
      omega

/-! ## Digits without a leading zero -/

theorem digitVal_spec {c : Char} (h : c.isDigit = true) :
    c.toNat - '0'.toNat < 10 ∧ Nat.digitChar (c.toNat - '0'.toNat) = c := by
  have hrange : 48 ≤ c.toNat ∧ c.toNat ≤ 57 := by
    simpa [Char.isDigit, UInt32.le_iff_toNat_le] using h
  have hall : ∀ n < 10, Nat.digitChar n = Char.ofNat (48 + n) := by decide
  have hzero : '0'.toNat = 48 := rfl
  refine ⟨by omega, ?_⟩
  rw [hzero, hall _ (by omega), show 48 + (c.toNat - 48) = c.toNat by omega, Char.ofNat_toNat]

theorem decVal_append (ds : List Char) (c : Char) :
    decVal (ds ++ [c]) = 10 * decVal ds + (c.toNat - '0'.toNat) := by
  unfold decVal
  rw [Nat.ofDigitChars_append, Nat.ofDigitChars_cons, Nat.ofDigitChars_nil]

theorem toDigits_decVal {ds : List Char} (hd : ∀ c ∈ ds, c.isDigit = true) (hne : ds ≠ [])
    (hlead : ds.head? = some '0' → ds.length = 1) : Nat.toDigits 10 (decVal ds) = ds := by
  induction ds using List.reverseRecOn with
  | nil => exact absurd rfl hne
  | append_singleton ds c ih =>
    obtain ⟨hlt, hchar⟩ := digitVal_spec (hd c (by simp))
    have hlast : Nat.toDigits 10 (c.toNat - '0'.toNat) = [c] := by
      rw [Nat.toDigits_of_lt_base hlt, hchar]
    rw [decVal_append]
    by_cases hds : ds = []
    · subst hds
      rw [show decVal [] = 0 from rfl, Nat.mul_zero, Nat.zero_add, hlast, List.nil_append]
    · have hfirst : (ds ++ [c]).head? = ds.head? := head?_append_of_ne hds _
      have hno : ds.head? ≠ some '0' := fun h0 => by
        have hlen := hlead (hfirst.trans h0)
        rw [List.length_append, List.length_singleton] at hlen
        exact hds (List.length_eq_zero_iff.mp (by omega))
      have hinit := ih (fun d hmem => hd d (List.mem_append_left _ hmem)) hds fun h0 =>
        absurd h0 hno
      have hpos : 0 < decVal ds := by
        refine Nat.pos_of_ne_zero fun hzero => hno ?_
        rw [← hinit, hzero]
        rfl
      rw [← Nat.toDigits_append_toDigits (by decide) hpos hlt, hinit, hlast]

end NdnMobile.Lib
