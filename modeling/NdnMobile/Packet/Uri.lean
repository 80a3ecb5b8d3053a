import NdnMobile.Packet.Name

/-!
# Names as URIs

A URI is cut at its slashes and each piece read by itself, as no component, one or more.
How a piece is read is the packet library's business (`UriSyntax`); `UriSyntax.percent` is
the reading the repository counts on, with percent escapes decoded.
-/

namespace NdnMobile.Packet

open NdnMobile.Lib

structure UriSyntax where
  /-- The components of a piece between slashes, unless it is malformed. -/
  piece : List Char → Option (List Component)

/-- The pieces between the slashes. -/
def pieces : List Char → List (List Char)
  | [] => [[]]
  | c :: cs =>
    if c = '/' then [] :: pieces cs
    else
      match pieces cs with
      | [] => [[c]]
      | p :: ps => (c :: p) :: ps

theorem pieces_cons_slash (cs : List Char) : pieces ('/' :: cs) = [] :: pieces cs := if_pos rfl

theorem pieces_ne_nil (cs : List Char) : pieces cs ≠ [] := by
  induction cs with
  | nil => nofun
  | cons c cs ih =>
    unfold pieces
    split
    · exact List.cons_ne_nil _ _
    · cases h : pieces cs with
      | nil => exact absurd h ih
      | cons p ps => exact List.cons_ne_nil _ _

/-- A slash between two texts is a cut. -/
theorem pieces_slash (as bs : List Char) : pieces (as ++ '/' :: bs) = pieces as ++ pieces bs := by
  induction as with
  | nil => exact pieces_cons_slash bs
  | cons c as ih =>
    by_cases hc : c = '/'
    · subst hc
      rw [List.cons_append, pieces_cons_slash, pieces_cons_slash, ih]
      rfl
    · rw [List.cons_append, pieces, pieces, ih, if_neg hc, if_neg hc]
      cases h : pieces as with
      | nil => exact absurd h (pieces_ne_nil as)
      | cons p ps => rfl

namespace UriSyntax

variable (U : UriSyntax)

/-- `parse::<Name>()`. -/
def parse (uri : String) : Option Name := ((pieces uri.toList).mapM U.piece).map List.flatten

/-- What stands before a slash and what stands after it are read apart. -/
theorem parse_slash (a b : String) : U.parse (a ++ "/" ++ b) =
    (U.parse a).bind fun x => (U.parse b).map fun y => x ++ y := by
  have hchars : (a ++ "/" ++ b).toList = a.toList ++ '/' :: b.toList := by simp
  unfold parse
  rw [hchars, pieces_slash, List.mapM_append]
  cases (pieces a.toList).mapM U.piece with
  | none => rfl
  | some xs =>
    cases (pieces b.toList).mapM U.piece with
    | none => rfl
    | some ys => simp

end UriSyntax

/-! ## Percent escapes -/

/-- The type of an ordinary component. -/
def typGeneric : Nat := 8

def hexVal (c : Char) : Option Nat :=
  if '0' ≤ c ∧ c ≤ '9' then some (c.toNat - '0'.toNat)
  else if 'a' ≤ c ∧ c ≤ 'f' then some (c.toNat - 'a'.toNat + 10)
  else if 'A' ≤ c ∧ c ≤ 'F' then some (c.toNat - 'A'.toNat + 10)
  else none

def percentDecode : List Char → Option Bytes
  | [] => some []
  | '%' :: a :: b :: cs => do
    let hi ← hexVal a
    let lo ← hexVal b
    let rest ← percentDecode cs
    return UInt8.ofNat (16 * hi + lo) :: rest
  | '%' :: _ => none
  | c :: cs => do
    let rest ← percentDecode cs
    return String.utf8EncodeChar c ++ rest

/-- An empty piece is no component; any other is one. -/
def UriSyntax.percent : UriSyntax where
  piece
    | [] => some []
    | cs => (percentDecode cs).map fun bytes => [⟨typGeneric, bytes⟩]

end NdnMobile.Packet
