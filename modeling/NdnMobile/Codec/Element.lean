import NdnMobile.Codec.Tlv
import NdnMobile.Packet.Name

/-!
# Writing and reading TLV elements

`element` writes one element with its type and length in the shortest varnumbers, and
`readElement` reads one back whatever follows it. A sequence of elements is read by
`readElements`, so a name is read back from its components (`readElements_flatMap`).
-/

namespace NdnMobile.Codec

open NdnMobile.Lib NdnMobile.Packet

/-- The shortest varnumber. -/
def varNum (n : Nat) : Bytes :=
  if n ≤ 252 then [UInt8.ofNat n]
  else if n < 2 ^ 16 then 253 :: beBytes 2 n
  else if n < 2 ^ 32 then 254 :: beBytes 4 n
  else 255 :: beBytes 8 n

/-- A name component is a TLV element, and any element has a component's two parts. -/
def element (c : Component) : Bytes := varNum c.typ ++ (varNum c.value.length ++ c.value)

def readElement (buf : Bytes) : Option (Component × Bytes) := do
  let (typ, typeLen) ← parseVarnumber buf
  let (length, lengthLen) ← parseVarnumber (buf.drop typeLen)
  let rest := (buf.drop typeLen).drop lengthLen
  if length ≤ rest.length then some (⟨typ, rest.take length⟩, rest.drop length) else none

/-- Every element of `buf`; the first argument bounds how many there are. -/
def readElements : Nat → Bytes → Option (List Component)
  | _, [] => some []
  | 0, _ :: _ => none
  | k + 1, b :: bs => do
    let (c, rest) ← readElement (b :: bs)
    let cs ← readElements k rest
    return c :: cs

theorem varNum_spec {n : Nat} (h : n < 2 ^ 64) : VarNum (varNum n) n := by
  unfold varNum
  split
  · rename_i hn
    have hv : (UInt8.ofNat n).toNat = n := by rw [UInt8.toNat_ofNat', Nat.mod_eq_of_lt (by omega)]
    have hle : UInt8.ofNat n ≤ 252 := by
      rw [UInt8.le_iff_toNat_le, hv]
      exact hn
    have := VarNum.one hle
    rwa [hv] at this
  split
  · have := VarNum.three (beBytes_length 2 n)
    rwa [beVal_beBytes (by omega)] at this
  split
  · have := VarNum.five (beBytes_length 4 n)
    rwa [beVal_beBytes (by omega)] at this
  · have := VarNum.nine (beBytes_length 8 n)
    rwa [beVal_beBytes (by omega)] at this

/-- Type and length fit a varnumber. -/
def Writable (c : Component) : Prop := c.typ < 2 ^ 64 ∧ c.value.length < 2 ^ 64

instance (c : Component) : Decidable (Writable c) := inferInstanceAs (Decidable (_ ∧ _))

theorem value_length_le (c : Component) : c.value.length ≤ (element c).length := by
  simp only [element, List.length_append]
  omega

theorem readElement_element {c : Component} (h : Writable c) (rest : Bytes) :
    readElement (element c ++ rest) = some (c, rest) := by
  have ht := varNum_spec h.1
  have hl := varNum_spec h.2
  simp only [readElement, element, List.append_assoc, parseVarnumber_append ht,
    parseVarnumber_append hl, List.drop_left, Option.bind_eq_bind, Option.bind_some]
  rw [if_pos (by rw [List.length_append]; omega), List.take_left]

theorem element_cons {c : Component} (h : Writable c) : ∃ b bs, element c = b :: bs := by
  have := (varNum_spec h.1).length_pos
  refine List.exists_cons_of_ne_nil (List.ne_nil_of_length_pos ?_)
  simp only [element, List.length_append]
  omega

/-- **Elements read back** as they were written, with enough fuel. -/
theorem readElements_flatMap {cs : List Component} (h : ∀ c ∈ cs, Writable c) {k : Nat}
    (hk : (cs.flatMap element).length ≤ k) : readElements k (cs.flatMap element) = some cs := by
  induction cs generalizing k with
  | nil => cases k <;> rfl
  | cons c cs ih =>
    obtain ⟨hc, hcs⟩ := List.forall_mem_cons.mp h
    obtain ⟨b, bs, hb⟩ := element_cons hc
    have hread : readElement (b :: (bs ++ cs.flatMap element)) = some (c, cs.flatMap element) := by
      rw [← readElement_element hc, hb, List.cons_append]
    rw [List.flatMap_cons, hb, List.cons_append] at hk ⊢
    simp only [List.length_cons, List.length_append] at hk
    obtain ⟨j, rfl⟩ : ∃ j, k = j + 1 := ⟨k - 1, by omega⟩
    have hrest := ih hcs (k := j) (by omega)
    simp only [readElements, hread, hrest, Option.bind_eq_bind, Option.bind_some, pure]

end NdnMobile.Codec
