import NdnMobile.Lib.BigEndian

/-!
# Names and Data

Names are lists of typed components. How a segment number is written in a component is
the packet library's business: `SegmentNaming` is what the repository uses of it, and
`SegmentNaming.nni` the naming convention's own encoding.
-/

namespace NdnMobile.Packet

open NdnMobile.Lib

structure Component where
  typ : Nat
  value : Bytes
  deriving DecidableEq, Repr

abbrev Name := List Component

structure Data where
  name : Name
  content : Option Bytes
  deriving DecidableEq, Repr

/-- `data.content().cloned().unwrap_or_default()`. -/
def Data.bytes (d : Data) : Bytes := d.content.getD []

/-- Segment components: `append_segment`'s and `as_segment`, which reads them back. -/
structure SegmentNaming where
  segment : UInt64 → Component
  asSegment : Component → Option UInt64
  asSegment_segment : ∀ n, asSegment (segment n) = some n

namespace SegmentNaming

variable (nm : SegmentNaming)

def appendSegment (name : Name) (seg : UInt64) : Name := name ++ [nm.segment seg]

/-- `name.components().last().and_then(|c| c.as_segment())`. -/
def trailing (name : Name) : Option UInt64 := name.getLast?.bind nm.asSegment

@[simp] theorem trailing_appendSegment (name : Name) (seg : UInt64) :
    nm.trailing (nm.appendSegment name seg) = some seg := by
  simp [trailing, appendSegment, nm.asSegment_segment]

@[simp] theorem dropLast_appendSegment (name : Name) (seg : UInt64) :
    (nm.appendSegment name seg).dropLast = name := by
  simp [appendSegment]

theorem appendSegment_inj {name : Name} {m n : UInt64}
    (h : nm.appendSegment name m = nm.appendSegment name n) : m = n := by
  have := congrArg nm.trailing h
  simpa using this

end SegmentNaming

/-! ## The naming convention -/

/-- A segment number in the fewest of 1, 2, 4 or 8 bytes. -/
def nniBytes (n : UInt64) : Bytes :=
  if n.toNat < 2 ^ 8 then beBytes 1 n.toNat
  else if n.toNat < 2 ^ 16 then beBytes 2 n.toNat
  else if n.toNat < 2 ^ 32 then beBytes 4 n.toNat
  else beBytes 8 n.toNat

theorem nniBytes_length (n : UInt64) : (nniBytes n).length ∈ [1, 2, 4, 8] := by
  unfold nniBytes
  split_ifs <;> simp

theorem beVal_nniBytes (n : UInt64) : beVal (nniBytes n) = n.toNat := by
  have := n.toNat_lt
  unfold nniBytes
  split
  · exact beVal_beBytes (by omega)
  split
  · exact beVal_beBytes (by omega)
  split
  · exact beVal_beBytes (by omega)
  · exact beVal_beBytes (by omega)

/-- The type of a segment component. -/
def typSegment : Nat := 50

def SegmentNaming.nni : SegmentNaming where
  segment n := ⟨typSegment, nniBytes n⟩
  asSegment c :=
    if c.typ = typSegment ∧ c.value.length ∈ [1, 2, 4, 8] then
      some (UInt64.ofNat (beVal c.value))
    else none
  asSegment_segment n := by
    rw [if_pos ⟨rfl, nniBytes_length n⟩, beVal_nniBytes, UInt64.ofNat_toNat]

end NdnMobile.Packet
