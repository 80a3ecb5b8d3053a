import NdnMobile.Codec.Frame
import NdnMobile.Lib.Chunks

/-!
# The fragments of a packet

The loop of `ndntsFrame` in closed form: its turn `i` sends the `i`-th piece of the packet
behind the header `fragHeader i`, so the 7-bit counter wraps at 128 and the first-fragment
bit is never set again.
-/

namespace NdnMobile.Codec

open NdnMobile.Lib

/-- The sequence number at turn `i` of the loop. -/
def seqAt (i : Nat) : UInt8 := UInt8.ofNat (i % 128)

/-- The header of fragment `i`. -/
def fragHeader (i : Nat) : UInt8 := if i = 0 then 0x80 else seqAt i

/-- Fragment `i` of a packet cut every `k` bytes. -/
def fragment (k : Nat) (packet : Bytes) (i : Nat) : Bytes := fragHeader i :: chunk k packet i

theorem toNat_seqAt (i : Nat) : (seqAt i).toNat = i % 128 := by
  rw [seqAt, UInt8.toNat_ofNat']
  omega

theorem toNat_and_7f (b : UInt8) : (b &&& 0x7F).toNat = b.toNat % 128 := by
  rw [UInt8.toNat_and]
  exact Nat.and_two_pow_sub_one_eq_mod b.toNat 7

theorem seqAt_and (i : Nat) : seqAt i &&& 0x7F = seqAt i := by
  apply UInt8.toNat_inj.mp
  rw [toNat_and_7f, toNat_seqAt]
  omega

theorem seqAt_succ (i : Nat) : (seqAt i + 1) &&& 0x7F = seqAt (i + 1) := by
  apply UInt8.toNat_inj.mp
  rw [toNat_and_7f, UInt8.toNat_add, toNat_seqAt, toNat_seqAt, UInt8.toNat_one]
  omega

/-- The header counts modulo 128, and bit 7 marks the first fragment only. -/
theorem fragHeader_spec (i : Nat) :
    fragHeader i &&& 0x7F = UInt8.ofNat (i % 128) ∧ (fragHeader i &&& 0x80 ≠ 0 ↔ i = 0) := by
  unfold fragHeader
  split
  · rename_i h
    subst h
    exact ⟨rfl, by decide⟩
  · rename_i h
    refine ⟨seqAt_and i, ?_⟩
    rw [← seqAt_and i, contHeader]
    exact ⟨fun hne => absurd rfl hne, fun hi => absurd hi h⟩

/-- One turn of the loop: the slice up to the next cut, or up to the end. -/
theorem slice_eq_chunk {k : Nat} {packet : Bytes} {i : Nat} :
    (packet.drop (k * i)).take (min (k * i + k) packet.length - k * i) = chunk k packet i := by
  unfold chunk
  rcases Nat.le_total (k * i + k) packet.length with hle | hge
  · rw [Nat.min_eq_left hle, Nat.add_sub_cancel_left]
  · rw [Nat.min_eq_right hge, List.take_of_length_le (by rw [List.length_drop]),
      List.take_of_length_le (by rw [List.length_drop]; omega)]

/-- The loop from turn `i` on sends the fragments from `i` on. The offset at turn `i` is
`k * i`, or the packet's end past the last turn. -/
theorem ndntsFrameLoop_eq {packet : Bytes} {k : Nat} (hk : 0 < k) {i j : Nat}
    (hn : i + j = packet.length ⌈/⌉ k) :
    ndntsFrameLoop packet k hk (min (k * i) packet.length) (seqAt i) (decide (i = 0)) =
      (List.range' i j).map (fragment k packet) := by
  induction j generalizing i with
  | zero =>
    have hle : packet.length ≤ k * i := by
      rw [← ceilDiv_le_iff_le_mul hk]
      omega
    rw [Nat.min_eq_right hle, ndntsFrameLoop, if_neg (by omega)]
    rfl
  | succ j ih =>
    have hlt : k * i < packet.length := (lt_ceilDiv_iff hk).mp (by omega)
    have hnext := ih (i := i + 1) (by omega)
    rw [decide_eq_false (Nat.succ_ne_zero i), Nat.mul_succ] at hnext
    have hheader : (if i = 0 then 0x80 ||| seqAt i else seqAt i) = fragHeader i := by
      by_cases h0 : i = 0
      · rw [h0]
        rfl
      · rw [fragHeader, if_neg h0, if_neg h0]
    rw [Nat.min_eq_left (by omega), ndntsFrameLoop, if_pos hlt]
    simp only [decide_eq_true_eq, seqAt_and, seqAt_succ, hnext, slice_eq_chunk, hheader]
    rfl

theorem ndntsFrame_eq_map {packet : Bytes} {m : UInt32} (hm : 2 ≤ m.toNat)
    (h : m.toNat < packet.length) : ndntsFrame packet m =
      (List.range (packet.length ⌈/⌉ (m.toNat - 1))).map (fragment (m.toNat - 1) packet) := by
  have hk : 0 < m.toNat - 1 := by omega
  have hmax : max (m.toNat - 1) 1 = m.toNat - 1 := by omega
  have hloop : ndntsFrameLoop packet (m.toNat - 1) hk (min ((m.toNat - 1) * 0) packet.length)
      (seqAt 0) (decide (0 = 0)) = _ := ndntsFrameLoop_eq hk (Nat.zero_add _)
  rw [Nat.mul_zero, Nat.zero_min] at hloop
  rw [ndntsFrame, if_neg (by omega), List.range_eq_range', ← hloop]
  simp only [hmax]
  rfl

/-- A packet that fits goes out alone. Any other goes out in as many fragments as it takes,
none of them empty or too long, which carry it in order behind their counters. -/
theorem ndntsFrame_spec (packet : Bytes) (m : UInt32) (hm : 2 ≤ m.toNat) :
    (packet.length ≤ m.toNat → ndntsFrame packet m = [packet]) ∧
    (m.toNat < packet.length →
      (ndntsFrame packet m).length = packet.length ⌈/⌉ (m.toNat - 1) ∧
      (∀ f ∈ ndntsFrame packet m, 2 ≤ f.length ∧ f.length ≤ m.toNat) ∧
      ((ndntsFrame packet m).map List.tail).flatten = packet ∧
      ∀ i f, (ndntsFrame packet m)[i]? = some f → ∃ header payload, f = header :: payload ∧
        header &&& 0x7F = UInt8.ofNat (i % 128) ∧ (header &&& 0x80 ≠ 0 ↔ i = 0)) := by
  have hk : 0 < m.toNat - 1 := by omega
  refine ⟨ndntsFrame_bare, fun h => ?_⟩
  rw [ndntsFrame_eq_map hm h]
  refine ⟨by rw [List.length_map, List.length_range], ?_, ?_, ?_⟩
  · intro f hf
    obtain ⟨i, hi, rfl⟩ := List.mem_map.mp hf
    have hpos := chunk_length_pos hk (List.mem_range.mp hi)
    have hle := chunk_length_le (m.toNat - 1) packet i
    rw [fragment, List.length_cons]
    omega
  · rw [List.map_map]
    exact chunks_flatten hk packet
  · intro i f hf
    rw [List.getElem?_map, Option.map_eq_some_iff] at hf
    obtain ⟨j, hj, rfl⟩ := hf
    obtain ⟨hlt, rfl⟩ := List.getElem?_eq_some_iff.mp hj
    rw [List.getElem_range]
    exact ⟨_, _, rfl, fragHeader_spec i⟩

/-- Three fragments of at most three bytes: two, two and one of payload. -/
theorem ndntsFrame_five : 2 ≤ (3 : UInt32).toNat ∧ (ndntsFrame [7, 8, 9, 10, 11] 3).length = 3 :=
  ⟨by decide, ((ndntsFrame_spec [7, 8, 9, 10, 11] 3 (by decide)).2 (by decide)).1⟩

end NdnMobile.Codec
