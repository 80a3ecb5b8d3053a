import NdnMobile.Codec.Tlv

/-!
# NDNts BLE framing

`ndntsFrame` is the loop of `NdnCodec::ndnts_frame` over the offset, the 7-bit
sequence number and the first-fragment flag. `PeerCut w fs` says that `fs` carries `w`
cut at arbitrary positions behind one header byte each, bit 7 set on the first header
only. A packet too long for `maxPayload` is framed as such a cut (`ndntsFrame_cut`), a
shorter one goes out bare (`ndntsFrame_bare`).
-/

namespace NdnMobile.Codec

open NdnMobile.Lib

/-- The `while offset < packet.len()` loop. `offset + frag_payload` stays below twice the
packet's length, so the `usize` addition cannot overflow. -/
def ndntsFrameLoop (packet : Bytes) (fragPayload : Nat) (hpos : 0 < fragPayload) (offset : Nat)
    (seq : UInt8) (isFirst : Bool) : List Bytes :=
  if offset < packet.length then
    let fragEnd := min (offset + fragPayload) packet.length
    let header := if isFirst then 0x80 ||| (seq &&& 0x7F) else seq &&& 0x7F
    (header :: (packet.drop offset).take (fragEnd - offset)) ::
      ndntsFrameLoop packet fragPayload hpos fragEnd ((seq + 1) &&& 0x7F) false
  else []
termination_by packet.length - offset

/-- `NdnCodec::ndnts_frame`. -/
def ndntsFrame (packet : Bytes) (maxPayload : UInt32) : List Bytes :=
  if packet.length ≤ maxPayload.toNat then [packet]
  else
    -- `max_payload.saturating_sub(1).max(1)`
    ndntsFrameLoop packet (max (maxPayload.toNat - 1) 1) (by omega) 0 0 true

/-- The continuation frames that carry `rest`. The last of them is not empty: a cut lies within
the packet, and what follows the last one is a piece of it. -/
inductive Tail : Bytes → List Bytes → Prop where
  | last {h : UInt8} {p : Bytes} : h &&& 0x80 = 0 → p ≠ [] → Tail p [h :: p]
  | more {h : UInt8} {p rest : Bytes} {fs : List Bytes} :
    h &&& 0x80 = 0 → Tail rest fs → Tail (p ++ rest) ((h :: p) :: fs)

/-- `w` whole behind one header, or cut within: the piece after the last cut is not empty (`Tail`),
any other may be. -/
inductive PeerCut (w : Bytes) : List Bytes → Prop where
  | whole {h : UInt8} : h &&& 0x80 ≠ 0 → PeerCut w [h :: w]
  | cut {h : UInt8} {p rest : Bytes} {fs : List Bytes} :
    h &&& 0x80 ≠ 0 → Tail rest fs → w = p ++ rest → PeerCut w ((h :: p) :: fs)

theorem Tail.ne_nil {rest : Bytes} {fs : List Bytes} (h : Tail rest fs) : rest ≠ [] := by
  induction h with
  | last _ hp => exact hp
  | more _ _ ih => simp [ih]

theorem contHeader (s : UInt8) : (s &&& 0x7F) &&& 0x80 = 0 := by
  rw [UInt8.and_assoc, show (0x7F : UInt8) &&& 0x80 = 0 by decide, UInt8.and_zero]

theorem firstHeader (s : UInt8) : (0x80 ||| (s &&& 0x7F)) &&& 0x80 ≠ 0 := by
  have hc : (s &&& 0x7F).toBitVec &&& 0x80 = 0 := congrArg UInt8.toBitVec (contHeader s)
  intro h
  have hb : (0x80 ||| (s &&& 0x7F).toBitVec) &&& (0x80 : BitVec 8) = 0 :=
    congrArg UInt8.toBitVec h
  rw [BitVec.and_or_distrib_right, hc] at hb
  exact absurd hb (by decide)

/-- The loop past the first fragment sends the rest of the packet as continuations. -/
theorem ndntsFrameLoop_tail {packet : Bytes} {k : Nat} (hk : 0 < k) {offset : Nat} {seq : UInt8}
    (h : offset < packet.length) :
    Tail (packet.drop offset) (ndntsFrameLoop packet k hk offset seq false) := by
  induction hn : packet.length - offset using Nat.strongRecOn generalizing offset seq with
  | ind n ih =>
    rw [ndntsFrameLoop, if_pos h]
    simp only [Bool.false_eq_true, ↓reduceIte]
    rcases Nat.lt_or_ge (offset + k) packet.length with hlt | hge
    · have he : min (offset + k) packet.length = offset + k := by omega
      have hsplit : packet.drop offset =
          (packet.drop offset).take (offset + k - offset) ++ packet.drop (offset + k) := by
        rw [Nat.add_sub_cancel_left, ← List.drop_drop, List.take_append_drop]
      rw [he]
      nth_rewrite 1 [hsplit]
      exact .more (contHeader seq) (ih _ (by omega) hlt rfl)
    · have he : min (offset + k) packet.length = packet.length := by omega
      rw [he, ndntsFrameLoop, if_neg (by omega), List.take_of_length_le (by simp)]
      exact .last (contHeader seq) (List.ne_nil_of_length_pos (by rw [List.length_drop]; omega))

theorem ndntsFrame_bare {packet : Bytes} {m : UInt32} (h : packet.length ≤ m.toNat) :
    ndntsFrame packet m = [packet] := if_pos h

/-- A packet longer than `maxPayload` goes out as a first frame and at least one more. -/
theorem ndntsFrame_cut {packet : Bytes} {m : UInt32} (hm : 2 ≤ m.toNat)
    (h : m.toNat < packet.length) : ∃ hd p rest fs, hd &&& 0x80 ≠ 0 ∧ Tail rest fs ∧
      packet = p ++ rest ∧ ndntsFrame packet m = (hd :: p) :: fs := by
  have hk : 0 < max (m.toNat - 1) 1 := by omega
  have he : min (0 + max (m.toNat - 1) 1) packet.length = m.toNat - 1 := by omega
  refine ⟨0x80 ||| (0 &&& 0x7F), packet.take (m.toNat - 1), packet.drop (m.toNat - 1),
    ndntsFrameLoop packet _ hk (m.toNat - 1) ((0 + 1) &&& 0x7F) false, firstHeader 0,
    ndntsFrameLoop_tail hk (by omega), (List.take_append_drop ..).symm, ?_⟩
  rw [ndntsFrame, if_neg (by omega), ndntsFrameLoop, if_pos (by omega), he]
  simp only [↓reduceIte, List.drop_zero, Nat.sub_zero]

theorem ndntsFrame_peerCut {packet : Bytes} {m : UInt32} (hm : 2 ≤ m.toNat)
    (h : m.toNat < packet.length) : PeerCut packet (ndntsFrame packet m) := by
  obtain ⟨hd, p, rest, fs, hh, ht, hw, hf⟩ := ndntsFrame_cut hm h
  rw [hf]
  exact .cut hh ht hw

end NdnMobile.Codec
