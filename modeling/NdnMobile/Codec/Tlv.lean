import NdnMobile.Rust
import NdnMobile.Lib.BigEndian
import NdnMobile.Lib.Delimited

/-!
# TLV elements

`parseVarnumber` and `tlvPacketEnd` of the codec, and what they read: a varnumber in
any of its four widths (`VarNum`), and a TLV element made of a type, a length and
exactly that many value bytes (`IsTlv`). `tlvPacketEnd` delimits every TLV element that
fits in a `Vec<u8>`, so a buffer is cut at its end and nowhere before.
-/

namespace NdnMobile.Codec

open NdnMobile.Lib

/-- `parse_varnumber`: the number and how many bytes it takes. -/
def parseVarnumber (buf : Bytes) : Option (Nat × Nat) :=
  match buf with
  | [] => none
  | b :: rest =>
    if b ≤ 252 then some (b.toNat, 1)
    else if b = 253 then if 3 ≤ buf.length then some (beVal (rest.take 2), 3) else none
    else if b = 254 then if 5 ≤ buf.length then some (beVal (rest.take 4), 5) else none
    else if 9 ≤ buf.length then some (beVal (rest.take 8), 9) else none

/-- `tlv_packet_end`: the length of the TLV element `buf` starts with, once all of it is there. -/
def tlvPacketEnd (t : Target) (buf : Bytes) : Except Panic (Option Nat) :=
  match parseVarnumber buf with
  | none => .ok none
  | some (_, typeLen) =>
    -- `buf.get(type_len..)?`
    if buf.length < typeLen then .ok none
    else
      match parseVarnumber (buf.drop typeLen) with
      | none => .ok none
      | some (length, lengthLen) => do
        let header ← t.addUsize typeLen lengthLen
        let total ← t.addUsize header (t.castUsize length)
        return if total ≤ buf.length then some total else none

/-- The bytes of a varnumber, of any width, and its value. -/
inductive VarNum : Bytes → Nat → Prop where
  | one {b : UInt8} : b ≤ 252 → VarNum [b] b.toNat
  | three {bs : Bytes} : bs.length = 2 → VarNum (253 :: bs) (beVal bs)
  | five {bs : Bytes} : bs.length = 4 → VarNum (254 :: bs) (beVal bs)
  | nine {bs : Bytes} : bs.length = 8 → VarNum (255 :: bs) (beVal bs)

/-- Exactly one TLV element: type and length varnumbers and `length` value bytes. -/
def IsTlv (w : Bytes) : Prop :=
  ∃ ts ty ls value, VarNum ts ty ∧ VarNum ls value.length ∧ w = ts ++ (ls ++ value)

/-! ## Varnumbers -/

theorem VarNum.length_pos {bs : Bytes} {v : Nat} (h : VarNum bs v) : 0 < bs.length := by
  cases h <;> simp

theorem parseVarnumber_append {bs : Bytes} {v : Nat} (h : VarNum bs v) (rest : Bytes) :
    parseVarnumber (bs ++ rest) = some (v, bs.length) := by
  cases h with
  | one hb => simp [parseVarnumber, hb]
  | three hb => simp [parseVarnumber, hb, List.take_left' hb]
  | five hb => simp [parseVarnumber, hb, List.take_left' hb]
  | nine hb => simp [parseVarnumber, hb, List.take_left' hb]

theorem parseVarnumber_short {bs q : Bytes} {v : Nat} (h : VarNum bs v) (hq : q <+: bs)
    (hlt : q.length < bs.length) : parseVarnumber q = none := by
  cases q with
  | nil => rfl
  | cons c q =>
    cases h with
    | one _ => simp at hlt
    | three hb | five hb | nine hb =>
      obtain ⟨rfl, -⟩ := List.cons_prefix_cons.mp hq
      simp only [List.length_cons, hb] at hlt
      simp [parseVarnumber]
      omega

theorem VarNum.length_le {bs : Bytes} {v : Nat} (h : VarNum bs v) : bs.length ≤ 9 := by
  cases h with
  | one _ => simp
  | three hb | five hb | nine hb => simp [hb]

/-- What `parse_varnumber` reads is a varnumber the buffer starts with. -/
theorem parseVarnumber_some {buf : Bytes} {v n : Nat} (h : parseVarnumber buf = some (v, n)) :
    ∃ bs rest, VarNum bs v ∧ bs.length = n ∧ buf = bs ++ rest := by
  cases buf with
  | nil => cases h
  | cons b rest =>
    have wide {k : Nat} (hk : k + 1 ≤ (b :: rest).length) :
        (rest.take k).length = k ∧ b :: rest = (b :: rest.take k) ++ rest.drop k := by
      simp only [List.length_cons] at hk
      exact ⟨List.length_take_of_le (by omega), by rw [List.cons_append, List.take_append_drop]⟩
    simp only [parseVarnumber] at h
    split at h
    · rename_i hb
      cases h
      exact ⟨[b], rest, .one hb, rfl, rfl⟩
    split at h
    · rename_i hb
      split at h
      · rename_i hl
        cases h
        obtain ⟨hlen, hsplit⟩ := wide hl
        exact ⟨_, _, hb ▸ .three hlen, by rw [List.length_cons, hlen], hsplit⟩
      · cases h
    split at h
    · rename_i hb
      split at h
      · rename_i hl
        cases h
        obtain ⟨hlen, hsplit⟩ := wide hl
        exact ⟨_, _, hb ▸ .five hlen, by rw [List.length_cons, hlen], hsplit⟩
      · cases h
    split at h
    · rename_i h252 h253 h254 hl
      cases h
      have hb : b = 255 := by
        rw [UInt8.le_iff_toNat_le] at h252
        have h253 := mt UInt8.toNat_inj.mp h253
        have h254 := mt UInt8.toNat_inj.mp h254
        have := b.toNat_lt
        refine UInt8.toNat_inj.mp ?_
        simp only [UInt8.reduceToNat] at h252 h253 h254 ⊢
        omega
      obtain ⟨hlen, hsplit⟩ := wide hl
      exact ⟨_, _, hb ▸ .nine hlen, by rw [List.length_cons, hlen], hsplit⟩
    · cases h

/-! ## TLV elements -/

theorem IsTlv.pos {w : Bytes} (h : IsTlv w) : 0 < w.length := by
  obtain ⟨ts, _, ls, value, hts, _, rfl⟩ := h
  have := hts.length_pos
  simp only [List.length_append]
  omega

/-- With type and length at the front, only the sum with the announced length can overflow. -/
theorem tlvPacketEnd_fields {t : Target} {ts ls : Bytes} {ty n : Nat} (hts : VarNum ts ty)
    (hls : VarNum ls n) (rest : Bytes) : tlvPacketEnd t (ts ++ (ls ++ rest)) =
      (do
        let total ← t.addUsize (ts.length + ls.length) (t.castUsize n)
        return if total ≤ (ts ++ (ls ++ rest)).length then some total else none) := by
  have hlen : ¬ (ts ++ (ls ++ rest)).length < ts.length := by simp
  have hbits : 18 < 2 ^ t.usize.bits := by cases t.usize <;> decide
  have hts9 := hts.length_le
  have hls9 := hls.length_le
  simp only [tlvPacketEnd, parseVarnumber_append hts, if_neg hlen, List.drop_left,
    parseVarnumber_append hls]
  rw [t.addUsize_of_lt (by omega)]
  rfl

/-- Where it does not, the announced total decides. -/
theorem tlvPacketEnd_header {t : Target} {ts ls : Bytes} {ty n : Nat} (hts : VarNum ts ty)
    (hls : VarNum ls n) (rest : Bytes) (hfit : ts.length + ls.length + n < 2 ^ t.usize.bits) :
    tlvPacketEnd t (ts ++ (ls ++ rest)) =
      .ok (if ts.length + ls.length + n ≤ (ts ++ (ls ++ rest)).length
        then some (ts.length + ls.length + n) else none) := by
  rw [tlvPacketEnd_fields hts hls, t.castUsize_of_lt (by omega), t.addUsize_of_lt hfit]
  rfl

/-- **`tlv_packet_end` delimits TLV elements**, on every target. -/
theorem tlvPacketEnd_delimits {t : Target} {w : Bytes} (h : IsTlv w)
    (hlen : w.length ≤ t.isizeMax) : Delimits (tlvPacketEnd t) w := by
  obtain ⟨ts, ty, ls, value, hts, hls, rfl⟩ := h
  have hfit := t.lt_usize_of_le_isizeMax hlen
  simp only [List.length_append] at hfit
  refine ⟨fun {q} hq hlt => ?_, fun rest => ?_⟩
  · rcases Nat.lt_or_ge q.length ts.length with h1 | h1
    · -- the type is still incomplete
      have hq' : q <+: ts := List.prefix_of_prefix_length_le hq (List.prefix_append ..) h1.le
      simp [tlvPacketEnd, parseVarnumber_short hts hq' h1]
    obtain ⟨q1, rfl⟩ := List.prefix_of_prefix_length_le (List.prefix_append ..) hq h1
    have hq1 : q1 <+: ls ++ value := (List.prefix_append_right_inj ts).mp hq
    rcases Nat.lt_or_ge q1.length ls.length with h2 | h2
    · -- the length is still incomplete
      have hq2 : q1 <+: ls := List.prefix_of_prefix_length_le hq1 (List.prefix_append ..) h2.le
      simp [tlvPacketEnd, parseVarnumber_append hts, parseVarnumber_short hls hq2 h2]
    obtain ⟨q2, rfl⟩ := List.prefix_of_prefix_length_le (List.prefix_append ..) hq1 h2
    simp only [List.length_append] at hlt
    rw [tlvPacketEnd_header hts hls q2 (by omega),
      if_neg (by simp only [List.length_append]; omega)]
  · rw [List.append_assoc, List.append_assoc, tlvPacketEnd_header hts hls _ (by omega),
      if_pos (by simp only [List.length_append]; omega)]
    simp only [List.length_append, Nat.add_assoc]

end NdnMobile.Codec
