import NdnMobile.Codec.Reassembler

/-!
# Hostile fragments

The length field of a fragment buffer is whatever the radio peer wrote, up to
`2 ^ 64 - 1`. `tlvPacketEnd` casts it to `usize` and adds the two header fields before it
compares with the buffer (`tlvPacketEnd_announced`), so it delimits an element only where
the sum is below `2 ^ usize`. Beyond that the call panics, cuts something else, or happens
to wait for more (`handled_iff_bounded`), and `handled_iff` says which runs are clean.
-/

namespace NdnMobile.Codec

open NdnMobile.Lib

variable {t : Target}

/-- How many bytes the type and length fields at the front of `buf` take, and the length
they announce. -/
def announced (buf : Bytes) : Option (Nat × Nat) :=
  match parseVarnumber buf with
  | none => none
  | some (_, typeLen) =>
    if buf.length < typeLen then none
    else (parseVarnumber (buf.drop typeLen)).map fun (length, lengthLen) =>
      (typeLen + lengthLen, length)

/-- The buffer a call looks for a packet in; none where the fragment is empty, or goes
back as it is. -/
def assembled (st : ReasmState) : Bytes → Option Bytes
  | [] => none
  | first :: rest =>
    if first &&& 0x80 ≠ 0 then some rest
    else if st.active then some (st.buffer ++ rest)
    else none

/-- A call that does not panic, and cuts nothing but whole elements out of its buffer. -/
def Handled (t : Target) (st : ReasmState) (fragment : Bytes) : Prop :=
  ∃ st' out, feed t st fragment = .ok (st', out) ∧
    ((assembled st fragment).isSome → ∀ w, out = some w → IsTlv w)

/-- The total `buf` announces is below `2 ^ usize`; or the code computes what is left of it
without a panic, and that is still more than the buffer holds. -/
def Bounded (t : Target) (buf : Bytes) : Prop :=
  ∀ header n, announced buf = some (header, n) →
    header + n < 2 ^ t.usize.bits ∨
      (t.overflowChecks = true → header + n % 2 ^ t.usize.bits < 2 ^ t.usize.bits) ∧
        buf.length < (header + n) % 2 ^ t.usize.bits

/-- `P` holds of every call of a run, in the state the calls before it left. -/
def EachCall (t : Target) (P : ReasmState → Bytes → Prop) (st : ReasmState)
    (fragments : List Bytes) : Prop :=
  ∀ past f rest st' outs, fragments = past ++ f :: rest →
    feedAll t st past = .ok (st', outs) → P st' f

/-! ## What a buffer announces -/

theorem announced_append {ts ls : Bytes} {ty n : Nat} (hts : VarNum ts ty) (hls : VarNum ls n)
    (rest : Bytes) : announced (ts ++ (ls ++ rest)) = some (ts.length + ls.length, n) := by
  have hlen : ¬ (ts ++ (ls ++ rest)).length < ts.length := by simp
  simp only [announced, parseVarnumber_append hts, if_neg hlen, List.drop_left,
    parseVarnumber_append hls, Option.map_some]

theorem announced_some {buf : Bytes} {header n : Nat} (h : announced buf = some (header, n)) :
    ∃ ts ty ls rest, VarNum ts ty ∧ VarNum ls n ∧ header = ts.length + ls.length ∧
      buf = ts ++ (ls ++ rest) := by
  unfold announced at h
  cases ht : parseVarnumber buf with
  | none => simp [ht] at h
  | some r =>
    obtain ⟨ty, typeLen⟩ := r
    obtain ⟨ts, rest, hts, rfl, rfl⟩ := parseVarnumber_some ht
    simp only [ht, List.drop_left] at h
    split at h
    · cases h
    · cases hl : parseVarnumber rest with
      | none => simp [hl] at h
      | some r =>
        obtain ⟨length, lengthLen⟩ := r
        obtain ⟨ls, rest, hls, rfl, rfl⟩ := parseVarnumber_some hl
        simp only [hl, Option.map_some, Option.some.injEq, Prod.mk.injEq] at h
        obtain ⟨rfl, rfl⟩ := h
        exact ⟨ts, ty, ls, rest, hts, hls, rfl, rfl⟩

/-- An element announces its own length. -/
theorem IsTlv.announced_eq {w : Bytes} (h : IsTlv w) (rest : Bytes) :
    ∃ header n, announced (w ++ rest) = some (header, n) ∧ w.length = header + n := by
  obtain ⟨ts, ty, ls, value, hts, hls, rfl⟩ := h
  refine ⟨ts.length + ls.length, value.length, ?_, ?_⟩
  · rw [List.append_assoc, List.append_assoc]
    exact announced_append hts hls _
  · simp only [List.length_append, Nat.add_assoc]

/-- A piece of the announced length is one element. -/
theorem isTlv_take {buf : Bytes} {header n : Nat} (h : announced buf = some (header, n))
    (hlen : header + n ≤ buf.length) : IsTlv (buf.take (header + n)) := by
  obtain ⟨ts, ty, ls, rest, hts, hls, rfl, rfl⟩ := announced_some h
  simp only [List.length_append] at hlen
  have hn : (rest.take n).length = n := List.length_take_of_le (by omega)
  refine ⟨ts, ty, ls, rest.take n, hts, hn.symm ▸ hls, ?_⟩
  rw [Nat.add_assoc, List.take_length_add_append, List.take_length_add_append]

/-- A prefix of any other length is not. -/
theorem not_isTlv_take {buf : Bytes} {header n k : Nat} (h : announced buf = some (header, n))
    (hk : k ≤ buf.length) (hne : k ≠ header + n) : ¬ IsTlv (buf.take k) := by
  intro hw
  obtain ⟨header', n', ha, hlen⟩ := hw.announced_eq (buf.drop k)
  rw [List.take_append_drop, h, Option.some.injEq, Prod.mk.injEq] at ha
  rw [List.length_take_of_le hk, ← ha.1, ← ha.2] at hlen
  exact hne hlen

/-! ## The bound check -/

theorem tlvPacketEnd_none {buf : Bytes} (h : announced buf = none) :
    tlvPacketEnd t buf = .ok none := by
  unfold announced at h
  unfold tlvPacketEnd
  cases ht : parseVarnumber buf with
  | none => rfl
  | some r =>
    simp only [ht] at h ⊢
    split at h
    · rename_i hlt
      rw [if_pos hlt]
    · rename_i hlt
      rw [Option.map_eq_none_iff] at h
      rw [if_neg hlt, h]

/-- `tlv_packet_end` on a buffer with both fields there. -/
theorem tlvPacketEnd_announced {buf : Bytes} {header n : Nat}
    (h : announced buf = some (header, n)) : tlvPacketEnd t buf =
      (do
        let total ← t.addUsize header (t.castUsize n)
        return if total ≤ buf.length then some total else none) := by
  obtain ⟨ts, ty, ls, rest, hts, hls, rfl, rfl⟩ := announced_some h
  exact tlvPacketEnd_fields hts hls rest

/-- What the last sum comes to. -/
theorem addUsize_castUsize (header n : Nat) : t.addUsize header (t.castUsize n) =
    if t.overflowChecks = true ∧ 2 ^ t.usize.bits ≤ header + n % 2 ^ t.usize.bits
      then .error .addOverflow
    else .ok (if header + n < 2 ^ t.usize.bits then header + n
      else (header + n) % 2 ^ t.usize.bits) := by
  have hsum : (header + n % 2 ^ t.usize.bits) % 2 ^ t.usize.bits
      = (header + n) % 2 ^ t.usize.bits := Nat.add_mod_mod ..
  unfold Target.addUsize Target.addAt Target.castUsize
  rcases Nat.lt_or_ge (header + n % 2 ^ t.usize.bits) (2 ^ t.usize.bits) with hlt | hge
  · rw [if_pos hlt, if_neg (by omega)]
    split
    · rw [Nat.mod_eq_of_lt (a := n) (by omega)]
    · rw [← hsum, Nat.mod_eq_of_lt hlt]
  · rw [if_neg (by omega), hsum]
    have hn : ¬ header + n < 2 ^ t.usize.bits := by
      have := Nat.mod_le n (2 ^ t.usize.bits)
      omega
    cases t.overflowChecks <;> simp [hge, hn]

/-- Where the bound holds, the call waits or cuts the announced element. -/
theorem tlvPacketEnd_of_bounded {buf : Bytes} (h : Bounded t buf) :
    tlvPacketEnd t buf = .ok none ∨
      ∃ n, tlvPacketEnd t buf = .ok (some n) ∧ n ≤ buf.length ∧ IsTlv (buf.take n) := by
  cases ha : announced buf with
  | none => exact .inl (tlvPacketEnd_none ha)
  | some r =>
    obtain ⟨header, n⟩ := r
    rw [tlvPacketEnd_announced ha, addUsize_castUsize]
    rcases h header n ha with hlt | ⟨hno, hlen⟩
    · have hle := Nat.mod_le n (2 ^ t.usize.bits)
      rw [if_neg (by omega), if_pos hlt]
      rcases Nat.lt_or_ge buf.length (header + n) with hs | hs
      · exact .inl (congrArg Except.ok (if_neg (by omega)))
      · exact .inr ⟨_, congrArg Except.ok (if_pos hs), hs, isTlv_take ha hs⟩
    · rw [if_neg (fun ⟨hc, hge⟩ => by have := hno hc; omega)]
      split
      · rename_i hlt
        rw [Nat.mod_eq_of_lt hlt] at hlen
        exact .inl (congrArg Except.ok (if_neg (by omega)))
      · exact .inl (congrArg Except.ok (if_neg (by omega)))

/-- Where it does not, the call panics or cuts something that is not an element. -/
theorem tlvPacketEnd_of_not_bounded {buf : Bytes} (h : ¬ Bounded t buf) :
    tlvPacketEnd t buf = .error .addOverflow ∨
      ∃ n, tlvPacketEnd t buf = .ok (some n) ∧ n ≤ buf.length ∧ ¬ IsTlv (buf.take n) := by
  simp only [Bounded, not_forall] at h
  obtain ⟨header, n, ha, hno⟩ := h
  obtain ⟨hge, hno⟩ := not_or.mp hno
  rw [tlvPacketEnd_announced ha, addUsize_castUsize]
  by_cases hp : t.overflowChecks = true ∧ 2 ^ t.usize.bits ≤ header + n % 2 ^ t.usize.bits
  · rw [if_pos hp]
    exact .inl rfl
  · have hlen : (header + n) % 2 ^ t.usize.bits ≤ buf.length := by
      by_contra hlt
      exact hno ⟨fun hc => by by_contra hge; exact hp ⟨hc, by omega⟩, by omega⟩
    have hmod := Nat.mod_lt (header + n) (Nat.two_pow_pos t.usize.bits)
    rw [if_neg hp, if_neg hge]
    exact .inr ⟨_, congrArg Except.ok (if_pos hlen), hlen, not_isTlv_take ha hlen (by omega)⟩

/-! ## Calls -/

theorem assembled_eq_some {st : ReasmState} {fragment buf : Bytes}
    (h : assembled st fragment = some buf) : feed t st fragment = takePacket t ⟨buf, true⟩ := by
  cases fragment with
  | nil => cases h
  | cons first rest =>
    simp only [assembled] at h
    simp only [feed]
    split at h
    · rename_i hh
      cases h
      exact if_pos hh
    · rename_i hh
      split at h
      · rename_i ha
        cases h
        rw [if_neg hh, if_pos ha, ha]
      · cases h

theorem assembled_eq_none {st : ReasmState} {fragment : Bytes}
    (h : assembled st fragment = none) : ∃ out, feed t st fragment = .ok (st, out) := by
  cases fragment with
  | nil => exact ⟨none, rfl⟩
  | cons first rest =>
    simp only [assembled] at h
    simp only [feed]
    split at h
    · cases h
    · rename_i hh
      split at h
      · cases h
      · rename_i ha
        exact ⟨_, by rw [if_neg hh, if_neg ha]⟩

theorem takePacket_cut {buf : Bytes} {n : Nat} (h : tlvPacketEnd t buf = .ok (some n))
    (hn : n ≤ buf.length) : ∃ st', takePacket t ⟨buf, true⟩ = .ok (st', some (buf.take n)) := by
  refine ⟨⟨buf.drop n, if (buf.drop n).isEmpty then false else true⟩, ?_⟩
  simp only [takePacket, h, sliceTo_of_le hn, bind, Except.bind, pure, Except.pure]

/-- **One call, exactly**: it is clean if and only if the total its buffer announces is bounded. -/
theorem handled_iff_bounded (st : ReasmState) (fragment : Bytes) :
    Handled t st fragment ↔ ∀ buf, assembled st fragment = some buf → Bounded t buf := by
  cases ha : assembled st fragment with
  | none =>
    obtain ⟨out, hf⟩ := assembled_eq_none (t := t) ha
    simp only [reduceCtorEq, false_implies, implies_true, iff_true]
    exact ⟨st, out, hf, fun h => by rw [ha] at h; cases h⟩
  | some buf =>
    have hf : feed t st fragment = takePacket t ⟨buf, true⟩ := assembled_eq_some ha
    simp only [Option.some.injEq, forall_eq', Handled, hf, ha, Option.isSome_some, true_implies]
    constructor
    · rintro ⟨st', out, htake, htlv⟩
      by_contra hb
      rcases tlvPacketEnd_of_not_bounded hb with he | ⟨n, he, hn, hbad⟩
      · simp [takePacket, he, bind, Except.bind] at htake
      · obtain ⟨st'', hcut⟩ := takePacket_cut he hn
        rw [hcut, Except.ok.injEq, Prod.mk.injEq] at htake
        exact hbad (htlv _ htake.2.symm)
    · intro hb
      rcases tlvPacketEnd_of_bounded hb with he | ⟨n, he, hn, htlv⟩
      · exact ⟨_, none, takePacket_short he, fun _ h => by cases h⟩
      · obtain ⟨st', hcut⟩ := takePacket_cut he hn
        exact ⟨st', _, hcut, fun _ h => Option.some.inj h ▸ htlv⟩

/-! ## Runs -/

theorem EachCall.imp {P Q : ReasmState → Bytes → Prop} (hPQ : ∀ st f, P st f → Q st f)
    {st : ReasmState} {fragments : List Bytes} (h : EachCall t P st fragments) :
    EachCall t Q st fragments := fun past f rest st' outs hs hp =>
  hPQ st' f (h past f rest st' outs hs hp)

theorem EachCall.tail {P : ReasmState → Bytes → Prop} {st st' : ReasmState} {f : Bytes}
    {fs : List Bytes} {out : Option Bytes} (h : EachCall t P st (f :: fs))
    (hf : feed t st f = .ok (st', out)) : EachCall t P st' fs := by
  intro past g rest st'' outs hs hp
  exact h (f :: past) g rest st'' (out :: outs) (by rw [hs, List.cons_append]) (feedAll_cons hf hp)

/-- A run of clean calls goes through to its end. -/
theorem EachCall.feedAll_ok {st : ReasmState} {fragments : List Bytes}
    (h : EachCall t (Handled t) st fragments) : ∃ r, feedAll t st fragments = .ok r := by
  induction fragments generalizing st with
  | nil => exact ⟨_, rfl⟩
  | cons f fs ih =>
    obtain ⟨st', out, hf, -⟩ := h [] f fs st [] rfl rfl
    obtain ⟨⟨st'', outs⟩, hfs⟩ := ih (h.tail hf)
    exact ⟨_, feedAll_cons hf hfs⟩

/-- **Hostile fragments, exactly**: on every target a run from a new reassembler goes through,
and every packet cut from the buffer is one TLV element, if and only if the totals announced
at each call are bounded. -/
theorem handled_iff (t : Target) (fragments : List Bytes) :
    ((∃ r, feedAll t .fresh fragments = .ok r) ∧ EachCall t (Handled t) .fresh fragments) ↔
      EachCall t (fun st f => ∀ buf, assembled st f = some buf → Bounded t buf) .fresh
        fragments := by
  constructor
  · rintro ⟨-, h⟩
    exact h.imp fun st f => (handled_iff_bounded st f).mp
  · intro h
    have hc := h.imp fun st f => (handled_iff_bounded st f).mpr
    exact ⟨hc.feedAll_ok, hc⟩

/-- A nine-byte length of `2 ^ 64 - 10` behind a one-byte type: the total wraps to zero. -/
def wrappingFragment : Bytes := 0x80 :: 6 :: 255 :: [255, 255, 255, 255, 255, 255, 255, 246]

/-- On a phone the empty packet comes out. -/
theorem handled_fails : ¬ ∀ (t : Target) (fragments : List Bytes),
    (∃ r, feedAll t .fresh fragments = .ok r) ∧ EachCall t (Handled t) .fresh fragments := by
  intro h
  have hcall := (h .mobile [wrappingFragment]).2 [] _ [] .fresh [] rfl rfl
  have hb := (handled_iff_bounded _ _).mp hcall _ rfl 10 (2 ^ 64 - 10) (by decide)
  exact absurd hb (by decide)

end NdnMobile.Codec
