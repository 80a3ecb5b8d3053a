import NdnMobile.Codec.Frame

/-!
# The NDNts reassembler

`feed` is `NdntsReassembler::feed`: a frame with bit 7 set starts a new buffer, one
with bit 7 clear extends the buffer while a reassembly is in progress and is handed
back as it is (an unfragmented packet) otherwise. `feedAll` feeds a list of frames.

A cut packet is reassembled from every state (`feedAll_peerCut`), so a stream of
packets, each framed its own way, comes out packet by packet (`feedAll_stream`). A bare
packet is only recognised while no reassembly is in progress (`delivers_iff`).
-/

namespace NdnMobile.Codec

open NdnMobile.Lib

structure ReasmState where
  buffer : Bytes
  active : Bool
  deriving DecidableEq, Repr

/-- `NdntsReassembler::new`, and what `reset` goes back to. -/
def ReasmState.fresh : ReasmState := ⟨[], false⟩

/-- The end of `feed`: cut the first packet off the buffer if it is complete. -/
def takePacket (t : Target) (st : ReasmState) : Except Panic (ReasmState × Option Bytes) := do
  match ← tlvPacketEnd t st.buffer with
  | none => return (st, none)
  | some stop =>
    let pkt ← sliceTo st.buffer stop
    let buffer := st.buffer.drop stop
    return (⟨buffer, if buffer.isEmpty then false else st.active⟩, some pkt)

/-- `NdntsReassembler::feed`. -/
def feed (t : Target) (st : ReasmState) (fragment : Bytes) :
    Except Panic (ReasmState × Option Bytes) :=
  match fragment with
  | [] => .ok (st, none)
  | first :: rest =>
    if first &&& 0x80 ≠ 0 then takePacket t ⟨rest, true⟩
    else if st.active then takePacket t ⟨st.buffer ++ rest, st.active⟩
    else .ok (st, some fragment)

/-- Feed frames in order and collect what each call returns. -/
def feedAll (t : Target) : ReasmState → List Bytes →
    Except Panic (ReasmState × List (Option Bytes))
  | st, [] => .ok (st, [])
  | st, f :: fs => do
    let (st, out) ← feed t st f
    let (st, outs) ← feedAll t st fs
    return (st, out :: outs)

/-- A packet the link carries: one TLV element, its first byte below `0x80` as every NDN
packet type is, that fits in a `Vec<u8>`. -/
structure Packet (t : Target) where
  wire : Bytes
  isTlv : IsTlv wire
  typ_lt : wire.headD 0 < 0x80
  fits : wire.length ≤ t.isizeMax

variable {t : Target}

theorem Packet.delimits (p : Packet t) : Delimits (tlvPacketEnd t) p.wire :=
  tlvPacketEnd_delimits p.isTlv p.fits

theorem Packet.wire_ne_nil (p : Packet t) : p.wire ≠ [] := List.ne_nil_of_length_pos p.isTlv.pos

theorem and_high_of_lt {b : UInt8} (h : b < 0x80) : b &&& 0x80 = 0 := by
  have hb : ∀ n < 128, UInt8.ofNat n &&& 0x80 = 0 := by decide
  have := hb b.toNat (UInt8.lt_iff_toNat_lt.mp h)
  rwa [UInt8.ofNat_toNat] at this

/-- A packet's first byte passes for a continuation header. -/
theorem Packet.eq_cons (p : Packet t) : ∃ b rest, p.wire = b :: rest ∧ b &&& 0x80 = 0 := by
  obtain ⟨b, rest, hw⟩ := List.exists_cons_of_ne_nil p.wire_ne_nil
  refine ⟨b, rest, hw, and_high_of_lt ?_⟩
  have := p.typ_lt
  rwa [hw] at this

/-! ## One call -/

theorem feed_first {h : UInt8} (hh : h &&& 0x80 ≠ 0) (st : ReasmState) (p : Bytes) :
    feed t st (h :: p) = takePacket t ⟨p, true⟩ := if_pos hh

theorem feed_cont {h : UInt8} (hh : h &&& 0x80 = 0) (buf p : Bytes) :
    feed t ⟨buf, true⟩ (h :: p) = takePacket t ⟨buf ++ p, true⟩ := by
  simp [feed, hh]

theorem feed_idle {h : UInt8} (hh : h &&& 0x80 = 0) {st : ReasmState} (hs : st.active = false)
    (p : Bytes) : feed t st (h :: p) = .ok (st, some (h :: p)) := by
  simp [feed, hh, hs]

theorem takePacket_short {buf : Bytes} {a : Bool} (h : tlvPacketEnd t buf = .ok none) :
    takePacket t ⟨buf, a⟩ = .ok (⟨buf, a⟩, none) := by
  simp [takePacket, h, bind, Except.bind, pure, Except.pure]

/-- A buffer that starts with a delimited word gives the word. -/
theorem takePacket_begins {buf w : Bytes} {a : Bool} (hd : Delimits (tlvPacketEnd t) w)
    (hp : w <+: buf) : takePacket t ⟨buf, a⟩ =
      .ok (⟨buf.drop w.length, if (buf.drop w.length).isEmpty then false else a⟩, some w) := by
  obtain ⟨he, htake⟩ := hd.of_prefix hp
  simp [takePacket, he, sliceTo_of_le hp.length_le, htake, bind, Except.bind, pure, Except.pure]

theorem takePacket_whole {w : Bytes} {a : Bool} (hd : Delimits (tlvPacketEnd t) w) :
    takePacket t ⟨w, a⟩ = .ok (.fresh, some w) := by
  rw [takePacket_begins hd (List.prefix_refl w)]
  simp [ReasmState.fresh]

/-- Whatever packet a call cuts out is what the buffer starts with. -/
theorem takePacket_some {st st' : ReasmState} {w : Bytes}
    (h : takePacket t st = .ok (st', some w)) : w <+: st.buffer := by
  unfold takePacket at h
  cases he : tlvPacketEnd t st.buffer with
  | error e => simp [he, bind, Except.bind] at h
  | ok stop =>
    cases stop with
    | none => simp [he, bind, Except.bind, pure, Except.pure] at h
    | some n =>
      by_cases hn : n ≤ st.buffer.length
      · simp only [he, sliceTo_of_le hn, bind, Except.bind, pure, Except.pure, Except.ok.injEq,
          Prod.mk.injEq, Option.some.injEq] at h
        exact h.2 ▸ List.take_prefix ..
      · simp [he, sliceTo, hn, bind, Except.bind] at h

/-! ## Frames of one packet -/

theorem feedAll_cons {st st1 st2 : ReasmState} {f : Bytes} {fs : List Bytes} {out : Option Bytes}
    {outs : List (Option Bytes)} (h1 : feed t st f = .ok (st1, out))
    (h2 : feedAll t st1 fs = .ok (st2, outs)) :
    feedAll t st (f :: fs) = .ok (st2, out :: outs) := by
  simp [feedAll, h1, h2, bind, Except.bind, pure, Except.pure]

theorem feedAll_append {st st1 st2 : ReasmState} {fs gs : List Bytes}
    {outs outs' : List (Option Bytes)} (h1 : feedAll t st fs = .ok (st1, outs))
    (h2 : feedAll t st1 gs = .ok (st2, outs')) :
    feedAll t st (fs ++ gs) = .ok (st2, outs ++ outs') := by
  induction fs generalizing st outs with
  | nil =>
    simp only [feedAll, Except.ok.injEq, Prod.mk.injEq] at h1
    obtain ⟨rfl, rfl⟩ := h1
    exact h2
  | cons f fs ih =>
    cases hf : feed t st f with
    | error e => simp [feedAll, hf, bind, Except.bind] at h1
    | ok r =>
      obtain ⟨sf, out⟩ := r
      cases hfs : feedAll t sf fs with
      | error e => simp [feedAll, hf, hfs, bind, Except.bind] at h1
      | ok r =>
        obtain ⟨s1, os⟩ := r
        simp only [feedAll, hf, hfs, bind, Except.bind, pure, Except.pure, Except.ok.injEq,
          Prod.mk.injEq] at h1
        obtain ⟨rfl, rfl⟩ := h1
        exact feedAll_cons hf (ih hfs)

/-- The outputs of a packet sent in `n` frames: nothing until the last one. -/
def packetOuts (n : Nat) (w : Bytes) : List (Option Bytes) :=
  List.replicate (n - 1) none ++ [some w]

theorem packetOuts_succ {n : Nat} (hn : 0 < n) (w : Bytes) :
    packetOuts (n + 1) w = none :: packetOuts n w := by
  obtain ⟨k, rfl⟩ : ∃ k, n = k + 1 := ⟨n - 1, by omega⟩
  rfl

theorem Tail.length_pos {rest : Bytes} {fs : List Bytes} (h : Tail rest fs) : 0 < fs.length := by
  cases h <;> simp

/-- Continuations complete the word in the buffer at the last of them. The invariant is that
the buffer and what is still to come make up the word. -/
theorem feedAll_tail {w rest : Bytes} {fs : List Bytes} (hd : Delimits (tlvPacketEnd t) w)
    (h : Tail rest fs) : ∀ {buf : Bytes}, buf ++ rest = w →
      feedAll t ⟨buf, true⟩ fs = .ok (.fresh, packetOuts fs.length w) := by
  induction h with
  | last hh _ =>
    intro buf hw
    refine feedAll_cons ?_ rfl
    rw [feed_cont hh, hw, takePacket_whole hd]
  | more hh ht ih =>
    intro buf hw
    rw [← List.append_assoc] at hw
    rw [List.length_cons, packetOuts_succ ht.length_pos]
    refine feedAll_cons ?_ (ih hw)
    rw [feed_cont hh, takePacket_short (hd.short_of_append hw ht.ne_nil)]

/-- A cut packet is reassembled whatever state the reassembler was left in. -/
theorem feedAll_peerCut {w : Bytes} {fs : List Bytes} (hd : Delimits (tlvPacketEnd t) w)
    (h : PeerCut w fs) (st : ReasmState) :
    feedAll t st fs = .ok (.fresh, packetOuts fs.length w) := by
  cases h with
  | whole hh =>
    refine feedAll_cons ?_ rfl
    rw [feed_first hh, takePacket_whole hd]
  | cut hh ht hw =>
    rw [List.length_cons, packetOuts_succ ht.length_pos]
    refine feedAll_cons ?_ (feedAll_tail hd ht hw.symm)
    rw [feed_first hh, takePacket_short (hd.short_of_append hw.symm ht.ne_nil)]

/-- A bare packet passes through a reassembler that is not in the middle of a packet. -/
theorem feedAll_bare (p : Packet t) {st : ReasmState} (hs : st.active = false) :
    feedAll t st [p.wire] = .ok (st, packetOuts 1 p.wire) := by
  obtain ⟨b, rest, hw, hb⟩ := p.eq_cons
  rw [hw]
  exact feedAll_cons (feed_idle hb hs rest) rfl

/-! ## Streams -/

/-- The two ways a packet becomes frames. -/
inductive Framing (w : Bytes) : List Bytes → Prop where
  | ndnts {m : UInt32} {fs : List Bytes} : 2 ≤ m.toNat → fs = ndntsFrame w m → Framing w fs
  | peer {fs : List Bytes} : PeerCut w fs → Framing w fs

/-- A packet with the frames it was sent in. -/
structure SentPacket (t : Target) extends Packet t where
  frames : List Bytes
  framing : Framing wire frames

theorem SentPacket.feedAll_fresh (p : SentPacket t) :
    feedAll t .fresh p.frames = .ok (.fresh, packetOuts p.frames.length p.wire) := by
  cases p.framing with
  | peer h => exact feedAll_peerCut p.delimits h _
  | @ndnts m _ hm hf =>
    rw [hf]
    rcases Nat.lt_or_ge m.toNat p.wire.length with hlt | hge
    · exact feedAll_peerCut p.delimits (ndntsFrame_peerCut hm hlt) _
    · rw [ndntsFrame_bare hge]
      exact feedAll_bare p.toPacket rfl

/-- **Framing round trip over streams**: a fresh reassembler returns every packet at the last
of its frames and nothing before, and is fresh again at the end. -/
theorem feedAll_stream (ps : List (SentPacket t)) :
    feedAll t .fresh (ps.flatMap (·.frames)) =
      .ok (.fresh, ps.flatMap fun p => packetOuts p.frames.length p.wire) := by
  induction ps with
  | nil => rfl
  | cons p ps ih =>
    rw [List.flatMap_cons, List.flatMap_cons]
    exact feedAll_append p.feedAll_fresh ih

/-! ## Resynchronisation -/

/-- Feeding `frames` hands `w` over at the last of them. -/
def Delivers (t : Target) (st : ReasmState) (frames : List Bytes) (w : Bytes) : Prop :=
  ∃ st' outs, feedAll t st frames = .ok (st', outs) ∧ outs.getLast? = some (some w)

/-- A state some sequence of `feed` calls leads to. -/
def Reachable (t : Target) (st : ReasmState) : Prop :=
  ∃ frames outs, feedAll t .fresh frames = .ok (st, outs)

theorem packetOuts_getLast (n : Nat) (w : Bytes) : (packetOuts n w).getLast? = some (some w) := by
  simp [packetOuts]

/-- A bare packet fed in the middle of a reassembly loses its first byte to the header
position, so it comes out only if the buffer and the rest of it happen to spell it. -/
theorem delivers_bare_active (p : Packet t) {st : ReasmState} (hs : st.active = true) :
    Delivers t st [p.wire] p.wire ↔ p.wire <+: st.buffer ++ p.wire.tail := by
  obtain ⟨b, rest, hw, hb⟩ := p.eq_cons
  obtain ⟨buf, a⟩ := st
  subst hs
  have hf : feed t ⟨buf, true⟩ p.wire = takePacket t ⟨buf ++ p.wire.tail, true⟩ := by
    rw [hw]
    exact feed_cont hb buf rest
  constructor
  · rintro ⟨st', outs, hall, hlast⟩
    cases hk : takePacket t ⟨buf ++ p.wire.tail, true⟩ with
    | error e => simp [feedAll, hf, hk, bind, Except.bind] at hall
    | ok r =>
      simp only [feedAll, hf, hk, bind, Except.bind, pure, Except.pure, Except.ok.injEq,
        Prod.mk.injEq] at hall
      obtain ⟨-, rfl⟩ := hall
      simp only [List.getLast?_singleton, Option.some.injEq] at hlast
      have hr : takePacket t ⟨buf ++ p.wire.tail, true⟩ = .ok (r.1, some p.wire) := by
        rw [hk, ← hlast]
      exact takePacket_some hr
  · intro hp
    exact ⟨_, _, feedAll_cons (hf.trans (takePacket_begins p.delimits hp)) rfl, rfl⟩

/-- **Resynchronisation, exactly**: from a state `feed` left behind, the frames of a packet
deliver it if and only if it is long enough to be cut, or no reassembly is in progress, or
the leftover buffer happens to stand for the packet's first byte. -/
theorem delivers_iff (st : ReasmState) (p : Packet t) (m : UInt32) (hm : 2 ≤ m.toNat) :
    Delivers t st (ndntsFrame p.wire m) p.wire ↔
      m.toNat < p.wire.length ∨ st.active = false ∨ p.wire <+: st.buffer ++ p.wire.tail := by
  rcases Nat.lt_or_ge m.toNat p.wire.length with hlt | hge
  · simp only [hlt, true_or, iff_true]
    exact ⟨_, _, feedAll_peerCut p.delimits (ndntsFrame_peerCut hm hlt) st, packetOuts_getLast ..⟩
  rw [ndntsFrame_bare hge]
  cases hs : st.active with
  | false =>
    simp only [true_or, or_true, iff_true]
    exact ⟨_, _, feedAll_bare p hs, packetOuts_getLast ..⟩
  | true =>
    rw [delivers_bare_active p hs]
    simp [Nat.not_lt.mpr hge]

/-- A packet of which nothing but the first fragment arrived. -/
theorem reachable_afterLoss : Reachable .mobile ⟨[6, 4, 1], true⟩ :=
  ⟨[[0x80, 6, 4, 1]], [none], rfl⟩

def longPacket : Packet .mobile where
  wire := [5, 4, 1, 2, 3, 4]
  isTlv := ⟨[5], 5, [4], [1, 2, 3, 4], .one (by decide), .one (b := 4) (by decide), rfl⟩
  typ_lt := by decide
  fits := by decide

/-- A packet sent in fragments comes out after it. -/
theorem delivers_iff_longPacket :
    Delivers .mobile ⟨[6, 4, 1], true⟩ (ndntsFrame longPacket.wire 3) longPacket.wire :=
  (delivers_iff ⟨[6, 4, 1], true⟩ longPacket 3 (by decide)).mpr (.inl (by decide))

def shortPacket : Packet .mobile where
  wire := [5, 1, 7]
  isTlv := ⟨[5], 5, [1], [7], .one (by decide), .one (b := 1) (by decide), rfl⟩
  typ_lt := by decide
  fits := by decide

/-- A bare packet is swallowed. -/
theorem delivers_fails : ¬ ∀ (st : ReasmState) (p : Packet .mobile) (m : UInt32),
    Reachable .mobile st → 2 ≤ m.toNat →
      Delivers .mobile st (ndntsFrame p.wire m) p.wire := by
  intro h
  obtain ⟨st, outs, hall, hlast⟩ := h _ shortPacket 64 reachable_afterLoss (by decide)
  rw [ndntsFrame_bare (by decide)] at hall
  have hfeed : feedAll .mobile ⟨[6, 4, 1], true⟩ [shortPacket.wire] =
      .ok (⟨[6, 4, 1, 1, 7], true⟩, [none]) := rfl
  rw [hfeed, Except.ok.injEq, Prod.mk.injEq] at hall
  rw [← hall.2] at hlast
  cases hlast

end NdnMobile.Codec
