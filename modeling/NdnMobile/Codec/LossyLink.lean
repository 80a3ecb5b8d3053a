import NdnMobile.Codec.Reassembler
import NdnMobile.Lib.Lossy

/-!
# Reassembly over a lossy link

Packets framed by `ndntsFrame` travel as `LinkFrame`s, each tagged with its packet and
its position there; the link drops and duplicates them. `feed` never looks at the
sequence number in a header, so it cannot tell a continuation from a bare packet or a
gap from the next fragment. What it returns is a sent packet as long as each frame
received continues the one before it (`Follows`): `feedAll_lossy`.
-/

namespace NdnMobile.Codec

open NdnMobile.Lib

/-- A packet and the `max_payload` it is framed with. -/
structure NdntsPacket (t : Target) extends Packet t where
  maxPayload : UInt32
  two_le : 2 ≤ maxPayload.toNat

def NdntsPacket.frames {t : Target} (p : NdntsPacket t) : List Bytes :=
  ndntsFrame p.wire p.maxPayload

/-- A frame on the link: frame `idx` of packet `msg`, and whether it is that packet's last. -/
structure LinkFrame where
  msg : Nat
  idx : Nat
  last : Bool
  bytes : Bytes
  deriving DecidableEq, Repr

def linkFrames (msg : Nat) (frames : List Bytes) : List LinkFrame :=
  frames.mapIdx fun i f => ⟨msg, i, i + 1 == frames.length, f⟩

/-- All frames of the sent packets, in order. -/
def linkStream {t : Target} (sent : List (NdntsPacket t)) : List LinkFrame :=
  (sent.mapIdx fun i p => linkFrames i p.frames).flatten

/-- `f` may come after `prev` without a gap or a repeat: a continuation right after the frame
before it, a bare packet not in the middle of another packet. -/
def Follows (prev : Option LinkFrame) (f : LinkFrame) : Prop :=
  (0 < f.idx → ∃ g, prev = some g ∧ g.msg = f.msg ∧ g.idx + 1 = f.idx) ∧
  (f.idx = 0 → f.last = true → ∀ g, prev = some g → g.last = true)

def InOrder : Option LinkFrame → List LinkFrame → Prop
  | _, [] => True
  | prev, f :: fs => Follows prev f ∧ InOrder (some f) fs

/-- Every packet `feed` returns on these frames is one of the packets sent. -/
def Intact {t : Target} (sent : List (NdntsPacket t)) (received : List LinkFrame) : Prop :=
  ∃ st outs, feedAll t .fresh (received.map (·.bytes)) = .ok (st, outs) ∧
    ∀ w, some w ∈ outs → ∃ p ∈ sent, p.wire = w

variable {t : Target} {sent : List (NdntsPacket t)}

/-- What the tags of a frame on the link say. -/
structure FrameOf (sent : List (NdntsPacket t)) (f : LinkFrame) (p : NdntsPacket t) : Prop where
  packet : sent[f.msg]? = some p
  frame : p.frames[f.idx]? = some f.bytes
  last : f.last = (f.idx + 1 == p.frames.length)

theorem frameOf_of_mem {f : LinkFrame} (h : f ∈ linkStream sent) : ∃ p, FrameOf sent f p := by
  obtain ⟨l, hl, hf⟩ := List.mem_flatten.mp h
  obtain ⟨i, hi, rfl⟩ := List.mem_mapIdx.mp hl
  obtain ⟨j, hj, rfl⟩ := List.mem_mapIdx.mp hf
  exact ⟨sent[i], ⟨List.getElem?_eq_getElem hi, List.getElem?_eq_getElem hj, rfl⟩⟩

theorem FrameOf.mem {f : LinkFrame} {p : NdntsPacket t} (h : FrameOf sent f p) : p ∈ sent :=
  List.mem_of_getElem? h.packet

/-- The reassembly of `p` after its first `k` frames. -/
def Partial (p : NdntsPacket t) (k : Nat) (buf : Bytes) : Prop :=
  ∃ rest, Tail rest (p.frames.drop k) ∧ buf ++ rest = p.wire

/-- **Invariant**: the reassembler holds the fragments of the packet the last frame belongs
to, up to that frame, and nothing after a packet's last frame. -/
def Tracks (sent : List (NdntsPacket t)) (prev : Option LinkFrame) (st : ReasmState) : Prop :=
  match prev with
  | none => st.active = false
  | some g => ∃ p, FrameOf sent g p ∧
      if g.last then st.active = false else st.active = true ∧ Partial p (g.idx + 1) st.buffer

theorem Tracks.inactive {prev : Option LinkFrame} {st : ReasmState} (h : Tracks sent prev st)
    (hp : ∀ g, prev = some g → g.last = true) : st.active = false := by
  cases prev with
  | none => exact h
  | some g =>
    obtain ⟨p, -, hst⟩ := h
    rwa [if_pos (hp g rfl)] at hst

/-- How one frame is read: the reassembler still tracks the link, and what it returns is the
packet the frame belongs to. -/
def Reads (sent : List (NdntsPacket t)) (st : ReasmState) (f : LinkFrame) : Prop :=
  ∃ st' out, feed t st f.bytes = .ok (st', out) ∧ Tracks sent (some f) st' ∧
    ∀ w, out = some w → ∃ p ∈ sent, p.wire = w

theorem reads_bare {st : ReasmState} {f : LinkFrame} {p : NdntsPacket t} (hf : FrameOf sent f p)
    (hb : p.frames = [p.wire]) (hidx : f.idx = 0) (hs : st.active = false) : Reads sent st f := by
  have hbytes : f.bytes = p.wire := by
    have := hf.frame
    rw [hb, hidx] at this
    exact (Option.some.inj this).symm
  obtain ⟨b, rest, hw, hhi⟩ := p.eq_cons
  refine ⟨st, some p.wire, ?_, ⟨p, hf, ?_⟩, fun w h => ⟨p, hf.mem, Option.some.inj h⟩⟩
  · rw [hbytes, hw, feed_idle hhi hs]
  · rw [hf.last, hb, hidx]
    exact hs

theorem reads_first {st : ReasmState} {f : LinkFrame} {p : NdntsPacket t} (hf : FrameOf sent f p)
    {hd : UInt8} {p0 rest : Bytes} {fs : List Bytes} (hh : hd &&& 0x80 ≠ 0) (ht : Tail rest fs)
    (hw : p.wire = p0 ++ rest) (hfs : p.frames = (hd :: p0) :: fs) (hidx : f.idx = 0) :
    Reads sent st f := by
  have hbytes : f.bytes = hd :: p0 := by
    have := hf.frame
    rw [hfs, hidx] at this
    exact (Option.some.inj this).symm
  refine ⟨⟨p0, true⟩, none, ?_, ⟨p, hf, ?_⟩, fun w h => by cases h⟩
  · rw [hbytes, feed_first hh, takePacket_short (p.delimits.short_of_append hw.symm ht.ne_nil)]
  · have hl : f.last = false := by
      have := ht.length_pos
      rw [hf.last, hfs, hidx]
      simp only [List.length_cons, beq_eq_false_iff_ne]
      omega
    rw [hl]
    refine ⟨rfl, rest, ?_, hw.symm⟩
    rw [hfs, hidx]
    exact ht

theorem reads_cont {st : ReasmState} {f : LinkFrame} {p : NdntsPacket t} (hf : FrameOf sent f p)
    (hs : st.active = true) (hp : Partial p f.idx st.buffer) : Reads sent st f := by
  obtain ⟨buf, a⟩ := st
  subst hs
  obtain ⟨rest, ht, hw⟩ := hp
  obtain ⟨hlt, hget⟩ := List.getElem?_eq_some_iff.mp hf.frame
  have hdrop : p.frames.drop f.idx = f.bytes :: p.frames.drop (f.idx + 1) := by
    rw [List.drop_eq_getElem_cons hlt, hget]
  rw [hdrop] at ht
  generalize hfs : p.frames.drop (f.idx + 1) = fs at ht
  generalize hby : f.bytes = bytes at ht
  have hlen : fs.length = p.frames.length - (f.idx + 1) := by rw [← hfs, List.length_drop]
  cases ht with
  | last hh _ =>
    refine ⟨.fresh, some p.wire, ?_, ⟨p, hf, ?_⟩, fun w h => ⟨p, hf.mem, Option.some.inj h⟩⟩
    · rw [hby, feed_cont hh, hw, takePacket_whole p.delimits]
    · have hl : f.last = true := by
        rw [hf.last, beq_iff_eq]
        simp only [List.length_nil] at hlen
        omega
      rw [hl]
      rfl
  | @more _ q rest' _ hh ht =>
    rw [← List.append_assoc] at hw
    refine ⟨⟨buf ++ q, true⟩, none, ?_, ⟨p, hf, ?_⟩, fun w h => by cases h⟩
    · rw [hby, feed_cont hh, takePacket_short (p.delimits.short_of_append hw ht.ne_nil)]
    · have hl : f.last = false := by
        have := ht.length_pos
        rw [hf.last, beq_eq_false_iff_ne]
        omega
      rw [hl]
      exact ⟨rfl, rest', by rw [hfs]; exact ht, hw⟩

/-- One frame received in order. -/
theorem reads_of_follows {prev : Option LinkFrame} {st : ReasmState} {f : LinkFrame}
    (ht : Tracks sent prev st) (hmem : f ∈ linkStream sent) (hf : Follows prev f) :
    Reads sent st f := by
  obtain ⟨p, hp⟩ := frameOf_of_mem hmem
  rcases Nat.eq_zero_or_pos f.idx with hidx | hidx
  · rcases Nat.lt_or_ge p.maxPayload.toNat p.wire.length with hlt | hge
    · obtain ⟨hd, p0, rest, fs, hh, htl, hw, hfs⟩ := ndntsFrame_cut p.two_le hlt
      exact reads_first hp hh htl hw hfs hidx
    · have hb : p.frames = [p.wire] := ndntsFrame_bare hge
      have hl : f.last = true := by rw [hp.last, hb, hidx]; rfl
      exact reads_bare hp hb hidx (ht.inactive (hf.2 hidx hl))
  · obtain ⟨g, rfl, hmsg, hsucc⟩ := hf.1 hidx
    obtain ⟨p', hp', hst⟩ := ht
    obtain rfl : p' = p := by
      have h1 := hp'.packet
      rw [hmsg, hp.packet] at h1
      exact (Option.some.inj h1).symm
    have hl : g.last = false := by
      obtain ⟨hlt, -⟩ := List.getElem?_eq_some_iff.mp hp.frame
      rw [hp'.last, beq_eq_false_iff_ne]
      omega
    rw [hl, hsucc] at hst
    exact reads_cont hp hst.1 hst.2

theorem feedAll_inOrder : ∀ {received : List LinkFrame} {prev : Option LinkFrame} {st : ReasmState},
    Tracks sent prev st → (∀ f ∈ received, f ∈ linkStream sent) → InOrder prev received →
      ∃ st' outs, feedAll t st (received.map (·.bytes)) = .ok (st', outs) ∧
        ∀ w, some w ∈ outs → ∃ p ∈ sent, p.wire = w
  | [], _, st, _, _, _ => ⟨st, [], rfl, fun _ h => by cases h⟩
  | f :: fs, prev, st, ht, hmem, ho => by
    obtain ⟨st1, out, hfeed, ht1, hout⟩ :=
      reads_of_follows ht (hmem f List.mem_cons_self) ho.1
    obtain ⟨st2, outs, hall, houts⟩ :=
      feedAll_inOrder ht1 (fun g hg => hmem g (List.mem_cons_of_mem _ hg)) ho.2
    refine ⟨st2, out :: outs, feedAll_cons hfeed hall, fun w hw => ?_⟩
    rcases List.mem_cons.mp hw with h | h
    · exact hout w h.symm
    · exact houts w h

/-- **Integrity over a lossy link**, as far as it goes: if no frame is received out of step
with the one before it, every packet returned was sent. -/
theorem feedAll_lossy (sent : List (NdntsPacket t)) (received : List LinkFrame)
    (hl : Lossy (linkStream sent) received) (ho : InOrder none received) :
    Intact sent received := by
  have ht : Tracks sent none ReasmState.fresh := rfl
  exact feedAll_inOrder ht (fun _ hf => hl.mem hf) ho

/-- A six-byte packet in three frames. -/
def threeFrames : NdntsPacket .mobile where
  wire := [6, 4, 1, 2, 3, 4]
  isTlv := ⟨[6], 6, [4], [1, 2, 3, 4], .one (by decide), .one (b := 4) (by decide), rfl⟩
  typ_lt := by decide
  fits := by decide
  maxPayload := 3
  two_le := by decide

theorem threeFrames_frames : threeFrames.frames = [[0x80, 6, 4], [1, 1, 2], [2, 3, 4]] := by
  simp [NdntsPacket.frames, threeFrames, ndntsFrame, ndntsFrameLoop]
  decide

theorem linkStream_threeFrames : linkStream [threeFrames] =
    [⟨0, 0, false, [0x80, 6, 4]⟩, ⟨0, 1, false, [1, 1, 2]⟩, ⟨0, 2, true, [2, 3, 4]⟩] := by
  simp [linkStream, linkFrames, threeFrames_frames, List.mapIdx_cons]

def otherFrames : NdntsPacket .mobile where
  wire := [6, 4, 5, 6, 7, 8]
  isTlv := ⟨[6], 6, [4], [5, 6, 7, 8], .one (by decide), .one (b := 4) (by decide), rfl⟩
  typ_lt := by decide
  fits := by decide
  maxPayload := 3
  two_le := by decide

/-- A packet short enough to go out bare. -/
def oneFrame : NdntsPacket .mobile := { shortPacket with maxPayload := 64, two_le := by decide }

def mixedFrames : List (NdntsPacket .mobile) := [threeFrames, otherFrames, oneFrame]

theorem linkStream_mixedFrames : linkStream mixedFrames =
    [⟨0, 0, false, [0x80, 6, 4]⟩, ⟨0, 1, false, [1, 1, 2]⟩, ⟨0, 2, true, [2, 3, 4]⟩,
      ⟨1, 0, false, [0x80, 6, 4]⟩, ⟨1, 1, false, [1, 5, 6]⟩, ⟨1, 2, true, [2, 7, 8]⟩,
      ⟨2, 0, true, [5, 1, 7]⟩] := by
  have hother : otherFrames.frames = [[0x80, 6, 4], [1, 5, 6], [2, 7, 8]] := by
    simp [NdntsPacket.frames, otherFrames, ndntsFrame, ndntsFrameLoop]
    decide
  have hone : oneFrame.frames = [[5, 1, 7]] := ndntsFrame_bare (by decide)
  simp [linkStream, mixedFrames, linkFrames, threeFrames_frames, hother, hone, List.mapIdx_cons]

/-- The last frame of the first packet lost, the first frame of the second one doubled. -/
def inStepFrames : List LinkFrame :=
  [⟨0, 0, false, [0x80, 6, 4]⟩, ⟨0, 1, false, [1, 1, 2]⟩,
    ⟨1, 0, false, [0x80, 6, 4]⟩, ⟨1, 0, false, [0x80, 6, 4]⟩, ⟨1, 1, false, [1, 5, 6]⟩,
    ⟨1, 2, true, [2, 7, 8]⟩, ⟨2, 0, true, [5, 1, 7]⟩]

theorem inOrder_inStepFrames : InOrder none inStepFrames := by
  simp [inStepFrames, InOrder, Follows]

/-- The second and the third packet come out. -/
theorem feedAll_lossy_mixedFrames : Intact mixedFrames inStepFrames ∧
    feedAll .mobile .fresh (inStepFrames.map (·.bytes)) =
      .ok (.fresh, [none, none, none, none, none, some otherFrames.wire, some oneFrame.wire]) := by
  refine ⟨feedAll_lossy mixedFrames inStepFrames ?_ inOrder_inStepFrames, rfl⟩
  rw [linkStream_mixedFrames]
  exact .copy (.drop (.copy (.drop (.drop (.copy (.copy (.drop (.copy (.drop (.copy (.drop
    (.copy (.drop .done)))))))))))))

/-- With the middle frame lost and the last one doubled, six bytes that were never sent add
up to the announced length. -/
theorem lossy_garbles : ¬ ∀ (sent : List (NdntsPacket .mobile)) (received : List LinkFrame),
    Lossy (linkStream sent) received → Intact sent received := by
  intro h
  let received : List LinkFrame :=
    [⟨0, 0, false, [0x80, 6, 4]⟩, ⟨0, 2, true, [2, 3, 4]⟩, ⟨0, 2, true, [2, 3, 4]⟩]
  have hl : Lossy (linkStream [threeFrames]) received := by
    rw [linkStream_threeFrames]
    exact .copy (.drop (.drop (.copy (.copy (.drop .done)))))
  have hfeed : feedAll .mobile .fresh (received.map (·.bytes)) =
      .ok (.fresh, [none, none, some [6, 4, 3, 4, 3, 4]]) := by rfl
  obtain ⟨st, outs, hall, hout⟩ := h [threeFrames] received hl
  rw [hfeed, Except.ok.injEq, Prod.mk.injEq] at hall
  obtain ⟨p, hp, hw⟩ := hout [6, 4, 3, 4, 3, 4] (by rw [← hall.2]; simp)
  rw [List.mem_singleton.mp hp] at hw
  exact absurd hw (by decide)

end NdnMobile.Codec
