import MiniNet.NatStack.NatNew2.Code

/-!
# Closing a connection in `nat_new_2.c`

A flow is to be finished when both sides have sent a FIN and each has acknowledged the other's. What
`nat_update_tcp_connection` keeps for `is_flow_finished` is the latest segment of each side: its FIN
bit and its two numbers, overwritten by the next segment of the side whatever they were. The numbers
are kept as they stand in the packet, and one is added to them as they are.

So a FIN counts until its sender sends anything else, such as the acknowledgment that ends a close,
and where both latest segments are FINs, the test adds one at the wrong end of the number. Whatever
the numbers, the answer can only be relied on while the FINs and the order in which the sides send
leave no room for a close, or for what the test takes to be one.
-/

namespace MiniNet.NatStack

open Lib

def tcpFin : UInt8 := 0x01

namespace Packet

variable (p : Packet)

/-- `tcp_hdr->flags & TCP_FIN`. -/
def fin : UInt8 := TcpHdr.flags p.bytes (packetToTcpHdr p.bytes) &&& tcpFin

def seq : UInt32 := TcpHdr.seq p.bytes (packetToTcpHdr p.bytes)

def ack : UInt32 := TcpHdr.ack p.bytes (packetToTcpHdr p.bytes)

end Packet

namespace NatNew2

/-- What becomes of `mapping->conn`. -/
def natUpdateTcpConnection (packet : Packet) (conn : NatConnection) (dir : PacketDir) :
    NatConnection :=
  if dir = .dirIn then
    { conn with
      externalFin := packet.fin
      externalSeqEnd := packet.seq
      externalAck := packet.ack }
  else if dir = .dirOut then
    { conn with
      internalFin := packet.fin
      internalSeqEnd := packet.seq
      internalAck := packet.ack }
  else conn

/-- The segments of a flow, with their directions. -/
abbrev Segments := List (Packet × PacketDir)

/-- The connection of a new mapping after the segments. -/
def connection (segs : Segments) : NatConnection :=
  run (fun conn seg => natUpdateTcpConnection seg.1 conn seg.2) .zero segs

/-! ### What is meant -/

/-- In direction `dir` a FIN was sent, and afterwards in direction `back` its acknowledgment. -/
def FinAcknowledged (dir back : PacketDir) (segs : Segments) : Prop :=
  ∃ pre x mid y post, segs = pre ++ (x, dir) :: mid ++ (y, back) :: post ∧
    x.fin = tcpFin ∧ ntohl y.ack = ntohl x.seq + 1

def Closed (segs : Segments) : Prop :=
  FinAcknowledged .dirOut .dirIn segs ∧ FinAcknowledged .dirIn .dirOut segs

def TracksClose (segs : Segments) : Prop :=
  isFlowFinished (connection segs) = true ↔ Closed segs

/-! ### What the code keeps -/

def lastFrom (dir : PacketDir) (segs : Segments) : Option Packet :=
  (segs.findRev? fun seg => seg.2 = dir).map Prod.fst

theorem lastFrom_snoc (dir : PacketDir) (segs : Segments) (seg : Packet × PacketDir) :
    lastFrom dir (segs ++ [seg]) = if seg.2 = dir then some seg.1 else lastFrom dir segs := by
  simp only [lastFrom, List.findRev?_eq_find?_reverse, List.reverse_append, List.reverse_singleton,
    List.singleton_append, List.find?_cons]
  by_cases hdir : seg.2 = dir
  · simp [hdir]
  · simp [hdir]

/-- The latest segment of each side. -/
theorem connection_eq (segs : Segments) :
    connection segs =
      { internalFin := (lastFrom .dirOut segs).elim 0 Packet.fin
        externalFin := (lastFrom .dirIn segs).elim 0 Packet.fin
        internalSeqEnd := (lastFrom .dirOut segs).elim 0 Packet.seq
        externalSeqEnd := (lastFrom .dirIn segs).elim 0 Packet.seq
        internalAck := (lastFrom .dirOut segs).elim 0 Packet.ack
        externalAck := (lastFrom .dirIn segs).elim 0 Packet.ack } := by
  induction segs using List.reverseRecOn with
  | nil => rfl
  | append_singleton segs seg ih =>
    rw [connection, run_snoc, ← connection, ih]
    simp only [lastFrom_snoc, natUpdateTcpConnection]
    cases seg.2 with
    | dirIn => simp
    | dirOut => simp
    | dirInvalid => simp

/-- The latest segments of the two sides are FINs, and as their bytes stand in the packets each
acknowledges one more than the other's number. -/
def LatestMatch (segs : Segments) : Prop :=
  ∃ x y, lastFrom .dirIn segs = some x ∧ lastFrom .dirOut segs = some y ∧
    x.fin = tcpFin ∧ y.fin = tcpFin ∧ x.ack = y.seq + 1 ∧ y.ack = x.seq + 1

theorem isFlowFinished_connection (segs : Segments) :
    isFlowFinished (connection segs) = true ↔ LatestMatch segs := by
  rw [connection_eq, isFlowFinished, decide_eq_true_eq, LatestMatch]
  cases hin : lastFrom .dirIn segs with
  | none => simp
  | some x =>
    cases hout : lastFrom .dirOut segs with
    | none => simp
    | some y => simp [tcpFin]

/-! ### Directions and FINs -/

/-- The directions of the segments, and which of them are FINs. -/
def finPattern (segs : Segments) : List (PacketDir × Bool) :=
  segs.map fun seg => (seg.2, decide (seg.1.fin = tcpFin))

/-- A FIN of `dir` has been followed by one of `back`, and `dir` has sent again after that. -/
def SendsAfterFins (dir back : PacketDir) (pattern : List (PacketDir × Bool)) : Prop :=
  ∃ fin, [(dir, true), (back, true), (dir, fin)].Sublist pattern

/-- The latest segment of the side is a FIN. -/
def lastFin (dir : PacketDir) (pattern : List (PacketDir × Bool)) : Bool :=
  (pattern.findRev? fun x => x.1 = dir).any Prod.snd

/-- Neither side sends again after a FIN of its own that the other has followed by one, and the
latest segments of the two sides are not both FINs. -/
structure StaysOpen (pattern : List (PacketDir × Bool)) : Prop where
  inner : ¬ SendsAfterFins .dirOut .dirIn pattern
  outer : ¬ SendsAfterFins .dirIn .dirOut pattern
  last : ¬ (lastFin .dirIn pattern = true ∧ lastFin .dirOut pattern = true)

theorem lastFin_finPattern (dir : PacketDir) (segs : Segments) :
    lastFin dir (finPattern segs) = (lastFrom dir segs).any fun p => p.fin = tcpFin := by
  simp only [lastFin, lastFrom, finPattern, List.findRev?_eq_find?_reverse, ← List.map_reverse,
    List.find?_map, Function.comp_def]
  cases segs.reverse.find? fun seg => seg.2 = dir with
  | none => rfl
  | some seg => rfl

theorem finAcknowledged_iff {dir back : PacketDir} {segs : Segments} :
    FinAcknowledged dir back segs ↔ ∃ pre x post, segs = pre ++ (x, dir) :: post ∧
      x.fin = tcpFin ∧ ∃ y, (y, back) ∈ post ∧ ntohl y.ack = ntohl x.seq + 1 := by
  constructor
  · intro h
    obtain ⟨pre, x, mid, y, post, hsplit, hfin, hack⟩ := h
    exact ⟨pre, x, mid ++ (y, back) :: post, by rw [hsplit]; simp, hfin, y, by simp, hack⟩
  · intro h
    obtain ⟨pre, x, post, hsplit, hfin, y, hy, hack⟩ := h
    obtain ⟨mid, rest, rfl⟩ := List.append_of_mem hy
    exact ⟨pre, x, mid, y, rest, by rw [hsplit]; simp, hfin, hack⟩

theorem sendsAfterFins_of_split {dir back : PacketDir} {pre mid post : Segments} {x x' y : Packet}
    (hx : x.fin = tcpFin) (hx' : x'.fin = tcpFin) (hy : (y, dir) ∈ post) :
    SendsAfterFins dir back (finPattern (pre ++ (x, dir) :: (mid ++ (x', back) :: post))) := by
  have htail : [(x, dir), (x', back), (y, dir)].Sublist
      ((x, dir) :: (mid ++ (x', back) :: post)) :=
    ((List.singleton_sublist.mpr hy).cons_cons _).trans (List.sublist_append_right mid _)
      |>.cons_cons _
  have hmap := (htail.trans (List.sublist_append_right pre _)).map
    fun seg => (seg.2, decide (seg.1.fin = tcpFin))
  simp only [List.map_cons, List.map_nil, hx, hx', decide_true] at hmap
  exact ⟨_, hmap⟩

/-- A close takes a segment of the side whose FIN came first, after that of the other. -/
theorem sendsAfterFins_of_acknowledged {dir back : PacketDir} {segs : Segments} (hne : dir ≠ back)
    (hdir : FinAcknowledged dir back segs) (hback : FinAcknowledged back dir segs) :
    SendsAfterFins dir back (finPattern segs) ∨ SendsAfterFins back dir (finPattern segs) := by
  obtain ⟨pre, x, post, rfl, hx, y, hy, -⟩ := finAcknowledged_iff.mp hdir
  obtain ⟨pre', x', post', hsplit, hx', y', hy', -⟩ := finAcknowledged_iff.mp hback
  rcases List.append_eq_append_iff.mp hsplit with ⟨mid, rfl, hrest⟩ | ⟨mid, rfl, hrest⟩
  · cases mid with
    | nil =>
      rw [List.nil_append, List.cons.injEq, Prod.mk.injEq] at hrest
      exact absurd hrest.1.2 hne
    | cons seg mid =>
      obtain ⟨rfl, rfl⟩ := List.cons.inj hrest
      exact .inl (sendsAfterFins_of_split hx hx' hy')
  · cases mid with
    | nil =>
      rw [List.nil_append, List.cons.injEq, Prod.mk.injEq] at hrest
      exact absurd hrest.1.2.symm hne
    | cons seg mid =>
      obtain ⟨rfl, rfl⟩ := List.cons.inj hrest
      rw [List.append_assoc, List.cons_append]
      exact .inr (sendsAfterFins_of_split hx' hx hy)

theorem StaysOpen.tracksClose {segs : Segments} (h : StaysOpen (finPattern segs)) :
    TracksClose segs := by
  rw [TracksClose, isFlowFinished_connection]
  refine iff_of_false (fun hmatch => h.last ?_) fun hclosed => ?_
  · obtain ⟨x, y, hx, hy, hxfin, hyfin, -, -⟩ := hmatch
    simp [lastFin_finPattern, hx, hy, hxfin, hyfin]
  · rcases sendsAfterFins_of_acknowledged (by decide) hclosed.1 hclosed.2 with hout | hin
    · exact h.inner hout
    · exact h.outer hin

/-! ### The numbers

Where the directions and the FINs leave room for a close there are numbers that the test gets wrong.
All sequence numbers are 0, and all acknowledgment numbers one more: in host order, so that each FIN
is acknowledged by whatever comes from the other side, or as the bytes stand, so that none is. -/

/-- A segment with a header of five words and no data. -/
def emptySegment (src dst : Endpoint) (seq ack : UInt32) (flags : UInt8) : Packet :=
  let m := (Packet.bare src dst).bytes
  let m := store32 (store32 m 38 (htonl seq)) 42 (htonl ack)
  { bytes := fun i => if i = 46 then 0x50 else if i = 47 then flags else m i, len := 54 }

def numberedSegment (hostOrder fin : Bool) : Packet :=
  emptySegment hostH1 hostH2 0 (if hostOrder then 1 else 0x01000000) (if fin then 0x11 else 0x10)

def numberedSegments (hostOrder : Bool) (pattern : List (PacketDir × Bool)) : Segments :=
  pattern.map fun x => (numberedSegment hostOrder x.2, x.1)

theorem fin_numberedSegment (hostOrder fin : Bool) :
    decide ((numberedSegment hostOrder fin).fin = tcpFin) = fin := by
  revert hostOrder fin
  decide

theorem seq_numberedSegment (hostOrder fin : Bool) : (numberedSegment hostOrder fin).seq = 0 := by
  revert hostOrder fin
  decide

theorem ack_numberedSegment (hostOrder fin : Bool) :
    (numberedSegment hostOrder fin).ack = if hostOrder then htonl 1 else 1 := by
  revert hostOrder fin
  decide

theorem finPattern_numberedSegments (hostOrder : Bool) (pattern : List (PacketDir × Bool)) :
    finPattern (numberedSegments hostOrder pattern) = pattern := by
  simp only [finPattern, numberedSegments, List.map_map, Function.comp_def, fin_numberedSegment]
  exact List.map_id _

theorem lastFrom_numberedSegments (hostOrder : Bool) (dir : PacketDir)
    (pattern : List (PacketDir × Bool)) : lastFrom dir (numberedSegments hostOrder pattern) =
      (pattern.findRev? fun x => x.1 = dir).map fun x => numberedSegment hostOrder x.2 := by
  simp only [lastFrom, numberedSegments, List.findRev?_eq_find?_reverse, ← List.map_reverse,
    List.find?_map, Function.comp_def, Option.map_map]

theorem finAcknowledged_numberedSegments {dir back : PacketDir} {fin : Bool}
    {pattern : List (PacketDir × Bool)} (h : [(dir, true), (back, fin)].Sublist pattern) :
    FinAcknowledged dir back (numberedSegments true pattern) := by
  obtain ⟨front, rest, rfl, hfront, hrest⟩ := List.cons_sublist_iff.mp h
  obtain ⟨pre, post, rfl⟩ := List.append_of_mem hfront
  have hback := List.mem_map_of_mem (f := fun x => (numberedSegment true x.2, x.1))
    (List.singleton_sublist.mp hrest)
  refine finAcknowledged_iff.mpr ⟨numberedSegments true pre, numberedSegment true true,
    numberedSegments true (post ++ rest), by simp [numberedSegments],
    of_decide_eq_true (fin_numberedSegment true true), numberedSegment true fin, ?_, ?_⟩
  · rw [numberedSegments, List.map_append]
    exact List.mem_append_right _ hback
  · rw [ack_numberedSegment, seq_numberedSegment]
    decide

theorem not_tracksClose_of_sendsAfterFins {dir back : PacketDir} {pattern : List (PacketDir × Bool)}
    (h : SendsAfterFins dir back pattern)
    (hclosed : FinAcknowledged dir back (numberedSegments true pattern) →
      FinAcknowledged back dir (numberedSegments true pattern) →
      Closed (numberedSegments true pattern)) :
    ¬ TracksClose (numberedSegments true pattern) := by
  obtain ⟨fin, hsub⟩ := h
  have hfirst : [(dir, true), (back, true)].Sublist pattern :=
    (((List.nil_sublist [(dir, fin)]).cons_cons _).cons_cons _).trans hsub
  have hsecond : [(back, true), (dir, fin)].Sublist pattern :=
    (List.sublist_cons_self _ _).trans hsub
  intro htracks
  have hmatch := (isFlowFinished_connection _).mp (htracks.mpr
    (hclosed (finAcknowledged_numberedSegments hfirst) (finAcknowledged_numberedSegments hsecond)))
  obtain ⟨x, y, hx, hy, -, -, hack, -⟩ := hmatch
  rw [lastFrom_numberedSegments, Option.map_eq_some_iff] at hx hy
  obtain ⟨_, -, rfl⟩ := hx
  obtain ⟨_, -, rfl⟩ := hy
  rw [ack_numberedSegment, seq_numberedSegment] at hack
  exact absurd hack (by decide)

theorem not_tracksClose_of_lastFin {pattern : List (PacketDir × Bool)}
    (hin : lastFin .dirIn pattern = true) (hout : lastFin .dirOut pattern = true) :
    ¬ TracksClose (numberedSegments false pattern) := by
  have hlast : ∀ dir, lastFin dir pattern = true →
      lastFrom dir (numberedSegments false pattern) = some (numberedSegment false true) := by
    intro dir hfin
    rw [lastFrom_numberedSegments]
    rw [lastFin] at hfin
    cases hfind : pattern.findRev? fun x => x.1 = dir with
    | none =>
      rw [hfind] at hfin
      cases hfin
    | some x =>
      rw [hfind, Option.any_some] at hfin
      rw [Option.map_some, hfin]
  have hmatch : LatestMatch (numberedSegments false pattern) :=
    ⟨_, _, hlast .dirIn hin, hlast .dirOut hout, by decide, by decide, by decide, by decide⟩
  intro htracks
  have hclosed := htracks.mp ((isFlowFinished_connection _).mpr hmatch)
  obtain ⟨pre, x, post, hsplit, -, y, hy, hack⟩ := finAcknowledged_iff.mp hclosed.1
  have hall : ∀ seg ∈ (x, PacketDir.dirOut) :: post, seg ∈ numberedSegments false pattern :=
    fun seg hseg => hsplit ▸ List.mem_append_right pre hseg
  obtain ⟨_, -, heqx⟩ := List.mem_map.mp (hall _ List.mem_cons_self)
  obtain ⟨_, -, heqy⟩ := List.mem_map.mp (hall _ (List.mem_cons_of_mem _ hy))
  rw [← (Prod.mk.inj heqx).1, ← (Prod.mk.inj heqy).1, ack_numberedSegment,
    seq_numberedSegment] at hack
  exact absurd hack (by decide)

/-- **When the close is tracked**, whatever the numbers: when the directions and the FINs leave no
room for a close, nor for a pair of FINs at the end. -/
theorem tracksClose_iff (pattern : List (PacketDir × Bool)) :
    (∀ segs, finPattern segs = pattern → TracksClose segs) ↔ StaysOpen pattern := by
  constructor
  · intro h
    have hnumbers := fun hostOrder => h _ (finPattern_numberedSegments hostOrder pattern)
    exact ⟨fun hsends => not_tracksClose_of_sendsAfterFins hsends (fun hdir hback => ⟨hdir, hback⟩)
        (hnumbers true),
      fun hsends => not_tracksClose_of_sendsAfterFins hsends (fun hdir hback => ⟨hback, hdir⟩)
        (hnumbers true),
      fun hlast => not_tracksClose_of_lastFin hlast.1 hlast.2 (hnumbers false)⟩
  · intro hopen segs hsegs
    rw [← hsegs] at hopen
    exact hopen.tracksClose

/-! ### Which flows end in such a pair -/

/-- A flow of which the last segment is no FIN does not end in such a pair. -/
theorem not_latestMatch_of_last {segs : Segments} {p : Packet} {dir : PacketDir}
    (hdir : dir ≠ .dirInvalid) (hfin : p.fin ≠ tcpFin) : ¬ LatestMatch (segs ++ [(p, dir)]) := by
  intro h
  obtain ⟨x, y, hx, hy, hxfin, hyfin, -, -⟩ := h
  rw [lastFrom_snoc] at hx hy
  cases dir with
  | dirIn =>
    cases hx
    exact hfin hxfin
  | dirOut =>
    cases hy
    exact hfin hyfin
  | dirInvalid => exact hdir rfl

/-- A flow that ends in two FINs acknowledging each other does not either, but for one number. -/
theorem latestMatch_iff_of_acknowledged {segs : Segments} {x y : Packet}
    (hx : lastFrom .dirIn segs = some x) (hy : lastFrom .dirOut segs = some y)
    (hxfin : x.fin = tcpFin) (hyfin : y.fin = tcpFin)
    (hxack : ntohl x.ack = ntohl y.seq + 1) (hyack : ntohl y.ack = ntohl x.seq + 1) :
    LatestMatch segs ↔ y.seq = 0xffffffff ∧ x.seq = 0xffffffff := by
  have hswap : ∀ {seq ack : UInt32}, ntohl ack = ntohl seq + 1 →
      (ack = seq + 1 ↔ seq = 0xffffffff) := by
    intro seq ack hack
    rw [← swap32_add_one_iff, ← swap32_injective.eq_iff]
    exact ⟨fun h => h.symm.trans hack, fun h => hack.trans h.symm⟩
  simp only [LatestMatch, hx, hy, Option.some.injEq, exists_and_left, exists_eq_left', hxfin, hyfin,
    true_and, hswap hxack, hswap hyack]

/-! ### An ordinary close -/

/-- The inner host sends a FIN, the outer one acknowledges it with its own, and the inner one
acknowledges that. -/
def ordinaryClose : Segments :=
  [ (emptySegment hostH1 hostH2 1000 500 0x11, .dirOut),
    (emptySegment hostH2 hostH1 500 1001 0x11, .dirIn),
    (emptySegment hostH1 hostH2 1001 501 0x10, .dirOut) ]

theorem ordinary_close_not_tracked : Closed ordinaryClose ∧ ¬ TracksClose ordinaryClose := by
  have hclosed : Closed ordinaryClose := by
    refine ⟨?_, ?_⟩
    · exact ⟨[], _, [], _, [_], rfl, by decide, by decide⟩
    · exact ⟨[_], _, [], _, [], rfl, by decide, by decide⟩
  exact ⟨hclosed, fun h => absurd (h.mpr hclosed) (by decide)⟩

end NatNew2

end MiniNet.NatStack
