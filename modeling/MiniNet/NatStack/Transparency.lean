import MiniNet.NatStack.IpChecksum
import MiniNet.NatStack.NatC.Code
import MiniNet.NatStack.NatNew2.Refinement

/-!
# What a translation leaves alone, and what it never looks at

A packet that is sent on has the bytes it came with, but for the address and the port on the inner
side and the two checksums, and these are the code's own for it. What came in their place makes no
difference to anything: not to the table, not to what is sent of this packet or of any later one. So
neither version drops a packet that was damaged on the way, and a damaged one leaves with checksums
that are right.
-/

namespace MiniNet.NatStack

open Lib

/-! ### The checksums of two packets that differ in theirs -/

/-- Neither of the two checksums is there. -/
def OffChecksums (ip tcp i : Nat) : Prop :=
  (i < ip + 10 ∨ ip + 12 ≤ i) ∧ (i < tcp + 16 ∨ tcp + 18 ≤ i)

section Checksums

variable {m m' : Mem} {ip tcp : Nat}

theorem ihl_congr (htcp : ip + 20 ≤ tcp) (h : ∀ i, OffChecksums ip tcp i → m i = m' i) :
    IpHdr.ihl m ip = IpHdr.ihl m' ip := by
  rw [IpHdr.ihl, IpHdr.ihl, h ip ⟨by omega, by omega⟩]

theorem headerWords_congr (hihl : IpHdr.ihl m ip = IpHdr.ihl m' ip)
    (h : ∀ i, i < ip + 4 * IpHdr.ihl m ip → m i = m' i) :
    headerWords load16 m ip = headerWords load16 m' ip := by
  rw [headerWords, headerWords, ← hihl, segmentWords, segmentWords]
  apply List.map_congr_left
  intro k hk
  have hlt := List.mem_range.mp hk
  exact load16_congr fun i hi => h _ (by omega)

/-- The header's own checksum is zeroed, and the other one is behind the header. -/
theorem ipChecksum_congr (hihl : 5 ≤ IpHdr.ihl m ip) (htcp : tcp = ip + ipHdrSize m ip)
    (h : ∀ i, OffChecksums ip tcp i → m i = m' i) : ipChecksum m ip = ipChecksum m' ip := by
  rw [ipHdrSize] at htcp
  rw [ipChecksum_eq, ipChecksum_eq]
  refine congrArg (fun words => ~~~onesSum words) (headerWords_congr ?_ fun i hi => ?_)
  · rw [ihl_setChecksum, ihl_setChecksum, ihl_congr (by omega) h]
  · rw [ihl_setChecksum] at hi
    exact store16_congr (fun hfield => h i ⟨hfield, by omega⟩) 0

/-- What was in the two fields makes no difference. -/
theorem updateChecksums_congr (hihl : 5 ≤ IpHdr.ihl m ip) (htcp : tcp = ip + ipHdrSize m ip)
    (h : ∀ i, OffChecksums ip tcp i → m i = m' i) :
    updateChecksums m ip tcp = updateChecksums m' ip tcp := by
  have hsum := ipChecksum_congr hihl htcp h
  have hafter : ∀ v, TcpHdr.setChecksum (IpHdr.setChecksum m ip (ipChecksum m ip)) tcp v
      = TcpHdr.setChecksum (IpHdr.setChecksum m' ip (ipChecksum m' ip)) tcp v := by
    intro v
    rw [hsum]
    funext i
    exact store16_congr (fun htcp => store16_congr (fun hip => h i ⟨hip, htcp⟩) _) v
  rw [updateChecksums, updateChecksums, tcpChecksum, tcpChecksum]
  simp only [hafter]

/-- The header that is sent adds up to all ones. -/
theorem onesSum_updateChecksums (hihl : 5 ≤ IpHdr.ihl m ip) (htcp : tcp = ip + ipHdrSize m ip) :
    onesSum (headerWords loadBE16 (updateChecksums m ip tcp) ip) = 0xffff := by
  rw [ipHdrSize] at htcp
  have hwords : headerWords load16 (updateChecksums m ip tcp) ip
      = headerWords load16 (IpHdr.setChecksum m ip (ipChecksum m ip)) ip := by
    have hbelow : ∀ i, i < ip + 4 * IpHdr.ihl m ip →
        updateChecksums m ip tcp i = IpHdr.setChecksum m ip (ipChecksum m ip) i := fun i hi =>
      store16_apply_of_disjoint _ _ (.inl (by omega))
    have hfirst : IpHdr.ihl (updateChecksums m ip tcp) ip = IpHdr.ihl m ip := by
      rw [IpHdr.ihl, hbelow ip (by omega)]
      exact ihl_setChecksum m ip _
    apply headerWords_congr
    · rw [hfirst, ihl_setChecksum]
    · rwa [hfirst]
  rw [headerWords_loadBE16, onesSum_map_swap16, hwords, onesSum_header hihl]
  decide

end Checksums

/-! ### Packets -/

namespace Packet

/-- The packets differ in nothing but their checksums. -/
structure Alike (p q : Packet) : Prop where
  len : p.len = q.len
  bytes : ∀ i, OffChecksums packetToIpHdr (packetToTcpHdr p.bytes) i → p.bytes i = q.bytes i

/-- Neither the address nor the port on the inner side is there. -/
def OffInner (dir : PacketDir) (tcp i : Nat) : Prop :=
  if dir = .dirIn then
    (i < packetToIpHdr + 16 ∨ packetToIpHdr + 20 ≤ i) ∧ (i < tcp + 2 ∨ tcp + 4 ≤ i)
  else (i < packetToIpHdr + 12 ∨ packetToIpHdr + 16 ≤ i) ∧ (i < tcp ∨ tcp + 2 ≤ i)

/-- `q` is sent for `p`: nothing else is touched, the header adds up to all ones, and the checksums
are those that would be put in once more. -/
structure Intact (dir : PacketDir) (p q : Packet) : Prop where
  len : q.len = p.len
  bytes : ∀ i, OffChecksums packetToIpHdr (packetToTcpHdr p.bytes) i →
    OffInner dir (packetToTcpHdr p.bytes) i → q.bytes i = p.bytes i
  header : onesSum (headerWords loadBE16 q.bytes packetToIpHdr) = 0xffff
  settled : q.withChecksums = q

variable {p q : Packet}

section Alike

variable (h : p.Alike q) (hihl : 5 ≤ p.ihl)

include h hihl

theorem Alike.tcpHdr : packetToTcpHdr p.bytes = packetToTcpHdr q.bytes := by
  have htcp := etherHdrSize_lt_tcpHdr hihl
  apply packetToTcpHdr_congr
  apply h.bytes
  constructor
  · simp only [packetToIpHdr, etherHdrSize]
    omega
  · simp only [etherHdrSize]
    omega

theorem Alike.source : p.source = q.source := by
  have htcp := ipHdr_le_tcpHdr hihl
  rw [Packet.source, Packet.source, ← h.tcpHdr hihl]
  have haddr : IpHdr.saddr p.bytes packetToIpHdr = IpHdr.saddr q.bytes packetToIpHdr :=
    load32_congr fun i hi => h.bytes _ ⟨by omega, by omega⟩
  have hport : TcpHdr.sport p.bytes (packetToTcpHdr p.bytes)
      = TcpHdr.sport q.bytes (packetToTcpHdr p.bytes) :=
    load16_congr fun i hi => h.bytes _ ⟨by omega, by omega⟩
  rw [haddr, hport]

theorem Alike.dest : p.dest = q.dest := by
  have htcp := ipHdr_le_tcpHdr hihl
  rw [Packet.dest, Packet.dest, ← h.tcpHdr hihl]
  have haddr : IpHdr.daddr p.bytes packetToIpHdr = IpHdr.daddr q.bytes packetToIpHdr :=
    load32_congr fun i hi => h.bytes _ ⟨by omega, by omega⟩
  have hport : TcpHdr.dport p.bytes (packetToTcpHdr p.bytes)
      = TcpHdr.dport q.bytes (packetToTcpHdr p.bytes) :=
    load16_congr fun i hi => h.bytes _ ⟨by omega, by omega⟩
  rw [haddr, hport]

/-- What is written into both beforehand keeps them alike. -/
theorem Alike.updateChecksums {m m' : Mem} (hfirst : m etherHdrSize = p.bytes etherHdrSize)
    (hm : ∀ i, OffChecksums packetToIpHdr (packetToTcpHdr p.bytes) i → m i = m' i) :
    updateChecksums m packetToIpHdr (packetToTcpHdr p.bytes)
      = updateChecksums m' packetToIpHdr (packetToTcpHdr q.bytes) := by
  have htcp : packetToTcpHdr p.bytes = packetToTcpHdr m := packetToTcpHdr_congr hfirst.symm
  have hsame : IpHdr.ihl m packetToIpHdr = p.ihl := by
    rw [IpHdr.ihl, packetToIpHdr, hfirst]
    rfl
  rw [← h.tcpHdr hihl]
  exact updateChecksums_congr (hsame ▸ hihl) htcp hm

theorem Alike.withSource (e : Endpoint) : p.withSource e = q.withSource e := by
  have htcp := etherHdrSize_lt_tcpHdr hihl
  rw [Packet.withSource, Packet.withSource, h.len]
  refine congrArg (Packet.mk · q.len) (h.updateChecksums hihl ?_ fun i hi => ?_)
  · rw [TcpHdr.setSport, store16_apply_of_disjoint _ _ (by unfold etherHdrSize; omega),
      IpHdr.setSaddr, store32_apply_of_disjoint _ _ (by decide)]
  · rw [← h.tcpHdr hihl]
    exact store16_congr (fun _ => store32_congr (h.bytes i hi) _) _

theorem Alike.withDest (e : Endpoint) : p.withDest e = q.withDest e := by
  have htcp := etherHdrSize_lt_tcpHdr hihl
  rw [Packet.withDest, Packet.withDest, h.len]
  refine congrArg (Packet.mk · q.len) (h.updateChecksums hihl ?_ fun i hi => ?_)
  · rw [TcpHdr.setDport, store16_apply_of_disjoint _ _ (by unfold etherHdrSize; omega),
      IpHdr.setDaddr, store32_apply_of_disjoint _ _ (by decide)]
  · rw [← h.tcpHdr hihl]
    exact store16_congr (fun _ => store32_congr (h.bytes i hi) _) _

theorem Alike.withChecksums : p.withChecksums = q.withChecksums := by
  rw [Packet.withChecksums, Packet.withChecksums, h.len]
  exact congrArg (Packet.mk · q.len) (h.updateChecksums hihl rfl h.bytes)

end Alike

/-! ### What is sent for a packet -/

section Intact

variable {dir : PacketDir} (hihl : 5 ≤ p.ihl)

include hihl

/-- Only the inner endpoint has been written so far. -/
theorem intact_of {m : Mem} (hm : ∀ i, OffInner dir (packetToTcpHdr p.bytes) i → m i = p.bytes i) :
    Intact dir p
      { p with bytes := updateChecksums m packetToIpHdr (packetToTcpHdr p.bytes) } := by
  have hge := etherHdrSize_lt_tcpHdr hihl
  have hfirst : m etherHdrSize = p.bytes etherHdrSize := by
    apply hm
    rw [OffInner, packetToIpHdr, etherHdrSize]
    split <;> omega
  have htcp : packetToTcpHdr p.bytes = packetToTcpHdr m := packetToTcpHdr_congr hfirst.symm
  have hsame : IpHdr.ihl m packetToIpHdr = p.ihl := by
    rw [IpHdr.ihl, packetToIpHdr, hfirst]
    rfl
  have hoff : ∀ i, OffChecksums packetToIpHdr (packetToTcpHdr p.bytes) i →
      m i = updateChecksums m packetToIpHdr (packetToTcpHdr p.bytes) i := fun i hi =>
    (updateChecksums_apply m hi.1 hi.2).symm
  constructor
  case len => rfl
  case bytes =>
    intro i hsums hinner
    exact (hoff i hsums).symm.trans (hm i hinner)
  case header => exact onesSum_updateChecksums (hsame ▸ hihl) htcp
  case settled =>
    have hagain : packetToTcpHdr (updateChecksums m packetToIpHdr (packetToTcpHdr p.bytes))
        = packetToTcpHdr p.bytes := by
      rw [htcp]
      apply packetToTcpHdr_congr
      rw [← htcp]
      refine (hoff _ ⟨.inl ?_, .inl ?_⟩).symm
      · decide
      · unfold etherHdrSize
        omega
    rw [Packet.withChecksums, hagain, ← updateChecksums_congr (hsame ▸ hihl) htcp hoff]

theorem intact_withSource (hdir : dir ≠ .dirIn) (e : Endpoint) :
    Intact dir p (p.withSource e) := by
  refine intact_of hihl fun i hi => ?_
  rw [OffInner, if_neg hdir] at hi
  rw [TcpHdr.setSport, store16_apply_of_disjoint _ _ hi.2, IpHdr.setSaddr,
    store32_apply_of_disjoint _ _ (by omega)]

theorem intact_withDest (e : Endpoint) : Intact .dirIn p (p.withDest e) := by
  refine intact_of hihl fun i hi => ?_
  rw [OffInner, if_pos rfl] at hi
  rw [TcpHdr.setDport, store16_apply_of_disjoint _ _ (by omega), IpHdr.setDaddr,
    store32_apply_of_disjoint _ _ (by omega)]

theorem intact_translated (inner outer : Endpoint) :
    Intact dir p (if dir = .dirIn then p.withDest inner else p.withSource outer) := by
  split
  · rename_i hdir
    subst hdir
    exact intact_withDest hihl inner
  · rename_i hdir
    exact intact_withSource hihl hdir outer

theorem intact_withChecksums : Intact dir p p.withChecksums := intact_of hihl fun _ _ => rfl

end Intact

end Packet

/-! ### What the two versions send -/

theorem NatC.doTranslation_replaces (t : NatTable) (iface : IfaceInfo) (p : Packet) (dir : PacketDir)
    (now : Nat) : NatC.doTranslation t iface p dir now =
      match NatC.natGetMappingFromPacket t p dir with
      | some entry =>
        (t, if dir = .dirIn then p.withDest entry.internal
          else p.withSource (t.natIp, entry.externalPort))
      | none => ((NatC.natInsertMapping t NatC.firstBucket p.source.1 p.source.2 now).2,
          p.withChecksums) := by
  cases hget : NatC.natGetMappingFromPacket t p dir with
  | none => exact NatC.doTranslation_of_none hget
  | some entry =>
    by_cases hdir : dir = .dirIn
    · subst hdir
      rw [NatC.doTranslation_in hget]
      rfl
    · rw [NatC.doTranslation_out hdir hget]
      simp only [if_neg hdir]

theorem NatNew2.doTranslation_replaces (t : NatTable) (iface : IfaceInfo) (p : Packet)
    (dir : PacketDir) (now later : Nat) : NatNew2.doTranslation t iface p dir now later =
      (NatNew2.natGetMappingFromPacket t p dir now).1.bind fun loc =>
        (Buckets.get? (NatNew2.natGetMappingFromPacket t p dir now).2.natMappingList loc).map
          fun entry => (NatNew2.touch (NatNew2.natGetMappingFromPacket t p dir now).2 loc later,
            if dir = .dirIn then p.withDest entry.internal
            else p.withSource (t.natIp, entry.externalPort)) := by
  rw [NatNew2.doTranslation]
  by_cases hdir : dir = .dirIn
  · simp only [if_pos hdir]
    rfl
  · simp only [if_neg hdir]
    rfl

namespace Event

/-- What is sent on for a packet is in the relation to it. -/
def Sends (P : PacketDir → Packet → Packet → Prop) : Event → Option Packet → Prop
  | packet _ dir p _ _, some q => P dir p q
  | sweep _, some _ => False
  | _, none => True

/-- A header of at least five words. -/
def FullHeader : Event → Prop
  | packet _ _ p _ _ => 5 ≤ p.ihl
  | sweep _ => True

instance : DecidablePred FullHeader
  | packet _ _ p _ _ => inferInstanceAs (Decidable (5 ≤ p.ihl))
  | sweep _ => inferInstanceAs (Decidable True)

inductive Alike : Event → Event → Prop
  | packet (iface : IfaceInfo) (dir : PacketDir) {p q : Packet} (now later : Nat)
      (hihl : 5 ≤ p.ihl) (h : p.Alike q) :
      Alike (.packet iface dir p now later) (.packet iface dir q now later)
  | sweep (now : Nat) : Alike (.sweep now) (.sweep now)

end Event

theorem NatC.sends_intact {e : Event} (h : e.FullHeader) (t : NatTable) :
    e.Sends Packet.Intact (NatC.step t e).2 := by
  cases e with
  | packet iface dir p now later =>
    rw [NatC.step, Event.Sends, NatC.doTranslation_replaces]
    split
    · exact Packet.intact_translated h _ _
    · exact Packet.intact_withChecksums h
  | sweep now => trivial

theorem NatNew2.sends_intact {e : Event} (h : e.FullHeader) (t : Option NatTable) :
    e.Sends Packet.Intact (NatNew2.step t e).2 := by
  cases t with
  | none => cases e <;> trivial
  | some t =>
    cases e with
    | packet iface dir p now later =>
      rw [NatNew2.step]
      cases hstep : NatNew2.doTranslation t iface p dir now later with
      | none => trivial
      | some r =>
        rw [NatNew2.doTranslation_replaces] at hstep
        obtain ⟨loc, -, hentry⟩ := Option.bind_eq_some_iff.mp hstep
        obtain ⟨entry, -, rfl⟩ := Option.map_eq_some_iff.mp hentry
        exact Packet.intact_translated h _ _
    | sweep now => trivial

/-- **What is sent is intact**, from any table and whatever came before. -/
theorem sent_intact {es : List Event} (h : ∀ e ∈ es, e.FullHeader) (t : NatTable) :
    List.Forall₂ (Event.Sends Packet.Intact) es (outputs NatC.step t es) ∧
      List.Forall₂ (Event.Sends Packet.Intact) es (outputs NatNew2.step (some t) es) :=
  ⟨forall₂_outputs (fun t e he => NatC.sends_intact (h e he) t) t,
    forall₂_outputs (fun t e he => NatNew2.sends_intact (h e he) t) (some t)⟩

theorem sent_intact_natTopoRun :
    List.Forall₂ (Event.Sends Packet.Intact) natTopoRun (outputs NatC.step natTopo natTopoRun) ∧
      List.Forall₂ (Event.Sends Packet.Intact) natTopoRun
        (outputs NatNew2.step (some natTopo) natTopoRun) :=
  sent_intact (by decide) natTopo

theorem NatC.step_congr (t : NatTable) (e e' : Event) (h : e.Alike e') :
    NatC.step t e = NatC.step t e' := by
  cases h with
  | packet iface dir now later hihl h =>
    rw [NatC.step, NatC.step, NatC.doTranslation_replaces, NatC.doTranslation_replaces,
      NatC.natGetMappingFromPacket_eq, NatC.natGetMappingFromPacket_eq, h.source hihl, h.dest hihl,
      h.withChecksums hihl]
    simp only [h.withSource hihl, h.withDest hihl]
  | sweep now => rfl

theorem NatNew2.natGetMappingFromPacket_congr {p q : Packet} (hsource : p.source = q.source)
    (hdest : p.dest = q.dest) (t : NatTable) (dir : PacketDir) (now : Nat) :
    NatNew2.natGetMappingFromPacket t p dir now = NatNew2.natGetMappingFromPacket t q dir now := by
  obtain ⟨haddr, hsport⟩ := Prod.ext_iff.mp hsource
  have hdport := congrArg Prod.snd hdest
  simp only [Packet.source] at haddr hsport
  simp only [Packet.dest] at hdport
  rw [NatNew2.natGetMappingFromPacket, NatNew2.natGetMappingFromPacket]
  simp only [haddr, hsport, hdport]

theorem NatNew2.step_congr (t : Option NatTable) (e e' : Event) (h : e.Alike e') :
    NatNew2.step t e = NatNew2.step t e' := by
  cases t with
  | none => rfl
  | some t =>
    cases h with
    | packet iface dir now later hihl h =>
      rw [NatNew2.step, NatNew2.step, NatNew2.doTranslation_replaces, NatNew2.doTranslation_replaces,
        NatNew2.natGetMappingFromPacket_congr (h.source hihl) (h.dest hihl)]
      simp only [h.withSource hihl, h.withDest hihl]
    | sweep now => rfl

/-- **The checksums that packets come with never matter**: not for the tables, and not for what is
sent. -/
theorem checksums_never_matter {es es' : List Event} (h : List.Forall₂ Event.Alike es es')
    (t : NatTable) :
    (outputs NatC.step t es = outputs NatC.step t es' ∧
      run NatC.next t es = run NatC.next t es') ∧
    (outputs NatNew2.step (some t) es = outputs NatNew2.step (some t) es' ∧
      run NatNew2.next (some t) es = run NatNew2.next (some t) es') :=
  ⟨outputs_congr NatC.step_congr h t,
    outputs_congr NatNew2.step_congr h (some t)⟩

/-- The packet with other checksums in it. -/
def Packet.setChecksums (p : Packet) (v w : UInt16) : Packet where
  bytes :=
    TcpHdr.setChecksum (IpHdr.setChecksum p.bytes packetToIpHdr v) (packetToTcpHdr p.bytes) w
  len := p.len

theorem Packet.alike_setChecksums (p : Packet) (v w : UInt16) : p.Alike (p.setChecksums v w) where
  len := rfl
  bytes i hi := by
    rw [setChecksums]
    exact ((store16_apply_of_disjoint _ _ hi.2).trans (store16_apply_of_disjoint _ _ hi.1)).symm

/-- One segment to the outside, and a sweep. -/
def segmentRun (p : Packet) : List Event :=
  [.packet natTopoIfaces.1 .dirOut p 100 100, .sweep 500]

theorem checksums_never_matter_hostH1 :
    let es := segmentRun (Packet.bare hostH1 hostH2)
    let es' := segmentRun ((Packet.bare hostH1 hostH2).setChecksums 0xdead 0xbeef)
    (outputs NatC.step natTopo es = outputs NatC.step natTopo es' ∧
      run NatC.next natTopo es = run NatC.next natTopo es') ∧
    (outputs NatNew2.step (some natTopo) es = outputs NatNew2.step (some natTopo) es' ∧
      run NatNew2.next (some natTopo) es = run NatNew2.next (some natTopo) es') :=
  checksums_never_matter (.cons (.packet _ _ _ _ (by decide) (Packet.alike_setChecksums _ _ _))
    (.cons (.sweep 500) .nil)) natTopo

end MiniNet.NatStack
