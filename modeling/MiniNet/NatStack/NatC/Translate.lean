import Mathlib.Order.Bounds.Basic
import MiniNet.NatStack.NatC.Layout

/-!
# One packet through `nat_translate_packet`

The direction of a packet comes from its destination address alone, and a packet that its direction
finds no mapping for gets one for its source, whichever side it came in on. The first section says
what this does to the table and the pool, and that it lets outside hosts open mappings, though only
the inner ones are meant to.

The rest is about outbound packets. The rewrite of the source stands in the branch for a known flow
only, so a packet that opens a flow leaves with the private source it came with; it comes out right
in one case, when that source already is the external address with the port the new mapping gets.
-/

namespace MiniNet.NatStack.NatC

open Lib

/-! ### The table -/

/-- The packet has a mapping: one with its destination port if it is for the external address, one
with its source otherwise. -/
def Matched (t : NatTable) (p : Packet) : Prop :=
  if p.dest.1 = htonl t.externalIface.ip then
    ∃ entry ∈ t.mappings, entry.externalPort = p.dest.2
  else HasMapping t p.source

/-- From `t` to `t'` one mapping for `e` has come in, at the end of the first bucket, and no cell of
the pool has changed but that of its port. -/
structure OpensOne (t t' : NatTable) (e : Endpoint) : Prop where
  entry : ∃ entry, entry.internal = e ∧ entry.externalIp = t.natIp ∧
    t'.natMappingList firstBucket = t.natMappingList firstBucket ++ [entry] ∧
    ∀ p, entry.externalPort ≠ htons p → t'.assignedPorts p = t.assignedPorts p
  rest : ∀ b, b ≠ firstBucket → t'.natMappingList b = t.natMappingList b

theorem isSome_natGetMappingFromPacket (t : NatTable) (p : Packet) :
    (natGetMappingFromPacket t p (getPacketDirection t p)).isSome ↔ Matched t p := by
  rw [natGetMappingFromPacket_eq, Matched, ← IfaceInfo.inetAddr_ipStr, ← NatTable.natIp]
  by_cases hdest : p.dest.1 = t.natIp
  · rw [getPacketDirection_in hdest, if_pos rfl, if_pos hdest, natLookupExternal,
      List.find?_isSome]
    simp only [decide_eq_true_eq]
  · rw [getPacketDirection_out hdest, if_neg PacketDir.dirOut_ne_dirIn, if_neg hdest,
      natLookupInternal, List.find?_isSome]
    simp only [decide_eq_true_eq, HasMapping, NatMapping.internal, Prod.ext_iff]

theorem assignExternalPort_assignedPorts {t : NatTable} {p : UInt16}
    (h : htons (assignExternalPort t).1 ≠ htons p) :
    (assignExternalPort t).2.assignedPorts p = t.assignedPorts p := by
  unfold assignExternalPort at h ⊢
  split at h
  · exact Function.update_of_ne (fun heq => h (congrArg htons heq.symm)) _ _
  · rfl

theorem opensOne_insert (t : NatTable) (e : Endpoint) (now : Nat) :
    OpensOne t (natInsertMapping t firstBucket e.1 e.2 now).2 e where
  entry := ⟨inserted t e.1 e.2 now, inserted_internal .., inserted_externalIp ..,
    entries_insert .., fun _ hport => assignExternalPort_assignedPorts hport⟩
  rest b hb := by rw [natMappingList_insert, Buckets.addTail, Function.update_of_ne hb]

/-- **Which packets open mappings.** A TCP packet that has a mapping leaves the table and the pool
as they are. Any other, from whichever side, opens one mapping, for its source. -/
theorem unmatched_opens_one {t : NatTable} {p : Packet} (iface : IfaceInfo) (now : Nat)
    (htcp : p.protocol = ipprotoTcp) :
    (Matched t p → (natTranslatePacket t iface p now).1 = t) ∧
    (¬ Matched t p → OpensOne t (natTranslatePacket t iface p now).1 p.source) := by
  rw [natTranslatePacket_fst htcp, ← isSome_natGetMappingFromPacket]
  cases hlookup : natGetMappingFromPacket t p (getPacketDirection t p) with
  | none =>
    refine ⟨fun h => absurd h (by decide), fun _ => ?_⟩
    rw [doTranslation_of_none hlookup]
    exact opensOne_insert t p.source now
  | some entry =>
    exact ⟨fun _ => doTranslation_fst_of_some hlookup, fun h => absurd rfl h⟩

theorem OpensOne.ne {t t' : NatTable} {e : Endpoint} (h : OpensOne t t' e) : t' ≠ t := by
  obtain ⟨entry, -, -, hbucket, -⟩ := h.entry
  intro heq
  rw [heq, List.self_eq_append_right] at hbucket
  exact List.cons_ne_nil _ _ hbucket

/-! ### Hosts outside -/

/-- The packet leaves the table and the pool as they are, and is not sent on if it is for a port of
the external address that no mapping has. -/
structure KeptOut (t : NatTable) (iface : IfaceInfo) (p : Packet) (now : Nat) : Prop where
  table : (natTranslatePacket t iface p now).1 = t
  unmatched : p.dest.1 = htonl t.externalIface.ip →
    (∀ entry ∈ t.mappings, entry.externalPort ≠ p.dest.2) →
    ∀ q, .ipSendPacket q ∉ (natTranslatePacket t iface p now).2

theorem keptOut_iff {t : NatTable} {p : Packet} (iface : IfaceInfo) (now : Nat)
    (htcp : p.protocol = ipprotoTcp) : KeptOut t iface p now ↔ Matched t p := by
  obtain ⟨hkeeps, hopens⟩ := unmatched_opens_one iface now htcp
  constructor
  · intro h
    by_contra hnone
    exact (hopens hnone).ne h.table
  · intro hsome
    refine ⟨hkeeps hsome, fun hdest hnone => ?_⟩
    rw [Matched, if_pos hdest] at hsome
    obtain ⟨entry, hentry, hport⟩ := hsome
    exact absurd hport (hnone entry hentry)

/-- A packet goes through `nat_translate_packet`, which takes the direction from the packet. -/
def translate (t : NatTable) : Event → NatTable
  | .packet iface _ p now _ => (natTranslatePacket t iface p now).1
  | .sweep now => natTimeout t now

def OutsideKeptOut (t : NatTable) : Event → Prop
  | .packet iface _ p now _ =>
    iface = t.externalIface → p.protocol = ipprotoTcp → KeptOut t iface p now
  | .sweep _ => True

/-- A TCP packet that comes in on the external interface has a mapping. -/
def OutsideMatched (t : NatTable) : Event → Prop
  | .packet iface _ p _ _ => iface = t.externalIface → p.protocol = ipprotoTcp → Matched t p
  | .sweep _ => True

/-- **When hosts outside are kept out**, along every run, from any table: when every TCP packet from
outside has a mapping as it comes. -/
theorem outside_kept_out_iff (t : NatTable) (es : List Event) :
    AtEachStep translate OutsideKeptOut t es ↔ AtEachStep translate OutsideMatched t es := by
  refine forall_congr' fun pre => forall_congr' fun e => forall_congr' fun post =>
    forall_congr' fun _ => ?_
  cases e with
  | sweep now => exact Iff.rfl
  | packet iface dir p now later =>
    exact forall_congr' fun _ => forall_congr' fun htcp => keptOut_iff iface now htcp

/-- Two segments from outside, one for a port without a mapping and one straight to an inner host:
each opens a mapping for the outside host and takes a port, and the first is sent on as well. -/
theorem outside_host_opens_mapping :
    natTopo.mappings = [] ∧
    (∀ dst ∈ [(natTopo.natIp, htons 443), hostH1],
      HasMapping (natTranslatePacket natTopo natTopo.externalIface (Packet.bare hostH2 dst) 100).1
        hostH2 ∧
      (natTranslatePacket natTopo natTopo.externalIface (Packet.bare hostH2 dst) 100).1.assignedPorts
        12345 = 1) ∧
    ∃ q, (natTranslatePacket natTopo natTopo.externalIface
      (Packet.bare hostH2 (natTopo.natIp, htons 443)) 100).2 = [.ipSendPacket q] := by
  refine ⟨?_, ?_, ?_⟩
  · rw [NatTable.mappings, Buckets.scan, List.flatMap_eq_nil_iff]
    exact fun _ _ => rfl
  · intro dst hdst
    rw [List.mem_pair] at hdst
    obtain rfl | rfl := hdst
    · exact ⟨hasMapping_of_mem firstBucket (by decide +kernel), by decide +kernel⟩
    · exact ⟨hasMapping_of_mem firstBucket (by decide +kernel), by decide +kernel⟩
  · rw [natTranslatePacket_tcp (by decide)]
    exact ⟨_, rfl⟩

/-! ### Outbound packets -/

/-- The translation of the outbound packet `p` is complete when `q` is sent and `t` is the table
then: the source is the external address with the port of the mapping the table holds for the
original source, and nothing else but the checksums has changed. -/
structure TranslatedOut (t : NatTable) (p q : Packet) : Prop where
  address : q.source.1 = htonl t.externalIface.ip
  port : ∃ entry, natGetMappingFromPacket t p .dirOut = some entry ∧
    q.source.2 = entry.externalPort
  len : q.len = p.len
  frame : ∀ i, (i < packetToIpHdr + 10 ∨ packetToIpHdr + 12 ≤ i) →
    (i < packetToIpHdr + 12 ∨ packetToIpHdr + 16 ≤ i) →
    (i < packetToTcpHdr p.bytes ∨ packetToTcpHdr p.bytes + 2 ≤ i) →
    (i < packetToTcpHdr p.bytes + 16 ∨ packetToTcpHdr p.bytes + 18 ≤ i) → q.bytes i = p.bytes i

/-- `nat_translate_packet` hands one packet to `ip_send_packet`, completely translated. -/
def OutboundComplete (t : NatTable) (iface : IfaceInfo) (p : Packet) (now : Nat) : Prop :=
  ∃ q, (natTranslatePacket t iface p now).2 = [.ipSendPacket q] ∧
    TranslatedOut (natTranslatePacket t iface p now).1 p q

structure OutboundTcp (t : NatTable) (p : Packet) : Prop where
  tcp : p.protocol = ipprotoTcp
  complete : p.CompleteTcp
  dest : p.dest.1 ≠ htonl t.externalIface.ip

/-- The ports in reach of `assign_external_port` that are free. -/
def freePorts (t : NatTable) : Set Nat :=
  {n | natPortMin ≤ n ∧ n < natPortMax ∧ t.assignedPorts (UInt16.ofNat n) = 0}

/-- When an outbound packet comes out right: its flow is known, or its source already is the
external address with the least free port. -/
def ReadyOut (t : NatTable) (p : Packet) : Prop :=
  HasMapping t p.source ∨
  (p.source.1 = htonl t.externalIface.ip ∧ IsLeast (freePorts t) (ntohs p.source.2).toNat)

/-! The port a new flow gets. -/

theorem isLeast_assignExternalPort {t : NatTable} (hfree : (freePorts t).Nonempty) :
    IsLeast (freePorts t) (assignExternalPort t).1.toNat := by
  have htoNat : ∀ n ∈ freePorts t, (UInt16.ofNat n).toNat = n := fun n hn =>
    UInt16.toNat_ofNat_of_lt' (Nat.lt_trans hn.2.1 (by decide))
  rcases assignExternalPort_cases t with ⟨port, hleast, hassign⟩ | ⟨hfull, -⟩
  · rw [hassign]
    refine ⟨⟨hleast.lo, hleast.hi, ?_⟩, fun n hn => ?_⟩
    · rw [UInt16.ofNat_toNat]
      exact hleast.free
    · by_contra hlt
      refine hleast.least (UInt16.ofNat n) ?_ ?_ hn.2.2
      · rw [htoNat n hn]
        exact hn.1
      · rw [htoNat n hn]
        exact Nat.lt_of_not_le hlt
  · obtain ⟨n, hn⟩ := hfree
    refine absurd hn.2.2 (hfull (UInt16.ofNat n) ?_ ?_)
    · rw [htoNat n hn]
      exact hn.1
    · rw [htoNat n hn]
      exact hn.2.1

theorem htons_assignExternalPort_iff {t : NatTable} (hfree : (freePorts t).Nonempty)
    (port : UInt16) :
    port = htons (assignExternalPort t).1 ↔ IsLeast (freePorts t) (ntohs port).toNat := by
  have hleast := isLeast_assignExternalPort hfree
  constructor
  · intro heq
    subst heq
    rwa [ntohs_htons]
  · intro h
    rw [← UInt16.toNat_inj.mp (h.unique hleast), htons_ntohs]

/-! ### The two branches -/

section Branches

variable {t : NatTable} {p : Packet} {iface : IfaceInfo} {now : Nat}

theorem natGetMappingFromPacket_insert (now : Nat)
    (h : natGetMappingFromPacket t p .dirOut = none) :
    natGetMappingFromPacket (natInsertMapping t firstBucket p.source.1 p.source.2 now).2 p .dirOut
      = some (inserted t p.source.1 p.source.2 now) := by
  have hnone : natLookupInternal (t.natMappingList firstBucket) p.source.1 p.source.2 = none := by
    rw [natLookupInternal_none]
    rw [natGetMappingFromPacket_out PacketDir.dirOut_ne_dirIn, natLookupInternal_none] at h
    exact fun entry hmem => h entry (Buckets.mem_scan.mpr ⟨firstBucket, hmem⟩)
  have hnew : natLookupInternal [inserted t p.source.1 p.source.2 now] p.source.1 p.source.2
      = some (inserted t p.source.1 p.source.2 now) :=
    List.find?_cons_of_pos (decide_eq_true ⟨rfl, rfl⟩)
  rw [natGetMappingFromPacket_out PacketDir.dirOut_ne_dirIn, NatTable.mappings, Buckets.scan_succ,
    natLookupInternal, List.find?_append]
  change ((natLookupInternal (entries _) _ _).or _) = _
  rw [entries_insert, natLookupInternal, List.find?_append]
  change (((natLookupInternal _ _ _).or (natLookupInternal _ _ _)).or _) = _
  rw [entries, hnone, hnew, Option.none_or, Option.some_or]

theorem translatedOut_of_known {entry : NatMapping} (h : 5 ≤ p.ihl)
    (hlookup : natGetMappingFromPacket t p .dirOut = some entry) :
    TranslatedOut t p (p.withSource (t.natIp, entry.externalPort)) where
  address := by rw [Packet.source_withSource h, NatTable.natIp, IfaceInfo.inetAddr_ipStr]
  port := ⟨entry, hlookup, by rw [Packet.source_withSource h]⟩
  len := rfl
  frame _ hsum hsaddr hsport htcp := Packet.bytes_withSource p _ hsum hsaddr hsport htcp

theorem translatedOut_of_new (h : 5 ≤ p.ihl) (hfree : (freePorts t).Nonempty)
    (hlookup : natGetMappingFromPacket t p .dirOut = none) :
    TranslatedOut (natInsertMapping t firstBucket p.source.1 p.source.2 now).2 p p.withChecksums ↔
      p.source.1 = htonl t.externalIface.ip ∧
        IsLeast (freePorts t) (ntohs p.source.2).toNat := by
  have hiface : (natInsertMapping t firstBucket p.source.1 p.source.2 now).2.externalIface
      = t.externalIface := (assignExternalPort_frame t).2
  have hfound := natGetMappingFromPacket_insert now hlookup
  rw [← htons_assignExternalPort_iff hfree]
  constructor
  · intro htranslated
    obtain ⟨haddress, ⟨entry, hentry, hport⟩, -, -⟩ := htranslated
    rw [hfound, Option.some.injEq] at hentry
    rw [Packet.source_withChecksums h] at haddress hport
    exact ⟨hiface ▸ haddress, by rw [hport, ← hentry, inserted_externalPort]⟩
  · intro hready
    obtain ⟨haddress, hport⟩ := hready
    refine ⟨?_, ⟨_, hfound, ?_⟩, rfl, fun i hsum _ _ htcp => ?_⟩
    · rw [Packet.source_withChecksums h, hiface, haddress]
    · rw [Packet.source_withChecksums h, hport, inserted_externalPort]
    · exact Packet.bytes_withChecksums p hsum htcp

end Branches

/-- **Which outbound packets come out right**, in every table with a free port. -/
theorem outbound_complete_iff {t : NatTable} {p : Packet} (iface : IfaceInfo) (now : Nat)
    (hout : OutboundTcp t p) (hfree : (freePorts t).Nonempty) :
    OutboundComplete t iface p now ↔ ReadyOut t p := by
  have hihl := hout.complete.ihl_ge
  have hdir : getPacketDirection t p = .dirOut :=
    getPacketDirection_out (by rw [NatTable.natIp, IfaceInfo.inetAddr_ipStr]; exact hout.dest)
  have hsent : ∀ r, doTranslation t iface p .dirOut now = r →
      (OutboundComplete t iface p now ↔ TranslatedOut r.1 p r.2) := by
    intro r hr
    subst hr
    rw [OutboundComplete, natTranslatePacket_tcp hout.tcp, hdir]
    simp
  cases hlookup : natGetMappingFromPacket t p .dirOut with
  | none =>
    rw [hsent _ (doTranslation_of_none hlookup), translatedOut_of_new hihl hfree hlookup, ReadyOut,
      or_iff_right]
    rw [natGetMappingFromPacket_out PacketDir.dirOut_ne_dirIn, natLookupInternal_none] at hlookup
    intro hknown
    obtain ⟨entry, hmem, hsource⟩ := hknown
    exact hlookup entry hmem hsource
  | some entry =>
    rw [hsent _ (doTranslation_out PacketDir.dirOut_ne_dirIn hlookup)]
    rw [natGetMappingFromPacket_out PacketDir.dirOut_ne_dirIn] at hlookup
    obtain ⟨hmem, hsource⟩ := natLookupInternal_some hlookup
    refine iff_of_true (translatedOut_of_known hihl ?_) (.inl ⟨entry, hmem, hsource⟩)
    rw [natGetMappingFromPacket_out PacketDir.dirOut_ne_dirIn, hlookup]

/-- The sweep at the end takes nothing. -/
theorem run_natTopoRun : run next natTopo natTopoRun = run next natTopo (natTopoRun.take 3) := by
  have hsplit : natTopoRun = natTopoRun.take 3 ++ [.sweep 500] := rfl
  rw [hsplit, run_snoc, next_sweep]
  exact sweepTable_of_none_due (by decide +kernel)

theorem outbound_complete_iff_hostH1 :
    OutboundComplete (run next natTopo natTopoRun) natTopoIfaces.1 (Packet.bare hostH1 hostH2) 600 ↔
      ReadyOut (run next natTopo natTopoRun) (Packet.bare hostH1 hostH2) := by
  rw [run_natTopoRun]
  exact outbound_complete_iff _ _ ⟨by decide, by decide, by decide +kernel⟩
    ⟨12347, by decide, by decide, by decide +kernel⟩

/-- The packet that opens the flow of `natTopoRun` leaves with the source it came with. -/
theorem first_packet_keeps_source :
    OutboundTcp natTopo (Packet.bare hostH1 hostH2) ∧ (freePorts natTopo).Nonempty ∧
    (∃ q, (natTranslatePacket natTopo natTopoIfaces.1 (Packet.bare hostH1 hostH2) 100).2
      = [.ipSendPacket q] ∧ q.source = hostH1) ∧
    ¬ OutboundComplete natTopo natTopoIfaces.1 (Packet.bare hostH1 hostH2) 100 := by
  have hsource : (doTranslation natTopo natTopoIfaces.1 (Packet.bare hostH1 hostH2) .dirOut
      100).2.source = hostH1 := by decide +kernel
  have hsent : (natTranslatePacket natTopo natTopoIfaces.1 (Packet.bare hostH1 hostH2) 100).2
      = [.ipSendPacket (doTranslation natTopo natTopoIfaces.1 (Packet.bare hostH1 hostH2) .dirOut
        100).2] := by
    rw [natTranslatePacket_tcp (by decide), getPacketDirection_out (by decide +kernel)]
  refine ⟨⟨by decide, by decide, by decide +kernel⟩, ⟨12345, by decide, by decide, rfl⟩,
    ⟨_, hsent, hsource⟩, ?_⟩
  intro hcomplete
  obtain ⟨q, hq, htranslated⟩ := hcomplete
  rw [hsent, List.cons.injEq, Effect.ipSendPacket.injEq] at hq
  have haddress := htranslated.address
  rw [← hq.1, hsource] at haddress
  exact absurd haddress (by decide +kernel)

end MiniNet.NatStack.NatC
