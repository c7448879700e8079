import MiniNet.NatStack.Table

/-!
# `nat.c`

The functions of `nat.c` up to `nat_timeout`, which the connection statistics and the interface
lookup do not concern. The messages on standard output are left out.

At the end, what `do_translation` does, by cases on what the lookup finds: the rest of the proof
reaches it through these three equations only.
-/

namespace MiniNet.NatStack.NatC

open Lib

def natLookupExternal (mappingList : List NatMapping) (externalPort : UInt16) :
    Option NatMapping :=
  mappingList.find? fun entry => entry.externalPort = externalPort

def natLookupInternal (mappingList : List NatMapping) (internalIp : UInt32)
    (internalPort : UInt16) : Option NatMapping :=
  mappingList.find? fun entry =>
    entry.internalIp = internalIp ∧ entry.internalPort = internalPort

/-- The scan stops below `NAT_PORT_MAX`, and without a free cell returns `(u16)-1`. -/
def assignExternalPort (t : NatTable) : UInt16 × NatTable :=
  match scanPorts t (natPortMax - natPortMin) with
  | some i => (UInt16.ofNat i, t.setPort (UInt16.ofNat i) 1)
  | none => (0xffff, t)

/-- The first free port below `NAT_PORT_MAX` is marked, or nothing is. -/
theorem assignExternalPort_cases (t : NatTable) :
    (∃ port, LeastFree t (natPortMax - natPortMin) port ∧
      assignExternalPort t = (port, t.setPort port 1)) ∨
    ((∀ q : UInt16, natPortMin ≤ q.toNat → q.toNat < natPortMax → t.assignedPorts q ≠ 0) ∧
      assignExternalPort t = (0xffff, t)) := by
  rcases scanPorts_cases t (n := natPortMax - natPortMin) (by decide) with
    ⟨port, hleast, hscan⟩ | ⟨hfull, hscan⟩
  · refine .inl ⟨port, hleast, ?_⟩
    simp only [assignExternalPort, hscan, UInt16.ofNat_toNat]
  · refine .inr ⟨hfull, ?_⟩
    rw [assignExternalPort, hscan]

/-- `&nat.nat_mapping_list[0]`: every entry goes into the first bucket. -/
def firstBucket : Fin hash8Bits := 0

def natInsertMapping (t : NatTable) (mappingList : Fin hash8Bits) (internalIp : UInt32)
    (internalPort : UInt16) (now : Nat) : NatMapping × NatTable :=
  let r := assignExternalPort t
  let t := r.2
  let entry : NatMapping :=
    { internalIp
      internalPort
      externalIp := inetAddr t.externalIface.ipStr
      externalPort := htons r.1
      updateTime := now
      conn := .zero }
  (entry, t.addTail mappingList entry)

/-- No packet is `DIR_INVALID`. -/
def getPacketDirection (t : NatTable) (packet : Packet) : PacketDir :=
  let daddr := ntohl (IpHdr.daddr packet.bytes packetToIpHdr)
  let externalIp := ntohl (inetAddr t.externalIface.ipStr)
  if daddr = externalIp then .dirIn else .dirOut

/-- The first hit in the order of the buckets. -/
def natGetMappingFromPacket (t : NatTable) (packet : Packet) (dir : PacketDir) :
    Option NatMapping :=
  let tcpHdr := packetToTcpHdr packet.bytes
  let desPort := TcpHdr.dport packet.bytes tcpHdr
  let srcPort := TcpHdr.sport packet.bytes tcpHdr
  let internalIp := IpHdr.saddr packet.bytes packetToIpHdr
  (List.finRange hash8Bits).findSome? fun i =>
    if dir = .dirIn then natLookupExternal (t.natMappingList i) desPort
    else natLookupInternal (t.natMappingList i) internalIp srcPort

/-- The table after the packet, and the packet handed to `ip_send_packet`. A packet without a
mapping gets one, and leaves with its addresses and ports as they came. -/
def doTranslation (t : NatTable) (_iface : IfaceInfo) (packet : Packet) (dir : PacketDir)
    (now : Nat) : NatTable × Packet :=
  let ipHdr := packetToIpHdr
  let tcpHdr := packetToTcpHdr packet.bytes
  let natIp := inetAddr t.externalIface.ipStr
  let srcip := IpHdr.saddr packet.bytes ipHdr
  let srcport := TcpHdr.sport packet.bytes tcpHdr
  match natGetMappingFromPacket t packet dir with
  | some entry =>
    let m :=
      if dir = .dirIn then
        TcpHdr.setDport (IpHdr.setDaddr packet.bytes ipHdr entry.internalIp) tcpHdr
          entry.internalPort
      else
        TcpHdr.setSport (IpHdr.setSaddr packet.bytes ipHdr natIp) tcpHdr entry.externalPort
    (t, { packet with bytes := updateChecksums m ipHdr tcpHdr })
  | none =>
    let r := natInsertMapping t firstBucket srcip srcport now
    (r.2, { packet with bytes := updateChecksums packet.bytes ipHdr tcpHdr })

inductive Effect
  | ipSendPacket (packet : Packet)
  | icmpSendPacket (packet : Packet) (type code : UInt8)
  | free (packet : Packet)

def icmpDestUnreach : UInt8 := 3
def icmpHostUnreach : UInt8 := 1

def natTranslatePacket (t : NatTable) (iface : IfaceInfo) (packet : Packet) (now : Nat) :
    NatTable × List Effect :=
  let dir := getPacketDirection t packet
  if dir = .dirInvalid then
    (t, [.icmpSendPacket packet icmpDestUnreach icmpHostUnreach, .free packet])
  else if packet.protocol ≠ ipprotoTcp then (t, [.free packet])
  else
    let r := doTranslation t iface packet dir now
    (r.1, [.ipSendPacket r.2])

/-- The difference is taken this way round, in signed arithmetic. -/
def due (now : Nat) (entry : NatMapping) : Bool := 60 ≤ (entry.updateTime : Int) - (now : Int)

def natTimeout (t : NatTable) (now : Nat) : NatTable := sweepTable (due now) t

def step (t : NatTable) : Event → NatTable × Option Packet
  | .packet iface dir p now _ =>
    let r := doTranslation t iface p dir now
    (r.1, some r.2)
  | .sweep now => (natTimeout t now, none)

def next : NatTable → Event → NatTable := nextOf step

def HasMapping (t : NatTable) (e : Endpoint) : Prop := ∃ entry ∈ t.mappings, entry.internal = e

instance (t : NatTable) (e : Endpoint) : Decidable (HasMapping t e) :=
  inferInstanceAs (Decidable (∃ entry ∈ t.mappings, entry.internal = e))

theorem hasMapping_of_mem {t : NatTable} {e : Endpoint} (b : Fin hash8Bits)
    (h : ∃ entry ∈ t.natMappingList b, entry.internal = e) : HasMapping t e := by
  obtain ⟨entry, hmem, hinternal⟩ := h
  exact ⟨entry, Buckets.mem_scan.mpr ⟨b, hmem⟩, hinternal⟩

/-! ### What the lookups find -/

theorem natLookupInternal_some {entries : List NatMapping} {ip : UInt32} {port : UInt16}
    {entry : NatMapping} (h : natLookupInternal entries ip port = some entry) :
    entry ∈ entries ∧ entry.internal = (ip, port) := by
  unfold natLookupInternal at h
  have hkey := List.find?_some h
  rw [decide_eq_true_eq] at hkey
  exact ⟨List.mem_of_find?_eq_some h, Prod.ext hkey.1 hkey.2⟩

theorem natLookupExternal_some {entries : List NatMapping} {port : UInt16} {entry : NatMapping}
    (h : natLookupExternal entries port = some entry) :
    entry ∈ entries ∧ entry.externalPort = port := by
  unfold natLookupExternal at h
  have hkey := List.find?_some h
  rw [decide_eq_true_eq] at hkey
  exact ⟨List.mem_of_find?_eq_some h, hkey⟩

theorem natLookupInternal_none {entries : List NatMapping} {e : Endpoint} :
    natLookupInternal entries e.1 e.2 = none ↔ ∀ entry ∈ entries, entry.internal ≠ e := by
  rw [natLookupInternal, List.find?_eq_none]
  simp only [decide_eq_true_eq, ne_eq, NatMapping.internal, Prod.ext_iff]

theorem natLookupExternal_none {entries : List NatMapping} {port : UInt16} :
    natLookupExternal entries port = none ↔ ∀ entry ∈ entries, entry.externalPort ≠ port := by
  rw [natLookupExternal, List.find?_eq_none]
  simp only [decide_eq_true_eq, ne_eq]

/-- Bucket by bucket the scan is one over all entries. -/
theorem natGetMappingFromPacket_eq (t : NatTable) (p : Packet) (dir : PacketDir) :
    natGetMappingFromPacket t p dir =
      if dir = .dirIn then natLookupExternal t.mappings p.dest.2
      else natLookupInternal t.mappings p.source.1 p.source.2 := by
  by_cases hdir : dir = .dirIn
  · simp only [natGetMappingFromPacket, if_pos hdir, natLookupExternal, NatTable.mappings,
      ← Buckets.findSome?_find?]
    rfl
  · simp only [natGetMappingFromPacket, if_neg hdir, natLookupInternal, NatTable.mappings,
      ← Buckets.findSome?_find?]
    rfl

theorem natGetMappingFromPacket_out {t : NatTable} {p : Packet} {dir : PacketDir}
    (hdir : dir ≠ .dirIn) :
    natGetMappingFromPacket t p dir = natLookupInternal t.mappings p.source.1 p.source.2 := by
  rw [natGetMappingFromPacket_eq, if_neg hdir]

/-! ### What a packet does -/

theorem next_sweep (t : NatTable) (now : Nat) : next t (.sweep now) = natTimeout t now := by
  simp only [next, nextOf, step]

theorem next_packet (t : NatTable) (iface : IfaceInfo) (dir : PacketDir) (p : Packet)
    (now later : Nat) :
    next t (.packet iface dir p now later) = (doTranslation t iface p dir now).1 := by
  simp only [next, nextOf, step]

section Packets

variable {t : NatTable} {iface : IfaceInfo} {p : Packet} {dir : PacketDir} {now : Nat}
  {entry : NatMapping}

theorem doTranslation_of_none (h : natGetMappingFromPacket t p dir = none) :
    doTranslation t iface p dir now =
      ((natInsertMapping t firstBucket p.source.1 p.source.2 now).2, p.withChecksums) := by
  simp only [doTranslation, h, Packet.source, Packet.withChecksums]

theorem doTranslation_in (h : natGetMappingFromPacket t p .dirIn = some entry) :
    doTranslation t iface p .dirIn now = (t, p.withDest entry.internal) := by
  simp only [doTranslation, h, if_true, Packet.withDest, NatMapping.internal]

theorem doTranslation_out (hdir : dir ≠ .dirIn)
    (h : natGetMappingFromPacket t p dir = some entry) :
    doTranslation t iface p dir now = (t, p.withSource (t.natIp, entry.externalPort)) := by
  simp only [doTranslation, h, if_neg hdir, Packet.withSource, NatTable.natIp]

theorem doTranslation_fst_of_some (h : natGetMappingFromPacket t p dir = some entry) :
    (doTranslation t iface p dir now).1 = t := by
  by_cases hdir : dir = .dirIn
  · subst hdir
    rw [doTranslation_in h]
  · rw [doTranslation_out hdir h]

theorem getPacketDirection_ne_invalid : getPacketDirection t p ≠ .dirInvalid := by
  unfold getPacketDirection
  dsimp only
  split
  · exact nofun
  · exact nofun

/-- A TCP packet goes to `do_translation` in the direction of its destination address. -/
theorem natTranslatePacket_tcp (h : p.protocol = ipprotoTcp) :
    natTranslatePacket t iface p now =
      ((doTranslation t iface p (getPacketDirection t p) now).1,
        [.ipSendPacket (doTranslation t iface p (getPacketDirection t p) now).2]) := by
  have htcp : ¬ p.protocol ≠ ipprotoTcp := not_not.mpr h
  rw [natTranslatePacket, if_neg getPacketDirection_ne_invalid, if_neg htcp]

theorem natTranslatePacket_fst (h : p.protocol = ipprotoTcp) :
    (natTranslatePacket t iface p now).1
      = (doTranslation t iface p (getPacketDirection t p) now).1 := by
  obtain ⟨r, hr⟩ : ∃ r, doTranslation t iface p (getPacketDirection t p) now = r := ⟨_, rfl⟩
  rw [natTranslatePacket_tcp h, hr]

theorem natTranslatePacket_of_ne (h : p.protocol ≠ ipprotoTcp) :
    natTranslatePacket t iface p now = (t, [.free p]) := by
  rw [natTranslatePacket, if_neg getPacketDirection_ne_invalid, if_pos h]

theorem getPacketDirection_in (h : p.dest.1 = t.natIp) : getPacketDirection t p = .dirIn :=
  if_pos (congrArg ntohl h)

theorem getPacketDirection_out (h : p.dest.1 ≠ t.natIp) : getPacketDirection t p = .dirOut :=
  if_neg fun hsame => h (ntohl_injective hsame)

end Packets

/-! ### What an insertion makes -/

section Insert

variable (t : NatTable) (ip : UInt32) (port : UInt16) (now : Nat)

def inserted : NatMapping := (natInsertMapping t firstBucket ip port now).1

theorem inserted_internal : (inserted t ip port now).internal = (ip, port) := rfl

theorem inserted_updateTime : (inserted t ip port now).updateTime = now := rfl

theorem inserted_externalPort :
    (inserted t ip port now).externalPort = htons (assignExternalPort t).1 := rfl

theorem natInsertMapping_snd :
    (natInsertMapping t firstBucket ip port now).2
      = (assignExternalPort t).2.addTail firstBucket (inserted t ip port now) := rfl

theorem assignExternalPort_frame :
    (assignExternalPort t).2.natMappingList = t.natMappingList ∧
      (assignExternalPort t).2.externalIface = t.externalIface := by
  unfold assignExternalPort
  split
  · exact ⟨rfl, rfl⟩
  · exact ⟨rfl, rfl⟩

theorem inserted_externalIp : (inserted t ip port now).externalIp = t.natIp := by
  simp only [inserted, natInsertMapping, (assignExternalPort_frame t).2, NatTable.natIp]

theorem natMappingList_insert :
    (natInsertMapping t firstBucket ip port now).2.natMappingList =
      Buckets.addTail t.natMappingList firstBucket (inserted t ip port now) := by
  rw [natInsertMapping_snd, NatTable.addTail]
  simp only [(assignExternalPort_frame t).1]

theorem mappings_insert_perm :
    (natInsertMapping t firstBucket ip port now).2.mappings.Perm
      (inserted t ip port now :: t.mappings) := by
  rw [NatTable.mappings, natMappingList_insert]
  exact Buckets.scan_addTail_perm _ _ _

end Insert

end MiniNet.NatStack.NatC
