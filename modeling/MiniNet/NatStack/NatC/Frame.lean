import MiniNet.NatStack.HeaderAccess
import MiniNet.NatStack.NatC.Code

/-!
# Frames as they come in

`ustack_run` copies what it receives into a buffer of just that length and gives it to
`handle_packet`. The length is handed down from function to function and asked by none of them: what
is read and written depends on the contents of the frame alone. So the handlers are given twice here,
over unbounded memory as elsewhere, and access by access in a buffer of the frame's length, and the
frames that are handled inside their buffer come out as those that are as long as their headers say.

The header length and the total length are read again after the addresses have been replaced. That
makes no difference unless the header length is zero and the ports lie over both fields.
-/

namespace MiniNet.NatStack.NatC

open Lib OnBlock

/-! ### `main.c` -/

def ethPIp : UInt16 := 0x0800
def ethPArp : UInt16 := 0x0806
def ipprotoIcmp : UInt8 := 1
def icmpEchoRequest : UInt8 := 8
def icmpEchoReply : UInt8 := 0

def etherType (m : Mem) : UInt16 := load16 m 12

/-- `IP_DATA`, the byte behind the header; the type is the first byte of an ICMP message. -/
def ipData (m : Mem) : Nat := packetToIpHdr + ipHdrSize m packetToIpHdr

/-- An ICMP packet to the address of the interface. -/
def PingsIface (iface : IfaceInfo) (packet : Packet) : Prop :=
  packet.protocol = ipprotoIcmp ∧ ntohl (IpHdr.daddr packet.bytes packetToIpHdr) = iface.ip

instance (iface : IfaceInfo) (packet : Packet) : Decidable (PingsIface iface packet) :=
  inferInstanceAs (Decidable (_ ∧ _))

def handleIpPacket (t : NatTable) (iface : IfaceInfo) (packet : Packet) (now : Nat) :
    NatTable × List Effect :=
  if PingsIface iface packet then
    if packet.bytes (ipData packet.bytes) = icmpEchoRequest then
      (t, [.icmpSendPacket packet icmpEchoReply 0, .free packet])
    else (t, [.free packet])
  else natTranslatePacket t iface packet now

inductive FrameEffect
  | ip (effect : Effect)
  | handleArpPacket (iface : IfaceInfo) (packet : Packet)

/-- A frame of another type is left where it is. -/
def handlePacket (t : NatTable) (iface : IfaceInfo) (packet : Packet) (now : Nat) :
    NatTable × List FrameEffect :=
  if ntohs (etherType packet.bytes) = ethPIp then
    let r := handleIpPacket t iface packet now
    (r.1, r.2.map .ip)
  else if ntohs (etherType packet.bytes) = ethPArp then (t, [.handleArpPacket iface packet])
  else (t, [])

/-! ### Access by access -/

namespace Access

variable (len : Nat)

def getPacketDirection (t : NatTable) : OnBlock PacketDir := do
  let daddr ← read32 len (packetToIpHdr + 16)
  let externalIp := ntohl (inetAddr t.externalIface.ipStr)
  return if ntohl daddr = externalIp then .dirIn else .dirOut

def natGetMappingFromPacket (t : NatTable) (dir : PacketDir) : OnBlock (Option NatMapping) := do
  let tcpHdr ← Access.packetToTcpHdr len
  let desPort ← read16 len (tcpHdr + 2)
  let srcPort ← read16 len tcpHdr
  let internalIp ← read32 len (packetToIpHdr + 12)
  return (List.finRange hash8Bits).findSome? fun i =>
    if dir = .dirIn then natLookupExternal (t.natMappingList i) desPort
    else natLookupInternal (t.natMappingList i) internalIp srcPort

/-- What `do_translation` does with a mapping; what is written is read for a message. -/
def replaceEndpoint (t : NatTable) (dir : PacketDir) (tcpHdr : Nat) (entry : NatMapping) :
    OnBlock Unit :=
  if dir = .dirIn then do
    write32 len (packetToIpHdr + 16) entry.internalIp
    write16 len (tcpHdr + 2) entry.internalPort
    let _ ← read32 len (packetToIpHdr + 16)
    let _ ← read16 len (tcpHdr + 2)
  else do
    write32 len (packetToIpHdr + 12) (inetAddr t.externalIface.ipStr)
    write16 len tcpHdr entry.externalPort
    let _ ← read32 len (packetToIpHdr + 12)
    let _ ← read16 len tcpHdr

/-- The packet is dealt with by the mapping it has, or gets one. -/
def useMapping (t : NatTable) (dir : PacketDir) (tcpHdr : Nat) (source : Endpoint) (now : Nat) :
    Option NatMapping → OnBlock NatTable
  | some entry => do
    replaceEndpoint len t dir tcpHdr entry
    return t
  | none => return (natInsertMapping t firstBucket source.1 source.2 now).2

def doTranslation (t : NatTable) (dir : PacketDir) (now : Nat) : OnBlock NatTable := do
  let tcpHdr ← Access.packetToTcpHdr len
  let srcip ← read32 len (packetToIpHdr + 12)
  let srcport ← read16 len tcpHdr
  let mapping ← natGetMappingFromPacket len t dir
  let t ← useMapping len t dir tcpHdr (srcip, srcport) now mapping
  Access.updateChecksums len packetToIpHdr tcpHdr
  return t

/-- The packet that is handed on is what is in the buffer then. -/
def buffer : OnBlock Packet := do
  let bytes ← get
  return { bytes, len }

def natTranslatePacket (t : NatTable) (now : Nat) : OnBlock (NatTable × List Effect) := do
  let dir ← getPacketDirection len t
  if dir = .dirInvalid then do
    let packet ← buffer len
    return (t, [.icmpSendPacket packet icmpDestUnreach icmpHostUnreach, .free packet])
  else do
    let protocol ← read8 len (packetToIpHdr + 9)
    if protocol ≠ ipprotoTcp then do
      let packet ← buffer len
      return (t, [.free packet])
    else do
      let t ← doTranslation len t dir now
      let packet ← buffer len
      return (t, [.ipSendPacket packet])

def handleIpPacket (t : NatTable) (iface : IfaceInfo) (now : Nat) :
    OnBlock (NatTable × List Effect) := do
  let daddr ← read32 len (packetToIpHdr + 16)
  let protocol ← read8 len (packetToIpHdr + 9)
  if protocol = ipprotoIcmp ∧ ntohl daddr = iface.ip then do
    let size ← Access.ipHdrSize len packetToIpHdr
    let type ← read8 len (packetToIpHdr + size)
    let packet ← buffer len
    if type = icmpEchoRequest then
      return (t, [.icmpSendPacket packet icmpEchoReply 0, .free packet])
    else return (t, [.free packet])
  else natTranslatePacket len t now

def handlePacket (t : NatTable) (iface : IfaceInfo) (now : Nat) :
    OnBlock (NatTable × List FrameEffect) := do
  let type ← read16 len 12
  if ntohs type = ethPIp then do
    let r ← handleIpPacket len t iface now
    return (r.1, r.2.map .ip)
  else if ntohs type = ethPArp then do
    let packet ← buffer len
    return (t, [.handleArpPacket iface packet])
  else return (t, [])

end Access

/-! ### Where a translation reaches -/

/-- The packet `m` with the address and the port that a mapping puts in. -/
def withEndpoint (t : NatTable) (dir : PacketDir) (tcpHdr : Nat) (entry : NatMapping) (m : Mem) :
    Mem :=
  if dir = .dirIn then
    TcpHdr.setDport (IpHdr.setDaddr m packetToIpHdr entry.internalIp) tcpHdr entry.internalPort
  else
    TcpHdr.setSport (IpHdr.setSaddr m packetToIpHdr t.natIp) tcpHdr entry.externalPort

/-- The packet as it is when the checksums are taken. -/
def rewritten (t : NatTable) (p : Packet) (dir : PacketDir) : Mem :=
  match natGetMappingFromPacket t p dir with
  | some entry => withEndpoint t dir (packetToTcpHdr p.bytes) entry p.bytes
  | none => p.bytes

def translationEnd (t : NatTable) (p : Packet) (dir : PacketDir) : Nat :=
  max 34 (max (packetToTcpHdr p.bytes + 18) (max (ipData (rewritten t p dir))
    (packetToTcpHdr p.bytes + (Access.tcpLen (rewritten t p dir) packetToIpHdr).toNat)))

theorem le_translationEnd (t : NatTable) (p : Packet) (dir : PacketDir) :
    34 ≤ translationEnd t p dir := Nat.le_max_left _ _

/-- Where the accesses to the IP packet in a frame end. -/
def packetEnd (t : NatTable) (iface : IfaceInfo) (p : Packet) : Nat :=
  if PingsIface iface p then max 34 (ipData p.bytes + 1)
  else if p.protocol = ipprotoTcp then translationEnd t p (getPacketDirection t p)
  else 34

theorem le_packetEnd (t : NatTable) (iface : IfaceInfo) (p : Packet) :
    34 ≤ packetEnd t iface p := by
  rw [packetEnd]
  split_ifs
  · exact Nat.le_max_left _ _
  · exact le_translationEnd t p _
  · exact Nat.le_refl 34

/-- What stands in the buffer when the packet is translated. -/
def translated (t : NatTable) (p : Packet) (dir : PacketDir) : Mem :=
  updateChecksums (rewritten t p dir) packetToIpHdr (packetToTcpHdr p.bytes)

/-- The table when the packet is translated. -/
def tableAfter (t : NatTable) (p : Packet) (dir : PacketDir) (now : Nat) : NatTable :=
  match natGetMappingFromPacket t p dir with
  | some _ => t
  | none => (natInsertMapping t firstBucket p.source.1 p.source.2 now).2

theorem doTranslation_eq (t : NatTable) (iface : IfaceInfo) (p : Packet) (dir : PacketDir)
    (now : Nat) : doTranslation t iface p dir now =
      (tableAfter t p dir now, { p with bytes := translated t p dir }) := by
  rw [doTranslation, tableAfter, translated, rewritten]
  cases natGetMappingFromPacket t p dir with
  | none => rfl
  | some entry => rfl

/-- What stands in the buffer when the packet has been dealt with, translated or not. -/
def afterwards (t : NatTable) (p : Packet) : Mem :=
  if p.protocol = ipprotoTcp then translated t p (getPacketDirection t p) else p.bytes

section Computes

variable {len : Nat}

theorem computes_buffer : Computes len (Access.buffer len) (fun _ => 0) fun m => (⟨m, len⟩, m) :=
  fun _ => (if_pos (Nat.zero_le len)).symm

theorem computes_getPacketDirection (t : NatTable) : Computes len (Access.getPacketDirection len t)
    (fun _ => 34) fun m => (getPacketDirection t ⟨m, len⟩, m) :=
  ((Computes.read32 (packetToIpHdr + 16)).bind fun _ => Computes.pure _).congr
    (fun _ => rfl) fun _ => rfl

theorem le_packetToTcpHdr (m : Mem) : packetToIpHdr ≤ packetToTcpHdr m := Nat.le_add_right _ _

theorem computes_natGetMappingFromPacket (t : NatTable) (dir : PacketDir) :
    Computes len (Access.natGetMappingFromPacket len t dir)
      (fun m => max 30 (packetToTcpHdr m + 4))
      fun m => (natGetMappingFromPacket t ⟨m, len⟩ dir, m) := by
  refine (Access.computes_packetToTcpHdr.bind fun tcpHdr =>
    (Computes.read16 (tcpHdr + 2)).bind fun _ =>
    (Computes.read16 tcpHdr).bind fun _ =>
    (Computes.read32 (packetToIpHdr + 12)).bind fun _ => Computes.pure _).congr ?_ fun _ => rfl
  intro m
  dsimp only [packetToIpHdr, etherHdrSize]
  omega

theorem computes_replaceEndpoint (t : NatTable) (dir : PacketDir) (tcpHdr : Nat)
    (entry : NatMapping) : Computes len (Access.replaceEndpoint len t dir tcpHdr entry)
      (fun _ => if dir = .dirIn then max 34 (tcpHdr + 4) else max 30 (tcpHdr + 2))
      fun m => ((), withEndpoint t dir tcpHdr entry m) := by
  refine (Computes.ite (c := dir = .dirIn)
    (fun _ => (Computes.write32 (packetToIpHdr + 16) entry.internalIp).bind fun _ =>
      (Computes.write16 (tcpHdr + 2) entry.internalPort).bind fun _ =>
      (Computes.read32 (packetToIpHdr + 16)).bind fun _ =>
      (Computes.read16 (tcpHdr + 2)).bind fun _ => Computes.pure ())
    fun _ => (Computes.write32 (packetToIpHdr + 12) (inetAddr t.externalIface.ipStr)).bind fun _ =>
      (Computes.write16 tcpHdr entry.externalPort).bind fun _ =>
      (Computes.read32 (packetToIpHdr + 12)).bind fun _ =>
      (Computes.read16 tcpHdr).bind fun _ => Computes.pure ()).congr ?_ ?_
  · intro m
    dsimp only [packetToIpHdr, etherHdrSize]
    split <;> omega
  · intro m
    rw [withEndpoint]
    split <;> rfl

theorem computes_useMapping (t : NatTable) (dir : PacketDir) (tcpHdr : Nat) (source : Endpoint)
    (now : Nat) (mapping : Option NatMapping) :
    Computes len (Access.useMapping len t dir tcpHdr source now mapping)
      (fun _ => if mapping = none then 0
        else if dir = .dirIn then max 34 (tcpHdr + 4) else max 30 (tcpHdr + 2))
      fun m => match mapping with
        | some entry => (t, withEndpoint t dir tcpHdr entry m)
        | none => ((natInsertMapping t firstBucket source.1 source.2 now).2, m) := by
  cases mapping with
  | none => exact Computes.pure _
  | some entry =>
    exact ((computes_replaceEndpoint t dir tcpHdr entry).bind fun _ => Computes.pure t).congr
      (fun _ => Nat.max_zero _) fun _ => rfl

theorem computes_doTranslation (t : NatTable) (dir : PacketDir) (now : Nat) :
    Computes len (Access.doTranslation len t dir now) (fun m => translationEnd t ⟨m, len⟩ dir)
      fun m => (tableAfter t ⟨m, len⟩ dir now, translated t ⟨m, len⟩ dir) := by
  refine (Access.computes_packetToTcpHdr.bind fun tcpHdr =>
    (Computes.read32 (packetToIpHdr + 12)).bind fun srcip =>
    (Computes.read16 tcpHdr).bind fun srcport =>
    (computes_natGetMappingFromPacket t dir).bind fun mapping =>
    (computes_useMapping t dir tcpHdr (srcip, srcport) now mapping).bind fun t' =>
    (Access.computes_updateChecksums packetToIpHdr tcpHdr).bind fun _ =>
    Computes.pure t').congr_iff ?_ ?_
  · intro m
    have htcp := le_packetToTcpHdr m
    rw [translationEnd, rewritten]
    dsimp only
    cases natGetMappingFromPacket t ⟨m, len⟩ dir with
    | none =>
      dsimp only
      rw [Access.tcpLen_setChecksum _ _ htcp, if_pos rfl, ipData]
      simp only [Nat.max_le]
      unfold packetToIpHdr etherHdrSize at *
      omega
    | some entry =>
      dsimp only
      rw [Access.tcpLen_setChecksum _ _ htcp, if_neg (Option.some_ne_none entry), ipData]
      simp only [Nat.max_le]
      unfold packetToIpHdr etherHdrSize at *
      split
      · omega
      · omega
  · intro m
    rw [tableAfter, translated, rewritten]
    cases natGetMappingFromPacket t ⟨m, len⟩ dir with
    | none => rfl
    | some entry => rfl

theorem computes_natTranslatePacket (t : NatTable) (iface : IfaceInfo) (now : Nat) :
    Computes len (Access.natTranslatePacket len t now)
      (fun m => if Packet.protocol ⟨m, len⟩ = ipprotoTcp then
        translationEnd t ⟨m, len⟩ (getPacketDirection t ⟨m, len⟩) else 34)
      fun m => (natTranslatePacket t iface ⟨m, len⟩ now, afterwards t ⟨m, len⟩) := by
  refine ((computes_getPacketDirection t).bind fun dir => Computes.ite
    (fun _ => computes_buffer.bind fun packet => Computes.pure _)
    fun _ => (Computes.read8 (packetToIpHdr + 9)).bind fun protocol => Computes.ite
      (fun _ => computes_buffer.bind fun packet => Computes.pure _)
      fun _ => (computes_doTranslation t dir now).bind fun t' =>
        computes_buffer.bind fun packet => Computes.pure _).congr_iff ?_ ?_
  · intro m
    have hend := le_translationEnd t ⟨m, len⟩ (getPacketDirection t ⟨m, len⟩)
    dsimp only
    rw [if_neg getPacketDirection_ne_invalid, ite_not]
    change max 34 (max 24 (if Packet.protocol ⟨m, len⟩ = ipprotoTcp then _ else _)) ≤ len ↔ _
    split
    · omega
    · omega
  · intro m
    dsimp only
    rw [if_neg getPacketDirection_ne_invalid, afterwards]
    by_cases hprotocol : Packet.protocol ⟨m, len⟩ = ipprotoTcp
    · have hbyte : ¬ m (packetToIpHdr + 9) ≠ ipprotoTcp := not_not.mpr hprotocol
      rw [natTranslatePacket_tcp hprotocol, if_neg hbyte, if_pos hprotocol, doTranslation_eq]
    · have hbyte : m (packetToIpHdr + 9) ≠ ipprotoTcp := hprotocol
      rw [natTranslatePacket_of_ne hprotocol, if_pos hbyte, if_neg hprotocol]

theorem computes_handleIpPacket (t : NatTable) (iface : IfaceInfo) (now : Nat) :
    Computes len (Access.handleIpPacket len t iface now) (fun m => packetEnd t iface ⟨m, len⟩)
      fun m => (handleIpPacket t iface ⟨m, len⟩ now,
        if PingsIface iface ⟨m, len⟩ then m else afterwards t ⟨m, len⟩) := by
  refine ((Computes.read32 (packetToIpHdr + 16)).bind fun daddr =>
    (Computes.read8 (packetToIpHdr + 9)).bind fun protocol => Computes.ite
      (fun _ => (Access.computes_ipHdrSize packetToIpHdr).bind fun size =>
        (Computes.read8 (packetToIpHdr + size)).bind fun type =>
        computes_buffer.bind fun packet => Computes.ite
          (fun _ => Computes.pure _) fun _ => Computes.pure _)
      fun _ => computes_natTranslatePacket t iface now).congr_iff ?_ ?_
  · intro m
    have hend := le_translationEnd t ⟨m, len⟩ (getPacketDirection t ⟨m, len⟩)
    have hdata : ipData m = packetToIpHdr + ipHdrSize m packetToIpHdr := rfl
    dsimp only
    rw [packetEnd, ← hdata, ite_self]
    change max 34 (max 24 (if PingsIface iface ⟨m, len⟩ then _ else _)) ≤ len ↔ _
    split
    · unfold packetToIpHdr etherHdrSize
      dsimp only
      rw [Nat.max_zero]
      omega
    · split
      · omega
      · omega
  · intro m
    dsimp only
    rw [handleIpPacket]
    change (if PingsIface iface ⟨m, len⟩ then _ else _) = _
    split
    · change (if m (ipData m) = icmpEchoRequest then _ else _) = _
      split
      · rfl
      · rfl
    · rfl

theorem computes_handlePacket (t : NatTable) (iface : IfaceInfo) (now : Nat) :
    Computes len (Access.handlePacket len t iface now)
      (fun m => if ntohs (etherType m) = ethPIp then packetEnd t iface ⟨m, len⟩ else 14)
      fun m => (handlePacket t iface ⟨m, len⟩ now,
        if ntohs (etherType m) = ethPIp then
          if PingsIface iface ⟨m, len⟩ then m else afterwards t ⟨m, len⟩
        else m) := by
  refine ((Computes.read16 12).bind fun type => Computes.ite
    (fun _ => (computes_handleIpPacket t iface now).bind fun r => Computes.pure _)
    fun _ => Computes.ite (fun _ => computes_buffer.bind fun packet => Computes.pure _)
      fun _ => Computes.pure _).congr_iff ?_ ?_
  · intro m
    have hend := le_packetEnd t iface ⟨m, len⟩
    dsimp only
    change max 14 (if ntohs (etherType m) = ethPIp then _
      else if ntohs (etherType m) = ethPArp then 0 else 0) ≤ len ↔ _
    rw [ite_self]
    split
    · omega
    · omega
  · intro m
    dsimp only
    rw [handlePacket]
    change (if ntohs (etherType m) = ethPIp then _
      else if ntohs (etherType m) = ethPArp then _ else _) = _
    split
    · rfl
    · split
      · rfl
      · rfl

end Computes

/-! ### The frames that are handled inside -/

/-- No access is behind the last byte of the frame. -/
def StaysInside (t : NatTable) (iface : IfaceInfo) (now : Nat) (p : Packet) : Prop :=
  (Access.handlePacket p.len t iface now p.bytes).isSome

instance (t : NatTable) (iface : IfaceInfo) (now : Nat) (p : Packet) :
    Decidable (StaysInside t iface now p) :=
  inferInstanceAs (Decidable (_ = true))

/-- The frame holds the fixed part of the TCP header as far as the checksum, and what the length
fields say of the header and of the segment as they are once the addresses are replaced. -/
def FitsTcp (t : NatTable) (p : Packet) : Prop :=
  packetToTcpHdr p.bytes + 18 ≤ p.len ∧ ipData (rewritten t p (getPacketDirection t p)) ≤ p.len ∧
    packetToTcpHdr p.bytes + (Access.tcpLen (rewritten t p (getPacketDirection t p))
      packetToIpHdr).toNat ≤ p.len

def FitsFrame (t : NatTable) (iface : IfaceInfo) (p : Packet) : Prop :=
  14 ≤ p.len ∧ (ntohs (etherType p.bytes) = ethPIp → 34 ≤ p.len ∧
    (PingsIface iface p → ipData p.bytes < p.len) ∧ (p.protocol = ipprotoTcp → FitsTcp t p))

theorem translationEnd_le_iff (t : NatTable) (p : Packet) :
    translationEnd t p (getPacketDirection t p) ≤ p.len ↔ 34 ≤ p.len ∧ FitsTcp t p := by
  simp only [translationEnd, FitsTcp, Nat.max_le]

/-- An ICMP packet is no TCP packet. -/
theorem PingsIface.not_tcp {iface : IfaceInfo} {p : Packet} (h : PingsIface iface p) :
    p.protocol ≠ ipprotoTcp := by
  rw [h.1]
  decide

theorem packetEnd_le_iff (t : NatTable) (iface : IfaceInfo) (p : Packet) :
    packetEnd t iface p ≤ p.len ↔ 34 ≤ p.len ∧ (PingsIface iface p → ipData p.bytes < p.len) ∧
      (p.protocol = ipprotoTcp → FitsTcp t p) := by
  rw [packetEnd]
  split
  · rename_i hping
    simp only [Nat.max_le, hping, hping.not_tcp, true_imp_iff, false_imp_iff, and_true]
    rfl
  · rename_i hping
    split
    · rename_i htcp
      simp only [translationEnd_le_iff, hping, htcp, true_imp_iff, false_imp_iff, true_and]
    · rename_i htcp
      simp only [hping, htcp, false_imp_iff, and_true]

/-- **What is touched is in the frame** exactly when the frame is as long as its own fields say,
whatever the table holds. -/
theorem stays_inside_iff (t : NatTable) (iface : IfaceInfo) (now : Nat) (p : Packet) :
    StaysInside t iface now p ↔ FitsFrame t iface p := by
  rw [StaysInside, (computes_handlePacket t iface now).isSome_iff, FitsFrame]
  split
  · rename_i htype
    simp only [htype, true_imp_iff, ← packetEnd_le_iff]
    change packetEnd t iface p ≤ p.len ↔ _
    have hend := le_packetEnd t iface p
    omega
  · rename_i htype
    simp only [htype, false_imp_iff, and_true]

/-- Inside the frame the handlers do what they do over unbounded memory. -/
theorem handlePacket_of_fits {t : NatTable} {iface : IfaceInfo} {p : Packet} (now : Nat)
    (h : StaysInside t iface now p) :
    (Access.handlePacket p.len t iface now).run' p.bytes = some (handlePacket t iface p now) := by
  have hend := ((computes_handlePacket t iface now).isSome_iff p.bytes).mp h
  change (Access.handlePacket p.len t iface now p.bytes).map Prod.fst = _
  rw [computes_handlePacket t iface now p.bytes, if_pos hend]
  rfl

/-! ### Frames with a header -/

/-- With a header of one word the ports are behind both length fields. -/
theorem withEndpoint_apply (t : NatTable) (dir : PacketDir) (entry : NatMapping) (m : Mem)
    {tcpHdr i : Nat} (hi : i < packetToIpHdr + 4) (htcp : packetToIpHdr + 4 ≤ tcpHdr) :
    withEndpoint t dir tcpHdr entry m i = m i := by
  rw [withEndpoint]
  split
  · rw [TcpHdr.setDport, store16_apply_of_disjoint _ _ (by omega), IpHdr.setDaddr,
      store32_apply_of_disjoint _ _ (by omega)]
  · rw [TcpHdr.setSport, store16_apply_of_disjoint _ _ (by omega), IpHdr.setSaddr,
      store32_apply_of_disjoint _ _ (by omega)]

theorem rewritten_apply (t : NatTable) {p : Packet} (dir : PacketDir) {i : Nat}
    (hi : i < packetToIpHdr + 4) (h : 1 ≤ p.ihl) : rewritten t p dir i = p.bytes i := by
  have htcp : packetToIpHdr + 4 ≤ packetToTcpHdr p.bytes := by
    unfold Packet.ihl at h
    rw [packetToTcpHdr, ipHdrSize]
    omega
  rw [rewritten]
  cases natGetMappingFromPacket t p dir with
  | none => rfl
  | some entry => exact withEndpoint_apply t dir entry p.bytes hi htcp

/-- With a word of header, the lengths are those that the frame came with. -/
theorem fitsTcp_iff (t : NatTable) {p : Packet} (h : 1 ≤ p.ihl) :
    FitsTcp t p ↔ packetToTcpHdr p.bytes + 18 ≤ p.len ∧
      packetToTcpHdr p.bytes + (Access.tcpLen p.bytes packetToIpHdr).toNat ≤ p.len := by
  have hsize : ipHdrSize (rewritten t p (getPacketDirection t p)) packetToIpHdr
      = ipHdrSize p.bytes packetToIpHdr :=
    Access.ipHdrSize_congr (rewritten_apply t _ (by omega) h)
  have htotLen : IpHdr.totLen (rewritten t p (getPacketDirection t p)) packetToIpHdr
      = IpHdr.totLen p.bytes packetToIpHdr := by
    rw [IpHdr.totLen, load16, rewritten_apply t _ (by omega) h, rewritten_apply t _ (by omega) h]
    rfl
  have hdata : ipData (rewritten t p (getPacketDirection t p)) = packetToTcpHdr p.bytes :=
    congrArg (packetToIpHdr + ·) hsize
  rw [FitsTcp, Access.tcpLen, hsize, htotLen, hdata, ← Access.tcpLen]
  omega

/-- A segment of 54 bytes whose header says that there are 1500. -/
def overstated : Packet :=
  { Packet.bare hostH2 (natTopo.natIp, htons 443) with
    bytes := fun i => if i = 12 then 8 else if i = 16 then 0x05 else if i = 17 then 0xdc
      else (Packet.bare hostH2 (natTopo.natIp, htons 443)).bytes i }

theorem stated_length_read : natTableInit [natTopoIfaces.1, natTopoIfaces.2] = some natTopo ∧
    ∀ p ∈ [overstated, ⟨fun _ => 0, 1⟩], 1 ≤ p.len ∧
      ¬ StaysInside natTopo natTopoIfaces.2 100 p := by
  refine ⟨natTableInit_natTopo, ?_⟩
  intro p hp
  rw [List.mem_pair] at hp
  obtain rfl | rfl := hp
  · exact ⟨by decide, by decide +kernel⟩
  · exact ⟨by decide, by decide +kernel⟩

end MiniNet.NatStack.NatC
