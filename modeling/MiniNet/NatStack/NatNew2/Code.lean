import MiniNet.NatStack.Table

/-!
# `nat_new_2.c`

The version with a hash: `nat_insert_mapping` makes two entries for a flow, one in the bucket of the
inner endpoint and one in that of the external one, and each lookup goes through one bucket. Entries
are pointed to, since the translation writes the time into the one it has found; a pointer is the
bucket and the place of the entry. Reading through a null pointer ends the program, which is `none`.

What no packet and no sweep calls is not here: `nat_update_tcp_connection`, whose only call is
commented out, is in `Close`.
-/

namespace MiniNet.NatStack.NatNew2

open Lib

/-- A `struct nat_mapping *` into the table. -/
abbrev Location := Fin hash8Bits × Nat

def isFlowFinished (conn : NatConnection) : Bool :=
  conn.externalFin = 1 ∧ conn.internalFin = 1 ∧
    conn.externalAck = conn.internalSeqEnd + 1 ∧ conn.internalAck = conn.externalSeqEnd + 1

def natLookupExternal (t : NatTable) (externalPort : UInt16) : Option Location :=
  Buckets.findIn t.natMappingList (bucket t.externalIface.ip externalPort) fun entry =>
    entry.externalPort = externalPort

def natLookupInternal (t : NatTable) (internalIp : UInt32) (internalPort : UInt16) :
    Option Location :=
  Buckets.findIn t.natMappingList (bucket internalIp internalPort) fun entry =>
    entry.internalIp = internalIp ∧ entry.internalPort = internalPort

/-- The scan includes `NAT_PORT_MAX`, and without a free cell returns 0. -/
def assignExternalPort (t : NatTable) : UInt16 × NatTable :=
  match scanPorts t (natPortMax + 1 - natPortMin) with
  | some i => (UInt16.ofNat i, t.setPort (UInt16.ofNat i) 1)
  | none => (0, t)

/-- The first free port is marked, or nothing is. -/
theorem assignExternalPort_cases (t : NatTable) :
    (∃ port, LeastFree t (natPortMax + 1 - natPortMin) port ∧
      assignExternalPort t = (port, t.setPort port 1)) ∨
    ((∀ q, InPortRange q → t.assignedPorts q ≠ 0) ∧ assignExternalPort t = (0, t)) := by
  rcases scanPorts_cases t (n := natPortMax + 1 - natPortMin) (by decide) with
    ⟨port, hleast, hscan⟩ | ⟨hfull, hscan⟩
  · refine .inl ⟨port, hleast, ?_⟩
    simp only [assignExternalPort, hscan, UInt16.ofNat_toNat]
  · refine .inr ⟨fun q hq => hfull q hq.1 (Nat.lt_succ_of_le hq.2), ?_⟩
    rw [assignExternalPort, hscan]

/-- The two entries of a flow, and where the first one is. The time is set in the first only. -/
def natInsertMapping (t : NatTable) (internalIp : UInt32) (internalPort : UInt16) (now : Nat) :
    Location × NatTable :=
  let r := assignExternalPort t
  let t := r.2
  let entry : NatMapping :=
    { internalIp
      internalPort
      externalIp := t.externalIface.ip
      externalPort := htons r.1
      updateTime := 0
      conn := .zero }
  let newVal := bucket internalIp internalPort
  let loc := (newVal, (t.natMappingList newVal).length)
  let t := t.addTail newVal { entry with updateTime := now }
  (loc, t.addTail (bucket entry.externalIp entry.externalPort) entry)

def getPacketDirection (t : NatTable) (packet : Packet) : PacketDir :=
  let daddr := ntohl (IpHdr.daddr packet.bytes packetToIpHdr)
  if daddr = t.externalIface.ip then .dirIn else .dirOut

/-- An outbound packet without a mapping gets one here. -/
def natGetMappingFromPacket (t : NatTable) (packet : Packet) (dir : PacketDir) (now : Nat) :
    Option Location × NatTable :=
  let tcpHdr := packetToTcpHdr packet.bytes
  let desPort := TcpHdr.dport packet.bytes tcpHdr
  let srcPort := TcpHdr.sport packet.bytes tcpHdr
  let internalIp := IpHdr.saddr packet.bytes packetToIpHdr
  if dir = .dirIn then (natLookupExternal t desPort, t)
  else
    match natLookupInternal t internalIp srcPort with
    | some loc => (some loc, t)
    | none =>
      let r := natInsertMapping t internalIp srcPort now
      (some r.1, r.2)

def touch (t : NatTable) (loc : Location) (now : Nat) : NatTable :=
  { t with natMappingList :=
      Buckets.modifyAt t.natMappingList loc fun entry => { entry with updateTime := now } }

/-- The table after the packet, and the packet handed to `ip_send_packet`. An inbound packet without
a mapping has the port of the null pointer read. -/
def doTranslation (t : NatTable) (_iface : IfaceInfo) (packet : Packet) (dir : PacketDir)
    (now later : Nat) : Option (NatTable × Packet) :=
  let ipHdr := packetToIpHdr
  let tcpHdr := packetToTcpHdr packet.bytes
  let natIp := inetAddr t.externalIface.ipStr
  let r := natGetMappingFromPacket t packet dir now
  r.1.bind fun loc =>
    (Buckets.get? r.2.natMappingList loc).map fun entry =>
      let m :=
        if dir = .dirIn then
          TcpHdr.setDport (IpHdr.setDaddr packet.bytes ipHdr entry.internalIp) tcpHdr
            entry.internalPort
        else
          TcpHdr.setSport (IpHdr.setSaddr packet.bytes ipHdr natIp) tcpHdr entry.externalPort
      (touch r.2 loc later, { packet with bytes := updateChecksums m ipHdr tcpHdr })

/-- Finished, or ahead of the clock: the difference is taken this way round here as well. -/
def due (now : Nat) (entry : NatMapping) : Bool :=
  isFlowFinished entry.conn || 60 ≤ (entry.updateTime : Int) - (now : Int)

/-- Without segments noted, and not ahead of the clock, an entry is not due. -/
theorem not_due {entry : NatMapping} {now : Nat} (hconn : entry.conn = .zero)
    (hclock : entry.updateTime ≤ now) : due now entry = false := by
  have hfinished : isFlowFinished .zero = false := by decide
  rw [due, hconn, hfinished, Bool.false_or, decide_eq_false_iff_not]
  omega

def natTimeout (t : NatTable) (now : Nat) : NatTable := sweepTable (due now) t

def step : Option NatTable → Event → Option NatTable × Option Packet
  | none, _ => (none, none)
  | some t, .packet iface dir p now later =>
    let r := doTranslation t iface p dir now later
    (r.map Prod.fst, r.map Prod.snd)
  | some t, .sweep now => (some (natTimeout t now), none)

def next : Option NatTable → Event → Option NatTable := nextOf step

end MiniNet.NatStack.NatNew2
