import MiniNet.Lib.ByteMemory

/-!
# Packets and their headers

The packet a handler works on is memory from the packet pointer on, with the length it was received
with; `ip` and `tcp` below are offsets from that pointer, as the header pointers of the C code are.
Reads are total: bytes past `len` are whatever lies behind the buffer, and no result depends on
what they are. The host is little-endian, so a field in network order is read as the byte-swapped
number and `htons` and `htonl` swap.

The last section says what the two address rewrites of the translation leave in the four address
and port fields, for every header of at least five words.
-/

namespace MiniNet.NatStack

open Lib

def htons (v : UInt16) : UInt16 := swap16 v
def ntohs (v : UInt16) : UInt16 := swap16 v
def htonl (v : UInt32) : UInt32 := swap32 v
def ntohl (v : UInt32) : UInt32 := swap32 v

@[simp] theorem ntohs_htons (v : UInt16) : ntohs (htons v) = v := swap16_swap16 v
@[simp] theorem htons_ntohs (v : UInt16) : htons (ntohs v) = v := swap16_swap16 v
@[simp] theorem ntohl_htonl (v : UInt32) : ntohl (htonl v) = v := swap32_swap32 v
@[simp] theorem htonl_ntohl (v : UInt32) : htonl (ntohl v) = v := swap32_swap32 v

theorem htons_injective : Function.Injective htons := swap16_injective
theorem ntohl_injective : Function.Injective ntohl := swap32_injective

/-- `char *packet, int len`. -/
structure Packet where
  bytes : Mem
  len : Nat

def etherHdrSize : Nat := 14
def ipprotoTcp : UInt8 := 6
def tcpBaseHdrSize : Nat := 20

/-! ### `struct iphdr` and `struct tcphdr` -/

namespace IpHdr

variable (m : Mem) (ip : Nat)

def ihl : Nat := (m ip).toNat % 16
def totLen : UInt16 := load16 m (ip + 2)
def protocol : UInt8 := m (ip + 9)
def saddr : UInt32 := load32 m (ip + 12)
def daddr : UInt32 := load32 m (ip + 16)

def setChecksum (v : UInt16) : Mem := store16 m (ip + 10) v
def setSaddr (v : UInt32) : Mem := store32 m (ip + 12) v
def setDaddr (v : UInt32) : Mem := store32 m (ip + 16) v

end IpHdr

def ipHdrSize (m : Mem) (ip : Nat) : Nat := IpHdr.ihl m ip * 4

namespace TcpHdr

variable (m : Mem) (tcp : Nat)

def sport : UInt16 := load16 m tcp
def dport : UInt16 := load16 m (tcp + 2)
def seq : UInt32 := load32 m (tcp + 4)
def ack : UInt32 := load32 m (tcp + 8)
def flags : UInt8 := m (tcp + 13)

def setSport (v : UInt16) : Mem := store16 m tcp v
def setDport (v : UInt16) : Mem := store16 m (tcp + 2) v
def setChecksum (v : UInt16) : Mem := store16 m (tcp + 16) v

end TcpHdr

def packetToIpHdr : Nat := etherHdrSize

def packetToTcpHdr (m : Mem) : Nat := packetToIpHdr + ipHdrSize m packetToIpHdr

/-! ### Checksums -/

/-- The loop of `checksum`: add `n` halfwords from `buf` on, in a `u32`. -/
def sumHalfwords (m : Mem) (buf : Nat) : Nat → UInt32 → UInt32
  | 0, sum => sum
  | n + 1, sum => sumHalfwords m (buf + 2) n (sum + (load16 m buf).toUInt32)

def checksum (m : Mem) (buf nbytes : Nat) (sum : UInt32) : UInt16 :=
  let sum := sumHalfwords m buf (nbytes / 2) sum
  let sum := (sum >>> 16) + (sum &&& 0xffff)
  let sum := sum + (sum >>> 16)
  let sum := if nbytes % 2 ≠ 0 then sum + (m (buf + nbytes - 1)).toUInt32 else sum
  (~~~sum).toUInt16

/-- The field is zeroed for the sum and put back afterwards. -/
def ipChecksum (m : Mem) (hdr : Nat) : UInt16 :=
  let m := IpHdr.setChecksum m hdr 0
  checksum m hdr (ipHdrSize m hdr) 0

/-- As in `ipChecksum` the field is zeroed first, so the pseudo-header fields are read from the
memory with the zero in it. -/
def tcpChecksum (m : Mem) (ip tcp : Nat) : UInt16 :=
  let m := TcpHdr.setChecksum m tcp 0
  let reservProto : UInt16 := (IpHdr.protocol m ip).toUInt16
  let tcpLen : UInt16 := ntohs (IpHdr.totLen m ip) - UInt16.ofNat (ipHdrSize m ip)
  let sum : UInt32 := IpHdr.saddr m ip + IpHdr.daddr m ip + (htons reservProto).toUInt32
    + (htons tcpLen).toUInt32
  checksum m tcp tcpLen.toNat sum

/-- The two checksum assignments that end `do_translation`. -/
def updateChecksums (m : Mem) (ip tcp : Nat) : Mem :=
  let m := IpHdr.setChecksum m ip (ipChecksum m ip)
  TcpHdr.setChecksum m tcp (tcpChecksum m ip tcp)

/-! ### Addresses and ports -/

/-- An address and a port, as the packet holds them. -/
abbrev Endpoint := UInt32 × UInt16

namespace Packet

variable (p : Packet)

def ihl : Nat := IpHdr.ihl p.bytes packetToIpHdr
def protocol : UInt8 := IpHdr.protocol p.bytes packetToIpHdr

def source : Endpoint :=
  (IpHdr.saddr p.bytes packetToIpHdr, TcpHdr.sport p.bytes (packetToTcpHdr p.bytes))

def dest : Endpoint :=
  (IpHdr.daddr p.bytes packetToIpHdr, TcpHdr.dport p.bytes (packetToTcpHdr p.bytes))

/-- A header of at least five words, and the fixed part of the TCP header inside the packet. -/
structure CompleteTcp : Prop where
  ihl_ge : 5 ≤ p.ihl
  header_le : packetToTcpHdr p.bytes + tcpBaseHdrSize ≤ p.len

instance : Decidable p.CompleteTcp :=
  decidable_of_iff (5 ≤ p.ihl ∧ packetToTcpHdr p.bytes + tcpBaseHdrSize ≤ p.len)
    ⟨fun h => ⟨h.1, h.2⟩, fun h => ⟨h.1, h.2⟩⟩

/-- The packet with a new source, checksums included. -/
def withSource (e : Endpoint) : Packet :=
  let tcp := packetToTcpHdr p.bytes
  { p with
    bytes := updateChecksums
      (TcpHdr.setSport (IpHdr.setSaddr p.bytes packetToIpHdr e.1) tcp e.2) packetToIpHdr tcp }

def withDest (e : Endpoint) : Packet :=
  let tcp := packetToTcpHdr p.bytes
  { p with
    bytes := updateChecksums
      (TcpHdr.setDport (IpHdr.setDaddr p.bytes packetToIpHdr e.1) tcp e.2) packetToIpHdr tcp }

def withChecksums : Packet :=
  { p with bytes := updateChecksums p.bytes packetToIpHdr (packetToTcpHdr p.bytes) }

end Packet

/-! ### What the rewrites leave in the packet -/

theorem packetToTcpHdr_congr {m m' : Mem} (h : m etherHdrSize = m' etherHdrSize) :
    packetToTcpHdr m = packetToTcpHdr m' := by
  simp only [packetToTcpHdr, ipHdrSize, IpHdr.ihl, packetToIpHdr, h]

theorem updateChecksums_apply (m : Mem) {ip tcp i : Nat} (hip : i < ip + 10 ∨ ip + 12 ≤ i)
    (htcp : i < tcp + 16 ∨ tcp + 18 ≤ i) : updateChecksums m ip tcp i = m i := by
  rw [updateChecksums, TcpHdr.setChecksum, store16_apply_of_disjoint _ _ (by omega),
    IpHdr.setChecksum, store16_apply_of_disjoint _ _ (by omega)]

section Fields

variable (m : Mem) {ip tcp : Nat}

theorem saddr_updateChecksums (h : ip + 20 ≤ tcp) :
    IpHdr.saddr (updateChecksums m ip tcp) ip = IpHdr.saddr m ip := by
  simp (disch := omega) only [IpHdr.saddr, updateChecksums, TcpHdr.setChecksum, IpHdr.setChecksum,
    load32_store16_of_disjoint]

theorem daddr_updateChecksums (h : ip + 20 ≤ tcp) :
    IpHdr.daddr (updateChecksums m ip tcp) ip = IpHdr.daddr m ip := by
  simp (disch := omega) only [IpHdr.daddr, updateChecksums, TcpHdr.setChecksum, IpHdr.setChecksum,
    load32_store16_of_disjoint]

theorem sport_updateChecksums (h : ip + 20 ≤ tcp) :
    TcpHdr.sport (updateChecksums m ip tcp) tcp = TcpHdr.sport m tcp := by
  simp (disch := omega) only [TcpHdr.sport, updateChecksums, TcpHdr.setChecksum,
    IpHdr.setChecksum, load16_store16_of_disjoint]

theorem dport_updateChecksums (h : ip + 20 ≤ tcp) :
    TcpHdr.dport (updateChecksums m ip tcp) tcp = TcpHdr.dport m tcp := by
  simp (disch := omega) only [TcpHdr.dport, updateChecksums, TcpHdr.setChecksum,
    IpHdr.setChecksum, load16_store16_of_disjoint]

end Fields

namespace Packet

variable {p : Packet}

theorem ipHdr_le_tcpHdr (h : 5 ≤ p.ihl) : packetToIpHdr + 20 ≤ packetToTcpHdr p.bytes := by
  unfold ihl at h
  rw [packetToTcpHdr, ipHdrSize]
  omega

theorem etherHdrSize_lt_tcpHdr (h : 5 ≤ p.ihl) : 34 ≤ packetToTcpHdr p.bytes :=
  ipHdr_le_tcpHdr h

theorem bytes_withSource (p : Packet) (e : Endpoint) {i : Nat}
    (hsum : i < packetToIpHdr + 10 ∨ packetToIpHdr + 12 ≤ i)
    (hsaddr : i < packetToIpHdr + 12 ∨ packetToIpHdr + 16 ≤ i)
    (hsport : i < packetToTcpHdr p.bytes ∨ packetToTcpHdr p.bytes + 2 ≤ i)
    (htcp : i < packetToTcpHdr p.bytes + 16 ∨ packetToTcpHdr p.bytes + 18 ≤ i) :
    (p.withSource e).bytes i = p.bytes i := by
  simp only [withSource]
  rw [updateChecksums_apply _ hsum htcp, TcpHdr.setSport,
    store16_apply_of_disjoint _ _ hsport, IpHdr.setSaddr, store32_apply_of_disjoint _ _ (by omega)]

theorem bytes_withDest (p : Packet) (e : Endpoint) {i : Nat}
    (hsum : i < packetToIpHdr + 10 ∨ packetToIpHdr + 12 ≤ i)
    (hdaddr : i < packetToIpHdr + 16 ∨ packetToIpHdr + 20 ≤ i)
    (hdport : i < packetToTcpHdr p.bytes + 2 ∨ packetToTcpHdr p.bytes + 4 ≤ i)
    (htcp : i < packetToTcpHdr p.bytes + 16 ∨ packetToTcpHdr p.bytes + 18 ≤ i) :
    (p.withDest e).bytes i = p.bytes i := by
  simp only [withDest]
  rw [updateChecksums_apply _ hsum htcp, TcpHdr.setDport,
    store16_apply_of_disjoint _ _ (by omega), IpHdr.setDaddr,
    store32_apply_of_disjoint _ _ (by omega)]

theorem bytes_withChecksums (p : Packet) {i : Nat}
    (hsum : i < packetToIpHdr + 10 ∨ packetToIpHdr + 12 ≤ i)
    (htcp : i < packetToTcpHdr p.bytes + 16 ∨ packetToTcpHdr p.bytes + 18 ≤ i) :
    p.withChecksums.bytes i = p.bytes i :=
  updateChecksums_apply _ hsum htcp

/-! The header length is not written, so the header of the new packet is found where it was. -/

theorem tcpHdr_withSource (h : 5 ≤ p.ihl) (e : Endpoint) :
    packetToTcpHdr (p.withSource e).bytes = packetToTcpHdr p.bytes := by
  have htcp := etherHdrSize_lt_tcpHdr h
  apply packetToTcpHdr_congr
  apply bytes_withSource <;> simp only [packetToIpHdr, etherHdrSize] <;> omega

theorem tcpHdr_withDest (h : 5 ≤ p.ihl) (e : Endpoint) :
    packetToTcpHdr (p.withDest e).bytes = packetToTcpHdr p.bytes := by
  have htcp := etherHdrSize_lt_tcpHdr h
  apply packetToTcpHdr_congr
  apply bytes_withDest <;> simp only [packetToIpHdr, etherHdrSize] <;> omega

theorem tcpHdr_withChecksums (h : 5 ≤ p.ihl) :
    packetToTcpHdr p.withChecksums.bytes = packetToTcpHdr p.bytes := by
  have htcp := etherHdrSize_lt_tcpHdr h
  apply packetToTcpHdr_congr
  apply bytes_withChecksums <;> simp only [packetToIpHdr, etherHdrSize] <;> omega

theorem source_withSource (h : 5 ≤ p.ihl) (e : Endpoint) : (p.withSource e).source = e := by
  have htcp := ipHdr_le_tcpHdr h
  rw [source, tcpHdr_withSource h]
  simp only [withSource]
  rw [saddr_updateChecksums _ htcp, sport_updateChecksums _ htcp]
  simp (disch := omega) only [IpHdr.saddr, IpHdr.setSaddr, TcpHdr.sport, TcpHdr.setSport,
    load32_store16_of_disjoint, load32_store32, load16_store16]

theorem dest_withSource (h : 5 ≤ p.ihl) (e : Endpoint) : (p.withSource e).dest = p.dest := by
  have htcp := ipHdr_le_tcpHdr h
  rw [dest, tcpHdr_withSource h]
  simp only [withSource]
  rw [daddr_updateChecksums _ htcp, dport_updateChecksums _ htcp]
  simp (disch := omega) only [IpHdr.daddr, IpHdr.setSaddr, TcpHdr.dport, TcpHdr.setSport,
    load32_store16_of_disjoint, load32_store32_of_disjoint, load16_store16_of_disjoint,
    load16_store32_of_disjoint, dest]

theorem source_withDest (h : 5 ≤ p.ihl) (e : Endpoint) : (p.withDest e).source = p.source := by
  have htcp := ipHdr_le_tcpHdr h
  rw [source, tcpHdr_withDest h]
  simp only [withDest]
  rw [saddr_updateChecksums _ htcp, sport_updateChecksums _ htcp]
  simp (disch := omega) only [IpHdr.saddr, IpHdr.setDaddr, TcpHdr.sport, TcpHdr.setDport,
    load32_store16_of_disjoint, load32_store32_of_disjoint, load16_store16_of_disjoint,
    load16_store32_of_disjoint, source]

theorem dest_withDest (h : 5 ≤ p.ihl) (e : Endpoint) : (p.withDest e).dest = e := by
  have htcp := ipHdr_le_tcpHdr h
  rw [dest, tcpHdr_withDest h]
  simp only [withDest]
  rw [daddr_updateChecksums _ htcp, dport_updateChecksums _ htcp]
  simp (disch := omega) only [IpHdr.daddr, IpHdr.setDaddr, TcpHdr.dport, TcpHdr.setDport,
    load32_store16_of_disjoint, load32_store32, load16_store16]

theorem source_withChecksums (h : 5 ≤ p.ihl) : p.withChecksums.source = p.source := by
  have htcp := ipHdr_le_tcpHdr h
  rw [source, tcpHdr_withChecksums h]
  simp only [withChecksums]
  rw [saddr_updateChecksums _ htcp, sport_updateChecksums _ htcp, source]

end Packet

end MiniNet.NatStack
