import MiniNet.NatStack.Checksum
import MiniNet.NatStack.Table

/-!
# `tcp_checksum` and the checksum of RFC 1071

The checksum is to be the complement of the one's-complement sum of big-endian words: those of the
pseudo-header, then those of the segment with a zero for the checksum itself. The code adds
little-endian words, which is as good, and it adds the two addresses whole, in 32 bits. Whatever the
words add up to after that fits, but the addresses alone may not: what they carry out of bit 31 is
lost. So the code computes the checksum exactly for the packets whose total stays in 32 bits.
-/

namespace MiniNet.NatStack

open Lib

/-! ### The checksum that is meant -/

def tcpLength (m : Mem) (ip : Nat) : Nat := (loadBE16 m (ip + 2)).toNat - ipHdrSize m ip

/-- Source and destination, the protocol after a zero byte, and the length of the segment. -/
def pseudoHeader (m : Mem) (ip : Nat) : List UInt16 :=
  [loadBE16 m (ip + 12), loadBE16 m (ip + 14), loadBE16 m (ip + 16), loadBE16 m (ip + 18),
    (IpHdr.protocol m ip).toUInt16, UInt16.ofNat (tcpLength m ip)]

/-- RFC 1071 over the pseudo-header and the segment, whose length is even. -/
def rfcTcpChecksum (m : Mem) (ip tcp : Nat) : UInt16 :=
  ~~~onesSum (pseudoHeader m ip ++
    segmentWords loadBE16 (TcpHdr.setChecksum m tcp 0) tcp (tcpLength m ip / 2))

/-- All that `tcp_checksum` adds up, as a number without bound. -/
def plainTotal (m : Mem) (ip tcp : Nat) : Nat :=
  (IpHdr.saddr m ip).toNat + (IpHdr.daddr m ip).toNat
    + (htons (IpHdr.protocol m ip).toUInt16).toNat + (htons (UInt16.ofNat (tcpLength m ip))).toNat
    + total (segmentWords load16 (TcpHdr.setChecksum m tcp 0) tcp (tcpLength m ip / 2))

/-- A header of at least five words, and a segment of even length with a whole TCP header. -/
structure EvenSegment (m : Mem) (ip : Nat) : Prop where
  ihl_ge : 5 ≤ IpHdr.ihl m ip
  totLen_ge : ipHdrSize m ip + tcpBaseHdrSize ≤ (ntohs (IpHdr.totLen m ip)).toNat
  even : tcpLength m ip % 2 = 0

/-- What `tcp_checksum` computes, stored in the checksum field, is the checksum that is meant. -/
def StoresRfcChecksum (m : Mem) (ip : Nat) : Prop :=
  let tcp := ip + ipHdrSize m ip
  loadBE16 (TcpHdr.setChecksum m tcp (tcpChecksum m ip tcp)) (tcp + 16) = rfcTcpChecksum m ip tcp

instance (m : Mem) (ip : Nat) : Decidable (StoresRfcChecksum m ip) :=
  inferInstanceAs (Decidable (_ = _))

/-! ### What the code computes -/

theorem toNat_tcpLength (m : Mem) (ip : Nat) :
    (UInt16.ofNat (tcpLength m ip)).toNat = tcpLength m ip := by
  have hlen := (loadBE16 m (ip + 2)).toNat_lt
  apply UInt16.toNat_ofNat_of_lt'
  simp only [tcpLength, UInt16.size]
  omega

section Segment

variable {m : Mem} {ip : Nat}

theorem tcpLen_eq (h : EvenSegment m ip) :
    ntohs (IpHdr.totLen m ip) - UInt16.ofNat (ipHdrSize m ip) = UInt16.ofNat (tcpLength m ip) := by
  have hle := h.totLen_ge
  have hlen := (ntohs (IpHdr.totLen m ip)).toNat_lt
  have hsize : (UInt16.ofNat (ipHdrSize m ip)).toNat = ipHdrSize m ip := by
    apply UInt16.toNat_ofNat_of_lt'
    simp only [UInt16.size]
    omega
  apply UInt16.toNat_inj.mp
  rw [toNat_tcpLength, UInt16.toNat_sub_of_le, hsize, tcpLength, ← swap16_load16]
  · rfl
  · rw [UInt16.le_iff_toNat_le, hsize]
    omega

theorem toNat_tcpChecksum (h : EvenSegment m ip) :
    (tcpChecksum m ip (ip + ipHdrSize m ip)).toNat
      = 65535 - onesRep (plainTotal m ip (ip + ipHdrSize m ip) % 2 ^ 32) := by
  have htcp : ip + 20 ≤ ip + ipHdrSize m ip := by
    have hihl := h.ihl_ge
    rw [ipHdrSize]
    omega
  generalize htcpEq : ip + ipHdrSize m ip = tcp at htcp ⊢
  -- The zeroed field is not part of what the pseudo-header reads.
  have hsize : ipHdrSize (TcpHdr.setChecksum m tcp 0) ip = ipHdrSize m ip := by
    rw [ipHdrSize, IpHdr.ihl, TcpHdr.setChecksum, store16_apply_of_disjoint _ _ (by omega),
      ipHdrSize, IpHdr.ihl]
  have hproto : IpHdr.protocol (TcpHdr.setChecksum m tcp 0) ip = IpHdr.protocol m ip :=
    store16_apply_of_disjoint _ _ (by omega)
  have hlen : IpHdr.totLen (TcpHdr.setChecksum m tcp 0) ip = IpHdr.totLen m ip :=
    load16_store16_of_disjoint _ _ (by omega)
  have hsaddr : IpHdr.saddr (TcpHdr.setChecksum m tcp 0) ip = IpHdr.saddr m ip :=
    load32_store16_of_disjoint _ _ (by omega)
  have hdaddr : IpHdr.daddr (TcpHdr.setChecksum m tcp 0) ip = IpHdr.daddr m ip :=
    load32_store16_of_disjoint _ _ (by omega)
  simp only [tcpChecksum, hsize, hproto, hlen, hsaddr, hdaddr, tcpLen_eq h]
  rw [toNat_checksum_of_even (by rw [toNat_tcpLength]; exact h.even), toNat_tcpLength, plainTotal]
  simp only [UInt32.toNat_add, UInt16.toNat_toUInt32, Nat.mod_add_mod]

theorem swap16_rfcTcpChecksum (m : Mem) (ip tcp : Nat) :
    (swap16 (rfcTcpChecksum m ip tcp)).toNat = 65535 - onesRep (plainTotal m ip tcp) := by
  have hwords : pseudoHeader m ip ++
      segmentWords loadBE16 (TcpHdr.setChecksum m tcp 0) tcp (tcpLength m ip / 2)
      = ([load16 m (ip + 12), load16 m (ip + 14), load16 m (ip + 16), load16 m (ip + 18),
            htons (IpHdr.protocol m ip).toUInt16, htons (UInt16.ofNat (tcpLength m ip))] ++
          segmentWords load16 (TcpHdr.setChecksum m tcp 0) tcp (tcpLength m ip / 2)).map swap16 := by
    simp only [pseudoHeader, segmentWords, htons, List.map_append, List.map_cons, List.map_nil,
      List.map_map, Function.comp_def, swap16_load16, swap16_swap16]
  rw [rfcTcpChecksum, hwords, onesSum_map_swap16, swap16_complement, swap16_swap16,
    toNat_complement, toNat_onesSum, total_append, plainTotal]
  simp only [total_cons, total_nil, IpHdr.saddr, IpHdr.daddr, toNat_load32,
    show ip + 12 + 2 = ip + 14 from rfl, show ip + 16 + 2 = ip + 18 from rfl]
  congr 1
  rw [onesRep_eq_iff]
  omega

theorem plainTotal_lt (m : Mem) (ip tcp : Nat) : plainTotal m ip tcp < 65535 * 2 ^ 32 := by
  have hlen : tcpLength m ip ≤ 65535 := by
    rw [← toNat_tcpLength]
    exact Nat.le_of_lt_succ (UInt16.ofNat (tcpLength m ip)).toNat_lt
  have hsaddr := (IpHdr.saddr m ip).toNat_lt
  have hdaddr := (IpHdr.daddr m ip).toNat_lt
  have hproto := (htons (IpHdr.protocol m ip).toUInt16).toNat_lt
  have htcpLen := (htons (UInt16.ofNat (tcpLength m ip))).toNat_lt
  have htotal := total_le
    (segmentWords load16 (TcpHdr.setChecksum m tcp 0) tcp (tcpLength m ip / 2))
  rw [show (segmentWords load16 (TcpHdr.setChecksum m tcp 0) tcp (tcpLength m ip / 2)).length
    = tcpLength m ip / 2 by rw [segmentWords, List.length_map, List.length_range]] at htotal
  rw [plainTotal]
  omega

end Segment

/-- **When `tcp_checksum` is the TCP checksum**: when its total fits in 32 bits. -/
theorem tcpChecksum_eq_rfc_iff {m : Mem} {ip : Nat} (h : EvenSegment m ip) :
    StoresRfcChecksum m ip ↔ plainTotal m ip (ip + ipHdrSize m ip) < 2 ^ 32 := by
  rw [StoresRfcChecksum, ← onesRep_mod_iff (plainTotal_lt m ip _), ← swap16_injective.eq_iff,
    ← swap16_load16, swap16_swap16, TcpHdr.setChecksum, load16_store16, ← UInt16.toNat_inj,
    toNat_tcpChecksum h, swap16_rfcTcpChecksum]
  have hmod := onesRep_lt (plainTotal m ip (ip + ipHdrSize m ip) % 2 ^ 32)
  have htotal := onesRep_lt (plainTotal m ip (ip + ipHdrSize m ip))
  omega

theorem tcpChecksum_eq_rfc_iff_hostH2 :
    StoresRfcChecksum (Packet.bare (natTopo.natIp, htons 12345) hostH2).bytes 14 ↔
      plainTotal (Packet.bare (natTopo.natIp, htons 12345) hostH2).bytes 14
        (14 + ipHdrSize (Packet.bare (natTopo.natIp, htons 12345) hostH2).bytes 14) < 2 ^ 32 :=
  tcpChecksum_eq_rfc_iff ⟨by decide, by decide, by decide⟩

theorem tcpChecksum_loses_carry :
    EvenSegment (Packet.bare (htonl 0x9fe227c8, htons 40000) hostH2).bytes 14 ∧
    ¬ StoresRfcChecksum (Packet.bare (htonl 0x9fe227c8, htons 40000) hostH2).bytes 14 :=
  ⟨⟨by decide, by decide, by decide⟩, by decide +kernel⟩

end MiniNet.NatStack
