import MiniNet.NatStack.Checksum
import MiniNet.NatStack.Table

/-!
# `ip_checksum` and the checksum of RFC 1071

A header has at most 30 words, so their total is far from the end of a `u32`, and its length is
even, so nothing is left over. What the code gets from little-endian words with the field zeroed is,
stored little end first, the complement of the sum of the big-endian words.
-/

namespace MiniNet.NatStack

open Lib

/-- The words of the header. -/
def headerWords (load : Mem → Nat → UInt16) (m : Mem) (ip : Nat) : List UInt16 :=
  segmentWords load m ip (2 * IpHdr.ihl m ip)

/-- RFC 1071 over the header with a zero for the checksum itself. -/
def rfcIpChecksum (m : Mem) (ip : Nat) : UInt16 :=
  ~~~onesSum (headerWords loadBE16 (IpHdr.setChecksum m ip 0) ip)

/-- No addition that `ip_checksum` makes leaves the `u32`: none of the loop, and neither of the two
that fold the total. -/
structure SumsFit (m : Mem) (ip : Nat) : Prop where
  loop : ∀ n, n < 2 * IpHdr.ihl m ip →
    (sumHalfwords (IpHdr.setChecksum m ip 0) ip n 0).toNat
      + (load16 (IpHdr.setChecksum m ip 0) (ip + 2 * n)).toNat < 2 ^ 32
  fold : ∀ s, s = sumHalfwords (IpHdr.setChecksum m ip 0) ip (2 * IpHdr.ihl m ip) 0 →
    (s >>> 16).toNat + (s &&& 0xffff).toNat < 2 ^ 32 ∧
      (foldCarry s).toNat + (foldCarry s >>> 16).toNat < 2 ^ 32

structure IsIpChecksum (m : Mem) (ip : Nat) : Prop where
  stored : loadBE16 (IpHdr.setChecksum m ip (ipChecksum m ip)) (ip + 10) = rfcIpChecksum m ip
  independent : ∀ previous, ipChecksum (IpHdr.setChecksum m ip previous) ip = ipChecksum m ip
  sumsFit : SumsFit m ip
  verifies : onesSum (headerWords loadBE16 (IpHdr.setChecksum m ip (ipChecksum m ip)) ip) = 0xffff

section Header

variable (m : Mem) (ip : Nat)

theorem ihl_setChecksum (v : UInt16) : IpHdr.ihl (IpHdr.setChecksum m ip v) ip = IpHdr.ihl m ip := by
  rw [IpHdr.ihl, IpHdr.setChecksum, store16_apply_of_disjoint _ _ (by omega), IpHdr.ihl]

theorem ihl_lt : IpHdr.ihl m ip < 16 := Nat.mod_lt _ (by decide)

/-- The total of the first words of the header. -/
theorem total_headerWords_lt (n : Nat) (h : n ≤ 2 * IpHdr.ihl m ip) (m' : Mem) :
    total (segmentWords load16 m' ip n) < 2 ^ 21 := by
  have htotal := total_le (segmentWords load16 m' ip n)
  have hihl := ihl_lt m ip
  rw [length_segmentWords] at htotal
  omega

theorem toNat_ipChecksum :
    (ipChecksum m ip).toNat
      = 65535 - onesRep (total (headerWords load16 (IpHdr.setChecksum m ip 0) ip)) := by
  have hsize : ipHdrSize (IpHdr.setChecksum m ip 0) ip / 2
      = 2 * IpHdr.ihl (IpHdr.setChecksum m ip 0) ip := by
    rw [ipHdrSize]
    omega
  have htotal := total_headerWords_lt (IpHdr.setChecksum m ip 0) ip _ (Nat.le_refl _)
    (IpHdr.setChecksum m ip 0)
  have heven : ipHdrSize (IpHdr.setChecksum m ip 0) ip % 2 = 0 := by
    rw [ipHdrSize]
    omega
  simp only [ipChecksum]
  rw [toNat_checksum_of_even heven, hsize, UInt32.toNat_zero, Nat.zero_add, headerWords,
    Nat.mod_eq_of_lt (by omega)]

theorem ipChecksum_eq :
    ipChecksum m ip = ~~~onesSum (headerWords load16 (IpHdr.setChecksum m ip 0) ip) := by
  rw [← UInt16.toNat_inj, toNat_ipChecksum, toNat_complement, toNat_onesSum]

theorem headerWords_loadBE16 :
    headerWords loadBE16 m ip = (headerWords load16 m ip).map swap16 :=
  segmentWords_loadBE16 m ip _

theorem swap16_ipChecksum :
    swap16 (ipChecksum m ip) = rfcIpChecksum m ip := by
  rw [ipChecksum_eq, swap16_complement, ← onesSum_map_swap16, ← headerWords_loadBE16,
    rfcIpChecksum]

theorem ipChecksum_setChecksum (previous : UInt16) :
    ipChecksum (IpHdr.setChecksum m ip previous) ip = ipChecksum m ip := by
  simp only [ipChecksum, IpHdr.setChecksum, store16_store16]

theorem sumsFit : SumsFit m ip where
  loop n hn := by
    have htotal := total_headerWords_lt m ip n (Nat.le_of_lt hn) (IpHdr.setChecksum m ip 0)
    have hword := (load16 (IpHdr.setChecksum m ip 0) (ip + 2 * n)).toNat_lt
    rw [toNat_sumHalfwords, UInt32.toNat_zero, Nat.zero_add, Nat.mod_eq_of_lt (by omega)]
    omega
  fold s hs := by
    have hlow : (s &&& 0xffff).toNat ≤ s.toNat := by
      rw [UInt32.toNat_and]
      exact Nat.and_le_left
    have htotal := total_headerWords_lt m ip _ (Nat.le_refl _) (IpHdr.setChecksum m ip 0)
    have htoNat : s.toNat < 2 ^ 21 := by
      rw [hs, toNat_sumHalfwords, UInt32.toNat_zero, Nat.zero_add, Nat.mod_eq_of_lt (by omega)]
      exact htotal
    rw [toNat_shiftRight16, toNat_shiftRight16, toNat_foldCarry]
    omega

variable {m ip}

/-- The field is the sixth word. -/
theorem total_headerWords_setChecksum (h : 5 ≤ IpHdr.ihl m ip) (v : UInt16) :
    total (headerWords load16 (IpHdr.setChecksum m ip v) ip)
      = total (headerWords load16 (IpHdr.setChecksum m ip 0) ip) + v.toNat := by
  obtain ⟨k, hk⟩ : ∃ k, 2 * IpHdr.ihl m ip = 5 + (k + 1) := ⟨2 * IpHdr.ihl m ip - 6, by omega⟩
  have hsplit : ∀ w : UInt16, total (headerWords load16 (IpHdr.setChecksum m ip w) ip)
      = total (segmentWords load16 m ip 5) + w.toNat
        + total (segmentWords load16 m (ip + 2 * 5 + 2) k) := by
    intro w
    rw [headerWords, ihl_setChecksum, hk, segmentWords_append, segmentWords_succ _ _ (ip + 2 * 5),
      total_append, total_cons, IpHdr.setChecksum, segmentWords_store16_of_disjoint _ _ _ (by omega),
      segmentWords_store16_of_disjoint _ _ _ (by omega), load16_store16]
    omega
  rw [hsplit v, hsplit 0, UInt16.toNat_zero]
  omega

theorem onesSum_header (h : 5 ≤ IpHdr.ihl m ip) :
    onesSum (headerWords load16 (IpHdr.setChecksum m ip (ipChecksum m ip)) ip) = 0xffff := by
  have hlow := onesRep_lt (total (headerWords load16 (IpHdr.setChecksum m ip 0) ip))
  rw [← UInt16.toNat_inj, toNat_onesSum, total_headerWords_setChecksum h, ← onesRep_add,
    toNat_ipChecksum, Nat.add_sub_cancel' (by omega)]
  decide

end Header

/-- **`ip_checksum` is the IPv4 header checksum**, whatever is in the header. -/
theorem ipChecksum_isIpChecksum {m : Mem} {ip : Nat} (h : 5 ≤ IpHdr.ihl m ip) :
    IsIpChecksum m ip where
  stored := by
    rw [IpHdr.setChecksum, ← swap16_load16, load16_store16, swap16_ipChecksum]
  independent := ipChecksum_setChecksum m ip
  sumsFit := sumsFit m ip
  verifies := by
    rw [headerWords_loadBE16, onesSum_map_swap16, onesSum_header h]
    decide

theorem ipChecksum_isIpChecksum_hostH1 :
    IsIpChecksum (Packet.bare hostH1 hostH2).bytes packetToIpHdr :=
  ipChecksum_isIpChecksum (by decide)

end MiniNet.NatStack
