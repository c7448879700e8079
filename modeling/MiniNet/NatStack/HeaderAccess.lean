import MiniNet.Lib.BlockMemory
import MiniNet.NatStack.Headers

/-!
# Where the header functions reach

The functions of `ip.h`, `tcp.h` and `checksum.h` once more, as the accesses they make one after the
other to a buffer of `len` bytes. None of them gets the length, so each is described by where its
accesses end, which the header fields decide, and it comes to what the function over unbounded memory
does.
-/

namespace MiniNet.NatStack.Access

open Lib OnBlock

section Functions

variable (len : Nat)

def ipHdrSize (ip : Nat) : OnBlock Nat := do
  let first ← read8 len ip
  return first.toNat % 16 * 4

def packetToTcpHdr : OnBlock Nat := do
  let size ← ipHdrSize len packetToIpHdr
  return packetToIpHdr + size

def sumHalfwords (buf : Nat) : Nat → UInt32 → OnBlock UInt32
  | 0, sum => pure sum
  | n + 1, sum => do
    let v ← read16 len buf
    sumHalfwords (buf + 2) n (sum + v.toUInt32)

def checksum (buf nbytes : Nat) (sum : UInt32) : OnBlock UInt16 := do
  let sum ← sumHalfwords len buf (nbytes / 2) sum
  let sum := (sum >>> 16) + (sum &&& 0xffff)
  let sum := sum + (sum >>> 16)
  if nbytes % 2 ≠ 0 then do
    let last ← read8 len (buf + nbytes - 1)
    return (~~~(sum + last.toUInt32)).toUInt16
  else
    return (~~~sum).toUInt16

def ipChecksum (hdr : Nat) : OnBlock UInt16 := do
  let tmp ← read16 len (hdr + 10)
  write16 len (hdr + 10) 0
  let size ← ipHdrSize len hdr
  let sum ← checksum len hdr size 0
  write16 len (hdr + 10) tmp
  return sum

def tcpChecksum (ip tcp : Nat) : OnBlock UInt16 := do
  let tmp ← read16 len (tcp + 16)
  write16 len (tcp + 16) 0
  let protocol ← read8 len (ip + 9)
  let totLen ← read16 len (ip + 2)
  let size ← ipHdrSize len ip
  let tcpLen : UInt16 := ntohs totLen - UInt16.ofNat size
  let saddr ← read32 len (ip + 12)
  let daddr ← read32 len (ip + 16)
  let sum : UInt32 := saddr + daddr + (htons protocol.toUInt16).toUInt32 + (htons tcpLen).toUInt32
  let cksum ← checksum len tcp tcpLen.toNat sum
  write16 len (tcp + 16) tmp
  return cksum

def updateChecksums (ip tcp : Nat) : OnBlock Unit := do
  let sum ← ipChecksum len ip
  write16 len (ip + 10) sum
  let sum ← tcpChecksum len ip tcp
  write16 len (tcp + 16) sum

end Functions

/-! ### Their extents -/

variable {len : Nat}

theorem computes_ipHdrSize (ip : Nat) : Computes len (ipHdrSize len ip) (fun _ => ip + 1)
    fun m => (NatStack.ipHdrSize m ip, m) :=
  ((Computes.read8 ip).bind fun first => Computes.pure (first.toNat % 16 * 4)).congr
    (fun _ => Nat.max_zero _) fun _ => rfl

theorem computes_packetToTcpHdr : Computes len (packetToTcpHdr len) (fun _ => 15)
    fun m => (NatStack.packetToTcpHdr m, m) :=
  ((computes_ipHdrSize packetToIpHdr).bind fun size => Computes.pure (packetToIpHdr + size)).congr
    (fun _ => rfl) fun _ => rfl

theorem computes_sumHalfwords (buf n : Nat) (sum : UInt32) :
    Computes len (sumHalfwords len buf n sum) (fun _ => if n = 0 then 0 else buf + 2 * n)
      fun m => (NatStack.sumHalfwords m buf n sum, m) := by
  induction n generalizing buf sum with
  | zero => exact Computes.pure sum
  | succ n ih =>
    refine ((Computes.read16 buf).bind fun v => ih (buf + 2) (sum + v.toUInt32)).congr ?_ ?_
    · intro m
      rw [if_neg (Nat.succ_ne_zero n)]
      split
      · omega
      · omega
    · exact fun _ => rfl

/-- Nothing is read of an empty range. -/
theorem computes_checksum (buf nbytes : Nat) (sum : UInt32) :
    Computes len (checksum len buf nbytes sum) (fun _ => if nbytes = 0 then 0 else buf + nbytes)
      fun m => (NatStack.checksum m buf nbytes sum, m) := by
  refine ((computes_sumHalfwords buf (nbytes / 2) sum).bind fun _ => Computes.ite
    (fun _ => (Computes.read8 (buf + nbytes - 1)).bind fun _ => Computes.pure _)
    fun _ => Computes.pure _).congr ?_ ?_
  · intro m
    split_ifs <;> omega
  · intro m
    dsimp only [NatStack.checksum]
    split_ifs <;> rfl

theorem ipHdrSize_congr {m m' : Mem} {ip : Nat} (h : m ip = m' ip) :
    NatStack.ipHdrSize m ip = NatStack.ipHdrSize m' ip := by
  rw [NatStack.ipHdrSize, IpHdr.ihl, h]
  rfl

theorem computes_ipChecksum (hdr : Nat) : Computes len (ipChecksum len hdr)
    (fun m => max (hdr + 12) (hdr + NatStack.ipHdrSize m hdr))
    fun m => (NatStack.ipChecksum m hdr, m) := by
  refine ((Computes.read16 (hdr + 10)).bind fun tmp =>
    (Computes.write16 (hdr + 10) 0).bind fun _ =>
    (computes_ipHdrSize hdr).bind fun size =>
    (computes_checksum hdr size 0).bind fun sum =>
    (Computes.write16 (hdr + 10) tmp).bind fun _ => Computes.pure sum).congr ?_ ?_
  · intro m
    have hsize : NatStack.ipHdrSize (store16 m (hdr + 10) 0) hdr = NatStack.ipHdrSize m hdr :=
      ipHdrSize_congr (store16_apply_of_disjoint _ _ (by omega))
    dsimp only
    rw [hsize]
    split <;> omega
  · intro m
    simp only [NatStack.ipChecksum, IpHdr.setChecksum, store16_load16]

/-- The length of the TCP segment as the header fields give it, modulo `2 ^ 16`. -/
def tcpLen (m : Mem) (ip : Nat) : UInt16 :=
  ntohs (IpHdr.totLen m ip) - UInt16.ofNat (NatStack.ipHdrSize m ip)

theorem computes_tcpChecksum (ip tcp : Nat) : Computes len (tcpChecksum len ip tcp)
    (fun m => max (tcp + 18) (max (ip + 20)
      (tcp + (tcpLen (TcpHdr.setChecksum m tcp 0) ip).toNat)))
    fun m => (NatStack.tcpChecksum m ip tcp, m) := by
  refine ((Computes.read16 (tcp + 16)).bind fun tmp =>
    (Computes.write16 (tcp + 16) 0).bind fun _ =>
    (Computes.read8 (ip + 9)).bind fun protocol =>
    (Computes.read16 (ip + 2)).bind fun totLen =>
    (computes_ipHdrSize ip).bind fun size =>
    (Computes.read32 (ip + 12)).bind fun saddr =>
    (Computes.read32 (ip + 16)).bind fun daddr =>
    (computes_checksum tcp (ntohs totLen - UInt16.ofNat size).toNat _).bind fun cksum =>
    (Computes.write16 (tcp + 16) tmp).bind fun _ => Computes.pure cksum).congr_iff ?_ ?_
  · intro m
    dsimp only [tcpLen, TcpHdr.setChecksum, IpHdr.totLen]
    simp only [Nat.max_le]
    split
    · omega
    · omega
  · intro m
    simp only [store16_load16]
    rfl

theorem computes_updateChecksums (ip tcp : Nat) : Computes len (updateChecksums len ip tcp)
    (fun m => max (max (ip + 20) (tcp + 18)) (max (ip + NatStack.ipHdrSize m ip) (tcp +
      (tcpLen (TcpHdr.setChecksum (IpHdr.setChecksum m ip (NatStack.ipChecksum m ip)) tcp 0)
        ip).toNat)))
    fun m => ((), NatStack.updateChecksums m ip tcp) := by
  refine ((computes_ipChecksum ip).bind fun sum =>
    (Computes.write16 (ip + 10) sum).bind fun _ =>
    (computes_tcpChecksum ip tcp).bind fun sum =>
    Computes.write16 (tcp + 16) sum).congr_iff ?_ ?_
  · intro m
    simp only [Nat.max_le, IpHdr.setChecksum]
    omega
  · exact fun _ => rfl

/-- Both lengths are in fields ahead of the checksums. -/
theorem tcpLen_setChecksum (m : Mem) (v : UInt16) {ip tcp : Nat} (h : ip ≤ tcp) :
    tcpLen (TcpHdr.setChecksum (IpHdr.setChecksum m ip v) tcp 0) ip = tcpLen m ip := by
  have hfirst : TcpHdr.setChecksum (IpHdr.setChecksum m ip v) tcp 0 ip = m ip := by
    rw [TcpHdr.setChecksum, store16_apply_of_disjoint _ _ (by omega), IpHdr.setChecksum,
      store16_apply_of_disjoint _ _ (by omega)]
  have htotLen : IpHdr.totLen (TcpHdr.setChecksum (IpHdr.setChecksum m ip v) tcp 0) ip
      = IpHdr.totLen m ip := by
    rw [IpHdr.totLen, TcpHdr.setChecksum, load16_store16_of_disjoint _ _ (by omega),
      IpHdr.setChecksum, load16_store16_of_disjoint _ _ (by omega), IpHdr.totLen]
  rw [tcpLen, tcpLen, htotLen, ipHdrSize_congr hfirst]

end MiniNet.NatStack.Access
