import Mathlib.Algebra.Ring.Nat
import Mathlib.Data.List.TakeWhile
import MiniNet.NatStack.Headers

/-!
# Interfaces and their addresses

An interface carries its address twice: `ip` as a host-order number and `ip_str` in dotted form.
`read_iface_info` sets both from the one address the kernel gives it, and no other code writes
either, so the agreement of the two is a field of the structure. `nat.c` goes through the text and
`nat_new_2.c` through both, which is why the C library's two conversions are modelled here;
`inetAddr_inetNtoa` is what makes the two versions mean the same address.
-/

namespace MiniNet.NatStack

open Lib

/-! ### `inet_ntoa` and `inet_addr` -/

/-- Byte `i` of an address in memory order. -/
def octet (a : UInt32) (i : Nat) : Nat := a.toNat / 256 ^ i % 256

def inetNtoa (a : UInt32) : String :=
  let part i := Nat.toDigits 10 (octet a i)
  String.ofList (part 0 ++ '.' :: (part 1 ++ '.' :: (part 2 ++ '.' :: part 3)))

def digitValue (c : Char) : Nat :=
  if '0' ≤ c ∧ c ≤ '9' then c.toNat - 48
  else if 'a' ≤ c ∧ c ≤ 'f' then c.toNat - 87
  else if 'A' ≤ c ∧ c ≤ 'F' then c.toNat - 55
  else 36

def parseDigits (base : Nat) (ds : List Char) : Option Nat :=
  if ds ≠ [] ∧ ds.all (digitValue · < base) then
    some (ds.foldl (fun n c => n * base + digitValue c) 0)
  else none

/-- One part of an address as `strtoul` with base 0 reads it: `0x` for hexadecimal, a leading `0`
for octal, and the whole part has to be a number. -/
def parsePart : List Char → Option Nat
  | '0' :: 'x' :: ds => parseDigits 16 ds
  | '0' :: 'X' :: ds => parseDigits 16 ds
  | '0' :: d :: ds => parseDigits 8 (d :: ds)
  | ds => parseDigits 10 ds

/-- `a.b.c.d`, or fewer parts with the last one filling the rest. -/
def combineParts : List Nat → Option Nat
  | [a] => if a < 2 ^ 32 then some a else none
  | [a, b] => if a < 2 ^ 8 ∧ b < 2 ^ 24 then some (a * 2 ^ 24 + b) else none
  | [a, b, c] =>
    if a < 2 ^ 8 ∧ b < 2 ^ 8 ∧ c < 2 ^ 16 then some (a * 2 ^ 24 + b * 2 ^ 16 + c) else none
  | [a, b, c, d] =>
    if a < 2 ^ 8 ∧ b < 2 ^ 8 ∧ c < 2 ^ 8 ∧ d < 2 ^ 8 then
      some (a * 2 ^ 24 + b * 2 ^ 16 + c * 2 ^ 8 + d)
    else none
  | _ => none

def inaddrNone : UInt32 := 0xffffffff

def isSpace (c : Char) : Bool := c = ' ' || (9 ≤ c.toNat && c.toNat ≤ 13)

/-- The address in network order; what follows white space is not looked at. -/
def inetAddr (s : String) : UInt32 :=
  match (((s.toList.takeWhile (!isSpace ·)).splitOn '.').mapM parsePart).bind combineParts with
  | some a => htonl (UInt32.ofNat a)
  | none => inaddrNone

/-! ### The text of an address reads back as the address -/

private theorem parsePart_toDigits : ∀ n < 256, parsePart (Nat.toDigits 10 n) = some n := by
  decide +kernel

private theorem toDigits_plain :
    ∀ n < 256, (Nat.toDigits 10 n).all fun c => !isSpace c && c != '.' := by
  decide +kernel

theorem octet_lt (a : UInt32) (i : Nat) : octet a i < 256 := Nat.mod_lt _ (by decide)

/-- The bytes of an address, first byte most significant, make up the number whose network form
the address is. -/
theorem htonl_octets (a : UInt32) :
    htonl (UInt32.ofNat (octet a 0 * 2 ^ 24 + octet a 1 * 2 ^ 16 + octet a 2 * 2 ^ 8 + octet a 3))
      = a := by
  have ha := a.toNat_lt
  have h0 := octet_lt a 0
  have h1 := octet_lt a 1
  have h2 := octet_lt a 2
  have h3 := octet_lt a 3
  have hlow : a.toNat % 65536 = octet a 0 + 256 * octet a 1 := by
    simp only [octet, Nat.pow_zero, Nat.div_one, Nat.pow_one]
    omega
  have hhigh : a.toNat / 65536 = octet a 2 + 256 * octet a 3 := by
    simp only [octet, show 256 ^ 2 = 65536 from rfl, show 256 ^ 3 = 16777216 from rfl]
    omega
  apply ntohl_injective
  rw [ntohl_htonl]
  apply UInt32.toNat_inj.mp
  rw [ntohl, toNat_swap32, UInt32.toNat_ofNat', hlow, hhigh, byteSwap_add h0, byteSwap_add h2]
  omega

theorem inetAddr_inetNtoa (a : UInt32) : inetAddr (inetNtoa a) = a := by
  have hplain : ∀ i, ∀ c ∈ Nat.toDigits 10 (octet a i), isSpace c = false ∧ c ≠ '.' := by
    intro i c hc
    simpa using List.all_eq_true.mp (toDigits_plain (octet a i) (octet_lt a i)) c hc
  have hdot : ∀ i, '.' ∉ Nat.toDigits 10 (octet a i) := fun i h => (hplain i '.' h).2 rfl
  have hpart := fun i => parsePart_toDigits (octet a i) (octet_lt a i)
  have hspace : ∀ c ∈ (inetNtoa a).toList, (!isSpace c) = true := by
    intro c hc
    simp only [inetNtoa, String.toList_ofList, List.mem_append, List.mem_cons] at hc
    rcases hc with h | rfl | h | rfl | h | rfl | h
    · rw [(hplain 0 c h).1]; rfl
    · decide
    · rw [(hplain 1 c h).1]; rfl
    · decide
    · rw [(hplain 2 c h).1]; rfl
    · decide
    · rw [(hplain 3 c h).1]; rfl
  have hcombine : combineParts [octet a 0, octet a 1, octet a 2, octet a 3]
      = some (octet a 0 * 2 ^ 24 + octet a 1 * 2 ^ 16 + octet a 2 * 2 ^ 8 + octet a 3) :=
    if_pos ⟨octet_lt a 0, octet_lt a 1, octet_lt a 2, octet_lt a 3⟩
  rw [inetAddr, List.takeWhile_eq_self_iff.mpr hspace]
  simp only [inetNtoa, String.toList_ofList]
  rw [List.splitOn_append_cons_self_of_not_mem (hdot 0),
    List.splitOn_append_cons_self_of_not_mem (hdot 1),
    List.splitOn_append_cons_self_of_not_mem (hdot 2), List.splitOn_eq_singleton (hdot 3)]
  simp only [List.mapM_cons, List.mapM_nil, hpart, Option.pure_def, Option.bind_eq_bind,
    Option.bind_some, hcombine]
  exact htonl_octets a

/-! ### `iface_info_t` -/

/-- An interface as `read_iface_info` leaves it: the text is the dotted form of the address. -/
structure IfaceInfo where
  name : String
  /-- In host byte order. -/
  ip : UInt32
  ipStr : String
  ipStr_eq : ipStr = inetNtoa (htonl ip)

def readIfaceInfo (name : String) (ip : UInt32) : IfaceInfo where
  name := name
  ip := ntohl ip
  ipStr := inetNtoa ip
  ipStr_eq := by rw [htonl_ntohl]

theorem IfaceInfo.inetAddr_ipStr (iface : IfaceInfo) : inetAddr iface.ipStr = htonl iface.ip := by
  rw [iface.ipStr_eq, inetAddr_inetNtoa]

def ifNameToIface (ifaceList : List IfaceInfo) (ifName : String) : Option IfaceInfo :=
  ifaceList.find? (·.name = ifName)

end MiniNet.NatStack
