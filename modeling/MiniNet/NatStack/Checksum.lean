import MiniNet.Lib.OnesComplement
import MiniNet.NatStack.Headers

/-!
# `checksum`

The loop adds the whole words of a buffer in a `u32`, and the total is folded to 16 bits. A byte that
is left over at the end is added after that, so what it carries out of the 16 bits is cut off, where
the sum of RFC 1071 adds it back in.
-/

namespace MiniNet.NatStack

open Lib

def segmentWords (load : Mem → Nat → UInt16) (m : Mem) (tcp n : Nat) : List UInt16 :=
  (List.range n).map fun i => load m (tcp + 2 * i)

/-! ### The words of a buffer -/

section Words

variable (load : Mem → Nat → UInt16) (m : Mem) (buf : Nat)

theorem length_segmentWords (n : Nat) : (segmentWords load m buf n).length = n := by
  rw [segmentWords, List.length_map, List.length_range]

theorem segmentWords_append (k n : Nat) :
    segmentWords load m buf (k + n)
      = segmentWords load m buf k ++ segmentWords load m (buf + 2 * k) n := by
  simp only [segmentWords, List.range_add, List.map_append, List.map_map, Function.comp_def,
    Nat.mul_add, Nat.add_assoc]

theorem segmentWords_succ (n : Nat) :
    segmentWords load m buf (n + 1) = load m buf :: segmentWords load m (buf + 2) n := by
  rw [Nat.add_comm, segmentWords_append]
  rfl

theorem segmentWords_loadBE16 (n : Nat) :
    segmentWords loadBE16 m buf n = (segmentWords load16 m buf n).map swap16 := by
  simp only [segmentWords, List.map_map, Function.comp_def, swap16_load16]

theorem segmentWords_store16_of_disjoint (v : UInt16) {a n : Nat}
    (h : a + 2 ≤ buf ∨ buf + 2 * n ≤ a) :
    segmentWords load16 (store16 m a v) buf n = segmentWords load16 m buf n := by
  rw [segmentWords, segmentWords]
  apply List.map_congr_left
  intro i hi
  have hlt := List.mem_range.mp hi
  exact load16_store16_of_disjoint m v (by omega)

end Words

/-! ### What the code computes -/

theorem toNat_sumHalfwords (m : Mem) (buf n : Nat) (sum : UInt32) :
    (sumHalfwords m buf n sum).toNat
      = (sum.toNat + total (segmentWords load16 m buf n)) % 2 ^ 32 := by
  induction n generalizing buf sum with
  | zero => simp [sumHalfwords, segmentWords, Nat.mod_eq_of_lt sum.toNat_lt]
  | succ n ih =>
    rw [sumHalfwords, ih, segmentWords_succ, total_cons, UInt32.toNat_add, UInt16.toNat_toUInt32]
    omega

theorem toNat_checksum_of_even {nbytes : Nat} (h : nbytes % 2 = 0) (m : Mem) (buf : Nat)
    (sum : UInt32) :
    (checksum m buf nbytes sum).toNat
      = 65535 - onesRep ((sum.toNat + total (segmentWords load16 m buf (nbytes / 2))) % 2 ^ 32) := by
  have hodd : ¬ nbytes % 2 ≠ 0 := not_not.mpr h
  rw [← toNat_sumHalfwords, ← toNat_fold_fold, ← toNat_complement, checksum]
  simp only [if_neg hodd, UInt32.toUInt16_not, foldCarry]

theorem toNat_checksum_of_odd {nbytes : Nat} (h : nbytes % 2 ≠ 0) (m : Mem) (buf : Nat)
    (sum : UInt32) :
    (checksum m buf nbytes sum).toNat =
      65535 - (onesRep ((sum.toNat + total (segmentWords load16 m buf (nbytes / 2))) % 2 ^ 32)
        + (m (buf + nbytes - 1)).toNat) % 65536 := by
  have hbyte : (m (buf + nbytes - 1)).toUInt32.toUInt16.toNat = (m (buf + nbytes - 1)).toNat := by
    simp
  rw [← toNat_sumHalfwords, ← toNat_fold_fold, checksum]
  simp only [if_pos h, UInt32.toUInt16_not]
  rw [toNat_complement, UInt32.toUInt16_add, UInt16.toNat_add, hbyte]
  rfl

/-! ### The sum that is meant -/

/-- The little-endian words, the last one padded with a zero byte if the length is odd. -/
def paddedWords (m : Mem) (buf nbytes : Nat) : List UInt16 :=
  segmentWords load16 m buf (nbytes / 2) ++
    if nbytes % 2 ≠ 0 then [(m (buf + nbytes - 1)).toUInt16] else []

/-- The last byte, if it is left over, adds to the sum of the whole words without a carry. -/
def LastByteFits (m : Mem) (buf nbytes : Nat) : Prop :=
  nbytes % 2 = 0 ∨
    (onesSum (segmentWords load16 m buf (nbytes / 2))).toNat + (m (buf + nbytes - 1)).toNat ≤ 0xffff

/-- **When `checksum` handles the length**: when it is even, or the last byte adds without a
carry. -/
theorem checksum_eq_iff {nbytes : Nat} (h : nbytes ≤ 65535) (m : Mem) (buf : Nat) :
    checksum m buf nbytes 0 = ~~~onesSum (paddedWords m buf nbytes) ↔
      LastByteFits m buf nbytes := by
  have htotal := total_le (segmentWords load16 m buf (nbytes / 2))
  rw [length_segmentWords] at htotal
  have hmod : total (segmentWords load16 m buf (nbytes / 2)) % 2 ^ 32
      = total (segmentWords load16 m buf (nbytes / 2)) := Nat.mod_eq_of_lt (by omega)
  rw [← UInt16.toNat_inj, toNat_complement, toNat_onesSum, paddedWords, LastByteFits, toNat_onesSum]
  by_cases hodd : nbytes % 2 ≠ 0
  · have hbyte := (m (buf + nbytes - 1)).toNat_lt
    rw [toNat_checksum_of_odd hodd, UInt32.toNat_zero, Nat.zero_add, hmod, if_pos hodd,
      total_append, total_cons, total_nil, Nat.add_zero, UInt8.toNat_toUInt16, ← onesRep_add,
      or_iff_right hodd]
    have hlow := onesRep_lt (total (segmentWords load16 m buf (nbytes / 2)))
    generalize onesRep (total (segmentWords load16 m buf (nbytes / 2))) = low at hlow ⊢
    have hsum := onesRep_lt (low + (m (buf + nbytes - 1)).toNat)
    have hcarry : (low + (m (buf + nbytes - 1)).toNat) % 65536
        = onesRep (low + (m (buf + nbytes - 1)).toNat) ↔ _ := mod_eq_onesRep_iff (by omega)
    omega
  · have heven := not_not.mp hodd
    rw [toNat_checksum_of_even heven, UInt32.toNat_zero, Nat.zero_add, hmod, if_neg hodd,
      List.append_nil]
    exact iff_of_true rfl (.inl heven)

/-- An ICMP echo request with identifier `0xf7ff` and one byte of data. -/
def oddEcho : Mem := fun i => ([8, 0, 0, 0, 0xf7, 0xff, 0, 0, 1] : List UInt8).getD i 0

theorem checksum_eq_iff_oddEcho :
    checksum oddEcho 0 9 0 = ~~~onesSum (paddedWords oddEcho 0 9) ↔ LastByteFits oddEcho 0 9 :=
  checksum_eq_iff (by decide) oddEcho 0

/-- Its words add up to `0xffff`, so the last byte makes a carry. -/
theorem checksum_loses_last_carry :
    checksum oddEcho 0 9 0 = 0xffff ∧ ~~~onesSum (paddedWords oddEcho 0 9) = 0xfffe := by
  decide

end MiniNet.NatStack
