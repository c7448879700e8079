import Mathlib.Algebra.BigOperators.Group.List.Basic
import Mathlib.Algebra.Ring.Nat
import MiniNet.Lib.ByteMemory

/-!
# One's-complement sums of 16-bit words

The Internet checksum adds 16-bit words and adds the carry out of the top back in. With zero kept
apart this is arithmetic modulo 65535: the sum is `onesRep` of the plain total, zero only for zero
and otherwise a residue between 1 and 65535. From this the two facts on which implementations rest:
the sum of swapped words is the swapped sum, so the byte order of the machine does not matter, and
a total gathered in a wider word may be folded at the end, as long as the wider word has not lost a
carry of its own.
-/

namespace MiniNet.Lib

/-- Addition with the carry added back in. -/
def endAroundAdd (x y : UInt16) : UInt16 :=
  UInt16.ofNat ((x.toNat + y.toNat) % 65536 + (x.toNat + y.toNat) / 65536)

def onesSum (ws : List UInt16) : UInt16 := ws.foldl endAroundAdd 0

/-- The one's-complement value of a total. -/
def onesRep (n : Nat) : Nat := if n = 0 then 0 else (n - 1) % 65535 + 1

def total (ws : List UInt16) : Nat := (ws.map UInt16.toNat).sum

@[simp] theorem total_nil : total [] = 0 := rfl

@[simp] theorem total_cons (w : UInt16) (ws : List UInt16) :
    total (w :: ws) = w.toNat + total ws := by
  rw [total, List.map_cons, List.sum_cons, total]

theorem total_append (ws ws' : List UInt16) : total (ws ++ ws') = total ws + total ws' := by
  rw [total, List.map_append, List.sum_append, total, total]

theorem total_le (ws : List UInt16) : total ws ≤ 65535 * ws.length := by
  induction ws with
  | nil => simp
  | cons w ws ih =>
    have hw := w.toNat_lt
    rw [total_cons, List.length_cons]
    omega

/-! ### Residues -/

theorem onesRep_eq_iff {m n : Nat} :
    onesRep m = onesRep n ↔ m % 65535 = n % 65535 ∧ (m = 0 ↔ n = 0) := by
  unfold onesRep
  split <;> split <;> omega

theorem onesRep_of_lt {n : Nat} (h : n < 65536) : onesRep n = n := by
  unfold onesRep
  split <;> omega

theorem onesRep_lt (n : Nat) : onesRep n < 65536 := by
  unfold onesRep
  split <;> omega

theorem onesRep_mod (n : Nat) : onesRep n % 65535 = n % 65535 := by
  unfold onesRep
  split <;> omega

theorem onesRep_eq_zero {n : Nat} : onesRep n = 0 ↔ n = 0 := by
  unfold onesRep
  split <;> omega

/-- Cutting off a carry is adding it back in only if there is none. -/
theorem mod_eq_onesRep_iff {n : Nat} (h : n < 131072) : n % 65536 = onesRep n ↔ n < 65536 := by
  unfold onesRep
  split <;> omega

theorem onesRep_add (m n : Nat) : onesRep (onesRep m + n) = onesRep (m + n) := by
  have hmod := onesRep_mod m
  have hzero := onesRep_eq_zero (n := m)
  rw [onesRep_eq_iff]
  omega

theorem toNat_endAroundAdd (x y : UInt16) :
    (endAroundAdd x y).toNat = onesRep (x.toNat + y.toNat) := by
  have hx := x.toNat_lt
  have hy := y.toNat_lt
  rw [endAroundAdd, UInt16.toNat_ofNat', Nat.mod_eq_of_lt (by omega),
    ← onesRep_of_lt (n := (x.toNat + y.toNat) % 65536 + _) (by omega), onesRep_eq_iff]
  omega

/-- The sum depends on the total only. -/
theorem toNat_onesSum (ws : List UInt16) : (onesSum ws).toNat = onesRep (total ws) := by
  have hfold : ∀ acc : UInt16,
      (ws.foldl endAroundAdd acc).toNat = onesRep (acc.toNat + total ws) := by
    induction ws with
    | nil => exact fun acc => (onesRep_of_lt acc.toNat_lt).symm
    | cons w ws ih =>
      intro acc
      rw [List.foldl_cons, ih, toNat_endAroundAdd, onesRep_add, total_cons, Nat.add_assoc]
  rw [onesSum, hfold, UInt16.toNat_zero, Nat.zero_add]

/-! ### Byte order -/

/-- Turning a word around is multiplication by 256. -/
theorem onesRep_byteSwap_add (w n : Nat) :
    onesRep (byteSwap w + n) = onesRep (256 * w + n) := by
  rw [onesRep_eq_iff]
  unfold byteSwap
  omega

theorem onesRep_total_swap16 (ws : List UInt16) :
    onesRep (total (ws.map swap16)) = onesRep (256 * total ws) := by
  induction ws with
  | nil => rw [List.map_nil, total_nil, Nat.mul_zero]
  | cons w ws ih =>
    have hmod := (onesRep_eq_iff.mp ih).1
    have hzero := (onesRep_eq_iff.mp ih).2
    rw [List.map_cons, total_cons, total_cons, toNat_swap16, onesRep_byteSwap_add, onesRep_eq_iff]
    omega

/-- **The sum does not depend on the byte order.** -/
theorem onesSum_map_swap16 (ws : List UInt16) :
    onesSum (ws.map swap16) = swap16 (onesSum ws) := by
  apply UInt16.toNat_inj.mp
  have hmod := onesRep_mod (total ws)
  have hzero := onesRep_eq_zero (n := total ws)
  rw [toNat_onesSum, onesRep_total_swap16, toNat_swap16, toNat_onesSum,
    ← onesRep_of_lt (byteSwap_lt (onesRep_lt _)), ← Nat.add_zero (byteSwap _),
    onesRep_byteSwap_add, onesRep_eq_iff]
  omega

theorem toNat_complement (v : UInt16) : (~~~v).toNat = 65535 - v.toNat := by
  rw [UInt16.toNat_not]
  rfl

theorem swap16_complement (v : UInt16) : swap16 (~~~v) = ~~~swap16 v := by
  have hv := v.toNat_lt
  apply UInt16.toNat_inj.mp
  rw [toNat_swap16, toNat_complement, toNat_complement, toNat_swap16]
  unfold byteSwap
  omega

/-! ### Totals in 32 bits -/

def foldCarry (s : UInt32) : UInt32 := (s >>> 16) + (s &&& 0xffff)

theorem toNat_shiftRight16 (s : UInt32) : (s >>> 16).toNat = s.toNat / 65536 := by
  rw [UInt32.toNat_shiftRight, Nat.shiftRight_eq_div_pow]
  rfl

theorem toNat_foldCarry (s : UInt32) :
    (foldCarry s).toNat = s.toNat / 65536 + s.toNat % 65536 := by
  have hs := s.toNat_lt
  have hlow : (s &&& 0xffff).toNat = s.toNat % 65536 := by
    rw [UInt32.toNat_and, show (0xffff : UInt32).toNat = 2 ^ 16 - 1 from rfl,
      Nat.and_two_pow_sub_one_eq_mod]
  rw [foldCarry, UInt32.toNat_add, toNat_shiftRight16, hlow, Nat.mod_eq_of_lt (by omega)]

/-- Folding and then adding the carry out of the low half gives the sum in the low half. -/
theorem toNat_fold_fold (s : UInt32) :
    (foldCarry s + (foldCarry s >>> 16)).toUInt16.toNat = onesRep s.toNat := by
  have hs := s.toNat_lt
  have hfold := toNat_foldCarry s
  have hsum : (foldCarry s + (foldCarry s >>> 16)).toNat
      = (foldCarry s).toNat + (foldCarry s).toNat / 65536 := by
    rw [UInt32.toNat_add, toNat_shiftRight16, Nat.mod_eq_of_lt (by omega)]
  have hlow : ((foldCarry s).toNat + (foldCarry s).toNat / 65536) % 65536
      = onesRep (foldCarry s).toNat := by
    unfold onesRep
    split
    · omega
    · rcases Nat.lt_or_ge (foldCarry s).toNat 65536 with hlt | hge
      · rw [Nat.div_eq_of_lt hlt]
        omega
      · rw [show (foldCarry s).toNat / 65536 = 1 by omega]
        omega
  rw [UInt32.toNat_toUInt16, hsum, hlow, onesRep_eq_iff]
  omega

/-- A 32-bit total still has the sum exactly when it has lost no carry. -/
theorem onesRep_mod_iff {n : Nat} (h : n < 65535 * 2 ^ 32) :
    onesRep (n % 2 ^ 32) = onesRep n ↔ n < 2 ^ 32 := by
  rw [onesRep_eq_iff]
  omega

end MiniNet.Lib
