import Mathlib.Algebra.Ring.Nat
import Mathlib.Data.List.GetD
import Mathlib.Tactic.Common
import MiniNet.Lib.ByteMemory

/-!
# Byte streams

What is sent on a stream socket arrives in order and without any mark of where one call of `send`
ended and the next began. A receiver gets some of the bytes that are pending, at least one and no
more than it asks for; how many is not its choice, and it waits while there are none. `recv` has the
number that happens to be delivered as an argument, so that a statement about every value of it is
one about every way of splitting and merging.

Numbers are put into bytes little end first.
-/

namespace MiniNet.Lib

/-- What a call gets and what is pending after it, when `offer` bytes are delivered to a receiver of
at most `size`; none if it waits. -/
def recv (pending : List UInt8) (size offer : Nat) : Option (List UInt8 × List UInt8) :=
  if pending = [] then none else some (pending.splitAt (max 1 (min offer size)))

section Recv

variable {pending got : List UInt8} {size offer : Nat}

theorem recv_eq_none : recv pending size offer = none ↔ pending = [] := by
  simp [recv]

theorem recv_of_ne_nil (h : pending ≠ []) :
    recv pending size offer = some
      (pending.take (max 1 (min offer size)), pending.drop (max 1 (min offer size))) := by
  rw [recv, if_neg h, List.splitAt_eq]

theorem recv_front (hgot : got ≠ []) (hlen : got.length ≤ size) (rest : List UInt8) :
    recv (got ++ rest) size got.length = some (got, rest) := by
  have hpos := List.length_pos_iff.mpr hgot
  rw [recv_of_ne_nil (List.append_ne_nil_of_left_ne_nil hgot _),
    show max 1 (min got.length size) = got.length by omega, List.take_left, List.drop_left]

end Recv

/-! ### Bytes in memory -/

/-- The bytes written from the base pointer on. -/
def fill (m : Mem) (bytes : List UInt8) : Mem := fun i => bytes.getD i (m i)

def bzero (m : Mem) (n : Nat) : Mem := fun i => if i < n then 0 else m i

def bytesOf (m : Mem) (n : Nat) : List UInt8 := (List.range n).map m

/-- The string in an array of `size` bytes, up to the first zero byte. -/
def cString (m : Mem) (size : Nat) : List UInt8 := (bytesOf m size).takeWhile (· ≠ 0)

section Memory

variable (m : Mem) {bytes : List UInt8} {i : Nat}

theorem fill_of_lt (h : i < bytes.length) : fill m bytes i = bytes[i] := by
  rw [fill, List.getD_eq_getElem _ _ h]

theorem fill_of_le (h : bytes.length ≤ i) : fill m bytes i = m i := by
  rw [fill, List.getD_eq_default _ _ h]

theorem bytesOf_fill {n : Nat} (h : bytes.length = n) : bytesOf (fill m bytes) n = bytes := by
  apply List.ext_getElem
  · rw [bytesOf, List.length_map, List.length_range, h]
  · intro i _ hi
    simp only [bytesOf, List.getElem_map, List.getElem_range, fill_of_lt m hi]

/-- A string is one that is there up to its end and a zero byte behind it. -/
theorem cString_eq_iff {size : Nat} {s : List UInt8} (hzero : 0 ∉ s) (hlen : s.length < size)
    (hbytes : ∀ i (h : i < s.length), m i = s[i]) : cString m size = s ↔ m s.length = 0 := by
  obtain ⟨k, rfl⟩ := Nat.exists_eq_add_of_lt hlen
  have hfront : (List.range s.length).map m = s := by
    apply List.ext_getElem
    · rw [List.length_map, List.length_range]
    · intro i _ hi
      rw [List.getElem_map, List.getElem_range, hbytes i hi]
  have hne : ∀ b ∈ s, (b ≠ 0 : Bool) = true := by
    intro b hb
    rw [decide_eq_true_eq]
    exact ne_of_mem_of_not_mem hb hzero
  rw [cString, bytesOf, Nat.add_assoc, List.range_add, List.map_append, hfront,
    List.takeWhile_append_of_pos hne, List.append_right_eq_self, List.range_succ_eq_map,
    List.map_cons, List.map_cons, Nat.add_zero, List.takeWhile_cons]
  by_cases hend : m s.length = 0
  · simp [hend]
  · simp [hend]

/-- No string is longer than up to a zero byte. -/
theorem length_cString_le {n : Nat} (size : Nat) (h : m n = 0) : (cString m size).length ≤ n := by
  by_contra hlong
  have hprefix : cString m size <+: bytesOf m size := List.takeWhile_prefix _
  have hget := hprefix.getElem (Nat.lt_of_not_le hlong)
  have hmem := List.getElem_mem (Nat.lt_of_not_le hlong)
  have hne := List.all_eq_true.mp List.all_takeWhile _ hmem
  rw [hget] at hne
  simp [bytesOf, h] at hne

end Memory

/-! ### Numbers -/

def byteOf (v i : Nat) : UInt8 := UInt8.ofNat (v / 256 ^ i)

def leBytes (n v : Nat) : List UInt8 := (List.range n).map (byteOf v)

def ofLE : List UInt8 → Nat
  | [] => 0
  | b :: bs => b.toNat + 256 * ofLE bs

theorem length_leBytes (n v : Nat) : (leBytes n v).length = n := by
  rw [leBytes, List.length_map, List.length_range]

theorem leBytes_succ (n v : Nat) : leBytes (n + 1) v = UInt8.ofNat v :: leBytes n (v / 256) := by
  simp only [leBytes, List.range_succ_eq_map, List.map_cons, List.map_map, byteOf, Nat.pow_zero,
    Nat.div_one, List.cons.injEq, true_and]
  apply List.map_congr_left
  intro i _
  rw [Function.comp_apply, byteOf, byteOf, Nat.pow_succ', Nat.div_div_eq_div_mul]

theorem ofLE_leBytes (n v : Nat) : ofLE (leBytes n v) = v % 256 ^ n := by
  induction n generalizing v with
  | zero => rw [Nat.pow_zero, Nat.mod_one]; rfl
  | succ n ih => rw [leBytes_succ, ofLE, ih, Nat.pow_succ', Nat.mod_mul, UInt8.toNat_ofNat']

theorem ofLE_lt (bytes : List UInt8) : ofLE bytes < 256 ^ bytes.length := by
  induction bytes with
  | nil => exact Nat.one_pos
  | cons b bytes ih =>
    have hb := b.toNat_lt
    rw [ofLE, List.length_cons, Nat.pow_succ']
    omega

theorem byteOf_ofLE {bytes : List UInt8} {i : Nat} (h : i < bytes.length) :
    byteOf (ofLE bytes) i = bytes[i] := by
  induction bytes generalizing i with
  | nil => exact absurd h (Nat.not_lt_zero i)
  | cons b bytes ih =>
    have hb := b.toNat_lt
    cases i with
    | zero =>
      apply UInt8.toNat_inj.mp
      rw [byteOf, ofLE, UInt8.toNat_ofNat', Nat.pow_zero, List.getElem_cons_zero]
      omega
    | succ i =>
      rw [List.getElem_cons_succ, ← ih (Nat.lt_of_succ_lt_succ h), byteOf, ofLE, Nat.pow_succ',
        ← Nat.div_div_eq_div_mul, show (b.toNat + 256 * ofLE bytes) / 256 = ofLE bytes by omega,
        byteOf]

theorem ofLE_eq_iff {bytes : List UInt8} {n v : Nat} (hlen : bytes.length = n) (hv : v < 256 ^ n) :
    ofLE bytes = v ↔ bytes = leBytes n v := by
  constructor
  · intro heq
    subst heq
    apply List.ext_getElem
    · rw [hlen, length_leBytes]
    · intro i hi _
      simp only [leBytes, List.getElem_map, List.getElem_range, byteOf_ofLE hi]
  · intro heq
    subst heq
    rw [ofLE_leBytes, Nat.mod_eq_of_lt hv]

end MiniNet.Lib
