import Mathlib.Algebra.Ring.Int.Defs
import Mathlib.Algebra.Ring.Nat
import Mathlib.Data.Int.Init
import Mathlib.Tactic.Common

/-!
# Who counts which bytes

`server.c` cuts the file into as many ranges as there are workers and sends each worker two
positions; `calculate` in `client.c` reads the bytes from the one up to the other. For all workers
but the last the second position is that of the last byte meant, and the last worker gets the length
of the file; the client takes every end to be the position after the last byte.
-/

namespace MiniNet.SocketExp

/-! ### `server.c` -/

/-- `len` is the size that `stat` gives. -/
def startFile (len index allnum : Int) : Int := len.tdiv allnum * index

def endFile (len index allnum : Int) : Int := len.tdiv allnum * (index + 1) - 1

def endFileFinal (len : Int) : Int := len

/-- `struct train`, but for the socket. -/
structure Train where
  _start : Int
  _end : Int

/-- What the loop of `main` puts into `t[index]`. -/
def train (len : Int) (ipNum index : Nat) : Train where
  _start := startFile len index ipNum
  _end := if (index : Int) ≠ ipNum - 1 then endFile len index ipNum else endFileFinal len

/-! ### `client.c` -/

/-- The buffers of 1000 bytes that `calculate` reads, counted in an `int`. -/
def readnum (start stop : Int) : Int := ((stop - start).tdiv 1000).bmod (2 ^ 32)

def leftStay (start stop : Int) : Int :=
  (stop - start - (readnum start stop * 1000).bmod (2 ^ 32)).bmod (2 ^ 32)

/-- The bytes that the reads of `calculate` take together, one read after the other. -/
def bytesRead (start stop : Int) : Nat :=
  1000 * (readnum start stop).toNat + (leftStay start stop).toNat

/-- Position `p` is among the bytes from the start of the range up to its end. -/
def Train.Counts (t : Train) (p : Int) : Prop := t._start ≤ p ∧ p < t._end

section Reads

variable {start stop : Int}

private theorem bmod_of_lt {a : Int} (hlo : -2 ^ 31 ≤ a) (hhi : a < 2 ^ 31) :
    a.bmod (2 ^ 32) = a :=
  Int.bmod_eq_of_le (by omega) (by omega)

/-- Division by 1000 as C has it, by the sign of what is divided. -/
private theorem tdiv_tmod (d : Int) :
    (0 ≤ d ∧ d.tdiv 1000 = d / 1000 ∧ d.tmod 1000 = d % 1000) ∨
      (d < 0 ∧ d.tdiv 1000 = -(-d / 1000) ∧ d.tmod 1000 = -(-d % 1000)) := by
  rcases Int.lt_or_le d 0 with hneg | hpos
  · refine .inr ⟨hneg, ?_, ?_⟩
    · rw [← Int.tdiv_eq_ediv_of_nonneg (by omega), Int.neg_tdiv, Int.neg_neg]
    · rw [← Int.tmod_eq_emod_of_nonneg (by omega), Int.neg_tmod, Int.neg_neg]
  · exact .inl ⟨hpos, Int.tdiv_eq_ediv_of_nonneg hpos, Int.tmod_eq_emod_of_nonneg hpos⟩

/-- The rest comes out right even where the number of buffers does not fit. -/
theorem leftStay_eq : leftStay start stop = (stop - start).tmod 1000 := by
  have hsplit := Int.mul_tdiv_add_tmod (stop - start) 1000
  have hrest : stop - start - (stop - start).tdiv 1000 * 1000 = (stop - start).tmod 1000 := by
    omega
  have hsign := tdiv_tmod (stop - start)
  rw [leftStay, readnum, Int.bmod_mul_bmod, Int.sub_bmod_bmod, hrest]
  apply bmod_of_lt
  · omega
  · omega

/-- What is read is the range, as long as the number of buffers fits. -/
theorem bytesRead_eq (hlo : -1000 * 2 ^ 31 < stop - start) (hhi : stop - start < 1000 * 2 ^ 31) :
    bytesRead start stop = (stop - start).toNat := by
  have hsign := tdiv_tmod (stop - start)
  have hbuffers : readnum start stop = (stop - start).tdiv 1000 := by
    apply bmod_of_lt
    · omega
    · omega
  rw [bytesRead, leftStay_eq, hbuffers]
  omega

/-- The reads of `calculate` start at the start of the range and take just the bytes it counts. -/
theorem Train.counts_iff_read (t : Train) (hlo : -1000 * 2 ^ 31 < t._end - t._start)
    (hhi : t._end - t._start < 1000 * 2 ^ 31) (p : Int) :
    t.Counts p ↔ t._start ≤ p ∧ p < t._start + bytesRead t._start t._end := by
  rw [bytesRead_eq hlo hhi, Train.Counts]
  omega

end Reads

/-! ### The ranges -/

/-- Every byte of the file is counted by one worker and by no other. -/
def PartitionExact (len ipNum : Nat) : Prop :=
  ∀ p : Nat, p < len → ∃! i, i < ipNum ∧ (train len ipNum i).Counts p

section Ranges

variable {len n i j p : Nat}

theorem counts_inner (hi : i + 1 < n) :
    (train len n i).Counts p ↔ len / n * i ≤ p ∧ p + 1 < len / n * (i + 1) := by
  have hne : (i : Int) ≠ n - 1 := by omega
  have hdiv : (len : Int).tdiv n = (len / n : Nat) := by
    rw [Int.tdiv_eq_ediv_of_nonneg (by omega), Int.natCast_ediv]
  simp only [train, Train.Counts, if_pos hne, startFile, endFile, hdiv]
  generalize len / n = q
  have hend : (q : Int) * (i + 1) = (q * (i + 1) : Nat) := by push_cast; rfl
  rw [hend]
  omega

theorem counts_last : (train len (n + 1) n).Counts p ↔ len / (n + 1) * n ≤ p ∧ p < len := by
  have hne : ¬ ((n : Int) ≠ (n + 1 : Nat) - 1) := by omega
  have hdiv : (len : Int).tdiv (n + 1 : Nat) = (len / (n + 1) : Nat) := by
    rw [Int.tdiv_eq_ediv_of_nonneg (by omega), Int.natCast_ediv]
  simp only [train, Train.Counts, if_neg hne, startFile, endFileFinal, hdiv]
  generalize len / (n + 1) = q
  have hstart : (q : Int) * n = (q * n : Nat) := by push_cast; rfl
  rw [hstart]
  omega

theorem start_le_of_counts (hi : i < n) (h : (train len n i).Counts p) : len / n * i ≤ p := by
  rcases Nat.lt_or_ge (i + 1) n with hinner | hlast
  · exact ((counts_inner hinner).mp h).1
  · obtain rfl : n = i + 1 := by omega
    exact (counts_last.mp h).1

theorem lt_of_counts (hj : j < n) (hij : i < j) (h : (train len n i).Counts p) :
    p + 1 < len / n * j := by
  have hend := ((counts_inner (by omega)).mp h).2
  have hmul : len / n * (i + 1) ≤ len / n * j := Nat.mul_le_mul_left _ hij
  omega

theorem counts_unique (hi : i < n) (hj : j < n) (hci : (train len n i).Counts p)
    (hcj : (train len n j).Counts p) : i = j := by
  rcases Nat.lt_trichotomy i j with hlt | heq | hgt
  · have hstart := start_le_of_counts hj hcj
    have hend := lt_of_counts hj hlt hci
    omega
  · exact heq
  · have hstart := start_le_of_counts hi hci
    have hend := lt_of_counts hi hgt hcj
    omega

/-- What no worker counts is the last byte of each range but the last one. -/
theorem exists_counts_iff (hp : p < len) :
    (∃ i, i < n + 1 ∧ (train len (n + 1) i).Counts p) ↔
      ∀ i < n, p + 1 ≠ len / (n + 1) * (i + 1) := by
  constructor
  · intro hcounted i hi hlost
    obtain ⟨j, hj, hcounts⟩ := hcounted
    have hstart := start_le_of_counts hj hcounts
    rcases Nat.lt_or_ge i j with hlt | hge
    · have hmul : len / (n + 1) * (i + 1) ≤ len / (n + 1) * j := Nat.mul_le_mul_left _ hlt
      omega
    · have hend := lt_of_counts (j := i + 1) (by omega) (by omega) hcounts
      omega
  · intro hkept
    rcases Nat.eq_zero_or_pos (len / (n + 1)) with hzero | hpos
    · exact ⟨n, Nat.lt_succ_self n, counts_last.mpr ⟨by rw [hzero]; omega, hp⟩⟩
    · have hle := Nat.mul_div_le p (len / (n + 1))
      have hlt := Nat.lt_mul_div_succ p hpos
      rcases Nat.lt_or_ge (p / (len / (n + 1))) n with hinner | hlast
      · have hne := hkept _ hinner
        exact ⟨_, by omega, (counts_inner (by omega)).mpr ⟨hle, by omega⟩⟩
      · have hmul := Nat.mul_le_mul_left (len / (n + 1)) hlast
        exact ⟨n, Nat.lt_succ_self n, counts_last.mpr ⟨by omega, hp⟩⟩

end Ranges

/-- **When the partition is exact**: with one worker, or with more workers than bytes. -/
theorem partitionExact_iff {len ipNum : Nat} (hworkers : 1 ≤ ipNum) :
    PartitionExact len ipNum ↔ ipNum = 1 ∨ len < ipNum := by
  obtain ⟨n, rfl⟩ := Nat.exists_eq_add_of_le' hworkers
  have hexact : PartitionExact len (n + 1) ↔
      ∀ p < len, ∀ i < n, p + 1 ≠ len / (n + 1) * (i + 1) := by
    refine forall₂_congr fun p hp => ?_
    rw [← exists_counts_iff hp]
    constructor
    · intro hunique
      exact hunique.exists
    · intro hsome
      obtain ⟨i, hi, hcounts⟩ := hsome
      exact ⟨i, ⟨hi, hcounts⟩, fun j hj => counts_unique hj.1 hi hj.2 hcounts⟩
  rw [hexact]
  constructor
  · intro h
    by_contra hmany
    have hn : 0 < n := by omega
    have hsize : 0 < len / (n + 1) := Nat.div_pos (by omega) (by omega)
    have hle : len / (n + 1) ≤ len := Nat.div_le_self _ _
    exact h (len / (n + 1) - 1) (by omega) 0 hn (by omega)
  · intro h p hp i hi
    rcases h with hone | hfew
    · omega
    · rw [Nat.div_eq_of_lt hfew]
      omega

theorem partitionExact_iff_workersConf :
    PartitionExact 3293495 2 ↔ (2 : Nat) = 1 ∨ 3293495 < 2 :=
  partitionExact_iff (by decide)

/-- Of the text in the repository, between the two workers of `workers.conf`, one byte is lost. -/
theorem byte_between_workers_lost : ¬ PartitionExact 3293495 2 := by
  intro h
  obtain ⟨i, ⟨hi, hstart, hend⟩, -⟩ := h 1646746 (by decide)
  obtain rfl | rfl : i = 0 ∨ i = 1 := by omega
  · revert hend
    decide
  · revert hstart
    decide

end MiniNet.SocketExp
