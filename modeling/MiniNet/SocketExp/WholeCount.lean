import MiniNet.SocketExp.Calculate
import MiniNet.SocketExp.Schedules

/-!
# The whole count

From the lines of `workers.conf` to the totals that are printed: how many workers the server takes
there to be, what each of them is told, counts and sends back, and what comes of the answers. Even if
the network splits and merges nothing, the totals are those of the text only where it is short and
has all its letters in the part of the last worker.
-/

namespace MiniNet.SocketExp

open Lib

/-! ### How many workers there are -/

/-- `countIP`, given what is in `workers.conf`; the loop counts the `'\n'` in `buf`. -/
def countIP (conf : List UInt8) : Option Nat := do
  let got := conf.take 100
  let buf := got ++ List.replicate (100 - got.length) 0
  let n ← strlen buf
  (List.range n).foldlM (fun count i =>
    (buf[i]?).map fun b => if b = 10 then count + 1 else count) 0

theorem foldl_countNewlines (bytes : List UInt8) (count : Nat) :
    bytes.foldl (fun count b => if b = 10 then count + 1 else count) count
      = count + bytes.count 10 := by
  induction bytes generalizing count with
  | nil => rfl
  | cons b bytes ih =>
    rw [List.foldl_cons, ih, List.count_cons]
    by_cases hb : b = 10
    · simp [hb]
      omega
    · simp [hb]

theorem countIP_eq (conf : List UInt8) : countIP conf =
    if conf.length < 100 ∨ 0 ∈ conf.take 100 then some ((seen (conf.take 100)).count 10)
    else none := by
  have hlen : (conf.take 100).length = min 100 conf.length := List.length_take
  have hseen : seen (conf.take 100) <+: conf.take 100 := List.takeWhile_prefix _
  have hzero : 0 ∈ conf.take 100 ++ List.replicate (100 - (conf.take 100).length) (0 : UInt8) ↔
      conf.length < 100 ∨ 0 ∈ conf.take 100 := by
    rw [List.mem_append, List.mem_replicate, and_iff_left rfl, or_comm]
    exact or_congr_left (by omega)
  rw [countIP, strlen_eq]
  simp only [hzero, seen_append_zeros]
  split
  · rw [Option.bind_eq_bind, Option.bind_some,
      foldlM_take (fun count b => if b = 10 then count + 1 else count) _ 0
        (hseen.length_le.trans (by rw [List.length_append]; omega)),
      List.take_append_of_le_length hseen.length_le, ← List.prefix_iff_eq_take.mp hseen,
      foldl_countNewlines, Nat.zero_add]
  · rfl

/-! ### One worker

`files` is what is in the file of each name; nothing where it cannot be opened. -/

section Worker

variable (files : List UInt8 → List UInt8)

/-- `main` of the client: what it sends back. -/
def clientMain (buf : Mem) (stream : List UInt8) (k₁ k₂ k₃ : Nat) : Option (List UInt8) := do
  let (name, start, stop) ← clientRecv buf stream k₁ k₂ k₃
  let table ← calculate (files name) start.toInt stop.toInt 0
  return tableBytes table

/-- What `handle_client` has in its table after the client's answer. -/
def handleClient (t : Train) (buf memory : Mem) (k₁ k₂ k₃ k : Nat) : Option Table := do
  let sent := request filename (.ofInt 64 t._start) (.ofInt 64 t._end)
  let reply ← clientMain files buf sent k₁ k₂ k₃
  serverRecv memory reply k

theorem serverRecv_whole (memory : Mem) (table : Table) :
    serverRecv memory (tableBytes table) 104 = some table := by
  have hlen : (tableBytes table).length = 104 := by
    rw [tableBytes, List.length_map, List.length_range]
  have hrecv := recv_front (List.length_pos_iff.mp (by omega)) (Nat.le_of_eq hlen) []
  rw [List.append_nil, hlen] at hrecv
  rw [serverRecv, hrecv]
  refine congrArg some (tableAt_eq_iff.mpr fun i hi => ?_)
  rw [fill_of_lt memory (by omega)]
  simp [tableBytes]

/-- When all arrives as it was sent, with a zero byte behind the name, the server has what the
client has counted. -/
theorem handleClient_aligned {t : Train} {buf : Mem} (memory : Mem)
    (hstart : t._start.bmod (2 ^ 64) = t._start) (hend : t._end.bmod (2 ^ 64) = t._end)
    (hbuf : buf filename.length = 0) :
    handleClient files t buf memory filename.length 8 8 104
      = calculate (files filename) t._start t._end 0 := by
  have hclient := (clientRecv_aligned_iff buf filename (.ofInt 64 t._start) (.ofInt 64 t._end)
    (by decide +kernel) (by decide +kernel) (by decide +kernel)).mpr (.inr hbuf)
  rw [handleClient, clientMain, hclient]
  simp only [Option.bind_eq_bind, Option.bind_some, BitVec.toInt_ofInt, hstart, hend]
  cases calculate (files filename) t._start t._end 0 with
  | none => rfl
  | some table => exact serverRecv_whole memory table

end Worker

/-! ### What the workers are told -/

section Trains

variable {len n i : Nat}

theorem train_inner (hi : i + 1 < n) (hpos : 0 < len / n) :
    train len n i = ⟨(len / n * i : Nat), (len / n * (i + 1) - 1 : Nat)⟩ := by
  have hne : (i : Int) ≠ n - 1 := by omega
  have hdiv : (len : Int).tdiv n = (len / n : Nat) := by
    rw [Int.tdiv_eq_ediv_of_nonneg (by omega), Int.natCast_ediv]
  have hbound : 1 ≤ len / n * (i + 1) := Nat.mul_pos hpos (Nat.succ_pos i)
  rw [train, if_pos hne, startFile, endFile, hdiv, Nat.cast_sub hbound]
  push_cast
  rfl

/-- With more workers than bytes all but the last get a range that ends before it starts. -/
theorem train_inner_empty (hi : i + 1 < n) (hzero : len / n = 0) : train len n i = ⟨0, -1⟩ := by
  have hne : (i : Int) ≠ n - 1 := by omega
  have hdiv : (len : Int).tdiv n = 0 := by
    rw [Int.tdiv_eq_ediv_of_nonneg (by omega), ← Int.natCast_ediv, hzero]
    rfl
  rw [train, if_pos hne, startFile, endFile, hdiv, zero_mul, zero_mul, zero_sub]

theorem train_last : train len (n + 1) n = ⟨(len / (n + 1) * n : Nat), len⟩ := by
  have hne : ¬ ((n : Int) ≠ (n + 1 : Nat) - 1) := by omega
  have hdiv : (len : Int).tdiv (n + 1 : Nat) = (len / (n + 1) : Nat) := by
    rw [Int.tdiv_eq_ediv_of_nonneg (by omega), Int.natCast_ediv]
  rw [train, if_neg hne, startFile, endFileFinal, hdiv]
  push_cast
  rfl

end Trains

/-! ### What they count of a text -/

section Text

variable {file : List UInt8} {start stop : Nat}

theorem not_mem_bytesAt {b : UInt8} (h : b ∉ file) (offset count : Nat) :
    b ∉ bytesAt file offset count :=
  fun hmem => h (List.mem_of_mem_drop (List.mem_of_mem_take hmem))

theorem toNat_readnum (h : start ≤ stop) (hsize : stop - start < 1000 * 2 ^ 31) :
    (readnum start stop).toNat = (stop - start) / 1000 := by
  have hread : bytesRead start stop = ((stop : Int) - start).toNat :=
    bytesRead_eq (by omega) (by omega)
  have hleft := leftStay_of_le h
  rw [bytesRead] at hread
  omega

/-- Of a text, which has no zero byte, a range is counted if it is shorter than a buffer. -/
theorem calculate_text (h : start ≤ stop) (hstop : stop ≤ file.length)
    (hsize : stop - start < 1000 * 2 ^ 31) (htext : 0 ∉ file) :
    calculate file start stop 0 =
      if stop - start < 1000 then some ((bytesAt file start (stop - start)).foldl countByte 0)
      else none := by
  have hnum := toNat_readnum h hsize
  have hleft := leftStay_of_le h
  rw [calculate_eq h hstop, hnum]
  by_cases hshort : stop - start < 1000
  · have hnone : (stop - start) / 1000 = 0 := Nat.div_eq_of_lt hshort
    have hrest : (leftStay start stop).toNat = stop - start := by omega
    have hseen : seen (bytesAt file start (stop - start)) = bytesAt file start (stop - start) := by
      refine List.takeWhile_eq_self_iff.mpr fun b hb => decide_eq_true ?_
      exact ne_of_mem_of_not_mem hb (not_mem_bytesAt htext _ _)
    rw [if_pos hshort, if_pos (by rw [hnone]; exact nofun), eachBuffer, hnum, hnone, hrest,
      Nat.mul_zero, Nat.add_zero, hseen]
    rfl
  · have hfirst : ¬ ∀ k < (stop - start) / 1000, 0 ∈ bytesAt file (start + 1000 * k) 1000 :=
      fun hall => not_mem_bytesAt htext _ _ (hall 0 (by omega))
    rw [if_neg hshort, if_neg hfirst]

theorem calculate_backward (file : List UInt8) (table : Table) :
    calculate file 0 (-1) table = some table := by
  have hleft : ¬ 0 < leftStay 0 (-1) := by decide
  have hnum : (readnum 0 (-1)).toNat = 0 := by decide
  rw [calculate, hnum, countReads, Option.bind_eq_bind, Option.bind_some, if_neg hleft]
  rfl

end Text

/-! ### What is printed -/

/-- A letter of either case. -/
def HasLetter (bytes : List UInt8) : Prop := ∃ b ∈ bytes, ∃ j, isLetter j b = true

/-- The server takes there to be a number of workers, each of them answers, and whatever the threads
do then, what is printed is how often each letter is in the file. -/
def CountsFile (files : List UInt8 → List UInt8) (conf : List UInt8) (buf memory : Nat → Mem) :
    Prop :=
  ∃ n, ∃ tables : Fin (n + 1) → Table, countIP conf = some (n + 1) ∧
    (∀ w : Fin (n + 1), handleClient files (train (files filename).length (n + 1) w) (buf w)
      (memory w) filename.length 8 8 104 = some (tables w)) ∧
    ∀ s, Reaches (Server.step tables) (Server.start n) s → s.main = .printing 26 →
      ∀ j, (s.printed j).toInt = (files filename).countP (isLetter j)

section Printed

variable {file : List UInt8} {n : Nat} {tables : Fin (n + 1) → Table}

/-- Where the last worker starts. -/
def lastStart (len n : Nat) : Nat := len / (n + 1) * n

theorem lastStart_le (len n : Nat) : lastStart len n ≤ len :=
  (Nat.mul_le_mul_left _ (Nat.le_succ n)).trans (Nat.div_mul_le_self len (n + 1))

/-- What the workers count of a text, one by one. -/
theorem calculate_last (htext : 0 ∉ file) (hsize : file.length < 1000 * 2 ^ 31) :
    calculate file (train file.length (n + 1) n)._start (train file.length (n + 1) n)._end 0 =
      if file.length - lastStart file.length n < 1000 then
        some ((file.drop (lastStart file.length n)).foldl countByte 0)
      else none := by
  have hle := lastStart_le file.length n
  rw [train_last, ← lastStart, calculate_text hle (Nat.le_refl _) (by omega) htext, bytesAt,
    List.take_of_length_le (by rw [List.length_drop])]

theorem calculate_inner (htext : 0 ∉ file) (hsize : file.length < 1000 * 2 ^ 31)
    (hshort : file.length - lastStart file.length n < 1000) {w : Nat} (hw : w < n) :
    ∃ offset count, offset + count ≤ lastStart file.length n ∧
      calculate file (train file.length (n + 1) w)._start (train file.length (n + 1) w)._end 0
        = some ((bytesAt file offset count).foldl countByte 0) := by
  have hle := lastStart_le file.length n
  have hall : file.length / (n + 1) * (n + 1) ≤ file.length := Nat.div_mul_le_self _ _
  rw [lastStart] at *
  rcases Nat.eq_zero_or_pos (file.length / (n + 1)) with hzero | hpos
  · refine ⟨0, 0, Nat.zero_le _, ?_⟩
    rw [train_inner_empty (by omega) hzero, calculate_backward]
    rfl
  · rw [train_inner (by omega) hpos]
    have hmul : file.length / (n + 1) * (w + 1) ≤ file.length / (n + 1) * n :=
      Nat.mul_le_mul_left _ hw
    rw [Nat.mul_succ] at hall hmul ⊢
    dsimp only
    rw [calculate_text (by omega) (by omega) (by omega) htext, if_pos (by omega)]
    exact ⟨_, _, by omega, rfl⟩

theorem foldl_countByte_zero {bytes : List UInt8} (h : ¬ HasLetter bytes) :
    bytes.foldl countByte 0 = 0 := by
  funext j
  rw [foldl_countByte, List.countP_eq_zero.mpr fun b hb hj => h ⟨b, hb, j, hj⟩]
  rfl

theorem toInt_foldl_countByte {bytes : List UInt8} (h : bytes.length < 2 ^ 31) (j : Fin 26) :
    (bytes.foldl countByte 0 j).toInt = bytes.countP (isLetter j) := by
  have hcount : bytes.countP (isLetter j) ≤ bytes.length := List.countP_le_length
  rw [foldl_countByte, Pi.zero_apply, zero_add, BitVec.toInt_ofNat']
  exact Int.bmod_eq_of_le (by omega) (by omega)

theorem bytesAt_subset_take {offset count m : Nat} (h : offset + count ≤ m) :
    bytesAt file offset count ⊆ file.take m := by
  rw [bytesAt, List.take_drop]
  exact fun b hb => (List.take_prefix_take_left h).subset (List.mem_of_mem_drop hb)

theorem train_bounds (len : Nat) {w : Nat} (hw : w < n + 1) :
    -1 ≤ (train len (n + 1) w)._start ∧ (train len (n + 1) w)._start ≤ len ∧
      -1 ≤ (train len (n + 1) w)._end ∧ (train len (n + 1) w)._end ≤ len := by
  have hle := lastStart_le len n
  rcases Nat.lt_or_eq_of_le (Nat.le_of_lt_succ hw) with hinner | rfl
  · rcases Nat.eq_zero_or_pos (len / (n + 1)) with hzero | hpos
    · rw [train_inner_empty (by omega) hzero]
      dsimp only
      omega
    · rw [train_inner (by omega) hpos]
      have hmul : len / (n + 1) * (w + 1) ≤ len / (n + 1) * n := Nat.mul_le_mul_left _ hinner
      rw [lastStart] at hle
      rw [Nat.mul_succ] at hmul ⊢
      dsimp only
      omega
  · rw [train_last]
    dsimp only
    rw [lastStart] at hle
    omega

/-- One schedule prints the sum. -/
theorem reaches_sum (tables : Fin (n + 1) → Table) : ∃ s, Reaches (Server.step tables)
    (Server.start n) s ∧ s.main = .printing 26 ∧ s.printed = ∑ w, tables w :=
  ⟨_, (Server.reaches_through tables Finset.univ).trans
    (Server.reaches_printed rfl (by simp [Server.through])), rfl, rfl⟩

theorem sum_eq_last (h : ∀ w, w ≠ Fin.last n → tables w = 0) :
    ∑ w, tables w = tables (Fin.last n) :=
  Finset.sum_eq_single _ (fun w _ hw => h w hw) fun hw => absurd (Finset.mem_univ _) hw

/-- When every schedule prints these counts: all of them are the last worker's. -/
theorem printed_iff {c : Fin 26 → Int} :
    (∀ s, Reaches (Server.step tables) (Server.start n) s → s.main = .printing 26 →
      ∀ j, (s.printed j).toInt = c j) ↔
    (∀ w, w ≠ Fin.last n → tables w = 0) ∧ ∀ j, (tables (Fin.last n) j).toInt = c j := by
  constructor
  · intro hprinted
    obtain ⟨s, hs, hmain, hsum⟩ := reaches_sum tables
    have htotals : Server.PrintsTotals tables := by
      intro s' hs' hmain'
      funext j
      rw [← hsum, ← BitVec.toInt_inj, hprinted s hs hmain, hprinted s' hs' hmain']
    have hzero := fun w hw => Server.zero_of_printsTotals htotals (w := w) hw
    refine ⟨hzero, fun j => ?_⟩
    rw [← hprinted s hs hmain j, hsum, sum_eq_last hzero]
  · rintro ⟨hzero, hlast⟩ s hs hmain j
    rw [Server.printsTotals_of_zero hzero s hs hmain, sum_eq_last hzero, hlast]

/-- The part from `m` on has all the letters. -/
theorem toInt_drop_iff {m : Nat} (h : file.length - m < 2 ^ 31) :
    (∀ j, ((file.drop m).foldl countByte 0 j).toInt = file.countP (isLetter j)) ↔
      ¬ HasLetter (file.take m) := by
  have hcount : ∀ j, ((file.drop m).foldl countByte 0 j).toInt = file.countP (isLetter j) ↔
      (file.take m).countP (isLetter j) = 0 := by
    intro j
    have hsplit : (file.take m).countP (isLetter j) + (file.drop m).countP (isLetter j)
        = file.countP (isLetter j) := by
      rw [← List.countP_append, List.take_append_drop]
    rw [toInt_foldl_countByte (by rw [List.length_drop]; exact h)]
    omega
  simp only [hcount, List.countP_eq_zero]
  exact ⟨fun hnone ⟨b, hb, j, hj⟩ => hnone j b hb hj, fun hnone j b hb hj => hnone ⟨b, hb, j, hj⟩⟩

/-- No letter before the last part: the other workers count nothing. -/
theorem calculate_inner_zero (htext : 0 ∉ file) (hsize : file.length < 1000 * 2 ^ 31)
    (hshort : file.length - lastStart file.length n < 1000)
    (hnone : ¬ HasLetter (file.take (lastStart file.length n))) {w : Nat} (hw : w < n) :
    calculate file (train file.length (n + 1) w)._start (train file.length (n + 1) w)._end 0
      = some 0 := by
  obtain ⟨offset, count, hbound, hcalc⟩ := calculate_inner htext hsize hshort hw
  rw [hcalc, foldl_countByte_zero fun hsome => hnone ?_]
  obtain ⟨b, hb, hj⟩ := hsome
  exact ⟨b, bytesAt_subset_take hbound hb, hj⟩

/-- What is in `workers.conf`. -/
def workersConf : List UInt8 :=
  "10.0.0.2\n10.0.0.3\n".toList.map fun c => UInt8.ofNat c.toNat

/-- Two letters, for the second of two workers. -/
def shortText (name : List UInt8) : List UInt8 := if name = filename then [32, 10, 97, 98] else []

end Printed

end MiniNet.SocketExp
