import MiniNet.SocketExp.Partition
import MiniNet.SocketExp.Wire
import Mathlib.Algebra.Ring.Int.Defs
import Mathlib.Data.List.TakeWhile

/-!
# What a worker counts

`calculate` reads its range in whole buffers of 1000 bytes and a rest, and counts the letters of a
buffer as far as `strlen` goes. A rest leaves zero bytes behind it, so `strlen` ends there at the
latest; a whole buffer leaves none, and unless the file has one in it `strlen` goes on behind the
buffer. And where the file has a zero byte, what comes after it in the buffer is not counted.

The buffer is a list of 1000 bytes, and an access behind its end is `none`. A `read` gets all the
bytes it asks for that are in the file.
-/

namespace MiniNet.SocketExp

open Lib

/-! ### `client.c` -/

/-- `strlen(buf)`, byte by byte. -/
def strlen : List UInt8 → Option Nat
  | [] => none
  | b :: rest => if b = 0 then some 0 else (strlen rest).map (· + 1)

def increment (table : Table) (j : Fin 26) : Table := Function.update table j (table j + 1)

/-- Upper case from `'A'` on, else lower case from `'a'` on. -/
def countByte (table : Table) (b : UInt8) : Table :=
  if h : 65 ≤ b.toNat ∧ b.toNat ≤ 90 then increment table ⟨b.toNat - 65, by omega⟩
  else if h : 97 ≤ b.toNat ∧ b.toNat ≤ 122 then increment table ⟨b.toNat - 97, by omega⟩
  else table

/-- `for (i = 0; i < strlen(buf); i++)`, where nothing in the loop changes `buf`. -/
def countBuf (buf : List UInt8) (table : Table) : Option Table := do
  let n ← strlen buf
  (List.range n).foldlM (fun table i => (buf[i]?).map (countByte table)) table

/-- Where the next `read` starts, `buf`, and the table. -/
structure Counting where
  offset : Nat
  buf : List UInt8
  table : Table

/-- What `bzero` makes of `buf`. -/
def zeroBuf : List UInt8 := List.replicate 1000 0

/-- `read(fd, buf, count)`. -/
def readFile (file : List UInt8) (count : Nat) (s : Counting) : Option Counting :=
  let got := (file.drop s.offset).take count
  if got.length ≤ s.buf.length then
    some { s with offset := s.offset + got.length, buf := got ++ s.buf.drop got.length }
  else none

/-- One buffer: read, counted and cleared. -/
def countRead (file : List UInt8) (count : Nat) (s : Counting) : Option Counting := do
  let s ← readFile file count s
  let table ← countBuf s.buf s.table
  return { s with buf := zeroBuf, table }

def countReads (file : List UInt8) : Nat → Counting → Option Counting
  | 0, s => some s
  | num + 1, s => do
    let s ← countRead file 1000 s
    countReads file num s

/-- The table, given what is in the file. -/
def calculate (file : List UInt8) (start stop : Int) (table : Table) : Option Table := do
  let s ← countReads file (readnum start stop).toNat ⟨start.toNat, zeroBuf, table⟩
  let s ← if 0 < leftStay start stop then countRead file (leftStay start stop).toNat s else some s
  return s.table

/-! ### What should be counted -/

/-- The upper or the lower case form of letter `j`. -/
def isLetter (j : Fin 26) (b : UInt8) : Bool := b.toNat = 65 + j ∨ b.toNat = 97 + j

/-- `count` bytes of the file. -/
def bytesAt (file : List UInt8) (offset count : Nat) : List UInt8 := (file.drop offset).take count

/-- How often letter `j` is in the file from `start` up to `stop`. -/
def lettersIn (file : List UInt8) (start stop : Nat) (j : Fin 26) : Nat :=
  (bytesAt file start (stop - start)).countP (isLetter j)

/-- `calculate` comes to its end and has counted each letter of the range. -/
def CountsRange (file : List UInt8) (start stop : Nat) (table : Table) : Prop :=
  ∃ table', calculate file start stop table = some table' ∧
    ∀ j, (table' j).toInt = (table j).toInt + lettersIn file start stop j

/-! ### One buffer -/

/-- What `strlen` goes over before it ends. -/
def seen (bytes : List UInt8) : List UInt8 := bytes.takeWhile (· ≠ 0)

def unseen (bytes : List UInt8) : List UInt8 := bytes.dropWhile (· ≠ 0)

theorem strlen_eq (buf : List UInt8) :
    strlen buf = if 0 ∈ buf then some (seen buf).length else none := by
  induction buf with
  | nil => rfl
  | cons b rest ih =>
    by_cases hb : b = 0
    · subst hb
      simp [strlen, seen]
    · have hzero : (0 : UInt8) ∈ b :: rest ↔ 0 ∈ rest := by simp [Ne.symm hb]
      rw [strlen, if_neg hb, ih]
      simp only [hzero, seen, List.takeWhile_cons, ne_eq, hb, not_false_eq_true, decide_true,
        if_true, List.length_cons]
      split
      · rfl
      · rfl

/-- A loop over the first bytes of a buffer folds them. -/
theorem foldlM_take {σ : Type} (f : σ → UInt8 → σ) (buf : List UInt8) (s : σ) {n : Nat}
    (h : n ≤ buf.length) :
    (List.range n).foldlM (fun s i => (buf[i]?).map (f s)) s = some ((buf.take n).foldl f s) := by
  induction n with
  | zero => rfl
  | succ n ih =>
    have hn : n < buf.length := h
    rw [List.range_succ, List.foldlM_append, ih (Nat.le_of_lt h), List.take_add_one,
      List.foldl_append]
    simp only [Option.bind_eq_bind, Option.bind_some, List.foldlM_cons, List.foldlM_nil,
      List.getElem?_eq_getElem hn, Option.map_some, Option.pure_def, Option.toList_some,
      List.foldl_cons, List.foldl_nil]

theorem countBuf_eq (buf : List UInt8) (table : Table) :
    countBuf buf table = if 0 ∈ buf then some ((seen buf).foldl countByte table) else none := by
  have hprefix : seen buf <+: buf := List.takeWhile_prefix _
  rw [countBuf, strlen_eq]
  split
  · rw [Option.bind_eq_bind, Option.bind_some, foldlM_take _ buf table hprefix.length_le,
      ← List.prefix_iff_eq_take.mp hprefix]
  · rfl

/-- The zero bytes behind a rest end it, and there are none behind a whole buffer. -/
theorem seen_append_zeros (bytes : List UInt8) (n : Nat) :
    seen (bytes ++ List.replicate n 0) = seen bytes := by
  have hzeros : (List.replicate n (0 : UInt8)).takeWhile (· ≠ 0) = [] := by
    cases n with
    | zero => rfl
    | succ n => rfl
  rw [seen, List.takeWhile_append, hzeros, List.append_nil]
  split
  · rename_i hall
    exact ((List.takeWhile_prefix _).eq_of_length hall).symm
  · rfl

theorem countRead_eq {file : List UInt8} {offset count : Nat} (hcount : count ≤ 1000)
    (hfile : offset + count ≤ file.length) (table : Table) :
    countRead file count ⟨offset, zeroBuf, table⟩ =
      if 0 ∈ bytesAt file offset count ∨ count < 1000 then
        some ⟨offset + count, zeroBuf, (seen (bytesAt file offset count)).foldl countByte table⟩
      else none := by
  have hlen : (bytesAt file offset count).length = count := by
    rw [bytesAt, List.length_take, List.length_drop]
    omega
  have hread : readFile file count ⟨offset, zeroBuf, table⟩ = some ⟨offset + count,
      bytesAt file offset count ++ List.replicate (1000 - count) 0, table⟩ := by
    have hfits : count ≤ zeroBuf.length := by rwa [zeroBuf, List.length_replicate]
    rw [readFile, ← bytesAt]
    dsimp only
    rw [hlen, if_pos hfits, zeroBuf, List.drop_replicate]
  have hzero : 0 ∈ bytesAt file offset count ++ List.replicate (1000 - count) (0 : UInt8) ↔
      0 ∈ bytesAt file offset count ∨ count < 1000 := by
    rw [List.mem_append, List.mem_replicate, and_iff_left rfl]
    exact or_congr_right (by omega)
  rw [countRead, hread]
  simp only [Option.bind_eq_bind, Option.bind_some, countBuf_eq, hzero, seen_append_zeros]
  split
  · rfl
  · rfl

/-! ### All buffers -/

/-- One part of every one of the first `num` whole buffers. -/
def eachRead (part : List UInt8 → List UInt8) (file : List UInt8) (offset num : Nat) : List UInt8 :=
  (List.range num).flatMap fun k => part (bytesAt file (offset + 1000 * k) 1000)

theorem eachRead_succ (part : List UInt8 → List UInt8) (file : List UInt8) (offset num : Nat) :
    eachRead part file offset (num + 1)
      = part (bytesAt file offset 1000) ++ eachRead part file (offset + 1000) num := by
  have hshift : ∀ k, offset + 1000 + 1000 * k = offset + 1000 * (k + 1) := fun k => by omega
  simp only [eachRead, List.range_succ_eq_map, List.flatMap_cons, List.flatMap_map, hshift,
    Nat.mul_zero, Nat.add_zero]

theorem countReads_eq {file : List UInt8} {offset num : Nat}
    (hfile : offset + 1000 * num ≤ file.length) (table : Table) :
    countReads file num ⟨offset, zeroBuf, table⟩ =
      if ∀ k < num, 0 ∈ bytesAt file (offset + 1000 * k) 1000 then
        some ⟨offset + 1000 * num, zeroBuf, (eachRead seen file offset num).foldl countByte table⟩
      else none := by
  induction num generalizing offset table with
  | zero => simp [countReads, eachRead]
  | succ num ih =>
    rw [Nat.mul_succ, ← Nat.add_assoc] at hfile
    have hfirst : offset + 1000 ≤ file.length := by omega
    have hrest : offset + 1000 + 1000 * num ≤ file.length := by omega
    have hshift : ∀ k, offset + 1000 + 1000 * k = offset + 1000 * (k + 1) := fun k => by omega
    have hzeros : (∀ k < num + 1, 0 ∈ bytesAt file (offset + 1000 * k) 1000) ↔
        0 ∈ bytesAt file offset 1000 ∧
          ∀ k < num, 0 ∈ bytesAt file (offset + 1000 + 1000 * k) 1000 := by
      rw [Nat.forall_lt_succ_left]
      simp only [hshift, Nat.mul_zero, Nat.add_zero]
    rw [countReads, countRead_eq (Nat.le_refl 1000) hfirst, eachRead_succ, List.foldl_append]
    simp only [hzeros, Nat.lt_irrefl, or_false]
    by_cases hzero : 0 ∈ bytesAt file offset 1000
    · rw [if_pos hzero, Option.bind_eq_bind, Option.bind_some, ih hrest]
      simp only [hzero, true_and, hshift]
    · rw [if_neg hzero, if_neg fun h => hzero h.1]
      rfl

/-- One part of every buffer that is read, the rest as well. -/
def eachBuffer (part : List UInt8 → List UInt8) (file : List UInt8) (start stop : Nat) :
    List UInt8 :=
  eachRead part file start (readnum start stop).toNat ++
    part (bytesAt file (start + 1000 * (readnum start stop).toNat) (leftStay start stop).toNat)

section Range

variable {file : List UInt8} {start stop : Nat}

theorem leftStay_of_le (h : start ≤ stop) :
    leftStay start stop = ((stop - start) % 1000 : Nat) := by
  rw [leftStay_eq, Int.tmod_eq_emod_of_nonneg (by omega)]
  omega

/-- Where the number of buffers does not fit, fewer bytes are read than are in the range. -/
theorem bytesRead_le (h : start ≤ stop) : bytesRead start stop ≤ stop - start := by
  have hnum : readnum start stop ≤ ((stop - start) / 1000 : Nat) := by
    rw [readnum, Int.tdiv_eq_ediv_of_nonneg (by omega), Int.bmod_def]
    split
    · omega
    · omega
  rw [bytesRead, leftStay_of_le h]
  omega

theorem calculate_eq (h : start ≤ stop) (hstop : stop ≤ file.length) (table : Table) :
    calculate file start stop table =
      if ∀ k < (readnum start stop).toNat, 0 ∈ bytesAt file (start + 1000 * k) 1000 then
        some ((eachBuffer seen file start stop).foldl countByte table)
      else none := by
  have hread := bytesRead_le h
  rw [bytesRead] at hread
  have hleft := leftStay_of_le h
  have hwhole : start + 1000 * (readnum start stop).toNat ≤ file.length := by omega
  have hrest : start + 1000 * (readnum start stop).toNat + (leftStay start stop).toNat
      ≤ file.length := by omega
  have hsmall : (leftStay start stop).toNat < 1000 := by omega
  rw [calculate, Int.toNat_natCast, countReads_eq hwhole, eachBuffer, List.foldl_append]
  split
  · rw [Option.bind_eq_bind, Option.bind_some]
    split
    · rw [countRead_eq (Nat.le_of_lt hsmall) hrest, if_pos (.inr hsmall)]
      rfl
    · have hnone : (leftStay start stop).toNat = 0 := by omega
      rw [hnone]
      rfl
  · rfl

end Range

/-! ### What is counted -/

theorem increment_apply (table : Table) (i j : Fin 26) :
    increment table i j = table j + if j = i then 1 else 0 := by
  by_cases h : j = i
  · subst h
    rw [increment, Function.update_self, if_pos rfl]
  · rw [increment, Function.update_of_ne h, if_neg h]
    exact (BitVec.add_zero _).symm

theorem countByte_apply (table : Table) (b : UInt8) (j : Fin 26) :
    countByte table b j = table j + if isLetter j b then 1 else 0 := by
  have hletter : isLetter j b = true ↔ b.toNat = 65 + j ∨ b.toNat = 97 + j := decide_eq_true_iff
  have hj := j.isLt
  simp only [hletter, countByte]
  split
  · have hupper : j.val = b.toNat - 65 ↔ b.toNat = 65 + j ∨ b.toNat = 97 + j := by omega
    simp only [increment_apply, Fin.ext_iff, hupper]
  · split
    · have hlower : j.val = b.toNat - 97 ↔ b.toNat = 65 + j ∨ b.toNat = 97 + j := by omega
      simp only [increment_apply, Fin.ext_iff, hlower]
    · rw [if_neg (by omega)]
      exact (BitVec.add_zero _).symm

theorem foldl_countByte (bytes : List UInt8) (table : Table) (j : Fin 26) :
    (bytes.foldl countByte table) j = table j + BitVec.ofNat 32 (bytes.countP (isLetter j)) := by
  induction bytes generalizing table with
  | nil => simp
  | cons b bytes ih =>
    rw [List.foldl_cons, ih, countByte_apply, List.countP_cons, Nat.add_comm, BitVec.ofNat_add,
      BitVec.add_assoc]
    congr 2
    split
    · rfl
    · rfl

theorem bytesAt_add (file : List UInt8) (offset m n : Nat) :
    bytesAt file offset (m + n) = bytesAt file offset m ++ bytesAt file (offset + m) n := by
  rw [bytesAt, List.take_add, List.drop_drop]
  rfl

/-- What `strlen` goes over and what it leaves are the whole buffer. -/
theorem countP_seen_add_unseen (p : UInt8 → Bool) (bytes : List UInt8) :
    (seen bytes).countP p + (unseen bytes).countP p = bytes.countP p := by
  rw [seen, unseen, ← List.countP_append, List.takeWhile_append_dropWhile]

theorem countP_eachRead (p : UInt8 → Bool) (file : List UInt8) (offset num : Nat) :
    (eachRead seen file offset num).countP p + (eachRead unseen file offset num).countP p
      = (bytesAt file offset (1000 * num)).countP p := by
  induction num generalizing offset with
  | zero => simp [eachRead, bytesAt]
  | succ num ih =>
    have hbuffer := countP_seen_add_unseen p (bytesAt file offset 1000)
    have hrest := ih (offset + 1000)
    rw [eachRead_succ, eachRead_succ, Nat.mul_succ, Nat.add_comm (1000 * num), bytesAt_add]
    simp only [List.countP_append]
    omega

/-- What is not counted: in each buffer that is read what `strlen` leaves, and what is not read. -/
def unseenBytes (file : List UInt8) (start stop : Nat) : List UInt8 :=
  eachBuffer unseen file start stop ++
    bytesAt file (start + bytesRead start stop) (stop - start - bytesRead start stop)

theorem toInt_add_ofNat (t : BitVec 32) (n m : Nat) :
    (t + BitVec.ofNat 32 n).toInt = t.toInt + (n + m : Nat) ↔
      m = 0 ∧ t.toInt + (n + m : Nat) < 2 ^ 31 := by
  have hlo := BitVec.le_toInt t
  have hhi := BitVec.toInt_lt (x := t)
  rw [BitVec.toInt_add, BitVec.toInt_ofNat', Int.add_bmod_bmod, Int.bmod_def]
  split
  · omega
  · omega

/-- No letter is left out and no count gets too large for an `int`. -/
structure AllSeen (file : List UInt8) (start stop : Nat) (table : Table) : Prop where
  zeroInEach : ∀ k < (readnum start stop).toNat, 0 ∈ bytesAt file (start + 1000 * k) 1000
  noLetterUnseen : ∀ j, ∀ b ∈ unseenBytes file start stop, isLetter j b = false
  fits : ∀ j, (table j).toInt + lettersIn file start stop j < 2 ^ 31

section Range

variable {file : List UInt8} {start stop : Nat}

theorem countP_eachBuffer (h : start ≤ stop) (j : Fin 26) :
    (eachBuffer seen file start stop).countP (isLetter j) +
      (unseenBytes file start stop).countP (isLetter j) = lettersIn file start stop j := by
  have hread := bytesRead_le h
  have hwhole := countP_eachRead (isLetter j) file start (readnum start stop).toNat
  have hrest := countP_seen_add_unseen (isLetter j) (bytesAt file
    (start + 1000 * (readnum start stop).toNat) (leftStay start stop).toNat)
  have hsplit : stop - start = 1000 * (readnum start stop).toNat + (leftStay start stop).toNat +
      (stop - start - bytesRead start stop) := by
    rw [bytesRead] at hread ⊢
    omega
  rw [lettersIn, hsplit, bytesAt_add, bytesAt_add, eachBuffer, unseenBytes, eachBuffer, bytesRead]
  simp only [List.countP_append]
  omega

/-- `calculate` counts its range if each whole buffer has a zero byte in it, behind which no letter
is left in the buffer, if all is read, and if no count gets too large. -/
theorem countsRange_iff (h : start ≤ stop) (hstop : stop ≤ file.length) (table : Table) :
    CountsRange file start stop table ↔ AllSeen file start stop table := by
  have hcount : ∀ j, (((eachBuffer seen file start stop).foldl countByte table) j).toInt
      = (table j).toInt + lettersIn file start stop j ↔
        (unseenBytes file start stop).countP (isLetter j) = 0 ∧
          (table j).toInt + lettersIn file start stop j < 2 ^ 31 := by
    intro j
    rw [foldl_countByte, ← countP_eachBuffer h, toInt_add_ofNat]
  rw [CountsRange, calculate_eq h hstop]
  constructor
  · rintro ⟨table', hsome, htable⟩
    split at hsome
    · rename_i hzero
      obtain rfl := Option.some.inj hsome
      refine ⟨hzero, fun j => ?_, fun j => ((hcount j).mp (htable j)).2⟩
      have hnone := List.countP_eq_zero.mp ((hcount j).mp (htable j)).1
      exact fun b hb => Bool.eq_false_iff.mpr (hnone b hb)
    · cases hsome
  · rintro ⟨hzero, hunseen, hfits⟩
    refine ⟨_, if_pos hzero, fun j => (hcount j).mpr ⟨?_, hfits j⟩⟩
    exact List.countP_eq_zero.mpr fun b hb => Bool.eq_false_iff.mp (hunseen j b hb)

theorem countsRange_abc : CountsRange [65, 98, 99] 0 3 (fun _ => 0) := by
  have hseen : unseenBytes [65, 98, 99] 0 3 = [] := by decide
  refine (countsRange_iff (by decide) (by decide) _).mpr ⟨by decide, ?_, by decide⟩
  rw [hseen]
  exact fun _ _ hb => absurd hb List.not_mem_nil

/-- A letter that fills a whole buffer, and one behind a zero byte. -/
theorem not_countsRange :
    ¬ CountsRange (List.replicate 1000 97) 0 1000 (fun _ => 0) ∧
      ¬ CountsRange [97, 0, 97] 0 3 (fun _ => 0) := by
  constructor
  · rintro ⟨table', hsome, -⟩
    have hnone : (calculate (List.replicate 1000 97) (0 : Nat) (1000 : Nat)
        (fun _ => 0)).isNone = true := by
      decide +kernel
    rw [hsome] at hnone
    cases hnone
  · rintro ⟨table', hsome, htable⟩
    have hone : (calculate [97, 0, 97] (0 : Nat) (3 : Nat) (fun _ => 0)).map (· 0) = some 1 := by
      decide +kernel
    have htwo := htable 0
    rw [hsome] at hone
    change some (table' 0) = some 1 at hone
    rw [Option.some.inj hone] at htwo
    exact absurd htwo (by decide)

/-- In a text without zero bytes only a range shorter than one buffer is counted. -/
theorem allSeen_text_iff (h : start ≤ stop) (hsize : stop - start < 1000 * 2 ^ 31)
    (htext : 0 ∉ file) (table : Table) :
    AllSeen file start stop table ↔ stop - start < 1000 ∧
      ∀ j, (table j).toInt + lettersIn file start stop j < 2 ^ 31 := by
  have hread : bytesRead start stop = ((stop : Int) - start).toNat :=
    bytesRead_eq (by omega) (by omega)
  have hleft := leftStay_of_le h
  have hbytes : ∀ offset count, 0 ∉ bytesAt file offset count := fun offset count hmem =>
    htext (List.mem_of_mem_drop (List.mem_of_mem_take hmem))
  have hunseen : ∀ offset count, unseen (bytesAt file offset count) = [] := by
    intro offset count
    refine List.dropWhile_eq_nil_iff.mpr fun b hb => decide_eq_true ?_
    rintro rfl
    exact hbytes offset count hb
  constructor
  · rintro ⟨hzero, -, hfits⟩
    refine ⟨?_, hfits⟩
    have hnone : (readnum start stop).toNat = 0 := by
      by_contra hpos
      exact hbytes _ _ (hzero 0 (Nat.pos_of_ne_zero hpos))
    rw [bytesRead, hnone] at hread
    omega
  · rintro ⟨hshort, hfits⟩
    have hnone : (readnum start stop).toNat = 0 := by
      rw [bytesRead] at hread
      omega
    refine ⟨fun k hk => by omega, fun j b hb => ?_, hfits⟩
    have hrest : stop - start - bytesRead start stop = 0 := by omega
    rw [unseenBytes, eachBuffer, eachRead, hnone, hunseen, hrest] at hb
    simp [bytesAt] at hb

end Range

end MiniNet.SocketExp
