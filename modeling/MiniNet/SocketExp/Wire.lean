import MiniNet.Lib.Stream

/-!
# What a worker is told, and what it answers

`handle_client` sends the name of the file, the start and the end of a range, each by a `send` of
its own and with nothing in the stream to say where one ends; the client has one `recv` for each of
the three. Its buffer for the name is cleared for the `sizeof` of a constant, so that what ends the
name is whatever the stack holds behind it. Back goes a table, again taken by one `recv`.

What comes out is what was meant when every `send` happens to arrive alone and whole and a zero byte
to lie behind the name. But no request is safe from arriving in another way.
-/

namespace MiniNet.SocketExp

open Lib

/-- `int table[26]`. -/
abbrev Table := Fin 26 → BitVec 32

/-! ### In memory and on the wire -/

def longBytes (v : BitVec 64) : List UInt8 := leBytes 8 v.toNat

def longAt (m : Mem) : BitVec 64 := .ofNat 64 (ofLE (bytesOf m 8))

def tableByte (table : Table) (i : Nat) : UInt8 :=
  byteOf (table (Fin.ofNat 26 (i / 4))).toNat (i % 4)

def tableBytes (table : Table) : List UInt8 := (List.range 104).map (tableByte table)

def tableAt (m : Mem) : Table := fun j => .ofNat 32 (ofLE (bytesOf (fun i => m (4 * j + i)) 4))

/-! ### The two programs -/

/-- `sizeof(buf)` in the client. -/
def sizeofBuf : Nat := 1000

/-- What `handle_client` has sent when it waits for the answer. -/
def request (filename : List UInt8) (start stop : BitVec 64) : List UInt8 :=
  filename ++ longBytes start ++ longBytes stop

def zeroed : Mem := fun _ => 0

/-- What `main` of the client has of the stream after its three calls: the string in `buf`, `start`
and `end`. The first `buf` is what the stack holds; `bzero` gets `sizeof(1000)`, which is 4. -/
def clientRecv (buf : Mem) (stream : List UInt8) (k₁ k₂ k₃ : Nat) :
    Option (List UInt8 × BitVec 64 × BitVec 64) := do
  let (got, stream) ← recv stream sizeofBuf k₁
  let buf := fill (bzero buf 4) got
  let (got, stream) ← recv stream 8 k₂
  let start := longAt (fill zeroed got)
  let (got, _) ← recv stream 8 k₃
  let stop := longAt (fill zeroed got)
  return (cString buf sizeofBuf, start, stop)

/-- What `handle_client` has in its table, which it does not initialise. -/
def serverRecv (table : Mem) (stream : List UInt8) (k : Nat) : Option Table := do
  let (got, _) ← recv stream 104 k
  return tableAt (fill table got)

/-! ### What should come out -/

/-- However the request is delivered, the client gets what was sent. -/
def RequestIndependent (buf : Mem) (filename : List UInt8) (start stop : BitVec 64) : Prop :=
  ∀ k₁ k₂ k₃, clientRecv buf (request filename start stop) k₁ k₂ k₃ = some (filename, start, stop)

/-- However the answer is delivered, the server gets the client's table. -/
def ReplyIndependent (memory : Mem) (table : Table) : Prop :=
  ∀ k, serverRecv memory (tableBytes table) k = some table

theorem length_longBytes (v : BitVec 64) : (longBytes v).length = 8 := length_leBytes 8 _

theorem length_request (filename : List UInt8) (start stop : BitVec 64) :
    (request filename start stop).length = filename.length + 16 := by
  rw [request, List.length_append, List.length_append, length_longBytes, length_longBytes]

theorem longAt_longBytes (v : BitVec 64) : longAt (fill zeroed (longBytes v)) = v := by
  have hbytes : bytesOf (fill zeroed (longBytes v)) 8 = longBytes v :=
    bytesOf_fill zeroed (length_longBytes v)
  have hv : v.toNat < 256 ^ 8 := v.isLt
  rw [longAt, hbytes, longBytes, ofLE_leBytes, Nat.mod_eq_of_lt hv, BitVec.ofNat_toNat,
    BitVec.setWidth_eq]

theorem recv_longBytes (v : BitVec 64) (rest : List UInt8) :
    recv (longBytes v ++ rest) 8 8 = some (longBytes v, rest) := by
  have hlen := length_longBytes v
  have hne : longBytes v ≠ [] := List.length_pos_iff.mp (by omega)
  have hrecv := recv_front hne (Nat.le_of_eq hlen) rest
  rwa [hlen] at hrecv

section Request

variable (buf : Mem) (filename : List UInt8) (start stop : BitVec 64)

/-- When everything is delivered with the first call, the second one waits. -/
theorem clientRecv_merged (hlen : filename.length + 16 ≤ 1000) (k₂ k₃ : Nat) :
    clientRecv buf (request filename start stop) 1000 k₂ k₃ = none := by
  have hlength := length_request filename start stop
  have hne : request filename start stop ≠ [] := by
    intro hnil
    rw [hnil] at hlength
    cases hlength
  have hall : (request filename start stop).drop 1000 = [] := List.drop_eq_nil_of_le (by omega)
  rw [clientRecv, recv_of_ne_nil hne]
  simp only [Option.bind_eq_bind, Option.bind_some]
  rw [show max 1 (min 1000 sizeofBuf) = 1000 from rfl, hall, recv_eq_none.mpr rfl,
    Option.bind_none]

/-- When one byte is delivered with the first call, the string ends behind it. -/
theorem clientRecv_first_byte {r : List UInt8 × BitVec 64 × BitVec 64} {k₂ k₃ : Nat}
    (h : clientRecv buf (request filename start stop) 1 k₂ k₃ = some r) : r.1.length ≤ 1 := by
  simp only [clientRecv, Option.bind_eq_bind, Option.bind_eq_some_iff, Prod.exists, Option.pure_def,
    Option.some.injEq] at h
  obtain ⟨got₁, rest₁, h₁, got₂, rest₂, -, got₃, rest₃, -, rfl⟩ := h
  apply length_cString_le
  have hlen : got₁.length ≤ 1 := by
    by_cases hnil : request filename start stop = []
    · rw [recv_eq_none.mpr hnil] at h₁
      cases h₁
    · rw [recv_of_ne_nil hnil] at h₁
      cases h₁
      exact List.length_take_le _ _
  change fill (bzero buf 4) got₁ 1 = 0
  rw [fill_of_le _ hlen]
  rfl

/-- No request is safe: a short one may be merged, a longer one split. -/
theorem not_requestIndependent : ¬ RequestIndependent buf filename start stop := by
  intro h
  rcases Nat.lt_or_ge filename.length 2 with hshort | hlong
  · have hmerged := clientRecv_merged buf filename start stop (by omega) 8 8
    rw [h] at hmerged
    cases hmerged
  · have hbyte := clientRecv_first_byte buf filename start stop (h 1 8 8)
    change filename.length ≤ 1 at hbyte
    omega

/-- When each `send` arrives alone and whole, the name comes out with what lies behind it. -/
theorem clientRecv_aligned (hne : filename ≠ []) (hlen : filename.length ≤ 999) :
    clientRecv buf (request filename start stop) filename.length 8 8 =
      some (cString (fill (bzero buf 4) filename) sizeofBuf, start, stop) := by
  have hsize : filename.length ≤ sizeofBuf := by rw [sizeofBuf]; omega
  have hrecv := recv_front hne hsize (longBytes start ++ longBytes stop)
  rw [clientRecv, request, List.append_assoc, hrecv]
  simp only [Option.bind_eq_bind, Option.bind_some]
  rw [recv_longBytes]
  simp only [Option.bind_some]
  rw [← List.append_nil (longBytes stop), recv_longBytes]
  simp only [Option.bind_some, longAt_longBytes, Option.pure_def]

/-- The name is right when it ends in the part of `buf` that is cleared, or by luck. -/
theorem clientRecv_aligned_iff (hne : filename ≠ []) (hlen : filename.length ≤ 999)
    (hzero : 0 ∉ filename) :
    clientRecv buf (request filename start stop) filename.length 8 8 =
      some (filename, start, stop) ↔ filename.length < 4 ∨ buf filename.length = 0 := by
  have hsize : filename.length < sizeofBuf := by rw [sizeofBuf]; omega
  rw [clientRecv_aligned buf filename start stop hne hlen, Option.some.injEq, Prod.mk.injEq,
    and_iff_left rfl, cString_eq_iff _ hzero hsize fun i hi => fill_of_lt _ hi,
    fill_of_le _ (Nat.le_refl _), bzero]
  by_cases hcleared : filename.length < 4
  · simp [hcleared]
  · simp [hcleared]

end Request

section Reply

variable {memory : Mem} {table : Table}

theorem tableAt_eq_iff : tableAt memory = table ↔ ∀ i < 104, memory i = tableByte table i := by
  have hcell : ∀ j, tableAt memory j = table j ↔
      ∀ i < 4, memory (4 * j + i) = byteOf (table j).toNat i := by
    intro j
    have hlen : (bytesOf (fun i => memory (4 * j + i)) 4).length = 4 := by
      rw [bytesOf, List.length_map, List.length_range]
    have hlt : ofLE (bytesOf (fun i => memory (4 * j + i)) 4) < 2 ^ 32 := by
      have hbound := ofLE_lt (bytesOf (fun i => memory (4 * j + i)) 4)
      rwa [hlen] at hbound
    rw [tableAt, ← BitVec.toNat_inj, BitVec.toNat_ofNat, Nat.mod_eq_of_lt hlt,
      ofLE_eq_iff hlen (table j).isLt, bytesOf, leBytes, List.map_inj_left]
    simp only [List.mem_range]
  rw [funext_iff]
  simp only [hcell]
  constructor
  · intro h i hi
    have hj : (Fin.ofNat 26 (i / 4)).val = i / 4 := Nat.mod_eq_of_lt (by omega)
    have hbyte := h (Fin.ofNat 26 (i / 4)) (i % 4) (Nat.mod_lt _ (by decide))
    rwa [hj, Nat.div_add_mod] at hbyte
  · intro h j i hi
    have hj : Fin.ofNat 26 ((4 * j + i) / 4) = j := by
      apply Fin.ext
      change (4 * j + i) / 4 % 26 = j
      omega
    rw [h _ (by omega), tableByte, hj, show (4 * j + i) % 4 = i by omega]

/-- The answer is right however it is delivered when the server's table already holds all of it but
the first byte. -/
theorem replyIndependent_iff : ReplyIndependent memory table ↔
    ∀ i, 1 ≤ i → i < 104 → memory i = tableByte table i := by
  have hlen : (tableBytes table).length = 104 := by
    rw [tableBytes, List.length_map, List.length_range]
  have hne : tableBytes table ≠ [] := List.length_pos_iff.mp (by omega)
  -- What is delivered overwrites the front, the rest is as it was.
  have hfill : ∀ k i, i < 104 → (fill memory ((tableBytes table).take k) i = tableByte table i ↔
      i < k ∨ memory i = tableByte table i) := by
    intro k i hi
    by_cases hk : i < k
    · have htake : i < ((tableBytes table).take k).length := by
        rw [List.length_take]
        omega
      rw [fill_of_lt memory htake]
      simp [tableBytes, hk]
    · rw [fill_of_le memory (by rw [List.length_take]; omega)]
      simp [hk]
  simp only [ReplyIndependent, serverRecv, recv_of_ne_nil hne, Option.bind_eq_bind,
    Option.bind_some, Option.pure_def, Option.some.injEq, tableAt_eq_iff]
  constructor
  · intro h i hlo hhi
    exact ((hfill _ i hhi).mp (h 1 i hhi)).resolve_left (by omega)
  · intro h k i hi
    refine (hfill _ i hi).mpr ?_
    rcases Nat.eq_zero_or_pos i with hzero | hpos
    · exact .inl (by omega)
    · exact .inr (h i hpos hi)

end Reply

/-- **The protocol is never independent of segmentation**, whatever is sent. -/
theorem never_independent (buf memory : Mem) (filename : List UInt8) (start stop : BitVec 64)
    (table : Table) :
    ¬ (RequestIndependent buf filename start stop ∧ ReplyIndependent memory table) :=
  fun h => not_requestIndependent buf filename start stop h.1

/-- The name that `handle_client` sends. -/
def filename : List UInt8 := "../war_and_peace.txt".toList.map fun c => UInt8.ofNat c.toNat

/-- The request for the first of two workers, delivered with one call: the client waits for ever,
even if its whole buffer was clear. -/
theorem merged_request_waits :
    filename.length ≤ 999 ∧ 0 ∉ filename ∧
    clientRecv zeroed (request filename 0 1646746) 1000 8 8 = none ∧
    ¬ (RequestIndependent zeroed filename 0 1646746 ∧ ReplyIndependent zeroed fun _ => 0) := by
  have hmerged := clientRecv_merged zeroed filename 0 1646746 (by decide +kernel) 8 8
  refine ⟨by decide +kernel, by decide +kernel, hmerged, fun h => ?_⟩
  rw [h.1] at hmerged
  cases hmerged

end MiniNet.SocketExp
