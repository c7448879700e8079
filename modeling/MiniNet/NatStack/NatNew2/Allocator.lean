import MiniNet.NatStack.NatNew2.Code
import Mathlib.Data.List.Perm.Subperm

/-!
# The port allocator of `nat_new_2.c`

Any sequence of calls of `assign_external_port` and `free_port`, from an empty pool. Beside the
table a run keeps the ports that are outstanding, which the program does not: those that have been
returned and not freed since. The cells of the pool are marked for these and for no other port,
whatever is freed and however often no port is left.
-/

namespace MiniNet.NatStack.NatNew2

open Lib

inductive Call
  | assignExternalPort
  | freePort (port : UInt16)

structure Allocation where
  table : NatTable
  outstanding : List UInt16

/-- A call that returns 0 has not returned a port. -/
def nextCall (s : Allocation) : Call → Allocation
  | .assignExternalPort =>
    let r := assignExternalPort s.table
    { table := r.2, outstanding := if r.1 = 0 then s.outstanding else s.outstanding ++ [r.1] }
  | .freePort port =>
    { table := freePort s.table port, outstanding := s.outstanding.filter (· ≠ port) }

/-- The pool knows the outstanding ports. -/
structure Tracks (s : Allocation) : Prop where
  nodup : s.outstanding.Nodup
  range : ∀ port ∈ s.outstanding, InPortRange port
  marked : ∀ port, s.table.assignedPorts port ≠ 0 ↔ port ∈ s.outstanding

/-- What the next call of `assign_external_port` returns, and what it leaves when it fails. -/
structure AssignsLeast (s : Allocation) : Prop where
  success : (assignExternalPort s.table).1 ≠ 0 →
    InPortRange (assignExternalPort s.table).1 ∧
      (assignExternalPort s.table).1 ∉ s.outstanding ∧
      ∀ q, InPortRange q → q ∉ s.outstanding →
        (assignExternalPort s.table).1.toNat ≤ q.toNat
  failure : (assignExternalPort s.table).1 = 0 ↔ ∀ q, InPortRange q → q ∈ s.outstanding
  unchanged : (assignExternalPort s.table).1 = 0 → (assignExternalPort s.table).2 = s.table
  size : (∀ q, InPortRange q → q ∈ s.outstanding) ↔ s.outstanding.length = 11112

private theorem subset_iff_length {α : Type} {l m : List α} (hl : l.Nodup) (hm : m.Nodup)
    (hsub : l ⊆ m) : m ⊆ l ↔ l.length = m.length := by
  constructor
  · intro hsup
    exact Nat.le_antisymm (hl.length_le_of_subset hsub) (hm.length_le_of_subset hsup)
  · intro hlength
    exact ((hl.subperm hsub).perm_of_length_le hlength.ge).symm.subset

/-- There are 11112 ports. -/
theorem forall_mem_iff_length {ports : List UInt16} (hnodup : ports.Nodup)
    (hrange : ∀ port ∈ ports, InPortRange port) :
    (∀ q, InPortRange q → q ∈ ports) ↔ ports.length = 11112 := by
  have hnumbers : (ports.map UInt16.toNat).Nodup :=
    hnodup.map fun _ _ heq => UInt16.toNat_inj.mp heq
  have hsub : ports.map UInt16.toNat ⊆ List.range' natPortMin 11112 := by
    intro i hi
    obtain ⟨port, hport, rfl⟩ := List.mem_map.mp hi
    have hin := hrange port hport
    exact List.mem_range'_1.mpr ⟨hin.1, Nat.lt_succ_of_le hin.2⟩
  have hall : (∀ q, InPortRange q → q ∈ ports) ↔
      List.range' natPortMin 11112 ⊆ ports.map UInt16.toNat := by
    constructor
    · intro h i hi
      obtain ⟨hlo, hhi⟩ := List.mem_range'_1.mp hi
      have htoNat : (UInt16.ofNat i).toNat = i :=
        UInt16.toNat_ofNat_of_lt' (Nat.lt_trans hhi (by decide))
      refine List.mem_map.mpr ⟨UInt16.ofNat i, h _ ⟨?_, ?_⟩, htoNat⟩
      · rwa [htoNat]
      · rw [htoNat]
        exact Nat.le_of_lt_succ hhi
    · intro h q hq
      have hmem := h (List.mem_range'_1.mpr ⟨hq.1, Nat.lt_succ_of_le hq.2⟩)
      obtain ⟨port, hport, heq⟩ := List.mem_map.mp hmem
      rwa [← UInt16.toNat_inj.mp heq]
  rw [hall, subset_iff_length hnumbers List.nodup_range' hsub, List.length_map, List.length_range']

theorem Tracks.empty {t : NatTable} (hpool : ∀ port, t.assignedPorts port = 0) :
    Tracks ⟨t, []⟩ := by
  refine ⟨List.nodup_nil, fun _ hport => absurd hport List.not_mem_nil, fun port => ?_⟩
  exact iff_of_false (fun hmarked => hmarked (hpool port)) List.not_mem_nil

section Step

variable {s : Allocation}

theorem Tracks.assign (h : Tracks s) : Tracks (nextCall s .assignExternalPort) := by
  rw [nextCall]
  rcases assignExternalPort_cases s.table with ⟨port, hleast, hassign⟩ | ⟨-, hassign⟩
  · have hnew : port ∉ s.outstanding := fun hport => (h.marked port).mpr hport hleast.free
    rw [hassign]
    dsimp only
    rw [if_neg (hleast.inPortRange (by decide)).ne_zero]
    refine ⟨?_, fun q hq => ?_, fun q => ?_⟩
    · exact List.nodup_append.mpr ⟨h.nodup, List.nodup_singleton port, by grind⟩
    · rcases List.mem_append.mp hq with hq | hq
      · exact h.range q hq
      · rw [List.mem_singleton.mp hq]
        exact hleast.inPortRange (by decide)
    · rw [List.mem_append, List.mem_singleton, ← h.marked q, NatTable.setPort]
      by_cases hq : q = port
      · simp [hq]
      · simp [hq]
  · rw [hassign]
    dsimp only
    rw [if_pos rfl]
    exact h

theorem Tracks.free (h : Tracks s) (port : UInt16) : Tracks (nextCall s (.freePort port)) := by
  rw [nextCall]
  refine ⟨h.nodup.filter _, fun q hq => h.range q (List.mem_of_mem_filter hq), fun q => ?_⟩
  rw [List.mem_filter, ← h.marked q, assignedPorts_freePort]
  rw [decide_eq_true_eq]
  by_cases hq : q = port
  · refine iff_of_false (fun hmarked => ?_) fun hboth => hboth.2 hq
    split at hmarked
    · exact hmarked rfl
    · rename_i hout
      exact hout ⟨hq, h.range q ((h.marked q).mp hmarked)⟩
  · rw [if_neg fun hsame => hq hsame.1]
    exact (and_iff_left hq).symm

theorem Tracks.next (h : Tracks s) (call : Call) : Tracks (nextCall s call) := by
  cases call with
  | assignExternalPort => exact h.assign
  | freePort port => exact h.free port

theorem Tracks.assignsLeast (h : Tracks s) : AssignsLeast s := by
  have hsize := forall_mem_iff_length h.nodup h.range
  rcases assignExternalPort_cases s.table with ⟨port, hleast, hassign⟩ | ⟨hfull, hassign⟩
  · have hport := hleast.inPortRange (by decide)
    have hnew : port ∉ s.outstanding := fun hmem => (h.marked port).mpr hmem hleast.free
    have hne := hport.ne_zero
    refine ⟨?_, ?_, ?_, hsize⟩
    · rw [hassign]
      refine fun _ => ⟨hport, hnew, fun q hq hfree => Nat.le_of_not_lt fun hlt => hfree ?_⟩
      exact (h.marked q).mp (hleast.least q hq.1 hlt)
    · rw [hassign]
      exact iff_of_false hne fun hall => hnew (hall port hport)
    · rw [hassign]
      exact fun hzero => absurd hzero hne
  · refine ⟨?_, ?_, ?_, hsize⟩
    · rw [hassign]
      exact fun hne => absurd rfl hne
    · rw [hassign]
      exact iff_of_true rfl fun q hq => (h.marked q).mp (hfull q hq)
    · rw [hassign]
      exact fun _ => rfl

end Step

/-- **The allocator, over any history.** -/
theorem allocator_history {t : NatTable} (hpool : ∀ port, t.assignedPorts port = 0)
    (calls : List Call) :
    Tracks (run nextCall ⟨t, []⟩ calls) ∧ AssignsLeast (run nextCall ⟨t, []⟩ calls) := by
  have htracks : Tracks (run nextCall ⟨t, []⟩ calls) := by
    refine run_induction nextCall (P := fun _ s => Tracks s) (Tracks.empty hpool) ?_ calls []
      (List.append_nil calls).symm
    intro pre call post _ hpre
    exact hpre.next call
  exact ⟨htracks, htracks.assignsLeast⟩

theorem allocator_history_natTopo :
    Tracks (run nextCall ⟨natTopo, []⟩ [.assignExternalPort, .freePort 12345]) ∧
      AssignsLeast (run nextCall ⟨natTopo, []⟩ [.assignExternalPort, .freePort 12345]) :=
  allocator_history (fun _ => rfl) _

end MiniNet.NatStack.NatNew2
