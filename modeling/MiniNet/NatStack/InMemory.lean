import MiniNet.ListMemory
import MiniNet.NatStack.Table

/-!
# The mapping table in memory

What `nat.c` and `nat_new_2.c` have in common where the table is 256 list heads and the mappings are
allocated and freed: `nat_table_init`, the sweep of `nat_timeout` and `nat_table_destroy`. The rest
of `struct nat_table`, the interfaces and the ports, is a table whose own lists are not looked at.
-/

namespace MiniNet.NatStack.InMemory

open Lib ListHead

abbrev OnNat (α γ : Type) := OnMemory α NatMapping γ

/-- What `bzero` leaves of a mapping. -/
def zeroMapping : NatMapping where
  internalIp := 0
  externalIp := 0
  internalPort := 0
  externalPort := 0
  updateTime := 0
  conn := .zero

section Functions

variable {α : Type} [DecidableEq α] (heads : Fin hash8Bits → α) (fuel : Nat)

def natTableInit (ifaceList : List IfaceInfo) : OnNat α NatTable := do
  OnMemory.onLinks fun _ => initLists heads (List.finRange hash8Bits)
  fun m => (NatStack.natTableInit ifaceList).map fun t => (t, m)

/-- The port of an entry is freed before the entry is. -/
def natTimeout (due : NatMapping → Bool) (rest : NatTable) : OnNat α NatTable :=
  OnMemory.onLinks fun data =>
    sweepListsGiving heads
      (releaseIf (fun e => due (data e)) (fun e => (data e).externalPort) freePort) fuel
      (List.finRange hash8Bits) rest

def natTableDestroy : OnNat α Unit :=
  OnMemory.onLinks fun _ => sweepLists heads (fun _ => true) fuel (List.finRange hash8Bits)

end Functions

variable {α : Type} {heads : Fin hash8Bits → α} {others : Finset α}
  {nodes : Fin hash8Bits → List α} {s : Memory α NatMapping × NatTable} {t : NatTable}

/-- The table `t` is in memory, on the nodes given. -/
structure Keeps (heads : Fin hash8Bits → α) (others : Finset α) (nodes : Fin hash8Bits → List α)
    (s : Memory α NatMapping × NatTable) (t : NatTable) : Prop where
  holds : Holds s.1 heads others nodes t.natMappingList
  rest : s.2.withList t.natMappingList = t

/-- It is, and no list is longer than `n`. -/
def InUse (heads : Fin hash8Bits → α) (others : Finset α) (n : Nat)
    (s : Memory α NatMapping × NatTable) (t : NatTable) : Prop :=
  (∃ nodes, Keeps heads others nodes s t) ∧ ∀ b, (t.natMappingList b).length ≤ n

theorem Keeps.withList (h : Keeps heads others nodes s t) :
    ∃ list, Holds s.1 heads others nodes list ∧ t = s.2.withList list :=
  ⟨_, h.holds, h.rest.symm⟩

variable [DecidableEq α] {m : Memory α NatMapping} {fuel : Nat}

theorem natTableInit_eq (hstart : Starts heads others m) (ifaceList : List IfaceInfo) :
    ∃ m', (natTableInit heads ifaceList m
        = (NatStack.natTableInit ifaceList).map fun t => (t, m')) ∧
      ∀ t, NatStack.natTableInit ifaceList = some t → InUse heads others 0 (m', t) t := by
  obtain ⟨m', hinit, hm'⟩ := hstart.init
  refine ⟨m', OnMemory.bind_of_eq hinit, fun t ht => ?_⟩
  obtain ⟨hbuckets, -⟩ := natTableInit_spec ht
  refine ⟨⟨fun _ => [], ?_, rfl⟩, fun b => ?_⟩
  · rw [funext hbuckets]
    exact hm'
  · rw [hbuckets, List.length_nil]

theorem natTimeout_eq {rest : NatTable}
    (h : Keeps heads others nodes (m, rest) t) (hfuel : ∀ b, (t.natMappingList b).length < fuel)
    (due : NatMapping → Bool) : ∃ m' rest' nodes',
      natTimeout heads fuel due rest m = some (rest', m') ∧
        Keeps heads others nodes' (m', rest') (sweepTable due t) := by
  obtain ⟨list, hm, rfl⟩ := h.withList
  obtain ⟨m', nodes', hsweep, hm'⟩ := hm.sweepGiving due (·.externalPort) freePort rest hfuel
  refine ⟨m', _, nodes', hsweep, ?_, ?_⟩
  · rw [funext (natMappingList_sweepTable due _)]
    exact hm'
  · -- the lists have no part in what is given back
    rw [funext (natMappingList_sweepTable due _), sweepTable_eq, freePorts_withList,
      NatTable.withList_withList]
    rfl

theorem natTableDestroy_returns {n : Nat} {rest : NatTable} (h : InUse heads others n (m, rest) t)
    (hfuel : n < fuel) :
    ∃ m', natTableDestroy heads fuel m = some ((), m') ∧
      ∀ a, m'.links.live a = true ↔ a ∈ others ∨ ∃ b, a = heads b := by
  obtain ⟨⟨nodes, hm, -⟩, hlength⟩ := h
  obtain ⟨m', hdestroy, -, hm'⟩ := hm.sweep (fun _ => true) fun b =>
    Nat.lt_of_le_of_lt (hlength b) hfuel
  refine ⟨m', hdestroy, fun a => ?_⟩
  rw [hm'.inUse]
  simp

end MiniNet.NatStack.InMemory
