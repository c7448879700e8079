import MiniNet.NatStack.NatC.Layout

/-!
# Port pool and table of `nat.c`

The pool is a table of 65536 cells and the mappings are a list; nothing in the code compares them.
They agree all the same, before, at and after the point where the ports are used up: what an entry
past that point gets is the failure value, which no cell stands for.

A sweep that removes something is another matter. An entry stores its port in network order and the
cell that is cleared is the one of that number, so the port given back is the one with the bytes
exchanged, if that is in the range.
-/

namespace MiniNet.NatStack.NatC

open Lib

/-- The pool and the mappings of a table agree. There are `11111` ports to hand out. -/
structure PoolAgrees (t : NatTable) : Prop where
  /-- A cell in the range is set exactly when one and only one mapping has its port. -/
  cell : ∀ p : UInt16, natPortMin ≤ p.toNat → p.toNat ≤ natPortMax →
    (t.assignedPorts p ≠ 0 ↔
      ∃! k : Fin t.mappings.length, (t.mappings.get k).externalPort = htons p)
  /-- The cells set are the first ones, one for each mapping as far as they go. -/
  assigned : ∀ p : UInt16, t.assignedPorts p ≠ 0 ↔
    natPortMin ≤ p.toNat ∧ p.toNat < natPortMin + min t.mappings.length 11111
  /-- A mapping with none of the ports assigned has the failure value. -/
  rest : ∀ entry ∈ t.mappings,
    (∀ p, t.assignedPorts p ≠ 0 → entry.externalPort ≠ htons p) → entry.externalPort = 0xffff

section Layout

variable {iface : IfaceInfo} {past : List Event} {t : NatTable}

theorem Layout.port_get_eq_htons (h : Layout iface past t) {p : UInt16}
    (hhi : p.toNat ≤ natPortMax) (k : Fin t.mappings.length) :
    (t.mappings.get k).externalPort = htons p ↔ k.val < 11111 ∧ natPortMin + k.val = p.toNat := by
  have hfail : p ≠ 0xffff := by
    rintro rfl
    exact absurd hhi (by decide)
  rw [h.port_get k]
  exact nthPort_eq_htons hfail

theorem Layout.assigned_iff (h : Layout iface past t) (p : UInt16) :
    t.assignedPorts p ≠ 0 ↔
      natPortMin ≤ p.toNat ∧ p.toNat < natPortMin + min t.mappings.length 11111 := by
  rw [h.mappings]
  exact h.pool p

theorem Layout.poolAgrees (h : Layout iface past t) : PoolAgrees t := by
  refine ⟨fun p hlo hhi => ?_, h.assigned_iff, fun entry hmem hnone => ?_⟩
  · have hentry := h.port_get_eq_htons hhi
    rw [h.assigned_iff p]
    constructor
    · intro hset
      obtain ⟨-, hlt⟩ := hset
      have hk : p.toNat - natPortMin < t.mappings.length := by omega
      refine ⟨⟨p.toNat - natPortMin, hk⟩, (hentry _).mpr ⟨?_, ?_⟩, fun k hkp => ?_⟩
      · change p.toNat - natPortMin < 11111
        omega
      · change natPortMin + (p.toNat - natPortMin) = p.toNat
        omega
      · have hval := ((hentry k).mp hkp).2
        apply Fin.ext
        change k.val = p.toNat - natPortMin
        omega
    · intro hunique
      obtain ⟨k, hkp, -⟩ := hunique
      obtain ⟨hsize, hval⟩ := (hentry k).mp hkp
      have hkm := k.isLt
      omega
  · obtain ⟨k, hk, rfl⟩ := List.getElem_of_mem hmem
    have hport : t.mappings[k].externalPort = nthPort k := h.port_get ⟨k, hk⟩
    rw [hport] at hnone ⊢
    rcases Nat.lt_or_ge k poolSize with hsize | hsize
    · have hset := (h.assigned_iff (UInt16.ofNat (natPortMin + k))).mpr (by
        rw [toNat_nthPort hsize]
        change k < 11111 at hsize
        omega)
      exact absurd (nthPort_of_lt hsize) (hnone _ hset)
    · exact nthPort_of_le hsize

end Layout

/-- **The port pool and the table agree** in every state of a run whose clock does not go back. -/
theorem pool_agrees_with_table {ifaceList : List IfaceInfo} {t₀ : NatTable}
    {es pre post : List Event} (hinit : natTableInit ifaceList = some t₀)
    (hclock : Nondecreasing Event.readings es) (hsplit : es = pre ++ post) :
    PoolAgrees (run next t₀ pre) := by
  obtain ⟨hbuckets, hpool⟩ := natTableInit_spec hinit
  exact (layout_run hbuckets hpool hclock pre post hsplit).poolAgrees

theorem pool_agrees_with_table_natTopoRun : PoolAgrees (run next natTopo natTopoRun) :=
  pool_agrees_with_table natTableInit_natTopo (by decide) (List.append_nil natTopoRun).symm

/-! ### What a sweep gives back -/

/-- A port of the range is assigned exactly when some mapping has it. -/
def PortsAgree (t : NatTable) : Prop :=
  ∀ p : UInt16, natPortMin ≤ p.toNat → p.toNat ≤ natPortMax →
    (t.assignedPorts p ≠ 0 ↔ ∃ entry ∈ t.mappings, entry.externalPort = htons p)

/-- Of every port of the range that some mapping has: a mapping that is due has the port of the
exchanged bytes exactly when no mapping that stays has the port itself. -/
def DueSwapped (t : NatTable) (now : Nat) : Prop :=
  ∀ p : UInt16, natPortMin ≤ p.toNat → p.toNat ≤ natPortMax →
    (∃ entry ∈ t.mappings, entry.externalPort = htons p) →
    ((∃ entry ∈ t.mappings, due now entry = true ∧ entry.externalPort = p) ↔
      ¬ ∃ entry ∈ t.mappings, due now entry = false ∧ entry.externalPort = htons p)

theorem Layout.portsAgree {iface : IfaceInfo} {past : List Event} {t : NatTable}
    (h : Layout iface past t) : PortsAgree t := by
  intro p hlo hhi
  constructor
  · intro hset
    obtain ⟨k, hport, -⟩ := (h.poolAgrees.cell p hlo hhi).mp hset
    exact ⟨_, List.get_mem _ k, hport⟩
  · intro hsome
    obtain ⟨entry, hmem, hport⟩ := hsome
    obtain ⟨k, rfl⟩ := List.get_of_mem hmem
    obtain ⟨hsize, hval⟩ := (h.port_get_eq_htons hhi k).mp hport
    have hk := k.isLt
    rw [h.assigned_iff p]
    omega

section Sweep

variable {t : NatTable} {now : Nat}

theorem exists_mapping_natTimeout {port : UInt16} :
    (∃ entry ∈ (natTimeout t now).mappings, entry.externalPort = port) ↔
      ∃ entry ∈ t.mappings, due now entry = false ∧ entry.externalPort = port := by
  simp only [natTimeout, mappings_sweepTable, List.mem_filter, Bool.not_eq_true', and_assoc]

theorem assignedPorts_natTimeout {p : UInt16} (hlo : natPortMin ≤ p.toNat)
    (hhi : p.toNat ≤ natPortMax) :
    (natTimeout t now).assignedPorts p ≠ 0 ↔
      t.assignedPorts p ≠ 0 ∧
        ¬ ∃ entry ∈ t.mappings, due now entry = true ∧ entry.externalPort = p := by
  rw [natTimeout, assignedPorts_sweepTable, ← mem_freed]
  by_cases hfreed : p ∈ freed (due now) t.mappings
  · simp [hfreed, hlo, hhi]
  · simp [hfreed]

/-- **When a sweep gives back the right ports**, of any table whose pool agrees with its mappings. -/
theorem portsAgree_natTimeout_iff (h : PortsAgree t) (now : Nat) :
    PortsAgree (natTimeout t now) ↔ DueSwapped t now := by
  refine forall_congr' fun p => forall_congr' fun hlo => forall_congr' fun hhi => ?_
  rw [assignedPorts_natTimeout hlo hhi, exists_mapping_natTimeout, h p hlo hhi]
  have hkept : (∃ entry ∈ t.mappings, due now entry = false ∧ entry.externalPort = htons p) →
      ∃ entry ∈ t.mappings, entry.externalPort = htons p := by
    intro hex
    obtain ⟨entry, hmem, -, hport⟩ := hex
    exact ⟨entry, hmem, hport⟩
  by_cases hused : ∃ entry ∈ t.mappings, entry.externalPort = htons p
  · rw [and_iff_right hused, forall_prop_of_true hused]
    exact ⟨fun hfree => by rw [← hfree, not_not], fun hfree => by rw [hfree, not_not]⟩
  · exact iff_of_true (iff_of_false (fun hboth => hused hboth.1) fun hk => hused (hkept hk))
      fun hsome => absurd hsome hused

end Sweep

/-- At 20 everything is due. -/
theorem portsAgree_natTimeout_iff_natTopoRun :
    (∃ entry ∈ (run next natTopo (natTopoRun.take 3)).natMappingList firstBucket,
      due 20 entry = true) ∧
    (PortsAgree (natTimeout (run next natTopo (natTopoRun.take 3)) 20) ↔
      DueSwapped (run next natTopo (natTopoRun.take 3)) 20) :=
  ⟨by decide +kernel, portsAgree_natTimeout_iff (layout_run (fun _ => rfl) (fun _ => rfl)
    (by decide) (natTopoRun.take 3) [.sweep 500] rfl).portsAgree 20⟩

/-- One flow, and a sweep after the clock has been set back by 100 seconds: its port is 12345,
stored as 14640. -/
theorem removed_port_stays_assigned :
    PortsAgree (run next natTopo
      [.packet natTopoIfaces.1 .dirOut (Packet.bare hostH1 hostH2) 200 200]) ∧
    ¬ PortsAgree (natTimeout (run next natTopo
      [.packet natTopoIfaces.1 .dirOut (Packet.bare hostH1 hostH2) 200 200]) 100) := by
  refine ⟨(layout_run (fun _ => rfl) (fun _ => rfl) (by decide) [_] [] rfl).portsAgree, fun h => ?_⟩
  have hcell := h 12345 (by decide) (by decide)
  rw [assignedPorts_natTimeout (by decide) (by decide), exists_mapping_natTimeout] at hcell
  revert hcell
  decide +kernel

end MiniNet.NatStack.NatC
