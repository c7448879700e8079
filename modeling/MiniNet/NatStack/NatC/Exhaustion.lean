import MiniNet.NatStack.NatC.Layout

/-!
# `nat.c` without a free port

`assign_external_port` says that it has found no port by returning `(u16)-1`, and its one caller does
not look: the value goes into the new mapping as any other port would. So a packet of a new flow is
handled with a full pool as with any pool, and all mappings made from then on have the same port.
-/

namespace MiniNet.NatStack.NatC

open Lib

/-- The scan of `assign_external_port` finds no free port. -/
def PoolExhausted (t : NatTable) : Prop := scanPorts t (natPortMax - natPortMin) = none

/-- The event leaves the mappings and the pool as they are, and nothing is sent on. -/
structure FailsAtomically (t : NatTable) (e : Event) : Prop where
  mappings : (step t e).1.mappings = t.mappings
  pool : (step t e).1.assignedPorts = t.assignedPorts
  silent : (step t e).2 = none

section Step

variable {t : NatTable}

theorem assignExternalPort_of_exhausted (h : PoolExhausted t) :
    assignExternalPort t = (0xffff, t) := by
  rw [assignExternalPort, h]

/-- A new flow makes the table grow by its mapping. -/
theorem mappings_step_perm {p : Packet} {dir : PacketDir}
    (hmiss : natGetMappingFromPacket t p dir = none) (iface : IfaceInfo) (now later : Nat) :
    (step t (.packet iface dir p now later)).1.mappings.Perm
      (inserted t p.source.1 p.source.2 now :: t.mappings) := by
  have hstep : (step t (.packet iface dir p now later)).1
      = (natInsertMapping t firstBucket p.source.1 p.source.2 now).2 := by
    rw [step, doTranslation_of_none hmiss]
  rw [hstep]
  exact mappings_insert_perm t _ _ now

/-- A packet without a mapping never fails atomically, whether there is a port for it or not. -/
theorem not_failsAtomically {p : Packet} {dir : PacketDir}
    (hmiss : natGetMappingFromPacket t p dir = none) (iface : IfaceInfo) (now later : Nat) :
    ¬ FailsAtomically t (.packet iface dir p now later) := by
  intro h
  have hlength := (mappings_step_perm hmiss iface now later).length_eq
  rw [h.mappings, List.length_cons] at hlength
  omega

end Step

/-- **A full pool is never an atomic failure.** A packet without a mapping is given one with the port
that stands for the failure, which may be the port of others already, and is sent on. -/
theorem exhaustion_never_atomic {t : NatTable} {p : Packet} {dir : PacketDir}
    (hfull : PoolExhausted t) (hmiss : natGetMappingFromPacket t p dir = none) (iface : IfaceInfo)
    (now later : Nat) :
    ¬ FailsAtomically t (.packet iface dir p now later) ∧
    (∃ entry, entry.internal = p.source ∧ entry.externalPort = 0xffff ∧
      (step t (.packet iface dir p now later)).1.mappings.Perm (entry :: t.mappings)) ∧
    (step t (.packet iface dir p now later)).2 = some p.withChecksums := by
  refine ⟨not_failsAtomically hmiss iface now later, ⟨inserted t p.source.1 p.source.2 now, rfl, ?_,
    mappings_step_perm hmiss iface now later⟩, ?_⟩
  · rw [inserted_externalPort, assignExternalPort_of_exhausted hfull]
    change htons 0xffff = 0xffff
    decide
  · rw [step, doTranslation_of_none hmiss]

/-! ### The last port

`nat.h` names `NAT_PORT_MAX` the upper bound of the ports used and `free_port` takes it, but the scan
stops before it. -/

/-- A free port of the range is found and marked, and there is a failure just if there is none. -/
structure AllocatesFully (t : NatTable) : Prop where
  success : (∃ port, InPortRange port ∧ t.assignedPorts port = 0) →
    InPortRange (assignExternalPort t).1 ∧ t.assignedPorts (assignExternalPort t).1 = 0 ∧
      (assignExternalPort t).2.assignedPorts =
        Function.update t.assignedPorts (assignExternalPort t).1 1
  failure : ((assignExternalPort t).1 = 0xffff ∧
      (assignExternalPort t).2.assignedPorts = t.assignedPorts) ↔
    ∀ port, InPortRange port → t.assignedPorts port ≠ 0

theorem not_inPortRange_failure : ¬ InPortRange 0xffff := by
  intro h
  exact absurd h.2 (by decide)

/-- Only with `NAT_PORT_MAX` alone free is a port not found. -/
theorem allocatesFully_iff (t : NatTable) :
    AllocatesFully t ↔ t.assignedPorts 23456 ≠ 0 ∨
      ∃ port : UInt16, natPortMin ≤ port.toNat ∧ port.toNat < natPortMax ∧
        t.assignedPorts port = 0 := by
  constructor
  · intro h
    rcases assignExternalPort_cases t with ⟨port, hleast, -⟩ | ⟨-, hassign⟩
    · exact .inr ⟨port, hleast.lo, hleast.hi, hleast.free⟩
    · refine .inl fun hfree => not_inPortRange_failure ?_
      have hsuccess := h.success ⟨23456, ⟨by decide, by decide⟩, hfree⟩
      rw [hassign] at hsuccess
      exact hsuccess.1
  · intro h
    rcases assignExternalPort_cases t with ⟨port, hleast, hassign⟩ | ⟨hbelow, hassign⟩
    · have hrange := hleast.inPortRange (by decide)
      refine ⟨fun _ => ?_, ?_⟩
      · rw [hassign]
        exact ⟨hrange, hleast.free, rfl⟩
      · rw [hassign]
        refine ⟨fun hfail => ?_, fun hfull => absurd hleast.free (hfull port hrange)⟩
        exact absurd (hfail.1 ▸ hrange) not_inPortRange_failure
    · have hlast : t.assignedPorts 23456 ≠ 0 :=
        h.resolve_right fun ⟨port, hlo, hhi, hfree⟩ => hbelow port hlo hhi hfree
      have hfull : ∀ port, InPortRange port → t.assignedPorts port ≠ 0 := by
        intro port hport
        rcases Nat.lt_or_ge port.toNat natPortMax with hlt | hge
        · exact hbelow port hport.1 hlt
        · have hmax : port = 23456 := UInt16.toNat_inj.mp (Nat.le_antisymm hport.2 hge)
          rwa [hmax]
      refine ⟨fun ⟨port, hport, hfree⟩ => absurd hfree (hfull port hport), ?_⟩
      rw [hassign]
      exact ⟨fun _ => hfull, fun _ => ⟨rfl, rfl⟩⟩

/-- `NAT_PORT_MAX` is free and nothing else. -/
def lastFree : NatTable :=
  { natTopo with assignedPorts := fun port => if port = 23456 then 0 else 1 }

theorem not_allocatesFully : ¬ AllocatesFully lastFree := by
  intro h
  have hsuccess := h.success ⟨23456, ⟨by decide, by decide⟩, rfl⟩
  rcases assignExternalPort_cases lastFree with ⟨port, hleast, -⟩ | ⟨-, hassign⟩
  · have hfree : (if port = 23456 then (0 : UInt8) else 1) = 0 := hleast.free
    have hmax : port = 23456 := by
      by_contra hne
      rw [if_neg hne] at hfree
      exact absurd hfree (by decide)
    exact absurd (hmax ▸ hleast.hi) (by decide)
  · rw [hassign] at hsuccess
    exact not_inPortRange_failure hsuccess.1

/-- In a run the last port is never handed out, so a pool that is used up always has it free. -/
theorem Layout.last_port_lost {iface : IfaceInfo} {past : List Event} {t : NatTable}
    (h : Layout iface past t) (hfull : PoolExhausted t) : ¬ AllocatesFully t := by
  intro hallocates
  have hfree : t.assignedPorts 23456 = 0 := by
    by_contra hset
    have hlt := ((h.pool 23456).mp hset).2
    change 23456 < 12345 + min _ 11111 at hlt
    omega
  have hsuccess := hallocates.success ⟨23456, ⟨by decide, by decide⟩, hfree⟩
  rw [assignExternalPort_of_exhausted hfull] at hsuccess
  exact not_inPortRange_failure hsuccess.1

/-! ### A run that uses up the pool -/

/-- The first segment of the `i`-th flow of a host. -/
def flow (i : Nat) : Event :=
  .packet natTopoIfaces.1 .dirOut (Packet.bare (hostH1.1, UInt16.ofNat i) hostH2) 100 100

def flows (n : Nat) : List Event := (List.range n).map flow

theorem nondecreasing_flows (n : Nat) : Nondecreasing Event.readings (flows n) := by
  have hreading : ∀ now ∈ (flows n).flatMap Event.readings, now = 100 := by
    intro now hnow
    obtain ⟨e, he, hnow⟩ := List.mem_flatMap.mp hnow
    obtain ⟨i, -, rfl⟩ := List.mem_map.mp he
    simpa [flow, Event.readings] using hnow
  apply List.pairwise_of_forall_mem_list
  intro now hnow later hlater
  rw [hreading now hnow, hreading later hlater]

theorem layout_flows (n : Nat) :
    Layout natTopo.externalIface (flows n) (run next natTopo (flows n)) :=
  layout_run (fun _ => rfl) (fun _ => rfl) (nondecreasing_flows n) (flows n) []
    (List.append_nil _).symm

theorem run_flows_succ (n : Nat) :
    run next natTopo (flows (n + 1)) = next (run next natTopo (flows n)) (flow n) := by
  rw [flows, List.range_succ, List.map_append, List.map_singleton, run_snoc, flows]

/-- A host that has sent from the ports below `n` has no mapping for port `n`, -/
theorem unmatched_flow {t : NatTable} {n : Nat} (hn : n < 65536)
    (hinternal : t.mappings.map NatMapping.internal =
      (List.range n).map fun i => (hostH1.1, UInt16.ofNat i)) :
    natGetMappingFromPacket t (Packet.bare (hostH1.1, UInt16.ofNat n) hostH2) .dirOut = none := by
  rw [natGetMappingFromPacket_out PacketDir.dirOut_ne_dirIn, Packet.source_bare,
    natLookupInternal_none]
  intro entry hentry heq
  have hmem := List.mem_map_of_mem (f := NatMapping.internal) hentry
  rw [hinternal, heq, List.mem_map] at hmem
  obtain ⟨i, hi, hsame⟩ := hmem
  have hport := congrArg UInt16.toNat (Prod.mk.inj hsame).2
  rw [List.mem_range] at hi
  rw [UInt16.toNat_ofNat', UInt16.toNat_ofNat'] at hport
  omega

/-- Each of the flows gets its mapping, in the order in which they come. -/
theorem internal_flows {n : Nat} (hn : n ≤ 65536) :
    (run next natTopo (flows n)).mappings.map NatMapping.internal =
      (List.range n).map fun i => (hostH1.1, UInt16.ofNat i) := by
  induction n with
  | zero =>
    rw [(layout_flows 0).mappings]
    rfl
  | succ n ih =>
    have hmappings := ih (Nat.le_of_succ_le hn)
    rw [(layout_flows (n + 1)).mappings, run_flows_succ, flow, next_packet,
      doTranslation_of_none (unmatched_flow hn hmappings), entries_insert,
      ← (layout_flows n).mappings, List.map_append, hmappings, List.map_singleton,
      inserted_internal, Packet.source_bare, List.range_succ, List.map_append, List.map_singleton]

theorem length_flows {n : Nat} (hn : n ≤ 65536) :
    (run next natTopo (flows n)).mappings.length = n := by
  have hlength := congrArg List.length (internal_flows hn)
  rwa [List.length_map, List.length_map, List.length_range] at hlength

theorem poolExhausted_flows {n : Nat} (hfull : poolSize ≤ n) (hn : n ≤ 65536) :
    PoolExhausted (run next natTopo (flows n)) := by
  have hlayout := layout_flows n
  have hlength := length_flows hn
  rw [hlayout.mappings] at hlength
  rw [PoolExhausted, ← poolSize, hlayout.scan, hlength, if_neg (Nat.not_lt.mpr hfull)]

theorem exists_mapping_flows {n k : Nat} (hn : n ≤ 65536) (hk : k < n) :
    ∃ entry ∈ (run next natTopo (flows n)).mappings,
      entry.internal = (hostH1.1, UInt16.ofNat k) ∧ entry.externalPort = nthPort k := by
  have hlt : k < (run next natTopo (flows n)).mappings.length := hk.trans_eq (length_flows hn).symm
  refine ⟨_, List.getElem_mem hlt, ?_, (layout_flows n).port_get ⟨k, hlt⟩⟩
  have hinternal := congrArg (fun l => l[k]?) (internal_flows hn)
  simpa only [List.getElem?_map, List.getElem?_eq_getElem hlt, List.getElem?_range hk,
    Option.map_some, Option.some.injEq] using hinternal

theorem exhaustion_never_atomic_flows :
    ¬ FailsAtomically (run next natTopo (flows 11111)) (flow 11111) ∧
    (∃ entry, entry.internal = (Packet.bare (hostH1.1, 11111) hostH2).source ∧
      entry.externalPort = 0xffff ∧
      (step (run next natTopo (flows 11111)) (flow 11111)).1.mappings.Perm
        (entry :: (run next natTopo (flows 11111)).mappings)) ∧
    (step (run next natTopo (flows 11111)) (flow 11111)).2
      = some (Packet.bare (hostH1.1, 11111) hostH2).withChecksums :=
  exhaustion_never_atomic (poolExhausted_flows (Nat.le_refl _) (by decide))
    (unmatched_flow (by decide) (internal_flows (by decide))) natTopoIfaces.1 100 100

/-- After 11111 flows the pool is used up. The next flow is translated all the same, and with one
more two endpoints have the port 0xffff. -/
theorem flows_share_failure_value :
    natTableInit [natTopoIfaces.1, natTopoIfaces.2] = some natTopo ∧
    PoolExhausted (run next natTopo (flows 11111)) ∧
    ¬ FailsAtomically (run next natTopo (flows 11111)) (flow 11111) ∧
    ∃ x ∈ (run next natTopo (flows 11113)).mappings,
      ∃ y ∈ (run next natTopo (flows 11113)).mappings,
        x.internal ≠ y.internal ∧ x.externalPort = 0xffff ∧ y.externalPort = 0xffff := by
  refine ⟨natTableInit_natTopo, poolExhausted_flows (Nat.le_refl _) (by decide),
    not_failsAtomically (unmatched_flow (by decide) (internal_flows (by decide))) _ _ _, ?_⟩
  obtain ⟨x, hx, hxinternal, hxport⟩ :=
    exists_mapping_flows (n := 11113) (k := 11111) (by decide) (by decide)
  obtain ⟨y, hy, hyinternal, hyport⟩ :=
    exists_mapping_flows (n := 11113) (k := 11112) (by decide) (by decide)
  rw [nthPort_of_le (by decide)] at hxport hyport
  refine ⟨x, hx, y, hy, ?_, hxport, hyport⟩
  rw [hxinternal, hyinternal]
  decide

end MiniNet.NatStack.NatC
