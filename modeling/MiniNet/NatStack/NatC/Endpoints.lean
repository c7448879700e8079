import MiniNet.NatStack.NatC.Code

/-!
# Mappings of one endpoint in `nat.c`

A new mapping is always for the source of the packet. An outbound packet gets one after a lookup by
its source has failed; an inbound packet gets one after a lookup by its destination port has failed,
and that says nothing of its source. So outbound packets and sweeps keep the endpoints of the table
apart, and an inbound packet does unless its source is in the table and its port is not.
-/

namespace MiniNet.NatStack.NatC

open Lib

def OneMappingEach (t : NatTable) : Prop := (t.mappings.map NatMapping.internal).Nodup

instance (t : NatTable) : Decidable (OneMappingEach t) := inferInstanceAs (Decidable (List.Nodup _))

/-- If the event is an inbound packet for a port of no mapping, its source has no mapping. -/
def UnmatchedIsNew (t : NatTable) : Event → Prop
  | .packet _ dir p _ _ =>
    dir = .dirIn → (∀ entry ∈ t.mappings, entry.externalPort ≠ p.dest.2) → ¬ HasMapping t p.source
  | .sweep _ => True

section Step

variable {t : NatTable}

theorem hasMapping_iff {e : Endpoint} : HasMapping t e ↔ e ∈ t.mappings.map NatMapping.internal :=
  List.mem_map.symm

theorem oneMappingEach_insert (e : Endpoint) (now : Nat) :
    OneMappingEach (natInsertMapping t firstBucket e.1 e.2 now).2 ↔
      ¬ HasMapping t e ∧ OneMappingEach t := by
  rw [OneMappingEach, ((mappings_insert_perm t e.1 e.2 now).map _).nodup_iff, List.map_cons,
    List.nodup_cons, inserted_internal, hasMapping_iff, OneMappingEach]

theorem oneMappingEach_natTimeout (h : OneMappingEach t) (now : Nat) :
    OneMappingEach (natTimeout t now) := by
  rw [OneMappingEach, natTimeout, mappings_sweepTable]
  exact h.sublist (List.filter_sublist.map _)

theorem oneMappingEach_next (t : NatTable) (e : Event) (h : OneMappingEach t) :
    OneMappingEach (next t e) ↔ UnmatchedIsNew t e := by
  cases e with
  | sweep now =>
    rw [next_sweep]
    exact iff_of_true (oneMappingEach_natTimeout h now) trivial
  | packet iface dir p now later =>
    rw [next_packet, UnmatchedIsNew]
    cases hlookup : natGetMappingFromPacket t p dir with
    | some entry =>
      rw [doTranslation_fst_of_some hlookup]
      refine iff_of_true h fun hdir hmiss => ?_
      rw [natGetMappingFromPacket_eq, if_pos hdir, natLookupExternal_none.mpr hmiss] at hlookup
      cases hlookup
    | none =>
      rw [doTranslation_of_none hlookup, oneMappingEach_insert, and_iff_left h]
      rw [natGetMappingFromPacket_eq] at hlookup
      by_cases hdir : dir = .dirIn
      · rw [if_pos hdir] at hlookup
        simp only [hdir, forall_const, forall_prop_of_true (natLookupExternal_none.mp hlookup)]
      · rw [if_neg hdir] at hlookup
        refine iff_of_true (fun hknown => ?_) fun hin => absurd hin hdir
        obtain ⟨entry, hmem, hinternal⟩ := hknown
        exact natLookupInternal_none.mp hlookup entry hmem hinternal

end Step

/-- **When every endpoint has at most one mapping**, in all states of a run from the start, with any
packets and any clock readings: when no inbound packet without a mapping comes from an endpoint that
has one. -/
theorem one_mapping_each_iff {ifaceList : List IfaceInfo} {t₀ : NatTable}
    (hinit : natTableInit ifaceList = some t₀) (es : List Event) :
    (∀ pre post, es = pre ++ post → OneMappingEach (run next t₀ pre)) ↔
      AtEachStep next UnmatchedIsNew t₀ es := by
  refine invariant_iff_atEachStep next oneMappingEach_next ?_ es
  rw [OneMappingEach, NatTable.mappings_eq_nil (natTableInit_spec hinit).1]
  exact List.nodup_nil

theorem one_mapping_each_iff_natTopoRun :
    (∀ pre post, natTopoRun = pre ++ post → OneMappingEach (run next natTopo pre)) ↔
      AtEachStep next UnmatchedIsNew natTopo natTopoRun :=
  one_mapping_each_iff natTableInit_natTopo natTopoRun

/-- Two segments of one connection from outside, to a port without a mapping. -/
def strayRun : List Event :=
  [ .packet natTopoIfaces.2 .dirIn (Packet.bare hostH2 (natTopo.natIp, htons 443)) 100 100,
    .packet natTopoIfaces.2 .dirIn (Packet.bare hostH2 (natTopo.natIp, htons 443)) 101 101 ]

/-- Each gets a mapping of its own. -/
theorem stray_segments_share_endpoint :
    natTableInit [natTopoIfaces.1, natTopoIfaces.2] = some natTopo ∧
    getPacketDirection natTopo (Packet.bare hostH2 (natTopo.natIp, htons 443)) = .dirIn ∧
    ¬ OneMappingEach (run next natTopo strayRun) := by
  exact ⟨natTableInit_natTopo, by decide +kernel, by decide +kernel⟩

end MiniNet.NatStack.NatC
