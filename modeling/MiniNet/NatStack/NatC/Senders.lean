import MiniNet.Lib.Numbered
import MiniNet.NatStack.NatC.Refinement
import MiniNet.NatStack.NatC.Layout

/-!
# What `nat.c` does, without conditions on the packets

In any run whose clock does not go back `nat.c` is a list of endpoints, in which one comes again for
every packet from outside that it sent to a port nobody had. A packet that makes a new place in the
list is sent on as it came, inbound or outbound; all others are translated by the first place that
fits.
-/

namespace MiniNet.NatStack.NatC

open Lib

namespace Senders

/-- The list after an event, and what is sent on. -/
def step (externalIp : UInt32) (S : List Endpoint) : Event → List Endpoint × Option Packet
  | .packet _ dir p _ _ =>
    if dir = .dirIn then
      match (numbered nthPort S).find? fun x => x.2 = p.dest.2 with
      | some x => (S, some (p.withDest x.1))
      | none => (S ++ [p.source], some p.withChecksums)
    else
      match (numbered nthPort S).find? fun x => x.1 = p.source with
      | some x => (S, some (p.withSource (externalIp, x.2)))
      | none => (S ++ [p.source], some p.withChecksums)
  | .sweep _ => (S, none)

end Senders

def endpointAndPort (entry : NatMapping) : Endpoint × UInt16 := (entry.internal, entry.externalPort)

/-- The inner endpoints of the entries. -/
def holders (t : NatTable) : List Endpoint := (entries t).map (·.internal)

section Step

variable {iface : IfaceInfo} {past : List Event} {t : NatTable}

theorem Layout.numbered_holders (h : Layout iface past t) :
    numbered nthPort (holders t) = (entries t).map endpointAndPort := by
  apply List.ext_getElem?
  intro k
  rw [getElem?_numbered, holders, List.getElem?_map, List.getElem?_map, Option.map_map]
  cases hk : (entries t)[k]? with
  | none => rfl
  | some entry =>
    have hlt := (List.getElem?_eq_some_iff.mp hk).1
    have hports := congrArg (fun l => l[k]?) h.ports
    simp only [List.getElem?_map, hk, List.getElem?_range hlt, Option.map_some,
      Option.some.injEq] at hports
    simp [endpointAndPort, hports]

theorem Layout.find?_endpoint (h : Layout iface past t) (e : Endpoint) :
    (natLookupInternal (entries t) e.1 e.2).map endpointAndPort
      = (numbered nthPort (holders t)).find? fun x => x.1 = e := by
  rw [h.numbered_holders, List.find?_map, natLookupInternal]
  congr 2
  funext entry
  exact decide_eq_decide.mpr (Prod.ext_iff (x := entry.internal) (y := e)).symm

theorem Layout.find?_port (h : Layout iface past t) (port : UInt16) :
    (natLookupExternal (entries t) port).map endpointAndPort
      = (numbered nthPort (holders t)).find? fun x => x.2 = port := by
  rw [h.numbered_holders, List.find?_map, natLookupExternal]
  rfl

theorem holders_insert (t : NatTable) (e : Endpoint) (now : Nat) :
    holders (natInsertMapping t firstBucket e.1 e.2 now).2 = holders t ++ [e] := by
  rw [holders, entries_insert, List.map_append, List.map_singleton, inserted_internal, holders]

variable {inIface : IfaceInfo} {dir : PacketDir} {p : Packet} {now later : Nat}

/-- A packet by what the lookup finds for it. -/
theorem step_of_none (h : natGetMappingFromPacket t p dir = none) :
    holders (next t (.packet inIface dir p now later)) = holders t ++ [p.source] ∧
      (step t (.packet inIface dir p now later)).2 = some p.withChecksums := by
  rw [next_packet, step, doTranslation_of_none h]
  exact ⟨holders_insert t p.source now, rfl⟩

theorem Layout.step_packet (h : Layout iface past t) :
    Senders.step (htonl iface.ip) (holders t) (.packet inIface dir p now later)
      = (holders (next t (.packet inIface dir p now later)),
        (step t (.packet inIface dir p now later)).2) := by
  have hlookup := h.lookup p dir
  by_cases hdir : dir = .dirIn
  · subst hdir
    have hfind := h.find?_port p.dest.2
    rw [if_pos rfl] at hlookup
    rw [Senders.step, if_pos rfl, ← hfind]
    cases hentry : natLookupExternal (entries t) p.dest.2 with
    | none =>
      obtain ⟨hnext, hsent⟩ := step_of_none (hlookup.trans hentry)
      rw [hnext, hsent]
      rfl
    | some entry =>
      rw [next_packet, step, doTranslation_in (hlookup.trans hentry)]
      rfl
  · have hfind := h.find?_endpoint p.source
    rw [if_neg hdir] at hlookup
    rw [Senders.step, if_neg hdir, ← hfind]
    cases hentry : natLookupInternal (entries t) p.source.1 p.source.2 with
    | none =>
      obtain ⟨hnext, hsent⟩ := step_of_none (hlookup.trans hentry)
      rw [hnext, hsent]
      rfl
    | some entry =>
      rw [next_packet, step, doTranslation_out hdir (hlookup.trans hentry), NatTable.natIp,
        h.externalIface, IfaceInfo.inetAddr_ipStr]
      rfl

/-- What the list says of an event is what happens. -/
theorem Layout.step_eq (h : Layout iface past t) {e : Event}
    (hclock : ∀ past' ∈ past.flatMap Event.readings, ∀ now ∈ e.readings, past' ≤ now) :
    Senders.step (htonl iface.ip) (holders t) e = (holders (next t e), (step t e).2) := by
  cases e with
  | sweep now =>
    rw [next_sweep, h.natTimeout fun past' hpast => hclock past' hpast now
      (List.mem_singleton_self now)]
    rfl
  | packet inIface dir p now later => exact h.step_packet

end Step

section Run

variable {t₀ : NatTable} {es : List Event} (hbuckets : ∀ b, t₀.natMappingList b = [])
  (hpool : ∀ p, t₀.assignedPorts p = 0) (hclock : Nondecreasing Event.readings es)
include hbuckets hpool hclock

/-- The endpoints of the table are the list. -/
theorem holders_run : ∀ pre post, es = pre ++ post → holders (run next t₀ pre)
    = run (nextOf (Senders.step (htonl t₀.externalIface.ip))) [] pre := by
  apply run_induction next
    (P := fun pre t => holders t = run (nextOf (Senders.step (htonl t₀.externalIface.ip))) [] pre)
  · rw [holders, entries, hbuckets]
    rfl
  · intro pre e post hsplit hpre
    have hstep := (layout_run hbuckets hpool hclock pre _ hsplit).step_eq (e := e)
      fun _ hpast _ => (hsplit ▸ hclock).le_of_mem hpast
    rw [run_snoc, ← hpre, nextOf, hstep]

end Run

/-- **What `nat.c` does**, in every run whose clock does not go back. -/
theorem runs_as_list {ifaceList : List IfaceInfo} {t₀ : NatTable} {es : List Event}
    (hinit : natTableInit ifaceList = some t₀) (hclock : Nondecreasing Event.readings es) :
    outputs step t₀ es = outputs (Senders.step (htonl t₀.externalIface.ip)) [] es := by
  obtain ⟨hbuckets, hpool⟩ := natTableInit_spec hinit
  apply outputs_eq
  intro pre e post hsplit
  have hstep := (layout_run hbuckets hpool hclock pre _ hsplit).step_eq (e := e)
    fun _ hpast _ => (hsplit ▸ hclock).le_of_mem hpast
  rw [← holders_run hbuckets hpool hclock pre _ hsplit, hstep]
  rfl

theorem runs_as_list_natTopoRun : outputs step natTopo natTopoRun
    = outputs (Senders.step (htonl natTopo.externalIface.ip)) [] natTopoRun :=
  runs_as_list natTableInit_natTopo (by decide)

/-! ### Answers -/

/-- Whom a packet from outside for this port is sent on to. -/
def holderOf (t : NatTable) (port : UInt16) : Option Endpoint :=
  (natLookupExternal t.mappings port).map (·.internal)

theorem nthPort_ne_last {k : Nat} (hk : k < poolSize) : nthPort k ≠ 0xffff := by
  intro hlast
  rw [nthPort_of_lt hk, show (0xffff : UInt16) = htons 0xffff by decide, htons_injective.eq_iff,
    ← UInt16.toNat_inj, toNat_nthPort hk] at hlast
  have hnumber : (0xffff : UInt16).toNat = 65535 := rfl
  rw [hnumber] at hlast
  simp only [poolSize, natPortMax, natPortMin] at hk hlast
  omega

/-- **Whose answers come back**: a packet from outside for the port of an endpoint is sent on to it
exactly if no more than `11111` entries were made before its first. -/
theorem answered_from_list_iff {ifaceList : List IfaceInfo} {t₀ : NatTable} {es : List Event}
    {e : Endpoint} (hinit : natTableInit ifaceList = some t₀)
    (hclock : Nondecreasing Event.readings es) (he : HasMapping (run next t₀ es) e) :
    ∃ port, portOf (run next t₀ es) e = some port ∧
      (holderOf (run next t₀ es) port = some e ↔
        (run next t₀ es).mappings.findIdx (fun entry => entry.internal = e) ≤ 11111) := by
  obtain ⟨hbuckets, hpool⟩ := natTableInit_spec hinit
  have h := layout_run hbuckets hpool hclock es [] (List.append_nil es).symm
  generalize run next t₀ es = t at he h
  have hmem : e ∈ holders t := by
    obtain ⟨entry, hentry, rfl⟩ := he
    rw [h.mappings] at hentry
    exact List.mem_map.mpr ⟨entry, hentry, rfl⟩
  have hport := congrArg (Option.map Prod.snd) (h.find?_endpoint e)
  rw [find?_key, if_pos hmem, Option.map_some, Option.map_map, ← h.mappings] at hport
  refine ⟨_, hport, ?_⟩
  have hback := find?_value_back (fun _ hj _ hk => nthPort_injective hj hk)
    (fun k => nthPort_of_le (k := k)) (fun k => nthPort_ne_last (k := k)) hmem
  rw [← h.find?_port, Option.map_map, ← h.mappings] at hback
  rw [holderOf]
  refine Iff.trans hback ?_
  change (holders t).findIdx (fun x => decide (x = e)) ≤ poolSize ↔ _
  rw [holders, List.findIdx_map, h.mappings]
  rfl

theorem answered_from_list_iff_natTopoRun :
    ∃ port, portOf (run next natTopo natTopoRun) hostH1 = some port ∧
    (holderOf (run next natTopo natTopoRun) port = some hostH1 ↔
      (run next natTopo natTopoRun).mappings.findIdx (fun entry => entry.internal = hostH1)
        ≤ 11111) :=
  answered_from_list_iff natTableInit_natTopo (by decide)
    (hasMapping_of_mem firstBucket (by decide +kernel))

end MiniNet.NatStack.NatC
