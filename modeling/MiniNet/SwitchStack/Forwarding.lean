import Mathlib.Data.List.Nodup
import MiniNet.SwitchStack.Code

/-!
# Where a frame goes

A frame for an unknown address goes to every interface but the one it came in on. A frame for a
known address goes to the interface of the entry, whatever that is: if both hosts are behind the
interface the frame came in on, it is sent back there. And any source address is learned, a group
address as well, so a group is flooded only as long as nobody has sent in its name.
-/

namespace MiniNet.SwitchStack

open Lib

section Copies

variable {ifaceList : List IfaceInfo} {t : MacPortMap} {iface : IfaceInfo} {p : Packet} {now : Int}

theorem sent_of_none (h : lookupPort t p.etherDhost = none) :
    (handlePacket ifaceList t iface p now).2 = broadcastPacket ifaceList iface p := by
  rw [handlePacket, h]

theorem sent_of_some {known : IfaceInfo} (h : lookupPort t p.etherDhost = some known) :
    (handlePacket ifaceList t iface p now).2 = [⟨known, p⟩] := by
  rw [handlePacket, h]

theorem mem_broadcastPacket {tx : Transmission} :
    tx ∈ broadcastPacket ifaceList iface p ↔
      tx.iface ∈ ifaceList ∧ tx.iface.index ≠ iface.index ∧ tx.packet = p := by
  simp only [broadcastPacket, List.mem_map, List.mem_filter, decide_eq_true_eq]
  constructor
  · intro hcopy
    obtain ⟨target, ⟨hmem, hindex⟩, rfl⟩ := hcopy
    exact ⟨hmem, hindex, rfl⟩
  · intro hcopy
    obtain ⟨hmem, hindex, rfl⟩ := hcopy
    exact ⟨tx.iface, ⟨hmem, hindex⟩, rfl⟩

theorem nodup_broadcastPacket (hifaces : ifaceList.Nodup) :
    ((broadcastPacket ifaceList iface p).map (·.iface)).Nodup := by
  have hcopies : (broadcastPacket ifaceList iface p).map (·.iface)
      = ifaceList.filter fun txIface => txIface.index ≠ iface.index := by
    simp [broadcastPacket, Function.comp_def]
  rw [hcopies]
  exact hifaces.filter _

end Copies

/-! ### No copy back and no second copy -/

/-- No copy goes out on the receiving interface, and on no other more than one. -/
structure NoReflection (iface : IfaceInfo) (sent : List Transmission) : Prop where
  back : ∀ tx ∈ sent, tx.iface ≠ iface
  once : (sent.map (·.iface)).Nodup

/-- The frame, if the event is one, is forwarded without reflection. -/
def ForwardsOnce (ifaceList : List IfaceInfo) (t : MacPortMap) : Event → Prop
  | .frame iface p now => NoReflection iface (handlePacket ifaceList t iface p now).2
  | .sweep _ => True

/-- The destination is not known at the interface the frame comes in on. -/
def NotBehindReceiver (t : MacPortMap) : Event → Prop
  | .frame iface p _ => lookupPort t p.etherDhost ≠ some iface
  | .sweep _ => True

theorem noReflection_iff {ifaceList : List IfaceInfo} (hifaces : ifaceList.Nodup) (t : MacPortMap)
    (e : Event) : ForwardsOnce ifaceList t e ↔ NotBehindReceiver t e := by
  cases e with
  | sweep now => exact Iff.rfl
  | frame iface p now =>
    rw [ForwardsOnce, NotBehindReceiver]
    cases hlookup : lookupPort t p.etherDhost with
    | none =>
      rw [sent_of_none hlookup]
      refine iff_of_true ⟨fun tx hmem heq => ?_, nodup_broadcastPacket hifaces⟩ nofun
      exact (mem_broadcastPacket.mp hmem).2.1 (congrArg IfaceInfo.index heq)
    | some known =>
      rw [sent_of_some hlookup]
      constructor
      · intro h heq
        exact h.back _ (List.mem_singleton_self _) (Option.some.inj heq)
      · intro h
        refine ⟨fun tx hmem heq => h ?_, List.nodup_singleton _⟩
        rw [← heq, List.mem_singleton.mp hmem]

/-- **When no frame is reflected or doubled**, in every run: when no frame of it comes in on the
interface that its destination is known at. -/
theorem forwards_once_iff {ifaceList : List IfaceInfo} (es : List Event)
    (hifaces : ifaceList.Nodup) :
    AtEachStep (next ifaceList) (ForwardsOnce ifaceList) initMacPortTable es ↔
      AtEachStep (next ifaceList) NotBehindReceiver initMacPortTable es :=
  forall_congr' fun _ => forall_congr' fun e => forall_congr' fun _ => forall_congr' fun _ =>
    noReflection_iff hifaces _ e

/-- Two hosts behind the first interface: the second sends to the first. -/
def sharedRun : List Event :=
  [ .frame ⟨3, 1⟩ (Packet.bare (hostMac 9) (hostMac 1)) 100,
    .frame ⟨3, 1⟩ (Packet.bare (hostMac 1) (hostMac 2)) 101 ]

theorem forwards_once_iff_sharedRun :
    AtEachStep (next threeNodes) (ForwardsOnce threeNodes) initMacPortTable sharedRun ↔
      AtEachStep (next threeNodes) NotBehindReceiver initMacPortTable sharedRun :=
  forwards_once_iff sharedRun (by decide)

/-- The frame is sent back out of the interface it came in on. -/
theorem shared_interface_reflects :
    ¬ AtEachStep (next threeNodes) (ForwardsOnce threeNodes) initMacPortTable sharedRun := by
  intro h
  have hlookup : lookupPort (run (next threeNodes) initMacPortTable (sharedRun.take 1))
      (Packet.bare (hostMac 1) (hostMac 2)).etherDhost = some ⟨3, 1⟩ := by decide +kernel
  have hstep := h (sharedRun.take 1) (.frame ⟨3, 1⟩ (Packet.bare (hostMac 1) (hostMac 2)) 101) [] rfl
  rw [ForwardsOnce, sent_of_some hlookup] at hstep
  exact hstep.back _ (List.mem_singleton_self _) rfl

/-! ### Group addresses -/

/-- The least bit of the first byte. -/
def Mac.isGroup (mac : Mac) : Bool := mac[0] &&& 1 = 1

/-- The frame comes from `mac`. -/
def Event.From (mac : Mac) : Event → Prop
  | .frame _ packet _ => packet.etherShost = mac
  | .sweep _ => False

/-- An address in the table is the source of an earlier frame. -/
theorem lookupPort_run_eq_none (ifaceList : List IfaceInfo) {es : List Event} {mac : Mac}
    (hunused : ∀ e ∈ es, ¬ e.From mac) :
    lookupPort (run (next ifaceList) initMacPortTable es) mac = none := by
  have hentries : ∀ pre post, es = pre ++ post →
      ∀ entry ∈ Buckets.scan (run (next ifaceList) initMacPortTable pre), entry.mac ≠ mac := by
    apply run_induction (next ifaceList)
      (P := fun _ t => ∀ entry ∈ Buckets.scan t, entry.mac ≠ mac)
    · rw [scan_initMacPortTable]
      exact List.forall_mem_nil _
    · intro pre e post hsplit hpre entry hentry heq
      rcases mem_next hentry with hold | ⟨packet, now, rfl, hmac, -⟩
      · exact hpre entry hold heq
      · have hevent : Event.frame entry.iface packet now ∈ es :=
          hsplit ▸ List.mem_append_cons_self
        exact hunused _ hevent (hmac.symm.trans heq)
  exact lookupPort_none.mpr (hentries es [] (List.append_nil es).symm)

/-- The frame goes out on every interface of the switch but the receiving one. -/
def Flooded (ifaceList : List IfaceInfo) (iface : IfaceInfo) (packet : Packet)
    (sent : List Transmission) : Prop :=
  ∀ target ∈ ifaceList, target.index ≠ iface.index → ⟨target, packet⟩ ∈ sent

/-- **Which frames are flooded**, after every run: those for an address that the table does not hold,
a group address or not, and it holds none that no frame has come from yet. A frame for an address
that it holds goes where the entry says and nowhere else. -/
theorem unknown_address_flooded (ifaceList : List IfaceInfo) (past : List Event)
    (iface : IfaceInfo) (p : Packet) (now : Int) :
    let t := run (next ifaceList) initMacPortTable past
    let sent := (handlePacket ifaceList t iface p now).2
    ((∀ e ∈ past, ¬ e.From p.etherDhost) → lookupPort t p.etherDhost = none) ∧
    (lookupPort t p.etherDhost = none → Flooded ifaceList iface p sent) ∧
    ∀ known, lookupPort t p.etherDhost = some known → sent = [⟨known, p⟩] := by
  refine ⟨lookupPort_run_eq_none ifaceList, fun hnone target hmem hindex => ?_,
    fun known hknown => sent_of_some hknown⟩
  rw [sent_of_none hnone]
  exact mem_broadcastPacket.mpr ⟨hmem, hindex, rfl⟩

def broadcastMac : Mac := #v[0xff, 0xff, 0xff, 0xff, 0xff, 0xff]

/-- After one frame in the name of all, a frame for all goes to its sender only. -/
theorem group_address_captured :
    broadcastMac.isGroup = true ∧
    ¬ Flooded threeNodes ⟨4, 2⟩ (Packet.bare broadcastMac (hostMac 2))
      (handlePacket threeNodes (run (next threeNodes) initMacPortTable
        [.frame ⟨3, 1⟩ (Packet.bare (hostMac 1) broadcastMac) 100])
        ⟨4, 2⟩ (Packet.bare broadcastMac (hostMac 2)) 101).2 := by
  have hlookup : lookupPort (run (next threeNodes) initMacPortTable
      [.frame ⟨3, 1⟩ (Packet.bare (hostMac 1) broadcastMac) 100])
      (Packet.bare broadcastMac (hostMac 2)).etherDhost = some ⟨3, 1⟩ := by decide +kernel
  refine ⟨by decide, fun h => ?_⟩
  rw [sent_of_some hlookup] at h
  have hcopy := List.mem_singleton.mp (h ⟨5, 3⟩ (by decide) (by decide))
  exact absurd (congrArg Transmission.iface hcopy) (by decide)

end MiniNet.SwitchStack
