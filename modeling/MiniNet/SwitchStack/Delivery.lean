import Mathlib.Data.List.Nodup
import MiniNet.SwitchStack.Code

/-!
# Delivery by the switch

While every host stays at its interface, every entry of the table tells the truth about its host, so
a frame for a known host goes where the host is. A frame for an unknown one goes everywhere else, and
the interfaces have different indexes, so that is once to each.
-/

namespace MiniNet.SwitchStack

open Lib

def Event.FromHome (home : Mac → IfaceInfo) : Event → Prop
  | .frame iface packet _ => iface = home packet.etherShost
  | .sweep _ => True

instance (home : Mac → IfaceInfo) : DecidablePred (Event.FromHome home)
  | .frame iface packet _ => inferInstanceAs (Decidable (iface = home packet.etherShost))
  | .sweep _ => inferInstanceAs (Decidable True)

section Delivery

variable {ifaceList : List IfaceInfo} {home : Mac → IfaceInfo}

theorem table_agrees_next {t : MacPortMap} {e : Event} (he : e.FromHome home)
    (h : ∀ entry ∈ Buckets.scan t, entry.iface = home entry.mac) :
    ∀ entry ∈ Buckets.scan (next ifaceList t e), entry.iface = home entry.mac := by
  intro entry hmem
  rcases mem_next hmem with hold | ⟨packet, now, rfl, hmac, -⟩
  · exact h entry hold
  · rw [hmac]
    exact he

theorem table_agrees (ifaceList : List IfaceInfo) {es : List Event}
    (hhome : ∀ e ∈ es, e.FromHome home) :
    ∀ pre post, es = pre ++ post →
      ∀ entry ∈ Buckets.scan (run (next ifaceList) initMacPortTable pre),
        entry.iface = home entry.mac := by
  apply run_induction (next ifaceList)
    (P := fun _ t => ∀ entry ∈ Buckets.scan t, entry.iface = home entry.mac)
  · rw [scan_initMacPortTable]
    exact List.forall_mem_nil _
  · intro pre e post hsplit h
    exact table_agrees_next (hhome e (hsplit ▸ List.mem_append_cons_self)) h

/-- The flood reaches every other interface once. -/
theorem broadcastPacket_filter (hindex : (ifaceList.map (·.index)).Nodup)
    {iface target : IfaceInfo} (htarget : target ∈ ifaceList) (hne : target.index ≠ iface.index)
    (p : Packet) :
    (broadcastPacket ifaceList iface p).filter (fun tx => tx.iface = target) = [⟨target, p⟩] := by
  have hkeep : ∀ i ∈ ifaceList, (decide (i = target) && decide (i.index ≠ iface.index))
      = decide (i = target) := by
    intro i _
    by_cases hi : i = target
    · simp [hi, hne]
    · simp [hi]
  rw [broadcastPacket, List.filter_map]
  change ((ifaceList.filter _).filter fun i => i = target).map _ = _
  rw [List.filter_filter, List.filter_congr hkeep, List.filter_eq,
    List.count_eq_one_of_mem (List.Nodup.of_map _ hindex) htarget]
  rfl

/-- **Delivery.** Every frame for `d` that comes in elsewhere than at the home of `d` goes out there
exactly once. -/
theorem delivered_home {es pre post : List Event} {iface : IfaceInfo} {p : Packet} {now : Int}
    (hindex : (ifaceList.map (·.index)).Nodup) (hmem : ∀ mac, home mac ∈ ifaceList)
    (hhome : ∀ e ∈ es, e.FromHome home) (hsplit : es = pre ++ .frame iface p now :: post)
    (hother : iface ≠ home p.etherDhost) :
    (handlePacket ifaceList (run (next ifaceList) initMacPortTable pre) iface p now).2.filter
      (fun tx => tx.iface = home p.etherDhost) = [⟨home p.etherDhost, p⟩] := by
  have hiface : iface = home p.etherShost :=
    hhome (.frame iface p now) (hsplit ▸ List.mem_append_cons_self)
  have htable := table_agrees ifaceList hhome pre _ hsplit
  rw [handlePacket]
  cases hlookup : lookupPort (run (next ifaceList) initMacPortTable pre) p.etherDhost with
  | none =>
    -- Different interfaces of the switch have different indexes.
    have hne : (home p.etherDhost).index ≠ iface.index := by
      rw [hiface] at hother ⊢
      exact fun heq => hother (List.inj_on_of_nodup_map hindex (hmem _) (hmem _) heq.symm)
    exact broadcastPacket_filter hindex (hmem _) hne p
  | some tx =>
    obtain ⟨entry, hentry, hmac, rfl⟩ := lookupPort_some hlookup
    have hhit : entry.iface = home p.etherDhost := hmac ▸ htable entry hentry
    simp only [hhit, decide_true, List.filter_cons_of_pos, List.filter_nil]

end Delivery

def threeNodesHome (mac : Mac) : IfaceInfo :=
  if mac = hostMac 1 then ⟨3, 1⟩ else if mac = hostMac 2 then ⟨4, 2⟩ else ⟨5, 3⟩

/-- The first host sends to the second, which is not known yet, and gets an answer. -/
def threeNodesRun : List Event :=
  [ .frame ⟨3, 1⟩ (Packet.bare (hostMac 2) (hostMac 1)) 100,
    .sweep 120,
    .frame ⟨4, 2⟩ (Packet.bare (hostMac 1) (hostMac 2)) 121 ]

theorem delivered_home_threeNodes :
    (handlePacket threeNodes (run (next threeNodes) initMacPortTable (threeNodesRun.take 2)) ⟨4, 2⟩
        (Packet.bare (hostMac 1) (hostMac 2)) 121).2.filter
      (fun tx => tx.iface = threeNodesHome (Packet.bare (hostMac 1) (hostMac 2)).etherDhost)
      = [⟨threeNodesHome (Packet.bare (hostMac 1) (hostMac 2)).etherDhost,
          Packet.bare (hostMac 1) (hostMac 2)⟩] :=
  delivered_home (by decide) (fun mac => by unfold threeNodesHome; split_ifs <;> decide)
    (show ∀ e ∈ threeNodesRun, e.FromHome threeNodesHome by decide) rfl (by decide)

end MiniNet.SwitchStack
