import MiniNet.SwitchStack.Code

/-!
# What the switch has learned

A source is learned once and then left alone until the sweep drops it, so the table follows a host
exactly as long as no host shows up at another interface while its entry is there.
-/

namespace MiniNet.SwitchStack

open Lib

def Event.seenOn (mac : Mac) : Event → Option IfaceInfo
  | .frame iface packet _ => if packet.etherShost = mac then some iface else none
  | .sweep _ => none

/-- The interface of the most recent frame from `mac`. -/
def lastSeen (past : List Event) (mac : Mac) : Option IfaceInfo :=
  (past.filterMap (Event.seenOn mac)).getLast?

/-- What the table holds is where its host was seen last. -/
def Follows (past : List Event) (t : MacPortMap) : Prop :=
  ∀ mac iface, lookupPort t mac = some iface → lastSeen past mac = some iface

def KnownHere (t : MacPortMap) : Event → Prop
  | .frame iface packet _ =>
    lookupPort t packet.etherShost = none ∨ lookupPort t packet.etherShost = some iface
  | .sweep _ => True

/-! ### The last sighting -/

theorem lastSeen_frame (past : List Event) (iface : IfaceInfo) (packet : Packet) (now : Int) :
    lastSeen (past ++ [.frame iface packet now]) packet.etherShost = some iface := by
  simp [lastSeen, Event.seenOn]

theorem lastSeen_snoc_of_none {past : List Event} {e : Event} {mac : Mac}
    (h : e.seenOn mac = none) : lastSeen (past ++ [e]) mac = lastSeen past mac := by
  simp [lastSeen, h]

section Learning

variable {ifaceList : List IfaceInfo} {t : MacPortMap} {past : List Event} {e : Event}

/-- Every entry of the table, found or not, is where its host was seen last. -/
def EntriesFollow (past : List Event) (t : MacPortMap) : Prop :=
  ∀ entry ∈ Buckets.scan t, lastSeen past entry.mac = some entry.iface

theorem EntriesFollow.follows (h : EntriesFollow past t) : Follows past t := by
  intro mac iface hlookup
  obtain ⟨entry, hentry, rfl, rfl⟩ := lookupPort_some hlookup
  exact h entry hentry

theorem EntriesFollow.next (h : EntriesFollow past t) (he : KnownHere t e) :
    EntriesFollow (past ++ [e]) (next ifaceList t e) := by
  intro entry hentry
  rcases mem_next hentry with hold | ⟨packet, now, rfl, hmac, -⟩
  · cases e with
    | sweep now => rw [lastSeen_snoc_of_none rfl, h entry hold]
    | frame iface packet now =>
      by_cases hmac : packet.etherShost = entry.mac
      · -- The source is known, so it is known here, and so is this entry of it.
        rcases he with hnone | hsome
        · exact absurd hmac.symm (lookupPort_none.mp hnone entry hold)
        · have hseen := h.follows _ _ hsome
          rw [hmac, h entry hold] at hseen
          rw [← hmac, lastSeen_frame, hseen]
      · have hother : Event.seenOn entry.mac (.frame iface packet now) = none := if_neg hmac
        rw [lastSeen_snoc_of_none hother, h entry hold]
  · rw [hmac, lastSeen_frame]

/-- A frame at another interface than the one its source is known at breaks it at once. -/
theorem knownHere_of_follows (h : Follows (past ++ [e]) (next ifaceList t e)) : KnownHere t e := by
  cases e with
  | sweep now => trivial
  | frame iface packet now =>
    cases hlookup : lookupPort t packet.etherShost with
    | none =>
      exact .inl hlookup
    | some known =>
      rw [next_frame_of_some hlookup] at h
      have hseen := h _ _ hlookup
      rw [lastSeen_frame] at hseen
      exact .inr (hlookup.trans hseen.symm)

end Learning

/-- **When the table follows the hosts**, in every state of a run: when every frame of it comes from
a source that is unknown then or known at the receiving interface. -/
theorem follows_iff (ifaceList : List IfaceInfo) (es : List Event) :
    (∀ pre post, es = pre ++ post → Follows pre (run (next ifaceList) initMacPortTable pre)) ↔
      AtEachStep (next ifaceList) KnownHere initMacPortTable es := by
  constructor
  · intro h pre e post hsplit
    have hnext := h (pre ++ [e]) post (by rw [hsplit, List.append_assoc, List.singleton_append])
    rw [run_snoc] at hnext
    exact knownHere_of_follows hnext
  · intro h pre post hsplit
    have hfollow : ∀ pre post, es = pre ++ post →
        EntriesFollow pre (run (next ifaceList) initMacPortTable pre) := by
      apply run_induction (next ifaceList) (P := EntriesFollow)
      · rw [EntriesFollow, scan_initMacPortTable]
        exact List.forall_mem_nil _
      · intro pre e post hsplit hpre
        exact hpre.next (h pre e post hsplit)
    exact (hfollow pre post hsplit).follows

/-- A host that was learned at one interface and then sends from another. -/
def movedRun : List Event :=
  [ .frame ⟨3, 1⟩ (Packet.bare (hostMac 2) (hostMac 1)) 100,
    .frame ⟨5, 3⟩ (Packet.bare (hostMac 2) (hostMac 1)) 110 ]

/-- The table still has it at the first, and a frame for it goes there. -/
theorem moved_host_not_followed :
    ¬ Follows movedRun (run (next threeNodes) initMacPortTable movedRun) ∧
    (handlePacket threeNodes (run (next threeNodes) initMacPortTable movedRun) ⟨4, 2⟩
      (Packet.bare (hostMac 1) (hostMac 2)) 111).2
      = [⟨⟨3, 1⟩, Packet.bare (hostMac 1) (hostMac 2)⟩] := by
  have hlookup : lookupPort (run (next threeNodes) initMacPortTable movedRun) (hostMac 1)
      = some ⟨3, 1⟩ := by decide +kernel
  refine ⟨fun h => ?_, ?_⟩
  · have hseen := h _ _ hlookup
    revert hseen
    decide +kernel
  · rw [handlePacket, show (Packet.bare (hostMac 1) (hostMac 2)).etherDhost = hostMac 1 by decide,
      hlookup]

end MiniNet.SwitchStack
