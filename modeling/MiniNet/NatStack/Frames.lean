import MiniNet.NatStack.NatC.Heap
import MiniNet.Ustack

/-!
# Frames and what they come to

`main.c` is the same with either version. A frame with a TCP packet in it is translated, in the
direction that its destination says; whatever else comes in is answered or dropped for itself, and
the table has nothing to do with it.
-/

namespace MiniNet.NatStack

open Lib NatC Ustack

/-- `read_iface_info`, with the descriptor: `os` is what the system gives for a name, if it has an
address. -/
def readIface (os : String → Option (Int × UInt32)) (name : String) :
    Option (Int × IfaceInfo) :=
  (os name).map fun r => (r.1, readIfaceInfo name r.2)

/-- A frame is handled at its time, and what is read of the clock after that is `later`. -/
inductive FrameEvent
  | frame (f : Frame) (later : Nat)
  | sweep (now : Nat)

def FrameEvent.readings : FrameEvent → List Nat
  | .frame f later => [f.now, later]
  | .sweep now => [now]

/-- The direction of a packet, given the external interface. -/
def direction (external : IfaceInfo) (p : Packet) : PacketDir :=
  if p.dest.1 = htonl external.ip then .dirIn else .dirOut

def HasTcp (f : Frame) : Prop :=
  ntohs (etherType f.packet.bytes) = ethPIp ∧ f.packet.protocol = ipprotoTcp

instance : DecidablePred HasTcp := fun _ => inferInstanceAs (Decidable (_ ∧ _))

/-- What a frame is to the table, if anything. -/
def eventOf (external : IfaceInfo) : FrameEvent → Option Event
  | .frame f later =>
    if HasTcp f then
      some (.packet f.iface (direction external f.packet) f.packet f.now later)
    else none
  | .sweep now => some (.sweep now)

/-- What is done with a frame that the table has nothing to do with. -/
def otherEffects : FrameEvent → List FrameEffect
  | .frame f _ =>
    if ntohs (etherType f.packet.bytes) = ethPIp then
      if PingsIface f.iface f.packet ∧ f.packet.bytes (ipData f.packet.bytes) = icmpEchoRequest then
        [.ip (.icmpSendPacket f.packet icmpEchoReply 0), .ip (.free f.packet)]
      else [.ip (.free f.packet)]
    else if ntohs (etherType f.packet.bytes) = ethPArp then [.handleArpPacket f.iface f.packet]
    else []
  | .sweep _ => []

/-- What is done with a packet that a machine sends on. -/
def passOn (out : Option Packet) : List FrameEffect :=
  (out.map fun p => .ip (.ipSendPacket p)).toList

theorem nondecreasing_eventOf (external : IfaceInfo) {fs : List FrameEvent}
    (hclock : Nondecreasing FrameEvent.readings fs) :
    Nondecreasing Event.readings (fs.filterMap (eventOf external)) := by
  have hreadings : ∀ f e, eventOf external f = some e → e.readings = f.readings := by
    intro f e h
    cases f with
    | sweep now =>
      obtain rfl := Option.some.inj h
      rfl
    | frame f later =>
      rw [eventOf, Option.ite_none_right_eq_some] at h
      obtain ⟨-, hsome⟩ := h
      obtain rfl := Option.some.inj hsome
      rfl
  rw [Nondecreasing, List.pairwise_flatMap] at hclock ⊢
  obtain ⟨hown, hothers⟩ := hclock
  refine ⟨fun e he => ?_, ?_⟩
  · obtain ⟨f, hf, hevent⟩ := List.mem_filterMap.mp he
    rw [hreadings f e hevent]
    exact hown f hf
  · rw [List.pairwise_filterMap]
    refine hothers.imp fun hle e he e' he' x hx y hy => ?_
    rw [hreadings _ e he] at hx
    rw [hreadings _ e' he'] at hy
    exact hle x hx y hy

/-- The interfaces of the NAT of `nat_topo.py`, beside the loopback. -/
def natAddrs : List IfAddr :=
  [⟨"lo", true⟩, ⟨"n1-eth0", true⟩, ⟨"n1-eth1", true⟩, ⟨"n1-eth0", false⟩]

def natOs (name : String) : Option (Int × UInt32) :=
  some (if name = "n1-eth0" then (3, htonl 0x0a1500fe) else (4, htonl 0x9fe2272b))

end MiniNet.NatStack
