import MiniNet.NatStack.Frames
import MiniNet.NatStack.NatNew2.Senders
import MiniNet.Ustack

/-!
# The whole program

`main.c` with `nat_new_2.c`. It comes to its end, at the poll that fails, exactly when the list of
its senders has an answer for every TCP packet that comes in, and then it does what the list does.
-/

namespace MiniNet.NatStack.NatNew2

open Lib Ustack
open NatC (Effect FrameEffect PingsIface etherType ethPIp ethPArp ipData icmpEchoRequest
  icmpEchoReply icmpDestUnreach icmpHostUnreach Frame
  framed)

/-! ### Frames and sweeps -/

/-- No packet is `DIR_INVALID`. -/
def natTranslatePacket (t : NatTable) (iface : IfaceInfo) (packet : Packet) (now later : Nat) :
    Option (NatTable × List Effect) :=
  let dir := getPacketDirection t packet
  if dir = .dirInvalid then
    some (t, [.icmpSendPacket packet icmpDestUnreach icmpHostUnreach, .free packet])
  else if packet.protocol ≠ ipprotoTcp then some (t, [.free packet])
  else (doTranslation t iface packet dir now later).map fun r => (r.1, [.ipSendPacket r.2])

def handleIpPacket (t : NatTable) (iface : IfaceInfo) (packet : Packet) (now later : Nat) :
    Option (NatTable × List Effect) :=
  if PingsIface iface packet then
    if packet.bytes (ipData packet.bytes) = icmpEchoRequest then
      some (t, [.icmpSendPacket packet icmpEchoReply 0, .free packet])
    else some (t, [.free packet])
  else natTranslatePacket t iface packet now later

def handlePacket (t : NatTable) (iface : IfaceInfo) (packet : Packet) (now later : Nat) :
    Option (NatTable × List FrameEffect) :=
  if ntohs (etherType packet.bytes) = ethPIp then
    (handleIpPacket t iface packet now later).map fun r => (r.1, r.2.map .ip)
  else if ntohs (etherType packet.bytes) = ethPArp then
    some (t, [.handleArpPacket iface packet])
  else some (t, [])

def frameStep (t : NatTable) : FrameEvent → Option (NatTable × List FrameEffect)
  | .frame f later => handlePacket t f.iface f.packet f.now later
  | .sweep now => some (natTimeout t now, [])

/-- A machine that translates and may come to a stop, on frames. -/
def onFrames {σ : Type} (step : σ → Event → Option (σ × Option Packet)) (external : IfaceInfo)
    (s : σ) (f : FrameEvent) : Option (σ × List FrameEffect) :=
  match eventOf external f with
  | some e => (step s e).map fun r => (r.1, passOn r.2)
  | none => some (s, otherEffects f)

section Frames

variable {σ : Type} {step' : σ → Event → Option (σ × Option Packet)} {external : IfaceInfo} {s : σ}
  {f : FrameEvent}

theorem onFrames_of_some {e : Event} (h : eventOf external f = some e) :
    onFrames step' external s f = (step' s e).map fun r => (r.1, passOn r.2) := by
  rw [onFrames, h]

theorem onFrames_of_none (h : eventOf external f = none) :
    onFrames step' external s f = some (s, otherEffects f) := by
  rw [onFrames, h]

end Frames

theorem getPacketDirection_eq (t : NatTable) (p : Packet) :
    getPacketDirection t p = direction t.externalIface p := by
  have hsame : ntohl (IpHdr.daddr p.bytes packetToIpHdr) = t.externalIface.ip ↔
      p.dest.1 = htonl t.externalIface.ip := by
    constructor
    · intro h
      rw [← h, htonl_ntohl]
      rfl
    · intro h
      rw [← ntohl_htonl t.externalIface.ip, ← h]
      rfl
  simp only [getPacketDirection, direction, hsame]

theorem direction_ne_invalid (external : IfaceInfo) (p : Packet) :
    direction external p ≠ .dirInvalid := by
  unfold direction
  split
  · exact nofun
  · exact nofun

theorem natTranslatePacket_eq (t : NatTable) (iface : IfaceInfo) (p : Packet) (now later : Nat) :
    natTranslatePacket t iface p now later =
      if p.protocol = ipprotoTcp then
        (doTranslation t iface p (direction t.externalIface p) now later).map
          fun r => (r.1, [.ipSendPacket r.2])
      else some (t, [.free p]) := by
  rw [natTranslatePacket, getPacketDirection_eq, if_neg (direction_ne_invalid _ p)]
  by_cases htcp : p.protocol = ipprotoTcp
  · rw [if_neg (not_not.mpr htcp), if_pos htcp]
  · rw [if_pos htcp, if_neg htcp]

theorem handlePacket_tcp (t : NatTable) {f : Frame} (later : Nat) (h : HasTcp f) :
    handlePacket t f.iface f.packet f.now later =
      (doTranslation t f.iface f.packet (direction t.externalIface f.packet) f.now later).map
        fun r => (r.1, [.ip (.ipSendPacket r.2)]) := by
  obtain ⟨hip, htcp⟩ := h
  have hping : ¬ PingsIface f.iface f.packet := fun h => h.not_tcp htcp
  rw [handlePacket, if_pos hip, handleIpPacket, if_neg hping, natTranslatePacket_eq, if_pos htcp,
    Option.map_map]
  rfl

/-- Any other frame leaves the table alone. -/
theorem handlePacket_other (t : NatTable) {f : Frame} (later : Nat) (h : ¬ HasTcp f) :
    handlePacket t f.iface f.packet f.now later = some (t, otherEffects (.frame f later)) := by
  rw [handlePacket, otherEffects]
  by_cases hip : ntohs (etherType f.packet.bytes) = ethPIp
  · have htcp : f.packet.protocol ≠ ipprotoTcp := fun htcp => h ⟨hip, htcp⟩
    rw [if_pos hip, if_pos hip, handleIpPacket, natTranslatePacket_eq, if_neg htcp]
    by_cases hping : PingsIface f.iface f.packet
    · by_cases hecho : f.packet.bytes (ipData f.packet.bytes) = icmpEchoRequest
      · rw [if_pos hping, if_pos hecho, if_pos ⟨hping, hecho⟩]
        rfl
      · rw [if_pos hping, if_neg hecho, if_neg fun h => hecho h.2]
        rfl
    · rw [if_neg hping, if_neg fun h => hping h.1]
      rfl
  · rw [if_neg hip, if_neg hip]
    split
    · rfl
    · rfl

theorem frameStep_eq (t : NatTable) (f : FrameEvent) :
    frameStep t f = onFrames advance t.externalIface t f := by
  cases f with
  | sweep now =>
    have hevent : eventOf t.externalIface (.sweep now) = some (.sweep now) := rfl
    have hadvance : advance t (.sweep now) = some (natTimeout t now, none) := rfl
    rw [onFrames_of_some hevent, hadvance, frameStep, Option.map_some, passOn, Option.map_none,
      Option.toList_none]
  | frame f later =>
    by_cases h : HasTcp f
    · have hevent : eventOf t.externalIface (.frame f later) = some (.packet f.iface
          (direction t.externalIface f.packet) f.packet f.now later) := if_pos h
      rw [onFrames_of_some hevent, frameStep, handlePacket_tcp t later h, advance_packet,
        Option.map_map]
      rfl
    · have hevent : eventOf t.externalIface (.frame f later) = none := if_neg h
      rw [onFrames_of_none hevent, frameStep, handlePacket_other t later h]

/-! ### Runs -/

/-- What the list of the senders says of the frames is what happens. -/
theorem frames_as_senders {t₀ : NatTable} {fs : List FrameEvent}
    (hbuckets : ∀ b, t₀.natMappingList b = []) (hpool : ∀ p, t₀.assignedPorts p = 0)
    (hclock : Nondecreasing FrameEvent.readings fs) :
    Matched (fun t S => Ordered t₀.externalIface (fs.filterMap (eventOf t₀.externalIface)) t S)
      (attempt frameStep t₀ fs)
      (attempt (onFrames (Senders.step (htonl t₀.externalIface.ip)) t₀.externalIface) [] fs) := by
  apply attempt_matched (R := fun past t S =>
    Ordered t₀.externalIface (past.filterMap (eventOf t₀.externalIface)) t S)
  · intro pre f post hsplit t S h
    have hclock' := nondecreasing_eventOf t₀.externalIface hclock
    rw [hsplit, List.filterMap_append] at hclock'
    rw [frameStep_eq, h.externalIface, List.filterMap_append]
    cases hevent : eventOf t₀.externalIface f with
    | none =>
      rw [onFrames_of_none hevent, onFrames_of_none hevent, List.filterMap_cons_none hevent,
        List.filterMap_nil, List.append_nil]
      exact .intro h
    | some e =>
      rw [List.filterMap_cons_some hevent] at hclock'
      rw [onFrames_of_some hevent, onFrames_of_some hevent, List.filterMap_cons_some hevent]
      exact (h.next fun _ hpast _ => hclock'.le_of_mem hpast).map passOn
  · exact .init hbuckets hpool

/-! ### From the interfaces on -/

/-- The timeout thread sweeps; a frame is handled at the time it comes in, and the clock is read
once more. -/
def handler : Handler (Int × IfaceInfo) Nat (Packet × Nat × Nat) FrameEvent where
  other now := .sweep now
  handlePacket iface frame := .frame ⟨iface.2, frame.1, frame.2.1⟩ frame.2.2

/-- `init_ustack` and `ustack_run`, up to the poll that fails. -/
def main (os : String → Option (Int × UInt32)) (addrs : List IfAddr)
    (polls : List (Poll Nat (Packet × Nat × Nat))) : Option (List (List FrameEffect)) := do
  let inst ← initAllIfaces Prod.fst (readIface os) addrs
  let t ← natTableInit (inst.ifaceList.map Prod.snd)
  let r ← ustackRun Prod.fst handler frameStep inst t polls
  return r.2

/-- A segment from inside, an answer to it, a sweep, and another segment from inside. -/
def newPolls : List (Poll Nat (Packet × Nat × Nat)) :=
  [ .ready [⟨[], some (.frame (framed (Packet.bare hostH1 hostH2), 100, 101))⟩,
      ⟨[], some (.frame (framed (Packet.bare hostH2 (natTopo.natIp, htons 12345)), 102, 102))⟩],
    .ready [⟨[103], some (.frame (framed (Packet.bare hostH1 hostH2), 104, 104))⟩, ⟨[], none⟩] ]

end MiniNet.NatStack.NatNew2
