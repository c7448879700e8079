import MiniNet.NatStack.Frames
import MiniNet.NatStack.NatC.Senders
import MiniNet.Ustack

/-!
# The whole program

`main.c` with `nat.c`: the interfaces are found, the table is made if the two of the NAT are among
them, and frames are handled as they come in while the timeout thread sweeps. For a frame with a TCP
packet in it, that is the list of `Senders`, in the direction that its destination says; whatever
else comes in is answered or dropped for itself.
-/

namespace MiniNet.NatStack.NatC

open Lib Ustack

/-! ### Frames and sweeps -/

/-- Nothing is read of the clock after a frame has been handled. -/
def frameStep (t : NatTable) : FrameEvent → NatTable × List FrameEffect
  | .frame f _ => handlePacket t f.iface f.packet f.now
  | .sweep now => (natTimeout t now, [])

/-- A machine that translates, on frames. -/
def onFrames {σ : Type} (step : σ → Event → σ × Option Packet) (external : IfaceInfo) (s : σ)
    (f : FrameEvent) : σ × List FrameEffect :=
  match eventOf external f with
  | some e => ((step s e).1, passOn (step s e).2)
  | none => (s, otherEffects f)

theorem getPacketDirection_eq (t : NatTable) (p : Packet) :
    getPacketDirection t p = direction t.externalIface p := by
  have hsame : ntohl (IpHdr.daddr p.bytes packetToIpHdr)
      = ntohl (inetAddr t.externalIface.ipStr) ↔ p.dest.1 = htonl t.externalIface.ip := by
    rw [IfaceInfo.inetAddr_ipStr, ntohl_injective.eq_iff]
    rfl
  simp only [getPacketDirection, direction, hsame]

section Frames

variable {σ : Type} {step' : σ → Event → σ × Option Packet} {external : IfaceInfo} {s : σ}
  {f : FrameEvent}

theorem onFrames_of_some {e : Event} (h : eventOf external f = some e) :
    onFrames step' external s f =
      ((step' s e).1, passOn (step' s e).2) := by
  rw [onFrames, h]

theorem onFrames_of_none (h : eventOf external f = none) :
    onFrames step' external s f = (s, otherEffects f) := by
  rw [onFrames, h]

end Frames

theorem handlePacket_tcp (t : NatTable) {f : Frame} (h : HasTcp f) :
    handlePacket t f.iface f.packet f.now =
      ((doTranslation t f.iface f.packet (direction t.externalIface f.packet) f.now).1,
        [.ip (.ipSendPacket
          (doTranslation t f.iface f.packet (direction t.externalIface f.packet) f.now).2)]) := by
  obtain ⟨hip, htcp⟩ := h
  have hping : ¬ PingsIface f.iface f.packet := fun h => h.not_tcp htcp
  rw [handlePacket, if_pos hip, handleIpPacket, if_neg hping, natTranslatePacket_tcp htcp,
    getPacketDirection_eq]
  rfl

/-- Any other frame leaves the table alone. -/
theorem handlePacket_other (t : NatTable) {f : Frame} (later : Nat) (h : ¬ HasTcp f) :
    handlePacket t f.iface f.packet f.now = (t, otherEffects (.frame f later)) := by
  rw [handlePacket, otherEffects]
  by_cases hip : ntohs (etherType f.packet.bytes) = ethPIp
  · have htcp : f.packet.protocol ≠ ipprotoTcp := fun htcp => h ⟨hip, htcp⟩
    rw [if_pos hip, if_pos hip, handleIpPacket, natTranslatePacket_of_ne htcp]
    by_cases hping : PingsIface f.iface f.packet
    · by_cases hecho : f.packet.bytes (ipData f.packet.bytes) = icmpEchoRequest
      · rw [if_pos hping, if_pos hecho, if_pos ⟨hping, hecho⟩]
        rfl
      · rw [if_pos hping, if_neg hecho, if_neg fun h => hecho h.2]
        rfl
    · rw [if_neg hping, if_neg fun h => hping h.1]
      rfl
  · rw [if_neg hip, if_neg hip]
    split
    · rfl
    · rfl

theorem frameStep_eq (t : NatTable) (f : FrameEvent) :
    frameStep t f = onFrames step t.externalIface t f := by
  cases f with
  | sweep now =>
    rw [onFrames_of_some rfl, frameStep, step, passOn, Option.map_none, Option.toList_none]
  | frame f later =>
    by_cases h : HasTcp f
    · have hevent : eventOf t.externalIface (.frame f later) = some (.packet f.iface
          (direction t.externalIface f.packet) f.packet f.now later) := if_pos h
      rw [onFrames_of_some hevent, frameStep, handlePacket_tcp t h, step, passOn, Option.map_some,
        Option.toList_some]
    · have hevent : eventOf t.externalIface (.frame f later) = none := if_neg h
      rw [onFrames_of_none hevent, frameStep, handlePacket_other t later h]

/-! ### Runs -/

/-- On frames a machine does what it does on what they come to. -/
theorem run_onFrames {σ : Type} (step : σ → Event → σ × Option Packet) (external : IfaceInfo)
    (s : σ) (fs : List FrameEvent) : run (nextOf (onFrames step external)) s fs
      = run (nextOf step) s (fs.filterMap (eventOf external)) := by
  induction fs generalizing s with
  | nil => rfl
  | cons f fs ih =>
    rw [run_cons, ih]
    cases h : eventOf external f with
    | none => rw [List.filterMap_cons_none h, nextOf, onFrames_of_none h]
    | some e =>
      rw [List.filterMap_cons_some h, run_cons, nextOf, onFrames_of_some h]
      rfl

section Run

variable {t₀ : NatTable} {fs : List FrameEvent} (hbuckets : ∀ b, t₀.natMappingList b = [])
  (hpool : ∀ p, t₀.assignedPorts p = 0)
  (hclock : Nondecreasing FrameEvent.readings fs)
include hbuckets hpool hclock

/-- The layout of the table behind the frames of a run. -/
theorem layout_frames {pre post : List FrameEvent} (hsplit : fs = pre ++ post) :
    Layout t₀.externalIface (pre.filterMap (eventOf t₀.externalIface))
      (run next t₀ (pre.filterMap (eventOf t₀.externalIface))) := by
  refine layout_run hbuckets hpool (nondecreasing_eventOf t₀.externalIface hclock) _
    (post.filterMap (eventOf t₀.externalIface)) ?_
  rw [hsplit, List.filterMap_append]

theorem frames_run : ∀ pre post, fs = pre ++ post → run (nextOf frameStep) t₀ pre
    = run next t₀ (pre.filterMap (eventOf t₀.externalIface)) := by
  intro pre
  induction pre using List.reverseRecOn with
  | nil => exact fun _ _ => rfl
  | append_singleton pre f ih =>
    intro post hsplit
    rw [List.append_assoc, List.singleton_append] at hsplit
    have hlayout := layout_frames hbuckets hpool hclock hsplit
    rw [run_snoc, ih _ hsplit, List.filterMap_append, run_append, nextOf, frameStep_eq,
      hlayout.externalIface]
    exact run_onFrames step t₀.externalIface _ [f]

/-- What the list says of the frames is what happens. -/
theorem frames_as_list : outputs frameStep t₀ fs
    = outputs (onFrames (Senders.step (htonl t₀.externalIface.ip)) t₀.externalIface) [] fs := by
  have hclock' := nondecreasing_eventOf t₀.externalIface hclock
  apply outputs_eq
  intro pre f post hsplit
  have hlayout := layout_frames hbuckets hpool hclock hsplit
  have hsplit' : fs.filterMap (eventOf t₀.externalIface) = pre.filterMap (eventOf t₀.externalIface)
      ++ (f :: post).filterMap (eventOf t₀.externalIface) := by rw [hsplit, List.filterMap_append]
  rw [frames_run hbuckets hpool hclock pre _ hsplit, frameStep_eq, hlayout.externalIface,
    run_onFrames, ← holders_run hbuckets hpool hclock' _ _ hsplit']
  cases h : eventOf t₀.externalIface f with
  | none => rw [onFrames_of_none h, onFrames_of_none h]
  | some e =>
    rw [List.filterMap_cons_some h] at hsplit'
    have hstep := hlayout.step_eq (e := e)
      fun _ hpast _ => (hsplit' ▸ hclock').le_of_mem hpast
    rw [onFrames_of_some h, onFrames_of_some h, hstep]

end Run

/-! ### From the interfaces on -/

/-- The timeout thread sweeps, and a frame is handled at the time it comes in. -/
def handler : Handler (Int × IfaceInfo) Nat (Packet × Nat) FrameEvent where
  other now := .sweep now
  handlePacket iface frame := .frame ⟨iface.2, frame.1, frame.2⟩ frame.2

/-- `init_ustack` and `ustack_run`, up to the poll that fails. -/
def main (os : String → Option (Int × UInt32)) (addrs : List IfAddr)
    (polls : List (Poll Nat (Packet × Nat))) : Option (List (List FrameEffect)) := do
  let inst ← initAllIfaces Prod.fst (readIface os) addrs
  let t ← natTableInit (inst.ifaceList.map Prod.snd)
  let r ← ustackRun Prod.fst handler (fun t f => some (frameStep t f)) inst t polls
  return r.2

/-- A segment from inside, framed and not, and an answer. -/
def natPolls : List (Poll Nat (Packet × Nat)) :=
  [ .ready [⟨[], some (.frame (framed (Packet.bare hostH1 hostH2), 100))⟩, ⟨[], some .outgoing⟩],
    .ready [⟨[101], some (.frame (Packet.bare hostH1 hostH2, 101))⟩,
      ⟨[], some (.frame (framed (Packet.bare hostH2 (natTopo.natIp, htons 12345)), 102))⟩],
    .failed ]

end MiniNet.NatStack.NatC
