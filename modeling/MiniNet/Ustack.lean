import Mathlib.Data.List.Infix
import MiniNet.Lib.Leases
import MiniNet.Lib.Run

/-!
# What the two stacks have in common

The switch and the NAT find their interfaces and wait for frames in the same way. An interface is
one whose name has `-eth` in it. In each round of `ustack_run` one descriptor is looked at after the
other; what has come in on it is handled with the interface that `fd_to_iface` finds for it, but for
what the interface itself has sent. As long as no two interfaces have one descriptor, each frame is
handled once, in the order of the rounds and the interfaces, and on the interface it came in on.
-/

namespace MiniNet.Ustack

open Lib

/-! ### The interfaces -/

/-- An entry of `getifaddrs`; `afPacket` if it has an address, of the family `AF_PACKET`. -/
structure IfAddr where
  name : String
  afPacket : Bool

/-- `strstr(s, sub) != NULL`. -/
def strstr (s sub : String) : Bool := decide (sub.toList <:+: s.toList)

/-- The names in the list of interfaces; none if the program ends because there are none. -/
def findAvailableIfaces (addrs : List IfAddr) : Option (List String) :=
  let names := (addrs.filter fun addr => addr.afPacket && strstr addr.name "-eth").map (·.name)
  if names = [] then none else some names

/-- The interfaces and the descriptors that are polled. -/
structure Instance (ι : Type) where
  ifaceList : List ι
  fds : List Int

variable {ι β φ ε σ ω : Type} (fd : ι → Int)

/-- `readIfaceInfo` ends the program where it finds no address. -/
def initAllIfaces (readIfaceInfo : String → Option ι) (addrs : List IfAddr) :
    Option (Instance ι) := do
  let names ← findAvailableIfaces addrs
  let ifaceList ← names.mapM readIfaceInfo
  return { ifaceList, fds := ifaceList.map fd }

def fdToIface (ifaceList : List ι) (n : Int) : Option ι := ifaceList.find? fun iface => fd iface = n

/-! ### The loop -/

/-- What `recvfrom` gives: nothing, what the interface itself has sent, or a frame for it. -/
inductive Received (φ : Type)
  | error
  | outgoing
  | frame (frame : φ)

/-- A descriptor when the loop comes to it, with what is received if it is ready, and what the other
threads have done since the one before it. -/
structure Slot (β φ : Type) where
  meanwhile : List β
  received : Option (Received φ)

inductive Poll (β φ : Type)
  | failed
  | timeout
  | ready (slots : List (Slot β φ))

/-- How the program takes a step of another thread, and a frame. -/
structure Handler (ι β φ ε : Type) where
  other : β → ε
  handlePacket : ι → φ → ε

variable (handler : Handler ι β φ ε) (step : σ → ε → Option (σ × ω))

/-- A frame without an interface ends the program. -/
def handleSlot (ifaceList : List ι) (s : σ) (n : Int) (slot : Slot β φ) :
    Option (σ × List ω) :=
  match slot.received with
  | some (.frame frame) => do
    let iface ← fdToIface fd ifaceList n
    attempt step s (slot.meanwhile.map handler.other ++ [handler.handlePacket iface frame])
  | some .error | some .outgoing | none => attempt step s (slot.meanwhile.map handler.other)

def handleSlots (ifaceList : List ι) : σ → List (Int × Slot β φ) → Option (σ × List ω)
  | s, [] => some (s, [])
  | s, (n, slot) :: rest => do
    let r ← handleSlot fd handler step ifaceList s n slot
    let r' ← handleSlots ifaceList r.1 rest
    return (r'.1, r.2 ++ r'.2)

/-- The loop ends when a `poll` fails. Where the list of polls stops before one does, this is the
part of a run that it gives. -/
def ustackRun (inst : Instance ι) : σ → List (Poll β φ) → Option (σ × List ω)
  | s, [] => some (s, [])
  | s, .failed :: _ => some (s, [])
  | s, .timeout :: polls => ustackRun inst s polls
  | s, .ready slots :: polls => do
    let r ← handleSlots fd handler step inst.ifaceList s (inst.fds.zip slots)
    let r' ← ustackRun inst r.1 polls
    return (r'.1, r.2 ++ r'.2)

/-! ### What arrives -/

/-- What happens at a descriptor of this interface. -/
def slotEvents (iface : ι) (slot : Slot β φ) : List ε :=
  slot.meanwhile.map handler.other ++
    match slot.received with
    | some (.frame frame) => [handler.handlePacket iface frame]
    | some .error | some .outgoing | none => []

/-- Round by round, interface by interface. -/
def arrivals (ifaceList : List ι) : List (Poll β φ) → List ε
  | [] => []
  | .failed :: _ => []
  | .timeout :: polls => arrivals ifaceList polls
  | .ready slots :: polls =>
    ((ifaceList.zip slots).flatMap fun x => slotEvents handler x.1 x.2) ++ arrivals ifaceList polls

section Loop

variable {fd handler step} {ifaceList : List ι}

theorem fdToIface_of_mem (hfds : (ifaceList.map fd).Nodup) {iface : ι} (h : iface ∈ ifaceList) :
    fdToIface fd ifaceList (fd iface) = some iface :=
  (Leases.find?_eq_some_iff_of_nodup hfds).mpr ⟨h, rfl⟩

theorem handleSlot_eq (hfds : (ifaceList.map fd).Nodup) {iface : ι} (h : iface ∈ ifaceList) (s : σ)
    (slot : Slot β φ) : handleSlot fd handler step ifaceList s (fd iface) slot
      = attempt step s (slotEvents handler iface slot) := by
  rw [handleSlot, slotEvents]
  split
  · rw [fdToIface_of_mem hfds h]
    rfl
  all_goals rw [List.append_nil]

theorem handleSlots_eq (hfds : (ifaceList.map fd).Nodup) {ifaces : List ι}
    (hsub : ∀ iface ∈ ifaces, iface ∈ ifaceList) (slots : List (Slot β φ)) (s : σ) :
    handleSlots fd handler step ifaceList s ((ifaces.map fd).zip slots)
      = attempt step s ((ifaces.zip slots).flatMap fun x => slotEvents handler x.1 x.2) := by
  induction ifaces generalizing slots s with
  | nil => rfl
  | cons iface ifaces ih =>
    obtain ⟨hmem, hrest⟩ := List.forall_mem_cons.mp hsub
    cases slots with
    | nil => rfl
    | cons slot slots =>
      rw [List.map_cons, List.zip_cons_cons, List.zip_cons_cons, List.flatMap_cons, attempt_append,
        handleSlots, handleSlot_eq hfds hmem]
      cases attempt step s (slotEvents handler iface slot) with
      | none => rfl
      | some r =>
        rw [Option.bind_eq_bind, Option.bind_some, Option.bind_some, ih hrest]
        cases attempt step r.1 ((ifaces.zip slots).flatMap fun x => slotEvents handler x.1 x.2) with
        | none => rfl
        | some r' => rfl

/-- Where no two interfaces have one descriptor the loop takes what arrives as it comes. -/
theorem ustackRun_eq (hfds : (ifaceList.map fd).Nodup) (polls : List (Poll β φ)) (s : σ) :
    ustackRun fd handler step ⟨ifaceList, ifaceList.map fd⟩ s polls
      = attempt step s (arrivals handler ifaceList polls) := by
  induction polls generalizing s with
  | nil => rfl
  | cons poll polls ih =>
    cases poll with
    | failed => rfl
    | timeout => exact ih s
    | ready slots =>
      rw [ustackRun, arrivals, attempt_append, handleSlots_eq hfds fun _ h => h]
      cases attempt step s ((ifaceList.zip slots).flatMap fun x => slotEvents handler x.1 x.2) with
      | none => rfl
      | some r =>
        rw [Option.bind_eq_bind, Option.bind_some, Option.bind_some, ih]
        cases attempt step r.1 (arrivals handler ifaceList polls) with
        | none => rfl
        | some r' => rfl

end Loop

end MiniNet.Ustack
