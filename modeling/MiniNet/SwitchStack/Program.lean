import MiniNet.SwitchStack.Queue
import MiniNet.Ustack

/-!
# The whole program

`main.c` with everything below it: the interfaces are found, the table is made, and frames are
handled as they come in while the ageing thread sweeps. In memory, list by list, all of it sends what
the queue of `Queue` sends for the frames that arrive.
-/

namespace MiniNet.SwitchStack

open Lib ListHead Ustack

/-- `read_iface_info`: `os` is the descriptor and the index that the system gives for a name. -/
def readIfaceInfo (os : String → Int × Int) (name : String) : IfaceInfo where
  fd := (os name).1
  index := (os name).2

/-- The ageing thread sweeps, and a frame is handled at the time it comes in. -/
def handler : Handler IfaceInfo Int (Packet × Int) Event where
  other now := .sweep now
  handlePacket iface frame := .frame iface frame.1 frame.2

/-- What happens, given the polls. -/
def events (ifaceList : List IfaceInfo) (polls : List (Poll Int (Packet × Int))) : List Event :=
  arrivals handler ifaceList polls

namespace InMemory

variable {α : Type} [DecidableEq α] (heads : Fin hash8Bits → α) (alloc : LinkHeap α → α)
  (fuel : Nat)

/-- `init_ustack` and `ustack_run`, up to the poll that fails. -/
def main (os : String → Int × Int) (addrs : List IfAddr) (polls : List (Poll Int (Packet × Int)))
    (m : Memory α MacPortEntry) : Option (List Response × Memory α MacPortEntry) := do
  let inst ← initAllIfaces IfaceInfo.fd (fun name => some (readIfaceInfo os name)) addrs
  let (_, m) ← initMacPortTable heads m
  let (m, responses) ←
    ustackRun IfaceInfo.fd handler (step heads alloc fuel inst.ifaceList) inst m polls
  return (responses, m)

variable {heads alloc fuel} {m : Memory α MacPortEntry} {others : Finset α}

/-- **What the program does**: on interfaces that do not share a descriptor, and with a clock that
does not go back, what the queue does with the frames that arrive. -/
theorem main_runs_as_queue {os : String → Int × Int} {addrs : List IfAddr} {names : List String}
    {polls : List (Poll Int (Packet × Int))} (halloc : FindsFree alloc)
    (hstart : Starts heads others m) (hnames : findAvailableIfaces addrs = some names)
    (hfds : ((names.map (readIfaceInfo os)).map (·.fd)).Nodup)
    (hclock : ((events (names.map (readIfaceInfo os)) polls).map Event.reading).Pairwise (· ≤ ·))
    (hspan : ∀ e ∈ events (names.map (readIfaceInfo os)) polls,
      ∀ e' ∈ events (names.map (readIfaceInfo os)) polls, e'.reading - e.reading < 2 ^ 31)
    (hfuel : (events (names.map (readIfaceInfo os)) polls).length ≤ fuel) :
    ∃ m', main heads alloc fuel os addrs polls m = some
      (outputs (Queue.step (names.map (readIfaceInfo os))) []
        (events (names.map (readIfaceInfo os)) polls), m') := by
  obtain ⟨m₀, m', hinit, hruns, -⟩ :=
    runs_in_memory (names.map (readIfaceInfo os)) halloc hstart hfuel
  rw [runs_as_queue _ hclock hspan] at hruns
  refine ⟨m', ?_⟩
  have hifaces : names.mapM (fun name => some (readIfaceInfo os name))
      = some (names.map (readIfaceInfo os)) := List.mapM_pure
  rw [main, initAllIfaces, hnames]
  simp only [Option.bind_eq_bind, Option.bind_some, hifaces, hinit, Option.pure_def]
  rw [ustackRun_eq hfds, ← events, hruns]
  rfl

/-- The interfaces of the switch of `three_nodes_bw.py`, beside the loopback. -/
def switchAddrs : List IfAddr :=
  [⟨"lo", true⟩, ⟨"s1-eth1", true⟩, ⟨"s1-eth2", true⟩, ⟨"s1-eth1", false⟩]

def switchOs (name : String) : Int × Int := if name = "s1-eth1" then (3, 1) else (4, 2)

/-- Frames on both, of which the second has sent the first itself, and a sweep between them. -/
def switchPolls : List (Poll Int (Packet × Int)) :=
  [ .ready [⟨[], some (.frame (Packet.bare (hostMac 2) (hostMac 1), 100))⟩, ⟨[], some .outgoing⟩],
    .timeout,
    .ready [⟨[], none⟩, ⟨[131], some (.frame (Packet.bare (hostMac 1) (hostMac 2), 131))⟩],
    .failed ]

theorem main_runs_as_queue_switchPolls :
    ∃ m', main (fun b : Fin hash8Bits => b.val) leastFree 10 switchOs switchAddrs switchPolls
        (firstMemory hash8Bits unwritten)
      = some (outputs (Queue.step (["s1-eth1", "s1-eth2"].map (readIfaceInfo switchOs))) []
          (events (["s1-eth1", "s1-eth2"].map (readIfaceInfo switchOs)) switchPolls), m') :=
  main_runs_as_queue findsFree_leastFree (starts_firstMemory hash8Bits unwritten)
    (by decide +kernel) (by decide +kernel) (by decide +kernel) (by decide +kernel)
    (by decide +kernel)

end InMemory

end MiniNet.SwitchStack
