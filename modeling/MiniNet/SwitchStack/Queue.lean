import MiniNet.SwitchStack.Eviction
import MiniNet.SwitchStack.InMemory

/-!
# The switch as a queue

What the 256 buckets, the search through all of them and the cast in the test for age come to, in any
run whose clock does not go back: one queue of what has been learned. A source that is not in it goes
to its end, a destination is looked for in it, and a sweep takes its head when that is old.
-/

namespace MiniNet.SwitchStack

open Lib

namespace Queue

def find (q : List MacPortEntry) (mac : Mac) : Option MacPortEntry :=
  q.find? fun entry => entry.mac = mac

/-- The queue after an event, and what is seen of the event. -/
def step (ifaceList : List IfaceInfo) (q : List MacPortEntry) :
    Event → List MacPortEntry × Response
  | .frame iface packet now =>
    (match find q packet.etherShost with
      | some _ => q
      | none => q ++ [⟨packet.etherShost, iface, now⟩],
      match find q packet.etherDhost with
      | some entry => ⟨[⟨entry.iface, packet⟩], 0⟩
      | none => ⟨broadcastPacket ifaceList iface packet, 0⟩)
  | .sweep now => (dropHead (old now) q,
      ⟨[], ((q.head?.filter (old now)).map fun entry => entry.iface.index).getD 0⟩)

end Queue

section Step

variable (ifaceList : List IfaceInfo) {es past post : List Event} {t : MacPortMap}

theorem lookupPort_eq_find (t : MacPortMap) (mac : Mac) :
    lookupPort t mac = (Queue.find (Buckets.scan t) mac).map (·.iface) :=
  lookupPort_eq t mac

theorem TableInvariant.respond_frame (h : TableInvariant past t) (iface : IfaceInfo)
    (packet : Packet) (now : Int) :
    Queue.step ifaceList (Buckets.scan t) (.frame iface packet now) =
      (Buckets.scan (respond ifaceList t (.frame iface packet now)).1,
        (respond ifaceList t (.frame iface packet now)).2) := by
  rw [Queue.step, respond, handlePacket, lookupPort_eq_find, lookupPort_eq_find]
  refine Prod.ext ?_ ?_
  · cases Queue.find (Buckets.scan t) packet.etherShost with
    | none => exact (h.scan_insert packet.etherShost iface now).symm
    | some entry => rfl
  · cases Queue.find (Buckets.scan t) packet.etherDhost with
    | none => rfl
    | some entry => rfl

theorem TableInvariant.respond_sweep (h : TableInvariant past t)
    (hclock : (es.map Event.reading).Pairwise (· ≤ ·))
    (hspan : ∀ e ∈ es, ∀ e' ∈ es, e'.reading - e.reading < 2 ^ 31) {now : Int}
    (hsplit : es = past ++ .sweep now :: post) :
    Queue.step ifaceList (Buckets.scan t) (.sweep now) =
      (Buckets.scan (respond ifaceList t (.sweep now)).1,
        (respond ifaceList t (.sweep now)).2) := by
  rw [Queue.step, respond]
  refine Prod.ext (h.scan_sweep_eq hclock hspan hsplit).symm ?_
  have hhead := find?_eq_head (h.old_ahead now) (h.aged_eq_old hclock hspan hsplit)
  rw [← hhead]
  cases hfind : (Buckets.scan t).find? (aged now) with
  | none =>
    obtain ⟨hzero, -⟩ := sweep_of_none hfind
    exact congrArg (Response.mk []) hzero.symm
  | some entry =>
    obtain ⟨_, -, hindex, -, -⟩ := sweep_of_some hfind
    exact congrArg (Response.mk []) hindex.symm

theorem TableInvariant.step_eq (h : TableInvariant past t)
    (hclock : (es.map Event.reading).Pairwise (· ≤ ·))
    (hspan : ∀ e ∈ es, ∀ e' ∈ es, e'.reading - e.reading < 2 ^ 31) {e : Event}
    (hsplit : es = past ++ e :: post) :
    Queue.step ifaceList (Buckets.scan t) e =
      (Buckets.scan (respond ifaceList t e).1, (respond ifaceList t e).2) := by
  cases e with
  | frame iface packet now => exact h.respond_frame ifaceList iface packet now
  | sweep now => exact h.respond_sweep ifaceList hclock hspan hsplit

end Step

section Run

variable (ifaceList : List IfaceInfo) {es : List Event}
  (hclock : (es.map Event.reading).Pairwise (· ≤ ·))
  (hspan : ∀ e ∈ es, ∀ e' ∈ es, e'.reading - e.reading < 2 ^ 31)

include hclock hspan

/-- The queue holds what the table does. -/
theorem queue_run : ∀ pre post, es = pre ++ post →
    run (nextOf (Queue.step ifaceList)) [] pre
      = Buckets.scan (run (next ifaceList) initMacPortTable pre) := by
  intro pre
  induction pre using List.reverseRecOn with
  | nil => exact fun _ _ => scan_initMacPortTable.symm
  | append_singleton pre e ih =>
    intro post hsplit
    rw [List.append_assoc, List.singleton_append] at hsplit
    have hstep := (tableInvariant_run ifaceList hclock pre _ hsplit).step_eq
      ifaceList hclock hspan hsplit
    rw [run_snoc, run_snoc, ih _ hsplit, nextOf, hstep, ← InMemory.nextOf_respond]
    rfl

/-- **What the switch does**, in every run whose clock does not go back. -/
theorem runs_as_queue : outputs (respond ifaceList) initMacPortTable es
    = outputs (Queue.step ifaceList) [] es := by
  apply outputs_eq
  intro pre e post hsplit
  have hstep := (tableInvariant_run ifaceList hclock pre _ hsplit).step_eq
    ifaceList hclock hspan hsplit
  rw [queue_run ifaceList hclock hspan pre _ hsplit, InMemory.nextOf_respond, hstep]

end Run

end MiniNet.SwitchStack
