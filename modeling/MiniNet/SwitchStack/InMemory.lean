import MiniNet.ListMemory
import MiniNet.SwitchStack.Delivery

/-!
# The switch in memory

The table of the switch as `mac.c` has it: 256 list heads, and entries that are allocated, linked in,
found again by going through the lists, unlinked and freed. Whatever the frames and the sweeps, what
it sends and what a sweep returns is what the table of the model says, no access is to memory that
was freed, and when the table is destroyed all that is left in use is what was in use before.
-/

namespace MiniNet.SwitchStack

open Lib ListHead

/-! ### The functions -/

/-- What is seen of an event: the copies sent, and what the sweep returns. -/
structure Response where
  sent : List Transmission
  returned : Int

/-- An event as the table of lists has it. -/
def respond (ifaceList : List IfaceInfo) (t : MacPortMap) : Event → MacPortMap × Response
  | .frame iface packet now =>
    let r := handlePacket ifaceList t iface packet now
    (r.1, ⟨r.2, 0⟩)
  | .sweep now =>
    let r := sweepAgedMacPortEntry t now
    (r.2, ⟨[], r.1⟩)

namespace InMemory

variable {α : Type} [DecidableEq α] (heads : Fin hash8Bits → α) (alloc : LinkHeap α → α)
  (fuel : Nat)

abbrev OnSwitch (α γ : Type) := OnMemory α MacPortEntry γ

def initMacPortTable : OnSwitch α Unit :=
  OnMemory.onLinks fun _ => initLists heads (List.finRange hash8Bits)

def destoryMacPortTable : OnSwitch α Unit :=
  OnMemory.onLinks fun _ => sweepLists heads (fun _ => true) fuel (List.finRange hash8Bits)

def lookupPort (mac : Mac) : OnSwitch α (Option IfaceInfo) :=
  OnMemory.onLinks fun data =>
    returnLists heads (returnIf (fun e => (data e).mac = mac) (OnLinks.getData fun e =>
      (data e).iface)) fuel (List.finRange hash8Bits)

def insertMacPort (mac : Mac) (iface : IfaceInfo) (now : Int) : OnSwitch α Unit := do
  let _ ← OnMemory.insertTail alloc (heads ⟨0, hash8Bits_pos⟩) { mac, iface, visited := now }

def sweepAgedMacPortEntry (now : Int) : OnSwitch α Int := do
  let n ← OnMemory.onLinks fun data =>
    returnLists heads (returnIf (fun e => aged now (data e)) fun e => do
      let n ← OnLinks.getData (fun e => (data e).iface.index) e
      listDeleteEntry e
      OnLinks.free e
      return n) fuel (List.finRange hash8Bits)
  return n.getD 0

def learn (mac : Mac) (iface : IfaceInfo) (now : Int) : Option IfaceInfo → OnSwitch α Unit
  | some _ => return ()
  | none => insertMacPort heads alloc mac iface now

def handlePacket (ifaceList : List IfaceInfo) (iface : IfaceInfo) (packet : Packet) (now : Int) :
    OnSwitch α (List Transmission) := do
  let txIface ← lookupPort heads fuel packet.etherDhost
  let sent :=
    match txIface with
    | some txIface => [⟨txIface, packet⟩]
    | none => broadcastPacket ifaceList iface packet
  let known ← lookupPort heads fuel packet.etherShost
  learn heads alloc packet.etherShost iface now known
  return sent

def respond (ifaceList : List IfaceInfo) : Event → OnSwitch α Response
  | .frame iface packet now => do
    let sent ← handlePacket heads alloc fuel ifaceList iface packet now
    return ⟨sent, 0⟩
  | .sweep now => do
    let n ← sweepAgedMacPortEntry heads fuel now
    return ⟨[], n⟩

/-- Memory before and after an event. -/
def step (ifaceList : List IfaceInfo) (m : Memory α MacPortEntry) (e : Event) :
    Option (Memory α MacPortEntry × Response) :=
  (respond heads alloc fuel ifaceList e m).map Prod.swap

/-- The table is made, the events come in, and the table is destroyed. -/
def lifetime (ifaceList : List IfaceInfo) (es : List Event) :
    OnSwitch α (List Response) := do
  initMacPortTable heads
  let responses ← fun m => (attempt (step heads alloc fuel ifaceList) m es).map Prod.swap
  destoryMacPortTable heads fuel
  return responses

/-! ### What they do -/

variable {heads alloc fuel} {m : Memory α MacPortEntry} {others : Finset α}
  {nodes : Fin hash8Bits → List α} {t : MacPortMap}

/-- The table of the model is in memory, and no list is longer than `n`. -/
def InUse (heads : Fin hash8Bits → α) (others : Finset α) (n : Nat) (m : Memory α MacPortEntry)
    (t : MacPortMap) : Prop :=
  (∃ nodes, Holds m heads others nodes t) ∧ ∀ b, (t b).length ≤ n

theorem lookupPort_eq (hm : Holds m heads others nodes t) (hfuel : ∀ b, (t b).length < fuel)
    (mac : Mac) : lookupPort heads fuel mac m = some (SwitchStack.lookupPort t mac, m) := by
  rw [SwitchStack.lookupPort_eq]
  exact hm.findAll (fun entry => entry.mac = mac) (·.iface) hfuel

theorem insertMacPort_eq (hm : Holds m heads others nodes t) (halloc : FindsFree alloc) (mac : Mac)
    (iface : IfaceInfo) (now : Int) : ∃ m' nodes',
      insertMacPort heads alloc mac iface now m = some ((), m') ∧
        Holds m' heads others nodes' (SwitchStack.insertMacPort t mac iface now) := by
  obtain ⟨n, m', hinsert, hm'⟩ :=
    hm.insertTail halloc ⟨0, hash8Bits_pos⟩ { mac, iface, visited := now }
  exact ⟨m', _, OnMemory.bind_of_eq hinsert, hm'⟩

theorem sweepAgedMacPortEntry_eq (hm : Holds m heads others nodes t)
    (hfuel : ∀ b, (t b).length < fuel) (now : Int) : ∃ m' nodes',
      sweepAgedMacPortEntry heads fuel now m
        = some ((SwitchStack.sweepAgedMacPortEntry t now).1, m') ∧
      Holds m' heads others nodes' (SwitchStack.sweepAgedMacPortEntry t now).2 := by
  obtain ⟨r, m', nodes', hreturn, hcases⟩ := hm.deleteFirst (aged now) (·.iface.index) hfuel
  have hsweep : sweepAgedMacPortEntry heads fuel now m = some (r.getD 0, m') :=
    OnMemory.bind_of_eq hreturn
  refine ⟨m', nodes', ?_⟩
  rw [hsweep, SwitchStack.sweepAgedMacPortEntry]
  cases hhit : (List.finRange hash8Bits).findSome? fun i =>
      ((t i).find? (aged now)).map fun entry => (i, entry) with
  | none =>
    rw [hhit] at hcases
    obtain ⟨rfl, hm'⟩ := hcases
    exact ⟨rfl, hm'⟩
  | some x =>
    rw [hhit] at hcases
    obtain ⟨rfl, hm'⟩ := hcases
    exact ⟨rfl, hm'⟩

theorem handlePacket_eq (hm : Holds m heads others nodes t) (halloc : FindsFree alloc)
    (hfuel : ∀ b, (t b).length < fuel) (ifaceList : List IfaceInfo) (iface : IfaceInfo)
    (packet : Packet) (now : Int) : ∃ m' nodes',
      handlePacket heads alloc fuel ifaceList iface packet now m
        = some ((SwitchStack.handlePacket ifaceList t iface packet now).2, m') ∧
      Holds m' heads others nodes' (SwitchStack.handlePacket ifaceList t iface packet now).1 := by
  rw [handlePacket, OnMemory.bind_of_eq (lookupPort_eq hm hfuel packet.etherDhost)]
  rw [OnMemory.bind_of_eq (lookupPort_eq hm hfuel packet.etherShost), SwitchStack.handlePacket]
  cases SwitchStack.lookupPort t packet.etherShost with
  | some known => exact ⟨m, nodes, rfl, hm⟩
  | none =>
    obtain ⟨m', nodes', hinsert, hm'⟩ := insertMacPort_eq hm halloc packet.etherShost iface now
    exact ⟨m', nodes', OnMemory.bind_of_eq hinsert, hm'⟩

theorem length_respond_le (ifaceList : List IfaceInfo) (t : MacPortMap) (e : Event)
    (b : Fin hash8Bits) :
    ((SwitchStack.respond ifaceList t e).1 b).length ≤ (t b).length + 1 := by
  cases e with
  | sweep now => exact (sweep_sublist t now b).length_le.trans (Nat.le_succ _)
  | frame iface packet now =>
    rw [SwitchStack.respond, SwitchStack.handlePacket]
    dsimp only
    cases SwitchStack.lookupPort t packet.etherShost with
    | some known => exact Nat.le_succ _
    | none => exact Buckets.length_addTail_le t _ _ b

theorem step_matched (halloc : FindsFree alloc) (ifaceList : List IfaceInfo) {n : Nat}
    (hfuel : n < fuel) (h : InUse heads others n m t) (e : Event) :
    Matched (InUse heads others (n + 1)) (step heads alloc fuel ifaceList m e)
      (some (SwitchStack.respond ifaceList t e)) := by
  obtain ⟨⟨nodes, hm⟩, hlength⟩ := h
  have hshort : ∀ b, (t b).length < fuel := fun b => Nat.lt_of_le_of_lt (hlength b) hfuel
  have hlength' : ∀ b, ((SwitchStack.respond ifaceList t e).1 b).length ≤ n + 1 := fun b =>
    (length_respond_le ifaceList t e b).trans (Nat.succ_le_succ (hlength b))
  cases e with
  | sweep now =>
    obtain ⟨m', nodes', hsweep, hm'⟩ := sweepAgedMacPortEntry_eq hm hshort now
    rw [step, respond, OnMemory.bind_of_eq hsweep]
    exact ⟨⟨⟨nodes', hm'⟩, hlength'⟩, rfl⟩
  | frame iface packet now =>
    obtain ⟨m', nodes', hframe, hm'⟩ := handlePacket_eq hm halloc hshort ifaceList iface packet now
    rw [step, respond, OnMemory.bind_of_eq hframe]
    exact ⟨⟨⟨nodes', hm'⟩, hlength'⟩, rfl⟩

theorem nextOf_respond (ifaceList : List IfaceInfo) :
    nextOf (SwitchStack.respond ifaceList) = next ifaceList := by
  funext t e
  cases e with
  | frame iface packet now => rfl
  | sweep now => rfl

/-- **The switch in memory does what its model does**, in every run: the same copies go out and the
same numbers are returned, and the table of the model is in memory at the end. -/
theorem runs_in_memory (ifaceList : List IfaceInfo) {es : List Event} (halloc : FindsFree alloc)
    (hstart : Starts heads others m) (hfuel : es.length ≤ fuel) :
    ∃ m₀ m', initMacPortTable heads m = some ((), m₀) ∧
      attempt (step heads alloc fuel ifaceList) m₀ es
        = some (m', outputs (SwitchStack.respond ifaceList) SwitchStack.initMacPortTable es) ∧
      InUse heads others es.length m' (run (next ifaceList) SwitchStack.initMacPortTable es) := by
  obtain ⟨m₀, hinit, hm₀⟩ := hstart.init
  refine ⟨m₀, ?_⟩
  have hmatched : Matched (InUse heads others es.length)
      (attempt (step heads alloc fuel ifaceList) m₀ es)
      (attempt (fun t e => some (SwitchStack.respond ifaceList t e)) SwitchStack.initMacPortTable
        es) := by
    apply attempt_matched (R := fun pre => InUse heads others pre.length)
    · intro pre e post hsplit m t h
      have hlength := congrArg List.length hsplit
      rw [List.length_append, List.length_cons] at hlength
      rw [List.length_append, List.length_singleton]
      exact step_matched halloc ifaceList (by omega) h e
    · exact ⟨⟨_, hm₀⟩, fun _ => Nat.le_refl 0⟩
  rw [attempt_some, nextOf_respond] at hmatched
  obtain ⟨-, hnone⟩ | ⟨m', t', out, hm', hout, hlast⟩ := hmatched.cases
  · cases hnone
  · obtain ⟨rfl, rfl⟩ := Prod.mk.inj (Option.some.inj hout)
    exact ⟨m', hinit, hm', hlast⟩

theorem destoryMacPortTable_returns (hm : Holds m heads others nodes t)
    (hfuel : ∀ b, (t b).length < fuel) :
    ∃ m', destoryMacPortTable heads fuel m = some ((), m') ∧
      ∀ a, m'.links.live a = true ↔ a ∈ others ∨ ∃ b, a = heads b := by
  obtain ⟨m', hdestroy, -, hm'⟩ := hm.sweep (fun _ => true) hfuel
  refine ⟨m', hdestroy, fun a => ?_⟩
  rw [hm'.inUse]
  simp

/-- **The switch gives all its memory back**: from the making of its table to the end of it the
switch does what its model does, without an access to memory that was freed, and afterwards what is
in use is exactly what was in use before. -/
theorem lifetime_restores_memory (ifaceList : List IfaceInfo) {es : List Event}
    (halloc : FindsFree alloc) (hstart : Starts heads others m) (hfuel : es.length < fuel) :
    ∃ m', lifetime heads alloc fuel ifaceList es m
        = some (outputs (SwitchStack.respond ifaceList) SwitchStack.initMacPortTable es, m') ∧
      ∀ a, m'.links.live a = m.links.live a := by
  obtain ⟨m₀, m₁, hinit, hruns, ⟨nodes, hm₁⟩, hlength⟩ :=
    runs_in_memory ifaceList halloc hstart hfuel.le
  obtain ⟨m', hdestroy, hlive⟩ := destoryMacPortTable_returns hm₁ fun b =>
    Nat.lt_of_le_of_lt (hlength b) hfuel
  refine ⟨m', ?_, fun a => Bool.eq_iff_iff.mpr ((hlive a).trans (hstart.inUse a).symm)⟩
  rw [lifetime, OnMemory.bind_of_eq hinit]
  refine (OnMemory.bind_of_eq (congrArg (Option.map Prod.swap) hruns)).trans ?_
  rw [OnMemory.bind_of_eq hdestroy]
  rfl

/-- What the memory holds before it is written. -/
def unwritten : MacPortEntry := { mac := hostMac 0, iface := ⟨0, 0⟩, visited := 0 }

theorem lifetime_restores_memory_threeNodes :
    ∃ m', lifetime (fun b : Fin hash8Bits => b.val) leastFree 10 threeNodes threeNodesRun
        (firstMemory hash8Bits unwritten)
      = some (outputs (SwitchStack.respond threeNodes) SwitchStack.initMacPortTable threeNodesRun,
          m') ∧
      ∀ a, m'.links.live a = (firstMemory hash8Bits unwritten).links.live a :=
  lifetime_restores_memory threeNodes findsFree_leastFree (starts_firstMemory hash8Bits unwritten)
    (by decide)

end InMemory

end MiniNet.SwitchStack
