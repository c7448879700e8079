import Mathlib.Algebra.Ring.Nat
import MiniNet.Lib.Buckets
import MiniNet.Lib.ByteMemory
import MiniNet.Lib.Run

/-!
# The learning switch

`handle_packet` and the functions of `mac.c` and `packet.c` it rests on, and the sweep of the ageing
thread. A transmission is a call of `iface_send_packet`, so what a frame causes is the list of the
copies that go out. The table has 256 buckets and uses the first.

The clock is the wall clock, which may be set back, so times are integers; the age of an entry is
their difference as the `int` the code casts it to.
-/

namespace MiniNet.SwitchStack

open Lib

abbrev hash8Bits : Nat := 256

theorem hash8Bits_pos : 0 < hash8Bits := by decide

def macPortTimeout : Int := 30

/-- `u8 mac[ETH_ALEN]`. -/
abbrev Mac := Vector UInt8 6

structure IfaceInfo where
  fd : Int
  index : Int
  deriving DecidableEq

structure Packet where
  bytes : Mem
  len : Nat

def Packet.etherDhost (packet : Packet) : Mac := Vector.ofFn fun i => packet.bytes i
def Packet.etherShost (packet : Packet) : Mac := Vector.ofFn fun i => packet.bytes (6 + i)

structure MacPortEntry where
  mac : Mac
  iface : IfaceInfo
  visited : Int
  deriving DecidableEq

abbrev MacPortMap := Buckets hash8Bits MacPortEntry

def initMacPortTable : MacPortMap := fun _ => []

theorem scan_initMacPortTable : Buckets.scan initMacPortTable = [] :=
  Buckets.scan_eq_nil fun _ => rfl

/-- `iface_send_packet`, by its arguments. -/
structure Transmission where
  iface : IfaceInfo
  packet : Packet

def lookupPort (t : MacPortMap) (mac : Mac) : Option IfaceInfo :=
  (List.finRange hash8Bits).findSome? fun i =>
    ((t i).find? fun entry => entry.mac = mac).map (·.iface)

def insertMacPort (t : MacPortMap) (mac : Mac) (iface : IfaceInfo) (now : Int) : MacPortMap :=
  Buckets.addTail t ⟨0, hash8Bits_pos⟩ { mac, iface, visited := now }

/-- `(int)(now - entry->visited) >= MAC_PORT_TIMEOUT`. -/
def aged (now : Int) (entry : MacPortEntry) : Bool :=
  macPortTimeout ≤ (now - entry.visited).bmod (2 ^ 32)

/-- The first aged entry is removed and the sweep is over; what it returns is the index of that
entry's interface. -/
def sweepAgedMacPortEntry (t : MacPortMap) (now : Int) : Int × MacPortMap :=
  let hit := (List.finRange hash8Bits).findSome? fun i =>
    ((t i).find? (aged now)).map fun entry => (i, entry)
  match hit with
  | some (i, entry) => (entry.iface.index, Function.update t i ((t i).eraseP (aged now)))
  | none => (0, t)

def broadcastPacket (ifaceList : List IfaceInfo) (iface : IfaceInfo) (packet : Packet) :
    List Transmission :=
  (ifaceList.filter fun txIface => txIface.index ≠ iface.index).map fun txIface =>
    ⟨txIface, packet⟩

/-- The copies sent, and the table after the source has been learned. -/
def handlePacket (ifaceList : List IfaceInfo) (t : MacPortMap) (iface : IfaceInfo)
    (packet : Packet) (now : Int) : MacPortMap × List Transmission :=
  let sent :=
    match lookupPort t packet.etherDhost with
    | some txIface => [⟨txIface, packet⟩]
    | none => broadcastPacket ifaceList iface packet
  let t :=
    match lookupPort t packet.etherShost with
    | some _ => t
    | none => insertMacPort t packet.etherShost iface now
  (t, sent)

/-! ### Runs -/

inductive Event
  | frame (iface : IfaceInfo) (packet : Packet) (now : Int)
  | sweep (now : Int)

def next (ifaceList : List IfaceInfo) (t : MacPortMap) : Event → MacPortMap
  | .frame iface packet now => (handlePacket ifaceList t iface packet now).1
  | .sweep now => (sweepAgedMacPortEntry t now).2

/-! ### What the lookup finds -/

section Lookup

variable {t : MacPortMap} {mac : Mac} {iface : IfaceInfo}

theorem lookupPort_eq (t : MacPortMap) (mac : Mac) :
    lookupPort t mac = ((Buckets.scan t).find? fun entry => entry.mac = mac).map (·.iface) := by
  rw [← Buckets.findSome?_find?, lookupPort, List.map_findSome?]
  rfl

theorem lookupPort_some (h : lookupPort t mac = some iface) :
    ∃ entry ∈ Buckets.scan t, entry.mac = mac ∧ entry.iface = iface := by
  rw [lookupPort_eq] at h
  obtain ⟨entry, hentry, hiface⟩ := Option.map_eq_some_iff.mp h
  have hmac := List.find?_some hentry
  rw [decide_eq_true_eq] at hmac
  exact ⟨entry, List.mem_of_find?_eq_some hentry, hmac, hiface⟩

theorem lookupPort_none : lookupPort t mac = none ↔ ∀ entry ∈ Buckets.scan t, entry.mac ≠ mac := by
  rw [lookupPort_eq, Option.map_eq_none_iff, List.find?_eq_none]
  simp only [decide_eq_true_eq, ne_eq]

end Lookup

/-! ### What a step does to the table -/

section Step

variable {ifaceList : List IfaceInfo} {t : MacPortMap}

theorem sweep_of_none {now : Int} (h : (Buckets.scan t).find? (aged now) = none) :
    (sweepAgedMacPortEntry t now).1 = 0 ∧ (sweepAgedMacPortEntry t now).2 = t := by
  unfold sweepAgedMacPortEntry
  dsimp only
  split
  · rename_i b entry hhit
    obtain ⟨c, -, hc⟩ := List.exists_of_findSome?_eq_some hhit
    obtain ⟨x, hx, heq⟩ := Option.map_eq_some_iff.mp hc
    have hmem : x ∈ Buckets.scan t := Buckets.mem_scan.mpr ⟨c, List.mem_of_find?_eq_some hx⟩
    exact absurd (List.find?_some hx) (List.find?_eq_none.mp h x hmem)
  · exact ⟨rfl, rfl⟩

theorem sweep_of_some {now : Int} {entry : MacPortEntry}
    (h : (Buckets.scan t).find? (aged now) = some entry) :
    ∃ b, (t b).find? (aged now) = some entry ∧
      (sweepAgedMacPortEntry t now).1 = entry.iface.index ∧
      (sweepAgedMacPortEntry t now).2 = Function.update t b ((t b).eraseP (aged now)) ∧
      Buckets.scan (sweepAgedMacPortEntry t now).2 = (Buckets.scan t).eraseP (aged now) := by
  obtain ⟨b, hfind, hhit⟩ := Buckets.find?_with_bucket h
  refine ⟨b, hfind, ?_⟩
  simp only [sweepAgedMacPortEntry, hhit, Buckets.scan_update_eraseP hhit, and_self]

/-- The sweep erases the first aged entry of the scan. -/
theorem scan_sweep (t : MacPortMap) (now : Int) :
    Buckets.scan (sweepAgedMacPortEntry t now).2 = (Buckets.scan t).eraseP (aged now) := by
  cases hfind : (Buckets.scan t).find? (aged now) with
  | none =>
    rw [(sweep_of_none hfind).2, List.eraseP_of_forall_not (List.find?_eq_none.mp hfind)]
  | some entry =>
    obtain ⟨_, -, -, -, hscan⟩ := sweep_of_some hfind
    exact hscan

theorem sweep_sublist (t : MacPortMap) (now : Int) (b : Fin hash8Bits) :
    ((sweepAgedMacPortEntry t now).2 b).Sublist (t b) := by
  cases hfind : (Buckets.scan t).find? (aged now) with
  | none =>
    rw [(sweep_of_none hfind).2]
  | some entry =>
    obtain ⟨i, -, -, hsweep, -⟩ := sweep_of_some hfind
    rw [hsweep]
    by_cases hb : b = i
    · subst hb
      rw [Function.update_self]
      exact List.eraseP_sublist
    · rw [Function.update_of_ne hb]

theorem mem_of_mem_sweep {now : Int} {entry : MacPortEntry}
    (h : entry ∈ Buckets.scan (sweepAgedMacPortEntry t now).2) : entry ∈ Buckets.scan t := by
  rw [scan_sweep] at h
  exact List.mem_of_mem_eraseP h

theorem next_frame_of_none {iface : IfaceInfo} {packet : Packet} {now : Int}
    (h : lookupPort t packet.etherShost = none) :
    next ifaceList t (.frame iface packet now) = insertMacPort t packet.etherShost iface now := by
  simp only [next, handlePacket, h]

theorem next_frame_of_some {iface known : IfaceInfo} {packet : Packet} {now : Int}
    (h : lookupPort t packet.etherShost = some known) :
    next ifaceList t (.frame iface packet now) = t := by
  simp only [next, handlePacket, h]

/-- An entry after a step was there before, or the step is a frame from a source unknown until
then. -/
theorem mem_next {e : Event} {entry : MacPortEntry}
    (h : entry ∈ Buckets.scan (next ifaceList t e)) :
    entry ∈ Buckets.scan t ∨
    ∃ packet now, e = .frame entry.iface packet now ∧ entry.mac = packet.etherShost ∧
      lookupPort t packet.etherShost = none := by
  cases e with
  | sweep now => exact .inl (mem_of_mem_sweep h)
  | frame iface packet now =>
    cases hlookup : lookupPort t packet.etherShost with
    | none =>
      rw [next_frame_of_none hlookup, insertMacPort, Buckets.mem_scan_addTail] at h
      rcases h with hold | rfl
      · exact .inl hold
      · exact .inr ⟨packet, now, rfl, rfl, hlookup⟩
    | some known =>
      rw [next_frame_of_some hlookup] at h
      exact .inl h

end Step

/-! ### The topology of `three_nodes_bw.py`

The switch with its three interfaces, and frames of one header: where a statement is shown at work,
it is here. -/

def Packet.bare (dst src : Mac) : Packet where
  bytes i := if h : i < 6 then dst[i] else if h : i - 6 < 6 then src[i - 6] else 0
  len := 14

def threeNodes : List IfaceInfo := [⟨3, 1⟩, ⟨4, 2⟩, ⟨5, 3⟩]

def hostMac (n : UInt8) : Mac := #v[0, 0, 0, 0, 0, n]

end MiniNet.SwitchStack
