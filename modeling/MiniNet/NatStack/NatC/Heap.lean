import MiniNet.Lib.Ledger
import MiniNet.NatStack.NatC.Frame

/-!
# What is allocated for a frame

`ustack_run` allocates a buffer for each frame and leaves it to the handlers to give it back;
`nat_get_mapping_from_packet` and `nat_insert_mapping` allocate mappings. The handlers are given here
once more, with a ledger of these blocks. `ip_send_packet` and `handle_arp_packet` take the buffer
over, `icmp_send_packet` does not, and `malloc` finds memory.

Two blocks come to nothing. The lookup allocates a mapping and sets the only pointer to it to what it
finds, and a frame that is neither IP nor ARP is left in its buffer.
-/

namespace MiniNet.NatStack.NatC

open Lib OnHeap

inductive BlockKind
  | packet
  | natMapping
  deriving DecidableEq

abbrev NatHeap (α : Type) := OnHeap BlockKind α

namespace Heap

/-- The block is forgotten: what is returned is an entry of the table, or `NULL`. -/
def natGetMappingFromPacket (t : NatTable) (packet : Packet) (dir : PacketDir) :
    NatHeap (Option NatMapping) := do
  let _ ← malloc .natMapping
  return NatC.natGetMappingFromPacket t packet dir

def natInsertMapping (t : NatTable) (mappingList : Fin hash8Bits) (internalIp : UInt32)
    (internalPort : UInt16) (now : Nat) : NatHeap (NatMapping × NatTable) := do
  malloc .natMapping >>= link
  return NatC.natInsertMapping t mappingList internalIp internalPort now

/-- What `do_translation` does without a mapping, or with one. -/
def useMapping (t : NatTable) (source : Endpoint) (now : Nat) :
    Option NatMapping → NatHeap NatTable
  | some _ => return t
  | none => do
    let r ← natInsertMapping t firstBucket source.1 source.2 now
    return r.2

def doTranslation (t : NatTable) (packet : Packet) (buffer : Nat) (dir : PacketDir) (now : Nat) :
    NatHeap (NatTable × Packet) := do
  let mapping ← natGetMappingFromPacket t packet dir
  let t' ← useMapping t packet.source now mapping
  handOver buffer
  return (t', { packet with bytes := translated t packet dir })

def natTranslatePacket (t : NatTable) (packet : Packet) (buffer : Nat) (now : Nat) :
    NatHeap (NatTable × List Effect) :=
  let dir := getPacketDirection t packet
  if dir = .dirInvalid then do
    free buffer
    return (t, [.icmpSendPacket packet icmpDestUnreach icmpHostUnreach, .free packet])
  else if packet.protocol ≠ ipprotoTcp then do
    free buffer
    return (t, [.free packet])
  else do
    let r ← doTranslation t packet buffer dir now
    return (r.1, [.ipSendPacket r.2])

def handleIpPacket (t : NatTable) (iface : IfaceInfo) (packet : Packet) (buffer : Nat)
    (now : Nat) : NatHeap (NatTable × List Effect) :=
  if PingsIface iface packet then do
    free buffer
    if packet.bytes (ipData packet.bytes) = icmpEchoRequest then
      return (t, [.icmpSendPacket packet icmpEchoReply 0, .free packet])
    else return (t, [.free packet])
  else natTranslatePacket t packet buffer now

def handlePacket (t : NatTable) (iface : IfaceInfo) (packet : Packet) (buffer : Nat) (now : Nat) :
    NatHeap (NatTable × List FrameEffect) :=
  if ntohs (etherType packet.bytes) = ethPIp then do
    let r ← handleIpPacket t iface packet buffer now
    return (r.1, r.2.map .ip)
  else if ntohs (etherType packet.bytes) = ethPArp then do
    handOver buffer
    return (t, [.handleArpPacket iface packet])
  else return (t, [])

/-- One round of the loop of `ustack_run`: a frame that has come in on an interface. -/
def receive (t : NatTable) (iface : IfaceInfo) (packet : Packet) (now : Nat) :
    NatHeap (NatTable × List FrameEffect) := do
  let buffer ← malloc .packet
  handlePacket t iface packet buffer now

end Heap

structure Frame where
  iface : IfaceInfo
  packet : Packet
  now : Nat

/-- The table, and an account for every block allocated so far. -/
structure HeapState where
  table : NatTable
  ledger : Ledger BlockKind

def HeapState.next (s : HeapState) (f : Frame) : HeapState :=
  let r := Heap.receive s.table f.iface f.packet f.now s.ledger
  ⟨r.1.1, r.2⟩

/-! ### The accounts of a frame -/

def bufferAccount : Account BlockKind := .fresh .packet

/-- The mapping that the lookup allocates. -/
def forgottenAccount : Account BlockKind := .fresh .natMapping

def mappingAccount : Account BlockKind := (Account.fresh .natMapping).linked

def translationAccounts (t : NatTable) (p : Packet) (dir : PacketDir) :
    Ledger BlockKind :=
  bufferAccount.handedOver :: forgottenAccount ::
    match natGetMappingFromPacket t p dir with
    | some _ => []
    | none => [mappingAccount]

def frameAccounts (t : NatTable) (p : Packet) : Ledger BlockKind :=
  if ntohs (etherType p.bytes) = ethPIp then
    if p.protocol = ipprotoTcp then translationAccounts t p (getPacketDirection t p)
    else [bufferAccount.freed]
  else if ntohs (etherType p.bytes) = ethPArp then [bufferAccount.handedOver]
  else [bufferAccount]

section Turns

variable {l own : Ledger BlockKind} (t : NatTable) (iface : IfaceInfo) (p : Packet)
  (dir : PacketDir) (now : Nat)

theorem turns_natGetMappingFromPacket :
    Turns l (Heap.natGetMappingFromPacket t p dir) own (natGetMappingFromPacket t p dir)
      (own ++ [forgottenAccount]) :=
  (Turns.malloc _).bind (Turns.pure _)

theorem turns_natInsertMapping (b : Fin hash8Bits) (ip : UInt32) (port : UInt16) :
    Turns l (Heap.natInsertMapping t b ip port now) own (natInsertMapping t b ip port now)
      (own ++ [mappingAccount]) :=
  (Turns.malloc_link _).bind (Turns.pure _)

theorem turns_newMapping (source : Endpoint) :
    Turns l (Heap.useMapping t source now none) own
      (natInsertMapping t firstBucket source.1 source.2 now).2 (own ++ [mappingAccount]) :=
  (turns_natInsertMapping t now firstBucket source.1 source.2).bind (Turns.pure _)

theorem turns_doTranslation :
    Turns l (Heap.doTranslation t p l.length dir now) [bufferAccount]
      (doTranslation t iface p dir now) (translationAccounts t p dir) := by
  rw [doTranslation_eq, tableAfter, translationAccounts]
  refine (turns_natGetMappingFromPacket t p dir).bind ?_
  cases hlookup : natGetMappingFromPacket t p dir with
  | some entry => exact (Turns.pure t).bind ((Turns.handOver 0).bind (Turns.pure _))
  | none => exact (turns_newMapping t now p.source).bind ((Turns.handOver 0).bind (Turns.pure _))

theorem turns_natTranslatePacket :
    Turns l (Heap.natTranslatePacket t p l.length now) [bufferAccount]
      (natTranslatePacket t iface p now)
      (if p.protocol = ipprotoTcp then translationAccounts t p (getPacketDirection t p)
        else [bufferAccount.freed]) := by
  unfold Heap.natTranslatePacket
  by_cases htcp : p.protocol = ipprotoTcp
  · have hnot : ¬ p.protocol ≠ ipprotoTcp := not_not.mpr htcp
    simp only [if_neg getPacketDirection_ne_invalid, if_neg hnot, if_pos htcp,
      natTranslatePacket_tcp htcp]
    exact (turns_doTranslation t iface p _ now).bind (Turns.pure _)
  · simp only [if_neg getPacketDirection_ne_invalid, if_pos htcp, if_neg htcp,
      natTranslatePacket_of_ne htcp, ne_eq]
    exact (Turns.free 0).bind (Turns.pure _)

theorem turns_handleIpPacket :
    Turns l (Heap.handleIpPacket t iface p l.length now) [bufferAccount]
      (handleIpPacket t iface p now)
      (if p.protocol = ipprotoTcp then translationAccounts t p (getPacketDirection t p)
        else [bufferAccount.freed]) := by
  unfold Heap.handleIpPacket handleIpPacket
  split
  · rename_i hping
    rw [if_neg hping.not_tcp]
    refine (Turns.free 0).bind ?_
    split
    · exact Turns.pure _
    · exact Turns.pure _
  · exact turns_natTranslatePacket t iface p now

theorem turns_handlePacket :
    Turns l (Heap.handlePacket t iface p l.length now) [bufferAccount]
      (handlePacket t iface p now) (frameAccounts t p) := by
  unfold Heap.handlePacket handlePacket frameAccounts
  split
  · exact (turns_handleIpPacket t iface p now).bind (Turns.pure _)
  · split
    · exact (Turns.handOver 0).bind (Turns.pure _)
    · exact Turns.pure _

/-- With a ledger the handlers do what they do without, and the frame adds its accounts. -/
theorem receive_eq :
    Heap.receive t iface p now l = (handlePacket t iface p now, l ++ frameAccounts t p) := by
  have hmalloc : Turns l (malloc .packet) [] l.length [bufferAccount] := Turns.malloc _
  have hturns : Turns l (Heap.receive t iface p now) [] (handlePacket t iface p now)
      (frameAccounts t p) := hmalloc.bind (turns_handlePacket t iface p now)
  rwa [Turns, List.append_nil] at hturns

end Turns

/-! ### Runs -/

theorem HeapState.next_eq (s : HeapState) (f : Frame) :
    s.next f = ⟨(handlePacket s.table f.iface f.packet f.now).1,
      s.ledger ++ frameAccounts s.table f.packet⟩ := by
  rw [HeapState.next, receive_eq]

/-- Given back once, or a mapping and linked once. -/
def IsSettled (account : Account BlockKind) : Prop :=
  account.GivenBack ∨ (account.kind = .natMapping ∧ account.Kept)

instance : DecidablePred IsSettled := fun _ => inferInstanceAs (Decidable (_ ∨ _))

/-- Every block allocated for the frame is settled when it has been handled. -/
def SettlesBlocks (s : HeapState) (f : Frame) : Prop :=
  ∀ account ∈ (s.next f).ledger.drop s.ledger.length, IsSettled account

/-- ARP, or IP and no TCP in it. -/
def Frame.NotTranslated (f : Frame) : Prop :=
  ntohs (etherType f.packet.bytes) = ethPArp ∨
    (ntohs (etherType f.packet.bytes) = ethPIp ∧ f.packet.protocol ≠ ipprotoTcp)

instance : DecidablePred Frame.NotTranslated := fun _ => inferInstanceAs (Decidable (_ ∨ _))

theorem settlesBlocks_iff (s : HeapState) (f : Frame) :
    SettlesBlocks s f ↔ f.NotTranslated := by
  rw [SettlesBlocks, HeapState.next_eq, List.drop_left, Frame.NotTranslated, frameAccounts]
  have harpIp : ethPIp ≠ ethPArp := by decide
  by_cases hip : ntohs (etherType f.packet.bytes) = ethPIp
  · simp only [hip, if_true, harpIp, false_or, true_and]
    by_cases htcp : f.packet.protocol = ipprotoTcp
    · have hforgotten : ¬ IsSettled forgottenAccount := by decide
      rw [if_pos htcp, translationAccounts]
      exact iff_of_false (fun h => hforgotten (h _ (by simp))) fun h => h htcp
    · rw [if_neg htcp, List.forall_mem_singleton]
      exact iff_of_true (by decide) htcp
  · simp only [hip, if_false, false_and, or_false]
    by_cases harp : ntohs (etherType f.packet.bytes) = ethPArp
    · rw [if_pos harp, List.forall_mem_singleton]
      exact iff_of_true (by decide) harp
    · rw [if_neg harp, List.forall_mem_singleton]
      exact iff_of_false (by decide) harp

/-- **When every block of a frame is accounted for**, frame by frame along a run: when no frame of it
is translated, and none is of a type that is not handled. -/
theorem blocks_settled_iff (s : HeapState) (fs : List Frame) :
    AtEachStep HeapState.next SettlesBlocks s fs ↔ ∀ f ∈ fs, f.NotTranslated :=
  atEachStep_iff_forall _ settlesBlocks_iff s fs

/-- The packet in a frame of its own. -/
def framed (p : Packet) : Packet := { p with bytes := store16 p.bytes 12 (htons ethPIp) }

/-- A segment loses the mapping that the lookup allocates, a frame of type 0 its buffer. -/
theorem translated_frame_loses_block :
    natTableInit [natTopoIfaces.1, natTopoIfaces.2] = some natTopo ∧
    (∀ p ∈ [framed (Packet.bare hostH1 hostH2), Packet.bare hostH1 hostH2],
      ¬ AtEachStep HeapState.next SettlesBlocks ⟨natTopo, []⟩ [⟨natTopoIfaces.1, p, 100⟩]) := by
  refine ⟨natTableInit_natTopo, fun p hp h => ?_⟩
  have hframe := (settlesBlocks_iff _ _).mp (h [] _ [] rfl)
  rw [List.mem_pair] at hp
  obtain rfl | rfl := hp
  · revert hframe
    decide +kernel
  · revert hframe
    decide +kernel

/-! ### Blocks and mappings -/

def keptBlocks (l : Ledger BlockKind) : Nat := l.countP fun account => account.Kept

theorem length_mappings_tableAfter (t : NatTable) (p : Packet) (dir : PacketDir) (now : Nat) :
    (tableAfter t p dir now).mappings.length
      = t.mappings.length + keptBlocks (translationAccounts t p dir) := by
  rw [tableAfter, translationAccounts]
  cases natGetMappingFromPacket t p dir with
  | some entry => rfl
  | none => exact (mappings_insert_perm t p.source.1 p.source.2 now).length_eq

theorem length_mappings_natTranslatePacket (t : NatTable) (iface : IfaceInfo) (p : Packet)
    (now : Nat) : (natTranslatePacket t iface p now).1.mappings.length =
      t.mappings.length + keptBlocks (if p.protocol = ipprotoTcp
        then translationAccounts t p (getPacketDirection t p) else [bufferAccount.freed]) := by
  by_cases htcp : p.protocol = ipprotoTcp
  · rw [if_pos htcp, natTranslatePacket_fst htcp, doTranslation_eq, length_mappings_tableAfter]
  · rw [if_neg htcp, natTranslatePacket_of_ne htcp]
    rfl

theorem length_mappings_handleIpPacket (t : NatTable) (iface : IfaceInfo) (p : Packet)
    (now : Nat) : (handleIpPacket t iface p now).1.mappings.length =
      t.mappings.length + keptBlocks (if p.protocol = ipprotoTcp
        then translationAccounts t p (getPacketDirection t p) else [bufferAccount.freed]) := by
  unfold handleIpPacket
  split
  · rename_i hping
    rw [if_neg hping.not_tcp]
    split
    · rfl
    · rfl
  · exact length_mappings_natTranslatePacket t iface p now

theorem length_mappings_handlePacket (t : NatTable) (iface : IfaceInfo) (p : Packet) (now : Nat) :
    (handlePacket t iface p now).1.mappings.length
      = t.mappings.length + keptBlocks (frameAccounts t p) := by
  unfold handlePacket frameAccounts
  split
  · exact length_mappings_handleIpPacket t iface p now
  · split
    · rfl
    · rfl

/-- The blocks that the frames of a run leave linked are as many as the mappings in the table. -/
theorem keptBlocks_run {t₀ : NatTable} (hempty : t₀.mappings = []) (fs : List Frame) :
    keptBlocks (run HeapState.next ⟨t₀, []⟩ fs).ledger
      = (run HeapState.next ⟨t₀, []⟩ fs).table.mappings.length := by
  induction fs using List.reverseRecOn with
  | nil => simp [keptBlocks, hempty]
  | append_singleton fs f ih =>
    rw [run_snoc, HeapState.next_eq, keptBlocks, List.countP_append, ← keptBlocks, ih,
      length_mappings_handlePacket]
    rfl

end MiniNet.NatStack.NatC
