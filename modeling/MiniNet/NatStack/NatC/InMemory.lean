import MiniNet.NatStack.InMemory
import MiniNet.NatStack.NatC.Code

/-!
# `nat.c` in memory

The table is as the model has it here too, and no memory is used that was freed. But the lookup
allocates a mapping that nothing points to any more when it is done, and what a run has lost in this
way is there when the table has been destroyed: one block for each packet, and nothing else.
-/

namespace MiniNet.NatStack.NatC

open Lib ListHead

namespace InMemory

open NatStack.InMemory

variable {α : Type} [DecidableEq α] (heads : Fin hash8Bits → α) (alloc : LinkHeap α → α)
  (fuel : Nat)

/-! ### The functions -/

def natLookupExternal (mappingList : α) (externalPort : UInt16) : OnNat α (Option α) :=
  OnMemory.onLinks fun data =>
    listForEachEntryReturn mappingList
      (returnIf (fun e => (data e).externalPort = externalPort) pure) fuel

def natLookupInternal (mappingList : α) (internalIp : UInt32) (internalPort : UInt16) :
    OnNat α (Option α) :=
  OnMemory.onLinks fun data =>
    listForEachEntryReturn mappingList
      (returnIf (fun e => (data e).internalIp = internalIp ∧ (data e).internalPort = internalPort)
        pure) fuel

def natInsertMapping (rest : NatTable) (mappingList : α) (internalIp : UInt32)
    (internalPort : UInt16) (now : Nat) : OnNat α (α × NatTable) := do
  let r := assignExternalPort rest
  let rest := r.2
  let mappingEntry ← OnMemory.insertTail alloc mappingList
    { internalIp
      internalPort
      externalIp := inetAddr rest.externalIface.ipStr
      externalPort := htons r.1
      updateTime := now
      conn := .zero }
  return (mappingEntry, rest)

/-- The loop over the lists, with what is done to each. -/
def lookupLists (lookup : α → OnNat α (Option α)) : List (Fin hash8Bits) → OnNat α (Option α)
  | [] => return none
  | i :: l => do
    match ← lookup (heads i) with
    | some mappingEntry => return some mappingEntry
    | none => lookupLists lookup l

/-- What `malloc` returns is overwritten by the first lookup. -/
def natGetMappingFromPacket (packet : Packet) (dir : PacketDir) : OnNat α (Option α) := do
  let tcpHdr := packetToTcpHdr packet.bytes
  let desPort := TcpHdr.dport packet.bytes tcpHdr
  let srcPort := TcpHdr.sport packet.bytes tcpHdr
  let internalIp := IpHdr.saddr packet.bytes packetToIpHdr
  let _ ← OnMemory.malloc alloc zeroMapping
  if dir = .dirIn then
    lookupLists heads (fun mappingList => natLookupExternal fuel mappingList desPort)
      (List.finRange hash8Bits)
  else
    lookupLists heads (fun mappingList => natLookupInternal fuel mappingList internalIp srcPort)
      (List.finRange hash8Bits)

def doTranslation (rest : NatTable) (packet : Packet) (dir : PacketDir) (now : Nat) :
    OnNat α (NatTable × Packet) := do
  let ipHdr := packetToIpHdr
  let tcpHdr := packetToTcpHdr packet.bytes
  let natIp := inetAddr rest.externalIface.ipStr
  let srcip := IpHdr.saddr packet.bytes ipHdr
  let srcport := TcpHdr.sport packet.bytes tcpHdr
  match ← natGetMappingFromPacket heads alloc fuel packet dir with
  | some mappingEntry => do
    let entry ← OnMemory.getEntry mappingEntry
    let m :=
      if dir = .dirIn then
        TcpHdr.setDport (IpHdr.setDaddr packet.bytes ipHdr entry.internalIp) tcpHdr
          entry.internalPort
      else
        TcpHdr.setSport (IpHdr.setSaddr packet.bytes ipHdr natIp) tcpHdr entry.externalPort
    return (rest, { packet with bytes := updateChecksums m ipHdr tcpHdr })
  | none => do
    let r ← natInsertMapping alloc rest (heads firstBucket) srcip srcport now
    return (r.2, { packet with bytes := updateChecksums packet.bytes ipHdr tcpHdr })

/-- Memory and the rest of the table before and after an event. -/
def step (s : Memory α NatMapping × NatTable) :
    Event → Option ((Memory α NatMapping × NatTable) × Option Packet)
  | .packet _ dir p now _ =>
    (doTranslation heads alloc fuel s.2 p dir now s.1).map fun r => ((r.2, r.1.1), some r.1.2)
  | .sweep now =>
    (NatStack.InMemory.natTimeout heads fuel (due now) s.2 s.1).map fun r => ((r.2, r.1), none)

/-- The table is made, the events come in, and the table is destroyed. -/
def lifetime (ifaceList : List IfaceInfo) (es : List Event) : OnNat α (List (Option Packet)) := do
  let rest ← NatStack.InMemory.natTableInit heads ifaceList
  let sent ← fun m => (attempt (step heads alloc fuel) (m, rest) es).map fun r => (r.2, r.1.1)
  natTableDestroy heads fuel
  return sent

/-! ### What they do -/

variable {heads alloc fuel} {m : Memory α NatMapping} {others : Finset α}
  {nodes : Fin hash8Bits → List α} {rest t : NatTable} {list : Buckets hash8Bits NatMapping}

/-- The pointer is to this entry. -/
def IsAt (nodes : Fin hash8Bits → List α) (list : Buckets hash8Bits NatMapping) (a : α)
    (entry : NatMapping) : Prop :=
  ∃ loc, PointsTo nodes a loc ∧ Buckets.get? list loc = some entry

/-- A loop of lookups goes to the first entry of all that matches. -/
theorem lookupLists_eq (hm : Holds m heads others nodes list)
    (hfuel : ∀ b, (list b).length < fuel) (q : NatMapping → Bool) (l : List (Fin hash8Bits)) :
    ∃ r, lookupLists heads (fun mappingList => OnMemory.onLinks fun data =>
        listForEachEntryReturn mappingList (returnIf (q ∘ data) pure) fuel) l m = some (r, m) ∧
      Option.Rel (IsAt nodes list) r (l.findSome? fun i => (list i).find? q) := by
  induction l with
  | nil => exact ⟨none, rfl, .none⟩
  | cons i l ih =>
    obtain ⟨r, hlookup, hrel⟩ := hm.find i q hfuel
    have hfind := Buckets.find?_eq_findIn list i q
    rw [lookupLists, OnMemory.bind_of_eq hlookup, List.findSome?_cons]
    generalize Buckets.findIn list i q = loc at hrel hfind
    cases hrel with
    | none =>
      rw [hfind, Option.bind_none]
      exact ih
    | @some a loc ha =>
      have hget := hm.get?_eq ha
      rw [hfind, Option.bind_some, hget]
      exact ⟨some a, rfl, .some ⟨loc, ha, hget⟩⟩

theorem natGetMappingFromPacket_eq (h : Keeps heads others nodes (m, rest) t)
    (halloc : FindsFree alloc) (hfuel : ∀ b, (t.natMappingList b).length < fuel) (p : Packet)
    (dir : PacketDir) :
    ∃ r m' lost, natGetMappingFromPacket heads alloc fuel p dir m = some (r, m') ∧
      lost ∉ others ∧ Keeps heads (insert lost others) nodes (m', rest) t ∧
      Option.Rel (IsAt nodes t.natMappingList) r (NatC.natGetMappingFromPacket t p dir) := by
  obtain ⟨lost, m', hmalloc, -, hlost, hm'⟩ := h.holds.malloc halloc zeroMapping
  rw [natGetMappingFromPacket, NatC.natGetMappingFromPacket, OnMemory.bind_of_eq hmalloc]
  by_cases hdir : dir = .dirIn
  · simp only [if_pos hdir]
    obtain ⟨r, hlookup, hrel⟩ := lookupLists_eq hm' hfuel (fun entry =>
      entry.externalPort = TcpHdr.dport p.bytes (packetToTcpHdr p.bytes)) (List.finRange hash8Bits)
    exact ⟨r, m', lost, hlookup, hlost, ⟨hm', h.rest⟩, hrel⟩
  · simp only [if_neg hdir]
    obtain ⟨r, hlookup, hrel⟩ := lookupLists_eq hm' hfuel (fun entry =>
      entry.internalIp = IpHdr.saddr p.bytes packetToIpHdr ∧
        entry.internalPort = TcpHdr.sport p.bytes (packetToTcpHdr p.bytes))
      (List.finRange hash8Bits)
    exact ⟨r, m', lost, hlookup, hlost, ⟨hm', h.rest⟩, hrel⟩

theorem assignExternalPort_withList (rest : NatTable) (list : Buckets hash8Bits NatMapping) :
    assignExternalPort (rest.withList list)
      = ((assignExternalPort rest).1, (assignExternalPort rest).2.withList list) := by
  have hscan : ∀ n, scanPorts (rest.withList list) n = scanPorts rest n := fun _ => rfl
  rw [assignExternalPort, assignExternalPort, hscan]
  cases scanPorts rest (natPortMax - natPortMin) with
  | none => rfl
  | some i => rfl

theorem natInsertMapping_eq (h : Keeps heads others nodes (m, rest) t) (halloc : FindsFree alloc)
    (b : Fin hash8Bits) (ip : UInt32) (port : UInt16) (now : Nat) : ∃ a m' rest' nodes',
      natInsertMapping alloc rest (heads b) ip port now m = some ((a, rest'), m') ∧
      Keeps heads others nodes' (m', rest') (NatC.natInsertMapping t b ip port now).2 := by
  obtain ⟨list, hm, rfl⟩ := h.withList
  rw [natInsertMapping, NatC.natInsertMapping, assignExternalPort_withList]
  generalize assignExternalPort rest = r
  obtain ⟨port', rest'⟩ := r
  obtain ⟨a, m', hinsert, hm'⟩ := hm.insertTail halloc b
    { internalIp := ip
      internalPort := port
      externalIp := inetAddr rest'.externalIface.ipStr
      externalPort := htons port'
      updateTime := now
      conn := .zero }
  exact ⟨a, m', rest', _, OnMemory.bind_of_eq hinsert, hm', rfl⟩

theorem doTranslation_eq (h : Keeps heads others nodes (m, rest) t) (halloc : FindsFree alloc)
    (hfuel : ∀ b, (t.natMappingList b).length < fuel) (iface : IfaceInfo) (p : Packet)
    (dir : PacketDir) (now : Nat) : ∃ m' rest' nodes' lost,
      doTranslation heads alloc fuel rest p dir now m
        = some ((rest', (NatC.doTranslation t iface p dir now).2), m') ∧
      lost ∉ others ∧
      Keeps heads (insert lost others) nodes' (m', rest')
        (NatC.doTranslation t iface p dir now).1 := by
  obtain ⟨r, m₁, lost, hmapping, hlost, h₁, hrel⟩ :=
    natGetMappingFromPacket_eq h halloc hfuel p dir
  have hip : rest.externalIface = t.externalIface := by
    rw [← h.rest]
    rfl
  rw [doTranslation, NatC.doTranslation]
  dsimp only
  rw [OnMemory.bind_of_eq hmapping, hip]
  generalize NatC.natGetMappingFromPacket t p dir = found at hrel ⊢
  cases hrel with
  | @some a entry hentry =>
    obtain ⟨loc, ha, hget⟩ := hentry
    rw [h₁.holds.get?_eq ha] at hget
    obtain rfl := Option.some.inj hget
    dsimp only
    rw [OnMemory.bind_of_eq (h₁.holds.getEntry ha)]
    exact ⟨m₁, rest, nodes, lost, rfl, hlost, h₁⟩
  | none =>
    obtain ⟨a, m', rest', nodes', hinsert, h'⟩ := natInsertMapping_eq h₁ halloc firstBucket
      (IpHdr.saddr p.bytes packetToIpHdr) (TcpHdr.sport p.bytes (packetToTcpHdr p.bytes)) now
    exact ⟨m', rest', nodes', lost, OnMemory.bind_of_eq hinsert, hlost, h'⟩

/-! ### Runs -/

def Event.isPacket : Event → Bool
  | .packet .. => true
  | .sweep _ => false

/-- The table is in memory, and beside it, besides what was in use from before, `lost` blocks. -/
def LeaksTo (heads : Fin hash8Bits → α) (others : Finset α) (lost n : Nat)
    (s : Memory α NatMapping × NatTable) (t : NatTable) : Prop :=
  ∃ others', others ⊆ others' ∧ others'.card = others.card + lost ∧ InUse heads others' n s t

theorem length_doTranslation_le (t : NatTable) (iface : IfaceInfo) (p : Packet) (dir : PacketDir)
    (now : Nat) (b : Fin hash8Bits) :
    ((NatC.doTranslation t iface p dir now).1.natMappingList b).length
      ≤ (t.natMappingList b).length + 1 := by
  cases hlookup : NatC.natGetMappingFromPacket t p dir with
  | some entry =>
    rw [doTranslation_fst_of_some hlookup]
    exact Nat.le_succ _
  | none =>
    rw [doTranslation_of_none hlookup, natMappingList_insert]
    exact Buckets.length_addTail_le _ _ _ b

theorem step_matched (halloc : FindsFree alloc) {lost n : Nat} (hfuel : n < fuel)
    {s : Memory α NatMapping × NatTable} (h : LeaksTo heads others lost n s t) (e : Event) :
    Matched (LeaksTo heads others (lost + if Event.isPacket e then 1 else 0) (n + 1))
      (step heads alloc fuel s e) (some (NatC.step t e)) := by
  obtain ⟨m, rest⟩ := s
  obtain ⟨others', hsub, hcard, ⟨nodes, hkeeps⟩, hlength⟩ := h
  have hshort : ∀ b, (t.natMappingList b).length < fuel := fun b =>
    Nat.lt_of_le_of_lt (hlength b) hfuel
  cases e with
  | sweep now =>
    obtain ⟨m', rest', nodes', hsweep, hkeeps'⟩ := natTimeout_eq hkeeps hshort (due now)
    have hstep : NatC.step t (.sweep now) = (sweepTable (due now) t, none) := rfl
    rw [step, hsweep, hstep, Option.map_some]
    refine .intro ⟨others', hsub, hcard, ⟨nodes', hkeeps'⟩, fun b => ?_⟩
    rw [natMappingList_sweepTable]
    exact (List.length_filter_le _ _).trans ((hlength b).trans (Nat.le_succ n))
  | packet iface dir p now later =>
    obtain ⟨m', rest', nodes', a, htranslate, ha, hkeeps'⟩ :=
      doTranslation_eq hkeeps halloc hshort iface p dir now
    have hstep : NatC.step t (.packet iface dir p now later)
        = ((NatC.doTranslation t iface p dir now).1,
          some (NatC.doTranslation t iface p dir now).2) := rfl
    rw [step, htranslate, hstep, Option.map_some]
    refine .intro ⟨insert a others', hsub.trans (Finset.subset_insert a others'), ?_,
      ⟨nodes', hkeeps'⟩, fun b => ?_⟩
    · rw [Finset.card_insert_of_notMem ha, hcard, Nat.add_assoc]
      rfl
    · exact (length_doTranslation_le t iface p dir now b).trans (Nat.succ_le_succ (hlength b))

/-- **What `nat.c` loses**: from the making of its table to the end of it the program does what its
model does, and afterwards what was in use before is in use still, and one more block for each packet
translated. -/
theorem lifetime_leaks (ifaceList : List IfaceInfo) {es : List Event} (halloc : FindsFree alloc)
    (hstart : Starts heads others m) (hinit : NatStack.natTableInit ifaceList = some t)
    (hfuel : es.length < fuel) :
    ∃ (m' : Memory α NatMapping) (lost : Finset α),
      lifetime heads alloc fuel ifaceList es m = some (outputs NatC.step t es, m') ∧
      (∀ a, m'.links.live a = true ↔ m.links.live a = true ∨ a ∈ lost) ∧
      (∀ a ∈ lost, m.links.live a = false) ∧ lost.card = es.countP Event.isPacket := by
  obtain ⟨m₀, hmake, hstarted⟩ := natTableInit_eq hstart ifaceList
  rw [hinit, Option.map_some] at hmake
  have hmatched : Matched (LeaksTo heads others (es.countP Event.isPacket) es.length)
      (attempt (step heads alloc fuel) (m₀, t) es)
      (attempt (fun t e => some (NatC.step t e)) t es) := by
    apply attempt_matched
      (R := fun pre => LeaksTo heads others (pre.countP Event.isPacket) pre.length)
    · intro pre e post hsplit s t h
      have hlength := congrArg List.length hsplit
      rw [List.length_append, List.length_cons] at hlength
      rw [List.length_append, List.length_singleton, List.countP_append, List.countP_singleton]
      exact step_matched halloc (by omega) h e
    · exact ⟨others, Finset.Subset.refl _, rfl, hstarted t hinit⟩
  rw [attempt_some] at hmatched
  obtain ⟨-, hnone⟩ | ⟨⟨m₁, rest⟩, t', sent, hmemory, hmodel, others', hsub, hcard, huse⟩ :=
    hmatched.cases
  · cases hnone
  obtain ⟨rfl, rfl⟩ := Prod.mk.inj (Option.some.inj hmodel)
  obtain ⟨m', hdestroy, hlive⟩ := natTableDestroy_returns huse hfuel
  obtain ⟨⟨nodes, hkeeps⟩, -⟩ := huse
  refine ⟨m', others' \ others, ?_, fun a => ?_, fun a ha => ?_, ?_⟩
  · rw [lifetime, OnMemory.bind_of_eq hmake,
      OnMemory.bind_of_eq (by rw [hmemory, Option.map_some]), OnMemory.bind_of_eq hdestroy]
    rfl
  · rw [hlive, hstart.inUse, Finset.mem_sdiff]
    have hkept := @hsub a
    tauto
  · obtain ⟨ha', hnot⟩ := Finset.mem_sdiff.mp ha
    rw [← Bool.not_eq_true, hstart.inUse]
    rintro (hother | ⟨b, rfl⟩)
    · exact hnot hother
    · exact hkeeps.holds.beside b _ List.mem_cons_self ha'
  · rw [Finset.card_sdiff_of_subset hsub, hcard, Nat.add_sub_cancel_left]

theorem lifetime_leaks_natTopoRun :
    ∃ (m' : Memory ℕ NatMapping) (lost : Finset ℕ),
      lifetime (fun b : Fin hash8Bits => b.val) leastFree 10 [natTopoIfaces.1, natTopoIfaces.2]
          natTopoRun (firstMemory hash8Bits zeroMapping)
        = some (outputs NatC.step natTopo natTopoRun, m') ∧
      (∀ a, m'.links.live a = true ↔
        (firstMemory hash8Bits zeroMapping).links.live a = true ∨ a ∈ lost) ∧
      (∀ a ∈ lost, (firstMemory hash8Bits zeroMapping).links.live a = false) ∧
      lost.card = natTopoRun.countP Event.isPacket :=
  lifetime_leaks _ findsFree_leastFree (starts_firstMemory hash8Bits zeroMapping)
    natTableInit_natTopo (by decide)

end InMemory

end MiniNet.NatStack.NatC
