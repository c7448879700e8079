import MiniNet.NatStack.InMemory
import MiniNet.NatStack.NatNew2.Survival

/-!
# `nat_new_2.c` in memory

A mapping is a node here, and a `struct nat_mapping *` a pointer to it. The code keeps pointers while
it links further nodes in, writes through them, and on a null pointer ends; all of this comes out as
the table says that has places for pointers.
-/

namespace MiniNet.NatStack.NatNew2

open Lib ListHead

namespace InMemory

open NatStack.InMemory

variable {α : Type} [DecidableEq α] (heads : Fin hash8Bits → α) (alloc : LinkHeap α → α)
  (fuel : Nat)

/-! ### The functions -/

def natLookupExternal (rest : NatTable) (externalPort : UInt16) : OnNat α (Option α) :=
  OnMemory.onLinks fun data =>
    listForEachEntryReturn (heads (bucket rest.externalIface.ip externalPort))
      (returnIf (fun e => (data e).externalPort = externalPort) pure) fuel

def natLookupInternal (internalIp : UInt32) (internalPort : UInt16) : OnNat α (Option α) :=
  OnMemory.onLinks fun data =>
    listForEachEntryReturn (heads (bucket internalIp internalPort))
      (returnIf (fun e => (data e).internalIp = internalIp ∧ (data e).internalPort = internalPort)
        pure) fuel

/-- The second mapping is a copy of the first, read from it, and the time is written to the first
only after both are linked in. -/
def natInsertMapping (rest : NatTable) (internalIp : UInt32) (internalPort : UInt16) (now : Nat) :
    OnNat α (α × NatTable) := do
  let r := assignExternalPort rest
  let rest := r.2
  let mappingEntry ← OnMemory.insertTail alloc (heads (bucket internalIp internalPort))
    { internalIp
      internalPort
      externalIp := rest.externalIface.ip
      externalPort := htons r.1
      updateTime := 0
      conn := .zero }
  let entry ← OnMemory.getEntry mappingEntry
  let _ ← OnMemory.insertTail alloc (heads (bucket entry.externalIp entry.externalPort))
    { entry with updateTime := 0, conn := .zero }
  OnMemory.modifyEntry (fun entry => { entry with updateTime := now }) mappingEntry
  return (mappingEntry, rest)

def natGetMappingFromPacket (rest : NatTable) (packet : Packet) (dir : PacketDir) (now : Nat) :
    OnNat α (Option α × NatTable) :=
  let tcpHdr := packetToTcpHdr packet.bytes
  let desPort := TcpHdr.dport packet.bytes tcpHdr
  let srcPort := TcpHdr.sport packet.bytes tcpHdr
  let internalIp := IpHdr.saddr packet.bytes packetToIpHdr
  if dir = .dirIn then do
    let found ← natLookupExternal heads fuel rest desPort
    return (found, rest)
  else do
    match ← natLookupInternal heads fuel internalIp srcPort with
    | some mappingEntry => return (some mappingEntry, rest)
    | none => do
      let r ← natInsertMapping heads alloc rest internalIp srcPort now
      return (some r.1, r.2)

/-- `none` is what reading through a null pointer comes to. -/
def doTranslation (rest : NatTable) (packet : Packet) (dir : PacketDir) (now later : Nat) :
    OnNat α (NatTable × Packet) := do
  let ipHdr := packetToIpHdr
  let tcpHdr := packetToTcpHdr packet.bytes
  let natIp := inetAddr rest.externalIface.ipStr
  let r ← natGetMappingFromPacket heads alloc fuel rest packet dir now
  match r.1 with
  | none => failure
  | some mappingEntry => do
    let entry ← OnMemory.getEntry mappingEntry
    let m :=
      if dir = .dirIn then
        TcpHdr.setDport (IpHdr.setDaddr packet.bytes ipHdr entry.internalIp) tcpHdr
          entry.internalPort
      else
        TcpHdr.setSport (IpHdr.setSaddr packet.bytes ipHdr natIp) tcpHdr entry.externalPort
    OnMemory.modifyEntry (fun entry => { entry with updateTime := later }) mappingEntry
    return (r.2, { packet with bytes := updateChecksums m ipHdr tcpHdr })

/-- Memory and the rest of the table before and after an event. -/
def step (s : Memory α NatMapping × NatTable) :
    Event → Option ((Memory α NatMapping × NatTable) × Option Packet)
  | .packet _ dir p now later =>
    (doTranslation heads alloc fuel s.2 p dir now later s.1).map fun r =>
      ((r.2, r.1.1), some r.1.2)
  | .sweep now =>
    (NatStack.InMemory.natTimeout heads fuel (due now) s.2 s.1).map fun r => ((r.2, r.1), none)

/-- The table is made, the events come in, and the table is destroyed. -/
def lifetime (ifaceList : List IfaceInfo) (es : List Event) : OnNat α (List (Option Packet)) := do
  let rest ← NatStack.InMemory.natTableInit heads ifaceList
  let sent ← fun m => (attempt (step heads alloc fuel) (m, rest) es).map fun r => (r.2, r.1.1)
  natTableDestroy heads fuel
  return sent

/-! ### What they do -/

variable {heads alloc fuel} {m : Memory α NatMapping} {others : Finset α}
  {nodes : Fin hash8Bits → List α} {rest t : NatTable} {list : Buckets hash8Bits NatMapping}

theorem natLookupExternal_eq (hm : Holds m heads others nodes list)
    (hfuel : ∀ b, (list b).length < fuel) (port : UInt16) :
    ∃ r, natLookupExternal heads fuel rest port m = some (r, m) ∧
      Option.Rel (PointsTo nodes) r (NatNew2.natLookupExternal (rest.withList list) port) :=
  hm.find _ (fun entry => entry.externalPort = port) hfuel

theorem natLookupInternal_eq (rest : NatTable) (hm : Holds m heads others nodes list)
    (hfuel : ∀ b, (list b).length < fuel) (ip : UInt32) (port : UInt16) :
    ∃ r, natLookupInternal heads fuel ip port m = some (r, m) ∧
      Option.Rel (PointsTo nodes) r (NatNew2.natLookupInternal (rest.withList list) ip port) :=
  hm.find _ (fun entry => entry.internalIp = ip ∧ entry.internalPort = port) hfuel

theorem assignExternalPort_withList (rest : NatTable) (list : Buckets hash8Bits NatMapping) :
    assignExternalPort (rest.withList list)
      = ((assignExternalPort rest).1, (assignExternalPort rest).2.withList list) := by
  have hscan : ∀ n, scanPorts (rest.withList list) n = scanPorts rest n := fun _ => rfl
  rw [assignExternalPort, assignExternalPort, hscan]
  cases scanPorts rest (natPortMax + 1 - natPortMin) with
  | none => rfl
  | some i => rfl

theorem natInsertMapping_eq (h : Keeps heads others nodes (m, rest) t)
    (halloc : FindsFree alloc) (ip : UInt32) (port : UInt16) (now : Nat) :
    ∃ a m' rest' nodes', natInsertMapping heads alloc rest ip port now m = some ((a, rest'), m') ∧
      Keeps heads others nodes' (m', rest') (NatNew2.natInsertMapping t ip port now).2 ∧
      PointsTo nodes' a (NatNew2.natInsertMapping t ip port now).1 := by
  obtain ⟨list, hm, rfl⟩ := h.withList
  rw [NatNew2.natInsertMapping, assignExternalPort_withList]
  generalize hr : assignExternalPort rest = r
  obtain ⟨port', rest'⟩ := r
  generalize hentry : ({
      internalIp := ip
      internalPort := port
      externalIp := rest'.externalIface.ip
      externalPort := htons port'
      updateTime := 0
      conn := .zero } : NatMapping) = entry
  obtain ⟨a, m₁, hfirst, hm₁⟩ := hm.insertTail halloc (bucket ip port) entry
  have ha₁ := hm.pointsTo_new (bucket ip port) a
  have hget := hm₁.getEntry ha₁
  have hdata := hm₁.get?_eq ha₁
  rw [Buckets.get?_addTail_self] at hdata
  rw [← Option.some.inj hdata] at hget
  obtain ⟨a', m₂, hsecond, hm₂⟩ := hm₁.insertTail halloc
    (bucket entry.externalIp entry.externalPort) { entry with updateTime := 0, conn := .zero }
  have ha₂ := ha₁.addTail (bucket entry.externalIp entry.externalPort) a'
  obtain ⟨m₃, hmodify, hm₃⟩ := hm₂.modifyEntry ha₂ fun entry => { entry with updateTime := now }
  refine ⟨a, m₃, rest', _, ?_, ⟨?_, ?_⟩, ha₂⟩
  · rw [natInsertMapping, hr]
    dsimp only
    rw [hentry, OnMemory.bind_of_eq hfirst, OnMemory.bind_of_eq hget, OnMemory.bind_of_eq hsecond,
      OnMemory.bind_of_eq hmodify]
    rfl
  · subst hentry
    rw [Buckets.modifyAt_addTail (Buckets.get?_addTail_self _ _ _),
      Buckets.modifyAt_addTail_self] at hm₃
    exact hm₃
  · rfl

theorem natGetMappingFromPacket_eq (h : Keeps heads others nodes (m, rest) t)
    (halloc : FindsFree alloc) (hfuel : ∀ b, (t.natMappingList b).length < fuel) (p : Packet)
    (dir : PacketDir) (now : Nat) : ∃ r m' rest' nodes',
      natGetMappingFromPacket heads alloc fuel rest p dir now m = some ((r, rest'), m') ∧
      Keeps heads others nodes' (m', rest') (NatNew2.natGetMappingFromPacket t p dir now).2 ∧
      Option.Rel (PointsTo nodes') r (NatNew2.natGetMappingFromPacket t p dir now).1 := by
  obtain ⟨list, hm, rfl⟩ := h.withList
  rw [natGetMappingFromPacket, NatNew2.natGetMappingFromPacket]
  dsimp only
  by_cases hdir : dir = .dirIn
  · rw [if_pos hdir, if_pos hdir]
    obtain ⟨r, hlookup, hrel⟩ := natLookupExternal_eq hm hfuel
      (TcpHdr.dport p.bytes (packetToTcpHdr p.bytes))
    exact ⟨r, m, rest, nodes, OnMemory.bind_of_eq hlookup, h, hrel⟩
  · rw [if_neg hdir, if_neg hdir]
    obtain ⟨r, hlookup, hrel⟩ := natLookupInternal_eq rest hm hfuel
      (IpHdr.saddr p.bytes packetToIpHdr) (TcpHdr.sport p.bytes (packetToTcpHdr p.bytes))
    rw [OnMemory.bind_of_eq hlookup]
    generalize NatNew2.natLookupInternal (rest.withList list) _ _ = loc at hrel ⊢
    cases hrel with
    | some ha => exact ⟨_, m, rest, nodes, rfl, h, .some ha⟩
    | none =>
      obtain ⟨a, m', rest', nodes', hinsert, h', ha⟩ := natInsertMapping_eq h halloc
        (IpHdr.saddr p.bytes packetToIpHdr) (TcpHdr.sport p.bytes (packetToTcpHdr p.bytes)) now
      exact ⟨some a, m', rest', nodes', OnMemory.bind_of_eq hinsert, h', .some ha⟩

theorem doTranslation_eq (h : Keeps heads others nodes (m, rest) t) (halloc : FindsFree alloc)
    (hfuel : ∀ b, (t.natMappingList b).length < fuel) (iface : IfaceInfo) (p : Packet)
    (dir : PacketDir) (now later : Nat) :
    Matched (fun s t' => ∃ nodes', Keeps heads others nodes' s t')
      ((doTranslation heads alloc fuel rest p dir now later m).map fun r => ((r.2, r.1.1), r.1.2))
      (NatNew2.doTranslation t iface p dir now later) := by
  obtain ⟨r, m₁, rest₁, nodes₁, hmapping, h₁, hrel⟩ :=
    natGetMappingFromPacket_eq h halloc hfuel p dir now
  have hip : rest.externalIface = t.externalIface := by
    rw [← h.rest]
    rfl
  rw [doTranslation, NatNew2.doTranslation]
  dsimp only
  rw [OnMemory.bind_of_eq hmapping, hip]
  generalize NatNew2.natGetMappingFromPacket t p dir now = found at h₁ hrel ⊢
  obtain ⟨loc, t₁⟩ := found
  cases hrel with
  | none => trivial
  | @some a loc ha =>
    obtain ⟨m', hmodify, hm'⟩ := h₁.holds.modifyEntry ha fun entry =>
      { entry with updateTime := later }
    have hrest : rest₁.withList (touch t₁ loc later).natMappingList = touch t₁ loc later :=
      congrArg (touch · loc later) h₁.rest
    dsimp only
    rw [OnMemory.bind_of_eq (h₁.holds.getEntry ha), OnMemory.bind_of_eq hmodify, Option.bind_some,
      h₁.holds.get?_eq ha]
    exact ⟨⟨nodes₁, hm', hrest⟩, rfl⟩

/-! ### Runs -/

theorem length_natInsertMapping_le (t : NatTable) (ip : UInt32) (port : UInt16) (now : Nat)
    (b : Fin hash8Bits) :
    ((NatNew2.natInsertMapping t ip port now).2.natMappingList b).length
      ≤ (t.natMappingList b).length + 2 := by
  have hlist : (assignExternalPort t).2.natMappingList = t.natMappingList :=
    congrArg (fun r : UInt16 × NatTable => r.2.natMappingList)
      (assignExternalPort_withList t t.natMappingList)
  apply (Buckets.length_addTail_le _ _ _ b).trans
  apply Nat.succ_le_succ
  apply (Buckets.length_addTail_le _ _ _ b).trans
  rw [hlist]

theorem length_natGetMappingFromPacket_le (t : NatTable) (p : Packet) (dir : PacketDir) (now : Nat)
    (b : Fin hash8Bits) :
    ((NatNew2.natGetMappingFromPacket t p dir now).2.natMappingList b).length
      ≤ (t.natMappingList b).length + 2 := by
  unfold NatNew2.natGetMappingFromPacket
  dsimp only
  split
  · exact Nat.le_add_right _ 2
  · split
    · exact Nat.le_add_right _ 2
    · exact length_natInsertMapping_le t _ _ now b

theorem length_doTranslation_le {t' : NatTable} {iface : IfaceInfo} {p out : Packet}
    {dir : PacketDir} {now later : Nat}
    (h : NatNew2.doTranslation t iface p dir now later = some (t', out)) (b : Fin hash8Bits) :
    (t'.natMappingList b).length ≤ (t.natMappingList b).length + 2 := by
  obtain ⟨loc, -, hentry⟩ := Option.bind_eq_some_iff.mp h
  obtain ⟨entry, -, heq⟩ := Option.map_eq_some_iff.mp hentry
  obtain ⟨rfl, -⟩ := Prod.mk.inj heq
  rw [touch, Buckets.length_modifyAt]
  exact length_natGetMappingFromPacket_le t p dir now b

theorem step_matched (halloc : FindsFree alloc) {n : Nat} (hfuel : 2 * n < fuel)
    {s : Memory α NatMapping × NatTable} (h : InUse heads others (2 * n) s t) (e : Event) :
    Matched (InUse heads others (2 * (n + 1))) (step heads alloc fuel s e) (advance t e) := by
  obtain ⟨m, rest⟩ := s
  obtain ⟨⟨nodes, hkeeps⟩, hlength⟩ := h
  have hshort : ∀ b, (t.natMappingList b).length < fuel := fun b =>
    Nat.lt_of_le_of_lt (hlength b) hfuel
  cases e with
  | sweep now =>
    obtain ⟨m', rest', nodes', hsweep, hkeeps'⟩ := natTimeout_eq hkeeps hshort (due now)
    have hadvance : advance t (.sweep now) = some (sweepTable (due now) t, none) := rfl
    have hnext : InUse heads others (2 * (n + 1)) (m', rest') (sweepTable (due now) t) := by
      refine ⟨⟨nodes', hkeeps'⟩, fun b => ?_⟩
      rw [natMappingList_sweepTable]
      exact (List.length_filter_le _ _).trans ((hlength b).trans (by omega))
    rw [step, hsweep, hadvance, Option.map_some]
    exact .intro hnext
  | packet iface dir p now later =>
    have hcases := (doTranslation_eq hkeeps halloc hshort iface p dir now later).cases
    rw [step, advance, NatNew2.step]
    obtain ⟨hmemory, hmodel⟩ | ⟨s', t', out, hmemory, hmodel, nodes', hkeeps'⟩ := hcases
    · rw [Option.map_eq_none_iff] at hmemory
      rw [hmemory, hmodel]
      trivial
    · obtain ⟨r, hr, heq⟩ := Option.map_eq_some_iff.mp hmemory
      obtain ⟨rfl, rfl⟩ := Prod.mk.inj heq
      rw [hr, hmodel]
      refine ⟨⟨⟨nodes', hkeeps'⟩, fun b => ?_⟩, rfl⟩
      have hstep := length_doTranslation_le hmodel b
      have hbound := hlength b
      dsimp only
      omega

/-- **`nat_new_2.c` in memory**: from the making of its table to the end of it the program does what
its model does, and ends early in the same runs; when it comes to its end, what is in use is exactly
what was in use before. -/
theorem lifetime_returns (ifaceList : List IfaceInfo) {es : List Event} (halloc : FindsFree alloc)
    (hstart : Starts heads others m) (hfuel : 2 * es.length < fuel) :
    ((lifetime heads alloc fuel ifaceList es m).map Prod.fst
      = (NatStack.natTableInit ifaceList).bind fun t =>
        (run next (some t) es).map fun _ => outputs NatNew2.step (some t) es) ∧
    ∀ sent m', lifetime heads alloc fuel ifaceList es m = some (sent, m') →
      ∀ a, m'.links.live a = m.links.live a := by
  obtain ⟨m₀, hinit, hstarted⟩ := natTableInit_eq hstart ifaceList
  cases htable : NatStack.natTableInit ifaceList with
  | none =>
    have hnone : lifetime heads alloc fuel ifaceList es m = none := by
      rw [lifetime, OnMemory.bind_of_none (by rw [hinit, htable, Option.map_none])]
    rw [hnone]
    exact ⟨rfl, nofun⟩
  | some t =>
    rw [htable, Option.map_some] at hinit
    have hmatched : Matched (InUse heads others (2 * es.length))
        (attempt (step heads alloc fuel) (m₀, t) es) (attempt advance t es) := by
      apply attempt_matched (R := fun pre => InUse heads others (2 * pre.length))
      · intro pre e post hsplit s t h
        have hlength := congrArg List.length hsplit
        rw [List.length_append, List.length_cons] at hlength
        rw [List.length_append, List.length_singleton]
        exact step_matched halloc (by omega) h e
      · exact hstarted t htable
    rw [attempt_advance] at hmatched
    rw [Option.bind_some, lifetime, OnMemory.bind_of_eq hinit]
    obtain ⟨hmemory, hmodel⟩ | ⟨⟨m₁, rest⟩, t', sent, hmemory, hmodel, huse⟩ := hmatched.cases
    · rw [OnMemory.bind_of_none (by rw [hmemory, Option.map_none]), Option.map_eq_none_iff.mp hmodel]
      exact ⟨rfl, nofun⟩
    · obtain ⟨t'', hrun, heq⟩ := Option.map_eq_some_iff.mp hmodel
      obtain ⟨rfl, rfl⟩ := Prod.mk.inj heq
      obtain ⟨m', hdestroy, hlive⟩ := natTableDestroy_returns huse hfuel
      rw [OnMemory.bind_of_eq (by rw [hmemory, Option.map_some]), OnMemory.bind_of_eq hdestroy, hrun]
      refine ⟨rfl, fun sent m'' hend a => ?_⟩
      obtain ⟨-, rfl⟩ := Prod.mk.inj (Option.some.inj hend)
      exact Bool.eq_iff_iff.mpr ((hlive a).trans (hstart.inUse a).symm)

/-- A flow opened from inside and an answer to it. -/
theorem lifetime_returns_natTopoRun :
    ((lifetime (fun b : Fin hash8Bits => b.val) leastFree 10
        [natTopoIfaces.1, natTopoIfaces.2] (natTopoRun.take 2)
        (firstMemory hash8Bits zeroMapping)).map Prod.fst
      = (NatStack.natTableInit [natTopoIfaces.1, natTopoIfaces.2]).bind fun t =>
        (run next (some t) (natTopoRun.take 2)).map fun _ =>
          outputs NatNew2.step (some t) (natTopoRun.take 2)) ∧
    ∀ sent m', lifetime (fun b : Fin hash8Bits => b.val) leastFree 10
        [natTopoIfaces.1, natTopoIfaces.2] (natTopoRun.take 2) (firstMemory hash8Bits zeroMapping)
        = some (sent, m') →
      ∀ a, m'.links.live a = (firstMemory hash8Bits zeroMapping).links.live a :=
  lifetime_returns _ findsFree_leastFree (starts_firstMemory hash8Bits zeroMapping) (by decide)

end InMemory

end MiniNet.NatStack.NatNew2
