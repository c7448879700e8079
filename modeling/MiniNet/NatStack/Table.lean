import MiniNet.Lib.Buckets
import MiniNet.Lib.Run
import MiniNet.NatStack.Iface

/-!
# The mapping table

The data of `nat.h`, and the functions that `nat.c` and `nat_new_2.c` have in common word for word:
the hash, `free_port`, `nat_table_init`, and the sweep of `nat_timeout` up to the test that decides
which entries go. Addresses and ports of an entry are kept as they stand in a packet, except that
`nat_new_2.c` keeps the external address in host order.

A `time_t` is a natural number: `time` counts from the epoch, and the differences the code takes are
taken in the integers. The events of a run are the same for both versions, a packet handed to
`do_translation` or one sweep. `nat.c` reads the clock at most once in a step, `nat_new_2.c` twice
for a packet of a new flow, so a packet carries two readings.
-/

namespace MiniNet.NatStack

open Lib

abbrev hash8Bits : Nat := 256
def natPortMin : Nat := 12345
def natPortMax : Nat := 23456
def tcpEstablishedTimeout : Nat := 60

inductive PacketDir
  | dirIn
  | dirOut
  | dirInvalid
  deriving DecidableEq

theorem PacketDir.dirOut_ne_dirIn : PacketDir.dirOut ≠ .dirIn := nofun

structure NatConnection where
  internalFin : UInt8
  externalFin : UInt8
  internalSeqEnd : UInt32
  externalSeqEnd : UInt32
  internalAck : UInt32
  externalAck : UInt32
  deriving DecidableEq

/-- What `bzero` leaves. -/
def NatConnection.zero : NatConnection := ⟨0, 0, 0, 0, 0, 0⟩

structure NatMapping where
  internalIp : UInt32
  externalIp : UInt32
  internalPort : UInt16
  externalPort : UInt16
  updateTime : Nat
  conn : NatConnection
  deriving DecidableEq

def NatMapping.internal (entry : NatMapping) : Endpoint := (entry.internalIp, entry.internalPort)

structure NatTable where
  natMappingList : Buckets hash8Bits NatMapping
  internalIface : IfaceInfo
  externalIface : IfaceInfo
  assignedPorts : UInt16 → UInt8

namespace NatTable

/-- `list_add_tail`. -/
def addTail (t : NatTable) (b : Fin hash8Bits) (entry : NatMapping) : NatTable :=
  { t with natMappingList := Buckets.addTail t.natMappingList b entry }

def setPort (t : NatTable) (port : UInt16) (v : UInt8) : NatTable :=
  { t with assignedPorts := Function.update t.assignedPorts port v }

def withList (t : NatTable) (list : Buckets hash8Bits NatMapping) : NatTable :=
  { t with natMappingList := list }

@[simp] theorem natMappingList_withList (t : NatTable) (list : Buckets hash8Bits NatMapping) :
    (t.withList list).natMappingList = list := rfl

@[simp] theorem withList_withList (t : NatTable) (list list' : Buckets hash8Bits NatMapping) :
    (t.withList list).withList list' = t.withList list' := rfl

def mappings (t : NatTable) : List NatMapping := Buckets.scan t.natMappingList

theorem mappings_eq_nil {t : NatTable} (hbuckets : ∀ b, t.natMappingList b = []) :
    t.mappings = [] :=
  Buckets.scan_eq_nil hbuckets

/-- The address the external interface has in packets. -/
def natIp (t : NatTable) : UInt32 := inetAddr t.externalIface.ipStr

end NatTable

/-- `hash8` over the `len` bytes of a variable. -/
def hash8 (v len : Nat) : UInt8 :=
  (List.range len).foldl (fun result i => result ^^^ UInt8.ofNat (v / 256 ^ i)) 0

def natHash (addr : UInt32) (port : UInt16) : Nat :=
  (hash8 addr.toNat 4 ^^^ hash8 port.toNat 2).toNat

def bucket (addr : UInt32) (port : UInt16) : Fin hash8Bits :=
  ⟨natHash addr port % hash8Bits, Nat.mod_lt _ (by decide)⟩

/-- The scan of `assign_external_port`: the first port of the `n` from `NAT_PORT_MIN` on whose cell
is zero. -/
def scanPorts (t : NatTable) (n : Nat) : Option Nat :=
  (List.range' natPortMin n).find? fun i => t.assignedPorts (UInt16.ofNat i) = 0

def freePort (t : NatTable) (port : UInt16) : NatTable :=
  if natPortMin ≤ port.toNat ∧ port.toNat ≤ natPortMax then t.setPort port 0 else t

/-- A port as `free_port` takes it. -/
def InPortRange (port : UInt16) : Prop := natPortMin ≤ port.toNat ∧ port.toNat ≤ natPortMax

/-- The port that a scan of `n` ports finds: free, and all before it in use. -/
structure LeastFree (t : NatTable) (n : Nat) (port : UInt16) : Prop where
  lo : natPortMin ≤ port.toNat
  hi : port.toNat < natPortMin + n
  free : t.assignedPorts port = 0
  least : ∀ q : UInt16, natPortMin ≤ q.toNat → q.toNat < port.toNat → t.assignedPorts q ≠ 0

theorem InPortRange.ne_zero {port : UInt16} (h : InPortRange port) : port ≠ 0 := by
  rintro rfl
  exact absurd h.1 (by decide)

theorem LeastFree.inPortRange {t : NatTable} {n : Nat} {port : UInt16} (h : LeastFree t n port)
    (hn : natPortMin + n ≤ natPortMax + 1) : InPortRange port :=
  ⟨h.lo, Nat.le_of_lt_succ (Nat.lt_of_lt_of_le h.hi hn)⟩

theorem scanPorts_cases (t : NatTable) {n : Nat} (hn : natPortMin + n ≤ 65536) :
    (∃ port, LeastFree t n port ∧ scanPorts t n = some port.toNat) ∨
      ((∀ q : UInt16, natPortMin ≤ q.toNat → q.toNat < natPortMin + n → t.assignedPorts q ≠ 0) ∧
        scanPorts t n = none) := by
  cases hscan : scanPorts t n with
  | some i =>
    rw [scanPorts, List.find?_range'_eq_some, List.mem_range'_1, decide_eq_true_eq] at hscan
    obtain ⟨hfree, ⟨hlo, hhi⟩, hleast⟩ := hscan
    have hi : (UInt16.ofNat i).toNat = i :=
      UInt16.toNat_ofNat_of_lt' (Nat.lt_of_lt_of_le hhi hn)
    refine .inl ⟨UInt16.ofNat i, ⟨?_, ?_, hfree, fun q hqlo hqhi => ?_⟩, ?_⟩
    · rwa [hi]
    · rwa [hi]
    · have hq := hleast q.toNat hqlo (hi ▸ hqhi)
      rw [UInt16.ofNat_toNat] at hq
      simpa using hq
    · rw [hi]
  | none =>
    rw [scanPorts, List.find?_range'_eq_none] at hscan
    refine .inr ⟨fun q hlo hhi => ?_, rfl⟩
    have hq := hscan q.toNat hlo hhi
    rw [UInt16.ofNat_toNat] at hq
    simpa using hq

/-- Both interfaces have to be there, else the program ends. -/
def natTableInit (ifaceList : List IfaceInfo) : Option NatTable := do
  let internalIface ← ifNameToIface ifaceList "n1-eth0"
  let externalIface ← ifNameToIface ifaceList "n1-eth1"
  return { natMappingList := fun _ => [], internalIface, externalIface, assignedPorts := fun _ => 0 }

theorem natTableInit_spec {ifaceList : List IfaceInfo} {t : NatTable}
    (h : natTableInit ifaceList = some t) :
    (∀ b, t.natMappingList b = []) ∧ (∀ p, t.assignedPorts p = 0) := by
  simp only [natTableInit, Option.bind_eq_bind, Option.pure_def, Option.bind_eq_some_iff,
    Option.some.injEq] at h
  obtain ⟨_, _, _, _, rfl⟩ := h
  exact ⟨fun _ => rfl, fun _ => rfl⟩

/-! ### The sweep

`list_for_each_entry_safe` over one bucket after the other; an entry that is due gives its port back
and is unlinked. The ports are freed as the entries hold them. -/

/-- The loop over one bucket: the entries that stay, and the table with the ports given back. -/
def sweepEntries (due : NatMapping → Bool) : List NatMapping → NatTable → List NatMapping × NatTable
  | [], t => ([], t)
  | entry :: rest, t =>
    if due entry then sweepEntries due rest (freePort t entry.externalPort)
    else
      let (kept, t) := sweepEntries due rest t
      (entry :: kept, t)

def sweepBucket (due : NatMapping → Bool) (t : NatTable) (b : Fin hash8Bits) : NatTable :=
  let (kept, t) := sweepEntries due (t.natMappingList b) t
  { t with natMappingList := Function.update t.natMappingList b kept }

def sweepTable (due : NatMapping → Bool) (t : NatTable) : NatTable :=
  (List.finRange hash8Bits).foldl (sweepBucket due) t

section Sweep

variable (due : NatMapping → Bool) (t : NatTable)

/-- The ports that the entries give back. -/
def freed (entries : List NatMapping) : List UInt16 := (entries.filter due).map (·.externalPort)

theorem sweepEntries_eq (entries : List NatMapping) :
    sweepEntries due entries t =
      (entries.filter fun entry => !due entry, (freed due entries).foldl freePort t) := by
  induction entries generalizing t with
  | nil => rfl
  | cons entry rest ih =>
    cases hdue : due entry with
    | true => simp [sweepEntries, freed, hdue, ih]
    | false => simp [sweepEntries, freed, hdue, ih]

theorem freePort_withList (port : UInt16) (list : Buckets hash8Bits NatMapping) :
    freePort (t.withList list) port = (freePort t port).withList list := by
  unfold freePort
  split
  · rfl
  · rfl

theorem freePorts_withList (ports : List UInt16) (list : Buckets hash8Bits NatMapping) :
    ports.foldl freePort (t.withList list) = (ports.foldl freePort t).withList list := by
  induction ports generalizing t with
  | nil => rfl
  | cons port ports ih => rw [List.foldl_cons, List.foldl_cons, freePort_withList, ih]

/-- Freeing ports does nothing to the lists. -/
theorem natMappingList_freePorts (ports : List UInt16) :
    (ports.foldl freePort t).natMappingList = t.natMappingList := by
  have hself : t.withList t.natMappingList = t := rfl
  rw [← hself, freePorts_withList, NatTable.natMappingList_withList]
  rfl

theorem externalIface_freePorts (ports : List UInt16) :
    (ports.foldl freePort t).externalIface = t.externalIface := by
  induction ports generalizing t with
  | nil => rfl
  | cons port ports ih =>
    rw [List.foldl_cons, ih, freePort]
    split
    · rfl
    · rfl

theorem assignedPorts_freePort (port p : UInt16) :
    (freePort t port).assignedPorts p =
      if p = port ∧ natPortMin ≤ p.toNat ∧ p.toNat ≤ natPortMax then 0 else t.assignedPorts p := by
  by_cases hp : p = port
  · subst hp
    by_cases hrange : natPortMin ≤ p.toNat ∧ p.toNat ≤ natPortMax
    · simp [freePort, hrange, NatTable.setPort]
    · simp [freePort, hrange]
  · rw [if_neg fun h => hp h.1, freePort]
    split
    · exact Function.update_of_ne hp _ _
    · rfl

theorem assignedPorts_freePorts (ports : List UInt16) (p : UInt16) :
    (ports.foldl freePort t).assignedPorts p =
      if p ∈ ports ∧ natPortMin ≤ p.toNat ∧ p.toNat ≤ natPortMax then 0
      else t.assignedPorts p := by
  induction ports generalizing t with
  | nil => rfl
  | cons port ports ih =>
    simp only [List.foldl_cons, ih, assignedPorts_freePort, ← ite_or, ← or_and_right,
      List.mem_cons, or_comm]

theorem sweepBucket_eq (b : Fin hash8Bits) :
    sweepBucket due t b = ((freed due (t.natMappingList b)).foldl freePort t).withList
      (Function.update t.natMappingList b
        ((t.natMappingList b).filter fun entry => !due entry)) := by
  rw [sweepBucket, sweepEntries_eq]
  simp only [natMappingList_freePorts, NatTable.withList]

theorem sweepBuckets_eq {l : List (Fin hash8Bits)} (hl : l.Nodup) :
    l.foldl (sweepBucket due) t =
      ((freed due (l.flatMap t.natMappingList)).foldl freePort t).withList fun b =>
        if b ∈ l then (t.natMappingList b).filter fun entry => !due entry
        else t.natMappingList b := by
  induction l generalizing t with
  | nil => rfl
  | cons b l ih =>
    obtain ⟨hb, hl⟩ := List.nodup_cons.mp hl
    have hfreed : freed due ((b :: l).flatMap t.natMappingList) =
        freed due (t.natMappingList b) ++ freed due (l.flatMap t.natMappingList) := by
      simp only [freed, List.flatMap_cons, List.filter_append, List.map_append]
    rw [List.foldl_cons, ih _ hl, sweepBucket_eq, NatTable.natMappingList_withList,
      Buckets.flatMap_update_of_not_mem _ hb, freePorts_withList, NatTable.withList_withList,
      hfreed, List.foldl_append]
    congr 1
    funext c
    by_cases hc : c = b
    · subst hc
      simp [hb]
    · simp [hc]

/-- **A sweep** keeps the entries that are not due, in their order, and frees the ports that the
others store. -/
theorem sweepTable_eq :
    sweepTable due t = ((freed due t.mappings).foldl freePort t).withList fun b =>
      (t.natMappingList b).filter fun entry => !due entry := by
  rw [sweepTable, sweepBuckets_eq due t (List.nodup_finRange _)]
  simp only [List.mem_finRange, if_true]
  rfl

theorem natMappingList_sweepTable (b : Fin hash8Bits) :
    (sweepTable due t).natMappingList b = (t.natMappingList b).filter fun entry => !due entry := by
  rw [sweepTable_eq, NatTable.natMappingList_withList]

theorem mappings_sweepTable :
    (sweepTable due t).mappings = t.mappings.filter fun entry => !due entry := by
  rw [NatTable.mappings, Buckets.scan, funext (natMappingList_sweepTable due t),
    NatTable.mappings, Buckets.scan, List.filter_flatMap]

theorem externalIface_sweepTable : (sweepTable due t).externalIface = t.externalIface := by
  rw [sweepTable_eq, NatTable.withList, externalIface_freePorts]

theorem assignedPorts_sweepTable (p : UInt16) :
    (sweepTable due t).assignedPorts p =
      if p ∈ freed due t.mappings ∧ natPortMin ≤ p.toNat ∧ p.toNat ≤ natPortMax then 0
      else t.assignedPorts p := by
  rw [sweepTable_eq, NatTable.withList, assignedPorts_freePorts]

theorem mem_freed {entries : List NatMapping} {port : UInt16} :
    port ∈ freed due entries ↔ ∃ entry ∈ entries, due entry = true ∧ entry.externalPort = port := by
  simp only [freed, List.mem_map, List.mem_filter, and_assoc]

variable {due t}

/-- A sweep with nothing due leaves the table as it is. -/
theorem sweepTable_of_none_due (h : ∀ entry ∈ t.mappings, due entry = false) :
    sweepTable due t = t := by
  have hfreed : freed due t.mappings = [] := by
    rw [freed, List.map_eq_nil_iff, List.filter_eq_nil_iff]
    intro entry hentry
    simp [h entry hentry]
  have hkept : ∀ b, (t.natMappingList b).filter (fun entry => !due entry)
      = t.natMappingList b := by
    intro b
    rw [List.filter_eq_self]
    intro entry hentry
    rw [h entry (Buckets.mem_scan.mpr ⟨b, hentry⟩), Bool.not_false]
  rw [sweepTable_eq, hfreed, List.foldl_nil, funext hkept]
  rfl

end Sweep

/-! ### Runs -/

inductive Event
  | packet (iface : IfaceInfo) (dir : PacketDir) (p : Packet) (now later : Nat)
  | sweep (now : Nat)

namespace Event

def readings : Event → List Nat
  | packet _ _ _ now later => [now, later]
  | sweep now => [now]

def Complete : Event → Prop
  | packet _ _ p _ _ => p.CompleteTcp
  | sweep _ => True

instance : DecidablePred Complete
  | packet _ _ p _ _ => inferInstanceAs (Decidable p.CompleteTcp)
  | sweep _ => inferInstanceAs (Decidable True)

end Event

/-! ### The topology of `nat_topo.py`

The NAT host with its two interfaces, the table they start from, and bare segments between the two
hosts: where a statement is shown at work, it is here. -/

/-- A segment of 54 bytes with a header of five words and nothing set but what the translation
reads. -/
def Packet.bare (src dst : Endpoint) : Packet :=
  let m : Mem := fun i => if i = 14 then 0x45 else if i = 17 then 40 else if i = 23 then 6 else 0
  let m := IpHdr.setDaddr (IpHdr.setSaddr m 14 src.1) 14 dst.1
  { bytes := TcpHdr.setDport (TcpHdr.setSport m 34 src.2) 34 dst.2, len := 54 }

theorem Packet.source_bare (src dst : Endpoint) : (Packet.bare src dst).source = src := by
  have htcp : packetToTcpHdr (Packet.bare src dst).bytes = 34 := by
    trans packetToTcpHdr fun _ => 0x45
    · apply packetToTcpHdr_congr
      simp (disch := decide) only [Packet.bare, etherHdrSize, TcpHdr.setDport, TcpHdr.setSport,
        IpHdr.setDaddr, IpHdr.setSaddr, store16_apply_of_disjoint, store32_apply_of_disjoint,
        if_true]
    · rfl
  rw [Packet.source, htcp]
  simp (disch := decide) only [Packet.bare, IpHdr.saddr, TcpHdr.sport, TcpHdr.setDport,
    TcpHdr.setSport, IpHdr.setDaddr, IpHdr.setSaddr, packetToIpHdr, etherHdrSize,
    load32_store16_of_disjoint, load32_store32_of_disjoint, load32_store32,
    load16_store16_of_disjoint, load16_store16]

/-- `n1-eth0` at 10.21.0.254 and `n1-eth1` at 159.226.39.43. -/
def natTopoIfaces : IfaceInfo × IfaceInfo :=
  (readIfaceInfo "n1-eth0" (htonl 0x0a1500fe), readIfaceInfo "n1-eth1" (htonl 0x9fe2272b))

def natTopo : NatTable where
  natMappingList _ := []
  internalIface := natTopoIfaces.1
  externalIface := natTopoIfaces.2
  assignedPorts _ := 0

theorem natTableInit_natTopo :
    natTableInit [natTopoIfaces.1, natTopoIfaces.2] = some natTopo := by
  rw [natTableInit,
    show ifNameToIface [natTopoIfaces.1, natTopoIfaces.2] "n1-eth0" = some natTopoIfaces.1 from rfl,
    show ifNameToIface [natTopoIfaces.1, natTopoIfaces.2] "n1-eth1" = some natTopoIfaces.2 from rfl]
  rfl

def hostH1 : Endpoint := (htonl 0x0a150001, htons 40000)

def hostH2 : Endpoint := (htonl 0x9fe2277b, htons 80)

/-- A flow opened from inside, an answer to it, a stray segment from outside, and a sweep. -/
def natTopoRun : List Event :=
  [ .packet natTopoIfaces.1 .dirOut (Packet.bare hostH1 hostH2) 100 100,
    .packet natTopoIfaces.2 .dirIn (Packet.bare hostH2 (natTopo.natIp, htons 12345)) 101 101,
    .packet natTopoIfaces.2 .dirIn (Packet.bare hostH2 (natTopo.natIp, htons 443)) 101 102,
    .sweep 500 ]

end MiniNet.NatStack
