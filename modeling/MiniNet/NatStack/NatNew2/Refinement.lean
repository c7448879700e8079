import MiniNet.NatStack.AbstractNat
import MiniNet.NatStack.NatNew2.Code

/-!
# `nat_new_2.c` refines the abstract NAT

A bucket holds entries of both kinds and of every flow that collides there, and a lookup takes the
first that matches, so it may well find the entry that was made for the other lookup. That does no
harm: every entry says nothing but a lease, so whichever is found says the right one. All that is
left to know of the buckets is that each lease has an entry in the two that are looked into.
-/

namespace MiniNet.NatStack.NatNew2

open Lib

/-- A table of leases in which both lookups of each lease have something to find. -/
structure Indexed (iface : IfaceInfo) (past : List Event) (t : NatTable) (M : Leases Endpoint) :
    Prop extends Represents iface past t M where
  internal : ∀ k n, (k, n) ∈ M.entries →
    ∃ entry ∈ t.natMappingList (bucket k.1 k.2), entry.internal = k
  external : ∀ k n, (k, n) ∈ M.entries →
    ∃ entry ∈ t.natMappingList (bucket iface.ip (wirePort n)), entry.externalPort = wirePort n

def portOf (t : NatTable) (e : Endpoint) : Option UInt16 :=
  ((natLookupInternal t e.1 e.2).bind (Buckets.get? t.natMappingList)).map (·.externalPort)

/-! ### What `do_translation` does -/

section Translation

variable {t t' : NatTable} {iface : IfaceInfo} {p : Packet} {dir : PacketDir} {now later : Nat}
  {loc : Location} {entry : NatMapping}

theorem doTranslation_in (hlookup : natLookupExternal t p.dest.2 = some loc)
    (hentry : Buckets.get? t.natMappingList loc = some entry) :
    doTranslation t iface p .dirIn now later
      = some (touch t loc later, p.withDest entry.internal) := by
  have hget : natGetMappingFromPacket t p .dirIn now = (some loc, t) := by
    rw [natGetMappingFromPacket]
    simp only [if_true]
    exact congrArg (fun l => (l, t)) hlookup
  simp only [doTranslation, hget, Option.bind_some, hentry, Option.map_some, if_true]
  rfl

theorem natGetMappingFromPacket_known (hdir : dir ≠ .dirIn)
    (hlookup : natLookupInternal t p.source.1 p.source.2 = some loc) :
    natGetMappingFromPacket t p dir now = (some loc, t) := by
  rw [natGetMappingFromPacket]
  simp only [if_neg hdir]
  split
  · rename_i loc' hsome
    cases hsome.symm.trans hlookup
    rfl
  · rename_i hnone
    cases hnone.symm.trans hlookup

theorem natGetMappingFromPacket_new (now : Nat) (hdir : dir ≠ .dirIn)
    (hlookup : natLookupInternal t p.source.1 p.source.2 = none) :
    natGetMappingFromPacket t p dir now =
      (some (natInsertMapping t p.source.1 p.source.2 now).1,
        (natInsertMapping t p.source.1 p.source.2 now).2) := by
  rw [natGetMappingFromPacket]
  simp only [if_neg hdir]
  split
  · rename_i loc' hsome
    cases hsome.symm.trans hlookup
  · rfl

theorem doTranslation_out (hdir : dir ≠ .dirIn)
    (hget : natGetMappingFromPacket t p dir now = (some loc, t'))
    (hentry : Buckets.get? t'.natMappingList loc = some entry) :
    doTranslation t iface p dir now later
      = some (touch t' loc later, p.withSource (t.natIp, entry.externalPort)) := by
  simp only [doTranslation, hget, Option.bind_some, hentry, Option.map_some, if_neg hdir]
  rfl

end Translation

/-! ### Lookups -/

namespace Indexed

variable {iface : IfaceInfo} {past : List Event} {t : NatTable} {M : Leases Endpoint}

theorem lookupInternal_of_mem (h : Indexed iface past t M) {k : Endpoint} {n : Nat}
    (hn : (k, n) ∈ M.entries) : ∃ loc entry, natLookupInternal t k.1 k.2 = some loc ∧
      Buckets.get? t.natMappingList loc = some entry ∧ entry.externalPort = wirePort n := by
  cases hlookup : natLookupInternal t k.1 k.2 with
  | none =>
    obtain ⟨entry, hmem, rfl⟩ := h.internal k n hn
    have hmiss := Buckets.findIn_none.mp hlookup entry hmem
    simp [NatMapping.internal] at hmiss
  | some loc =>
    obtain ⟨entry, hmem, hkey, hget⟩ := Buckets.findIn_some hlookup
    rw [decide_eq_true_eq] at hkey
    have hinternal : entry.internal = k := Prod.ext hkey.1 hkey.2
    exact ⟨loc, entry, rfl, hget,
      h.externalPort_eq (Buckets.mem_scan.mpr ⟨_, hmem⟩) (hinternal ▸ hn)⟩

theorem lookupInternal_of_not_mem (h : Indexed iface past t M) {k : Endpoint} (hk : k ∉ M.keys) :
    natLookupInternal t k.1 k.2 = none := by
  refine Buckets.findIn_none.mpr fun entry hmem => decide_eq_false fun hkey => hk ?_
  obtain ⟨n, hn, -⟩ := h.sound entry (Buckets.mem_scan.mpr ⟨_, hmem⟩)
  rw [show entry.internal = k from Prod.ext hkey.1 hkey.2] at hn
  exact Leases.mem_keys.mpr ⟨n, hn⟩

theorem lookupExternal_of_mem (h : Indexed iface past t M) {k : Endpoint} {n : Nat}
    (hn : (k, n) ∈ M.entries) : ∃ loc entry, natLookupExternal t (wirePort n) = some loc ∧
      Buckets.get? t.natMappingList loc = some entry ∧ entry.internal = k := by
  cases hlookup : natLookupExternal t (wirePort n) with
  | none =>
    obtain ⟨entry, hmem, hport⟩ := h.external k n hn
    rw [← h.externalIface] at hmem
    have hmiss := Buckets.findIn_none.mp hlookup entry hmem
    rw [decide_eq_false_iff_not] at hmiss
    exact absurd hport hmiss
  | some loc =>
    obtain ⟨entry, hmem, hkey, hget⟩ := Buckets.findIn_some hlookup
    rw [decide_eq_true_eq] at hkey
    exact ⟨loc, entry, rfl, hget, h.internal_eq (Buckets.mem_scan.mpr ⟨_, hmem⟩) hn hkey⟩

theorem portOf_eq (h : Indexed iface past t M) (k : Endpoint) :
    portOf t k = (M.value? k).map wirePort := by
  by_cases hk : k ∈ M.keys
  · obtain ⟨n, hn⟩ := Leases.mem_keys.mp hk
    obtain ⟨loc, entry, hlookup, hget, hport⟩ := h.lookupInternal_of_mem hn
    rw [portOf, hlookup, Option.bind_some, hget, Leases.value?_eq_some.mpr hn, Option.map_some,
      Option.map_some, hport]
  · rw [portOf, h.lookupInternal_of_not_mem hk, Leases.value?_eq_none.mpr hk, Option.bind_none,
      Option.map_none, Option.map_none]

end Indexed

/-! ### Insertion -/

def leaseEntry (t : NatTable) (k : Endpoint) (n now : Nat) : NatMapping where
  internalIp := k.1
  externalIp := t.externalIface.ip
  internalPort := k.2
  externalPort := wirePort n
  updateTime := now
  conn := .zero

def withLease (t : NatTable) (k : Endpoint) (n now : Nat) : NatTable :=
  ((t.setPort (UInt16.ofNat n) 1).addTail (bucket k.1 k.2) (leaseEntry t k n now)).addTail
    (bucket t.externalIface.ip (wirePort n)) (leaseEntry t k n 0)

def leasePlace (t : NatTable) (k : Endpoint) : Location :=
  (bucket k.1 k.2, (t.natMappingList (bucket k.1 k.2)).length)

section Insert

variable {t : NatTable} {k : Endpoint} {n now : Nat}

theorem natInsertMapping_eq (hscan : scanPorts t natPortCount = some n) :
    natInsertMapping t k.1 k.2 now = (leasePlace t k, withLease t k n now) := by
  have hassign : assignExternalPort t = (UInt16.ofNat n, t.setPort (UInt16.ofNat n) 1) := by
    rw [assignExternalPort, ← natPortCount, hscan]
  rw [natInsertMapping, hassign]
  rfl

theorem get?_withLease :
    Buckets.get? (withLease t k n now).natMappingList (leasePlace t k)
      = some (leaseEntry t k n now) :=
  Buckets.get?_addTail (Buckets.get?_addTail_self _ _ _)

theorem mem_withLease {b : Fin hash8Bits} {entry : NatMapping} :
    entry ∈ (withLease t k n now).natMappingList b ↔
      (entry ∈ t.natMappingList b ∨ (b = bucket k.1 k.2 ∧ entry = leaseEntry t k n now)) ∨
        (b = bucket t.externalIface.ip (wirePort n) ∧ entry = leaseEntry t k n 0) := by
  simp only [withLease, NatTable.addTail, NatTable.setPort, Buckets.mem_addTail]

variable {iface : IfaceInfo} {past : List Event} {M : Leases Endpoint} {e : Event}

theorem Indexed.leased (h : Indexed iface past t M) (hkey : k ∉ M.keys)
    (hfree : M.firstFree? natPortMin natPortCount = some n) (hnow : now ∈ e.readings) :
    Indexed iface (past ++ [e]) (withLease t k n now) (M.assign natPortMin natPortCount k) where
  toRepresents := by
    refine h.toRepresents.insert hkey hfree rfl rfl fun entry hentry => ?_
    obtain ⟨b, hb⟩ := Buckets.mem_scan.mp hentry
    rcases mem_withLease.mp hb with (hold | ⟨-, rfl⟩) | ⟨-, rfl⟩
    · exact .inl (Buckets.mem_scan.mpr ⟨b, hold⟩)
    · exact .inr ⟨rfl, rfl, rfl, .inr hnow⟩
    · exact .inr ⟨rfl, rfl, rfl, .inl rfl⟩
  internal k' n' hn := by
    rw [Leases.entries_assign hkey hfree] at hn
    rcases List.mem_append.mp hn with hold | hnew
    · obtain ⟨entry, hmem, hkey⟩ := h.internal k' n' hold
      exact ⟨entry, mem_withLease.mpr (.inl (.inl hmem)), hkey⟩
    · cases List.mem_singleton.mp hnew
      exact ⟨_, mem_withLease.mpr (.inl (.inr ⟨rfl, rfl⟩)), rfl⟩
  external k' n' hn := by
    rw [Leases.entries_assign hkey hfree] at hn
    rcases List.mem_append.mp hn with hold | hnew
    · obtain ⟨entry, hmem, hport⟩ := h.external k' n' hold
      exact ⟨entry, mem_withLease.mpr (.inl (.inl hmem)), hport⟩
    · cases List.mem_singleton.mp hnew
      exact ⟨_, mem_withLease.mpr (.inr ⟨by rw [h.externalIface], rfl⟩), rfl⟩

end Insert

/-! ### Steps that leave the leases -/

section Keep

variable {iface : IfaceInfo} {past : List Event} {t : NatTable} {M : Leases Endpoint}

theorem Indexed.idle (h : Indexed iface past t M) (e : Event) :
    Indexed iface (past ++ [e]) t M where
  toRepresents := h.toRepresents.idle e
  internal := h.internal
  external := h.external

theorem Indexed.touched (h : Indexed iface past t M) (loc : Location) {later : Nat}
    (hlater : later ∈ past.flatMap Event.readings) : Indexed iface past (touch t loc later) M where
  externalIface := h.externalIface
  sound entry hentry := by
    obtain ⟨b, hb⟩ := Buckets.mem_scan.mp hentry
    obtain ⟨old, hold, rfl | rfl⟩ := Buckets.mem_modifyAt hb
    · exact h.sound _ (Buckets.mem_scan.mpr ⟨b, hold⟩)
    · exact h.sound old (Buckets.mem_scan.mpr ⟨b, hold⟩)
  pool := h.pool
  range := h.range
  quiet entry hentry := by
    obtain ⟨b, hb⟩ := Buckets.mem_scan.mp hentry
    obtain ⟨old, hold, rfl | rfl⟩ := Buckets.mem_modifyAt hb
    · exact h.quiet _ (Buckets.mem_scan.mpr ⟨b, hold⟩)
    · exact ⟨(h.quiet _ (Buckets.mem_scan.mpr ⟨b, hold⟩)).1, .inr hlater⟩
  internal k n hn := by
    obtain ⟨entry, hmem, hkey⟩ := h.internal k n hn
    obtain ⟨new, hnew, rfl | rfl⟩ := Buckets.mem_modifyAt_of_mem hmem
    · exact ⟨_, hnew, hkey⟩
    · exact ⟨_, hnew, hkey⟩
  external k n hn := by
    obtain ⟨entry, hmem, hport⟩ := h.external k n hn
    obtain ⟨new, hnew, rfl | rfl⟩ := Buckets.mem_modifyAt_of_mem hmem
    · exact ⟨_, hnew, hport⟩
    · exact ⟨_, hnew, hport⟩

theorem Indexed.swept (h : Indexed iface past t M) {now : Nat}
    (hclock : ∀ past' ∈ past.flatMap Event.readings, past' ≤ now) :
    natTimeout t now = t :=
  sweepTable_of_none_due fun entry hmem =>
    not_due (h.quiet entry hmem).1 (h.updateTime_le hclock entry hmem)

end Keep

/-! ### One step, and runs -/

section Step

variable {iface : IfaceInfo} {past : List Event} {t : NatTable} {M : Leases Endpoint}

/-- `e` takes the table to one of the new leases, and what is sent on is what they say. -/
def Refines (iface : IfaceInfo) (past : List Event) (t : NatTable) (M : Leases Endpoint)
    (e : Event) : Prop :=
  ∃ t', step (some t) e
      = (some t', AbstractNat.forward (htonl iface.ip) (AbstractNat.next (htonl iface.ip) M e) e) ∧
    Indexed iface (past ++ [e]) t' (AbstractNat.next (htonl iface.ip) M e)

variable {inIface : IfaceInfo} {dir : PacketDir} {p : Packet} {now later : Nat}

theorem later_mem_readings (past : List Event) :
    later ∈ (past ++ [Event.packet inIface dir p now later]).flatMap Event.readings := by
  rw [List.flatMap_append]
  exact List.mem_append_right _ (by simp [Event.readings])

theorem Indexed.refines_sweep (h : Indexed iface past t M)
    (hclock : ∀ past' ∈ past.flatMap Event.readings, past' ≤ now) :
    Refines iface past t M (.sweep now) :=
  ⟨t, by rw [step, h.swept hclock, AbstractNat.forward], h.idle _⟩

theorem Indexed.refines_in (h : Indexed iface past t M)
    (hport : (ntohs p.dest.2).toNat ∈ M.values) :
    Refines iface past t M (.packet inIface .dirIn p now later) := by
  obtain ⟨k, hk⟩ := Leases.mem_values.mp hport
  obtain ⟨loc, entry, hlookup, hget, rfl⟩ := h.lookupExternal_of_mem hk
  rw [← (eq_wirePort_iff (h.range _ hport).2 p.dest.2).mpr rfl] at hlookup
  have hnext : AbstractNat.next (htonl iface.ip) M (.packet inIface .dirIn p now later) = M :=
    AbstractNat.next_of_known (by simp [Event.outbound])
  rw [Refines, hnext]
  refine ⟨touch t loc later, ?_, (h.idle _).touched loc (later_mem_readings past)⟩
  simp only [step, doTranslation_in hlookup hget, AbstractNat.forward, if_true,
    Leases.holder?_eq_some.mpr hk, Option.map_some]

theorem Indexed.refines_known (h : Indexed iface past t M) (hdir : dir ≠ .dirIn)
    (hkey : p.source ∈ M.keys) : Refines iface past t M (.packet inIface dir p now later) := by
  obtain ⟨n, hn⟩ := Leases.mem_keys.mp hkey
  obtain ⟨loc, entry, hlookup, hget, hport⟩ := h.lookupInternal_of_mem hn
  have hnext : AbstractNat.next (htonl iface.ip) M (.packet inIface dir p now later) = M :=
    AbstractNat.next_of_known (by
      rw [Event.outbound, if_neg hdir]
      rintro _ ⟨⟩
      exact hkey)
  rw [Refines, hnext]
  refine ⟨touch t loc later, ?_, (h.idle _).touched loc (later_mem_readings past)⟩
  simp only [step, doTranslation_out hdir (natGetMappingFromPacket_known hdir hlookup) hget,
    AbstractNat.forward, if_neg hdir, Leases.value?_eq_some.mpr hn, Option.map_some, hport,
    h.natIp_eq]

theorem Indexed.refines_new (h : Indexed iface past t M) (hdir : dir ≠ .dirIn)
    (hkey : p.source ∉ M.keys) {n : Nat}
    (hfree : M.firstFree? natPortMin natPortCount = some n) :
    Refines iface past t M (.packet inIface dir p now later) := by
  have hget := natGetMappingFromPacket_new now hdir (h.lookupInternal_of_not_mem hkey)
  rw [natInsertMapping_eq ((h.scanPorts_eq (Nat.le_refl _)).trans hfree)] at hget
  have hnext : AbstractNat.next (htonl iface.ip) M (.packet inIface dir p now later)
      = M.assign natPortMin natPortCount p.source :=
    AbstractNat.next_of_outbound (if_neg hdir)
  have hvalue : (M.assign natPortMin natPortCount p.source).value? p.source = some n := by
    rw [Leases.value?_eq_some, Leases.entries_assign hkey hfree]
    exact List.mem_append_right _ (List.mem_singleton_self _)
  rw [Refines, hnext]
  refine ⟨touch (withLease t p.source n now) (leasePlace t p.source) later, ?_,
    (h.leased hkey hfree (by simp [Event.readings])).touched _ (later_mem_readings past)⟩
  simp only [step, doTranslation_out hdir hget get?_withLease, AbstractNat.forward, if_neg hdir,
    hvalue, Option.map_some, leaseEntry, h.natIp_eq]

/-- While there are ports, every event is one of these. -/
theorem Indexed.refines (h : Indexed iface past t M) {e : Event} (he : e.InboundLeased M)
    (hclock : ∀ past' ∈ past.flatMap Event.readings, ∀ now ∈ e.readings, past' ≤ now)
    (hfree : ∀ k, e.outbound = some k → k ∉ M.keys →
      ∃ n, M.firstFree? natPortMin natPortCount = some n) : Refines iface past t M e := by
  cases e with
  | sweep now =>
    exact h.refines_sweep fun past' hpast => hclock past' hpast now (List.mem_singleton_self _)
  | packet inIface dir p now later =>
    by_cases hdir : dir = .dirIn
    · subst hdir
      exact h.refines_in (he rfl)
    · by_cases hkey : p.source ∈ M.keys
      · exact h.refines_known hdir hkey
      · obtain ⟨n, hn⟩ := hfree p.source (if_neg hdir) hkey
        exact h.refines_new hdir hkey hn

end Step

section Run

variable {t₀ : NatTable} {es : List Event} (hbuckets : ∀ b, t₀.natMappingList b = [])
  (hpool : ∀ p, t₀.assignedPorts p = 0) (hclock : Nondecreasing Event.readings es)
  (hcount : (es.filterMap Event.outbound).toFinset.card ≤ natPortCount)
  (hinbound : AtEachStep (AbstractNat.next (htonl t₀.externalIface.ip))
    Event.InboundLeased .empty es)
include hclock hcount hinbound

theorem refines_next {pre post : List Event} {e : Event} {t : NatTable}
    (hsplit : es = pre ++ e :: post)
    (h : Indexed t₀.externalIface pre t
      (run (AbstractNat.next (htonl t₀.externalIface.ip)) .empty pre)) :
    Refines t₀.externalIface pre t
      (run (AbstractNat.next (htonl t₀.externalIface.ip)) .empty pre) e :=
  h.refines (hinbound pre e post hsplit)
    (fun _ hpast _ => (hsplit ▸ hclock).le_of_mem hpast)
    fun _ hout hkey => exists_free hcount hsplit hout
      (mem_keys_run (htonl t₀.externalIface.ip) hcount pre _ hsplit) hkey

include hbuckets hpool

/-- The program lives, and its table is one of the leases of the abstract NAT. -/
theorem indexed_run : ∀ pre post, es = pre ++ post →
    ∃ t, run next (some t₀) pre = some t ∧ Indexed t₀.externalIface pre t
      (run (AbstractNat.next (htonl t₀.externalIface.ip)) .empty pre) := by
  apply run_induction next (P := fun pre s => ∃ t, s = some t ∧ Indexed t₀.externalIface pre t
    (run (AbstractNat.next (htonl t₀.externalIface.ip)) .empty pre))
  · exact ⟨t₀, rfl, Represents.init hbuckets hpool, by simp [Leases.empty],
      by simp [Leases.empty]⟩
  · intro pre e post hsplit hpre
    obtain ⟨t, hs, hindexed⟩ := hpre
    obtain ⟨t', hstep, hindexed'⟩ := refines_next hclock hcount hinbound hsplit hindexed
    rw [run_snoc]
    exact ⟨t', by rw [hs, next, nextOf, hstep], hindexed'⟩

end Run

/-- **`nat_new_2.c` refines the abstract NAT.** In every run whose clock does not go back, with at
most `11112` endpoints sending out and every inbound packet for a port that is leased then, the
packets sent on have the addresses and ports that the abstract NAT gives them. -/
theorem refines_abstractNat {ifaceList : List IfaceInfo} {t₀ : NatTable} {es : List Event}
    (hinit : natTableInit ifaceList = some t₀) (hcomplete : ∀ e ∈ es, e.Complete)
    (hclock : Nondecreasing Event.readings es)
    (hcount : (es.filterMap Event.outbound).toFinset.card ≤ 11112)
    (hinbound : AtEachStep (AbstractNat.next (htonl t₀.externalIface.ip))
      Event.InboundLeased .empty es) :
    (outputs step (some t₀) es).map (Option.map Packet.endpoints)
      = outputs (AbstractNat.step (htonl t₀.externalIface.ip)) .empty es := by
  obtain ⟨hbuckets, hpool⟩ := natTableInit_spec hinit
  rw [map_outputs]
  apply outputs_eq
  intro pre e post hsplit
  obtain ⟨t, hs, hindexed⟩ := indexed_run hbuckets hpool hclock hcount hinbound pre _ hsplit
  obtain ⟨t', hstep, -⟩ := refines_next hclock hcount hinbound hsplit hindexed
  have he := hcomplete e (hsplit ▸ List.mem_append_cons_self)
  change (step (run next (some t₀) pre) e).2.map Packet.endpoints
    = (AbstractNat.step _ (run (AbstractNat.next _) .empty pre) e).2
  rw [hs, hstep, endpoints_forward _ _ he]

theorem refines_abstractNat_natTopoRun :
    (outputs step (some natTopo) (natTopoRun.take 2)).map (Option.map Packet.endpoints)
      = outputs (AbstractNat.step (htonl natTopo.externalIface.ip)) .empty (natTopoRun.take 2) :=
  refines_abstractNat natTableInit_natTopo (by decide +kernel) (by decide) (by decide +kernel)
    (by decide +kernel)

end MiniNet.NatStack.NatNew2
