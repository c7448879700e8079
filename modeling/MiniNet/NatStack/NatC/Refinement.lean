import MiniNet.NatStack.AbstractNat
import MiniNet.NatStack.NatC.Code

/-!
# `nat.c` and the abstract NAT

As long as inbound packets are for ports that have a mapping and the ports last, the table of
`nat.c` is one of leases as well: its list holds each lease once and in the order in which they
were made, though all that matters is that each is there. What is sent on is what the leases say,
except for the packet that opens a flow.
-/

namespace MiniNet.NatStack.NatC

open Lib

/-- A table of leases with an entry for each. -/
structure Listed (iface : IfaceInfo) (past : List Event) (t : NatTable) (M : Leases Endpoint) :
    Prop extends Represents iface past t M where
  complete : ∀ k n, (k, n) ∈ M.entries → ∃ entry ∈ t.mappings, entry.internal = k

def InboundMapped (t : NatTable) : Event → Prop
  | .packet _ dir p _ _ => dir = .dirIn → ∃ entry ∈ t.mappings, entry.externalPort = p.dest.2
  | .sweep _ => True

instance (t : NatTable) : DecidablePred (InboundMapped t)
  | .packet _ dir _ _ _ => inferInstanceAs (Decidable (dir = .dirIn → _))
  | .sweep _ => inferInstanceAs (Decidable True)

def portOf (t : NatTable) (e : Endpoint) : Option UInt16 :=
  (natLookupInternal t.mappings e.1 e.2).map (·.externalPort)

namespace Listed

variable {iface : IfaceInfo} {past : List Event} {t : NatTable} {M : Leases Endpoint}

/-! ### Lookups -/

theorem lookupInternal_of_mem (h : Listed iface past t M) {k : Endpoint} {n : Nat}
    (hn : (k, n) ∈ M.entries) : ∃ entry, natLookupInternal t.mappings k.1 k.2 = some entry ∧
      entry.externalPort = wirePort n := by
  cases hlookup : natLookupInternal t.mappings k.1 k.2 with
  | none =>
    obtain ⟨entry, hmem, hinternal⟩ := h.complete k n hn
    exact absurd hinternal (natLookupInternal_none.mp hlookup entry hmem)
  | some entry =>
    obtain ⟨hmem, hinternal⟩ := natLookupInternal_some hlookup
    exact ⟨entry, rfl, h.externalPort_eq hmem (hinternal ▸ hn)⟩

theorem lookupInternal_of_not_mem (h : Listed iface past t M) {k : Endpoint} (hk : k ∉ M.keys) :
    natLookupInternal t.mappings k.1 k.2 = none := by
  rw [natLookupInternal_none]
  intro entry hmem heq
  subst heq
  obtain ⟨n, hn, -⟩ := h.sound entry hmem
  exact hk (Leases.mem_keys.mpr ⟨n, hn⟩)

theorem lookupExternal_of_mem (h : Listed iface past t M) {k : Endpoint} {n : Nat}
    (hn : (k, n) ∈ M.entries) : ∃ entry, natLookupExternal t.mappings (wirePort n) = some entry ∧
      entry.internal = k := by
  cases hlookup : natLookupExternal t.mappings (wirePort n) with
  | none =>
    obtain ⟨entry, hmem, rfl⟩ := h.complete k n hn
    exact absurd (h.externalPort_eq hmem hn) (natLookupExternal_none.mp hlookup entry hmem)
  | some entry =>
    obtain ⟨hmem, hport⟩ := natLookupExternal_some hlookup
    exact ⟨entry, rfl, h.internal_eq hmem hn hport⟩

theorem mapping_in (h : Listed iface past t M) {p : Packet}
    (hport : (ntohs p.dest.2).toNat ∈ M.values) :
    ∃ entry, natGetMappingFromPacket t p .dirIn = some entry ∧
      (entry.internal, (ntohs p.dest.2).toNat) ∈ M.entries := by
  obtain ⟨k, hk⟩ := Leases.mem_values.mp hport
  obtain ⟨entry, hlookup, rfl⟩ := h.lookupExternal_of_mem hk
  rw [← (eq_wirePort_iff (h.range _ hport).2 p.dest.2).mpr rfl] at hlookup
  exact ⟨entry, by rw [natGetMappingFromPacket_eq, if_pos rfl, hlookup], hk⟩

theorem mapping_out (h : Listed iface past t M) {p : Packet} {dir : PacketDir}
    (hdir : dir ≠ .dirIn) (hkey : p.source ∈ M.keys) :
    ∃ entry n, natGetMappingFromPacket t p dir = some entry ∧ (p.source, n) ∈ M.entries ∧
      entry.externalPort = wirePort n := by
  obtain ⟨n, hn⟩ := Leases.mem_keys.mp hkey
  obtain ⟨entry, hlookup, hport⟩ := h.lookupInternal_of_mem hn
  exact ⟨entry, n, by rw [natGetMappingFromPacket_out hdir, hlookup], hn, hport⟩

theorem inboundLeased (h : Listed iface past t M) {e : Event} (he : InboundMapped t e) :
    e.InboundLeased M := by
  cases e with
  | sweep now => trivial
  | packet inIface dir p now later =>
    intro hdir
    obtain ⟨entry, hmem, hport⟩ := he hdir
    obtain ⟨n, hn, hwire⟩ := h.sound entry hmem
    have hvalue := Leases.mem_values.mpr ⟨_, hn⟩
    rw [(eq_wirePort_iff (h.range n hvalue).2 p.dest.2).mp (hport.symm.trans hwire)]
    exact hvalue

theorem portOf_eq (h : Listed iface past t M) (k : Endpoint) :
    portOf t k = (M.value? k).map wirePort := by
  by_cases hk : k ∈ M.keys
  · obtain ⟨n, hn⟩ := Leases.mem_keys.mp hk
    obtain ⟨entry, hlookup, hport⟩ := h.lookupInternal_of_mem hn
    rw [portOf, hlookup, Leases.value?_eq_some.mpr hn, Option.map_some, Option.map_some, hport]
  · rw [portOf, h.lookupInternal_of_not_mem hk, Leases.value?_eq_none.mpr hk, Option.map_none,
      Option.map_none]

/-! ### Steps -/

theorem idle (h : Listed iface past t M) (e : Event) : Listed iface (past ++ [e]) t M where
  toRepresents := h.toRepresents.idle e
  complete := h.complete

theorem swept (h : Listed iface past t M) {now : Nat}
    (hclock : ∀ past' ∈ past.flatMap Event.readings, past' ≤ now) :
    natTimeout t now = t := by
  apply sweepTable_of_none_due
  intro entry hmem
  have hle := h.updateTime_le hclock entry hmem
  rw [due, decide_eq_false_iff_not]
  omega

theorem assignExternalPort_eq (h : Listed iface past t M) {n : Nat}
    (hfree : M.firstFree? natPortMin (natPortMax - natPortMin) = some n) :
    assignExternalPort t = (UInt16.ofNat n, t.setPort (UInt16.ofNat n) 1) := by
  rw [assignExternalPort, h.scanPorts_eq (by decide), hfree]

theorem inserted (h : Listed iface past t M) {k : Endpoint} {n now : Nat} {e : Event}
    (hkey : k ∉ M.keys) (hfree : M.firstFree? natPortMin (natPortMax - natPortMin) = some n)
    (hnow : now ∈ e.readings) :
    Listed iface (past ++ [e]) (natInsertMapping t firstBucket k.1 k.2 now).2
      (M.assign natPortMin natPortCount k) := by
  have hassign := h.assignExternalPort_eq hfree
  have hfree' : M.firstFree? natPortMin natPortCount = some n :=
    Leases.firstFree?_mono (by decide) hfree
  have hmem : ∀ entry, entry ∈ (natInsertMapping t firstBucket k.1 k.2 now).2.mappings ↔
      entry ∈ t.mappings ∨ entry = NatC.inserted t k.1 k.2 now := fun entry => by
    rw [NatTable.mappings, natMappingList_insert, Buckets.mem_scan_addTail, NatTable.mappings]
  refine ⟨h.toRepresents.insert hkey hfree' (assignExternalPort_frame t).2 ?_
    fun entry hentry => ((hmem entry).mp hentry).imp_right ?_, fun k' n' hn => ?_⟩
  · rw [natInsertMapping_snd, hassign]
    rfl
  · rintro rfl
    exact ⟨rfl, by rw [inserted_externalPort, hassign, wirePort], rfl, .inr hnow⟩
  · rw [Leases.entries_assign hkey hfree'] at hn
    rcases List.mem_append.mp hn with hold | hnew
    · obtain ⟨entry, hentry, hinternal⟩ := h.complete k' n' hold
      exact ⟨entry, (hmem entry).mpr (.inl hentry), hinternal⟩
    · cases List.mem_singleton.mp hnew
      exact ⟨_, (hmem _).mpr (.inr rfl), rfl⟩

variable {e : Event}

/-- While there are ports, a step takes the table to one of the new leases. -/
theorem next (h : Listed iface past t M) (he : InboundMapped t e)
    (hclock : ∀ past' ∈ past.flatMap Event.readings, ∀ now ∈ e.readings, past' ≤ now)
    (hfree : ∀ k, e.outbound = some k → k ∉ M.keys →
      ∃ n, M.firstFree? natPortMin (natPortMax - natPortMin) = some n) :
    Listed iface (past ++ [e]) (NatC.next t e) (AbstractNat.next (htonl iface.ip) M e) := by
  cases e with
  | sweep now =>
    rw [next_sweep, h.swept fun past' hpast => hclock past' hpast now (List.mem_singleton_self _)]
    exact h.idle _
  | packet inIface dir p now later =>
    rw [next_packet]
    by_cases hdir : dir = .dirIn
    · subst hdir
      obtain ⟨entry, hlookup, -⟩ := h.mapping_in (h.inboundLeased he rfl)
      rw [doTranslation_fst_of_some hlookup, AbstractNat.next_of_known (by simp [Event.outbound])]
      exact h.idle _
    · have hout : Event.outbound (.packet inIface dir p now later) = some p.source := if_neg hdir
      by_cases hkey : p.source ∈ M.keys
      · obtain ⟨entry, n, hlookup, -, -⟩ := h.mapping_out hdir hkey
        rw [doTranslation_fst_of_some hlookup, AbstractNat.next_of_known (by
          rw [hout]
          rintro _ ⟨⟩
          exact hkey)]
        exact h.idle _
      · obtain ⟨n, hn⟩ := hfree p.source hout hkey
        have hlookup : natGetMappingFromPacket t p dir = none := by
          rw [natGetMappingFromPacket_out hdir, h.lookupInternal_of_not_mem hkey]
        rw [doTranslation_of_none hlookup, AbstractNat.next_of_outbound hout]
        exact h.inserted hkey hn (by simp [Event.readings])

theorem sent (h : Listed iface past t M) (he : e.InboundLeased M)
    (hknown : ∀ k, e.outbound = some k → k ∈ M.keys) :
    (step t e).2 = AbstractNat.forward (htonl iface.ip) M e := by
  cases e with
  | sweep now => rfl
  | packet inIface dir p now later =>
    rw [step, AbstractNat.forward]
    by_cases hdir : dir = .dirIn
    · subst hdir
      obtain ⟨entry, hlookup, hn⟩ := h.mapping_in (he rfl)
      rw [doTranslation_in hlookup, if_pos rfl, Leases.holder?_eq_some.mpr hn, Option.map_some]
    · obtain ⟨entry, n, hlookup, hn, hport⟩ := h.mapping_out hdir (hknown p.source (if_neg hdir))
      rw [doTranslation_out hdir hlookup, if_neg hdir, Leases.value?_eq_some.mpr hn,
        Option.map_some, hport, h.natIp_eq]

end Listed

/-- Along a run with ports enough for its outbound endpoints, the table is one of the leases of the
abstract NAT. -/
theorem listed_run {t₀ : NatTable} {es : List Event} (hbuckets : ∀ b, t₀.natMappingList b = [])
    (hpool : ∀ p, t₀.assignedPorts p = 0) (hclock : Nondecreasing Event.readings es)
    (hcount : (es.filterMap Event.outbound).toFinset.card ≤ natPortMax - natPortMin)
    (hinbound : AtEachStep next InboundMapped t₀ es) :
    ∀ pre post, es = pre ++ post → Listed t₀.externalIface pre (run next t₀ pre)
      (run (AbstractNat.next (htonl t₀.externalIface.ip)) .empty pre) := by
  apply run_induction next (P := fun pre t => Listed t₀.externalIface pre t
    (run (AbstractNat.next (htonl t₀.externalIface.ip)) .empty pre))
  · exact ⟨Represents.init hbuckets hpool, by simp [Leases.empty]⟩
  · intro pre e post hsplit hlisted
    have hkeys := mem_keys_run (htonl t₀.externalIface.ip) (hcount.trans (by decide)) pre _ hsplit
    rw [run_snoc]
    exact hlisted.next (hinbound pre e post hsplit)
      (fun _ hpast _ => (hsplit ▸ hclock).le_of_mem hpast)
      fun _ hout hkey => exists_free hcount hsplit hout hkeys hkey

end MiniNet.NatStack.NatC
