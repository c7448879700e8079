import MiniNet.NatStack.NatC.Layout

/-!
# Sessions through `nat.c`

As long as `assign_external_port` does not fail, the entries of a run hold pairwise different ports,
and since the list only grows at its end, the first entry of an endpoint stays its first entry. So
both lookups answer the same all along the run: an endpoint that is in the table once keeps the port
of its first entry, and the port leads back to it. Several entries of one endpoint, which unmatched
inbound packets make, do no harm: the later ones are never found by the endpoint, and their own
ports lead to it as well.
-/

namespace MiniNet.NatStack.NatC

open Lib

/-- If the event makes `assign_external_port` run, it finds a port. -/
def AssignSucceeds (t : NatTable) : Event → Prop
  | .packet _ dir p _ _ =>
    natGetMappingFromPacket t p dir = none → (assignExternalPort t).1 ≠ 0xffff
  | .sweep _ => True

instance (t : NatTable) : DecidablePred (AssignSucceeds t)
  | .packet _ dir p _ _ => inferInstanceAs (Decidable (natGetMappingFromPacket t p dir = none → _))
  | .sweep _ => inferInstanceAs (Decidable True)

/-- In a run from `t₀`, `port` is what an endpoint is known by outside. -/
structure KeepsSessions (t₀ : NatTable) (es : List Event) (port : Endpoint → UInt16) : Prop where
  /-- Once an endpoint has a mapping, its packets leave from the external address and its port. -/
  outbound : ∀ pre iface dir p now later post,
    es = pre ++ .packet iface dir p now later :: post → dir ≠ .dirIn →
    HasMapping (run next t₀ pre) p.source →
    (doTranslation (run next t₀ pre) iface p dir now).2.source =
      (htonl t₀.externalIface.ip, port p.source)
  /-- Once an endpoint has a mapping, packets to its port are sent on to it. -/
  inbound : ∀ pre iface p now later post e,
    es = pre ++ .packet iface .dirIn p now later :: post →
    HasMapping (run next t₀ pre) e → p.dest.2 = port e →
    (doTranslation (run next t₀ pre) iface p .dirIn now).2.dest = e
  /-- Two endpoints that get a mapping in the run have different ports. -/
  isolated : ∀ pre pre' post post' e e', es = pre ++ post → es = pre' ++ post' →
    HasMapping (run next t₀ pre) e → HasMapping (run next t₀ pre') e' → port e = port e' → e = e'

/-! ### The list only grows -/

section Growth

variable {t₀ : NatTable} {es : List Event}
  (hbuckets : ∀ b, t₀.natMappingList b = []) (hpool : ∀ p, t₀.assignedPorts p = 0)
  (hclock : Nondecreasing Event.readings es)
include hbuckets hpool hclock

theorem layout_next_cases {pre : List Event} {e : Event} {post : List Event}
    (hsplit : es = pre ++ e :: post) :
    next (run next t₀ pre) e = run next t₀ pre ∨
    ∃ iface dir p now later, e = .packet iface dir p now later ∧
      natGetMappingFromPacket (run next t₀ pre) p dir = none ∧
      next (run next t₀ pre) e
        = (natInsertMapping (run next t₀ pre) firstBucket p.source.1 p.source.2 now).2 :=
  (layout_run hbuckets hpool hclock pre (e :: post) hsplit).next_cases e
    fun _ hpast _ => (hsplit ▸ hclock).le_of_mem hpast

theorem entries_grow (pre post : List Event) (hsplit : es = pre ++ post) :
    entries (run next t₀ pre) <+: entries (run next t₀ es) := by
  induction post generalizing pre with
  | nil => rw [hsplit, List.append_nil]
  | cons e post ih =>
    have hnext : entries (run next t₀ pre) <+: entries (run next t₀ (pre ++ [e])) := by
      rw [run_snoc]
      rcases layout_next_cases hbuckets hpool hclock hsplit with
        hsame | ⟨_, _, p, now, _, rfl, _, hins⟩
      · rw [hsame]
      · rw [hins, entries_insert]
        exact List.prefix_append _ _
    exact hnext.trans (ih _ (by rw [hsplit, List.append_assoc, List.singleton_append]))

theorem length_entries_le (hassign : AtEachStep next AssignSucceeds t₀ es) :
    ∀ pre post, es = pre ++ post → (entries (run next t₀ pre)).length ≤ poolSize := by
  apply run_induction next (P := fun _ t => (entries t).length ≤ poolSize)
  · rw [entries, hbuckets]
    exact Nat.zero_le _
  · intro pre e post hsplit hle
    have hlayout := layout_run hbuckets hpool hclock pre (e :: post) hsplit
    rcases layout_next_cases hbuckets hpool hclock hsplit with
      hsame | ⟨_, _, p, now, _, rfl, hnone, hins⟩
    · rw [hsame]
      exact hle
    · have hport := hassign pre _ post hsplit hnone
      have hlt : (entries (run next t₀ pre)).length < poolSize := by
        by_contra hge
        apply hport
        apply htons_injective
        rw [hlayout.htons_assign, nthPort_of_le (Nat.not_lt.mp hge)]
        decide
      rw [hins, entries_insert, List.length_append, List.length_singleton]
      exact hlt

end Growth

/-! ### Lookups that stay -/

/-- While the ports last an entry is known by its port. -/
theorem Layout.entry_unique {iface : IfaceInfo} {past : List Event} {t : NatTable}
    (h : Layout iface past t) (hsize : (entries t).length ≤ poolSize) {x y : NatMapping}
    (hx : x ∈ entries t) (hy : y ∈ entries t) (hport : x.externalPort = y.externalPort) :
    x = y := by
  rw [← h.mappings] at hx hy hsize
  obtain ⟨j, hj, rfl⟩ := List.getElem_of_mem hx
  obtain ⟨k, hk, rfl⟩ := List.getElem_of_mem hy
  have hjport : t.mappings[j].externalPort = nthPort j := h.port_get ⟨j, hj⟩
  have hkport : t.mappings[k].externalPort = nthPort k := h.port_get ⟨k, hk⟩
  rw [hjport, hkport] at hport
  have hjk : j = k := nthPort_injective (by omega) (by omega) hport
  subst hjk
  rfl

/-- A packet for the port of an entry is given the entry. -/
theorem Layout.mapping_in {iface : IfaceInfo} {past : List Event} {t : NatTable}
    (h : Layout iface past t) (hsize : (entries t).length ≤ poolSize) {p : Packet}
    {entry : NatMapping} (hmem : entry ∈ entries t) (hport : entry.externalPort = p.dest.2) :
    natGetMappingFromPacket t p .dirIn = some entry := by
  have hsome : (natLookupExternal (entries t) p.dest.2).isSome := by
    rw [natLookupExternal, List.find?_isSome]
    exact ⟨entry, hmem, decide_eq_true hport⟩
  obtain ⟨hit, hhit⟩ := Option.isSome_iff_exists.mp hsome
  obtain ⟨hhitmem, hhitport⟩ := natLookupExternal_some hhit
  have hsame : hit = entry := h.entry_unique hsize hhitmem hmem (hhitport.trans hport.symm)
  rw [h.lookup, if_pos rfl, hhit, hsame]

theorem Layout.lookup_of_hasMapping {iface : IfaceInfo} {past : List Event} {t : NatTable}
    (h : Layout iface past t) {e : Endpoint} (he : HasMapping t e) :
    ∃ entry, natLookupInternal (entries t) e.1 e.2 = some entry := by
  obtain ⟨entry, hmem, rfl⟩ := he
  rw [h.mappings] at hmem
  apply Option.isSome_iff_exists.mp
  rw [natLookupInternal, List.find?_isSome]
  exact ⟨entry, hmem, decide_eq_true ⟨rfl, rfl⟩⟩

def sessionPort (t : NatTable) (e : Endpoint) : UInt16 :=
  match natLookupInternal (entries t) e.1 e.2 with
  | some entry => entry.externalPort
  | none => 0

/-- **Sessions are kept.** In every run of `nat.c` whose clock does not go back and in which no
assignment of a port fails, each endpoint that gets a mapping has one port for good, whatever
packets of other flows come in between, and no other endpoint has it. -/
theorem sessions_kept {ifaceList : List IfaceInfo} {t₀ : NatTable} {es : List Event}
    (hinit : natTableInit ifaceList = some t₀) (hcomplete : ∀ e ∈ es, e.Complete)
    (hclock : Nondecreasing Event.readings es) (hassign : AtEachStep next AssignSucceeds t₀ es) :
    ∃ port, KeepsSessions t₀ es port := by
  obtain ⟨hbuckets, hpool⟩ := natTableInit_spec hinit
  have hlayout := layout_run hbuckets hpool hclock
  have hgrow := entries_grow hbuckets hpool hclock
  have hsize := length_entries_le hbuckets hpool hclock hassign
  -- What is found in a state of the run is what the last state finds.
  have hfound : ∀ pre post e, es = pre ++ post → HasMapping (run next t₀ pre) e →
      ∃ entry, natLookupInternal (entries (run next t₀ pre)) e.1 e.2 = some entry ∧
        entry.externalPort = sessionPort (run next t₀ es) e := by
    intro pre post e hsplit he
    obtain ⟨entry, hentry⟩ := (hlayout pre post hsplit).lookup_of_hasMapping he
    refine ⟨entry, hentry, ?_⟩
    have hlast := List.IsPrefix.find?_eq_some (hgrow pre post hsplit) hentry
    rw [sessionPort, natLookupInternal, hlast]
  refine ⟨sessionPort (run next t₀ es), ?_, ?_, ?_⟩
  · intro pre iface dir p now later post hsplit hdir he
    have hwf := hcomplete _ (hsplit ▸ List.mem_append_cons_self)
    obtain ⟨entry, hentry, hport⟩ := hfound pre _ p.source hsplit he
    have hlookup : natGetMappingFromPacket (run next t₀ pre) p dir = some entry := by
      rw [(hlayout pre _ hsplit).lookup, if_neg hdir, hentry]
    rw [doTranslation_out hdir hlookup, Packet.source_withSource hwf.ihl_ge, hport,
      NatTable.natIp, (hlayout pre _ hsplit).externalIface, IfaceInfo.inetAddr_ipStr]
  · intro pre iface p now later post e hsplit he hdest
    have hwf := hcomplete _ (hsplit ▸ List.mem_append_cons_self)
    obtain ⟨entry, hentry, hport⟩ := hfound pre _ e hsplit he
    obtain ⟨hmem, hinternal⟩ := natLookupInternal_some hentry
    have hlookup : natGetMappingFromPacket (run next t₀ pre) p .dirIn = some entry :=
      (hlayout pre _ hsplit).mapping_in (hsize pre _ hsplit) hmem (hport.trans hdest.symm)
    rw [doTranslation_in hlookup, Packet.dest_withDest hwf.ihl_ge, hinternal]
  · intro pre pre' post post' e e' hsplit hsplit' he he' hport
    obtain ⟨entry, hentry, hentryport⟩ := hfound pre post e hsplit he
    obtain ⟨entry', hentry', hentryport'⟩ := hfound pre' post' e' hsplit' he'
    obtain ⟨hmem, hinternal⟩ := natLookupInternal_some hentry
    obtain ⟨hmem', hinternal'⟩ := natLookupInternal_some hentry'
    have hsame : entry = entry' :=
      (hlayout es [] (List.append_nil es).symm).entry_unique
        (hsize es [] (List.append_nil es).symm)
        ((hgrow pre post hsplit).subset hmem) ((hgrow pre' post' hsplit').subset hmem')
        (by rw [hentryport, hentryport', hport])
    calc e = entry.internal := hinternal.symm
      _ = entry'.internal := by rw [hsame]
      _ = e' := hinternal'

theorem sessions_kept_natTopoRun : ∃ port, KeepsSessions natTopo natTopoRun port :=
  sessions_kept natTableInit_natTopo (by decide +kernel) (by decide) (by decide +kernel)

end MiniNet.NatStack.NatC
