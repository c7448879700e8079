import MiniNet.NatStack.NatC.Refinement
import MiniNet.NatStack.NatNew2.Refinement

/-!
# The two versions agree

`nat.c` keeps one list and `nat_new_2.c` two entries for each flow in buckets, but as long as the
ports last both have tables of the same leases. So they know every endpoint by the same port, and
they send on the same bytes, except where `nat.c` sends the first packet of a flow untranslated.
-/

namespace MiniNet.NatStack

open Lib

/-- Both take the direction of a packet from its destination address alike. -/
theorem getPacketDirection_agree (t : NatTable) (p : Packet) :
    NatNew2.getPacketDirection t p = NatC.getPacketDirection t p := by
  rw [NatNew2.getPacketDirection, NatC.getPacketDirection, IfaceInfo.inetAddr_ipStr, ntohl_htonl]

/-- Both versions on the same events, from the same start. -/
structure VersionsAgree (t₀ : NatTable) (es : List Event) : Prop where
  /-- After every part of the run both tables give every endpoint the same port. -/
  ports : ∀ pre post, es = pre ++ post → ∃ t, run NatNew2.next (some t₀) pre = some t ∧
    ∀ e, NatC.portOf (run NatC.next t₀ pre) e = NatNew2.portOf t e
  /-- Every packet but the first of a flow is sent on, and as the same bytes. -/
  packets : ∀ pre iface dir p now later post, es = pre ++ .packet iface dir p now later :: post →
    (dir ≠ .dirIn → p.source ∈ pre.filterMap Event.outbound) →
    ∃ q, (NatC.step (run NatC.next t₀ pre) (.packet iface dir p now later)).2 = some q ∧
      (NatNew2.step (run NatNew2.next (some t₀) pre) (.packet iface dir p now later)).2 = some q

/-- **The versions agree** in every run whose clock does not go back, with at most `11111` endpoints
sending out and every inbound packet for a port that has a mapping then. -/
theorem versions_agree {ifaceList : List IfaceInfo} {t₀ : NatTable} {es : List Event}
    (hinit : natTableInit ifaceList = some t₀) (hclock : Nondecreasing Event.readings es)
    (hcount : (es.filterMap Event.outbound).toFinset.card ≤ 11111)
    (hinbound : AtEachStep NatC.next NatC.InboundMapped t₀ es) : VersionsAgree t₀ es := by
  obtain ⟨hbuckets, hpool⟩ := natTableInit_spec hinit
  have hcount' : (es.filterMap Event.outbound).toFinset.card ≤ natPortCount :=
    hcount.trans (by decide)
  have hlisted := NatC.listed_run hbuckets hpool hclock hcount hinbound
  have hleased : AtEachStep (AbstractNat.next (htonl t₀.externalIface.ip)) Event.InboundLeased
      .empty es := fun pre e post hsplit =>
    (hlisted pre _ hsplit).inboundLeased (hinbound pre e post hsplit)
  have hindexed := NatNew2.indexed_run hbuckets hpool hclock hcount' hleased
  refine ⟨fun pre post hsplit => ?_, fun pre iface dir p now later post hsplit hknown => ?_⟩
  · obtain ⟨t, hrun, ht⟩ := hindexed pre post hsplit
    exact ⟨t, hrun, fun e => by rw [(hlisted pre post hsplit).portOf_eq, ht.portOf_eq]⟩
  · obtain ⟨t, hrun, ht⟩ := hindexed pre _ hsplit
    have hkeys := mem_keys_run (htonl t₀.externalIface.ip) hcount' pre _ hsplit
    have hholds : ∀ k, Event.outbound (.packet iface dir p now later) = some k →
        k ∈ (run (AbstractNat.next (htonl t₀.externalIface.ip)) .empty pre).keys := by
      intro k hk
      by_cases hdir : dir = .dirIn
      · rw [Event.outbound, if_pos hdir] at hk
        cases hk
      · rw [Event.outbound, if_neg hdir, Option.some.injEq] at hk
        exact (hkeys k).mpr (hk ▸ hknown hdir)
    have hsent := (hlisted pre _ hsplit).sent (hleased pre _ post hsplit) hholds
    obtain ⟨t', hstep, -⟩ := NatNew2.refines_next hclock hcount' hleased hsplit ht
    rw [AbstractNat.next_of_known hholds, ← hsent] at hstep
    exact ⟨_, rfl, by rw [hrun, hstep]; rfl⟩

theorem versions_agree_natTopoRun : VersionsAgree natTopo (natTopoRun.take 2) :=
  versions_agree natTableInit_natTopo (by decide) (by decide +kernel) (by decide +kernel)

end MiniNet.NatStack
