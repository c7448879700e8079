import MiniNet.Lib.Numbered
import MiniNet.NatStack.NatC.Layout
import MiniNet.NatStack.NatNew2.Lookups

/-!
# What `nat_new_2.c` does, without conditions on the packets

The abstract NAT has no answer when the ports are used up or a port is asked for that nobody has.
`nat_new_2.c` has: a sender beyond the last port is given port 0, and a packet from outside for a
port that nobody has ends the program. In any run whose clock does not go back the version is the
list of its senders, and this comes out at every step.
-/

namespace MiniNet.NatStack.NatNew2

open Lib

/-- The port of the `k`-th sender, as it is stored. -/
def portAt (k : Nat) : UInt16 := if k < natPortCount then wirePort (natPortMin + k) else 0

namespace Senders

/-- The senders after an event, and what is sent on. -/
def step (externalIp : UInt32) (S : List Endpoint) :
    Event → Option (List Endpoint × Option Packet)
  | .packet _ dir p _ _ =>
    if dir = .dirIn then
      ((numbered portAt S).find? fun x => x.2 = p.dest.2).map fun x => (S, some (p.withDest x.1))
    else
      match (numbered portAt S).find? fun x => x.1 = p.source with
      | some x => some (S, some (p.withSource (externalIp, x.2)))
      | none => some (S ++ [p.source], some (p.withSource (externalIp, portAt S.length)))
  | .sweep _ => some (S, none)

/-- The list is of those who have sent, each once. -/
theorem step_eq_firsts {externalIp : UInt32} {past : List Event} {e : Event} {S : List Endpoint}
    {out : Option Packet} (h : step externalIp (firsts (past.filterMap Event.outbound)) e
      = some (S, out)) : S = firsts ((past ++ [e]).filterMap Event.outbound) := by
  rw [List.filterMap_append]
  cases e with
  | sweep now =>
    rw [List.filterMap_cons_none rfl, List.filterMap_nil, List.append_nil]
    exact (Prod.mk.inj (Option.some.inj h)).1.symm
  | packet inIface dir p now later =>
    by_cases hdir : dir = .dirIn
    · rw [step, if_pos hdir] at h
      obtain ⟨x, -, heq⟩ := Option.map_eq_some_iff.mp h
      obtain ⟨rfl, -⟩ := Prod.mk.inj heq
      simp [Event.outbound, hdir]
    · have hout : List.filterMap Event.outbound [.packet inIface dir p now later] = [p.source] := by
        simp [Event.outbound, hdir]
      rw [hout, firsts_snoc]
      rw [step, if_neg hdir, find?_key] at h
      split_ifs at h ⊢ with hmem
      · exact (Prod.mk.inj (Option.some.inj h)).1.symm
      · exact (Prod.mk.inj (Option.some.inj h)).1.symm

end Senders

/-! ### The table of the senders -/

/-- The buckets that the entries of a sender are in. -/
def places (ip : UInt32) (b : Fin hash8Bits) (x : Endpoint × UInt16) : List (Endpoint × UInt16) :=
  (if b = bucket x.1.1 x.1.2 then [x] else []) ++ if b = bucket ip x.2 then [x] else []

/-- The table after the events `past`, when those in `S` have sent, in this order. -/
structure Ordered (iface : IfaceInfo) (past : List Event) (t : NatTable) (S : List Endpoint) :
    Prop where
  externalIface : t.externalIface = iface
  entries : ∀ b, labels t b = (numbered portAt S).flatMap (places iface.ip b)
  pool : ∀ p : UInt16, t.assignedPorts p ≠ 0 ↔
    natPortMin ≤ p.toNat ∧ p.toNat < natPortMin + min S.length natPortCount
  quiet : Quiet past t

/-- A bucket that has a place for every match has the first match first. -/
theorem find?_places {ip : UInt32} {b : Fin hash8Bits} {q : Endpoint × UInt16 → Bool}
    (hq : ∀ x, q x = true → b = bucket x.1.1 x.1.2 ∨ b = bucket ip x.2)
    (L : List (Endpoint × UInt16)) : (L.flatMap (places ip b)).find? q = L.find? q := by
  induction L with
  | nil => rfl
  | cons x L ih =>
    rw [List.flatMap_cons, List.find?_append, ih, List.find?_cons]
    cases hx : q x with
    | true =>
      have hfirst : (places ip b x).find? q = some x := by
        rw [places]
        split_ifs with hinner houter houter
        · simp [hx]
        · simp [hx]
        · simp [hx]
        · exact ((hq x hx).elim hinner houter).elim
      rw [hfirst, Option.some_or]
    | false =>
      have hnone : (places ip b x).find? q = none := by
        rw [List.find?_eq_none]
        intro y hy
        rw [places] at hy
        have hyx : y = x := by grind
        simp [hyx, hx]
      rw [hnone, Option.none_or]

section Step

variable {iface : IfaceInfo} {past : List Event} {t : NatTable} {S : List Endpoint}

theorem Ordered.init (hbuckets : ∀ b, t.natMappingList b = []) (hpool : ∀ p, t.assignedPorts p = 0) :
    Ordered t.externalIface [] t [] := by
  refine ⟨rfl, fun b => ?_, fun p => ?_, fun entry hentry => ?_⟩
  · rw [labels, Buckets.map, hbuckets]
    rfl
  · rw [hpool p]
    simp only [ne_eq, not_true_eq_false, List.length_nil, Nat.zero_min, false_iff]
    omega
  · rw [NatTable.mappings_eq_nil hbuckets] at hentry
    exact absurd hentry List.not_mem_nil

/-- What a lookup by a label finds in the one bucket it goes through. -/
theorem Ordered.lookup (h : Ordered iface past t S) {b : Fin hash8Bits}
    {q : Endpoint × UInt16 → Bool}
    (hq : ∀ x, q x = true → b = bucket x.1.1 x.1.2 ∨ b = bucket iface.ip x.2) :
    Option.Rel (fun loc x => ∃ entry, Buckets.get? t.natMappingList loc = some entry ∧
        label entry = x)
      (Buckets.findIn t.natMappingList b (q ∘ label)) ((numbered portAt S).find? q) := by
  have hfind := Buckets.find?_eq_findIn t.natMappingList b (q ∘ label)
  have hlabel : ((t.natMappingList b).find? (q ∘ label)).map label
      = (numbered portAt S).find? q := by
    rw [← find?_places hq, ← h.entries, labels, Buckets.map, List.find?_map]
  rw [← hlabel, hfind]
  cases hloc : Buckets.findIn t.natMappingList b (q ∘ label) with
  | none => exact .none
  | some loc =>
    obtain ⟨entry, -, -, hget⟩ := Buckets.findIn_some hloc
    rw [Option.bind_some, hget, Option.map_some]
    exact .some ⟨entry, hget, rfl⟩

theorem Ordered.lookupInternal (h : Ordered iface past t S) (e : Endpoint) :
    Option.Rel (fun loc x => ∃ entry, Buckets.get? t.natMappingList loc = some entry ∧
        label entry = x)
      (natLookupInternal t e.1 e.2) ((numbered portAt S).find? fun x => x.1 = e) := by
  have hlookup : natLookupInternal t e.1 e.2
      = Buckets.findIn t.natMappingList (bucket e.1 e.2) ((fun x => x.1 = e) ∘ label) := by
    rw [natLookupInternal]
    congr 1
    funext entry
    exact Bool.eq_iff_iff.mpr (internal_eq_iff.trans decide_eq_true_iff.symm)
  rw [hlookup]
  exact h.lookup fun x hx => .inl (by rw [of_decide_eq_true hx])

theorem Ordered.lookupExternal (h : Ordered iface past t S) (port : UInt16) :
    Option.Rel (fun loc x => ∃ entry, Buckets.get? t.natMappingList loc = some entry ∧
        label entry = x)
      (natLookupExternal t port) ((numbered portAt S).find? fun x => x.2 = port) := by
  rw [natLookupExternal, h.externalIface]
  exact h.lookup (q := fun x => x.2 = port) fun x hx => .inr (by rw [of_decide_eq_true hx])

theorem Ordered.scan (h : Ordered iface past t S) :
    scanPorts t natPortCount =
      if S.length < natPortCount then some (natPortMin + S.length) else none := by
  rcases Nat.lt_or_ge S.length natPortCount with hlt | hge
  · have hmin : min S.length natPortCount = S.length := by omega
    exact NatC.scanPorts_eq (by decide) hlt.le fun p => by rw [h.pool p, hmin]
  · have hmin : min S.length natPortCount = natPortCount := by omega
    rw [NatC.scanPorts_eq (by decide) (Nat.le_refl _) fun p => by rw [h.pool p, hmin],
      if_neg (Nat.lt_irrefl _), if_neg (Nat.not_lt.mpr hge)]

/-- The port that the next sender gets. -/
theorem Ordered.assign (h : Ordered iface past t S) :
    htons (assignExternalPort t).1 = portAt S.length := by
  rw [assignExternalPort, ← natPortCount, h.scan, portAt]
  split_ifs with hlt
  · rfl
  · change htons 0 = 0
    decide

theorem Ordered.pool_assign (h : Ordered iface past t S) (p : UInt16) :
    (assignExternalPort t).2.assignedPorts p ≠ 0 ↔
      natPortMin ≤ p.toNat ∧ p.toNat < natPortMin + min (S.length + 1) natPortCount := by
  have hold := h.pool p
  rw [assignExternalPort, ← natPortCount, h.scan]
  split_ifs with hlt
  · have hport : (UInt16.ofNat (natPortMin + S.length)).toNat = natPortMin + S.length :=
      toNat_ofNat_port (Nat.add_lt_add_left hlt natPortMin)
    simp only [NatTable.setPort, Function.update_apply]
    split_ifs with hp
    · rw [hp, hport]
      exact ⟨fun _ => ⟨by omega, by omega⟩, fun _ => by decide⟩
    · have hne : p.toNat ≠ natPortMin + S.length := by
        intro heq
        exact hp (UInt16.toNat_inj.mp (heq.trans hport.symm))
      rw [hold]
      omega
  · rw [hold]
    omega

theorem Ordered.idle (h : Ordered iface past t S) (e : Event) :
    Ordered iface (past ++ [e]) t S :=
  ⟨h.externalIface, h.entries, h.pool, h.quiet.mono e⟩

theorem Ordered.touch (h : Ordered iface past t S) (loc : Location) {later : Nat}
    (hlater : later ∈ past.flatMap Event.readings) : Ordered iface past (touch t loc later) S where
  externalIface := h.externalIface
  entries b := by
    have hlabels : labels (NatNew2.touch t loc later) = labels t :=
      Buckets.map_modifyAt loc fun _ => rfl
    rw [hlabels, h.entries]
  pool := h.pool
  quiet := h.quiet.touch loc hlater

theorem Ordered.insert (h : Ordered iface past t S) (k : Endpoint) {now : Nat}
    (hnow : now ∈ past.flatMap Event.readings) :
    Ordered iface past (natInsertMapping t k.1 k.2 now).2 (S ++ [k]) where
  externalIface := (externalIface_natInsertMapping t k now).trans h.externalIface
  entries b := by
    rw [labels_natInsertMapping, newLabel, h.assign, h.externalIface, numbered_snoc,
      List.flatMap_append, List.flatMap_singleton, ← h.entries, places, ← List.append_assoc,
      Buckets.addTail_apply, Buckets.addTail_apply]
  pool p := by
    rw [assignedPorts_natInsertMapping, List.length_append, List.length_singleton]
    exact h.pool_assign p
  quiet := h.quiet.insert k hnow

/-! ### One event -/

variable {inIface : IfaceInfo} {dir : PacketDir} {p : Packet} {now later : Nat}

theorem later_mem (past : List Event) :
    later ∈ (past ++ [Event.packet inIface dir p now later]).flatMap Event.readings := by
  rw [List.flatMap_append]
  exact List.mem_append_right _ (by simp [Event.readings])

theorem now_mem (past : List Event) :
    now ∈ (past ++ [Event.packet inIface dir p now later]).flatMap Event.readings := by
  rw [List.flatMap_append]
  exact List.mem_append_right _ (by simp [Event.readings])

theorem advance_packet (t : NatTable) : advance t (.packet inIface dir p now later)
    = (doTranslation t inIface p dir now later).map fun r => (r.1, some r.2) := by
  rw [advance, step]
  cases doTranslation t inIface p dir now later with
  | none => rfl
  | some r => rfl

theorem Ordered.next_in (h : Ordered iface past t S) :
    Matched (Ordered iface (past ++ [.packet inIface .dirIn p now later]))
      (advance t (.packet inIface .dirIn p now later))
      (Senders.step (htonl iface.ip) S (.packet inIface .dirIn p now later)) := by
  have hrel := h.lookupExternal p.dest.2
  rw [advance_packet, Senders.step, if_pos rfl]
  generalize hlookup : natLookupExternal t p.dest.2 = loc at hrel
  generalize (numbered portAt S).find? _ = x at hrel ⊢
  cases hrel with
  | none =>
    have hnone : doTranslation t inIface p .dirIn now later = none :=
      congrArg (fun loc : Option Location => loc.bind _) hlookup
    rw [hnone]
    trivial
  | @some loc x hentry =>
    obtain ⟨entry, hget, rfl⟩ := hentry
    rw [doTranslation_in hlookup hget]
    exact .intro ((h.idle _).touch loc (later_mem past))

theorem Ordered.next_out (h : Ordered iface past t S) (hdir : dir ≠ .dirIn) :
    Matched (Ordered iface (past ++ [.packet inIface dir p now later]))
      (advance t (.packet inIface dir p now later))
      (Senders.step (htonl iface.ip) S (.packet inIface dir p now later)) := by
  have hrel := h.lookupInternal p.source
  have hip : t.natIp = htonl iface.ip := by
    rw [NatTable.natIp, h.externalIface, IfaceInfo.inetAddr_ipStr]
  rw [advance_packet, Senders.step, if_neg hdir]
  generalize hlookup : natLookupInternal t p.source.1 p.source.2 = loc at hrel
  generalize (numbered portAt S).find? _ = x at hrel ⊢
  cases hrel with
  | @some loc x hentry =>
    obtain ⟨entry, hget, rfl⟩ := hentry
    rw [doTranslation_out hdir (natGetMappingFromPacket_known hdir hlookup) hget, hip]
    exact .intro ((h.idle _).touch loc (later_mem past))
  | none =>
    obtain ⟨entry, hget, hport⟩ : ∃ entry,
        Buckets.get? (natInsertMapping t p.source.1 p.source.2 now).2.natMappingList
          (natInsertMapping t p.source.1 p.source.2 now).1 = some entry ∧
        entry.externalPort = htons (assignExternalPort t).1 :=
      ⟨_, Buckets.get?_addTail (Buckets.get?_addTail_self _ _ _), rfl⟩
    rw [doTranslation_out hdir (natGetMappingFromPacket_new now hdir hlookup) hget, hip, hport,
      h.assign]
    exact .intro (((h.idle _).insert p.source (now_mem past)).touch _ (later_mem past))

/-- What the list of the senders says of an event is what happens. -/
theorem Ordered.next (h : Ordered iface past t S) {e : Event}
    (hclock : ∀ past' ∈ past.flatMap Event.readings, ∀ now ∈ e.readings, past' ≤ now) :
    Matched (Ordered iface (past ++ [e])) (advance t e) (Senders.step (htonl iface.ip) S e) := by
  cases e with
  | sweep now =>
    have hswept : natTimeout t now = t :=
      h.quiet.natTimeout fun past' hpast => hclock past' hpast now (List.mem_singleton_self now)
    have hadvance : advance t (.sweep now) = some (natTimeout t now, none) := rfl
    rw [hadvance, hswept, Senders.step]
    exact .intro (h.idle _)
  | packet inIface dir p now later =>
    by_cases hdir : dir = .dirIn
    · subst hdir
      exact h.next_in
    · exact h.next_out hdir

end Step

/-- The table is that of those who have sent. -/
theorem ordered_run {t₀ : NatTable} {es : List Event} (hbuckets : ∀ b, t₀.natMappingList b = [])
    (hpool : ∀ p, t₀.assignedPorts p = 0) (hclock : Nondecreasing Event.readings es) :
    Matched (fun t S => Ordered t₀.externalIface es t S ∧ S = firsts (es.filterMap Event.outbound))
      (attempt advance t₀ es) (attempt (Senders.step (htonl t₀.externalIface.ip)) [] es) := by
  apply attempt_matched (R := fun past t S =>
    Ordered t₀.externalIface past t S ∧ S = firsts (past.filterMap Event.outbound))
  · intro pre e post hsplit t S hpre
    obtain ⟨h, rfl⟩ := hpre
    have hnext := h.next fun _ hpast _ => (hsplit ▸ hclock).le_of_mem hpast
    exact hnext.mono fun _ _ _ _ hlist h' => ⟨h', Senders.step_eq_firsts hlist⟩
  · exact ⟨.init hbuckets hpool, rfl⟩

/-- **What `nat_new_2.c` does**, in every run whose clock does not go back: it comes to its end
exactly when the list of its senders does, and sends on the same packets. -/
theorem runs_as_senders {ifaceList : List IfaceInfo} {t₀ : NatTable} {es : List Event}
    (hinit : natTableInit ifaceList = some t₀) (hclock : Nondecreasing Event.readings es) :
    (run next (some t₀) es).map (fun _ => outputs step (some t₀) es)
      = (attempt (Senders.step (htonl t₀.externalIface.ip)) [] es).map Prod.snd := by
  obtain ⟨hbuckets, hpool⟩ := natTableInit_spec hinit
  have hmatched := ordered_run hbuckets hpool hclock
  rw [attempt_advance] at hmatched
  obtain ⟨hcode, hlist⟩ | ⟨t, S, sent, hcode, hlist, -⟩ := hmatched.cases
  · rw [Option.map_eq_none_iff.mp hcode, hlist]
    rfl
  · obtain ⟨t', hrun, heq⟩ := Option.map_eq_some_iff.mp hcode
    rw [hrun, hlist, Option.map_some, Option.map_some]
    exact congrArg some (Prod.mk.inj heq).2

theorem runs_as_senders_natTopoRun :
    (run next (some natTopo) (natTopoRun.take 2)).isSome ∧
    (run next (some natTopo) (natTopoRun.take 2)).map
        (fun _ => outputs step (some natTopo) (natTopoRun.take 2))
      = (attempt (Senders.step (htonl natTopo.externalIface.ip)) [] (natTopoRun.take 2)).map
        Prod.snd :=
  ⟨by decide +kernel, runs_as_senders natTableInit_natTopo (by decide)⟩

/-! ### Answers -/

/-- Whom a packet from outside for this port is sent on to. -/
def holderOf (t : NatTable) (port : UInt16) : Option Endpoint :=
  ((natLookupExternal t port).bind (Buckets.get? t.natMappingList)).map (·.internal)

section Answers

variable {iface : IfaceInfo} {past : List Event} {t : NatTable} {S : List Endpoint}

theorem Ordered.portOf_eq (h : Ordered iface past t S) (e : Endpoint) :
    portOf t e = ((numbered portAt S).find? fun x => x.1 = e).map (·.2) := by
  have hrel := h.lookupInternal e
  rw [portOf]
  generalize natLookupInternal t e.1 e.2 = loc at hrel ⊢
  generalize (numbered portAt S).find? _ = x at hrel ⊢
  cases hrel with
  | none => rfl
  | some hentry =>
    obtain ⟨entry, hget, rfl⟩ := hentry
    rw [Option.bind_some, hget]
    rfl

theorem Ordered.holderOf_eq (h : Ordered iface past t S) (port : UInt16) :
    holderOf t port = ((numbered portAt S).find? fun x => x.2 = port).map (·.1) := by
  have hrel := h.lookupExternal port
  rw [holderOf]
  generalize natLookupExternal t port = loc at hrel ⊢
  generalize (numbered portAt S).find? _ = x at hrel ⊢
  cases hrel with
  | none => rfl
  | some hentry =>
    obtain ⟨entry, hget, rfl⟩ := hentry
    rw [Option.bind_some, hget]
    rfl

end Answers

theorem ntohs_portAt {k : Nat} (hk : k < natPortCount) :
    (ntohs (portAt k)).toNat = natPortMin + k := by
  rw [portAt, if_pos hk]
  exact (eq_wirePort_iff (Nat.add_lt_add_left hk natPortMin) _).mp rfl

theorem portAt_injective {j k : Nat} (hj : j < natPortCount) (hk : k < natPortCount)
    (h : portAt j = portAt k) : j = k := by
  have hnumber := congrArg (fun port => (ntohs port).toNat) h
  simp only [ntohs_portAt hj, ntohs_portAt hk] at hnumber
  omega

theorem portAt_ne_zero {k : Nat} (hk : k < natPortCount) : portAt k ≠ 0 := by
  intro hzero
  have hnumber := ntohs_portAt hk
  rw [hzero] at hnumber
  have hnone : (ntohs 0).toNat = 0 := by decide
  rw [hnone, natPortMin] at hnumber
  omega

/-- **Whose answers come back**: when an endpoint has sent, a packet from outside for the port that
it has is sent on to it exactly if no more than `11112` others had sent before it. -/
theorem answered_iff {ifaceList : List IfaceInfo} {t₀ t : NatTable} {es : List Event}
    {e : Endpoint} (hinit : natTableInit ifaceList = some t₀)
    (hclock : Nondecreasing Event.readings es) (hrun : run next (some t₀) es = some t)
    (he : e ∈ es.filterMap Event.outbound) : ∃ port, portOf t e = some port ∧
      (holderOf t port = some e ↔
        ((es.filterMap Event.outbound).takeWhile fun x => x ≠ e).toFinset.card ≤ 11112) := by
  obtain ⟨hbuckets, hpool⟩ := natTableInit_spec hinit
  have hmatched := ordered_run hbuckets hpool hclock
  rw [attempt_advance, hrun, Option.map_some] at hmatched
  obtain ⟨hcode, -⟩ | ⟨t', S, sent, hcode, -, h, rfl⟩ := hmatched.cases
  · cases hcode
  obtain ⟨rfl, -⟩ := Prod.mk.inj (Option.some.inj hcode)
  have hport := h.portOf_eq e
  rw [find?_key, if_pos (mem_firsts.mpr he), Option.map_some] at hport
  refine ⟨_, hport, ?_⟩
  rw [h.holderOf_eq, ← idxOf_firsts he]
  exact find?_value_back (fun _ hj _ => portAt_injective hj) (fun k hk => if_neg hk.not_gt)
    (fun _ => portAt_ne_zero) (mem_firsts.mpr he)

theorem answered_iff_natTopoRun : ∃ t, run next (some natTopo) (natTopoRun.take 2) = some t ∧
    ∃ port, portOf t hostH1 = some port ∧ (holderOf t port = some hostH1 ↔
      (((natTopoRun.take 2).filterMap Event.outbound).takeWhile
        fun x => x ≠ hostH1).toFinset.card ≤ 11112) := by
  have hlives : (run next (some natTopo) (natTopoRun.take 2)).isSome := by decide +kernel
  obtain ⟨t, hrun⟩ := Option.isSome_iff_exists.mp hlives
  exact ⟨t, hrun, answered_iff natTableInit_natTopo (by decide) hrun (by decide +kernel)⟩

end MiniNet.NatStack.NatNew2
