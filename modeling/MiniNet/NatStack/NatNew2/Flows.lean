import MiniNet.NatStack.NatNew2.Refinement

/-!
# The two entries of a flow in `nat_new_2.c`

`nat_insert_mapping` makes two entries for a flow that say the same, and nothing in the table ties
one to the other: a lookup stamps the entry it finds and no other, the second entry starts with the
time 0, and a sweep asks each for itself. The port is freed as the entry stores it, in network
order, so what a removed flow gives back is the port with its two bytes exchanged.

`Paired` is the table as it should be, with both entries of every flow and the pool the set of their
ports. It lasts as long as every sweep takes whole flows, and with each flow the one that holds the
exchanged port; where it has lasted, this is also what the next sweep has to do.
-/

namespace MiniNet.NatStack.NatNew2

open Lib

/-! ### Flows -/

/-- The entries of the flow of an inner endpoint. -/
def entriesOf (t : NatTable) (e : Endpoint) : List NatMapping :=
  t.mappings.filter fun entry => entry.internal = e

/-- The sweep keeps both entries of a flow and leaves its port assigned, or removes both and frees
its port, and it frees no port but these. A flow made when no port was left has port 0, which is
none. -/
structure SweepsWhole (t : NatTable) (now : Nat) : Prop where
  flow : ∀ entry ∈ t.mappings,
    (entriesOf (natTimeout t now) entry.internal = entriesOf t entry.internal ∧
      (entry.externalPort ≠ 0 →
        (natTimeout t now).assignedPorts (ntohs entry.externalPort) ≠ 0)) ∨
    (entriesOf (natTimeout t now) entry.internal = [] ∧
      (natTimeout t now).assignedPorts (ntohs entry.externalPort) = 0)
  exactly : ∀ p, (natTimeout t now).assignedPorts p ≠ t.assignedPorts p →
    ∃ entry ∈ t.mappings, ntohs entry.externalPort = p ∧
      entriesOf (natTimeout t now) entry.internal = []

/-- Both entries of a flow are due or neither, and with the flow of a port the one of the exchanged
port is due. -/
structure DueInPairs (t : NatTable) (now : Nat) : Prop where
  flow : ∀ x ∈ t.mappings, ∀ y ∈ t.mappings, x.internal = y.internal → due now x = due now y
  swapped : ∀ x ∈ t.mappings, due now x = true →
    ∃ y ∈ t.mappings, due now y = true ∧ y.externalPort = ntohs x.externalPort

/-! ### The invariant -/

/-- What an entry says, but for its time. -/
def label (entry : NatMapping) : Endpoint × UInt16 := (entry.internal, entry.externalPort)

def labels (t : NatTable) : Buckets hash8Bits (Endpoint × UInt16) :=
  Buckets.map label t.natMappingList

structure Paired (t : NatTable) : Prop where
  inner : ∀ x ∈ Buckets.scan (labels t), x ∈ labels t (bucket x.1.1 x.1.2)
  outer : ∀ x ∈ Buckets.scan (labels t), x ∈ labels t (bucket t.externalIface.ip x.2)
  two : ∀ x ∈ Buckets.scan (labels t), (Buckets.scan (labels t)).count x = 2
  port : ∀ x ∈ Buckets.scan (labels t), ∀ y ∈ Buckets.scan (labels t), x.1 = y.1 → x = y
  holder : ∀ x ∈ Buckets.scan (labels t), ∀ y ∈ Buckets.scan (labels t),
    x.2 = y.2 → x.2 ≠ 0 → x = y
  pool : ∀ p, t.assignedPorts p ≠ 0 ↔ p ≠ 0 ∧ ∃ x ∈ Buckets.scan (labels t), x.2 = htons p
  range : ∀ x ∈ Buckets.scan (labels t), x.2 ≠ 0 →
    natPortMin ≤ (ntohs x.2).toNat ∧ (ntohs x.2).toNat ≤ natPortMax

theorem mem_labels {t : NatTable} {x : Endpoint × UInt16} :
    x ∈ Buckets.scan (labels t) ↔ ∃ entry ∈ t.mappings, label entry = x :=
  Buckets.mem_scan_map

theorem label_mem {t : NatTable} {entry : NatMapping} (h : entry ∈ t.mappings) :
    label entry ∈ Buckets.scan (labels t) :=
  mem_labels.mpr ⟨entry, h, rfl⟩

theorem Paired.init {t : NatTable} (hbuckets : ∀ b, t.natMappingList b = [])
    (hpool : ∀ p, t.assignedPorts p = 0) : Paired t := by
  have hempty : ∀ x, x ∉ Buckets.scan (labels t) := by
    intro x hx
    obtain ⟨entry, hentry, -⟩ := mem_labels.mp hx
    rw [NatTable.mappings_eq_nil hbuckets] at hentry
    exact List.not_mem_nil hentry
  have hnone : ∀ {P : Endpoint × UInt16 → Prop}, ∀ x ∈ Buckets.scan (labels t), P x :=
    fun x hx => absurd hx (hempty x)
  exact ⟨hnone, hnone, hnone, hnone, hnone, fun p => by simp [hpool, hempty], hnone⟩

/-- The invariant does not read the times. -/
theorem Paired.congr {t t' : NatTable} (h : Paired t) (hlabels : labels t' = labels t)
    (hports : t'.assignedPorts = t.assignedPorts) (hiface : t'.externalIface = t.externalIface) :
    Paired t' := by
  refine ⟨?_, ?_, ?_, ?_, ?_, ?_, ?_⟩ <;> simp only [hlabels, hports, hiface]
  · exact h.inner
  · exact h.outer
  · exact h.two
  · exact h.port
  · exact h.holder
  · exact h.pool
  · exact h.range

theorem Paired.touch {t : NatTable} (h : Paired t) (loc : Location) (now : Nat) :
    Paired (touch t loc now) :=
  h.congr (Buckets.map_modifyAt loc fun _ => rfl) rfl rfl

theorem ntohs_ne_zero {port : UInt16} (h : port ≠ 0) : ntohs port ≠ 0 :=
  fun hzero => h (swap16_injective hzero)

/-! ### A new flow -/

/-- What is assigned is a free port of the range, or 0 and the pool is as it was. -/
theorem assignExternalPort_spec (t : NatTable) :
    ((assignExternalPort t).1 ≠ 0 → t.assignedPorts (assignExternalPort t).1 = 0 ∧
      natPortMin ≤ (assignExternalPort t).1.toNat ∧ (assignExternalPort t).1.toNat ≤ natPortMax) ∧
    ∀ q, (assignExternalPort t).2.assignedPorts q ≠ 0 ↔
      t.assignedPorts q ≠ 0 ∨ (q = (assignExternalPort t).1 ∧ q ≠ 0) := by
  rcases assignExternalPort_cases t with ⟨port, hleast, hassign⟩ | ⟨-, hassign⟩
  · have hport := hleast.inPortRange (by decide)
    have hne := hport.ne_zero
    rw [hassign]
    refine ⟨fun _ => ⟨hleast.free, hport⟩, fun q => ?_⟩
    simp only [NatTable.setPort, Function.update_apply]
    by_cases hq : q = port
    · simp [hq, hne]
    · simp [hq]
  · rw [hassign]
    simp

theorem assignExternalPort_frame (t : NatTable) :
    (assignExternalPort t).2.natMappingList = t.natMappingList ∧
      (assignExternalPort t).2.externalIface = t.externalIface := by
  unfold assignExternalPort
  split
  · exact ⟨rfl, rfl⟩
  · exact ⟨rfl, rfl⟩

section Insert

variable (t : NatTable) (k : Endpoint) (now : Nat)

def newLabel : Endpoint × UInt16 := (k, htons (assignExternalPort t).1)

theorem labels_natInsertMapping :
    labels (natInsertMapping t k.1 k.2 now).2 =
      Buckets.addTail (Buckets.addTail (labels t) (bucket k.1 k.2) (newLabel t k))
        (bucket t.externalIface.ip (newLabel t k).2) (newLabel t k) := by
  obtain ⟨hlist, hiface⟩ := assignExternalPort_frame t
  simp only [natInsertMapping, NatTable.addTail, labels, Buckets.map_addTail, hlist, hiface]
  rfl

theorem mem_labels_natInsertMapping {x : Endpoint × UInt16} :
    x ∈ Buckets.scan (labels (natInsertMapping t k.1 k.2 now).2) ↔
      x ∈ Buckets.scan (labels t) ∨ x = newLabel t k := by
  rw [labels_natInsertMapping, Buckets.mem_scan_addTail, Buckets.mem_scan_addTail, or_assoc,
    or_self]

theorem assignedPorts_natInsertMapping :
    (natInsertMapping t k.1 k.2 now).2.assignedPorts = (assignExternalPort t).2.assignedPorts :=
  rfl

theorem externalIface_natInsertMapping :
    (natInsertMapping t k.1 k.2 now).2.externalIface = t.externalIface :=
  (assignExternalPort_frame t).2

variable {t k}

/-- An endpoint that the lookup misses is in no entry. -/
theorem Paired.ne_of_lookup (h : Paired t) (hlookup : natLookupInternal t k.1 k.2 = none) :
    ∀ x ∈ Buckets.scan (labels t), x.1 ≠ k := by
  intro x hx heq
  subst heq
  obtain ⟨entry, hentry, hlabel⟩ := List.mem_map.mp (h.inner x hx)
  have hmiss := Buckets.findIn_none.mp hlookup entry hentry
  rw [← hlabel] at hmiss
  simp [label, NatMapping.internal] at hmiss

theorem newLabel_port_ne_zero (hzero : (newLabel t k).2 ≠ 0) : (assignExternalPort t).1 ≠ 0 := by
  intro hp
  rw [newLabel, hp] at hzero
  exact hzero rfl

/-- A port that was free is no entry's. -/
theorem Paired.port_newLabel (h : Paired t) {x : Endpoint × UInt16}
    (hx : x ∈ Buckets.scan (labels t)) (heq : x.2 = (newLabel t k).2) : x.2 = 0 := by
  by_contra hzero
  have hp := newLabel_port_ne_zero (heq ▸ hzero)
  exact (h.pool _).mpr ⟨hp, x, hx, heq⟩ ((assignExternalPort_spec t).1 hp).1

theorem Paired.insert (h : Paired t) (hk : ∀ x ∈ Buckets.scan (labels t), x.1 ≠ k) :
    Paired (natInsertMapping t k.1 k.2 now).2 where
  inner x hx := by
    rw [labels_natInsertMapping, Buckets.mem_addTail, Buckets.mem_addTail]
    rcases (mem_labels_natInsertMapping t k now).mp hx with hold | rfl
    · exact .inl (.inl (h.inner x hold))
    · exact .inl (.inr ⟨rfl, rfl⟩)
  outer x hx := by
    rw [labels_natInsertMapping, externalIface_natInsertMapping, Buckets.mem_addTail,
      Buckets.mem_addTail]
    rcases (mem_labels_natInsertMapping t k now).mp hx with hold | rfl
    · exact .inl (.inl (h.outer x hold))
    · exact .inr ⟨rfl, rfl⟩
  two x hx := by
    have hnew : newLabel t k ∉ Buckets.scan (labels t) := fun hold => hk _ hold rfl
    rw [labels_natInsertMapping, (Buckets.scan_addTail_perm _ _ _).count_eq, List.count_cons,
      (Buckets.scan_addTail_perm _ _ _).count_eq, List.count_cons]
    rcases (mem_labels_natInsertMapping t k now).mp hx with hold | rfl
    · have hne : newLabel t k ≠ x := fun heq => hnew (heq ▸ hold)
      simp [hne, h.two x hold]
    · simp [List.count_eq_zero.mpr hnew]
  port x hx y hy hxy := by
    rcases (mem_labels_natInsertMapping t k now).mp hx with hold | rfl
    · rcases (mem_labels_natInsertMapping t k now).mp hy with hold' | rfl
      · exact h.port x hold y hold' hxy
      · exact absurd hxy (hk x hold)
    · rcases (mem_labels_natInsertMapping t k now).mp hy with hold' | rfl
      · exact absurd hxy.symm (hk y hold')
      · rfl
  holder x hx y hy hxy hzero := by
    rcases (mem_labels_natInsertMapping t k now).mp hx with hold | rfl
    · rcases (mem_labels_natInsertMapping t k now).mp hy with hold' | rfl
      · exact h.holder x hold y hold' hxy hzero
      · exact absurd (h.port_newLabel hold hxy) hzero
    · rcases (mem_labels_natInsertMapping t k now).mp hy with hold' | rfl
      · exact absurd (hxy.trans (h.port_newLabel hold' hxy.symm)) hzero
      · rfl
  pool p := by
    rw [assignedPorts_natInsertMapping, (assignExternalPort_spec t).2, h.pool]
    simp only [mem_labels_natInsertMapping, or_and_right, exists_or, exists_eq_left, newLabel,
      htons_injective.eq_iff, @eq_comm _ p]
    rw [and_comm, ← or_and_right, and_comm]
  range x hx hzero := by
    rcases (mem_labels_natInsertMapping t k now).mp hx with hold | rfl
    · exact h.range x hold hzero
    · rw [newLabel, ntohs_htons]
      exact ((assignExternalPort_spec t).1 (newLabel_port_ne_zero hzero)).2

end Insert

/-! ### Sweeps -/

section Sweep

variable {t : NatTable} {now : Nat}

theorem entriesOf_natTimeout (t : NatTable) (now : Nat) (e : Endpoint) :
    entriesOf (natTimeout t now) e = (entriesOf t e).filter fun entry => !due now entry := by
  rw [entriesOf, natTimeout, mappings_sweepTable, List.filter_comm, entriesOf]

theorem mem_entriesOf {e : Endpoint} {entry : NatMapping} :
    entry ∈ entriesOf t e ↔ entry ∈ t.mappings ∧ entry.internal = e := by
  rw [entriesOf, List.mem_filter, decide_eq_true_eq]

theorem entriesOf_of_due {e : Endpoint}
    (h : ∀ entry ∈ t.mappings, entry.internal = e → due now entry = true) :
    entriesOf (natTimeout t now) e = [] := by
  rw [entriesOf_natTimeout, List.filter_eq_nil_iff]
  intro entry hentry
  obtain ⟨hmem, he⟩ := mem_entriesOf.mp hentry
  simp [h entry hmem he]

theorem entriesOf_of_not_due {e : Endpoint}
    (h : ∀ entry ∈ t.mappings, entry.internal = e → due now entry = false) :
    entriesOf (natTimeout t now) e = entriesOf t e := by
  rw [entriesOf_natTimeout, List.filter_eq_self]
  intro entry hentry
  obtain ⟨hmem, he⟩ := mem_entriesOf.mp hentry
  simp [h entry hmem he]

theorem DueInPairs.freed_iff (h : DueInPairs t now) {port : UInt16} :
    port ∈ freed (due now) t.mappings ↔ ntohs port ∈ freed (due now) t.mappings := by
  have hswap : ∀ port ∈ freed (due now) t.mappings, ntohs port ∈ freed (due now) t.mappings := by
    intro port hport
    obtain ⟨x, hx, hdue, rfl⟩ := (mem_freed _).mp hport
    exact (mem_freed _).mpr (h.swapped x hx hdue)
  refine ⟨hswap port, fun hport => ?_⟩
  have hback := hswap _ hport
  rwa [ntohs, ntohs, swap16_swap16] at hback

theorem Paired.mem_freed_iff (h : Paired t) (hdue : DueInPairs t now) {entry : NatMapping}
    (hentry : entry ∈ t.mappings) (hzero : entry.externalPort ≠ 0) :
    entry.externalPort ∈ freed (due now) t.mappings ↔ due now entry = true := by
  refine ⟨fun hport => ?_, fun hd => (mem_freed _).mpr ⟨entry, hentry, hd, rfl⟩⟩
  obtain ⟨y, hy, hydue, hyport⟩ := (mem_freed _).mp hport
  have hlabel := h.holder _ (label_mem hentry) _ (label_mem hy) hyport.symm hzero
  rw [hdue.flow entry hentry y hy (congrArg Prod.fst hlabel)]
  exact hydue

theorem assignedPorts_natTimeout (p : UInt16) :
    (natTimeout t now).assignedPorts p =
      if p ∈ freed (due now) t.mappings ∧ natPortMin ≤ p.toNat ∧ p.toNat ≤ natPortMax then 0
      else t.assignedPorts p := by
  rw [natTimeout, assignedPorts_sweepTable]

theorem Paired.sweepsWhole (h : Paired t) (hdue : DueInPairs t now) : SweepsWhole t now := by
  refine ⟨fun entry hentry => ?_, fun p hp => ?_⟩
  · have hpool := h.pool (ntohs entry.externalPort)
    rw [htons_ntohs] at hpool
    cases hd : due now entry with
    | false =>
      refine .inl ⟨entriesOf_of_not_due fun y hy he => ?_, fun hzero => ?_⟩
      · rw [hdue.flow y hy entry hentry he, hd]
      · have hkept : ntohs entry.externalPort ∉ freed (due now) t.mappings := by
          rw [← hdue.freed_iff, h.mem_freed_iff hdue hentry hzero, hd]
          exact Bool.false_ne_true
        rw [assignedPorts_natTimeout, if_neg fun hfreed => hkept hfreed.1]
        exact hpool.mpr ⟨ntohs_ne_zero hzero, _, label_mem hentry, rfl⟩
    | true =>
      refine .inr ⟨entriesOf_of_due fun y hy he => ?_, ?_⟩
      · rw [hdue.flow y hy entry hentry he, hd]
      · rw [assignedPorts_natTimeout]
        by_cases hzero : entry.externalPort = 0
        · have hcell : t.assignedPorts (ntohs entry.externalPort) = 0 := by
            by_contra hne
            exact (hpool.mp hne).1 (by rw [hzero]; rfl)
          rw [hcell, ite_self]
        · have hfreed := (h.mem_freed_iff hdue hentry hzero).mpr hd
          have hrange := h.range _ (label_mem hentry) hzero
          rw [label] at hrange
          rw [if_pos ⟨hdue.freed_iff.mp hfreed, hrange⟩]
  · rw [assignedPorts_natTimeout] at hp
    have hfreed : p ∈ freed (due now) t.mappings := by
      by_contra hnot
      exact hp (if_neg fun h => hnot h.1)
    obtain ⟨z, hz, hzdue, hzport⟩ := (mem_freed _).mp (hdue.freed_iff.mp hfreed)
    refine ⟨z, hz, by rw [hzport, ntohs, ntohs, swap16_swap16], ?_⟩
    refine entriesOf_of_due fun y hy he => ?_
    rw [hdue.flow y hy z hz he, hzdue]

theorem Paired.dueInPairs (h : Paired t) (hwhole : SweepsWhole t now) : DueInPairs t now := by
  -- What is due is not kept, so its flow is among the removed.
  have hremoved : ∀ x ∈ t.mappings, due now x = true →
      entriesOf (natTimeout t now) x.internal = [] ∧
        (natTimeout t now).assignedPorts (ntohs x.externalPort) = 0 := by
    intro x hx hxdue
    refine (hwhole.flow x hx).resolve_left fun hkept => ?_
    have hmem := mem_entriesOf.mpr ⟨hx, rfl⟩
    rw [← hkept.1, entriesOf_natTimeout, List.mem_filter, hxdue] at hmem
    exact Bool.false_ne_true hmem.2
  have hflow : ∀ x ∈ t.mappings, due now x = true → ∀ y ∈ t.mappings, x.internal = y.internal →
      due now y = true := by
    intro x hx hxdue y hy hxy
    by_contra hydue
    have hmem : y ∈ entriesOf (natTimeout t now) x.internal := by
      rw [entriesOf_natTimeout, List.mem_filter, mem_entriesOf]
      exact ⟨⟨hy, hxy.symm⟩, by simpa using hydue⟩
    rw [(hremoved x hx hxdue).1] at hmem
    exact List.not_mem_nil hmem
  refine ⟨fun x hx y hy hxy => ?_, fun x hx hxdue => ?_⟩
  · rw [Bool.eq_iff_iff]
    exact ⟨fun hd => hflow x hx hd y hy hxy, fun hd => hflow y hy hd x hx hxy.symm⟩
  · by_cases hzero : x.externalPort = 0
    · exact ⟨x, hx, hxdue, by rw [hzero]; rfl⟩
    · have hcell := (hremoved x hx hxdue).2
      have hset := (h.pool (ntohs x.externalPort)).mpr
        ⟨ntohs_ne_zero hzero, _, label_mem hx, by rw [htons_ntohs]; rfl⟩
      rw [assignedPorts_natTimeout] at hcell
      by_contra hnone
      refine hset ((if_neg fun hfreed => hnone ?_).symm.trans hcell)
      exact (mem_freed _).mp hfreed.1

/-- **A sweep of a paired table** takes whole flows exactly when what is due comes in pairs. -/
theorem Paired.sweepsWhole_iff (h : Paired t) : SweepsWhole t now ↔ DueInPairs t now :=
  ⟨h.dueInPairs, h.sweepsWhole⟩

/-- The endpoint has an entry that is due. -/
def dueEndpoint (t : NatTable) (now : Nat) (e : Endpoint) : Bool :=
  t.mappings.any fun entry => entry.internal = e && due now entry

theorem DueInPairs.dueEndpoint_eq (h : DueInPairs t now) {entry : NatMapping}
    (hentry : entry ∈ t.mappings) : dueEndpoint t now entry.internal = due now entry := by
  rw [Bool.eq_iff_iff, dueEndpoint, List.any_eq_true]
  constructor
  · intro hsome
    obtain ⟨y, hy, hyd⟩ := hsome
    rw [Bool.and_eq_true, decide_eq_true_eq] at hyd
    rw [← h.flow y hy entry hentry hyd.1]
    exact hyd.2
  · intro hd
    exact ⟨entry, hentry, by simp [hd]⟩

theorem DueInPairs.labels_natTimeout (h : DueInPairs t now) (b : Fin hash8Bits) :
    labels (natTimeout t now) b = (labels t b).filter fun x => !dueEndpoint t now x.1 := by
  rw [labels, Buckets.map, natTimeout, natMappingList_sweepTable, labels, Buckets.map,
    List.filter_map]
  congr 1
  apply List.filter_congr
  intro entry hentry
  rw [Function.comp_apply, label, h.dueEndpoint_eq (Buckets.mem_scan.mpr ⟨b, hentry⟩)]

theorem DueInPairs.scan_labels_natTimeout (h : DueInPairs t now) :
    Buckets.scan (labels (natTimeout t now)) =
      (Buckets.scan (labels t)).filter fun x => !dueEndpoint t now x.1 := by
  rw [Buckets.scan, funext h.labels_natTimeout, Buckets.scan, List.filter_flatMap]

theorem DueInPairs.mem_labels_natTimeout (h : DueInPairs t now) {x : Endpoint × UInt16} :
    x ∈ Buckets.scan (labels (natTimeout t now)) ↔
      x ∈ Buckets.scan (labels t) ∧ (!dueEndpoint t now x.1) = true := by
  rw [h.scan_labels_natTimeout, List.mem_filter]

/-- The port of an entry is freed when its endpoint is due. -/
theorem Paired.mem_freed_iff_dueEndpoint (h : Paired t) (hdue : DueInPairs t now)
    {x : Endpoint × UInt16} (hx : x ∈ Buckets.scan (labels t)) {p : UInt16} (hp : p ≠ 0)
    (hport : x.2 = htons p) : p ∈ freed (due now) t.mappings ↔ dueEndpoint t now x.1 = true := by
  obtain ⟨entry, hentry, rfl⟩ := mem_labels.mp hx
  have hzero : entry.externalPort ≠ 0 :=
    fun hzero => hp (htons_injective (hport.symm.trans hzero))
  have hback : ntohs entry.externalPort = p := by
    rw [show entry.externalPort = htons p from hport, ntohs_htons]
  rw [← hback, ← hdue.freed_iff, h.mem_freed_iff hdue hentry hzero, label,
    hdue.dueEndpoint_eq hentry]

/-- The pool after a sweep is that of the ports of the endpoints that are not due. -/
theorem Paired.pool_natTimeout (h : Paired t) (hdue : DueInPairs t now) (p : UInt16) :
    (natTimeout t now).assignedPorts p ≠ 0 ↔
      p ≠ 0 ∧ ∃ x ∈ Buckets.scan (labels t), dueEndpoint t now x.1 = false ∧ x.2 = htons p := by
  rw [assignedPorts_natTimeout]
  constructor
  · intro hne
    have hkept : ¬(p ∈ freed (due now) t.mappings ∧
        natPortMin ≤ p.toNat ∧ p.toNat ≤ natPortMax) := fun hboth => hne (if_pos hboth)
    rw [if_neg hkept] at hne
    obtain ⟨hp, x, hx, hport⟩ := (h.pool p).mp hne
    refine ⟨hp, x, hx, ?_, hport⟩
    rw [← Bool.not_eq_true, ← h.mem_freed_iff_dueEndpoint hdue hx hp hport]
    intro hmem
    have hzero : x.2 ≠ 0 := fun hzero => hp (htons_injective (hport.symm.trans hzero))
    have hrange := h.range x hx hzero
    rw [hport, ntohs_htons] at hrange
    exact hkept ⟨hmem, hrange⟩
  · intro hsome
    obtain ⟨hp, x, hx, hnot, hport⟩ := hsome
    rw [← Bool.not_eq_true, ← h.mem_freed_iff_dueEndpoint hdue hx hp hport] at hnot
    rw [if_neg fun hboth => hnot hboth.1]
    exact (h.pool p).mpr ⟨hp, x, hx, hport⟩

theorem Paired.swept (h : Paired t) (hdue : DueInPairs t now) : Paired (natTimeout t now) where
  inner x hx := by
    obtain ⟨hold, hkept⟩ := hdue.mem_labels_natTimeout.mp hx
    rw [hdue.labels_natTimeout, List.mem_filter]
    exact ⟨h.inner x hold, hkept⟩
  outer x hx := by
    obtain ⟨hold, hkept⟩ := hdue.mem_labels_natTimeout.mp hx
    rw [hdue.labels_natTimeout, List.mem_filter, natTimeout, externalIface_sweepTable]
    exact ⟨h.outer x hold, hkept⟩
  two x hx := by
    obtain ⟨hold, hkept⟩ := hdue.mem_labels_natTimeout.mp hx
    rw [hdue.scan_labels_natTimeout, List.count_filter (by exact hkept)]
    exact h.two x hold
  port x hx y hy :=
    h.port x (hdue.mem_labels_natTimeout.mp hx).1 y (hdue.mem_labels_natTimeout.mp hy).1
  holder x hx y hy :=
    h.holder x (hdue.mem_labels_natTimeout.mp hx).1 y (hdue.mem_labels_natTimeout.mp hy).1
  pool p := by
    rw [h.pool_natTimeout hdue]
    simp only [hdue.mem_labels_natTimeout, Bool.not_eq_true', and_assoc]
  range x hx := h.range x (hdue.mem_labels_natTimeout.mp hx).1

end Sweep

/-! ### Runs -/

/-- A packet leaves what the entries say, but for the two entries of a flow it may open. -/
theorem next_packet_cases {t t' : NatTable} {iface : IfaceInfo} {dir : PacketDir} {p : Packet}
    {now later : Nat} (h : next (some t) (.packet iface dir p now later) = some t') :
    (∃ loc, t' = touch t loc later) ∨
    (natLookupInternal t p.source.1 p.source.2 = none ∧
      ∃ loc, t' = touch (natInsertMapping t p.source.1 p.source.2 now).2 loc later) := by
  obtain ⟨r, hr, rfl⟩ := Option.map_eq_some_iff.mp h
  obtain ⟨loc, hloc, hr⟩ := Option.bind_eq_some_iff.mp hr
  obtain ⟨entry, -, rfl⟩ := Option.map_eq_some_iff.mp hr
  by_cases hdir : dir = .dirIn
  · refine .inl ⟨loc, ?_⟩
    rw [natGetMappingFromPacket]
    simp only [if_pos hdir]
  · cases hlookup : natLookupInternal t p.source.1 p.source.2 with
    | none =>
      exact .inr ⟨rfl, loc, by rw [natGetMappingFromPacket_new now hdir hlookup]⟩
    | some loc' =>
      exact .inl ⟨loc, by rw [natGetMappingFromPacket_known hdir hlookup]⟩

def FlowsSweptWhole : Option NatTable → Event → Prop
  | some t, .sweep now => SweepsWhole t now
  | _, _ => True

/-- What is due at a sweep comes in pairs. -/
def FlowsDueInPairs : Option NatTable → Event → Prop
  | some t, .sweep now => DueInPairs t now
  | _, _ => True

instance (t : NatTable) (now : Nat) : Decidable (DueInPairs t now) :=
  decidable_of_iff
    ((∀ x ∈ t.mappings, ∀ y ∈ t.mappings, x.internal = y.internal → due now x = due now y) ∧
      ∀ x ∈ t.mappings, due now x = true →
        ∃ y ∈ t.mappings, due now y = true ∧ y.externalPort = ntohs x.externalPort)
    ⟨fun h => ⟨h.1, h.2⟩, fun h => ⟨h.1, h.2⟩⟩

instance : (s : Option NatTable) → (e : Event) → Decidable (FlowsDueInPairs s e)
  | some t, .sweep now => inferInstanceAs (Decidable (DueInPairs t now))
  | none, _ => isTrue trivial
  | some _, .packet .. => isTrue trivial

theorem paired_next {s : Option NatTable} {e : Event} (h : ∀ t, s = some t → Paired t)
    (hdue : FlowsDueInPairs s e) : ∀ t, next s e = some t → Paired t := by
  intro t' ht'
  cases s with
  | none => cases ht'
  | some t =>
    have hpaired := h t rfl
    cases e with
    | sweep now =>
      rw [← Option.some.inj ht']
      exact hpaired.swept hdue
    | packet iface dir p now later =>
      rcases next_packet_cases ht' with ⟨loc, rfl⟩ | ⟨hlookup, loc, rfl⟩
      · exact hpaired.touch loc later
      · exact (hpaired.insert now (hpaired.ne_of_lookup hlookup)).touch loc later

theorem flowsSweptWhole_iff {s : Option NatTable} (h : ∀ t, s = some t → Paired t) (e : Event) :
    FlowsSweptWhole s e ↔ FlowsDueInPairs s e := by
  cases s with
  | none => exact Iff.rfl
  | some t =>
    cases e with
    | packet => exact Iff.rfl
    | sweep now => exact (h t rfl).sweepsWhole_iff

/-- **When a flow's two entries live and die together**: in a run from the start, with any packets
and any clock readings, every sweep takes whole flows and frees just their ports exactly when at
every sweep what is due comes in pairs. -/
theorem flows_swept_whole_iff {ifaceList : List IfaceInfo} {t₀ : NatTable}
    (hinit : natTableInit ifaceList = some t₀) (es : List Event) :
    AtEachStep next FlowsSweptWhole (some t₀) es ↔
      AtEachStep next FlowsDueInPairs (some t₀) es := by
  obtain ⟨hbuckets, hpool⟩ := natTableInit_spec hinit
  apply atEachStep_congr next (I := fun s => ∀ t, s = some t → Paired t)
  · exact fun s e h => flowsSweptWhole_iff h e
  · exact fun s e h hdue => paired_next h hdue
  · intro t ht
    cases ht
    exact Paired.init hbuckets hpool

/-- A flow, a sweep that takes nothing, and one after the clock has been set back. -/
def setBackRun : List Event :=
  [ .packet natTopoIfaces.1 .dirOut (Packet.bare hostH1 hostH2) 200 200, .sweep 300, .sweep 100 ]

/-- The last sweep finds an entry due. -/
theorem flows_swept_whole_iff_setBackRun :
    ((run next (some natTopo) (setBackRun.take 2)).any fun t => t.mappings.any (due 100)) = true ∧
    (AtEachStep next FlowsSweptWhole (some natTopo) setBackRun ↔
      AtEachStep next FlowsDueInPairs (some natTopo) setBackRun) :=
  ⟨by decide +kernel, flows_swept_whole_iff natTableInit_natTopo setBackRun⟩

/-- The clock is set back by 100 seconds after the first segment of a flow: the sweep takes the
entry that was stamped and keeps the other. -/
theorem clock_set_back_halves_flow :
    natTableInit [natTopoIfaces.1, natTopoIfaces.2] = some natTopo ∧
    ¬ AtEachStep next FlowsSweptWhole (some natTopo)
      [ .packet natTopoIfaces.1 .dirOut (Packet.bare hostH1 hostH2) 200 200, .sweep 100 ] := by
  refine ⟨natTableInit_natTopo, fun h => ?_⟩
  have hstart : ∀ t, some natTopo = some t → Paired t := by
    intro t ht
    cases ht
    exact Paired.init (fun _ => rfl) fun _ => rfl
  have hpaired := paired_next (e := .packet natTopoIfaces.1 .dirOut (Packet.bare hostH1 hostH2)
    200 200) hstart trivial
  have hpairs := (flowsSweptWhole_iff hpaired _).mp (h [_] (.sweep 100) [] rfl)
  revert hpairs
  decide +kernel

end MiniNet.NatStack.NatNew2
