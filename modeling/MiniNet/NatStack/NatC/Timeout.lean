import MiniNet.NatStack.NatC.Layout

/-!
# Idle mappings in `nat.c`

`nat.h` has a connection finished when it has been idle for `TCP_ESTABLISHED_TIMEOUT` seconds. The
table cannot tell: an entry keeps the time of its creation, and the sweep asks whether that lies
ahead of the clock. So the idle times are kept here beside the table, one for each entry, by a
machine whose table is that of `nat.c` at every step.
-/

namespace MiniNet.NatStack.NatC

open Lib

/-! ### Idle times -/

/-- What `nat_get_mapping_from_packet` looks for. -/
def matchesPacket (p : Packet) (dir : PacketDir) (entry : NatMapping) : Bool :=
  if dir = .dirIn then entry.externalPort = p.dest.2
  else entry.internalIp = p.source.1 ∧ entry.internalPort = p.source.2

/-- The bucket and the place of the mapping a packet is translated through. -/
def hit (t : NatTable) (p : Packet) (dir : PacketDir) : Option (Fin hash8Bits × Nat) :=
  Buckets.locate t.natMappingList (matchesPacket p dir)

/-- A table, and for each of its entries the time at which the last packet was translated through
it, or of its creation while there was none. -/
structure Traced where
  table : NatTable
  lastUse : Fin hash8Bits → List Nat

namespace Traced

def start (t : NatTable) : Traced := ⟨t, fun _ => []⟩

def next (s : Traced) (e : Event) : Traced where
  table := NatC.next s.table e
  lastUse :=
    match e with
    | .packet _ dir p now _ =>
      match hit s.table p dir with
      | some (b, i) => Function.update s.lastUse b ((s.lastUse b).set i now)
      | none => Function.update s.lastUse firstBucket (s.lastUse firstBucket ++ [now])
    | .sweep now => fun b =>
      (((s.table.natMappingList b).zip (s.lastUse b)).filter fun x => !due now x.1).map (·.2)

end Traced

/-- The sweep removes the mappings that have been idle for the timeout and keeps the others as they
are. -/
def SweepReclaims (s : Traced) (now : Nat) : Prop :=
  ∀ b, (natTimeout s.table now).natMappingList b =
    (((s.table.natMappingList b).zip (s.lastUse b)).filter fun x =>
      now < x.2 + tcpEstablishedTimeout).map (·.1)

def NoneIdle (s : Traced) (now : Nat) : Prop :=
  ∀ b, ∀ use ∈ s.lastUse b, now < use + tcpEstablishedTimeout

/-! ### One time for each entry -/

theorem Traced.next_table (s : Traced) (e : Event) : (s.next e).table = NatC.next s.table e := rfl

theorem run_table (s : Traced) (es : List Event) :
    (run Traced.next s es).table = run next s.table es := by
  induction es generalizing s with
  | nil => rfl
  | cons e es ih => rw [run_cons, ih, run_cons, Traced.next_table]

private theorem map_filter_eq_map_iff {α β : Type*} {f : α → β} {q : α → Bool} {l : List α} :
    (l.filter q).map f = l.map f ↔ ∀ x ∈ l, q x = true := by
  rw [← List.length_filter_eq_length_iff]
  refine ⟨fun h => ?_, fun h => by rw [List.filter_sublist.eq_of_length h]⟩
  simpa only [List.length_map] using congrArg List.length h

theorem natGetMappingFromPacket_hit (t : NatTable) (p : Packet) (dir : PacketDir) :
    natGetMappingFromPacket t p dir = (hit t p dir).bind (Buckets.get? t.natMappingList) := by
  rw [hit, ← Buckets.find?_scan_eq_locate, natGetMappingFromPacket_eq, NatTable.mappings]
  by_cases hdir : dir = .dirIn
  · have hkey : matchesPacket p dir = fun entry : NatMapping =>
        decide (entry.externalPort = p.dest.2) := funext fun _ => if_pos hdir
    rw [if_pos hdir, natLookupExternal, hkey]
  · have hkey : matchesPacket p dir = fun entry : NatMapping =>
        decide (entry.internalIp = p.source.1 ∧ entry.internalPort = p.source.2) :=
      funext fun _ => if_neg hdir
    rw [if_neg hdir, natLookupInternal, hkey]

/-- While there is one time for each entry, a sweep with nothing due keeps them all. -/
theorem Traced.next_sweep_lastUse {s : Traced} {now : Nat}
    (hdue : ∀ entry ∈ s.table.mappings, due now entry = false)
    (hlen : ∀ b, (s.lastUse b).length = (s.table.natMappingList b).length) :
    (s.next (.sweep now)).lastUse = s.lastUse := by
  funext b
  have hall : ((s.table.natMappingList b).zip (s.lastUse b)).filter (fun x => !due now x.1)
      = (s.table.natMappingList b).zip (s.lastUse b) := by
    rw [List.filter_eq_self]
    intro x hx
    rw [hdue x.1 (Buckets.mem_scan.mpr ⟨b, (List.of_mem_zip hx).1⟩)]
    rfl
  change (List.filter _ _).map _ = _
  rw [hall, List.map_snd_zip (hlen b).le]

theorem Traced.next_length {s : Traced} {e : Event}
    (hdue : ∀ now, e = .sweep now → ∀ entry ∈ s.table.mappings, due now entry = false)
    (hlen : ∀ b, (s.lastUse b).length = (s.table.natMappingList b).length) (b : Fin hash8Bits) :
    ((s.next e).lastUse b).length = ((s.next e).table.natMappingList b).length := by
  rw [Traced.next_table]
  cases e with
  | sweep now =>
    rw [Traced.next_sweep_lastUse (hdue now rfl) hlen, hlen, next_sweep, natTimeout,
      sweepTable_of_none_due (hdue now rfl)]
  | packet iface dir p now later =>
    have hfound := natGetMappingFromPacket_hit s.table p dir
    rw [next_packet, Traced.next]
    rcases hhit : hit s.table p dir with _ | ⟨c, i⟩
    · rw [hhit, Option.bind_none] at hfound
      rw [doTranslation_of_none hfound, natMappingList_insert]
      by_cases hb : b = firstBucket
      · subst hb
        simp only [Buckets.addTail, Function.update_self, List.length_append,
          List.length_singleton, hlen]
      · simp only [Buckets.addTail, Function.update_of_ne hb, hlen]
    · obtain ⟨entry, hentry⟩ : ∃ entry, natGetMappingFromPacket s.table p dir = some entry := by
        rw [hfound, hhit]
        exact ⟨_, List.getElem?_eq_getElem (Buckets.locate_lt hhit)⟩
      rw [doTranslation_fst_of_some hentry, ← hlen]
      by_cases hb : b = c
      · subst hb
        simp only [Function.update_self, List.length_set]
      · simp only [Function.update_of_ne hb]

/-! ### Sweeps -/

/-- There is one time for each entry in every state of a run whose clock does not go back. -/
theorem length_lastUse {t₀ : NatTable} {es : List Event}
    (hbuckets : ∀ b, t₀.natMappingList b = []) (hpool : ∀ p, t₀.assignedPorts p = 0)
    (hclock : Nondecreasing Event.readings es) :
    ∀ pre post, es = pre ++ post → ∀ b,
      ((run Traced.next (.start t₀) pre).lastUse b).length =
        ((run Traced.next (.start t₀) pre).table.natMappingList b).length := by
  apply run_induction Traced.next
    (P := fun _ s => ∀ b, (s.lastUse b).length = (s.table.natMappingList b).length)
  · intro b
    change ([] : List Nat).length = (t₀.natMappingList b).length
    rw [hbuckets]
    rfl
  · intro pre e post hsplit hlen
    refine Traced.next_length ?_ hlen
    rintro now rfl
    rw [run_table]
    exact (layout_run hbuckets hpool hclock pre _ hsplit).not_due fun past' hpast =>
      (hsplit ▸ hclock).le_of_mem hpast (List.mem_singleton_self now)

/-- No sweep of a run removes anything. -/
theorem natTimeout_run {t₀ : NatTable} {es pre post : List Event} {now : Nat}
    (hbuckets : ∀ b, t₀.natMappingList b = []) (hpool : ∀ p, t₀.assignedPorts p = 0)
    (hclock : Nondecreasing Event.readings es) (hsplit : es = pre ++ .sweep now :: post) :
    natTimeout (run Traced.next (.start t₀) pre).table now
      = (run Traced.next (.start t₀) pre).table := by
  rw [run_table]
  exact (layout_run hbuckets hpool hclock pre _ hsplit).natTimeout fun past' hpast =>
    (hsplit ▸ hclock).le_of_mem hpast (List.mem_singleton_self now)

/-- **When a sweep reclaims what is idle, and only that**, at every sweep of a run whose clock does
not go back: when there is nothing to reclaim. -/
theorem sweep_reclaims_iff {ifaceList : List IfaceInfo} {t₀ : NatTable} {es pre post : List Event}
    {now : Nat} (hinit : natTableInit ifaceList = some t₀)
    (hclock : Nondecreasing Event.readings es) (hsplit : es = pre ++ .sweep now :: post) :
    SweepReclaims (run Traced.next (.start t₀) pre) now ↔
      NoneIdle (run Traced.next (.start t₀) pre) now := by
  obtain ⟨hbuckets, hpool⟩ := natTableInit_spec hinit
  have hlen := length_lastUse hbuckets hpool hclock pre _ hsplit
  have hkept := natTimeout_run hbuckets hpool hclock hsplit
  generalize run Traced.next (.start t₀) pre = s at hlen hkept ⊢
  rw [SweepReclaims, hkept, NoneIdle]
  refine forall_congr' fun b => ?_
  have hfst := List.map_fst_zip (hlen b).ge
  have hsnd := List.map_snd_zip (hlen b).le
  -- The table is as before, so the filter must have kept every pair.
  calc s.table.natMappingList b = _
      ↔ (((s.table.natMappingList b).zip (s.lastUse b)).filter fun x =>
          now < x.2 + tcpEstablishedTimeout).map Prod.fst
        = ((s.table.natMappingList b).zip (s.lastUse b)).map Prod.fst := by rw [hfst, eq_comm]
    _ ↔ ∀ x ∈ (s.table.natMappingList b).zip (s.lastUse b), now < x.2 + tcpEstablishedTimeout := by
        simp only [map_filter_eq_map_iff, decide_eq_true_eq]
    _ ↔ ∀ use ∈ s.lastUse b, now < use + tcpEstablishedTimeout := by
        conv_rhs => rw [← hsnd, List.forall_mem_map]

theorem sweep_reclaims_iff_natTopoRun :
    SweepReclaims (run Traced.next (.start natTopo) (natTopoRun.take 3)) 500 ↔
      NoneIdle (run Traced.next (.start natTopo) (natTopoRun.take 3)) 500 :=
  sweep_reclaims_iff natTableInit_natTopo (by decide)
    (show natTopoRun = natTopoRun.take 3 ++ .sweep 500 :: [] from rfl)

/-- A mapping made at 100 and not used since stays in the sweep at 200. -/
theorem idle_mapping_stays :
    Nondecreasing Event.readings (natTopoRun.take 1 ++ [.sweep 200]) ∧
    ¬ SweepReclaims (run Traced.next (.start natTopo) (natTopoRun.take 1)) 200 := by
  have hclock : Nondecreasing Event.readings (natTopoRun.take 1 ++ [.sweep 200]) := by decide
  refine ⟨hclock, fun h => ?_⟩
  have hbucket := h firstBucket
  rw [natTimeout_run (fun _ => rfl) (fun _ => rfl) hclock rfl] at hbucket
  revert hbucket
  decide +kernel

end MiniNet.NatStack.NatC
