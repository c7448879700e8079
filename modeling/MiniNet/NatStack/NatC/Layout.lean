import Mathlib.Data.List.Infix
import MiniNet.NatStack.NatC.Code

/-!
# The table of a run of `nat.c`

While the clock does not go back no sweep of `nat.c` finds an entry due, so the table of a run only
grows, always at the end of the first bucket, and the pool is used up from below. `Layout` says
this as an invariant of the history and the table: the `k`-th entry holds the `k`-th port, or the
failure value once the ports are used up, and a cell of the pool is set exactly when its port is
among those handed out.
-/

namespace MiniNet.NatStack.NatC

open Lib

def poolSize : Nat := natPortMax - natPortMin

/-- The external port of the `k`-th entry, as it is stored. -/
def nthPort (k : Nat) : UInt16 :=
  if k < poolSize then htons (UInt16.ofNat (natPortMin + k)) else 0xffff

theorem nthPort_of_lt {k : Nat} (h : k < poolSize) :
    nthPort k = htons (UInt16.ofNat (natPortMin + k)) := if_pos h

theorem nthPort_of_le {k : Nat} (h : poolSize ≤ k) : nthPort k = 0xffff :=
  if_neg (Nat.not_lt.mpr h)

theorem toNat_nthPort {k : Nat} (h : k < poolSize) :
    (UInt16.ofNat (natPortMin + k)).toNat = natPortMin + k := by
  apply UInt16.toNat_ofNat_of_lt'
  simp only [poolSize, natPortMax, natPortMin, UInt16.size] at h ⊢
  omega

/-- Stored port `p` is that of entry `k` exactly when it is `NAT_PORT_MIN + k`, for every `p` but the
failure value. -/
theorem nthPort_eq_htons {k : Nat} {p : UInt16} (hp : p ≠ 0xffff) :
    nthPort k = htons p ↔ k < poolSize ∧ natPortMin + k = p.toNat := by
  rcases Nat.lt_or_ge k poolSize with hk | hk
  · rw [nthPort_of_lt hk, htons_injective.eq_iff, ← UInt16.toNat_inj, toNat_nthPort hk]
    exact ⟨fun h => ⟨hk, h⟩, fun h => h.2⟩
  · rw [nthPort_of_le hk, show (0xffff : UInt16) = htons 0xffff by decide, htons_injective.eq_iff]
    exact ⟨fun h => absurd h.symm hp, fun h => absurd h.1 (Nat.not_lt.mpr hk)⟩

theorem nthPort_injective {j k : Nat} (hj : j < poolSize) (hk : k < poolSize)
    (h : nthPort j = nthPort k) : j = k := by
  rw [nthPort_of_lt hj, nthPort_of_lt hk, htons_injective.eq_iff, ← UInt16.toNat_inj,
    toNat_nthPort hj, toNat_nthPort hk] at h
  omega

/-! ### One step -/

/-- A step leaves the table, sweeps it, or appends an entry for the source of a packet that has no
mapping. -/
theorem next_cases (t : NatTable) (e : Event) :
    next t e = t ∨
    (∃ iface dir p now later, e = .packet iface dir p now later ∧
      natGetMappingFromPacket t p dir = none ∧
      next t e = (natInsertMapping t firstBucket p.source.1 p.source.2 now).2) ∨
    (∃ now, e = .sweep now ∧ next t e = natTimeout t now) := by
  cases e with
  | sweep now => exact .inr (.inr ⟨now, rfl, next_sweep t now⟩)
  | packet iface dir p now later =>
    cases hlookup : natGetMappingFromPacket t p dir with
    | none =>
      refine .inr (.inl ⟨iface, dir, p, now, later, rfl, hlookup, ?_⟩)
      rw [next_packet, doTranslation_of_none hlookup]
    | some entry =>
      exact .inl (by rw [next_packet, doTranslation_fst_of_some hlookup])

theorem scanPorts_eq {t : NatTable} {k n : Nat} (hn : natPortMin + n ≤ 65536) (hk : k ≤ n)
    (hpool : ∀ p : UInt16, t.assignedPorts p ≠ 0 ↔
      natPortMin ≤ p.toNat ∧ p.toNat < natPortMin + k) :
    scanPorts t n = if k < n then some (natPortMin + k) else none := by
  have hcell : ∀ p : UInt16, natPortMin ≤ p.toNat →
      (t.assignedPorts p = 0 ↔ natPortMin + k ≤ p.toNat) := by
    intro p hlo
    rw [← not_iff_not, ← ne_eq, hpool p, Nat.not_le, and_iff_right hlo]
  have hnext : natPortMin + k < 65536 →
      (UInt16.ofNat (natPortMin + k)).toNat = natPortMin + k := UInt16.toNat_ofNat_of_lt'
  rcases scanPorts_cases t hn with ⟨port, hleast, hscan⟩ | ⟨hfull, hscan⟩
  · have hge := (hcell port hleast.lo).mp hleast.free
    have hhi := hleast.hi
    have hle : port.toNat ≤ natPortMin + k := by
      by_contra hlt
      have hport := hnext (by omega)
      have htaken := hleast.least (UInt16.ofNat (natPortMin + k)) (by omega) (by omega)
      exact htaken ((hcell _ (by omega)).mpr hport.ge)
    rw [hscan, if_pos (by omega), Nat.le_antisymm hle hge]
  · rw [hscan, if_neg]
    intro hlt
    have hport := hnext (by omega)
    exact hfull _ (by omega) (by omega) ((hcell _ (by omega)).mpr hport.ge)

/-! ### The invariant -/

def entries (t : NatTable) : List NatMapping := t.natMappingList firstBucket

/-- The table after the events `past`, with the interface `iface` outside. -/
structure Layout (iface : IfaceInfo) (past : List Event) (t : NatTable) : Prop where
  externalIface : t.externalIface = iface
  rest : ∀ b, b ≠ firstBucket → t.natMappingList b = []
  ports : (entries t).map (·.externalPort) = (List.range (entries t).length).map nthPort
  pool : ∀ p : UInt16, t.assignedPorts p ≠ 0 ↔
    natPortMin ≤ p.toNat ∧ p.toNat < natPortMin + min (entries t).length poolSize
  stamps : ∀ entry ∈ entries t, entry.updateTime ∈ past.flatMap Event.readings

theorem entries_insert (t : NatTable) (ip : UInt32) (port : UInt16) (now : Nat) :
    entries (natInsertMapping t firstBucket ip port now).2
      = entries t ++ [inserted t ip port now] := by
  rw [entries, natMappingList_insert, Buckets.addTail, Function.update_self, entries]

section Layout

variable {iface : IfaceInfo} {past : List Event} {t : NatTable}

theorem Layout.init (hbuckets : ∀ b, t.natMappingList b = [])
    (hpool : ∀ p, t.assignedPorts p = 0) : Layout t.externalIface [] t := by
  have hempty : entries t = [] := hbuckets firstBucket
  refine ⟨rfl, fun b _ => hbuckets b, by rw [hempty]; rfl, fun p => ?_, by simp [hempty]⟩
  rw [hempty, hpool p, List.length_nil, Nat.zero_min]
  constructor
  · intro h
    exact absurd rfl h
  · intro hrange
    obtain ⟨hlo, hhi⟩ := hrange
    omega

theorem Layout.scan (h : Layout iface past t) :
    scanPorts t poolSize =
      if (entries t).length < poolSize then some (natPortMin + (entries t).length) else none := by
  rcases Nat.lt_or_ge (entries t).length poolSize with hlt | hge
  · have hmin : min (entries t).length poolSize = (entries t).length := by omega
    exact scanPorts_eq (by decide) (Nat.le_of_lt hlt) fun p => by rw [h.pool p, hmin]
  · have hmin : min (entries t).length poolSize = poolSize := by omega
    rw [scanPorts_eq (k := poolSize) (by decide) (Nat.le_refl _) fun p => by rw [h.pool p, hmin],
      if_neg (Nat.lt_irrefl _), if_neg (Nat.not_lt.mpr hge)]

theorem Layout.htons_assign (h : Layout iface past t) :
    htons (assignExternalPort t).1 = nthPort (entries t).length := by
  rw [assignExternalPort, ← poolSize, h.scan]
  split_ifs with hlt
  · rw [nthPort_of_lt hlt]
  · rw [nthPort_of_le (Nat.not_lt.mp hlt)]
    change htons 0xffff = 0xffff
    decide

theorem Layout.pool_assign (h : Layout iface past t) (p : UInt16) :
    (assignExternalPort t).2.assignedPorts p ≠ 0 ↔
      natPortMin ≤ p.toNat ∧ p.toNat < natPortMin + min ((entries t).length + 1) poolSize := by
  rw [assignExternalPort, ← poolSize, h.scan]
  split_ifs with hlt
  · have hport := toNat_nthPort hlt
    simp only [NatTable.setPort, Function.update_apply]
    split_ifs with hp
    · rw [hp, hport]
      refine ⟨fun _ => ⟨by omega, by omega⟩, fun _ => by decide⟩
    · have hne : p.toNat ≠ natPortMin + (entries t).length := by
        intro heq
        exact hp (UInt16.toNat_inj.mp (heq.trans hport.symm))
      rw [h.pool p]
      omega
  · rw [h.pool p]
    omega

theorem Layout.insert (h : Layout iface past t) (ip : UInt32) (port : UInt16) {now : Nat}
    {e : Event} (hnow : now ∈ e.readings) :
    Layout iface (past ++ [e]) (natInsertMapping t firstBucket ip port now).2 := by
  have hentries := entries_insert t ip port now
  refine ⟨?_, fun b hb => ?_, ?_, fun p => ?_, fun entry hmem => ?_⟩
  · rw [← h.externalIface]
    exact (assignExternalPort_frame t).2
  · rw [natMappingList_insert, Buckets.addTail, Function.update_of_ne hb, h.rest b hb]
  · rw [hentries, List.map_append, List.length_append, List.length_singleton, List.range_succ,
      List.map_append, h.ports, List.map_singleton, List.map_singleton, inserted_externalPort,
      h.htons_assign]
  · rw [hentries, List.length_append, List.length_singleton]
    exact h.pool_assign p
  · rw [List.flatMap_append, List.flatMap_singleton]
    rw [hentries] at hmem
    rcases List.mem_append.mp hmem with hold | hnew
    · exact List.mem_append_left _ (h.stamps entry hold)
    · rw [List.mem_singleton.mp hnew, inserted_updateTime]
      exact List.mem_append_right _ hnow

theorem Layout.idle (h : Layout iface past t) (e : Event) : Layout iface (past ++ [e]) t where
  externalIface := h.externalIface
  rest := h.rest
  ports := h.ports
  pool := h.pool
  stamps entry hmem := by
    rw [List.flatMap_append]
    exact List.mem_append_left _ (h.stamps entry hmem)

theorem Layout.mappings (h : Layout iface past t) : t.mappings = entries t := by
  have hrest : ((List.finRange 255).map Fin.succ).flatMap t.natMappingList = [] := by
    rw [List.flatMap_eq_nil_iff]
    intro b hb
    obtain ⟨i, _, rfl⟩ := List.mem_map.mp hb
    exact h.rest _ (Fin.succ_ne_zero i)
  rw [NatTable.mappings, Buckets.scan_succ, hrest, List.append_nil]
  rfl

theorem Layout.lookup (h : Layout iface past t) (p : Packet) (dir : PacketDir) :
    natGetMappingFromPacket t p dir =
      if dir = .dirIn then natLookupExternal (entries t) p.dest.2
      else natLookupInternal (entries t) p.source.1 p.source.2 := by
  rw [natGetMappingFromPacket_eq, h.mappings]

theorem Layout.port_get (h : Layout iface past t) (k : Fin t.mappings.length) :
    (t.mappings.get k).externalPort = nthPort k := by
  have hk : k.val < (entries t).length := h.mappings ▸ k.isLt
  have hports := congrArg (fun l => l[k.val]?) h.ports
  simp only [List.getElem?_map, List.getElem?_range hk, Option.map_some,
    List.getElem?_eq_getElem hk, Option.some.injEq] at hports
  simp only [List.get_eq_getElem, h.mappings, hports]

theorem Layout.not_due (h : Layout iface past t) {now : Nat}
    (hclock : ∀ past' ∈ past.flatMap Event.readings, past' ≤ now) :
    ∀ entry ∈ t.mappings, due now entry = false := by
  intro entry hmem
  rw [h.mappings] at hmem
  have hle := hclock _ (h.stamps entry hmem)
  rw [due, decide_eq_false_iff_not]
  omega

theorem Layout.natTimeout (h : Layout iface past t) {now : Nat}
    (hclock : ∀ past' ∈ past.flatMap Event.readings, past' ≤ now) :
    NatC.natTimeout t now = t :=
  sweepTable_of_none_due (h.not_due hclock)

/-- While the clock does not go back, a step leaves the table or appends one entry. -/
theorem Layout.next_cases (h : Layout iface past t) (e : Event)
    (hclock : ∀ past' ∈ past.flatMap Event.readings, ∀ now ∈ e.readings, past' ≤ now) :
    next t e = t ∨
    ∃ iface dir p now later, e = .packet iface dir p now later ∧
      natGetMappingFromPacket t p dir = none ∧
      next t e = (natInsertMapping t firstBucket p.source.1 p.source.2 now).2 := by
  rcases NatC.next_cases t e with hsame | hins | ⟨now, rfl, hsweep⟩
  · exact .inl hsame
  · exact .inr hins
  · exact .inl (hsweep.trans (h.natTimeout fun past' hpast =>
      hclock past' hpast now (List.mem_singleton_self now)))

end Layout

/-- **The invariant holds along every run whose clock does not go back.** -/
theorem layout_run {t₀ : NatTable} {es : List Event} (hbuckets : ∀ b, t₀.natMappingList b = [])
    (hpool : ∀ p, t₀.assignedPorts p = 0) (hclock : Nondecreasing Event.readings es) :
    ∀ pre post, es = pre ++ post → Layout t₀.externalIface pre (run next t₀ pre) := by
  apply run_induction next (P := fun past t => Layout t₀.externalIface past t)
  · exact Layout.init hbuckets hpool
  · intro pre e post hsplit hlayout
    rcases hlayout.next_cases e (fun _ hpast _ => (hsplit ▸ hclock).le_of_mem hpast) with
      hsame | ⟨_, _, p, now, _, rfl, _, hins⟩
    · rw [hsame]
      exact hlayout.idle e
    · rw [hins]
      exact hlayout.insert _ _ (List.mem_cons_self ..)

end MiniNet.NatStack.NatC
