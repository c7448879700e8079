import Mathlib.Data.List.Find
import MiniNet.Lib.Leases
import MiniNet.NatStack.Table

/-!
# What a NAT does

The abstract NAT leases a port to every inner endpoint that sends, the least free one of the range,
and translates by that lease in both directions; a sweep is nothing to it. The packet is of interest
only by its addresses and ports. Both versions of the code have this as their model as long as ports
last, in tables as different as they are: `Represents` is what the two have in common, with no word
on where in its table a version keeps what it finds.
-/

namespace MiniNet.NatStack

open Lib

/-- The ports from `NAT_PORT_MIN` to `NAT_PORT_MAX`. -/
def natPortCount : Nat := natPortMax + 1 - natPortMin

/-- A port as it stands in a packet. -/
def wirePort (n : Nat) : UInt16 := htons (UInt16.ofNat n)

namespace AbstractNat

variable (externalIp : UInt32)

/-- The leases after an event, and source and destination of what is forwarded. -/
def step (M : Leases Endpoint) : Event → Leases Endpoint × Option (Endpoint × Endpoint)
  | .packet _ dir p _ _ =>
    if dir = .dirIn then (M, (M.holder? (ntohs p.dest.2).toNat).map fun e => (p.source, e))
    else
      let M := M.assign natPortMin natPortCount p.source
      (M, (M.value? p.source).map fun n => ((externalIp, wirePort n), p.dest))
  | .sweep _ => (M, none)

def next : Leases Endpoint → Event → Leases Endpoint := nextOf (step externalIp)

/-- The whole packet that is forwarded at an event, by the leases after it. -/
def forward (M : Leases Endpoint) : Event → Option Packet
  | .packet _ dir p _ _ =>
    if dir = .dirIn then (M.holder? (ntohs p.dest.2).toNat).map p.withDest
    else (M.value? p.source).map fun n => p.withSource (externalIp, wirePort n)
  | .sweep _ => none

end AbstractNat

def Packet.endpoints (p : Packet) : Endpoint × Endpoint := (p.source, p.dest)

namespace Event

def outbound : Event → Option Endpoint
  | packet _ dir p _ _ => if dir = .dirIn then none else some p.source
  | sweep _ => none

def InboundLeased (M : Leases Endpoint) : Event → Prop
  | packet _ dir p _ _ => dir = .dirIn → (ntohs p.dest.2).toNat ∈ M.values
  | sweep _ => True

instance (M : Leases Endpoint) : DecidablePred (InboundLeased M)
  | packet _ dir _ _ _ => inferInstanceAs (Decidable (dir = .dirIn → _))
  | sweep _ => inferInstanceAs (Decidable True)

end Event

/-! ### Leases along a run -/

section Leases

variable {externalIp : UInt32} {M : Leases Endpoint} {e : Event}

theorem AbstractNat.next_of_known (h : ∀ k, e.outbound = some k → k ∈ M.keys) :
    AbstractNat.next externalIp M e = M := by
  cases e with
  | sweep now => rfl
  | packet iface dir p now later =>
    by_cases hdir : dir = .dirIn
    · simp only [next, nextOf, step, if_pos hdir]
    · simp only [next, nextOf, step, if_neg hdir]
      exact Leases.assign_of_mem (h p.source (if_neg hdir))

theorem AbstractNat.next_of_outbound {k : Endpoint} (h : e.outbound = some k) :
    AbstractNat.next externalIp M e = M.assign natPortMin natPortCount k := by
  cases e with
  | sweep now => cases h
  | packet iface dir p now later =>
    by_cases hdir : dir = .dirIn
    · rw [Event.outbound, if_pos hdir] at h
      cases h
    · rw [Event.outbound, if_neg hdir, Option.some.injEq] at h
      simp only [next, nextOf, step, if_neg hdir, h]

theorem exists_free {es pre post : List Event} {count : Nat} {k : Endpoint}
    (hcount : (es.filterMap Event.outbound).toFinset.card ≤ count)
    (hsplit : es = pre ++ e :: post) (hout : e.outbound = some k)
    (hkeys : ∀ k, k ∈ M.keys ↔ k ∈ pre.filterMap Event.outbound) (hkey : k ∉ M.keys) :
    ∃ n, M.firstFree? natPortMin count = some n := by
  have hall : es.filterMap Event.outbound
      = pre.filterMap Event.outbound ++ k :: post.filterMap Event.outbound := by
    rw [hsplit, List.filterMap_append, List.filterMap_cons, hout]
  refine Leases.firstFree?_of_card_le (fun k' hk' => ?_) (k := k) ?_ hkey hcount
  · rw [List.mem_toFinset, hall]
    exact List.mem_append_left _ ((hkeys k').mp hk')
  · rw [List.mem_toFinset, hall]
    exact List.mem_append_right _ (List.mem_cons_self ..)

/-- While the ports last, those who have sent are those who hold a port. -/
theorem mem_keys_run (externalIp : UInt32) {es : List Event}
    (hcount : (es.filterMap Event.outbound).toFinset.card ≤ natPortCount) :
    ∀ pre post, es = pre ++ post → ∀ k,
      k ∈ (run (AbstractNat.next externalIp) Leases.empty pre).keys ↔
        k ∈ pre.filterMap Event.outbound := by
  apply run_induction (AbstractNat.next externalIp)
    (P := fun pre M => ∀ k, k ∈ M.keys ↔ k ∈ pre.filterMap Event.outbound)
  · exact fun _ => Iff.rfl
  · intro pre e post hsplit hkeys k
    rw [List.filterMap_append, List.mem_append, ← hkeys]
    cases hout : e.outbound with
    | none =>
      rw [AbstractNat.next_of_known (by rw [hout]; exact nofun)]
      simp [hout]
    | some k' =>
      by_cases hkey : k' ∈ (run (AbstractNat.next externalIp) Leases.empty pre).keys
      · rw [AbstractNat.next_of_known (by rw [hout]; rintro _ ⟨⟩; exact hkey)]
        simp only [List.filterMap_cons, hout, List.filterMap_nil, List.mem_singleton]
        exact ⟨.inl, fun h => h.elim id fun heq => heq ▸ hkey⟩
      · obtain ⟨n, hfree⟩ := exists_free hcount hsplit hout hkeys hkey
        rw [AbstractNat.next_of_outbound hout, Leases.mem_keys_assign hkey hfree]
        simp [hout]

end Leases

/-- Source and destination of the packet are what the abstract NAT says. -/
theorem endpoints_forward (externalIp : UInt32) (M : Leases Endpoint) {e : Event}
    (he : e.Complete) :
    (AbstractNat.forward externalIp (AbstractNat.next externalIp M e) e).map Packet.endpoints
      = (AbstractNat.step externalIp M e).2 := by
  cases e with
  | sweep now => rfl
  | packet iface dir p now later =>
    by_cases hdir : dir = .dirIn
    · simp only [AbstractNat.forward, AbstractNat.next, nextOf, AbstractNat.step, if_pos hdir,
        Option.map_map, Function.comp_def, Packet.endpoints, Packet.source_withDest he.ihl_ge,
        Packet.dest_withDest he.ihl_ge]
    · simp only [AbstractNat.forward, AbstractNat.next, nextOf, AbstractNat.step, if_neg hdir,
        Option.map_map, Function.comp_def, Packet.endpoints, Packet.source_withSource he.ihl_ge,
        Packet.dest_withSource he.ihl_ge]

/-! ### Tables that represent leases -/

/-- After the events `past`, `t` holds nothing but leases of `M`, with the interface `iface` outside,
and its pool is that of the leased ports. Where in the table an entry is, and whether every lease has
one, is for each version to say. -/
structure Represents (iface : IfaceInfo) (past : List Event) (t : NatTable) (M : Leases Endpoint) :
    Prop where
  externalIface : t.externalIface = iface
  sound : ∀ entry ∈ t.mappings, ∃ n, (entry.internal, n) ∈ M.entries ∧
    entry.externalPort = wirePort n
  pool : ∀ p : UInt16, t.assignedPorts p ≠ 0 ↔ p.toNat ∈ M.values
  range : ∀ n ∈ M.values, natPortMin ≤ n ∧ n < natPortMin + natPortCount
  quiet : ∀ entry ∈ t.mappings, entry.conn = .zero ∧
    (entry.updateTime = 0 ∨ entry.updateTime ∈ past.flatMap Event.readings)

theorem toNat_ofNat_port {n : Nat} (h : n < natPortMin + natPortCount) :
    (UInt16.ofNat n).toNat = n := by
  apply UInt16.toNat_ofNat_of_lt'
  simp only [natPortMin, natPortCount, natPortMax, UInt16.size] at h ⊢
  omega

theorem eq_wirePort_iff {n : Nat} (h : n < natPortMin + natPortCount) (port : UInt16) :
    port = wirePort n ↔ (ntohs port).toNat = n := by
  constructor
  · intro heq
    subst heq
    rw [wirePort, ntohs_htons, toNat_ofNat_port h]
  · intro heq
    subst heq
    rw [wirePort, UInt16.ofNat_toNat, htons_ntohs]

namespace Represents

variable {iface : IfaceInfo} {past : List Event} {t : NatTable} {M : Leases Endpoint}

theorem init (hbuckets : ∀ b, t.natMappingList b = []) (hpool : ∀ p, t.assignedPorts p = 0) :
    Represents t.externalIface [] t .empty := by
  have hempty : ∀ entry, entry ∉ t.mappings := by
    intro entry
    rw [NatTable.mappings_eq_nil hbuckets]
    exact List.not_mem_nil
  refine ⟨rfl, fun entry hmem => absurd hmem (hempty entry), fun p => ?_, fun n hn => ?_,
    fun entry hmem => absurd hmem (hempty entry)⟩
  · rw [hpool]
    exact ⟨fun h => absurd rfl h, fun h => absurd h List.not_mem_nil⟩
  · exact absurd hn List.not_mem_nil

theorem externalPort_eq (h : Represents iface past t M) {entry : NatMapping}
    (hentry : entry ∈ t.mappings) {n : Nat} (hn : (entry.internal, n) ∈ M.entries) :
    entry.externalPort = wirePort n := by
  obtain ⟨n', hn', hport⟩ := h.sound entry hentry
  rw [hport, Leases.value_unique hn' hn]

theorem internal_eq (h : Represents iface past t M) {entry : NatMapping}
    (hentry : entry ∈ t.mappings) {k : Endpoint} {n : Nat} (hn : (k, n) ∈ M.entries)
    (hport : entry.externalPort = wirePort n) : entry.internal = k := by
  obtain ⟨n', hn', hport'⟩ := h.sound entry hentry
  have hlt := (h.range n (Leases.mem_values.mpr ⟨k, hn⟩)).2
  have hlt' := (h.range n' (Leases.mem_values.mpr ⟨_, hn'⟩)).2
  rw [(eq_wirePort_iff hlt _).mp hport |>.symm.trans ((eq_wirePort_iff hlt' _).mp hport')] at hn
  exact Leases.key_unique hn' hn

theorem natIp_eq (h : Represents iface past t M) : t.natIp = htonl iface.ip := by
  rw [NatTable.natIp, h.externalIface, IfaceInfo.inetAddr_ipStr]

theorem updateTime_le (h : Represents iface past t M) {now : Nat}
    (hclock : ∀ past' ∈ past.flatMap Event.readings, past' ≤ now) :
    ∀ entry ∈ t.mappings, entry.updateTime ≤ now := by
  intro entry hmem
  rcases (h.quiet entry hmem).2 with hzero | hpast
  · omega
  · exact hclock _ hpast

/-- The scan over the pool finds what is free among the leases. -/
theorem scanPorts_eq (h : Represents iface past t M) {count : Nat} (hcount : count ≤ natPortCount) :
    scanPorts t count = M.firstFree? natPortMin count := by
  rw [scanPorts, Leases.firstFree?]
  apply List.find?_congr
  intro i hi
  have hport : (UInt16.ofNat i).toNat = i :=
    toNat_ofNat_port (Nat.lt_of_lt_of_le (List.mem_range'_1.mp hi).2 (by omega))
  rw [decide_eq_decide, ← not_iff_not, not_not, ← ne_eq, h.pool, hport]

theorem idle (h : Represents iface past t M) (e : Event) : Represents iface (past ++ [e]) t M where
  externalIface := h.externalIface
  sound := h.sound
  pool := h.pool
  range := h.range
  quiet entry hentry := by
    refine ⟨(h.quiet entry hentry).1, (h.quiet entry hentry).2.imp_right fun hpast => ?_⟩
    rw [List.flatMap_append]
    exact List.mem_append_left _ hpast

/-- One more lease, once the table has entries for it and the pool has its port. -/
theorem insert (h : Represents iface past t M) {t' : NatTable} {k : Endpoint} {n : Nat} {e : Event}
    (hkey : k ∉ M.keys) (hfree : M.firstFree? natPortMin natPortCount = some n)
    (hiface : t'.externalIface = t.externalIface)
    (hpool : t'.assignedPorts = Function.update t.assignedPorts (UInt16.ofNat n) 1)
    (hentries : ∀ entry ∈ t'.mappings, entry ∈ t.mappings ∨
      (entry.internal = k ∧ entry.externalPort = wirePort n ∧ entry.conn = .zero ∧
        (entry.updateTime = 0 ∨ entry.updateTime ∈ e.readings))) :
    Represents iface (past ++ [e]) t' (M.assign natPortMin natPortCount k) := by
  obtain ⟨⟨hlo, hhi, hnew⟩, -⟩ := Leases.firstFree?_spec hfree
  have hport := toNat_ofNat_port hhi
  refine ⟨hiface.trans h.externalIface, fun entry hentry => ?_, fun p => ?_, fun i hi => ?_,
    fun entry hentry => ?_⟩
  · rw [Leases.entries_assign hkey hfree]
    rcases hentries entry hentry with hold | ⟨rfl, hwire, -⟩
    · obtain ⟨i, hi, hwire⟩ := h.sound entry hold
      exact ⟨i, List.mem_append_left _ hi, hwire⟩
    · exact ⟨n, List.mem_append_right _ (List.mem_singleton_self _), hwire⟩
  · rw [hpool, Leases.mem_values_assign hkey hfree, Function.update_apply]
    split_ifs with hp
    · exact ⟨fun _ => .inr (hp ▸ hport), fun _ => by decide⟩
    · rw [h.pool, or_iff_left]
      exact fun heq => hp (UInt16.toNat_inj.mp (heq.trans hport.symm))
  · rcases (Leases.mem_values_assign hkey hfree).mp hi with hold | rfl
    · exact h.range i hold
    · exact ⟨hlo, hhi⟩
  · rw [List.flatMap_append, List.flatMap_singleton, List.mem_append]
    rcases hentries entry hentry with hold | ⟨-, -, hconn, htime⟩
    · obtain ⟨hconn, htime⟩ := h.quiet entry hold
      exact ⟨hconn, htime.imp_right .inl⟩
    · exact ⟨hconn, htime.imp_right .inr⟩

end Represents

end MiniNet.NatStack
