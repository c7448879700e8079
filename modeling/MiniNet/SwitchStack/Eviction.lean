import Mathlib.Algebra.Ring.Int.Defs
import MiniNet.SwitchStack.Ageing

/-!
# What a sweep takes

The sweep is to remove every entry that has aged and to say how many there were. It returns from the
loop with the first, and what it returns is the index of that entry's interface. So it takes one
entry at a time, and along a run whose clock does not go back it is always the oldest: the table is a
queue, in which an entry waits for those before it, one sweep each, and for nothing else.
-/

namespace MiniNet.SwitchStack

open Lib

/-! ### One sweep -/

/-- `now - visited >= MAC_PORT_TIMEOUT`, without the cast. -/
def old (now : Int) (entry : MacPortEntry) : Bool := macPortTimeout ≤ now - entry.visited

/-- The sweep leaves the entries that are not old, in their order in each bucket, and returns how
many it has removed. -/
structure ClearsOld (t : MacPortMap) (now : Int) : Prop where
  kept : ∀ b, (sweepAgedMacPortEntry t now).2 b = (t b).filter fun entry => !old now entry
  count : (sweepAgedMacPortEntry t now).1 =
    ((Buckets.scan t).length : Int) - (Buckets.scan (sweepAgedMacPortEntry t now).2).length

/-- No entry is old or counts as aged, or just one is old, which is the first that counts as aged
and is of the interface with index 1. -/
def OneOld (t : MacPortMap) (now : Int) : Prop :=
  (∀ entry ∈ Buckets.scan t, old now entry = false ∧ aged now entry = false) ∨
  ∃ entry, (Buckets.scan t).filter (old now) = [entry] ∧
    (Buckets.scan t).find? (aged now) = some entry ∧ entry.iface.index = 1

section Sweep

variable {t : MacPortMap} {now : Int}

/-- A sweep that takes no entry is right when there is nothing to take. -/
theorem clearsOld_iff_of_none (h : (Buckets.scan t).find? (aged now) = none) :
    ClearsOld t now ↔ ∀ entry ∈ Buckets.scan t, old now entry = false := by
  obtain ⟨hcount, hsweep⟩ := sweep_of_none h
  constructor
  · intro hclears entry hentry
    obtain ⟨b, hb⟩ := Buckets.mem_scan.mp hentry
    rw [← hsweep, hclears.kept, List.mem_filter] at hb
    simpa using hb.2
  · intro hnone
    refine ⟨fun b => ?_, ?_⟩
    · rw [hsweep, eq_comm, List.filter_eq_self]
      intro entry hentry
      rw [hnone entry (Buckets.mem_scan.mpr ⟨b, hentry⟩), Bool.not_false]
    · rw [hcount, hsweep, Int.sub_self]

/-- A sweep that takes an entry is right when that is the only one to take and is of interface 1. -/
theorem clearsOld_iff_of_some {entry : MacPortEntry}
    (h : (Buckets.scan t).find? (aged now) = some entry) :
    ClearsOld t now ↔ (Buckets.scan t).filter (old now) = [entry] ∧ entry.iface.index = 1 := by
  obtain ⟨b, hfind, hindex, hsweep, hscan⟩ := sweep_of_some h
  have hlength : (Buckets.scan (sweepAgedMacPortEntry t now).2).length + 1
      = (Buckets.scan t).length := by
    obtain ⟨l₁, l₂, hsplit, herase, -⟩ := eraseP_of_find? h
    rw [hscan, herase, hsplit, List.length_append, List.length_append, List.length_cons,
      Nat.add_assoc]
  constructor
  · intro hclears
    have hkept := funext hclears.kept
    refine ⟨(eraseP_eq_filter_iff h).mp ?_, ?_⟩
    · rw [← hscan, hkept, Buckets.scan, Buckets.scan, List.filter_flatMap]
    · rw [← hindex, hclears.count]
      omega
  · intro honly
    obtain ⟨hfilter, hone⟩ := honly
    have hold : old now entry = true :=
      (List.mem_filter.mp (hfilter ▸ List.mem_singleton_self entry)).2
    obtain ⟨hbucket, hothers⟩ :=
      Buckets.filter_eq_singleton (List.mem_of_find?_eq_some hfind) hold hfilter
    refine ⟨fun c => ?_, by omega⟩
    rw [hsweep]
    by_cases hc : c = b
    · subst hc
      rw [Function.update_self]
      exact (eraseP_eq_filter_iff hfind).mpr hbucket
    · rw [Function.update_of_ne hc, eq_comm, List.filter_eq_self]
      intro x hx
      rw [hothers c hc x hx, Bool.not_false]

end Sweep

/-- **When a sweep clears the table**: when no entry is old, or one and only one is, which the loop
comes to first, and which is of the interface that happens to have as its index the number of
entries removed. -/
theorem clearsOld_iff (t : MacPortMap) (now : Int) : ClearsOld t now ↔ OneOld t now := by
  cases hfind : (Buckets.scan t).find? (aged now) with
  | none =>
    rw [clearsOld_iff_of_none hfind, OneOld, hfind]
    rw [List.find?_eq_none] at hfind
    simp only [reduceCtorEq, false_and, and_false, exists_false, or_false]
    exact forall₂_congr fun entry hentry =>
      (and_iff_left (Bool.eq_false_iff.mpr (hfind entry hentry))).symm
  | some entry =>
    rw [clearsOld_iff_of_some hfind, OneOld, hfind]
    simp only [Option.some.injEq]
    constructor
    · exact fun h => .inr ⟨entry, h.1, rfl, h.2⟩
    · intro h
      rcases h with hnone | ⟨_, hfilter, rfl, hindex⟩
      · have haged := (hnone entry (List.mem_of_find?_eq_some hfind)).2
        rw [List.find?_some hfind] at haged
        cases haged
      · exact ⟨hfilter, hindex⟩

/-- Two hosts that have not been heard of for thirty seconds, the first behind the second
interface. -/
def quietRun : List Event :=
  [ .frame ⟨4, 2⟩ (Packet.bare (hostMac 1) (hostMac 2)) 100,
    .frame ⟨3, 1⟩ (Packet.bare (hostMac 2) (hostMac 1)) 100 ]

/-- Both entries are old, one of them is removed, and the number is two. -/
theorem sweep_leaves_old_entry :
    ¬ ClearsOld (run (next threeNodes) initMacPortTable quietRun) 130 := by
  intro h
  have hcount := h.count
  revert hcount
  decide +kernel

/-! ### A queue -/

section Queue

variable {ifaceList : List IfaceInfo} {es past mid post : List Event} {t : MacPortMap}
  {now : Int} {entry : MacPortEntry} {k : Nat} {q : List MacPortEntry}

theorem aged_eq_old (hpast : entry.visited ≤ now) (hspan : now - entry.visited < 2 ^ 31) :
    aged now entry = old now entry := by
  rw [aged, old, Int.bmod_eq_of_le] <;> omega

/-- Whatever stands ahead of an old entry is older still. -/
theorem TableInvariant.old_ahead (h : TableInvariant past t) (now : Int) :
    (Buckets.scan t).Pairwise fun a b => old now b = true → old now a = true := by
  refine (List.pairwise_map.mp h.sorted).imp fun {a b} hle hb => ?_
  rw [old, decide_eq_true_eq] at hb ⊢
  omega

/-- With a clock that does not go back, the cast makes no difference. -/
theorem TableInvariant.aged_eq_old (h : TableInvariant past t)
    (hclock : (es.map Event.reading).Pairwise (· ≤ ·))
    (hspan : ∀ e ∈ es, ∀ e' ∈ es, e'.reading - e.reading < 2 ^ 31)
    (hsplit : es = past ++ .sweep now :: post) :
    ∀ entry ∈ Buckets.scan t, aged now entry = old now entry := by
  intro entry hentry
  obtain ⟨packet, hmem, -⟩ := h.origin entry hentry
  have hle : entry.visited ≤ now := reading_le hclock hsplit hmem
  have hlt : now - entry.visited < 2 ^ 31 :=
    hspan (.frame entry.iface packet entry.visited) (hsplit ▸ List.mem_append_left _ hmem)
      (.sweep now) (hsplit ▸ List.mem_append_cons_self)
  exact SwitchStack.aged_eq_old hle hlt

/-- The sweep takes the head of the queue if that is old. -/
theorem TableInvariant.scan_sweep_eq (h : TableInvariant past t)
    (hclock : (es.map Event.reading).Pairwise (· ≤ ·))
    (hspan : ∀ e ∈ es, ∀ e' ∈ es, e'.reading - e.reading < 2 ^ 31)
    (hsplit : es = past ++ .sweep now :: post) :
    Buckets.scan (sweepAgedMacPortEntry t now).2 = dropHead (old now) (Buckets.scan t) := by
  rw [scan_sweep]
  exact eraseP_eq_dropHead (h.old_ahead now) (h.aged_eq_old hclock hspan hsplit)

/-- A sweep at `time` or later. -/
def Event.sweepsFrom (time : Int) : Event → Bool
  | .sweep now => time ≤ now
  | .frame .. => false

/-- The queue `q` after the events `mid`, since `entry` has had `k` others ahead of it: each sweep
that could have taken it has brought it one place further, and when it has gone it was old. -/
structure Backlog (entry : MacPortEntry) (k : Nat) (mid : List Event) (q : List MacPortEntry) :
    Prop where
  ahead : entry ∈ q →
    q.idxOf entry + mid.countP (Event.sweepsFrom (entry.visited + macPortTimeout)) ≤ k
  gone : entry ∉ q → ∃ earlier ∈ mid, entry.visited + macPortTimeout ≤ earlier.reading

theorem Backlog.swept (h : Backlog entry k mid q) (hnodup : q.Nodup)
    (hold : q.Pairwise fun a b => old now b = true → old now a = true) :
    Backlog entry k (mid ++ [.sweep now]) (dropHead (old now) q) where
  ahead hentry := by
    have hbefore := h.ahead (mem_of_mem_dropHead hentry)
    have hmove := idxOf_dropHead hnodup hold hentry
    rw [List.countP_append, List.countP_singleton]
    have hlate : Event.sweepsFrom (entry.visited + macPortTimeout) (.sweep now)
        = old now entry := by
      rw [Event.sweepsFrom, old, decide_eq_decide]
      omega
    rw [hlate]
    cases hage : old now entry with
    | false =>
      rw [hage, Bool.toNat_false] at hmove
      rw [if_neg Bool.false_ne_true]
      omega
    | true =>
      rw [hage, Bool.toNat_true] at hmove
      rw [if_pos rfl]
      omega
  gone hentry := by
    by_cases hbefore : entry ∈ q
    · have hage := of_not_mem_dropHead hbefore hentry
      rw [old, decide_eq_true_eq] at hage
      exact ⟨.sweep now, by simp, by rw [Event.reading]; omega⟩
    · obtain ⟨earlier, hmem, hle⟩ := h.gone hbefore
      exact ⟨earlier, List.mem_append_left _ hmem, hle⟩

theorem Backlog.idle {iface : IfaceInfo} {packet : Packet} (h : Backlog entry k mid q) :
    Backlog entry k (mid ++ [.frame iface packet now]) q where
  ahead hentry := by
    rw [List.countP_append]
    exact h.ahead hentry
  gone hentry := by
    obtain ⟨earlier, hmem, hle⟩ := h.gone hentry
    exact ⟨earlier, List.mem_append_left _ hmem, hle⟩

/-- A new entry goes behind, and it is not one that has gone before. -/
theorem Backlog.learned {iface : IfaceInfo} {packet : Packet} {new : MacPortEntry}
    (h : Backlog entry k mid q) (hnew : new.visited = now)
    (hclock : ∀ earlier ∈ mid, earlier.reading ≤ now) :
    Backlog entry k (mid ++ [.frame iface packet now]) (q ++ [new]) := by
  refine Backlog.idle ⟨fun hentry => ?_, fun hentry => h.gone fun hq => ?_⟩
  · by_cases hq : entry ∈ q
    · rw [List.idxOf_append_of_mem hq]
      exact h.ahead hq
    · obtain ⟨earlier, hmem, hle⟩ := h.gone hq
      have heq : entry = new := by simpa [hq] using hentry
      have := hclock earlier hmem
      rw [heq, hnew, macPortTimeout] at hle
      omega
  · exact hentry (List.mem_append_left _ hq)

/-- An entry that has `before` ahead of it, as the run goes on. -/
theorem backlog_run (ifaceList : List IfaceInfo)
    (hclock : (es.map Event.reading).Pairwise (· ≤ ·))
    (hspan : ∀ e ∈ es, ∀ e' ∈ es, e'.reading - e.reading < 2 ^ 31) (hsplit : es = past ++ post)
    {before after : List MacPortEntry}
    (hscan : Buckets.scan (run (next ifaceList) initMacPortTable past)
      = before ++ entry :: after) :
    ∀ mid rest, post = mid ++ rest → Backlog entry before.length mid
      (Buckets.scan (run (next ifaceList) (run (next ifaceList) initMacPortTable past) mid)) := by
  apply run_induction (next ifaceList)
    (P := fun mid t => Backlog entry before.length mid (Buckets.scan t))
  · refine ⟨fun _ => ?_, fun hgone => absurd ?_ hgone⟩
    · rw [List.countP_nil, Nat.add_zero, hscan, List.idxOf_append]
      split
      · exact List.idxOf_le_length
      · rw [List.idxOf_cons_self, Nat.zero_add]
    · rw [hscan]
      exact List.mem_append_cons_self
  · intro mid e rest hpost hmid
    have hwhole : es = (past ++ mid) ++ e :: rest := by
      rw [hsplit, hpost, List.append_assoc]
    have hinv := tableInvariant_run ifaceList hclock _ _ hwhole
    rw [run_append] at hinv
    generalize run (next ifaceList) (run (next ifaceList) initMacPortTable past) mid = t
      at hinv hmid ⊢
    cases e with
    | sweep now =>
      rw [next, hinv.scan_sweep_eq hclock hspan hwhole]
      exact hmid.swept hinv.unique.of_map (hinv.old_ahead now)
    | frame iface packet now =>
      cases hlookup : lookupPort t packet.etherShost with
      | none =>
        rw [next_frame_of_none hlookup, hinv.scan_insert]
        exact hmid.learned rfl fun earlier hearlier =>
          reading_le hclock hwhole (List.mem_append_right _ hearlier)
      | some known =>
        rw [next_frame_of_some hlookup]
        exact hmid.idle

end Queue

/-- **The table is a queue** along every run whose clock does not go back. A sweep takes the head, if
that is old, and nothing else; an entry with `k` others ahead of it is gone after `k + 1` sweeps that
could have taken it, whatever frames come in between; and no entry goes before its time. -/
theorem evicts_in_order (ifaceList : List IfaceInfo) {es : List Event}
    (hclock : (es.map Event.reading).Pairwise (· ≤ ·))
    (hspan : ∀ e ∈ es, ∀ e' ∈ es, e'.reading - e.reading < 2 ^ 31) :
    (∀ pre now post, es = pre ++ .sweep now :: post →
      Buckets.scan (sweepAgedMacPortEntry (run (next ifaceList) initMacPortTable pre) now).2
        = dropHead (old now) (Buckets.scan (run (next ifaceList) initMacPortTable pre))) ∧
    (∀ pre post before entry after, es = pre ++ post →
      Buckets.scan (run (next ifaceList) initMacPortTable pre) = before ++ entry :: after →
      before.length + 1 ≤ post.countP (Event.sweepsFrom (entry.visited + macPortTimeout)) →
      entry ∉ Buckets.scan (run (next ifaceList) initMacPortTable es)) ∧
    (∀ pre now post, es = pre ++ .sweep now :: post →
      ∀ entry ∈ Buckets.scan (run (next ifaceList) initMacPortTable pre),
        entry ∉ Buckets.scan
          (sweepAgedMacPortEntry (run (next ifaceList) initMacPortTable pre) now).2 →
        macPortTimeout ≤ now - entry.visited) := by
  have hhead : ∀ pre now post, es = pre ++ .sweep now :: post →
      Buckets.scan (sweepAgedMacPortEntry (run (next ifaceList) initMacPortTable pre) now).2
        = dropHead (old now) (Buckets.scan (run (next ifaceList) initMacPortTable pre)) :=
    fun pre now post hsplit =>
      (tableInvariant_run ifaceList hclock pre _ hsplit).scan_sweep_eq hclock hspan hsplit
  refine ⟨hhead, ?_, ?_⟩
  · intro pre post before entry after hsplit hscan hsweeps hentry
    have hbacklog := backlog_run ifaceList hclock hspan hsplit hscan post [] (by simp)
    rw [hsplit, run_append] at hentry
    have hahead := hbacklog.ahead hentry
    omega
  · intro pre now post hsplit entry hentry hgone
    rw [hhead pre now post hsplit] at hgone
    have hold := of_not_mem_dropHead hentry hgone
    rwa [old, decide_eq_true_eq] at hold

theorem evicts_in_order_agedRun :
    ⟨hostMac 1, ⟨3, 1⟩, 100⟩ ∉ Buckets.scan (run (next threeNodes) initMacPortTable agedRun) :=
  (evicts_in_order threeNodes (by decide) (by decide)).2.1 (agedRun.take 2) (agedRun.drop 2) []
    ⟨hostMac 1, ⟨3, 1⟩, 100⟩ [⟨hostMac 2, ⟨4, 2⟩, 129⟩] rfl (by decide +kernel) (by decide)

end MiniNet.SwitchStack
