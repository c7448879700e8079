import Mathlib.Algebra.Ring.Int.Defs
import MiniNet.Lib.Removal
import MiniNet.SwitchStack.Code

/-!
# What is in the table, and what ages out

A run whose clock does not go back keeps the table in good order: one entry to an address, each made
by a frame of the run and stamped with its time, the older ones first. New entries go to the end of
the first bucket, after a lookup has found no other, and a sweep takes one out of the middle.

An entry is stamped when it is made and never again, though `visited` is meant for the time it was
visited last. So a sweep judges a host by the frame that made its entry, however often the host has
sent since. The active hosts are spared as long as no frame comes from a host that is in the table
already, with an older stamp; when one does, sweeps can follow that take the host while it is active.
-/

namespace MiniNet.SwitchStack

open Lib

/-- The clock when the event takes place. -/
def Event.reading : Event → Int
  | .frame _ _ now => now
  | .sweep now => now

/-- The frame, if the event is one, comes in on an interface of the switch. -/
def Event.FromIface (ifaceList : List IfaceInfo) : Event → Prop
  | .frame iface _ _ => iface ∈ ifaceList
  | .sweep _ => True

instance (ifaceList : List IfaceInfo) : DecidablePred (Event.FromIface ifaceList)
  | .frame iface _ _ => inferInstanceAs (Decidable (iface ∈ ifaceList))
  | .sweep _ => inferInstanceAs (Decidable True)

theorem reading_le {es pre post : List Event} {e earlier : Event}
    (hclock : (es.map Event.reading).Pairwise (· ≤ ·)) (hsplit : es = pre ++ e :: post)
    (hearlier : earlier ∈ pre) : earlier.reading ≤ e.reading := by
  rw [hsplit, List.map_append, List.map_cons] at hclock
  exact (List.pairwise_append.mp hclock).2.2 _ (List.mem_map_of_mem hearlier) _
    (List.mem_cons_self ..)

/-! ### The table -/

/-- The table after the events `past`. -/
structure TableInvariant (past : List Event) (t : MacPortMap) : Prop where
  rest : ∀ b, b ≠ ⟨0, hash8Bits_pos⟩ → t b = []
  unique : ((Buckets.scan t).map (·.mac)).Nodup
  origin : ∀ entry ∈ Buckets.scan t, ∃ packet,
    Event.frame entry.iface packet entry.visited ∈ past ∧ packet.etherShost = entry.mac
  sorted : ((Buckets.scan t).map (·.visited)).Pairwise (· ≤ ·)

section Invariant

variable {ifaceList : List IfaceInfo} {past : List Event} {t : MacPortMap} {e : Event}

theorem TableInvariant.init : TableInvariant [] initMacPortTable := by
  refine ⟨fun _ _ => rfl, ?_, ?_, ?_⟩ <;> rw [scan_initMacPortTable]
  · exact List.nodup_nil
  · exact fun _ h => absurd h List.not_mem_nil
  · exact List.Pairwise.nil

theorem TableInvariant.idle (h : TableInvariant past t) (e : Event) :
    TableInvariant (past ++ [e]) t where
  rest := h.rest
  unique := h.unique
  origin entry hentry := by
    obtain ⟨packet, hmem, hmac⟩ := h.origin entry hentry
    exact ⟨packet, List.mem_append_left _ hmem, hmac⟩
  sorted := h.sorted

theorem TableInvariant.swept (h : TableInvariant past t) (now : Int) :
    TableInvariant past (sweepAgedMacPortEntry t now).2 where
  rest b hb := List.sublist_nil.mp (h.rest b hb ▸ sweep_sublist t now b)
  unique := by
    rw [scan_sweep]
    exact h.unique.sublist (List.eraseP_sublist.map _)
  origin entry hentry := h.origin entry (mem_of_mem_sweep hentry)
  sorted := by
    rw [scan_sweep]
    exact h.sorted.sublist (List.eraseP_sublist.map _)

theorem TableInvariant.scan_insert (h : TableInvariant past t) (mac : Mac) (iface : IfaceInfo)
    (now : Int) :
    Buckets.scan (insertMacPort t mac iface now) = Buckets.scan t ++ [⟨mac, iface, now⟩] := by
  rw [Buckets.scan_eq_of_rest h.rest, Buckets.scan_eq_of_rest (b := ⟨0, hash8Bits_pos⟩),
    insertMacPort, Buckets.addTail, Function.update_self]
  intro b hb
  rw [insertMacPort, Buckets.addTail, Function.update_of_ne hb, h.rest b hb]

/-- An address that the lookup does not find gets its entry at the end. -/
theorem TableInvariant.learned (h : TableInvariant past t) {iface : IfaceInfo} {packet : Packet}
    {now : Int} (hnew : lookupPort t packet.etherShost = none)
    (hclock : ∀ earlier ∈ past, earlier.reading ≤ now) :
    TableInvariant (past ++ [.frame iface packet now])
      (insertMacPort t packet.etherShost iface now) where
  rest b hb := by rw [insertMacPort, Buckets.addTail, Function.update_of_ne hb, h.rest b hb]
  unique := by
    rw [h.scan_insert, List.map_append, List.nodup_append]
    refine ⟨h.unique, List.nodup_singleton _, fun mac hold mac' hmac heq => ?_⟩
    obtain ⟨entry, hentry, rfl⟩ := List.mem_map.mp hold
    rw [List.map_singleton, List.mem_singleton] at hmac
    exact lookupPort_none.mp hnew entry hentry (heq.trans hmac)
  origin entry hentry := by
    rw [h.scan_insert, List.mem_append, List.mem_singleton] at hentry
    rcases hentry with hold | rfl
    · obtain ⟨packet', hmem, hmac⟩ := h.origin entry hold
      exact ⟨packet', List.mem_append_left _ hmem, hmac⟩
    · exact ⟨packet, List.mem_append_right _ (List.mem_singleton_self _), rfl⟩
  sorted := by
    rw [h.scan_insert, List.map_append, List.pairwise_append]
    refine ⟨h.sorted, List.pairwise_singleton _ _, fun visited hold visited' hnow => ?_⟩
    obtain ⟨entry, hentry, rfl⟩ := List.mem_map.mp hold
    obtain ⟨packet', hmem, -⟩ := h.origin entry hentry
    rw [List.map_singleton, List.mem_singleton] at hnow
    exact hnow ▸ hclock _ hmem

end Invariant

/-- **The invariant holds along every run whose clock does not go back.** -/
theorem tableInvariant_run (ifaceList : List IfaceInfo) {es : List Event}
    (hclock : (es.map Event.reading).Pairwise (· ≤ ·)) :
    ∀ pre post, es = pre ++ post →
      TableInvariant pre (run (next ifaceList) initMacPortTable pre) := by
  apply run_induction (next ifaceList) (P := TableInvariant)
  · exact TableInvariant.init
  · intro pre e post hsplit hpre
    cases e with
    | sweep now => exact (hpre.swept now).idle _
    | frame iface packet now =>
      cases hlookup : lookupPort (run (next ifaceList) initMacPortTable pre) packet.etherShost with
      | none =>
        rw [next_frame_of_none hlookup]
        exact hpre.learned hlookup fun earlier hearlier => reading_le hclock hsplit hearlier
      | some known =>
        rw [next_frame_of_some hlookup]
        exact hpre.idle _

/-- **The table is in good order** in every state of a run whose clock does not go back, with frames
from the interfaces of the switch. -/
theorem table_in_order {ifaceList : List IfaceInfo} {es pre post : List Event}
    (hclock : (es.map Event.reading).Pairwise (· ≤ ·))
    (hiface : ∀ e ∈ es, e.FromIface ifaceList) (hsplit : es = pre ++ post) :
    TableInvariant pre (run (next ifaceList) initMacPortTable pre) ∧
    ∀ entry ∈ Buckets.scan (run (next ifaceList) initMacPortTable pre),
      entry.iface ∈ ifaceList := by
  have hinv := tableInvariant_run ifaceList hclock pre post hsplit
  refine ⟨hinv, fun entry hentry => ?_⟩
  obtain ⟨packet, hmem, -⟩ := hinv.origin entry hentry
  exact hiface _ (hsplit ▸ List.mem_append_left post hmem)

/-- The first host sends and is learned, then the second, and the first is swept. -/
def agedRun : List Event :=
  [ .frame ⟨3, 1⟩ (Packet.bare (hostMac 2) (hostMac 1)) 100,
    .frame ⟨4, 2⟩ (Packet.bare (hostMac 1) (hostMac 2)) 129,
    .sweep 130 ]

theorem table_in_order_agedRun :
    TableInvariant agedRun (run (next threeNodes) initMacPortTable agedRun) ∧
    ∀ entry ∈ Buckets.scan (run (next threeNodes) initMacPortTable agedRun),
      entry.iface ∈ threeNodes :=
  table_in_order (by decide) (by decide) (List.append_nil agedRun).symm

/-! ### Active hosts -/

/-- Among the events `past` is a frame from `mac`, handled at `time`. -/
def Sighted (past : List Event) (mac : Mac) (time : Int) : Prop :=
  ∃ iface packet, Event.frame iface packet time ∈ past ∧ packet.etherShost = mac

/-- The sweep removes no entry of a host that has sent within the timeout. -/
def SparesActive (past : List Event) (t : MacPortMap) (now : Int) : Prop :=
  ∀ mac, lookupPort t mac ≠ none → lookupPort (sweepAgedMacPortEntry t now).2 mac = none →
    ∀ time, Sighted past mac time → time ≤ now - macPortTimeout

/-- Every sweep of a run does. -/
def SparesAll (ifaceList : List IfaceInfo) (es : List Event) : Prop :=
  ∀ pre now post, es = pre ++ .sweep now :: post →
    SparesActive pre (run (next ifaceList) initMacPortTable pre) now

/-- There is nothing to refresh: the source of a frame is not in the table with another stamp than
that of the frame itself. -/
def SourceCurrent (t : MacPortMap) : Event → Prop
  | .frame _ packet now =>
    ∀ entry ∈ Buckets.scan t, entry.mac = packet.etherShost → entry.visited = now
  | .sweep _ => True

instance (t : MacPortMap) : DecidablePred (SourceCurrent t)
  | .frame _ packet now => inferInstanceAs (Decidable
      (∀ entry ∈ Buckets.scan t, entry.mac = packet.etherShost → entry.visited = now))
  | .sweep _ => inferInstanceAs (Decidable True)

/-- An entry that counts as aged and is not ahead of the clock is as old as the timeout. -/
theorem visited_le_of_aged {entry : MacPortEntry} {now : Int} (haged : aged now entry = true)
    (hpast : entry.visited ≤ now) : entry.visited ≤ now - macPortTimeout := by
  by_contra hyoung
  rw [aged, decide_eq_true_eq, Int.bmod_eq_of_le] at haged
  · omega
  · omega
  · rw [macPortTimeout] at hyoung
    omega

/-- Of an address in the table the sweep leaves nothing when the entry it takes is that of the
address. -/
theorem lookupPort_sweep_eq_none_iff {past : List Event} {t : MacPortMap}
    (h : TableInvariant past t) {now : Int} {mac : Mac} (hmac : lookupPort t mac ≠ none) :
    lookupPort (sweepAgedMacPortEntry t now).2 mac = none ↔
      ∃ entry, (Buckets.scan t).find? (aged now) = some entry ∧ entry.mac = mac := by
  rw [lookupPort_none, scan_sweep]
  cases hfind : (Buckets.scan t).find? (aged now) with
  | none =>
    rw [List.eraseP_of_forall_not (by simpa using hfind), ← lookupPort_none]
    simp [hmac]
  | some entry =>
    obtain ⟨l₁, l₂, hscan, herase, -⟩ := eraseP_of_find? hfind
    simp only [Option.some.injEq, exists_eq_left']
    rw [herase]
    constructor
    · intro hgone
      rw [ne_eq, lookupPort_none] at hmac
      push Not at hmac
      obtain ⟨x, hx, rfl⟩ := hmac
      rw [hscan, List.mem_append, List.mem_cons] at hx
      rcases hx with hx | rfl | hx
      · exact absurd rfl (hgone x (List.mem_append_left _ hx))
      · rfl
      · exact absurd rfl (hgone x (List.mem_append_right _ hx))
    · intro hentry other hother heq
      have hunique := h.unique
      rw [hscan, List.map_append, List.map_cons, List.nodup_middle, List.nodup_cons,
        ← List.map_append] at hunique
      exact hunique.1 (List.mem_map.mpr ⟨other, hother, heq.trans hentry.symm⟩)

/-- Where every source is current no host has been seen after the stamp of its entry. -/
theorem sighted_le_visited {ifaceList : List IfaceInfo} {es : List Event}
    (hclock : (es.map Event.reading).Pairwise (· ≤ ·))
    (hcurrent : AtEachStep (next ifaceList) SourceCurrent initMacPortTable es) :
    ∀ pre post, es = pre ++ post →
      ∀ entry ∈ Buckets.scan (run (next ifaceList) initMacPortTable pre),
        ∀ time, Sighted pre entry.mac time → time ≤ entry.visited := by
  apply run_induction (next ifaceList)
    (P := fun past t => ∀ entry ∈ Buckets.scan t, ∀ time, Sighted past entry.mac time →
      time ≤ entry.visited)
  · rw [scan_initMacPortTable]
    exact List.forall_mem_nil _
  · intro pre e post hsplit hpre entry hentry time hseen
    have hinv := tableInvariant_run ifaceList hclock pre _ hsplit
    have hstep := hcurrent pre e post hsplit
    obtain ⟨iface, packet, hmem, hmac⟩ := hseen
    rw [List.mem_append, List.mem_singleton] at hmem
    cases e with
    | sweep now =>
      have hold := hmem.resolve_right nofun
      exact hpre entry (mem_of_mem_sweep hentry) time ⟨iface, packet, hold, hmac⟩
    | frame iface' packet' now =>
      cases hlookup : lookupPort (run (next ifaceList) initMacPortTable pre)
          packet'.etherShost with
      | some known =>
        rw [next_frame_of_some hlookup] at hentry
        rcases hmem with hold | hnow
        · exact hpre entry hentry time ⟨iface, packet, hold, hmac⟩
        · cases hnow
          exact (hstep entry hentry hmac.symm).ge
      | none =>
        rw [next_frame_of_none hlookup, hinv.scan_insert, List.mem_append,
          List.mem_singleton] at hentry
        rcases hentry with hentry | rfl
        · rcases hmem with hold | hnow
          · exact hpre entry hentry time ⟨iface, packet, hold, hmac⟩
          · cases hnow
            exact absurd hmac.symm (lookupPort_none.mp hlookup entry hentry)
        · rcases hmem with hold | hnow
          · exact reading_le hclock hsplit hold
          · cases hnow
            exact Int.le_refl _

/-- Enough sweeps at one reading leave nothing that is aged then. -/
theorem mem_run_sweeps (ifaceList : List IfaceInfo) {now : Int} {k : Nat} {t : MacPortMap}
    (hk : (Buckets.scan t).countP (aged now) ≤ k) {entry : MacPortEntry}
    (hentry : entry ∈ Buckets.scan (run (next ifaceList) t (List.replicate k (.sweep now)))) :
    entry ∈ Buckets.scan t ∧ aged now entry = false := by
  induction k generalizing t with
  | zero =>
    have hnone := List.countP_eq_zero.mp (Nat.le_zero.mp hk) entry hentry
    exact ⟨hentry, Bool.eq_false_of_not_eq_true hnone⟩
  | succ k ih =>
    rw [List.replicate_succ, run_cons] at hentry
    have hcount : (Buckets.scan (next ifaceList t (.sweep now))).countP (aged now) ≤ k := by
      rw [next, scan_sweep]
      cases hfind : (Buckets.scan t).find? (aged now) with
      | none =>
        have hzero := List.countP_eq_zero.mpr (List.find?_eq_none.mp hfind)
        rw [List.eraseP_of_forall_not (List.find?_eq_none.mp hfind), hzero]
        exact Nat.zero_le k
      | some first =>
        obtain ⟨l₁, l₂, hscan, herase, -⟩ := eraseP_of_find? hfind
        have hone : List.countP (aged now) (first :: l₂) = List.countP (aged now) l₂ + 1 :=
          List.countP_cons_of_pos (List.find?_some hfind)
        rw [hscan, List.countP_append, hone] at hk
        rw [herase, List.countP_append]
        omega
    obtain ⟨hmem, hyoung⟩ := ih hcount hentry
    exact ⟨mem_of_mem_sweep hmem, hyoung⟩

/-- A host that is seen again after its entry was made can be swept while it is active. -/
theorem exists_sweeps_taking {ifaceList : List IfaceInfo} {es pre post : List Event} {e : Event}
    (hclock : (es.map Event.reading).Pairwise (· ≤ ·)) (hsplit : es = pre ++ e :: post)
    (hstale : ¬ SourceCurrent (run (next ifaceList) initMacPortTable pre) e)
    (hspan : ∀ earlier ∈ pre, e.reading - earlier.reading < 2 ^ 31) :
    ∃ k now, e.reading ≤ now ∧
      ¬ SparesAll ifaceList (pre ++ e :: List.replicate k (.sweep now)) := by
  have hinv := tableInvariant_run ifaceList hclock pre _ hsplit
  cases e with
  | sweep now => exact absurd trivial hstale
  | frame iface packet time =>
    rw [SourceCurrent] at hstale
    push Not at hstale
    obtain ⟨entry, hentry, hmac, hstamp⟩ := hstale
    obtain ⟨packet', hmade, -⟩ := hinv.origin entry hentry
    have hle := reading_le hclock hsplit hmade
    have hclose := hspan _ hmade
    simp only [Event.reading] at hle hclose ⊢
    have hknown : lookupPort (run (next ifaceList) initMacPortTable pre) packet.etherShost ≠ none :=
      fun hnone => lookupPort_none.mp hnone entry hentry hmac
    obtain ⟨known, hlookup⟩ := Option.ne_none_iff_exists'.mp hknown
    have hsame : run (next ifaceList) initMacPortTable (pre ++ [.frame iface packet time])
        = run (next ifaceList) initMacPortTable pre := by
      rw [run_snoc, next_frame_of_some hlookup]
    generalize run (next ifaceList) initMacPortTable pre = t at *
    -- The first reading that makes the entry aged, or that of the frame if it is aged by then.
    obtain ⟨now, hnow, hactive, haged⟩ : ∃ now, time ≤ now ∧ now - macPortTimeout < time ∧
        aged now entry = true := by
      refine ⟨max time (entry.visited + macPortTimeout), le_max_left _ _, ?_, ?_⟩
      · rw [macPortTimeout]
        omega
      · rw [aged, decide_eq_true_eq, macPortTimeout, Int.bmod_eq_of_le (by omega) (by omega)]
        omega
    refine ⟨(Buckets.scan t).countP (aged now), now, hnow, fun hspares => ?_⟩
    have hend : ¬ lookupPort (run (next ifaceList) t (List.replicate
        ((Buckets.scan t).countP (aged now)) (.sweep now))) packet.etherShost ≠ none := by
      rw [not_not, lookupPort_none]
      intro other hother hsource
      obtain ⟨hmem, hyoung⟩ := mem_run_sweeps ifaceList (Nat.le_refl _) hother
      have heq := List.inj_on_of_nodup_map hinv.unique hmem hentry (hsource.trans hmac.symm)
      rw [heq, haged] at hyoung
      cases hyoung
    obtain ⟨pre', e', post', hsweeps, hthere, hgone⟩ := exists_step_losing (next ifaceList)
      (P := fun t => lookupPort t packet.etherShost ≠ none) hknown hend
    obtain rfl : e' = .sweep now :=
      List.eq_of_mem_replicate (hsweeps ▸ List.mem_append_cons_self)
    have htaken := hspares (pre ++ .frame iface packet time :: pre') now post'
      (by rw [hsweeps, List.append_assoc, List.cons_append]) packet.etherShost
    rw [← List.singleton_append, ← List.append_assoc, run_append, hsame] at htaken
    rw [run_snoc, not_not] at hgone
    have hlast := htaken hthere hgone time
      ⟨iface, packet, List.mem_append_left _ (List.mem_append_right _ (List.mem_singleton_self _)),
        rfl⟩
    omega

/-- **When ageing spares the active hosts**, along every run whose clock does not go back: when each
source is new to the table, or current. Where one is not, sweeps can follow that do not. -/
theorem spares_active_of_current (ifaceList : List IfaceInfo) {es : List Event}
    (hclock : (es.map Event.reading).Pairwise (· ≤ ·)) :
    (AtEachStep (next ifaceList) SourceCurrent initMacPortTable es → SparesAll ifaceList es) ∧
    ∀ pre e post, es = pre ++ e :: post →
      ¬ SourceCurrent (run (next ifaceList) initMacPortTable pre) e →
      (∀ earlier ∈ pre, e.reading - earlier.reading < 2 ^ 31) →
      ∃ k now, e.reading ≤ now ∧
        ¬ SparesAll ifaceList (pre ++ e :: List.replicate k (.sweep now)) := by
  refine ⟨fun hcurrent pre now post hsplit mac hknown hgone time hseen => ?_,
    fun pre e post hsplit => exists_sweeps_taking hclock hsplit⟩
  have hinv := tableInvariant_run ifaceList hclock pre _ hsplit
  obtain ⟨entry, hfind, rfl⟩ := (lookupPort_sweep_eq_none_iff hinv hknown).mp hgone
  have hentry := List.mem_of_find?_eq_some hfind
  obtain ⟨packet, hmade, -⟩ := hinv.origin entry hentry
  have haged := visited_le_of_aged (List.find?_some hfind) (reading_le hclock hsplit hmade)
  exact (sighted_le_visited hclock hcurrent pre _ hsplit entry hentry time hseen).trans haged

/-- A host that sends twice. -/
def twiceRun : List Event :=
  [ .frame ⟨3, 1⟩ (Packet.bare (hostMac 2) (hostMac 1)) 100,
    .frame ⟨3, 1⟩ (Packet.bare (hostMac 2) (hostMac 1)) 110 ]

theorem spares_active_of_current_agedRun : SparesAll threeNodes agedRun ∧
    ∃ k now, 110 ≤ now ∧ ¬ SparesAll threeNodes (twiceRun ++ List.replicate k (.sweep now)) := by
  have hclock : (twiceRun.map Event.reading).Pairwise (· ≤ ·) := by decide
  exact ⟨(spares_active_of_current threeNodes (by decide)).1 (by decide +kernel),
    (spares_active_of_current threeNodes hclock).2 [_] _ [] rfl (by decide +kernel) (by decide)⟩

/-- A host that sends every second still is swept 30 seconds after its first frame. -/
def busyRun : List Event :=
  (List.range 30).map fun i =>
    .frame ⟨3, 1⟩ (Packet.bare (hostMac 2) (hostMac 1)) (100 + i)

theorem busy_host_swept :
    ((busyRun ++ [Event.sweep 130]).map Event.reading).Pairwise (· ≤ ·) ∧
    ¬ SparesActive busyRun (run (next threeNodes) initMacPortTable busyRun) 130 := by
  refine ⟨by decide, fun h => ?_⟩
  have hlast := h (hostMac 1) (by decide +kernel) (by decide +kernel) 129
    ⟨⟨3, 1⟩, Packet.bare (hostMac 2) (hostMac 1), List.mem_map.mpr ⟨29, by decide, rfl⟩, by decide⟩
  revert hlast
  decide

end MiniNet.SwitchStack
