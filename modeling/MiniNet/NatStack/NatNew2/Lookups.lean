import MiniNet.NatStack.NatNew2.Flows
import MiniNet.NatStack.NatNew2.Survival

/-!
# The hashed lookups of `nat_new_2.c`

A lookup goes through one bucket of 256. That it finds what a scan of all of them would is what the
second entry of a flow is for: whichever of the two keys is looked up, its bucket has an entry of the
flow, and all entries of the flow say the same. A flow made when no port was left has port 0, and so
have all the others; those are found by their endpoints still.
-/

namespace MiniNet.NatStack.NatNew2

open Lib

/-- Both lookups find something exactly when some entry of any bucket matches, and what they find
says what all of those say; of port 0 not, which several flows may have. -/
structure LookupsAgree (t : NatTable) : Prop where
  internal : ∀ e : Endpoint, (natLookupInternal t e.1 e.2).isSome ↔
    ∃ entry ∈ t.mappings, entry.internal = e
  port : ∀ (e : Endpoint) loc, natLookupInternal t e.1 e.2 = some loc →
    ∃ found, Buckets.get? t.natMappingList loc = some found ∧
      ∀ entry ∈ t.mappings, entry.internal = e → entry.externalPort = found.externalPort
  external : ∀ q, (natLookupExternal t q).isSome ↔ ∃ entry ∈ t.mappings, entry.externalPort = q
  endpoint : ∀ q loc, q ≠ 0 → natLookupExternal t q = some loc →
    ∃ found, Buckets.get? t.natMappingList loc = some found ∧
      ∀ entry ∈ t.mappings, entry.externalPort = q → entry.internal = found.internal

section Paired

variable {t : NatTable}

/-- The bucket of its endpoint has an entry that says what an entry says. -/
theorem Paired.mem_inner (h : Paired t) {entry : NatMapping} (hentry : entry ∈ t.mappings) :
    ∃ x ∈ t.natMappingList (bucket entry.internal.1 entry.internal.2), label x = label entry := by
  have hinner := h.inner _ (label_mem hentry)
  rw [label] at hinner
  exact List.mem_map.mp hinner

/-- The bucket of its port has an entry that says what an entry says. -/
theorem Paired.mem_outer (h : Paired t) {entry : NatMapping} (hentry : entry ∈ t.mappings) :
    ∃ x ∈ t.natMappingList (bucket t.externalIface.ip entry.externalPort),
      label x = label entry := by
  have houter := h.outer _ (label_mem hentry)
  rw [label] at houter
  exact List.mem_map.mp houter

theorem internal_eq_iff {entry : NatMapping} {e : Endpoint} :
    decide (entry.internalIp = e.1 ∧ entry.internalPort = e.2) = true ↔ entry.internal = e := by
  rw [decide_eq_true_eq, NatMapping.internal, Prod.ext_iff]

theorem Paired.lookupsAgree (h : Paired t) : LookupsAgree t where
  internal e := by
    rw [natLookupInternal, Buckets.isSome_findIn]
    · simp only [internal_eq_iff]
      rfl
    · intro entry hentry hkey
      obtain ⟨x, hx, hlabel⟩ := h.mem_inner hentry
      rw [internal_eq_iff] at hkey
      subst hkey
      exact ⟨x, hx, internal_eq_iff.mpr (congrArg Prod.fst hlabel)⟩
  port e loc hloc := by
    obtain ⟨found, hmem, hkey, hget⟩ := Buckets.findIn_some hloc
    rw [internal_eq_iff] at hkey
    refine ⟨found, hget, fun entry hentry he => ?_⟩
    exact congrArg Prod.snd (h.port _ (label_mem hentry) _
      (label_mem (Buckets.mem_scan.mpr ⟨_, hmem⟩)) (he.trans hkey.symm))
  external q := by
    rw [natLookupExternal, Buckets.isSome_findIn]
    · simp only [decide_eq_true_eq]
      rfl
    · intro entry hentry hkey
      obtain ⟨x, hx, hlabel⟩ := h.mem_outer hentry
      rw [decide_eq_true_eq] at hkey
      subst hkey
      exact ⟨x, hx, decide_eq_true (congrArg Prod.snd hlabel)⟩
  endpoint q loc hq hloc := by
    obtain ⟨found, hmem, hkey, hget⟩ := Buckets.findIn_some hloc
    rw [decide_eq_true_eq] at hkey
    refine ⟨found, hget, fun entry hentry hport => ?_⟩
    exact congrArg Prod.fst (h.holder _ (label_mem hentry) _
      (label_mem (Buckets.mem_scan.mpr ⟨_, hmem⟩)) (hport.trans hkey.symm)
      fun hzero => hq (hport.symm.trans hzero))

end Paired

/-! ### Nothing is swept -/

/-- No entry has a segment noted or is stamped with anything but a reading of the clock, or 0. -/
def Quiet (past : List Event) (t : NatTable) : Prop :=
  ∀ entry ∈ t.mappings, entry.conn = .zero ∧
    (entry.updateTime = 0 ∨ entry.updateTime ∈ past.flatMap Event.readings)

section Quiet

variable {past : List Event} {t : NatTable} {now : Nat}

theorem Quiet.natTimeout (h : Quiet past t)
    (hclock : ∀ past' ∈ past.flatMap Event.readings, past' ≤ now) :
    NatNew2.natTimeout t now = t := by
  apply sweepTable_of_none_due
  intro entry hentry
  obtain ⟨hconn, htime⟩ := h entry hentry
  refine not_due hconn ?_
  rcases htime with hzero | hpast
  · rw [hzero]
    exact Nat.zero_le now
  · exact hclock _ hpast

theorem Quiet.mono (h : Quiet past t) (e : Event) : Quiet (past ++ [e]) t := by
  intro entry hentry
  refine ⟨(h entry hentry).1, (h entry hentry).2.imp_right fun hpast => ?_⟩
  rw [List.flatMap_append]
  exact List.mem_append_left _ hpast

theorem Quiet.touch (h : Quiet past t) (loc : Location) {later : Nat}
    (hlater : later ∈ past.flatMap Event.readings) : Quiet past (touch t loc later) := by
  intro entry hentry
  obtain ⟨b, hb⟩ := Buckets.mem_scan.mp hentry
  obtain ⟨old, hold, rfl | rfl⟩ := Buckets.mem_modifyAt hb
  · exact h _ (Buckets.mem_scan.mpr ⟨b, hold⟩)
  · exact ⟨(h _ (Buckets.mem_scan.mpr ⟨b, hold⟩)).1, .inr hlater⟩

theorem Quiet.insert (h : Quiet past t) (k : Endpoint)
    (hnow : now ∈ past.flatMap Event.readings) :
    Quiet past (natInsertMapping t k.1 k.2 now).2 := by
  intro entry hentry
  rw [NatTable.mappings, natInsertMapping] at hentry
  simp only [NatTable.addTail, Buckets.mem_scan_addTail, (assignExternalPort_frame t).1] at hentry
  rcases hentry with (hold | rfl) | rfl
  · exact h entry hold
  · exact ⟨rfl, .inr hnow⟩
  · exact ⟨rfl, .inl rfl⟩

end Quiet

/-! ### Runs -/

/-- A table of a run: both entries of every flow are there, and no sweep finds one of them due. -/
def Sound (past : List Event) (s : Option NatTable) : Prop :=
  ∃ t, s = some t ∧ Paired t ∧ Quiet past t

theorem Sound.next {past : List Event} {s : Option NatTable} {e : Event} (h : Sound past s)
    (hclock : ∀ past' ∈ past.flatMap Event.readings, ∀ now ∈ e.readings, past' ≤ now)
    (hmatched : InboundFound s e) : Sound (past ++ [e]) (next s e) := by
  obtain ⟨t, rfl, hpaired, hquiet⟩ := h
  cases e with
  | sweep now =>
    refine ⟨t, ?_, hpaired, hquiet.mono _⟩
    change some (natTimeout t now) = some t
    rw [hquiet.natTimeout fun past' hpast => hclock past' hpast now (List.mem_singleton_self now)]
  | packet iface dir p now later =>
    obtain ⟨t', ht'⟩ := Option.isSome_iff_exists.mp ((isSome_next t _).mpr hmatched)
    have hpaired' : Paired t' := paired_next (e := .packet iface dir p now later)
      (fun _ ht => Option.some.inj ht ▸ hpaired) trivial t' ht'
    refine ⟨t', ht', hpaired', ?_⟩
    have hreadings : ∀ time ∈ [now, later],
        time ∈ (past ++ [Event.packet iface dir p now later]).flatMap Event.readings := by
      intro time htime
      rw [List.flatMap_append]
      exact List.mem_append_right _ (by simpa [Event.readings] using htime)
    have hquiet' := hquiet.mono (.packet iface dir p now later)
    rcases next_packet_cases ht' with ⟨loc, rfl⟩ | ⟨-, loc, rfl⟩
    · exact hquiet'.touch loc (hreadings later (by simp))
    · exact (hquiet'.insert p.source (hreadings now (by simp))).touch loc (hreadings later (by simp))

/-- **The hashed lookups agree with a full scan** in every state of a run whose clock does not go
back and whose inbound packets all have a mapping, with free ports or without. -/
theorem lookups_agree_with_scan {ifaceList : List IfaceInfo} {t₀ : NatTable}
    {es pre post : List Event} (hinit : natTableInit ifaceList = some t₀)
    (hclock : Nondecreasing Event.readings es)
    (hmatched : AtEachStep next InboundFound (some t₀) es) (hsplit : es = pre ++ post) :
    ∃ t, run next (some t₀) pre = some t ∧ LookupsAgree t := by
  obtain ⟨hbuckets, hpool⟩ := natTableInit_spec hinit
  have hsound : Sound pre (run next (some t₀) pre) := by
    refine run_induction next (P := Sound) ?_ ?_ pre post hsplit
    · refine ⟨t₀, rfl, Paired.init hbuckets hpool, fun entry hentry => ?_⟩
      rw [NatTable.mappings_eq_nil hbuckets] at hentry
      exact absurd hentry List.not_mem_nil
    · intro past e rest hsplit' hpast
      exact hpast.next (fun _ hpast' _ => (hsplit' ▸ hclock).le_of_mem hpast')
        (hmatched past e rest hsplit')
  obtain ⟨t, hrun, hpaired, -⟩ := hsound
  exact ⟨t, hrun, hpaired.lookupsAgree⟩

instance : (s : Option NatTable) → (e : Event) → Decidable (InboundFound s e)
  | some t, .packet _ dir p _ _ =>
    inferInstanceAs (Decidable (dir = .dirIn → natLookupExternal t p.dest.2 ≠ none))
  | none, _ => isTrue trivial
  | some _, .sweep _ => isTrue trivial

theorem lookups_agree_with_scan_natTopoRun :
    ∃ t, run next (some natTopo) (natTopoRun.take 2) = some t ∧ LookupsAgree t :=
  lookups_agree_with_scan natTableInit_natTopo (by decide) (by decide +kernel)
    (List.append_nil (natTopoRun.take 2)).symm

end MiniNet.NatStack.NatNew2
