import MiniNet.Lib.Leases
import MiniNet.SwitchStack.Queue

/-!
# Sweeps in the middle of a frame

`handle_packet` looks its destination up, then its source, and makes an entry for the source if there
is none. The ageing thread waits for none of this, and may sweep between any two of these calls; each
call is taken here for one step. A frame comes out as if it were handled at once, at some point among
the sweeps that fall into it, unless between the two lookups they take the entry of its destination
and, with it or after it, that of its source.
-/

namespace MiniNet.SwitchStack

open Lib

namespace Calls

/-- A frame with the sweeps that fall between its two lookups, and between the second of these and
the insertion. -/
inductive Event
  | frame (iface : IfaceInfo) (packet : Packet) (between late : List Int) (now : Int)
  | sweep (now : Int)

def sweep (t : MacPortMap) (now : Int) : MacPortMap := (sweepAgedMacPortEntry t now).2

/-- `handle_packet`, call by call. -/
def handlePacket (ifaceList : List IfaceInfo) (t : MacPortMap) (iface : IfaceInfo)
    (packet : Packet) (between late : List Int) (now : Int) : MacPortMap × List Transmission :=
  let sent :=
    match lookupPort t packet.etherDhost with
    | some txIface => [⟨txIface, packet⟩]
    | none => broadcastPacket ifaceList iface packet
  let t := run sweep t between
  let known := lookupPort t packet.etherShost
  let t := run sweep t late
  let t :=
    match known with
    | some _ => t
    | none => insertMacPort t packet.etherShost iface now
  (t, sent)

def step (ifaceList : List IfaceInfo) (t : MacPortMap) : Event → MacPortMap × List Transmission
  | .frame iface packet between late now => handlePacket ifaceList t iface packet between late now
  | .sweep now => (sweep t now, [])

/-- The clock does not go back while the frame is handled. -/
def Event.Timely : Event → Prop
  | .frame _ _ between late now => ∀ r ∈ between ++ late, r ≤ now ∧ now - r < 2 ^ 31
  | .sweep _ => True

instance : DecidablePred Event.Timely
  | .frame _ _ between late now =>
    inferInstanceAs (Decidable (∀ r ∈ between ++ late, r ≤ now ∧ now - r < 2 ^ 31))
  | .sweep _ => inferInstanceAs (Decidable True)

/-- There is a point among the sweeps where the frame could have been handled at once: its
destination is found as it was, and the table comes out the same. -/
def AtOnce (ifaceList : List IfaceInfo) (t : MacPortMap) : Event → Prop
  | .frame iface packet between late now => ∃ pre post, between ++ late = pre ++ post ∧
      lookupPort (run sweep t pre) packet.etherDhost = lookupPort t packet.etherDhost ∧
      run sweep (next ifaceList (run sweep t pre) (.frame iface packet now)) post
        = (handlePacket ifaceList t iface packet between late now).1
  | .sweep _ => True

/-- When a sweep between the lookups takes the entry of the source, the destination is found as it
was before. -/
def DestinationOutlasts (t : MacPortMap) : Event → Prop
  | .frame _ packet between _ _ => AtEachStep sweep (fun t' now =>
      lookupPort t' packet.etherShost ≠ none → lookupPort (sweep t' now) packet.etherShost = none →
        lookupPort (sweep t' now) packet.etherDhost = lookupPort t packet.etherDhost) t between
  | .sweep _ => True

instance (t : MacPortMap) : DecidablePred (DestinationOutlasts t)
  | .frame _ packet between _ _ => inferInstanceAs (Decidable (AtEachStep sweep (fun t' now =>
      lookupPort t' packet.etherShost ≠ none → lookupPort (sweep t' now) packet.etherShost = none →
        lookupPort (sweep t' now) packet.etherDhost = lookupPort t packet.etherDhost) t between))
  | .sweep _ => inferInstanceAs (Decidable True)

/-! ### The table as its first bucket -/

def ofQueue (q : List MacPortEntry) : MacPortMap := fun b => if b = ⟨0, hash8Bits_pos⟩ then q else []

def drop (q : List MacPortEntry) (now : Int) : List MacPortEntry := q.eraseP (aged now)

theorem scan_ofQueue (q : List MacPortEntry) : Buckets.scan (ofQueue q) = q :=
  (Buckets.scan_eq_of_rest fun _ hb => if_neg hb).trans (if_pos rfl)

theorem ofQueue_injective : Function.Injective ofQueue := by
  intro q q' h
  rw [← scan_ofQueue q, h, scan_ofQueue]

theorem lookupPort_ofQueue (q : List MacPortEntry) (mac : Mac) :
    lookupPort (ofQueue q) mac = (Queue.find q mac).map (·.iface) := by
  rw [lookupPort_eq_find, scan_ofQueue]

theorem sweep_ofQueue (q : List MacPortEntry) (now : Int) :
    sweep (ofQueue q) now = ofQueue (drop q now) := by
  have hrest : ∀ b, b ≠ ⟨0, hash8Bits_pos⟩ → sweep (ofQueue q) now b = [] := by
    intro b hb
    have hsub := sweep_sublist (ofQueue q) now b
    rw [ofQueue, if_neg hb] at hsub
    exact List.sublist_nil.mp hsub
  have hscan := scan_sweep (ofQueue q) now
  rw [← sweep, Buckets.scan_eq_of_rest hrest, scan_ofQueue] at hscan
  funext b
  rw [ofQueue]
  split
  · rename_i hb
    subst hb
    exact hscan
  · rename_i hb
    exact hrest b hb

theorem run_sweep_ofQueue (q : List MacPortEntry) (rs : List Int) :
    run sweep (ofQueue q) rs = ofQueue (run drop q rs) := by
  induction rs generalizing q with
  | nil => rfl
  | cons r rs ih => rw [run_cons, run_cons, sweep_ofQueue, ih]

theorem insertMacPort_ofQueue (q : List MacPortEntry) (mac : Mac) (iface : IfaceInfo) (now : Int) :
    insertMacPort (ofQueue q) mac iface now = ofQueue (q ++ [⟨mac, iface, now⟩]) := by
  funext b
  rw [insertMacPort, Buckets.addTail_apply, ofQueue, ofQueue]
  by_cases hb : b = ⟨0, hash8Bits_pos⟩
  · rw [if_pos hb, if_pos hb, if_pos hb]
  · rw [if_neg hb, if_neg hb, if_neg hb, List.append_nil]

/-! ### What sweeps take -/

section Sweeps

variable {q : List MacPortEntry}

theorem run_drop_sublist (q : List MacPortEntry) (rs : List Int) : (run drop q rs).Sublist q := by
  induction rs generalizing q with
  | nil => exact List.Sublist.refl q
  | cons r rs ih => exact (ih (drop q r)).trans List.eraseP_sublist

/-- What is found after some sweeps is what was found before. -/
theorem find_of_sublist {q' : List MacPortEntry} (hq : (q.map (·.mac)).Nodup) (hsub : q'.Sublist q)
    (mac : Mac) : Queue.find q' mac = none ∨ Queue.find q' mac = Queue.find q mac := by
  cases hfind : Queue.find q' mac with
  | none => exact .inl rfl
  | some entry =>
    have hq' : (q'.map (·.mac)).Nodup := hq.sublist (hsub.map _)
    obtain ⟨hmem, hmac⟩ := (Leases.find?_eq_some_iff_of_nodup hq').mp hfind
    exact .inr ((Leases.find?_eq_some_iff_of_nodup hq).mpr ⟨hsub.subset hmem, hmac⟩).symm

/-- What is young is not taken, wherever it stands. -/
theorem run_drop_snoc {entry : MacPortEntry} {rs : List Int}
    (hyoung : ∀ r ∈ rs, aged r entry = false) (q : List MacPortEntry) :
    run drop (q ++ [entry]) rs = run drop q rs ++ [entry] := by
  induction rs generalizing q with
  | nil => rfl
  | cons r rs ih =>
    obtain ⟨hr, hrs⟩ := List.forall_mem_cons.mp hyoung
    have hdrop : drop (q ++ [entry]) r = drop q r ++ [entry] := by
      by_cases hold : ∃ x ∈ q, aged r x = true
      · obtain ⟨x, hx, haged⟩ := hold
        exact List.eraseP_append_left haged [entry] hx
      · have hnone : ∀ x ∈ q, ¬ aged r x = true := fun x hx haged => hold ⟨x, hx, haged⟩
        rw [drop, drop, List.eraseP_append_right _ hnone, List.eraseP_of_forall_not hnone,
          List.eraseP_cons_of_neg (Bool.eq_false_iff.mp hr), List.eraseP_nil]
    rw [run_cons, run_cons, hdrop, ih hrs]

theorem not_aged {r now : Int} (h : r ≤ now ∧ now - r < 2 ^ 31) (mac : Mac) (iface : IfaceInfo) :
    aged r ⟨mac, iface, now⟩ = false := by
  rw [aged, decide_eq_false_iff_not]
  dsimp only
  rw [Int.bmod_eq_of_le (by omega) (by omega), macPortTimeout]
  omega

end Sweeps

/-! ### One frame -/

section Frame

variable (ifaceList : List IfaceInfo) {q : List MacPortEntry} {iface : IfaceInfo} {packet : Packet}
  {between late : List Int} {now : Int}

/-- The queue after a frame. -/
def learn (q : List MacPortEntry) (known : Option MacPortEntry) (entry : MacPortEntry) :
    List MacPortEntry :=
  match known with
  | some _ => q
  | none => q ++ [entry]

theorem next_ofQueue (q : List MacPortEntry) :
    next ifaceList (ofQueue q) (.frame iface packet now) =
      ofQueue (learn q (Queue.find q packet.etherShost) ⟨packet.etherShost, iface, now⟩) := by
  have hlookup := lookupPort_ofQueue q packet.etherShost
  cases hfind : Queue.find q packet.etherShost with
  | none =>
    rw [hfind] at hlookup
    rw [next_frame_of_none hlookup, insertMacPort_ofQueue, learn]
  | some entry =>
    rw [hfind] at hlookup
    rw [next_frame_of_some hlookup, learn]

theorem handlePacket_ofQueue (q : List MacPortEntry) :
    (handlePacket ifaceList (ofQueue q) iface packet between late now).1 =
      ofQueue (learn (run drop q (between ++ late))
        (Queue.find (run drop q between) packet.etherShost) ⟨packet.etherShost, iface, now⟩) := by
  have hlookup := lookupPort_ofQueue (run drop q between) packet.etherShost
  simp only [handlePacket]
  rw [run_sweep_ofQueue, hlookup, run_sweep_ofQueue, run_append]
  cases Queue.find (run drop q between) packet.etherShost with
  | none => exact insertMacPort_ofQueue _ _ _ _
  | some entry => rfl

theorem length_learn (q : List MacPortEntry) (known : Option MacPortEntry) (entry : MacPortEntry) :
    (learn q known entry).length = q.length + if known = none then 1 else 0 := by
  cases known with
  | none => rw [learn, List.length_append, if_pos rfl, List.length_singleton]
  | some x => rw [learn, if_neg (by simp), Nat.add_zero]

theorem run_drop_learn {known : Option MacPortEntry} {entry : MacPortEntry} {rs : List Int}
    (hyoung : ∀ r ∈ rs, aged r entry = false) (q : List MacPortEntry) :
    run drop (learn q known entry) rs = learn (run drop q rs) known entry := by
  cases known with
  | none => exact run_drop_snoc hyoung q
  | some x => rfl

theorem learn_eq_iff {known known' : Option MacPortEntry} (q : List MacPortEntry)
    (entry : MacPortEntry) :
    learn q known entry = learn q known' entry ↔ (known = none ↔ known' = none) := by
  constructor
  · intro h
    have hlength := congrArg List.length h
    rw [length_learn, length_learn] at hlength
    by_cases hknown : known = none
    · by_cases hknown' : known' = none
      · exact iff_of_true hknown hknown'
      · rw [if_pos hknown, if_neg hknown'] at hlength
        omega
    · by_cases hknown' : known' = none
      · rw [if_neg hknown, if_pos hknown'] at hlength
        omega
      · exact iff_of_false hknown hknown'
  · intro h
    cases known with
    | none => rw [h.mp rfl]
    | some x =>
      cases known' with
      | none => exact absurd (h.mpr rfl) (by simp)
      | some y => rfl

/-- Where a frame is handled at once, its destination is found as it was before the sweeps, and its
source if it is found after them. -/
theorem atOnce_ofQueue (htimely : Event.Timely (.frame iface packet between late now)) :
    AtOnce ifaceList (ofQueue q) (.frame iface packet between late now) ↔
      ∃ pre post, between ++ late = pre ++ post ∧
        (Queue.find (run drop q pre) packet.etherDhost).map (·.iface)
          = (Queue.find q packet.etherDhost).map (·.iface) ∧
        (Queue.find (run drop q pre) packet.etherShost = none ↔
          Queue.find (run drop q between) packet.etherShost = none) := by
  rw [AtOnce]
  refine exists_congr fun pre => exists_congr fun post => and_congr_right fun hsplit => ?_
  have hyoung : ∀ r ∈ post, aged r ⟨packet.etherShost, iface, now⟩ = false := fun r hr =>
    not_aged (htimely r (hsplit ▸ List.mem_append_right pre hr)) _ _
  rw [run_sweep_ofQueue, lookupPort_ofQueue, lookupPort_ofQueue, next_ofQueue, run_sweep_ofQueue,
    handlePacket_ofQueue, ofQueue_injective.eq_iff, run_drop_learn hyoung, hsplit, run_append,
    learn_eq_iff]

/-- What is gone stays gone. -/
theorem find_run_append (hq : (q.map (·.mac)).Nodup) {mac : Mac} {rs : List Int}
    (h : Queue.find (run drop q rs) mac = none) (rs' : List Int) :
    Queue.find (run drop q (rs ++ rs')) mac = none := by
  have hmacs : ((run drop q rs).map (·.mac)).Nodup := hq.sublist ((run_drop_sublist q rs).map _)
  rw [run_append]
  rcases find_of_sublist hmacs (run_drop_sublist (run drop q rs) rs') mac with hnone | hsame
  · exact hnone
  · rw [hsame, h]

/-- Found as before at some time, it has been found as before until then. -/
theorem find_run_prefix (hq : (q.map (·.mac)).Nodup) {mac : Mac} {rs : List Int} (rs' : List Int)
    (h : (Queue.find (run drop q (rs ++ rs')) mac).map (·.iface)
      = (Queue.find q mac).map (·.iface)) :
    (Queue.find (run drop q rs) mac).map (·.iface) = (Queue.find q mac).map (·.iface) := by
  rcases find_of_sublist hq (run_drop_sublist q rs) mac with hnone | hsame
  · rw [find_run_append hq hnone rs'] at h
    rw [hnone, h]
  · rw [hsame]

theorem destinationOutlasts_ofQueue : DestinationOutlasts (ofQueue q)
      (.frame iface packet between late now) ↔ ∀ pre r post, between = pre ++ r :: post →
        Queue.find (run drop q pre) packet.etherShost ≠ none →
        Queue.find (run drop q (pre ++ [r])) packet.etherShost = none →
        (Queue.find (run drop q (pre ++ [r])) packet.etherDhost).map (·.iface)
          = (Queue.find q packet.etherDhost).map (·.iface) := by
  refine forall_congr' fun pre => forall_congr' fun r => forall_congr' fun post =>
    forall_congr' fun _ => ?_
  dsimp only
  rw [← run_snoc sweep, run_sweep_ofQueue, run_sweep_ofQueue]
  simp only [lookupPort_ofQueue, ne_eq, Option.map_eq_none_iff]

/-- **When a frame can be handled at once**: when the sweeps between its lookups do not take the
entry of its source with that of its destination gone. -/
theorem atOnce_iff (hq : (q.map (·.mac)).Nodup)
    (htimely : Event.Timely (.frame iface packet between late now)) :
    AtOnce ifaceList (ofQueue q) (.frame iface packet between late now) ↔
      DestinationOutlasts (ofQueue q) (.frame iface packet between late now) := by
  rw [atOnce_ofQueue ifaceList htimely, destinationOutlasts_ofQueue]
  constructor
  · rintro ⟨pre, post, hsplit, hdest, hsource⟩ pre' r post' hsplit' hfound hlost
    have hgone : Queue.find (run drop q pre) packet.etherShost = none := by
      rw [hsource, hsplit', ← List.singleton_append, ← List.append_assoc]
      exact find_run_append hq hlost post'
    -- the point has to be behind the sweep that takes the source
    have hprefix : pre' ++ [r] <+: pre := by
      have hall : pre' ++ [r] <+: pre ++ post := by
        rw [← hsplit, hsplit']
        exact ⟨post' ++ late, by simp⟩
      rcases List.prefix_or_prefix_of_prefix hall (List.prefix_append pre post) with hle | hge
      · exact hle
      · rcases List.prefix_concat_iff.mp hge with heq | ⟨rest, rfl⟩
        · rw [heq]
        · exact absurd (find_run_append hq hgone rest) hfound
    obtain ⟨rest, rfl⟩ := hprefix
    exact find_run_prefix hq rest hdest
  · intro houtlasts
    by_cases hend : Queue.find (run drop q between) packet.etherShost = none
    · by_cases hstart : Queue.find q packet.etherShost = none
      · exact ⟨[], between ++ late, rfl, rfl, iff_of_true hstart hend⟩
      · obtain ⟨pre, r, post, hsplit, hfound, hlost⟩ := exists_step_losing drop
          (P := fun q => Queue.find q packet.etherShost ≠ none) hstart (not_not.mpr hend)
        have hgone := not_not.mp hlost
        refine ⟨pre ++ [r], post ++ late, by simp [hsplit], ?_, iff_of_true hgone hend⟩
        exact houtlasts pre r post hsplit hfound hgone
    · refine ⟨[], between ++ late, rfl, rfl, iff_of_false (fun hnone => hend ?_) hend⟩
      have hstart : Queue.find (run drop q []) packet.etherShost = none := hnone
      exact find_run_append hq hstart between

end Frame

/-! ### Runs -/

/-- All entries are in the first bucket, and no two are of one address. -/
def Single (t : MacPortMap) : Prop := ∃ q, t = ofQueue q ∧ (q.map (·.mac)).Nodup

section Run

variable (ifaceList : List IfaceInfo) {t : MacPortMap}

theorem Single.start : Single initMacPortTable :=
  ⟨[], funext fun _ => (ite_self []).symm, List.nodup_nil⟩

theorem Single.step (h : Single t) (e : Event) : Single (nextOf (Calls.step ifaceList) t e) := by
  obtain ⟨q, rfl, hq⟩ := h
  cases e with
  | sweep now =>
    exact ⟨drop q now, sweep_ofQueue q now, hq.sublist (List.eraseP_sublist.map _)⟩
  | frame iface packet between late now =>
    have hmacs : ((run drop q (between ++ late)).map (·.mac)).Nodup :=
      hq.sublist ((run_drop_sublist q _).map _)
    refine ⟨_, handlePacket_ofQueue ifaceList q, ?_⟩
    cases hknown : Queue.find (run drop q between) packet.etherShost with
    | some entry => exact hmacs
    | none =>
      have hnew := find_run_append hq hknown late
      rw [learn, List.map_append, List.nodup_append]
      refine ⟨hmacs, List.nodup_singleton _, fun mac hold mac' hmac heq => ?_⟩
      obtain ⟨entry, hentry, rfl⟩ := List.mem_map.mp hold
      rw [List.map_singleton, List.mem_singleton] at hmac
      have hmiss := List.find?_eq_none.mp hnew entry hentry
      exact hmiss (decide_eq_true (heq.trans hmac))

/-- However the sweeps fall, no address gets two entries. -/
theorem single_run (es : List Event) : ∀ pre post, es = pre ++ post →
    Single (run (nextOf (Calls.step ifaceList)) initMacPortTable pre) :=
  run_induction _ (P := fun _ t => Single t) Single.start fun _ e _ _ h => h.step ifaceList e

/-- A run in which every frame is handled at once, somewhere among the sweeps that fall into it. -/
inductive Serial : List Event → List SwitchStack.Event → Prop
  | nil : Serial [] []
  | sweep (now : Int) {es : List Event} {serial : List SwitchStack.Event} (h : Serial es serial) :
      Serial (.sweep now :: es) (.sweep now :: serial)
  | frame (iface : IfaceInfo) (packet : Packet) (now : Int) {between late pre post : List Int}
      (hsplit : between ++ late = pre ++ post) {es : List Event}
      {serial : List SwitchStack.Event} (h : Serial es serial) :
      Serial (.frame iface packet between late now :: es)
        (pre.map .sweep ++ .frame iface packet now :: (post.map .sweep ++ serial))

/-- All copies that a run sends. -/
def sentBy (t : MacPortMap) (serial : List SwitchStack.Event) : List Transmission :=
  (outputs (respond ifaceList) t serial).flatMap (·.sent)

theorem run_next_sweeps (t : MacPortMap) (rs : List Int) :
    run (next ifaceList) t (rs.map .sweep) = run sweep t rs :=
  List.foldl_map

theorem sentBy_append (t : MacPortMap) (pre post : List SwitchStack.Event) :
    sentBy ifaceList t (pre ++ post)
      = sentBy ifaceList t pre ++ sentBy ifaceList (run (next ifaceList) t pre) post := by
  rw [sentBy, outputs_append, List.flatMap_append, InMemory.nextOf_respond, sentBy, sentBy]

theorem sentBy_sweeps (t : MacPortMap) (rs : List Int) :
    sentBy ifaceList t (rs.map .sweep) = [] := by
  induction rs generalizing t with
  | nil => rfl
  | cons r rs ih => exact ih (sweep t r)

/-- Where every frame can be handled at once there is such a run. -/
theorem exists_serial {es : List Event} {t : MacPortMap}
    (h : AtEachStep (nextOf (Calls.step ifaceList)) (AtOnce ifaceList) t es) :
    ∃ serial, Serial es serial ∧
      run (next ifaceList) t serial = run (nextOf (Calls.step ifaceList)) t es ∧
      sentBy ifaceList t serial = (outputs (Calls.step ifaceList) t es).flatten := by
  induction es generalizing t with
  | nil => exact ⟨[], .nil, rfl, rfl⟩
  | cons e es ih =>
    obtain ⟨honce, hrest⟩ := (atEachStep_cons _).mp h
    obtain ⟨serial, hserial, hrun, hsent⟩ := ih hrest
    cases e with
    | sweep now => exact ⟨.sweep now :: serial, hserial.sweep now, hrun, hsent⟩
    | frame iface packet between late now =>
      obtain ⟨pre, post, hsplit, hdest, htable⟩ := honce
      refine ⟨_, hserial.frame iface packet now hsplit, ?_, ?_⟩
      · rw [run_append, run_next_sweeps, run_cons, run_append, run_next_sweeps, htable]
        exact hrun
      · have hcopies : sentBy ifaceList (run sweep t pre) [.frame iface packet now]
            = (Calls.step ifaceList t (.frame iface packet between late now)).2 := by
          rw [Calls.step, handlePacket, ← hdest]
          exact List.append_nil _
        rw [sentBy_append, sentBy_sweeps, run_next_sweeps, List.nil_append,
          ← List.singleton_append, sentBy_append, hcopies, run_cons, run_nil, sentBy_append,
          sentBy_sweeps, run_next_sweeps, htable, List.nil_append, outputs, List.flatten_cons]
        exact congrArg _ hsent

/-- **Sweeps in the middle of frames**: a run comes out as one in which every frame is handled at
once as long as no frame loses the entry of its source between its lookups with that of its
destination gone, and such a frame is never handled as if at once. -/
theorem frames_at_once {es : List Event} (htimely : ∀ e ∈ es, e.Timely) :
    (AtEachStep (nextOf (Calls.step ifaceList)) DestinationOutlasts initMacPortTable es →
      ∃ serial, Serial es serial ∧ run (next ifaceList) initMacPortTable serial
          = run (nextOf (Calls.step ifaceList)) initMacPortTable es ∧
        sentBy ifaceList initMacPortTable serial
          = (outputs (Calls.step ifaceList) initMacPortTable es).flatten) ∧
    (AtEachStep (nextOf (Calls.step ifaceList)) (AtOnce ifaceList) initMacPortTable es ↔
      AtEachStep (nextOf (Calls.step ifaceList)) DestinationOutlasts initMacPortTable es) := by
  have hiff : AtEachStep (nextOf (Calls.step ifaceList)) (AtOnce ifaceList) initMacPortTable es ↔
      AtEachStep (nextOf (Calls.step ifaceList)) DestinationOutlasts initMacPortTable es := by
    refine forall_congr' fun pre => forall_congr' fun e => forall_congr' fun post =>
      forall_congr' fun hsplit => ?_
    obtain ⟨q, hq, hmacs⟩ := single_run ifaceList es pre _ hsplit
    rw [hq]
    cases e with
    | sweep now => exact Iff.rfl
    | frame iface packet between late now =>
      exact atOnce_iff ifaceList hmacs (htimely _ (hsplit ▸ by simp))
  exact ⟨fun h => exists_serial ifaceList (hiff.mpr h), hiff⟩

end Run

/-- Two hosts are learned, and when both are old the second sends to the first. The first sweep
between the lookups takes the entry of its destination, a second one its own. -/
def tornRun (sweeps : List Int) : List Event :=
  [ .frame ⟨3, 1⟩ (Packet.bare (hostMac 2) (hostMac 1)) [] [] 100,
    .frame ⟨4, 2⟩ (Packet.bare (hostMac 1) (hostMac 2)) [] [] 101,
    .frame ⟨4, 2⟩ (Packet.bare (hostMac 1) (hostMac 2)) sweeps [] 133 ]

theorem frames_at_once_tornRun :
    (∃ serial, Serial (tornRun [131]) serial ∧
      run (next threeNodes) initMacPortTable serial
        = run (nextOf (Calls.step threeNodes)) initMacPortTable (tornRun [131]) ∧
      sentBy threeNodes initMacPortTable serial
        = (outputs (Calls.step threeNodes) initMacPortTable (tornRun [131])).flatten) ∧
    AtEachStep (nextOf (Calls.step threeNodes)) (AtOnce threeNodes) initMacPortTable
      (tornRun [131]) := by
  have houtlasts : AtEachStep (nextOf (Calls.step threeNodes)) DestinationOutlasts
      initMacPortTable (tornRun [131]) := by decide +kernel
  have htimely : ∀ e ∈ tornRun [131], e.Timely := by decide
  obtain ⟨hserial, hiff⟩ := frames_at_once threeNodes htimely
  exact ⟨hserial houtlasts, hiff.mpr houtlasts⟩

example : ¬ AtEachStep (nextOf (Calls.step threeNodes)) DestinationOutlasts initMacPortTable
    (tornRun [131, 132]) := by decide +kernel

end Calls

end MiniNet.SwitchStack
