import MiniNet.Lib.Buckets
import MiniNet.ListHead

/-!
# The tables on the heap

The tables of the NAT and the switch are arrays of list heads. Elsewhere a bucket is the list of its
entries; here it is the circular list whose nodes carry them, and what `list.h` does to the nodes is
what the model of the tables does to the entries.
-/

namespace MiniNet.ListHead

open Lib Lib.OnLinks

variable {α β γ : Type} {k : Nat}

/-! ### What is in use -/

section Live

variable [DecidableEq α] {h h' : LinkHeap α} {head n e : α} {xs ys : List α}

/-- Linking a node in frees nothing. -/
theorem live_listAddTail (hc : h.Circular ↑(head :: xs)) (hlive : h.live n = true)
    (hadd : listAddTail n head h = some ((), h')) : h'.live = h.live := by
  have hhead := hc.live head List.mem_cons_self
  have heq : listAddTail n head h = some ((), h.link n (h.prev head) head) := by
    rw [listAddTail, bind_of_eq (getPrev_of_live hhead)]
    exact listInsert_eq hlive (hc.live _ hc.prev_mem) hhead
  obtain ⟨-, rfl⟩ := Prod.mk.inj (Option.some.inj (hadd.symm.trans heq))
  rfl

theorem live_deleteEntry_free (hc : h.Circular ↑(head :: (xs ++ e :: ys)))
    (hdelete : (do listDeleteEntry e; free e) h = some ((), h')) :
    h'.live = Function.update h.live e false := by
  obtain ⟨-, rfl⟩ := Prod.mk.inj (Option.some.inj (hdelete.symm.trans (deleteEntry_free_eq hc)))
  rfl

end Live

/-- The buckets `t` are in the heap, on the nodes given for each. Two buckets have no node in
common. -/
structure Stores (h : LinkHeap α) (heads : Fin k → α) (nodes : Fin k → List α) (entry : α → β)
    (t : Buckets k β) : Prop where
  circular : ∀ b, h.Circular ↑(heads b :: nodes b)
  entries : ∀ b, (nodes b).map entry = t b
  apart : ∀ b c, b ≠ c → (heads b :: nodes b).Disjoint (heads c :: nodes c)

namespace Stores

variable {h h' : LinkHeap α} {heads : Fin k → α} {nodes : Fin k → List α} {entry : α → β}
  {t : Buckets k β} {b : Fin k}

/-- One bucket may change if the others are as they were. -/
theorem update (hs : Stores h heads nodes entry t) {xs : List α}
    (hc : h'.Circular ↑(heads b :: xs))
    (happart : ∀ c, c ≠ b → (heads b :: xs).Disjoint (heads c :: nodes c))
    (hsame : ∀ c, c ≠ b → ∀ a ∈ heads c :: nodes c, h.Same h' a) :
    Stores h' heads (Function.update nodes b xs) entry
      (Function.update t b (xs.map entry)) := by
  refine ⟨?_, fun c => ?_, fun c d hcd => ?_⟩
  · exact (Function.forall_update_iff nodes fun c xs => h'.Circular ↑(heads c :: xs)).mpr
      ⟨hc, fun c hcb => (hs.circular c).congr (hsame c hcb)⟩
  · by_cases hcb : c = b
    · subst hcb
      rw [Function.update_self, Function.update_self]
    · rw [Function.update_of_ne hcb, Function.update_of_ne hcb, hs.entries c]
  · by_cases hcb : c = b
    · subst hcb
      rw [Function.update_self, Function.update_of_ne hcd.symm]
      exact happart d hcd.symm
    · rw [Function.update_of_ne hcb]
      by_cases hdb : d = b
      · subst hdb
        rw [Function.update_self]
        exact (happart c hcb).symm
      · rw [Function.update_of_ne hdb]
        exact hs.apart c d hcd

/-- A bucket may lose nodes. -/
theorem update_sublist (hs : Stores h heads nodes entry t) {xs : List α}
    (hxs : xs.Sublist (nodes b)) (hc : h'.Circular ↑(heads b :: xs))
    (hsame : ∀ a ∉ heads b :: nodes b, h.Same h' a) :
    Stores h' heads (Function.update nodes b xs) entry
      (Function.update t b (xs.map entry)) := by
  have hsub : heads b :: xs ⊆ heads b :: nodes b := (hxs.cons_cons (heads b)).subset
  refine hs.update hc (fun c hcb a ha hac => ?_) fun c hcb a hac => hsame a fun ha => ?_
  · exact hs.apart b c (Ne.symm hcb) (hsub ha) hac
  · exact hs.apart b c (Ne.symm hcb) ha hac

variable [DecidableEq α]

theorem addTail (hs : Stores h heads nodes entry t) {n : α}
    (hn : ∀ c, n ∉ heads c :: nodes c) (hlive : h.live n = true) (b : Fin k) :
    ∃ h', listAddTail n (heads b) h = some ((), h') ∧ h'.live = h.live ∧
      Stores h' heads (Function.update nodes b (nodes b ++ [n])) entry
        (Buckets.addTail t b (entry n)) := by
  obtain ⟨h', hadd, hc, hsame⟩ := listAddTail_leaves (hs.circular b) (hn b) hlive
  refine ⟨h', hadd, live_listAddTail (hs.circular b) hlive hadd, ?_⟩
  have hupdate := hs.update hc (fun c hcb a ha hac => ?_) fun c hcb a hac => hsame a fun ha => ?_
  · rwa [List.map_append, hs.entries b] at hupdate
  · rw [← List.cons_append, List.mem_append, List.mem_singleton] at ha
    rcases ha with ha | rfl
    · exact hs.apart b c (Ne.symm hcb) ha hac
    · exact hn c hac
  · rcases List.mem_cons.mp ha with rfl | ha
    · exact hn c hac
    · exact hs.apart b c (Ne.symm hcb) ha hac

/-- The first entry that matches is deleted and freed, and the others stay. -/
theorem deleteFirst (hs : Stores h heads nodes entry t) {q : β → Bool} {e : α}
    (he : (nodes b).find? (q ∘ entry) = some e) :
    ∃ h', (do listDeleteEntry e; free e) h = some ((), h') ∧
      h'.live = Function.update h.live e false ∧
      Stores h' heads (Function.update nodes b ((nodes b).eraseP (q ∘ entry))) entry
        (Function.update t b ((t b).eraseP q)) := by
  obtain ⟨hq, xs, ys, hsplit, hxs⟩ := List.find?_eq_some_iff_append.mp he
  have herase : (nodes b).eraseP (q ∘ entry) = xs ++ ys := by
    rw [hsplit, List.eraseP_append_right _ (by simpa using hxs), List.eraseP_cons_of_pos hq]
  have hc := hs.circular b
  rw [hsplit] at hc
  obtain ⟨h', hdelete, hc', hsame⟩ := deleteEntry_free_leaves hc
  have hlive := live_deleteEntry_free hc hdelete
  rw [← hsplit] at hsame
  rw [← herase] at hc'
  refine ⟨h', hdelete, hlive, ?_⟩
  have hupdate := hs.update_sublist List.eraseP_sublist hc' hsame
  rwa [← List.eraseP_map, hs.entries b] at hupdate

/-- One bucket swept, as long as its loop may take. -/
theorem deleteLoop (hs : Stores h heads nodes entry t) (due : β → Bool) {fuel : Nat}
    (hfuel : (nodes b).length < fuel) :
    ∃ h', listForEachEntrySafe (heads b) (deleteIf (due ∘ entry)) fuel h = some (nodes b, h') ∧
      (∀ a, h'.live a = true ↔ h.live a = true ∧ (a ∈ nodes b → due (entry a) = false)) ∧
      Stores h' heads (Function.update nodes b ((nodes b).filter fun a => !due (entry a))) entry
        (Function.update t b ((t b).filter fun x => !due x)) := by
  obtain ⟨h', hloop, hc, hsame, hgone⟩ :=
    listForEachEntrySafe_deleteIf (hs.circular b) (due ∘ entry) hfuel
  refine ⟨h', hloop, fun a => ?_, ?_⟩
  · by_cases ha : a ∈ nodes b
    · have hlive := (hs.circular b).live a (List.mem_cons_of_mem _ ha)
      simp [hgone a ha, hlive, ha]
    · rw [and_iff_left fun hmem => absurd hmem ha]
      by_cases hhead : a = heads b
      · subst hhead
        exact iff_of_true (hc.live _ List.mem_cons_self)
          ((hs.circular b).live _ List.mem_cons_self)
      · rw [(hsame a (List.not_mem_cons_of_ne_of_not_mem hhead ha)).live]
  have hupdate := hs.update_sublist List.filter_sublist hc hsame
  have hentries : ((nodes b).filter fun a => !(due ∘ entry) a).map entry
      = (t b).filter fun x => !due x := by
    rw [← hs.entries b, List.filter_map]
    rfl
  rwa [hentries] at hupdate

end Stores

/-! ### Where a loop over the lists stops -/

section First

variable {h : LinkHeap α} {heads : Fin k → α} {nodes : Fin k → List α} {entry : α → β}
  {t : Buckets k β}

/-- The bucket and the node a loop over the lists stops at. -/
def firstNode (nodes : Fin k → List α) (p : α → Bool) (l : List (Fin k)) : Option (Fin k × α) :=
  l.findSome? fun b => ((nodes b).find? p).map fun e => (b, e)

theorem find?_of_firstNode {p : α → Bool} {l : List (Fin k)} {b : Fin k} {e : α}
    (hfirst : firstNode nodes p l = some (b, e)) : (nodes b).find? p = some e := by
  obtain ⟨c, -, hc⟩ := List.exists_of_findSome?_eq_some hfirst
  obtain ⟨x, hx, heq⟩ := Option.map_eq_some_iff.mp hc
  obtain ⟨rfl, rfl⟩ := Prod.mk.inj heq
  exact hx

theorem Stores.map_firstNode (hs : Stores h heads nodes entry t) (q : β → Bool)
    (l : List (Fin k)) :
    (firstNode nodes (q ∘ entry) l).map (fun x => (x.1, entry x.2)) =
      l.findSome? fun b => ((t b).find? q).map fun x => (b, x) := by
  rw [firstNode, List.map_findSome?]
  congr 1
  funext b
  rw [← hs.entries b, List.find?_map, Option.map_map, Function.comp_apply, Option.map_map]
  rfl

end First

/-! ### The sweep of all lists -/

variable [DecidableEq α]

/-- Bucket after bucket, each with its loop. -/
def sweepLists (heads : Fin k → α) (p : α → Bool) (fuel : Nat) : List (Fin k) → OnLinks α Unit
  | [] => return ()
  | b :: l => do
    let _ ← listForEachEntrySafe (heads b) (deleteIf p) fuel
    sweepLists heads p fuel l

/-- Deleted are the nodes in these buckets that are due, and they and no others are freed. -/
theorem Stores.sweepLists {heads : Fin k → α} {entry : α → β} (due : β → Bool) {fuel : Nat}
    (l : List (Fin k)) :
    ∀ {h : LinkHeap α} {nodes : Fin k → List α} {t : Buckets k β}, Stores h heads nodes entry t →
      (∀ b, (nodes b).length < fuel) →
      ∃ h', sweepLists heads (due ∘ entry) fuel l h = some ((), h') ∧
        (∀ a, h'.live a = true ↔
          h.live a = true ∧ ∀ b ∈ l, a ∈ nodes b → due (entry a) = false) ∧
        Stores h' heads
          (fun b => if b ∈ l then (nodes b).filter fun a => !due (entry a) else nodes b) entry
          fun b => if b ∈ l then (t b).filter fun x => !due x else t b := by
  induction l with
  | nil =>
    intro h nodes t hs _
    exact ⟨h, rfl, by simp, by simpa using hs⟩
  | cons b l ih =>
    intro h nodes t hs hfuel
    obtain ⟨h₁, hloop, hlive₁, hs₁⟩ := hs.deleteLoop due (hfuel b)
    have hswept : ((nodes b).filter fun a => !due (entry a)).length < fuel :=
      Nat.lt_of_le_of_lt (List.length_filter_le _ _) (hfuel b)
    obtain ⟨h', hrest, hlive', hs'⟩ := ih hs₁
      ((Function.forall_update_iff nodes fun _ xs => xs.length < fuel).mpr
        ⟨hswept, fun c _ => hfuel c⟩)
    refine ⟨h', (bind_of_eq hloop).trans hrest, fun a => ?_, ?_⟩
    · rw [hlive', hlive₁, List.forall_mem_cons, and_assoc]
      refine and_congr_right fun _ => and_congr_right fun _ => forall₂_congr fun c _ => ?_
      by_cases hcb : c = b
      · subst hcb
        rw [Function.update_self, List.mem_filter]
        grind
      · rw [Function.update_of_ne hcb]
    · -- a bucket that comes again has nothing left to delete
      have hagain : ∀ {γ : Type} (p : γ → Bool) (f : Fin k → List γ),
          (fun c => if c ∈ l then (Function.update f b ((f b).filter p) c).filter p
            else Function.update f b ((f b).filter p) c) =
          fun c => if c ∈ b :: l then (f c).filter p else f c := by
        intro γ p f
        funext c
        by_cases hcb : c = b
        · subst hcb
          simp
        · simp [hcb]
      rwa [hagain (fun a => !due (entry a)) nodes, hagain (fun x => !due x) t] at hs'

/-- All lists swept. -/
theorem Stores.sweepAll {h : LinkHeap α} {heads : Fin k → α} {nodes : Fin k → List α}
    {entry : α → β} {t : Buckets k β} (hs : Stores h heads nodes entry t) (due : β → Bool)
    {fuel : Nat} (hfuel : ∀ b, (nodes b).length < fuel) :
    ∃ h', ListHead.sweepLists heads (due ∘ entry) fuel (List.finRange k) h = some ((), h') ∧
      (∀ a, h'.live a = true ↔ h.live a = true ∧ ∀ b, a ∈ nodes b → due (entry a) = false) ∧
      Stores h' heads (fun b => (nodes b).filter fun a => !due (entry a)) entry
        fun b => (t b).filter fun x => !due x := by
  have hswept := Stores.sweepLists due (List.finRange k) hs hfuel
  simp only [List.mem_finRange, if_true, forall_const] at hswept
  exact hswept

/-! ### The loops that return -/

/-- Bucket after bucket, until the body of a loop returns. -/
def returnLists (heads : Fin k → α) (body : α → OnLinks α (Option γ)) (fuel : Nat) :
    List (Fin k) → OnLinks α (Option γ)
  | [] => return none
  | b :: l => do
    match ← listForEachEntryReturn (heads b) body fuel with
    | some r => return some r
    | none => returnLists heads body fuel l

section Return

variable {h : LinkHeap α} {heads : Fin k → α} {nodes : Fin k → List α} {entry : α → β}
  {t : Buckets k β} {fuel : Nat}

theorem Stores.returnLists_eq (hs : Stores h heads nodes entry t) (p : α → Bool)
    (act : α → OnLinks α γ) (hfuel : ∀ b, (nodes b).length < fuel) (l : List (Fin k)) :
    returnLists heads (returnIf p act) fuel l h =
      match firstNode nodes p l with
      | none => some (none, h)
      | some x => (act x.2 h).map fun r => (some r.1, r.2) := by
  induction l with
  | nil => rfl
  | cons b l ih =>
    have hlist := listForEachEntryReturn_eq (hs.circular b) p act (hfuel b)
    rw [firstNode, List.findSome?_cons]
    cases hfind : (nodes b).find? p with
    | none =>
      rw [hfind] at hlist
      exact (bind_of_eq hlist).trans ih
    | some e =>
      simp only [hfind] at hlist
      change (listForEachEntryReturn (heads b) (returnIf p act) fuel h).bind _ = (act e h).map _
      rw [hlist]
      cases act e h with
      | none => rfl
      | some r => rfl

end Return

end MiniNet.ListHead
