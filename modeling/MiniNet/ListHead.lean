import MiniNet.Lib.LinkHeap

/-!
# `list.h`

The lists under the tables of the NAT and the switch; the two files are the same. A list is a head
and the nodes that follow it round to the head again, and what is proved here is that it behaves as
the sequence of these nodes. A node stands for the entry it is part of as well, which has nothing
else to do with the list.
-/

namespace MiniNet.ListHead

open Lib Lib.OnLinks

variable {α β : Type} [DecidableEq α]

/-! ### The functions -/

def listEmpty (list : α) : OnLinks α Bool := do
  return (← getNext list) = list

def initListHead (list : α) : OnLinks α Unit := do
  setPrev list list
  setNext list list

def listInsert (new prev next : α) : OnLinks α Unit := do
  setPrev next new
  setNext prev new
  setNext new next
  setPrev new prev

def listAddHead (new head : α) : OnLinks α Unit := do
  listInsert new head (← getNext head)

def listAddTail (new head : α) : OnLinks α Unit := do
  listInsert new (← getPrev head) head

def listDeleteEntry (entry : α) : OnLinks α Unit := do
  setPrev (← getNext entry) (← getPrev entry)
  setNext (← getPrev entry) (← getNext entry)

/-- The rounds of `list_for_each_entry_safe`, at most `fuel` of them, and the entries visited. -/
def eachSafe (head : α) (body : α → OnLinks α Unit) : Nat → α → α → OnLinks α (List α)
  | 0, _, _ => failure
  | fuel + 1, pos, q =>
    if pos = head then return []
    else do
      body pos
      let rest ← eachSafe head body fuel q (← getNext q)
      return pos :: rest

def listForEachEntrySafe (head : α) (body : α → OnLinks α Unit) (fuel : Nat) :
    OnLinks α (List α) := do
  let pos ← getNext head
  eachSafe head body fuel pos (← getNext pos)

/-- The body of a loop that deletes and frees entries. -/
def deleteIf (p : α → Bool) (entry : α) : OnLinks α Unit := do
  if ← getData p entry then
    listDeleteEntry entry
    free entry

/-- The rounds where the body leaves the loop with what the function returns. -/
def eachSafeReturn (head : α) (body : α → OnLinks α (Option β)) :
    Nat → α → α → OnLinks α (Option β)
  | 0, _, _ => failure
  | fuel + 1, pos, q =>
    if pos = head then return none
    else do
      match ← body pos with
      | some r => return some r
      | none => eachSafeReturn head body fuel q (← getNext q)

def listForEachEntryReturn (head : α) (body : α → OnLinks α (Option β)) (fuel : Nat) :
    OnLinks α (Option β) := do
  let pos ← getNext head
  eachSafeReturn head body fuel pos (← getNext pos)

/-- The body of a lookup, where `act` is nothing, and of the sweep of the switch. -/
def returnIf (p : α → Bool) (act : α → OnLinks α β) (entry : α) : OnLinks α (Option β) := do
  if ← getData p entry then return some (← act entry)
  return none

/-! ### What they do to a heap -/

section Access

variable {h : LinkHeap α} {n p q e : α}

theorem listInsert_eq (hn : h.live n = true) (hp : h.live p = true) (hq : h.live q = true) :
    listInsert n p q h = some ((), h.link n p q) := by
  rw [listInsert, bind_of_eq (setPrev_of_live hq),
    bind_of_eq (setNext_of_live (h := h.withPrev q n) hp),
    bind_of_eq (setNext_of_live (h := (h.withPrev q n).withNext p n) hn)]
  exact setPrev_of_live hn

/-- The second write reads the links of the node anew, but the first has not changed them. -/
theorem listDeleteEntry_eq (he : h.live e = true) (hnext : h.live (h.next e) = true)
    (hprev : h.live (h.prev e) = true) : listDeleteEntry e h = some ((), h.unlink e) := by
  have hsame : (h.withPrev (h.next e) (h.prev e)).prev e = h.prev e := by
    simp only [LinkHeap.withPrev, Function.update_apply]
    split
    · rfl
    · rfl
  rw [listDeleteEntry, bind_of_eq (getNext_of_live he), bind_of_eq (getPrev_of_live he),
    bind_of_eq (setPrev_of_live hnext),
    bind_of_eq (getPrev_of_live (h := h.withPrev (h.next e) (h.prev e)) he),
    bind_of_eq (getNext_of_live (h := h.withPrev (h.next e) (h.prev e)) he), hsame]
  exact setNext_of_live hprev

end Access

/-! ### What they do to a sequence -/

/-- `op` ends with `b` and the list of `xs` at `head`, and only `nodes` are other than before. -/
def Leaves (h : LinkHeap α) (op : OnLinks α β) (b : β) (head : α) (xs nodes : List α) : Prop :=
  ∃ h', op h = some (b, h') ∧ h'.Circular ↑(head :: xs) ∧ ∀ a ∉ nodes, h.Same h' a

section Sequence

variable {h : LinkHeap α} {head n e : α} {xs ys : List α}

theorem initListHead_leaves (hlive : h.live head = true) :
    Leaves h (initListHead head) () head [] [head] := by
  refine ⟨(h.withPrev head head).withNext head head, ?_, ⟨?_, ?_, ?_⟩, fun a ha => ?_⟩
  · rw [initListHead, bind_of_eq (setPrev_of_live hlive)]
    exact setNext_of_live hlive
  · exact List.nodup_singleton head
  · exact List.forall_mem_singleton.mpr hlive
  · rw [Cycle.chain_singleton]
    exact ⟨Function.update_self .., Function.update_self ..⟩
  · have hne : a ≠ head := fun heq => ha (List.mem_singleton.mpr heq)
    exact ⟨Function.update_of_ne hne .., Function.update_of_ne hne .., rfl⟩

theorem listEmpty_eq (hc : h.Circular ↑(head :: xs)) :
    listEmpty head h = some (xs.isEmpty, h) := by
  have hempty : h.next head = head ↔ xs.isEmpty := by
    rw [hc.next_eq]
    cases xs with
    | nil => exact iff_of_true rfl rfl
    | cons b xs =>
      refine iff_of_false (fun heq => ?_) Bool.false_ne_true
      exact (List.nodup_cons.mp hc.nodup).1 (heq ▸ List.mem_cons_self)
  have hdecide : decide (h.next head = head) = xs.isEmpty := Bool.eq_iff_iff.mpr
    (decide_eq_true_iff.trans hempty)
  rw [listEmpty, bind_of_eq (getNext_of_live (hc.live head List.mem_cons_self)), hdecide]
  rfl

theorem listAddTail_leaves (hc : h.Circular ↑(head :: xs)) (hn : n ∉ head :: xs)
    (hlive : h.live n = true) :
    Leaves h (listAddTail n head) () head (xs ++ [n]) (n :: head :: xs) := by
  have hhead := hc.live head List.mem_cons_self
  refine ⟨h.link n (h.prev head) head, ?_, ?_, fun a ha => ?_⟩
  · rw [listAddTail, bind_of_eq (getPrev_of_live hhead)]
    exact listInsert_eq hlive (hc.live _ hc.prev_mem) hhead
  · exact (hc.insert hn hlive).rotate (l := [n])
  · obtain ⟨han, hax⟩ := List.ne_and_not_mem_of_not_mem_cons ha
    exact LinkHeap.same_link han (ne_of_mem_of_not_mem hc.prev_mem hax).symm
      (ne_of_mem_of_not_mem List.mem_cons_self hax).symm

theorem listAddHead_leaves (hc : h.Circular ↑(head :: xs)) (hn : n ∉ head :: xs)
    (hlive : h.live n = true) :
    Leaves h (listAddHead n head) () head (n :: xs) (n :: head :: xs) := by
  have hhead := hc.live head List.mem_cons_self
  -- a node at the head is one in front of the node after the head
  obtain ⟨rest, hrest⟩ : ∃ rest, xs ++ [head] = h.next head :: rest := by
    rw [hc.next_eq]
    cases xs with
    | nil => exact ⟨[], rfl⟩
    | cons b xs => exact ⟨xs ++ [head], rfl⟩
  have hnext : h.Circular ↑(h.next head :: rest) := hrest ▸ hc.rotate (l := [head])
  have hnew : n ∉ h.next head :: rest := by
    rw [← hrest]
    simpa [or_comm] using hn
  refine ⟨h.link n head (h.next head), ?_, ?_, fun a ha => ?_⟩
  · rw [listAddHead, bind_of_eq (getNext_of_live hhead)]
    exact listInsert_eq hlive hhead (hc.live _ hc.next_mem)
  · have hinsert := hnext.insert hnew hlive
    rw [hc.prev_next, ← hrest] at hinsert
    exact hinsert.rotate (l := n :: xs)
  · obtain ⟨han, hax⟩ := List.ne_and_not_mem_of_not_mem_cons ha
    exact LinkHeap.same_link han (ne_of_mem_of_not_mem List.mem_cons_self hax).symm
      (ne_of_mem_of_not_mem hc.next_mem hax).symm

theorem unlink_circular (hc : h.Circular ↑(head :: (xs ++ e :: ys))) :
    (h.unlink e).Circular ↑(head :: (xs ++ ys)) :=
  (hc.from_member.remove (by simp)).rotate

theorem same_unlink_of_not_mem (hc : h.Circular ↑(head :: (xs ++ e :: ys))) {a : α}
    (ha : a ∉ head :: (xs ++ e :: ys)) : h.Same (h.unlink e) a := by
  have hmem : ∀ b ∈ e :: (ys ++ head :: xs), a ≠ b := by
    rintro b hb rfl
    exact ha (by grind)
  exact LinkHeap.same_unlink (hmem _ hc.from_member.prev_mem) (hmem _ hc.from_member.next_mem)

theorem listDeleteEntry_unlink (hc : h.Circular ↑(head :: (xs ++ e :: ys))) :
    listDeleteEntry e h = some ((), h.unlink e) := by
  have hlive := hc.from_member.live
  exact listDeleteEntry_eq (hlive e List.mem_cons_self) (hlive _ hc.from_member.next_mem)
    (hlive _ hc.from_member.prev_mem)

theorem listDeleteEntry_leaves (hc : h.Circular ↑(head :: (xs ++ e :: ys))) :
    Leaves h (listDeleteEntry e) () head (xs ++ ys) (head :: (xs ++ e :: ys)) :=
  ⟨h.unlink e, listDeleteEntry_unlink hc, unlink_circular hc, fun _ => same_unlink_of_not_mem hc⟩

end Sequence

/-! ### The loop -/

section Body

variable {α β : Type} {h : LinkHeap α} {e : α} {p : α → Bool}

theorem returnIf_of_hit (act : α → OnLinks α β) (he : h.live e = true) (hp : p e = true) :
    returnIf p act e h = (act e h).map fun r => (some r.1, r.2) := by
  rw [returnIf, bind_of_eq (getData_of_live p he), hp, if_pos rfl]
  change (act e h).bind _ = _
  cases act e h with
  | none => rfl
  | some r => rfl

theorem returnIf_of_miss (act : α → OnLinks α β) (he : h.live e = true) (hp : p e = false) :
    returnIf p act e h = some (none, h) := by
  rw [returnIf, bind_of_eq (getData_of_live p he), hp]
  rfl

end Body

section Loop

variable {h : LinkHeap α} {head e : α} {xs ys : List α} {p : α → Bool}

theorem deleteEntry_free_eq (hc : h.Circular ↑(head :: (xs ++ e :: ys))) :
    (do listDeleteEntry e; free e) h = some ((), (h.unlink e).release e) := by
  rw [bind_of_eq (listDeleteEntry_unlink hc)]
  exact free_of_live (hc.from_member.live e List.mem_cons_self)

theorem deleteEntry_free_leaves (hc : h.Circular ↑(head :: (xs ++ e :: ys))) :
    Leaves h (do listDeleteEntry e; free e) () head (xs ++ ys) (head :: (xs ++ e :: ys)) := by
  refine ⟨_, deleteEntry_free_eq hc, ?_, fun a ha => ?_⟩
  · exact (unlink_circular hc).congr fun _ ha =>
      LinkHeap.same_release (ne_of_mem_of_not_mem ha hc.not_mem_rest)
  · have hae : a ≠ e := by
      rintro rfl
      exact ha (by simp)
    exact (same_unlink_of_not_mem hc ha).trans (LinkHeap.same_release hae)

/-- The body keeps the entry or takes it out of the list and frees it. -/
theorem deleteIf_step (hc : h.Circular ↑(head :: (xs ++ e :: ys))) (p : α → Bool) :
    ∃ h₁, deleteIf p e h = some ((), h₁) ∧
      h₁.Circular ↑(head :: (xs ++ [e].filter (fun a => !p a) ++ ys)) ∧
      (∀ a ∉ head :: (xs ++ e :: ys), h.Same h₁ a) ∧ h₁.live e = !p e := by
  have he := hc.from_member.live e List.mem_cons_self
  cases hp : p e with
  | false =>
    refine ⟨h, ?_, ?_, fun _ _ => LinkHeap.Same.rfl, he⟩
    · rw [deleteIf, bind_of_eq (getData_of_live p he), hp]
      rfl
    · simpa [hp] using hc
  | true =>
    obtain ⟨h₁, hdelete, hc₁, hsame₁⟩ := deleteEntry_free_leaves hc
    refine ⟨h₁, ?_, by simpa [hp] using hc₁, hsame₁, ?_⟩
    · rw [deleteIf, bind_of_eq (getData_of_live p he), hp, if_pos rfl]
      exact hdelete
    · obtain ⟨-, rfl⟩ := Prod.mk.inj (Option.some.inj (hdelete.symm.trans (deleteEntry_free_eq hc)))
      exact Function.update_self ..

/-- One round: the body, then the entry that was saved before it, then the others. -/
theorem eachSafe_round {body : α → OnLinks α Unit} {fuel : Nat} {h₁ h₂ : LinkHeap α}
    {visited : List α} (hc : h.Circular ↑(head :: (xs ++ e :: ys)))
    (hbody : body e h = some ((), h₁)) (hlive : h₁.live (ys.headD head) = true)
    (hrest : eachSafe head body fuel (ys.headD head) (h₁.next (ys.headD head)) h₁
      = some (visited, h₂)) :
    eachSafe head body (fuel + 1) e (h.next e) h = some (e :: visited, h₂) := by
  have hehead : e ≠ head := (ne_of_mem_of_not_mem List.mem_cons_self hc.not_mem_rest).symm
  rw [eachSafe, if_neg hehead, bind_of_eq hbody, hc.next_member,
    bind_of_eq (getNext_of_live hlive), bind_of_eq hrest]
  rfl

/-- The loop from an entry on, or from the head when it has been through all: `xs` are the entries
kept so far, and `q` links on from where it stands. -/
theorem eachSafe_rest (p : α → Bool) {rest : List α} :
    ∀ {h : LinkHeap α} {xs : List α} {fuel : Nat}, h.Circular ↑(head :: (xs ++ rest)) →
      rest.length < fuel →
      ∃ h', eachSafe head (deleteIf p) fuel (rest.headD head) (h.next (rest.headD head)) h
          = some (rest, h') ∧
        h'.Circular ↑(head :: (xs ++ rest.filter fun a => !p a)) ∧
        (∀ a ∉ head :: (xs ++ rest), h.Same h' a) ∧ ∀ a ∈ rest, h'.live a = !p a := by
  induction rest with
  | nil =>
    intro h xs fuel hc hfuel
    obtain ⟨fuel, rfl⟩ := Nat.exists_eq_succ_of_ne_zero (Nat.ne_of_gt hfuel)
    refine ⟨h, ?_, hc, fun _ _ => LinkHeap.Same.rfl, fun _ ha => absurd ha List.not_mem_nil⟩
    rw [eachSafe, List.headD_nil, if_pos rfl]
    rfl
  | cons e rest ih =>
    intro h xs fuel hc hfuel
    obtain ⟨fuel, rfl⟩ := Nat.exists_eq_succ_of_ne_zero (Nat.ne_of_gt (Nat.zero_lt_of_lt hfuel))
    obtain ⟨h₁, hbody, hc₁, hsame₁, hlive₁⟩ := deleteIf_step hc p
    obtain ⟨h', hloop, hc', hsame, hlive⟩ := ih hc₁ (Nat.lt_of_succ_lt_succ hfuel)
    have hq : rest.headD head ∈ head :: (xs ++ [e].filter (fun a => !p a) ++ rest) := by
      cases rest with
      | nil => exact List.mem_cons_self
      | cons b rest => simp
    have hsub : ∀ a ∈ head :: (xs ++ [e].filter (fun a => !p a) ++ rest),
        a ∈ head :: (xs ++ e :: rest) := by
      intro a ha
      grind
    refine ⟨h', eachSafe_round hc hbody (hc₁.live _ hq) hloop, ?_, fun a ha => ?_, ?_⟩
    · rwa [List.append_assoc, ← List.filter_append, List.singleton_append] at hc'
    · exact (hsame₁ a ha).trans (hsame a fun hmem => ha (hsub a hmem))
    · refine List.forall_mem_cons.mpr ⟨?_, hlive⟩
      cases hp : p e with
      | false =>
        -- what is kept is in the list at the end
        exact hc'.live e (by simp [hp])
      | true =>
        have hgone : e ∉ head :: (xs ++ [e].filter (fun a => !p a) ++ rest) := by
          simpa [hp] using hc.not_mem_rest
        rw [(hsame e hgone).live, hlive₁, hp]

theorem listForEachEntrySafe_deleteIf (hc : h.Circular ↑(head :: xs)) (p : α → Bool) {fuel : Nat}
    (hfuel : xs.length < fuel) :
    ∃ h', listForEachEntrySafe head (deleteIf p) fuel h = some (xs, h') ∧
      h'.Circular ↑(head :: xs.filter fun a => !p a) ∧
      (∀ a ∉ head :: xs, h.Same h' a) ∧ ∀ a ∈ xs, h'.live a = !p a := by
  have hstart : h.Circular ↑(head :: ([] ++ xs)) := hc
  obtain ⟨h', hloop, hrest⟩ := eachSafe_rest p hstart hfuel
  refine ⟨h', ?_, hrest⟩
  have hfirst := hc.live _ hc.next_mem
  rw [listForEachEntrySafe, bind_of_eq (getNext_of_live (hc.live head List.mem_cons_self)),
    bind_of_eq (getNext_of_live hfirst), hc.next_eq]
  exact hloop

/-- The loop goes to the first entry of which `p` holds, and on from there `act` decides. -/
theorem eachSafeReturn_rest (p : α → Bool) (act : α → OnLinks α β) {rest : List α} :
    ∀ {xs : List α} {fuel : Nat}, h.Circular ↑(head :: (xs ++ rest)) → rest.length < fuel →
      eachSafeReturn head (returnIf p act) fuel (rest.headD head) (h.next (rest.headD head)) h =
        match rest.find? p with
        | none => some (none, h)
        | some e => (act e h).map fun r => (some r.1, r.2) := by
  induction rest with
  | nil =>
    intro xs fuel _ hfuel
    obtain ⟨fuel, rfl⟩ := Nat.exists_eq_succ_of_ne_zero (Nat.ne_of_gt hfuel)
    rw [eachSafeReturn, List.headD_nil, if_pos rfl]
    rfl
  | cons e rest ih =>
    intro xs fuel hc hfuel
    obtain ⟨fuel, rfl⟩ := Nat.exists_eq_succ_of_ne_zero (Nat.ne_of_gt (Nat.zero_lt_of_lt hfuel))
    have he := hc.from_member.live e List.mem_cons_self
    have hehead : e ≠ head := (ne_of_mem_of_not_mem List.mem_cons_self hc.not_mem_rest).symm
    rw [List.headD_cons, eachSafeReturn, if_neg hehead, List.find?_cons]
    cases hp : p e with
    | true =>
      change (returnIf p act e h).bind _ = (act e h).map _
      rw [returnIf_of_hit act he hp]
      cases act e h with
      | none => rfl
      | some r => rfl
    | false =>
      have hkeep : h.Circular ↑(head :: ((xs ++ [e]) ++ rest)) := by
        rwa [List.append_assoc, List.singleton_append]
      have hnext := hc.from_member.live _ hc.from_member.next_mem
      rw [bind_of_eq (returnIf_of_miss act he hp)]
      change (getNext (h.next e) >>= _) h = _
      rw [bind_of_eq (getNext_of_live hnext), hc.next_member]
      exact ih hkeep (Nat.lt_of_succ_lt_succ hfuel)

theorem listForEachEntryReturn_eq (hc : h.Circular ↑(head :: xs)) (p : α → Bool)
    (act : α → OnLinks α β) {fuel : Nat} (hfuel : xs.length < fuel) :
    listForEachEntryReturn head (returnIf p act) fuel h =
      match xs.find? p with
      | none => some (none, h)
      | some e => (act e h).map fun r => (some r.1, r.2) := by
  have hstart : h.Circular ↑(head :: ([] ++ xs)) := hc
  have hfirst := hc.live _ hc.next_mem
  rw [listForEachEntryReturn, bind_of_eq (getNext_of_live (hc.live head List.mem_cons_self)),
    bind_of_eq (getNext_of_live hfirst), hc.next_eq]
  exact eachSafeReturn_rest p act hstart hfuel

end Loop

/-! ### The sequence -/

/-- The list at `head` works as the sequence `xs`. A node that has been freed is not touched by
anything that comes to an end. -/
structure ImplementsSequence (h : LinkHeap α) (head : α) (xs : List α) : Prop where
  addTail : ∀ n, n ∉ head :: xs → h.live n = true →
    Leaves h (listAddTail n head) () head (xs ++ [n]) (n :: head :: xs)
  addHead : ∀ n, n ∉ head :: xs → h.live n = true →
    Leaves h (listAddHead n head) () head (n :: xs) (n :: head :: xs)
  deleteEntry : ∀ e ∈ xs, Leaves h (listDeleteEntry e) () head (xs.erase e) (head :: xs)
  deleteLoop : ∀ (p : α → Bool) (fuel : Nat), xs.length < fuel →
    ∃ h', listForEachEntrySafe head (deleteIf p) fuel h = some (xs, h') ∧
      h'.Circular ↑(head :: xs.filter fun a => !p a) ∧
      (∀ a ∉ head :: xs, h.Same h' a) ∧ ∀ a ∈ xs, h'.live a = !p a

theorem implementsSequence {h : LinkHeap α} {head : α} {xs : List α}
    (hc : h.Circular ↑(head :: xs)) : ImplementsSequence h head xs where
  addTail _ hn hlive := listAddTail_leaves hc hn hlive
  addHead _ hn hlive := listAddHead_leaves hc hn hlive
  deleteEntry e he := by
    obtain ⟨init, rest, hnot, rfl, herase⟩ := List.exists_erase_eq he
    rw [herase]
    exact listDeleteEntry_leaves hc
  deleteLoop p _ hfuel := listForEachEntrySafe_deleteIf hc p hfuel

/-- A head and two nodes. -/
def twoNodes : LinkHeap Nat where
  next a := if a < 2 then a + 1 else 0
  prev a := if a = 0 then 2 else a - 1
  live _ := true

theorem implementsSequence_twoNodes : ImplementsSequence twoNodes 0 [1, 2] :=
  implementsSequence
    ⟨by decide, fun _ _ => rfl, by rw [Cycle.chain_coe_cons]; decide⟩

end MiniNet.ListHead
