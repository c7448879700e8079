import MiniNet.ListHead

/-!
# `list_for_each_entry`

The loop that does not save the next entry reads it from the one it is at when the body is through
with that. What a body deletes it also frees, and the loop would read on from there: it gets no
further than the first entry that is deleted.
-/

namespace MiniNet.ListHead

open Lib Lib.OnLinks

variable {α : Type} [DecidableEq α]

/-! ### The loop -/

/-- The rounds of `list_for_each_entry`, at most `fuel` of them, and the entries visited. -/
def each (head : α) (body : α → OnLinks α Unit) : Nat → α → OnLinks α (List α)
  | 0, _ => failure
  | fuel + 1, pos =>
    if pos = head then return []
    else do
      body pos
      let rest ← each head body fuel (← getNext pos)
      return pos :: rest

def listForEachEntry (head : α) (body : α → OnLinks α Unit) (fuel : Nat) :
    OnLinks α (List α) := do
  let pos ← getNext head
  each head body fuel pos

/-! ### A body that deletes -/

section Delete

variable {h : LinkHeap α} {head e : α} {xs : List α} {p : α → Bool}

/-- The loop from an entry on: it gets through if it deletes none. -/
theorem each_rest (p : α → Bool) {rest : List α} :
    ∀ {xs : List α} {fuel : Nat}, h.Circular ↑(head :: (xs ++ rest)) → rest.length < fuel →
      each head (deleteIf p) fuel (rest.headD head) h =
        if ∃ e ∈ rest, p e = true then none else some (rest, h) := by
  induction rest with
  | nil =>
    intro xs fuel _ hfuel
    obtain ⟨fuel, rfl⟩ := Nat.exists_eq_succ_of_ne_zero (Nat.ne_of_gt hfuel)
    rw [each, List.headD_nil, if_pos rfl, if_neg (by simp)]
    rfl
  | cons e rest ih =>
    intro xs fuel hc hfuel
    obtain ⟨fuel, rfl⟩ := Nat.exists_eq_succ_of_ne_zero (Nat.ne_of_gt (Nat.zero_lt_of_lt hfuel))
    have he := hc.from_member.live e List.mem_cons_self
    have hehead : e ≠ head := (ne_of_mem_of_not_mem List.mem_cons_self hc.not_mem_rest).symm
    rw [List.headD_cons, each, if_neg hehead]
    cases hp : p e with
    | true =>
      obtain ⟨h₁, hbody, -, -, hlive⟩ := deleteIf_step hc p
      rw [hp] at hlive
      rw [bind_of_eq hbody, bind_of_none (getNext_of_not_live hlive),
        if_pos ⟨e, List.mem_cons_self, hp⟩]
    | false =>
      have hbody : deleteIf p e h = some ((), h) := by
        rw [deleteIf, bind_of_eq (getData_of_live p he), hp]
        rfl
      have hkeep : h.Circular ↑(head :: ((xs ++ [e]) ++ rest)) := by
        rwa [List.append_assoc, List.singleton_append]
      have hrest := ih hkeep (Nat.lt_of_succ_lt_succ hfuel)
      have hiff : (∃ x ∈ e :: rest, p x = true) ↔ ∃ x ∈ rest, p x = true := by simp [hp]
      rw [bind_of_eq hbody, bind_of_eq (getNext_of_live he), hc.next_member]
      simp only [hiff]
      by_cases hany : ∃ x ∈ rest, p x = true
      · rw [if_pos hany] at hrest ⊢
        exact bind_of_none hrest
      · rw [if_neg hany] at hrest ⊢
        rw [bind_of_eq hrest]
        rfl

/-- **What the loop does with a body that deletes**: it comes to its end when nothing is deleted,
and reads an entry that is freed otherwise. -/
theorem listForEachEntry_deleteIf (hc : h.Circular ↑(head :: xs)) (p : α → Bool) {fuel : Nat}
    (hfuel : xs.length < fuel) : listForEachEntry head (deleteIf p) fuel h =
      if ∃ e ∈ xs, p e = true then none else some (xs, h) := by
  have hstart : h.Circular ↑(head :: ([] ++ xs)) := hc
  rw [listForEachEntry, bind_of_eq (getNext_of_live (hc.live head List.mem_cons_self)), hc.next_eq]
  exact each_rest p hstart hfuel

/-- A head and two entries, of which the second is deleted. -/
theorem listForEachEntry_deleteIf_twoNodes :
    listForEachEntry 0 (deleteIf fun a => a = 2) 3 twoNodes =
      if ∃ e ∈ [1, 2], (decide (e = 2)) = true then none else some ([1, 2], twoNodes) :=
  listForEachEntry_deleteIf
    ⟨by decide, fun _ _ => rfl, by rw [Cycle.chain_coe_cons]; decide⟩ _ (by decide)

end Delete

end MiniNet.ListHead
