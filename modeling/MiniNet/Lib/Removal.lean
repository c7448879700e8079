import Mathlib.Data.List.Basic
import Mathlib.Tactic.Common

/-!
# Removing the first match

A loop that goes through a list, takes out the first element that matches and stops has removed
everything of some kind exactly when that element was all there was of it. In a list that has its
matches in front it takes the head, and is the way out of a queue: an element that matches moves up
by one each time it is not taken itself.
-/

namespace MiniNet.Lib

variable {α : Type*} {l : List α} {p q : α → Bool} {a : α}

theorem eraseP_of_find? (h : l.find? q = some a) :
    ∃ l₁ l₂, l = l₁ ++ a :: l₂ ∧ l.eraseP q = l₁ ++ l₂ ∧ ∀ x ∈ l₁, q x = false := by
  obtain ⟨ha, l₁, l₂, rfl, hbefore⟩ := List.find?_eq_some_iff_append.mp h
  refine ⟨l₁, l₂, rfl, ?_, by simpa using hbefore⟩
  rw [List.eraseP_append_right _ (by simpa using hbefore), List.eraseP_cons_of_pos ha]

/-- The first match is all that `p` holds of exactly when removing it leaves what `p` does not hold
of. -/
theorem eraseP_eq_filter_iff (h : l.find? q = some a) :
    l.eraseP q = l.filter (fun x => !p x) ↔ l.filter p = [a] := by
  obtain ⟨l₁, l₂, rfl, herase, -⟩ := eraseP_of_find? h
  rw [herase]
  constructor
  · intro heq
    have hperm := List.filter_append_perm p (l₁ ++ a :: l₂)
    rw [← heq] at hperm
    exact List.perm_singleton.mp ((List.perm_append_right_iff (l₁ ++ l₂)).mp
      (hperm.trans List.perm_middle))
  · intro hfilter
    have hpa : p a = true := (List.mem_filter.mp (hfilter ▸ List.mem_singleton_self a)).2
    have hlength := congrArg List.length hfilter
    rw [List.filter_append, List.filter_cons_of_pos hpa, List.length_append, List.length_cons,
      List.length_singleton] at hlength
    have hkept : ∀ l' : List α, (l'.filter p).length = 0 → l'.filter (fun x => !p x) = l' := by
      intro l' hzero
      rw [List.filter_eq_self]
      intro x hx
      rw [List.length_eq_zero_iff, List.filter_eq_nil_iff] at hzero
      simpa using hzero x hx
    rw [List.filter_append, List.filter_cons_of_neg (by simp [hpa]), hkept l₁ (by omega),
      hkept l₂ (by omega)]

/-! ### The head of a queue -/

/-- The head is taken if it matches. -/
def dropHead (p : α → Bool) : List α → List α
  | [] => []
  | a :: l => if p a then l else a :: l

section Queue

/-- Where whatever stands ahead of a match is one too, the first match is the head. -/
theorem eraseP_eq_dropHead (h : l.Pairwise fun a b => p b = true → p a = true)
    (hq : ∀ x ∈ l, q x = p x) : l.eraseP q = dropHead p l := by
  cases l with
  | nil => rfl
  | cons a l =>
    rw [dropHead]
    by_cases hp : p a = true
    · rw [if_pos hp, List.eraseP_cons_of_pos (by rw [hq a (List.mem_cons_self ..), hp])]
    · rw [if_neg hp, List.eraseP_of_forall_not]
      intro x hx
      rw [hq x hx]
      rcases List.mem_cons.mp hx with rfl | hx
      · exact hp
      · exact fun hpx => hp (List.rel_of_pairwise_cons h hx hpx)

/-- Where whatever stands ahead of a match is one too, what is found is the head. -/
theorem find?_eq_head (h : l.Pairwise fun a b => p b = true → p a = true)
    (hq : ∀ x ∈ l, q x = p x) : l.find? q = l.head?.filter p := by
  cases l with
  | nil => rfl
  | cons a l =>
    rw [List.head?_cons, Option.filter_some, List.find?_cons, hq a (List.mem_cons_self ..)]
    cases hp : p a with
    | true => rfl
    | false =>
      refine List.find?_eq_none.mpr fun x hx hqx => ?_
      rw [hq x (List.mem_cons_of_mem a hx)] at hqx
      rw [List.rel_of_pairwise_cons h hx hqx] at hp
      cases hp

theorem mem_of_mem_dropHead (h : a ∈ dropHead p l) : a ∈ l := by
  cases l with
  | nil => exact h
  | cons x l =>
    rw [dropHead] at h
    split at h
    · exact List.mem_cons_of_mem _ h
    · exact h

/-- Only what matches is taken. -/
theorem of_not_mem_dropHead (ha : a ∈ l) (h : a ∉ dropHead p l) : p a = true := by
  cases l with
  | nil => cases ha
  | cons x l =>
    rw [dropHead] at h
    split at h
    · rename_i hp
      rcases List.mem_cons.mp ha with rfl | hmem
      · exact hp
      · exact absurd hmem h
    · exact absurd ha h

/-- What stays in the queue moves up by one if it matches itself. -/
theorem idxOf_dropHead [DecidableEq α] (hnodup : l.Nodup)
    (h : l.Pairwise fun a b => p b = true → p a = true) (ha : a ∈ dropHead p l) :
    (dropHead p l).idxOf a + (p a).toNat ≤ l.idxOf a := by
  cases l with
  | nil => cases ha
  | cons x l =>
    rw [dropHead] at ha ⊢
    split at ha
    · rename_i hp
      have hx : x ≠ a := fun heq => (List.nodup_cons.mp hnodup).1 (heq ▸ ha)
      rw [if_pos hp, List.idxOf_cons_ne _ hx]
      exact Nat.add_le_add_left (Bool.toNat_le _) _
    · rename_i hp
      have hpa : p a = false := by
        rcases List.mem_cons.mp ha with rfl | hmem
        · exact Bool.eq_false_iff.mpr hp
        · exact Bool.eq_false_iff.mpr fun hpa => hp (List.rel_of_pairwise_cons h hmem hpa)
      rw [if_neg hp, hpa]
      exact Nat.le_refl _

end Queue

end MiniNet.Lib
