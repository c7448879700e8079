import Mathlib.Data.Finset.Card
import Mathlib.Order.Bounds.Basic

/-!
# Leases

A finite injective map from holders to numbers, which hands out the least free number of a range.
Holders and numbers are kept in the order of the leases; that no two leases share either is part of
the type, so looking up a holder and looking up a number are inverse to each other.
-/

namespace MiniNet.Lib

structure Leases (κ : Type*) where
  entries : List (κ × Nat)
  keys_nodup : (entries.map Prod.fst).Nodup
  values_nodup : (entries.map Prod.snd).Nodup

namespace Leases

variable {κ : Type*}

def empty : Leases κ := ⟨[], List.nodup_nil, List.nodup_nil⟩

def keys (M : Leases κ) : List κ := M.entries.map Prod.fst
def values (M : Leases κ) : List Nat := M.entries.map Prod.snd

section Unique

variable {M : Leases κ} {k k' : κ} {n n' : Nat}

theorem value_unique (h : (k, n) ∈ M.entries) (h' : (k, n') ∈ M.entries) : n = n' :=
  congrArg Prod.snd (List.inj_on_of_nodup_map M.keys_nodup h h' rfl)

theorem key_unique (h : (k, n) ∈ M.entries) (h' : (k', n) ∈ M.entries) : k = k' :=
  congrArg Prod.fst (List.inj_on_of_nodup_map M.values_nodup h h' rfl)

theorem mem_keys : k ∈ M.keys ↔ ∃ n, (k, n) ∈ M.entries := by
  simp [keys]

theorem mem_values : n ∈ M.values ↔ ∃ k, (k, n) ∈ M.entries := by
  simp [values]

end Unique

/-- The least free number among the `count` from `lo` on. -/
def firstFree? (M : Leases κ) (lo count : Nat) : Option Nat :=
  (List.range' lo count).find? fun n => n ∉ M.values

section Free

variable {M : Leases κ} {lo count n : Nat}

theorem firstFree?_spec (h : M.firstFree? lo count = some n) :
    IsLeast {i | lo ≤ i ∧ i < lo + count ∧ i ∉ M.values} n := by
  rw [firstFree?, List.find?_range'_eq_some, List.mem_range'_1] at h
  obtain ⟨hfree, ⟨hlo, hhi⟩, hleast⟩ := h
  refine ⟨⟨hlo, hhi, of_decide_eq_true hfree⟩, ?_⟩
  intro i hi
  obtain ⟨hi, -, hifree⟩ := hi
  by_contra hlt
  have htaken := hleast i hi (Nat.lt_of_not_le hlt)
  simp [hifree] at htaken

theorem firstFree?_of_length_lt (h : M.entries.length < count) :
    ∃ n, M.firstFree? lo count = some n := by
  apply Option.isSome_iff_exists.mp
  by_contra hnone
  rw [Option.not_isSome_iff_eq_none, firstFree?, List.find?_eq_none] at hnone
  have hsub : List.range' lo count ⊆ M.values := by
    intro i hi
    simpa using hnone i hi
  have hnodup : (List.range' lo count).Nodup := List.nodup_range'
  have hle := hnodup.length_le_of_subset hsub
  rw [List.length_range', values, List.length_map] at hle
  omega

/-- What is free first in a range is free first in every longer one. -/
theorem firstFree?_mono {count' : Nat} (hle : count ≤ count')
    (h : M.firstFree? lo count = some n) : M.firstFree? lo count' = some n := by
  obtain ⟨d, rfl⟩ := Nat.exists_eq_add_of_le hle
  rw [firstFree?, ← List.range'_append_1, List.find?_append, ← firstFree?, h, Option.some_or]

end Free

theorem find?_eq_some_iff_of_nodup {α β : Type*} [DecidableEq β] {f : α → β} {l : List α}
    (hnodup : (l.map f).Nodup) {a : α} {b : β} :
    l.find? (fun x => f x = b) = some a ↔ a ∈ l ∧ f a = b := by
  have hfound : ∀ x, l.find? (fun x => f x = b) = some x → x ∈ l ∧ f x = b := by
    intro x hx
    have hkey := List.find?_some hx
    rw [decide_eq_true_eq] at hkey
    exact ⟨List.mem_of_find?_eq_some hx, hkey⟩
  refine ⟨hfound a, ?_⟩
  intro hmatch
  obtain ⟨hmem, rfl⟩ := hmatch
  cases hfind : l.find? (fun x => f x = f a) with
  | none =>
    rw [List.find?_eq_none] at hfind
    simpa using hfind a hmem
  | some x =>
    obtain ⟨hx, hkey⟩ := hfound x hfind
    rw [List.inj_on_of_nodup_map hnodup hx hmem hkey]

def holder? (M : Leases κ) (n : Nat) : Option κ :=
  (M.entries.find? fun lease => lease.2 = n).map Prod.fst

theorem holder?_eq_some {M : Leases κ} {k : κ} {n : Nat} :
    M.holder? n = some k ↔ (k, n) ∈ M.entries := by
  rw [holder?, Option.map_eq_some_iff]
  constructor
  · intro hsome
    obtain ⟨lease, hlease, rfl⟩ := hsome
    obtain ⟨hmem, rfl⟩ := (find?_eq_some_iff_of_nodup M.values_nodup).mp hlease
    exact hmem
  · intro h
    exact ⟨(k, n), (find?_eq_some_iff_of_nodup M.values_nodup).mpr ⟨h, rfl⟩, rfl⟩

section Assign

variable [DecidableEq κ]

def value? (M : Leases κ) (k : κ) : Option Nat :=
  (M.entries.find? fun lease => lease.1 = k).map Prod.snd

/-- One more lease, of a free number to a holder without one. -/
def insert (M : Leases κ) (k : κ) (n : Nat) (hkey : k ∉ M.keys) (hfree : n ∉ M.values) :
    Leases κ where
  entries := M.entries ++ [(k, n)]
  keys_nodup := by
    rw [List.map_append, List.nodup_append_comm]
    exact List.nodup_cons.mpr ⟨hkey, M.keys_nodup⟩
  values_nodup := by
    rw [List.map_append, List.nodup_append_comm]
    exact List.nodup_cons.mpr ⟨hfree, M.values_nodup⟩

/-- The holder keeps its number, or gets the least free one of the range if there is one. -/
def assign (M : Leases κ) (lo count : Nat) (k : κ) : Leases κ :=
  if hkey : k ∈ M.keys then M
  else
    match hfree : M.firstFree? lo count with
    | none => M
    | some n => M.insert k n hkey (firstFree?_spec hfree).1.2.2

variable {M : Leases κ} {k : κ} {n lo count : Nat}

theorem value?_eq_some : M.value? k = some n ↔ (k, n) ∈ M.entries := by
  rw [value?, Option.map_eq_some_iff]
  constructor
  · intro hsome
    obtain ⟨lease, hlease, rfl⟩ := hsome
    obtain ⟨hmem, rfl⟩ := (find?_eq_some_iff_of_nodup M.keys_nodup).mp hlease
    exact hmem
  · intro h
    exact ⟨(k, n), (find?_eq_some_iff_of_nodup M.keys_nodup).mpr ⟨h, rfl⟩, rfl⟩

theorem value?_eq_none : M.value? k = none ↔ k ∉ M.keys := by
  rw [Option.eq_none_iff_forall_ne_some, mem_keys, not_exists]
  simp only [ne_eq, value?_eq_some]

theorem assign_of_mem (h : k ∈ M.keys) : M.assign lo count k = M := dif_pos h

/-- With a set of holders no larger than the range, each of them can get a number. -/
theorem firstFree?_of_card_le {s : Finset κ} (hsub : ∀ k ∈ M.keys, k ∈ s) (hk : k ∈ s)
    (hkey : k ∉ M.keys) (hcard : s.card ≤ count) : ∃ n, M.firstFree? lo count = some n := by
  apply firstFree?_of_length_lt
  have hnodup : (k :: M.keys).Nodup := List.nodup_cons.mpr ⟨hkey, M.keys_nodup⟩
  calc M.entries.length < (k :: M.keys).length := by
        rw [List.length_cons, keys, List.length_map]
        exact Nat.lt_succ_self _
    _ = (k :: M.keys).toFinset.card := (List.toFinset_card_of_nodup hnodup).symm
    _ ≤ s.card := Finset.card_le_card fun x hx => by
        rcases List.mem_cons.mp (List.mem_toFinset.mp hx) with rfl | hx
        · exact hk
        · exact hsub x hx
    _ ≤ count := hcard

theorem entries_assign (hkey : k ∉ M.keys) (hfree : M.firstFree? lo count = some n) :
    (M.assign lo count k).entries = M.entries ++ [(k, n)] := by
  rw [assign, dif_neg hkey]
  split
  · rename_i hnone
    rw [hfree] at hnone
    cases hnone
  · rename_i i hsome
    rw [hfree] at hsome
    cases hsome
    rfl

theorem mem_keys_assign (hkey : k ∉ M.keys) (hfree : M.firstFree? lo count = some n) {k' : κ} :
    k' ∈ (M.assign lo count k).keys ↔ k' ∈ M.keys ∨ k' = k := by
  rw [keys, entries_assign hkey hfree, List.map_append, List.mem_append, ← keys]
  simp

theorem mem_values_assign (hkey : k ∉ M.keys) (hfree : M.firstFree? lo count = some n) {n' : Nat} :
    n' ∈ (M.assign lo count k).values ↔ n' ∈ M.values ∨ n' = n := by
  rw [values, entries_assign hkey hfree, List.map_append, List.mem_append, ← values]
  simp

end Assign

end Leases

end MiniNet.Lib
