import Mathlib.Data.Finset.Card
import Mathlib.Data.List.Basic
import Mathlib.Data.List.Induction
import Mathlib.Tactic.Common

/-!
# Numbered lists

A list in which every place has a value: keys in the order in which they came, each with the value of
its place. The value may be the same for many places, and a key may come more than once; looking up a
key gives the value of its first place, and looking up a value the key at the first place that has it.
-/

namespace MiniNet.Lib

variable {κ ν : Type*}

def numbered (valueAt : Nat → ν) (S : List κ) : List (κ × ν) :=
  S.zipIdx.map fun x => (x.1, valueAt x.2)

section Numbered

variable {valueAt : Nat → ν} {S : List κ} {e : κ}

theorem numbered_snoc :
    numbered valueAt (S ++ [e]) = numbered valueAt S ++ [(e, valueAt S.length)] := by
  simp [numbered, List.zipIdx_append]

theorem getElem?_numbered (k : Nat) :
    (numbered valueAt S)[k]? = S[k]?.map fun e => (e, valueAt k) := by
  simp [numbered, Function.comp_def]

/-- The value of the first place that a key has. -/
theorem find?_key [DecidableEq κ] : (numbered valueAt S).find? (fun x => x.1 = e) =
    if e ∈ S then some (e, valueAt (S.idxOf e)) else none := by
  induction S using List.reverseRecOn with
  | nil => rfl
  | append_singleton S e' ih =>
    rw [numbered_snoc, List.find?_append, ih]
    by_cases he : e ∈ S
    · rw [if_pos he, Option.some_or, if_pos (List.mem_append_left _ he),
        List.idxOf_append_of_mem he]
    · rw [if_neg he, Option.none_or, List.find?_singleton]
      by_cases hee : e' = e
      · subst hee
        simp [List.idxOf_append_of_notMem he]
      · simp [he, hee, Ne.symm hee]

/-- The key at the first place that has the value. -/
theorem find?_value [DecidableEq ν] {v : ν} {x : κ × ν} :
    (numbered valueAt S).find? (fun x => x.2 = v) = some x ↔
      ∃ k, S[k]? = some x.1 ∧ valueAt k = v ∧ x.2 = v ∧ ∀ j < k, valueAt j ≠ v := by
  rw [List.find?_eq_some_iff_getElem]
  simp only [decide_eq_true_eq, Bool.not_eq_true', decide_eq_false_iff_not]
  constructor
  · rintro ⟨hxv, k, hk, hx, hbefore⟩
    have hget : S[k]?.map (fun e => (e, valueAt k)) = some x := by
      rw [← getElem?_numbered, List.getElem?_eq_getElem hk, hx]
    obtain ⟨e, he, rfl⟩ := Option.map_eq_some_iff.mp hget
    refine ⟨k, he, hxv, hxv, fun j hj => ?_⟩
    have hother := hbefore j hj
    simpa [numbered] using hother
  · rintro ⟨k, hk, hv, hxv, hbefore⟩
    have hget : (numbered valueAt S)[k]? = some x := by
      rw [getElem?_numbered, hk, Option.map_some, hv, ← hxv]
    obtain ⟨hlt, hx⟩ := List.getElem?_eq_some_iff.mp hget
    refine ⟨hxv, k, hlt, hx, fun j hj => ?_⟩
    have hother := hbefore j hj
    simpa [numbered] using hother

/-- With different values for the first `n` places and one more for all others, the value of a key
leads back to it when no more than `n` places come before its own. -/
theorem find?_value_back [DecidableEq κ] [DecidableEq ν] {n : Nat} {last : ν}
    (hinj : ∀ j < n, ∀ k < n, valueAt j = valueAt k → j = k)
    (hlast : ∀ k, n ≤ k → valueAt k = last) (hne : ∀ k < n, valueAt k ≠ last) (he : e ∈ S) :
    ((numbered valueAt S).find? fun x => x.2 = valueAt (S.idxOf e)).map (·.1) = some e ↔
      S.idxOf e ≤ n := by
  have hget : S[S.idxOf e]? = some e := List.getElem?_idxOf he
  constructor
  · intro hback
    by_contra hlt
    rw [Nat.not_le] at hlt
    obtain ⟨x, hfind, rfl⟩ := Option.map_eq_some_iff.mp hback
    obtain ⟨k, hk, hv, -, hbefore⟩ := find?_value.mp hfind
    rw [hlast _ hlt.le] at hv hbefore
    have hnk : n ≤ k := by
      by_contra hkn
      exact hne k (Nat.lt_of_not_le hkn) hv
    have hkn : k ≤ n := by
      by_contra hnk'
      exact hbefore n (Nat.lt_of_not_le hnk') (hlast n (Nat.le_refl n))
    obtain ⟨hlt', hx⟩ := List.getElem?_eq_some_iff.mp hk
    have hidx : ¬ k < S.idxOf x.1 := fun hkx => by
      have hother := List.not_of_lt_findIdx hkx
      simp [hx] at hother
    omega
  · intro hle
    have hfind : (numbered valueAt S).find? (fun x => x.2 = valueAt (S.idxOf e))
        = some (e, valueAt (S.idxOf e)) := by
      refine find?_value.mpr ⟨S.idxOf e, hget, rfl, rfl, fun j hj heq => ?_⟩
      rcases Nat.lt_or_ge (S.idxOf e) n with hlt | hge
      · exact hj.ne (hinj j (hj.trans hlt) _ hlt heq)
      · exact hne j (Nat.lt_of_lt_of_le hj hle) (heq.trans (hlast _ hge))
    rw [hfind, Option.map_some]

end Numbered

/-! ### Those who came first -/

section Firsts

variable [DecidableEq κ]

/-- Each once, in the order in which they came. -/
def firsts (l : List κ) : List κ := l.foldl (fun S e => if e ∈ S then S else S ++ [e]) []

variable {l : List κ} {e : κ}

theorem firsts_snoc : firsts (l ++ [e]) = if e ∈ firsts l then firsts l else firsts l ++ [e] := by
  rw [firsts, List.foldl_append]
  rfl

theorem mem_firsts : e ∈ firsts l ↔ e ∈ l := by
  induction l using List.reverseRecOn with
  | nil => exact Iff.rfl
  | append_singleton l x ih =>
    rw [firsts_snoc]
    split_ifs with hx
    · grind
    · grind

theorem nodup_firsts : (firsts l).Nodup := by
  induction l using List.reverseRecOn with
  | nil => exact List.nodup_nil
  | append_singleton l x ih =>
    rw [firsts_snoc]
    split_ifs with hx
    · exact ih
    · exact List.nodup_append.mpr ⟨ih, List.nodup_singleton x, by grind⟩

theorem length_firsts : (firsts l).length = l.toFinset.card := by
  rw [← List.toFinset_card_of_nodup nodup_firsts]
  congr 1
  ext x
  rw [List.mem_toFinset, mem_firsts, List.mem_toFinset]

theorem firsts_prefix (l l' : List κ) : firsts l <+: firsts (l ++ l') := by
  induction l' using List.reverseRecOn with
  | nil => rw [List.append_nil]
  | append_singleton l' x ih =>
    rw [← List.append_assoc, firsts_snoc]
    split_ifs with hx
    · exact ih
    · exact ih.trans (List.prefix_append _ _)

/-- The place of one is how many came before. -/
theorem idxOf_firsts (he : e ∈ l) :
    (firsts l).idxOf e = (l.takeWhile fun x => x ≠ e).toFinset.card := by
  obtain ⟨before, after, rfl, hnew⟩ := List.eq_append_cons_of_mem he
  have hbefore : (before ++ e :: after).takeWhile (fun x => x ≠ e) = before := by
    rw [List.takeWhile_append_of_pos fun x hx => decide_eq_true (ne_of_mem_of_not_mem hx hnew),
      List.takeWhile_cons]
    simp
  have hfirsts : firsts (before ++ [e]) = firsts before ++ [e] := by
    rw [firsts_snoc, if_neg fun h => hnew (mem_firsts.mp h)]
  obtain ⟨rest, hrest⟩ := firsts_prefix (before ++ [e]) after
  rw [List.append_assoc, List.singleton_append] at hrest
  rw [hbefore, ← length_firsts, ← hrest, hfirsts, List.append_assoc,
    List.idxOf_append_of_notMem fun h => hnew (mem_firsts.mp h), List.singleton_append,
    List.idxOf_cons_self, Nat.add_zero]

end Firsts

end MiniNet.Lib
