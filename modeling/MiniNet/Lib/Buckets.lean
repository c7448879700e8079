import Mathlib.Data.List.FinRange
import Mathlib.Logic.Function.Basic
import Mathlib.Tactic.Common

/-!
# Lists in buckets

A hash table as the code of this kind keeps it: an array of lists. A loop over all of it goes through
the buckets in order and through each from its head, which is one pass over `scan`; where a loop
stops at the first element that matches, `locate` is the bucket and the place it stops at.
-/

namespace MiniNet.Lib

abbrev Buckets (n : Nat) (α : Type*) := Fin n → List α

namespace Buckets

variable {n : Nat} {α : Type*}

/-- All elements, in the order in which a loop over all buckets meets them. -/
def scan (t : Buckets n α) : List α := (List.finRange n).flatMap t

def addTail (t : Buckets n α) (b : Fin n) (a : α) : Buckets n α :=
  Function.update t b (t b ++ [a])

def findIn (t : Buckets n α) (b : Fin n) (q : α → Bool) : Option (Fin n × Nat) :=
  ((t b).findIdx? q).map fun i => (b, i)

/-- The bucket and the place of the first element that matches. -/
def locate (t : Buckets n α) (q : α → Bool) : Option (Fin n × Nat) :=
  (List.finRange n).findSome? fun b => findIn t b q

def get? (t : Buckets n α) (loc : Fin n × Nat) : Option α := (t loc.1)[loc.2]?

def modifyAt (t : Buckets n α) (loc : Fin n × Nat) (f : α → α) : Buckets n α :=
  Function.update t loc.1 ((t loc.1).modify loc.2 f)

theorem mem_scan {t : Buckets n α} {a : α} : a ∈ scan t ↔ ∃ b, a ∈ t b := by
  simp only [scan, List.mem_flatMap, List.mem_finRange, true_and]

theorem scan_succ (t : Buckets (n + 1) α) :
    scan t = t 0 ++ ((List.finRange n).map Fin.succ).flatMap t := by
  rw [scan, List.finRange_succ, List.flatMap_cons]

theorem flatMap_update_of_not_mem {t : Buckets n α} {b : Fin n} {l : List (Fin n)}
    (entries : List α) (h : b ∉ l) : l.flatMap (Function.update t b entries) = l.flatMap t := by
  rw [List.flatMap_def, List.flatMap_def]
  congr 1
  exact List.map_congr_left fun c hc => Function.update_of_ne (ne_of_mem_of_not_mem hc h) _ _

theorem scan_eq_nil {t : Buckets n α} (h : ∀ b, t b = []) : scan t = [] := by
  rw [scan, List.flatMap_eq_nil_iff]
  exact fun b _ => h b

/-- With nothing in any other bucket, one bucket is all there is. -/
theorem scan_eq_of_rest {t : Buckets n α} {b : Fin n} (h : ∀ c, c ≠ b → t c = []) :
    scan t = t b := by
  have hall : ∀ l : List (Fin n), l.Nodup → l.flatMap t = if b ∈ l then t b else [] := by
    intro l hl
    induction l with
    | nil => rfl
    | cons c l ih =>
      obtain ⟨hc, hl⟩ := List.nodup_cons.mp hl
      rw [List.flatMap_cons, ih hl]
      by_cases hcb : c = b
      · subst hcb
        rw [if_neg hc, List.append_nil, if_pos (List.mem_cons_self ..)]
      · simp [h c hcb, Ne.symm hcb]
  rw [scan, hall _ (List.nodup_finRange n), if_pos (List.mem_finRange b)]

/-- Where one element is all that matches in a bucket and in the whole, no other bucket has a
match. -/
theorem filter_eq_singleton {t : Buckets n α} {b : Fin n} {a : α} {q : α → Bool} (ha : a ∈ t b)
    (hq : q a = true) (h : (scan t).filter q = [a]) :
    (t b).filter q = [a] ∧ ∀ c, c ≠ b → ∀ x ∈ t c, q x = false := by
  obtain ⟨l₁, l₂, hsplit⟩ := List.append_of_mem (List.mem_finRange b)
  rw [scan, hsplit, List.flatMap_append, List.flatMap_cons, List.filter_append,
    List.filter_append] at h
  have hmem : a ∈ (t b).filter q := List.mem_filter.mpr ⟨ha, hq⟩
  have hpos := List.length_pos_of_mem hmem
  have hlength := congrArg List.length h
  rw [List.length_append, List.length_append, List.length_singleton] at hlength
  have hbefore : (l₁.flatMap t).filter q = [] := List.length_eq_zero_iff.mp (by omega)
  have hafter : (l₂.flatMap t).filter q = [] := List.length_eq_zero_iff.mp (by omega)
  rw [hbefore, hafter, List.nil_append, List.append_nil] at h
  refine ⟨h, fun c hc x hx => ?_⟩
  have hother : c ∈ l₁ ∨ c ∈ l₂ := by
    have hall := List.mem_finRange c
    rw [hsplit, List.mem_append, List.mem_cons] at hall
    exact hall.imp_right fun hrest => hrest.resolve_left hc
  rcases hother with hl | hl
  · simpa using List.filter_eq_nil_iff.mp hbefore x (List.mem_flatMap.mpr ⟨c, hl, hx⟩)
  · simpa using List.filter_eq_nil_iff.mp hafter x (List.mem_flatMap.mpr ⟨c, hl, hx⟩)

theorem addTail_apply (t : Buckets n α) (b c : Fin n) (a : α) :
    addTail t b a c = t c ++ if c = b then [a] else [] := by
  by_cases hc : c = b
  · subst hc
    rw [addTail, Function.update_self, if_pos rfl]
  · rw [addTail, Function.update_of_ne hc, if_neg hc, List.append_nil]

theorem mem_addTail {t : Buckets n α} {b c : Fin n} {a x : α} :
    x ∈ addTail t b a c ↔ x ∈ t c ∨ (c = b ∧ x = a) := by
  by_cases hc : c = b
  · subst hc
    simp [addTail]
  · simp [addTail, hc]

theorem mem_scan_addTail {t : Buckets n α} {b : Fin n} {a x : α} :
    x ∈ scan (addTail t b a) ↔ x ∈ scan t ∨ x = a := by
  simp only [mem_scan, mem_addTail, exists_or, exists_and_right, exists_eq, true_and]

theorem length_addTail_le (t : Buckets n α) (b : Fin n) (a : α) (c : Fin n) :
    (addTail t b a c).length ≤ (t c).length + 1 := by
  by_cases hc : c = b
  · subst hc
    simp [addTail]
  · simp [addTail, hc]

theorem scan_addTail_perm (t : Buckets n α) (b : Fin n) (a : α) :
    (scan (addTail t b a)).Perm (a :: scan t) := by
  have hall : ∀ l : List (Fin n), l.Nodup → b ∈ l →
      (l.flatMap (addTail t b a)).Perm (a :: l.flatMap t) := by
    intro l hl hb
    induction l with
    | nil => exact absurd hb List.not_mem_nil
    | cons c l ih =>
      obtain ⟨hc, hl⟩ := List.nodup_cons.mp hl
      rw [List.flatMap_cons, List.flatMap_cons]
      by_cases hcb : c = b
      · subst hcb
        rw [addTail, flatMap_update_of_not_mem _ hc, Function.update_self, List.append_assoc,
          List.singleton_append]
        exact List.perm_middle
      · rw [addTail, Function.update_of_ne hcb]
        have hb : b ∈ l := (List.mem_cons.mp hb).resolve_left (Ne.symm hcb)
        exact ((ih hl hb).append_left (t c)).trans List.perm_middle
  exact hall _ (List.nodup_finRange n) (List.mem_finRange b)

theorem findSome?_find? (t : Buckets n α) (q : α → Bool) :
    ((List.finRange n).findSome? fun b => (t b).find? q) = (scan t).find? q :=
  List.find?_flatMap.symm

theorem locate_lt {t : Buckets n α} {q : α → Bool} {b : Fin n} {i : Nat}
    (h : locate t q = some (b, i)) : i < (t b).length := by
  obtain ⟨c, -, hc⟩ := List.exists_of_findSome?_eq_some h
  obtain ⟨j, hj, heq⟩ := Option.map_eq_some_iff.mp hc
  obtain ⟨rfl, rfl⟩ := Prod.mk.inj heq
  exact (List.findIdx?_eq_some_iff_getElem.mp hj).1

private theorem findSome?_bind {β γ δ : Type*} {f : β → Option γ} {g : γ → Option δ}
    (h : ∀ a b, f a = some b → (g b).isSome) (l : List β) :
    (l.findSome? fun a => (f a).bind g) = (l.findSome? f).bind g := by
  induction l with
  | nil => rfl
  | cons a l ih =>
    rw [List.findSome?_cons, List.findSome?_cons, ih]
    cases hfa : f a with
    | none =>
      rfl
    | some b =>
      obtain ⟨c, hc⟩ := Option.isSome_iff_exists.mp (h a b hfa)
      simp only [Option.bind_some, hc]

/-- The first match is where `locate` says. -/
theorem find?_scan_eq_locate (t : Buckets n α) (q : α → Bool) :
    (scan t).find? q = (locate t q).bind (get? t) := by
  rw [← findSome?_find?, locate, ← findSome?_bind]
  · simp only [List.find?_eq_bind_findIdx?_getElem?, findIn, Option.bind_map, Function.comp_def,
      get?]
  · intro b x hx
    obtain ⟨i, hi, rfl⟩ := Option.map_eq_some_iff.mp hx
    obtain ⟨hlt, -⟩ := List.findIdx?_eq_some_iff_getElem.mp hi
    rw [get?, List.getElem?_eq_getElem hlt]
    rfl

theorem findIn_some {t : Buckets n α} {b : Fin n} {q : α → Bool} {loc : Fin n × Nat}
    (h : findIn t b q = some loc) : ∃ a ∈ t b, q a = true ∧ get? t loc = some a := by
  obtain ⟨i, hi, rfl⟩ := Option.map_eq_some_iff.mp h
  obtain ⟨hlt, hq, -⟩ := List.findIdx?_eq_some_iff_getElem.mp hi
  exact ⟨_, List.getElem_mem hlt, hq, List.getElem?_eq_getElem hlt⟩

/-- The first match of one bucket is where `findIn` says. -/
theorem find?_eq_findIn (t : Buckets n α) (b : Fin n) (q : α → Bool) :
    (t b).find? q = (findIn t b q).bind (get? t) := by
  rw [List.find?_eq_bind_findIdx?_getElem?, findIn, Option.bind_map]
  rfl

theorem findIn_none {t : Buckets n α} {b : Fin n} {q : α → Bool} :
    findIn t b q = none ↔ ∀ a ∈ t b, q a = false := by
  rw [findIn, Option.map_eq_none_iff, List.findIdx?_eq_none_iff]

/-- A bucket that has a match whenever any bucket has one is the only one to look into. -/
theorem isSome_findIn {t : Buckets n α} {b : Fin n} {q : α → Bool}
    (h : ∀ a ∈ scan t, q a = true → ∃ x ∈ t b, q x = true) :
    (findIn t b q).isSome ↔ ∃ a ∈ scan t, q a = true := by
  constructor
  · intro hsome
    obtain ⟨loc, hloc⟩ := Option.isSome_iff_exists.mp hsome
    obtain ⟨a, ha, hq, -⟩ := findIn_some hloc
    exact ⟨a, mem_scan.mpr ⟨b, ha⟩, hq⟩
  · intro hex
    obtain ⟨a, ha, hq⟩ := hex
    obtain ⟨x, hx, hqx⟩ := h a ha hq
    rw [Option.isSome_iff_ne_none, ne_eq, findIn_none]
    intro hnone
    rw [hnone x hx] at hqx
    cases hqx

theorem get?_addTail {t : Buckets n α} {loc : Fin n × Nat} {a x : α} {b : Fin n}
    (h : get? t loc = some x) : get? (addTail t b a) loc = some x := by
  rw [get?] at h ⊢
  by_cases hb : loc.1 = b
  · subst hb
    rw [addTail, Function.update_self, List.getElem?_append_left, h]
    exact (List.getElem?_eq_some_iff.mp h).1
  · rw [addTail, Function.update_of_ne hb, h]

theorem get?_addTail_self (t : Buckets n α) (b : Fin n) (a : α) :
    get? (addTail t b a) (b, (t b).length) = some a := by
  rw [get?, addTail, Function.update_self, List.getElem?_concat_length]

theorem mem_modifyAt {t : Buckets n α} {loc : Fin n × Nat} {f : α → α} {b : Fin n} {x : α}
    (h : x ∈ modifyAt t loc f b) : ∃ a ∈ t b, x = a ∨ x = f a := by
  by_cases hb : b = loc.1
  · subst hb
    rw [modifyAt, Function.update_self] at h
    obtain ⟨i, hi, rfl⟩ := List.getElem_of_mem h
    rw [List.length_modify] at hi
    refine ⟨(t loc.1)[i], List.getElem_mem hi, ?_⟩
    rw [List.getElem_modify]
    split_ifs
    · exact .inr rfl
    · exact .inl rfl
  · rw [modifyAt, Function.update_of_ne hb] at h
    exact ⟨x, h, .inl rfl⟩

theorem mem_modifyAt_of_mem {t : Buckets n α} {loc : Fin n × Nat} {f : α → α} {b : Fin n} {a : α}
    (h : a ∈ t b) : ∃ x ∈ modifyAt t loc f b, x = a ∨ x = f a := by
  by_cases hb : b = loc.1
  · subst hb
    obtain ⟨i, hi, rfl⟩ := List.getElem_of_mem h
    have hlen : i < ((t loc.1).modify loc.2 f).length := by rwa [List.length_modify]
    refine ⟨((t loc.1).modify loc.2 f)[i], ?_, ?_⟩
    · rw [modifyAt, Function.update_self]
      exact List.getElem_mem hlen
    · rw [List.getElem_modify]
      split_ifs
      · exact .inr rfl
      · exact .inl rfl
  · rw [modifyAt, Function.update_of_ne hb]
    exact ⟨a, h, .inl rfl⟩

theorem modifyAt_addTail_self (t : Buckets n α) (b : Fin n) (a : α) (f : α → α) :
    modifyAt (addTail t b a) (b, (t b).length) f = addTail t b (f a) := by
  have hlast : (t b ++ [a]).modify (t b).length f = t b ++ [f a] := by
    rw [List.modify_eq_take_cons_drop (by simp)]
    simp
  rw [modifyAt, addTail, Function.update_self, hlast, Function.update_idem]
  rfl

theorem modifyAt_addTail {t : Buckets n α} {loc : Fin n × Nat} {x : α}
    (h : get? t loc = some x) (b : Fin n) (a : α) (f : α → α) :
    modifyAt (addTail t b a) loc f = addTail (modifyAt t loc f) b a := by
  have hlt : loc.2 < (t loc.1).length := (List.getElem?_eq_some_iff.mp h).1
  by_cases hb : loc.1 = b
  · subst hb
    have hmodify : (t loc.1 ++ [a]).modify loc.2 f = (t loc.1).modify loc.2 f ++ [a] := by
      apply List.ext_getElem?
      intro i
      grind
    rw [modifyAt, addTail, Function.update_self, hmodify, Function.update_idem, addTail, modifyAt,
      Function.update_self, Function.update_idem]
  · rw [modifyAt, addTail, Function.update_of_ne hb, addTail, modifyAt,
      Function.update_of_ne (Ne.symm hb), Function.update_comm hb]

theorem length_modifyAt (t : Buckets n α) (loc : Fin n × Nat) (f : α → α) (b : Fin n) :
    (modifyAt t loc f b).length = (t b).length := by
  by_cases hb : b = loc.1
  · subst hb
    rw [modifyAt, Function.update_self, List.length_modify]
  · rw [modifyAt, Function.update_of_ne hb]

/-! ### Views of the elements -/

/-- What `f` says of the elements, in the places they are in. -/
def map {β : Type*} (f : α → β) (t : Buckets n α) : Buckets n β := fun b => (t b).map f

section Map

variable {β : Type*} {g : α → β} {t : Buckets n α}

theorem scan_map : scan (map g t) = (scan t).map g := by
  rw [scan, scan, List.map_flatMap]
  rfl

theorem mem_scan_map {x : β} : x ∈ scan (map g t) ↔ ∃ a ∈ scan t, g a = x := by
  rw [scan_map, List.mem_map]

theorem map_addTail (b : Fin n) (a : α) : map g (addTail t b a) = addTail (map g t) b (g a) := by
  funext c
  by_cases hc : c = b
  · subst hc
    simp [map, addTail]
  · simp [map, addTail, hc]

/-- A modification that `g` does not see. -/
theorem map_modifyAt (loc : Fin n × Nat) {f : α → α} (h : ∀ a, g (f a) = g a) :
    map g (modifyAt t loc f) = map g t := by
  funext c
  by_cases hc : c = loc.1
  · subst hc
    apply List.ext_getElem?
    intro i
    rw [map, modifyAt, Function.update_self, map, List.getElem?_map, List.getElem?_modify,
      List.getElem?_map]
    cases h' : (t loc.1)[i]? with
    | none => rfl
    | some a =>
      by_cases hi : loc.2 = i
      · simp [hi, h]
      · simp [hi]
  · simp [map, modifyAt, hc]

end Map

private theorem flatMap_update_eraseP {t : Buckets n α} {q : α → Bool} {i : Fin n} {a : α}
    {l : List (Fin n)} (hl : l.Nodup)
    (hhit : (l.findSome? fun b => ((t b).find? q).map fun x => (b, x)) = some (i, a)) :
    l.flatMap (Function.update t i ((t i).eraseP q)) = (l.flatMap t).eraseP q := by
  induction l with
  | nil => cases hhit
  | cons b l ih =>
    obtain ⟨hb, hl⟩ := List.nodup_cons.mp hl
    rw [List.flatMap_cons, List.flatMap_cons]
    cases hfind : (t b).find? q with
    | none =>
      rw [List.findSome?_cons, hfind, Option.map_none] at hhit
      have hi : i ∈ l := by
        obtain ⟨c, hc, hci⟩ := List.exists_of_findSome?_eq_some hhit
        obtain ⟨x, -, hx⟩ := Option.map_eq_some_iff.mp hci
        exact (Prod.mk.inj hx).1 ▸ hc
      rw [Function.update_of_ne (ne_of_mem_of_not_mem hi hb).symm, ih hl hhit,
        List.eraseP_append_right _ (by simpa using hfind)]
    | some x =>
      rw [List.findSome?_cons, hfind, Option.map_some, Option.some.injEq, Prod.mk.injEq] at hhit
      obtain ⟨rfl, rfl⟩ := hhit
      rw [Function.update_self, flatMap_update_of_not_mem _ hb,
        List.eraseP_append_left (List.find?_some hfind) _ (List.mem_of_find?_eq_some hfind)]

/-- A loop that stops at the first match also knows the bucket. -/
theorem find?_with_bucket {t : Buckets n α} {q : α → Bool} {a : α} (h : (scan t).find? q = some a) :
    ∃ b, (t b).find? q = some a ∧
      ((List.finRange n).findSome? fun b => ((t b).find? q).map fun x => (b, x)) = some (b, a) := by
  set hit := (List.finRange n).findSome? fun b => ((t b).find? q).map fun x => (b, x) with hhit
  have hsnd : hit.map Prod.snd = some a := by
    rw [← h, ← findSome?_find?, hhit, List.map_findSome?]
    simp only [Option.map_map, Function.comp_def, Option.map_id']
  obtain ⟨⟨b, x⟩, hbx, rfl⟩ := Option.map_eq_some_iff.mp hsnd
  obtain ⟨c, -, hc⟩ := List.exists_of_findSome?_eq_some (hhit.symm.trans hbx)
  obtain ⟨y, hy, heq⟩ := Option.map_eq_some_iff.mp hc
  obtain ⟨rfl, rfl⟩ := Prod.mk.inj heq
  exact ⟨c, hy, hbx⟩

/-- The first match of the first bucket that has one is the first match of all. -/
theorem scan_update_eraseP {t : Buckets n α} {q : α → Bool} {i : Fin n} {a : α}
    (hhit : ((List.finRange n).findSome? fun b => ((t b).find? q).map fun x => (b, x))
      = some (i, a)) :
    scan (Function.update t i ((t i).eraseP q)) = (scan t).eraseP q :=
  flatMap_update_eraseP (List.nodup_finRange n) hhit

end Buckets

end MiniNet.Lib
