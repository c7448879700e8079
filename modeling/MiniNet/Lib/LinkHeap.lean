import Mathlib.Data.List.Cycle
import Mathlib.Tactic.Common

/-!
# Circular lists in a heap

A heap of nodes with two links each. A node that has been freed may not be read, written or freed
again: that is `none`. A cycle of nodes is circular in the heap if each node links forward to the
one after it and that one back to it. Such a list begins anywhere, so it is enough to know what
happens to it in front of its first node (`Circular.insert`) and at it (`Circular.remove`).
-/

namespace MiniNet.Lib

structure LinkHeap (α : Type) where
  next : α → α
  prev : α → α
  live : α → Bool

namespace LinkHeap

variable {α : Type} [DecidableEq α]

def withNext (h : LinkHeap α) (a b : α) : LinkHeap α :=
  { h with next := Function.update h.next a b }

def withPrev (h : LinkHeap α) (a b : α) : LinkHeap α :=
  { h with prev := Function.update h.prev a b }

def release (h : LinkHeap α) (a : α) : LinkHeap α :=
  { h with live := Function.update h.live a false }

/-- The links of a new node are what is left in its memory. -/
def allocate (h : LinkHeap α) (a : α) : LinkHeap α :=
  { h with live := Function.update h.live a true }

end LinkHeap

abbrev OnLinks (α β : Type) := StateT (LinkHeap α) Option β

variable {α β γ : Type}

/-! ### Access -/

namespace OnLinks

def getNext (a : α) : OnLinks α α := fun h => if h.live a then some (h.next a, h) else none

def getPrev (a : α) : OnLinks α α := fun h => if h.live a then some (h.prev a, h) else none

/-- What the node carries beside its links. -/
def getData (f : α → β) (a : α) : OnLinks α β := fun h => if h.live a then some (f a, h) else none

section Write

variable [DecidableEq α]

def setNext (a b : α) : OnLinks α Unit := fun h =>
  if h.live a then some ((), h.withNext a b) else none

def setPrev (a b : α) : OnLinks α Unit := fun h =>
  if h.live a then some ((), h.withPrev a b) else none

def free (a : α) : OnLinks α Unit := fun h => if h.live a then some ((), h.release a) else none

end Write

variable {x : OnLinks α β} {f : β → OnLinks α γ} {h h' : LinkHeap α} {a : α}

theorem bind_of_eq {b : β} (hx : x h = some (b, h')) : (x >>= f) h = f b h' := by
  change (x h).bind (fun r => f r.1 r.2) = _
  rw [hx, Option.bind_some]

theorem bind_of_none (hx : x h = none) : (x >>= f) h = none := by
  change (x h).bind (fun r => f r.1 r.2) = _
  rw [hx, Option.bind_none]

theorem map_apply (g : β → γ) (x : OnLinks α β) (h : LinkHeap α) :
    (g <$> x) h = (x h).map fun r => (g r.1, r.2) := by
  change (x h).bind _ = _
  cases x h with
  | none => rfl
  | some r => rfl

theorem getNext_of_live (ha : h.live a = true) : getNext a h = some (h.next a, h) := if_pos ha

theorem getNext_of_not_live (ha : h.live a = false) : getNext a h = none :=
  if_neg (Bool.eq_false_iff.mp ha)

theorem getPrev_of_live (ha : h.live a = true) : getPrev a h = some (h.prev a, h) := if_pos ha

theorem getData_of_live (g : α → β) (ha : h.live a = true) : getData g a h = some (g a, h) :=
  if_pos ha

theorem getData_of_not_live (g : α → β) (ha : h.live a = false) : getData g a h = none :=
  if_neg (ha ▸ Bool.false_ne_true)

section Write

variable [DecidableEq α] {b : α}

theorem setNext_of_live (ha : h.live a = true) : setNext a b h = some ((), h.withNext a b) :=
  if_pos ha

theorem setPrev_of_live (ha : h.live a = true) : setPrev a b h = some ((), h.withPrev a b) :=
  if_pos ha

theorem free_of_live (ha : h.live a = true) : free a h = some ((), h.release a) := if_pos ha

end Write

end OnLinks

/-! ### Circular lists -/

namespace LinkHeap

/-- `a` links forward to `b` and `b` back to `a`. -/
def Linked (h : LinkHeap α) (a b : α) : Prop := h.next a = b ∧ h.prev b = a

instance [DecidableEq α] (h : LinkHeap α) (a b : α) : Decidable (h.Linked a b) :=
  inferInstanceAs (Decidable (_ ∧ _))

/-- The cycle is a circular list. -/
structure Circular (h : LinkHeap α) (c : Cycle α) : Prop where
  nodup : c.Nodup
  live : ∀ a ∈ c, h.live a = true
  linked : c.Chain h.Linked

/-- The node is as it was. -/
structure Same (h h' : LinkHeap α) (a : α) : Prop where
  next : h'.next a = h.next a
  prev : h'.prev a = h.prev a
  live : h'.live a = h.live a

theorem Same.rfl {h : LinkHeap α} {a : α} : Same h h a := ⟨Eq.refl _, Eq.refl _, Eq.refl _⟩

theorem Same.trans {h h' h'' : LinkHeap α} {a : α} (h₁ : Same h h' a) (h₂ : Same h' h'' a) :
    Same h h'' a :=
  ⟨h₂.next.trans h₁.next, h₂.prev.trans h₁.prev, h₂.live.trans h₁.live⟩

/-- A path stays one if only the link into it and the link out of it change. The link out leads to
a node that the path does not come to. -/
theorem isChain_of_same {h h' : LinkHeap α} {init : List α} {last c : α}
    (hpath : (init ++ [last]).IsChain h.Linked) (hlast : h.next last = c)
    (hc : c ∉ (init ++ [last]).tail)
    (hnext : ∀ x ∈ init ++ [last], x ≠ last → h'.next x = h.next x)
    (hprev : ∀ y ∈ (init ++ [last]).tail, h'.prev y = h.prev y) :
    (init ++ [last]).IsChain h'.Linked := by
  refine hpath.imp_of_mem_tail_imp fun x y hx hy hlink => ?_
  have hxlast : x ≠ last := by
    rintro rfl
    exact hc (hlast.symm.trans hlink.1 ▸ hy)
  rwa [Linked, hnext x hx hxlast, hprev y hy]

namespace Circular

variable {h h' : LinkHeap α} {a b n : α} {xs ys : List α}

theorem rotate {l m : List α} (hc : h.Circular ↑(l ++ m)) : h.Circular ↑(m ++ l) := by
  rwa [Cycle.coe_eq_coe.mpr List.isRotated_append]

/-- The list as it is seen from another of its nodes. -/
theorem from_member (hc : h.Circular ↑(a :: (xs ++ b :: ys))) :
    h.Circular ↑(b :: (ys ++ a :: xs)) :=
  hc.rotate (l := a :: xs)

theorem not_mem_rest (hc : h.Circular ↑(a :: (xs ++ b :: ys))) : b ∉ a :: (xs ++ ys) := by
  have hnodup : (b :: (ys ++ a :: xs)).Nodup := hc.from_member.nodup
  have hfirst := (List.nodup_cons.mp hnodup).1
  grind

theorem next_eq (hc : h.Circular ↑(a :: xs)) : h.next a = xs.headD a := by
  have hlinked := Cycle.chain_coe_cons _ _ _ |>.mp hc.linked
  cases xs with
  | nil => exact (List.isChain_cons_cons.mp hlinked).1.1
  | cons b xs => exact (List.isChain_cons_cons.mp hlinked).1.1

theorem prev_next (hc : h.Circular ↑(a :: xs)) : h.prev (h.next a) = a := by
  rw [hc.next_eq]
  have hlinked := Cycle.chain_coe_cons _ _ _ |>.mp hc.linked
  cases xs with
  | nil => exact (List.isChain_cons_cons.mp hlinked).1.2
  | cons b xs => exact (List.isChain_cons_cons.mp hlinked).1.2

theorem next_mem (hc : h.Circular ↑(a :: xs)) : h.next a ∈ a :: xs := by
  rw [hc.next_eq]
  cases xs with
  | nil => exact List.mem_cons_self
  | cons b xs => exact List.mem_cons_of_mem a List.mem_cons_self

theorem next_member (hc : h.Circular ↑(a :: (xs ++ b :: ys))) : h.next b = ys.headD a := by
  rw [hc.from_member.next_eq]
  cases ys with
  | nil => rfl
  | cons c ys => rfl

/-- The path from the first node to the last, and the link that closes it. -/
theorem path (hc : h.Circular ↑(a :: xs)) :
    ∃ init last, a :: xs = init ++ [last] ∧
      (init ++ [last]).IsChain h.Linked ∧ h.Linked last a := by
  obtain ⟨init, last, hsplit⟩ := List.eq_nil_or_concat' (a :: xs) |>.resolve_left nofun
  have hlinked := Cycle.chain_coe_cons _ _ _ |>.mp hc.linked
  rw [← List.cons_append, hsplit, List.append_assoc] at hlinked
  obtain ⟨hpath, hclose, -⟩ := List.isChain_append_cons_cons.mp hlinked
  exact ⟨init, last, hsplit, hpath, hclose⟩

theorem prev_mem (hc : h.Circular ↑(a :: xs)) : h.prev a ∈ a :: xs := by
  obtain ⟨init, last, hsplit, -, hclose⟩ := hc.path
  simp [hsplit, hclose.2]

/-- A list is circular in every heap that is the same at its nodes. -/
theorem congr {c : Cycle α} (hc : h.Circular c) (hsame : ∀ a ∈ c, Same h h' a) :
    h'.Circular c := by
  refine ⟨hc.nodup, fun a ha => (hsame a ha).live.trans (hc.live a ha), ?_⟩
  have hlinked := hc.linked
  induction c using Cycle.induction_on with
  | nil => exact Cycle.Chain.nil _
  | cons a xs _ =>
    rw [Cycle.chain_coe_cons] at hlinked ⊢
    refine hlinked.imp_of_mem_imp fun x y hx hy hlink => ?_
    have hmem : ∀ z ∈ a :: (xs ++ [a]), z ∈ a :: xs := by grind
    rwa [Linked, (hsame x (hmem x hx)).next, (hsame y (hmem y hy)).prev]

end Circular

section Change

variable [DecidableEq α]

/-- A new node between two others. -/
def link (h : LinkHeap α) (n p q : α) : LinkHeap α :=
  (((h.withPrev q n).withNext p n).withNext n q).withPrev n p

/-- The neighbours of a node linked to each other. -/
def unlink (h : LinkHeap α) (e : α) : LinkHeap α :=
  (h.withPrev (h.next e) (h.prev e)).withNext (h.prev e) (h.next e)

variable {h : LinkHeap α} {a b e n p q : α} {xs : List α}

theorem next_link (x : α) :
    (h.link n p q).next x = if x = n then q else if x = p then n else h.next x := by
  simp only [link, withNext, withPrev, Function.update_apply]

theorem prev_link (x : α) :
    (h.link n p q).prev x = if x = n then p else if x = q then n else h.prev x := by
  simp only [link, withNext, withPrev, Function.update_apply]

theorem next_unlink (x : α) :
    (h.unlink e).next x = if x = h.prev e then h.next e else h.next x := by
  simp only [unlink, withNext, withPrev, Function.update_apply]

theorem prev_unlink (x : α) :
    (h.unlink e).prev x = if x = h.next e then h.prev e else h.prev x := by
  simp only [unlink, withNext, withPrev, Function.update_apply]

theorem same_link (hn : a ≠ n) (hp : a ≠ p) (hq : a ≠ q) : Same h (h.link n p q) a := by
  refine ⟨?_, ?_, rfl⟩
  · rw [next_link, if_neg hn, if_neg hp]
  · rw [prev_link, if_neg hn, if_neg hq]

theorem same_unlink (hprev : a ≠ h.prev e) (hnext : a ≠ h.next e) : Same h (h.unlink e) a := by
  refine ⟨?_, ?_, rfl⟩
  · rw [next_unlink, if_neg hprev]
  · rw [prev_unlink, if_neg hnext]

theorem same_release (ha : a ≠ e) : Same h (h.release e) a :=
  ⟨rfl, rfl, Function.update_of_ne ha _ _⟩

theorem same_allocate (ha : a ≠ n) : Same h (h.allocate n) a :=
  ⟨rfl, rfl, Function.update_of_ne ha _ _⟩

/-- A node put in front of the first. -/
theorem Circular.insert (hc : h.Circular ↑(a :: xs)) (hn : n ∉ a :: xs) (hlive : h.live n = true) :
    (h.link n (h.prev a) a).Circular ↑(n :: a :: xs) := by
  have hnodup : (a :: xs).Nodup := hc.nodup
  obtain ⟨init, last, hsplit, hpath, hnext, hprev⟩ := hc.path
  have htail : (init ++ [last]).tail = xs := by rw [← hsplit, List.tail_cons]
  have hne : ∀ x ∈ a :: xs, x ≠ n := fun x hx => ne_of_mem_of_not_mem hx hn
  have hna : a ≠ n := hne a List.mem_cons_self
  have hnlast : last ≠ n := hne last (by simp [hsplit])
  refine ⟨List.nodup_cons.mpr ⟨hn, hnodup⟩, ?_, ?_⟩
  · exact List.forall_mem_cons.mpr ⟨hlive, hc.live⟩
  rw [Cycle.chain_coe_cons, List.cons_append, List.isChain_cons_cons, ← List.cons_append, hsplit,
    List.append_assoc, List.singleton_append, List.isChain_append_cons_cons, hprev]
  refine ⟨⟨?_, ?_⟩, ?_, ⟨?_, ?_⟩, List.isChain_singleton n⟩
  · rw [next_link, if_pos rfl]
  · rw [prev_link, if_neg hna, if_pos rfl]
  · have ha : a ∉ xs := (List.nodup_cons.mp hnodup).1
    refine isChain_of_same hpath hnext (htail ▸ ha) (fun x hx hxlast => ?_) fun y hy => ?_
    · rw [next_link, if_neg (hne x (hsplit ▸ hx)), if_neg hxlast]
    · rw [htail] at hy
      rw [prev_link, if_neg (hne y (List.mem_cons_of_mem a hy)),
        if_neg (ne_of_mem_of_not_mem hy ha)]
  · rw [next_link, if_neg hnlast, if_pos rfl]
  · rw [prev_link, if_pos rfl]

/-- The first node taken out, unless it is the only one. -/
theorem Circular.remove (hc : h.Circular ↑(e :: xs)) (hxs : xs ≠ []) :
    (h.unlink e).Circular ↑xs := by
  obtain ⟨a, xs, rfl⟩ := List.exists_cons_of_ne_nil hxs
  obtain ⟨he, hrest⟩ := List.nodup_cons.mp (show (e :: a :: xs).Nodup from hc.nodup)
  have hlinked := Cycle.chain_coe_cons _ _ _ |>.mp hc.linked
  rw [List.cons_append, List.isChain_cons_cons] at hlinked
  obtain ⟨⟨hnext, -⟩, hlinked⟩ := hlinked
  obtain ⟨init, last, hsplit⟩ := List.eq_nil_or_concat' (a :: xs) |>.resolve_left nofun
  have htail : (init ++ [last]).tail = xs := by rw [← hsplit, List.tail_cons]
  rw [← List.cons_append, hsplit, List.append_assoc] at hlinked
  obtain ⟨hpath, ⟨hlast, hprev⟩, -⟩ := List.isChain_append_cons_cons.mp hlinked
  refine ⟨hrest, fun x hx => hc.live x (List.mem_cons_of_mem e hx), ?_⟩
  rw [Cycle.chain_coe_cons, ← List.cons_append, hsplit, List.append_assoc, List.singleton_append,
    List.isChain_append_cons_cons]
  refine ⟨?_, ⟨?_, ?_⟩, List.isChain_singleton a⟩
  · have hexs : e ∉ xs := fun hmem => he (List.mem_cons_of_mem a hmem)
    refine isChain_of_same hpath hlast (htail ▸ hexs) (fun x _ hxlast => ?_) fun y hy => ?_
    · rw [next_unlink, hprev, if_neg hxlast]
    · rw [htail] at hy
      rw [prev_unlink, hnext, if_neg (ne_of_mem_of_not_mem hy (List.nodup_cons.mp hrest).1)]
  · rw [next_unlink, hprev, if_pos rfl, hnext]
  · rw [prev_unlink, hnext, if_pos rfl, hprev]

end Change

end LinkHeap

end MiniNet.Lib
