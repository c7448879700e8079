import Mathlib.Data.Set.Finite.Lattice
import Mathlib.Order.Lattice.Nat
import MiniNet.ListBuckets

/-!
# The tables in memory

A node has its links and what it carries, a table begins with heads that are there all along, and
its entries are allocated and freed. `Holds` is the invariant of such a table: its lists are in
memory, and what is in use is the heads, the entries in the lists and whatever was in use beside the
table, so that nothing is lost and nothing is used that was freed.
-/

namespace MiniNet.ListHead

open Lib Lib.OnLinks

variable {α β γ : Type} {k : Nat}

structure Memory (α β : Type) where
  links : LinkHeap α
  data : α → β

abbrev OnMemory (α β γ : Type) := StateT (Memory α β) Option γ

/-! ### Access -/

namespace OnMemory

/-- What the functions of `list.h` do, and loops over lists, in view of what the nodes carry. -/
def onLinks (x : (α → β) → OnLinks α γ) : OnMemory α β γ := fun m =>
  (x m.data m.links).map fun r => (r.1, { m with links := r.2 })

def getEntry (a : α) : OnMemory α β β := onLinks fun data => getData data a

section Write

variable [DecidableEq α]

def modifyEntry (f : β → β) (a : α) : OnMemory α β Unit := fun m =>
  if m.links.live a then some ((), { m with data := Function.update m.data a (f (m.data a)) })
  else none

/-- `malloc`, and what is written to the block right after. -/
def malloc (alloc : LinkHeap α → α) (v : β) : OnMemory α β α := fun m =>
  some (alloc m.links,
    { links := m.links.allocate (alloc m.links)
      data := Function.update m.data (alloc m.links) v })

/-- A new entry at the end of a list. -/
def insertTail (alloc : LinkHeap α → α) (head : α) (v : β) : OnMemory α β α := do
  let n ← malloc alloc v
  onLinks fun _ => listAddTail n head
  return n

end Write

variable {x : OnMemory α β γ} {δ : Type} {f : γ → OnMemory α β δ} {m m' : Memory α β} {c : γ}

theorem bind_of_eq (hx : x m = some (c, m')) : (x >>= f) m = f c m' := by
  change (x m).bind (fun r => f r.1 r.2) = _
  rw [hx, Option.bind_some]

theorem bind_of_none (hx : x m = none) : (x >>= f) m = none := by
  change (x m).bind (fun r => f r.1 r.2) = _
  rw [hx, Option.bind_none]

theorem onLinks_of_eq {x : (α → β) → OnLinks α γ} {h' : LinkHeap α}
    (hx : x m.data m.links = some (c, h')) : onLinks x m = some (c, { m with links := h' }) := by
  rw [onLinks, hx, Option.map_some]

end OnMemory

/-- `malloc` gives a block that is not in use, as long as there is an end to those that are. -/
def FindsFree (alloc : LinkHeap α → α) : Prop :=
  ∀ h : LinkHeap α, {a | h.live a = true}.Finite → h.live (alloc h) = false

noncomputable def leastFree (h : LinkHeap ℕ) : ℕ := sInf {a | h.live a = false}

theorem findsFree_leastFree : FindsFree leastFree := by
  intro h hfinite
  obtain ⟨a, ha⟩ := hfinite.infinite_compl.nonempty
  rw [Set.mem_compl_iff, Set.mem_ofPred_eq, Bool.not_eq_true] at ha
  have hleast : leastFree h ∈ {a | h.live a = false} := Nat.sInf_mem ⟨a, ha⟩
  exact hleast

/-! ### The invariant -/

/-- The table `t` is in memory, on the nodes given; beside it, `others` are in use. -/
structure Holds (m : Memory α β) (heads : Fin k → α) (others : Finset α) (nodes : Fin k → List α)
    (t : Buckets k β) : Prop where
  stores : Stores m.links heads nodes m.data t
  inUse : ∀ a, m.links.live a = true ↔ a ∈ others ∨ ∃ b, a ∈ heads b :: nodes b
  beside : ∀ b, ∀ a ∈ heads b :: nodes b, a ∉ others

/-- The node is where the model has the entry. -/
def PointsTo (nodes : Fin k → List α) (a : α) (loc : Fin k × Nat) : Prop :=
  (nodes loc.1)[loc.2]? = some a

theorem PointsTo.addTail {nodes : Fin k → List α} {a : α} {loc : Fin k × Nat}
    (ha : PointsTo nodes a loc) (b : Fin k) (n : α) :
    PointsTo (Function.update nodes b (nodes b ++ [n])) a loc :=
  Buckets.get?_addTail ha

theorem Stores.head_not_mem {h : LinkHeap α} {heads : Fin k → α} {nodes : Fin k → List α}
    {entry : α → β} {t : Buckets k β} (hs : Stores h heads nodes entry t) (b c : Fin k) :
    heads b ∉ nodes c := by
  intro hmem
  by_cases hbc : b = c
  · subst hbc
    exact (List.nodup_cons.mp (hs.circular b).nodup).1 hmem
  · exact hs.apart b c hbc List.mem_cons_self (List.mem_cons_of_mem _ hmem)

/-- Without the first match in a list, all other nodes are still in theirs. -/
theorem Stores.mem_update_eraseP {h : LinkHeap α} {heads : Fin k → α} {nodes : Fin k → List α}
    {entry : α → β} {t : Buckets k β} (hs : Stores h heads nodes entry t) {p : α → Bool}
    {i : Fin k} {e : α} (hfind : (nodes i).find? p = some e) (c : Fin k) (a : α) :
    a ∈ heads c :: Function.update nodes i ((nodes i).eraseP p) c ↔
      a ∈ heads c :: nodes c ∧ a ≠ e := by
  obtain ⟨hp, xs, ys, hsplit, hxs⟩ := List.find?_eq_some_iff_append.mp hfind
  by_cases hci : c = i
  · subst hci
    have herase : (nodes c).eraseP p = xs ++ ys := by
      rw [hsplit, List.eraseP_append_right _ (by simpa using hxs), List.eraseP_cons_of_pos hp]
    have hgone : e ∉ heads c :: (xs ++ ys) := (hsplit ▸ hs.circular c).not_mem_rest
    rw [Function.update_self, herase, hsplit]
    grind
  · rw [Function.update_of_ne hci]
    refine (and_iff_left_of_imp fun ha => ?_).symm
    rintro rfl
    exact hs.apart c i hci ha (List.mem_cons_of_mem _ (List.mem_of_find?_eq_some hfind))

namespace Holds

variable {m : Memory α β} {heads : Fin k → α} {others : Finset α} {nodes : Fin k → List α}
  {t : Buckets k β} {b : Fin k}

theorem finite (hm : Holds m heads others nodes t) : {a | m.links.live a = true}.Finite := by
  have hset : {a | m.links.live a = true}
      = ↑others ∪ ⋃ b, {a | a ∈ heads b :: nodes b} := by
    ext a
    simp only [Set.mem_ofPred_eq, hm.inUse, Set.mem_union, Finset.mem_coe, Set.mem_iUnion]
  rw [hset]
  exact others.finite_toSet.union (Set.finite_iUnion fun b => List.finite_toSet _)

theorem live (hm : Holds m heads others nodes t) {a : α} (ha : a ∈ nodes b) :
    m.links.live a = true :=
  (hm.stores.circular b).live a (List.mem_cons_of_mem _ ha)

theorem length_lt (hm : Holds m heads others nodes t) {fuel : Nat}
    (hfuel : ∀ b, (t b).length < fuel) (b : Fin k) : (nodes b).length < fuel := by
  rw [← List.length_map m.data, hm.stores.entries]
  exact hfuel b

theorem not_mem_of_free (hm : Holds m heads others nodes t) {n : α}
    (hfree : m.links.live n = false) : n ∉ others ∧ ∀ b, n ∉ heads b :: nodes b := by
  have hnot : ¬ (n ∈ others ∨ ∃ b, n ∈ heads b :: nodes b) := by
    rw [← hm.inUse, hfree]
    exact Bool.false_ne_true
  exact ⟨fun h => hnot (.inl h), fun b h => hnot (.inr ⟨b, h⟩)⟩

/-! ### Where an entry is -/

theorem pointsTo_new (hm : Holds m heads others nodes t) (b : Fin k) (n : α) :
    PointsTo (Function.update nodes b (nodes b ++ [n])) n (b, (t b).length) := by
  rw [← hm.stores.entries, List.length_map]
  exact Buckets.get?_addTail_self nodes b n

/-! ### Access to an entry -/

theorem get?_eq (hm : Holds m heads others nodes t) {a : α} {loc : Fin k × Nat}
    (ha : PointsTo nodes a loc) : Buckets.get? t loc = some (m.data a) := by
  rw [Buckets.get?, ← hm.stores.entries, List.getElem?_map, ha, Option.map_some]

theorem getEntry (hm : Holds m heads others nodes t) {a : α} {loc : Fin k × Nat}
    (ha : PointsTo nodes a loc) : OnMemory.getEntry a m = some (m.data a, m) :=
  OnMemory.onLinks_of_eq (getData_of_live _ (hm.live (List.mem_of_getElem? ha)))

section Write

variable [DecidableEq α]

/-- Lists of nodes of which one is written to. -/
theorem map_update {xs : List α} (hnodup : xs.Nodup) {a : α} {i : Nat} (ha : xs[i]? = some a)
    (data : α → β) (f : β → β) :
    xs.map (Function.update data a (f (data a))) = (xs.map data).modify i f := by
  apply List.ext_getElem?
  intro j
  rw [List.getElem?_map, List.getElem?_modify, List.getElem?_map]
  cases hj : xs[j]? with
  | none => rfl
  | some x =>
    by_cases hij : i = j
    · subst hij
      obtain rfl := Option.some.inj (hj.symm.trans ha)
      simp
    · have hne : x ≠ a := by
        rintro rfl
        have hi := (List.getElem?_eq_some_iff.mp ha).1
        exact hij ((List.getElem?_inj hi hnodup).mp (ha.trans hj.symm))
      simp [hij, hne]

theorem modifyEntry (hm : Holds m heads others nodes t) {a : α} {loc : Fin k × Nat}
    (ha : PointsTo nodes a loc) (f : β → β) :
    ∃ m', OnMemory.modifyEntry f a m = some ((), m') ∧
      Holds m' heads others nodes (Buckets.modifyAt t loc f) := by
  have hmem : a ∈ nodes loc.1 := List.mem_of_getElem? ha
  refine ⟨_, if_pos (hm.live hmem), ⟨hm.stores.circular, fun c => ?_, hm.stores.apart⟩,
    hm.inUse, hm.beside⟩
  by_cases hc : c = loc.1
  · subst hc
    have hnodup := (List.nodup_cons.mp (hm.stores.circular loc.1).nodup).2
    rw [Buckets.modifyAt, Function.update_self, ← hm.stores.entries]
    exact map_update hnodup ha m.data f
  · rw [Buckets.modifyAt, Function.update_of_ne hc, ← hm.stores.entries]
    refine List.map_congr_left fun x hx => Function.update_of_ne ?_ _ _
    rintro rfl
    exact hm.stores.apart c loc.1 hc (List.mem_cons_of_mem _ hx) (List.mem_cons_of_mem _ hmem)

/-! ### A new entry -/

/-- A block that is allocated and not linked. -/
theorem malloc (hm : Holds m heads others nodes t) {alloc : LinkHeap α → α}
    (halloc : FindsFree alloc) (v : β) :
    ∃ n m', OnMemory.malloc alloc v m = some (n, m') ∧ m.links.live n = false ∧ n ∉ others ∧
      Holds m' heads (insert n others) nodes t := by
  have hfree := halloc m.links hm.finite
  obtain ⟨hother, hnew⟩ := hm.not_mem_of_free hfree
  have hne : ∀ c, ∀ a ∈ heads c :: nodes c, a ≠ alloc m.links := fun c a ha =>
    ne_of_mem_of_not_mem ha (hnew c)
  refine ⟨_, _, rfl, hfree, hother, ⟨fun c => ?_, fun c => ?_, hm.stores.apart⟩, fun a => ?_,
    fun b a ha => ?_⟩
  · exact (hm.stores.circular c).congr fun a ha => LinkHeap.same_allocate (hne c a ha)
  · rw [← hm.stores.entries]
    exact List.map_congr_left fun a ha =>
      Function.update_of_ne (hne c a (List.mem_cons_of_mem _ ha)) _ _
  · have hold := hm.inUse a
    have happly : (m.links.allocate (alloc m.links)).live a
        = if a = alloc m.links then true else m.links.live a := Function.update_apply ..
    rw [happly, Finset.mem_insert, or_assoc]
    by_cases han : a = alloc m.links
    · simp [han]
    · rw [if_neg han, hold, or_iff_right han]
  · rw [Finset.mem_insert, not_or]
    exact ⟨hne b a ha, hm.beside b a ha⟩

theorem insertTail (hm : Holds m heads others nodes t) {alloc : LinkHeap α → α}
    (halloc : FindsFree alloc) (b : Fin k) (v : β) :
    ∃ n m', OnMemory.insertTail alloc (heads b) v m = some (n, m') ∧
      Holds m' heads others (Function.update nodes b (nodes b ++ [n])) (Buckets.addTail t b v) := by
  obtain ⟨n, m₁, hmalloc, hfree, hother, hm₁⟩ := hm.malloc halloc v
  obtain ⟨-, hnew⟩ := hm.not_mem_of_free hfree
  have hdata : m₁.data n = v := by
    obtain ⟨rfl, rfl⟩ := Prod.mk.inj (Option.some.inj hmalloc)
    exact Function.update_self ..
  have hlive : m₁.links.live n = true := (hm₁.inUse n).mpr (.inl (Finset.mem_insert_self n others))
  obtain ⟨h', hadd, hsame, hs'⟩ := hm₁.stores.addTail hnew hlive b
  rw [hdata] at hs'
  have hmem : ∀ a c, a ∈ heads c :: Buckets.addTail nodes b n c ↔
      a ∈ heads c :: nodes c ∨ c = b ∧ a = n := by
    intro a c
    rw [List.mem_cons, Buckets.mem_addTail, List.mem_cons, or_assoc]
  refine ⟨n, { m₁ with links := h' }, ?_, hs', fun a => ?_, fun c a ha => ?_⟩
  · rw [OnMemory.insertTail, OnMemory.bind_of_eq hmalloc,
      OnMemory.bind_of_eq (OnMemory.onLinks_of_eq hadd)]
    rfl
  · have hold := hm₁.inUse a
    rw [Finset.mem_insert, or_assoc, or_comm, or_assoc, ← hsame] at hold
    rw [hold]
    refine or_congr_right ?_
    refine Iff.trans ?_ (exists_congr fun c => (hmem a c).symm)
    rw [exists_or, exists_eq_left]
  · obtain hold | ⟨-, rfl⟩ := (hmem a c).mp ha
    · exact hm.beside c a hold
    · exact hother

end Write

/-! ### Loops -/

/-- What a lookup in one list finds is what the model finds. -/
theorem find?_findIn (hm : Holds m heads others nodes t) (b : Fin k) (q : β → Bool) :
    Option.Rel (PointsTo nodes) ((nodes b).find? (q ∘ m.data)) (Buckets.findIn t b q) := by
  have hindex : (t b).findIdx? q = (nodes b).findIdx? (q ∘ m.data) := by
    rw [← hm.stores.entries, List.findIdx?_map]
  rw [Buckets.findIn, hindex, List.find?_eq_bind_findIdx?_getElem?]
  cases hi : (nodes b).findIdx? (q ∘ m.data) with
  | none => exact .none
  | some i =>
    have hlt := (List.findIdx?_eq_some_iff_getElem.mp hi).1
    rw [Option.bind_some, List.getElem?_eq_getElem hlt]
    exact .some (List.getElem?_eq_getElem hlt)

section Loops

variable [DecidableEq α]

/-- A lookup in one list. -/
theorem find (hm : Holds m heads others nodes t) (b : Fin k) (q : β → Bool) {fuel : Nat}
    (hfuel : ∀ b, (t b).length < fuel) :
    ∃ r, OnMemory.onLinks (fun data =>
        listForEachEntryReturn (heads b) (returnIf (q ∘ data) pure) fuel) m = some (r, m) ∧
      Option.Rel (PointsTo nodes) r (Buckets.findIn t b q) := by
  refine ⟨_, ?_, hm.find?_findIn b q⟩
  apply OnMemory.onLinks_of_eq
  rw [listForEachEntryReturn_eq (hm.stores.circular b) _ _ (hm.length_lt hfuel b)]
  cases (nodes b).find? (q ∘ m.data) with
  | none => rfl
  | some a => rfl

/-- All entries that are due are taken out and freed. -/
theorem sweep (hm : Holds m heads others nodes t) (due : β → Bool) {fuel : Nat}
    (hfuel : ∀ b, (t b).length < fuel) :
    ∃ m', OnMemory.onLinks (fun data => sweepLists heads (due ∘ data) fuel (List.finRange k)) m
        = some ((), m') ∧ m'.data = m.data ∧
      Holds m' heads others (fun b => (nodes b).filter fun a => !due (m.data a))
        fun b => (t b).filter fun x => !due x := by
  obtain ⟨h', hsweep, hlive, hs'⟩ := hm.stores.sweepAll due (hm.length_lt hfuel)
  refine ⟨_, OnMemory.onLinks_of_eq hsweep, rfl, hs', fun a => ?_, fun b a ha => ?_⟩
  · have hold := hm.inUse a
    have hhead := fun b c => hm.stores.head_not_mem b c
    rw [hlive, hold]
    constructor
    · rintro ⟨hother | ⟨b, hb⟩, hkept⟩
      · exact .inl hother
      · refine .inr ⟨b, ?_⟩
        rcases List.mem_cons.mp hb with rfl | hb
        · exact List.mem_cons_self
        · exact List.mem_cons_of_mem _ (List.mem_filter.mpr ⟨hb, by rw [hkept b hb, Bool.not_false]⟩)
    · rintro (hother | ⟨b, hb⟩)
      · exact ⟨.inl hother, fun b hb => absurd hother (hm.beside b a (List.mem_cons_of_mem _ hb))⟩
      · rcases List.mem_cons.mp hb with rfl | hb
        · exact ⟨.inr ⟨b, List.mem_cons_self⟩, fun c hc => absurd hc (hhead b c)⟩
        · obtain ⟨hmem, hkept⟩ := List.mem_filter.mp hb
          exact ⟨.inr ⟨b, List.mem_cons_of_mem _ hmem⟩, fun _ _ => by simpa using hkept⟩
  · refine hm.beside b a ?_
    rcases List.mem_cons.mp ha with rfl | ha
    · exact List.mem_cons_self
    · exact List.mem_cons_of_mem _ (List.mem_of_mem_filter ha)

/-- A lookup in all lists. -/
theorem findAll (hm : Holds m heads others nodes t) (q : β → Bool) (f : β → γ) {fuel : Nat}
    (hfuel : ∀ b, (t b).length < fuel) :
    OnMemory.onLinks (fun data => returnLists heads (returnIf (q ∘ data) (getData (f ∘ data))) fuel
        (List.finRange k)) m
      = some (((Buckets.scan t).find? q).map f, m) := by
  have hfirst := hm.stores.map_firstNode q (List.finRange k)
  have hscan := congrArg (Option.map fun x : Fin k × β => x.2) hfirst
  rw [List.map_findSome?, Option.map_map] at hscan
  simp only [Option.map_map, Function.comp_def, Option.map_id'] at hscan
  rw [Buckets.findSome?_find?] at hscan
  apply OnMemory.onLinks_of_eq
  rw [hm.stores.returnLists_eq _ _ (hm.length_lt hfuel), ← hscan]
  cases hnode : firstNode nodes (q ∘ m.data) (List.finRange k) with
  | none =>
    rw [show (fun x => q (m.data x)) = q ∘ m.data from rfl, hnode]
    rfl
  | some x =>
    have hmem := List.mem_of_find?_eq_some (find?_of_firstNode hnode)
    rw [show (fun x => q (m.data x)) = q ∘ m.data from rfl, hnode]
    dsimp only
    rw [getData_of_live _ (hm.live hmem)]
    rfl

/-- The first entry of all that matches is taken out and freed. -/
theorem deleteFirst (hm : Holds m heads others nodes t) (q : β → Bool) (f : β → γ) {fuel : Nat}
    (hfuel : ∀ b, (t b).length < fuel) :
    ∃ r m' nodes', OnMemory.onLinks (fun data => returnLists heads (returnIf (q ∘ data) fun e => do
        let r ← getData (f ∘ data) e
        listDeleteEntry e
        free e
        return r) fuel (List.finRange k)) m = some (r, m') ∧
      match (List.finRange k).findSome? fun i => ((t i).find? q).map fun x => (i, x) with
      | none => r = none ∧ Holds m' heads others nodes' t
      | some (i, x) =>
        r = some (f x) ∧ Holds m' heads others nodes' (Function.update t i ((t i).eraseP q)) := by
  have hfirst := hm.stores.map_firstNode q (List.finRange k)
  have hreturn := hm.stores.returnLists_eq (q ∘ m.data) (fun e => do
    let r ← getData (f ∘ m.data) e
    listDeleteEntry e
    free e
    return r) (hm.length_lt hfuel) (List.finRange k)
  rw [← hfirst]
  cases hnode : firstNode nodes (q ∘ m.data) (List.finRange k) with
  | none =>
    rw [hnode] at hreturn
    exact ⟨none, m, nodes, OnMemory.onLinks_of_eq hreturn, rfl, hm⟩
  | some x =>
    obtain ⟨i, e⟩ := x
    have hfind := find?_of_firstNode hnode
    have hmem : e ∈ nodes i := List.mem_of_find?_eq_some hfind
    obtain ⟨h', hdelete, hlive, hs'⟩ := hm.stores.deleteFirst hfind
    rw [hnode] at hreturn
    dsimp only at hreturn
    rw [OnLinks.bind_of_eq (getData_of_live _ (hm.live hmem)), ← bind_assoc,
      OnLinks.bind_of_eq hdelete] at hreturn
    have hrest := hm.stores.mem_update_eraseP hfind
    refine ⟨_, _, _, OnMemory.onLinks_of_eq hreturn, rfl, hs', fun a => ?_, fun c a ha => ?_⟩
    · have hold := hm.inUse a
      rw [hlive, Function.update_apply]
      by_cases hae : a = e
      · subst hae
        simp only [hrest, if_true, ne_eq, not_true_eq_false, and_false, exists_false, or_false]
        exact iff_of_false Bool.false_ne_true (hm.beside i _ (List.mem_cons_of_mem _ hmem))
      · rw [if_neg hae, hold]
        simp only [hrest, hae, ne_eq, not_false_eq_true, and_true]
    · exact hm.beside c a ((hrest c a).mp ha).1

end Loops

end Holds

/-! ### Loops that give something back

The sweeps of the NAT free the port of an entry before they free the entry: beside the list, a state
goes through the rounds. -/

section Giving

variable {σ : Type}

/-- What is given back when the loop has gone through these. -/
def given (p : α → Bool) (f : α → γ) (give : σ → γ → σ) (visited : List α) (s : σ) : σ :=
  ((visited.filter p).map f).foldl give s

theorem given_append (p : α → Bool) (f : α → γ) (give : σ → γ → σ) (xs ys : List α) (s : σ) :
    given p f give ys (given p f give xs s) = given p f give (xs ++ ys) s := by
  rw [given, given, given, ← List.foldl_append, ← List.map_append, ← List.filter_append]

theorem given_map (p : β → Bool) (f : β → γ) (give : σ → γ → σ) (entry : α → β) (xs : List α)
    (s : σ) : given (p ∘ entry) (f ∘ entry) give xs s = given p f give (xs.map entry) s := by
  rw [given, given, List.filter_map, List.map_map]

variable [DecidableEq α]

def eachSafeGiving (head : α) (body : α → σ → OnLinks α σ) : Nat → α → α → σ → OnLinks α σ
  | 0, _, _, _ => failure
  | fuel + 1, pos, q, s =>
    if pos = head then return s
    else do
      let s ← body pos s
      eachSafeGiving head body fuel q (← getNext q) s

def listForEachEntrySafeGiving (head : α) (body : α → σ → OnLinks α σ) (fuel : Nat) (s : σ) :
    OnLinks α σ := do
  let pos ← getNext head
  eachSafeGiving head body fuel pos (← getNext pos) s

/-- What the entry holds is given back, then it is deleted and freed. -/
def releaseIf (p : α → Bool) (f : α → γ) (give : σ → γ → σ) (entry : α) (s : σ) :
    OnLinks α σ := do
  if ← getData p entry then
    let s := give s (← getData f entry)
    listDeleteEntry entry
    free entry
    return s
  return s

def sweepListsGiving (heads : Fin k → α) (body : α → σ → OnLinks α σ) (fuel : Nat) :
    List (Fin k) → σ → OnLinks α σ
  | [], s => return s
  | b :: l, s => do
    let s ← listForEachEntrySafeGiving (heads b) body fuel s
    sweepListsGiving heads body fuel l s

section Body

variable (p : α → Bool) (f : α → γ) (give : σ → γ → σ)

theorem releaseIf_eq (e : α) (s : σ) :
    releaseIf p f give e s = (fun _ => given p f give [e] s) <$> deleteIf p e := by
  funext h
  rw [map_apply, releaseIf, deleteIf]
  cases he : h.live e with
  | false =>
    rw [bind_of_none (getData_of_not_live p he), bind_of_none (getData_of_not_live p he)]
    rfl
  | true =>
    rw [bind_of_eq (getData_of_live p he), bind_of_eq (getData_of_live p he)]
    cases hp : p e with
    | false =>
      rw [given, List.filter_singleton, hp]
      rfl
    | true =>
      rw [if_pos rfl, if_pos rfl, bind_of_eq (getData_of_live f he), ← bind_assoc, given,
        List.filter_singleton, hp, bind_pure_comp, map_apply]
      rfl

/-- The loop does to the list what it does without. -/
theorem eachSafeGiving_eq (head : α) (fuel : Nat) (pos q : α) (s : σ) :
    eachSafeGiving head (releaseIf p f give) fuel pos q s
      = (fun visited => given p f give visited s) <$> eachSafe head (deleteIf p) fuel pos q := by
  induction fuel generalizing pos q s with
  | zero => rfl
  | succ fuel ih =>
    rw [eachSafeGiving, eachSafe]
    split
    · rfl
    · simp only [releaseIf_eq, ih, bind_map_left, map_bind, bind_pure_comp, Functor.map_map,
        given_append, List.singleton_append]

theorem listForEachEntrySafeGiving_eq (head : α) (fuel : Nat) (s : σ) :
    listForEachEntrySafeGiving head (releaseIf p f give) fuel s
      = (fun visited => given p f give visited s) <$>
        listForEachEntrySafe head (deleteIf p) fuel := by
  simp only [listForEachEntrySafeGiving, listForEachEntrySafe, eachSafeGiving_eq, map_bind]

end Body

/-- Bucket after bucket, what the due entries hold is given back in their order. -/
theorem Stores.sweepListsGiving {heads : Fin k → α} {entry : α → β} (due : β → Bool) (f : β → γ)
    (give : σ → γ → σ) {fuel : Nat} {l : List (Fin k)} (hl : l.Nodup) :
    ∀ {h h' : LinkHeap α} {nodes : Fin k → List α} {t : Buckets k β} (s : σ),
      Stores h heads nodes entry t → (∀ b, (nodes b).length < fuel) →
      ListHead.sweepLists heads (due ∘ entry) fuel l h = some ((), h') →
      ListHead.sweepListsGiving heads (releaseIf (due ∘ entry) (f ∘ entry) give) fuel l s h
        = some (given due f give (l.flatMap t) s, h') := by
  induction l with
  | nil =>
    intro h h' nodes t s _ _ hsweep
    obtain ⟨-, rfl⟩ := Prod.mk.inj (Option.some.inj hsweep)
    rfl
  | cons b l ih =>
    intro h h' nodes t s hs hfuel hsweep
    obtain ⟨hb, hl⟩ := List.nodup_cons.mp hl
    obtain ⟨h₁, hloop, -, hs₁⟩ := hs.deleteLoop due (hfuel b)
    have hgiving : listForEachEntrySafeGiving (heads b)
        (releaseIf (due ∘ entry) (f ∘ entry) give) fuel s h
          = some (given due f give (t b) s, h₁) := by
      rw [listForEachEntrySafeGiving_eq, map_apply, hloop, Option.map_some, given_map, hs.entries]
    have hswept : ((nodes b).filter fun a => !due (entry a)).length < fuel :=
      Nat.lt_of_le_of_lt (List.length_filter_le _ _) (hfuel b)
    have hrest := ih hl (given due f give (t b) s) hs₁
      ((Function.forall_update_iff nodes fun _ xs => xs.length < fuel).mpr
        ⟨hswept, fun c _ => hfuel c⟩) ((bind_of_eq hloop).symm.trans hsweep)
    rw [Buckets.flatMap_update_of_not_mem _ hb, given_append] at hrest
    exact (bind_of_eq hgiving).trans hrest

/-- All entries that are due are taken out and freed, and what they hold is given back. -/
theorem Holds.sweepGiving {m : Memory α β} {heads : Fin k → α} {others : Finset α}
    {nodes : Fin k → List α} {t : Buckets k β} (hm : Holds m heads others nodes t)
    (due : β → Bool) (f : β → γ) (give : σ → γ → σ) (s : σ) {fuel : Nat}
    (hfuel : ∀ b, (t b).length < fuel) :
    ∃ m' nodes', OnMemory.onLinks (fun data => ListHead.sweepListsGiving heads
        (releaseIf (due ∘ data) (f ∘ data) give) fuel (List.finRange k) s) m
        = some (given due f give (Buckets.scan t) s, m') ∧
      Holds m' heads others nodes' fun b => (t b).filter fun x => !due x := by
  obtain ⟨m', hsweep, -, hm'⟩ := hm.sweep due hfuel
  obtain ⟨⟨_, h'⟩, hlists, heq⟩ := Option.map_eq_some_iff.mp hsweep
  obtain ⟨-, rfl⟩ := Prod.mk.inj heq
  refine ⟨_, _, OnMemory.onLinks_of_eq ?_, hm'⟩
  exact Stores.sweepListsGiving due f give (List.nodup_finRange k) s hm.stores
    (hm.length_lt hfuel) hlists

end Giving

/-! ### The start -/

/-- What a program finds in use when it starts: its list heads, and what else there is. -/
structure Starts (heads : Fin k → α) (others : Finset α) (m : Memory α β) : Prop where
  distinct : Function.Injective heads
  inUse : ∀ a, m.links.live a = true ↔ a ∈ others ∨ ∃ b, a = heads b
  beside : ∀ b, heads b ∉ others

section Init

variable [DecidableEq α]

def initLists (heads : Fin k → α) : List (Fin k) → OnLinks α Unit
  | [] => return ()
  | b :: l => do
    initListHead (heads b)
    initLists heads l

theorem initLists_leaves {heads : Fin k → α} (hheads : Function.Injective heads)
    (l : List (Fin k)) : ∀ {h : LinkHeap α}, (∀ b, h.live (heads b) = true) →
      ∃ h', initLists heads l h = some ((), h') ∧ (∀ a, h'.live a = h.live a) ∧
        ∀ b, b ∈ l ∨ h.Circular ↑[heads b] → h'.Circular ↑[heads b] := by
  induction l with
  | nil =>
    intro h _
    exact ⟨h, rfl, fun _ => rfl, fun b hb => hb.resolve_left List.not_mem_nil⟩
  | cons b l ih =>
    intro h hlive
    obtain ⟨h₁, hinit, hc, hsame⟩ := initListHead_leaves (hlive b)
    have hlive₁ : ∀ a, h₁.live a = h.live a := by
      intro a
      by_cases ha : a = heads b
      · subst ha
        rw [hc.live _ List.mem_cons_self, hlive b]
      · exact (hsame a (by simpa using ha)).live
    obtain ⟨h', hrest, hlive', hc'⟩ := ih fun b => (hlive₁ _).trans (hlive b)
    refine ⟨h', (OnLinks.bind_of_eq hinit).trans hrest, fun a => (hlive' a).trans (hlive₁ a),
      fun c hcirc => hc' c ?_⟩
    by_cases hcb : c = b
    · subst hcb
      exact .inr hc
    · refine hcirc.imp (fun hmem => (List.mem_cons.mp hmem).resolve_left hcb) fun hold =>
        hold.congr fun a ha => hsame a ?_
      rw [Cycle.mem_coe_iff, List.mem_singleton] at ha
      rw [List.mem_singleton, ha]
      exact fun heq => hcb (hheads heq)

/-- The heads made empty lists. -/
theorem Starts.init {m : Memory α β} {heads : Fin k → α} {others : Finset α}
    (hstart : Starts heads others m) :
    ∃ m', OnMemory.onLinks (fun _ => initLists heads (List.finRange k)) m = some ((), m') ∧
      Holds m' heads others (fun _ => []) fun _ => [] := by
  obtain ⟨h', hinit, hlive', hc⟩ := initLists_leaves hstart.distinct (List.finRange k)
    fun b => (hstart.inUse (heads b)).mpr (.inr ⟨b, rfl⟩)
  refine ⟨_, OnMemory.onLinks_of_eq hinit, ⟨fun b => hc b (.inl (List.mem_finRange b)),
    fun _ => rfl, fun b c hbc => ?_⟩, fun a => ?_, fun b a ha => ?_⟩
  · rw [List.disjoint_singleton, List.mem_singleton]
    exact fun heq => hbc (hstart.distinct heq).symm
  · rw [hlive', hstart.inUse]
    simp only [List.mem_singleton]
  · rw [List.mem_singleton.mp ha]
    exact hstart.beside b

end Init

/-- Blocks are numbers: those below `k` are the heads, and one more is in use. -/
def firstMemory (k : Nat) (v : β) : Memory ℕ β where
  links := { next := id, prev := id, live := fun a => a ≤ k }
  data _ := v

theorem starts_firstMemory (k : Nat) (v : β) :
    Starts (fun b : Fin k => b.val) {k} (firstMemory k v) where
  distinct := Fin.val_injective
  inUse a := by
    simp only [firstMemory, decide_eq_true_eq, Finset.mem_singleton]
    rw [Nat.le_iff_lt_or_eq, or_comm]
    exact or_congr_right ⟨fun h => ⟨⟨a, h⟩, rfl⟩, fun ⟨b, hb⟩ => hb ▸ b.isLt⟩
  beside b := by
    rw [Finset.mem_singleton]
    exact b.isLt.ne

end MiniNet.ListHead
