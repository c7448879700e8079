import Mathlib.Algebra.BigOperators.Fin
import Mathlib.Algebra.Group.Pi.Basic
import Mathlib.Data.BitVec
import Mathlib.Tactic.Abel
import MiniNet.Lib.Run
import MiniNet.SocketExp.Wire

/-!
# What the server prints

The threads of `server.c`: one for each worker, which receives a table, adds it to `ans` under the
lock and exits, and `main`, which creates them in order, joins the last one it created and prints
`ans`. Any of them may take the next step, down to the single cells of `ans` that are added to and
printed, as long as the lock and the join let it. `ans` is always the sum of what has been added so
far; the one thread that is joined need not be the last to add.
-/

namespace MiniNet.SocketExp

open Lib

/-! ### The threads -/

/-- Where a thread is in `handle_client`; in the locked section, the cell it adds to next. -/
inductive Worker
  | absent
  | started
  | received
  | adding (i : Nat)
  | unlocked
  | exited
  deriving DecidableEq

/-- Where `main` is: the thread it creates next, after the last of which it joins, or the cell it
prints next. -/
inductive MainThread
  | creating (index : Nat)
  | printing (k : Nat)
  deriving DecidableEq

/-- There are `n + 1` workers. `printed` is what has been printed for each letter. -/
structure Server (n : Nat) where
  main : MainThread
  worker : Fin (n + 1) → Worker
  locked : Bool
  ans : Table
  printed : Table

inductive Action (n : Nat)
  | create
  | recv (w : Fin (n + 1))
  | lock (w : Fin (n + 1))
  | add (w : Fin (n + 1))
  | unlock (w : Fin (n + 1))
  | exit (w : Fin (n + 1))
  | join
  | print

namespace Server

variable {n : Nat} (tables : Fin (n + 1) → Table)

def start (n : Nat) : Server n where
  main := .creating 0
  worker _ := .absent
  locked := false
  ans := 0
  printed := 0

def setWorker (s : Server n) (w : Fin (n + 1)) (pc : Worker) : Server n :=
  { s with worker := Function.update s.worker w pc }

def step (s : Server n) : Action n → Option (Server n)
  | .create =>
    match s.main with
    | .creating index =>
      if h : index < n + 1 then
        some { s.setWorker ⟨index, h⟩ .started with main := .creating (index + 1) }
      else none
    | .printing _ => none
  | .recv w => if s.worker w = .started then some (s.setWorker w .received) else none
  | .lock w =>
    if s.worker w = .received ∧ s.locked = false then
      some { s.setWorker w (.adding 0) with locked := true }
    else none
  | .add w =>
    match s.worker w with
    | .adding i =>
      if h : i < 26 then
        some { s.setWorker w (.adding (i + 1)) with
          ans := Function.update s.ans ⟨i, h⟩ (s.ans ⟨i, h⟩ + tables w ⟨i, h⟩) }
      else none
    | _ => none
  | .unlock w =>
    if s.worker w = .adding 26 then some { s.setWorker w .unlocked with locked := false } else none
  | .exit w => if s.worker w = .unlocked then some (s.setWorker w .exited) else none
  | .join =>
    if s.main = .creating (n + 1) ∧ s.worker (Fin.last n) = .exited then
      some { s with main := .printing 0 }
    else none
  | .print =>
    match s.main with
    | .printing k =>
      if h : k < 26 then
        some { s with
          main := .printing (k + 1), printed := Function.update s.printed ⟨k, h⟩ (s.ans ⟨k, h⟩) }
      else none
    | .creating _ => none

/-- Whatever the threads do, when all is printed it is the sum of all tables. -/
def PrintsTotals : Prop :=
  ∀ s, Reaches (step tables) (start n) s → s.main = .printing 26 → s.printed = ∑ w, tables w

end Server

/-! ### `ans` is what has been added -/

/-- What a thread has added of its table. -/
def Worker.contribution (pc : Worker) (table : Table) : Table := fun j =>
  match pc with
  | .adding i => if j < i then table j else 0
  | .unlocked | .exited => table j
  | .absent | .started | .received => 0

theorem contribution_adding_zero (table : Table) : (Worker.adding 0).contribution table = 0 := rfl

theorem contribution_adding_succ (table : Table) {i : Nat} (h : i < 26) :
    (Worker.adding (i + 1)).contribution table
      = (Worker.adding i).contribution table + Pi.single ⟨i, h⟩ (table ⟨i, h⟩) := by
  funext j
  simp only [Worker.contribution, Pi.add_apply, Pi.single_apply, Fin.ext_iff]
  rcases Nat.lt_trichotomy j i with hlt | heq | hgt
  · rw [if_pos (by omega), if_pos hlt, if_neg (by omega), add_zero]
  · obtain rfl : j = ⟨i, h⟩ := Fin.ext heq
    simp
  · rw [if_neg (by omega), if_neg (by omega), if_neg (by omega), add_zero]

theorem contribution_adding_last (table : Table) :
    (Worker.adding 26).contribution table = table := by
  funext j
  exact if_pos j.isLt

theorem update_add (ans : Table) (j : Fin 26) (v : BitVec 32) :
    Function.update ans j (ans j + v) = ans + Pi.single j v := by
  funext i
  by_cases hi : i = j
  · subst hi
    simp
  · simp [hi]

namespace Server

variable {n : Nat} {tables : Fin (n + 1) → Table} {s s' : Server n}

/-- A step moves one thread on, with what it adds, creates one, joins the last one or prints a
letter. -/
theorem step_cases {a : Action n} (h : step tables s a = some s') :
    (∃ w pc, s.worker w ≠ .absent ∧ s.worker w ≠ .exited ∧
      s'.main = s.main ∧ s'.printed = s.printed ∧ s'.worker = Function.update s.worker w pc ∧
      s'.ans + (s.worker w).contribution (tables w) = s.ans + pc.contribution (tables w)) ∨
    (∃ index, ∃ h : index < n + 1, s.main = .creating index ∧
      s' = { s.setWorker ⟨index, h⟩ .started with main := .creating (index + 1) }) ∨
    (s.worker (Fin.last n) = .exited ∧ s' = { s with main := .printing 0 }) ∨
    (∃ k, ∃ h : k < 26, s.main = .printing k ∧ s' = { s with
      main := .printing (k + 1),
      printed := Function.update s.printed ⟨k, h⟩ (s.ans ⟨k, h⟩) }) := by
  cases a with
  | create =>
    simp only [step] at h
    split at h
    · rename_i index hmain
      split at h
      · rename_i hindex
        exact .inr (.inl ⟨index, hindex, hmain, (Option.some.inj h).symm⟩)
      · cases h
    · cases h
  | recv w =>
    simp only [step, Option.ite_none_right_eq_some, Option.some.injEq] at h
    obtain ⟨hw, rfl⟩ := h
    exact .inl ⟨w, .received, by simp [hw], by simp [hw], rfl, rfl, rfl, by rw [hw]; rfl⟩
  | lock w =>
    simp only [step, Option.ite_none_right_eq_some, Option.some.injEq] at h
    obtain ⟨⟨hw, -⟩, rfl⟩ := h
    exact .inl ⟨w, .adding 0, by simp [hw], by simp [hw], rfl, rfl, rfl, by rw [hw]; rfl⟩
  | add w =>
    simp only [step] at h
    split at h
    · rename_i i hw
      split at h
      · rename_i hi
        obtain rfl := Option.some.inj h
        refine .inl ⟨w, .adding (i + 1), by simp [hw], by simp [hw], rfl, rfl, rfl, ?_⟩
        rw [hw, contribution_adding_succ _ hi, update_add, add_right_comm, add_assoc]
      · cases h
    · cases h
  | unlock w =>
    simp only [step, Option.ite_none_right_eq_some, Option.some.injEq] at h
    obtain ⟨hw, rfl⟩ := h
    refine .inl ⟨w, .unlocked, by simp [hw], by simp [hw], rfl, rfl, rfl, ?_⟩
    rw [hw, contribution_adding_last]
    rfl
  | exit w =>
    simp only [step, Option.ite_none_right_eq_some, Option.some.injEq] at h
    obtain ⟨hw, rfl⟩ := h
    exact .inl ⟨w, .exited, by simp [hw], by simp [hw], rfl, rfl, rfl, by rw [hw]; rfl⟩
  | join =>
    simp only [step, Option.ite_none_right_eq_some, Option.some.injEq] at h
    obtain ⟨⟨-, hlast⟩, rfl⟩ := h
    exact .inr (.inr (.inl ⟨hlast, rfl⟩))
  | print =>
    simp only [step] at h
    split at h
    · rename_i k hmain
      split at h
      · rename_i hk
        exact .inr (.inr (.inr ⟨k, hk, hmain, (Option.some.inj h).symm⟩))
      · cases h
    · cases h

/-- The threads from the next one on are not there yet, and `ans` is what the others have added. -/
structure Accounted (tables : Fin (n + 1) → Table) (s : Server n) : Prop where
  absent : ∀ index, s.main = .creating index → ∀ w : Fin (n + 1), index ≤ w → s.worker w = .absent
  ans : s.ans = ∑ w, (s.worker w).contribution (tables w)

theorem sum_update {M : Type} [AddCommMonoid M] (f : Fin (n + 1) → Worker → M)
    (worker : Fin (n + 1) → Worker) (w : Fin (n + 1)) (pc : Worker) :
    ∑ k, f k (Function.update worker w pc k) + f w (worker w) = ∑ k, f k (worker k) + f w pc := by
  rw [← Finset.add_sum_erase _ _ (Finset.mem_univ w), Function.update_self,
    ← Finset.add_sum_erase _ (fun k => f k (worker k)) (Finset.mem_univ w)]
  have hrest : ∑ k ∈ Finset.univ.erase w, f k (Function.update worker w pc k)
      = ∑ k ∈ Finset.univ.erase w, f k (worker k) :=
    Finset.sum_congr rfl fun k hk => by rw [Function.update_of_ne (Finset.ne_of_mem_erase hk)]
  rw [hrest]
  abel

theorem accounted_step {a : Action n} (hs : Accounted tables s)
    (h : step tables s a = some s') : Accounted tables s' := by
  rcases step_cases h with ⟨w, pc, habsent, -, hmain, -, hworker, hans⟩ |
    ⟨index, hindex, hmain, rfl⟩ | ⟨-, rfl⟩ | ⟨k, hk, hmain, rfl⟩
  · constructor
    · intro index hcreating v hv
      have hold := hs.absent index (hmain ▸ hcreating)
      have hne : v ≠ w := fun heq => habsent (hold w (heq ▸ hv))
      rw [hworker, Function.update_of_ne hne, hold v hv]
    · have hsum := sum_update (fun k pc => pc.contribution (tables k)) s.worker w pc
      rw [hs.ans, ← hsum] at hans
      rw [hworker]
      exact add_right_cancel hans
  · constructor
    · intro index' hcreating v hv
      cases hcreating
      have hne : v ≠ ⟨index, hindex⟩ := by
        intro heq
        subst heq
        exact Nat.not_succ_le_self index hv
      exact (Function.update_of_ne hne _ _).trans (hs.absent index hmain v (by omega))
    · have hsum := sum_update (fun k pc => pc.contribution (tables k)) s.worker ⟨index, hindex⟩
        .started
      rw [hs.absent index hmain _ (Nat.le_refl _)] at hsum
      exact hs.ans.trans (add_right_cancel hsum).symm
  · exact ⟨fun index hcreating => MainThread.noConfusion hcreating, hs.ans⟩
  · exact ⟨fun index hcreating => MainThread.noConfusion hcreating, hs.ans⟩

/-- **Of any schedule**: `ans` is the sum of what the threads have added. -/
theorem accounted_of_reaches (h : Reaches (step tables) (start n) s) : Accounted tables s := by
  refine h.invariant (fun _ _ _ hs hstep => accounted_step hs hstep) ⟨fun _ _ _ _ => rfl, ?_⟩
  exact (Finset.sum_eq_zero fun _ _ => rfl).symm

/-! ### Schedules -/

variable {w : Fin (n + 1)}

theorem setWorker_self {pc : Worker} (hw : s.worker w = pc) : s.setWorker w pc = s := by
  subst hw
  simp [setWorker]

/-- A function that is `f` up to `k` and `g` from there on, one argument further. -/
theorem update_front {α : Type} {m k : Nat} (hk : k < m) (f g : Fin m → α) :
    Function.update (fun j : Fin m => if j.val < k then f j else g j) ⟨k, hk⟩ (f ⟨k, hk⟩)
      = fun j => if j.val < k + 1 then f j else g j := by
  funext j
  rw [Function.update_apply]
  by_cases hj : j = ⟨k, hk⟩
  · subst hj
    rw [if_pos rfl, if_pos (Nat.lt_succ_self k)]
  · have hne : j.val ≠ k := fun heq => hj (Fin.ext heq)
    have hlt : j.val < k + 1 ↔ j.val < k := by omega
    simp only [hj, if_false, hlt]

theorem reaches_created (tables : Fin (n + 1) → Table) {k : Nat} (hk : k ≤ n + 1) :
    Reaches (step tables) (start n)
      { start n with
        main := .creating k, worker := fun w => if w.val < k then .started else .absent } := by
  induction k with
  | zero => exact Reaches.refl _
  | succ k ih =>
    refine (ih (by omega)).trans (Reaches.single .create ?_)
    have hk : k < n + 1 := hk
    simp only [step, hk, dif_pos, setWorker, Option.some.injEq, Server.mk.injEq, true_and, and_true]
    exact update_front hk (fun _ => Worker.started) fun _ => Worker.absent

theorem reaches_adding (hw : s.worker w = .adding 0) {i : Nat} (hi : i ≤ 26) :
    Reaches (step tables) s { s.setWorker w (.adding i) with
      ans := s.ans + (Worker.adding i).contribution (tables w) } := by
  induction i with
  | zero =>
    rw [setWorker_self hw, contribution_adding_zero, add_zero]
    exact Reaches.refl s
  | succ i ih =>
    refine (ih (by omega)).trans (Reaches.single (.add w) ?_)
    have hi : i < 26 := hi
    rw [contribution_adding_succ _ hi, ← add_assoc, ← update_add]
    simp [step, setWorker, hi]

/-- A thread that has started can run to its end when the lock is free. -/
theorem reaches_exited (hw : s.worker w = .started) (hlock : s.locked = false) :
    Reaches (step tables) s { s.setWorker w .exited with ans := s.ans + tables w } := by
  have hreceived : Reaches (step tables) s (s.setWorker w .received) :=
    Reaches.single (.recv w) (by simp [step, hw])
  have hlocked : Reaches (step tables) (s.setWorker w .received)
      { s.setWorker w (.adding 0) with locked := true } :=
    Reaches.single (.lock w) (by simp [step, setWorker, hlock])
  have hadded : Reaches (step tables) { s.setWorker w (.adding 0) with locked := true } _ :=
    reaches_adding (w := w) (by simp [setWorker]) (Nat.le_refl 26)
  rw [contribution_adding_last] at hadded
  refine ((hreceived.trans hlocked).trans hadded).trans
    ((Reaches.single (.unlock w) (by simp [step, setWorker]; rfl)).trans
      (Reaches.single (.exit w) ?_))
  simp [step, setWorker, hlock]

theorem reaches_printed (hmain : s.main = .creating (n + 1))
    (hlast : s.worker (Fin.last n) = .exited) :
    Reaches (step tables) s { s with main := .printing 26, printed := s.ans } := by
  have hjoin : Reaches (step tables) s { s with main := .printing 0 } :=
    Reaches.single .join (by simp [step, hmain, hlast])
  have hprint : ∀ k ≤ 26, Reaches (step tables) s { s with
      main := .printing k
      printed := fun j => if j < k then s.ans j else s.printed j } := by
    intro k hk
    induction k with
    | zero => exact hjoin
    | succ k ih =>
      refine (ih (by omega)).trans (Reaches.single .print ?_)
      have hk : k < 26 := hk
      simp only [step, hk, dif_pos, Option.some.injEq, Server.mk.injEq, true_and]
      exact update_front hk s.ans s.printed
  have hall := hprint 26 (Nat.le_refl _)
  simp only [Fin.is_lt, if_true] at hall
  exact hall

/-! ### When the totals are right -/

theorem contribution_zero (pc : Worker) : pc.contribution 0 = 0 := by
  funext j
  cases pc with
  | adding i => exact ite_self _
  | _ => rfl

/-- `ans` is complete once every thread has exited that has anything to add. -/
theorem Accounted.ans_eq_sum (hs : Accounted tables s)
    (hdone : ∀ w, s.worker w = .exited ∨ tables w = 0) : s.ans = ∑ w, tables w := by
  rw [hs.ans]
  refine Finset.sum_congr rfl fun w _ => ?_
  rcases hdone w with hexited | hzero
  · rw [hexited]
    rfl
  · rw [hzero, contribution_zero]

/-- While `main` prints, the last thread has exited and what is printed is the sum. -/
def Printing (tables : Fin (n + 1) → Table) (s : Server n) : Prop :=
  ∀ k, s.main = .printing k → s.worker (Fin.last n) = .exited ∧
    ∀ j : Fin 26, j < k → s.printed j = (∑ w, tables w) j

theorem printing_step (hzero : ∀ w, w ≠ Fin.last n → tables w = 0) {a : Action n}
    (hs : Accounted tables s) (hprinting : Printing tables s) (h : step tables s a = some s') :
    Printing tables s' := by
  intro k hk
  rcases step_cases h with ⟨w, pc, -, hrunning, hmain, hprinted, hworker, -⟩ |
    ⟨index, hindex, -, rfl⟩ | ⟨hlast, rfl⟩ | ⟨i, hi, hmain, rfl⟩
  · obtain ⟨hlast, hold⟩ := hprinting k (hmain ▸ hk)
    have hne : Fin.last n ≠ w := fun heq => hrunning (heq ▸ hlast)
    rw [hworker, Function.update_of_ne hne, hprinted]
    exact ⟨hlast, hold⟩
  · cases hk
  · cases hk
    exact ⟨hlast, fun j hj => absurd hj (Nat.not_lt_zero j)⟩
  · cases hk
    obtain ⟨hlast, hold⟩ := hprinting i hmain
    refine ⟨hlast, fun j hj => ?_⟩
    by_cases heq : j = ⟨i, hi⟩
    · subst heq
      have hdone : ∀ w, s.worker w = .exited ∨ tables w = 0 := by
        intro w
        by_cases hw : w = Fin.last n
        · exact .inl (hw ▸ hlast)
        · exact .inr (hzero w hw)
      exact (Function.update_self _ _ _).trans (congrFun (hs.ans_eq_sum hdone) _)
    · have hlt : j.val ≠ i := fun hval => heq (Fin.ext hval)
      exact (Function.update_of_ne heq _ _).trans (hold j (by omega))

theorem printsTotals_of_zero (hzero : ∀ w, w ≠ Fin.last n → tables w = 0) :
    PrintsTotals tables := by
  intro s hs hmain
  have hboth : Accounted tables s ∧ Printing tables s := by
    refine hs.invariant (I := fun s => Accounted tables s ∧ Printing tables s) ?_
      ⟨accounted_of_reaches (Reaches.refl _), ?_⟩
    · exact fun s a s' h hstep => ⟨accounted_step h.1 hstep, printing_step hzero h.1 h.2 hstep⟩
    · intro k hk
      cases hk
  funext j
  exact (hboth.2 26 hmain).2 j j.isLt

/-- One schedule lets the last thread alone run before it is joined, another one more: they print
the same only if that one has nothing to add. -/
theorem zero_of_printsTotals (h : PrintsTotals tables) {w : Fin (n + 1)} (hw : w ≠ Fin.last n) :
    tables w = 0 := by
  have hjoined : ∀ s, Reaches (step tables) (start n) s → s.main = .creating (n + 1) →
      s.worker (Fin.last n) = .exited → s.ans = ∑ w, tables w := by
    intro s hs hmain hlast
    exact h _ (hs.trans (reaches_printed hmain hlast)) rfl
  have hcreated := reaches_created tables (Nat.le_refl (n + 1))
  simp only [Fin.is_lt, if_true] at hcreated
  have hlast := hjoined _ (hcreated.trans (reaches_exited (w := Fin.last n) rfl rfl)) rfl
    (by simp [setWorker])
  have hfirst := hcreated.trans (reaches_exited (w := w) rfl rfl)
  have hboth := hjoined _ (hfirst.trans (reaches_exited (w := Fin.last n)
    (by simp [setWorker, Ne.symm hw]) rfl)) rfl (by simp [setWorker])
  have hsame := hboth.trans hlast.symm
  simpa [start] using hsame

/-- **When the printed totals include every worker**, however the threads are scheduled: when only
the last one has counted anything. -/
theorem printsTotals_iff (tables : Fin (n + 1) → Table) :
    PrintsTotals tables ↔ ∀ w, w ≠ Fin.last n → tables w = 0 :=
  ⟨fun h _ hw => zero_of_printsTotals h hw, printsTotals_of_zero⟩

/-- The first of two workers has counted one letter `a`. -/
theorem first_of_two_lost :
    ¬ PrintsTotals (n := 1) fun w => if w = 0 then Pi.single 0 1 else 0 := by
  intro h
  have hzero := zero_of_printsTotals h (w := 0) (by decide)
  have hcell := congrFun hzero 0
  simp at hcell

end Server

end MiniNet.SocketExp
