import Mathlib.Algebra.BigOperators.Pi
import MiniNet.SocketExp.Totals

/-!
# How the threads of the server can be scheduled

The lock does what it is for: one thread at a time adds, and nothing is lost while it does. The
process ends when `main` returns, which waits for all workers to connect and for the last of them to
answer, and for nothing else. What is printed for a letter, though, is the sum over any set of the
workers with the last one in it.
-/

namespace MiniNet.SocketExp

open Lib

namespace Worker

def isAdding : Worker → Bool
  | .adding _ => true
  | _ => false

/-- All of the table is added and the lock given back. -/
def isDone : Worker → Bool
  | .unlocked | .exited => true
  | _ => false

/-- Cell `j` is added. -/
def hasAdded (j : Fin 26) : Worker → Bool
  | .adding i => j < i
  | .unlocked | .exited => true
  | .absent | .started | .received => false

/-- The steps a thread has before it; one of them is its creation. -/
def left : Worker → Nat
  | .absent => 31
  | .started => 30
  | .received => 29
  | .adding i => 28 - i
  | .unlocked => 1
  | .exited => 0

/-- A step of `handle_client` from one place to the next, with the lock before and after. -/
inductive Moves : Worker → Bool → Worker → Bool → Prop
  | recv (l : Bool) : Moves .started l .received l
  | lock : Moves .received false (.adding 0) true
  | add {i : Nat} (h : i < 26) (l : Bool) : Moves (.adding i) l (.adding (i + 1)) l
  | unlock (l : Bool) : Moves (.adding 26) l .unlocked false
  | exit (l : Bool) : Moves .unlocked l .exited l

end Worker

def MainThread.left : MainThread → Nat
  | .creating _ => 27
  | .printing k => 26 - k

namespace Server

variable {n : Nat} {tables : Fin (n + 1) → Table} {s s' : Server n}

/-- What a step does to the threads and the lock. -/
theorem step_moves {a : Action n} (h : step tables s a = some s') :
    (∃ w pc, Worker.Moves (s.worker w) s.locked pc s'.locked ∧ s'.main = s.main ∧
      s'.worker = Function.update s.worker w pc) ∨
    (∃ index, ∃ hindex : index < n + 1, s.main = .creating index ∧
      s'.main = .creating (index + 1) ∧ s'.locked = s.locked ∧
      s'.worker = Function.update s.worker ⟨index, hindex⟩ .started) ∨
    (s.main = .creating (n + 1) ∧ s.worker (Fin.last n) = .exited ∧ s'.main = .printing 0 ∧
      s'.locked = s.locked ∧ s'.worker = s.worker) ∨
    (∃ k, k < 26 ∧ s.main = .printing k ∧ s'.main = .printing (k + 1) ∧ s'.locked = s.locked ∧
      s'.worker = s.worker) := by
  cases a with
  | create =>
    simp only [step] at h
    split at h
    · rename_i index hmain
      split at h
      · rename_i hindex
        obtain rfl := Option.some.inj h
        exact .inr (.inl ⟨index, hindex, hmain, rfl, rfl, rfl⟩)
      · cases h
    · cases h
  | recv w =>
    simp only [step, Option.ite_none_right_eq_some, Option.some.injEq] at h
    obtain ⟨hw, rfl⟩ := h
    exact .inl ⟨w, .received, hw ▸ .recv _, rfl, rfl⟩
  | lock w =>
    simp only [step, Option.ite_none_right_eq_some, Option.some.injEq] at h
    obtain ⟨⟨hw, hlocked⟩, rfl⟩ := h
    exact .inl ⟨w, .adding 0, hw ▸ hlocked ▸ .lock, rfl, rfl⟩
  | add w =>
    simp only [step] at h
    split at h
    · rename_i i hw
      split at h
      · rename_i hi
        obtain rfl := Option.some.inj h
        exact .inl ⟨w, .adding (i + 1), hw ▸ .add hi _, rfl, rfl⟩
      · cases h
    · cases h
  | unlock w =>
    simp only [step, Option.ite_none_right_eq_some, Option.some.injEq] at h
    obtain ⟨hw, rfl⟩ := h
    exact .inl ⟨w, .unlocked, hw ▸ .unlock _, rfl, rfl⟩
  | exit w =>
    simp only [step, Option.ite_none_right_eq_some, Option.some.injEq] at h
    obtain ⟨hw, rfl⟩ := h
    exact .inl ⟨w, .exited, hw ▸ .exit _, rfl, rfl⟩
  | join =>
    simp only [step, Option.ite_none_right_eq_some, Option.some.injEq] at h
    obtain ⟨⟨hmain, hlast⟩, rfl⟩ := h
    exact .inr (.inr (.inl ⟨hmain, hlast, rfl, rfl, rfl⟩))
  | print =>
    simp only [step] at h
    split at h
    · rename_i k hmain
      split at h
      · rename_i hk
        obtain rfl := Option.some.inj h
        exact .inr (.inr (.inr ⟨k, hk, hmain, rfl, rfl, rfl⟩))
      · cases h
    · cases h

/-! ### The lock -/

/-- Whoever adds holds the lock, and whoever holds it adds. -/
structure LockHeld (s : Server n) : Prop where
  held : ∀ w, (s.worker w).isAdding = true → s.locked = true
  unique : ∀ v w, (s.worker v).isAdding = true → (s.worker w).isAdding = true → v = w
  holder : s.locked = true → ∃ w, (s.worker w).isAdding = true

theorem LockHeld.congr (hs : LockHeld s) (hlocked : s'.locked = s.locked)
    (hadding : ∀ w, (s'.worker w).isAdding = (s.worker w).isAdding) : LockHeld s' := by
  constructor
  · simpa only [hadding, hlocked] using hs.held
  · simpa only [hadding] using hs.unique
  · simpa only [hadding, hlocked] using hs.holder

theorem isAdding_update {w : Fin (n + 1)} {pc : Worker}
    (h : pc.isAdding = (s.worker w).isAdding) (v : Fin (n + 1)) :
    (Function.update s.worker w pc v).isAdding = (s.worker v).isAdding := by
  by_cases hv : v = w
  · subst hv
    rw [Function.update_self, h]
  · rw [Function.update_of_ne hv]

theorem lockHeld_move {w : Fin (n + 1)} {pc : Worker} (hs : LockHeld s)
    (hmove : Worker.Moves (s.worker w) s.locked pc s'.locked)
    (hworker : s'.worker = Function.update s.worker w pc) : LockHeld s' := by
  generalize hold : s.worker w = old at hmove
  generalize hl : s.locked = l at hmove
  generalize hl' : s'.locked = l' at hmove
  cases hmove with
  | recv | add | exit =>
    refine hs.congr (hl'.trans hl.symm) fun v => ?_
    rw [hworker, isAdding_update (by rw [hold]; rfl)]
  | lock =>
    have hnone : ∀ v, ¬ (s.worker v).isAdding = true := fun v hv => by
      rw [hs.held v hv] at hl
      cases hl
    have honly : ∀ v, (s'.worker v).isAdding = true → v = w := by
      intro v hv
      by_contra hne
      rw [hworker, Function.update_of_ne hne] at hv
      exact hnone v hv
    refine ⟨fun _ _ => hl', fun u v hu hv => (honly u hu).trans (honly v hv).symm,
      fun _ => ⟨w, ?_⟩⟩
    rw [hworker, Function.update_self]
    rfl
  | unlock =>
    have hadding : (s.worker w).isAdding = true := by rw [hold]; rfl
    have hnone : ∀ v, ¬ (s'.worker v).isAdding = true := by
      intro v hv
      rw [hworker] at hv
      by_cases heq : v = w
      · rw [heq, Function.update_self] at hv
        cases hv
      · rw [Function.update_of_ne heq] at hv
        exact heq (hs.unique v w hv hadding)
    exact ⟨fun v hv => absurd hv (hnone v), fun v _ hv => absurd hv (hnone v),
      fun hlocked => by rw [hl'] at hlocked; cases hlocked⟩

theorem lockHeld_step {a : Action n} (hs : LockHeld s) (hacc : Accounted tables s)
    (h : step tables s a = some s') : LockHeld s' := by
  rcases step_moves h with ⟨w, pc, hmove, -, hworker⟩ |
    ⟨index, hindex, hmain, -, hlocked, hworker⟩ | ⟨-, -, -, hlocked, hworker⟩ |
    ⟨-, -, -, -, hlocked, hworker⟩
  · exact lockHeld_move hs hmove hworker
  · refine hs.congr hlocked fun v => ?_
    rw [hworker, isAdding_update (by rw [hacc.absent index hmain _ (Nat.le_refl _)]; rfl)]
  · exact hs.congr hlocked fun v => by rw [hworker]
  · exact hs.congr hlocked fun v => by rw [hworker]

theorem lockHeld_of_reaches (h : Reaches (step tables) (start n) s) : LockHeld s := by
  have hboth : Accounted tables s ∧ LockHeld s := by
    refine h.invariant (I := fun s => Accounted tables s ∧ LockHeld s) ?_
      ⟨accounted_of_reaches (Reaches.refl _), ?_⟩
    · exact fun s a s' h hstep => ⟨accounted_step h.1 hstep, lockHeld_step h.2 h.1 hstep⟩
    · exact ⟨fun _ => Bool.noConfusion, fun _ _ => Bool.noConfusion, Bool.noConfusion⟩
  exact hboth.2

theorem contribution_of_not_adding {pc : Worker} (h : pc.isAdding = false) (table : Table) :
    pc.contribution table = if pc.isDone = true then table else 0 := by
  cases pc with
  | adding i => cases h
  | _ => rfl

/-- **The lock makes each addition one**: exactly one thread adds when it is held, and whenever it is
free `ans` is the sum of the whole tables of those who have given it back. -/
theorem additions_atomic (h : Reaches (step tables) (start n) s) :
    (s.locked = true ↔ ∃! w, (s.worker w).isAdding = true) ∧
    (s.locked = false → s.ans = ∑ w with (s.worker w).isDone = true, tables w) := by
  have hlock := lockHeld_of_reaches h
  constructor
  · constructor
    · intro hlocked
      obtain ⟨w, hw⟩ := hlock.holder hlocked
      exact ⟨w, hw, fun v hv => hlock.unique v w hv hw⟩
    · intro hone
      obtain ⟨w, hw, -⟩ := hone
      exact hlock.held w hw
  · intro hfree
    rw [(accounted_of_reaches h).ans, Finset.sum_filter]
    refine Finset.sum_congr rfl fun w _ => contribution_of_not_adding ?_ _
    cases hw : (s.worker w).isAdding with
    | false => rfl
    | true =>
      rw [hlock.held w hw] at hfree
      cases hfree

/-- Two workers, of which each has counted a letter. -/
def twoTables : Fin 2 → Table := fun w => Pi.single (w.castLE (by decide)) 1

theorem additions_atomic_twoTables :
    ∃ s, Reaches (step twoTables) (start 1) s ∧ s.locked = true ∧
      (s.locked = true ↔ ∃! w, (s.worker w).isAdding = true) ∧
      (s.locked = false → s.ans = ∑ w with (s.worker w).isDone = true, twoTables w) := by
  have hfirst : Reaches (step twoTables) (start 1) _ :=
    reaches_follow [.create, .recv 0, .lock 0, .add 0] rfl
  exact ⟨_, hfirst, rfl, additions_atomic hfirst⟩

/-! ### Every schedule ends -/

/-- The steps that are left. -/
def left (s : Server n) : Nat := s.main.left + ∑ w, (s.worker w).left

/-- No thread is further than it can be: those that are not there are the ones still to be created,
no cell behind the last is added to or printed, and what is joined has exited. -/
structure InBounds (s : Server n) : Prop where
  created : ∀ index, s.main = .creating index → index ≤ n + 1 ∧
    ∀ w : Fin (n + 1), s.worker w = .absent ↔ index ≤ w
  printing : ∀ k, s.main = .printing k → k ≤ 26 ∧ s.worker (Fin.last n) = .exited ∧
    ∀ w, s.worker w ≠ .absent
  adding : ∀ w i, s.worker w = .adding i → i ≤ 26

/-- A step of `handle_client` begins before its end and not before its creation. -/
theorem moves_bounds {pc pc' : Worker} {l l' : Bool} (h : Worker.Moves pc l pc' l') :
    pc ≠ .absent ∧ pc ≠ .exited ∧ pc' ≠ .absent ∧ (∀ i, pc' = .adding i → i ≤ 26) ∧
      pc'.left + 1 = pc.left := by
  cases h with
  | recv | unlock | exit => exact ⟨nofun, nofun, nofun, nofun, rfl⟩
  | lock => exact ⟨nofun, nofun, nofun, fun i hi => by cases hi; exact Nat.zero_le 26, rfl⟩
  | @add i hi =>
    refine ⟨nofun, nofun, nofun, fun j hj => ?_, ?_⟩
    · cases hj
      exact hi
    · simp only [Worker.left]
      omega

theorem InBounds.adding_update (hs : InBounds s) {pc : Worker}
    (hpc : ∀ i, pc = .adding i → i ≤ 26) (w v : Fin (n + 1)) (i : Nat)
    (hv : Function.update s.worker w pc v = .adding i) : i ≤ 26 := by
  by_cases heq : v = w
  · rw [heq, Function.update_self] at hv
    exact hpc i hv
  · rw [Function.update_of_ne heq] at hv
    exact hs.adding v i hv

theorem inBounds_step {a : Action n} (hs : InBounds s) (h : step tables s a = some s') :
    InBounds s' := by
  rcases step_moves h with ⟨w, pc, hmove, hmain, hworker⟩ |
    ⟨index, hindex, hmain, hmain', -, hworker⟩ | ⟨hmain, hlast, hmain', -, hworker⟩ |
    ⟨k, hk, hmain, hmain', -, hworker⟩
  · obtain ⟨hpresent, hrunning, hpresent', hadding, -⟩ := moves_bounds hmove
    have habsent : ∀ v, s'.worker v = .absent ↔ s.worker v = .absent := by
      intro v
      rw [hworker]
      by_cases hv : v = w
      · subst hv
        rw [Function.update_self]
        exact iff_of_false hpresent' hpresent
      · rw [Function.update_of_ne hv]
    refine ⟨fun index hcreating => ?_, fun k hprinting => ?_,
      by rw [hworker]; exact hs.adding_update hadding w⟩
    · simpa only [habsent] using hs.created index (hmain ▸ hcreating)
    · obtain ⟨hk, hlast, hall⟩ := hs.printing k (hmain ▸ hprinting)
      have hne : Fin.last n ≠ w := fun heq => hrunning (heq ▸ hlast)
      refine ⟨hk, by rw [hworker, Function.update_of_ne hne, hlast], fun v => ?_⟩
      rw [ne_eq, habsent]
      exact hall v
  · obtain ⟨-, habsent⟩ := hs.created index hmain
    refine ⟨fun index' hcreating => ?_, fun k hprinting => ?_,
      by rw [hworker]; exact hs.adding_update (by nofun) _⟩
    · rw [hmain'] at hcreating
      cases hcreating
      refine ⟨hindex, fun v => ?_⟩
      rw [hworker]
      by_cases heq : v = ⟨index, hindex⟩
      · subst heq
        rw [Function.update_self]
        exact iff_of_false nofun (Nat.not_succ_le_self index)
      · have hval : v.val ≠ index := fun hval => heq (Fin.ext hval)
        rw [Function.update_of_ne heq, habsent]
        omega
    · rw [hmain'] at hprinting
      cases hprinting
  · obtain ⟨-, habsent⟩ := hs.created _ hmain
    refine ⟨fun index hcreating => ?_, fun k hprinting => ?_, by rw [hworker]; exact hs.adding⟩
    · rw [hmain'] at hcreating
      cases hcreating
    · rw [hmain'] at hprinting
      cases hprinting
      rw [hworker]
      exact ⟨Nat.zero_le 26, hlast, fun v hv => absurd ((habsent v).mp hv) v.isLt.not_ge⟩
  · obtain ⟨-, hlast, hall⟩ := hs.printing k hmain
    refine ⟨fun index hcreating => ?_, fun k' hprinting => ?_, by rw [hworker]; exact hs.adding⟩
    · rw [hmain'] at hcreating
      cases hcreating
    · rw [hmain'] at hprinting
      cases hprinting
      rw [hworker]
      exact ⟨hk, hlast, hall⟩

/-- Every step is one of those that were left. -/
theorem left_step {a : Action n} (hs : InBounds s) (h : step tables s a = some s') :
    s'.left + 1 = s.left := by
  rcases step_moves h with ⟨w, pc, hmove, hmain, hworker⟩ |
    ⟨index, hindex, hmain, hmain', -, hworker⟩ | ⟨hmain, -, hmain', -, hworker⟩ |
    ⟨k, hk, hmain, hmain', -, hworker⟩
  · obtain ⟨-, -, -, -, hleft⟩ := moves_bounds hmove
    have hsum := sum_update (fun _ => Worker.left) s.worker w pc
    rw [left, left, hmain, hworker]
    omega
  · obtain ⟨-, habsent⟩ := hs.created index hmain
    have hnew : s.worker ⟨index, hindex⟩ = .absent := (habsent _).mpr (Nat.le_refl _)
    have hsum := sum_update (fun _ => Worker.left) s.worker ⟨index, hindex⟩ .started
    rw [hnew] at hsum
    rw [left, left, hmain, hmain', hworker]
    simp only [Worker.left, MainThread.left] at hsum ⊢
    omega
  · rw [left, left, hmain, hmain', hworker]
    simp only [MainThread.left]
    omega
  · rw [left, left, hmain, hmain', hworker]
    simp only [MainThread.left]
    omega

theorem inBounds_start : InBounds (start n) := by
  refine ⟨fun index hcreating => ?_, nofun, nofun⟩
  cases hcreating
  exact ⟨Nat.zero_le _, fun w => iff_of_true rfl (Nat.zero_le _)⟩

theorem left_start : (start n).left = 31 * (n + 1) + 27 := by
  simp [left, start, MainThread.left, Worker.left]
  omega

/-- How many of the workers connect, and to which of them `recv` comes back. -/
structure Clients (n : Nat) where
  connected : Nat
  answers : Fin (n + 1) → Bool

/-- `accept` waits for a worker to connect, and `recv` for its answer. -/
def Clients.allow (c : Clients n) (s : Server n) : Action n → Bool
  | .create =>
    match s.main with
    | .creating index => index < c.connected
    | .printing _ => true
  | .recv w => c.answers w
  | _ => true

/-- A step of the process. When `main` has returned there are none, whatever threads are left. -/
def processStep (tables : Fin (n + 1) → Table) (c : Clients n) (s : Server n) (a : Action n) :
    Option (Server n) :=
  if s.main ≠ .printing 26 ∧ c.allow s a = true then step tables s a else none

theorem processStep_eq_some {c : Clients n} {a : Action n}
    (h : processStep tables c s a = some s') :
    c.allow s a = true ∧ step tables s a = some s' := by
  rw [processStep, Option.ite_none_right_eq_some] at h
  exact ⟨h.1.2, h.2⟩

/-- The workers that are there have connected, and those that have got further have answered. -/
structure Served (c : Clients n) (s : Server n) : Prop where
  connected : ∀ w, s.worker w ≠ .absent → w < c.connected
  answered : ∀ w, s.worker w ≠ .absent → s.worker w ≠ .started → c.answers w = true

theorem Served.update {c : Clients n} (hs : Served c s) {w : Fin (n + 1)} {pc : Worker}
    (hconnected : w < c.connected) (hanswered : pc ≠ .started → c.answers w = true)
    (hworker : s'.worker = Function.update s.worker w pc) : Served c s' := by
  constructor <;> intro v <;> rw [hworker] <;> by_cases hv : v = w
  · exact fun _ => hv ▸ hconnected
  · rw [Function.update_of_ne hv]
    exact hs.connected v
  · rw [hv, Function.update_self]
    exact fun _ => hanswered
  · rw [Function.update_of_ne hv]
    exact hs.answered v

theorem served_step {c : Clients n} {a : Action n} (hs : Served c s)
    (h : processStep tables c s a = some s') : Served c s' := by
  obtain ⟨hallow, h⟩ := processStep_eq_some h
  have hlater : ∀ w, s.worker w ≠ .absent → s.worker w ≠ .started →
      ∀ pc, s'.worker = Function.update s.worker w pc → Served c s' :=
    fun w hpresent hstarted pc hworker =>
      hs.update (hs.connected w hpresent) (fun _ => hs.answered w hpresent hstarted) hworker
  cases a with
  | create =>
    simp only [step] at h
    split at h
    · rename_i index hmain
      split at h
      · rename_i hindex
        obtain rfl := Option.some.inj h
        rw [Clients.allow, hmain] at hallow
        exact hs.update (of_decide_eq_true hallow) (fun hne => absurd rfl hne) rfl
      · cases h
    · cases h
  | recv w =>
    simp only [step, Option.ite_none_right_eq_some, Option.some.injEq] at h
    obtain ⟨hw, rfl⟩ := h
    exact hs.update (hs.connected w (by simp [hw])) (fun _ => hallow) rfl
  | lock w =>
    simp only [step, Option.ite_none_right_eq_some, Option.some.injEq] at h
    obtain ⟨⟨hw, -⟩, rfl⟩ := h
    exact hlater w (by simp [hw]) (by simp [hw]) _ rfl
  | add w =>
    simp only [step] at h
    split at h
    · rename_i i hw
      split at h
      · obtain rfl := Option.some.inj h
        exact hlater w (by simp [hw]) (by simp [hw]) _ rfl
      · cases h
    · cases h
  | unlock w | exit w =>
    simp only [step, Option.ite_none_right_eq_some, Option.some.injEq] at h
    obtain ⟨hw, rfl⟩ := h
    exact hlater w (by simp [hw]) (by simp [hw]) _ rfl
  | join =>
    simp only [step, Option.ite_none_right_eq_some, Option.some.injEq] at h
    obtain ⟨-, rfl⟩ := h
    exact ⟨hs.connected, hs.answered⟩
  | print =>
    simp only [step] at h
    split at h
    · split at h
      · obtain rfl := Option.some.inj h
        exact ⟨hs.connected, hs.answered⟩
      · cases h
    · cases h

/-- Some thread can go on. -/
def CanStep (tables : Fin (n + 1) → Table) (c : Clients n) (s : Server n) : Prop :=
  ∃ a, c.allow s a = true ∧ (step tables s a).isSome = true

theorem canStep_of_adding {c : Clients n} (hs : InBounds s) {w : Fin (n + 1)}
    (hw : (s.worker w).isAdding = true) : CanStep tables c s := by
  cases hpc : s.worker w with
  | adding i =>
    rcases Nat.lt_or_eq_of_le (hs.adding w i hpc) with hlt | heq
    · exact ⟨.add w, rfl, by simp [step, hpc, hlt]⟩
    · subst heq
      exact ⟨.unlock w, rfl, by simp [step, hpc]⟩
  | _ =>
    rw [hpc] at hw
    cases hw

/-- A thread that waits for the lock waits for one that can go on. -/
theorem canStep_of_running {c : Clients n} (hs : InBounds s) (hlock : LockHeld s)
    {w : Fin (n + 1)} (hpresent : s.worker w ≠ .absent) (hrunning : s.worker w ≠ .exited)
    (hanswers : c.answers w = true) : CanStep tables c s := by
  cases hpc : s.worker w with
  | absent => exact absurd hpc hpresent
  | started => exact ⟨.recv w, hanswers, by simp [step, hpc]⟩
  | received =>
    cases hlocked : s.locked with
    | false => exact ⟨.lock w, rfl, by simp [step, hpc, hlocked]⟩
    | true =>
      obtain ⟨v, hv⟩ := hlock.holder hlocked
      exact canStep_of_adding hs hv
  | adding i =>
    have hadding : (s.worker w).isAdding = true := by rw [hpc]; rfl
    exact canStep_of_adding hs hadding
  | unlocked => exact ⟨.exit w, rfl, by simp [step, hpc]⟩
  | exited => exact absurd hpc hrunning

/-- With all workers connected and the answer of the last, `main` never waits for ever. -/
theorem canStep_of_not_printed {c : Clients n} (hs : InBounds s) (hlock : LockHeld s)
    (hconnected : n + 1 ≤ c.connected) (hanswers : c.answers (Fin.last n) = true)
    (hmain : s.main ≠ .printing 26) : CanStep tables c s := by
  cases hpc : s.main with
  | creating index =>
    obtain ⟨hle, habsent⟩ := hs.created index hpc
    rcases Nat.lt_or_eq_of_le hle with hlt | rfl
    · have hallow : c.allow s .create = true := by
        rw [Clients.allow, hpc]
        exact decide_eq_true (Nat.lt_of_lt_of_le hlt hconnected)
      exact ⟨.create, hallow, by simp [step, hpc, hlt]⟩
    · by_cases hexited : s.worker (Fin.last n) = .exited
      · exact ⟨.join, rfl, by simp [step, hpc, hexited]⟩
      · have hpresent : s.worker (Fin.last n) ≠ .absent := fun heq =>
          ((habsent _).mp heq).not_gt (Nat.lt_succ_self n)
        exact canStep_of_running hs hlock hpresent hexited hanswers
  | printing k =>
    obtain ⟨hle, -, -⟩ := hs.printing k hpc
    have hlt : k < 26 := Nat.lt_of_le_of_ne hle fun heq => hmain (heq ▸ hpc)
    exact ⟨.print, rfl, by simp [step, hpc, hlt]⟩

/-- **How the process ends**: however the threads take turns there are at most `31` steps for each
worker and `27` for `main`, and when nothing can happen any more, `main` has printed everything if
all workers have connected and the last of them has answered, and only then. -/
theorem schedules_end {c : Clients n} {actions : List (Action n)}
    (h : follow (processStep tables c) (start n) actions = some s) :
    actions.length ≤ 31 * (n + 1) + 27 ∧
    ((∀ a, processStep tables c s a = none) →
      (s.main = .printing 26 ↔ n + 1 ≤ c.connected ∧ c.answers (Fin.last n) = true)) := by
  have hrank := follow_rank (fun _ _ _ hs hstep => ⟨inBounds_step hs (processStep_eq_some hstep).2,
    left_step hs (processStep_eq_some hstep).2⟩) inBounds_start h
  rw [left_start] at hrank
  refine ⟨by omega, fun hstuck => ?_⟩
  have hreaches := reaches_follow _ h
  have hinv : Served c s ∧ Reaches (step tables) (start n) s := by
    refine hreaches.invariant (I := fun s => Served c s ∧ Reaches (step tables) (start n) s) ?_
      ⟨⟨fun _ hne => absurd rfl hne, fun _ hne => absurd rfl hne⟩, Reaches.refl _⟩
    exact fun s a s' h hstep =>
      ⟨served_step h.1 hstep, h.2.trans (Reaches.single a (processStep_eq_some hstep).2)⟩
  obtain ⟨hserved, hsteps⟩ := hinv
  have hbounds := hsteps.invariant (fun _ _ _ => inBounds_step) inBounds_start
  constructor
  · intro hmain
    obtain ⟨-, hlast, -⟩ := hbounds.printing 26 hmain
    exact ⟨hserved.connected (Fin.last n) (by simp [hlast]),
      hserved.answered (Fin.last n) (by simp [hlast]) (by simp [hlast])⟩
  · intro hclients
    by_contra hmain
    obtain ⟨a, hallow, hstep⟩ := canStep_of_not_printed hbounds (lockHeld_of_reaches hsteps)
      hclients.1 hclients.2 hmain
    have hnone := hstuck a
    rw [processStep, if_pos ⟨hmain, hallow⟩] at hnone
    rw [hnone] at hstep
    cases hstep

/-- One after the other: the threads of a single worker and of `main`. -/
def inTurn : List (Action 0) :=
  [.create, .recv 0, .lock 0] ++ List.replicate 26 (.add 0) ++ [.unlock 0, .exit 0, .join] ++
    List.replicate 26 .print

/-- The one worker there is connects, and answers. -/
def oneClient : Clients 0 := { connected := 1, answers := fun _ => true }

theorem schedules_end_inTurn :
    ∃ s, follow (processStep (fun _ => Pi.single 0 1) oneClient) (start 0) inTurn = some s ∧
      inTurn.length ≤ 31 * (0 + 1) + 27 ∧
      ((∀ a, processStep (fun _ => Pi.single 0 1) oneClient s a = none) →
        (s.main = .printing 26 ↔
          0 + 1 ≤ oneClient.connected ∧ oneClient.answers (Fin.last 0) = true)) := by
  have hruns : (follow (processStep (fun _ => Pi.single 0 1) oneClient) (start 0)
      inTurn).isSome = true := by decide +kernel
  obtain ⟨s, hs⟩ := Option.isSome_iff_exists.mp hruns
  exact ⟨s, hs, schedules_end hs⟩

/-! ### What can be printed -/

theorem contribution_apply (pc : Worker) (table : Table) (j : Fin 26) :
    pc.contribution table j = if pc.hasAdded j = true then table j else 0 := by
  cases pc with
  | adding i => simp [Worker.contribution, Worker.hasAdded]
  | _ => rfl

/-- What is printed of a letter is the sum over some of the workers, the last one among them. -/
def PrintedFrom (tables : Fin (n + 1) → Table) (s : Server n) : Prop :=
  ∀ k, s.main = .printing k → ∀ j : Fin 26, j < k →
    ∃ W : Finset (Fin (n + 1)), Fin.last n ∈ W ∧ s.printed j = ∑ w ∈ W, tables w j

theorem Accounted.ans_apply (hs : Accounted tables s) (j : Fin 26) :
    s.ans j = ∑ w with (s.worker w).hasAdded j = true, tables w j := by
  rw [hs.ans, Finset.sum_apply, Finset.sum_filter]
  exact Finset.sum_congr rfl fun w _ => contribution_apply _ _ _

theorem printedFrom_step {a : Action n} (hs : Accounted tables s) (hbounds : InBounds s)
    (hprinted : PrintedFrom tables s) (h : step tables s a = some s') : PrintedFrom tables s' := by
  intro k hk j hj
  rcases step_cases h with ⟨w, pc, -, -, hmain, hsame, -, -⟩ | ⟨index, hindex, -, rfl⟩ |
    ⟨-, rfl⟩ | ⟨i, hi, hmain, rfl⟩
  · rw [hsame]
    exact hprinted k (hmain ▸ hk) j hj
  · cases hk
  · cases hk
    exact absurd hj (Nat.not_lt_zero j)
  · cases hk
    by_cases heq : j = ⟨i, hi⟩
    · subst heq
      obtain ⟨-, hlast, -⟩ := hbounds.printing i hmain
      refine ⟨_, Finset.mem_filter.mpr ⟨Finset.mem_univ _, ?_⟩,
        (Function.update_self _ _ _).trans (hs.ans_apply _)⟩
      rw [hlast]
      rfl
    · have hne : j.val ≠ i := fun hval => heq (Fin.ext hval)
      have hold := hprinted i hmain j (by omega)
      rwa [← Function.update_of_ne heq (s.ans ⟨i, hi⟩) s.printed] at hold

theorem printedFrom_of_reaches (h : Reaches (step tables) (start n) s) :
    PrintedFrom tables s := by
  have hall : Accounted tables s ∧ InBounds s ∧ PrintedFrom tables s := by
    refine h.invariant (I := fun s => Accounted tables s ∧ InBounds s ∧ PrintedFrom tables s) ?_
      ⟨accounted_of_reaches (Reaches.refl _), inBounds_start, nofun⟩
    intro s a s' hs hstep
    obtain ⟨hacc, hbounds, hprinted⟩ := hs
    exact ⟨accounted_step hacc hstep, inBounds_step hbounds hstep,
      printedFrom_step hacc hbounds hprinted hstep⟩
  exact hall.2.2

/-- All threads are created, and those of `W` are through. -/
def through (tables : Fin (n + 1) → Table) (W : Finset (Fin (n + 1))) : Server n where
  main := .creating (n + 1)
  worker := W.piecewise (fun _ => .exited) fun _ => .started
  locked := false
  ans := ∑ w ∈ W, tables w
  printed := 0

theorem through_insert {W : Finset (Fin (n + 1))} {w : Fin (n + 1)} (hw : w ∉ W) :
    through tables (insert w W) = { (through tables W).setWorker w .exited with
      ans := (through tables W).ans + tables w } := by
  rw [through, Finset.piecewise_insert, Finset.sum_insert hw, add_comm (tables w)]
  rfl

theorem reaches_through (tables : Fin (n + 1) → Table) (W : Finset (Fin (n + 1))) :
    Reaches (step tables) (start n) (through tables W) := by
  induction W using Finset.induction_on with
  | empty =>
    have hcreated := reaches_created tables (Nat.le_refl (n + 1))
    simp only [Fin.is_lt, if_true] at hcreated
    rw [through, Finset.piecewise_empty, Finset.sum_empty]
    exact hcreated
  | insert w W hw ih =>
    rw [through_insert hw]
    have hstarted : (through tables W).worker w = .started := by simp [through, hw]
    exact ih.trans (reaches_exited hstarted rfl)

/-- **What can be printed for a letter**: the sums over those sets of workers that have the last one
in them, and nothing else. -/
theorem printable_iff (tables : Fin (n + 1) → Table) (j : Fin 26) (v : BitVec 32) :
    (∃ s, Reaches (step tables) (start n) s ∧ s.main = .printing 26 ∧ s.printed j = v) ↔
      ∃ W : Finset (Fin (n + 1)), Fin.last n ∈ W ∧ v = ∑ w ∈ W, tables w j := by
  constructor
  · rintro ⟨s, hs, hmain, rfl⟩
    exact printedFrom_of_reaches hs 26 hmain j j.isLt
  · rintro ⟨W, hlast, rfl⟩
    have hexited : (through tables W).worker (Fin.last n) = .exited := by simp [through, hlast]
    have hprinted := (reaches_through tables W).trans (reaches_printed rfl hexited)
    exact ⟨_, hprinted, rfl, Finset.sum_apply j W tables⟩

end Server

end MiniNet.SocketExp
