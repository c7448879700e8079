import Mathlib.Data.List.Basic
import Mathlib.Data.List.Induction
import Mathlib.Logic.Relation
import Mathlib.Tactic.Common

/-!
# Runs of a deterministic machine

A machine is a function from a state and an event to the next state. Its runs are folds over lists
of events, and everything a development says about runs comes down to two rules. `run_induction`
carries a property that may read the whole history so far along a run, so that clocks, counts of
past events, side conditions on single steps and the state of a second machine on the same events
need no state of their own. `outputs_eq` then compares what two machines put out.
-/

namespace MiniNet.Lib

variable {σ τ ε ω : Type*}

def run (next : σ → ε → σ) (s : σ) (es : List ε) : σ := es.foldl next s

section Run

variable (next : σ → ε → σ)

@[simp] theorem run_nil (s : σ) : run next s [] = s := rfl

@[simp] theorem run_cons (s : σ) (e : ε) (es : List ε) :
    run next s (e :: es) = run next (next s e) es := rfl

theorem run_append (s : σ) (pre post : List ε) :
    run next s (pre ++ post) = run next (run next s pre) post :=
  List.foldl_append

theorem run_snoc (s : σ) (pre : List ε) (e : ε) :
    run next s (pre ++ [e]) = next (run next s pre) e := by
  rw [run_append, run_cons, run_nil]

/-- `P` holds of every step of the run: of the state before each event, and the event. -/
def AtEachStep (P : σ → ε → Prop) (s : σ) (es : List ε) : Prop :=
  ∀ pre e post, es = pre ++ e :: post → P (run next s pre) e

theorem atEachStep_nil (P : σ → ε → Prop) (s : σ) : AtEachStep next P s [] := by
  intro pre e post h
  simp at h

theorem atEachStep_cons {P : σ → ε → Prop} {s : σ} {e : ε} {es : List ε} :
    AtEachStep next P s (e :: es) ↔ P s e ∧ AtEachStep next P (next s e) es := by
  constructor
  · intro h
    refine ⟨h [] e es rfl, fun pre e' post hsplit => ?_⟩
    exact h (e :: pre) e' post (by rw [hsplit, List.cons_append])
  · intro hboth pre e' post hsplit
    obtain ⟨hhead, htail⟩ := hboth
    cases pre with
    | nil =>
      obtain ⟨rfl, rfl⟩ := List.cons.inj hsplit
      exact hhead
    | cons e₀ pre =>
      obtain ⟨rfl, htl⟩ := List.cons.inj hsplit
      exact htail pre e' post htl

theorem atEachStep_iff_forall {P : σ → ε → Prop} {Q : ε → Prop} (hiff : ∀ s e, P s e ↔ Q e) (s : σ)
    (es : List ε) : AtEachStep next P s es ↔ ∀ e ∈ es, Q e := by
  induction es generalizing s with
  | nil => exact iff_of_true (atEachStep_nil next P s) (List.forall_mem_nil _)
  | cons e es ih => rw [atEachStep_cons, ih, hiff, List.forall_mem_cons]

/-- Two conditions on steps that agree as long as an invariant lasts, which the second of them
keeps up. -/
theorem atEachStep_congr {I : σ → Prop} {P Q : σ → ε → Prop}
    (hiff : ∀ s e, I s → (P s e ↔ Q s e)) (hnext : ∀ s e, I s → Q s e → I (next s e))
    {s : σ} (hs : I s) (es : List ε) : AtEachStep next P s es ↔ AtEachStep next Q s es := by
  induction es generalizing s with
  | nil => exact iff_of_true (atEachStep_nil next P s) (atEachStep_nil next Q s)
  | cons e es ih =>
    rw [atEachStep_cons, atEachStep_cons, hiff s e hs]
    exact and_congr_right fun hstep => ih (hnext s e hs hstep)

instance decidableAtEachStep (P : σ → ε → Prop) [∀ s e, Decidable (P s e)] :
    (s : σ) → (es : List ε) → Decidable (AtEachStep next P s es)
  | s, [] => isTrue (atEachStep_nil next P s)
  | s, e :: es =>
    have := decidableAtEachStep P (next s e) es
    decidable_of_iff _ (atEachStep_cons next).symm

/-- A property of the history and the state that holds at the start and survives every step of a
run holds after every prefix of it. -/
theorem run_induction {P : List ε → σ → Prop} {s : σ} {es : List ε} (hstart : P [] s)
    (hstep : ∀ pre e post, es = pre ++ e :: post → P pre (run next s pre) →
      P (pre ++ [e]) (next (run next s pre) e)) :
    ∀ pre post, es = pre ++ post → P pre (run next s pre) := by
  intro pre
  induction pre using List.reverseRecOn with
  | nil => exact fun _ _ => hstart
  | append_singleton pre e ih =>
    intro post hsplit
    rw [List.append_assoc, List.singleton_append] at hsplit
    rw [run_snoc]
    exact hstep pre e post hsplit (ih (e :: post) hsplit)

/-- What holds at the start and not at the end is lost by some step. -/
theorem exists_step_losing {P : σ → Prop} {s : σ} {es : List ε} (hstart : P s)
    (hend : ¬ P (run next s es)) : ∃ pre e post, es = pre ++ e :: post ∧ P (run next s pre) ∧
      ¬ P (run next s (pre ++ [e])) := by
  by_contra hnone
  have hall : ∀ pre post, es = pre ++ post → P (run next s pre) :=
    run_induction next (P := fun _ s => P s) hstart fun pre e post hsplit hpre =>
      by_contra fun hlost => hnone ⟨pre, e, post, hsplit, hpre, by rwa [run_snoc]⟩
  exact hend (hall es [] (List.append_nil es).symm)

/-- An invariant that a step keeps up exactly under a condition lasts along a run exactly when every
step of it meets the condition. -/
theorem invariant_iff_atEachStep {I : σ → Prop} {P : σ → ε → Prop}
    (hiff : ∀ s e, I s → (I (next s e) ↔ P s e)) {s : σ} (hs : I s) (es : List ε) :
    (∀ pre post, es = pre ++ post → I (run next s pre)) ↔ AtEachStep next P s es := by
  constructor
  · intro h pre e post hsplit
    have hnext := h (pre ++ [e]) post (by rw [hsplit, List.append_assoc, List.singleton_append])
    rw [run_snoc] at hnext
    exact (hiff _ e (h pre _ hsplit)).mp hnext
  · intro h
    apply run_induction next (P := fun _ s => I s) hs
    intro pre e post hsplit hpre
    exact (hiff _ e hpre).mpr (h pre e post hsplit)

end Run

/-! ### Machines that put out a value at every step -/

/-- What the machine puts out, event by event. -/
def outputs (step : σ → ε → σ × ω) : σ → List ε → List ω
  | _, [] => []
  | s, e :: es => (step s e).2 :: outputs step (step s e).1 es

def nextOf (step : σ → ε → σ × ω) (s : σ) (e : ε) : σ := (step s e).1

theorem outputs_append (step : σ → ε → σ × ω) (s : σ) (pre post : List ε) :
    outputs step s (pre ++ post)
      = outputs step s pre ++ outputs step (run (nextOf step) s pre) post := by
  induction pre generalizing s with
  | nil => rfl
  | cons e pre ih => rw [List.cons_append, outputs, ih, outputs, List.cons_append, run_cons, nextOf]

/-- Looking at the outputs through `f` is looking at the outputs of a machine that puts out `f`. -/
theorem map_outputs {ω' : Type*} (step : σ → ε → σ × ω) (f : ω → ω') (s : σ) (es : List ε) :
    (outputs step s es).map f = outputs (fun s e => ((step s e).1, f (step s e).2)) s es := by
  induction es generalizing s with
  | nil => rfl
  | cons e es ih => rw [outputs, List.map_cons, ih, outputs]

theorem outputs_eq {step₁ : σ → ε → σ × ω} {step₂ : τ → ε → τ × ω} {s : σ} {t : τ} {es : List ε}
    (hstep : ∀ pre e post, es = pre ++ e :: post →
      (step₁ (run (nextOf step₁) s pre) e).2 = (step₂ (run (nextOf step₂) t pre) e).2) :
    outputs step₁ s es = outputs step₂ t es := by
  induction es generalizing s t with
  | nil => rfl
  | cons e es ih =>
    have htail := ih (s := nextOf step₁ s e) (t := nextOf step₂ t e) fun pre e' post hsplit =>
      hstep (e :: pre) e' post (by rw [hsplit, List.cons_append])
    exact congrArg₂ List.cons (hstep [] e es rfl) htail

theorem forall₂_outputs {P : ε → ω → Prop} {step : σ → ε → σ × ω} {es : List ε}
    (h : ∀ s, ∀ e ∈ es, P e (step s e).2) (s : σ) : List.Forall₂ P es (outputs step s es) := by
  induction es generalizing s with
  | nil => exact .nil
  | cons e es ih =>
    obtain ⟨hhead, htail⟩ := (List.forall_mem_cons (p := fun e => ∀ s, P e (step s e).2)).mp
      fun e he s => h s e he
    exact .cons (hhead s) (ih (fun s e he => htail e he s) _)

/-- A machine that does the same on events that are alike. -/
theorem outputs_congr {R : ε → ε → Prop} {step : σ → ε → σ × ω} {es es' : List ε}
    (hstep : ∀ s e e', R e e' → step s e = step s e') (h : List.Forall₂ R es es') (s : σ) :
    outputs step s es = outputs step s es' ∧ run (nextOf step) s es = run (nextOf step) s es' := by
  induction h generalizing s with
  | nil => exact ⟨rfl, rfl⟩
  | cons hhead _ ih =>
    have hsame := hstep s _ _ hhead
    obtain ⟨houts, hlast⟩ := ih (step s _).1
    rw [outputs, outputs, run_cons, run_cons, nextOf, nextOf, ← hsame]
    exact ⟨congrArg _ houts, hlast⟩

/-! ### Machines with guards

Where several parties take their steps in any order, an event that a state does not allow leads
nowhere, and what counts is which states can be reached. -/

def Leads (step : σ → ε → Option σ) (s s' : σ) : Prop := ∃ e, step s e = some s'

def Reaches (step : σ → ε → Option σ) : σ → σ → Prop := Relation.ReflTransGen (Leads step)

section Reaches

variable {step : σ → ε → Option σ} {s s' s'' : σ}

theorem Reaches.refl (s : σ) : Reaches step s s := Relation.ReflTransGen.refl

theorem Reaches.trans (h : Reaches step s s') (h' : Reaches step s' s'') : Reaches step s s'' :=
  Relation.ReflTransGen.trans h h'

theorem Reaches.single (e : ε) (h : step s e = some s') : Reaches step s s' :=
  Relation.ReflTransGen.single ⟨e, h⟩

/-- What every step keeps up holds in all states that are reached. -/
theorem Reaches.invariant {I : σ → Prop} (hstep : ∀ s e s', I s → step s e = some s' → I s')
    (h : Reaches step s s') (hs : I s) : I s' := by
  induction h with
  | refl => exact hs
  | tail _ hlast ih =>
    obtain ⟨e, he⟩ := hlast
    exact hstep _ e _ ih he

/-- The state after a schedule. -/
def follow (step : σ → ε → Option σ) (s : σ) (es : List ε) : Option σ := es.foldlM step s

theorem follow_cons (e : ε) (es : List ε) :
    follow step s (e :: es) = (step s e).bind fun s' => follow step s' es := by
  rw [follow, List.foldlM_cons]
  rfl

theorem reaches_follow (es : List ε) (h : follow step s es = some s') : Reaches step s s' := by
  induction es generalizing s with
  | nil =>
    obtain rfl := Option.some.inj h
    exact Reaches.refl s
  | cons e es ih =>
    rw [follow_cons] at h
    obtain ⟨s₁, he, hes⟩ := Option.bind_eq_some_iff.mp h
    exact (Reaches.single e he).trans (ih hes)

/-- Where each step takes `rank` down by one, what is left of it tells the length of a schedule. -/
theorem follow_rank {I : σ → Prop} {rank : σ → Nat}
    (hstep : ∀ s e s', I s → step s e = some s' → I s' ∧ rank s' + 1 = rank s) {es : List ε}
    (hs : I s) (h : follow step s es = some s') : rank s' + es.length = rank s := by
  induction es generalizing s with
  | nil =>
    obtain rfl := Option.some.inj h
    rfl
  | cons e es ih =>
    rw [follow_cons] at h
    obtain ⟨s₁, he, hes⟩ := Option.bind_eq_some_iff.mp h
    obtain ⟨hs₁, hrank⟩ := hstep s e s₁ hs he
    rw [List.length_cons, ← hrank, ← ih hs₁ hes, Nat.add_assoc]

end Reaches

/-! ### Machines that may come to a stop

A step that is `none` is the end of the program. Two such machines on the same events are compared
by a relation on their states, which may know the events so far. -/

/-- The last state and what was put out on the way. -/
def attempt (step : σ → ε → Option (σ × ω)) : σ → List ε → Option (σ × List ω)
  | s, [] => some (s, [])
  | s, e :: es => (step s e).bind fun r =>
    (attempt step r.1 es).map fun rest => (rest.1, r.2 :: rest.2)

/-- Both stop, or both go on with the same output, in related states. -/
def Matched (R : σ → τ → Prop) : Option (σ × ω) → Option (τ × ω) → Prop
  | none, none => True
  | some r, some r' => R r.1 r'.1 ∧ r.2 = r'.2
  | _, _ => False

section Attempt

variable {step : σ → ε → Option (σ × ω)} {step' : τ → ε → Option (τ × ω)}

theorem Matched.intro {R : σ → τ → Prop} {s : σ} {t : τ} {o : ω} (h : R s t) :
    Matched R (some (s, o)) (some (t, o)) :=
  ⟨h, rfl⟩

theorem Matched.cases {R : σ → τ → Prop} {x : Option (σ × ω)} {y : Option (τ × ω)}
    (h : Matched R x y) : (x = none ∧ y = none) ∨
      ∃ s t o, x = some (s, o) ∧ y = some (t, o) ∧ R s t := by
  cases x with
  | none =>
    cases y with
    | none => exact .inl ⟨rfl, rfl⟩
    | some r' => exact h.elim
  | some r =>
    cases y with
    | none => exact h.elim
    | some r' =>
      obtain ⟨hrel, hout⟩ := h
      exact .inr ⟨r.1, r'.1, r.2, rfl, by rw [hout], hrel⟩

theorem Matched.mono {R R' : σ → τ → Prop} {x : Option (σ × ω)} {y : Option (τ × ω)}
    (h : Matched R x y) (hR : ∀ s t o, x = some (s, o) → y = some (t, o) → R s t → R' s t) :
    Matched R' x y := by
  obtain ⟨rfl, rfl⟩ | ⟨s, t, o, rfl, rfl, hrel⟩ := h.cases
  · trivial
  · exact .intro (hR s t o rfl rfl hrel)

theorem Matched.map {ω' : Type*} {R : σ → τ → Prop} {x : Option (σ × ω)} {y : Option (τ × ω)}
    (h : Matched R x y) (f : ω → ω') :
    Matched R (x.map fun r => (r.1, f r.2)) (y.map fun r => (r.1, f r.2)) := by
  obtain ⟨rfl, rfl⟩ | ⟨s, t, o, rfl, rfl, hrel⟩ := h.cases
  · trivial
  · exact .intro hrel

theorem Matched.map_snd {R : σ → τ → Prop} {x : Option (σ × ω)} {y : Option (τ × ω)}
    (h : Matched R x y) : x.map Prod.snd = y.map Prod.snd := by
  obtain ⟨rfl, rfl⟩ | ⟨s, t, o, rfl, rfl, -⟩ := h.cases
  · rfl
  · rfl

/-- What holds step by step holds of the run. -/
theorem attempt_matched {R : List ε → σ → τ → Prop} {es : List ε}
    (hstep : ∀ pre e post, es = pre ++ e :: post → ∀ s t, R pre s t →
      Matched (R (pre ++ [e])) (step s e) (step' t e))
    {s : σ} {t : τ} (h : R [] s t) : Matched (R es) (attempt step s es) (attempt step' t es) := by
  have hall : ∀ post pre, es = pre ++ post → ∀ s t, R pre s t →
      Matched (R es) (attempt step s post) (attempt step' t post) := by
    intro post
    induction post with
    | nil =>
      intro pre hsplit s t h
      rw [List.append_nil] at hsplit
      subst hsplit
      exact .intro h
    | cons e post ih =>
      intro pre hsplit s t h
      rw [attempt, attempt]
      rcases (hstep pre e post hsplit s t h).cases with ⟨hs, ht⟩ | ⟨s', t', o, hs, ht, hnext⟩
      · rw [hs, ht]
        trivial
      · rw [hs, ht, Option.bind_some, Option.bind_some]
        have hrest := ih (pre ++ [e]) (by rw [hsplit, List.append_assoc, List.singleton_append])
          s' t' hnext
        rcases hrest.cases with ⟨hs', ht'⟩ | ⟨s'', t'', os, hs', ht', hlast⟩
        · rw [hs', ht']
          trivial
        · rw [hs', ht']
          exact .intro hlast
  exact hall es [] rfl s t h

theorem attempt_append (s : σ) (pre post : List ε) : attempt step s (pre ++ post) =
    (attempt step s pre).bind fun r =>
      (attempt step r.1 post).map fun rest => (rest.1, r.2 ++ rest.2) := by
  induction pre generalizing s with
  | nil => simp [attempt]
  | cons e pre ih =>
    rw [List.cons_append, attempt, attempt]
    cases step s e with
    | none => rfl
    | some r =>
      rw [Option.bind_some, Option.bind_some, ih]
      cases attempt step r.1 pre with
      | none => rfl
      | some r' => simp [Function.comp_def]

/-- A machine that never stops. -/
theorem attempt_some (step : σ → ε → σ × ω) (s : σ) (es : List ε) :
    attempt (fun s e => some (step s e)) s es
      = some (run (nextOf step) s es, outputs step s es) := by
  induction es generalizing s with
  | nil => rfl
  | cons e es ih =>
    rw [attempt, Option.bind_some, ih]
    rfl

end Attempt

/-! ### Clocks -/

/-- The clock readings taken along the events never go back. -/
def Nondecreasing (readings : ε → List Nat) (es : List ε) : Prop :=
  (es.flatMap readings).Pairwise (· ≤ ·)

instance (readings : ε → List Nat) (es : List ε) : Decidable (Nondecreasing readings es) :=
  inferInstanceAs (Decidable (List.Pairwise _ _))

section Clock

variable {readings : ε → List Nat} {pre post : List ε} {e : ε}

theorem Nondecreasing.le_of_mem (h : Nondecreasing readings (pre ++ e :: post)) {past now : Nat}
    (hpast : past ∈ pre.flatMap readings) (hnow : now ∈ readings e) : past ≤ now := by
  rw [Nondecreasing, List.flatMap_append, List.flatMap_cons] at h
  exact (List.pairwise_append.mp h).2.2 past hpast now (List.mem_append_left _ hnow)

end Clock

end MiniNet.Lib
