/-
  Runs of a deterministic machine: a step function `σ → α → σ` folded over a finite list of
  actions.

  * `run_invariant`: an invariant that every step keeps holds after every run.
  * `run_invariant_of`: the same when only the actions of this run keep it.
  * `Always`: a property holds in every state the run passes through, both ends included.
  * `EachStep`: a condition on the state before a step and its action holds at every step.
  * `run_history`: an invariant that speaks about the actions taken so far.
  * `always_iff_eachStep`: where, under a standing invariant, one step keeps the property
    exactly when its condition holds, whole runs keep it exactly when all their steps meet it.
  * `loop_invariant`: an invariant of a loop whose body may fail.
-/
import Mathlib.Data.List.Induction

namespace Siip.Lib

universe u v

variable {σ : Type u} {α : Type v}

/-- The state after the actions `as`, taken in order from `s`. -/
def run (step : σ → α → σ) (s : σ) (as : List α) : σ := as.foldl step s

variable {step : σ → α → σ}

@[simp] theorem run_nil (s : σ) : run step s [] = s := rfl

@[simp] theorem run_cons (s : σ) (a : α) (as : List α) :
    run step s (a :: as) = run step (step s a) as := rfl

theorem run_append (s : σ) (as bs : List α) :
    run step s (as ++ bs) = run step (run step s as) bs :=
  List.foldl_append

/-! ## Invariants -/

theorem run_invariant_of {Inv : σ → Prop} {Act : α → Prop}
    (hstep : ∀ s a, Inv s → Act a → Inv (step s a)) {s : σ} (hs : Inv s) {as : List α}
    (has : ∀ a ∈ as, Act a) : Inv (run step s as) := by
  induction as generalizing s with
  | nil => exact hs
  | cons a as ih =>
    have ha : Inv (step s a) := hstep s a hs (has a (List.mem_cons_self))
    exact ih ha (fun b hb => has b (List.mem_cons_of_mem _ hb))

theorem run_invariant {Inv : σ → Prop} (hstep : ∀ s a, Inv s → Inv (step s a)) {s : σ}
    (hs : Inv s) (as : List α) : Inv (run step s as) :=
  run_invariant_of (fun s a h (_ : True) => hstep s a h) hs (fun _ _ => trivial)

theorem run_concat (s : σ) (as : List α) (a : α) :
    run step s (as ++ [a]) = step (run step s as) a :=
  run_append s as [a]

/-- The invariant may speak about the actions that led to the state. -/
theorem run_history {Inv : List α → σ → Prop} {s : σ} (hnil : Inv [] s)
    (hstep : ∀ as a, Inv as (run step s as) → Inv (as ++ [a]) (step (run step s as) a))
    (as : List α) : Inv as (run step s as) := by
  induction as using List.reverseRecOn with
  | nil => exact hnil
  | append_singleton as a ih =>
    rw [run_concat]
    exact hstep as a ih

/-- A run that leaves `P` has a first step out of it. -/
theorem exists_leaving {P : σ → Prop} {s : σ} {as : List α} (hs : P s) (h : ¬ P (run step s as)) :
    ∃ pre a post, as = pre ++ a :: post ∧ P (run step s pre) ∧ ¬ P (step (run step s pre) a) := by
  induction as generalizing s with
  | nil => exact absurd hs h
  | cons a as ih =>
    by_cases hP : P (step s a)
    · obtain ⟨pre, b, post, rfl, hpre, hb⟩ := ih hP h
      exact ⟨a :: pre, b, post, rfl, hpre, hb⟩
    · exact ⟨[], a, as, rfl, hs, hP⟩

/-! ## Properties of every state on the way -/

/-- `P` holds in every state of the run of `as` from `s`, the first and the last included. -/
def Always (step : σ → α → σ) (P : σ → Prop) : σ → List α → Prop
  | s, [] => P s
  | s, a :: as => P s ∧ Always step P (step s a) as

/-- `C` holds of the state before each step of the run of `as` from `s` and of its action. -/
def EachStep (step : σ → α → σ) (C : σ → α → Prop) : σ → List α → Prop
  | _, [] => True
  | s, a :: as => C s a ∧ EachStep step C (step s a) as

theorem Always.head {P : σ → Prop} {s : σ} {as : List α} (h : Always step P s as) : P s := by
  cases as with
  | nil => exact h
  | cons a as => exact h.1

theorem Always.run_prefix {P : σ → Prop} {s : σ} {as bs : List α}
    (h : Always step P s (as ++ bs)) : P (run step s as) := by
  induction as generalizing s with
  | nil => exact h.head
  | cons a as ih => exact ih h.2

theorem eachStep_append {C : σ → α → Prop} {s : σ} {as bs : List α} :
    EachStep step C s (as ++ bs) ↔ EachStep step C s as ∧ EachStep step C (run step s as) bs := by
  induction as generalizing s with
  | nil => simp [EachStep]
  | cons a as ih => rw [List.cons_append, EachStep, EachStep, ih, run_cons, and_assoc]

theorem eachStep_concat {C : σ → α → Prop} {s : σ} {as : List α} {a : α} :
    EachStep step C s (as ++ [a]) ↔ EachStep step C s as ∧ C (run step s as) a := by
  rw [eachStep_append, EachStep, EachStep, and_true]

theorem always_concat {P : σ → Prop} {s : σ} {as : List α} {a : α} :
    Always step P s (as ++ [a]) ↔ Always step P s as ∧ P (step (run step s as) a) := by
  induction as generalizing s with
  | nil => rfl
  | cons b as ih => rw [List.cons_append, Always, Always, ih, run_cons, and_assoc]

/-- The run rule for an exact step condition. -/
theorem always_iff_eachStep {Inv P : σ → Prop} {C : σ → α → Prop}
    (hinv : ∀ s a, Inv s → Inv (step s a))
    (hexact : ∀ s a, Inv s → P s → (P (step s a) ↔ C s a)) {s : σ} (hs : Inv s) (hP : P s)
    (as : List α) : Always step P s as ↔ EachStep step C s as := by
  induction as generalizing s with
  | nil => exact ⟨fun _ => trivial, fun _ => hP⟩
  | cons a as ih =>
    have ih' := fun h => ih (hinv s a hs) h
    constructor
    · intro h
      obtain ⟨-, h⟩ := h
      exact ⟨(hexact s a hs hP).mp h.head, (ih' h.head).mp h⟩
    · intro h
      obtain ⟨hC, h⟩ := h
      have hP' : P (step s a) := (hexact s a hs hP).mpr hC
      exact ⟨hP, (ih' hP').mpr h⟩

/-! ## Loops that may fail -/

variable {ε : Type v} {goesOn : σ → Bool} {body : σ → α → Except ε σ}

/-- `while goesOn: body`, with one action for each time that the body is entered. -/
def loop (goesOn : σ → Bool) (body : σ → α → Except ε σ) : σ → List α → Except ε σ
  | s, [] => .ok s
  | s, a :: as =>
    if goesOn s then
      match body s a with
      | .error e => .error e
      | .ok s' => loop goesOn body s' as
    else .ok s

theorem loop_invariant {Inv : σ → Prop}
    (hbody : ∀ {s a s'}, Inv s → body s a = .ok s' → Inv s') {s s' : σ} (hs : Inv s)
    {as : List α} (h : loop goesOn body s as = .ok s') : Inv s' := by
  induction as generalizing s with
  | nil =>
    obtain ⟨⟩ := h
    exact hs
  | cons a as ih =>
    rw [loop] at h
    split at h
    · split at h
      · exact absurd h (by simp)
      · rename_i s'' ha
        exact ih (hbody hs ha) h
    · obtain ⟨⟩ := h
      exact hs

end Siip.Lib
