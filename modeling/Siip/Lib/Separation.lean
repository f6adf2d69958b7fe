/-
  Machines whose actions belong to components, and what one component sees of a run.

  `Separated` has the three step conditions: an action of another component does not show, and the
  result and the effect of an action depend on what its own component sees. They carry over to
  runs by induction: a component sees the same in a run and in the run of its own actions
  (`view_run`, `trace_filter`), and two adjacent actions of different components can be swapped
  (`view_swap`, `trace_swap`).
-/
import Siip.Lib.Run

namespace Siip.Lib

universe u v w x y

variable {σ : Type u} {α : Type v} {ρ : Type w} {D : Type x} {O : Type y}

/-- The actions of a run, each with its result. -/
def trace (step : σ → α → σ) (out : σ → α → ρ) : σ → List α → List (α × ρ)
  | _, [] => []
  | s, a :: as => (a, out s a) :: trace step out (step s a) as

theorem trace_append (step : σ → α → σ) (out : σ → α → ρ) (s : σ) (as bs : List α) :
    trace step out s (as ++ bs) = trace step out s as ++ trace step out (run step s as) bs := by
  induction as generalizing s with
  | nil => rfl
  | cons a as ih => rw [List.cons_append, trace, trace, ih, run_cons, List.cons_append]

theorem length_trace (step : σ → α → σ) (out : σ → α → ρ) (s : σ) (as : List α) :
    (trace step out s as).length = as.length := by
  induction as generalizing s with
  | nil => rfl
  | cons a as ih => rw [trace, List.length_cons, List.length_cons, ih]

/-- An action is seen by the component that it belongs to, and by no other. -/
structure Separated (step : σ → α → σ) (out : σ → α → ρ) (owner : α → D) (view : D → σ → O) :
    Prop where
  frame : ∀ {d : D} (s : σ) {a : α}, owner a ≠ d → view d (step s a) = view d s
  result : ∀ {s t : σ} (a : α), view (owner a) s = view (owner a) t → out s a = out t a
  effect : ∀ {s t : σ} (a : α), view (owner a) s = view (owner a) t →
    view (owner a) (step s a) = view (owner a) (step t a)

namespace Separated

variable {step : σ → α → σ} {out : σ → α → ρ} {owner : α → D} {view : D → σ → O}
  (h : Separated step out owner view)

include h

section Own

variable [DecidableEq D] {d : D} {s t : σ}

/-- What a component sees after a run is what it sees after its own actions. -/
theorem view_run (hview : view d s = view d t) (as : List α) :
    view d (run step s as) = view d (run step t (as.filter fun a => owner a = d)) := by
  induction as generalizing s t with
  | nil => exact hview
  | cons a as ih =>
    rw [run_cons]
    by_cases ha : owner a = d
    · rw [List.filter_cons_of_pos (by simp [ha]), run_cons]
      subst ha
      exact ih (h.effect a hview)
    · rw [List.filter_cons_of_neg (by simp [ha])]
      exact ih ((h.frame s ha).trans hview)

theorem trace_filter (hview : view d s = view d t) (as : List α) :
    (trace step out s as).filter (fun p => owner p.1 = d) =
      trace step out t (as.filter fun a => owner a = d) := by
  induction as generalizing s t with
  | nil => rfl
  | cons a as ih =>
    rw [trace]
    by_cases ha : owner a = d
    · rw [List.filter_cons_of_pos (by simp [ha]), List.filter_cons_of_pos (by simp [ha]), trace]
      subst ha
      rw [h.result a hview, ih (h.effect a hview)]
    · rw [List.filter_cons_of_neg (by simp [ha]), List.filter_cons_of_neg (by simp [ha])]
      exact ih ((h.frame s ha).trans hview)

end Own

/-- States that no component can tell apart stay so, with the same results. -/
theorem congr {s t : σ} (hview : ∀ d, view d s = view d t) (as : List α) :
    trace step out s as = trace step out t as ∧
      ∀ d, view d (run step s as) = view d (run step t as) := by
  induction as generalizing s t with
  | nil => exact ⟨rfl, hview⟩
  | cons a as ih =>
    have hstep : ∀ d, view d (step s a) = view d (step t a) := by
      intro d
      by_cases ha : owner a = d
      · subst ha
        exact h.effect a (hview _)
      · rw [h.frame s ha, h.frame t ha, hview d]
    obtain ⟨htrace, hrun⟩ := ih hstep
    refine ⟨?_, hrun⟩
    rw [trace, trace, h.result a (hview _), htrace]

section Swap

variable {a b : α} (hab : owner a ≠ owner b)

include hab

theorem view_swap (s : σ) (d : D) :
    view d (step (step s a) b) = view d (step (step s b) a) := by
  by_cases hb : owner b = d
  · subst hb
    rw [h.frame (step s b) hab]
    exact h.effect b (h.frame s hab)
  · rw [h.frame (step s a) hb]
    by_cases ha : owner a = d
    · subst ha
      exact h.effect a (h.frame s hb).symm
    · rw [h.frame s ha, h.frame (step s b) ha, h.frame s hb]

/-- Swapping two adjacent actions of different components swaps their results, and changes no
    other result and nothing that a component sees in the end. -/
theorem trace_swap (s : σ) (as bs : List α) :
    ∃ before ra rb after,
      trace step out s (as ++ a :: b :: bs) = before ++ (a, ra) :: (b, rb) :: after ∧
      trace step out s (as ++ b :: a :: bs) = before ++ (b, rb) :: (a, ra) :: after ∧
      before.length = as.length ∧
      ∀ d, view d (run step s (as ++ a :: b :: bs)) = view d (run step s (as ++ b :: a :: bs)) := by
  have hb : out (step (run step s as) a) b = out (run step s as) b := h.result b (h.frame _ hab)
  have ha : out (step (run step s as) b) a = out (run step s as) a :=
    h.result a (h.frame _ hab.symm)
  obtain ⟨htrace, hrun⟩ := h.congr (h.view_swap hab (run step s as)) bs
  refine ⟨trace step out s as, out (run step s as) a, out (run step s as) b,
    trace step out (step (step (run step s as) a) b) bs, ?_, ?_, length_trace step out s as, ?_⟩
  · rw [trace_append, trace, trace, hb]
  · rw [trace_append, trace, trace, ha, htrace]
  · simp only [run_append, run_cons]
    exact hrun

end Swap

end Separated

end Siip.Lib
