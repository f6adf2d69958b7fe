/-
  Two programs in lockstep: relational rules for programs that fail and change a state.

  `Agrees R m m' s s'` says that `m` from `s` and `m'` from `s'` return or throw the same and leave
  related states. There is one rule for each way to build a program. The states of the two may be
  of different types, so this is how a program over a concrete state is compared with one over an
  abstract state.
-/

namespace Siip.Lib

universe u

variable {ε σ σ' : Type u} {α β : Type u}

/-- What `m` returns from `s`, and the state after it. -/
def runFrom (m : ExceptT ε (StateM σ) α) (s : σ) : Except ε α × σ := (m.run.run s).run

structure Agrees (R : σ → σ' → Prop) (m : ExceptT ε (StateM σ) α) (m' : ExceptT ε (StateM σ') α)
    (s : σ) (s' : σ') : Prop where
  returned : (runFrom m s).1 = (runFrom m' s').1
  related : R (runFrom m s).2 (runFrom m' s').2

section

variable (s : σ)

-- `(rfl)`, not `rfl`: unfolding a whole program by definitional equality is slow in the kernel.
@[simp] theorem runFrom_get_bind (f : σ → ExceptT ε (StateM σ) α) :
    runFrom (get >>= f) s = runFrom (f s) s := (rfl)

@[simp] theorem runFrom_modify_bind (g : σ → σ) (f : PUnit → ExceptT ε (StateM σ) α) :
    runFrom (modify g >>= f) s = runFrom (f ⟨⟩) (g s) := (rfl)

@[simp] theorem runFrom_modifyGet_bind (g : σ → β × σ) (f : β → ExceptT ε (StateM σ) α) :
    runFrom (modifyGet g >>= f) s = runFrom (f (g s).1) (g s).2 := (rfl)

@[simp] theorem runFrom_modify (g : σ → σ) :
    runFrom (modify g : ExceptT ε (StateM σ) PUnit) s = (.ok ⟨⟩, g s) := (rfl)

end

theorem runFrom_bind (m : ExceptT ε (StateM σ) α) (f : α → ExceptT ε (StateM σ) β) (s : σ) :
    runFrom (m >>= f) s =
      match runFrom m s with
      | (.ok a, t) => runFrom (f a) t
      | (.error e, t) => (.error e, t) := by
  change (ExceptT.bindCont f (runFrom m s).1 (runFrom m s).2) = _
  obtain ⟨_ | a, t⟩ := runFrom m s <;> rfl

variable {R Q : σ → σ' → Prop} {s : σ} {s' : σ'}

theorem agrees_pure (h : R s s') (a : α) :
    Agrees R (pure a : ExceptT ε (StateM σ) α) (pure a) s s' := ⟨rfl, h⟩

theorem agrees_throw (h : R s s') (e : ε) :
    Agrees R (throw e : ExceptT ε (StateM σ) α) (throw e) s s' := ⟨rfl, h⟩

theorem agrees_modify {f : σ → σ} {f' : σ' → σ'} (h : R (f s) (f' s')) :
    Agrees R (modify f : ExceptT ε (StateM σ) PUnit) (modify f') s s' := ⟨rfl, h⟩

/-- In sequence; `Q` need hold only where the first part fails. -/
theorem Agrees.bind {m : ExceptT ε (StateM σ) α} {m' : ExceptT ε (StateM σ') α}
    {f : α → ExceptT ε (StateM σ) β} {f' : α → ExceptT ε (StateM σ') β}
    (h : Agrees R m m' s s') (hfail : ∀ t t', R t t' → Q t t')
    (hf : ∀ a t t', R t t' → Agrees Q (f a) (f' a) t t') :
    Agrees Q (m >>= f) (m' >>= f') s s' := by
  obtain ⟨hreturned, hrelated⟩ := h
  have hm := runFrom_bind m f s
  have hm' := runFrom_bind m' f' s'
  generalize runFrom m s = r at hreturned hrelated hm
  generalize runFrom m' s' = r' at hreturned hrelated hm'
  obtain ⟨x, t⟩ := r
  obtain ⟨x', t'⟩ := r'
  dsimp only at hreturned hrelated
  subst hreturned
  cases x with
  | error e =>
    refine ⟨?_, ?_⟩
    · rw [hm, hm']
    · rw [hm, hm']
      exact hfail t t' hrelated
  | ok a =>
    obtain ⟨hreturned, hrelated⟩ := hf a t t' hrelated
    refine ⟨?_, ?_⟩
    · rw [hm, hm']
      exact hreturned
    · rw [hm, hm']
      exact hrelated

theorem Agrees.get_bind {f : σ → ExceptT ε (StateM σ) β} {f' : σ' → ExceptT ε (StateM σ') β}
    (h : Agrees R (f s) (f' s') s s') : Agrees R (get >>= f) (get >>= f') s s' := ⟨h.1, h.2⟩

theorem Agrees.modifyGet_bind {g : σ → α × σ} {g' : σ' → α × σ'}
    {f : α → ExceptT ε (StateM σ) β} {f' : α → ExceptT ε (StateM σ') β}
    (heq : (g s).1 = (g' s').1) (h : Agrees R (f (g s).1) (f' (g s).1) (g s).2 (g' s').2) :
    Agrees R (modifyGet g >>= f) (modifyGet g' >>= f') s s' := by
  rw [heq] at h
  have hleft := runFrom_modifyGet_bind s g f
  rw [heq] at hleft
  refine ⟨?_, ?_⟩
  · rw [hleft, runFrom_modifyGet_bind]
    exact h.returned
  · rw [hleft, runFrom_modifyGet_bind]
    exact h.related

theorem Agrees.modify_bind {g : σ → σ} {g' : σ' → σ'} {f : PUnit → ExceptT ε (StateM σ) β}
    {f' : PUnit → ExceptT ε (StateM σ') β} (h : Agrees R (f ⟨⟩) (f' ⟨⟩) (g s) (g' s')) :
    Agrees R (modify g >>= f) (modify g' >>= f') s s' := ⟨h.1, h.2⟩

end Siip.Lib
