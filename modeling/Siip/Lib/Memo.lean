/-
  A memo table in front of a source that changes.

  Lookups are answered from the table where it has an answer, and otherwise from the source, whose
  answers are kept; nothing is ever dropped from the table. `find?_run` says what such a table
  holds after any interleaving of changes and lookups: for each key the first answer that a lookup
  of it found in the source.
-/
import Siip.Lib.Run
import Siip.Lib.StorageMap

namespace Siip.Lib.Memo

universe u v

variable {S X : Type u} {K V : Type v}

/-- A change of the source, or a lookup. -/
inductive Op (X : Type u) (K : Type v) where
  | change (x : X)
  | ask (k : K)

structure Cached (S : Type u) (K V : Type v) where
  source : S
  memo : StorageMap K V

/-- The changes among the operations. -/
def changes (ops : List (Op X K)) : List X :=
  ops.filterMap fun
    | .change x => some x
    | .ask _ => none

/-- The source after the operations. -/
def sourceAfter (update : S → X → S) (s : S) (ops : List (Op X K)) : S := run update s (changes ops)

variable [DecidableEq K]

/-- An answer is kept where there is none yet. -/
def remember (m : StorageMap K V) (k : K) (v : Option V) : StorageMap K V :=
  match m.find? k, v with
  | none, some v => m.insert k v
  | _, _ => m

section

variable {m : StorageMap K V} {k : K}

theorem remember_none : remember m k none = m := by
  unfold remember
  split
  · rename_i hv
    cases hv
  · rfl

theorem remember_of_some {v : V} (h : m.find? k = some v) (v' : Option V) :
    remember m k v' = m := by
  unfold remember
  rw [h]

theorem remember_of_none (h : m.find? k = none) (v : V) :
    remember m k (some v) = m.insert k v := by
  unfold remember
  rw [h]

end

variable (update : S → X → S) (now : S → K → Option V)

def Cached.step (c : Cached S K V) : Op X K → Cached S K V
  | .change x => { c with source := update c.source x }
  | .ask k => { c with memo := remember c.memo k (now c.source k) }

/-- The first answer that a lookup of `k` among the operations finds in the source. -/
def firstFound (k : K) : S → List (Op X K) → Option V
  | _, [] => none
  | s, .change x :: ops => firstFound k (update s x) ops
  | s, .ask k' :: ops => (if k' = k then now s k else none).or (firstFound k s ops)

theorem find?_remember (m : StorageMap K V) (k k' : K) (v : Option V) :
    (remember m k' v).find? k = (m.find? k).or (if k' = k then v else none) := by
  unfold remember
  by_cases hk : k' = k
  · subst hk
    cases hm : m.find? k' <;> cases v <;> simp [hm]
  · split
    · rw [StorageMap.find?_insert_of_ne m _ (Ne.symm hk), if_neg hk, Option.or_none]
    · rw [if_neg hk, Option.or_none]

theorem source_run (c : Cached S K V) (ops : List (Op X K)) :
    (run (Cached.step update now) c ops).source = sourceAfter update c.source ops := by
  induction ops generalizing c with
  | nil => rfl
  | cons op ops ih => cases op <;> exact ih _

/-- The first answer for a key is the answer for good. -/
theorem find?_run (c : Cached S K V) (ops : List (Op X K)) (k : K) :
    (run (Cached.step update now) c ops).memo.find? k =
      (c.memo.find? k).or (firstFound update now k c.source ops) := by
  induction ops generalizing c with
  | nil => rw [run_nil, firstFound, Option.or_none]
  | cons op ops ih =>
    rw [run_cons, ih]
    cases op with
    | change x => rfl
    | ask k' =>
      change ((remember c.memo k' (now c.source k')).find? k).or _ = _
      rw [find?_remember, firstFound, Option.or_assoc]
      by_cases hk : k' = k
      · subst hk
        rfl
      · rw [if_neg hk, if_neg hk]
        rfl

theorem firstFound_append (k : K) (s : S) (ops ops' : List (Op X K)) :
    firstFound update now k s (ops ++ ops') = (firstFound update now k s ops).or
      (firstFound update now k (sourceAfter update s ops) ops') := by
  induction ops generalizing s with
  | nil => rfl
  | cons op ops ih =>
    cases op with
    | change x => exact ih (update s x)
    | ask k' =>
      rw [List.cons_append, firstFound, firstFound, ih, Option.or_assoc]
      rfl

/-- Nothing is found when no lookup of the key finds anything at its time. -/
theorem firstFound_eq_none_iff {k : K} {s : S} {ops : List (Op X K)} :
    firstFound update now k s ops = none ↔
      ∀ pre post, ops = pre ++ .ask k :: post → now (sourceAfter update s pre) k = none := by
  constructor
  · rintro h pre post rfl
    rw [firstFound_append, Option.or_eq_none_iff, firstFound, if_pos rfl,
      Option.or_eq_none_iff] at h
    exact h.2.1
  · intro h
    induction ops generalizing s with
    | nil => rfl
    | cons op ops ih =>
      cases op with
      | change x => exact ih fun pre post hops => h (.change x :: pre) post (congrArg _ hops)
      | ask k' =>
        have hrest : firstFound update now k s ops = none :=
          ih fun pre post hops => h (.ask k' :: pre) post (congrArg _ hops)
        rw [firstFound, hrest, Option.or_none]
        split
        · rename_i hk
          subst hk
          exact h [] ops rfl
        · rfl

end Siip.Lib.Memo
