/-
  No hijacking: whatever the other accounts call, in any order and on any domains, the entry of
  an owner who signs nothing stays as it is, in both maps.

  `find?_step_of_foreign` is the one-step fact (a call that is not signed by the owner of `d`
  leaves `CertificateMap[d]` alone); `no_hijacking` carries it through runs, beside the
  completeness invariant of the reverse map.
-/
import Siip.Pallet.ReverseLookup

namespace Siip.Pallet

open Lib

variable {A : Type} [DecidableEq A] [Inhabited A]

theorem find?_step_of_foreign (env : Env) (s : Storage A) (x : Extrinsic A) {d : Bytes}
    {c : Certificate A} (hd : s.certificateMap.find? d = some c)
    (hx : x.origin ≠ .signed c.ownerId) : (step env s x).certificateMap.find? d = some c := by
  have heff := effect_dispatch env s x
  generalize step env s x = s', result env s x = r at heff
  cases heff with
  | refused e => exact hd
  | registered who n d' ip i k fields fresh =>
    have hne : d ≠ d' := by
      rintro rfl
      exact absurd (hd.symm.trans fresh) (Option.some_ne_none c)
    rw [← hd]
    exact StorageMap.find?_insert_of_ne _ _ hne
  | modified n d' ip i k old fields stored changed =>
    have hne : d ≠ d' := by
      rintro rfl
      obtain rfl : c = old := Option.some.inj (hd.symm.trans stored)
      exact hx rfl
    rw [← hd]
    exact StorageMap.find?_insert_of_ne _ _ hne
  | removed d' old domain stored =>
    have hne : d ≠ d' := by
      rintro rfl
      obtain rfl : c = old := Option.some.inj (hd.symm.trans stored)
      exact hx rfl
    rw [← hd]
    exact StorageMap.find?_remove_of_ne _ hne

/-- After any run `xs` in which `c` got stored under `d`, a continuation `ys` without a call
    signed by its owner leaves `c` under `d` and in the bucket of its address. -/
theorem no_hijacking (env : Env) (xs ys : List (Extrinsic A)) (d : Bytes) (c : Certificate A)
    (hreg : (runFromEmpty env xs).certificateMap.find? d = some c)
    (hother : ∀ y ∈ ys, y.origin ≠ .signed c.ownerId) :
    (runFromEmpty env (xs ++ ys)).certificateMap.find? d = some c ∧
      c ∈ ipToCertificates (runFromEmpty env (xs ++ ys)) c.ipAddr := by
  have hstored : (runFromEmpty env (xs ++ ys)).certificateMap.find? d = some c := by
    have hstep : ∀ (s : Storage A) (x : Extrinsic A), s.certificateMap.find? d = some c →
        x.origin ≠ .signed c.ownerId → (step env s x).certificateMap.find? d = some c :=
      fun s x hs hx => find?_step_of_foreign env s x hs hx
    rw [runFromEmpty, run_append]
    exact run_invariant_of hstep hreg hother
  exact ⟨hstored, (indexed_run env (xs ++ ys)).complete d c hstored⟩

/-- Account 2 tries to take `ab.cd` from account 1. -/
theorem no_hijacking_ab :
    (runFromEmpty asciiEnv ([registerAb 1] ++ [registerAb 2])).certificateMap.find?
        (asBytes "ab.cd") = some (certAb 1) ∧
      certAb 1 ∈ ipToCertificates (runFromEmpty asciiEnv ([registerAb 1] ++ [registerAb 2]))
        (certAb 1).ipAddr := by
  refine no_hijacking asciiEnv [registerAb 1] [registerAb 2] (asBytes "ab.cd") (certAb 1)
    (find?_registerAb 1) ?_
  intro y hy h
  rw [List.mem_singleton.mp hy] at h
  exact absurd (Origin.signed.inj h) (by decide)

end Siip.Pallet
