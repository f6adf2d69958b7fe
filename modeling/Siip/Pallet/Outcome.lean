/-
  When a call succeeds, and that a call that fails changes nothing.

  The guards of the three dispatchables are read off their `runFrom` equations. `remove_certificate`
  also checks the domain; in a reachable state that check never stops an owner, because
  everything stored passed it (`wellFormed_run`).
-/
import Siip.Pallet.WellFormed

namespace Siip.Pallet

open Lib

variable {A : Type}

section Guards

variable [DecidableEq A] [Inhabited A] {env : Env} {s : Storage A} {o : Origin A}
  {n d ip i k : Bytes}

theorem result_registerCertificate_iff :
    result env s ⟨o, .registerCertificate n d ip i k⟩ = .ok () ↔
      ∃ who, o = .signed who ∧ Accepted env (newCert who n d ip i k) ∧
        s.certificateMap.find? d = none := by
  simp only [accepted_newCert_iff, result, Store.dispatch, runFrom_registerCertificate]
  cases o with
  | root => simp
  | none => simp
  | signed who =>
    cases hf : fieldError env n d ip i k with
    | some e => simp
    | none => cases hd : s.certificateMap.find? d <;> simp

theorem result_modifyCertificate_iff :
    result env s ⟨o, .modifyCertificate n d ip i k⟩ = .ok () ↔
      ∃ who old, o = .signed who ∧ Accepted env (newCert who n d ip i k) ∧
        s.certificateMap.find? d = some old ∧ old.ownerId = who ∧
        newCert who n d ip i k ≠ old := by
  simp only [accepted_newCert_iff, result, Store.dispatch, runFrom_modifyCertificate]
  cases o with
  | root => simp
  | none => simp
  | signed who =>
    cases hf : fieldError env n d ip i k with
    | some e => simp
    | none =>
      cases hd : s.certificateMap.find? d with
      | none => simp
      | some old =>
        dsimp only
        split_ifs with hw hc
        · refine iff_of_false (by simp) fun h => ?_
          obtain ⟨_, _, ⟨⟩, -, ⟨⟩, rfl, -⟩ := h
          exact hw rfl
        · refine iff_of_false (by simp) fun h => ?_
          obtain ⟨_, _, ⟨⟩, -, ⟨⟩, -, hne⟩ := h
          exact hne hc
        · obtain rfl : who = old.ownerId := not_not.mp hw
          simp [hc]

theorem result_removeCertificate_iff :
    result env s ⟨o, .removeCertificate d⟩ = .ok () ↔
      ∃ who old, o = .signed who ∧ accepts (checkDomain env d) = true ∧
        s.certificateMap.find? d = some old ∧ old.ownerId = who := by
  simp only [result, Store.dispatch, runFrom_removeCertificate]
  cases o with
  | root => simp
  | none => simp
  | signed who =>
    dsimp only
    split_ifs with hacc
    · cases hd : s.certificateMap.find? d with
      | none => simp
      | some old =>
        dsimp only
        split_ifs with hw
        · refine iff_of_false (by simp) fun h => ?_
          obtain ⟨_, _, ⟨⟩, -, ⟨⟩, rfl⟩ := h
          exact hw rfl
        · obtain rfl : who = old.ownerId := not_not.mp hw
          simp [hacc]
    · simp [hacc]

/-- A refused call leaves the whole storage as it is. -/
theorem step_of_error {x : Extrinsic A} {e : DispatchError} (h : result env s x = .error e) :
    step env s x = s := by
  have heff := effect_dispatch env s x
  rw [h] at heff
  generalize step env s x = s' at heff
  cases heff
  rfl

end Guards

variable [DecidableEq A] [Inhabited A]

/-- What lets each of the three calls succeed in a reachable state, and that every other call
    changes neither of the maps nor the event log. -/
theorem dispatch_outcome (env : Env) (xs : List (Extrinsic A)) (o : Origin A) :
    let s := runFromEmpty env xs
    (∀ n d ip i k, result env s ⟨o, .registerCertificate n d ip i k⟩ = .ok () ↔
      ∃ who, o = .signed who ∧ Accepted env (newCert who n d ip i k) ∧
        s.certificateMap.find? d = none) ∧
    (∀ n d ip i k, result env s ⟨o, .modifyCertificate n d ip i k⟩ = .ok () ↔
      ∃ who old, o = .signed who ∧ Accepted env (newCert who n d ip i k) ∧
        s.certificateMap.find? d = some old ∧ old.ownerId = who ∧
        newCert who n d ip i k ≠ old) ∧
    (∀ d, result env s ⟨o, .removeCertificate d⟩ = .ok () ↔
      ∃ who old, o = .signed who ∧ s.certificateMap.find? d = some old ∧ old.ownerId = who) ∧
    ∀ call e, result env s ⟨o, call⟩ = .error e → step env s ⟨o, call⟩ = s := by
  intro s
  have hwf : WellFormed env s := wellFormed_run env xs
  refine ⟨fun n d ip i k => result_registerCertificate_iff,
    fun n d ip i k => result_modifyCertificate_iff, fun d => ?_, fun call e => step_of_error⟩
  rw [result_removeCertificate_iff]
  refine exists_congr fun who => exists_congr fun old => and_congr_right fun _ => ?_
  refine and_iff_right_of_imp fun hold => ?_
  obtain ⟨hdomain, -, haccepted⟩ := hwf.forward d old hold.1
  exact hdomain ▸ haccepted.domain

end Siip.Pallet
