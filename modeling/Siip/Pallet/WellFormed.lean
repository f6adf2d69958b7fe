/-
  Well-formedness of everything the pallet stores, in both maps and over whole runs: the version
  number, the key a certificate is stored under, and the five field checks. The bucket entries
  are covered whether or not they are still live.

  `WellFormed.version_eq_zero_iff` is the test of existence the user interface makes: a lookup
  answers with version number 0 exactly when the domain is not registered.
-/
import Siip.Pallet.Dispatch

namespace Siip.Pallet

open Lib

variable {A : Type}

/-- All five field checks accept the certificate. -/
structure Accepted (env : Env) (c : Certificate A) : Prop where
  name : accepts (checkName c.name) = true
  domain : accepts (checkDomain env c.domain) = true
  ipAddr : accepts (checkIp c.ipAddr) = true
  info : accepts (checkInfo env c.info) = true
  key : accepts (checkKey c.key) = true

/-- All five fields are valid UTF-8. -/
structure FieldsUtf8 (c : Certificate A) : Prop where
  name : (fromUtf8 c.name).isSome = true
  domain : (fromUtf8 c.domain).isSome = true
  ipAddr : (fromUtf8 c.ipAddr).isSome = true
  info : (fromUtf8 c.info).isSome = true
  key : (fromUtf8 c.key).isSome = true

theorem accepted_newCert_iff {env : Env} (who : A) {n d ip i k : Bytes} :
    Accepted env (newCert who n d ip i k) ↔ fieldError env n d ip i k = none := by
  rw [fieldError_eq_none]
  exact ⟨fun h => ⟨h.name, h.domain, h.ipAddr, h.info, h.key⟩,
    fun ⟨h1, h2, h3, h4, h5⟩ => ⟨h1, h2, h3, h4, h5⟩⟩

/-- An accepted certificate is UTF-8 throughout: every check begins by decoding its field. -/
theorem Accepted.utf8 {env : Env} {c : Certificate A} (h : Accepted env c) : FieldsUtf8 c where
  name := isSome_of_accepts_checkUtf8 h.name
  domain := isSome_of_accepts_checkUtf8 h.domain
  ipAddr := isSome_of_accepts_checkUtf8 h.ipAddr
  info := isSome_of_accepts_checkUtf8 h.info
  key := isSome_of_accepts_checkUtf8 h.key

/-! ## The invariant -/

structure WellFormed (env : Env) (s : Storage A) : Prop where
  forward : ∀ d c, s.certificateMap.find? d = some c →
    c.domain = d ∧ c.versionNumber = certificateVersion ∧ Accepted env c
  reverse : ∀ ip, ∀ c ∈ ipToCertificates s ip,
    c.ipAddr = ip ∧ c.versionNumber = certificateVersion ∧ Accepted env c

theorem wellFormed_empty (env : Env) : WellFormed env (Storage.empty : Storage A) where
  forward := fun _ c hc => absurd hc (Option.some_ne_none c).symm
  reverse := fun _ _ hc => absurd hc List.not_mem_nil

/-- A bucket rewrite keeps well-formedness when the new bucket holds old entries and, at most,
    one accepted certificate of that address. -/
theorem reverse_of_insert {env : Env} {s : Storage A} (h : WellFormed env s) {ip : Bytes}
    {bucket : List (Certificate A)}
    (hb : ∀ c ∈ bucket, c ∈ ipToCertificates s ip ∨
      (c.ipAddr = ip ∧ c.versionNumber = certificateVersion ∧ Accepted env c)) :
    ∀ ip', ∀ c ∈ (s.reverseMap.insert ip bucket).get ip',
      c.ipAddr = ip' ∧ c.versionNumber = certificateVersion ∧ Accepted env c := by
  intro ip' c hc
  by_cases hip : ip' = ip
  · subst hip
    rw [StorageMap.get_insert_self] at hc
    rcases hb c hc with hc | hc
    · exact h.reverse ip' c hc
    · exact hc
  · rw [StorageMap.get_insert_of_ne _ _ hip] at hc
    exact h.reverse ip' c hc

theorem forward_of_insert {env : Env} {s : Storage A} (h : WellFormed env s) {cert : Certificate A}
    (hv : cert.versionNumber = certificateVersion) (ha : Accepted env cert) :
    ∀ d c, (s.certificateMap.insert cert.domain cert).find? d = some c →
      c.domain = d ∧ c.versionNumber = certificateVersion ∧ Accepted env c := by
  intro d c hc
  by_cases hd : d = cert.domain
  · subst hd
    rw [StorageMap.find?_insert_self, Option.some.injEq] at hc
    exact hc ▸ ⟨rfl, hv, ha⟩
  · rw [StorageMap.find?_insert_of_ne _ _ hd] at hc
    exact h.forward d c hc

variable [DecidableEq A] [Inhabited A]

theorem wellFormed_step (env : Env) (s : Storage A) (x : Extrinsic A) (h : WellFormed env s) :
    WellFormed env (step env s x) := by
  have heff := effect_dispatch env s x
  generalize step env s x = s', result env s x = r at heff
  cases heff with
  | refused e => exact h
  | registered who n d ip i k fields fresh =>
    have ha := (accepted_newCert_iff who).mpr fields
    refine ⟨forward_of_insert h rfl ha, reverse_of_insert h ?_⟩
    intro c hc
    rcases List.mem_append.mp hc with hc | hc
    · exact Or.inl hc
    · rw [List.mem_singleton.mp hc]
      exact Or.inr ⟨rfl, rfl, ha⟩
  | modified n d ip i k old fields stored changed =>
    have ha := (accepted_newCert_iff old.ownerId).mpr fields
    refine ⟨forward_of_insert h rfl ha, reverse_of_insert h ?_⟩
    intro c hc
    rcases List.mem_append.mp hc with hc | hc
    · exact Or.inl (mem_retain.mp hc).1
    · rw [List.mem_singleton.mp hc]
      exact Or.inr ⟨rfl, rfl, ha⟩
  | removed d old domain stored =>
    refine ⟨?_, reverse_of_insert h (fun c hc => Or.inl (mem_retain.mp hc).1)⟩
    intro d' c hc
    by_cases hd : d' = d
    · subst hd
      rw [Storage.removed, StorageMap.find?_remove_self] at hc
      exact absurd hc (Option.some_ne_none c).symm
    · rw [Storage.removed, StorageMap.find?_remove_of_ne _ hd] at hc
      exact h.forward d' c hc

theorem wellFormed_run (env : Env) (xs : List (Extrinsic A)) :
    WellFormed env (runFromEmpty env xs) :=
  run_invariant (wellFormed_step env) (wellFormed_empty env) xs

omit [DecidableEq A] in
/-- A lookup answers with version 0 exactly where nothing is stored. -/
theorem WellFormed.version_eq_zero_iff {env : Env} {s : Storage A} (h : WellFormed env s)
    (d : Bytes) :
    (domainToCertificate s d).versionNumber = 0 ↔ s.certificateMap.find? d = none := by
  unfold domainToCertificate
  cases hd : s.certificateMap.find? d with
  | none =>
    rw [StorageMap.get_of_find?_none hd]
    exact iff_of_true rfl rfl
  | some c =>
    rw [StorageMap.get_of_find? hd, (h.forward d c hd).2.1]
    exact iff_of_false (by decide) (Option.some_ne_none c)

/-- Everything stored in any reachable state is well formed, hence UTF-8, and version 0 is the
    mark of an unregistered domain. -/
theorem stored_wellFormed (env : Env) (xs : List (Extrinsic A)) :
    let s := runFromEmpty env xs
    (∀ d c, s.certificateMap.find? d = some c →
      c.domain = d ∧ c.versionNumber = certificateVersion ∧ Accepted env c ∧ FieldsUtf8 c) ∧
    (∀ ip, ∀ c ∈ ipToCertificates s ip,
      c.ipAddr = ip ∧ c.versionNumber = certificateVersion ∧ Accepted env c ∧ FieldsUtf8 c) ∧
    (∀ d, (domainToCertificate s d).versionNumber = 0 ↔ s.certificateMap.find? d = none) := by
  have h := wellFormed_run env xs
  refine ⟨fun d c hc => ?_, fun ip c hc => ?_, h.version_eq_zero_iff⟩
  · obtain ⟨hd, hv, ha⟩ := h.forward d c hc
    exact ⟨hd, hv, ha, ha.utf8⟩
  · obtain ⟨hip, hv, ha⟩ := h.reverse ip c hc
    exact ⟨hip, hv, ha, ha.utf8⟩

end Siip.Pallet
