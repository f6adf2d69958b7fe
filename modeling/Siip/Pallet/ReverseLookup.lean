/-
  The reverse lookup table of the pallet, over whole runs. `ReverseMap` is a secondary index of
  `CertificateMap` by address (`Siip.Lib.SecondaryIndex`, key `domain`, attribute `ip_addr`).

  * `reverse_complete`: no run ever loses a live certificate from the bucket of its address.
  * `reverse_sound_iff`: the table holds nothing but live certificates, each once, in every state
    of a run exactly when no step of the run moves a certificate to another address.
    `modify_certificate` purges the bucket of the new address only, so a moved certificate stays
    in the bucket of the old one.
-/
import Siip.Lib.SecondaryIndex
import Siip.Pallet.Dispatch

namespace Siip.Pallet

open Lib

variable {A : Type} [DecidableEq A] [Inhabited A]

/-- Every certificate is stored under its own domain. -/
def KeyedByDomain (s : Storage A) : Prop := Keyed Certificate.domain s.certificateMap

/-- Every stored certificate is in the bucket of its address. -/
def ReverseComplete (s : Storage A) : Prop :=
  ∀ d c, s.certificateMap.find? d = some c → c ∈ ipToCertificates s c.ipAddr

/-- Every entry of a bucket is the certificate stored under its domain and has the bucket's
    address, and no domain occurs twice in a bucket. -/
def ReverseSound (s : Storage A) : Prop :=
  ∀ ip, (∀ c ∈ ipToCertificates s ip, s.certificateMap.find? c.domain = some c ∧ c.ipAddr = ip) ∧
    ((ipToCertificates s ip).map Certificate.domain).Nodup

omit [DecidableEq A] [Inhabited A] in
theorem reverseComplete_iff (s : Storage A) :
    ReverseComplete s ↔ Complete Certificate.ipAddr s.certificateMap s.reverseMap :=
  complete_iff.symm

omit [DecidableEq A] [Inhabited A] in
theorem reverseSound_iff (s : Storage A) :
    ReverseSound s ↔ Sound Certificate.domain Certificate.ipAddr s.certificateMap s.reverseMap :=
  Iff.rfl

/-! ## Completeness -/

/-- The invariant that carries completeness. -/
structure Indexed (s : Storage A) : Prop where
  keyed : KeyedByDomain s
  complete : ReverseComplete s

omit [DecidableEq A] [Inhabited A] in
theorem indexed_empty : Indexed (Storage.empty : Storage A) where
  keyed := by
    intro d c hc
    exact absurd hc (Option.some_ne_none c).symm
  complete := (reverseComplete_iff _).mpr (complete_empty Certificate.ipAddr)

theorem indexed_step (env : Env) (s : Storage A) (x : Extrinsic A) (h : Indexed s) :
    Indexed (step env s x) := by
  obtain ⟨hk, hc⟩ := h
  rw [reverseComplete_iff] at hc
  have heff := effect_dispatch env s x
  generalize step env s x = s', result env s x = r at heff
  cases heff with
  | refused e => exact ⟨hk, (reverseComplete_iff s).mpr hc⟩
  | registered who n d ip i k fields fresh =>
    exact ⟨hk.insert _, (reverseComplete_iff _).mpr (complete_push hc (newCert who n d ip i k))⟩
  | modified n d ip i k old fields stored changed =>
    exact ⟨hk.insert _, (reverseComplete_iff _).mpr (complete_rewrite hc hk _)⟩
  | removed d old domain stored =>
    exact ⟨hk.remove d, (reverseComplete_iff _).mpr (complete_purge hc hk d old.ipAddr)⟩

theorem indexed_run (env : Env) (xs : List (Extrinsic A)) : Indexed (runFromEmpty env xs) :=
  run_invariant (indexed_step env) indexed_empty xs

/-- In every state reachable from empty storage, every stored certificate is listed under its
    own address. -/
theorem reverse_complete (env : Env) (xs : List (Extrinsic A)) (d : Bytes) (c : Certificate A)
    (hc : (runFromEmpty env xs).certificateMap.find? d = some c) :
    c ∈ ipToCertificates (runFromEmpty env xs) c.ipAddr :=
  (indexed_run env xs).complete d c hc

theorem reverse_complete_ab :
    certAb 1 ∈ ipToCertificates (runFromEmpty asciiEnv [registerAb 1]) (certAb 1).ipAddr :=
  reverse_complete asciiEnv [registerAb 1] (asBytes "ab.cd") (certAb 1) (find?_registerAb 1)

/-! ## Soundness -/

/-- The call is a `modify_certificate` that passes every guard and gives a registered domain
    another address than the stored one. -/
def MovesAddress (env : Env) (s : Storage A) (x : Extrinsic A) : Prop :=
  ∃ n d ip i k old, x = ⟨.signed old.ownerId, .modifyCertificate n d ip i k⟩ ∧
    fieldError env n d ip i k = none ∧ s.certificateMap.find? d = some old ∧ old.ipAddr ≠ ip

omit [DecidableEq A] [Inhabited A] in
theorem reverseSound_empty : ReverseSound (Storage.empty : Storage A) :=
  sound_empty Certificate.domain Certificate.ipAddr

/-- One step keeps the table sound exactly when it does not move an address. -/
theorem reverseSound_step_iff (env : Env) (s : Storage A) (x : Extrinsic A) (hi : Indexed s)
    (hs : ReverseSound s) : ReverseSound (step env s x) ↔ ¬ MovesAddress env s x := by
  have hc := (reverseComplete_iff s).mp hi.complete
  have heff := effect_dispatch env s x
  generalize step env s x = s' at heff
  generalize hres : result env s x = r at heff
  cases heff with
  | refused e =>
    refine iff_of_true hs ?_
    intro h
    obtain ⟨n, d, ip, i, k, old, rfl, hf, hd, hip⟩ := h
    -- such a call succeeds: a changed address is a modification
    have hne : newCert old.ownerId n d ip i k ≠ old := fun h => hip (h ▸ rfl)
    simp [result, Store.dispatch, runFrom_modifyCertificate, hf, hd, hne] at hres
  | registered who n d ip i k fields fresh =>
    refine iff_of_true (sound_push hs (newCert who n d ip i k) fresh) ?_
    intro h
    obtain ⟨n', d', ip', i', k', old, hx, -⟩ := h
    exact absurd (congrArg Extrinsic.call hx) (by simp)
  | modified n d ip i k old fields stored changed =>
    have hkey : old.domain = d := hi.keyed d old stored
    constructor
    · rintro h ⟨n', d', ip', i', k', old', hx, hf, hd, hip⟩
      simp only [Extrinsic.mk.injEq, Origin.signed.injEq, Call.modifyCertificate.injEq] at hx
      obtain ⟨-, rfl, rfl, rfl, rfl, rfl⟩ := hx
      obtain rfl : old = old' := Option.some.inj (stored.symm.trans hd)
      exact not_sound_rewrite hc (newCert old.ownerId n d ip i k) hkey stored hip h
    · intro hnot
      apply sound_rewrite hs (newCert old.ownerId n d ip i k)
      intro old' hold'
      obtain rfl : old = old' := Option.some.inj (stored.symm.trans hold')
      by_contra hip
      exact hnot ⟨n, d, ip, i, k, old, rfl, fields, stored, hip⟩
  | removed d old domain stored =>
    refine iff_of_true (sound_purge hs stored) ?_
    intro h
    obtain ⟨n', d', ip', i', k', old', hx, -⟩ := h
    exact absurd (congrArg Extrinsic.call hx) (by simp)

/-- Soundness of reverse lookup over whole runs: it holds in every state of the run of `xs` from
    empty storage exactly when no step of that run moves an address. -/
theorem reverse_sound_iff (env : Env) (xs : List (Extrinsic A)) :
    Always (step env) ReverseSound Storage.empty xs ↔
      EachStep (step env) (fun s x => ¬ MovesAddress env s x) Storage.empty xs :=
  always_iff_eachStep (indexed_step env) (reverseSound_step_iff env) indexed_empty
    reverseSound_empty xs

/-- A registration followed by a move to another address: the bucket of the old address still
    lists the replaced certificate. -/
theorem not_reverseSound_of_move (env : Env) (who : A) {n d ip ip' i k : Bytes}
    (h : fieldError env n d ip i k = none) (h' : fieldError env n d ip' i k = none)
    (hip : ip ≠ ip') :
    ¬ ReverseSound (runFromEmpty env [⟨.signed who, .registerCertificate n d ip i k⟩,
      ⟨.signed who, .modifyCertificate n d ip' i k⟩]) := by
  set s1 : Storage A := Storage.empty.registered (newCert who n d ip i k) with hs1
  have hstep : step env Storage.empty ⟨.signed who, .registerCertificate n d ip i k⟩ = s1 :=
    step_registerCertificate who h rfl
  have hrun : ∀ x, runFromEmpty env
      [⟨.signed who, .registerCertificate n d ip i k⟩, x] = step env s1 x := by
    intro x
    rw [runFromEmpty, run_cons, run_cons, run_nil, hstep]
  have hstored : s1.certificateMap.find? d = some (newCert who n d ip i k) :=
    StorageMap.find?_insert_self _ _ _
  have hsound : ReverseSound s1 := sound_push reverseSound_empty (newCert who n d ip i k) rfl
  have hindexed : Indexed s1 := hstep ▸ indexed_step env _ _ indexed_empty
  rw [hrun, reverseSound_step_iff env s1 _ hindexed hsound, not_not]
  exact ⟨n, d, ip', i, k, newCert who n d ip i k, rfl, h', hstored, hip⟩

/-- The owner of `ab.cd` moves it from `1.1.1.1` to `2.2.2.2`. -/
theorem moved_not_sound :
    ¬ ReverseSound (runFromEmpty asciiEnv
      [⟨.signed (1 : Nat), .registerCertificate (asBytes "A") (asBytes "ab.cd") (asBytes "1.1.1.1")
          (asBytes "\x7b\x7d") (asBytes "AB")⟩,
        ⟨.signed 1, .modifyCertificate (asBytes "A") (asBytes "ab.cd") (asBytes "2.2.2.2")
          (asBytes "\x7b\x7d") (asBytes "AB")⟩]) := by
  apply not_reverseSound_of_move
  · exact fieldError_ab
  · exact fieldError_ascii _ _ accepts_checkDomain_ab
      (by rw [accepts_checkIp, fromUtf8_asBytes]; decide +kernel)
  · decide +kernel

end Siip.Pallet
