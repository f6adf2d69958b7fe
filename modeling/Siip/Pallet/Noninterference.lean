/-
  Domains do not interfere, although all domains at one address share one list in `ReverseMap`
  that every call rewrites as a whole.

  `view d` is what concerns the domain `d`: its entry of `CertificateMap`, and from every bucket of
  `ReverseMap` the entries with this domain. Calls that name other domains leave it alone, and
  calls that name `d` read nothing else (`separated`); the rest is `Siip.Lib.Separation`.
-/
import Mathlib.Logic.Function.Basic
import Siip.Lib.Separation
import Siip.Pallet.Dispatch

namespace Siip.Pallet

open Lib

variable {A : Type}

/-! ## What concerns one domain -/

/-- The entries of one domain in a bucket. -/
def ofDomain (d : Bytes) (certs : List (Certificate A)) : List (Certificate A) :=
  certs.filter fun c => c.domain = d

structure View (A : Type) where
  certificate : Option (Certificate A)
  entries : Bytes → List (Certificate A)

def view (d : Bytes) (s : Storage A) : View A where
  certificate := s.certificateMap.find? d
  entries ip := ofDomain d (ipToCertificates s ip)

/-- The domain an extrinsic names. -/
def Extrinsic.domain (x : Extrinsic A) : Bytes := x.call.domain

theorem ofDomain_append (d : Bytes) (certs certs' : List (Certificate A)) :
    ofDomain d (certs ++ certs') = ofDomain d certs ++ ofDomain d certs' :=
  List.filter_append certs certs'

theorem ofDomain_self (c : Certificate A) : ofDomain c.domain [c] = [c] := by
  simp [ofDomain]

theorem ofDomain_of_ne {d : Bytes} {c : Certificate A} (h : c.domain ≠ d) :
    ofDomain d [c] = [] := by
  simp [ofDomain, h]

theorem ofDomain_retain_self (d : Bytes) (certs : List (Certificate A)) :
    ofDomain d (retain Certificate.domain d certs) = [] := by
  simp [ofDomain, retain]

theorem ofDomain_retain_of_ne {d d' : Bytes} (h : d' ≠ d) (certs : List (Certificate A)) :
    ofDomain d (retain Certificate.domain d' certs) = ofDomain d certs := by
  unfold ofDomain retain
  rw [List.filter_filter]
  refine List.filter_congr fun c _ => ?_
  by_cases hc : c.domain = d
  · simp [hc, h.symm]
  · simp [hc]

/-- A storage whose entry for `d` is `cert` and whose bucket `ip` is `certs`. -/
theorem view_eq {d ip : Bytes} {s s' : Storage A} {cert : Option (Certificate A)}
    {certs : List (Certificate A)} (hcert : s'.certificateMap.find? d = cert)
    (hcerts : s'.reverseMap = s.reverseMap.insert ip certs) :
    view d s' = ⟨cert, Function.update (view d s).entries ip (ofDomain d certs)⟩ := by
  unfold view ipToCertificates
  rw [hcert, hcerts]
  congr 1
  funext ip'
  by_cases hip : ip' = ip
  · subst hip
    rw [StorageMap.get_insert_self, Function.update_self]
  · rw [StorageMap.get_insert_of_ne _ _ hip, Function.update_of_ne hip]

/-- Rewriting a bucket without touching the entries of `d` does not show. -/
theorem view_frame {d ip : Bytes} {s s' : Storage A} {certs : List (Certificate A)}
    (hcert : s'.certificateMap.find? d = s.certificateMap.find? d)
    (hcerts : s'.reverseMap = s.reverseMap.insert ip certs)
    (hbucket : ofDomain d certs = ofDomain d (ipToCertificates s ip)) : view d s' = view d s := by
  rw [view_eq hcert hcerts, hbucket]
  have hentries : Function.update (view d s).entries ip (ofDomain d (ipToCertificates s ip)) =
      (view d s).entries := Function.update_eq_self ip _
  rw [hentries]
  rfl

/-! ## The three updates -/

section Updates

variable (cert old : Certificate A)

theorem view_registered (s : Storage A) :
    view cert.domain (s.registered cert) =
      ⟨some cert, Function.update (view cert.domain s).entries cert.ipAddr
        ((view cert.domain s).entries cert.ipAddr ++ [cert])⟩ := by
  rw [view_eq (StorageMap.find?_insert_self _ _ _) rfl, ofDomain_append, ofDomain_self]
  rfl

theorem view_modified (s : Storage A) :
    view cert.domain (s.modified cert old) =
      ⟨some cert, Function.update (view cert.domain s).entries cert.ipAddr [cert]⟩ := by
  rw [view_eq (StorageMap.find?_insert_self _ _ _) rfl, ofDomain_append, ofDomain_self,
    ofDomain_retain_self, List.nil_append]

theorem view_removed (s : Storage A) (d : Bytes) :
    view d (s.removed d old) = ⟨none, Function.update (view d s).entries old.ipAddr []⟩ := by
  rw [view_eq (StorageMap.find?_remove_self _ _) rfl, ofDomain_retain_self]

section Frame

variable (s : Storage A) {d : Bytes}

theorem view_registered_of_ne (h : cert.domain ≠ d) : view d (s.registered cert) = view d s := by
  refine view_frame (StorageMap.find?_insert_of_ne _ _ h.symm) rfl ?_
  rw [ofDomain_append, ofDomain_of_ne h, List.append_nil]
  rfl

theorem view_modified_of_ne (h : cert.domain ≠ d) :
    view d (s.modified cert old) = view d s := by
  refine view_frame (StorageMap.find?_insert_of_ne _ _ h.symm) rfl ?_
  rw [ofDomain_append, ofDomain_of_ne h, List.append_nil, ofDomain_retain_of_ne h]
  rfl

theorem view_removed_of_ne {d' : Bytes} (h : d' ≠ d) : view d (s.removed d' old) = view d s := by
  refine view_frame (StorageMap.find?_remove_of_ne _ h.symm) rfl ?_
  exact ofDomain_retain_of_ne h _

end Frame

section Congr

variable {s t : Storage A}

theorem view_registered_congr (h : view cert.domain s = view cert.domain t) :
    view cert.domain (s.registered cert) = view cert.domain (t.registered cert) := by
  rw [view_registered, view_registered, h]

theorem view_modified_congr (h : view cert.domain s = view cert.domain t) :
    view cert.domain (s.modified cert old) = view cert.domain (t.modified cert old) := by
  rw [view_modified, view_modified, h]

theorem view_removed_congr {d : Bytes} (h : view d s = view d t) :
    view d (s.removed d old) = view d (t.removed d old) := by
  rw [view_removed, view_removed, h]

end Congr

end Updates

/-! ## Calls -/

section Calls

variable [DecidableEq A] [Inhabited A] (env : Env)

theorem view_step_of_ne {d : Bytes} (s : Storage A) {x : Extrinsic A} (hx : x.domain ≠ d) :
    view d (step env s x) = view d s := by
  have heff := effect_dispatch env s x
  generalize step env s x = s', result env s x = r at heff
  cases heff with
  | refused e => rfl
  | registered who n d' ip i k => exact view_registered_of_ne (newCert who n d' ip i k) s hx
  | modified n d' ip i k old => exact view_modified_of_ne (newCert old.ownerId n d' ip i k) old s hx
  | removed d' old => exact view_removed_of_ne old s hx

/-- What a call returns and does to its own domain depends on that domain alone. -/
theorem dispatch_congr {s t : Storage A} (x : Extrinsic A)
    (h : view x.domain s = view x.domain t) :
    result env s x = result env t x ∧
      view x.domain (step env s x) = view x.domain (step env t x) := by
  have hfind : s.certificateMap.find? x.domain = t.certificateMap.find? x.domain :=
    congrArg View.certificate h
  obtain ⟨o, call⟩ := x
  cases call with
  | registerCertificate n d ip i k =>
    change s.certificateMap.find? d = t.certificateMap.find? d at hfind
    change view d s = view d t at h
    show _ ∧ view d _ = view d _
    simp only [result, step, Store.dispatch, runFrom_registerCertificate, hfind]
    cases o with
    | root => exact ⟨rfl, h⟩
    | none => exact ⟨rfl, h⟩
    | signed who =>
      cases fieldError env n d ip i k with
      | some e => exact ⟨rfl, h⟩
      | none =>
        cases t.certificateMap.find? d with
        | some c => exact ⟨rfl, h⟩
        | none => exact ⟨rfl, view_registered_congr (newCert who n d ip i k) h⟩
  | modifyCertificate n d ip i k =>
    change s.certificateMap.find? d = t.certificateMap.find? d at hfind
    change view d s = view d t at h
    show _ ∧ view d _ = view d _
    simp only [result, step, Store.dispatch, runFrom_modifyCertificate, hfind]
    cases o with
    | root => exact ⟨rfl, h⟩
    | none => exact ⟨rfl, h⟩
    | signed who =>
      cases fieldError env n d ip i k with
      | some e => exact ⟨rfl, h⟩
      | none =>
        cases t.certificateMap.find? d with
        | none => exact ⟨rfl, h⟩
        | some old =>
          dsimp only
          split_ifs
          · exact ⟨rfl, h⟩
          · exact ⟨rfl, h⟩
          · exact ⟨rfl, view_modified_congr (newCert who n d ip i k) old h⟩
  | removeCertificate d =>
    change s.certificateMap.find? d = t.certificateMap.find? d at hfind
    change view d s = view d t at h
    show _ ∧ view d _ = view d _
    simp only [result, step, Store.dispatch, runFrom_removeCertificate, hfind]
    cases o with
    | root => exact ⟨rfl, h⟩
    | none => exact ⟨rfl, h⟩
    | signed who =>
      dsimp only
      split_ifs
      · cases t.certificateMap.find? d with
        | none => exact ⟨rfl, h⟩
        | some old =>
          dsimp only
          split_ifs
          · exact ⟨rfl, h⟩
          · exact ⟨rfl, view_removed_congr old h⟩
      · exact ⟨rfl, h⟩

/-- Calls on different domains only meet in the order of a shared bucket. -/
theorem separated : Separated (step env) (result env) Extrinsic.domain (view (A := A)) where
  frame s _ hx := view_step_of_ne env s hx
  result x h := (dispatch_congr env x h).1
  effect x h := (dispatch_congr env x h).2

/-! ## Runs -/

/-- The calls of a run from empty storage, each with what it returned. -/
def outcomes (xs : List (Extrinsic A)) : List (Extrinsic A × Except DispatchError Unit) :=
  trace (step env) (result env) Storage.empty xs

omit [Inhabited A] in
theorem perm_of_ofDomain {certs certs' : List (Certificate A)}
    (h : ∀ d, ofDomain d certs = ofDomain d certs') : certs.Perm certs' := by
  rw [List.perm_iff_count]
  intro c
  have hcount : ∀ l : List (Certificate A), (ofDomain c.domain l).count c = l.count c :=
    fun l => List.count_filter (decide_eq_true rfl)
  rw [← hcount certs, ← hcount certs', h]

/-- The calls that name a domain return the same, and store and list the same for it, as in the
    run of these calls alone. Swapping two adjacent calls on different domains changes no result
    and no entry of `CertificateMap`, and in `ReverseMap` only the order within a bucket. -/
theorem domains_independent :
    (∀ (xs : List (Extrinsic A)) (d : Bytes),
      let own := xs.filter fun x => x.domain = d
      (outcomes env xs).filter (fun p => p.1.domain = d) = outcomes env own ∧
      (runFromEmpty env xs).certificateMap.find? d =
        (runFromEmpty env own).certificateMap.find? d ∧
      ∀ ip, ofDomain d (ipToCertificates (runFromEmpty env xs) ip) =
        ofDomain d (ipToCertificates (runFromEmpty env own) ip)) ∧
    ∀ (xs ys : List (Extrinsic A)) (x y : Extrinsic A), x.domain ≠ y.domain →
      let s := runFromEmpty env (xs ++ x :: y :: ys)
      let t := runFromEmpty env (xs ++ y :: x :: ys)
      (∃ before rx ry after,
        outcomes env (xs ++ x :: y :: ys) = before ++ (x, rx) :: (y, ry) :: after ∧
        outcomes env (xs ++ y :: x :: ys) = before ++ (y, ry) :: (x, rx) :: after ∧
        before.length = xs.length) ∧
      (∀ d, s.certificateMap.find? d = t.certificateMap.find? d) ∧
      ∀ ip, (ipToCertificates s ip).Perm (ipToCertificates t ip) := by
  refine ⟨fun xs d => ?_, fun xs ys x y hxy => ?_⟩
  · have hview := (separated env).view_run (rfl : view d Storage.empty = view d Storage.empty) xs
    refine ⟨(separated env).trace_filter rfl xs, congrArg View.certificate hview, fun ip => ?_⟩
    exact congrFun (congrArg View.entries hview) ip
  · obtain ⟨before, rx, ry, after, hx, hy, hlen, hview⟩ :=
      (separated env).trace_swap hxy Storage.empty xs ys
    refine ⟨⟨before, rx, ry, after, hx, hy, hlen⟩, fun d => ?_, fun ip => ?_⟩
    · exact congrArg View.certificate (hview d)
    · exact perm_of_ofDomain fun d => congrFun (congrArg View.entries (hview d)) ip

end Calls

end Siip.Pallet
