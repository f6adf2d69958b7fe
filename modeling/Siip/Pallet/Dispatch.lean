/-
  The pallet: certificates, storage, and the three dispatchable functions
  `register_certificate`, `modify_certificate` and `remove_certificate`.

  A dispatchable runs in `Dispatch`, an error monad over the storage: an error keeps the storage
  as it was when the error was returned, as the runtime does. `Storage.events` is the log of
  deposited events of blocks numbered 1 or higher, where `deposit_event` keeps them.
  `on_finalize` (the inflationary reward) is no part of this module.

  What one call can do is said once, by `Effect` and `effect_dispatch`; every invariant is a case
  analysis of it.
-/
import Siip.Lib.Relational
import Siip.Lib.Run
import Siip.Lib.StorageMap
import Siip.Pallet.Checks

namespace Siip.Pallet

open Lib

variable {A : Type}

/-- `CERTIFICATE_VERSION` -/
def certificateVersion : Int32 := 1

structure Certificate (A : Type) where
  versionNumber : Int32
  ownerId : A
  name : Bytes
  info : Bytes
  key : Bytes
  ipAddr : Bytes
  domain : Bytes
  deriving DecidableEq

/-- The derived `Default`: zero, the default account and empty vectors. -/
instance [Inhabited A] : Inhabited (Certificate A) := ⟨⟨0, default, [], [], [], [], []⟩⟩

inductive Event (A : Type) where
  | certificateRegistered (cert : Certificate A) (who : A)
  | certificateModified (cert old : Certificate A) (who : A)
  | certificateRemoved (old : Certificate A) (who : A)
  deriving DecidableEq

inductive Error where
  | invalidOwner | invalidDomain | invalidIP | invalidInfo | invalidKey
  | domainAlreadyTaken | nonexistentDomain | differentOwner | noModifications
  deriving DecidableEq

inductive DispatchError where
  | badOrigin
  | module (e : Error)
  deriving DecidableEq

/-- `frame_system::RawOrigin` -/
inductive Origin (A : Type) where
  | root
  | signed (who : A)
  | none
  deriving DecidableEq

/-- `trait Store` and `deposit_event`: the two maps and the log, wherever a state keeps them. -/
structure Store (σ A : Type) where
  certificateMap : MapOps σ Bytes (Certificate A)
  reverseMap : MapOps σ Bytes (List (Certificate A))
  depositEvent : Event A → σ → σ

/-! ## The dispatchables -/

abbrev Dispatch (σ : Type) := ExceptT DispatchError (StateM σ)

section

variable {σ : Type}

def ensureSigned : Origin A → Dispatch σ A
  | .signed who => pure who
  | _ => throw .badOrigin

def ensure (cond : Bool) (e : Error) : Dispatch σ Unit :=
  if cond then pure () else throw (.module e)

/-- The five checks at the head of `register_certificate` and of `modify_certificate`. -/
def ensureFields (env : Env) (name domain ipAddr info key : Bytes) : Dispatch σ Unit := do
  ensure (accepts (checkName name)) .invalidOwner
  ensure (accepts (checkDomain env domain)) .invalidDomain
  ensure (accepts (checkIp ipAddr)) .invalidIP
  ensure (accepts (checkInfo env info)) .invalidInfo
  ensure (accepts (checkKey key)) .invalidKey

variable (store : Store σ A)

def Store.registerCertificate (env : Env) (origin : Origin A)
    (name domain ipAddr info key : Bytes) : Dispatch σ Unit := do
  let sender ← ensureSigned origin
  ensureFields env name domain ipAddr info key
  ensure (!store.certificateMap.containsKey (← get) domain) .domainAlreadyTaken
  let cert : Certificate A := ⟨certificateVersion, sender, name, info, key, ipAddr, domain⟩
  modify fun s => store.certificateMap.insert s domain cert
  let certs ← modifyGet fun s => store.reverseMap.take s ipAddr
  modify fun s => store.reverseMap.insert s ipAddr (certs ++ [cert])
  modify (store.depositEvent (.certificateRegistered cert sender))

variable [DecidableEq A]

def Store.modifyCertificate (env : Env) (origin : Origin A)
    (name domain ipAddr info key : Bytes) : Dispatch σ Unit := do
  let sender ← ensureSigned origin
  ensureFields env name domain ipAddr info key
  ensure (store.certificateMap.containsKey (← get) domain) .nonexistentDomain
  let cert : Certificate A := ⟨certificateVersion, sender, name, info, key, ipAddr, domain⟩
  let oldCert := store.certificateMap.get (← get) domain
  ensure (sender = oldCert.ownerId) .differentOwner
  ensure (cert ≠ oldCert) .noModifications
  let _ ← modifyGet fun s => store.certificateMap.take s domain
  modify fun s => store.certificateMap.insert s domain cert
  -- the bucket of the new address; the one of `oldCert.ipAddr` is left alone
  let certs ← modifyGet fun s => store.reverseMap.take s ipAddr
  let certs := retain Certificate.domain domain certs
  modify fun s => store.reverseMap.insert s ipAddr (certs ++ [cert])
  modify (store.depositEvent (.certificateModified cert oldCert sender))

def Store.removeCertificate (env : Env) (origin : Origin A) (domain : Bytes) :
    Dispatch σ Unit := do
  let sender ← ensureSigned origin
  ensure (accepts (checkDomain env domain)) .invalidDomain
  ensure (store.certificateMap.containsKey (← get) domain) .nonexistentDomain
  let oldCert := store.certificateMap.get (← get) domain
  ensure (sender = oldCert.ownerId) .differentOwner
  let _ ← modifyGet fun s => store.certificateMap.take s domain
  let certs ← modifyGet fun s => store.reverseMap.take s oldCert.ipAddr
  let certs := retain Certificate.domain domain certs
  modify fun s => store.reverseMap.insert s oldCert.ipAddr certs
  modify (store.depositEvent (.certificateRemoved oldCert sender))

end

/-! ## One call -/

inductive Call where
  | registerCertificate (name domain ipAddr info key : Bytes)
  | modifyCertificate (name domain ipAddr info key : Bytes)
  | removeCertificate (domain : Bytes)
  deriving DecidableEq

/-- A call with the origin it is dispatched from. -/
structure Extrinsic (A : Type) where
  origin : Origin A
  call : Call
  deriving DecidableEq

/-- The domain a call names. -/
def Call.domain : Call → Bytes
  | .registerCertificate _ d _ _ _ => d
  | .modifyCertificate _ d _ _ _ => d
  | .removeCertificate d => d

def Store.dispatch {σ : Type} [DecidableEq A] (store : Store σ A) (env : Env) (x : Extrinsic A) :
    Dispatch σ Unit :=
  match x.call with
  | .registerCertificate n d ip i k => store.registerCertificate env x.origin n d ip i k
  | .modifyCertificate n d ip i k => store.modifyCertificate env x.origin n d ip i k
  | .removeCertificate d => store.removeCertificate env x.origin d

/-! ## The storage as maps -/

structure Storage (A : Type) where
  certificateMap : StorageMap Bytes (Certificate A)
  reverseMap : StorageMap Bytes (List (Certificate A))
  events : List (Event A)

def Storage.empty : Storage A := ⟨StorageMap.empty, StorageMap.empty, []⟩

variable [Inhabited A]

/-- `get(fn domain_to_certificate)`: the default certificate where none is stored. -/
def domainToCertificate (s : Storage A) (domain : Bytes) : Certificate A :=
  s.certificateMap.get domain

omit [Inhabited A] in
/-- `get(fn ip_to_certificates)` -/
def ipToCertificates (s : Storage A) (ip : Bytes) : List (Certificate A) := s.reverseMap.get ip

def Storage.store : Store (Storage A) A where
  certificateMap := {
    containsKey s := s.certificateMap.containsKey
    get s := s.certificateMap.get
    insert s domain cert := { s with certificateMap := s.certificateMap.insert domain cert }
    take s domain :=
      (s.certificateMap.get domain,
        { s with certificateMap := (s.certificateMap.take domain).2 }) }
  reverseMap := {
    containsKey s := s.reverseMap.containsKey
    get s := s.reverseMap.get
    insert s ip certs := { s with reverseMap := s.reverseMap.insert ip certs }
    take s ip := (s.reverseMap.get ip, { s with reverseMap := (s.reverseMap.take ip).2 }) }
  depositEvent e s := { s with events := s.events ++ [e] }

variable [DecidableEq A]

def result (env : Env) (s : Storage A) (x : Extrinsic A) : Except DispatchError Unit :=
  (runFrom (Storage.store.dispatch env x) s).1

def step (env : Env) (s : Storage A) (x : Extrinsic A) : Storage A :=
  (runFrom (Storage.store.dispatch env x) s).2

/-! ## Running a dispatchable -/

section

variable {σ α : Type} (s : σ)

omit [Inhabited A] [DecidableEq A] in
@[simp] theorem runFrom_ensureSigned_bind (o : Origin A) (f : A → Dispatch σ α) :
    runFrom (ensureSigned o >>= f) s =
      match o with
      | .signed who => runFrom (f who) s
      | _ => (.error .badOrigin, s) := by
  cases o <;> rfl

@[simp] theorem runFrom_ensure_bind (c : Bool) (e : Error) (f : Unit → Dispatch σ α) :
    runFrom (ensure c e >>= f) s = if c then runFrom (f ()) s else (.error (.module e), s) := by
  cases c <;> rfl

end

/-- The first of the five field checks to fail, if any. -/
def fieldError (env : Env) (name domain ipAddr info key : Bytes) : Option Error :=
  if !accepts (checkName name) then some .invalidOwner
  else if !accepts (checkDomain env domain) then some .invalidDomain
  else if !accepts (checkIp ipAddr) then some .invalidIP
  else if !accepts (checkInfo env info) then some .invalidInfo
  else if !accepts (checkKey key) then some .invalidKey
  else none

theorem runFrom_ensureFields_bind {σ α : Type} (env : Env) (n d ip i k : Bytes)
    (f : Unit → Dispatch σ α) (s : σ) :
    runFrom (ensureFields env n d ip i k >>= f) s =
      match fieldError env n d ip i k with
      | some e => (.error (.module e), s)
      | none => runFrom (f ()) s := by
  unfold ensureFields fieldError
  simp only [bind_assoc, runFrom_ensure_bind, Bool.not_eq_true']
  cases accepts (checkName n) <;> cases accepts (checkDomain env d) <;>
    cases accepts (checkIp ip) <;> cases accepts (checkInfo env i) <;>
    cases accepts (checkKey k) <;> rfl

/-! ## What one call can do -/

/-- The certificate that `register_certificate` and `modify_certificate` build. -/
def newCert (who : A) (name domain ipAddr info key : Bytes) : Certificate A :=
  ⟨certificateVersion, who, name, info, key, ipAddr, domain⟩

/-- The storage after a successful registration of `cert`. -/
def Storage.registered (s : Storage A) (cert : Certificate A) : Storage A where
  certificateMap := s.certificateMap.insert cert.domain cert
  reverseMap := s.reverseMap.insert cert.ipAddr (s.reverseMap.get cert.ipAddr ++ [cert])
  events := s.events ++ [.certificateRegistered cert cert.ownerId]

/-- The storage after `old` was replaced by `cert`. -/
def Storage.modified (s : Storage A) (cert old : Certificate A) : Storage A where
  certificateMap := s.certificateMap.insert cert.domain cert
  reverseMap := s.reverseMap.insert cert.ipAddr
    (retain Certificate.domain cert.domain (s.reverseMap.get cert.ipAddr) ++ [cert])
  events := s.events ++ [.certificateModified cert old cert.ownerId]

/-- The storage after `old`, stored under `d`, was removed. -/
def Storage.removed (s : Storage A) (d : Bytes) (old : Certificate A) : Storage A where
  certificateMap := s.certificateMap.remove d
  reverseMap := s.reverseMap.insert old.ipAddr
    (retain Certificate.domain d (s.reverseMap.get old.ipAddr))
  events := s.events ++ [.certificateRemoved old old.ownerId]

omit [DecidableEq A] in
theorem runFrom_registerCertificate (env : Env) (o : Origin A) (n d ip i k : Bytes)
    (s : Storage A) :
    runFrom (Storage.store.registerCertificate env o n d ip i k) s =
      match o with
      | .signed who =>
        match fieldError env n d ip i k, s.certificateMap.find? d with
        | some e, _ => (.error (.module e), s)
        | none, some _ => (.error (.module .domainAlreadyTaken), s)
        | none, none => (.ok (), s.registered (newCert who n d ip i k))
      | _ => (.error .badOrigin, s) := by
  unfold Store.registerCertificate
  rw [runFrom_ensureSigned_bind]
  cases o with
  | root => rfl
  | none => rfl
  | signed who =>
    dsimp only
    rw [runFrom_ensureFields_bind]
    cases fieldError env n d ip i k with
    | some e => rfl
    | none =>
      simp only [runFrom_get_bind, runFrom_ensure_bind, runFrom_modify_bind, runFrom_modifyGet_bind,
        runFrom_modify, Storage.store]
      cases hd : s.certificateMap.find? d with
      | some c => simp [StorageMap.containsKey_of_find? hd]
      | none =>
        simp [StorageMap.containsKey_of_find?_none hd, StorageMap.take, Storage.registered, newCert]

theorem runFrom_modifyCertificate (env : Env) (o : Origin A) (n d ip i k : Bytes) (s : Storage A) :
    runFrom (Storage.store.modifyCertificate env o n d ip i k) s =
      match o with
      | .signed who =>
        match fieldError env n d ip i k, s.certificateMap.find? d with
        | some e, _ => (.error (.module e), s)
        | none, none => (.error (.module .nonexistentDomain), s)
        | none, some old =>
          if who ≠ old.ownerId then (.error (.module .differentOwner), s)
          else if newCert who n d ip i k = old then (.error (.module .noModifications), s)
          else (.ok (), s.modified (newCert who n d ip i k) old)
      | _ => (.error .badOrigin, s) := by
  unfold Store.modifyCertificate
  rw [runFrom_ensureSigned_bind]
  cases o with
  | root => rfl
  | none => rfl
  | signed who =>
    dsimp only
    rw [runFrom_ensureFields_bind]
    cases fieldError env n d ip i k with
    | some e => rfl
    | none =>
      simp only [runFrom_get_bind, runFrom_ensure_bind, runFrom_modify_bind, runFrom_modifyGet_bind,
        runFrom_modify, Storage.store]
      cases hd : s.certificateMap.find? d with
      | none => simp [StorageMap.containsKey_of_find?_none hd]
      | some old =>
        have hmem := StorageMap.containsKey_of_find? hd
        have hget : s.certificateMap.get d = old := StorageMap.get_of_find? hd
        by_cases hw : who = old.ownerId
        · simp [hmem, hget, hw, newCert, Storage.modified, StorageMap.take]
        · simp [hmem, hget, hw]

theorem runFrom_removeCertificate (env : Env) (o : Origin A) (d : Bytes) (s : Storage A) :
    runFrom (Storage.store.removeCertificate env o d) s =
      match o with
      | .signed who =>
        if accepts (checkDomain env d) then
          match s.certificateMap.find? d with
          | none => (.error (.module .nonexistentDomain), s)
          | some old =>
            if who ≠ old.ownerId then (.error (.module .differentOwner), s)
            else (.ok (), s.removed d old)
        else (.error (.module .invalidDomain), s)
      | _ => (.error .badOrigin, s) := by
  unfold Store.removeCertificate
  rw [runFrom_ensureSigned_bind]
  cases o with
  | root => rfl
  | none => rfl
  | signed who =>
    simp only [runFrom_get_bind, runFrom_ensure_bind, runFrom_modify_bind, runFrom_modifyGet_bind,
        runFrom_modify, Storage.store]
    cases hd : s.certificateMap.find? d with
    | none => simp [StorageMap.containsKey_of_find?_none hd]
    | some old =>
      have hmem := StorageMap.containsKey_of_find? hd
      have hget : s.certificateMap.get d = old := StorageMap.get_of_find? hd
      by_cases hw : who = old.ownerId
      · simp [hmem, hget, hw, Storage.removed, StorageMap.take]
      · simp [hmem, hget, hw]

/-- Everything a call can do: refuse and change nothing, or one of the three updates. -/
inductive Effect (env : Env) (s : Storage A) :
    Extrinsic A → Except DispatchError Unit → Storage A → Prop
  | refused (x : Extrinsic A) (e : DispatchError) : Effect env s x (.error e) s
  | registered (who : A) (n d ip i k : Bytes) (fields : fieldError env n d ip i k = none)
      (fresh : s.certificateMap.find? d = none) :
      Effect env s ⟨.signed who, .registerCertificate n d ip i k⟩ (.ok ())
        (s.registered (newCert who n d ip i k))
  | modified (n d ip i k : Bytes) (old : Certificate A) (fields : fieldError env n d ip i k = none)
      (stored : s.certificateMap.find? d = some old)
      (changed : newCert old.ownerId n d ip i k ≠ old) :
      Effect env s ⟨.signed old.ownerId, .modifyCertificate n d ip i k⟩ (.ok ())
        (s.modified (newCert old.ownerId n d ip i k) old)
  | removed (d : Bytes) (old : Certificate A) (domain : accepts (checkDomain env d) = true)
      (stored : s.certificateMap.find? d = some old) :
      Effect env s ⟨.signed old.ownerId, .removeCertificate d⟩ (.ok ()) (s.removed d old)

theorem effect_dispatch (env : Env) (s : Storage A) (x : Extrinsic A) :
    Effect env s x (result env s x) (step env s x) := by
  obtain ⟨o, call⟩ := x
  cases call with
  | registerCertificate n d ip i k =>
    simp only [result, step, Store.dispatch, runFrom_registerCertificate]
    cases o with
    | root => exact .refused _ _
    | none => exact .refused _ _
    | signed who =>
      cases hf : fieldError env n d ip i k with
      | some e => exact .refused _ _
      | none =>
        cases hd : s.certificateMap.find? d with
        | some c => exact .refused _ _
        | none => exact .registered who n d ip i k hf hd
  | modifyCertificate n d ip i k =>
    simp only [result, step, Store.dispatch, runFrom_modifyCertificate]
    cases o with
    | root => exact .refused _ _
    | none => exact .refused _ _
    | signed who =>
      cases hf : fieldError env n d ip i k with
      | some e => exact .refused _ _
      | none =>
        cases hd : s.certificateMap.find? d with
        | none => exact .refused _ _
        | some old =>
          dsimp only
          split_ifs with hw hc
          · exact .refused _ _
          · exact .refused _ _
          · obtain rfl : who = old.ownerId := not_not.mp hw
            exact .modified n d ip i k old hf hd hc
  | removeCertificate d =>
    simp only [result, step, Store.dispatch, runFrom_removeCertificate]
    cases o with
    | root => exact .refused _ _
    | none => exact .refused _ _
    | signed who =>
      dsimp only
      split_ifs with hacc
      · cases hd : s.certificateMap.find? d with
        | none => exact .refused _ _
        | some old =>
          dsimp only
          split_ifs with hw
          · exact .refused _ _
          · obtain rfl : who = old.ownerId := not_not.mp hw
            exact .removed d old hacc hd
      · exact .refused _ _

theorem step_registerCertificate {env : Env} {s : Storage A} (who : A) {n d ip i k : Bytes}
    (hf : fieldError env n d ip i k = none) (hd : s.certificateMap.find? d = none) :
    step env s ⟨.signed who, .registerCertificate n d ip i k⟩ =
      s.registered (newCert who n d ip i k) := by
  simp [step, Store.dispatch, runFrom_registerCertificate, hf, hd]

theorem result_of_taken {env : Env} {s : Storage A} (who : A) {n d ip i k : Bytes}
    {c : Certificate A} (hf : fieldError env n d ip i k = none)
    (hd : s.certificateMap.find? d = some c) :
    result env s ⟨.signed who, .registerCertificate n d ip i k⟩ =
      .error (.module .domainAlreadyTaken) := by
  simp only [result, Store.dispatch, runFrom_registerCertificate, hf, hd]

theorem step_modifyCertificate {env : Env} {s : Storage A} {n d ip i k : Bytes}
    {old : Certificate A} (hf : fieldError env n d ip i k = none)
    (hd : s.certificateMap.find? d = some old) (hne : newCert old.ownerId n d ip i k ≠ old) :
    step env s ⟨.signed old.ownerId, .modifyCertificate n d ip i k⟩ =
      s.modified (newCert old.ownerId n d ip i k) old := by
  simp [step, Store.dispatch, runFrom_modifyCertificate, hf, hd, hne]

theorem step_removeCertificate {env : Env} {s : Storage A} {d : Bytes} {old : Certificate A}
    (hacc : accepts (checkDomain env d) = true) (hd : s.certificateMap.find? d = some old) :
    step env s ⟨.signed old.ownerId, .removeCertificate d⟩ = s.removed d old := by
  simp [step, Store.dispatch, runFrom_removeCertificate, hacc, hd]

/-- The storage after `xs`, from empty storage. -/
def runFromEmpty (env : Env) (xs : List (Extrinsic A)) : Storage A :=
  run (step env) Storage.empty xs

theorem fieldError_eq_none {env : Env} {n d ip i k : Bytes} :
    fieldError env n d ip i k = none ↔
      accepts (checkName n) = true ∧ accepts (checkDomain env d) = true ∧
        accepts (checkIp ip) = true ∧ accepts (checkInfo env i) = true ∧
        accepts (checkKey k) = true := by
  unfold fieldError
  cases accepts (checkName n) <;> cases accepts (checkDomain env d) <;>
    cases accepts (checkIp ip) <;> cases accepts (checkInfo env i) <;>
    cases accepts (checkKey k) <;> simp

theorem runFromEmpty_register {env : Env} (who : A) {n d ip i k : Bytes}
    (hf : fieldError env n d ip i k = none) :
    runFromEmpty env [⟨.signed who, .registerCertificate n d ip i k⟩] =
      Storage.empty.registered (newCert who n d ip i k) := by
  rw [runFromEmpty, run_cons, run_nil, step_registerCertificate who hf rfl]

theorem find?_of_register {env : Env} (who : A) {n d ip i k : Bytes}
    (hf : fieldError env n d ip i k = none) :
    (runFromEmpty env [⟨.signed who, .registerCertificate n d ip i k⟩]).certificateMap.find? d =
      some (newCert who n d ip i k) := by
  rw [runFromEmpty_register who hf]
  exact StorageMap.find?_insert_self _ _ _

theorem find?_of_register_remove {env : Env} (who : A) {n d ip i k : Bytes}
    (hf : fieldError env n d ip i k = none) :
    (runFromEmpty env [⟨.signed who, .registerCertificate n d ip i k⟩,
      ⟨.signed who, .removeCertificate d⟩]).certificateMap.find? d = none := by
  have hacc := (fieldError_eq_none.mp hf).2.1
  have hstored := find?_of_register who hf
  rw [runFromEmpty, run_cons, run_nil] at hstored
  have hremove := step_removeCertificate hacc hstored
  rw [runFromEmpty, run_cons, run_cons, run_nil]
  exact (congrArg (fun s => s.certificateMap.find? d) hremove).trans
    (StorageMap.find?_remove_self _ _)

theorem find?_of_register_modify {env : Env} (who : A) {n d ip i k n' ip' i' k' : Bytes}
    (hf : fieldError env n d ip i k = none) (hf' : fieldError env n' d ip' i' k' = none)
    (hne : newCert who n' d ip' i' k' ≠ newCert who n d ip i k) :
    (runFromEmpty env [⟨.signed who, .registerCertificate n d ip i k⟩,
      ⟨.signed who, .modifyCertificate n' d ip' i' k'⟩]).certificateMap.find? d =
      some (newCert who n' d ip' i' k') := by
  have hstored := find?_of_register who hf
  rw [runFromEmpty, run_cons, run_nil] at hstored
  have hmodify := step_modifyCertificate hf' hstored hne
  rw [runFromEmpty, run_cons, run_cons, run_nil]
  exact (congrArg (fun s => s.certificateMap.find? d) hmodify).trans
    (StorageMap.find?_insert_self _ _ _)

/-! ## A concrete environment -/

/-- The library predicates on ASCII text, with `{}` as the only JSON text. -/
def asciiEnv : Env := ⟨Char.isUpper, fun cs => cs == ['\x7b', '\x7d']⟩

theorem fieldError_ascii (domain ip : String)
    (hdomain : accepts (checkDomain asciiEnv (asBytes domain)) = true)
    (hip : accepts (checkIp (asBytes ip)) = true) :
    fieldError asciiEnv (asBytes "A") (asBytes domain) (asBytes ip) (asBytes "\x7b\x7d")
      (asBytes "AB") = none := by
  refine fieldError_eq_none.mpr ⟨?_, hdomain, hip, ?_, ?_⟩
  · rw [accepts_checkName, fromUtf8_asBytes]
    decide +kernel
  · rw [accepts_checkInfo, fromUtf8_asBytes]
    decide +kernel
  · rw [accepts_checkKey, fromUtf8_asBytes]
    decide +kernel

theorem accepts_checkDomain_ab : accepts (checkDomain asciiEnv (asBytes "ab.cd")) = true := by
  rw [accepts_checkDomain, fromUtf8_asBytes]
  decide +kernel

theorem fieldError_ab : fieldError asciiEnv (asBytes "A") (asBytes "ab.cd") (asBytes "1.1.1.1")
    (asBytes "\x7b\x7d") (asBytes "AB") = none :=
  fieldError_ascii _ _ accepts_checkDomain_ab
    (by rw [accepts_checkIp, fromUtf8_asBytes]; decide +kernel)

/-- `who` registers `ab.cd` at `1.1.1.1`. -/
def registerAb (who : Nat) : Extrinsic Nat :=
  ⟨.signed who, .registerCertificate (asBytes "A") (asBytes "ab.cd") (asBytes "1.1.1.1")
    (asBytes "\x7b\x7d") (asBytes "AB")⟩

/-- The certificate it stores. -/
def certAb (who : Nat) : Certificate Nat :=
  newCert who (asBytes "A") (asBytes "ab.cd") (asBytes "1.1.1.1") (asBytes "\x7b\x7d")
    (asBytes "AB")

theorem find?_registerAb (who : Nat) :
    (runFromEmpty asciiEnv [registerAb who]).certificateMap.find? (asBytes "ab.cd") =
      some (certAb who) := by
  rw [registerAb, certAb]
  exact find?_of_register who fieldError_ab

/-- `who` removes it. -/
def removeAb (who : Nat) : Extrinsic Nat := ⟨.signed who, .removeCertificate (asBytes "ab.cd")⟩

theorem find?_removeAb (who : Nat) :
    (runFromEmpty asciiEnv [registerAb who, removeAb who]).certificateMap.find? (asBytes "ab.cd") =
      none := by
  rw [registerAb, removeAb]
  exact find?_of_register_remove who fieldError_ab

/-- `who` moves it to `2.2.2.2`. -/
def moveAb (who : Nat) : Extrinsic Nat :=
  ⟨.signed who, .modifyCertificate (asBytes "A") (asBytes "ab.cd") (asBytes "2.2.2.2")
    (asBytes "{}") (asBytes "AB")⟩

def movedAb (who : Nat) : Certificate Nat :=
  newCert who (asBytes "A") (asBytes "ab.cd") (asBytes "2.2.2.2") (asBytes "{}")
    (asBytes "AB")

theorem find?_moveAb (who : Nat) :
    (runFromEmpty asciiEnv [registerAb who, moveAb who]).certificateMap.find? (asBytes "ab.cd") =
      some (movedAb who) := by
  have hf : fieldError asciiEnv (asBytes "A") (asBytes "ab.cd") (asBytes "2.2.2.2")
      (asBytes "{}") (asBytes "AB") = none :=
    fieldError_ascii _ _ accepts_checkDomain_ab
      (by rw [accepts_checkIp, fromUtf8_asBytes]; decide +kernel)
  have hip : asBytes "2.2.2.2" ≠ asBytes "1.1.1.1" := by decide
  rw [registerAb, moveAb, movedAb]
  exact find?_of_register_modify who fieldError_ab hf fun h => hip (congrArg Certificate.ipAddr h)

end Siip.Pallet
