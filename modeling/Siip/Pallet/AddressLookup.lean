/-
  Reverse lookup by address. `check_ip` reads the four numbers of an address with `u8::from_str`,
  which takes leading zeros and a leading `+`; `ReverseMap` is keyed by the text. So certificates
  of one address are found together as long as no call spells the address of a stored certificate
  in another way (`reverse_by_address_iff`).
-/
import Siip.Pallet.ReverseLookup
import Siip.Pallet.WellFormed

namespace Siip.Pallet

open Lib

variable {A : Type}

/-- The numbers between the periods of an address text. -/
def ipNumbers (ip : Bytes) : Option (List Nat) :=
  (fromUtf8 ip).bind fun ip => (ip.splitOn '.').mapM parseU8

/-- Two texts of one IPv4 address. -/
def SameAddress (ip ip' : Bytes) : Prop :=
  ∃ nums, nums.length = 4 ∧ ipNumbers ip = some nums ∧ ipNumbers ip' = some nums

theorem SameAddress.symm {ip ip' : Bytes} (h : SameAddress ip ip') : SameAddress ip' ip := by
  obtain ⟨nums, hlen, h, h'⟩ := h
  exact ⟨nums, hlen, h', h⟩

/-- Under the text of one certificate's address, every certificate of this address is found. -/
def FoundByAddress (s : Storage A) : Prop :=
  ∀ d d' c c', s.certificateMap.find? d = some c → s.certificateMap.find? d' = some c' →
    SameAddress c.ipAddr c'.ipAddr →
    c ∈ ipToCertificates s c.ipAddr ∧ c' ∈ ipToCertificates s c.ipAddr

/-- Stored certificates of one address spell it the same. -/
def OneSpelling (s : Storage A) : Prop :=
  ∀ d d' c c', s.certificateMap.find? d = some c → s.certificateMap.find? d' = some c' →
    SameAddress c.ipAddr c'.ipAddr → c.ipAddr = c'.ipAddr

theorem oneSpelling_empty : OneSpelling (Storage.empty : Storage A) :=
  fun _ _ c _ hc => absurd hc (Option.some_ne_none c).symm

/-- A bucket holds certificates of its own spelling only. -/
theorem foundByAddress_iff [DecidableEq A] [Inhabited A] {env : Env} {s : Storage A}
    (hi : Indexed s) (hwf : WellFormed env s) : FoundByAddress s ↔ OneSpelling s := by
  constructor
  · intro h d d' c c' hc hc' hsame
    exact ((hwf.reverse _ c' (h d d' c c' hc hc' hsame).2).1).symm
  · intro h d d' c c' hc hc' hsame
    refine ⟨hi.complete d c hc, ?_⟩
    rw [h d d' c c' hc hc' hsame]
    exact hi.complete d' c' hc'

/-! ## One more certificate -/

/-- A certificate of another domain is stored under another spelling of the address. -/
def SpeltOtherwise (s : Storage A) (d ip : Bytes) : Prop :=
  ∃ d' other, d' ≠ d ∧ s.certificateMap.find? d' = some other ∧
    SameAddress ip other.ipAddr ∧ ip ≠ other.ipAddr

theorem oneSpelling_insert_iff {s s' : Storage A} {d : Bytes} {cert : Certificate A}
    (h : OneSpelling s) (hs' : s'.certificateMap = s.certificateMap.insert d cert) :
    OneSpelling s' ↔ ¬ SpeltOtherwise s d cert.ipAddr := by
  unfold OneSpelling
  rw [hs']
  constructor
  · intro hone hother
    obtain ⟨d', other, hd, hstored, hsame, hip⟩ := hother
    refine hip (hone d d' cert other (StorageMap.find?_insert_self _ _ _) ?_ hsame)
    rwa [StorageMap.find?_insert_of_ne _ _ hd]
  · intro hnot
    have hnew : ∀ d' other, d' ≠ d → s.certificateMap.find? d' = some other →
        SameAddress cert.ipAddr other.ipAddr → cert.ipAddr = other.ipAddr := by
      intro d' other hd hstored hsame
      by_contra hip
      exact hnot ⟨d', other, hd, hstored, hsame, hip⟩
    intro d₁ d₂ c₁ c₂ h₁ h₂ hsame
    by_cases hd₁ : d₁ = d
    · subst hd₁
      rw [StorageMap.find?_insert_self] at h₁
      obtain rfl := Option.some.inj h₁
      by_cases hd₂ : d₂ = d₁
      · subst hd₂
        rw [StorageMap.find?_insert_self] at h₂
        obtain rfl := Option.some.inj h₂
        rfl
      · rw [StorageMap.find?_insert_of_ne _ _ hd₂] at h₂
        exact hnew d₂ c₂ hd₂ h₂ hsame
    · rw [StorageMap.find?_insert_of_ne _ _ hd₁] at h₁
      by_cases hd₂ : d₂ = d
      · subst hd₂
        rw [StorageMap.find?_insert_self] at h₂
        obtain rfl := Option.some.inj h₂
        exact (hnew d₁ c₁ hd₁ h₁ hsame.symm).symm
      · rw [StorageMap.find?_insert_of_ne _ _ hd₂] at h₂
        exact h d₁ d₂ c₁ c₂ h₁ h₂ hsame

theorem OneSpelling.remove {s s' : Storage A} {d : Bytes} (h : OneSpelling s)
    (hs' : s'.certificateMap = s.certificateMap.remove d) : OneSpelling s' := by
  have hkept : ∀ {d' : Bytes} {c : Certificate A},
      s'.certificateMap.find? d' = some c → s.certificateMap.find? d' = some c := by
    intro d' c hc
    rw [hs'] at hc
    by_cases hd : d' = d
    · subst hd
      rw [StorageMap.find?_remove_self] at hc
      exact absurd hc (Option.some_ne_none c).symm
    · rwa [StorageMap.find?_remove_of_ne _ hd] at hc
  intro d₁ d₂ c₁ c₂ h₁ h₂ hsame
  exact h d₁ d₂ c₁ c₂ (hkept h₁) (hkept h₂) hsame

/-! ## Runs -/

variable [DecidableEq A] [Inhabited A]

/-- The call registers the domain with this address, or gives it this address as its owner. -/
def Writes (env : Env) (s : Storage A) (x : Extrinsic A) (d ip : Bytes) : Prop :=
  ∃ who n i k, fieldError env n d ip i k = none ∧
    (x = ⟨.signed who, .registerCertificate n d ip i k⟩ ∧ s.certificateMap.find? d = none ∨
      x = ⟨.signed who, .modifyCertificate n d ip i k⟩ ∧
        ∃ old, s.certificateMap.find? d = some old ∧ old.ownerId = who)

/-- The call passes the guards, and spells the address of another certificate in another way. -/
def Respells (env : Env) (s : Storage A) (x : Extrinsic A) : Prop :=
  ∃ d ip, Writes env s x d ip ∧ SpeltOtherwise s d ip

section

variable {env : Env} {s : Storage A} {n d ip i k : Bytes}
  (fields : fieldError env n d ip i k = none)

include fields

omit [DecidableEq A] [Inhabited A] in
theorem respells_register_iff (who : A) (fresh : s.certificateMap.find? d = none) :
    Respells env s ⟨.signed who, .registerCertificate n d ip i k⟩ ↔ SpeltOtherwise s d ip := by
  constructor
  · intro h
    obtain ⟨d', ip', ⟨who', n', i', k', -, hx⟩, hother⟩ := h
    obtain ⟨⟨⟩, -⟩ | ⟨hx, -⟩ := hx
    · exact hother
    · exact absurd (congrArg Extrinsic.call hx) (by simp)
  · intro hother
    exact ⟨d, ip, ⟨who, n, i, k, fields, Or.inl ⟨rfl, fresh⟩⟩, hother⟩

omit [DecidableEq A] [Inhabited A] in
theorem respells_modify_iff {old : Certificate A} (stored : s.certificateMap.find? d = some old) :
    Respells env s ⟨.signed old.ownerId, .modifyCertificate n d ip i k⟩ ↔
      SpeltOtherwise s d ip := by
  constructor
  · intro h
    obtain ⟨d', ip', ⟨who', n', i', k', -, hx⟩, hother⟩ := h
    obtain ⟨hx, -⟩ | ⟨hx, -⟩ := hx
    · exact absurd (congrArg Extrinsic.call hx) (by simp)
    · simp only [Extrinsic.mk.injEq, Call.modifyCertificate.injEq] at hx
      obtain ⟨-, -, rfl, rfl, -⟩ := hx
      exact hother
  · intro hother
    exact ⟨d, ip, ⟨old.ownerId, n, i, k, fields, Or.inr ⟨rfl, old, stored, rfl⟩⟩, hother⟩

end

omit [DecidableEq A] [Inhabited A] in
theorem not_respells_remove (env : Env) (s : Storage A) (o : Origin A) (d : Bytes) :
    ¬ Respells env s ⟨o, .removeCertificate d⟩ := by
  intro h
  obtain ⟨d', ip', ⟨who', n', i', k', -, hx⟩, -⟩ := h
  obtain ⟨hx, -⟩ | ⟨hx, -⟩ := hx
  · exact absurd (congrArg Extrinsic.call hx) (by simp)
  · exact absurd (congrArg Extrinsic.call hx) (by simp)

/-- A call that is refused respells nothing: it fails its guards, or the stored certificate is
    already the new one. -/
theorem not_respells_of_refused {env : Env} {s : Storage A} {x : Extrinsic A} {e : DispatchError}
    (h : OneSpelling s) (hres : result env s x = .error e) : ¬ Respells env s x := by
  intro hrespells
  obtain ⟨d, ip, ⟨who, n, i, k, hf, hx⟩, d', other, hd, hstored, hsame, hip⟩ := hrespells
  obtain ⟨rfl, hfree⟩ | ⟨rfl, old, hold, rfl⟩ := hx
  · simp [result, Store.dispatch, runFrom_registerCertificate, hf, hfree] at hres
  · by_cases hne : newCert old.ownerId n d ip i k = old
    · have holdIp : old.ipAddr = ip := (congrArg Certificate.ipAddr hne).symm
      rw [← holdIp] at hsame hip
      exact hip (h d d' old other hold hstored hsame)
    · simp [result, Store.dispatch, runFrom_modifyCertificate, hf, hold, hne] at hres

theorem oneSpelling_step_iff (env : Env) (s : Storage A) (x : Extrinsic A) (h : OneSpelling s) :
    OneSpelling (step env s x) ↔ ¬ Respells env s x := by
  have heff := effect_dispatch env s x
  generalize step env s x = s' at heff
  generalize hres : result env s x = r at heff
  cases heff with
  | refused e => exact iff_of_true h (not_respells_of_refused h hres)
  | registered who n d ip i k fields fresh =>
    rw [oneSpelling_insert_iff h rfl, respells_register_iff fields who fresh]
    rfl
  | modified n d ip i k old fields stored changed =>
    rw [oneSpelling_insert_iff h rfl, respells_modify_iff fields stored]
    rfl
  | removed d old domain stored =>
    exact iff_of_true (h.remove rfl) (not_respells_remove env s _ d)

/-- What carries the spelling to the buckets. -/
structure Addressed (env : Env) (s : Storage A) : Prop where
  indexed : Indexed s
  wellFormed : WellFormed env s

omit [DecidableEq A] [Inhabited A] in
theorem addressed_empty (env : Env) : Addressed env (Storage.empty : Storage A) :=
  ⟨indexed_empty, wellFormed_empty env⟩

theorem addressed_step (env : Env) (s : Storage A) (x : Extrinsic A) (h : Addressed env s) :
    Addressed env (step env s x) :=
  ⟨indexed_step env s x h.indexed, wellFormed_step env s x h.wellFormed⟩

theorem foundByAddress_step_iff (env : Env) (s : Storage A) (x : Extrinsic A)
    (h : Addressed env s) (hfound : FoundByAddress s) :
    FoundByAddress (step env s x) ↔ ¬ Respells env s x := by
  have h' := addressed_step env s x h
  rw [foundByAddress_iff h'.indexed h'.wellFormed]
  exact oneSpelling_step_iff env s x ((foundByAddress_iff h.indexed h.wellFormed).mp hfound)

/-- Reverse lookup finds the certificates of an address, in every state of the run of `xs` from
    empty storage, exactly when no step of that run gives an address another spelling. -/
theorem reverse_by_address_iff (env : Env) (xs : List (Extrinsic A)) :
    Always (step env) FoundByAddress Storage.empty xs ↔
      EachStep (step env) (fun s x => ¬ Respells env s x) Storage.empty xs :=
  always_iff_eachStep (addressed_step env) (foundByAddress_step_iff env) (addressed_empty env)
    ((foundByAddress_iff indexed_empty (wellFormed_empty env)).mpr oneSpelling_empty) xs

/-- Two domains registered at two spellings of one address. -/
theorem not_foundByAddress_of_spellings (env : Env) (who : A) {n d d' ip ip' i k : Bytes}
    (h : fieldError env n d ip i k = none) (h' : fieldError env n d' ip' i k = none)
    (hd : d' ≠ d) (hsame : SameAddress ip ip') (hip : ip ≠ ip') :
    ¬ FoundByAddress (runFromEmpty env [⟨.signed who, .registerCertificate n d ip i k⟩,
      ⟨.signed who, .registerCertificate n d' ip' i k⟩]) := by
  set s₁ : Storage A := Storage.empty.registered (newCert who n d ip i k) with hs₁
  have hstep : step env Storage.empty ⟨.signed who, .registerCertificate n d ip i k⟩ = s₁ :=
    step_registerCertificate who h rfl
  have haddressed : Addressed env s₁ := hstep ▸ addressed_step env _ _ (addressed_empty env)
  have hone : OneSpelling s₁ := by
    refine (oneSpelling_insert_iff oneSpelling_empty rfl).mpr fun hother => ?_
    obtain ⟨_, other, -, hstored, -⟩ := hother
    exact absurd hstored (Option.some_ne_none other).symm
  have hfree : s₁.certificateMap.find? d' = none := StorageMap.find?_insert_of_ne _ _ hd
  have hstored : s₁.certificateMap.find? d = some (newCert who n d ip i k) :=
    StorageMap.find?_insert_self _ _ _
  rw [runFromEmpty, run_cons, run_cons, run_nil, hstep, foundByAddress_step_iff env s₁ _ haddressed
    ((foundByAddress_iff haddressed.indexed haddressed.wellFormed).mpr hone), not_not]
  exact ⟨d', ip', ⟨who, n, i, k, h', Or.inl ⟨rfl, hfree⟩⟩, d, _, hd.symm, hstored, hsame.symm,
    hip.symm⟩

/-- `ab.cd` at `1.1.1.1`, and `ef.gh` at `01.1.1.1`. -/
theorem respelt_not_found :
    ¬ FoundByAddress (runFromEmpty asciiEnv
      [⟨.signed (1 : Nat), .registerCertificate (asBytes "A") (asBytes "ab.cd") (asBytes "1.1.1.1")
          (asBytes "\x7b\x7d") (asBytes "AB")⟩,
        ⟨.signed 1, .registerCertificate (asBytes "A") (asBytes "ef.gh") (asBytes "01.1.1.1")
          (asBytes "\x7b\x7d") (asBytes "AB")⟩]) := by
  apply not_foundByAddress_of_spellings
  · exact fieldError_ab
  · refine fieldError_ascii _ _ ?_ ?_
    · rw [accepts_checkDomain, fromUtf8_asBytes]
      decide +kernel
    · rw [accepts_checkIp, fromUtf8_asBytes]
      decide +kernel
  · decide +kernel
  · refine ⟨[1, 1, 1, 1], rfl, ?_, ?_⟩
    · rw [ipNumbers, fromUtf8_asBytes]
      decide +kernel
    · rw [ipNumbers, fromUtf8_asBytes]
      decide +kernel
  · decide +kernel

end Siip.Pallet
