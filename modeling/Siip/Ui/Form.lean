/-
  The form of `GettersAndSetters`: when its buttons can be pressed, what `TxButton` then sends, and
  what the chain says to it.

  The buttons wait for the reports of the node and for a lookup of the domain, and so decide before
  the chain does. For texts without outer white space they decide alike for an account that can pay
  for the transaction, but that the form insists on a key (`form_gate`). With outer white space they
  do not: what is validated is the text, what is sent is trimmed (`register_sent`). Nothing in the
  form asks whether the account can pay the fee and the tip that it is about to sign.
-/
import Mathlib.Data.List.DropRight
import Siip.Pallet.AddressText
import Siip.Pallet.KeyText
import Siip.Pallet.Outcome
import Siip.Ui.Report

namespace Siip.Ui

open Lib Pallet

/-! ## The form -/

/-- White space and line terminators of the language. -/
def isWhiteSpace (c : Char) : Bool :=
  [9, 10, 11, 12, 13, 32, 160, 5760, 8232, 8233, 8239, 8287, 12288, 65279].contains c.toNat ||
    (decide (8192 ≤ c.toNat) && decide (c.toNat ≤ 8202))

/-- `text.trim()` -/
def trim (text : Text) : Text := (text.dropWhile isWhiteSpace).rdropWhile isWhiteSpace

/-- What stands in the fields. The tip is no part of the call, and no button asks for its report. -/
structure Fields where
  domain : Text
  name : Text
  ipAddr : Text
  info : Text
  publicKey : Text
  tip : Text

/-- The reports that the form holds, one for each field. -/
structure Validity where
  domain : Text
  name : Text
  ipAddr : Text
  info : Text
  publicKey : Text

def updateValidity (v : Validity) : Bool :=
  !(invalid v.domain || invalid v.name || invalid v.ipAddr || invalid v.info ||
    invalid v.publicKey)

inductive Method where
  | register | modify | delete
  deriving DecidableEq

/-- The buttons of the three cards. The one of `Delete` is given the report itself. -/
def enableButton (v : Validity) (domainExists : Bool) : Method → Bool
  | .register => !domainExists && updateValidity v
  | .modify => domainExists && updateValidity v
  | .delete => domainExists && !v.domain.isEmpty

/-! ## What is sent -/

/-- The client library: a parameter of the type `Bytes`, hexadecimal when it starts with `0x`, and
    the tip that a transaction is signed with, where it takes the text for an amount. -/
structure Api where
  bytes : Option Text → Bytes
  tip : Text → Option Nat
  bytes_null : bytes none = []
  bytes_of_plain : ∀ {text : Text}, ¬ "0x".toList <+: text → bytes (some text) = utf8Bytes text

def inputParams (f : Fields) : Method → List Text
  | .register => [f.name, f.domain, f.ipAddr, f.info, f.publicKey]
  | .modify => [f.name, f.domain, f.ipAddr, f.info, f.publicKey]
  | .delete => [f.domain]

/-- None of the parameters is optional. -/
def allParamsFilled (inputParams : List Text) : Bool := inputParams.all fun value => !value.isEmpty

/-- One parameter of `transformParams`: its type is `Bytes`, so it is neither a vector nor a
    number. -/
def transformParam (value : Text) : Option Text :=
  if trim value = [] then none else some (trim value)

section

variable (api : Api)

def param (value : Text) : Bytes := api.bytes (transformParam value)

def call (f : Fields) : Method → Call
  | .register => .registerCertificate (param api f.name) (param api f.domain)
      (param api f.ipAddr) (param api f.info) (param api f.publicKey)
  | .modify => .modifyCertificate (param api f.name) (param api f.domain)
      (param api f.ipAddr) (param api f.info) (param api f.publicKey)
  | .delete => .removeCertificate (param api f.domain)

variable {A : Type}

/-- A transaction that an account has signed. -/
structure SignedTx (A : Type) where
  who : A
  call : Call
  tip : Nat

/-- What the button of `SubmitButton` sends for the account, if it can be pressed. -/
def signedTx (who : A) (v : Validity) (domainExists : Bool) (f : Fields) (method : Method) :
    Option (SignedTx A) :=
  if enableButton v domainExists method && allParamsFilled (inputParams f method) then
    (api.tip f.tip).map fun tip => ⟨who, call api f method, tip⟩
  else none

variable [Inhabited A]

/-- `updateDb`: the version number is 0 where there is no certificate. The domain is not trimmed. -/
def updateDb (s : Storage A) (domain : Text) : Bool :=
  decide ((domainToCertificate s (api.bytes (some domain))).versionNumber ≠ 0)

/-- The node has answered all that the form asks for what stands in it. -/
structure Settled (env : Env) (s : Storage A) (f : Fields) (v : Validity) (domainExists : Bool) :
    Prop where
  domain : validateDomain env f.domain = some v.domain
  name : validateName f.name = some v.name
  ipAddr : validateIp f.ipAddr = some v.ipAddr
  info : validateInfo env f.info = some v.info
  publicKey : validateKey f.publicKey = some v.publicKey
  lookup : domainExists = updateDb api s f.domain

end

/-! ## What the chain does with it -/

/-- `apply_extrinsic`: a transaction is refused (`none`) when its fee and its tip cannot be taken
    from the account; else its call is dispatched. The fee is the same for all transactions
    (`ConstFee`, and nothing for their bytes), so that `canPay` has to know the account and the tip
    alone. -/
def applyExtrinsic {A : Type} [DecidableEq A] [Inhabited A] (canPay : A → Nat → Bool) (env : Env)
    (s : Storage A) (tx : SignedTx A) : Option (Except DispatchError Unit) :=
  if canPay tx.who tx.tip then some (result env s ⟨.signed tx.who, tx.call⟩) else none

/-! ## Texts as they are sent -/

/-- The library does not take the text for hexadecimal. -/
def Textual (text : Text) : Prop := ¬ "0x".toList <+: text

instance (text : Text) : Decidable (Textual text) := inferInstanceAs (Decidable (¬ _))

/-- The text is sent as it stands. -/
def SentAsIs (text : Text) : Prop := trim text = text ∧ Textual text

theorem param_eq (api : Api) {value : Text} (h : Textual (trim value)) :
    param api value = utf8Bytes (trim value) := by
  unfold param transformParam
  split
  · rename_i hempty
    rw [hempty, api.bytes_null]
    rfl
  · exact api.bytes_of_plain h

theorem param_of_sentAsIs {api : Api} {value : Text} (h : SentAsIs value) :
    param api value = utf8Bytes value := by
  obtain ⟨htrim, htext⟩ := h
  rw [param_eq api (htrim.symm ▸ htext), htrim]

/-- Neither white space nor the `x` of a `0x`. -/
def isKept (c : Char) : Bool := !isWhiteSpace c && c != 'x'

theorem sentAsIs_of_all {text : Text} (h : text.all isKept = true) : SentAsIs text := by
  have hkept : ∀ c ∈ text, isWhiteSpace c = false ∧ c ≠ 'x' :=
    fun c hc => by simpa [isKept] using List.all_eq_true.mp h c hc
  have hfront : text.dropWhile isWhiteSpace = text := by
    cases text with
    | nil => rfl
    | cons c text => exact List.dropWhile_cons_of_neg (by simp [(hkept c List.mem_cons_self).1])
  refine ⟨?_, ?_⟩
  · rw [trim, hfront, List.rdropWhile_eq_self_iff]
    exact fun hne => by simp [(hkept _ (List.getLast_mem hne)).1]
  · exact fun hzero => (hkept 'x' (hzero.subset (by decide))).2 rfl

/-- An address that is accepted is sent as it stands. -/
theorem sentAsIs_of_accepts_checkIp {ip : Text} (h : accepts (checkIp (utf8Bytes ip)) = true) :
    SentAsIs ip := by
  refine sentAsIs_of_all (List.all_eq_true.mpr fun c hc => ?_)
  obtain rfl | rfl | hdigit := mem_of_accepts_checkIp (fromUtf8_utf8Bytes ip) h hc
  · decide
  · decide
  · have hrange := range_of_isDigit hdigit
    have hx : c ≠ 'x' := by
      rintro rfl
      exact absurd hdigit (by decide)
    simp [isKept, isWhiteSpace, hx]
    omega

/-- So is a key. -/
theorem sentAsIs_of_accepts_checkKey {key : Text}
    (h : accepts (checkKey (utf8Bytes key)) = true) : SentAsIs key := by
  obtain ⟨hfits, -⟩ := (accepts_checkKey_iff (fromUtf8_utf8Bytes key)).mp h
  have hdigits : (':' :: hexDigits).all isKept = true := by decide
  refine sentAsIs_of_all (List.all_eq_true.mpr fun c hc => List.all_eq_true.mp hdigits c ?_)
  obtain ⟨j, hj⟩ := List.getElem?_of_mem hc
  have hfit := hfits j c hj
  rw [FitsAt] at hfit
  split at hfit
  · exact List.mem_cons.mpr (.inl hfit)
  · exact List.mem_cons_of_mem _ hfit

/-! ## What the buttons wait for -/

theorem invalid_eq (env : Env) {check : Bytes → Bytes} (hcheck : check ∈ checks env)
    {text validity : Text} (h : validateField check text = some validity) :
    invalid validity = !accepts (check (utf8Bytes text)) := by
  obtain ⟨lines, hanswer, hreport, -⟩ := (reporting_checks hcheck).validateField_eq text
  obtain rfl := Option.some.inj (h.symm.trans hanswer)
  rw [hreport, invalid_reportText]

theorem ne_nil_of_validateDomain {env : Env} {text validity : Text}
    (h : validateDomain env text = some validity) : validity ≠ [] := by
  have hcheck : checkDomain env ∈ checks env := by simp [checks]
  obtain ⟨lines, hanswer, -⟩ := (reporting_checks hcheck).validateField_eq text
  obtain rfl := Option.some.inj (h.symm.trans hanswer)
  rw [toList_reportText_cons]
  exact List.append_ne_nil_of_right_ne_nil _ (List.cons_ne_nil _ _)

/-- The fields pass the checks of the dispatchables as they stand. -/
def Fields.Valid (env : Env) (f : Fields) : Prop :=
  accepts (checkName (utf8Bytes f.name)) = true ∧
    accepts (checkDomain env (utf8Bytes f.domain)) = true ∧
    accepts (checkIp (utf8Bytes f.ipAddr)) = true ∧
    accepts (checkInfo env (utf8Bytes f.info)) = true ∧
    accepts (checkKey (utf8Bytes f.publicKey)) = true

section

variable {api : Api} {env : Env} {A : Type} [Inhabited A] {s : Storage A} {f : Fields}
  {v : Validity} {domainExists : Bool} (h : Settled api env s f v domainExists)

include h

theorem Settled.updateValidity_iff : updateValidity v = true ↔ f.Valid env := by
  have hname := invalid_eq env (by simp [checks]) h.name
  have hdomain := invalid_eq env (by simp [checks]) h.domain
  have hip := invalid_eq env (by simp [checks]) h.ipAddr
  have hinfo := invalid_eq env (by simp [checks]) h.info
  have hkey := invalid_eq env (by simp [checks]) h.publicKey
  rw [updateValidity, hname, hdomain, hip, hinfo, hkey, Fields.Valid]
  simp only [Bool.not_eq_true', Bool.or_eq_false_iff, Bool.not_eq_false']
  tauto

theorem Settled.domainExists_iff (hwf : WellFormed env s) (htext : Textual f.domain) :
    domainExists = true ↔ (s.certificateMap.find? (utf8Bytes f.domain)).isSome = true := by
  rw [h.lookup, updateDb, api.bytes_of_plain htext, decide_eq_true_eq, ne_eq,
    hwf.version_eq_zero_iff, Option.isSome_iff_ne_none]

theorem Settled.not_domainExists_iff (hwf : WellFormed env s) (htext : Textual f.domain) :
    (!domainExists) = true ↔ s.certificateMap.find? (utf8Bytes f.domain) = none := by
  rw [Bool.not_eq_true', ← Bool.not_eq_true, h.domainExists_iff hwf htext, Bool.not_eq_true,
    Option.isSome_eq_false_iff, Option.isNone_iff_eq_none]

end

theorem allParamsFilled_register (f : Fields) :
    allParamsFilled (inputParams f .register) = true ↔
      (f.name ≠ [] ∧ f.domain ≠ [] ∧ f.ipAddr ≠ [] ∧ f.info ≠ []) ∧ f.publicKey ≠ [] := by
  simp [allParamsFilled, inputParams, and_assoc]

theorem signedTx_eq_some_iff {A : Type} {api : Api} {who : A} {v : Validity} {domainExists : Bool}
    {f : Fields} {method : Method} {tx : SignedTx A} :
    signedTx api who v domainExists f method = some tx ↔
      (enableButton v domainExists method = true ∧ allParamsFilled (inputParams f method) = true) ∧
        ∃ tip, api.tip f.tip = some tip ∧ ⟨who, call api f method, tip⟩ = tx := by
  rw [← Bool.and_eq_true]
  unfold signedTx
  split
  · rename_i hpressed
    rw [Option.map_eq_some_iff, and_iff_right hpressed]
  · rename_i hpressed
    exact iff_of_false (by simp) fun h => hpressed h.1

/-- A tip that is an amount does not keep the form from sending. -/
theorem isSome_signedTx {A : Type} {api : Api} {f : Fields} {tip : Nat}
    (htip : api.tip f.tip = some tip) (who : A) (v : Validity) (domainExists : Bool)
    (method : Method) :
    (signedTx api who v domainExists f method).isSome = true ↔
      enableButton v domainExists method = true ∧
        allParamsFilled (inputParams f method) = true := by
  simp only [Option.isSome_iff_exists, signedTx_eq_some_iff, htip, Option.some.injEq,
    exists_eq_left', exists_and_left, exists_eq', and_true]

/-- All fields of the call are sent as they stand. -/
structure Fields.SentAsIs (f : Fields) : Prop where
  domain : Ui.SentAsIs f.domain
  name : Ui.SentAsIs f.name
  ipAddr : Ui.SentAsIs f.ipAddr
  info : Ui.SentAsIs f.info
  publicKey : Ui.SentAsIs f.publicKey

theorem ne_nil_of_accepts_checkDomain {env : Env} {domain : Text}
    (h : accepts (checkDomain env (utf8Bytes domain)) = true) : domain ≠ [] := by
  rintro rfl
  rw [accepts_checkDomain, fromUtf8_utf8Bytes] at h
  simp at h

/-- Every field but the key has to be filled for the checks, if the empty text is no JSON. -/
theorem Fields.Valid.filled {env : Env} {f : Fields} (h : f.Valid env)
    (hjson : env.isJson [] = false) :
    f.name ≠ [] ∧ f.domain ≠ [] ∧ f.ipAddr ≠ [] ∧ f.info ≠ [] := by
  obtain ⟨hname, hdomain, hip, hinfo, -⟩ := h
  refine ⟨?_, ne_nil_of_accepts_checkDomain hdomain, ?_, ?_⟩
  · intro hnil
    rw [hnil] at hname
    exact absurd hname (by decide +kernel)
  · intro hnil
    rw [hnil] at hip
    exact absurd hip (by decide +kernel)
  · intro hnil
    rw [hnil, accepts_checkInfo, fromUtf8_utf8Bytes] at hinfo
    exact absurd (hinfo.symm.trans hjson) (by decide)

section

variable {A : Type} [DecidableEq A] [Inhabited A] {env : Env} {s : Storage A} {who : A} {f : Fields}

theorem result_register_iff :
    result env s ⟨.signed who, .registerCertificate (utf8Bytes f.name) (utf8Bytes f.domain)
        (utf8Bytes f.ipAddr) (utf8Bytes f.info) (utf8Bytes f.publicKey)⟩ = .ok () ↔
      f.Valid env ∧ s.certificateMap.find? (utf8Bytes f.domain) = none := by
  rw [result_registerCertificate_iff, Fields.Valid, ← fieldError_eq_none]
  simp only [accepted_newCert_iff, Origin.signed.injEq, exists_eq_left']

theorem result_modify_iff :
    result env s ⟨.signed who, .modifyCertificate (utf8Bytes f.name) (utf8Bytes f.domain)
        (utf8Bytes f.ipAddr) (utf8Bytes f.info) (utf8Bytes f.publicKey)⟩ = .ok () ↔
      f.Valid env ∧ ∃ old, s.certificateMap.find? (utf8Bytes f.domain) = some old ∧
        old.ownerId = who ∧ newCert who (utf8Bytes f.name) (utf8Bytes f.domain)
          (utf8Bytes f.ipAddr) (utf8Bytes f.info) (utf8Bytes f.publicKey) ≠ old := by
  rw [result_modifyCertificate_iff, Fields.Valid, ← fieldError_eq_none]
  simp only [accepted_newCert_iff, Origin.signed.injEq, exists_and_left, exists_eq_left']

theorem result_delete_iff (hwf : WellFormed env s) {d : Bytes} :
    result env s ⟨.signed who, .removeCertificate d⟩ = .ok () ↔
      ∃ old, s.certificateMap.find? d = some old ∧ old.ownerId = who := by
  rw [result_removeCertificate_iff]
  simp only [Origin.signed.injEq, exists_and_left, exists_eq_left']
  refine and_iff_right_of_imp fun hold => ?_
  obtain ⟨old, hstored, -⟩ := hold
  obtain ⟨hdomain, -, haccepted⟩ := hwf.forward d old hstored
  exact hdomain ▸ haccepted.domain

end

variable {A : Type} [DecidableEq A] [Inhabited A]

theorem applyExtrinsic_iff {canPay : A → Nat → Bool} {env : Env} {s : Storage A}
    {tx : SignedTx A} :
    applyExtrinsic canPay env s tx = some (.ok ()) ↔
      canPay tx.who tx.tip = true ∧ result env s ⟨.signed tx.who, tx.call⟩ = .ok () := by
  unfold applyExtrinsic
  split
  · rename_i hpays
    rw [Option.some.injEq, and_iff_right hpays]
  · rename_i hpays
    exact iff_of_false (by simp) fun h => hpays h.1

omit [DecidableEq A] in
/-- The node answers whatever stands in the fields. -/
theorem exists_settled (api : Api) (env : Env) (s : Storage A) (f : Fields) :
    ∃ v, Settled api env s f v (updateDb api s f.domain) := by
  have hanswer : ∀ check ∈ checks env, ∀ text, ∃ validity,
      validateField check text = some validity := by
    intro check hcheck text
    obtain ⟨lines, hanswer, -⟩ := (reporting_checks hcheck).validateField_eq text
    exact ⟨_, hanswer⟩
  obtain ⟨domain, hdomain⟩ := hanswer (checkDomain env) (by simp [checks]) f.domain
  obtain ⟨name, hname⟩ := hanswer checkName (by simp [checks]) f.name
  obtain ⟨ipAddr, hip⟩ := hanswer checkIp (by simp [checks]) f.ipAddr
  obtain ⟨info, hinfo⟩ := hanswer (checkInfo env) (by simp [checks]) f.info
  obtain ⟨publicKey, hkey⟩ := hanswer checkKey (by simp [checks]) f.publicKey
  exact ⟨⟨domain, name, ipAddr, info, publicKey⟩, hdomain, hname, hip, hinfo, hkey, rfl⟩

def plainApi : Api where
  bytes value := (value.map utf8Bytes).getD []
  tip text := if text.all Char.isDigit then some (Nat.ofDigitChars 10 text 0) else none
  bytes_null := rfl
  bytes_of_plain _ := rfl

/-- Accounts that have the fee and 10 to spend. -/
def canPayTen (_who : Nat) (tip : Nat) : Bool := decide (tip ≤ 10)

/-- A form for `domain` with a tip of 1, and with the other fields of `registerAb`. -/
def fieldsFor (domain : String) : Fields where
  domain := domain.toList
  name := "A".toList
  ipAddr := "1.1.1.1".toList
  info := "\x7b\x7d".toList
  publicKey := "AB".toList
  tip := "1".toList

theorem valid_fieldsFor {domain : String}
    (h : accepts (checkDomain asciiEnv (asBytes domain)) = true) :
    (fieldsFor domain).Valid asciiEnv := by
  rw [Fields.Valid, ← fieldError_eq_none]
  simp only [fieldsFor, utf8Bytes_toList]
  exact fieldError_ascii _ _ h (by rw [accepts_checkIp, fromUtf8_asBytes]; decide +kernel)

end Siip.Ui
