/-
  The field checks of the pallet (`check_name`, `check_domain`, `check_ip`, `check_info`,
  `check_key`). Each returns a report: one line per criterion, starting with `Ok: ` or `Err: `.
  The dispatchables accept a field when its report does not contain `Err:`.

  `Env` holds the two library predicates a check calls and whose code is not part of the
  pallet: `char::is_uppercase` and whether `serde_json::from_str::<Value>` succeeds.

  `accepts_*`: a report is accepted exactly when all its criteria hold.
-/
import Siip.Lib.Bytes
import Mathlib.Data.List.Basic

namespace Siip.Pallet

/-- Library predicates the checks call. -/
structure Env where
  /-- `char::is_uppercase` -/
  isUppercase : Char → Bool
  /-- `serde_json::from_str::<serde_json::Value>(..).is_ok()` -/
  isJson : List Char → Bool

/-- One line of a report. -/
def criterion (ok : Bool) (text : String) : Bytes :=
  asBytes ((if ok then "Ok: " else "Err: ") ++ text ++ "\n")

/-- The lines of `criteria`, in the order they are pushed. -/
def report (lines : List (Bool × String)) : Bytes :=
  lines.flatMap fun line => criterion line.1 line.2

/-- Every check starts by decoding its field and stops there when that fails. -/
def checkUtf8 (field : Bytes) (rest : List Char → List (Bool × String)) : Bytes :=
  match fromUtf8 field with
  | none => report [(false, "Must be a valid string")]
  | some cs => report ((true, "Must be a valid string") :: rest cs)

/-- `!from_utf8(&criteria).unwrap().contains("Err:")`. A report always decodes
    (`fromUtf8_report`), so the `unwrap` does not panic. -/
def accepts (criteria : Bytes) : Bool :=
  match fromUtf8 criteria with
  | none => false
  | some cs => !contains "Err:".toList cs

/-! ## The checks -/

def checkName (name : Bytes) : Bytes :=
  checkUtf8 name fun _ =>
    [(decide (name.length ≥ 1), "Must be at least 1 character long")]

def domainMaxChars : Nat := 64

def invalidChars : List Char :=
  ['_', ' ', '!', '@', '#', '$', '^', '&', '*', '(', ')', '\n']

/-- The criterion on the top level domain, the part after the last `.` of at least two. -/
def tldOk (domain : List Char) : Bool :=
  let parts := domain.splitOn '.'
  match parts.getLast? with
  | none => false
  | some tld => decide (2 ≤ parts.length) && decide (2 ≤ tld.length) && decide (tld.length ≤ 63)

def checkDomain (env : Env) (domain : Bytes) : Bytes :=
  checkUtf8 domain fun domain =>
    -- The last criterion reads the outer `tld`, which stays empty: the inner one shadows it.
    let tld : List Char := []
    [(decide (domain.length < domainMaxChars), "Must be shorter than 64 characters"),
     (domain.all fun c => !invalidChars.contains c,
      "Must not contain the characters: '_', ' ', '!', '@','#', '$', '^', '&', '*', '(', ')', '\\n'"),
     (domain.all fun c => !env.isUppercase c, "Characters may not be uppercase"),
     (tldOk domain, "TLD must be between 2 and 63characters in length"),
     (decide (domain.length - tld.length > 1), "Subdomain must be at least 1 character long")]

/-- `u8::from_str` on the digits of a section: multiplication and addition are checked. -/
def parseU8Digits (acc : Nat) : List Char → Option Nat
  | [] => some acc
  | c :: cs =>
    if c.isDigit then
      let n := acc * 10 + (c.toNat - '0'.toNat)
      if n ≤ 255 then parseU8Digits n cs else none
    else none

/-- `str::parse::<u8>`: an optional leading `+`, then at least one digit. -/
def parseU8 : List Char → Option Nat
  | [] => none
  | ['+'] => none
  | '+' :: cs => parseU8Digits 0 cs
  | cs => parseU8Digits 0 cs

def checkIp (ip : Bytes) : Bytes :=
  checkUtf8 ip fun ip =>
    let nums := ip.splitOn '.'
    [(ip.count '.' == 3, "There must be three periods"),
     (nums.all fun s => decide ((utf8Bytes s).length ≥ 1),
      "There must be four sections (separated by periods)"),
     (nums.all fun s => (parseU8 s).isSome, "Numbers must be between 0 and 255")]

def checkInfo (env : Env) (info : Bytes) : Bytes :=
  checkUtf8 info fun info => [(env.isJson info, "Must be a valid json")]

/-- The two flags of the scan in `check_key` and its position counter, an `i32`. -/
structure KeyScan where
  validSeparator : Bool := true
  validValues : Bool := true
  i : Int32 := 0

def hexDigits : List Char :=
  ['0', '1', '2', '3', '4', '5', '6', '7', '8', '9', 'A', 'B', 'C', 'D', 'E', 'F']

def KeyScan.step (st : KeyScan) (c : Char) : KeyScan :=
  if st.i ≠ 0 ∧ (st.i + 1) % 3 = 0 then
    { st with validSeparator := st.validSeparator && c == ':', i := st.i + 1 }
  else
    { st with validValues := st.validValues && hexDigits.contains c, i := st.i + 1 }

def checkKey (key : Bytes) : Bytes :=
  checkUtf8 key fun key =>
    let st := key.foldl KeyScan.step {}
    [(st.validSeparator && !(key.getLast? == some ':'),
      "Every pair of hexadecimal digits must be separated by ':'"),
     (st.validValues,
      "Non-separators must be valid hexadecimal digits (uppercase hexadecimal)")]

/-! ## What an accepted report says -/

theorem report_cons (line : Bool × String) (lines : List (Bool × String)) :
    report (line :: lines) = criterion line.1 line.2 ++ report lines := by
  simp [report]

/-- The text of a report, as a string. -/
def reportText (lines : List (Bool × String)) : String :=
  lines.foldr (fun line t => (if line.1 then "Ok: " else "Err: ") ++ line.2 ++ "\n" ++ t) ""

theorem report_eq (lines : List (Bool × String)) : report lines = asBytes (reportText lines) := by
  induction lines with
  | nil => rfl
  | cons line lines ih =>
    rw [report_cons, ih, criterion, ← asBytes_append]
    rfl

theorem fromUtf8_report (lines : List (Bool × String)) :
    fromUtf8 (report lines) = some (reportText lines).toList := by
  rw [report_eq, fromUtf8_asBytes]

/-- A criterion's text does not itself contain what the dispatchables search for. -/
def Plain (text : String) : Prop := contains "Err:".toList text.toList = false

instance (text : String) : Decidable (Plain text) := inferInstanceAs (Decidable (_ = _))

theorem contains_criterion {text : String} (ht : Plain text) (ok : Bool) :
    contains "Err:".toList ((if ok then "Ok: " else "Err: ").toList ++ text.toList) = !ok := by
  cases ok with
  | true => simpa [contains, List.isPrefixOf, Plain] using ht
  | false => simp [contains, List.isPrefixOf]

theorem accepts_report {lines : List (Bool × String)} (h : ∀ line ∈ lines, Plain line.2) :
    accepts (report lines) = lines.all Prod.fst := by
  rw [accepts, fromUtf8_report]
  dsimp only
  induction lines with
  | nil => rfl
  | cons line lines ih =>
    have hline := contains_criterion (h line List.mem_cons_self) line.1
    have hlines := ih (fun l hl => h l (List.mem_cons_of_mem _ hl))
    have htext : (reportText (line :: lines)).toList =
        ((if line.1 then "Ok: " else "Err: ").toList ++ line.2.toList) ++
          '\n' :: (reportText lines).toList := by
      simp [reportText]
    rw [htext, contains_line (by decide) (by decide), hline, Bool.not_or, Bool.not_not, hlines,
      List.all_cons]

/-- A field is accepted when it is UTF-8 and all the criteria on its characters hold. -/
theorem accepts_checkUtf8 {field : Bytes} {rest : List Char → List (Bool × String)}
    (h : ∀ cs, ∀ line ∈ rest cs, Plain line.2) :
    accepts (checkUtf8 field rest) =
      match fromUtf8 field with
      | none => false
      | some cs => (rest cs).all Prod.fst := by
  have hstr : Plain "Must be a valid string" := by decide +kernel
  unfold checkUtf8
  cases fromUtf8 field with
  | none =>
    dsimp only
    rw [accepts_report]
    · rfl
    · intro line hline
      rw [List.mem_singleton.mp hline]
      exact hstr
  | some cs =>
    dsimp only
    rw [accepts_report]
    · rfl
    · intro line hline
      rcases List.mem_cons.mp hline with rfl | hline
      · exact hstr
      · exact h cs line hline

theorem isSome_of_accepts_checkUtf8 {field : Bytes} {rest : List Char → List (Bool × String)}
    (h : accepts (checkUtf8 field rest) = true) : (fromUtf8 field).isSome = true := by
  cases hf : fromUtf8 field with
  | some cs => rfl
  | none =>
    have hno : accepts (report [(false, "Must be a valid string")]) = false := by decide +kernel
    rw [checkUtf8, hf] at h
    exact absurd (hno.symm.trans h) (by decide)

theorem accepts_checkName (name : Bytes) :
    accepts (checkName name) =
      match fromUtf8 name with
      | none => false
      | some _ => decide (name.length ≥ 1) := by
  unfold checkName
  rw [accepts_checkUtf8]
  · cases fromUtf8 name <;> simp
  · intro cs
    simp only [List.forall_mem_cons, List.not_mem_nil, false_implies, implies_true, and_true]
    decide +kernel

theorem accepts_checkDomain (env : Env) (domain : Bytes) :
    accepts (checkDomain env domain) =
      match fromUtf8 domain with
      | none => false
      | some cs => decide (cs.length < domainMaxChars) &&
          ((cs.all fun c => !invalidChars.contains c) &&
            ((cs.all fun c => !env.isUppercase c) && (tldOk cs && decide (cs.length > 1)))) := by
  unfold checkDomain
  rw [accepts_checkUtf8]
  · cases fromUtf8 domain <;> simp
  · intro cs
    simp only [List.forall_mem_cons, List.not_mem_nil, false_implies, implies_true, and_true]
    refine ⟨?_, ?_, ?_, ?_, ?_⟩ <;> decide +kernel

theorem accepts_checkIp (ip : Bytes) :
    accepts (checkIp ip) =
      match fromUtf8 ip with
      | none => false
      | some cs => cs.count '.' == 3 &&
          (((cs.splitOn '.').all fun s => decide ((utf8Bytes s).length ≥ 1)) &&
            (cs.splitOn '.').all fun s => (parseU8 s).isSome) := by
  unfold checkIp
  rw [accepts_checkUtf8]
  · cases fromUtf8 ip <;> simp
  · intro cs
    simp only [List.forall_mem_cons, List.not_mem_nil, false_implies, implies_true, and_true]
    refine ⟨?_, ?_, ?_⟩ <;> decide +kernel

theorem accepts_checkInfo (env : Env) (info : Bytes) :
    accepts (checkInfo env info) =
      match fromUtf8 info with
      | none => false
      | some cs => env.isJson cs := by
  unfold checkInfo
  rw [accepts_checkUtf8]
  · cases fromUtf8 info <;> simp
  · intro cs
    simp only [List.forall_mem_cons, List.not_mem_nil, false_implies, implies_true, and_true]
    decide +kernel

theorem accepts_checkKey (key : Bytes) :
    accepts (checkKey key) =
      match fromUtf8 key with
      | none => false
      | some cs => ((cs.foldl KeyScan.step {}).validSeparator && !(cs.getLast? == some ':')) &&
          (cs.foldl KeyScan.step {}).validValues := by
  unfold checkKey
  rw [accepts_checkUtf8]
  · cases fromUtf8 key <;> simp
  · intro cs
    simp only [List.forall_mem_cons, List.not_mem_nil, false_implies, implies_true, and_true]
    refine ⟨?_, ?_⟩ <;> decide +kernel

end Siip.Pallet
