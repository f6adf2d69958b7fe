/-
  The report of a check on its way to a user: the RPC methods of a node (`validate_name` and its
  siblings), the cards of `Validation`, and what `updateValidity` reads in it.

  A report is a format that three programs share. The pallet writes it line by line, the
  dispatchables and the form search it for `Err:`, and `Validation` splits it at the line ends,
  takes the colour of a card from the start of a line, and cuts the start off. `report_shown` says
  that they agree.
-/
import Siip.Pallet.Checks

namespace Siip.Ui

open Pallet

/-- A string of the user interface. -/
abbrev Text := List Char

/-! ## The methods of the node -/

/-- The checks of the pallet, in the order in which the dispatchables make them. -/
def checks (env : Env) : List (Bytes → Bytes) :=
  [checkName, checkDomain env, checkIp, checkInfo env, checkKey]

/-- `from_utf8(&check(&text.into_bytes())).unwrap()`: `none` is a panic. -/
def validateField (check : Bytes → Bytes) (text : Text) : Option Text :=
  fromUtf8 (check (utf8Bytes text))

def validateName : Text → Option Text := validateField checkName

def validateDomain (env : Env) : Text → Option Text := validateField (checkDomain env)

def validateIp : Text → Option Text := validateField checkIp

def validateInfo (env : Env) : Text → Option Text := validateField (checkInfo env)

def validateKey : Text → Option Text := validateField checkKey

/-! ## The cards -/

inductive Color where
  | lightGreen | coral
  deriving DecidableEq

structure Card where
  color : Color
  text : Text
  deriving DecidableEq

/-- The card of a line, if it has one. -/
def lineCard (enable alwaysValidate : Bool) (line : Text) : Option Card :=
  if line = [] then none
  else if "Ok: ".toList.isPrefixOf line && alwaysValidate && !enable then none
  else if "Ok:".toList.isPrefixOf line then some ⟨.lightGreen, line.drop 4⟩
  else some ⟨.coral, line.drop 5⟩

/-- `Validation`; `criteria` is the empty string where there is none. -/
def validation (criteria : Text) (enable alwaysValidate : Bool) : List Card :=
  if !enable && !alwaysValidate then []
  else if criteria = [] then []
  else (criteria.splitOn '\n').filterMap (lineCard enable alwaysValidate)

/-- `validity.includes('Err:')` -/
def invalid (validity : Text) : Bool := contains "Err:".toList validity

/-! ## What a report holds -/

/-- The card that is meant for a criterion. -/
def criterionCard (line : Bool × String) : Card :=
  ⟨if line.1 then .lightGreen else .coral, line.2.toList⟩

/-- The text of a criterion does not reach over its line, nor does it look like a failure. -/
structure Readable (text : String) : Prop where
  plain : Plain text
  single : '\n' ∉ text.toList

instance (text : String) : Decidable (Readable text) :=
  decidable_of_iff (Plain text ∧ '\n' ∉ text.toList)
    ⟨fun h => ⟨h.1, h.2⟩, fun h => ⟨h.plain, h.single⟩⟩

/-- The line of a criterion, without its end. -/
def lineText (line : Bool × String) : Text :=
  (if line.1 then "Ok: " else "Err: ").toList ++ line.2.toList

theorem toList_reportText_cons (line : Bool × String) (lines : List (Bool × String)) :
    (reportText (line :: lines)).toList = lineText line ++ '\n' :: (reportText lines).toList := by
  simp [reportText, lineText]

theorem splitOn_reportText {lines : List (Bool × String)} (h : ∀ line ∈ lines, Readable line.2) :
    (reportText lines).toList.splitOn '\n' = lines.map lineText ++ [[]] := by
  induction lines with
  | nil => rfl
  | cons line lines ih =>
    have hline : '\n' ∉ lineText line := by
      have hsingle := (h line List.mem_cons_self).single
      rw [lineText, List.mem_append, not_or]
      refine ⟨?_, hsingle⟩
      cases line.1 <;> decide
    rw [toList_reportText_cons, List.splitOn_append_cons_self_of_not_mem hline,
      ih fun l hl => h l (List.mem_cons_of_mem _ hl)]
    rfl

theorem lineCard_lineText (enable alwaysValidate : Bool) (line : Bool × String) :
    lineCard enable alwaysValidate (lineText line) =
      if line.1 && alwaysValidate && !enable then none else some (criterionCard line) := by
  obtain ⟨ok, text⟩ := line
  cases ok with
  | true => cases enable <;> cases alwaysValidate <;>
      simp [lineCard, lineText, criterionCard, List.isPrefixOf]
  | false => simp [lineCard, lineText, criterionCard, List.isPrefixOf]

theorem validation_eq (criteria : Text) (enable alwaysValidate : Bool) :
    validation criteria enable alwaysValidate =
      if !enable && !alwaysValidate then []
      else (criteria.splitOn '\n').filterMap (lineCard enable alwaysValidate) := by
  unfold validation
  split
  · rfl
  · split
    · rename_i hempty
      rw [hempty]
      rfl
    · rfl

/-- The cards of a report: none when they are not asked for, the failures when only these are. -/
theorem validation_reportText {lines : List (Bool × String)} (h : ∀ line ∈ lines, Readable line.2)
    (enable alwaysValidate : Bool) :
    validation (reportText lines).toList enable alwaysValidate =
      if enable then lines.map criterionCard
      else if alwaysValidate then (lines.filter fun line => !line.1).map criterionCard
      else [] := by
  have hcards : ((reportText lines).toList.splitOn '\n').filterMap
      (lineCard enable alwaysValidate) = lines.filterMap fun line =>
        if line.1 && alwaysValidate && !enable then none else some (criterionCard line) := by
    rw [splitOn_reportText h, List.filterMap_append, List.filterMap_map]
    simp only [Function.comp_def, lineCard_lineText]
    exact List.append_nil _
  rw [validation_eq, hcards]
  cases enable with
  | true => simp
  | false =>
    cases alwaysValidate with
    | false => rfl
    | true =>
      rw [← List.filterMap_eq_map, List.filterMap_filter]
      refine List.filterMap_congr fun line _ => ?_
      cases line.1 <;> simp

/-! ## The reports of the checks -/

/-- Every report of the check is made of readable criteria, the first of which is that the field is
    a string. -/
def Reporting (check : Bytes → Bytes) : Prop :=
  ∃ rest : Bytes → List Char → List (Bool × String),
    (∀ field, check field = checkUtf8 field (rest field)) ∧
      ∀ field cs, ∀ line ∈ rest field cs, Readable line.2

theorem readable_string : Readable "Must be a valid string" := by decide +kernel

theorem reporting_checks {env : Env} {check : Bytes → Bytes} (h : check ∈ checks env) :
    Reporting check := by
  simp only [checks, List.mem_cons, List.not_mem_nil, or_false] at h
  rcases h with rfl | rfl | rfl | rfl | rfl
  all_goals
    refine ⟨_, fun _ => rfl, fun field cs => ?_⟩
    simp only [List.forall_mem_cons, List.not_mem_nil, false_implies, implies_true, and_true]
    decide +kernel

/-- A text is answered with a report, which is about a string. -/
theorem Reporting.validateField_eq {check : Bytes → Bytes} (h : Reporting check) (text : Text) :
    ∃ lines, validateField check text =
        some (reportText ((true, "Must be a valid string") :: lines)).toList ∧
      check (utf8Bytes text) = report ((true, "Must be a valid string") :: lines) ∧
      ∀ line ∈ (true, "Must be a valid string") :: lines, Readable line.2 := by
  obtain ⟨rest, hcheck, hrest⟩ := h
  have hreport : check (utf8Bytes text) =
      report ((true, "Must be a valid string") :: rest (utf8Bytes text) text) := by
    rw [hcheck, checkUtf8, fromUtf8_utf8Bytes]
  refine ⟨rest (utf8Bytes text) text, ?_, hreport, ?_⟩
  · rw [validateField, hreport, fromUtf8_report]
  · exact List.forall_mem_cons.mpr ⟨readable_string, hrest _ _⟩

theorem invalid_reportText (lines : List (Bool × String)) :
    invalid (reportText lines).toList = !accepts (report lines) := by
  rw [accepts, fromUtf8_report, Bool.not_not]
  rfl

theorem any_coral (lines : List (Bool × String)) :
    (lines.map criterionCard).any (fun card => card.color = .coral) = !lines.all Prod.fst := by
  induction lines with
  | nil => rfl
  | cons line lines ih =>
    rw [List.map_cons, List.any_cons, ih, List.all_cons, Bool.not_and, criterionCard]
    cases line.1 <;> rfl

/-- The node answers every text, without a panic, and a focused field shows a card for each
    criterion of the check, in their order, green where it holds and red where it does not. A field
    that has lost the focus shows none, or, when it always validates, the red ones. The field
    counts as invalid when one of its cards is red, which is when the dispatchables refuse it. -/
theorem report_shown {env : Env} {check : Bytes → Bytes} (hcheck : check ∈ checks env)
    (text : Text) :
    ∃ lines validity, check (utf8Bytes text) = report lines ∧
      validateField check text = some validity ∧
      (∀ alwaysValidate, validation validity true alwaysValidate = lines.map criterionCard) ∧
      validation validity false false = [] ∧
      validation validity false true =
        (lines.map criterionCard).filter (fun card => card.color = .coral) ∧
      invalid validity = (lines.map criterionCard).any (fun card => card.color = .coral) ∧
      invalid validity = !accepts (check (utf8Bytes text)) := by
  obtain ⟨rest, hanswer, hreport, hreadable⟩ := (reporting_checks hcheck).validateField_eq text
  generalize (true, "Must be a valid string") :: rest = lines at hanswer hreport hreadable
  have hinvalid := invalid_reportText lines
  refine ⟨lines, (reportText lines).toList, hreport, hanswer, ?_, ?_, ?_, ?_, ?_⟩
  · exact fun alwaysValidate => validation_reportText hreadable true alwaysValidate
  · exact validation_reportText hreadable false false
  · rw [validation_reportText hreadable false true, List.filter_map]
    refine congrArg (List.map criterionCard) (List.filter_congr fun line _ => ?_)
    rw [Function.comp_apply, criterionCard]
    cases line.1 <;> rfl
  · rw [any_coral, hinvalid, accepts_report fun line hline => (hreadable line hline).plain]
  · rw [hreport, hinvalid]

/-- What the form shows below an empty name. -/
theorem report_shown_empty :
    ∃ validity, validateName [] = some validity ∧ invalid validity = true ∧
      validation validity true false =
        [⟨.lightGreen, "Must be a valid string".toList⟩,
          ⟨.coral, "Must be at least 1 character long".toList⟩] := by
  have hcheck : checkName ∈ checks ⟨Char.isUpper, fun _ => true⟩ := List.mem_cons_self
  have hanswer : validateField checkName [] = some
      "Ok: Must be a valid string\nErr: Must be at least 1 character long\n".toList := by
    decide +kernel
  obtain ⟨lines, validity, -, hvalidity, -, -, -, -, hinvalid⟩ := report_shown hcheck []
  obtain rfl := Option.some.inj (hanswer.symm.trans hvalidity)
  exact ⟨_, hanswer, hinvalid.trans (by decide +kernel), by decide +kernel⟩

end Siip.Ui