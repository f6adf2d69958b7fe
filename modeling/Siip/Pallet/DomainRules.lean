/-
  Which domains `check_domain` accepts.

  `DomainRules` are the rules that its report states. The last of them, that there is something
  before the top level domain, is tested against the outer `tld`, which stays empty; so it says no
  more than that the domain has two characters, and a bare top level domain passes
  (`checkDomain_rules_iff`).
-/
import Siip.Pallet.Dispatch

namespace Siip.Pallet

/-! ## The part after the last period -/

/-- A character of a text occurs in it for a last time. -/
theorem exists_last_of_mem {c : Char} {cs : List Char} (h : c ∈ cs) :
    ∃ pre post, cs = pre ++ c :: post ∧ c ∉ post := by
  obtain ⟨l, r, hrev, hl⟩ := List.eq_append_cons_of_mem (List.mem_reverse.mpr h)
  refine ⟨r.reverse, l.reverse, ?_, fun hmem => hl (List.mem_reverse.mp hmem)⟩
  have hcs := congrArg List.reverse hrev
  rw [List.reverse_reverse] at hcs
  rw [hcs]
  simp

/-- A period, and after the last one between 2 and 63 characters. -/
def EndsInTld (cs sub tld : List Char) : Prop :=
  cs = sub ++ '.' :: tld ∧ '.' ∉ tld ∧ 2 ≤ tld.length ∧ tld.length ≤ 63

theorem splitOn_of_tld {sub tld : List Char} (h : '.' ∉ tld) :
    (sub ++ '.' :: tld).splitOn '.' = sub.splitOn '.' ++ [tld] := by
  rw [List.splitOn_append_cons_self, List.splitOn_eq_singleton h]

theorem tldOk_of_tld {sub tld : List Char} (h : '.' ∉ tld) :
    tldOk (sub ++ '.' :: tld) = (decide (2 ≤ tld.length) && decide (tld.length ≤ 63)) := by
  have hparts := List.length_pos_of_ne_nil (List.splitOn_ne_nil '.' sub)
  have htwo : 2 ≤ ((sub.splitOn '.') ++ [tld]).length := by
    rw [List.length_append, List.length_singleton]
    omega
  unfold tldOk
  dsimp only
  rw [splitOn_of_tld h, List.getLast?_concat]
  dsimp only
  rw [decide_eq_true htwo, Bool.true_and]

theorem tldOk_iff (cs : List Char) : tldOk cs = true ↔ ∃ sub tld, EndsInTld cs sub tld := by
  by_cases hdot : '.' ∈ cs
  · obtain ⟨sub, tld, rfl, htld⟩ := exists_last_of_mem hdot
    rw [tldOk_of_tld htld, Bool.and_eq_true, decide_eq_true_eq, decide_eq_true_eq]
    constructor
    · intro h
      exact ⟨sub, tld, rfl, htld, h.1, h.2⟩
    · intro h
      obtain ⟨sub', tld', heq, htld', hmin, hmax⟩ := h
      have hsplit : (sub ++ '.' :: tld).splitOn '.' = sub.splitOn '.' ++ [tld] :=
        splitOn_of_tld htld
      rw [heq, splitOn_of_tld htld'] at hsplit
      obtain rfl : tld' = tld := (List.append_singleton_inj.mp hsplit).2
      exact ⟨hmin, hmax⟩
  · refine iff_of_false ?_ ?_
    · unfold tldOk
      rw [List.splitOn_eq_singleton hdot]
      simp
    · intro h
      obtain ⟨sub, tld, rfl, -⟩ := h
      exact hdot (by simp)

/-! ## The rules -/

/-- Fewer than 64 characters, none of them forbidden or uppercase. -/
structure PlainDomain (env : Env) (cs : List Char) : Prop where
  short : cs.length < domainMaxChars
  valid : ∀ c ∈ cs, c ∉ invalidChars
  lowercase : ∀ c ∈ cs, env.isUppercase c = false

/-- What the report of `check_domain` asks for. -/
def DomainRules (env : Env) (s : Bytes) : Prop :=
  ∃ cs, fromUtf8 s = some cs ∧ PlainDomain env cs ∧
    ∃ sub tld, EndsInTld cs sub tld ∧ 1 ≤ sub.length

/-- What it accepts. -/
theorem accepts_checkDomain_iff (env : Env) (s : Bytes) :
    accepts (checkDomain env s) = true ↔
      ∃ cs, fromUtf8 s = some cs ∧ PlainDomain env cs ∧ ∃ sub tld, EndsInTld cs sub tld := by
  rw [accepts_checkDomain]
  cases fromUtf8 s with
  | none => simp
  | some cs =>
    have hvalid : (cs.all fun c => !invalidChars.contains c) = true ↔
        ∀ c ∈ cs, c ∉ invalidChars := by
      simp [List.all_eq_true]
    have hlower : (cs.all fun c => !env.isUppercase c) = true ↔
        ∀ c ∈ cs, env.isUppercase c = false := by
      simp [List.all_eq_true]
    simp only [Bool.and_eq_true, decide_eq_true_eq, hvalid, hlower, tldOk_iff, Option.some.injEq,
      exists_eq_left']
    constructor
    · intro h
      obtain ⟨hshort, hval, hlow, htld, -⟩ := h
      exact ⟨⟨hshort, hval, hlow⟩, htld⟩
    · intro h
      obtain ⟨⟨hshort, hval, hlow⟩, sub, tld, rfl, htld, hmin, hmax⟩ := h
      refine ⟨hshort, hval, hlow, ⟨sub, tld, rfl, htld, hmin, hmax⟩, ?_⟩
      -- a period and two characters
      rw [List.length_append, List.length_cons]
      omega

/-- A period followed by a top level domain, and nothing before it. -/
def BareTld (env : Env) (s : Bytes) : Prop :=
  ∃ tld, fromUtf8 s = some ('.' :: tld) ∧ '.' ∉ tld ∧ 2 ≤ tld.length ∧ tld.length < 63 ∧
    (∀ c ∈ tld, c ∉ invalidChars) ∧ ∀ c ∈ tld, env.isUppercase c = false

/-- A bare top level domain is all that is accepted against the rules. -/
theorem accepts_iff_rules_or_bare {env : Env} (hdot : env.isUppercase '.' = false) (s : Bytes) :
    accepts (checkDomain env s) = true ↔ DomainRules env s ∨ BareTld env s := by
  rw [accepts_checkDomain_iff]
  constructor
  · intro h
    obtain ⟨cs, hs, hplain, sub, tld, htld⟩ := h
    cases sub with
    | cons c sub => exact Or.inl ⟨cs, hs, hplain, c :: sub, tld, htld, by simp⟩
    | nil =>
      obtain ⟨rfl, hnodot, hmin, -⟩ := htld
      have hshort : ('.' :: tld).length < 64 := hplain.short
      rw [List.length_cons] at hshort
      exact Or.inr ⟨tld, hs, hnodot, hmin, by omega,
        fun c hc => hplain.valid c (List.mem_cons_of_mem _ hc),
        fun c hc => hplain.lowercase c (List.mem_cons_of_mem _ hc)⟩
  · intro h
    obtain h | h := h
    · obtain ⟨cs, hs, hplain, sub, tld, htld, -⟩ := h
      exact ⟨cs, hs, hplain, sub, tld, htld⟩
    · obtain ⟨tld, hs, hnodot, hmin, hmax, hvalid, hlower⟩ := h
      refine ⟨'.' :: tld, hs, ⟨?_, ?_, ?_⟩, [], tld, rfl, hnodot, hmin, by omega⟩
      · rw [List.length_cons, domainMaxChars]
        omega
      · exact List.forall_mem_cons.mpr ⟨by decide, hvalid⟩
      · exact List.forall_mem_cons.mpr ⟨hdot, hlower⟩

theorem not_rules_of_bare {env : Env} {s : Bytes} (h : BareTld env s) : ¬ DomainRules env s := by
  intro hrules
  obtain ⟨tld, hs, hnodot, -⟩ := h
  obtain ⟨cs, hs', -, sub, tld', ⟨heq, -⟩, hsub⟩ := hrules
  obtain rfl : '.' :: tld = cs := Option.some.inj (hs.symm.trans hs')
  cases sub with
  | nil => exact absurd hsub (by simp)
  | cons c sub =>
    obtain ⟨-, rfl⟩ := List.cons.inj heq
    exact hnodot (by simp)

/-- `check_domain` says of a text whether it meets the rules, unless the text is a bare top level
    domain. -/
theorem checkDomain_rules_iff (env : Env) (hdot : env.isUppercase '.' = false) (s : Bytes) :
    (accepts (checkDomain env s) = true ↔ DomainRules env s) ↔ ¬ BareTld env s := by
  rw [accepts_iff_rules_or_bare hdot]
  constructor
  · intro h hbare
    exact not_rules_of_bare hbare (h.mp (Or.inr hbare))
  · intro hbare
    exact or_iff_left hbare

theorem checkDomain_rules_ab :
    accepts (checkDomain asciiEnv (asBytes "ab.cd")) = true ↔
      DomainRules asciiEnv (asBytes "ab.cd") := by
  refine (checkDomain_rules_iff asciiEnv (by decide) (asBytes "ab.cd")).mpr fun h => ?_
  obtain ⟨tld, hs, -⟩ := h
  rw [fromUtf8_asBytes] at hs
  have hchars := Option.some.inj hs
  simp at hchars

/-- There is nothing before the last period of `.cd`. -/
theorem checkDomain_bare :
    accepts (checkDomain asciiEnv (asBytes ".cd")) = true ∧
      ¬ DomainRules asciiEnv (asBytes ".cd") := by
  refine ⟨?_, not_rules_of_bare ⟨['c', 'd'], ?_, by decide, by decide, by decide, ?_, ?_⟩⟩
  · rw [accepts_checkDomain, fromUtf8_asBytes]
    decide +kernel
  · rw [fromUtf8_asBytes]
    decide
  · simp [invalidChars]
  · intro c hc
    rcases List.mem_pair.mp hc with rfl | rfl <;> rfl

end Siip.Pallet
