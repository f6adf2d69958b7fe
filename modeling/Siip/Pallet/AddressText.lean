/-
  Which texts `check_ip` accepts.

  The three criteria come to four sections that `u8::from_str` reads. That parser takes a `+`
  before the digits, so beside the dotted-decimal addresses the ones with such a sign in some
  section pass (`checkIp_dotted_iff`).
-/
import Siip.Pallet.Checks

namespace Siip.Pallet

/-! ## Sections -/

/-- Digits of a number up to 255. -/
structure Octet (s : List Char) : Prop where
  ne_nil : s ≠ []
  digits : ∀ c ∈ s, c.isDigit = true
  value_le : Nat.ofDigitChars 10 s 0 ≤ 255

/-- The same with a sign. -/
def SignedOctet (s : List Char) : Prop := ∃ digits, s = '+' :: digits ∧ Octet digits

theorem le_ofDigitChars (cs : List Char) (acc : Nat) : acc ≤ Nat.ofDigitChars 10 cs acc := by
  induction cs generalizing acc with
  | nil => exact Nat.le_of_eq Nat.ofDigitChars_nil.symm
  | cons c cs ih =>
    have := ih (10 * acc + (c.toNat - '0'.toNat))
    rw [Nat.ofDigitChars_cons]
    omega

/-- The check after each digit is one on the whole number. -/
theorem isSome_parseU8Digits {acc : Nat} (hacc : acc ≤ 255) (cs : List Char) :
    (parseU8Digits acc cs).isSome = true ↔
      (∀ c ∈ cs, c.isDigit = true) ∧ Nat.ofDigitChars 10 cs acc ≤ 255 := by
  induction cs generalizing acc with
  | nil => simp [parseU8Digits, hacc]
  | cons c cs ih =>
    rw [List.forall_mem_cons, Nat.ofDigitChars_cons, parseU8Digits, Nat.mul_comm acc 10]
    dsimp only
    by_cases hdigit : c.isDigit = true
    · rw [if_pos hdigit]
      by_cases hle : 10 * acc + (c.toNat - '0'.toNat) ≤ 255
      · rw [if_pos hle, ih hle, and_iff_right hdigit]
      · have hmono := le_ofDigitChars cs (10 * acc + (c.toNat - '0'.toNat))
        rw [if_neg hle]
        refine iff_of_false (by simp) fun h => ?_
        omega
    · rw [if_neg hdigit]
      exact iff_of_false (by simp) fun h => hdigit h.1.1

theorem isSome_parseU8Digits_zero {s : List Char} (hne : s ≠ []) :
    (parseU8Digits 0 s).isSome = true ↔ Octet s := by
  rw [isSome_parseU8Digits (by decide)]
  exact ⟨fun h => ⟨hne, h.1, h.2⟩, fun h => ⟨h.digits, h.value_le⟩⟩

theorem not_octet_of_plus {s : List Char} : ¬ Octet ('+' :: s) := by
  intro h
  exact absurd (h.digits '+' List.mem_cons_self) (by decide)

/-- `u8::from_str` reads the digits of a number up to 255, with or without a sign. -/
theorem isSome_parseU8 (s : List Char) :
    (parseU8 s).isSome = true ↔ Octet s ∨ SignedOctet s := by
  unfold parseU8
  split
  · refine iff_of_false (by simp) ?_
    rintro (h | ⟨digits, h, -⟩)
    · exact h.ne_nil rfl
    · exact absurd h (by simp)
  · refine iff_of_false (by simp) ?_
    rintro (h | ⟨digits, h, hdigits⟩)
    · exact not_octet_of_plus h
    · exact hdigits.ne_nil (List.cons.inj h).2.symm
  · rename_i cs hcs
    have hne : cs ≠ [] := by
      rintro rfl
      exact hcs rfl
    rw [isSome_parseU8Digits_zero hne, or_iff_right not_octet_of_plus]
    constructor
    · intro h
      exact ⟨cs, rfl, h⟩
    · intro h
      obtain ⟨digits, hdigits, h⟩ := h
      exact (List.cons.inj hdigits).2 ▸ h
  · rename_i hne _ hplus
    rw [isSome_parseU8Digits_zero hne, or_iff_left]
    intro h
    obtain ⟨digits, rfl, -⟩ := h
    exact hplus digits rfl

/-! ## Addresses -/

/-- Four sections, separated by periods. -/
def FourSections (ip : Bytes) (sections : List (List Char)) : Prop :=
  sections.length = 4 ∧ fromUtf8 ip = some (['.'].intercalate sections)

/-- An address in dotted-decimal notation. -/
def DottedDecimal (ip : Bytes) : Prop :=
  ∃ sections, FourSections ip sections ∧ ∀ s ∈ sections, Octet s

/-- The same with a sign in some section. -/
def SignedAddress (ip : Bytes) : Prop :=
  ∃ sections, FourSections ip sections ∧ (∀ s ∈ sections, Octet s ∨ SignedOctet s) ∧
    ∃ s ∈ sections, SignedOctet s

theorem length_splitOn (a : Char) (cs : List Char) :
    (cs.splitOn a).length = cs.count a + 1 := by
  induction cs with
  | nil => rfl
  | cons c cs ih =>
    rw [List.splitOn_cons_eq_if_modifyHead, List.count_cons]
    split
    · rw [List.length_cons, ih]
    · rw [List.length_modifyHead, ih, Nat.add_zero]

theorem notMem_period {s : List Char} (h : Octet s ∨ SignedOctet s) : '.' ∉ s := by
  have hoctet : ∀ {digits : List Char}, Octet digits → '.' ∉ digits := by
    intro digits hdigits hmem
    exact absurd (hdigits.digits '.' hmem) (by decide)
  rcases h with h | ⟨digits, rfl, h⟩
  · exact hoctet h
  · rw [List.mem_cons, not_or]
    exact ⟨by decide, hoctet h⟩

/-- What `check_ip` accepts. -/
theorem accepts_checkIp_iff (ip : Bytes) :
    accepts (checkIp ip) = true ↔
      ∃ sections, FourSections ip sections ∧ ∀ s ∈ sections, Octet s ∨ SignedOctet s := by
  rw [accepts_checkIp]
  constructor
  · intro h
    split at h
    · exact absurd h (by simp)
    · rename_i cs hcs
      simp only [Bool.and_eq_true, beq_iff_eq, List.all_eq_true, isSome_parseU8] at h
      obtain ⟨hcount, -, hsections⟩ := h
      refine ⟨cs.splitOn '.', ⟨by rw [length_splitOn, hcount], ?_⟩, hsections⟩
      rw [List.intercalate_splitOn, hcs]
  · intro h
    obtain ⟨sections, ⟨hlen, hcs⟩, hsections⟩ := h
    have hsplit : (['.'].intercalate sections).splitOn '.' = sections :=
      List.splitOn_intercalate '.' (fun s hs => notMem_period (hsections s hs))
        (List.ne_nil_of_length_eq_add_one hlen)
    have hcount := length_splitOn '.' (['.'].intercalate sections)
    rw [hsplit, hlen] at hcount
    rw [hcs]
    simp only [Bool.and_eq_true, beq_iff_eq, List.all_eq_true, isSome_parseU8, hsplit,
      decide_eq_true_eq]
    refine ⟨by omega, fun s hs => ?_, hsections⟩
    have hne : s ≠ [] := by
      rcases hsections s hs with h | ⟨digits, rfl, -⟩
      · exact h.ne_nil
      · exact List.cons_ne_nil _ _
    exact List.length_pos_of_ne_nil (mt utf8Bytes_eq_nil_iff.mp hne)

theorem mem_of_accepts_checkIp {ip : Bytes} {cs : List Char} (hcs : fromUtf8 ip = some cs)
    (h : accepts (checkIp ip) = true) {c : Char} (hc : c ∈ cs) :
    c = '.' ∨ c = '+' ∨ c.isDigit = true := by
  obtain ⟨sections, ⟨-, htext⟩, hboth⟩ := (accepts_checkIp_iff ip).mp h
  obtain rfl := Option.some.inj (hcs.symm.trans htext)
  obtain hsep | ⟨s, hs, hmem⟩ := mem_intercalate hc
  · exact .inl (List.mem_singleton.mp hsep)
  · rcases hboth s hs with h | ⟨digits, rfl, h⟩
    · exact .inr (.inr (h.digits c hmem))
    · exact .inr ((List.mem_cons.mp hmem).imp_right (h.digits c))

theorem not_dotted_of_signed {ip : Bytes} (h : SignedAddress ip) : ¬ DottedDecimal ip := by
  intro hdotted
  obtain ⟨sections, ⟨hlen, hcs⟩, hboth, s, hs, digits, rfl, -⟩ := h
  obtain ⟨sections', ⟨hlen', hcs'⟩, hoctets⟩ := hdotted
  -- a text is cut at its periods in one way only
  have hsplit := List.splitOn_intercalate '.' (fun s hs => notMem_period (hboth s hs))
    (List.ne_nil_of_length_eq_add_one hlen)
  have hsplit' := List.splitOn_intercalate '.'
    (fun s hs => notMem_period (Or.inl (hoctets s hs))) (List.ne_nil_of_length_eq_add_one hlen')
  rw [Option.some.inj (hcs.symm.trans hcs'), hsplit'] at hsplit
  subst hsplit
  exact not_octet_of_plus (hoctets _ hs)

/-- `check_ip` accepts just the dotted-decimal addresses, but for the texts in which a section has
    a sign: these it accepts too. -/
theorem checkIp_dotted_iff (ip : Bytes) :
    (accepts (checkIp ip) = true ↔ DottedDecimal ip) ↔ ¬ SignedAddress ip := by
  rw [accepts_checkIp_iff]
  constructor
  · intro h hsigned
    have hdotted := not_dotted_of_signed hsigned
    obtain ⟨sections, hfour, hboth, -⟩ := hsigned
    exact hdotted (h.mp ⟨sections, hfour, hboth⟩)
  · intro hsigned
    constructor
    · intro h
      obtain ⟨sections, hfour, hboth⟩ := h
      refine ⟨sections, hfour, fun s hs => (hboth s hs).resolve_right fun hsign => ?_⟩
      exact hsigned ⟨sections, hfour, hboth, s, hs, hsign⟩
    · intro h
      obtain ⟨sections, hfour, hoctets⟩ := h
      exact ⟨sections, hfour, fun s hs => Or.inl (hoctets s hs)⟩

/-- `+1.1.1.1` -/
theorem checkIp_plus :
    accepts (checkIp (asBytes "+1.1.1.1")) = true ∧ ¬ DottedDecimal (asBytes "+1.1.1.1") := by
  have hone : Octet ['1'] := ⟨by decide, List.forall_mem_singleton.mpr (by decide), by decide⟩
  have hsigned : SignedAddress (asBytes "+1.1.1.1") := by
    refine ⟨[['+', '1'], ['1'], ['1'], ['1']], ⟨rfl, ?_⟩, ?_, ['+', '1'], by simp, ['1'], rfl, hone⟩
    · rw [fromUtf8_asBytes]
      decide +kernel
    · intro s hs
      simp only [List.mem_cons, List.not_mem_nil, or_false, or_self] at hs
      rcases hs with rfl | rfl
      · exact Or.inr ⟨['1'], rfl, hone⟩
      · exact Or.inl hone
  refine ⟨?_, not_dotted_of_signed hsigned⟩
  obtain ⟨sections, hfour, hboth, -⟩ := hsigned
  exact (accepts_checkIp_iff _).mpr ⟨sections, hfour, hboth⟩

end Siip.Pallet
