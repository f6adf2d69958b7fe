/-
  Which texts `check_key` accepts.

  The scan decides by its position counter, an `i32`, whether a character has to be a separator.
  Up to position 2^31 this is every third character, and the accepted texts are the ones of a
  grammar: pairs of digits between colons, the last of which may be a single digit (`accepts_iff`).
  At position 2^31 the counter has overflowed, and a digit is asked for where a pair would end.
-/
import Mathlib.Algebra.Order.Ring.Nat
import Siip.Pallet.Checks

namespace Siip.Pallet

/-! ## The scan, character by character -/

/-- Has the character at this value of the counter to be a separator? -/
abbrev SepAt (i : Int32) : Prop := i ≠ 0 ∧ (i + 1) % 3 = 0

/-- What the scan asks of the character at position `j`. -/
def FitsAt (i : Int32) (c : Char) : Prop := if SepAt i then c = ':' else c ∈ hexDigits

/-- Neither flag has been cleared. -/
def KeyScan.Valid (st : KeyScan) : Prop := st.validSeparator = true ∧ st.validValues = true

theorem KeyScan.i_step (st : KeyScan) (c : Char) : (st.step c).i = st.i + 1 := by
  unfold step
  split <;> rfl

theorem KeyScan.valid_step (st : KeyScan) (c : Char) :
    (st.step c).Valid ↔ st.Valid ∧ FitsAt st.i c := by
  unfold step Valid FitsAt
  split <;> simp only [Bool.and_eq_true, beq_iff_eq, List.contains_iff_mem] <;> tauto

theorem KeyScan.valid_foldl (st : KeyScan) (cs : List Char) :
    (cs.foldl step st).Valid ↔
      st.Valid ∧ ∀ j c, cs[j]? = some c → FitsAt (st.i + Int32.ofNat j) c := by
  induction cs generalizing st with
  | nil => simp
  | cons d cs ih =>
    have hshift : ∀ j, (st.step d).i + Int32.ofNat j = st.i + Int32.ofNat (j + 1) := by
      intro j
      rw [i_step, Nat.add_comm j 1, Int32.ofNat_add, Int32.add_assoc]
      rfl
    rw [List.foldl_cons, ih, valid_step, and_assoc]
    refine and_congr_right fun _ => ?_
    constructor
    · intro h j c hc
      obtain ⟨hd, hcs⟩ := h
      cases j with
      | zero =>
        obtain rfl : d = c := Option.some.inj hc
        rw [show st.i + Int32.ofNat 0 = st.i from Int32.add_zero st.i]
        exact hd
      | succ j =>
        rw [← hshift]
        exact hcs j c hc
    · intro h
      refine ⟨?_, fun j c hc => ?_⟩
      · have hd := h 0 d rfl
        rwa [show st.i + Int32.ofNat 0 = st.i from Int32.add_zero st.i] at hd
      · rw [hshift]
        exact h (j + 1) c hc

/-- A key is accepted when it is UTF-8, each of its characters fits its position, and it does not
    end with a separator. -/
theorem accepts_checkKey_iff {key : Bytes} {cs : List Char} (hcs : fromUtf8 key = some cs) :
    accepts (checkKey key) = true ↔
      (∀ j c, cs[j]? = some c → FitsAt (Int32.ofNat j) c) ∧ cs.getLast? ≠ some ':' := by
  have hscan := KeyScan.valid_foldl {} cs
  have hinit : KeyScan.Valid {} := ⟨rfl, rfl⟩
  simp only [hinit, true_and, show ∀ i : Int32, (0 : Int32) + i = i from Int32.zero_add] at hscan
  rw [accepts_checkKey, hcs, ← hscan]
  unfold KeyScan.Valid
  simp only [Bool.and_eq_true, Bool.not_eq_true', beq_eq_false_iff_ne, ne_eq]
  tauto

/-! ## Positions -/

/-- Before the counter overflows, every third character is a separator. -/
theorem sepAt_ofNat {j : Nat} (hj : j < 2 ^ 31) : SepAt (Int32.ofNat j) ↔ j % 3 = 2 := by
  by_cases hlast : j = 2 ^ 31 - 1
  · subst hlast
    decide
  · have hi : (Int32.ofNat j).toInt = j := Int32.toInt_ofNat_of_lt hj
    have hmod : ((Int32.ofNat j + 1) % 3).toInt = ((j + 1 : Nat) : Int) % 3 := by
      have hsucc : (Int32.ofNat j + 1).toInt = ((j + 1 : Nat) : Int) := by
        rw [← Int32.toInt_ofNat_of_lt (show j + 1 < 2 ^ 31 by omega), Int32.ofNat_add]
        rfl
      rw [Int32.toInt_mod, hsucc]
      exact Int.tmod_eq_emod_of_nonneg (Int.natCast_nonneg _)
    unfold SepAt
    rw [ne_eq, ← Int32.toInt_inj, ← Int32.toInt_inj, hi, hmod]
    simp only [Int32.toInt_zero]
    omega

theorem not_sepAt_overflow : ¬ SepAt (Int32.ofNat (2 ^ 31)) := by decide

/-- Separators and digits in their places: every third character is a separator. -/
def Spaced (cs : List Char) : Prop :=
  ∀ j c, cs[j]? = some c → if j % 3 = 2 then c = ':' else c ∈ hexDigits

theorem fitsAt_iff_spaced {cs : List Char} (hlen : cs.length ≤ 2 ^ 31) :
    (∀ j c, cs[j]? = some c → FitsAt (Int32.ofNat j) c) ↔ Spaced cs := by
  refine forall_congr' fun j => forall_congr' fun c => forall_congr' fun hc => ?_
  obtain ⟨hj, -⟩ := List.getElem?_eq_some_iff.mp hc
  unfold FitsAt
  rw [if_congr (sepAt_ofNat (by omega)) rfl rfl]

theorem spaced_cons_iff {a b c : Char} {cs : List Char} :
    Spaced (a :: b :: c :: cs) ↔
      (a ∈ hexDigits ∧ b ∈ hexDigits ∧ c = ':') ∧ Spaced cs := by
  constructor
  · intro h
    refine ⟨⟨h 0 a rfl, h 1 b rfl, h 2 c rfl⟩, fun j d hd => ?_⟩
    have := h (j + 3) d hd
    rwa [Nat.add_mod_right] at this
  · intro h j d hd
    obtain ⟨⟨ha, hb, hc⟩, hcs⟩ := h
    match j, hd with
    | 0, hd => exact Option.some.inj hd ▸ ha
    | 1, hd => exact Option.some.inj hd ▸ hb
    | 2, hd => exact Option.some.inj hd ▸ hc
    | j + 3, hd =>
      rw [Nat.add_mod_right]
      exact hcs j d hd

/-! ## The grammar -/

/-- Pairs of digits between colons, the last of which may be a single digit. -/
inductive KeyText : List Char → Prop
  | one {a : Char} : a ∈ hexDigits → KeyText [a]
  | two {a b : Char} : a ∈ hexDigits → b ∈ hexDigits → KeyText [a, b]
  | cons {a b : Char} {cs : List Char} : a ∈ hexDigits → b ∈ hexDigits → KeyText cs →
      KeyText (a :: b :: ':' :: cs)

theorem KeyText.ne_nil {cs : List Char} (h : KeyText cs) : cs ≠ [] := by
  cases h <;> exact List.cons_ne_nil _ _

theorem ne_colon_of_mem {a : Char} (h : a ∈ hexDigits) : a ≠ ':' := by
  intro heq
  subst heq
  exact absurd h (by decide)

theorem spaced_one_iff {a : Char} : Spaced [a] ↔ a ∈ hexDigits := by
  constructor
  · intro h
    exact h 0 a rfl
  · intro h j c hc
    match j, hc with
    | 0, hc => exact Option.some.inj hc ▸ h

theorem spaced_two_iff {a b : Char} : Spaced [a, b] ↔ a ∈ hexDigits ∧ b ∈ hexDigits := by
  constructor
  · intro h
    exact ⟨h 0 a rfl, h 1 b rfl⟩
  · intro h j c hc
    match j, hc with
    | 0, hc => exact Option.some.inj hc ▸ h.1
    | 1, hc => exact Option.some.inj hc ▸ h.2

/-- The texts of the grammar, and the empty one, are those with separators and digits in their
    places that do not end with a separator. -/
theorem spaced_iff (cs : List Char) :
    Spaced cs ∧ cs.getLast? ≠ some ':' ↔ cs = [] ∨ KeyText cs := by
  match cs with
  | [] => simp [Spaced]
  | [a] =>
    rw [spaced_one_iff, or_iff_right (List.cons_ne_nil _ _)]
    constructor
    · intro h
      exact .one h.1
    · intro hkey
      obtain h | _ := hkey
      exact ⟨h, fun hlast => ne_colon_of_mem h (Option.some.inj hlast)⟩
  | [a, b] =>
    rw [spaced_two_iff, or_iff_right (List.cons_ne_nil _ _)]
    constructor
    · intro h
      exact .two h.1.1 h.1.2
    · intro hkey
      obtain _ | ⟨ha, hb⟩ := hkey
      exact ⟨⟨ha, hb⟩, fun hlast => ne_colon_of_mem hb (Option.some.inj hlast)⟩
  | a :: b :: c :: cs =>
    have ih := spaced_iff cs
    rw [spaced_cons_iff, or_iff_right (List.cons_ne_nil _ _)]
    constructor
    · intro h
      obtain ⟨⟨⟨ha, hb, rfl⟩, hcs⟩, hlast⟩ := h
      have hne : cs ≠ [] := by
        intro hnil
        subst hnil
        exact hlast rfl
      rw [List.getLast?_cons_cons, List.getLast?_cons_cons,
        List.getLast?_cons_of_ne_nil hne] at hlast
      exact .cons ha hb ((ih.mp ⟨hcs, hlast⟩).resolve_left hne)
    · intro hkey
      obtain _ | _ | ⟨ha, hb, hcs⟩ := hkey
      obtain ⟨hspaced, hlast⟩ := ih.mpr (Or.inr hcs)
      rw [List.getLast?_cons_cons, List.getLast?_cons_cons, List.getLast?_cons_of_ne_nil hcs.ne_nil]
      exact ⟨⟨⟨ha, hb, rfl⟩, hspaced⟩, hlast⟩

/-! ## Groups -/

/-- Groups of two digits, the last of which may be a single one. -/
structure KeyGroups (groups : List (List Char)) : Prop where
  digits : ∀ g ∈ groups, ∀ c ∈ g, c ∈ hexDigits
  pairs : ∀ g ∈ groups.dropLast, g.length = 2
  last : ∃ g, groups.getLast? = some g ∧ (g.length = 1 ∨ g.length = 2)

theorem KeyGroups.ne_nil {groups : List (List Char)} (h : KeyGroups groups) : groups ≠ [] := by
  obtain ⟨g, hlast, -⟩ := h.last
  rintro rfl
  exact absurd hlast (by simp)

theorem keyGroups_cons_iff {g : List Char} {groups : List (List Char)} (hne : groups ≠ []) :
    KeyGroups (g :: groups) ↔
      (g.length = 2 ∧ ∀ c ∈ g, c ∈ hexDigits) ∧ KeyGroups groups := by
  have hlast : (g :: groups).getLast? = groups.getLast? := List.getLast?_cons_of_ne_nil hne
  have hinit : (g :: groups).dropLast = g :: groups.dropLast := List.dropLast_cons_of_ne_nil hne
  constructor
  · intro h
    obtain ⟨hdigits, hpairs, hg⟩ := h
    rw [List.forall_mem_cons] at hdigits
    rw [hinit, List.forall_mem_cons] at hpairs
    rw [hlast] at hg
    exact ⟨⟨hpairs.1, hdigits.1⟩, hdigits.2, hpairs.2, hg⟩
  · intro h
    obtain ⟨⟨hlen, hg⟩, hgroups⟩ := h
    refine ⟨List.forall_mem_cons.mpr ⟨hg, hgroups.digits⟩, ?_, ?_⟩
    · rw [hinit]
      exact List.forall_mem_cons.mpr ⟨hlen, hgroups.pairs⟩
    · rw [hlast]
      exact hgroups.last

theorem keyGroups_singleton_iff {g : List Char} :
    KeyGroups [g] ↔ (g.length = 1 ∨ g.length = 2) ∧ ∀ c ∈ g, c ∈ hexDigits := by
  constructor
  · intro h
    obtain ⟨g', hg', hlen⟩ := h.last
    obtain rfl : g = g' := Option.some.inj hg'
    exact ⟨hlen, h.digits g List.mem_cons_self⟩
  · intro h
    obtain ⟨hlen, hg⟩ := h
    exact ⟨List.forall_mem_singleton.mpr hg, fun g' hg' => absurd hg' List.not_mem_nil,
      g, rfl, hlen⟩

/-- The texts of the grammar are the groups joined by colons. -/
theorem keyText_iff {cs : List Char} :
    KeyText cs ↔ ∃ groups, KeyGroups groups ∧ cs = [':'].intercalate groups := by
  constructor
  · intro h
    induction h with
    | one ha => exact ⟨[[_]], keyGroups_singleton_iff.mpr ⟨Or.inl rfl, by simpa using ha⟩, rfl⟩
    | two ha hb =>
      exact ⟨[[_, _]], keyGroups_singleton_iff.mpr ⟨Or.inr rfl, by simpa using ⟨ha, hb⟩⟩, rfl⟩
    | @cons a b cs ha hb _ ih =>
      obtain ⟨groups, hgroups, rfl⟩ := ih
      refine ⟨[a, b] :: groups, ?_, ?_⟩
      · exact (keyGroups_cons_iff hgroups.ne_nil).mpr ⟨⟨rfl, by simpa using ⟨ha, hb⟩⟩, hgroups⟩
      · rw [List.intercalate_cons_of_ne_nil hgroups.ne_nil]
        rfl
  · intro h
    obtain ⟨groups, hgroups, rfl⟩ := h
    induction groups with
    | nil => exact absurd rfl hgroups.ne_nil
    | cons g groups ih =>
      by_cases hne : groups = []
      · subst hne
        obtain ⟨hlen | hlen, hg⟩ := keyGroups_singleton_iff.mp hgroups
        · obtain ⟨a, rfl⟩ := List.length_eq_one_iff.mp hlen
          exact .one (hg a (by simp))
        · obtain ⟨a, b, rfl⟩ := List.length_eq_two.mp hlen
          exact .two (hg a (by simp)) (hg b (by simp))
      · obtain ⟨⟨hlen, hg⟩, hrest⟩ := (keyGroups_cons_iff hne).mp hgroups
        obtain ⟨a, b, rfl⟩ := List.length_eq_two.mp hlen
        rw [List.intercalate_cons_of_ne_nil hne]
        exact .cons (hg a (by simp)) (hg b (by simp)) (ih hrest)

/-- Up to the length at which the counter overflows, the accepted texts are those of the grammar,
    and the empty one. -/
theorem accepts_iff {key : Bytes} {cs : List Char} (hcs : fromUtf8 key = some cs)
    (hlen : cs.length ≤ 2 ^ 31) :
    accepts (checkKey key) = true ↔ cs = [] ∨ KeyText cs := by
  rw [accepts_checkKey_iff hcs, fitsAt_iff_spaced hlen, spaced_iff]

/-- Of the texts shorter than that, `check_key` accepts just the empty one and the groups joined by
    colons. -/
theorem checkKey_groups_iff (key : Bytes)
    (hlen : ∀ cs, fromUtf8 key = some cs → cs.length < 2 ^ 31) :
    accepts (checkKey key) = true ↔
      key = [] ∨ ∃ groups, KeyGroups groups ∧ fromUtf8 key = some ([':'].intercalate groups) := by
  cases hkey : fromUtf8 key with
  | none =>
    have hne : key ≠ [] := by
      rintro rfl
      exact absurd (hkey.symm.trans (fromUtf8_utf8Bytes [])) (by simp)
    have haccepts : accepts (checkKey key) = false := by rw [accepts_checkKey, hkey]
    refine iff_of_false (by simp [haccepts]) ?_
    rintro (hnil | ⟨groups, -, h⟩)
    · exact hne hnil
    · exact absurd h (by simp)
  | some cs =>
    have hnil : cs = [] ↔ key = [] := by
      rw [← utf8Bytes_of_fromUtf8 hkey, utf8Bytes_eq_nil_iff]
    rw [accepts_iff hkey (Nat.le_of_lt (hlen cs hkey)), hnil, keyText_iff]
    simp only [Option.some.injEq]

/-- `AB:C` -/
theorem checkKey_groups_abc :
    accepts (checkKey (asBytes "AB:C")) = true ↔
      asBytes "AB:C" = [] ∨ ∃ groups, KeyGroups groups ∧
        fromUtf8 (asBytes "AB:C") = some ([':'].intercalate groups) := by
  refine checkKey_groups_iff (asBytes "AB:C") fun cs hcs => ?_
  rw [fromUtf8_asBytes] at hcs
  rw [← Option.some.inj hcs]
  decide

/-- A longer text is accepted only with a digit where the grammar has a separator. -/
theorem digit_of_accepts_overflow {key : Bytes} {cs : List Char} (hcs : fromUtf8 key = some cs)
    (hlen : 2 ^ 31 < cs.length) (haccepts : accepts (checkKey key) = true) :
    ∃ c ∈ hexDigits, cs[2 ^ 31]? = some c := by
  obtain ⟨hfits, -⟩ := (accepts_checkKey_iff hcs).mp haccepts
  have hget := List.getElem?_eq_getElem hlen
  have hfit := hfits (2 ^ 31) _ hget
  rw [FitsAt, if_neg not_sepAt_overflow] at hfit
  exact ⟨_, hfit, hget⟩

end Siip.Pallet
