/-
  Operations of Python's `bytes`, as CPython documents and computes them.

  A `-1` of `find` is `none`, a `ValueError` of `int` is `none`; integers are unbounded.
  Slices take negative bounds, which count from the end and are clipped at the start.
-/
import Siip.Lib.Bytes

namespace Siip.Python

/-! ## Searching and splitting -/

/-- `s.find(sub)` -/
def find (sub : Bytes) : Bytes → Option Nat
  | [] => if sub = [] then some 0 else none
  | b :: bs => if sub.isPrefixOf (b :: bs) then some 0 else (find sub bs).map (· + 1)

/-- `s.split(sep, maxsplit = n)` -/
def splitMax (sep : Bytes) : Nat → Bytes → List Bytes
  | 0, s => [s]
  | n + 1, s =>
    match find sep s with
    | none => [s]
    | some i => s.take i :: splitMax sep n (s.drop (i + sep.length))

/-- `s.split(sep)`: there are no more separators than bytes. -/
def split (sep s : Bytes) : List Bytes := splitMax sep s.length s

theorem find_lt {sub s : Bytes} {i : Nat} (h : find sub s = some i) :
    i + sub.length ≤ s.length := by
  induction s generalizing i with
  | nil =>
    rw [find] at h
    split at h
    · rename_i hsub
      obtain rfl : 0 = i := Option.some.inj h
      rw [hsub]
      exact Nat.le_refl _
    · exact absurd h.symm (Option.some_ne_none _)
  | cons b bs ih =>
    rw [find] at h
    split at h
    · rename_i hpre
      obtain rfl : 0 = i := Option.some.inj h
      rw [Nat.zero_add]
      exact (List.isPrefixOf_iff_prefix.mp hpre).length_le
    · obtain ⟨j, hj, rfl⟩ := Option.map_eq_some_iff.mp h
      have := ih hj
      rw [List.length_cons]
      omega

/-- What is not in a string is not in its beginning. -/
theorem find_eq_none_of_append {sub s t : Bytes} (h : find sub (s ++ t) = none) :
    find sub s = none := by
  induction s with
  | nil =>
    rw [find, if_neg]
    rintro rfl
    cases t <;> simp [find] at h
  | cons b bs ih =>
    rw [List.cons_append, find] at h
    split at h
    · exact absurd h (Option.some_ne_none _)
    · rename_i hpre
      have hpre' : ¬ sub.isPrefixOf (b :: bs) = true := by
        intro hp
        apply hpre
        rw [List.isPrefixOf_iff_prefix] at hp ⊢
        exact hp.trans (List.prefix_append (b :: bs) t)
      rw [find, if_neg hpre', ih (Option.map_eq_none_iff.mp h), Option.map_none]

theorem find_eq_none_of_append_right {sub s t : Bytes} (h : find sub (s ++ t) = none) :
    find sub t = none := by
  induction s with
  | nil => exact h
  | cons b s ih =>
    rw [List.cons_append, find] at h
    split at h
    · exact absurd h (Option.some_ne_none _)
    · exact ih (Option.map_eq_none_iff.mp h)

theorem find_eq_none_of_isInfix {sub s t : Bytes} (h : s <:+: t) (ht : find sub t = none) :
    find sub s = none := by
  obtain ⟨u, v, rfl⟩ := h
  exact find_eq_none_of_append_right (find_eq_none_of_append ht)

theorem infix_of_mem_splitMax {sep s f : Bytes} {n : Nat} (h : f ∈ splitMax sep n s) :
    f <:+: s := by
  induction n generalizing s with
  | zero =>
    obtain rfl := List.mem_singleton.mp h
    exact List.infix_refl f
  | succ n ih =>
    rw [splitMax] at h
    split at h
    · obtain rfl := List.mem_singleton.mp h
      exact List.infix_refl f
    · rcases List.mem_cons.mp h with rfl | h
      · exact (List.take_prefix _ s).isInfix
      · exact (ih h).trans (List.drop_suffix _ s).isInfix

/-- What needs a byte that is not there is not there. -/
theorem find_eq_none_of_mem {sub s : Bytes} {b : UInt8} (hsub : b ∈ sub) (hs : b ∉ s) :
    find sub s = none := by
  induction s with
  | nil =>
    rw [find, if_neg]
    rintro rfl
    exact absurd hsub List.not_mem_nil
  | cons c s ih =>
    have hpre : ¬ sub.isPrefixOf (c :: s) = true := by
      intro h
      exact hs ((List.isPrefixOf_iff_prefix.mp h).subset hsub)
    rw [find, if_neg hpre, ih fun h => hs (List.mem_cons_of_mem c h), Option.map_none]

/-- A search goes on behind a text without the first byte of what it is for. -/
theorem find_append_of_notMem {a : UInt8} {sub s : Bytes} (h : a ∉ s) (t : Bytes) :
    find (a :: sub) (s ++ t) = (find (a :: sub) t).map (· + s.length) := by
  induction s with
  | nil => simp
  | cons c s ih =>
    rw [List.mem_cons, not_or] at h
    have hpre : ¬ (a :: sub).isPrefixOf (c :: (s ++ t)) = true := by
      simp [List.isPrefixOf, h.1]
    rw [List.cons_append, find, if_neg hpre, ih h.2, Option.map_map]
    exact congrArg (Option.map · (find (a :: sub) t)) (funext fun i => Nat.add_assoc i _ 1)

theorem find_self_append (sub t : Bytes) : find sub (sub ++ t) = some 0 := by
  cases h : sub ++ t with
  | nil =>
    obtain ⟨rfl, -⟩ := List.append_eq_nil_iff.mp h
    rfl
  | cons c s =>
    rw [find, if_pos]
    rw [List.isPrefixOf_iff_prefix, ← h]
    exact List.prefix_append sub t

theorem splitMax_of_notMem {a : UInt8} {sub s : Bytes} (h : a ∉ s) (t : Bytes) (n : Nat) :
    splitMax (a :: sub) (n + 1) (s ++ (a :: sub) ++ t) = s :: splitMax (a :: sub) n t := by
  have hfind : find (a :: sub) (s ++ (a :: sub) ++ t) = some s.length := by
    rw [List.append_assoc, find_append_of_notMem h, find_self_append, Option.map_some,
      Nat.zero_add]
  have hdrop : (s ++ (a :: sub) ++ t).drop (s.length + (a :: sub).length) = t := by
    rw [← List.length_append, List.drop_left]
  rw [splitMax, hfind]
  dsimp only
  rw [hdrop, List.append_assoc, List.take_left]

section TwoBytes

/-! A separator of two different bytes, such as CRLF. -/

variable {a b : UInt8}

theorem find_cons_eq_none_iff {c : UInt8} {s : Bytes} :
    find [a, b] (c :: s) = none ↔ ¬ (c = a ∧ s.head? = some b) ∧ find [a, b] s = none := by
  rw [find]
  cases s with
  | nil => simp [List.isPrefixOf, find]
  | cons d s =>
    by_cases h : c = a ∧ d = b
    · obtain ⟨rfl, rfl⟩ := h
      simp [List.isPrefixOf]
    · simp only [List.isPrefixOf, Bool.and_true, Bool.and_eq_true, beq_iff_eq, List.head?_cons,
        Option.some.injEq, eq_comm (a := a), eq_comm (a := b), h, if_false, Option.map_eq_none_iff,
        not_false_eq_true, true_and]

theorem find_eq_none_of_notMem {s : Bytes} (h : a ∉ s) : find [a, b] s = none :=
  find_eq_none_of_mem List.mem_cons_self h

/-- A byte of its own between two texts makes no separator. -/
theorem find_append_cons {c : UInt8} (hca : c ≠ a) (hcb : c ≠ b) {s t : Bytes}
    (hs : find [a, b] s = none) (ht : find [a, b] t = none) :
    find [a, b] (s ++ c :: t) = none := by
  induction s with
  | nil =>
    rw [List.nil_append, find_cons_eq_none_iff]
    exact ⟨fun h => hca h.1, ht⟩
  | cons d s ih =>
    rw [find_cons_eq_none_iff] at hs
    rw [List.cons_append, find_cons_eq_none_iff]
    refine ⟨?_, ih hs.2⟩
    cases s with
    | nil => exact fun h => hcb (Option.some.inj h.2)
    | cons e s => exact hs.1

/-- The first separator after a text that has none is where the text ends. -/
theorem find_append_sep (hab : a ≠ b) {s : Bytes} (h : find [a, b] s = none) (t : Bytes) :
    find [a, b] (s ++ a :: b :: t) = some s.length := by
  induction s with
  | nil => simp [find, List.isPrefixOf]
  | cons c s ih =>
    rw [find_cons_eq_none_iff] at h
    have hpre : ¬ [a, b].isPrefixOf (c :: (s ++ a :: b :: t)) = true := by
      cases s with
      | nil =>
        simp only [List.nil_append, List.isPrefixOf, Bool.and_eq_true, beq_iff_eq, not_and]
        rintro - hba
        exact absurd hba.symm hab
      | cons d s =>
        simp only [List.cons_append, List.isPrefixOf, Bool.and_true, Bool.and_eq_true, beq_iff_eq]
        intro h
        obtain ⟨rfl, rfl⟩ := h
        exact h.1 ⟨rfl, rfl⟩
    rw [List.cons_append, find, if_neg hpre, ih h.2, Option.map_some, List.length_cons]

/-- Half a separator is none. -/
theorem find_append_half (hab : a ≠ b) {s : Bytes} (h : find [a, b] s = none) :
    find [a, b] (s ++ [a]) = none := by
  induction s with
  | nil => simp [find, List.isPrefixOf]
  | cons c s ih =>
    rw [find_cons_eq_none_iff] at h
    rw [List.cons_append, find_cons_eq_none_iff]
    refine ⟨?_, ih h.2⟩
    cases s with
    | nil =>
      intro h
      obtain ⟨-, hba⟩ := h
      exact hab (Option.some.inj hba)
    | cons d s => exact h.1

/-- A text that is not yet ended by its separator shows none. -/
theorem find_of_strict_prefix (hab : a ≠ b) {s t u : Bytes} (h : find [a, b] s = none)
    (ht : s ++ [a, b] = t ++ u) (hu : u ≠ []) : find [a, b] t = none := by
  obtain ⟨u', c, rfl⟩ := List.eq_nil_or_concat' u |>.resolve_left hu
  have hcut : s ++ [a] = t ++ u' := by
    have := congrArg List.dropLast ht
    rw [← List.append_assoc t, List.dropLast_concat,
      show s ++ [a, b] = (s ++ [a]) ++ [b] by simp, List.dropLast_concat] at this
    exact this
  exact find_eq_none_of_append (hcut ▸ find_append_half hab h)

/-- What comes before the first separator has none. -/
theorem split_at_find (hab : a ≠ b) {s : Bytes} {i : Nat} (h : find [a, b] s = some i) :
    ∃ l r, s = l ++ [a, b] ++ r ∧ find [a, b] l = none := by
  induction s generalizing i with
  | nil => exact absurd h (by simp [find])
  | cons c s ih =>
    rw [find] at h
    split at h
    · rename_i hpre
      obtain ⟨r, hr⟩ := List.isPrefixOf_iff_prefix.mp hpre
      exact ⟨[], r, hr.symm, rfl⟩
    · rename_i hpre
      obtain ⟨j, hj, -⟩ := Option.map_eq_some_iff.mp h
      obtain ⟨l, r, rfl, hl⟩ := ih hj
      refine ⟨c :: l, r, rfl, ?_⟩
      rw [find_cons_eq_none_iff]
      refine ⟨?_, hl⟩
      cases l with
      | nil => exact fun h => nomatch h.2
      | cons d l =>
        intro h
        obtain ⟨rfl, hd⟩ := h
        obtain rfl : d = b := Option.some.inj hd
        exact hpre (by simp [List.isPrefixOf])

theorem splitMax_append_sep (hab : a ≠ b) {s : Bytes} (h : find [a, b] s = none) (t : Bytes)
    (n : Nat) : splitMax [a, b] (n + 1) (s ++ a :: b :: t) = s :: splitMax [a, b] n t := by
  have hdrop : (s ++ a :: b :: t).drop (s.length + 2) = t := by
    rw [← List.drop_drop, List.drop_left]
    rfl
  rw [splitMax, find_append_sep hab h]
  simp only [List.length_cons, List.length_nil, Nat.zero_add, List.take_left, Nat.reduceAdd, hdrop]

/-- A map under which only the bytes of the separator become them makes no separator. -/
theorem find_map_eq_none_iff {f : UInt8 → UInt8} (ha : ∀ c, f c = a ↔ c = a)
    (hb : ∀ c, f c = b ↔ c = b) (s : Bytes) :
    find [a, b] (s.map f) = none ↔ find [a, b] s = none := by
  induction s with
  | nil => exact Iff.rfl
  | cons c s ih =>
    have hhead : s.head?.map f = some b ↔ s.head? = some b := by
      simp only [Option.map_eq_some_iff, hb, exists_eq_right]
    rw [List.map_cons, find_cons_eq_none_iff, find_cons_eq_none_iff, ih, ha, List.head?_map, hhead]

/-- The first of several fields, and what the others are the fields of. -/
theorem eq_of_splitMax (hab : a ≠ b) {s x y : Bytes} {n : Nat} {rest : List Bytes}
    (h : splitMax [a, b] (n + 1) s = x :: y :: rest) :
    ∃ t, s = x ++ [a, b] ++ t ∧ find [a, b] x = none ∧ splitMax [a, b] n t = y :: rest := by
  cases hfind : find [a, b] s with
  | none =>
    rw [splitMax, hfind] at h
    exact absurd h (by simp)
  | some i =>
    obtain ⟨l, t, rfl, hl⟩ := split_at_find hab hfind
    rw [List.append_assoc, List.cons_append, List.singleton_append, splitMax_append_sep hab hl] at h
    obtain ⟨rfl, htail⟩ := List.cons.inj h
    exact ⟨t, rfl, hl, htail⟩

end TwoBytes

theorem find_singleton_eq_none {a : UInt8} {s : Bytes} (h : a ∉ s) : find [a] s = none :=
  find_eq_none_of_mem List.mem_cons_self h

theorem find_singleton_append {a : UInt8} {s : Bytes} (h : a ∉ s) (t : Bytes) :
    find [a] (s ++ a :: t) = some s.length := by
  have hself : find [a] (a :: t) = some 0 := find_self_append [a] t
  rw [find_append_of_notMem h, hself, Option.map_some, Nat.zero_add]

theorem splitMax_singleton_append {a : UInt8} {s : Bytes} (h : a ∉ s) (t : Bytes) (n : Nat) :
    splitMax [a] (n + 1) (s ++ a :: t) = s :: splitMax [a] n t := by
  have hsplit : splitMax [a] (n + 1) (s ++ [a] ++ t) = s :: splitMax [a] n t :=
    splitMax_of_notMem h t n
  rwa [List.append_assoc] at hsplit

theorem eq_of_splitMax_singleton {a : UInt8} {s x y : Bytes} {n : Nat} {rest : List Bytes}
    (h : splitMax [a] (n + 1) s = x :: y :: rest) :
    ∃ t, s = x ++ a :: t ∧ a ∉ x ∧ splitMax [a] n t = y :: rest := by
  by_cases hmem : a ∈ s
  · obtain ⟨l, t, rfl, hl⟩ := List.eq_append_cons_of_mem hmem
    rw [splitMax_singleton_append hl] at h
    obtain ⟨rfl, htail⟩ := List.cons.inj h
    exact ⟨t, rfl, hl, htail⟩
  · rw [splitMax, find_singleton_eq_none hmem] at h
    exact absurd h (by simp)

theorem splitMax_singleton {a : UInt8} (n : Nat) {s : Bytes} (h : s.length ≤ n) :
    splitMax [a] n s = s.splitOn a := by
  induction n generalizing s with
  | zero =>
    obtain rfl : s = [] := List.eq_nil_of_length_eq_zero (by omega)
    rfl
  | succ n ih =>
    by_cases ha : a ∈ s
    · obtain ⟨l, r, rfl, hl⟩ := List.eq_append_cons_of_mem ha
      rw [List.length_append, List.length_cons] at h
      rw [splitMax_singleton_append hl, List.splitOn_append_cons_self_of_not_mem hl,
        ih (by omega)]
    · rw [splitMax, find_singleton_eq_none ha, List.splitOn_eq_singleton ha]

/-- Splitting at one byte is what the library's `splitOn` does. -/
theorem split_singleton (a : UInt8) (s : Bytes) : split [a] s = s.splitOn a :=
  splitMax_singleton s.length (Nat.le_refl _)

/-- A map under which only the separator becomes the separator acts on the fields. -/
theorem splitOn_map {f : UInt8 → UInt8} {a : UInt8} (hf : ∀ b, f b = a ↔ b = a) (s : Bytes) :
    (s.map f).splitOn a = (s.splitOn a).map (List.map f) := by
  induction s with
  | nil => rfl
  | cons b s ih =>
    rw [List.map_cons, List.splitOn_cons_eq_if_modifyHead, List.splitOn_cons_eq_if_modifyHead, ih]
    by_cases hb : b = a
    · rw [if_pos (by simpa [hf] using hb), if_pos (by simpa using hb), List.map_cons, List.map_nil]
    · rw [if_neg (by simpa [hf] using hb), if_neg (by simpa using hb)]
      obtain ⟨head, tail, hsplit⟩ := List.exists_cons_of_ne_nil (List.splitOn_ne_nil a s)
      rw [hsplit]
      rfl

theorem map_intercalate (f : UInt8 → UInt8) (sep : Bytes) (fields : List Bytes) :
    (sep.intercalate fields).map f = (sep.map f).intercalate (fields.map (List.map f)) := by
  induction fields with
  | nil => rfl
  | cons x fields ih =>
    cases fields with
    | nil => rw [List.intercalate_singleton, List.map_singleton, List.intercalate_singleton]
    | cons y fields =>
      simp only [List.map_cons, List.intercalate_cons_cons, List.map_append] at ih ⊢
      rw [ih]

/-- `s.splitlines()`, with `line` before it. -/
def splitlinesFrom (line : Bytes) : Bytes → List Bytes
  | [] => if line = [] then [] else [line]
  | 13 :: 10 :: s => line :: splitlinesFrom [] s
  | b :: s => if b = 10 ∨ b = 13 then line :: splitlinesFrom [] s else splitlinesFrom (line ++ [b]) s

def splitlines (s : Bytes) : List Bytes := splitlinesFrom [] s

example : splitlines (asBytes "a\nb\r\n\rc\n") =
    [asBytes "a", asBytes "b", [], asBytes "c"] := by decide

/-! ## Letter case -/

def lowerByte (b : UInt8) : UInt8 := if 65 ≤ b ∧ b ≤ 90 then b + 32 else b

def upperByte (b : UInt8) : UInt8 := if 97 ≤ b ∧ b ≤ 122 then b - 32 else b

/-- `s.lower()` -/
def lower (s : Bytes) : Bytes := s.map lowerByte

/-- `s.capitalize()` -/
def capitalize : Bytes → Bytes
  | [] => []
  | b :: bs => upperByte b :: lower bs

theorem lowerByte_lowerByte (b : UInt8) : lowerByte (lowerByte b) = lowerByte b := by
  revert b
  decide +kernel

theorem lowerByte_upperByte (b : UInt8) : lowerByte (upperByte b) = lowerByte b := by
  revert b
  decide +kernel

theorem upperByte_lowerByte (b : UInt8) : upperByte (lowerByte b) = upperByte b := by
  revert b
  decide +kernel

theorem lower_lower (s : Bytes) : lower (lower s) = lower s := by
  unfold lower
  rw [List.map_map]
  exact List.map_congr_left fun b _ => lowerByte_lowerByte b

theorem lower_capitalize (s : Bytes) : lower (capitalize s) = lower s := by
  cases s with
  | nil => rfl
  | cons b bs =>
    show lowerByte (upperByte b) :: lower (lower bs) = lowerByte b :: lower bs
    rw [lowerByte_upperByte, lower_lower]

theorem capitalize_lower (s : Bytes) : capitalize (lower s) = capitalize s := by
  cases s with
  | nil => rfl
  | cons b bs =>
    show upperByte (lowerByte b) :: lower (lower bs) = upperByte b :: lower bs
    rw [upperByte_lowerByte, lower_lower]

/-! ## Slices -/

/-- `s[:k]` -/
def sliceTo (s : Bytes) (k : Int) : Bytes :=
  if 0 ≤ k then s.take k.toNat else s.take (s.length + k).toNat

/-- `s[k:]` -/
def sliceFrom (s : Bytes) (k : Int) : Bytes :=
  if 0 ≤ k then s.drop k.toNat else s.drop (s.length + k).toNat

theorem length_sliceFrom_le (s : Bytes) (k : Int) : (sliceFrom s k).length ≤ s.length := by
  unfold sliceFrom
  split <;> rw [List.length_drop] <;> omega

theorem sliceTo_append (s t : Bytes) : sliceTo (s ++ t) s.length = s := by
  rw [sliceTo, if_pos (Int.natCast_nonneg _), Int.toNat_natCast, List.take_left]

theorem sliceFrom_append (s t : Bytes) : sliceFrom (s ++ t) s.length = t := by
  rw [sliceFrom, if_pos (Int.natCast_nonneg _), Int.toNat_natCast, List.drop_left]

/-! ## Integers -/

/-- `Py_ISSPACE` -/
def isSpace (b : UInt8) : Bool := b == 32 || (9 ≤ b && b ≤ 13)

def strip (s : Bytes) : Bytes := (((s.dropWhile isSpace).reverse).dropWhile isSpace).reverse

def digitValue (base : Nat) (b : UInt8) : Option Nat :=
  let v :=
    if 48 ≤ b ∧ b ≤ 57 then b.toNat - 48
    else if 97 ≤ b ∧ b ≤ 122 then b.toNat - 87
    else if 65 ≤ b ∧ b ≤ 90 then b.toNat - 55
    else 37
  if v < base then some v else none

/-- Digits with single underscores between them; `digit` when the last byte was a digit. -/
def digits (base : Nat) (digit : Bool) (acc : Nat) : Bytes → Option Nat
  | [] => if digit then some acc else none
  | b :: bs =>
    if b = 95 then
      if digit then digits base false acc bs else none
    else
      (digitValue base b).bind fun d => digits base true (acc * base + d) bs

/-- The prefix that base 16 allows: `0x`, and one underscore after it. -/
def stripHexMark : Bytes → Bytes
  | 48 :: x :: s =>
    if x = 120 ∨ x = 88 then
      match s with
      | 95 :: s => s
      | s => s
    else 48 :: x :: s
  | s => s

/-- `int(s, base = base)` for base 10 and 16 -/
def int (base : Nat) (s : Bytes) : Option Int :=
  let unsigned (s : Bytes) : Option Nat :=
    digits base false 0 (if base = 16 then stripHexMark s else s)
  match strip s with
  | 45 :: s => (unsigned s).map fun n => -Int.ofNat n
  | 43 :: s => (unsigned s).map Int.ofNat
  | s => (unsigned s).map Int.ofNat

/-- A plain numeral: one or more digits and nothing else. -/
def numeral (base : Nat) (s : Bytes) : Option Nat :=
  if s = [] then none
  else s.foldlM (fun acc b => (digitValue base b).map fun d => acc * base + d) 0

/-! `int` reads a plain numeral as its number. -/

/-- The bytes of hexadecimal digits. -/
theorem range_of_digitValue {base : Nat} (hbase : base ≤ 16) {b : UInt8} {d : Nat}
    (h : digitValue base b = some d) :
    48 ≤ b.toNat ∧ b.toNat ≤ 57 ∨ 65 ≤ b.toNat ∧ b.toNat ≤ 70 ∨ 97 ≤ b.toNat ∧ b.toNat ≤ 102 := by
  simp only [digitValue, Option.ite_none_right_eq_some, UInt8.le_iff_toNat_le,
    UInt8.reduceToNat] at h
  obtain ⟨h, -⟩ := h
  split_ifs at h <;> omega

theorem isSpace_eq_false {b : UInt8} (h : 33 ≤ b.toNat) : isSpace b = false := by
  simp only [isSpace, Bool.or_eq_false_iff, beq_eq_false_iff_ne, Bool.and_eq_false_iff,
    decide_eq_false_iff_not, UInt8.le_iff_toNat_le, UInt8.reduceToNat, ne_eq,
    ← UInt8.toNat_inj]
  omega

theorem strip_of_forall {s : Bytes} (h : ∀ b ∈ s, isSpace b = false) : strip s = s := by
  have hdrop : ∀ {t : Bytes}, (∀ b ∈ t, isSpace b = false) → t.dropWhile isSpace = t := by
    intro t ht
    cases t with
    | nil => rfl
    | cons b t => rw [List.dropWhile_cons_of_neg (by simp [ht b (by simp)])]
  rw [strip, hdrop h, hdrop (by simpa using h), List.reverse_reverse]

theorem digits_of_foldlM {base : Nat} (hbase : base ≤ 16) {s : Bytes} {acc n : Nat} {digit : Bool}
    (hne : s = [] → digit = true)
    (h : s.foldlM (fun acc b => (digitValue base b).map fun d => acc * base + d) acc = some n) :
    digits base digit acc s = some n := by
  induction s generalizing acc digit with
  | nil => rw [digits, if_pos (hne rfl)]; exact h
  | cons b s ih =>
    rw [List.foldlM_cons] at h
    obtain ⟨acc', hacc, h⟩ := Option.bind_eq_some_iff.mp h
    obtain ⟨d, hd, rfl⟩ := Option.map_eq_some_iff.mp hacc
    have hrange := range_of_digitValue hbase hd
    have hb : b ≠ 95 := by rintro rfl; simp at hrange
    rw [digits, if_neg hb, hd, Option.bind_some]
    exact ih (fun _ => rfl) h

theorem digitValue_of_numeral {base : Nat} {s : Bytes} {n : Nat} (h : numeral base s = some n) :
    s ≠ [] ∧ ∀ b ∈ s, ∃ d, digitValue base b = some d := by
  rw [numeral, Option.ite_none_left_eq_some] at h
  obtain ⟨hne, h⟩ := h
  refine ⟨hne, ?_⟩
  clear hne
  generalize 0 = acc at h
  induction s generalizing acc with
  | nil => exact fun b hb => absurd hb (List.not_mem_nil)
  | cons b s ih =>
    rw [List.foldlM_cons] at h
    obtain ⟨acc', hacc, h⟩ := Option.bind_eq_some_iff.mp h
    obtain ⟨d, hd, -⟩ := Option.map_eq_some_iff.mp hacc
    rintro c (_ | ⟨_, hc⟩)
    · exact ⟨d, hd⟩
    · exact ih acc' h c hc

theorem stripHexMark_of_forall {s : Bytes} (h : ∀ b ∈ s, b ≠ 120 ∧ b ≠ 88) :
    stripHexMark s = s := by
  unfold stripHexMark
  split
  · rename_i x s
    rw [if_neg]
    rintro (rfl | rfl)
    · exact (h 120 (by simp)).1 rfl
    · exact (h 88 (by simp)).2 rfl
  · rfl

theorem int_of_numeral {base : Nat} (hbase : base ≤ 16) {s : Bytes} {n : Nat}
    (h : numeral base s = some n) : int base s = some (n : Int) := by
  obtain ⟨hne, hdigit⟩ := digitValue_of_numeral h
  have hrange : ∀ b ∈ s, 48 ≤ b.toNat ∧ b.toNat ≤ 102 := by
    intro b hb
    obtain ⟨d, hd⟩ := hdigit b hb
    have := range_of_digitValue hbase hd
    omega
  have hx : ∀ b ∈ s, b ≠ 120 ∧ b ≠ 88 := by
    intro b hb
    obtain ⟨d, hd⟩ := hdigit b hb
    have := range_of_digitValue hbase hd
    constructor <;> rintro rfl <;> simp at this
  have hstrip : strip s = s :=
    strip_of_forall fun b hb => isSpace_eq_false (by have := hrange b hb; omega)
  have hdigits : digits base false 0 s = some n := by
    rw [numeral, if_neg hne] at h
    exact digits_of_foldlM hbase (fun h => absurd h hne) h
  unfold int
  rw [hstrip]
  dsimp only
  split
  · exact absurd (hrange 45 List.mem_cons_self) (by decide)
  · exact absurd (hrange 43 List.mem_cons_self) (by decide)
  · rw [stripHexMark_of_forall hx, ite_self, hdigits]
    rfl

/-! Every number has a hexadecimal numeral. -/

theorem numeral_concat {base : Nat} {s : Bytes} {n : Nat} (h : numeral base s = some n) {b : UInt8}
    {d : Nat} (hd : digitValue base b = some d) :
    numeral base (s ++ [b]) = some (n * base + d) := by
  rw [numeral, Option.ite_none_left_eq_some] at h
  rw [numeral, if_neg (by simp), List.foldlM_append, h.2]
  simp [hd]

theorem exists_hexDigit {d : Nat} (hd : d < 16) : ∃ b, digitValue 16 b = some d := by
  have hdigit : ∀ d < 16,
      digitValue 16 (UInt8.ofNat (if d < 10 then d + 48 else d + 87)) = some d := by
    decide
  exact ⟨_, hdigit d hd⟩

theorem exists_numeral (n : Nat) : ∃ s, numeral 16 s = some n := by
  induction n using Nat.strongRecOn with
  | ind n ih =>
    by_cases hn : n < 16
    · obtain ⟨b, hb⟩ := exists_hexDigit hn
      exact ⟨[b], by simp [numeral, hb]⟩
    · obtain ⟨s, hs⟩ := ih (n / 16) (by omega)
      obtain ⟨b, hb⟩ := exists_hexDigit (show n % 16 < 16 by omega)
      refine ⟨s ++ [b], (numeral_concat hs hb).trans (congrArg some ?_)⟩
      exact Nat.div_add_mod' n 16

/-! `str` writes a number as the plain numeral that `int` reads. -/

/-- `str(n).encode()` -/
def decimal (n : Nat) : Bytes := asBytes (toString n)

theorem digitValue_of_isDigit {c : Char} (h : c.isDigit = true) :
    digitValue 10 (UInt8.ofNat c.toNat) = some (c.toNat - 48) := by
  have hrange := range_of_isDigit h
  have hbyte : (UInt8.ofNat c.toNat).toNat = c.toNat := by
    rw [UInt8.toNat_ofNat']
    omega
  have hdec : 48 ≤ UInt8.ofNat c.toNat ∧ UInt8.ofNat c.toNat ≤ 57 := by
    simp only [UInt8.le_iff_toNat_le, hbyte, UInt8.reduceToNat]
    exact hrange
  rw [digitValue, if_pos hdec, hbyte, if_pos (by omega)]

theorem foldlM_of_isDigit {cs : List Char} (h : ∀ c ∈ cs, c.isDigit = true) (acc : Nat) :
    (cs.map fun c => UInt8.ofNat c.toNat).foldlM
        (fun acc b => (digitValue 10 b).map fun d => acc * 10 + d) acc =
      some (Nat.ofDigitChars 10 cs acc) := by
  induction cs generalizing acc with
  | nil => rfl
  | cons c cs ih =>
    rw [List.map_cons, List.foldlM_cons, digitValue_of_isDigit (h c List.mem_cons_self),
      Nat.ofDigitChars_cons, Nat.mul_comm 10 acc]
    exact ih (fun d hd => h d (List.mem_cons_of_mem c hd)) _

theorem decimal_eq (n : Nat) :
    decimal n = (Nat.toDigits 10 n).map fun c => UInt8.ofNat c.toNat := by
  rw [decimal, Nat.toString_eq_ofList_toDigits]
  refine utf8Bytes_ascii fun c hc => ?_
  have := range_of_isDigit (Nat.isDigit_of_mem_toDigits (by decide) (by decide) hc)
  omega

theorem numeral_decimal (n : Nat) : numeral 10 (decimal n) = some n := by
  have hne : decimal n ≠ [] := by
    rw [decimal_eq, ne_eq, List.map_eq_nil_iff]
    exact Nat.toDigits_ne_nil
  rw [numeral, if_neg hne, decimal_eq,
    foldlM_of_isDigit fun c hc => Nat.isDigit_of_mem_toDigits (by decide) (by decide) hc,
    Nat.ofDigitChars_ten_toDigits]

end Siip.Python
