/-
  PEM texts: base 64 in lines of 64 characters between a BEGIN and an END line.

  Two ways to get at the base 64: dropping the first and the last line (`splitlines_pem`), and
  removing the two markers and the line ends from the text.
-/
import Siip.Lib.Binascii
import Siip.Lib.Python

namespace Siip.Python

universe u

variable {α : Type u}

/-! ## Lines of a fixed width -/

/-- `s` in lines of `width`, each ended by `eol`; `col` characters are in the current line. -/
def wrap (eol : α) (width : Nat) : Nat → List α → List α
  | col, [] => if col = 0 then [] else [eol]
  | col, c :: s =>
    if col + 1 = width then c :: eol :: wrap eol width 0 s else c :: wrap eol width (col + 1) s

theorem map_wrap {β : Type u} (f : α → β) (eol : α) (width col : Nat) (s : List α) :
    (wrap eol width col s).map f = wrap (f eol) width col (s.map f) := by
  induction s generalizing col with
  | nil =>
    rw [List.map_nil, wrap, wrap]
    split <;> rfl
  | cons c s ih =>
    rw [List.map_cons, wrap, wrap]
    split
    · rw [List.map_cons, List.map_cons, ih]
    · rw [List.map_cons, ih]

theorem mem_wrap {eol c : α} {width col : Nat} {s : List α} (h : c ∈ wrap eol width col s) :
    c = eol ∨ c ∈ s := by
  induction s generalizing col with
  | nil =>
    rw [wrap] at h
    split at h
    · exact absurd h List.not_mem_nil
    · exact Or.inl (List.mem_singleton.mp h)
  | cons d s ih =>
    rw [wrap] at h
    split at h
    · rcases List.mem_cons.mp h with rfl | h
      · exact Or.inr List.mem_cons_self
      · rcases List.mem_cons.mp h with rfl | h
        · exact Or.inl rfl
        · exact (ih h).imp_right (List.mem_cons_of_mem d)
    · rcases List.mem_cons.mp h with rfl | h
      · exact Or.inr List.mem_cons_self
      · exact (ih h).imp_right (List.mem_cons_of_mem d)

/-- Without its line ends a wrapped text is the text. -/
theorem filter_wrap [DecidableEq α] {eol : α} {s : List α} (h : eol ∉ s) (width col : Nat) :
    (wrap eol width col s).filter (· ≠ eol) = s := by
  induction s generalizing col with
  | nil =>
    unfold wrap
    split
    · rfl
    · exact List.filter_cons_of_neg (by simp)
  | cons c s ih =>
    rw [List.mem_cons, not_or] at h
    have hc : ∀ t, (c :: t).filter (· ≠ eol) = c :: t.filter (· ≠ eol) :=
      fun t => List.filter_cons_of_pos (decide_eq_true (Ne.symm h.1))
    rw [wrap]
    split
    · rw [hc, List.filter_cons_of_neg (by simp), ih h.2]
    · rw [hc, ih h.2]

/-! ## Removing a marker -/

/-- `s.replace(pat, '')`, after `skip` more characters of an occurrence of `pat`. -/
def removeFrom [DecidableEq α] (pat : List α) : Nat → List α → List α
  | _, [] => []
  | skip + 1, _ :: s => removeFrom pat skip s
  | 0, c :: s =>
    if pat.isPrefixOf (c :: s) then removeFrom pat (pat.length - 1) s
    else c :: removeFrom pat 0 s

/-- `s.replace(pat, '')` -/
def remove [DecidableEq α] (pat s : List α) : List α := removeFrom pat 0 s

example : remove "ab".toList "abcabab".toList = "c".toList := by decide

theorem removeFrom_append [DecidableEq α] (pat t s : List α) :
    removeFrom pat t.length (t ++ s) = remove pat s := by
  induction t with
  | nil => rfl
  | cons c t ih =>
    rw [List.cons_append, List.length_cons, removeFrom]
    exact ih

theorem remove_append [DecidableEq α] {pat : List α} (h : pat ≠ []) (s : List α) :
    remove pat (pat ++ s) = remove pat s := by
  obtain ⟨p, ps, rfl⟩ := List.exists_cons_of_ne_nil h
  have hpre : (p :: ps).isPrefixOf (p :: (ps ++ s)) = true :=
    List.isPrefixOf_iff_prefix.mpr (List.prefix_append (p :: ps) s)
  rw [remove, List.cons_append, removeFrom, if_pos hpre]
  exact removeFrom_append (p :: ps) ps s

/-- A text without the first character of the marker stays. -/
theorem remove_of_notMem [DecidableEq α] {pat : List α} {p : α} (hpat : pat.head? = some p)
    {s : List α} (h : p ∉ s) (t : List α) : remove pat (s ++ t) = s ++ remove pat t := by
  obtain ⟨ps, rfl⟩ := List.head?_eq_some_iff.mp hpat
  induction s with
  | nil => rfl
  | cons c s ih =>
    rw [List.mem_cons, not_or] at h
    have hpre : ¬ (p :: ps).isPrefixOf (c :: (s ++ t)) = true := by
      simp [List.isPrefixOf, h.1]
    rw [remove, List.cons_append, removeFrom, if_neg hpre]
    exact congrArg (c :: ·) (ih h.2)

theorem remove_singleton [DecidableEq α] (a : α) (s : List α) :
    remove [a] s = s.filter (· ≠ a) := by
  induction s with
  | nil => rfl
  | cons c s ih =>
    by_cases hc : c = a
    · subst hc
      have h := remove_append (List.cons_ne_nil c []) s
      rw [List.filter_cons_of_neg (by simp), ← ih]
      exact h
    · have h := remove_of_notMem (List.head?_cons (l := [])) (s := [c])
        (by simpa using Ne.symm hc) s
      rw [List.filter_cons_of_pos (by simpa using hc), ← ih]
      exact h

/-! ## The lines of a PEM text -/

theorem splitlinesFrom_cons {b : UInt8} (h : b ≠ 13) (line s : Bytes) :
    splitlinesFrom line (b :: s) =
      if b = 10 then line :: splitlinesFrom [] s else splitlinesFrom (line ++ [b]) s := by
  rw [splitlinesFrom]
  · rw [if_congr (or_iff_left h) rfl rfl]
  · intro s' heq _
    exact h heq

/-- A line without line ends. -/
theorem splitlinesFrom_line {s : Bytes} (h : ∀ b ∈ s, b ≠ 10 ∧ b ≠ 13) (line rest : Bytes) :
    splitlinesFrom line (s ++ 10 :: rest) = (line ++ s) :: splitlinesFrom [] rest := by
  induction s generalizing line with
  | nil => rw [List.nil_append, splitlinesFrom_cons (by decide), if_pos rfl, List.append_nil]
  | cons b s ih =>
    obtain ⟨⟨hlf, hcr⟩, hs⟩ := List.forall_mem_cons.mp h
    rw [List.cons_append, splitlinesFrom_cons hcr, if_neg hlf, ih hs, List.append_assoc]
    rfl

/-- The lines of a wrapped text make up the text. -/
theorem splitlinesFrom_wrap {s : Bytes} (h : ∀ b ∈ s, b ≠ 10 ∧ b ≠ 13) (width col : Nat)
    {line : Bytes} (hline : col = 0 → line = []) (rest : Bytes) :
    ∃ lines, splitlinesFrom line (wrap 10 width col s ++ rest) = lines ++ splitlinesFrom [] rest ∧
      lines.flatten = line ++ s := by
  induction s generalizing col line with
  | nil =>
    rw [wrap]
    split
    · rename_i hcol
      rw [hline hcol]
      exact ⟨[], rfl, rfl⟩
    · refine ⟨[line], ?_, List.append_nil _ ▸ List.append_nil _⟩
      rw [List.singleton_append, splitlinesFrom_cons (by decide), if_pos rfl, List.singleton_append]
  | cons b s ih =>
    obtain ⟨⟨hlf, hcr⟩, hs⟩ := List.forall_mem_cons.mp h
    rw [wrap]
    split
    · obtain ⟨lines, hsplit, hflat⟩ := ih hs 0 (fun _ => rfl)
      refine ⟨(line ++ [b]) :: lines, ?_, ?_⟩
      · rw [List.cons_append, List.cons_append, splitlinesFrom_cons hcr, if_neg hlf,
          splitlinesFrom_cons (by decide), if_pos rfl, hsplit, List.cons_append]
      · rw [List.flatten_cons, hflat]
        simp
    · have hline' : col + 1 = 0 → line ++ [b] = [] := fun hcol => absurd hcol (Nat.succ_ne_zero col)
      obtain ⟨lines, hsplit, hflat⟩ := ih hs (col + 1) hline'
      refine ⟨lines, ?_, ?_⟩
      · rw [List.cons_append, splitlinesFrom_cons hcr, if_neg hlf, hsplit]
      · rw [hflat]
        simp

/-! ## Public keys -/

/-- The PEM text of a public key. -/
def publicKeyPem (publicKey : Bytes) : Bytes :=
  asBytes "-----BEGIN PUBLIC KEY-----" ++ 10 :: (wrap 10 64 0 (b64encode publicKey) ++
    (asBytes "-----END PUBLIC KEY-----" ++ [10]))

theorem publicKeyPem_ascii (publicKey : Bytes) : ∀ b ∈ publicKeyPem publicKey, b < 128 := by
  have hbegin : ∀ b ∈ asBytes "-----BEGIN PUBLIC KEY-----", b < 128 := by decide +kernel
  have hend : ∀ b ∈ asBytes "-----END PUBLIC KEY-----" ++ [10], b < 128 := by decide +kernel
  intro b hb
  rcases List.mem_append.mp hb with hb | hb
  · exact hbegin b hb
  · rcases List.mem_cons.mp hb with rfl | hb
    · decide
    · rcases List.mem_append.mp hb with hb | hb
      · rcases mem_wrap hb with rfl | hb
        · decide
        · exact (b64encode_plain publicKey b hb).2.2.2
      · exact hend b hb

/-- The lines between the first and the last one are the base 64. -/
theorem splitlines_publicKeyPem (publicKey : Bytes) :
    ((splitlines (publicKeyPem publicKey)).drop 1).dropLast.flatten = b64encode publicKey := by
  have hbegin : ∀ b ∈ asBytes "-----BEGIN PUBLIC KEY-----", b ≠ 10 ∧ b ≠ 13 := by decide +kernel
  have hend : splitlinesFrom [] (asBytes "-----END PUBLIC KEY-----" ++ [10]) =
      [asBytes "-----END PUBLIC KEY-----"] := by
    decide +kernel
  have hplain : ∀ b ∈ b64encode publicKey, b ≠ 10 ∧ b ≠ 13 := by
    intro b hb
    obtain ⟨hlf, hcr, -⟩ := b64encode_plain publicKey b hb
    exact ⟨hlf, hcr⟩
  obtain ⟨lines, hlines, hflat⟩ := splitlinesFrom_wrap hplain 64 0 (fun _ => rfl)
    (asBytes "-----END PUBLIC KEY-----" ++ [10])
  rw [splitlines, publicKeyPem, splitlinesFrom_line hbegin, hlines, hend, List.drop_one,
    List.tail_cons, List.dropLast_concat, hflat, List.nil_append]

/-- Without its markers and line ends the text is the base 64. -/
theorem remove_publicKeyPem (publicKey : Bytes) :
    remove ['\n'] (remove "-----END PUBLIC KEY-----".toList
        (remove "-----BEGIN PUBLIC KEY-----".toList (asciiChars (publicKeyPem publicKey)))) =
      asciiChars (b64encode publicKey) := by
  have hbegin : asciiChars (asBytes "-----BEGIN PUBLIC KEY-----") =
      "-----BEGIN PUBLIC KEY-----".toList := by decide +kernel
  have hend : asciiChars (asBytes "-----END PUBLIC KEY-----" ++ [10]) =
      "-----END PUBLIC KEY-----".toList ++ ['\n'] := by decide +kernel
  have hplain := b64encode_plain publicKey
  have hmem : ∀ c ∈ asciiChars (b64encode publicKey), c ≠ '-' ∧ c ≠ '\n' := by
    intro c hc
    obtain ⟨hlf, -, hdash, -⟩ := hplain _
      (mem_of_mem_asciiChars (fun b hb => (hplain b hb).2.2.2) hc)
    refine ⟨fun heq => ?_, fun heq => ?_⟩
    · subst heq
      exact hdash rfl
    · subst heq
      exact hlf rfl
  have hhyphen : '-' ∉ '\n' :: wrap '\n' 64 0 (asciiChars (b64encode publicKey)) := by
    intro h
    rcases List.mem_cons.mp h with h | h
    · exact absurd h (by decide)
    · rcases mem_wrap h with h | h
      · exact absurd h (by decide)
      · exact (hmem _ h).1 rfl
  have htext : asciiChars (publicKeyPem publicKey) = "-----BEGIN PUBLIC KEY-----".toList ++
      (('\n' :: wrap '\n' 64 0 (asciiChars (b64encode publicKey))) ++
        ("-----END PUBLIC KEY-----".toList ++ ['\n'])) := by
    rw [← hbegin, ← hend, publicKeyPem]
    unfold asciiChars
    rw [List.map_append, List.map_cons, List.map_append, map_wrap]
    rfl
  have hkeepEnd : remove "-----BEGIN PUBLIC KEY-----".toList
      ("-----END PUBLIC KEY-----".toList ++ ['\n']) =
        "-----END PUBLIC KEY-----".toList ++ ['\n'] := by decide +kernel
  have hdropEnd : remove "-----END PUBLIC KEY-----".toList
      ("-----END PUBLIC KEY-----".toList ++ ['\n']) = ['\n'] := by decide +kernel
  have hskip : ∀ pat t, pat.head? = some '-' →
      remove pat (('\n' :: wrap '\n' 64 0 (asciiChars (b64encode publicKey))) ++ t) =
        ('\n' :: wrap '\n' 64 0 (asciiChars (b64encode publicKey))) ++ remove pat t :=
    fun pat t hpat => remove_of_notMem hpat hhyphen t
  rw [htext, remove_append (by decide), hskip _ _ (by decide), hkeepEnd, hskip _ _ (by decide),
    hdropEnd, remove_singleton, List.filter_append, List.filter_cons_of_neg (by simp),
    filter_wrap fun h => (hmem _ h).2 rfl]
  exact List.append_nil _

end Siip.Python
