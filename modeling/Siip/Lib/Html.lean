/-
  Escaping a text for HTML, and what a page shows.

  `escape` is a sequence of replacements, the one of the ampersand first; it puts a reference in
  place of each of five characters (`escape_eq`). `read` tells the tags of a page from its text.
  A `fill`ed page, made of literals with an escaped text between them, has the tags of its
  literals whatever the text is, and shows the text as it is (`read_fill`).
-/
import Mathlib.Data.List.Basic
import Mathlib.Data.List.Flatten

namespace Siip.Lib.Html

/-! ## Escaping -/

/-- `s.replace(old, new)`, for one character -/
def replace (old : Char) (new : String) (s : List Char) : List Char :=
  s.flatMap fun c => if c = old then new.toList else [c]

/-- `html.escape(s)` -/
def escape (s : List Char) : List Char :=
  replace '\'' "&#x27;" <| replace '"' "&quot;" <| replace '>' "&gt;" <| replace '<' "&lt;" <|
    replace '&' "&amp;" s

/-- What stands for a character in an escaped text. -/
def reference (c : Char) : List Char :=
  if c = '&' then "&amp;".toList
  else if c = '<' then "&lt;".toList
  else if c = '>' then "&gt;".toList
  else if c = '"' then "&quot;".toList
  else if c = '\'' then "&#x27;".toList
  else [c]

theorem replace_flatMap (old : Char) (new : String) (f : Char → List Char) (s : List Char) :
    replace old new (s.flatMap f) = s.flatMap fun c => replace old new (f c) :=
  List.flatMap_assoc

/-- No replacement touches what an earlier one has put in. -/
theorem escape_eq (s : List Char) : escape s = s.flatMap reference := by
  have hchar : ∀ c, replace '\'' "&#x27;" (replace '"' "&quot;" (replace '>' "&gt;"
      (replace '<' "&lt;" (if c = '&' then "&amp;".toList else [c])))) = reference c := by
    intro c
    unfold reference
    by_cases hamp : c = '&'
    · subst hamp
      decide
    by_cases hlt : c = '<'
    · subst hlt
      decide
    by_cases hgt : c = '>'
    · subst hgt
      decide
    by_cases hquot : c = '"'
    · subst hquot
      decide
    by_cases hapos : c = '\''
    · subst hapos
      decide
    · simp [replace, hamp, hlt, hgt, hquot, hapos]
  have hamp : replace '&' "&amp;" s = s.flatMap fun c => if c = '&' then "&amp;".toList else [c] :=
    rfl
  rw [escape, hamp]
  simp only [replace_flatMap, hchar]

theorem escape_cons (c : Char) (s : List Char) : escape (c :: s) = reference c ++ escape s := by
  rw [escape_eq, escape_eq, List.flatMap_cons]

/-- An escaped text has no markup in it. -/
theorem notMem_escape (s : List Char) : '<' ∉ escape s ∧ '>' ∉ escape s := by
  have href : ∀ c, '<' ∉ reference c ∧ '>' ∉ reference c := by
    intro c
    unfold reference
    split_ifs with h₁ h₂ h₃ h₄ h₅
    iterate 5 decide
    exact ⟨fun h => h₂ (List.mem_singleton.mp h).symm, fun h => h₃ (List.mem_singleton.mp h).symm⟩
  rw [escape_eq, List.mem_flatMap, List.mem_flatMap]
  exact ⟨fun ⟨c, _, h⟩ => (href c).1 h, fun ⟨c, _, h⟩ => (href c).2 h⟩

/-- The references of `escape` are read as what they stand for. -/
def unescape : List Char → List Char
  | '&' :: 'a' :: 'm' :: 'p' :: ';' :: s => '&' :: unescape s
  | '&' :: 'l' :: 't' :: ';' :: s => '<' :: unescape s
  | '&' :: 'g' :: 't' :: ';' :: s => '>' :: unescape s
  | '&' :: 'q' :: 'u' :: 'o' :: 't' :: ';' :: s => '"' :: unescape s
  | '&' :: '#' :: 'x' :: '2' :: '7' :: ';' :: s => '\'' :: unescape s
  | c :: s => c :: unescape s
  | [] => []

theorem unescape_cons {c : Char} (h : c ≠ '&') (s : List Char) :
    unescape (c :: s) = c :: unescape s := by
  rw [unescape] <;> simp [h]

theorem unescape_append {s : List Char} (h : '&' ∉ s) (t : List Char) :
    unescape (s ++ t) = s ++ unescape t := by
  induction s with
  | nil => rfl
  | cons c s ih =>
    obtain ⟨hc, hs⟩ := not_or.mp (mt List.mem_cons.mpr h)
    rw [List.cons_append, unescape_cons (Ne.symm hc), ih hs, List.cons_append]

theorem unescape_reference (c : Char) (t : List Char) :
    unescape (reference c ++ t) = c :: unescape t := by
  unfold reference
  split_ifs with h₁ h₂ h₃ h₄ h₅
  · subst h₁
    rfl
  · subst h₂
    rfl
  · subst h₃
    rfl
  · subst h₄
    rfl
  · subst h₅
    rfl
  · exact unescape_cons h₁ t

theorem unescape_escape (s t : List Char) : unescape (escape s ++ t) = s ++ unescape t := by
  induction s with
  | nil => rfl
  | cons c s ih =>
    rw [escape_cons, List.append_assoc, unescape_reference, ih, List.cons_append]

/-! ## Tags and text -/

/-- The tags that have been read, the text around them, and the tag that is open. -/
structure Reader where
  tags : List (List Char)
  text : List Char
  tag : Option (List Char)
  deriving DecidableEq

def Reader.step (r : Reader) (c : Char) : Reader :=
  match r.tag with
  | none => if c = '<' then { r with tag := some [] } else { r with text := r.text ++ [c] }
  | some name =>
    if c = '>' then { r with tags := r.tags ++ [name], tag := none }
    else { r with tag := some (name ++ [c]) }

def read (s : List Char) : Reader := s.foldl Reader.step ⟨[], [], none⟩

/-- What has been read before stays in front. -/
theorem foldl_step (tags : List (List Char)) (text : List Char) (tag : Option (List Char))
    (s : List Char) :
    s.foldl Reader.step ⟨tags, text, tag⟩ =
      ⟨tags ++ (s.foldl Reader.step ⟨[], [], tag⟩).tags,
        text ++ (s.foldl Reader.step ⟨[], [], tag⟩).text,
        (s.foldl Reader.step ⟨[], [], tag⟩).tag⟩ := by
  induction s generalizing tags text tag with
  | nil => simp
  | cons c s ih =>
    have hstep : ∀ tags text, Reader.step ⟨tags, text, tag⟩ c =
        ⟨tags ++ (Reader.step ⟨[], [], tag⟩ c).tags, text ++ (Reader.step ⟨[], [], tag⟩ c).text,
          (Reader.step ⟨[], [], tag⟩ c).tag⟩ := by
      intro tags text
      cases tag with
      | none => by_cases hc : c = '<' <;> simp [Reader.step, hc]
      | some name => by_cases hc : c = '>' <;> simp [Reader.step, hc]
    rw [List.foldl_cons, List.foldl_cons, hstep, ih]
    generalize Reader.step ⟨[], [], tag⟩ c = r
    obtain ⟨tags', text', tag'⟩ := r
    rw [ih tags' text' tag']
    simp only [List.append_assoc]

theorem read_append {s : List Char} (h : (read s).tag = none) (t : List Char) :
    read (s ++ t) = ⟨(read s).tags ++ (read t).tags, (read s).text ++ (read t).text,
      (read t).tag⟩ := by
  unfold read at *
  rw [List.foldl_append]
  generalize s.foldl Reader.step ⟨[], [], none⟩ = r at h
  obtain ⟨tags, text, tag⟩ := r
  obtain rfl : tag = none := h
  exact foldl_step tags text none t

/-- A text without markup is text. -/
theorem read_of_notMem {s : List Char} (h : '<' ∉ s) : read s = ⟨[], s, none⟩ := by
  induction s with
  | nil => rfl
  | cons c s ih =>
    obtain ⟨hc, hs⟩ := not_or.mp (mt List.mem_cons.mpr h)
    have hchar : read [c] = ⟨[], [c], none⟩ := by
      simp [read, Reader.step, Ne.symm hc]
    have happend := read_append (s := [c]) (by rw [hchar]) s
    rwa [ih hs, hchar] at happend

/-! ## Pages -/

/-- A part of a page that leaves no tag open, and has no reference in its text. -/
def Closed (literal : List Char) : Prop :=
  (read literal).tag = none ∧ '&' ∉ (read literal).text

instance (literal : List Char) : Decidable (Closed literal) := inferInstanceAs (Decidable (_ ∧ _))

theorem closed_of_notMem {s : List Char} (hlt : '<' ∉ s) (hamp : '&' ∉ s) : Closed s := by
  rw [Closed, read_of_notMem hlt]
  exact ⟨rfl, hamp⟩

theorem Closed.append {s t : List Char} (hs : Closed s) (ht : Closed t) : Closed (s ++ t) := by
  rw [Closed, read_append hs.1]
  refine ⟨ht.1, fun hmem => ?_⟩
  rcases List.mem_append.mp hmem with h | h
  · exact hs.2 h
  · exact ht.2 h

/-- The literals of a page, with an escaped text between any two of them. -/
def fill (literals : List (List Char)) (s : List Char) : List Char :=
  (escape s).intercalate literals

theorem read_fill_raw {literals : List (List Char)} (h : ∀ l ∈ literals, Closed l)
    (s : List Char) :
    read (fill literals s) = ⟨literals.flatMap fun l => (read l).tags,
      (escape s).intercalate (literals.map fun l => (read l).text), none⟩ := by
  unfold fill
  induction literals with
  | nil => rfl
  | cons l literals ih =>
    obtain ⟨hl, hrest⟩ := List.forall_mem_cons.mp h
    cases literals with
    | nil =>
      have htag : read l = ⟨(read l).tags, (read l).text, none⟩ := by
        rw [← hl.1]
      simpa using htag
    | cons l' literals =>
      have hescape : read (escape s) = ⟨[], escape s, none⟩ :=
        read_of_notMem (notMem_escape s).1
      rw [List.intercalate_cons_cons, List.append_assoc, read_append hl.1,
        read_append (by rw [hescape]), hescape, ih hrest]
      simp [List.intercalate_cons_cons]

theorem unescape_intercalate {texts : List (List Char)} (h : ∀ t ∈ texts, '&' ∉ t)
    (s : List Char) : unescape ((escape s).intercalate texts) = s.intercalate texts := by
  have hself : ∀ t : List Char, '&' ∉ t → unescape t = t := by
    intro t ht
    have happend := unescape_append ht []
    rwa [List.append_nil, unescape, List.append_nil] at happend
  induction texts with
  | nil => rfl
  | cons t texts ih =>
    obtain ⟨ht, hrest⟩ := List.forall_mem_cons.mp h
    cases texts with
    | nil => simpa using hself t ht
    | cons t' texts =>
      rw [List.intercalate_cons_cons, List.intercalate_cons_cons, List.append_assoc,
        unescape_append ht, unescape_escape, ih hrest, List.append_assoc]

/-- The tags of a page are those of its literals, and it shows the text as it is. -/
theorem read_fill {literals : List (List Char)} (h : ∀ l ∈ literals, Closed l) (s : List Char) :
    (read (fill literals s)).tags = literals.flatMap (fun l => (read l).tags) ∧
      (read (fill literals s)).tag = none ∧
      unescape (read (fill literals s)).text =
        s.intercalate (literals.map fun l => (read l).text) := by
  rw [read_fill_raw h]
  refine ⟨rfl, rfl, unescape_intercalate (fun t ht => ?_) s⟩
  obtain ⟨l, hl, rfl⟩ := List.mem_map.mp ht
  exact (h l hl).2

end Siip.Lib.Html
