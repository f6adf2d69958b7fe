/-
  Byte strings. `Bytes` is what Rust's `Vec<u8>` and Python's `bytes` hold; `fromUtf8` is the
  strict UTF-8 decoder of both languages (no surrogates, no overlong forms), taken from the
  standard library, and `asBytes` the encoding of a string literal.
-/
import Mathlib.Data.List.Basic

namespace Siip

abbrev Bytes := List UInt8

/-- A decidable property of bytes can be tested on all of them. -/
instance decidableForallByte {p : UInt8 → Prop} [DecidablePred p] : Decidable (∀ b, p b) :=
  decidable_of_iff (∀ n < 256, p (UInt8.ofNat n))
    ⟨fun h b => UInt8.ofNat_toNat (x := b) ▸ h b.toNat b.toNat_lt, fun h n _ => h (UInt8.ofNat n)⟩

/-- The characters of a UTF-8 byte string, `none` where it is not valid UTF-8. -/
def fromUtf8 (v : Bytes) : Option (List Char) :=
  (ByteArray.mk v.toArray).utf8Decode?.map Array.toList

/-- The bytes of a string literal. -/
def asBytes (s : String) : Bytes := s.toUTF8.data.toList

/-- The UTF-8 bytes of a list of characters. -/
def utf8Bytes (cs : List Char) : Bytes := asBytes (String.ofList cs)

theorem utf8Bytes_eq (cs : List Char) : utf8Bytes cs = cs.utf8Encode.data.toList := by
  unfold utf8Bytes asBytes
  rw [String.toUTF8_eq_toByteArray, String.toByteArray_ofList]

theorem utf8Bytes_toList (s : String) : utf8Bytes s.toList = asBytes s := by
  rw [utf8Bytes, String.ofList_toList]

theorem fromUtf8_utf8Bytes (cs : List Char) : fromUtf8 (utf8Bytes cs) = some cs := by
  have h : ByteArray.mk (utf8Bytes cs).toArray = cs.utf8Encode := by
    simp [utf8Bytes_eq]
  rw [fromUtf8, h, List.utf8Decode?_utf8Encode]
  simp

theorem asBytes_append (s t : String) : asBytes (s ++ t) = asBytes s ++ asBytes t := by
  simp [asBytes]

theorem fromUtf8_asBytes (s : String) : fromUtf8 (asBytes s) = some s.toList := by
  have h := fromUtf8_utf8Bytes s.toList
  rwa [utf8Bytes, String.ofList_toList] at h

theorem utf8Bytes_eq_nil_iff {cs : List Char} : utf8Bytes cs = [] ↔ cs = [] := by
  constructor
  · intro h
    have hcs := fromUtf8_utf8Bytes cs
    rw [h, show fromUtf8 [] = some [] from fromUtf8_utf8Bytes []] at hcs
    exact (Option.some.inj hcs).symm
  · rintro rfl
    rfl

/-- Decoding loses nothing. -/
theorem utf8Bytes_of_fromUtf8 {v : Bytes} {cs : List Char} (h : fromUtf8 v = some cs) :
    utf8Bytes cs = v := by
  obtain ⟨chars, hchars, rfl⟩ := Option.map_eq_some_iff.mp h
  have hsome : (ByteArray.mk v.toArray).utf8Decode?.isSome = true := by rw [hchars]; rfl
  have hencode := ByteArray.utf8Encode_get_utf8Decode? (h := hsome)
  rw [Option.get_of_eq_some hsome hchars] at hencode
  rw [utf8Bytes_eq, hencode]

/-- The bytes of the characters beyond ASCII are beyond ASCII. -/
theorem toNat_of_mem_utf8EncodeChar {c : Char} {b : UInt8} (h : b ∈ String.utf8EncodeChar c)
    (hb : b < 128) : c.toNat = b.toNat := by
  have hlt : b.toNat < 128 := UInt8.lt_iff_toNat_lt.mp hb
  have hval : c.toNat = c.val.toNat := rfl
  unfold String.utf8EncodeChar at h
  dsimp only at h
  split at h
  · obtain rfl := List.mem_singleton.mp h
    rw [UInt8.toNat_ofNat', hval]
    omega
  · split at h
    · simp only [List.mem_cons, List.not_mem_nil, or_false] at h
      rcases h with rfl | rfl <;> rw [UInt8.toNat_ofNat'] at hlt <;> omega
    · split at h
      · simp only [List.mem_cons, List.not_mem_nil, or_false] at h
        rcases h with rfl | rfl | rfl <;> rw [UInt8.toNat_ofNat'] at hlt <;> omega
      · simp only [List.mem_cons, List.not_mem_nil, or_false] at h
        rcases h with rfl | rfl | rfl | rfl <;> rw [UInt8.toNat_ofNat'] at hlt <;> omega

theorem mem_of_mem_utf8Bytes {cs : List Char} {b : UInt8} (h : b ∈ utf8Bytes cs) (hb : b < 128) :
    Char.ofNat b.toNat ∈ cs := by
  rw [utf8Bytes_eq, List.utf8Encode, List.toList_data_toByteArray, List.mem_flatMap] at h
  obtain ⟨c, hc, hmem⟩ := h
  rwa [← toNat_of_mem_utf8EncodeChar hmem hb, Char.ofNat_toNat]

/-- ASCII characters are one byte each. -/
theorem utf8Bytes_ascii {cs : List Char} (h : ∀ c ∈ cs, c.toNat < 128) :
    utf8Bytes cs = cs.map fun c => UInt8.ofNat c.toNat := by
  rw [utf8Bytes_eq, List.utf8Encode, List.toList_data_toByteArray]
  induction cs with
  | nil => rfl
  | cons c cs ih =>
    have hsize : c.utf8Size = 1 := by
      rw [Char.utf8Size_eq_one_iff, UInt32.le_iff_toNat_le]
      exact Nat.le_of_lt_succ (h c List.mem_cons_self)
    rw [List.flatMap_cons, String.utf8EncodeChar_eq_singleton hsize,
      ih fun d hd => h d (List.mem_cons_of_mem c hd)]
    rfl

/-- The characters of ASCII bytes. -/
def asciiChars (bs : Bytes) : List Char := bs.map fun b => Char.ofNat b.toNat

theorem toNat_asciiChar : ∀ {b : UInt8}, b < 128 → (Char.ofNat b.toNat).toNat = b.toNat := by
  decide +kernel

theorem mem_of_mem_asciiChars {bs : Bytes} (h : ∀ b ∈ bs, b < 128) {c : Char}
    (hc : c ∈ asciiChars bs) : UInt8.ofNat c.toNat ∈ bs := by
  obtain ⟨b, hb, rfl⟩ := List.mem_map.mp hc
  rw [toNat_asciiChar (h b hb), UInt8.ofNat_toNat]
  exact hb

theorem utf8Bytes_asciiChars {bs : Bytes} (h : ∀ b ∈ bs, b < 128) :
    utf8Bytes (asciiChars bs) = bs := by
  have hchars : ∀ c ∈ asciiChars bs, c.toNat < 128 := by
    intro c hc
    obtain ⟨b, hb, rfl⟩ := List.mem_map.mp hc
    rw [toNat_asciiChar (h b hb)]
    exact UInt8.lt_iff_toNat_lt.mp (h b hb)
  rw [utf8Bytes_ascii hchars, asciiChars, List.map_map]
  refine (List.map_congr_left fun b hb => ?_).trans (List.map_id bs)
  show UInt8.ofNat (Char.ofNat b.toNat).toNat = b
  rw [toNat_asciiChar (h b hb), UInt8.ofNat_toNat]

theorem fromUtf8_asciiChars {bs : Bytes} (h : ∀ b ∈ bs, b < 128) :
    fromUtf8 bs = some (asciiChars bs) := by
  have hdecode := fromUtf8_utf8Bytes (asciiChars bs)
  rwa [utf8Bytes_asciiChars h] at hdecode

/-! ## Characters of a text -/

theorem range_of_isDigit {c : Char} (h : c.isDigit = true) : 48 ≤ c.toNat ∧ c.toNat ≤ 57 := by
  simp only [Char.isDigit, Bool.and_eq_true, decide_eq_true_eq, ge_iff_le,
    UInt32.le_iff_toNat_le] at h
  exact h

theorem mem_intercalate {α : Type*} {sep : List α} {fields : List (List α)} {a : α}
    (h : a ∈ sep.intercalate fields) : a ∈ sep ∨ ∃ field ∈ fields, a ∈ field := by
  induction fields with
  | nil => exact absurd h (by simp)
  | cons field fields ih =>
    by_cases hnil : fields = []
    · subst hnil
      rw [List.intercalate_singleton] at h
      exact .inr ⟨field, List.mem_singleton_self _, h⟩
    · rw [List.intercalate_cons_of_ne_nil hnil, List.mem_append, List.mem_append] at h
      rcases h with (h | h) | h
      · exact .inr ⟨field, List.mem_cons_self, h⟩
      · exact .inl h
      · obtain h | ⟨field', hfield, h⟩ := ih h
        · exact .inl h
        · exact .inr ⟨field', List.mem_cons_of_mem _ hfield, h⟩

/-! ## Substring search -/

/-- Does the pattern occur in the text? -/
def contains (pat : List Char) : List Char → Bool
  | [] => pat.isEmpty
  | c :: text => pat.isPrefixOf (c :: text) || contains pat text

/-- A pattern without a newline does not match across the end of a line. -/
theorem isPrefixOf_line {pat : List Char} (hp : '\n' ∉ pat) (a b : List Char) :
    pat.isPrefixOf (a ++ '\n' :: b) = pat.isPrefixOf a := by
  induction pat generalizing a with
  | nil => simp
  | cons p pat ih =>
    rw [List.mem_cons, not_or] at hp
    cases a with
    | nil => simp [List.isPrefixOf, Ne.symm hp.1]
    | cons c a => simp [List.isPrefixOf, ih hp.2]

theorem contains_line {pat : List Char} (hne : pat ≠ []) (hp : '\n' ∉ pat) (a b : List Char) :
    contains pat (a ++ '\n' :: b) = (contains pat a || contains pat b) := by
  induction a with
  | nil =>
    have h := isPrefixOf_line hp [] b
    rw [List.nil_append] at h
    cases pat with
    | nil => exact absurd rfl hne
    | cons p pat => simp [contains, h]
  | cons c a ih =>
    have h := isPrefixOf_line hp (c :: a) b
    rw [List.cons_append] at h ⊢
    rw [contains, contains, h, ih, Bool.or_assoc]

end Siip
