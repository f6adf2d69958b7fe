/-
  Key texts between the chain and the proxy.

  `check_key` and `SiipCertificate` each have their own idea of a key text. The proxy gives back
  the texts that are pairs of digits between colons, and these only (`usable_iff`); the chain also
  accepts a single digit at the end, and that one makes the constructor raise
  (`accepted_key_usable`).
-/
import Siip.Pallet.KeyText
import Siip.Proxy.Certificate

namespace Siip.Proxy

open Python Pallet

/-- The constructor takes the text, and `pk_str` gives it back. -/
def Usable (ip domain text : Str) : Prop :=
  ∃ cert, SiipCertificate.new ip domain (.str text) = .ok cert ∧ cert.pkStr = text

/-! ## The text of a key -/

/-- An upper-case digit. -/
def upperDigit (d : Nat) : Char := (hexDigit d).toUpper

theorem hexValue_upperDigit : ∀ {d : Nat}, d < 16 → hexValue (upperDigit d) = some d := by
  decide

theorem isSpaceChar_upperDigit : ∀ {d : Nat}, d < 16 → isSpaceChar (upperDigit d) = false := by
  decide

theorem upperDigit_mem : ∀ {d : Nat}, d < 16 → upperDigit d ∈ hexDigits := by
  decide

theorem exists_upperDigit {c : Char} (hc : c ∈ hexDigits) : ∃ d < 16, upperDigit d = c := by
  have hdigits : hexDigits = (List.range 16).map upperDigit := by decide
  rw [hdigits] at hc
  obtain ⟨d, hd, rfl⟩ := List.mem_map.mp hc
  exact ⟨d, List.mem_range.mp hd, rfl⟩

/-- The two digits of a byte. -/
def byteText (x : UInt8) : Str := [upperDigit (x.toNat / 16), upperDigit (x.toNat % 16)]

theorem pkStrOf_eq (bs : Bytes) :
    SiipCertificate.pkStrOf bs = [':'].intercalate (bs.map byteText) := rfl

theorem pkStrOf_cons (x : UInt8) {bs : Bytes} (h : bs ≠ []) :
    SiipCertificate.pkStrOf (x :: bs) = byteText x ++ ':' :: SiipCertificate.pkStrOf bs := by
  have hmap : bs.map byteText ≠ [] := by rwa [ne_eq, List.map_eq_nil_iff]
  rw [pkStrOf_eq, pkStrOf_eq, List.map_cons, List.intercalate_cons_of_ne_nil hmap,
    List.append_assoc]
  rfl

theorem pkStrOf_singleton (x : UInt8) : SiipCertificate.pkStrOf [x] = byteText x := rfl

theorem byteText_mem (x : UInt8) : ∀ c ∈ byteText x, c ∈ hexDigits := by
  have hlt := x.toNat_lt
  intro c hc
  rcases List.mem_pair.mp hc with rfl | rfl
  · exact upperDigit_mem (by omega)
  · exact upperDigit_mem (by omega)

/-- Two digits are the text of a byte. -/
theorem exists_byteText {a b : Char} (ha : a ∈ hexDigits) (hb : b ∈ hexDigits) :
    ∃ x, byteText x = [a, b] := by
  obtain ⟨top, htop, rfl⟩ := exists_upperDigit ha
  obtain ⟨bot, hbot, rfl⟩ := exists_upperDigit hb
  have hnat : (UInt8.ofNat (16 * top + bot)).toNat = 16 * top + bot := by
    rw [UInt8.toNat_ofNat']
    omega
  refine ⟨UInt8.ofNat (16 * top + bot), ?_⟩
  rw [byteText, hnat, show (16 * top + bot) / 16 = top by omega,
    show (16 * top + bot) % 16 = bot by omega]

theorem filter_byteText (x : UInt8) : (byteText x).filter (· ≠ ':') = byteText x := by
  rw [List.filter_eq_self]
  exact fun c hc => decide_eq_true (ne_colon_of_mem (byteText_mem x c hc))

theorem filter_pkStrOf (bs : Bytes) :
    (SiipCertificate.pkStrOf bs).filter (· ≠ ':') = bs.flatMap byteText := by
  induction bs with
  | nil => rfl
  | cons x bs ih =>
    by_cases hbs : bs = []
    · subst hbs
      rw [pkStrOf_singleton, filter_byteText, List.flatMap_singleton]
    · rw [pkStrOf_cons x hbs, List.filter_append, filter_byteText,
        List.filter_cons_of_neg (by simp), ih, List.flatMap_cons]

theorem notMem_pkStrOf {c : Char} (hcolon : c ≠ ':') (h : c ∉ hexDigits) (pk : Bytes) :
    c ∉ SiipCertificate.pkStrOf pk := by
  intro hmem
  have hfilter : c ∈ (SiipCertificate.pkStrOf pk).filter (· ≠ ':') :=
    List.mem_filter.mpr ⟨hmem, by simpa using hcolon⟩
  rw [filter_pkStrOf] at hfilter
  obtain ⟨x, -, hx⟩ := List.mem_flatMap.mp hfilter
  exact h (byteText_mem x c hx)

/-- Digits in front are one byte more. -/
theorem fromHex_byteText (x : UInt8) (s : Str) :
    fromHex (byteText x ++ s) = (fromHex s).map (x :: ·) := by
  have hlt := x.toNat_lt
  have htop : x.toNat / 16 < 16 := by omega
  have hbot : x.toNat % 16 < 16 := by omega
  have hx : UInt8.ofNat (16 * (x.toNat / 16) + x.toNat % 16) = x := by
    rw [Nat.div_add_mod, UInt8.ofNat_toNat]
  change fromHex (upperDigit (x.toNat / 16) :: upperDigit (x.toNat % 16) :: s) = _
  rw [fromHex, if_neg (by rw [isSpaceChar_upperDigit htop]; decide), hexValue_upperDigit htop,
    hexValue_upperDigit hbot]
  simp only [hx]

theorem fromHex_flatMap_byteText (bs : Bytes) (s : Str) :
    fromHex (bs.flatMap byteText ++ s) = (fromHex s).map (bs ++ ·) := by
  induction bs with
  | nil => simp
  | cons x bs ih =>
    rw [List.flatMap_cons, List.append_assoc, fromHex_byteText, ih, Option.map_map]
    rfl

/-- The constructor reads back the text of a key. -/
theorem new_pkStrOf (ip domain : Str) (bs : Bytes) :
    SiipCertificate.new ip domain (.str (SiipCertificate.pkStrOf bs)) =
      .ok { ip, domain, publicKey := bs } := by
  have hhex := fromHex_flatMap_byteText bs []
  rw [SiipCertificate.new_eq_ok_iff, filter_pkStrOf]
  rw [List.append_nil] at hhex
  exact ⟨rfl, rfl, by rw [hhex]; simp [fromHex]⟩

/-- So what the proxy gives back are the texts of keys. -/
theorem usable_iff_exists {ip domain text : Str} :
    Usable ip domain text ↔ ∃ bs, text = SiipCertificate.pkStrOf bs := by
  constructor
  · intro h
    obtain ⟨cert, -, hpk⟩ := h
    exact ⟨cert.publicKey, hpk.symm⟩
  · intro h
    obtain ⟨bs, rfl⟩ := h
    exact ⟨_, new_pkStrOf ip domain bs, rfl⟩

/-! ## The two languages -/

theorem keyText_pkStrOf {bs : Bytes} (h : bs ≠ []) :
    KeyText (SiipCertificate.pkStrOf bs) ∧
      (SiipCertificate.pkStrOf bs).length + 1 = 3 * bs.length := by
  induction bs with
  | nil => exact absurd rfl h
  | cons x bs ih =>
    have hx := byteText_mem x
    have htop := hx _ (List.mem_cons_self)
    have hbot := hx _ (List.mem_cons_of_mem _ List.mem_cons_self)
    by_cases hbs : bs = []
    · subst hbs
      exact ⟨.two htop hbot, rfl⟩
    · obtain ⟨hkey, hlen⟩ := ih hbs
      rw [pkStrOf_cons x hbs]
      refine ⟨.cons htop hbot hkey, ?_⟩
      simp only [byteText, List.cons_append, List.nil_append, List.length_cons]
      omega

theorem exists_pkStrOf {text : Str} (h : KeyText text) (hlen : text.length % 3 = 2) :
    ∃ bs, bs ≠ [] ∧ text = SiipCertificate.pkStrOf bs := by
  induction h with
  | one ha => exact absurd hlen (by simp)
  | two ha hb =>
    obtain ⟨x, hx⟩ := exists_byteText ha hb
    exact ⟨[x], List.cons_ne_nil x [], hx.symm⟩
  | @cons a b cs ha hb _ ih =>
    simp only [List.length_cons, Nat.add_assoc, Nat.reduceAdd, Nat.add_mod_right] at hlen
    obtain ⟨x, hx⟩ := exists_byteText ha hb
    obtain ⟨bs, hbs, rfl⟩ := ih hlen
    refine ⟨x :: bs, List.cons_ne_nil x bs, ?_⟩
    rw [pkStrOf_cons x hbs, hx]
    rfl

/-- The texts that the proxy gives back are those of the grammar without a single digit. -/
theorem usable_iff {ip domain text : Str} :
    Usable ip domain text ↔ text = [] ∨ KeyText text ∧ text.length % 3 = 2 := by
  rw [usable_iff_exists]
  constructor
  · intro h
    obtain ⟨bs, rfl⟩ := h
    by_cases hbs : bs = []
    · exact Or.inl (by rw [hbs]; rfl)
    · obtain ⟨hkey, hlen⟩ := keyText_pkStrOf hbs
      exact Or.inr ⟨hkey, by omega⟩
  · intro h
    obtain rfl | ⟨hkey, hlen⟩ := h
    · exact ⟨[], rfl⟩
    · obtain ⟨bs, -, rfl⟩ := exists_pkStrOf hkey hlen
      exact ⟨bs, rfl⟩

theorem length_mod_of_keyText {text : Str} (h : KeyText text) :
    text.length % 3 = 1 ∨ text.length % 3 = 2 := by
  induction h with
  | one => exact Or.inl rfl
  | two => exact Or.inr rfl
  | cons _ _ _ ih =>
    simp only [List.length_cons, Nat.add_assoc, Nat.reduceAdd, Nat.add_mod_right]
    exact ih

/-- A single digit at the end is half a byte. -/
theorem fromHex_of_single {text : Str} (h : KeyText text) (hlen : text.length % 3 = 1) :
    fromHex (text.filter (· ≠ ':')) = none := by
  have hkeep : ∀ {c : Char} (s : Str), c ∈ hexDigits →
      (c :: s).filter (· ≠ ':') = c :: s.filter (· ≠ ':') :=
    fun s hc => List.filter_cons_of_pos (decide_eq_true (ne_colon_of_mem hc))
  induction h with
  | @one a ha =>
    obtain ⟨d, hd, rfl⟩ := exists_upperDigit ha
    rw [hkeep [] ha, List.filter_nil, fromHex,
      if_neg (by rw [isSpaceChar_upperDigit hd]; decide)]
  | two => exact absurd hlen (by simp)
  | @cons a b cs ha hb _ ih =>
    simp only [List.length_cons, Nat.add_assoc, Nat.reduceAdd, Nat.add_mod_right] at hlen
    obtain ⟨x, hx⟩ := exists_byteText ha hb
    rw [hkeep _ ha, hkeep _ hb, List.filter_cons_of_neg (by simp),
      show ∀ s : Str, a :: b :: s = byteText x ++ s by simp [hx], fromHex_byteText, ih hlen]
    rfl

/-- Of the accepted keys, up to the length at which the counter of the check overflows, the proxy
    takes and gives back those that do not end with a single digit; the others raise. -/
theorem accepted_key_usable (key : Bytes) (text ip domain : Str) (htext : fromUtf8 key = some text)
    (hlen : text.length ≤ 2 ^ 31) (haccepts : accepts (checkKey key) = true) :
    (Usable ip domain text ↔ text.length % 3 ≠ 1) ∧
      (text.length % 3 = 1 → SiipCertificate.new ip domain (.str text) =
        .error (.fromHex (text.filter (· ≠ ':')))) := by
  rw [usable_iff]
  rcases (accepts_iff htext hlen).mp haccepts with rfl | hkey
  · simp
  · have hmod := length_mod_of_keyText hkey
    refine ⟨?_, fun hsingle => ?_⟩
    · rw [or_iff_right hkey.ne_nil, and_iff_right hkey]
      omega
    · rw [SiipCertificate.new, fromHex_of_single hkey hsingle]

theorem accepted_key_usable_pairs : Usable [] [] "0A:FF".toList :=
  (accepted_key_usable (asBytes "0A:FF") "0A:FF".toList [] [] (fromUtf8_asBytes _) (by decide)
    (by decide +kernel)).1.mpr (by decide)

/-- The key of a test of the pallet. -/
theorem accepted_key_raises :
    accepts (checkKey (asBytes "01:23:4")) = true ∧
      SiipCertificate.new [] [] (.str "01:23:4".toList) = .error (.fromHex "01234".toList) := by
  refine ⟨?_, ?_⟩ <;> decide +kernel

end Siip.Proxy
