/-
  SCALE codes of varying length: lists, with their length in front, and the structs they are in.

  A `PrefixCode` is read from the front of a byte string, as a `Codec` is, but its encodings differ
  in length, and not every value has one: `Fits` says which do. Lengths are compact numbers, which
  have 32 bits; the two lowest bits of the first byte tell how many bytes follow, and the decoder
  refuses every form but the shortest. So a byte string is the encoding of at most one value, and a
  value has one encoding (`encode_of_decode`).
-/
import Siip.Lib.Codec

namespace Siip.Lib

universe u v

structure PrefixCode (α : Type u) where
  Fits : α → Prop
  encode : α → Bytes
  decode : Bytes → Option (α × Bytes)
  decode_encode : ∀ {a}, Fits a → ∀ rest, decode (encode a ++ rest) = some (a, rest)
  encode_of_decode : ∀ {bs a rest}, decode bs = some (a, rest) → Fits a ∧ bs = encode a ++ rest

/-- A code of constant length. -/
def Codec.toPrefixCode {α : Type u} (c : Codec α) : PrefixCode α where
  Fits _ := True
  encode := c.encode
  decode := c.decode
  decode_encode _ rest := c.decode_encode _ rest
  encode_of_decode h := ⟨trivial, c.encode_of_decode h⟩

namespace PrefixCode

variable {α : Type u} {β : Type v}

/-- What follows an encoding is no part of it. -/
theorem eq_of_encode_append (c : PrefixCode α) {a b : α} {s t : Bytes} (ha : c.Fits a)
    (hb : c.Fits b) (h : c.encode a ++ s = c.encode b ++ t) : a = b := by
  have hdec := c.decode_encode ha s
  rw [h, c.decode_encode hb] at hdec
  exact (congrArg Prod.fst (Option.some.inj hdec)).symm

theorem encode_inj (c : PrefixCode α) {a b : α} (ha : c.Fits a) (hb : c.Fits b)
    (h : c.encode a = c.encode b) : a = b :=
  c.eq_of_encode_append ha hb (congrArg (· ++ []) h)

/-- The fields of a struct, one after the other. -/
def prod (c : PrefixCode α) (d : PrefixCode β) : PrefixCode (α × β) where
  Fits p := c.Fits p.1 ∧ d.Fits p.2
  encode p := c.encode p.1 ++ d.encode p.2
  decode bs := (c.decode bs).bind fun p => (d.decode p.2).map fun q => ((p.1, q.1), q.2)
  decode_encode h rest := by
    rw [List.append_assoc, c.decode_encode h.1, Option.bind_some, d.decode_encode h.2,
      Option.map_some]
  encode_of_decode := by
    rintro bs ⟨a, b⟩ rest h
    obtain ⟨⟨a', mid⟩, hc, h⟩ := Option.bind_eq_some_iff.mp h
    obtain ⟨⟨b', rest'⟩, hd, h⟩ := Option.map_eq_some_iff.mp h
    simp only [Prod.mk.injEq] at h
    obtain ⟨⟨rfl, rfl⟩, rfl⟩ := h
    obtain ⟨ha, hbs⟩ := c.encode_of_decode hc
    obtain ⟨hb, hmid⟩ := d.encode_of_decode hd
    dsimp only at hmid ⊢
    exact ⟨⟨ha, hb⟩, by rw [hbs, hmid, List.append_assoc]⟩

/-- The same bytes for another representation of the values. -/
def iso (c : PrefixCode α) (f : α → β) (inv : β → α) (inv_f : ∀ a, inv (f a) = a)
    (f_inv : ∀ b, f (inv b) = b) : PrefixCode β where
  Fits b := c.Fits (inv b)
  encode b := c.encode (inv b)
  decode bs := (c.decode bs).map fun p => (f p.1, p.2)
  decode_encode h rest := by rw [c.decode_encode h, Option.map_some, f_inv]
  encode_of_decode := by
    rintro bs b rest h
    obtain ⟨⟨a, rest'⟩, hc, h⟩ := Option.map_eq_some_iff.mp h
    simp only [Prod.mk.injEq] at h
    obtain ⟨rfl, rfl⟩ := h
    rw [inv_f]
    exact c.encode_of_decode hc

end PrefixCode

/-! ## Compact numbers -/

/-- The number in the first `w` bytes, least significant first. -/
def readWord (w : Nat) (bs : Bytes) : Option (Nat × Bytes) :=
  if w ≤ bs.length then some (leNat (bs.take w), bs.drop w) else none

theorem readWord_leBytes {w n : Nat} (h : n < 256 ^ w) (rest : Bytes) :
    readWord w (leBytes w n ++ rest) = some (n, rest) := by
  have hlen := length_leBytes w n
  rw [readWord, if_pos (by rw [List.length_append, hlen]; omega), List.take_left' hlen,
    List.drop_left' hlen, leNat_leBytes h]

theorem eq_of_readWord {w n : Nat} {bs rest : Bytes} (h : readWord w bs = some (n, rest)) :
    n < 256 ^ w ∧ bs = leBytes w n ++ rest := by
  unfold readWord at h
  split at h
  · rename_i hlen
    simp only [Option.some.injEq, Prod.mk.injEq] at h
    obtain ⟨rfl, rfl⟩ := h
    have htake : (bs.take w).length = w := List.length_take_of_le hlen
    have hlt := leNat_lt (bs.take w)
    have hback := leBytes_leNat (bs.take w)
    rw [htake] at hlt hback
    exact ⟨hlt, by rw [hback, List.take_append_drop]⟩
  · exact absurd h (by simp)

/-- The lowest bits of a number are those of its first byte. -/
theorem mod_four_of_readWord {w n : Nat} {b : UInt8} {bs rest : Bytes}
    (h : readWord (w + 1) (b :: bs) = some (n, rest)) : n % 4 = b.toNat % 4 := by
  obtain ⟨-, hbs⟩ := eq_of_readWord h
  rw [leBytes, List.cons_append, List.cons.injEq] at hbs
  rw [hbs.1, UInt8.toNat_ofNat']
  omega

/-- `CompactRef::encode_to` -/
def encodeCompact (n : Nat) : Bytes :=
  if n < 64 then leBytes 1 (4 * n)
  else if n < 16384 then leBytes 2 (4 * n + 1)
  else if n < 1073741824 then leBytes 4 (4 * n + 2)
  else 3 :: leBytes 4 n

/-- A compact number in `w` bytes, which must be too great for the shorter forms. -/
def readCompact (w least : Nat) (bs : Bytes) : Option (Nat × Bytes) :=
  (readWord w bs).bind fun p => if least ≤ p.1 / 4 then some (p.1 / 4, p.2) else none

/-- `Compact::decode` -/
def decodeCompact : Bytes → Option (Nat × Bytes)
  | [] => none
  | b :: bs =>
    match b.toNat % 4 with
    | 0 => some (b.toNat / 4, bs)
    | 1 => readCompact 2 64 (b :: bs)
    | 2 => readCompact 4 16384 (b :: bs)
    | _ =>
      if b.toNat / 4 = 0 then
        (readWord 4 bs).bind fun p => if 1073741824 ≤ p.1 then some p else none
      else none

theorem readCompact_leBytes {w least n r : Nat} (hr : r < 4) (hlt : 4 * n + r < 256 ^ w)
    (hleast : least ≤ n) (rest : Bytes) :
    readCompact w least (leBytes w (4 * n + r) ++ rest) = some (n, rest) := by
  have hdiv : (4 * n + r) / 4 = n := by omega
  rw [readCompact, readWord_leBytes hlt, Option.bind_some]
  dsimp only
  rw [hdiv, if_pos hleast]

theorem eq_of_readCompact {w least n : Nat} {b : UInt8} {bs rest : Bytes}
    (h : readCompact (w + 1) least (b :: bs) = some (n, rest)) :
    least ≤ n ∧ 4 * n + b.toNat % 4 < 256 ^ (w + 1) ∧
      b :: bs = leBytes (w + 1) (4 * n + b.toNat % 4) ++ rest := by
  obtain ⟨⟨m, rest'⟩, hread, h⟩ := Option.bind_eq_some_iff.mp h
  have hmod := mod_four_of_readWord hread
  obtain ⟨hlt, hbs⟩ := eq_of_readWord hread
  dsimp only at h
  split at h
  · rename_i hleast
    simp only [Option.some.injEq, Prod.mk.injEq] at h
    obtain ⟨rfl, rfl⟩ := h
    have hm : 4 * (m / 4) + b.toNat % 4 = m := by omega
    rw [hm]
    exact ⟨hleast, hlt, hbs⟩
  · exact absurd h (by simp)

theorem decodeCompact_encodeCompact {n : Nat} (h : n < 2 ^ 32) (rest : Bytes) :
    decodeCompact (encodeCompact n ++ rest) = some (n, rest) := by
  unfold encodeCompact
  split
  · rename_i hn
    have hmod : 4 * n % 256 % 4 = 0 := by omega
    simp only [leBytes, List.cons_append, List.nil_append, decodeCompact, UInt8.toNat_ofNat', hmod,
      show (2 : Nat) ^ 8 = 256 from rfl]
    rw [Nat.mod_eq_of_lt (by omega), Nat.mul_div_cancel_left n (by decide)]
  · split
    · rename_i hn hn'
      have hmod : (4 * n + 1) % 256 % 4 = 1 := by omega
      have hread := readCompact_leBytes (w := 2) (by decide : 1 < 4) (by omega)
        (Nat.le_of_not_lt hn) rest
      rw [leBytes, List.cons_append] at hread ⊢
      simpa only [decodeCompact, UInt8.toNat_ofNat', show (2 : Nat) ^ 8 = 256 from rfl, hmod]
        using hread
    · split
      · rename_i hn hn'
        have hmod : (4 * n + 2) % 256 % 4 = 2 := by omega
        have hread := readCompact_leBytes (w := 4) (by decide : 2 < 4) (by omega)
          (Nat.le_of_not_lt hn) rest
        rw [leBytes, List.cons_append] at hread ⊢
        simpa only [decodeCompact, UInt8.toNat_ofNat', show (2 : Nat) ^ 8 = 256 from rfl, hmod]
          using hread
      · rename_i hn
        have hthree : (3 : UInt8).toNat = 3 := rfl
        simp only [List.cons_append, decodeCompact, hthree]
        rw [if_pos (by decide), readWord_leBytes (by omega), Option.bind_some]
        exact if_pos (Nat.le_of_not_lt hn)

/-- What is decoded was written in the shortest form. -/
theorem encodeCompact_of_decodeCompact {n : Nat} {bs rest : Bytes}
    (h : decodeCompact bs = some (n, rest)) : n < 2 ^ 32 ∧ bs = encodeCompact n ++ rest := by
  cases bs with
  | nil => exact absurd h (by simp [decodeCompact])
  | cons b bs =>
    have hb := b.toNat_lt
    rw [decodeCompact] at h
    split at h
    · rename_i hmod
      simp only [Option.some.injEq, Prod.mk.injEq] at h
      obtain ⟨rfl, rfl⟩ := h
      have hback : UInt8.ofNat (4 * (b.toNat / 4)) = b := by
        rw [show 4 * (b.toNat / 4) = b.toNat by omega]
        exact UInt8.ofNat_toNat
      refine ⟨by omega, ?_⟩
      rw [encodeCompact, if_pos (by omega), leBytes, leBytes, hback]
      rfl
    · rename_i hmod
      obtain ⟨hleast, hlt, hbs⟩ := eq_of_readCompact h
      rw [hmod] at hlt hbs
      refine ⟨by omega, ?_⟩
      rw [encodeCompact, if_neg (by omega), if_pos (by omega)]
      exact hbs
    · rename_i hmod
      obtain ⟨hleast, hlt, hbs⟩ := eq_of_readCompact h
      rw [hmod] at hlt hbs
      refine ⟨by omega, ?_⟩
      rw [encodeCompact, if_neg (by omega), if_neg (by omega), if_pos (by omega)]
      exact hbs
    · rename_i h0 h1 h2
      have hmod : b.toNat % 4 ≠ 0 ∧ b.toNat % 4 ≠ 1 ∧ b.toNat % 4 ≠ 2 := ⟨h0, h1, h2⟩
      split at h
      · rename_i hzero
        obtain ⟨⟨m, rest'⟩, hread, h⟩ := Option.bind_eq_some_iff.mp h
        split at h
        · rename_i hleast
          obtain ⟨hlt, hbs⟩ := eq_of_readWord hread
          simp only [Option.some.injEq, Prod.mk.injEq] at h
          obtain ⟨rfl, rfl⟩ := h
          have hthree : b.toNat = (3 : UInt8).toNat := by
            rw [show (3 : UInt8).toNat = 3 from rfl]
            omega
          refine ⟨by omega, ?_⟩
          dsimp only at hleast
          rw [encodeCompact, if_neg (by omega), if_neg (by omega), if_neg (by omega), hbs,
            UInt8.toNat_inj.mp hthree]
          rfl
        · exact absurd h (by simp)
      · exact absurd h (by simp)

namespace PrefixCode

/-! ## Lists -/

variable {α : Type u}

/-- `n` values, one after the other. -/
def decodeMany (c : PrefixCode α) : Nat → Bytes → Option (List α × Bytes)
  | 0, bs => some ([], bs)
  | n + 1, bs => (c.decode bs).bind fun p => (c.decodeMany n p.2).map fun q => (p.1 :: q.1, q.2)

theorem decodeMany_flatMap (c : PrefixCode α) {as : List α} (has : ∀ a ∈ as, c.Fits a)
    (rest : Bytes) : c.decodeMany as.length (as.flatMap c.encode ++ rest) = some (as, rest) := by
  induction as with
  | nil => rfl
  | cons a as ih =>
    obtain ⟨ha, has⟩ := List.forall_mem_cons.mp has
    rw [List.length_cons, decodeMany, List.flatMap_cons, List.append_assoc, c.decode_encode ha,
      Option.bind_some, ih has, Option.map_some]

theorem flatMap_of_decodeMany (c : PrefixCode α) {n : Nat} {as : List α} {bs rest : Bytes}
    (h : c.decodeMany n bs = some (as, rest)) :
    as.length = n ∧ (∀ a ∈ as, c.Fits a) ∧ bs = as.flatMap c.encode ++ rest := by
  induction n generalizing as bs with
  | zero =>
    simp only [decodeMany, Option.some.injEq, Prod.mk.injEq] at h
    obtain ⟨rfl, rfl⟩ := h
    exact ⟨rfl, by simp, rfl⟩
  | succ n ih =>
    obtain ⟨⟨a, mid⟩, hc, h⟩ := Option.bind_eq_some_iff.mp h
    obtain ⟨⟨as', rest'⟩, hmany, h⟩ := Option.map_eq_some_iff.mp h
    simp only [Prod.mk.injEq] at h
    obtain ⟨rfl, rfl⟩ := h
    obtain ⟨ha, hbs⟩ := c.encode_of_decode hc
    obtain ⟨hlen, has, hmid⟩ := ih hmany
    dsimp only at hmid
    refine ⟨by rw [List.length_cons, hlen], List.forall_mem_cons.mpr ⟨ha, has⟩, ?_⟩
    rw [hbs, hmid, List.flatMap_cons, List.append_assoc]

/-- `Vec<T>` -/
def vec (c : PrefixCode α) : PrefixCode (List α) where
  Fits as := as.length < 2 ^ 32 ∧ ∀ a ∈ as, c.Fits a
  encode as := encodeCompact as.length ++ as.flatMap c.encode
  decode bs := (decodeCompact bs).bind fun p => c.decodeMany p.1 p.2
  decode_encode h rest := by
    rw [List.append_assoc, decodeCompact_encodeCompact h.1, Option.bind_some,
      c.decodeMany_flatMap h.2]
  encode_of_decode := by
    intro bs as rest h
    obtain ⟨⟨n, mid⟩, hlength, h⟩ := Option.bind_eq_some_iff.mp h
    obtain ⟨hlt, hbs⟩ := encodeCompact_of_decodeCompact hlength
    obtain ⟨hn, has, hmid⟩ := c.flatMap_of_decodeMany h
    dsimp only at hn hmid
    subst hn
    exact ⟨⟨hlt, has⟩, by rw [hbs, hmid, List.append_assoc]⟩

/-- `u8` -/
def byte : PrefixCode UInt8 where
  Fits _ := True
  encode b := [b]
  decode
    | [] => none
    | b :: bs => some (b, bs)
  decode_encode _ _ := rfl
  encode_of_decode := by
    intro bs b rest h
    cases bs with
    | nil => exact absurd h (by simp)
    | cons b' bs =>
      obtain ⟨rfl, rfl⟩ := Prod.mk.inj (Option.some.inj h)
      exact ⟨trivial, rfl⟩

/-- `Vec<u8>` -/
def bytes : PrefixCode Bytes := vec byte

theorem fits_bytes {bs : Bytes} : bytes.Fits bs ↔ bs.length < 2 ^ 32 :=
  ⟨And.left, fun h => ⟨h, fun _ _ => trivial⟩⟩

end PrefixCode

end Siip.Lib
