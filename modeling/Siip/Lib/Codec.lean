/-
  Fixed-width binary codecs, as SCALE uses them for words, hashes and structs of these: an
  encoding of constant length, and a decoder that reads it from the front of a byte string and
  hands back the rest unread.

  A `Codec` carries its two laws: decoding undoes encoding, whatever follows, and what was
  decoded is the encoding of the result followed by the rest. Codecs are closed under pairing
  (`prod`, the fields of a struct in order) and under a change of representation (`iso`).
-/
import Siip.Lib.Bytes
import Mathlib.Tactic.Ring

namespace Siip.Lib

universe u v

structure Codec (α : Type u) where
  width : Nat
  encode : α → Bytes
  decode : Bytes → Option (α × Bytes)
  length_encode : ∀ a, (encode a).length = width
  decode_encode : ∀ a rest, decode (encode a ++ rest) = some (a, rest)
  encode_of_decode : ∀ {bs a rest}, decode bs = some (a, rest) → bs = encode a ++ rest

namespace Codec

variable {α : Type u} {β : Type v}

theorem decode_encode_nil (c : Codec α) (a : α) : c.decode (c.encode a) = some (a, []) := by
  simpa using c.decode_encode a []

theorem encode_injective (c : Codec α) : Function.Injective c.encode := by
  intro a b h
  have ha := c.decode_encode_nil a
  rw [h, c.decode_encode_nil b] at ha
  exact (congrArg Prod.fst (Option.some.inj ha)).symm

/-- Bytes after the encoding do not change what is decoded. -/
theorem decode_append (c : Codec α) {bs : Bytes} {a : α} {rest : Bytes}
    (h : c.decode bs = some (a, rest)) (t : Bytes) : c.decode (bs ++ t) = some (a, rest ++ t) := by
  rw [c.encode_of_decode h, List.append_assoc, c.decode_encode]

/-- The fields of a struct, one after the other. -/
def prod (c : Codec α) (d : Codec β) : Codec (α × β) where
  width := c.width + d.width
  encode p := c.encode p.1 ++ d.encode p.2
  decode bs := (c.decode bs).bind fun p => (d.decode p.2).map fun q => ((p.1, q.1), q.2)
  length_encode p := by rw [List.length_append, c.length_encode, d.length_encode]
  decode_encode p rest := by
    rw [List.append_assoc, c.decode_encode, Option.bind_some, d.decode_encode, Option.map_some]
  encode_of_decode := by
    rintro bs ⟨a, b⟩ rest h
    obtain ⟨⟨a', mid⟩, hc, h⟩ := Option.bind_eq_some_iff.mp h
    obtain ⟨⟨b', rest'⟩, hd, h⟩ := Option.map_eq_some_iff.mp h
    simp only [Prod.mk.injEq] at h
    obtain ⟨⟨rfl, rfl⟩, rfl⟩ := h
    dsimp only at hd ⊢
    rw [c.encode_of_decode hc, d.encode_of_decode hd, List.append_assoc]

/-- The same bytes for another representation of the values. -/
def iso (c : Codec α) (f : α → β) (inv : β → α) (inv_f : ∀ a, inv (f a) = a)
    (f_inv : ∀ b, f (inv b) = b) : Codec β where
  width := c.width
  encode b := c.encode (inv b)
  decode bs := (c.decode bs).map fun p => (f p.1, p.2)
  length_encode b := c.length_encode (inv b)
  decode_encode b rest := by rw [c.decode_encode, Option.map_some, f_inv]
  encode_of_decode := by
    rintro bs b rest h
    obtain ⟨⟨a, rest'⟩, hc, h⟩ := Option.map_eq_some_iff.mp h
    simp only [Prod.mk.injEq] at h
    obtain ⟨rfl, rfl⟩ := h
    rw [inv_f, ← c.encode_of_decode hc]

/-- A string of exactly `n` bytes, as it is. -/
def bytes (n : Nat) : Codec (Vector UInt8 n) where
  width := n
  encode v := v.toList
  decode bs :=
    if h : n ≤ bs.length then
      some (⟨(bs.take n).toArray, by simpa using h⟩, bs.drop n)
    else none
  length_encode v := v.length_toList
  decode_encode v rest := by
    have hn : n ≤ (v.toList ++ rest).length := by simp
    have htake : (v.toList ++ rest).take n = v.toList := by
      rw [List.take_append_of_le_length (by simp), List.take_of_length_le (by simp)]
    have hdrop : (v.toList ++ rest).drop n = rest := by
      rw [List.drop_append_of_le_length (by simp), List.drop_of_length_le (by simp),
        List.nil_append]
    rw [dif_pos hn]
    simp only [htake, hdrop]
    rfl
  encode_of_decode := by
    intro bs v rest h
    split at h
    · simp only [Option.some.injEq, Prod.mk.injEq] at h
      obtain ⟨rfl, rfl⟩ := h
      exact (List.take_append_drop n bs).symm
    · exact absurd h (Option.some_ne_none _).symm

end Codec

/-! ## Little-endian words -/

/-- The `w` little-endian bytes of `n`; the part of `n` above them is dropped. -/
def leBytes : Nat → Nat → Bytes
  | 0, _ => []
  | w + 1, n => UInt8.ofNat n :: leBytes w (n / 256)

/-- The number with the given little-endian bytes. -/
def leNat : Bytes → Nat
  | [] => 0
  | b :: bs => b.toNat + 256 * leNat bs

theorem length_leBytes (w n : Nat) : (leBytes w n).length = w := by
  induction w generalizing n with
  | zero => rfl
  | succ w ih => rw [leBytes, List.length_cons, ih]

theorem leNat_lt (bs : Bytes) : leNat bs < 256 ^ bs.length := by
  induction bs with
  | nil => simp [leNat]
  | cons b bs ih =>
    have hb := b.toNat_lt
    rw [leNat, List.length_cons, pow_succ]
    omega

theorem leNat_leBytes {w n : Nat} (h : n < 256 ^ w) : leNat (leBytes w n) = n := by
  induction w generalizing n with
  | zero => simp only [pow_zero, Nat.lt_one_iff] at h; rw [h]; rfl
  | succ w ih =>
    have hdiv : n / 256 < 256 ^ w := by
      rw [Nat.div_lt_iff_lt_mul (by decide), ← pow_succ]
      exact h
    rw [leBytes, leNat, ih hdiv, UInt8.toNat_ofNat']
    omega

theorem leBytes_leNat (bs : Bytes) : leBytes bs.length (leNat bs) = bs := by
  induction bs with
  | nil => rfl
  | cons b bs ih =>
    have hb := b.toNat_lt
    have hlow : UInt8.ofNat (b.toNat + 256 * leNat bs) = b := by
      apply UInt8.toNat.inj
      rw [UInt8.toNat_ofNat']
      omega
    have hhigh : (b.toNat + 256 * leNat bs) / 256 = leNat bs := by omega
    rw [List.length_cons, leBytes, leNat, hlow, hhigh, ih]

theorem two_pow_mul_eight (w : Nat) : 2 ^ (8 * w) = 256 ^ w := by
  rw [pow_mul]
  norm_num

/-- An unsigned word of `w` bytes, least significant byte first. -/
def Codec.leWord (w : Nat) : Codec (BitVec (8 * w)) :=
  (Codec.bytes w).iso (fun v => BitVec.ofNat (8 * w) (leNat v.toList))
    (fun x => ⟨(leBytes w x.toNat).toArray, by simp [length_leBytes]⟩)
    (by
      intro v
      have hlt : leNat v.toList < 2 ^ (8 * w) := by
        have := leNat_lt v.toList
        rwa [v.length_toList, ← two_pow_mul_eight] at this
      apply Vector.toList_inj.mp
      have hv := leBytes_leNat v.toList
      rw [v.length_toList] at hv
      simp only [BitVec.toNat_ofNat, Nat.mod_eq_of_lt hlt, Vector.toList_mk]
      exact hv)
    (by
      intro x
      have hlt : x.toNat < 256 ^ w := by
        rw [← two_pow_mul_eight]
        exact x.isLt
      apply BitVec.eq_of_toNat_eq
      simp only [Vector.toList_mk, leNat_leBytes hlt, BitVec.toNat_ofNat]
      exact Nat.mod_eq_of_lt x.isLt)

end Siip.Lib
