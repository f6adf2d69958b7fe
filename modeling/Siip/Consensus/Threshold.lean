/-
  The difficulty test as a threshold.

  The product of hash and difficulty does not overflow exactly below the quotient of 2^256 by the
  difficulty. So the accepted hashes are an initial segment of all of them, with as many values as
  this quotient, rounded up (`difficulty_threshold`).
-/
import Mathlib.Algebra.Order.Floor.Div
import Mathlib.Order.Interval.Set.Nat
import Siip.Consensus.Sha3Pow

namespace Siip.Consensus

open Lib

/-! ## The value of a hash -/

theorem beNat_concat (bs : Bytes) (b : UInt8) : beNat (bs ++ [b]) = b.toNat + 256 * beNat bs := by
  rw [beNat, List.foldl_append, Nat.add_comm]
  rfl

/-- Big-endian bytes are the little-endian ones in reverse. -/
theorem beNat_reverse (bs : Bytes) : beNat bs.reverse = leNat bs := by
  induction bs with
  | nil => rfl
  | cons b bs ih => rw [List.reverse_cons, beNat_concat, ih, leNat]

/-- The value of the 256-bit number that `U256::from` makes of the hash. -/
def value (hash : H256) : Nat := beNat hash.toList

theorem value_eq (hash : H256) : value hash = leNat hash.toList.reverse := by
  rw [← beNat_reverse, List.reverse_reverse]
  rfl

theorem value_lt (hash : H256) : value hash < 2 ^ 256 := by
  have hlt := leNat_lt hash.toList.reverse
  rw [List.length_reverse, Vector.length_toList] at hlt
  rw [value_eq, two_pow_mul_eight 32]
  exact hlt

theorem value_injective : Function.Injective value := by
  intro hash hash' h
  have hlen : hash.toList.reverse.length = hash'.toList.reverse.length := by simp
  have hbytes := leBytes_leNat hash.toList.reverse
  rw [← value_eq, h, value_eq, hlen, leBytes_leNat] at hbytes
  exact Vector.toList_inj.mp (List.reverse_injective hbytes.symm)

/-- Every 256-bit number is the value of a hash. -/
theorem exists_value {n : Nat} (hn : n < 2 ^ 256) : ∃ hash, value hash = n := by
  refine ⟨⟨(leBytes 32 n).reverse.toArray, by simp [length_leBytes]⟩, ?_⟩
  rw [value_eq, Vector.toList_mk, List.reverse_reverse]
  exact leNat_leBytes (by rwa [← two_pow_mul_eight])

theorem toNat_ofBytes (hash : H256) : (U256.ofBytes hash.toList).toNat = value hash := by
  rw [U256.ofBytes, BitVec.toNat_ofNat]
  exact Nat.mod_eq_of_lt (value_lt hash)

/-! ## The threshold -/

theorem meets_iff (hash : H256) (difficulty : U256) :
    hashMeetsDifficulty hash difficulty = true ↔ value hash * difficulty.toNat < 2 ^ 256 := by
  unfold hashMeetsDifficulty U256.overflowingMul
  simp only [toNat_ofBytes, Bool.not_eq_true', decide_eq_false_iff_not, Nat.not_le]

section

variable {difficulty : U256} (hd : 1 ≤ difficulty.toNat)

include hd

theorem meets_iff_le (hash : H256) :
    hashMeetsDifficulty hash difficulty = true ↔
      value hash ≤ (2 ^ 256 - 1) / difficulty.toNat := by
  rw [meets_iff, Nat.le_div_iff_mul_le hd]
  omega

theorem meets_iff_lt (hash : H256) :
    hashMeetsDifficulty hash difficulty = true ↔ value hash < 2 ^ 256 ⌈/⌉ difficulty.toNat := by
  rw [meets_iff, ← Nat.not_le, ← Nat.not_le, ceilDiv_le_iff_le_mul hd, Nat.mul_comm]

/-- The accepted hashes are those of the smallest values. -/
theorem bijOn_value :
    Set.BijOn value {hash | hashMeetsDifficulty hash difficulty = true}
      (Set.Iio (2 ^ 256 ⌈/⌉ difficulty.toNat)) := by
  refine ⟨fun hash h => (meets_iff_lt hd hash).mp h, value_injective.injOn, fun n hn => ?_⟩
  have hle : 2 ^ 256 ⌈/⌉ difficulty.toNat ≤ 2 ^ 256 :=
    (ceilDiv_le_iff_le_mul hd).mpr (Nat.le_mul_of_pos_left _ hd)
  obtain ⟨hash, rfl⟩ := exists_value (Nat.lt_of_lt_of_le hn hle)
  exact ⟨hash, (meets_iff_lt hd hash).mpr hn, rfl⟩

theorem ncard_accepted :
    {hash | hashMeetsDifficulty hash difficulty = true}.ncard = 2 ^ 256 ⌈/⌉ difficulty.toNat := by
  have hbij := bijOn_value hd
  rw [← hbij.injOn.ncard_image, hbij.image_eq, Set.ncard_Iio_nat]

/-- One hash in `difficulty` is accepted: no fewer, and more by less than one. -/
theorem ncard_mul_difficulty :
    2 ^ 256 ≤ difficulty.toNat * (2 ^ 256 ⌈/⌉ difficulty.toNat) ∧
      difficulty.toNat * (2 ^ 256 ⌈/⌉ difficulty.toNat) < 2 ^ 256 + difficulty.toNat := by
  refine ⟨(ceilDiv_le_iff_le_mul hd).mp (Nat.le_refl _), ?_⟩
  have hle := Nat.mul_div_le (2 ^ 256 + difficulty.toNat - 1) difficulty.toNat
  rw [Nat.ceilDiv_eq_add_pred_div]
  omega

omit hd in
theorem meets_mono {hash hash' : H256} {difficulty' : U256} (hvalue : value hash' ≤ value hash)
    (hle : difficulty' ≤ difficulty) (h : hashMeetsDifficulty hash difficulty = true) :
    hashMeetsDifficulty hash' difficulty' = true := by
  rw [meets_iff] at h ⊢
  exact Nat.lt_of_le_of_lt (Nat.mul_le_mul hvalue hle) h

end

/-- At every difficulty but 0 the accepted hashes are those with a value up to the quotient of the
    greatest word by the difficulty; they are as many as 2^256 divided by it, rounded up; and a
    smaller value is accepted, and at a smaller difficulty. -/
theorem difficulty_threshold (difficulty : U256) (hd : 1 ≤ difficulty.toNat) :
    (∀ hash, hashMeetsDifficulty hash difficulty = true ↔
        value hash ≤ (2 ^ 256 - 1) / difficulty.toNat) ∧
      Set.BijOn value {hash | hashMeetsDifficulty hash difficulty = true}
        (Set.Iio (2 ^ 256 ⌈/⌉ difficulty.toNat)) ∧
      {hash | hashMeetsDifficulty hash difficulty = true}.ncard =
        2 ^ 256 ⌈/⌉ difficulty.toNat ∧
      (2 ^ 256 ≤ difficulty.toNat * (2 ^ 256 ⌈/⌉ difficulty.toNat) ∧
        difficulty.toNat * (2 ^ 256 ⌈/⌉ difficulty.toNat) < 2 ^ 256 + difficulty.toNat) ∧
      ∀ hash hash' difficulty', value hash' ≤ value hash → difficulty' ≤ difficulty →
        hashMeetsDifficulty hash difficulty = true →
          hashMeetsDifficulty hash' difficulty' = true :=
  ⟨meets_iff_le hd, bijOn_value hd, ncard_accepted hd, ncard_mul_difficulty hd,
    fun _ _ _ => meets_mono⟩

/-- At the difficulty of `MinimalSha3Algorithm`, which does not divide 2^256. -/
theorem difficulty_threshold_1000 :
    {hash | hashMeetsDifficulty hash 1000 = true}.ncard = 2 ^ 256 / 1000 + 1 := by
  obtain ⟨-, -, hcount, -⟩ := difficulty_threshold 1000 (by decide)
  rw [hcount]
  decide

end Siip.Consensus
