/-
  The proof-of-work algorithm: seals, the difficulty test, `verify` and `mine`.

  Sha3_256 is a parameter, an arbitrary function from byte strings to 32 bytes. SCALE writes a
  `U256` as 32 little-endian bytes, an `H256` as its bytes, and a struct as its fields in order;
  `decode` reads from the front of the slice. The parent block and the pre-runtime digest, which
  neither `verify` nor `mine` reads, are left out.

  `accepts_iff` says which raw seals `verify` accepts: those that begin with the encoding of the
  attempt with some nonce, whatever follows it. The results about mining, reuse and malleability
  are read off it.
-/
import Siip.Lib.Codec

namespace Siip.Consensus

open Lib

abbrev U256 := BitVec 256
abbrev H256 := Vector UInt8 32

/-- `Vec<u8>`, the seal as it stands in a block header -/
abbrev RawSeal := Bytes

/-- `sc_consensus_pow::Error`, the one variant that this code builds -/
inductive Error where
  | environment (msg : String)
  deriving DecidableEq

/-! ## The difficulty test -/

/-- The value of big-endian bytes. -/
def beNat (bs : Bytes) : Nat := bs.foldl (fun n b => 256 * n + b.toNat) 0

/-- `U256::from(&[u8])` -/
def U256.ofBytes (bs : Bytes) : U256 := BitVec.ofNat 256 (beNat bs)

def U256.overflowingMul (a b : U256) : U256 × Bool :=
  (a * b, decide (2 ^ 256 ≤ a.toNat * b.toNat))

def hashMeetsDifficulty (hash : H256) (difficulty : U256) : Bool :=
  let numHash := U256.ofBytes hash.toList
  let (_, overflowed) := U256.overflowingMul numHash difficulty
  !overflowed

/-! ## Seals and attempts -/

structure Seal where
  difficulty : U256
  work : H256
  nonce : H256
  deriving DecidableEq

structure Compute where
  difficulty : U256
  preHash : H256
  nonce : H256
  deriving DecidableEq

/-- The bytes of a struct of a number and two hashes. -/
def fields : Codec (U256 × H256 × H256) :=
  (Codec.leWord 32).prod ((Codec.bytes 32).prod (Codec.bytes 32))

def Seal.codec : Codec Seal :=
  fields.iso (fun f => ⟨f.1, f.2.1, f.2.2⟩) (fun s => (s.difficulty, s.work, s.nonce))
    (fun _ => rfl) (fun _ => rfl)

def Compute.codec : Codec Compute :=
  fields.iso (fun f => ⟨f.1, f.2.1, f.2.2⟩) (fun c => (c.difficulty, c.preHash, c.nonce))
    (fun _ => rfl) (fun _ => rfl)

def Seal.encode (s : Seal) : RawSeal := Seal.codec.encode s

/-- `Seal::decode(&mut &seal[..])`: what is left of the slice is dropped. -/
def Seal.decode (raw : RawSeal) : Option Seal := (Seal.codec.decode raw).map Prod.fst

def Compute.encode (c : Compute) : Bytes := Compute.codec.encode c

theorem Seal.length_encode (s : Seal) : s.encode.length = 96 := Seal.codec.length_encode s

theorem Compute.length_encode (c : Compute) : c.encode.length = 96 := Compute.codec.length_encode c

theorem Compute.encode_injective : Function.Injective Compute.encode :=
  Compute.codec.encode_injective

theorem Seal.decode_append (s : Seal) (t : Bytes) : Seal.decode (s.encode ++ t) = some s := by
  rw [Seal.decode, Seal.encode, Seal.codec.decode_encode, Option.map_some]

theorem Seal.decode_eq_some_iff {raw : RawSeal} {s : Seal} :
    Seal.decode raw = some s ↔ ∃ t, raw = s.encode ++ t := by
  constructor
  · intro h
    obtain ⟨⟨s', t⟩, hdec, rfl⟩ := Option.map_eq_some_iff.mp h
    exact ⟨t, Seal.codec.encode_of_decode hdec⟩
  · intro h
    obtain ⟨t, rfl⟩ := h
    exact Seal.decode_append s t

variable (sha3 : Bytes → H256)

def Compute.compute (c : Compute) : Seal :=
  let work := sha3 c.encode
  { nonce := c.nonce
    difficulty := c.difficulty
    work }

/-- The seal of one try: both `mine` and `verify` compute it. -/
def attempt (preHash : H256) (difficulty : U256) (nonce : H256) : Seal :=
  Compute.compute sha3 { difficulty, preHash, nonce }

/-! ## Verification -/

def MinimalSha3Algorithm.difficulty : Except Error U256 := .ok 1000

/-- `fetched` is the answer of the runtime API, an error as it prints. -/
def Sha3Algorithm.difficulty (fetched : Except String U256) : Except Error U256 :=
  fetched.mapError fun err => .environment ("Fetching difficulty from runtime failed: " ++ err)

/-- The body that the two algorithms share. -/
def verifySeal (preHash : H256) (rawSeal : RawSeal) (difficulty : U256) : Except Error Bool :=
  match Seal.decode rawSeal with
  | none => .ok false
  | some s =>
    if !hashMeetsDifficulty s.work difficulty then .ok false
    else
      let compute : Compute := { difficulty, preHash, nonce := s.nonce }
      if compute.compute sha3 ≠ s then .ok false else .ok true

def MinimalSha3Algorithm.verify : H256 → RawSeal → U256 → Except Error Bool := verifySeal sha3

def Sha3Algorithm.verify : H256 → RawSeal → U256 → Except Error Bool := verifySeal sha3

/-- The raw seals that `verify` accepts: an attempt that meets the difficulty, and any bytes
    after it. -/
theorem accepts_iff {preHash : H256} {raw : RawSeal} {difficulty : U256} :
    verifySeal sha3 preHash raw difficulty = .ok true ↔
      ∃ nonce t, raw = (attempt sha3 preHash difficulty nonce).encode ++ t ∧
        hashMeetsDifficulty (attempt sha3 preHash difficulty nonce).work difficulty = true := by
  constructor
  · intro h
    unfold verifySeal at h
    split at h
    · exact absurd h (by simp)
    · rename_i s hdec
      obtain ⟨t, hraw⟩ := Seal.decode_eq_some_iff.mp hdec
      split at h
      · exact absurd h (by simp)
      · rename_i hmeets
        dsimp only at h
        split at h
        · exact absurd h (by simp)
        · rename_i hcomp
          have hseal : attempt sha3 preHash difficulty s.nonce = s := not_not.mp hcomp
          exact ⟨s.nonce, t, by rw [hseal, hraw], by rw [hseal]; simpa using hmeets⟩
  · intro h
    obtain ⟨nonce, t, rfl, hmeets⟩ := h
    have hcomp : Compute.compute sha3
        { difficulty, preHash, nonce := (attempt sha3 preHash difficulty nonce).nonce } =
        attempt sha3 preHash difficulty nonce := rfl
    simp [verifySeal, Seal.decode_append, hmeets, hcomp]

def zeros : H256 := Vector.replicate 32 0

/-- A hash function on which every instance below can be evaluated. -/
def zeroHash : Bytes → H256 := fun _ => zeros

/-- With a constant hash every nonce wins at the difficulty of `MinimalSha3Algorithm`. -/
theorem accepts_zeroHash (preHash nonce : H256) (t : Bytes) :
    verifySeal zeroHash preHash ((attempt zeroHash preHash 1000 nonce).encode ++ t) 1000
      = .ok true := by
  have hmeets : hashMeetsDifficulty zeros 1000 = true := by decide
  exact (accepts_iff zeroHash).mpr ⟨nonce, t, rfl, hmeets⟩

/-! ## Mining -/

/-- The loop of `mine` with `rounds` rounds to go, `i` of them done: `nonces i` is the next value
    that `H256::random_using` draws. -/
def mineLoop (nonces : Nat → H256) (preHash : H256) (difficulty : U256) (i : Nat) :
    Nat → Option RawSeal
  | 0 => none
  | rounds + 1 =>
    let nonce := nonces i
    let compute : Compute := { difficulty, preHash, nonce }
    let s := compute.compute sha3
    if hashMeetsDifficulty s.work difficulty then some s.encode
    else mineLoop nonces preHash difficulty (i + 1) rounds

/-- `rng` is what `SmallRng::from_rng` gives: a source of nonces, or an error as it prints. -/
def SiipPowAlgorithm.mine (rng : Except String (Nat → H256)) (preHash : H256) (difficulty : U256)
    (round : UInt32) : Except Error (Option RawSeal) :=
  match rng with
  | .error e => .error (.environment ("Initialize RNG failed for mining: " ++ e))
  | .ok nonces => .ok (mineLoop sha3 nonces preHash difficulty 0 round.toNat)

/-- The work of the `i`-th nonce meets the difficulty. -/
def Wins (nonces : Nat → H256) (preHash : H256) (difficulty : U256) (i : Nat) : Prop :=
  hashMeetsDifficulty (attempt sha3 preHash difficulty (nonces i)).work difficulty = true

instance (nonces : Nat → H256) (preHash : H256) (difficulty : U256) (i : Nat) :
    Decidable (Wins sha3 nonces preHash difficulty i) :=
  inferInstanceAs (Decidable (_ = true))

/-- The loop is a search of its range of rounds. -/
theorem mineLoop_eq_find? (nonces : Nat → H256) (preHash : H256) (difficulty : U256)
    (i rounds : Nat) :
    mineLoop sha3 nonces preHash difficulty i rounds =
      ((List.range' i rounds).find? (fun j => Wins sha3 nonces preHash difficulty j)).map
        (fun j => (attempt sha3 preHash difficulty (nonces j)).encode) := by
  induction rounds generalizing i with
  | zero => rfl
  | succ rounds ih =>
    rw [mineLoop, List.range'_succ, List.find?_cons]
    by_cases hwin : Wins sha3 nonces preHash difficulty i
    · rw [decide_eq_true hwin]
      exact if_pos hwin
    · rw [decide_eq_false hwin]
      exact (if_neg hwin).trans (ih (i + 1))

theorem mineLoop_eq_some_iff {nonces : Nat → H256} {preHash : H256} {difficulty : U256}
    {rounds : Nat} {raw : RawSeal} :
    mineLoop sha3 nonces preHash difficulty 0 rounds = some raw ↔
      ∃ i < rounds, Wins sha3 nonces preHash difficulty i ∧
        (∀ j < i, ¬ Wins sha3 nonces preHash difficulty j) ∧
        raw = (attempt sha3 preHash difficulty (nonces i)).encode := by
  rw [mineLoop_eq_find?, Option.map_eq_some_iff]
  simp only [List.find?_range'_eq_some, decide_eq_true_eq, List.mem_range'_1, zero_add,
    Nat.zero_le, true_and, Bool.not_eq_eq_eq_not, Bool.not_true, decide_eq_false_iff_not,
    true_implies]
  constructor
  · intro h
    obtain ⟨i, ⟨hwin, hi, hfirst⟩, rfl⟩ := h
    exact ⟨i, hi, hwin, hfirst, rfl⟩
  · intro h
    obtain ⟨i, hi, hwin, hfirst, rfl⟩ := h
    exact ⟨i, ⟨hwin, hi, hfirst⟩, rfl⟩

theorem mineLoop_eq_none_iff {nonces : Nat → H256} {preHash : H256} {difficulty : U256}
    {rounds : Nat} :
    mineLoop sha3 nonces preHash difficulty 0 rounds = none ↔
      ∀ i < rounds, ¬ Wins sha3 nonces preHash difficulty i := by
  rw [mineLoop_eq_find?, Option.map_eq_none_iff, List.find?_eq_none]
  simp [List.mem_range'_1]

/-- What was mined is accepted. -/
theorem accepts_of_mineLoop {nonces : Nat → H256} {preHash : H256} {difficulty : U256}
    {rounds : Nat} {raw : RawSeal}
    (h : mineLoop sha3 nonces preHash difficulty 0 rounds = some raw) :
    verifySeal sha3 preHash raw difficulty = .ok true := by
  obtain ⟨i, -, hwin, -, rfl⟩ := (mineLoop_eq_some_iff sha3).mp h
  exact (accepts_iff sha3).mpr ⟨nonces i, [], (List.append_nil _).symm, hwin⟩

/-- `mine` returns the seal of the first winning nonce, `verify` accepts it, and `mine` returns
    nothing exactly when none of the nonces it tried wins. -/
theorem mine_verify (nonces : Nat → H256) (preHash : H256) (difficulty : U256) (round : UInt32) :
    (∀ raw, SiipPowAlgorithm.mine sha3 (.ok nonces) preHash difficulty round = .ok (some raw) →
        MinimalSha3Algorithm.verify sha3 preHash raw difficulty = .ok true ∧
        ∃ i < round.toNat, Wins sha3 nonces preHash difficulty i ∧
          (∀ j < i, ¬ Wins sha3 nonces preHash difficulty j) ∧
          raw = (attempt sha3 preHash difficulty (nonces i)).encode) ∧
      (SiipPowAlgorithm.mine sha3 (.ok nonces) preHash difficulty round = .ok none ↔
        ∀ i < round.toNat, ¬ Wins sha3 nonces preHash difficulty i) := by
  constructor
  · intro raw h
    have hloop : mineLoop sha3 nonces preHash difficulty 0 round.toNat = some raw :=
      Except.ok.inj h
    exact ⟨accepts_of_mineLoop sha3 hloop, (mineLoop_eq_some_iff sha3).mp hloop⟩
  · rw [← mineLoop_eq_none_iff]
    exact ⟨Except.ok.inj, congrArg Except.ok⟩

/-! ## A seal is bound to its pre-hash and difficulty -/

/-- Two inputs that the hash does not tell apart. -/
def Collision (hash : Bytes → H256) (x y : Bytes) : Prop := x ≠ y ∧ hash x = hash y

/-- Encodings of the same length that begin the same raw seal are of the same seal. -/
theorem Seal.eq_of_encode_append {s s' : Seal} {t t' : Bytes}
    (h : s.encode ++ t = s'.encode ++ t') : s = s' := by
  have hdec := Seal.decode_append s t
  rw [h, Seal.decode_append] at hdec
  exact (Option.some.inj hdec).symm

theorem bound_of_accepts {raw : RawSeal} {preHash₁ preHash₂ : H256} {difficulty₁ difficulty₂ : U256}
    (h₁ : verifySeal sha3 preHash₁ raw difficulty₁ = .ok true)
    (h₂ : verifySeal sha3 preHash₂ raw difficulty₂ = .ok true) :
    difficulty₁ = difficulty₂ ∧ (preHash₁ = preHash₂ ∨ ∃ nonce, Collision sha3
      (Compute.encode ⟨difficulty₁, preHash₁, nonce⟩)
      (Compute.encode ⟨difficulty₂, preHash₂, nonce⟩)) := by
  obtain ⟨nonce₁, t₁, hraw₁, -⟩ := (accepts_iff sha3).mp h₁
  obtain ⟨nonce₂, t₂, hraw₂, -⟩ := (accepts_iff sha3).mp h₂
  have hseal := Seal.eq_of_encode_append (hraw₁.symm.trans hraw₂)
  have hdiff : difficulty₁ = difficulty₂ := congrArg Seal.difficulty hseal
  have hnonce : nonce₁ = nonce₂ := congrArg Seal.nonce hseal
  have hwork : sha3 (Compute.encode ⟨difficulty₁, preHash₁, nonce₁⟩) =
      sha3 (Compute.encode ⟨difficulty₂, preHash₂, nonce₂⟩) := congrArg Seal.work hseal
  refine ⟨hdiff, or_iff_not_imp_left.mpr fun hpre => ⟨nonce₁, ?_, hnonce ▸ hwork⟩⟩
  intro henc
  exact hpre (congrArg Compute.preHash (Compute.encode_injective henc))

/-- No raw seal is accepted for two difficulties, nor for two pre-hashes unless the two attempts
    are a collision; so what was mined at one difficulty is refused at every higher one. -/
theorem proof_not_reusable {verify : H256 → RawSeal → U256 → Except Error Bool}
    (hverify : verify = MinimalSha3Algorithm.verify sha3 ∨ verify = Sha3Algorithm.verify sha3) :
    (∀ raw preHash₁ difficulty₁ preHash₂ difficulty₂,
      verify preHash₁ raw difficulty₁ = .ok true → verify preHash₂ raw difficulty₂ = .ok true →
        difficulty₁ = difficulty₂ ∧ (preHash₁ = preHash₂ ∨ ∃ nonce, Collision sha3
          (Compute.encode ⟨difficulty₁, preHash₁, nonce⟩)
          (Compute.encode ⟨difficulty₂, preHash₂, nonce⟩))) ∧
      ∀ nonces preHash difficulty round raw,
        SiipPowAlgorithm.mine sha3 (.ok nonces) preHash difficulty round = .ok (some raw) →
        ∀ preHash' difficulty', difficulty < difficulty' →
          verify preHash' raw difficulty' ≠ .ok true := by
  obtain rfl : verify = verifySeal sha3 := hverify.elim id id
  constructor
  · intro raw preHash₁ difficulty₁ preHash₂ difficulty₂ h₁ h₂
    exact bound_of_accepts sha3 h₁ h₂
  · intro nonces preHash difficulty round raw hmine preHash' difficulty' hlt hacc
    have hmined := accepts_of_mineLoop sha3 (Except.ok.inj hmine)
    obtain ⟨hdiff, -⟩ := bound_of_accepts sha3 hmined hacc
    rw [hdiff] at hlt
    exact BitVec.lt_irrefl _ hlt

/-- `verify` accepts the attempt with a constant hash whatever its pre-hash. -/
theorem proof_not_reusable_zeroHash :
    MinimalSha3Algorithm.verify zeroHash zeros (attempt zeroHash zeros 1000 zeros).encode 1000
        = .ok true ∧
      ∃ nonce, Collision zeroHash (Compute.encode ⟨1000, zeros, nonce⟩)
        (Compute.encode ⟨1000, Vector.replicate 32 1, nonce⟩) := by
  have h₁ := accepts_zeroHash zeros zeros []
  have h₂ := accepts_zeroHash (Vector.replicate 32 1) zeros []
  rw [List.append_nil] at h₁ h₂
  refine ⟨h₁, ?_⟩
  obtain ⟨-, hpre | hcol⟩ :=
    (proof_not_reusable zeroHash (Or.inl rfl)).1 _ zeros 1000 (Vector.replicate 32 1) 1000 h₁ h₂
  · exact absurd hpre (by decide)
  · exact hcol

/-! ## Bytes after the seal -/

/-- A raw seal is the encoding of the seal that it decodes to. -/
def Canonical (raw : RawSeal) : Prop := ∃ s, Seal.decode raw = some s ∧ raw = s.encode

/-- The nonce in a raw seal. -/
def nonceOf (raw : RawSeal) : Option H256 := (Seal.decode raw).map Seal.nonce

theorem canonical_append_iff (s : Seal) (t : Bytes) :
    Canonical (s.encode ++ t) ↔ (s.encode ++ t).length ≤ 96 := by
  have hlen : (s.encode ++ t).length = 96 + t.length := by
    rw [List.length_append, Seal.length_encode]
  rw [hlen]
  constructor
  · intro h
    obtain ⟨s', -, henc⟩ := h
    have := congrArg List.length henc
    rw [hlen, Seal.length_encode] at this
    omega
  · intro h
    obtain rfl : t = [] := List.eq_nil_of_length_eq_zero (by omega)
    exact ⟨s, Seal.decode_append s [], List.append_nil _⟩

/-- An accepted raw seal is canonical exactly when no bytes follow the 96 of the seal; accepted
    ones with one nonce differ exactly in these bytes, which are free. -/
theorem accepted_canonical_iff {verify : H256 → RawSeal → U256 → Except Error Bool}
    (hverify : verify = MinimalSha3Algorithm.verify sha3 ∨ verify = Sha3Algorithm.verify sha3)
    {preHash : H256} {raw : RawSeal} {difficulty : U256}
    (hacc : verify preHash raw difficulty = .ok true) :
    (Canonical raw ↔ raw.length ≤ 96) ∧
      (∀ raw', verify preHash raw' difficulty = .ok true → nonceOf raw' = nonceOf raw →
        (raw' = raw ↔ raw'.drop 96 = raw.drop 96)) ∧
      ∀ t, verify preHash (raw ++ t) difficulty = .ok true := by
  obtain rfl : verify = verifySeal sha3 := hverify.elim id id
  obtain ⟨nonce, t, rfl, hmeets⟩ := (accepts_iff sha3).mp hacc
  refine ⟨canonical_append_iff _ t, ?_, ?_⟩
  · intro raw' hacc' hnonce
    obtain ⟨nonce', t', rfl, -⟩ := (accepts_iff sha3).mp hacc'
    simp only [nonceOf, Seal.decode_append, Option.map_some, Option.some.injEq] at hnonce
    obtain rfl : nonce' = nonce := hnonce
    rw [← Seal.length_encode (attempt sha3 preHash difficulty nonce'), List.drop_left,
      List.drop_left, List.append_cancel_left_eq]
  · intro t'
    exact (accepts_iff sha3).mpr ⟨nonce, t ++ t', List.append_assoc _ _ _, hmeets⟩

theorem accepted_canonical_iff_zeroHash :
    Canonical ((attempt zeroHash zeros 1000 zeros).encode ++ []) ↔
      ((attempt zeroHash zeros 1000 zeros).encode ++ []).length ≤ 96 :=
  (accepted_canonical_iff zeroHash (Or.inl rfl) (accepts_zeroHash zeros zeros [])).1

/-- One byte after a seal: accepted, and not the encoding of the seal in it. -/
theorem extended_not_canonical :
    MinimalSha3Algorithm.verify zeroHash zeros
        ((attempt zeroHash zeros 1000 zeros).encode ++ [0]) 1000 = .ok true ∧
      ¬ Canonical ((attempt zeroHash zeros 1000 zeros).encode ++ [0]) := by
  refine ⟨accepts_zeroHash zeros zeros [0], ?_⟩
  rw [canonical_append_iff, List.length_append, Seal.length_encode]
  decide

end Siip.Consensus
