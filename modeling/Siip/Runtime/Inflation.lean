/-
  The inflationary reward of the runtime, and the supply it leads to.

  At the end of each block `on_finalize` rewards the miner, if there is one, with a thousandth of
  what is missing to `MAX_TOKENS`. Balances are `u128`; the subtraction is checked here, so that
  an underflow would show as a run without a result.

  With r tokens missing, one reward leaves r - r / 1000 missing: at least 999 thousandths of r,
  and at most 999 thousandths of r beyond the last 999 units (`remaining_bounds`). The bounds on
  whole runs are the powers of these.
-/
import Siip.Lib.Run
import Mathlib.Algebra.Order.Ring.Nat
import Mathlib.Tactic.Ring

namespace Siip.Runtime

open Lib

abbrev Balance := BitVec 128

/-- `MAX_TOKENS`, of which 1_000_000_000_000 are one unit. -/
def maxTokens : Balance := 1000000000000000000

/-- The balances as the reward sees them. `deposit_creating` raises the total issuance by the
    given amount, or not at all when it cannot create the account. -/
structure Currency (B A : Type) where
  totalIssuance : B → Balance
  depositCreating : A → Balance → B → B
  deposit_law : ∀ who amount b,
    (totalIssuance (depositCreating who amount b)).toNat =
        (totalIssuance b).toNat + amount.toNat ∨
      totalIssuance (depositCreating who amount b) = totalIssuance b

variable {B A : Type}

/-- `a - b`, which must not underflow. -/
def checkedSub (a b : Balance) : Option Balance := if b ≤ a then some (a - b) else none

def geometricReward (totalIssuance : Balance) : Option Balance :=
  (checkedSub maxTokens totalIssuance).map (· / 1000)

/-- `inflationary_reward`, for the miner that `get_block_miner` finds. -/
def inflationaryReward (cur : Currency B A) (miner : Option A) (b : B) : Option B :=
  match miner with
  | none => some b
  | some minerId =>
    let totalIssuance := cur.totalIssuance b
    if totalIssuance < maxTokens then
      (geometricReward (cur.totalIssuance b)).map fun reward =>
        cur.depositCreating minerId reward b
    else some b

/-- A block: what it executes before it is finalized may burn tokens. -/
structure Block (cur : Currency B A) where
  execute : B → B
  burns : ∀ b, cur.totalIssuance (execute b) ≤ cur.totalIssuance b
  miner : Option A

variable {cur : Currency B A}

/-- One block. There is no state after an underflow. -/
def step (b : Option B) (block : Block cur) : Option B :=
  b.bind fun b => inflationaryReward cur block.miner (block.execute b)

/-! ## One reward -/

theorem checkedSub_of_le {a b : Balance} (h : b ≤ a) : checkedSub a b = some (a - b) := by
  unfold checkedSub
  rw [if_pos h]

/-- What is missing to the cap. -/
def remaining (cur : Currency B A) (b : B) : Nat := maxTokens.toNat - (cur.totalIssuance b).toNat

theorem geometricReward_of_lt {b : B} (h : cur.totalIssuance b < maxTokens) :
    ∃ reward, geometricReward (cur.totalIssuance b) = some reward ∧
      reward.toNat = remaining cur b / 1000 := by
  have hle : cur.totalIssuance b ≤ maxTokens := BitVec.le_of_lt h
  refine ⟨(maxTokens - cur.totalIssuance b) / 1000, ?_, ?_⟩
  · unfold geometricReward
    rw [checkedSub_of_le hle, Option.map_some]
  · rw [BitVec.toNat_udiv, BitVec.toNat_sub_of_le hle]
    rfl

theorem lt_of_remaining {b : B} (h : 999 ≤ remaining cur b) :
    cur.totalIssuance b < maxTokens := by
  show (cur.totalIssuance b).toNat < maxTokens.toNat
  unfold remaining at h
  omega

/-- What `inflationary_reward` can do: nothing, or a deposit that leaves the issuance as it is or
    raises it by a thousandth of what is missing. It never underflows. -/
theorem inflationaryReward_spec (cur : Currency B A) (miner : Option A) (b : B) :
    ∃ b', inflationaryReward cur miner b = some b' ∧
      (cur.totalIssuance b' = cur.totalIssuance b ∨
        (cur.totalIssuance b').toNat =
          (cur.totalIssuance b).toNat + remaining cur b / 1000) := by
  unfold inflationaryReward
  cases miner with
  | none => exact ⟨b, rfl, Or.inl rfl⟩
  | some minerId =>
    dsimp only
    by_cases h : cur.totalIssuance b < maxTokens
    · obtain ⟨reward, hreward, hval⟩ := geometricReward_of_lt h
      rw [if_pos h, hreward]
      refine ⟨cur.depositCreating minerId reward b, rfl, ?_⟩
      rw [← hval]
      exact (cur.deposit_law minerId reward b).symm
    · rw [if_neg h]
      exact ⟨b, rfl, Or.inl rfl⟩

/-! ## The cap -/

/-- The issuance of an existing state is at most the bound. -/
def CappedBy (cur : Currency B A) (bound : Nat) (b : Option B) : Prop :=
  ∃ b', b = some b' ∧ (cur.totalIssuance b').toNat ≤ bound

theorem cappedBy_step {bound : Nat} (hbound : maxTokens.toNat ≤ bound) (b : Option B)
    (block : Block cur) (h : CappedBy cur bound b) : CappedBy cur bound (step b block) := by
  obtain ⟨b, rfl, hle⟩ := h
  have hburn : (cur.totalIssuance (block.execute b)).toNat ≤ (cur.totalIssuance b).toNat :=
    block.burns b
  obtain ⟨b', hreward, hissuance⟩ := inflationaryReward_spec cur block.miner (block.execute b)
  refine ⟨b', hreward, ?_⟩
  rcases hissuance with hsame | hraised
  · rw [hsame]
    omega
  · unfold remaining at hraised
    omega

/-! ## Geometric growth -/

/-- The block burns nothing, and its reward is deposited. -/
def Rewards (cur : Currency B A) (b : B) (block : Block cur) : Prop :=
  cur.totalIssuance (block.execute b) = cur.totalIssuance b ∧
    ∃ minerId, block.miner = some minerId ∧
      ∀ reward, geometricReward (cur.totalIssuance b) = some reward →
        (cur.totalIssuance (cur.depositCreating minerId reward (block.execute b))).toNat =
          (cur.totalIssuance b).toNat + reward.toNat

theorem remaining_step {b : B} {block : Block cur} (h : Rewards cur b block)
    (hr : 999 ≤ remaining cur b) :
    ∃ b', step (some b) block = some b' ∧
      remaining cur b' = remaining cur b - remaining cur b / 1000 := by
  obtain ⟨hburn, minerId, hminer, hdeposit⟩ := h
  have hlt := lt_of_remaining hr
  obtain ⟨reward, hreward, hval⟩ := geometricReward_of_lt hlt
  refine ⟨cur.depositCreating minerId reward (block.execute b), ?_, ?_⟩
  · unfold step inflationaryReward
    rw [Option.bind_some, hminer]
    dsimp only
    rw [hburn, if_pos hlt, hreward, Option.map_some]
  · have hraised := hdeposit reward hreward
    unfold remaining at *
    omega

/-- One reward in terms of what is missing, before and after. -/
theorem remaining_bounds {r r' : Nat} (h : r' = r - r / 1000) (hr : 999 ≤ r) :
    999 ≤ r' ∧ r' ≤ r ∧ 999 * r ≤ 1000 * r' ∧ 1000 * (r' - 999) ≤ 999 * (r - 999) := by
  omega

/-- The same over `n` rewards. -/
structure Decay (n r r' : Nat) : Prop where
  above : 999 ≤ r'
  le : r' ≤ r
  lower : 999 ^ n * r ≤ 1000 ^ n * r'
  upper : 1000 ^ n * (r' - 999) ≤ 999 ^ n * (r - 999)

theorem decay_zero {r : Nat} (h : 999 ≤ r) : Decay 0 r r :=
  ⟨h, Nat.le_refl r, Nat.le_refl _, Nat.le_refl _⟩

theorem Decay.succ {n r r' r'' : Nat} (hstep : r' = r - r / 1000) (hr : 999 ≤ r)
    (h : Decay n r' r'') : Decay (n + 1) r r'' := by
  obtain ⟨-, hle, hlower, hupper⟩ := remaining_bounds hstep hr
  refine ⟨h.above, h.le.trans hle, ?_, ?_⟩
  · calc 999 ^ (n + 1) * r = 999 ^ n * (999 * r) := by ring
      _ ≤ 999 ^ n * (1000 * r') := Nat.mul_le_mul_left _ hlower
      _ = 1000 * (999 ^ n * r') := by ring
      _ ≤ 1000 * (1000 ^ n * r'') := Nat.mul_le_mul_left _ h.lower
      _ = 1000 ^ (n + 1) * r'' := by ring
  · calc 1000 ^ (n + 1) * (r'' - 999) = 1000 * (1000 ^ n * (r'' - 999)) := by ring
      _ ≤ 1000 * (999 ^ n * (r' - 999)) := Nat.mul_le_mul_left _ h.upper
      _ = 999 ^ n * (1000 * (r' - 999)) := by ring
      _ ≤ 999 ^ n * (999 * (r - 999)) := Nat.mul_le_mul_left _ hupper
      _ = 999 ^ (n + 1) * (r - 999) := by ring

/-- A run in which every block rewards its miner. -/
def Steady (cur : Currency B A) : Option B → List (Block cur) → Prop :=
  EachStep step fun b block => ∀ b', b = some b' → Rewards cur b' block

theorem decay_run {b : B} {blocks : List (Block cur)} (hr : 999 ≤ remaining cur b)
    (h : Steady cur (some b) blocks) :
    ∃ b', run step (some b) blocks = some b' ∧
      Decay blocks.length (remaining cur b) (remaining cur b') := by
  induction blocks generalizing b with
  | nil => exact ⟨b, rfl, decay_zero hr⟩
  | cons block blocks ih =>
    obtain ⟨hblock, hrest⟩ := h
    obtain ⟨b', hstep, hremaining⟩ := remaining_step (hblock b rfl) hr
    rw [hstep] at hrest
    obtain ⟨b'', hrun, hdecay⟩ := ih (remaining_bounds hremaining hr).1 hrest
    refine ⟨b'', ?_, hdecay.succ hremaining hr⟩
    rw [run_cons, hstep, hrun]

/-- The reward that the next block computes. -/
def nextReward (cur : Currency B A) (b : Option B) : Option Balance :=
  b.bind fun b => geometricReward (cur.totalIssuance b)

theorem nextReward_le {b b' : B} (hr : 999 ≤ remaining cur b')
    (hle : remaining cur b' ≤ remaining cur b) :
    ∃ reward reward', nextReward cur (some b) = some reward ∧
      nextReward cur (some b') = some reward' ∧ reward' ≤ reward := by
  obtain ⟨reward, hreward, hval⟩ := geometricReward_of_lt (lt_of_remaining (hr.trans hle))
  obtain ⟨reward', hreward', hval'⟩ := geometricReward_of_lt (lt_of_remaining hr)
  refine ⟨reward, reward', hreward, hreward', ?_⟩
  show reward'.toNat ≤ reward.toNat
  rw [hval, hval']
  exact Nat.div_le_div_right hle

/-- Later rewards are not higher. -/
theorem nextReward_run {b : B} {earlier later : List (Block cur)} (hr : 999 ≤ remaining cur b)
    (h : Steady cur (some b) (earlier ++ later)) :
    ∃ reward reward', nextReward cur (run step (some b) earlier) = some reward ∧
      nextReward cur (run step (some b) (earlier ++ later)) = some reward' ∧
      reward' ≤ reward := by
  obtain ⟨hearlier, hlater⟩ := eachStep_append.mp h
  obtain ⟨b₁, hrun₁, hdecay₁⟩ := decay_run hr hearlier
  rw [hrun₁] at hlater
  obtain ⟨b₂, hrun₂, hdecay₂⟩ := decay_run hdecay₁.above hlater
  rw [run_append, hrun₁, hrun₂]
  exact nextReward_le hdecay₂.above hdecay₂.le

/-- No run underflows or exceeds the cap, or the initial issuance where that is higher. Where
    nothing is burned and every reward is deposited, what is missing to the cap shrinks
    geometrically, never below 999, and the rewards never increase from one block to a later. -/
theorem supply_capped (cur : Currency B A) (b : B) (blocks : List (Block cur)) :
    (∃ b', run step (some b) blocks = some b' ∧
      (cur.totalIssuance b').toNat ≤ max maxTokens.toNat (cur.totalIssuance b).toNat) ∧
    (999 ≤ remaining cur b → Steady cur (some b) blocks →
      (∃ b', run step (some b) blocks = some b' ∧
        999 ^ blocks.length * remaining cur b ≤ 1000 ^ blocks.length * remaining cur b' ∧
        1000 ^ blocks.length * (remaining cur b' - 999) ≤
          999 ^ blocks.length * (remaining cur b - 999) ∧
        999 ≤ remaining cur b' ∧ cur.totalIssuance b' < maxTokens) ∧
      ∀ n m, n ≤ m → ∃ reward reward',
        nextReward cur (run step (some b) (blocks.take n)) = some reward ∧
        nextReward cur (run step (some b) (blocks.take m)) = some reward' ∧
        reward' ≤ reward) := by
  refine ⟨?_, fun hr hsteady => ⟨?_, fun n m hnm => ?_⟩⟩
  · have hstart : CappedBy cur (max maxTokens.toNat (cur.totalIssuance b).toNat) (some b) :=
      ⟨b, rfl, Nat.le_max_right _ _⟩
    exact run_invariant (cappedBy_step (Nat.le_max_left _ _)) hstart blocks
  · obtain ⟨b', hrun, hdecay⟩ := decay_run hr hsteady
    exact ⟨b', hrun, hdecay.lower, hdecay.upper, hdecay.above, lt_of_remaining hdecay.above⟩
  · have hcut : blocks.take n ++ (blocks.take m).drop n = blocks.take m := by
      have hn : (blocks.take m).take n = blocks.take n := by
        rw [List.take_take, Nat.min_eq_left hnm]
      rw [← hn, List.take_append_drop]
    have hprefix : Steady cur (some b) (blocks.take m) := by
      rw [← List.take_append_drop m blocks] at hsteady
      exact (eachStep_append.mp hsteady).1
    rw [← hcut] at hprefix ⊢
    exact nextReward_run hr hprefix

/-- Balances that are nothing but the total issuance. -/
def issuanceOnly : Currency Balance Unit where
  totalIssuance b := b
  depositCreating _ amount b := if b.toNat + amount.toNat < 2 ^ 128 then b + amount else b
  deposit_law _ amount b := by
    split
    · rename_i h
      left
      rw [BitVec.toNat_add, Nat.mod_eq_of_lt h]
    · exact Or.inr rfl

/-- A block of which no part touches the balances but the reward. -/
def rewardOnly : Block issuanceOnly := ⟨id, fun b => BitVec.le_refl b, some ()⟩

example : run step (some 0) [rewardOnly] = some 1000000000000000 := by decide

theorem rewards_rewardOnly {b : Balance} (hlt : b < maxTokens) :
    Rewards issuanceOnly b rewardOnly := by
  refine ⟨rfl, (), rfl, fun reward hreward => ?_⟩
  obtain ⟨reward', hreward', hval⟩ :
      ∃ reward', geometricReward (issuanceOnly.totalIssuance b) = some reward' ∧
        reward'.toNat = remaining issuanceOnly b / 1000 := geometricReward_of_lt hlt
  obtain rfl : reward' = reward := Option.some.inj (hreward'.symm.trans hreward)
  have hmissing : reward'.toNat ≤ maxTokens.toNat := by
    rw [hval, remaining]
    omega
  have hb : b.toNat < maxTokens.toNat := hlt
  have hmax : maxTokens.toNat = 1000000000000000000 := rfl
  have hfits : b.toNat + reward'.toNat < 2 ^ 128 := by omega
  show (if b.toNat + reward'.toNat < 2 ^ 128 then b + reward' else b).toNat =
    b.toNat + reward'.toNat
  rw [if_pos hfits, BitVec.toNat_add, Nat.mod_eq_of_lt hfits]

/-- Two blocks with their rewards, from no tokens at all. -/
theorem supply_capped_twice :
    run step (some 0) [rewardOnly, rewardOnly] = some 1999000000000000 ∧
      999 ^ 2 * remaining issuanceOnly 0 ≤ 1000 ^ 2 * remaining issuanceOnly 1999000000000000 ∧
      1000 ^ 2 * (remaining issuanceOnly 1999000000000000 - 999) ≤
        999 ^ 2 * (remaining issuanceOnly 0 - 999) ∧
      ∃ reward reward', nextReward issuanceOnly (some 1000000000000000) = some reward ∧
        nextReward issuanceOnly (some 1999000000000000) = some reward' ∧ reward' ≤ reward := by
  have hone : run step (some 0) [rewardOnly] = some 1000000000000000 := by decide
  have htwo : run step (some 0) [rewardOnly, rewardOnly] = some 1999000000000000 := by decide
  have hsteady : Steady issuanceOnly (some 0) [rewardOnly, rewardOnly] := by
    refine ⟨?_, ?_, trivial⟩
    · rintro b' ⟨⟩
      exact rewards_rewardOnly (by decide)
    · rintro b' hb'
      obtain rfl : 1000000000000000 = b' := Option.some.inj (hone.symm.trans hb')
      exact rewards_rewardOnly (by decide)
  obtain ⟨⟨b', hrun, hlower, hupper, -⟩, hfalls⟩ :=
    (supply_capped issuanceOnly 0 [rewardOnly, rewardOnly]).2 (by decide) hsteady
  obtain rfl : 1999000000000000 = b' := Option.some.inj (htwo.symm.trans hrun)
  have hrewards := hfalls 1 2 (by decide)
  simp only [List.take, hone, htwo] at hrewards
  exact ⟨htwo, hlower, hupper, hrewards⟩

end Siip.Runtime
