/-
  Who is paid for a block: `reward_miner.rs`, and the reward at the end of the block.

  The miner is the account in the first pre-runtime item of the PoW engine that can be decoded. It
  is looked up anew for every fee and for the reward, in a digest that grows; since items are only
  appended, it stays the same (`getBlockMiner_append`). Every amount reaches it in full, provided
  that its account exists or that the first amount can create it (`block_credited`): an amount
  below the existential deposit creates no account and is lost.
-/
import Siip.Lib.Bytes
import Siip.Runtime.Inflation

namespace Siip.Runtime

open Lib

/-! ## The digest -/

/-- Items of the digest: only pre-runtime items are told apart. -/
inductive DigestItem where
  | preRuntime (id data : Bytes)
  | other (data : Bytes)
  deriving DecidableEq

def DigestItem.asPreRuntime : DigestItem → Option (Bytes × Bytes)
  | preRuntime id data => some (id, data)
  | other _ => none

/-- `POW_ENGINE_ID` -/
def powEngineId : Bytes := asBytes "pow_"

variable {A B : Type}

/-- `get_block_miner`, with the decoder of account ids. -/
def getBlockMiner (decode : Bytes → Option A) (logs : List DigestItem) : Option A :=
  ((logs.filterMap DigestItem.asPreRuntime).filterMap fun (id, data) =>
    if id = powEngineId then decode data else none).head?

/-! ## Balances -/

/-- One account has `amount` more, the others what they had. -/
structure Credits (free : B → A → Nat) (who : A) (amount : Nat) (b b' : B) : Prop where
  credited : free b' who = free b who + amount
  others : ∀ other, other ≠ who → free b' other = free b other

/-- The balances as fees and rewards see them. A fee on its way has been withdrawn and is still
    part of the total issuance. Both ways of crediting credit the whole amount to an account that
    exists, or to a new one when it reaches the existential deposit. -/
structure Ledger (B A : Type) extends Currency B A where
  free : B → A → Nat
  alive : B → A → Prop
  existentialDeposit : Nat
  resolveCreating : A → Balance → B → B
  dropImbalance : Balance → B → B
  resolve_law : ∀ who amount b, amount ≠ 0 →
    alive b who ∨ existentialDeposit ≤ amount.toNat →
    Credits free who amount.toNat b (resolveCreating who amount b) ∧
      alive (resolveCreating who amount b) who ∧
      totalIssuance (resolveCreating who amount b) = totalIssuance b
  deposit_credits : ∀ who amount b, amount ≠ 0 →
    alive b who ∨ existentialDeposit ≤ amount.toNat →
    (totalIssuance b).toNat + amount.toNat < 2 ^ 128 →
    Credits free who amount.toNat b (depositCreating who amount b) ∧
      (totalIssuance (depositCreating who amount b)).toNat =
        (totalIssuance b).toNat + amount.toNat
  deposit_zero : ∀ who b, depositCreating who 0 b = b

/-! ## A block -/

structure Execution (B : Type) where
  digest : List DigestItem
  balances : B

inductive Action where
  | depositLog (item : DigestItem)
  | fee (amount : Balance)

/-- The fee that an action brings. -/
def Action.amount : Action → Balance
  | depositLog _ => 0
  | fee amount => amount

section

variable (cur : Ledger B A) (decode : Bytes → Option A)

/-- `RewardMiner::on_nonzero_unbalanced`: without a miner the amount is dropped. -/
def onNonzeroUnbalanced (amount : Balance) (s : Execution B) : Execution B :=
  match getBlockMiner decode s.digest with
  | some author => { s with balances := cur.resolveCreating author amount s.balances }
  | none => { s with balances := cur.dropImbalance amount s.balances }

/-- `OnUnbalanced::on_unbalanced` -/
def onUnbalanced (amount : Balance) (s : Execution B) : Execution B :=
  if amount = 0 then s else onNonzeroUnbalanced cur decode amount s

def act (s : Execution B) : Action → Execution B
  | .depositLog item => { s with digest := s.digest ++ [item] }
  | .fee amount => onUnbalanced cur decode amount s

/-- `on_finalize`: the balances after the block. -/
def finalize (s : Execution B) : Option B :=
  inflationaryReward cur.toCurrency (getBlockMiner decode s.digest) s.balances

end

/-! ## The miner of a growing digest -/

variable {cur : Ledger B A} {decode : Bytes → Option A}

/-- The item is none of the PoW engine, or it cannot be decoded. -/
def Skipped (decode : Bytes → Option A) (item : DigestItem) : Prop :=
  ∀ data, item = .preRuntime powEngineId data → decode data = none

theorem getBlockMiner_cons_of_skipped {item : DigestItem} (h : Skipped decode item)
    (logs : List DigestItem) : getBlockMiner decode (item :: logs) = getBlockMiner decode logs := by
  cases item with
  | other data => rfl
  | preRuntime id data =>
    by_cases hid : id = powEngineId
    · subst hid
      simp [getBlockMiner, DigestItem.asPreRuntime, h data rfl]
    · simp [getBlockMiner, DigestItem.asPreRuntime, hid]

/-- The miner is in the first item that is not skipped. -/
theorem getBlockMiner_of_skipped {skipped : List DigestItem}
    (h : ∀ item ∈ skipped, Skipped decode item) {data : Bytes} {m : A}
    (hm : decode data = some m) (rest : List DigestItem) :
    getBlockMiner decode (skipped ++ .preRuntime powEngineId data :: rest) = some m := by
  induction skipped with
  | nil => simp [getBlockMiner, DigestItem.asPreRuntime, hm]
  | cons item skipped ih =>
    rw [List.cons_append, getBlockMiner_cons_of_skipped (h item (by simp))]
    exact ih fun other hother => h other (List.mem_cons_of_mem item hother)

/-- What is appended does not change it. -/
theorem getBlockMiner_append {logs : List DigestItem} {m : A}
    (h : getBlockMiner decode logs = some m) (items : List DigestItem) :
    getBlockMiner decode (logs ++ items) = some m := by
  unfold getBlockMiner at *
  rw [List.filterMap_append, List.filterMap_append, List.head?_append, h]
  rfl

/-! ## One amount -/

theorem Credits.refl (free : B → A → Nat) (who : A) (b : B) : Credits free who 0 b b :=
  ⟨rfl, fun _ _ => rfl⟩

theorem Credits.trans {free : B → A → Nat} {who : A} {m n : Nat} {b b' b'' : B}
    (h : Credits free who m b b') (h' : Credits free who n b' b'') :
    Credits free who (m + n) b b'' where
  credited := by rw [h'.credited, h.credited, Nat.add_assoc]
  others other hother := (h'.others other hother).trans (h.others other hother)

/-- The account exists, or the first of the amounts that is not zero creates it. -/
def Payable (cur : Ledger B A) (m : A) (b : B) (amounts : List Balance) : Prop :=
  cur.alive b m ∨ ∀ first, amounts.find? (fun amount => amount ≠ 0) = some first →
    cur.existentialDeposit ≤ first.toNat

theorem Payable.zero_cons {m : A} {b : B} {amounts : List Balance}
    (h : Payable cur m b (0 :: amounts)) : Payable cur m b amounts := by
  refine h.imp_right fun hfirst first hfind => hfirst first ?_
  rwa [List.find?_cons_of_neg (by simp)]

theorem Payable.of_ne_zero {m : A} {b : B} {amount : Balance} {amounts : List Balance}
    (h : Payable cur m b (amount :: amounts)) (hne : amount ≠ 0) :
    cur.alive b m ∨ cur.existentialDeposit ≤ amount.toNat :=
  h.imp_right fun hfirst => hfirst amount (List.find?_cons_of_pos (by simpa using hne))

/-- `m` is the miner, and the amounts to come can be paid to it. -/
structure Paying (cur : Ledger B A) (decode : Bytes → Option A) (m : A) (s : Execution B)
    (amounts : List Balance) : Prop where
  miner : getBlockMiner decode s.digest = some m
  payable : Payable cur m s.balances amounts

/-- An action pays what it brings to `m`, and leaves the issuance as it is. -/
def Pays (cur : Ledger B A) (decode : Bytes → Option A) (m : A) (s : Execution B) (a : Action) :
    Prop :=
  Credits cur.free m a.amount.toNat s.balances (act cur decode s a).balances ∧
    cur.totalIssuance (act cur decode s a).balances = cur.totalIssuance s.balances

variable {m : A} {s : Execution B}

theorem act_spec {a : Action} {amounts : List Balance}
    (h : Paying cur decode m s (a.amount :: amounts)) :
    Pays cur decode m s a ∧ Paying cur decode m (act cur decode s a) amounts := by
  obtain ⟨hminer, hpayable⟩ := h
  cases a with
  | depositLog item =>
    exact ⟨⟨.refl _ _ _, rfl⟩, getBlockMiner_append hminer [item], hpayable.zero_cons⟩
  | fee amount =>
    by_cases hzero : amount = 0
    · subst hzero
      exact ⟨⟨.refl _ _ _, rfl⟩, hminer, hpayable.zero_cons⟩
    · have hact : act cur decode s (.fee amount) =
          { s with balances := cur.resolveCreating m amount s.balances } := by
        rw [act, onUnbalanced, if_neg hzero, onNonzeroUnbalanced, hminer]
      obtain ⟨hcredits, halive, hissuance⟩ :=
        cur.resolve_law m amount s.balances hzero (hpayable.of_ne_zero hzero)
      rw [Pays, hact]
      exact ⟨⟨hcredits, hissuance⟩, hminer, Or.inl halive⟩

/-! ## A whole block -/

/-- What the actions bring in all. -/
def totalFees (actions : List Action) : Nat := (actions.map fun a => a.amount.toNat).sum

theorem run_spec {actions : List Action} {amounts : List Balance}
    (h : Paying cur decode m s (actions.map Action.amount ++ amounts)) :
    EachStep (act cur decode) (Pays cur decode m) s actions ∧
      Credits cur.free m (totalFees actions) s.balances (run (act cur decode) s actions).balances ∧
      cur.totalIssuance (run (act cur decode) s actions).balances = cur.totalIssuance s.balances ∧
      Paying cur decode m (run (act cur decode) s actions) amounts := by
  induction actions generalizing s with
  | nil => exact ⟨trivial, .refl _ _ _, rfl, h⟩
  | cons a actions ih =>
    obtain ⟨hpays, hnext⟩ := act_spec h
    obtain ⟨hsteps, hcredits, hissuance, hlast⟩ := ih hnext
    exact ⟨⟨hpays, hsteps⟩, hpays.1.trans hcredits, hissuance.trans hpays.2, hlast⟩

/-- The reward of a block that starts with this issuance. -/
def blockReward (totalIssuance : Balance) : Balance :=
  if totalIssuance < maxTokens then (maxTokens - totalIssuance) / 1000 else 0

theorem blockReward_lt (totalIssuance : Balance) :
    totalIssuance.toNat + (blockReward totalIssuance).toNat < 2 ^ 128 := by
  unfold blockReward
  split
  · rename_i hlt
    have hle : totalIssuance ≤ maxTokens := BitVec.le_of_lt hlt
    have hcap : maxTokens.toNat < 2 ^ 128 := maxTokens.isLt
    have hlt' : totalIssuance.toNat < maxTokens.toNat := hlt
    have hquot : ((maxTokens - totalIssuance) / 1000).toNat =
        (maxTokens.toNat - totalIssuance.toNat) / 1000 := by
      rw [BitVec.toNat_udiv, BitVec.toNat_sub_of_le hle]
      rfl
    omega
  · exact totalIssuance.isLt

/-- `inflationary_reward` deposits the reward of the block. -/
theorem finalize_eq (hminer : getBlockMiner decode s.digest = some m) :
    finalize cur decode s = some
      (cur.depositCreating m (blockReward (cur.totalIssuance s.balances)) s.balances) := by
  unfold finalize inflationaryReward blockReward
  rw [hminer]
  dsimp only
  by_cases hlt : cur.totalIssuance s.balances < maxTokens
  · rw [if_pos hlt, if_pos hlt, geometricReward, checkedSub_of_le (BitVec.le_of_lt hlt)]
    rfl
  · rw [if_neg hlt, if_neg hlt, cur.deposit_zero]

theorem finalize_spec (h : Paying cur decode m s [blockReward (cur.totalIssuance s.balances)]) :
    ∃ b, finalize cur decode s = some b ∧
      Credits cur.free m (blockReward (cur.totalIssuance s.balances)).toNat s.balances b ∧
      (cur.totalIssuance b).toNat = (cur.totalIssuance s.balances).toNat +
        (blockReward (cur.totalIssuance s.balances)).toNat := by
  obtain ⟨hminer, hpayable⟩ := h
  refine ⟨_, finalize_eq hminer, ?_⟩
  by_cases hzero : blockReward (cur.totalIssuance s.balances) = 0
  · rw [hzero, cur.deposit_zero]
    exact ⟨.refl _ _ _, rfl⟩
  · exact cur.deposit_credits m _ s.balances hzero (hpayable.of_ne_zero hzero) (blockReward_lt _)

/-- Where the digest begins with a miner `m`, every fee of the block and its reward are credited
    to `m`, provided that its account exists or that the first of them creates it. The reward is
    that of the issuance before the block, and raises the issuance by as much. -/
theorem block_credited (cur : Ledger B A) (decode : Bytes → Option A)
    (skipped rest : List DigestItem) (data : Bytes) (m : A) (b : B) (actions : List Action)
    (hskipped : ∀ item ∈ skipped, Skipped decode item) (hdecode : decode data = some m)
    (hpayable : Payable cur m b
      (actions.map Action.amount ++ [blockReward (cur.totalIssuance b)])) :
    EachStep (act cur decode) (Pays cur decode m)
      ⟨skipped ++ .preRuntime powEngineId data :: rest, b⟩ actions ∧
    ∃ b', finalize cur decode
        (run (act cur decode) ⟨skipped ++ .preRuntime powEngineId data :: rest, b⟩ actions) =
        some b' ∧
      Credits cur.free m (totalFees actions + (blockReward (cur.totalIssuance b)).toNat) b b' ∧
      (cur.totalIssuance b').toNat =
        (cur.totalIssuance b).toNat + (blockReward (cur.totalIssuance b)).toNat := by
  have hpaying : Paying cur decode m ⟨skipped ++ .preRuntime powEngineId data :: rest, b⟩
      (actions.map Action.amount ++ [blockReward (cur.totalIssuance b)]) :=
    ⟨getBlockMiner_of_skipped hskipped hdecode rest, hpayable⟩
  obtain ⟨hsteps, hfees, hissuance, hlast⟩ := run_spec hpaying
  dsimp only at hfees hissuance
  rw [← hissuance] at hlast
  obtain ⟨b', hfinal, hreward, hraised⟩ := finalize_spec hlast
  rw [hissuance] at hreward hraised
  exact ⟨hsteps, b', hfinal, hfees.trans hreward, hraised⟩

/-! ## A ledger -/

structure Book where
  issuance : Balance
  free : Nat → Nat

def Book.credit (who amount : Nat) (b : Book) : Book :=
  { b with free := fun other => if other = who then b.free who + amount else b.free other }

theorem Book.credits_credit (who amount : Nat) (b : Book) :
    Credits Book.free who amount b (b.credit who amount) where
  credited := by simp [credit]
  others other hother := by simp [credit, hother]

/-- Accounts without balance do not exist, and no amount below `ed` creates one: a deposit is then
    not made, and a fee is dropped. -/
def bookLedger (ed : Nat) : Ledger Book Nat where
  totalIssuance := Book.issuance
  depositCreating who amount b :=
    if amount = 0 ∨ (b.free who = 0 ∧ amount.toNat < ed) ∨
        2 ^ 128 ≤ b.issuance.toNat + amount.toNat then b
    else { b.credit who amount.toNat with issuance := b.issuance + amount }
  deposit_law who amount b := by
    split
    · exact Or.inr rfl
    · rename_i h
      left
      rw [BitVec.toNat_add, Nat.mod_eq_of_lt (by omega)]
  free := Book.free
  alive b who := b.free who ≠ 0
  existentialDeposit := ed
  resolveCreating who amount b :=
    if b.free who = 0 ∧ amount.toNat < ed then { b with issuance := b.issuance - amount }
    else b.credit who amount.toNat
  dropImbalance amount b := { b with issuance := b.issuance - amount }
  resolve_law who amount b hne h := by
    have hpos : amount.toNat ≠ 0 := by simpa [← BitVec.toNat_inj] using hne
    rw [if_neg (by omega)]
    refine ⟨b.credits_credit who amount.toNat, ?_, rfl⟩
    rw [(b.credits_credit who amount.toNat).credited]
    omega
  deposit_credits who amount b hne h hroom := by
    rw [if_neg (by simp only [hne, false_or]; omega)]
    refine ⟨⟨(b.credits_credit who amount.toNat).credited,
      (b.credits_credit who amount.toNat).others⟩, ?_⟩
    rw [BitVec.toNat_add, Nat.mod_eq_of_lt hroom]
  deposit_zero who b := by rw [if_pos (Or.inl rfl)]

/-- Account ids of one byte. -/
def decodeByte (data : Bytes) : Option Nat := data.head?.map UInt8.toNat

/-- Shortly before the cap, with no account. -/
def lateBook : Book := ⟨999999999999999000, fun _ => 0⟩

/-- Another item of the engine, and then the one of the miner `7`. -/
def digestOf7 : List DigestItem :=
  [.preRuntime powEngineId [], .preRuntime powEngineId [7]]

theorem fees_of_7 :
    ∃ b', finalize (bookLedger 500) decodeByte (run (act (bookLedger 500) decodeByte)
        ⟨digestOf7, lateBook⟩ [.fee 600, .depositLog (.preRuntime powEngineId [8]), .fee 3]) =
        some b' ∧
      Credits Book.free 7 (totalFees [.fee 600, .depositLog (.preRuntime powEngineId [8]), .fee 3] +
        (blockReward lateBook.issuance).toNat) lateBook b' := by
  have hskipped : ∀ item ∈ [DigestItem.preRuntime powEngineId []], Skipped decodeByte item := by
    rintro item hitem data rfl
    obtain ⟨-, rfl⟩ := DigestItem.preRuntime.inj (List.mem_singleton.mp hitem)
    rfl
  have hfirst : Payable (bookLedger 500) 7 lateBook
      ([.fee 600, .depositLog (.preRuntime powEngineId [8]), .fee 3].map Action.amount ++
        [blockReward lateBook.issuance]) := by
    refine Or.inr fun first h => ?_
    obtain rfl : 600 = first := Option.some.inj h
    decide
  obtain ⟨-, b', hfinal, hcredits, -⟩ := block_credited (bookLedger 500) decodeByte
    [.preRuntime powEngineId []] [] [7] 7 lateBook _ hskipped rfl hfirst
  exact ⟨b', hfinal, hcredits⟩

/-- With no account, the miner gets neither a fee nor a reward below the existential deposit. -/
theorem dust_not_credited :
    getBlockMiner decodeByte digestOf7 = some 7 ∧
      (act (bookLedger 500) decodeByte ⟨digestOf7, lateBook⟩ (.fee 1)).balances.free 7 = 0 ∧
      blockReward lateBook.issuance = 1 ∧
      ∃ b', finalize (bookLedger 500) decodeByte ⟨digestOf7, lateBook⟩ = some b' ∧
        b'.free 7 = 0 ∧ b'.issuance = lateBook.issuance := by
  refine ⟨by decide +kernel, by decide +kernel, by decide +kernel, _, rfl, ?_, ?_⟩
  · decide +kernel
  · decide +kernel

end Siip.Runtime
