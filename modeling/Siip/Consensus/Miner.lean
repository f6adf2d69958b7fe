/-
  `do_mining`, the loop of the miner thread.

  The thread shares the build to mine on with the worker task of `sc_consensus_pow`, behind a mutex.
  Steps of the two come in any order; a step that waits for the mutex changes nothing. The worker
  task may put any build in place, or none, and `submit` may leave any. The metadata are what `mine`
  reads of them; the warning about an error of `mine` is left out.

  The build that the thread works on is still in place when it submits a seal, since it holds the
  mutex from the lookup to the submission (`Inv`). So what it submits are the nonces that win among
  those it has drawn, each once, each for the build it was drawn for (`submissions_exact`).
-/
import Siip.Lib.Run
import Siip.Consensus.Sha3Pow

namespace Siip.Consensus

open Lib

structure Metadata where
  preHash : H256
  difficulty : U256
  deriving DecidableEq

/-- The two that lock the mutex. -/
inductive Party where
  | miner
  | worker
  deriving DecidableEq

/-- Where the miner thread stands in its loop. -/
inductive Pc where
  /-- Before `worker_data.lock()`. -/
  | unlocked
  /-- Before `worker_data.metadata()`. -/
  | locked
  /-- Before `algorithm.mine`, with the metadata it has read. -/
  | mining (metadata : Metadata)
  /-- Before `worker_data.submit`. -/
  | mined (raw : RawSeal)
  /-- At the end of the block that holds the lock. -/
  | unlocking (blockReady : Bool)
  /-- Before `thread::sleep`. -/
  | waiting
  deriving DecidableEq

/-- Within the block that holds the lock. -/
def Pc.inside : Pc → Bool
  | .unlocked | .waiting => false
  | .locked | .mining _ | .mined _ | .unlocking _ => true

/-- `drawn` and `submitted` are a record that no step reads: the nonces that were drawn, with the
    metadata they were drawn for, and the seals that were submitted, with the build in place. -/
structure Mining where
  holder : Option Party
  build : Option Metadata
  pc : Pc
  drawn : List (Metadata × H256)
  submitted : List (Option Metadata × RawSeal)

/-- The start of the thread, with some build or none in place. -/
def Mining.start (build : Option Metadata) : Mining := ⟨none, build, .unlocked, [], []⟩

inductive MinerAction where
  /-- A step of the thread: `rng` is the randomness that `mine` gets, and `left` the build that
      `submit` leaves. -/
  | thread (rng : Except String (Nat → H256)) (left : Option Metadata)
  | workerLock
  | workerBuild (build : Option Metadata)
  | workerUnlock

variable (sha3 : Bytes → H256)

/-- The nonces that `mineLoop` draws: those up to the first that wins. -/
def loopDraws (nonces : Nat → H256) (preHash : H256) (difficulty : U256) (i : Nat) :
    Nat → List H256
  | 0 => []
  | rounds + 1 =>
    if Wins sha3 nonces preHash difficulty i then [nonces i]
    else nonces i :: loopDraws nonces preHash difficulty (i + 1) rounds

def draws (rng : Except String (Nat → H256)) (preHash : H256) (difficulty : U256) (round : UInt32) :
    List H256 :=
  match rng with
  | .error _ => []
  | .ok nonces => loopDraws sha3 nonces preHash difficulty 0 round.toNat

def Mining.thread (s : Mining) (rng : Except String (Nat → H256)) (left : Option Metadata) :
    Mining :=
  match s.pc with
  | .unlocked => if s.holder = none then { s with holder := some .miner, pc := .locked } else s
  | .locked =>
    match s.build with
    | none => { s with pc := .unlocking false }
    | some metadata => { s with pc := .mining metadata }
  | .mining metadata =>
    let drawn := draws sha3 rng metadata.preHash metadata.difficulty 1000
    let s := { s with drawn := s.drawn ++ drawn.map (metadata, ·) }
    match SiipPowAlgorithm.mine sha3 rng metadata.preHash metadata.difficulty 1000 with
    | .ok (some raw) => { s with pc := .mined raw }
    | .ok none => { s with pc := .unlocking true }
    | .error _ => { s with pc := .unlocking true }
  | .mined raw =>
    { s with
      submitted := s.submitted ++ [(s.build, raw)]
      build := left
      pc := .unlocking true }
  | .unlocking blockReady =>
    { s with holder := none, pc := if blockReady then .unlocked else .waiting }
  | .waiting => { s with pc := .unlocked }

def Mining.step (s : Mining) : MinerAction → Mining
  | .thread rng left => s.thread sha3 rng left
  | .workerLock => if s.holder = none then { s with holder := some .worker } else s
  | .workerBuild build => if s.holder = some .worker then { s with build } else s
  | .workerUnlock => if s.holder = some .worker then { s with holder := none } else s

/-! ## The nonces that win -/

/-- The nonce wins for the build it was drawn for. -/
def Drawn.wins (d : Metadata × H256) : Bool :=
  hashMeetsDifficulty (attempt sha3 d.1.preHash d.1.difficulty d.2).work d.1.difficulty

/-- The submission that a drawn nonce leads to. -/
def Drawn.submission (d : Metadata × H256) : Option Metadata × RawSeal :=
  (some d.1, (attempt sha3 d.1.preHash d.1.difficulty d.2).encode)

/-- What is to be submitted for the drawn nonces. -/
def winning (drawn : List (Metadata × H256)) : List (Option Metadata × RawSeal) :=
  (drawn.filter (Drawn.wins sha3)).map (Drawn.submission sha3)

theorem winning_append (drawn drawn' : List (Metadata × H256)) :
    winning sha3 (drawn ++ drawn') = winning sha3 drawn ++ winning sha3 drawn' := by
  rw [winning, List.filter_append, List.map_append]
  rfl

theorem winning_loopDraws (nonces : Nat → H256) (md : Metadata) (i rounds : Nat) :
    winning sha3 ((loopDraws sha3 nonces md.preHash md.difficulty i rounds).map (md, ·)) =
      ((mineLoop sha3 nonces md.preHash md.difficulty i rounds).map (some md, ·)).toList := by
  induction rounds generalizing i with
  | zero => rfl
  | succ rounds ih =>
    rw [loopDraws, mineLoop]
    by_cases hwin : Wins sha3 nonces md.preHash md.difficulty i
    · have hdrawn : Drawn.wins sha3 (md, nonces i) = true := hwin
      rw [if_pos hwin]
      refine Eq.trans ?_ (congrArg _ (congrArg _ (if_pos hwin).symm))
      simp [winning, hdrawn, Drawn.submission, attempt]
    · have hdrawn : Drawn.wins sha3 (md, nonces i) = false := Bool.eq_false_iff.mpr hwin
      rw [if_neg hwin]
      refine Eq.trans ?_ (congrArg _ (congrArg _ (if_neg hwin).symm))
      rw [← ih (i + 1), List.map_cons, winning, List.filter_cons_of_neg (by simp [hdrawn])]
      rfl

/-- A call of `mine` returns the seal of the one nonce that wins, if one does. -/
theorem winning_draws (rng : Except String (Nat → H256)) (md : Metadata) (round : UInt32) :
    winning sha3 ((draws sha3 rng md.preHash md.difficulty round).map (md, ·)) =
      match SiipPowAlgorithm.mine sha3 rng md.preHash md.difficulty round with
      | .ok (some raw) => [(some md, raw)]
      | .ok none => []
      | .error _ => [] := by
  cases rng with
  | error e => rfl
  | ok nonces =>
    rw [draws, winning_loopDraws, SiipPowAlgorithm.mine]
    cases mineLoop sha3 nonces md.preHash md.difficulty 0 round.toNat <;> rfl

/-! ## The invariant -/

/-- The seal that the thread is about to submit, with the build in place. -/
def Mining.pending (s : Mining) : List (Option Metadata × RawSeal) :=
  match s.pc with
  | .mined raw => [(s.build, raw)]
  | _ => []

structure Mining.Inv (s : Mining) : Prop where
  holds : s.holder = some .miner ↔ s.pc.inside = true
  reads : ∀ md, s.pc = .mining md → s.build = some md
  exact : s.submitted ++ s.pending = winning sha3 s.drawn

theorem Mining.inv_start (build : Option Metadata) : (Mining.start build).Inv sha3 where
  holds := by simp [start, Pc.inside]
  reads := by simp [start]
  exact := rfl

variable {sha3}

theorem Mining.Inv.thread {s : Mining} (h : s.Inv sha3) (rng : Except String (Nat → H256))
    (left : Option Metadata) : (s.thread sha3 rng left).Inv sha3 := by
  obtain ⟨holder, build, pc, drawn, submitted⟩ := s
  obtain ⟨hholds, hreads, hexact⟩ := h
  cases pc with
  | unlocked =>
    rw [Mining.thread]
    dsimp only at hexact ⊢
    split
    · exact ⟨by simp [Pc.inside], by simp, hexact⟩
    · exact ⟨hholds, hreads, hexact⟩
  | locked =>
    cases build with
    | none => exact ⟨by simpa [Mining.thread, Pc.inside] using hholds, nofun, hexact⟩
    | some md =>
      refine ⟨by simpa [Mining.thread, Pc.inside] using hholds, ?_, hexact⟩
      rintro md' ⟨⟩
      rfl
  | mining md =>
    obtain rfl : build = some md := hreads md rfl
    have hsub : submitted = winning sha3 drawn := (List.append_nil _).symm.trans hexact
    have hnew := winning_append sha3 drawn
      ((draws sha3 rng md.preHash md.difficulty 1000).map (md, ·))
    rw [winning_draws, ← hsub] at hnew
    have hheld : holder = some .miner := hholds.mpr (by simp [Pc.inside])
    rw [Mining.thread]
    dsimp only
    split <;> rename_i hmine <;> rw [hmine] at hnew
    · exact ⟨by simp [hheld, Pc.inside], nofun, hnew.symm⟩
    · exact ⟨by simp [hheld, Pc.inside], nofun, hnew.symm⟩
    · exact ⟨by simp [hheld, Pc.inside], nofun, hnew.symm⟩
  | mined raw =>
    refine ⟨by simpa [Mining.thread, Pc.inside] using hholds, nofun, ?_⟩
    exact (List.append_nil _).trans hexact
  | unlocking blockReady =>
    cases blockReady with
    | false => exact ⟨by simp [Mining.thread, Pc.inside], nofun, hexact⟩
    | true => exact ⟨by simp [Mining.thread, Pc.inside], nofun, hexact⟩
  | waiting => exact ⟨by simpa [Mining.thread, Pc.inside] using hholds, nofun, hexact⟩

/-- Where the thread does not hold the mutex, it has nothing of the build. -/
theorem Mining.Inv.of_outside {s s' : Mining} (h : s.Inv sha3) (hpc : s'.pc = s.pc)
    (houtside : s.holder ≠ some .miner) (hholder : s'.holder ≠ some .miner)
    (hdrawn : s'.drawn = s.drawn) (hsubmitted : s'.submitted = s.submitted) : s'.Inv sha3 := by
  have hout : ¬ s.pc.inside = true := fun hin => houtside (h.holds.mpr hin)
  have hexact := h.exact
  rw [← hpc] at hout
  refine ⟨iff_of_false hholder hout, fun md hmd => ?_, ?_⟩
  · exact absurd (hmd ▸ hout) (by simp [Pc.inside])
  rw [hsubmitted, hdrawn, ← hexact, Mining.pending, Mining.pending, ← hpc]
  cases hs' : s'.pc with
  | mined raw => exact absurd (hs' ▸ hout) (by simp [Pc.inside])
  | _ => rfl

theorem Mining.Inv.step {s : Mining} (h : s.Inv sha3) (a : MinerAction) :
    (s.step sha3 a).Inv sha3 := by
  cases a with
  | thread rng left => exact h.thread rng left
  | workerLock =>
    rw [Mining.step]
    split
    · rename_i hfree
      exact h.of_outside rfl (by simp [hfree]) (by simp) rfl rfl
    · exact h
  | workerBuild build =>
    rw [Mining.step]
    split
    · rename_i hheld
      exact h.of_outside rfl (by simp [hheld]) (by simp [hheld]) rfl rfl
    · exact h
  | workerUnlock =>
    rw [Mining.step]
    split
    · rename_i hheld
      exact h.of_outside rfl (by simp [hheld]) (by simp) rfl rfl
    · exact h

/-! ## Submissions -/

variable (sha3)

/-- The states of the thread and the worker task after their steps, in the order given. -/
def Mining.after (build : Option Metadata) (as : List MinerAction) : Mining :=
  run (Mining.step sha3) (.start build) as

theorem Mining.inv_after (build : Option Metadata) (as : List MinerAction) :
    (Mining.after sha3 build as).Inv sha3 :=
  run_invariant (fun _ a h => h.step a) (Mining.inv_start sha3 build) as

/-- What is submitted for a winning nonce is accepted for its build and, short of a collision, for
    no other. -/
theorem accepts_of_mem_winning {drawn : List (Metadata × H256)} {e : Option Metadata × RawSeal}
    (he : e ∈ winning sha3 drawn) : ∃ md, e.1 = some md ∧
      verifySeal sha3 md.preHash e.2 md.difficulty = .ok true ∧
      ∀ preHash difficulty, verifySeal sha3 preHash e.2 difficulty = .ok true →
        difficulty = md.difficulty ∧ (preHash = md.preHash ∨ ∃ nonce, Collision sha3
          (Compute.encode ⟨difficulty, preHash, nonce⟩)
          (Compute.encode ⟨md.difficulty, md.preHash, nonce⟩)) := by
  obtain ⟨⟨md, nonce⟩, hmem, rfl⟩ := List.mem_map.mp he
  have hwins : Drawn.wins sha3 (md, nonce) = true := (List.mem_filter.mp hmem).2
  have hacc := (accepts_iff sha3).mpr ⟨nonce, [], (List.append_nil _).symm, hwins⟩
  exact ⟨md, rfl, hacc, fun _ _ hacc' => bound_of_accepts sha3 hacc' hacc⟩

/-- In every interleaving of the miner thread and the worker task, the thread submits the winning
    ones of the nonces it has drawn, each once, in the order in which they were drawn and while the
    build is in place that they were drawn for; at most the last one is still to be submitted. What
    it submits is accepted for this build and, short of a collision, for no other. -/
theorem submissions_exact (build : Option Metadata) (as : List MinerAction) :
    let s := Mining.after sha3 build as
    s.submitted ++ s.pending = winning sha3 s.drawn ∧
      ∀ e ∈ s.submitted, ∃ md, e.1 = some md ∧
        MinimalSha3Algorithm.verify sha3 md.preHash e.2 md.difficulty = .ok true ∧
        ∀ preHash difficulty,
          MinimalSha3Algorithm.verify sha3 preHash e.2 difficulty = .ok true →
            difficulty = md.difficulty ∧ (preHash = md.preHash ∨ ∃ nonce, Collision sha3
              (Compute.encode ⟨difficulty, preHash, nonce⟩)
              (Compute.encode ⟨md.difficulty, md.preHash, nonce⟩)) := by
  have hexact := (Mining.inv_after sha3 build as).exact
  refine ⟨hexact, fun e he => ?_⟩
  have hmem : e ∈ winning sha3 (Mining.after sha3 build as).drawn :=
    hexact ▸ List.mem_append_left _ he
  exact accepts_of_mem_winning sha3 hmem

end Siip.Consensus
