/-
  `siip_resolve.resolve` in the threads of the proxy.

  `ProxyServer` handles every connection in a thread of its own, and `resolve` takes no lock. It is
  modelled in its three steps, `redis_cli.get`, `plow` and `redis_cli.set`, each of which is
  atomic; steps of other threads and extrinsics on the chain come between them in any order. A
  step that finds redis unreachable (`ConnectionError`) has `up = false`.
-/
import Siip.Lib.ReadThrough
import Siip.Proxy.Resolver

namespace Siip.Proxy

open Lib Python

/-- What `resolve` returns or raises. -/
abbrev Resolved := Except Exn (Option SiipCertificate)

variable {A : Type} [DecidableEq A] [Inhabited A] (sub : Substrate)

/-- `resolve` in steps. -/
def resolveSteps (env : Pallet.Env) :
    ReadThrough.Machine (Pallet.Storage A) (Pallet.Extrinsic A) Str Str Str Resolved where
  update := Pallet.step env
  slot := cacheKey
  slot_injective := cacheKey_injective
  hit cached := (decodeCertificate cached).map some
  fetch chain domain :=
    match plow sub chain domain with
    | none => .inl (.ok none)
    | some certFields =>
      match SiipCertificate.new certFields.ipAddr certFields.domain (.str certFields.key) with
      | .error e => .inl (.error e)
      | .ok cert => .inr (cert.encode, .ok (some cert))
  hit_of_fetch := by
    intro chain domain w r h
    split at h
    · cases h
    · split at h
      · cases h
      · cases h
        rw [decodeCertificate_encode]
        rfl

variable {ι : Type} [DecidableEq ι]

abbrev Threads (ι A : Type) := ReadThrough.System ι (Pallet.Storage A) Str Str Str Resolved

abbrev ThreadOp (ι A : Type) := ReadThrough.Op ι (Pallet.Extrinsic A) Str

/-- The threads, the chain and redis after `ops`, from an empty chain and an empty redis. -/
def Threads.after (env : Pallet.Env) (ops : List (ThreadOp ι A)) : Threads ι A :=
  run (ReadThrough.System.step (resolveSteps sub env)) (.init .empty) ops

theorem fetch_cases (env : Pallet.Env) (chain : Pallet.Storage A) (domain : Str) :
    (plow sub chain domain = none ∧
        (resolveSteps sub env).fetch chain domain = .inl (.ok none)) ∨
      (∃ f e, plow sub chain domain = some f ∧
        SiipCertificate.new f.ipAddr f.domain (.str f.key) = .error e ∧
        (resolveSteps sub env).fetch chain domain = .inl (.error e)) ∨
      ∃ f cert, plow sub chain domain = some f ∧
        SiipCertificate.new f.ipAddr f.domain (.str f.key) = .ok cert ∧
        (resolveSteps sub env).fetch chain domain = .inr (cert.encode, .ok (some cert)) := by
  unfold resolveSteps
  dsimp only
  cases hplow : plow sub chain domain with
  | none => exact .inl ⟨rfl, rfl⟩
  | some f =>
    dsimp only
    cases hnew : SiipCertificate.new f.ipAddr f.domain (.str f.key) with
    | error e => exact .inr (.inl ⟨f, e, rfl, hnew, rfl⟩)
    | ok cert => exact .inr (.inr ⟨f, cert, rfl, hnew, rfl⟩)

variable {sub} {env : Pallet.Env}

/-- The three steps of a thread that nothing comes between are a call of `resolve`. -/
theorem resolve_of_uninterrupted (s : Threads ι A) {t : ι} (hidle : (s.thread t).pending = none)
    (domain : Str) :
    let s' := run (ReadThrough.System.step (resolveSteps sub env)) s
      [.get t domain true, .fetch t, .put t true]
    s'.thread t = .returned domain (resolve sub domain ⟨s.source, s.memo⟩).1 ∧
      ⟨s'.source, s'.memo⟩ = (resolve sub domain ⟨s.source, s.memo⟩).2 := by
  simp only [run_cons, run_nil]
  rw [resolve]
  cases hredis : s.memo.find? (cacheKey domain) with
  | some cached =>
    have hhit : s.lookup (resolveSteps sub env) domain true = some cached := hredis
    rw [ReadThrough.step_get_of_hit hidle hhit,
      ReadThrough.step_fetch_of_returned (ReadThrough.thread_goto_self ..),
      ReadThrough.step_put_of_returned (ReadThrough.thread_goto_self ..)]
    exact ⟨ReadThrough.thread_goto_self .., rfl⟩
  | none =>
    have hmiss : s.lookup (resolveSteps sub env) domain true = none := hredis
    rw [ReadThrough.step_get_of_miss hidle hmiss]
    have hmissed := ReadThrough.thread_goto_self s t (.missed domain)
    obtain ⟨hplow, hfetch⟩ | ⟨f, e, hplow, hnew, hfetch⟩ | ⟨f, cert, hplow, hnew, hfetch⟩ :=
      fetch_cases sub env s.source domain
    · rw [ReadThrough.step_fetch_of_answer hmissed hfetch,
        ReadThrough.step_put_of_returned (ReadThrough.thread_goto_self ..), hplow]
      exact ⟨ReadThrough.thread_goto_self .., rfl⟩
    · rw [ReadThrough.step_fetch_of_answer hmissed hfetch,
        ReadThrough.step_put_of_returned (ReadThrough.thread_goto_self ..), hplow]
      dsimp only
      rw [hnew]
      exact ⟨ReadThrough.thread_goto_self .., rfl⟩
    · rw [ReadThrough.step_fetch_of_found hmissed hfetch,
        ReadThrough.step_put (ReadThrough.thread_goto_self ..), hplow]
      dsimp only
      rw [hnew]
      exact ⟨ReadThrough.thread_goto_self .., rfl⟩

theorem after_append (ops ops' : List (ThreadOp ι A)) : Threads.after sub env (ops ++ ops') =
    run (ReadThrough.System.step (resolveSteps sub env)) (Threads.after sub env ops) ops' :=
  run_append ..

theorem source_after (ops : List (ThreadOp ι A)) :
    (Threads.after sub env ops).source = Pallet.runFromEmpty env (ReadThrough.changes ops) :=
  ReadThrough.source_run _ ops

variable (sub) in
theorem held_source_iff {ops : List (ThreadOp ι A)} {domain : Str} {c : SiipCertificate} :
    held sub (Threads.after sub env ops).source domain = some c ↔
      Holds (Threads.after sub env ops).source domain c := by
  have hchain : (Threads.after sub env ops).source =
      (World.after sub env ((ReadThrough.changes ops).map .change)).chain := by
    rw [source_after, chain_after, Memo.changes, List.filterMap_map]
    exact congrArg _ List.filterMap_some.symm
  rw [hchain]
  exact held_eq_some_iff sub

theorem holds_of_fetch {ops : List (ThreadOp ι A)} {domain w : Str} {r : Resolved}
    (h : (resolveSteps sub env).fetch (Threads.after sub env ops).source domain = .inr (w, r)) :
    ∃ c, Holds (Threads.after sub env ops).source domain c ∧ w = c.encode ∧
      r = .ok (some c) := by
  obtain ⟨-, hfetch⟩ | ⟨f, e, -, -, hfetch⟩ | ⟨f, c, hplow, hnew, hfetch⟩ :=
    fetch_cases sub env (Threads.after sub env ops).source domain
  · exact absurd (hfetch.symm.trans h) (by simp)
  · exact absurd (hfetch.symm.trans h) (by simp)
  · cases hfetch.symm.trans h
    refine ⟨c, (held_source_iff sub).mp ?_, rfl, rfl⟩
    rw [held, hplow, Option.bind_some, hnew]
    rfl

theorem fetch_of_holds {ops : List (ThreadOp ι A)} {domain : Str} {c : SiipCertificate}
    (h : Holds (Threads.after sub env ops).source domain c) :
    (resolveSteps sub env).fetch (Threads.after sub env ops).source domain =
      .inr (c.encode, .ok (some c)) := by
  have hheld := (held_source_iff sub).mpr h
  obtain ⟨hplow, -⟩ | ⟨f, e, hplow, hnew, -⟩ | ⟨f, c', hplow, hnew, hfetch⟩ :=
    fetch_cases sub env (Threads.after sub env ops).source domain
  · rw [held, hplow] at hheld
    exact absurd hheld (by simp)
  · rw [held, hplow, Option.bind_some, hnew] at hheld
    exact absurd hheld (by simp [Except.toOption])
  · rw [held, hplow, Option.bind_some, hnew] at hheld
    obtain rfl : c' = c := Option.some.inj hheld
    exact hfetch

/-- A thread that looks the domain up while redis has nothing, up to where it would keep it. -/
theorem fetched_of_holds {ops : List (ThreadOp ι A)} {domain : Str} {c : SiipCertificate} {t : ι}
    (hnone : (Threads.after sub env ops).memo.find? (cacheKey domain) = none)
    (hidle : ((Threads.after sub env ops).thread t).pending = none)
    (h : Holds (Threads.after sub env ops).source domain c) :
    (Threads.after sub env (ops ++ [.get t domain true, .fetch t])) =
      ((Threads.after sub env ops).goto t (.missed domain)).goto t
        (.fetched domain c.encode (.ok (some c))) := by
  have hmiss : (Threads.after sub env ops).lookup (resolveSteps sub env) domain true = none := hnone
  rw [after_append, run_cons, run_cons, run_nil, ReadThrough.step_get_of_miss hidle hmiss]
  exact ReadThrough.step_fetch_of_found (ReadThrough.thread_goto_self ..) (fetch_of_holds h)

/-! ## A concrete run -/

/-- `ab.cd` is registered, and thread 0 looks it up. -/
def opsAb : List (ThreadOp Nat Nat) :=
  [.change (Pallet.registerAb 1), .get 0 "ab.cd".toList true, .fetch 0, .put 0 true]

def resolvedAb : SiipCertificate :=
  { ip := "1.1.1.1".toList, domain := "ab.cd".toList, publicKey := [171] }

theorem holds_change_registerAb : Holds
    (Threads.after plainSubstrate Pallet.asciiEnv
      ([.change (Pallet.registerAb 1)] : List (ThreadOp Nat Nat))).source "ab.cd".toList
    resolvedAb := by
  rw [source_after]
  exact holds_registerAb 1

section

variable (sub env) (x y : Pallet.Extrinsic A) (domain : Str) (t : ι)

theorem empty_of_change :
    let s : Threads ι A := Threads.after sub env [.change x]
    s.memo.find? (cacheKey domain) = none ∧ (s.thread t).pending = none :=
  ⟨rfl, rfl⟩

theorem source_of_changes : (Threads.after sub env
    ([.change x] ++ [y].map .change : List (ThreadOp ι A))).source =
      Pallet.runFromEmpty env [x, y] := rfl

theorem exclusive_of_alone :
    EachStep (ReadThrough.System.step (resolveSteps sub env)) ReadThrough.Exclusive
      (.init .empty)
      ([.change x, .get t domain true, .fetch t, .put t true] : List (ThreadOp ι A)) :=
  ⟨trivial, ⟨rfl, fun _ => nofun⟩, trivial, rfl, trivial⟩

variable {sub env x domain} in
/-- The first lookup ever, by itself. -/
theorem after_alone {c : SiipCertificate}
    (h : Holds (Threads.after sub env ([.change x] : List (ThreadOp ι A))).source domain c) :
    let s := Threads.after sub env [.change x, .get t domain true, .fetch t, .put t true]
    (∀ t', s.thread t' = if t' = t then .returned domain (.ok (some c)) else .idle) ∧
      s.memo.find? (cacheKey domain) = some c.encode := by
  obtain ⟨hnone, hidle⟩ := empty_of_change sub env x domain t
  have hfetched := fetched_of_holds hnone hidle h
  have hput : Threads.after sub env [.change x, .get t domain true, .fetch t, .put t true] =
      (Threads.after sub env ([.change x] ++ [.get t domain true, .fetch t])).step
        (resolveSteps sub env) (.put t true) := rfl
  rw [hput, hfetched, ReadThrough.step_put (ReadThrough.thread_goto_self ..)]
  refine ⟨fun t' => ?_, StorageMap.find?_insert_self _ _ _⟩
  by_cases ht : t' = t
  · rw [if_pos ht, ht]
    exact ReadThrough.thread_goto_self ..
  · rw [if_neg ht]
    dsimp only
    rw [ReadThrough.thread_goto_of_ne _ _ _ ht, ReadThrough.thread_goto_of_ne _ _ _ ht,
      ReadThrough.thread_goto_of_ne _ _ _ ht]
    rfl

end

theorem after_opsAb : (∀ t, ((Threads.after plainSubstrate Pallet.asciiEnv opsAb).thread t) =
      if t = 0 then .returned "ab.cd".toList (.ok (some resolvedAb)) else .idle) ∧
    (Threads.after plainSubstrate Pallet.asciiEnv opsAb).memo.find? (cacheKey "ab.cd".toList) =
      some resolvedAb.encode := by
  have h := after_alone (0 : Nat) holds_change_registerAb
  rw [opsAb]
  exact h

/-! ## Where an answer comes from -/

/-- An answer that nothing is kept of: the domain is not registered, or the certificate cannot be
    made. -/
def Unanswered (chain : Pallet.Storage A) (domain : Str) (r : Resolved) : Prop :=
  (r = .ok none ∧ chain.certificateMap.find? (utf8Bytes domain) = none) ∨
    ∃ e, r = .error e ∧ (chain.certificateMap.find? (utf8Bytes domain)).isSome = true ∧
      ∀ c, ¬ Holds chain domain c

theorem unanswered_of_fetch {ops : List (ThreadOp ι A)} {domain : Str} {r : Resolved}
    (h : (resolveSteps sub env).fetch (Threads.after sub env ops).source domain = .inl r) :
    Unanswered (Threads.after sub env ops).source domain r := by
  obtain ⟨hplow, hfetch⟩ | ⟨f, e, hplow, hnew, hfetch⟩ | ⟨f, c, hplow, hnew, hfetch⟩ :=
    fetch_cases sub env (Threads.after sub env ops).source domain
  · cases hfetch.symm.trans h
    exact .inl ⟨rfl, Option.map_eq_none_iff.mp hplow⟩
  · cases hfetch.symm.trans h
    refine .inr ⟨e, rfl, ?_, fun c hholds => ?_⟩
    · obtain ⟨cert, hcert, -⟩ := Option.map_eq_some_iff.mp hplow
      rw [hcert]
      rfl
    · have hheld := (held_source_iff sub).mpr hholds
      rw [held, hplow, Option.bind_some, hnew] at hheld
      exact absurd hheld (by simp [Except.toOption])
  · exact absurd (hfetch.symm.trans h) (by simp)

/-- Once redis has an entry for the domain and no thread is looking the domain up, the entry stays
    for good, and with it the answer, whatever becomes of the certificate on the chain. It is a
    certificate that the chain held. -/
theorem entry_for_good (sub : Substrate) (env : Pallet.Env) {ops : List (ThreadOp ι A)}
    {domain entry : Str}
    (hentry : (Threads.after sub env ops).memo.find? (cacheKey domain) = some entry)
    (hquiet : ∀ t, ((Threads.after sub env ops).thread t).pending ≠ some domain) :
    ∃ c pre post, entry = c.encode ∧ ops = pre ++ post ∧
      Holds (Threads.after sub env pre).source domain c ∧
      ∀ later : List (ThreadOp ι A), (∀ op ∈ later, op.Up) →
        (Threads.after sub env (ops ++ later)).memo.find? (cacheKey domain) = some entry ∧
        ∀ t, ((Threads.after sub env (ops ++ later)).thread t).pending = none →
          (Threads.after sub env (ops ++ later ++ [.get t domain true])).thread t =
            .returned domain (.ok (some c)) := by
  obtain ⟨pre, post, hops, hsaid⟩ := ReadThrough.said_of_find? rfl hentry
  obtain ⟨c, hholds, hc, hhit⟩ := holds_of_fetch hsaid
  refine ⟨c, pre, post, hc, hops, hholds, fun later hup => ?_⟩
  have hsettled : ReadThrough.Settled (m := resolveSteps sub env)
      (Threads.after sub env (ops ++ later)) domain entry := by
    rw [after_append]
    exact ReadThrough.Settled.run ⟨hentry, hquiet⟩ hup
  refine ⟨hsettled.entry, fun t hidle => ?_⟩
  rw [after_append, ← hhit]
  exact hsettled.get hidle

/-- The owner moves `ab.cd` after the lookup: redis keeps the old address. -/
theorem entry_for_good_ab : ∃ c pre post, resolvedAb.encode = c.encode ∧ opsAb = pre ++ post ∧
    Holds (Threads.after plainSubstrate Pallet.asciiEnv pre).source "ab.cd".toList c ∧
    (Threads.after plainSubstrate Pallet.asciiEnv
      (opsAb ++ [.change (Pallet.moveAb 1)])).memo.find? (cacheKey "ab.cd".toList) =
      some resolvedAb.encode := by
  obtain ⟨hthread, hentry⟩ := after_opsAb
  have hquiet : ∀ t, ((Threads.after plainSubstrate Pallet.asciiEnv opsAb).thread t).pending ≠
      some "ab.cd".toList := by
    intro t
    rw [hthread]
    split <;> simp [ReadThrough.Thread.pending]
  obtain ⟨c, pre, post, hc, hops, hholds, hlater⟩ :=
    entry_for_good plainSubstrate Pallet.asciiEnv hentry hquiet
  exact ⟨c, pre, post, hc, hops, hholds,
    (hlater [.change (Pallet.moveAb 1)] (List.forall_mem_singleton.mpr trivial)).1⟩

theorem run_map_change (s : Threads ι A) (xs : List (Pallet.Extrinsic A)) :
    run (ReadThrough.System.step (resolveSteps sub env)) s (xs.map .change) =
      { s with source := run (Pallet.step env) s.source xs } := by
  induction xs generalizing s with
  | nil => rfl
  | cons x xs ih => exact ih _

/-- Without a lock a newer entry can be lost: a thread that asked the chain before the certificate
    changed, and writes to redis after a thread that asked it since, leaves the old certificate
    there, though the new one was already returned. -/
theorem older_entry_wins (sub : Substrate) (env : Pallet.Env) {ops : List (ThreadOp ι A)}
    (xs : List (Pallet.Extrinsic A)) {t₁ t₂ : ι} (ht : t₁ ≠ t₂) {domain : Str}
    {c₁ c₂ : SiipCertificate}
    (hnone : (Threads.after sub env ops).memo.find? (cacheKey domain) = none)
    (hidle₁ : ((Threads.after sub env ops).thread t₁).pending = none)
    (hidle₂ : ((Threads.after sub env ops).thread t₂).pending = none)
    (hold : Holds (Threads.after sub env ops).source domain c₁)
    (hnew : Holds (Threads.after sub env (ops ++ xs.map .change)).source domain c₂) :
    let between := ops ++ [.get t₁ domain true, .fetch t₁] ++ xs.map .change ++
      [.get t₂ domain true, .fetch t₂, .put t₂ true]
    (Threads.after sub env between).thread t₂ = .returned domain (.ok (some c₂)) ∧
      (Threads.after sub env (between ++ [.put t₁ true])).memo.find? (cacheKey domain) =
        some c₁.encode := by
  have hfirst := fetched_of_holds hnone hidle₁ hold
  have hchanged : Threads.after sub env
      (ops ++ [.get t₁ domain true, .fetch t₁] ++ xs.map .change) =
      { ((Threads.after sub env ops).goto t₁ (.missed domain)).goto t₁
          (.fetched domain c₁.encode (.ok (some c₁))) with
        source := (Threads.after sub env (ops ++ xs.map .change)).source } := by
    rw [after_append, hfirst, run_map_change, after_append, run_map_change]
    rfl
  generalize hmid : ops ++ [.get t₁ domain true, .fetch t₁] ++ xs.map .change = mid at hchanged
  have hsecond : Threads.after sub env (mid ++ [.get t₂ domain true, .fetch t₂]) =
      ((Threads.after sub env mid).goto t₂ (.missed domain)).goto t₂
        (.fetched domain c₂.encode (.ok (some c₂))) := by
    refine fetched_of_holds ?_ ?_ ?_
    · rw [hchanged]
      exact hnone
    · rw [hchanged]
      dsimp only
      rw [ReadThrough.thread_goto_of_ne _ _ _ ht.symm, ReadThrough.thread_goto_of_ne _ _ _ ht.symm]
      exact hidle₂
    · rw [hchanged]
      exact hnew
  have hbetween : Threads.after sub env (mid ++ [.get t₂ domain true, .fetch t₂, .put t₂ true]) =
      { (Threads.after sub env (mid ++ [.get t₂ domain true, .fetch t₂])).goto t₂
          (.returned domain (.ok (some c₂))) with
        memo := (Threads.after sub env (mid ++ [.get t₂ domain true, .fetch t₂])).memo.insert
          (cacheKey domain) c₂.encode } := by
    rw [List.append_cons, List.append_cons, List.append_assoc mid, after_append]
    refine ReadThrough.step_put ?_
    rw [List.singleton_append, hsecond]
    exact ReadThrough.thread_goto_self ..
  dsimp only
  constructor
  · rw [hbetween]
    exact ReadThrough.thread_goto_self ..
  · have hfetched : (Threads.after sub env
        (mid ++ [.get t₂ domain true, .fetch t₂, .put t₂ true])).thread t₁ =
        .fetched domain c₁.encode (.ok (some c₁)) := by
      rw [hbetween, hsecond]
      dsimp only
      rw [ReadThrough.thread_goto_of_ne _ _ _ ht, ReadThrough.thread_goto_of_ne _ _ _ ht,
        ReadThrough.thread_goto_of_ne _ _ _ ht, hchanged]
      exact ReadThrough.thread_goto_self ..
    rw [after_append, run_cons, run_nil, ReadThrough.step_put hfetched]
    exact StorageMap.find?_insert_self ..

theorem holds_moveAb : Holds
    (Threads.after plainSubstrate Pallet.asciiEnv
      ([.change (Pallet.registerAb 1)] ++ [Pallet.moveAb 1].map .change :
        List (ThreadOp Nat Nat))).source "ab.cd".toList
    { resolvedAb with ip := "2.2.2.2".toList } := by
  rw [source_of_changes]
  refine ⟨Pallet.movedAb 1, "AB".toList, ?_, ?_, ?_, ?_, by decide⟩
  · rw [utf8Bytes_toList]
    exact Pallet.find?_moveAb 1
  · exact fromUtf8_asBytes "2.2.2.2"
  · exact fromUtf8_asBytes "ab.cd"
  · exact fromUtf8_asBytes "AB"

/-- Thread 1 returns `2.2.2.2`, and redis ends with `1.1.1.1`. -/
theorem older_entry_wins_ab :
    let between : List (ThreadOp Nat Nat) :=
      [.change (Pallet.registerAb 1)] ++ [.get 0 "ab.cd".toList true, .fetch 0] ++
        [Pallet.moveAb 1].map .change ++ [.get 1 "ab.cd".toList true, .fetch 1, .put 1 true]
    (Threads.after plainSubstrate Pallet.asciiEnv between).thread 1 =
        .returned "ab.cd".toList (.ok (some { resolvedAb with ip := "2.2.2.2".toList })) ∧
      (Threads.after plainSubstrate Pallet.asciiEnv (between ++ [.put 0 true])).memo.find?
        (cacheKey "ab.cd".toList) = some resolvedAb.encode := by
  obtain ⟨hnone, hidle⟩ := empty_of_change plainSubstrate Pallet.asciiEnv (Pallet.registerAb 1)
    "ab.cd".toList 0
  obtain ⟨-, hidle'⟩ := empty_of_change plainSubstrate Pallet.asciiEnv (Pallet.registerAb 1)
    "ab.cd".toList 1
  exact older_entry_wins plainSubstrate Pallet.asciiEnv [Pallet.moveAb 1] (by decide) hnone hidle
    hidle' holds_change_registerAb holds_moveAb

/-! ## Lookups of a domain that do not overlap -/

/-- Redis of the one-step resolver holds what the memo table holds. -/
structure Level (w : World A) (c : Memo.Cached (Pallet.Storage A) Str Str) : Prop where
  chain : w.chain = c.source
  redis : ∀ domain, w.redis.find? (cacheKey domain) = c.memo.find? domain

omit [DecidableEq ι] in
theorem kept_eq_held (env : Pallet.Env) (chain : Pallet.Storage A) (domain : Str) :
    (resolveSteps sub env).kept chain domain =
      (held sub chain domain).map SiipCertificate.encode := by
  rw [ReadThrough.Machine.kept, held]
  obtain ⟨hplow, hfetch⟩ | ⟨f, e, hplow, hnew, hfetch⟩ | ⟨f, c, hplow, hnew, hfetch⟩ :=
    fetch_cases sub env chain domain
  · rw [hfetch, hplow]
    rfl
  · rw [hfetch, hplow, Option.bind_some, hnew]
    rfl
  · rw [hfetch, hplow, Option.bind_some, hnew]
    rfl

theorem reply_eq_resolve {w : World A} {c : Memo.Cached (Pallet.Storage A) Str Str}
    (h : Level w c) (domain : Str) :
    (resolveSteps sub env).reply c domain = (resolve sub domain w).1 := by
  rw [ReadThrough.Machine.reply, resolve, h.redis, h.chain]
  cases c.memo.find? domain with
  | some cached => rfl
  | none =>
    dsimp only
    obtain ⟨hplow, hfetch⟩ | ⟨f, e, hplow, hnew, hfetch⟩ | ⟨f, c, hplow, hnew, hfetch⟩ :=
      fetch_cases sub env c.source domain
    · rw [hfetch, hplow]
    · rw [hfetch, hplow]
      dsimp only
      rw [hnew]
    · rw [hfetch, hplow]
      dsimp only
      rw [hnew]

theorem level_step {w : World A} {c : Memo.Cached (Pallet.Storage A) Str Str} (h : Level w c)
    (op : Memo.Op (Pallet.Extrinsic A) Str) :
    Level (w.step sub env op)
      (c.step (resolveSteps sub env).update (resolveSteps sub env).kept op) := by
  obtain ⟨hchain, hredis⟩ := h
  cases op with
  | change x => exact ⟨congrArg (Pallet.step env · x) hchain, hredis⟩
  | ask domain =>
    constructor
    · rw [World.step, snd_resolve]
      exact hchain
    · intro d
      rw [World.step, snd_resolve, Memo.Cached.step, Memo.find?_remember, Memo.find?_remember,
        hredis, hchain, kept_eq_held]
      by_cases hd : domain = d
      · rw [hd, if_pos rfl, if_pos rfl]
      · rw [if_neg hd, if_neg fun hk => hd (cacheKey_injective hk)]

theorem level_after (ops : Ops A) :
    Level (World.after sub env ops) (run (Memo.Cached.step (resolveSteps sub env).update
      (resolveSteps sub env).kept) ⟨.empty, .empty⟩ ops) := by
  induction ops using List.reverseRecOn with
  | nil => exact ⟨rfl, fun _ => rfl⟩
  | append_singleton ops op ih =>
    rw [World.after, run_concat, run_concat]
    exact level_step ih op

/-- The calls of `resolve` in a run of the threads, each at the step where it takes effect. -/
def calls (sub : Substrate) (env : Pallet.Env) (ops : List (ThreadOp ι A)) : Ops A :=
  ReadThrough.linear (resolveSteps sub env) (.init .empty) ops

/-- Where no two lookups of one domain overlap and redis is up, the threads are as good as a lock:
    every answer is what an undivided call of `resolve` returns, at one of the thread's own steps
    among the changes of the chain and the other calls, after which it has called `resolve` no
    further time; and redis holds what it would hold then, but for what is fetched and not yet
    written. -/
theorem threads_sequential (sub : Substrate) (env : Pallet.Env) {ops : List (ThreadOp ι A)}
    (hops : EachStep (ReadThrough.System.step (resolveSteps sub env)) ReadThrough.Exclusive
      (.init .empty) ops) :
    (∀ t domain r, (Threads.after sub env ops).thread t = .returned domain r →
      ∃ pre op post, ops = pre ++ op :: post ∧ (op = .get t domain true ∨ op = .fetch t) ∧
        calls sub env (pre ++ [op]) = calls sub env pre ++ [.ask domain] ∧
        (resolve sub domain (World.after sub env (calls sub env pre))).1 = r ∧
        EachStep (ReadThrough.System.step (resolveSteps sub env))
          (fun s op' => ¬ ReadThrough.Starts t s op') (Threads.after sub env (pre ++ [op])) post) ∧
      (World.after sub env (calls sub env ops)).chain = (Threads.after sub env ops).source ∧
      ∀ domain, (∀ t, ((Threads.after sub env ops).thread t).pending ≠ some domain) →
        (World.after sub env (calls sub env ops)).redis.find? (cacheKey domain) =
          (Threads.after sub env ops).memo.find? (cacheKey domain) := by
  obtain ⟨hsim, hreply⟩ := ReadThrough.simulates_run _ hops
  have hlevel : Level (World.after sub env (calls sub env ops)) _ := level_after _
  refine ⟨fun t domain r hr => ?_, hlevel.chain.trans hsim.source, fun domain hquiet => ?_⟩
  · have hreplied := hreply t
    rw [← Threads.after, hr] at hreplied
    obtain ⟨pre, op, post, rfl, hop, hpoint, rfl, hsince⟩ := hreplied
    refine ⟨pre, op, post, rfl, hop, ?_, (reply_eq_resolve (level_after _) domain).symm, hsince⟩
    rw [calls, ReadThrough.linear_concat, hpoint]
    rfl
  · rw [hlevel.redis]
    refine hsim.level fun t w r hfetched => hquiet t ?_
    rw [Threads.after, hfetched]
    rfl

/-- The lookup of `ab.cd` in thread 0, as a call of `resolve`. -/
theorem threads_sequential_ab :
    ∃ pre op post, opsAb = pre ++ op :: post ∧
      (op = .get 0 "ab.cd".toList true ∨ op = .fetch 0) ∧
      calls plainSubstrate Pallet.asciiEnv (pre ++ [op]) =
        calls plainSubstrate Pallet.asciiEnv pre ++ [.ask "ab.cd".toList] ∧
      (resolve plainSubstrate "ab.cd".toList (World.after plainSubstrate Pallet.asciiEnv
        (calls plainSubstrate Pallet.asciiEnv pre))).1 = .ok (some resolvedAb) ∧
      EachStep (ReadThrough.System.step (resolveSteps plainSubstrate Pallet.asciiEnv))
        (fun s op' => ¬ ReadThrough.Starts 0 s op')
        (Threads.after plainSubstrate Pallet.asciiEnv (pre ++ [op])) post := by
  have hreturned := after_opsAb.1 0
  have hops := exclusive_of_alone plainSubstrate Pallet.asciiEnv (Pallet.registerAb 1)
    "ab.cd".toList (0 : Nat)
  rw [if_pos rfl, opsAb] at hreturned
  rw [opsAb]
  exact (threads_sequential plainSubstrate Pallet.asciiEnv hops).1 0 _ _ hreturned

end Siip.Proxy
