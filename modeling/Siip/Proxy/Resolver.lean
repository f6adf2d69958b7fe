/-
  `siip_resolve.resolve`: certificates from the chain, kept in redis.

  Redis is a key-value store that is always reachable; nothing expires, and nothing but `resolve`
  writes to it. `plow` asks one node, which answers with what the chain holds at that moment.
  The cache has no invalidation: it is a memo table in front of the chain (`refines_after`), and
  what it holds for a domain is what the first lookup that found the domain was given.
-/
import Siip.Lib.Memo
import Siip.Pallet.WellFormed
import Siip.Proxy.Certificate

namespace Siip.Proxy

open Lib Python

/-- The client library: a `Vec<u8>` as a `str`, which is its text wherever it is UTF-8. -/
structure Substrate where
  text : Bytes → Str
  text_of_utf8 : ∀ {v : Bytes} {cs : Str}, fromUtf8 v = some cs → text v = cs

/-- The fields of a stored certificate that `resolve` reads. -/
structure CertFields where
  ipAddr : Str
  domain : Str
  key : Str

/-- The chain and the cache. -/
structure World (A : Type) where
  chain : Pallet.Storage A
  redis : StorageMap Str Str

def World.empty {A : Type} : World A := { chain := .empty, redis := .empty }

variable {A : Type} (sub : Substrate)

/-- `None` when the domain is not registered. -/
def plow (chain : Pallet.Storage A) (domain : Str) : Option CertFields :=
  (chain.certificateMap.find? (utf8Bytes domain)).map fun cert =>
    { ipAddr := sub.text cert.ipAddr, domain := sub.text cert.domain, key := sub.text cert.key }

/-- `f'SIIP:{domain}'` -/
def cacheKey (domain : Str) : Str := "SIIP:".toList ++ domain

def resolve (domain : Str) (w : World A) : Except Exn (Option SiipCertificate) × World A :=
  match w.redis.find? (cacheKey domain) with
  | some cached => ((decodeCertificate cached).map some, w)
  | none =>
    match plow sub w.chain domain with
    | none => (.ok none, w)
    | some certFields =>
      match SiipCertificate.new certFields.ipAddr certFields.domain (.str certFields.key) with
      | .error e => (.error e, w)
      | .ok cert =>
        (.ok (some cert), { w with redis := w.redis.insert (cacheKey domain) cert.encode })

/-- The certificate that `resolve` makes of what the chain holds for the domain, if it can. -/
def held (chain : Pallet.Storage A) (domain : Str) : Option SiipCertificate :=
  (plow sub chain domain).bind fun f =>
    (SiipCertificate.new f.ipAddr f.domain (.str f.key)).toOption

/-- The chain holds for the domain a certificate with the address and the public key of `c`. -/
def Holds (chain : Pallet.Storage A) (domain : Str) (c : SiipCertificate) : Prop :=
  ∃ cert key, chain.certificateMap.find? (utf8Bytes domain) = some cert ∧
    fromUtf8 cert.ipAddr = some c.ip ∧ fromUtf8 cert.domain = some c.domain ∧
    fromUtf8 cert.key = some key ∧ fromHex (key.filter (· ≠ ':')) = some c.publicKey

/-- What happens to the system: extrinsics on the chain, and calls of `resolve`. -/
abbrev Ops (A : Type) := List (Memo.Op (Pallet.Extrinsic A) Str)

variable [DecidableEq A] [Inhabited A]

/-- One step of the system: an extrinsic on the chain, or a call of `resolve`. -/
def World.step (env : Pallet.Env) (w : World A) : Memo.Op (Pallet.Extrinsic A) Str → World A
  | .change x => { w with chain := Pallet.step env w.chain x }
  | .ask domain => (resolve sub domain w).2

/-- The system after `ops`, from an empty chain and an empty cache. -/
def World.after (env : Pallet.Env) (ops : Ops A) : World A :=
  run (World.step sub env) World.empty ops

/-! ## The cache is a memo table -/

omit [DecidableEq A] [Inhabited A] in
/-- The cache holds the encodings of what the memo table holds. -/
structure Refines (w : World A) (c : Memo.Cached (Pallet.Storage A) Str SiipCertificate) :
    Prop where
  chain : w.chain = c.source
  redis : ∀ domain, w.redis.find? (cacheKey domain) =
    (c.memo.find? domain).map SiipCertificate.encode

theorem cacheKey_injective : Function.Injective cacheKey :=
  fun _ _ h => List.append_cancel_left h

section

omit [DecidableEq A] [Inhabited A]

variable {w : World A} {domain : Str}

theorem resolve_of_cached {cert : SiipCertificate}
    (h : w.redis.find? (cacheKey domain) = some cert.encode) :
    resolve sub domain w = (.ok (some cert), w) := by
  rw [resolve, h]
  dsimp only
  rw [decodeCertificate_encode]
  rfl

theorem resolve_of_not_cached (h : w.redis.find? (cacheKey domain) = none) :
    ((resolve sub domain w).1 = .ok none ↔ plow sub w.chain domain = none) ∧
      ∀ cert, held sub w.chain domain = some cert →
        (resolve sub domain w).1 = .ok (some cert) := by
  rw [resolve, h, held]
  cases hplow : plow sub w.chain domain with
  | none => simp
  | some f =>
    cases hnew : SiipCertificate.new f.ipAddr f.domain (.str f.key) with
    | error e => simp [hnew, Except.toOption]
    | ok cert => simp [hnew, Except.toOption]

/-- A call keeps what it found, where nothing was kept. -/
theorem snd_resolve :
    (resolve sub domain w).2 = { w with
      redis := Memo.remember w.redis (cacheKey domain)
        ((held sub w.chain domain).map SiipCertificate.encode) } := by
  rw [resolve]
  unfold Memo.remember held
  cases hredis : w.redis.find? (cacheKey domain) with
  | some cached => rfl
  | none =>
    cases hplow : plow sub w.chain domain with
    | none => rfl
    | some f =>
      cases hnew : SiipCertificate.new f.ipAddr f.domain (.str f.key) with
      | error e => simp [hnew, Except.toOption]
      | ok cert => simp [hnew, Except.toOption]

end

theorem refines_step {env : Pallet.Env} {w : World A}
    {c : Memo.Cached (Pallet.Storage A) Str SiipCertificate} (h : Refines w c)
    (op : Memo.Op (Pallet.Extrinsic A) Str) :
    Refines (w.step sub env op) (c.step (Pallet.step env) (held sub) op) := by
  obtain ⟨hchain, hredis⟩ := h
  cases op with
  | change x => exact ⟨congrArg (Pallet.step env · x) hchain, hredis⟩
  | ask domain =>
    constructor
    · rw [World.step, snd_resolve]
      exact hchain
    · intro d
      rw [World.step, snd_resolve, Memo.Cached.step, Memo.find?_remember, Memo.find?_remember,
        hredis, hchain, Option.map_or]
      by_cases hd : domain = d
      · rw [hd, if_pos rfl, if_pos rfl]
      · rw [if_neg hd, if_neg fun hk => hd (cacheKey_injective hk), Option.map_none]

theorem refines_after (env : Pallet.Env) (ops : Ops A) :
    Refines (World.after sub env ops)
      (run (Memo.Cached.step (Pallet.step env) (held sub)) ⟨.empty, .empty⟩ ops) := by
  have hrun : ∀ (w : World A) (c : Memo.Cached (Pallet.Storage A) Str SiipCertificate),
      Refines w c → Refines (run (World.step sub env) w ops)
        (run (Memo.Cached.step (Pallet.step env) (held sub)) c ops) := by
    induction ops with
    | nil => exact fun _ _ h => h
    | cons op ops ih => exact fun w c h => ih _ _ (refines_step sub h op)
  exact hrun _ _ ⟨rfl, fun _ => rfl⟩

/-- The chain does not notice the resolver. -/
theorem chain_after (env : Pallet.Env) (ops : Ops A) :
    (World.after sub env ops).chain = Pallet.runFromEmpty env (Memo.changes ops) := by
  rw [(refines_after sub env ops).chain, Memo.source_run]
  rfl

theorem redis_after (env : Pallet.Env) (ops : Ops A)
    (domain : Str) :
    (World.after sub env ops).redis.find? (cacheKey domain) =
      (Memo.firstFound (Pallet.step env) (held sub) domain .empty ops).map
        SiipCertificate.encode := by
  rw [(refines_after sub env ops).redis, Memo.find?_run]
  rfl

/-! ## What a lookup returns -/

/-- No lookup of the domain among the operations finds a certificate on the chain. -/
def NeverFound (env : Pallet.Env) (ops : Ops A) (domain : Str) : Prop :=
  ∀ pre post, ops = pre ++ .ask domain :: post →
    ∀ c, ¬ Holds (World.after sub env pre).chain domain c

/-- In a reachable state every field of a stored certificate is text, so what `resolve` makes of
    one is what the chain holds. -/
theorem held_eq_some_iff {env : Pallet.Env} {ops : Ops A} {domain : Str} {c : SiipCertificate} :
    held sub (World.after sub env ops).chain domain = some c ↔
      Holds (World.after sub env ops).chain domain c := by
  have hwf := Pallet.wellFormed_run env (Memo.changes ops)
  rw [chain_after] at *
  constructor
  · intro h
    obtain ⟨f, hplow, hnew⟩ := Option.bind_eq_some_iff.mp h
    obtain ⟨cert, hcert, rfl⟩ := Option.map_eq_some_iff.mp hplow
    obtain ⟨hip, hdomain, hkey⟩ := SiipCertificate.toOption_new_eq_some_iff.mp hnew
    have hutf8 := (hwf.forward _ cert hcert).2.2.utf8
    obtain ⟨ip, hip'⟩ := Option.isSome_iff_exists.mp hutf8.ipAddr
    obtain ⟨domain', hdomain'⟩ := Option.isSome_iff_exists.mp hutf8.domain
    obtain ⟨key, hkey'⟩ := Option.isSome_iff_exists.mp hutf8.key
    rw [sub.text_of_utf8 hip'] at hip
    rw [sub.text_of_utf8 hdomain'] at hdomain
    rw [sub.text_of_utf8 hkey'] at hkey
    exact ⟨cert, key, hcert, hip ▸ hip', hdomain ▸ hdomain', hkey', hkey⟩
  · intro h
    obtain ⟨cert, key, hcert, hip, hdomain, hkey, hhex⟩ := h
    rw [held, plow, hcert, Option.map_some, Option.bind_some,
      SiipCertificate.toOption_new_eq_some_iff]
    rw [sub.text_of_utf8 hip, sub.text_of_utf8 hdomain, sub.text_of_utf8 hkey]
    exact ⟨rfl, rfl, hhex⟩

theorem neverFound_iff {env : Pallet.Env} {ops : Ops A} {domain : Str} :
    NeverFound sub env ops domain ↔
      Memo.firstFound (Pallet.step env) (held sub) domain .empty ops = none := by
  have hchain : ∀ pre : Ops A, Memo.sourceAfter (Pallet.step env) .empty pre =
      (World.after sub env pre).chain := fun pre => (chain_after sub env pre).symm
  rw [Memo.firstFound_eq_none_iff]
  constructor
  · intro h pre post hops
    rw [hchain, Option.eq_none_iff_forall_ne_some]
    exact fun c hc => h pre post hops c ((held_eq_some_iff sub).mp hc)
  · intro h pre post hops c hc
    have hnone := h pre post hops
    rw [hchain, (held_eq_some_iff sub).mpr hc] at hnone
    exact absurd hnone (by simp)

/-- What the first lookup that finds the domain is given, every later one returns. -/
theorem resolve_of_found {env : Pallet.Env} {pre : Ops A} {domain : Str} {c : SiipCertificate}
    (hnever : NeverFound sub env pre domain)
    (hholds : Holds (World.after sub env pre).chain domain c) (post : Ops A) :
    (resolve sub domain (World.after sub env (pre ++ .ask domain :: post))).1 = .ok (some c) := by
  have hfirst : Memo.firstFound (Pallet.step env) (held sub) domain .empty
      (pre ++ .ask domain :: post) = some c := by
    have hheld := (held_eq_some_iff sub).mpr hholds
    rw [chain_after] at hheld
    rw [Memo.firstFound_append, (neverFound_iff sub).mp hnever, Option.none_or, Memo.firstFound,
      if_pos rfl]
    exact congrArg (Option.or · _) hheld
  have hredis := redis_after sub env (pre ++ .ask domain :: post) domain
  rw [hfirst] at hredis
  exact congrArg Prod.fst (resolve_of_cached sub hredis)

/-- A lookup returns what the first lookup that found the domain was given; only where there was
    none, it returns what the chain holds now, and nothing where the domain is not registered. -/
theorem resolve_after (env : Pallet.Env) (ops : Ops A) (domain : Str) :
    (∀ (pre post : Ops A) (c : SiipCertificate), ops = pre ++ .ask domain :: post →
        NeverFound sub env pre domain → Holds (World.after sub env pre).chain domain c →
        (resolve sub domain (World.after sub env ops)).1 = .ok (some c)) ∧
      (NeverFound sub env ops domain →
        ((resolve sub domain (World.after sub env ops)).1 = .ok none ↔
          (World.after sub env ops).chain.certificateMap.find? (utf8Bytes domain) = none) ∧
        ∀ c, Holds (World.after sub env ops).chain domain c →
          (resolve sub domain (World.after sub env ops)).1 = .ok (some c)) := by
  constructor
  · rintro pre post c rfl hnever hholds
    exact resolve_of_found sub hnever hholds post
  · intro hnever
    have hredis := redis_after sub env ops domain
    rw [(neverFound_iff sub).mp hnever] at hredis
    obtain ⟨hnone, hsome⟩ := resolve_of_not_cached sub hredis
    refine ⟨hnone.trans Option.map_eq_none_iff, fun c hholds => ?_⟩
    exact hsome c ((held_eq_some_iff sub).mpr hholds)

/-! ## A revoked certificate -/

/-- `resolve` answers with what the chain holds now. -/
def Fresh (w : World A) (domain : Str) : Prop :=
  ((resolve sub domain w).1 = .ok none ↔
      w.chain.certificateMap.find? (utf8Bytes domain) = none) ∧
    ∀ c, Holds w.chain domain c → (resolve sub domain w).1 = .ok (some c)

/-- Registered, looked up, and gone from the chain: it still resolves. -/
theorem not_fresh_of_revoked {env : Pallet.Env} {x y : Pallet.Extrinsic A} {domain : Str}
    {c : SiipCertificate} (hholds : Holds (Pallet.runFromEmpty env [x]) domain c)
    (hgone : (Pallet.runFromEmpty env [x, y]).certificateMap.find? (utf8Bytes domain) = none) :
    ¬ Fresh sub (World.after sub env [.change x, .ask domain, .change y]) domain := by
  intro h
  obtain ⟨hnone, -⟩ := h
  have hnever : NeverFound sub env [.change x] domain := by
    intro pre post hops
    cases pre with
    | nil => exact absurd hops (by simp)
    | cons op pre => exact absurd hops (by simp)
  have hfound := resolve_of_found sub hnever (by rw [chain_after]; exact hholds) [.change y]
  have hrevoked := hnone.mpr (by rw [chain_after]; exact hgone)
  exact absurd (hrevoked.symm.trans hfound) (by simp)

/-- Text where there is some, and hexadecimal where there is not. -/
def plainSubstrate : Substrate where
  text v := (fromUtf8 v).getD ("0x".toList ++ hex v)
  text_of_utf8 h := by rw [h, Option.getD_some]

theorem holds_registerAb (who : Nat) :
    Holds (Pallet.runFromEmpty Pallet.asciiEnv [Pallet.registerAb who]) "ab.cd".toList
      { ip := "1.1.1.1".toList, domain := "ab.cd".toList, publicKey := [171] } := by
  refine ⟨Pallet.certAb who, "AB".toList, ?_, ?_, ?_, ?_, by decide⟩
  · rw [utf8Bytes_toList]
    exact Pallet.find?_registerAb who
  · exact fromUtf8_asBytes "1.1.1.1"
  · exact fromUtf8_asBytes "ab.cd"
  · exact fromUtf8_asBytes "AB"

/-- The owner of `ab.cd` registers it, somebody looks it up, the owner removes it. -/
theorem revoked_not_fresh :
    ¬ Fresh plainSubstrate (World.after plainSubstrate Pallet.asciiEnv
      [.change (Pallet.registerAb 1), .ask "ab.cd".toList, .change (Pallet.removeAb 1)])
      "ab.cd".toList := by
  apply not_fresh_of_revoked plainSubstrate (holds_registerAb 1)
  rw [utf8Bytes_toList]
  exact Pallet.find?_removeAb 1

end Siip.Proxy
