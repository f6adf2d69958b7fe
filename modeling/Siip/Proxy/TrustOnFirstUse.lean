/-
  Auto-scrape from end to end: a proxy that reaches a domain which is not on the chain registers the
  key that the server has shown, and from then on every proxy holds the server to this key.

  The key goes through `register_certificate`, the extrinsic that the client library submits, the
  checks of the pallet, the storage, `plow` and the cache to `verify`. What later extrinsics do to
  other domains, and later registrations of the same domain, do not matter: the first key stays
  until the keypair that has signed modifies or removes the entry (`trust_on_first_use`).
-/
import Siip.Pallet.AddressText
import Siip.Client.Scripts
import Siip.Proxy.Resolver
import Siip.Proxy.Scrape
import Siip.Proxy.Tunnel

namespace Siip.Proxy

open Lib Python
open Client (Encoder plainEncoder register)

/-! ## The extrinsic -/

variable {A : Type}

/-- The extrinsic that `register_certificate` submits for a server. -/
def scrapedExtrinsic (encoder : Encoder) (keypair : A) (publicKeyOf : Bytes → Bytes)
    (domain ip : Str) (derCert : Bytes) : Except Exn (Pallet.Extrinsic A) := do
  let pubkey ← scrapedKey (dumpPublickey publicKeyOf) derCert
  .ok (register encoder keypair domain "Proxy".toList ip "{}".toList pubkey)

/-- The certificate that is stored for it. -/
def scrapedCert (keypair : A) (publicKeyOf : Bytes → Bytes) (domain ip : Str) (derCert : Bytes) :
    Pallet.Certificate A :=
  Pallet.newCert keypair (asBytes "Proxy") (utf8Bytes domain) (utf8Bytes ip) (asBytes "{}")
    (utf8Bytes (SiipCertificate.pkStrOf (publicKeyOf derCert)))

section

variable (encoder : Encoder) (keypair : A) (publicKeyOf : Bytes → Bytes) {domain ip : Str}
  (derCert : Bytes) (hdomain : ¬ "0x".toList <+: domain) (hip : ¬ "0x".toList <+: ip)

include hdomain hip

theorem scrapedExtrinsic_eq :
    scrapedExtrinsic encoder keypair publicKeyOf domain ip derCert =
      .ok ⟨.signed keypair, .registerCertificate (asBytes "Proxy") (utf8Bytes domain)
        (utf8Bytes ip) (asBytes "{}")
        (utf8Bytes (SiipCertificate.pkStrOf (publicKeyOf derCert)))⟩ := by
  have hx : 'x' ∉ SiipCertificate.pkStrOf (publicKeyOf derCert) :=
    notMem_pkStrOf (by decide) (by decide) _
  have hkey : ¬ "0x".toList <+: SiipCertificate.pkStrOf (publicKeyOf derCert) :=
    fun h => hx (h.subset (by decide))
  have hname : encoder.vec "Proxy".toList = asBytes "Proxy" :=
    (encoder.vec_of_plain (by decide)).trans (utf8Bytes_toList _)
  have hinfo : encoder.vec "{}".toList = asBytes "{}" :=
    (encoder.vec_of_plain (by decide)).trans (utf8Bytes_toList _)
  rw [scrapedExtrinsic, scrapedKey_eq]
  dsimp only [bind, Except.bind, register]
  rw [hname, hinfo, encoder.vec_of_plain hdomain, encoder.vec_of_plain hip,
    encoder.vec_of_plain hkey]

end

/-- The fields of a scraped certificate pass the checks, if the domain and the address do and the
    key is not too long. -/
theorem fieldError_scraped {env : Pallet.Env} {publicKeyOf : Bytes → Bytes} {domain ip : Str}
    {derCert : Bytes} (hdomain : Pallet.accepts (Pallet.checkDomain env (utf8Bytes domain)) = true)
    (hip : Pallet.accepts (Pallet.checkIp (utf8Bytes ip)) = true)
    (hjson : env.isJson "{}".toList = true)
    (hlen : (publicKeyOf derCert).length ≤ 715827883) :
    Pallet.fieldError env (asBytes "Proxy") (utf8Bytes domain) (utf8Bytes ip) (asBytes "{}")
      (utf8Bytes (SiipCertificate.pkStrOf (publicKeyOf derCert))) = none := by
  refine Pallet.fieldError_eq_none.mpr ⟨?_, hdomain, hip, ?_, (accepts_pkStrOf_iff _).mpr hlen⟩
  · rw [Pallet.accepts_checkName, fromUtf8_asBytes]
    decide +kernel
  · rw [Pallet.accepts_checkInfo, fromUtf8_asBytes]
    simpa using hjson

theorem plain_of_accepts_checkIp {ip : Str}
    (h : Pallet.accepts (Pallet.checkIp (utf8Bytes ip)) = true) : ¬ "0x".toList <+: ip := by
  intro hzero
  have hx : 'x' ∈ ip := hzero.subset (by decide)
  have hchar := Pallet.mem_of_accepts_checkIp (fromUtf8_utf8Bytes ip) h hx
  exact absurd hchar (by decide)

/-! ## The chain and the caches -/

variable [DecidableEq A] [Inhabited A]

theorem World.after_append (sub : Substrate) (env : Pallet.Env) (ops later : Ops A)
    (op : Memo.Op (Pallet.Extrinsic A) Str) :
    World.after sub env (ops ++ op :: later) =
      run (World.step sub env) (World.step sub env (World.after sub env ops) op) later := by
  rw [World.after, run_append, run_cons]
  rfl

omit [DecidableEq A] [Inhabited A] in
/-- The chain holds `cert` for the domain, and the cache nothing or what is made of it. -/
structure Pinned (domain : Str) (cert : Pallet.Certificate A) (c : SiipCertificate) (w : World A) :
    Prop where
  chain : w.chain.certificateMap.find? (utf8Bytes domain) = some cert
  redis : w.redis.find? (cacheKey domain) = none ∨
    w.redis.find? (cacheKey domain) = some c.encode

section

variable {sub : Substrate} {domain : Str} {cert : Pallet.Certificate A} {c : SiipCertificate}
  (hheld : ∀ chain : Pallet.Storage A,
    chain.certificateMap.find? (utf8Bytes domain) = some cert → held sub chain domain = some c)

include hheld

omit [DecidableEq A] [Inhabited A] in
theorem Pinned.resolve {w : World A} (h : Pinned domain cert c w) :
    (Proxy.resolve sub domain w).1 = .ok (some c) := by
  rcases h.redis with hnone | hcached
  · exact (resolve_of_not_cached sub hnone).2 c (hheld _ h.chain)
  · rw [resolve_of_cached sub hcached]

theorem Pinned.step {env : Pallet.Env} {w : World A} (h : Pinned domain cert c w)
    {op : Memo.Op (Pallet.Extrinsic A) Str}
    (hop : ∀ x, op = .change x → Pallet.Spares cert.ownerId (utf8Bytes domain) x) :
    Pinned domain cert c (w.step sub env op) := by
  cases op with
  | change x => exact ⟨Pallet.find?_step_of_spares w.chain x h.chain (hop x rfl), h.redis⟩
  | ask d =>
    rw [World.step, snd_resolve]
    refine ⟨h.chain, ?_⟩
    dsimp only
    rw [Memo.find?_remember]
    by_cases hd : cacheKey d = cacheKey domain
    · obtain rfl := cacheKey_injective hd
      rw [if_pos rfl, hheld _ h.chain]
      exact .inr (h.redis.elim (fun hnone => by rw [hnone]; rfl) fun hsome => by rw [hsome]; rfl)
    · rw [if_neg hd, Option.or_none]
      exact h.redis

theorem Pinned.run {env : Pallet.Env} {w : World A} (h : Pinned domain cert c w) {ops : Ops A}
    (hops : ∀ x, .change x ∈ ops → Pallet.Spares cert.ownerId (utf8Bytes domain) x) :
    Pinned domain cert c (Lib.run (World.step sub env) w ops) := by
  have hstep : ∀ (w : World A) op, Pinned domain cert c w →
      (∀ x, op = .change x → Pallet.Spares cert.ownerId (utf8Bytes domain) x) →
      Pinned domain cert c (w.step sub env op) := fun _ _ hw hop => hw.step hheld hop
  refine run_invariant_of hstep h ?_
  rintro op hop x rfl
  exact hops x hop

end

/-! ## From the first server to the others -/

omit [DecidableEq A] [Inhabited A] in
theorem held_of_scrapedCert (sub : Substrate) (keypair : A) (publicKeyOf : Bytes → Bytes)
    (domain ip : Str) (derCert : Bytes) (chain : Pallet.Storage A)
    (h : chain.certificateMap.find? (utf8Bytes domain) =
      some (scrapedCert keypair publicKeyOf domain ip derCert)) :
    held sub chain domain = some ⟨ip, domain, publicKeyOf derCert⟩ := by
  have htext : ∀ cs : Str, sub.text (utf8Bytes cs) = cs := fun cs =>
    sub.text_of_utf8 (fromUtf8_utf8Bytes cs)
  rw [held, plow, h]
  simp only [scrapedCert, Pallet.newCert, Option.map_some, Option.bind_some, htext, new_pkStrOf,
    Except.toOption]

/-- The network of a proxy that resolves by this chain and this cache. -/
def World.network (sub : Substrate) (publicKeyOf : Bytes → Bytes) (w : World A) (net : Network) :
    Network :=
  { net with
    resolve := fun domain => (Proxy.resolve sub domain w).1
    dumpPublickey := dumpPublickey publicKeyOf }

omit [DecidableEq A] [Inhabited A] in
/-- A tunnel to a server that is reached and does its handshake. -/
theorem handleTunnel_of_resolved {sub : Substrate} {publicKeyOf : Bytes → Bytes} {w : World A}
    {net : Network} {server : Server} {requestUrl peerCert : Bytes} {url : HttpUrl} {domain : Str}
    {c : SiipCertificate} {conn : Nat} (hurl : HttpUrl.parse requestUrl = .ok url)
    (hdomain : decode url.host = .ok domain)
    (hresolve : (Proxy.resolve sub domain w).1 = .ok (some c))
    (hconn : net.createConnection c.ip url.port = .ok conn)
    (hwrap : net.wrapSocket .unverified conn (.str domain) = .ok ())
    (hhandshake : net.doHandshake .unverified conn (.str domain) = .ok peerCert) :
    handleTunnel (w.network sub publicKeyOf net) server requestUrl =
      if publicKeyOf peerCert = c.publicKey then .ok (.established domain .siip peerCert)
      else .ok (.badSiipCert domain ("Invalid SIIP Certificate ".toList ++
        SiipCertificate.pkStrOf (publicKeyOf peerCert))) := by
  have hverify : c.verify (dumpPublickey publicKeyOf) peerCert =
      if c.publicKey ≠ publicKeyOf peerCert then
        .error (.siipCert ("Invalid SIIP Certificate ".toList ++
          SiipCertificate.pkStrOf (publicKeyOf peerCert)))
      else .ok () := by
    rw [SiipCertificate.verify, dumpPublickey]
    dsimp only
    rw [pkBytes_publicKeyPem]
  have hconnect : ∀ ip, ip = c.ip → connectTunnel (w.network sub publicKeyOf net) server url domain
      (some c) ip = checkCertificate (w.network sub publicKeyOf net) server domain (some c) ip
        peerCert := by
    rintro ip rfl
    simp only [connectTunnel, World.network, hconn, Option.isSome_some, if_true, hwrap, hhandshake,
      bind, Except.bind]
  have htunnel : handleTunnel (w.network sub publicKeyOf net) server requestUrl =
      connectTunnel (w.network sub publicKeyOf net) server url domain (some c) c.ip := by
    have hfound : (w.network sub publicKeyOf net).resolve domain = .ok (some c) := hresolve
    simp only [handleTunnel, hurl, hdomain, hfound, bind, Except.bind]
  rw [htunnel, hconnect _ rfl, checkCertificate]
  have hnet : (w.network sub publicKeyOf net).dumpPublickey = dumpPublickey publicKeyOf := rfl
  rw [hnet, hverify]
  by_cases hkey : publicKeyOf peerCert = c.publicKey
  · rw [if_neg (not_not.mpr hkey.symm), if_pos hkey]
  · rw [if_pos (Ne.symm hkey), if_neg hkey]

/-- What the first registration of a domain has put on the chain binds every later tunnel to it:
    the server that was seen first is let through, and a server with another key is refused. -/
theorem trust_on_first_use (sub : Substrate) (env : Pallet.Env) (encoder : Encoder) (keypair : A)
    (publicKeyOf : Bytes → Bytes) (ops later : Ops A) (domain ip : Str) (derCert : Bytes)
    (x : Pallet.Extrinsic A)
    (hx : scrapedExtrinsic encoder keypair publicKeyOf domain ip derCert = .ok x)
    (hplain : ¬ "0x".toList <+: domain)
    (hdomain : Pallet.accepts (Pallet.checkDomain env (utf8Bytes domain)) = true)
    (hip : Pallet.accepts (Pallet.checkIp (utf8Bytes ip)) = true)
    (hjson : env.isJson "{}".toList = true) (hlen : (publicKeyOf derCert).length ≤ 715827883)
    (hfree : (World.after sub env ops).chain.certificateMap.find? (utf8Bytes domain) = none)
    (hcold : (World.after sub env ops).redis.find? (cacheKey domain) = none)
    (hlater : ∀ y, .change y ∈ later → Pallet.Spares keypair (utf8Bytes domain) y) :
    (resolve sub domain (World.after sub env (ops ++ .change x :: later))).1 =
        .ok (some ⟨ip, domain, publicKeyOf derCert⟩) ∧
      ∀ (net : Network) (server : Server) (requestUrl peerCert : Bytes) (url : HttpUrl)
        (conn : Nat), HttpUrl.parse requestUrl = .ok url → decode url.host = .ok domain →
        net.createConnection ip url.port = .ok conn →
        net.wrapSocket .unverified conn (.str domain) = .ok () →
        net.doHandshake .unverified conn (.str domain) = .ok peerCert →
        handleTunnel ((World.after sub env (ops ++ .change x :: later)).network sub publicKeyOf net)
            server requestUrl =
          if publicKeyOf peerCert = publicKeyOf derCert then
            .ok (.established domain .siip peerCert)
          else .ok (.badSiipCert domain ("Invalid SIIP Certificate ".toList ++
            SiipCertificate.pkStrOf (publicKeyOf peerCert))) := by
  have hheld := held_of_scrapedCert sub keypair publicKeyOf domain ip derCert
  have hfields := fieldError_scraped hdomain hip hjson hlen
  rw [scrapedExtrinsic_eq encoder keypair publicKeyOf derCert hplain
    (plain_of_accepts_checkIp hip)] at hx
  obtain rfl := Except.ok.inj hx
  have hfirst : Pinned domain (scrapedCert keypair publicKeyOf domain ip derCert)
      ⟨ip, domain, publicKeyOf derCert⟩ (World.step sub env (World.after sub env ops) (.change
        ⟨.signed keypair, .registerCertificate (asBytes "Proxy") (utf8Bytes domain)
          (utf8Bytes ip) (asBytes "{}")
          (utf8Bytes (SiipCertificate.pkStrOf (publicKeyOf derCert)))⟩)) := by
    refine ⟨?_, .inl hcold⟩
    rw [World.step]
    dsimp only
    rw [Pallet.step_registerCertificate keypair hfields hfree]
    exact StorageMap.find?_insert_self _ _ _
  have hpinned : Pinned domain _ _ (run (World.step sub env) _ later) := hfirst.run hheld hlater
  rw [World.after_append]
  refine ⟨hpinned.resolve hheld, ?_⟩
  intro net server requestUrl peerCert url conn hurl hhost hconn hwrap hhandshake
  exact handleTunnel_of_resolved hurl hhost (hpinned.resolve hheld) hconn hwrap hhandshake

omit [DecidableEq A] [Inhabited A] in
/-- A proxy with the same keypair that registers what it has seen spares every domain. -/
theorem spares_of_scraped {encoder : Encoder} {keypair : A} {publicKeyOf : Bytes → Bytes}
    {domain ip : Str} {derCert d : Bytes} {x : Pallet.Extrinsic A}
    (h : scrapedExtrinsic encoder keypair publicKeyOf domain ip derCert = .ok x) :
    Pallet.Spares keypair d x := by
  rw [scrapedExtrinsic, scrapedKey_eq] at h
  obtain rfl := Except.ok.inj h
  exact ⟨fun _ _ _ _ => by simp [register], by simp [register]⟩

/-- One proxy has seen the key 171 at `ab.cd`. Another registers 172, which it was shown by an
    impostor, and is refused; so is the impostor, at both. -/
theorem trust_on_first_use_impostor :
    ∃ x y, scrapedExtrinsic plainEncoder 1 id "ab.cd".toList "1.1.1.1".toList [171] = .ok x ∧
      scrapedExtrinsic plainEncoder 1 id "ab.cd".toList "2.2.2.2".toList [172] = .ok y ∧
      handleTunnel ((World.after plainSubstrate Pallet.asciiEnv ([] ++ .change x ::
          [.change y])).network plainSubstrate id
            { openNet with doHandshake := fun _ _ _ => .ok [172] }) ⟨true, true⟩
          (asBytes "ab.cd:443") =
        .ok (.badSiipCert "ab.cd".toList "Invalid SIIP Certificate AC".toList) := by
  have hurl : HttpUrl.parse (asBytes "ab.cd:443") =
      .ok ⟨asBytes "https", asBytes "ab.cd", 443, asBytes "/"⟩ := by
    decide +kernel
  have hhost : decode (asBytes "ab.cd") = .ok "ab.cd".toList := by
    rw [decode, fromUtf8_asBytes]
  obtain ⟨x, hx⟩ : ∃ x, scrapedExtrinsic plainEncoder 1 id "ab.cd".toList "1.1.1.1".toList [171] =
      .ok x := ⟨_, scrapedExtrinsic_eq _ _ _ _ (by decide) (by decide)⟩
  obtain ⟨y, hy⟩ : ∃ y, scrapedExtrinsic plainEncoder 1 id "ab.cd".toList "2.2.2.2".toList [172] =
      .ok y := ⟨_, scrapedExtrinsic_eq _ _ _ _ (by decide) (by decide)⟩
  refine ⟨x, y, hx, hy, ?_⟩
  obtain ⟨-, htunnel⟩ := trust_on_first_use plainSubstrate Pallet.asciiEnv plainEncoder 1 id []
    [.change y] "ab.cd".toList "1.1.1.1".toList [171] x hx (by decide)
    (by rw [utf8Bytes_toList]; exact Pallet.accepts_checkDomain_ab)
    (by rw [utf8Bytes_toList, Pallet.accepts_checkIp, fromUtf8_asBytes]; decide +kernel)
    (by decide) (by decide) rfl rfl
    (by
      intro z hz
      obtain ⟨⟩ := List.mem_singleton.mp hz
      exact spares_of_scraped hy)
  rw [htunnel _ _ _ [172] _ 0 hurl hhost rfl rfl rfl, if_neg (by decide)]
  decide +kernel

end Siip.Proxy
