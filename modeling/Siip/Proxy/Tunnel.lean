/-
  `handle_tunnel` up to its answer, and who is authenticated before traffic flows.

  A tunnel for a domain found on SIIP is established only to a server whose public key is the one
  in the certificate. `SiipSocketWrapper` means to do the same for `https`, but compares the
  protocol, which is `bytes`, with a `str`: its TLS branch is never taken, and what it hands out
  is the plain TCP connection.
-/
import Siip.Proxy.Requests

namespace Siip.Proxy

open Python

/-! ## CONNECT -/

/-- The options of the proxy that `handle_tunnel` reads. -/
structure Server where
  legacyFallback : Bool
  autoScrape : Bool

inductive VerifyMethod where
  | siip | legacy
  deriving DecidableEq

/-- How `handle_tunnel` answers. -/
inductive TunnelReply where
  | domainNotFound (domain : Str)
  | badTlsCert (domain ex : Str)
  | badSiipCert (domain ex : Str)
  /-- `Connection established` -/
  | established (domain : Str) (verifyMethod : VerifyMethod) (peerCert : Bytes)
  deriving DecidableEq

/-- The server's certificate when found on SIIP is verified; otherwise it may be registered. -/
def checkCertificate (net : Network) (server : Server) (domain : Str)
    (certificate : Option SiipCertificate) (ip : Str) (peerCert : Bytes) :
    Except Exn TunnelReply :=
  match certificate with
  | some cert =>
    match cert.verify net.dumpPublickey peerCert with
    | .error (.siipCert ex) => .ok (.badSiipCert domain ex)
    | .error e => .error e
    | .ok () => .ok (.established domain .siip peerCert)
  | none =>
    if server.autoScrape then
      match net.registerCertificate domain ip peerCert with
      | .error (.substrateRequest _) => .ok (.established domain .legacy peerCert)
      | .error e => .error e
      | .ok () => .ok (.established domain .legacy peerCert)
    else .ok (.established domain .legacy peerCert)

/-- Connects to the server of the domain; `certificate` is `none` when the method is `legacy`. -/
def connectTunnel (net : Network) (server : Server) (url : HttpUrl) (domain : Str)
    (certificate : Option SiipCertificate) (ip : Str) : Except Exn TunnelReply := do
  let conn ← net.createConnection ip url.port
  let context := if certificate.isSome then SslContext.unverified else SslContext.default
  net.wrapSocket context conn (.str domain)
  match net.doHandshake context conn (.str domain) with
  | .error (.ssl ex) =>
    if certificate.isSome then .error .assertion else .ok (.badTlsCert domain ex)
  | .error e => .error e
  | .ok peerCert => checkCertificate net server domain certificate ip peerCert

def handleTunnel (net : Network) (server : Server) (requestUrl : Bytes) :
    Except Exn TunnelReply := do
  let url ← HttpUrl.parse requestUrl
  let domain ← decode url.host
  let certificate ← net.resolve domain
  match certificate with
  | none =>
    if server.legacyFallback then
      match net.fallbackResolve domain with
      | none => .ok (.domainNotFound domain)
      | some ip => connectTunnel net server url domain none ip
    else .ok (.domainNotFound domain)
  | some cert => connectTunnel net server url domain (some cert) cert.ip

theorem verified_of_checkCertificate {net : Network} {server : Server} {domain domain' ip : Str}
    {certificate : Option SiipCertificate} {method : VerifyMethod} {peerCert peerCert' : Bytes}
    (h : checkCertificate net server domain certificate ip peerCert =
      .ok (.established domain' method peerCert')) :
    domain' = domain ∧
      ∀ cert, certificate = some cert → cert.verify net.dumpPublickey peerCert' = .ok () := by
  unfold checkCertificate at h
  split at h
  · rename_i cert
    split at h
    · exact absurd h (by simp)
    · exact absurd h (by simp)
    · rename_i hverify
      obtain ⟨⟩ := h
      refine ⟨rfl, ?_⟩
      rintro _ ⟨⟩
      exact hverify
  · refine ⟨?_, fun cert hcert => absurd hcert (by simp)⟩
    split at h
    · split at h
      · obtain ⟨⟩ := h
        rfl
      · exact absurd h (by simp)
      · obtain ⟨⟩ := h
        rfl
    · obtain ⟨⟩ := h
      rfl

theorem checked_of_connectTunnel {net : Network} {server : Server} {url : HttpUrl}
    {domain domain' ip : Str} {certificate : Option SiipCertificate} {method : VerifyMethod}
    {peerCert : Bytes}
    (h : connectTunnel net server url domain certificate ip =
      .ok (.established domain' method peerCert)) :
    ∃ peerCert', checkCertificate net server domain certificate ip peerCert' =
      .ok (.established domain' method peerCert) := by
  obtain ⟨conn, -, h⟩ := bind_eq_ok_iff.mp h
  obtain ⟨_, -, h⟩ := bind_eq_ok_iff.mp h
  split at h
  · split at h
    · exact absurd h (by simp)
    · exact absurd h (by simp)
  · exact absurd h (by simp)
  · exact ⟨_, h⟩

/-- What the CONNECT path establishes for a domain found on SIIP, it has verified. -/
theorem verified_of_established {net : Network} {server : Server} {requestUrl : Bytes}
    {domain : Str} {method : VerifyMethod} {peerCert : Bytes} {cert : SiipCertificate}
    (h : handleTunnel net server requestUrl = .ok (.established domain method peerCert))
    (hfound : net.resolve domain = .ok (some cert)) :
    cert.verify net.dumpPublickey peerCert = .ok () := by
  obtain ⟨url, -, h⟩ := bind_eq_ok_iff.mp h
  obtain ⟨domain', -, h⟩ := bind_eq_ok_iff.mp h
  obtain ⟨certificate, hresolve, h⟩ := bind_eq_ok_iff.mp h
  have hcheck : ∃ ip peerCert', checkCertificate net server domain' certificate ip peerCert' =
      .ok (.established domain method peerCert) := by
    cases certificate with
    | none =>
      dsimp only at h
      split at h
      · split at h
        · exact absurd h (by simp)
        · exact ⟨_, checked_of_connectTunnel h⟩
      · exact absurd h (by simp)
    | some cert => exact ⟨_, checked_of_connectTunnel h⟩
  obtain ⟨ip, peerCert', hcheck⟩ := hcheck
  obtain ⟨rfl, hverified⟩ := verified_of_checkCertificate hcheck
  exact hverified cert (Except.ok.inj (hresolve.symm.trans hfound))

/-- So its server has shown the public key in the certificate. -/
theorem key_of_established {net : Network} {server : Server} {requestUrl : Bytes}
    {domain : Str} {method : VerifyMethod} {peerCert : Bytes} {cert : SiipCertificate}
    (h : handleTunnel net server requestUrl = .ok (.established domain method peerCert))
    (hfound : net.resolve domain = .ok (some cert)) :
    ∃ pkStr, net.dumpPublickey peerCert = .ok pkStr ∧
      SiipCertificate.pkBytes pkStr = some cert.publicKey :=
  SiipCertificate.verify_eq_ok_iff.mp (verified_of_established h hfound)

/-! ## What the socket wrapper hands out -/

/-- The socket is a TLS one, to a server whose certificate was verified against the one of the
    domain on SIIP. -/
def Authenticated (net : Network) (url : HttpUrl) (s : Sock) : Prop :=
  ∃ domain cert conn peerCert, decode url.host = .ok domain ∧
    net.resolve domain = .ok (some cert) ∧ s = .tls conn peerCert ∧
    cert.verify net.dumpPublickey peerCert = .ok ()

/-- Nothing can be connected to: the host is no text, it is not found, or its server refuses. -/
def Unreachable (net : Network) (url : HttpUrl) : Prop :=
  ∀ domain cert conn, decode url.host = .ok domain → net.resolve domain = .ok (some cert) →
    net.createConnection cert.ip url.port ≠ .ok conn

/-- The comparison of `__enter__` fails whatever the protocol. -/
theorem enter_eq_tcp {net : Network} {self self' : SiipSocketWrapper} {s : Option Sock}
    (h : self.enter net = .ok (self', s)) :
    ∃ domain cert conn, decode self.domain = .ok domain ∧ net.resolve domain = .ok (some cert) ∧
      net.createConnection cert.ip self.port = .ok conn ∧ s = some (.tcp conn) := by
  obtain ⟨domain, hdomain, h⟩ := bind_eq_ok_iff.mp h
  obtain ⟨certificate, hresolve, h⟩ := bind_eq_ok_iff.mp h
  cases certificate with
  | none => exact absurd h (by simp)
  | some cert =>
    obtain ⟨conn, hconn, h⟩ := bind_eq_ok_iff.mp h
    have hne : Value.bytes self.protocol ≠ Value.str "https".toList := by simp
    dsimp only at h
    rw [if_neg hne] at h
    obtain ⟨⟩ := h
    exact ⟨domain, cert, conn, hdomain, hresolve, hconn, rfl⟩

section

variable {net : Network} {method url : Bytes} {headers : Headers} {content : Option Value}
  {version : Bytes} {context : SslContext} {u : HttpUrl}

theorem init_of_parse (hparse : HttpUrl.parse url = .ok u) :
    SiipSocketWrapper.init url context = .ok (SiipSocketWrapper.ofUrl url u context) := by
  rw [SiipSocketWrapper.init, hparse]
  rfl

theorem socket_of_request (hparse : HttpUrl.parse url = .ok u) {sent : Sent}
    (h : request net method url headers content version context = .ok sent) :
    ∃ domain cert conn, decode u.host = .ok domain ∧ net.resolve domain = .ok (some cert) ∧
      net.createConnection cert.ip u.port = .ok conn ∧ sent.socket = .tcp conn := by
  obtain ⟨wrapper, hinit, h⟩ := bind_eq_ok_iff.mp h
  obtain ⟨⟨wrapper', s⟩, henter, h⟩ := bind_eq_ok_iff.mp h
  obtain ⟨u', hparse', h⟩ := bind_eq_ok_iff.mp h
  rw [init_of_parse hparse] at hinit
  obtain ⟨⟩ := hinit
  obtain ⟨domain, cert, conn, hdomain, hresolve, hconn, rfl⟩ := enter_eq_tcp henter
  obtain ⟨⟩ := h
  exact ⟨domain, cert, conn, hdomain, hresolve, hconn, rfl⟩

variable (method headers content version context) in
theorem request_of_connected (hparse : HttpUrl.parse url = .ok u) {domain : Str}
    {cert : SiipCertificate} {conn : Nat} (hdomain : decode u.host = .ok domain)
    (hresolve : net.resolve domain = .ok (some cert))
    (hconn : net.createConnection cert.ip u.port = .ok conn) :
    ∃ sent, request net method url headers content version context = .ok sent := by
  obtain ⟨wrapper, henter⟩ : ∃ wrapper,
      (SiipSocketWrapper.ofUrl url u context).enter net = .ok (wrapper, some (.tcp conn)) := by
    simp [SiipSocketWrapper.enter, SiipSocketWrapper.ofUrl, hdomain, hresolve, hconn, bind,
      Except.bind]
  simp only [request, init_of_parse hparse, henter, hparse, bind, Except.bind]
  exact ⟨_, rfl⟩

/-- A request for `https` is written on an authenticated connection only where none is written
    at all; the tunnel of the CONNECT path keeps to what `request` does not. -/
theorem https_authenticated_iff (hparse : HttpUrl.parse url = .ok u)
    (_hhttps : u.protocol = asBytes "https") :
    ((∀ sent, request net method url headers content version context = .ok sent →
        Authenticated net u sent.socket) ↔ Unreachable net u) ∧
      ∀ server requestUrl domain verifyMethod peerCert cert,
        handleTunnel net server requestUrl = .ok (.established domain verifyMethod peerCert) →
        net.resolve domain = .ok (some cert) →
          cert.verify net.dumpPublickey peerCert = .ok () := by
  refine ⟨⟨?_, ?_⟩, fun _ _ _ _ _ _ => verified_of_established⟩
  · intro hauth domain cert conn hdomain hresolve hconn
    obtain ⟨sent, hsent⟩ := request_of_connected method headers content version context hparse
      hdomain hresolve hconn
    obtain ⟨_, _, _, _, _, _, htls, -⟩ := hauth sent hsent
    obtain ⟨_, _, _, _, _, _, htcp⟩ := socket_of_request hparse hsent
    exact absurd (htls.symm.trans htcp) (by simp)
  · intro hunreach sent hsent
    obtain ⟨domain, cert, conn, hdomain, hresolve, hconn, -⟩ := socket_of_request hparse hsent
    exact absurd hconn (hunreach domain cert conn hdomain hresolve)

end

/-- Every domain is found and every server reached; no server proves anything. -/
def openNet : Network where
  resolve domain := .ok (some { ip := "1.1.1.1".toList, domain, publicKey := [1] })
  fallbackResolve _ := none
  registerCertificate _ _ _ := .ok ()
  createConnection _ _ := .ok 0
  wrapSocket _ _ _ := .ok ()
  doHandshake _ _ _ := .ok []
  dumpPublickey _ := .ok []

/-- `https://ab.cd/` -/
def secureUrl : HttpUrl where
  protocol := asBytes "https"
  host := asBytes "ab.cd"
  port := 443
  uri := asBytes "/"

theorem parse_secureUrl : HttpUrl.parse (asBytes "https://ab.cd/") = .ok secureUrl := by
  decide +kernel

theorem https_authenticated_iff_openNet :
    (∀ sent, request openNet (asBytes "GET") (asBytes "https://ab.cd/") [] none
        (asBytes "HTTP/1.1") .unverified = .ok sent →
        Authenticated openNet secureUrl sent.socket) ↔ Unreachable openNet secureUrl :=
  (https_authenticated_iff parse_secureUrl rfl).1

/-- The request for `https://ab.cd/` goes out on the plain TCP connection. -/
theorem https_on_tcp :
    secureUrl.protocol = asBytes "https" ∧
      ∃ sent, request openNet (asBytes "GET") (asBytes "https://ab.cd/") [] none
        (asBytes "HTTP/1.1") .unverified = .ok sent ∧
        ¬ Authenticated openNet secureUrl sent.socket := by
  have hhost : decode secureUrl.host = .ok "ab.cd".toList := by
    rw [decode, secureUrl, fromUtf8_asBytes]
  have hresolve : openNet.resolve "ab.cd".toList = .ok (some
      { ip := "1.1.1.1".toList, domain := "ab.cd".toList, publicKey := [1] }) := rfl
  have hconn : openNet.createConnection "1.1.1.1".toList secureUrl.port = .ok 0 := rfl
  obtain ⟨sent, hsent⟩ := request_of_connected (asBytes "GET") [] none (asBytes "HTTP/1.1")
    .unverified parse_secureUrl hhost hresolve hconn
  obtain ⟨_, _, conn, -, -, -, htcp⟩ := socket_of_request parse_secureUrl hsent
  refine ⟨rfl, sent, hsent, ?_⟩
  intro h
  obtain ⟨_, _, _, _, -, -, htls, -⟩ := h
  exact absurd (htls.symm.trans htcp) (by simp)

end Siip.Proxy
