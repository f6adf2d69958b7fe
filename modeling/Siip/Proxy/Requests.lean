/-
  `siip_requests`: the socket wrapper, and the requests written on the socket that it hands out.

  What lies outside the proxy is a `Network`, an arbitrary one: it resolves domains, connects, does
  TLS handshakes and gives the certificates of the peers.
-/
import Siip.Proxy.Certificate
import Siip.Proxy.HttpParse

namespace Siip.Proxy

open Python

/-- `ssl._create_unverified_context()` and `ssl.create_default_context()` -/
inductive SslContext where
  | unverified | default
  deriving DecidableEq

structure Network where
  /-- `siip_resolve.resolve` -/
  resolve : Str → Except Exn (Option SiipCertificate)
  /-- `siip_resolve.fallback_resolve` -/
  fallbackResolve : Str → Option Str
  /-- `siip_resolve.register_certificate` -/
  registerCertificate : Str → Str → Bytes → Except Exn Unit
  /-- `socket.create_connection` -/
  createConnection : Str → Int → Except Exn Nat
  /-- `wrap_socket` of a connection for a host name, short of the handshake -/
  wrapSocket : SslContext → Nat → Value → Except Exn Unit
  /-- the handshake, and the certificate of the peer -/
  doHandshake : SslContext → Nat → Value → Except Exn Bytes
  /-- the PEM text of the public key in a DER certificate -/
  dumpPublickey : Bytes → Except Exn Bytes

inductive Sock where
  | tcp (conn : Nat)
  | tls (conn : Nat) (peerCert : Bytes)
  deriving DecidableEq

/-- `s.decode()` -/
def decode (s : Bytes) : Except Exn Str :=
  match fromUtf8 s with
  | none => .error (.unicodeDecode s)
  | some text => .ok text

/-! ## The socket wrapper -/

structure SiipSocketWrapper where
  fullUrl : Bytes
  protocol : Bytes
  domain : Bytes
  port : Int
  sslContext : SslContext
  certificate : Option SiipCertificate := none
  tcpSocket : Option Sock := none
  tlsSocket : Option Sock := none
  deriving DecidableEq

namespace SiipSocketWrapper

/-- A wrapper for a parsed URL. -/
def ofUrl (fullUrl : Bytes) (url : HttpUrl) (sslContext : SslContext) : SiipSocketWrapper where
  fullUrl := fullUrl
  protocol := url.protocol
  domain := url.host
  port := url.port
  sslContext := sslContext

/-- `__init__` -/
def init (fullUrl : Bytes) (sslContext : SslContext) : Except Exn SiipSocketWrapper := do
  let url ← HttpUrl.parse fullUrl
  .ok (ofUrl fullUrl url sslContext)

/-- `__enter__`: the wrapper, and the socket that it hands out. An exception closes what was
    opened, and hands out nothing. -/
def enter (net : Network) (self : SiipSocketWrapper) :
    Except Exn (SiipSocketWrapper × Option Sock) := do
  let domain ← decode self.domain
  let certificate ← net.resolve domain
  match certificate with
  | none => .error .attribute
  | some cert =>
    let conn ← net.createConnection cert.ip self.port
    let self := { self with certificate, tcpSocket := some (.tcp conn), tlsSocket := none }
    -- a `bytes` on the left, a `str` on the right
    if Value.bytes self.protocol = Value.str "https".toList then
      net.wrapSocket self.sslContext conn (.bytes self.domain)
      let peerCert ← net.doHandshake self.sslContext conn (.bytes self.domain)
      cert.verify net.dumpPublickey peerCert
      let self := { self with tlsSocket := some (.tls conn peerCert) }
      .ok (self, self.tlsSocket)
    else .ok (self, self.tcpSocket)

end SiipSocketWrapper

/-! ## Requests -/

/-- What `request` has written, and where, when it begins to read the response. -/
structure Sent where
  socket : Sock
  written : List Bytes
  deriving DecidableEq

def request (net : Network) (method url : Bytes) (headers : Headers) (content : Option Value)
    (version : Bytes) (sslContext : SslContext) : Except Exn Sent := do
  let wrapper ← SiipSocketWrapper.init url sslContext
  let (_, siipSocket) ← wrapper.enter net
  let fields ← HttpUrl.parse url
  match siipSocket with
  | none => .error .attribute
  | some socket =>
    let line := method ++ asBytes " " ++ fields.uri ++ asBytes " " ++ version ++ asBytes "\r\n"
    let hdrs := headers.map fun h => h.1 ++ asBytes ": " ++ h.2 ++ asBytes "\r\n"
    let body :=
      match content with
      | none => []
      | some (.bytes content) => [content]
      | some (.str content) => [utf8Bytes content]
    .ok { socket, written := line :: hdrs ++ [asBytes "\r\n"] ++ body }

end Siip.Proxy
