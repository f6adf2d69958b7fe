/-
  `proxy.ProxyHandler.handle`: what a client that connects gets, whatever it sends.

  A CONNECT is answered once: by a page when it is refused (`tunnel_refused`), or else by
  `Connection established`. After that the proxy makes a certificate for its own end of the tunnel,
  shakes hands with the client and relays; each of these steps may raise, or wait. Any other request
  is carried out at its server and never answered: the response has been parsed as a request, which
  `send_response` cannot write (`handle_outcome`). What is written to the client is taken to arrive.
-/
import Siip.Proxy.Pages
import Siip.Proxy.Relay
import Siip.Proxy.UrlText

namespace Siip.Proxy

open Lib Python

/-! ## Refusals -/

/-- The response that a refusal is sent as. -/
def TunnelReply.refusal (server : Server) : TunnelReply → Option HttpResponse
  | .domainNotFound domain => some (send404DomainNotfound server domain)
  | .badTlsCert domain ex => some (send500Badtlscert domain ex)
  | .badSiipCert domain ex => some (send500Badsiipcert domain ex)
  | .established _ _ _ => none

/-- Everything that is answered to a request for the tunnel to `domain`. -/
inductive RepliesFor (domain : Str) : TunnelReply → Prop
  | domainNotFound : RepliesFor domain (.domainNotFound domain)
  | badTlsCert (ex : Str) : RepliesFor domain (.badTlsCert domain ex)
  | badSiipCert (pk : Bytes) : RepliesFor domain (.badSiipCert domain
      ("Invalid SIIP Certificate ".toList ++ SiipCertificate.pkStrOf pk))
  | established (method : VerifyMethod) (peerCert : Bytes) :
      RepliesFor domain (.established domain method peerCert)

section

variable {net : Network} {server : Server} {domain ip : Str} {url : HttpUrl}
  {certificate : Option SiipCertificate} {reply : TunnelReply}
  (hdump : ∀ der ex, net.dumpPublickey der ≠ .error (.siipCert ex))

include hdump

theorem repliesFor_of_checkCertificate {peerCert : Bytes}
    (h : checkCertificate net server domain certificate ip peerCert = .ok reply) :
    RepliesFor domain reply := by
  unfold checkCertificate at h
  split at h
  · split at h
    · rename_i ex hverify
      cases h
      obtain ⟨pk, rfl⟩ := eq_of_siipCert hdump hverify
      exact .badSiipCert pk
    · exact absurd h (by simp)
    · cases h
      exact .established .siip peerCert
  · split at h
    · split at h
      · cases h
        exact .established .legacy peerCert
      · exact absurd h (by simp)
      · cases h
        exact .established .legacy peerCert
    · cases h
      exact .established .legacy peerCert

theorem repliesFor_of_connectTunnel
    (h : connectTunnel net server url domain certificate ip = .ok reply) :
    RepliesFor domain reply := by
  obtain ⟨conn, -, h⟩ := bind_eq_ok_iff.mp h
  obtain ⟨_, -, h⟩ := bind_eq_ok_iff.mp h
  split at h
  · split at h
    · exact absurd h (by simp)
    · rename_i ex _ _
      cases h
      exact .badTlsCert ex
  · exact absurd h (by simp)
  · exact repliesFor_of_checkCertificate hdump h

theorem repliesFor_of_handleTunnel {requestUrl : Bytes}
    (h : handleTunnel net server requestUrl = .ok reply) :
    ∃ url domain, HttpUrl.parse requestUrl = .ok url ∧ decode url.host = .ok domain ∧
      RepliesFor domain reply := by
  obtain ⟨url, hurl, h⟩ := bind_eq_ok_iff.mp h
  obtain ⟨domain, hdomain, h⟩ := bind_eq_ok_iff.mp h
  obtain ⟨certificate, -, h⟩ := bind_eq_ok_iff.mp h
  refine ⟨url, domain, hurl, hdomain, ?_⟩
  cases certificate with
  | none =>
    dsimp only at h
    split at h
    · split at h
      · cases h
        exact .domainNotFound
      · exact repliesFor_of_connectTunnel hdump h
    · cases h
      exact .domainNotFound
  | some cert => exact repliesFor_of_connectTunnel hdump h

end

/-- A page about `domain`, with the markup of one of the three, that is read as it was sent. -/
structure RefusedBy (response : HttpResponse) (domain : Str) : Prop where
  delivered : Delivered response
  shows : ∃ literals tags, response.body = some (utf8Bytes (Html.fill literals domain)) ∧
    tags ∈ [notFoundTags.flatten, badTlsTags.flatten, badSiipTags.flatten] ∧
    Shows (Html.fill literals domain) tags literals domain

/-- Whatever a client asks for, a refusal is a response that `HttpResponse.parse_header` and then
    `parse_body` read to its end, and a page that shows the name it has asked for and has no markup
    of its own; but for the page about a bad TLS certificate, which has the markup of the text of
    the exception, if there is any. -/
theorem tunnel_refused (net : Network) (server : Server) {requestUrl : Bytes}
    {reply : TunnelReply} {response : HttpResponse}
    (hdump : ∀ der ex, net.dumpPublickey der ≠ .error (.siipCert ex))
    (h : handleTunnel net server requestUrl = .ok reply)
    (hrefusal : reply.refusal server = some response) :
    ∃ url domain, HttpUrl.parse requestUrl = .ok url ∧ decode url.host = .ok domain ∧
      Delivered response ∧
      ((∀ ex, reply = .badTlsCert domain ex → Plain ex) → RefusedBy response domain) := by
  obtain ⟨url, domain, hurl, hdomain, hreply⟩ := repliesFor_of_handleTunnel hdump h
  refine ⟨url, domain, hurl, hdomain, ?_⟩
  cases hreply with
  | domainNotFound =>
    cases hrefusal
    exact ⟨delivered_404 server domain, fun _ => ⟨delivered_404 server domain, _, _, rfl, by simp,
      shows_notFound server.legacyFallback domain⟩⟩
  | badTlsCert ex =>
    cases hrefusal
    exact ⟨delivered_500 _, fun hplain => ⟨delivered_500 _, _, _, rfl, by simp,
      shows_badTls domain (hplain ex rfl)⟩⟩
  | badSiipCert pk =>
    cases hrefusal
    exact ⟨delivered_500 _, fun _ => ⟨delivered_500 _, _, _, rfl, by simp,
      shows_badSiip domain (plain_siipCert pk)⟩⟩
  | established method peerCert => exact absurd hrefusal (by simp [TunnelReply.refusal])

/-- A network on which no domain is found. -/
def emptyNet : Network := { openNet with resolve := fun _ => .ok none }

/-- A client that asks for a tag. -/
theorem tunnel_refused_tag :
    ∃ url domain, HttpUrl.parse (asBytes "<b>:443") = .ok url ∧ decode url.host = .ok domain ∧
      RefusedBy (send404DomainNotfound ⟨false, false⟩ "<b>".toList) domain := by
  have hurl : HttpUrl.parse (asBytes "<b>:443") =
      .ok ⟨asBytes "https", asBytes "<b>", 443, asBytes "/"⟩ := by
    decide +kernel
  have hreply : handleTunnel emptyNet ⟨false, false⟩ (asBytes "<b>:443") =
      .ok (.domainNotFound "<b>".toList) := by
    simp only [handleTunnel, hurl, bind, Except.bind, decode, fromUtf8_asBytes]
    rfl
  obtain ⟨url, domain, hparse, hdecode, -, hrefuses⟩ := tunnel_refused emptyNet ⟨false, false⟩
    (fun _ _ => by simp [emptyNet, openNet]) hreply rfl
  exact ⟨url, domain, hparse, hdecode, hrefuses (by simp)⟩

/-! ## Requests without a tunnel -/

/-- The literals of the page of `handle_http`, around the text of the exception. -/
def badHostLiterals (ex : Str) : List Str :=
  ["<!DOCTYPE html><html>
                <head><title>Bad TLS Certificate: ".toList,
    "</title></head>
                <body>
                    <h1>Error 500: Untrusted SIIP certificate</h1>
                    <p>
                        Refusing to connect to domain ".toList,
    " as it contains an untrusted SIIP certificate.
                        Either the website's certificate is out of date, or someone is attempting a man-in-the-middle attack.
                    </p>
                    <p>
                        If the problem persists, please contact the website owner.
                    </p>
                    <p>
                        ".toList ++ ex ++ "
                    </p>
                </body></html>".toList]

/-- The response of `handle_http` to a `SiipCertError`. -/
def badHostResponse (headers : Headers) (ex : Str) : Except Exn HttpResponse :=
  match headers.get? (asBytes "Host") with
  | none => .error (.key "Host".toList)
  | some host => do
    let host ← decode host
    .ok {
      statuscode := some 500
      status := some (asBytes "Internal Server Error")
      version := some (asBytes "HTTP/1.1")
      body := some (utf8Bytes (Html.fill (badHostLiterals ex) host)) }

/-- `handle_http` to its end: what it writes to the client. `respond` is what servers send back.
    With `log` set it reads `self.http_requestquest`, which there is not. -/
def HttpRequest.answerHttp (net : Network) (log : Bool) (respond : Sent → BufferedSocket)
    (self : HttpRequest) : Except Halt (List Bytes) :=
  match self.forwardedHeaders with
  | .error e => .error (.raised e)
  | .ok headers =>
    let response : Except Halt HttpMessage :=
      match self.handleHttp net with
      | .error e => .error (.raised e)
      | .ok sent => do
        let (message, _) ← HttpResponse.parse (respond sent)
        if log then .error (.raised .attribute) else .ok message
    let response : Except Halt HttpMessage :=
      match response with
      | .error (.raised (.siipCert ex)) =>
        match badHostResponse headers ex with
        | .error e => .error (.raised e)
        | .ok response => .ok (.response response)
      | response => response
    match response with
    | .error e => .error e
    | .ok message =>
      match forwardResponse message with
      | .error e => .error (.raised e)
      | .ok written => .ok written

/-! ## The proxy's end of the tunnel -/

/-- What the proxy finds on its own side of a tunnel: the pyOpenSSL calls on the certificate of the
    server, from `load_certificate` over `sign` to `dump_certificate`; the file system; the context
    that loads the certificate; the client, which shakes hands or not; and what each iteration of
    the relay finds. -/
structure ClientSide where
  pid : Nat
  fileno : Nat
  signCertificate : (serverSslCert : Bytes) → Except Exn Bytes
  writeFile : (filename : Str) → (pem : Bytes) → Except Exn Unit
  loadCertChain : (filename : Str) → Except Exn Unit
  wrapSocket : Except Halt Unit
  turns : List Turn
  removeFile : (filename : Str) → Except Exn Unit

def tmpCrtFilename (pid fileno : Nat) : Str :=
  "TMPcrt_".toList ++ (toString pid).toList ++ "_".toList ++ (toString fileno).toList ++
    ".crt".toList

def raising {α : Type} (x : Except Exn α) : Except Halt α := x.mapError .raised

/-- `try: ... finally: ...`, where the end is not reached while the body waits. -/
def tryFinally {α : Type} (body : Except Halt α) (last : Except Exn Unit) : Except Halt α :=
  match body with
  | .error .waiting => .error .waiting
  | _ =>
    match last with
    | .error e => .error (.raised e)
    | .ok () => body

/-- `handle_tunnel` after it has written `Connection established`: a certificate for the domain is
    signed with the proxy's own key, and lies in a file while the relay runs. -/
def ClientSide.serve (self : ClientSide) (log : Bool) (domain : Str) (serverSslCert : Bytes) :
    Except Halt (Option Str) := do
  let filename := tmpCrtFilename self.pid self.fileno
  let clientSslCert ← raising (self.signCertificate serverSslCert)
  raising (self.writeFile filename clientSslCert)
  tryFinally
    (do
      raising (self.loadCertChain filename)
      self.wrapSocket
      passiveProxy log domain self.turns)
    (self.removeFile filename)

theorem body_of_tryFinally {α : Type} {body : Except Halt α} {last : Except Exn Unit} {a : α}
    (h : tryFinally body last = .ok a) : body = .ok a := by
  unfold tryFinally at h
  split at h
  · exact absurd h (by simp)
  · split at h
    · exact absurd h (by simp)
    · exact h

/-- Where the tunnel comes to its end, the relay has. -/
theorem ClientSide.relayed_of_serve {self : ClientSide} {log : Bool} {domain : Str}
    {serverSslCert : Bytes} {line : Option Str}
    (h : self.serve log domain serverSslCert = .ok line) :
    passiveProxy log domain self.turns = .ok line := by
  obtain ⟨clientSslCert, -, h⟩ := bind_eq_ok_iff.mp h
  obtain ⟨-, -, h⟩ := bind_eq_ok_iff.mp h
  obtain ⟨-, -, h⟩ := bind_eq_ok_iff.mp (body_of_tryFinally h)
  obtain ⟨-, -, h⟩ := bind_eq_ok_iff.mp h
  exact h

/-! ## The handler -/

/-- How the handler returns: without a tunnel, or after one, with the line that is printed. -/
inductive Next where
  | done
  | relayed (line : Option Str)
  deriving DecidableEq

/-- What has been written to a client in the clear, and how the handler ends. -/
structure Handled where
  written : List Bytes
  next : Except Halt Next

/-- A response is all that is written. -/
def respondWith (response : HttpResponse) : Handled :=
  match sendResponse (.response response) with
  | .error e => ⟨[], .error (.raised e)⟩
  | .ok written => ⟨written, .ok .done⟩

def connectionEstablished : Bytes := asBytes "HTTP/1.1 200 Connection established\r\n\r\n"

def TunnelReply.handled (server : Server) (log : Bool) (client : ClientSide) :
    TunnelReply → Handled
  | .domainNotFound domain => respondWith (send404DomainNotfound server domain)
  | .badTlsCert domain ex => respondWith (send500Badtlscert domain ex)
  | .badSiipCert domain ex => respondWith (send500Badsiipcert domain ex)
  | .established domain _ peerCert =>
    ⟨[connectionEstablished], (client.serve log domain peerCert).map .relayed⟩

def handle (net : Network) (server : Server) (log : Bool) (client : ClientSide)
    (respond : Sent → BufferedSocket) (sock : BufferedSocket) : Handled :=
  match HttpRequest.parseHeader sock with
  | .error e => ⟨[], .error e⟩
  | .ok (none, _) => ⟨[], .ok .done⟩
  | .ok (some request, sock) =>
    if request.method = some (asBytes "CONNECT") then
      match request.url with
      | none => ⟨[], .error (.raised .attribute)⟩
      | some url =>
        match handleTunnel net server url with
        | .error e => ⟨[], .error (.raised e)⟩
        | .ok reply => reply.handled server log client
    else
      match request.parseBody sock with
      | .error e => ⟨[], .error e⟩
      | .ok (request, _) =>
        match request.answerHttp net log respond with
        | .error e => ⟨[], .error e⟩
        | .ok written => ⟨written, .ok .done⟩

/-- Neither the resolver nor the operating system raises the error of the proxy's own check. -/
structure Network.Foreign (net : Network) : Prop where
  resolve : ∀ domain ex, net.resolve domain ≠ .error (.siipCert ex)
  createConnection : ∀ ip port ex, net.createConnection ip port ≠ .error (.siipCert ex)
  dumpPublickey : ∀ der ex, net.dumpPublickey der ≠ .error (.siipCert ex)

/-! ## Nothing else raises a `SiipCertError` -/

theorem parse_ne_siipCert (text : Bytes) (ex : Str) :
    HttpUrl.parse text ≠ .error (.siipCert ex) := by
  rw [parse_eq, splitPort]
  split
  · split
    · split <;> simp
    · simp
  · simp

theorem headerLine_ne_siipCert (self : HeaderParser) (buf : Bytes) (ex : Str) :
    headerLine self buf ≠ .error (.siipCert ex) := by
  unfold headerLine
  split
  · simp
  · dsimp only
    split
    · split <;> simp
    · split
      · simp
      · split <;> simp
    · simp

theorem addBody_ne_siipCert (body : Option Bytes) (data : Bytes) (ex : Str) :
    addBody body data ≠ .error (.siipCert ex) := by
  cases body <;> simp [addBody]

theorem chunk_ne_siipCert (self : BodyParser) (buf : Bytes) (ex : Str) :
    chunk self buf ≠ .error (.siipCert ex) := by
  unfold chunk
  split
  · simp
  · dsimp only
    split
    · simp
    · split
      · simp
      · split
        · rename_i e hadd
          intro h
          obtain rfl := Except.error.inj h
          exact addBody_ne_siipCert _ _ ex hadd
        · simp

theorem feedBody_ne_siipCert (self : HttpRequest) (s : BodyParser × Bytes) (rcvd : Bytes)
    (ex : Str) : self.feedBody s rcvd ≠ .error (.siipCert ex) := by
  unfold HttpRequest.feedBody
  split
  · intro h
    obtain ⟨st, buf, hrun⟩ := Pass.run_of_drain_error h
    exact chunk_ne_siipCert st buf ex hrun
  · dsimp only
    split
    · split
      · simp
      · split
        · rename_i e hadd
          intro h
          obtain rfl := Except.error.inj h
          exact addBody_ne_siipCert _ _ ex hadd
        · simp
    · simp

theorem parseHeader_ne_siipCert (sock : BufferedSocket) (ex : Str) :
    HttpRequest.parseHeader sock ≠ .error (.raised (.siipCert ex)) := by
  intro h
  rcases bind_eq_error_iff.mp h with hloop | ⟨r, -, h⟩
  · obtain ⟨s, rcvd, hfeed⟩ := feed_of_recvLoop_raised hloop
    obtain ⟨st, buf, hrun⟩ := Pass.run_of_drain_error hfeed
    exact headerLine_ne_siipCert st buf ex hrun
  · dsimp only at h
    split at h <;> simp at h

theorem parseBody_ne_siipCert (self : HttpRequest) (sock : BufferedSocket) (ex : Str) :
    self.parseBody sock ≠ .error (.raised (.siipCert ex)) := by
  intro h
  unfold HttpRequest.parseBody at h
  split at h
  · rename_i e hfirst
    obtain rfl : e = .siipCert ex := by simpa using h
    exact feedBody_ne_siipCert self _ _ ex hfirst
  · rcases bind_eq_error_iff.mp h with hloop | ⟨r, -, h⟩
    · obtain ⟨s, rcvd, hfeed⟩ := feed_of_recvLoop_raised hloop
      exact feedBody_ne_siipCert self s rcvd ex hfeed
    · unfold HttpRequest.finishBody at h
      split at h <;> simp at h

/-- What is received from a server is a request, or an exception of a parser. -/
theorem response_parse (sock : BufferedSocket) :
    (∀ ex, HttpResponse.parse sock ≠ .error (.raised (.siipCert ex))) ∧
      ∀ message sock', HttpResponse.parse sock = .ok (message, sock') →
        ∃ request, message = .request request := by
  constructor
  · intro ex h
    rcases bind_eq_error_iff.mp h with hheader | ⟨⟨request, sock'⟩, -, h⟩
    · exact parseHeader_ne_siipCert sock ex hheader
    · cases request with
      | none => simp at h
      | some request =>
        rcases bind_eq_error_iff.mp h with hbody | ⟨r, -, h⟩
        · exact parseBody_ne_siipCert request sock' ex hbody
        · simp at h
  · intro message sock' h
    obtain ⟨⟨request, sock''⟩, -, h⟩ := bind_eq_ok_iff.mp h
    cases request with
    | none => simp at h
    | some request =>
      obtain ⟨r, -, h⟩ := bind_eq_ok_iff.mp h
      cases h
      exact ⟨_, rfl⟩

/-- A request has no status code to write. -/
theorem forwardResponse_request (request : HttpRequest) :
    ∃ e, forwardResponse (.request request) = .error e := by
  rw [forwardResponse, sendResponse]
  dsimp only
  split
  · exact ⟨_, rfl⟩
  · exact ⟨_, rfl⟩

section

variable {net : Network} (hforeign : net.Foreign)

include hforeign

theorem enter_ne_siipCert (self : SiipSocketWrapper) (ex : Str) :
    self.enter net ≠ .error (.siipCert ex) := by
  intro h
  rcases bind_eq_error_iff.mp h with hdecode | ⟨domain, -, h⟩
  · unfold decode at hdecode
    split at hdecode <;> simp at hdecode
  · rcases bind_eq_error_iff.mp h with hresolve | ⟨certificate, -, h⟩
    · exact hforeign.resolve domain ex hresolve
    · cases certificate with
      | none => simp at h
      | some cert =>
        rcases bind_eq_error_iff.mp h with hconn | ⟨conn, -, h⟩
        · exact hforeign.createConnection cert.ip self.port ex hconn
        · -- the branch with the check is not taken
          have hne : Value.bytes self.protocol ≠ Value.str "https".toList := by simp
          dsimp only at h
          rw [if_neg hne] at h
          exact absurd h (by simp)

theorem handleHttp_ne_siipCert (self : HttpRequest) (ex : Str) :
    self.handleHttp net ≠ .error (.siipCert ex) := by
  intro h
  rcases bind_eq_error_iff.mp h with hheaders | ⟨headers, -, h⟩
  · unfold HttpRequest.forwardedHeaders at hheaders
    split at hheaders
    · simp at hheaders
    · rcases bind_eq_error_iff.mp hheaders with hurl | ⟨url, -, hheaders⟩
      · exact parse_ne_siipCert _ ex hurl
      · simp at hheaders
  · split at h
    · rcases bind_eq_error_iff.mp h with hinit | ⟨wrapper, -, h⟩
      · rcases bind_eq_error_iff.mp hinit with hurl | ⟨url, -, hinit⟩
        · exact parse_ne_siipCert _ ex hurl
        · simp at hinit
      · rcases bind_eq_error_iff.mp h with henter | ⟨⟨wrapper', socket⟩, -, h⟩
        · exact enter_ne_siipCert hforeign wrapper ex henter
        · rcases bind_eq_error_iff.mp h with hurl | ⟨url, -, h⟩
          · exact parse_ne_siipCert _ ex hurl
          · cases socket <;> simp at h
    · simp at h

/-- No response reaches the client: there is none, or it cannot be written. -/
theorem answerHttp_raises (log : Bool) (respond : Sent → BufferedSocket) (self : HttpRequest) :
    ∃ halt, self.answerHttp net log respond = .error halt := by
  unfold HttpRequest.answerHttp
  cases self.forwardedHeaders with
  | error e => exact ⟨_, rfl⟩
  | ok headers =>
    cases hsent : self.handleHttp net with
    | error e =>
      cases e with
      | siipCert ex => exact absurd hsent (handleHttp_ne_siipCert hforeign self ex)
      | _ => exact ⟨_, rfl⟩
    | ok sent =>
      obtain ⟨hraises, hrequest⟩ := response_parse (respond sent)
      cases hparse : HttpResponse.parse (respond sent) with
      | error halt =>
        cases halt with
        | waiting => exact ⟨.waiting, by simp [hparse, bind, Except.bind]⟩
        | raised e =>
          cases e with
          | siipCert ex => exact absurd hparse (hraises ex)
          | _ => exact ⟨_, by simp [hparse, bind, Except.bind]; rfl⟩
      | ok r =>
        obtain ⟨request, hmessage⟩ := hrequest r.1 r.2 hparse
        cases log with
        | true => exact ⟨.raised .attribute, by simp [hparse, bind, Except.bind]⟩
        | false =>
          obtain ⟨e, hwrite⟩ := forwardResponse_request request
          exact ⟨.raised e, by simp [hparse, bind, Except.bind, hmessage, hwrite]⟩

end

/-- A refusal is written as a whole. -/
theorem handled_of_refusal {server : Server} {reply : TunnelReply} {response : HttpResponse}
    (log : Bool) (client : ClientSide) (h : reply.refusal server = some response) :
    reply.handled server log client = respondWith response := by
  cases reply with
  | established domain method peerCert => exact absurd h (by simp [TunnelReply.refusal])
  | _ =>
    cases h
    rfl

section

variable {net : Network} {server : Server} {log : Bool} {client : ClientSide}
  {respond : Sent → BufferedSocket} {sock sock' : BufferedSocket} {request : HttpRequest}
  (hheader : HttpRequest.parseHeader sock = .ok (some request, sock'))

include hheader

theorem handle_of_plain (hforeign : net.Foreign)
    (hmethod : request.method ≠ some (asBytes "CONNECT")) :
    ∃ halt, handle net server log client respond sock = ⟨[], .error halt⟩ := by
  unfold handle
  rw [hheader]
  dsimp only
  rw [if_neg hmethod]
  cases request.parseBody sock' with
  | error halt => exact ⟨halt, rfl⟩
  | ok r =>
    obtain ⟨halt, hraises⟩ := answerHttp_raises hforeign log respond r.1
    exact ⟨halt, by dsimp only; rw [hraises]⟩

variable (log client respond) in
theorem handle_of_connect (hmethod : request.method = some (asBytes "CONNECT")) {url : Bytes}
    (hurl : request.url = some url) {reply : TunnelReply}
    (hreply : handleTunnel net server url = .ok reply) :
    handle net server log client respond sock = reply.handled server log client := by
  rw [handle, hheader]
  simp only [hmethod, hurl, hreply, if_true]

end

/-- What is written to a client is the answer to a tunnel. -/
theorem connect_of_written {net : Network} {server : Server} {log : Bool} {client : ClientSide}
    {respond : Sent → BufferedSocket} {sock : BufferedSocket} (hforeign : net.Foreign)
    (hwritten : (handle net server log client respond sock).written ≠ []) :
    ∃ request sock' url reply, HttpRequest.parseHeader sock = .ok (some request, sock') ∧
      request.method = some (asBytes "CONNECT") ∧ request.url = some url ∧
      handleTunnel net server url = .ok reply := by
  cases hheader : HttpRequest.parseHeader sock with
  | error halt =>
    rw [handle, hheader] at hwritten
    exact absurd rfl hwritten
  | ok r =>
    obtain ⟨request, sock'⟩ := r
    cases request with
    | none =>
      rw [handle, hheader] at hwritten
      exact absurd rfl hwritten
    | some request =>
      by_cases hmethod : request.method = some (asBytes "CONNECT")
      · cases hurl : request.url with
        | none =>
          rw [handle, hheader] at hwritten
          simp [hmethod, hurl] at hwritten
        | some url =>
          cases hreply : handleTunnel net server url with
          | error e =>
            rw [handle, hheader] at hwritten
            simp [hmethod, hurl, hreply] at hwritten
          | ok reply => exact ⟨request, sock', url, reply, rfl, hmethod, hurl, hreply⟩
      · obtain ⟨halt, hnone⟩ : ∃ halt, handle net server log client respond sock =
          ⟨[], .error halt⟩ := handle_of_plain hheader hforeign hmethod
        rw [hnone] at hwritten
        exact absurd rfl hwritten

/-- Every domain is found and every server reached, and each shows the key of the certificate. -/
def keyNet : Network where
  __ := openNet
  dumpPublickey _ :=
    .ok (asBytes "-----BEGIN PUBLIC KEY-----\nAQ==\n-----END PUBLIC KEY-----\n")

/-- A client that sends `ab` through the tunnel. -/
def abClient : ClientSide where
  pid := 1
  fileno := 4
  signCertificate := .ok
  writeFile _ _ := .ok ()
  loadCertChain _ := .ok ()
  wrapSocket := .ok ()
  turns := abTurns
  removeFile _ := .ok ()

end Siip.Proxy
