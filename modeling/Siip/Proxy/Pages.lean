/-
  The pages that the proxy sends to a client in place of a tunnel, and how they are sent.

  The domain that the client has asked for stands in each of them, escaped. So whatever the client
  asks for, the markup of the page is that of its literals, and the page shows the domain. The page
  about a bad TLS certificate ends with the text of an exception that is not escaped.
-/
import Siip.Lib.Html
import Siip.Proxy.Keys
import Siip.Proxy.ResponseRoundtrip
import Siip.Proxy.ChunkLoop
import Siip.Proxy.Truncation
import Siip.Proxy.Tunnel

namespace Siip.Proxy

open Lib Python

/-! ## The pages -/

/-- The literals of the pages of `send_404_domain_notfound`. -/
def notFoundLiterals (legacyFallback : Bool) : List Str :=
  if legacyFallback then
    ["<!DOCTYPE html><html>
                <head><title>404 Not found: ".toList,
      "</title></head>
                <body>
                    <h1>Error 404: domain not found</h1>
                    <p>Could not resolve domain ".toList,
      " via either SIIP or legacy DNS/HTTPS. Please make sure the domain is spelled correctly.</p>
                </body></html>".toList]
  else
    ["<!DOCTYPE html><html>
                <head><title>404 Not found: ".toList,
      "</title></head>
                <body>
                    <h1>Error 404: domain not found</h1>
                    <p>Could not resolve domain ".toList,
      " via SIIP, and legacy fallback is disabled. Please make sure the domain is spelled correctly, and check whether it has been added to the blockchain.</p>
                </body></html>".toList]

/-- The literals of the page of `send_500_badtlscert`, around the text of the exception. -/
def badTlsLiterals (ex : Str) : List Str :=
  ["<!DOCTYPE html><html>
            <head><title>Bad TLS Certificate: ".toList,
    "</title></head>
            <body>
                <h1>Error 500: Untrusted TLS certificate</h1>
                <p>
                    Refusing to connect to domain ".toList,
    " as it contains an untrusted TLS certificate.
                    This could mean someone is attempting a man-in-the-middle attack.
                </p>
                <p>
                    If you know you're talking to ".toList,
    ", and you're sure it's safe to continue connecting,
                    you can add the certificate to the blockchain. But only do this if you know what you're doing.
                </p>
                <p>
                    ".toList ++ ex ++ "
                </p>
            </body></html>".toList]

/-- The literals of the page of `send_500_badsiipcert`, around the text of the exception. -/
def badSiipLiterals (ex : Str) : List Str :=
  ["<!DOCTYPE html><html>
            <head><title>Bad TLS Certificate: ".toList,
    "</title></head>
            <body>
                <h1>Error 500: Untrusted SIIP certificate</h1>
                <p>
                    Refusing to connect to domain ".toList,
    " as it contains an untrusted SIIP certificate.
                    Either the website's certificate is out of date, or someone is attempting a man-in-the-middle attack.
                </p>
                <p>
                    If the problem persists, please contact the website owner.
                </p>
                <p>
                    ".toList ++ ex ++ "
                </p>
            </body></html>".toList]

def send404DomainNotfound (server : Server) (domain : Str) : HttpResponse :=
  let body := utf8Bytes (Html.fill (notFoundLiterals server.legacyFallback) domain)
  { statuscode := some 404
    status := some (asBytes "Not Found")
    version := some (asBytes "HTTP/1.1")
    headers := Headers.set (asBytes "Content-Length") (decimal body.length)
      [(asBytes "Content-Encoding", asBytes "text/plain")]
    body := some body }

/-- The response of the two `send_500` methods, which do not tell its length. -/
def send500 (page : Str) : HttpResponse where
  statuscode := some 500
  status := some (asBytes "Internal Server Error")
  version := some (asBytes "HTTP/1.1")
  headers := [(asBytes "Content-Encoding", asBytes "text/html")]
  body := some (utf8Bytes page)

def send500Badtlscert (domain ex : Str) : HttpResponse :=
  send500 (Html.fill (badTlsLiterals ex) domain)

def send500Badsiipcert (domain ex : Str) : HttpResponse :=
  send500 (Html.fill (badSiipLiterals ex) domain)

/-! ## What the pages show -/

/-- A part of a page with these tags, and nothing that is left open. -/
def Literal (s : Str) (tags : List String) : Prop :=
  Html.Closed s ∧ (Html.read s).tags = tags.map String.toList

instance (s : Str) (tags : List String) : Decidable (Literal s tags) :=
  inferInstanceAs (Decidable (_ ∧ _))

/-- A string literal is tested as the list of its characters. -/
theorem literal_ofList {cs : Str} {tags : List String} (h : Literal cs tags) :
    Literal (String.ofList cs).toList tags := by
  rwa [String.toList_ofList]

/-- A text in which there is neither a tag nor a reference. -/
def Plain (ex : Str) : Prop := '<' ∉ ex ∧ '&' ∉ ex

theorem Literal.around {l l' ex : Str} {tags tags' : List String} (hl : Literal l tags)
    (hl' : Literal l' tags') (h : Plain ex) : Literal (l ++ ex ++ l') (tags ++ tags') := by
  have hex : Html.Closed ex := Html.closed_of_notMem h.1 h.2
  have hnone : (Html.read ex).tags = [] := by rw [Html.read_of_notMem h.1]
  refine ⟨(hl.1.append hex).append hl'.1, ?_⟩
  rw [Html.read_append (hl.1.append hex).1, Html.read_append hl.1.1, List.map_append, ← hl.2,
    ← hl'.2]
  simp only [hnone, List.append_nil]

/-- A page with these tags, that shows `domain` between the texts of its literals. -/
structure Shows (page : Str) (tags : List String) (literals : List Str) (domain : Str) : Prop where
  tags_eq : (Html.read page).tags = tags.map String.toList
  tag_eq : (Html.read page).tag = none
  text_eq : Html.unescape (Html.read page).text =
    domain.intercalate (literals.map fun l => (Html.read l).text)

theorem shows_fill {literals : List Str} {tags : List (List String)}
    (h : List.Forall₂ Literal literals tags) (domain : Str) :
    Shows (Html.fill literals domain) tags.flatten literals domain := by
  have hclosed : ∀ l ∈ literals, Html.Closed l := by
    induction h with
    | nil => simp
    | cons hl _ ih => exact List.forall_mem_cons.mpr ⟨hl.1, ih⟩
  have htags : (literals.flatMap fun l => (Html.read l).tags) =
      tags.flatten.map String.toList := by
    clear hclosed
    induction h with
    | nil => rfl
    | cons hl _ ih => rw [List.flatMap_cons, List.flatten_cons, List.map_append, hl.2, ih]
  obtain ⟨hread, htag, htext⟩ := Html.read_fill hclosed domain
  exact ⟨hread.trans htags, htag, htext⟩

/-- The tags of every page, around those of the paragraph that ends it. -/
def pageTags (paragraphs : List (List String)) : List (List String) :=
  [["!DOCTYPE html", "html", "head", "title"],
    ["/title", "/head", "body", "h1", "/h1", "p"]] ++ paragraphs

def notFoundTags : List (List String) := pageTags [["/p", "/body", "/html"]]

def badTlsTags : List (List String) :=
  pageTags [["/p", "p"], ["/p", "p"] ++ ["/p", "/body", "/html"]]

def badSiipTags : List (List String) :=
  pageTags [["/p", "p", "/p", "p"] ++ ["/p", "/body", "/html"]]

set_option maxRecDepth 4096 in
theorem shows_notFound (legacyFallback : Bool) (domain : Str) :
    Shows (Html.fill (notFoundLiterals legacyFallback) domain) notFoundTags.flatten
      (notFoundLiterals legacyFallback) domain := by
  refine shows_fill ?_ domain
  cases legacyFallback with
  | false =>
    exact .cons (literal_ofList (by decide +kernel)) (.cons (literal_ofList (by decide +kernel))
      (.cons (literal_ofList (by decide +kernel)) .nil))
  | true =>
    exact .cons (literal_ofList (by decide +kernel)) (.cons (literal_ofList (by decide +kernel))
      (.cons (literal_ofList (by decide +kernel)) .nil))

set_option maxRecDepth 4096 in
theorem shows_badTls (domain : Str) {ex : Str} (h : Plain ex) :
    Shows (Html.fill (badTlsLiterals ex) domain) badTlsTags.flatten (badTlsLiterals ex)
      domain := by
  refine shows_fill ?_ domain
  exact .cons (literal_ofList (by decide +kernel)) (.cons (literal_ofList (by decide +kernel))
    (.cons (literal_ofList (by decide +kernel)) (.cons (Literal.around
      (literal_ofList (by decide +kernel)) (literal_ofList (by decide +kernel)) h) .nil)))

set_option maxRecDepth 4096 in
theorem shows_badSiip (domain : Str) {ex : Str} (h : Plain ex) :
    Shows (Html.fill (badSiipLiterals ex) domain) badSiipTags.flatten (badSiipLiterals ex)
      domain := by
  refine shows_fill ?_ domain
  exact .cons (literal_ofList (by decide +kernel)) (.cons (literal_ofList (by decide +kernel))
    (.cons (Literal.around (literal_ofList (by decide +kernel))
      (literal_ofList (by decide +kernel)) h) .nil))

/-! ## The text of a `SiipCertError` -/

/-- It names the key that the server has shown. -/
theorem eq_of_siipCert {dumpPublickey : Bytes → Except Exn Bytes} {cert : SiipCertificate}
    {derCert : Bytes} {ex : Str} (hdump : ∀ der ex, dumpPublickey der ≠ .error (.siipCert ex))
    (h : cert.verify dumpPublickey derCert = .error (.siipCert ex)) :
    ∃ pk, ex = "Invalid SIIP Certificate ".toList ++ SiipCertificate.pkStrOf pk := by
  unfold SiipCertificate.verify at h
  split at h
  · rename_i e hdump'
    obtain rfl := Except.error.inj h
    exact absurd hdump' (hdump derCert ex)
  · split at h
    · exact absurd h (by simp)
    · rename_i pk _
      split at h
      · simp only [Except.error.injEq, Exn.siipCert.injEq] at h
        exact ⟨pk, h.symm⟩
      · exact absurd h (by simp)

theorem plain_siipCert (pk : Bytes) :
    Plain ("Invalid SIIP Certificate ".toList ++ SiipCertificate.pkStrOf pk) := by
  have hlt : '<' ∉ SiipCertificate.pkStrOf pk := notMem_pkStrOf (by decide) (by decide) pk
  have hamp : '&' ∉ SiipCertificate.pkStrOf pk := notMem_pkStrOf (by decide) (by decide) pk
  rw [Plain, List.mem_append, List.mem_append, not_or, not_or]
  exact ⟨⟨by decide, hlt⟩, ⟨by decide, hamp⟩⟩

/-! ## How they are sent -/

/-- The header parser of `HttpResponse` and then its body parser read the response as it was meant,
    whatever the pieces in which it comes, on a connection that is closed after it. -/
def Delivered (response : HttpResponse) : Prop :=
  ∃ written, sendResponse (.response response) = .ok written ∧
    ∀ cut : Segmentation written.flatten, ∃ sock,
      HttpResponse.receive ⟨⟨cut.pieces, true⟩, []⟩ = .ok (response, sock) ∧ sock.unread = []

theorem delivered_of_response (r : Response) (h : r.canonical = r.original) :
    Delivered r.original := by
  obtain ⟨written, hsend, hbytes⟩ := r.sendResponse_original
  refine ⟨written, hsend, ?_⟩
  rw [hbytes, ← h]
  intro cut
  obtain ⟨response, sock, sock', hheader, hbody, hnil⟩ := response_roundtrip r cut
  exact ⟨sock', (HttpResponse.receive_of_header hheader).trans hbody, hnil⟩

/-- A page that tells its length. -/
def notFound (body : Bytes) : Response where
  version := asBytes "HTTP/1.1"
  statuscode := 404
  status := asBytes "Not Found"
  fields := [(asBytes "Content-Encoding", asBytes "text/plain"),
    (asBytes "Content-Length", decimal body.length)]
  body := body
  version_free := okX.version_free
  status_free := by decide +kernel
  fields_free := by
    have hname : find (asBytes ": ") (asBytes "Content-Length") = none ∧
        find crlf (asBytes "Content-Length") = none := by
      decide +kernel
    exact List.forall_mem_cons.mpr ⟨by decide +kernel, List.forall_mem_singleton.mpr
      ⟨hname.1, hname.2, (Response.decimal_free body.length).2⟩⟩
  distinct := by
    change [capitalize (asBytes "Content-Encoding"), capitalize (asBytes "Content-Length")].Nodup
    decide +kernel
  has_body := by decide
  length := by
    have hname : capitalize (asBytes "Content-Length") = asBytes "Content-Length" := by
      decide +kernel
    exact ⟨_, List.mem_cons_of_mem _ (List.mem_singleton_self _), hname,
      numeral_decimal body.length⟩
  plain := by
    have hnames : ∀ name ∈ [asBytes "Content-Encoding", asBytes "Content-Length"],
        capitalize name ≠ asBytes "Transfer-Encoding" := by
      decide +kernel
    exact fun f hf => hnames f.1 (List.mem_map_of_mem (f := Prod.fst) hf)

theorem delivered_404 (server : Server) (domain : Str) :
    Delivered (send404DomainNotfound server domain) := by
  generalize hbody : utf8Bytes (Html.fill (notFoundLiterals server.legacyFallback) domain) = body
  have horiginal : send404DomainNotfound server domain = (notFound body).original := by
    have hset := Headers.set_of_notMem [(asBytes "Content-Encoding", asBytes "text/plain")]
      (asBytes "Content-Length") (decimal body.length) (by decide +kernel)
    rw [send404DomainNotfound, hbody, hset]
    rfl
  have hnames : capitalize (asBytes "Content-Encoding") = asBytes "Content-Encoding" ∧
      capitalize (asBytes "Content-Length") = asBytes "Content-Length" := by
    decide +kernel
  rw [horiginal]
  refine delivered_of_response _ ?_
  rw [Response.canonical, notFound, List.map_cons, List.map_singleton, hnames.1, hnames.2]
  rfl

/-! ## Where the length is not told -/

section

variable {self : HttpResponse} {statuscode : Int}

theorem HttpResponse.feedBody_of_unframed (hcode : self.statuscode = some statuscode)
    (hbody : ¬ NoBody statuscode) (hplain : ¬ self.headers.isChunked)
    (hunsized : self.headers.get? (asBytes "Content-Length") = none) (acc rcvd : Bytes) :
    self.feedBody ({ body := some acc, done := false }, []) rcvd =
      .ok ({ body := some (acc ++ rcvd), done := false }, []) := by
  rw [NoBody] at hbody
  unfold Headers.isChunked at hplain
  rw [feedBody, hcode]
  dsimp only
  rw [if_neg hbody, if_neg hplain, hunsized]
  rfl

/-- Then all that comes before the end of the connection is the body. -/
theorem HttpResponse.recvLoop_of_unframed
    (hfeed : ∀ acc rcvd, self.feedBody ({ body := some acc, done := false }, []) rcvd =
      .ok ({ body := some (acc ++ rcvd), done := false }, [])) {sock : BufferedSocket}
    (hclosed : sock.wrappedSocket.closed = true) (acc : Bytes) :
    ∃ sock', recvLoop self.feedBody (Pass.stateIs BodyParser.done)
        ({ body := some acc, done := false }, []) sock =
          .ok (({ body := some (acc ++ sock.unread), done := false }, []), sock') ∧
      sock'.unread = [] := by
  generalize hs : (({ body := some acc, done := false }, []) : BodyParser × Bytes) = s
  induction s, sock using recvLoop.induct self.feedBody (Pass.stateIs BodyParser.done)
    generalizing acc with
  | case1 s sock hdone =>
    subst hs
    exact absurd hdone (by simp [Pass.stateIs])
  | case2 s sock hdone hrecv =>
    have hopen := (BufferedSocket.waiting_of_recv (by decide) hrecv).2
    exact absurd (hclosed.symm.trans hopen) (by decide)
  | case3 s sock hdone sock' hrecv =>
    have hnil := BufferedSocket.unread_of_recv_nil (by decide) hrecv
    refine ⟨sock', ?_, ?_⟩
    · rw [recvLoop_of_closed (by simpa using hdone) hrecv, hnil, List.append_nil, ← hs]
    · rw [BufferedSocket.unread_of_recv (by decide) hrecv] at hnil
      exact hnil
  | case4 s sock hdone rcvd sock' hrecv hrcvd e hraise =>
    subst hs
    exact absurd (hraise.symm.trans (hfeed acc rcvd)) (by simp)
  | case5 s sock hdone rcvd sock' hrecv hrcvd s' hok ih =>
    subst hs
    obtain rfl := Except.ok.inj (hok.symm.trans (hfeed acc rcvd))
    obtain ⟨sock'', hloop, hnil⟩ := ih
      ((BufferedSocket.closed_of_recv (by decide) hrecv).trans hclosed) (acc ++ rcvd) rfl
    refine ⟨sock'', ?_, hnil⟩
    rw [recvLoop_of_recv rfl hrecv hrcvd, hok]
    dsimp only
    rw [hloop, BufferedSocket.unread_of_recv (by decide) hrecv, List.append_assoc]

end

/-- The response that `send_response` takes to write a head and a body. -/
def ResponseHead.sent (self : ResponseHead) (body : Bytes) : HttpResponse where
  statuscode := some self.statuscode
  status := some self.status
  version := some self.version
  headers := self.fields
  body := some body

theorem ResponseHead.sendResponse_sent (self : ResponseHead) (body : Bytes) :
    ∃ written, sendResponse (.response (self.sent body)) = .ok written ∧
      written.flatten = self.head.bytes ++ body := by
  have hcrlf : asBytes "\r\n" = crlf := by decide
  have hcode : statuscodeText (self.sent body).statuscode = decimal self.statuscode := rfl
  refine ⟨_, rfl, ?_⟩
  rw [RequestHead.bytes, RequestHead.requestLine, hcrlf, hcode]
  simp [List.flatMap_def, sent, head, RequestHead.fieldLine]

/-- The header block of a 500 response. -/
def badCertHead : ResponseHead where
  version := asBytes "HTTP/1.1"
  statuscode := 500
  status := asBytes "Internal Server Error"
  fields := [(asBytes "Content-Encoding", asBytes "text/html")]
  version_free := okX.version_free
  status_free := by decide +kernel
  fields_free := by decide +kernel
  has_body := by decide

theorem delivered_500 (page : Str) : Delivered (send500 page) := by
  have hheaders : badCertHead.head.headers = [(asBytes "Content-Encoding", asBytes "text/html")] :=
    by decide +kernel
  have hresponse : badCertHead.response = { send500 page with body := some [] } := by
    rw [ResponseHead.response, hheaders]
    rfl
  have hplain : ¬ badCertHead.head.headers.isChunked := by
    unfold Headers.isChunked
    decide +kernel
  have hunsized : badCertHead.head.headers.get? (asBytes "Content-Length") = none := by
    decide +kernel
  obtain ⟨written, hsend, hwritten⟩ := badCertHead.sendResponse_sent (utf8Bytes page)
  refine ⟨written, hsend, ?_⟩
  rw [hwritten]
  intro cut
  obtain ⟨sock, hheader, hunread, hclosed⟩ := badCertHead.parseHeader (utf8Bytes page) cut true
  have hcode : badCertHead.response.statuscode = some 500 := rfl
  have hfeed := HttpResponse.feedBody_of_unframed hcode (by simp [NoBody]) hplain hunsized
  obtain ⟨sock', hloop, hnil⟩ := HttpResponse.recvLoop_of_unframed hfeed hclosed []
  refine ⟨sock', (HttpResponse.receive_of_header hheader).trans ?_, hnil⟩
  rw [HttpResponse.parseBody_of_feed (hfeed [] []), List.append_nil, hloop, hunread, hresponse]
  rfl

end Siip.Proxy
