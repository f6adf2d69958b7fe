/-
  `httpparse.HttpResponse` and `proxy.ProxyHandler.send_response`.

  `HttpResponse` has parsers of its own, for a status line and for the bodies of responses, but its
  `parse` calls the ones of `HttpRequest`, and returns the request that these make of the bytes. So
  no response is ever parsed as one (`response_misread`): the version is in `method`, the status
  code in `url`, the reason in `version`, and `send_response` finds no `statuscode`.
-/
import Siip.Proxy.Forward
import Siip.Proxy.HeaderBlock
import Siip.Proxy.MessageBoundary

namespace Siip.Proxy

open Lib Python

structure HttpResponse where
  statuscode : Option Int := none
  status : Option Bytes := none
  version : Option Bytes := none
  headers : Headers := []
  body : Option Bytes := some []
  deriving DecidableEq

/-- What a parser may return. -/
inductive HttpMessage where
  | request (request : HttpRequest)
  | response (response : HttpResponse)
  deriving DecidableEq

/-! ## Parsing -/

structure ResponseParser where
  state : ParseState
  response : HttpResponse
  deriving DecidableEq

def ResponseParser.init : ResponseParser := { state := .start, response := {} }

def ResponseParser.done (self : ResponseParser) : Bool := decide (self.state = .rcvBody)

/-- One line from the front of the buffer. -/
def responseLine (self : ResponseParser) (buf : Bytes) :
    Except Exn (Option (ResponseParser × Bytes)) :=
  match find crlf buf with
  | none => .ok none
  | some newline =>
    let line := buf.take newline
    let buf := buf.drop (newline + 2)
    match self.state with
    | .start =>
      match splitMax (asBytes " ") 2 line with
      | [version, statuscode, status] =>
        match int 10 statuscode with
        | none => .error (.intLiteral 10 statuscode)
        | some statuscode =>
          let response := { self.response with
            version := some version, statuscode := some statuscode, status := some status }
          .ok (some ({ state := .rcvHdrs, response }, buf))
      | fields => .error (.unpack 3 fields.length)
    | .rcvHdrs =>
      if line.length = 0 then .ok (some ({ self with state := .rcvBody }, buf))
      else
        match splitMax (asBytes ": ") 1 line with
        | [key, value] =>
          let response := { self.response with
            headers := self.response.headers.add (capitalize key) value }
          .ok (some ({ self with response }, buf))
        | fields => .error (.unpack 2 fields.length)
    | .rcvBody => .ok none

def responsePass : Pass ResponseParser Exn where
  run := responseLine
  shrinks := by
    intro self buf self' buf' h
    unfold responseLine at h
    split at h
    · exact absurd h (by simp)
    · rename_i newline hfind
      have hlt := length_drop_of_find hfind
      dsimp only at h
      split at h
      · split at h
        · split at h
          · exact absurd h (by simp)
          · obtain ⟨⟩ := h
            exact hlt
        · exact absurd h (by simp)
      · split at h
        · obtain ⟨⟩ := h
          exact hlt
        · split at h
          · obtain ⟨⟩ := h
            exact hlt
          · exact absurd h (by simp)
      · exact absurd h (by simp)

theorem responsePass_run : responsePass.run = responseLine := rfl

namespace HttpResponse

def parseHeader (sock : BufferedSocket) : Except Halt (HttpResponse × BufferedSocket) := do
  let ((parser, buf), sock) ←
    recvLoop responsePass.feed (Pass.stateIs ResponseParser.done) (ResponseParser.init, []) sock
  match parser.state with
  | .rcvBody => .ok (parser.response, sock.rewind buf)
  | _ => .error (.raised .connectionClosedUnexpectedly)

/-- The body of the loop of `parse_body`, on newly received bytes. -/
def feedBody (self : HttpResponse) (s : BodyParser × Bytes) (rcvd : Bytes) :
    Except Exn (BodyParser × Bytes) :=
  match self.statuscode with
  | none => .error .type
  | some statuscode =>
    if statuscode < 200 ∨ statuscode = 204 ∨ statuscode = 304 then
      .ok ({ body := none, done := true }, s.2 ++ rcvd)
    else if (self.headers.get? (asBytes "Transfer-Encoding")).map lower =
        some (asBytes "chunked") then
      chunkPass.feed s rcvd
    else
      let buf := s.2 ++ rcvd
      match self.headers.get? (asBytes "Content-Length") with
      | some value =>
        match int 10 value with
        | none => .error (.intLiteral 10 value)
        | some length =>
          match addBody s.1.body buf with
          | .error e => .error e
          | .ok body =>
            .ok ({ body, done := s.1.done || decide (length ≤ (body.getD []).length) }, [])
      | none =>
        match addBody s.1.body buf with
        | .error e => .error e
        | .ok body => .ok ({ s.1 with body }, [])

/-- Where the length of the body is not told, the server ends it by closing the connection; so the
    end of the connection is no error here. -/
def parseBody (self : HttpResponse) (sock : BufferedSocket) :
    Except Halt (HttpResponse × BufferedSocket) :=
  match self.feedBody ({ body := self.body, done := false }, []) [] with
  | .error e => .error (.raised e)
  | .ok s =>
    (recvLoop self.feedBody (Pass.stateIs BodyParser.done) s sock).map
      fun (s, sock) => ({ self with body := s.1.body }, sock)

/-- `parse` uses the parsers of `HttpRequest`. -/
def parse (sock : BufferedSocket) : Except Halt (HttpMessage × BufferedSocket) := do
  let (request, sock) ← HttpRequest.parseHeader sock
  match request with
  | none => .error (.raised .attribute)
  | some request =>
    let (request, sock) ← request.parseBody sock
    .ok (.request request, sock)

end HttpResponse

/-! ## Writing -/

/-- `str(statuscode).encode()` -/
def statuscodeText : Option Int → Bytes
  | none => asBytes "None"
  | some statuscode => asBytes (toString statuscode)

/-- `send_response`: what is written. A request has no `statuscode`. -/
def sendResponse : HttpMessage → Except Exn (List Bytes)
  | .request request =>
    match request.version with
    | none => .error .type
    | some _ => .error .attribute
  | .response response =>
    match response.version, response.status with
    | some version, some status =>
      let line := version ++ asBytes " " ++ statuscodeText response.statuscode ++ asBytes " " ++
        status ++ asBytes "\r\n"
      let hdrs := response.headers.map fun h => h.1 ++ asBytes ": " ++ h.2 ++ asBytes "\r\n"
      .ok (line :: hdrs ++ [asBytes "\r\n"] ++ response.body.toList)
    | _, _ => .error .type

/-- `del self[b'Transfer-Encoding']`, and the length of the body that has been received -/
def Headers.withLength (self : Headers) (body : Option Bytes) : Headers :=
  Headers.set (asBytes "Content-Length") (decimal (body.getD []).length)
    (self.pop (asBytes "Transfer-Encoding"))

/-- `handle_http`, from the response on. -/
def forwardResponse : HttpMessage → Except Exn (List Bytes)
  | .request request =>
    sendResponse (.request { request with headers := request.headers.withLength request.body })
  | .response response =>
    sendResponse (.response { response with headers := response.headers.withLength response.body })

/-! ## Well-formed responses -/

/-- A status line, header fields that can be told apart and whose names differ in more than letter
    case, and a body of the length that the fields tell. -/
structure Response where
  version : Bytes
  statuscode : Nat
  status : Bytes
  fields : List (Bytes × Bytes)
  body : Bytes
  version_free : 32 ∉ version ∧ find crlf version = none
  status_free : find crlf status = none
  fields_free : ∀ f ∈ fields,
    find (asBytes ": ") f.1 = none ∧ find crlf f.1 = none ∧ find crlf f.2 = none
  distinct : (fields.map fun f => capitalize f.1).Nodup
  has_body : 200 ≤ statuscode ∧ statuscode ≤ 599 ∧ statuscode ≠ 204 ∧ statuscode ≠ 304
  length : ∃ f ∈ fields, capitalize f.1 = asBytes "Content-Length" ∧
    numeral 10 f.2 = some body.length
  plain : ∀ f ∈ fields, capitalize f.1 ≠ asBytes "Transfer-Encoding"

namespace Response

variable (self : Response)

/-- The response as `send_response` takes it. -/
def original : HttpResponse where
  statuscode := some self.statuscode
  status := some self.status
  version := some self.version
  headers := self.fields
  body := some self.body

/-- The response as it is to be read back. -/
def canonical : HttpResponse :=
  { self.original with headers := self.fields.map fun f => (capitalize f.1, f.2) }

/-- What `send_response` writes. -/
def bytes : Bytes :=
  (self.version ++ asBytes " " ++ decimal self.statuscode ++ asBytes " " ++ self.status ++ crlf) ++
    (self.fields.flatMap (fun f => f.1 ++ asBytes ": " ++ f.2 ++ crlf) ++ crlf) ++ self.body

theorem sendResponse_original :
    ∃ written, sendResponse (.response self.original) = .ok written ∧
      written.flatten = self.bytes := by
  have hcrlf : asBytes "\r\n" = crlf := by decide
  have hcode : statuscodeText self.original.statuscode = decimal self.statuscode := rfl
  refine ⟨_, rfl, ?_⟩
  rw [bytes, hcrlf, hcode]
  simp [List.flatMap_def, original]

theorem decimal_free (n : Nat) : 32 ∉ decimal n ∧ find crlf (decimal n) = none := by
  have hdigit : ∀ b ∈ decimal n, 48 ≤ b.toNat := by
    intro b hb
    obtain ⟨d, hd⟩ := (digitValue_of_numeral (numeral_decimal n)).2 b hb
    have := range_of_digitValue (by decide) hd
    omega
  exact ⟨fun h => absurd (hdigit 32 h) (by decide),
    find_eq_none_of_notMem fun h => absurd (hdigit 13 h) (by decide)⟩

/-- The first line has the shape of a request line. -/
def head : RequestHead where
  method := self.version
  url := decimal self.statuscode
  version := self.status
  fields := self.fields
  method_free := self.version_free
  url_free := decimal_free self.statuscode
  version_free := self.status_free
  fields_free := self.fields_free

theorem headers_head : self.head.headers = self.canonical.headers :=
  Headers.addAll_of_nodup self.distinct

theorem names_canonical :
    self.canonical.headers.names = self.fields.map fun f => capitalize f.1 := by
  unfold Headers.names
  exact List.map_map

theorem contentLength_head :
    (self.head.headers.get? (asBytes "Content-Length")).bind (numeral 10) =
      some self.body.length := by
  obtain ⟨f, hf, hname, hvalue⟩ := self.length
  have hmem : (asBytes "Content-Length", f.2) ∈ self.canonical.headers :=
    List.mem_map.mpr ⟨f, hf, by rw [hname]⟩
  have hnodup : self.canonical.headers.names.Nodup := by
    rw [names_canonical]
    exact self.distinct
  rw [headers_head, Headers.get?_of_mem _ hnodup hmem]
  exact hvalue

theorem transferEncoding_head : self.head.headers.get? (asBytes "Transfer-Encoding") = none := by
  rw [headers_head, Headers.get?_eq_none_iff, names_canonical, List.mem_map]
  intro h
  obtain ⟨f, hf, hname⟩ := h
  exact self.plain f hf hname

theorem plain_head : ¬ self.head.headers.isChunked := by
  rw [Headers.isChunked, transferEncoding_head]
  exact Option.some_ne_none _ ∘ Eq.symm

/-- The request that has the same bytes. -/
def message : Message where
  head := self.head
  body := .sized self.body self.plain_head self.contentLength_head

/-- What the parsers of `HttpRequest` make of it. -/
def misread : HttpRequest where
  method := some self.version
  url := some (decimal self.statuscode)
  version := some self.status
  headers := self.canonical.headers
  body := some self.body

theorem request_message : self.message.request = self.misread := by
  unfold Message.request RequestHead.request misread
  rw [← headers_head]
  rfl

end Response

/-! ## What `parse` returns -/

/-- A server that has written the response and closed the connection has its response parsed. -/
def RoundTrips (r : Response) (cut : Segmentation r.bytes) : Prop :=
  ∃ sock, HttpResponse.parse ⟨⟨cut.pieces, true⟩, []⟩ = .ok (.response r.canonical, sock)

/-- A closed connection that holds a message gives the request of the same bytes. -/
theorem HttpResponse.parse_of_message (m : Message) (cut : Segmentation m.bytes) :
    ∃ sock, HttpResponse.parse ⟨⟨cut.pieces, true⟩, []⟩ = .ok (.request m.request, sock) := by
  obtain ⟨sock, hheader, hunread, hclosed⟩ := parseHeader_of_head m.head m.body.bytes cut true
  obtain ⟨sock', hbody, -⟩ := m.parseBody_of_closed hunread hclosed
  refine ⟨sock', ?_⟩
  rw [parse, hheader]
  change (m.head.request.parseBody sock).bind _ = _
  rw [hbody]
  rfl

/-- No response is read as one: its parser returns a request, which cannot be sent on. -/
theorem response_misread (r : Response) (cut : Segmentation r.bytes) :
    ¬ RoundTrips r cut ∧
      ∃ sock, HttpResponse.parse ⟨⟨cut.pieces, true⟩, []⟩ = .ok (.request r.misread, sock) ∧
        forwardResponse (.request r.misread) = .error .attribute := by
  obtain ⟨sock, hparse⟩ := HttpResponse.parse_of_message r.message cut
  rw [r.request_message] at hparse
  refine ⟨fun h => ?_, sock, hparse, rfl⟩
  obtain ⟨sock', hparse'⟩ := h
  have hsame := congrArg Prod.fst (Except.ok.inj (hparse.symm.trans hparse'))
  exact absurd hsame HttpMessage.noConfusion

def okX : Response where
  version := asBytes "HTTP/1.1"
  statuscode := 200
  status := asBytes "OK"
  fields := [(asBytes "content-length", asBytes "1")]
  body := asBytes "x"
  version_free := ⟨by decide +kernel, find_crlf_http11⟩
  status_free := by decide +kernel
  fields_free := by decide +kernel
  distinct := by decide +kernel
  has_body := by decide
  length := ⟨_, List.mem_singleton_self _, by decide +kernel, by decide +kernel⟩
  plain := by decide +kernel

theorem okX_misread :
    okX.bytes = asBytes "HTTP/1.1 200 OK\r\ncontent-length: 1\r\n\r\nx" ∧
      ¬ RoundTrips okX ⟨[⟨okX.bytes, by decide +kernel⟩], by decide +kernel⟩ := by
  refine ⟨by decide +kernel, ?_⟩
  intro h
  obtain ⟨sock, hparse⟩ := h
  have hrequest : HttpResponse.parse ⟨⟨[⟨okX.bytes, by decide +kernel⟩], true⟩, []⟩ =
      .ok (.request okX.misread, ⟨⟨[], true⟩, []⟩) := by
    decide +kernel
  have hsame := congrArg Prod.fst (Except.ok.inj (hrequest.symm.trans hparse))
  exact absurd hsame HttpMessage.noConfusion

end Siip.Proxy
