/-
  The parsers that `HttpResponse` has of its own, and that its `parse` does not use: a well-formed
  response, written by `send_response`, is read back by them (`response_roundtrip`).

  They differ from the parsers of `HttpRequest` in the first line, and where the body is not framed.
  On header lines and framed bodies the passes are the same (`responseLine_rcvHdrs`,
  `feedBody_response`), so what is known of those is used here.
-/
import Siip.Proxy.Response

namespace Siip.Proxy

open Lib Python

/-! ## The pass of `parse_header` -/

theorem responsePass_stable : responsePass.Stable := by
  refine stable_of_lines (fun self buf hfind => ?_) (fun self line rest hfree => ?_)
  · rw [responsePass_run, responseLine, hfind]
  · have hfind := find_line hfree []
    have hdrop : (line ++ crlf).drop (line.length + 2) = [] := by
      rw [← List.append_nil (line ++ crlf), drop_line]
    rw [List.append_nil] at hfind
    rw [responsePass_run, responseLine, responseLine, find_line hfree, hfind]
    simp only [take_line, drop_line, List.take_left, hdrop]
    cases self.state with
    | start =>
      dsimp only
      split
      · split <;> rfl
      · rfl
    | rcvHdrs =>
      dsimp only
      split
      · rfl
      · split <;> rfl
    | rcvBody => rfl

theorem responsePass_stop (self : ResponseParser) (buf : Bytes) (h : self.done = true) :
    responsePass.run self buf = .ok none := by
  have hstate : self.state = .rcvBody := by simpa [ResponseParser.done] using h
  rw [responsePass_run, responseLine, hstate]
  split <;> rfl

/-- The state of the request parser, as one of the response parser. -/
def HeaderParser.toResponse (response : HttpResponse) (self : HeaderParser) : ResponseParser where
  state := self.state
  response := { response with headers := self.request.headers }

/-- Header lines are read as those of a request. -/
theorem responseLine_rcvHdrs (response : HttpResponse) (request : HttpRequest) (buf : Bytes) :
    responseLine (HeaderParser.toResponse response { state := .rcvHdrs, request }) buf =
      (headerLine { state := .rcvHdrs, request } buf).map
        (Option.map fun p => (p.1.toResponse response, p.2)) := by
  unfold responseLine headerLine HeaderParser.toResponse
  cases find crlf buf with
  | none => rfl
  | some newline =>
    dsimp only
    split
    · rfl
    · generalize splitMax (asBytes ": ") 1 (buf.take newline) = fields
      match fields with
      | [] => rfl
      | [_] => rfl
      | [_, _] => rfl
      | _ :: _ :: _ :: _ => rfl

theorem reads_response {response : HttpResponse} {request : HttpRequest} {c : Bytes}
    {parser : HeaderParser} (h : Reads headerPass { state := .rcvHdrs, request } c parser) :
    Reads responsePass (HeaderParser.toResponse response { state := .rcvHdrs, request }) c
      (parser.toResponse response) where
  whole rest := by
    rw [responsePass_run, responseLine_rcvHdrs, ← headerPass_run, h.whole]
    rfl
  waits ht hu := by
    rw [responsePass_run, responseLine_rcvHdrs, ← headerPass_run, h.waits ht hu]
    rfl

/-! ## The head of a response -/

/-- The status line of a response that has a body, and header fields that can be told apart. -/
structure ResponseHead where
  version : Bytes
  statuscode : Nat
  status : Bytes
  fields : List (Bytes × Bytes)
  version_free : 32 ∉ version ∧ find crlf version = none
  status_free : find crlf status = none
  fields_free : ∀ f ∈ fields,
    find (asBytes ": ") f.1 = none ∧ find crlf f.1 = none ∧ find crlf f.2 = none
  has_body : 200 ≤ statuscode ∧ statuscode ≤ 599 ∧ statuscode ≠ 204 ∧ statuscode ≠ 304

namespace ResponseHead

variable (self : ResponseHead)

/-- The head of a request that has the same bytes. -/
def head : RequestHead where
  method := self.version
  url := decimal self.statuscode
  version := self.status
  fields := self.fields
  method_free := self.version_free
  url_free := Response.decimal_free self.statuscode
  version_free := self.status_free
  fields_free := self.fields_free

/-- The response as the header parser leaves it. -/
def response : HttpResponse where
  statuscode := some self.statuscode
  status := some self.status
  version := some self.version
  headers := self.head.headers
  body := some []

theorem int_statuscode : int 10 (decimal self.statuscode) = some (self.statuscode : Int) :=
  int_of_numeral (by decide) (numeral_decimal self.statuscode)

theorem reads_statusLine :
    Reads responsePass ResponseParser.init (self.head.requestLine ++ crlf)
      { state := .rcvHdrs, response := { self.response with headers := [] } } where
  whole rest := by
    rw [responsePass_run, responseLine, find_line self.head.find_requestLine]
    simp only [ResponseParser.init, take_line, drop_line, self.head.split_requestLine]
    rw [show self.head.url = decimal self.statuscode from rfl, self.int_statuscode]
    rfl
  waits ht hu := by
    rw [responsePass_run, responseLine, find_of_line_prefix self.head.find_requestLine ht hu]

theorem readsAll_fields {fields : List (Bytes × Bytes)} (hsub : ∀ f ∈ fields, f ∈ self.fields)
    (response : HttpResponse) (request : HttpRequest) :
    ReadsAll responsePass ResponseParser.done
      (HeaderParser.toResponse response { state := .rcvHdrs, request })
      (fields.flatMap (fun f => RequestHead.fieldLine f ++ crlf) ++ crlf)
      { state := .rcvBody,
        response := { response with headers := request.headers.addAll fields } } := by
  induction fields generalizing request with
  | nil =>
    have h : ReadsAll responsePass ResponseParser.done
        (HeaderParser.toResponse response { state := .rcvHdrs, request }) (crlf ++ [])
        { state := .rcvBody, response := { response with headers := request.headers } } :=
      .cons rfl (reads_response (RequestHead.reads_emptyLine request)) (.nil _)
    exact h
  | cons f fields ih =>
    rw [List.flatMap_cons, List.append_assoc]
    exact .cons rfl (reads_response (self.head.reads_fieldLine (hsub f (by simp)) request))
      (ih (fun g hg => hsub g (List.mem_cons_of_mem f hg)) _)

/-- The passes of `parse_header` read the whole header block. -/
theorem readsAll :
    ReadsAll responsePass ResponseParser.done ResponseParser.init self.head.bytes
      { state := .rcvBody, response := self.response } :=
  .cons rfl self.reads_statusLine
    (self.readsAll_fields (fun _ hf => hf) { self.response with headers := [] } {})

/-- A well-formed header block is read back, whatever follows it and however the stream is cut. -/
theorem parseHeader (tail : Bytes) (cut : Segmentation (self.head.bytes ++ tail)) (closed : Bool) :
    ∃ sock, HttpResponse.parseHeader ⟨⟨cut.pieces, closed⟩, []⟩ = .ok (self.response, sock) ∧
      sock.unread = tail ∧ sock.wrappedSocket.closed = closed := by
  obtain ⟨buf, sock, hloop, htail, hclosed⟩ := recvLoop_of_readsAll responsePass_stable
    responsePass_stop rfl self.readsAll rfl (unread_pieces cut closed) rfl
  refine ⟨sock.rewind buf, ?_, ?_, hclosed⟩
  · rw [HttpResponse.parseHeader, hloop]
    rfl
  · rw [BufferedSocket.rewind, BufferedSocket.unread, List.append_assoc]
    exact htail

/-- A framed body is read as that of a request. -/
theorem feedBody_eq (body : MessageBody self.head.headers) :
    self.response.feedBody = self.head.request.feedBody := by
  obtain ⟨hlow, -, hnoContent, hnotModified⟩ := self.has_body
  have hstatus : ¬ ((self.statuscode : Int) < 200 ∨ (self.statuscode : Int) = 204 ∨
      (self.statuscode : Int) = 304) := by
    omega
  have hresponse : self.response.headers = self.head.headers := rfl
  have hrequest : self.head.request.headers = self.head.headers := rfl
  have hcode : self.response.statuscode = some (self.statuscode : Int) := rfl
  funext s rcvd
  unfold HttpResponse.feedBody HttpRequest.feedBody
  rw [hresponse, hrequest, hcode]
  dsimp only
  rewrite [if_neg hstatus]
  cases body with
  | sized body plain length =>
    obtain ⟨value, hvalue, -⟩ := Option.bind_eq_some_iff.mp length
    rewrite [hvalue]
    rfl
  | chunked chunks last isChunked nonempty last_empty =>
    have hchunked : (self.head.headers.get? (asBytes "Transfer-Encoding")).map lower =
        some (asBytes "chunked") := isChunked
    rewrite [if_pos hchunked, if_pos hchunked]
    rfl

end ResponseHead

/-! ## The round trip -/

theorem HttpResponse.parseBody_of_feed {self : HttpResponse} {s : BodyParser × Bytes}
    {sock : BufferedSocket}
    (h : self.feedBody ({ body := self.body, done := false }, []) [] = .ok s) :
    self.parseBody sock = (recvLoop self.feedBody (Pass.stateIs BodyParser.done) s sock).map
      fun (s, sock) => ({ self with body := s.1.body }, sock) := by
  rw [parseBody, h]

namespace Response

variable (self : Response)

/-- The response as the header parser leaves it. -/
def bodiless : HttpResponse := { self.canonical with body := some [] }

def responseHead : ResponseHead where
  version := self.version
  statuscode := self.statuscode
  status := self.status
  fields := self.fields
  version_free := self.version_free
  status_free := self.status_free
  fields_free := self.fields_free
  has_body := self.has_body

theorem response_responseHead : self.responseHead.response = self.bodiless := by
  unfold bodiless
  rw [ResponseHead.response, show self.responseHead.head.headers = self.canonical.headers from
    self.headers_head]
  rfl

end Response

/-- `parse_header` and `parse_body` of `HttpResponse` read back what `send_response` has written,
    however the stream is cut. -/
theorem response_roundtrip (r : Response) (cut : Segmentation r.bytes) :
    ∃ response sock sock',
      HttpResponse.parseHeader ⟨⟨cut.pieces, true⟩, []⟩ = .ok (response, sock) ∧
      response.parseBody sock = .ok (r.canonical, sock') ∧ sock'.unread = [] := by
  obtain ⟨sock, hheader, hunread, hclosed⟩ :=
    r.responseHead.parseHeader r.message.body.bytes cut true
  have hfeedBody := r.responseHead.feedBody_eq r.message.body
  rw [r.response_responseHead] at hheader hfeedBody
  obtain ⟨s, sock', hfeed, hbody, hnil⟩ := r.message.recvLoop_of_closed hunread hclosed
  refine ⟨r.bodiless, sock, sock', hheader, ?_, hnil⟩
  have hfeed' : r.bodiless.feedBody ({ body := r.bodiless.body, done := false }, []) [] =
      .ok s := by
    rw [hfeedBody]
    exact hfeed
  rw [HttpResponse.parseBody_of_feed hfeed', hfeedBody]
  change (recvLoop r.message.head.request.feedBody _ s sock).map _ = _
  rw [hbody]
  rfl

end Siip.Proxy
