/-
  Messages of which only a beginning arrives before the connection is closed.

  `HttpRequest.parse` never takes such a beginning for a request (`truncated_request`). The parsers
  that `HttpResponse` has of its own refuse it as long as it ends within the header block; but
  `parse_body` does not ask, after its loop, whether the body is done, and returns what there is
  (`truncated_response_iff`).
-/
import Siip.Proxy.ResponseRoundtrip

namespace Siip.Proxy

open Lib Python

/-! ## The header block of a request -/

/-- The parser does not come back to its first state. -/
theorem state_of_headerLine {self self' : HeaderParser} {buf buf' : Bytes}
    (h : headerLine self buf = .ok (some (self', buf'))) : self'.state ≠ .start := by
  unfold headerLine at h
  split at h
  · exact absurd h (by simp)
  · dsimp only at h
    split at h
    · split at h
      · obtain ⟨⟩ := h
        exact ParseState.noConfusion
      · exact absurd h (by simp)
    · rename_i hstate
      split at h
      · obtain ⟨⟩ := h
        exact ParseState.noConfusion
      · split at h
        · obtain ⟨⟩ := h
          rw [hstate]
          exact ParseState.noConfusion
        · exact absurd h (by simp)
    · exact absurd h (by simp)

theorem state_of_drain {self self' : HeaderParser} {buf buf' : Bytes} (hstate : self.state ≠ .start)
    (h : headerPass.drain self buf = .ok (self', buf')) : self'.state ≠ .start := by
  induction self, buf using Pass.drain.induct headerPass with
  | case1 self buf e hrun =>
    rw [Pass.drain_of_error hrun] at h
    exact absurd h (by simp)
  | case2 self buf hrun =>
    rw [Pass.drain_of_none hrun] at h
    obtain ⟨⟩ := h
    exact hstate
  | case3 self buf self'' buf'' hrun ih =>
    rw [Pass.drain_of_some hrun] at h
    exact ih (state_of_headerLine hrun) h

namespace RequestHead

variable (self : RequestHead) {t u : Bytes}

/-- The request line is among the bytes. -/
def Begun (t : Bytes) : Prop := self.requestLine ++ crlf <+: t

instance : Decidable (self.Begun t) := inferInstanceAs (Decidable (_ <+: t))

/-- Draining less than the header block ends before the body, and in the first state exactly
    without the request line. -/
theorem drain_truncated (h : self.bytes = t ++ u) (hu : u ≠ []) :
    ∃ parser buf, headerPass.drain HeaderParser.init t = .ok (parser, buf) ∧
      parser.state = if self.Begun t then .rcvHdrs else .start := by
  by_cases hbegun : self.Begun t
  · obtain ⟨parser, buf, hdrain, hdone, -⟩ := self.readsAll.drain_prefix h hu
    refine ⟨parser, buf, hdrain, ?_⟩
    have hbody : parser.state ≠ .rcvBody := by simpa [HeaderParser.done] using hdone
    rw [if_pos hbegun]
    obtain ⟨t', rfl⟩ := hbegun
    rw [Pass.drain_of_some (self.reads_requestLine.whole t')] at hdrain
    have hstart := state_of_drain ParseState.noConfusion hdrain
    cases hstate : parser.state with
    | start => exact absurd hstate hstart
    | rcvHdrs => rfl
    | rcvBody => exact absurd hstate hbody
  · rcases cut_append h with ⟨t', rfl, -⟩ | ⟨c, hc, hne⟩
    · exact absurd (List.prefix_append _ t') hbegun
    refine ⟨HeaderParser.init, t, Pass.drain_of_none (self.reads_requestLine.waits hc hne), ?_⟩
    rw [if_neg hbegun]
    rfl

end RequestHead

/-! ## Truncated requests -/

/-- A request as a client writes it: its headers announce no body, or they frame the one that
    follows. -/
inductive ClientRequest where
  | bodiless (head : RequestHead) (plain : ¬ head.headers.isChunked)
      (unsized : head.headers.get? (asBytes "Content-Length") = none)
  | withBody (m : Message)

namespace ClientRequest

def head : ClientRequest → RequestHead
  | bodiless head _ _ => head
  | withBody m => m.head

def bytes : ClientRequest → Bytes
  | bodiless head _ _ => head.bytes
  | withBody m => m.bytes

end ClientRequest

/-- What `parse` makes of a socket, without the socket that it leaves. -/
def parseOutcome (sock : BufferedSocket) : Except Halt (Option HttpRequest) :=
  (HttpRequest.parse sock).map Prod.fst

theorem parseOutcome_of_headerError {sock : BufferedSocket} {halt : Halt}
    (h : headerOutcome sock = .error halt) : parseOutcome sock = .error halt := by
  unfold headerOutcome at h
  unfold parseOutcome HttpRequest.parse
  cases hheader : HttpRequest.parseHeader sock with
  | error halt' =>
    rw [hheader] at h
    obtain ⟨⟩ := h
    rfl
  | ok r =>
    rw [hheader] at h
    exact absurd h (by simp [Except.map])

theorem parseOutcome_of_noHeader {sock : BufferedSocket} (h : headerOutcome sock = .ok none) :
    parseOutcome sock = .ok none := by
  unfold headerOutcome at h
  unfold parseOutcome HttpRequest.parse
  cases hheader : HttpRequest.parseHeader sock with
  | error halt =>
    rw [hheader] at h
    exact absurd h (by simp [Except.map])
  | ok r =>
    obtain ⟨request, sock'⟩ := r
    rw [hheader] at h
    have hnone : request = none := Option.map_eq_none_iff.mp (Except.ok.inj h)
    subst hnone
    rfl

/-- Where the header block is cut. -/
theorem truncated_head (head : RequestHead) {t u : Bytes} (ht : head.bytes = t ++ u) (hu : u ≠ [])
    (cut : Segmentation t) :
    parseOutcome ⟨⟨cut.pieces, true⟩, []⟩ =
      if head.Begun t then .error (.raised .connectionClosedUnexpectedly) else .ok none := by
  obtain ⟨parser, buf, hdrain, hstate⟩ := head.drain_truncated ht hu
  have hheader : headerOutcome ⟨⟨cut.pieces, true⟩, []⟩ = drainedOutcome (.ok (parser, buf)) := by
    rw [headerOutcome_of_closed rfl, unread_pieces, hdrain]
  rw [drainedOutcome, hstate] at hheader
  by_cases hbegun : head.Begun t
  · simp only [if_pos hbegun] at hheader ⊢
    exact parseOutcome_of_headerError hheader
  · simp only [if_neg hbegun] at hheader ⊢
    exact parseOutcome_of_noHeader hheader

/-- Where the body is cut. -/
theorem Message.parseBody_truncated (m : Message) {sock : BufferedSocket} {u : Bytes}
    (hbody : m.body.bytes = sock.unread ++ u) (hu : u ≠ [])
    (hclosed : sock.wrappedSocket.closed = true) :
    ∃ s s' sock', m.head.request.feedBody BodyParser.init [] = .ok s ∧
      recvLoop m.head.request.feedBody (Pass.stateIs BodyParser.done) s sock = .ok (s', sock') ∧
      s'.1.done = false := by
  have hne : m.body.bytes ≠ [] := by simp [hbody, hu]
  obtain ⟨s, hfeed, hdone, hresume⟩ := m.frames_body (List.nil_append _).symm hne
  obtain ⟨s', sock', hloop, hdone'⟩ := recvLoop_of_truncated m.frames_body ⟨hdone, hresume⟩
    (by rw [List.nil_append, hbody]) hu hclosed
  exact ⟨s, s', sock', hfeed, hloop, hdone'⟩

/-- A beginning of a request is never taken for the whole: there is no request where the request
    line is not complete, and an exception where it is. -/
theorem truncated_request (r : ClientRequest) (t u : Bytes) (ht : r.bytes = t ++ u) (hu : u ≠ [])
    (cut : Segmentation t) :
    parseOutcome ⟨⟨cut.pieces, true⟩, []⟩ =
      if r.head.Begun t then .error (.raised .connectionClosedUnexpectedly) else .ok none := by
  cases r with
  | bodiless head plain unsized => exact truncated_head head ht hu cut
  | withBody m =>
    rcases cut_append (show m.head.bytes ++ m.body.bytes = t ++ u from ht) with
      ⟨t', rfl, hbody⟩ | ⟨c, hhead, hc⟩
    · have hbegun : m.head.Begun (m.head.bytes ++ t') := by
        rw [RequestHead.Begun, RequestHead.bytes, List.append_assoc]
        exact List.prefix_append _ _
      obtain ⟨sock, hheader, rfl, hclosed⟩ := parseHeader_of_head m.head t' cut true
      obtain ⟨s, s', sock', hfeed, hloop, hdone⟩ := m.parseBody_truncated hbody hu hclosed
      have hraise : m.head.request.parseBody sock =
          .error (.raised .connectionClosedUnexpectedly) := by
        rw [m.parseBody_of_feed hfeed, hloop]
        show m.head.request.finishBody (s', sock') = _
        rw [HttpRequest.finishBody, hdone]
        rfl
      rw [show (ClientRequest.withBody m).head = m.head from rfl, if_pos hbegun, parseOutcome,
        HttpRequest.parse_of_header hheader, hraise]
      rfl
    · exact truncated_head m.head hhead hc cut

/-- `POST / HTTP/1.1` with a body of one byte that does not arrive. -/
theorem postX_truncated :
    parseOutcome ⟨⟨[⟨postX.head.bytes, postX.head.bytes_ne_nil⟩], true⟩, []⟩ =
      .error (.raised .connectionClosedUnexpectedly) := by
  have h := truncated_request (.withBody postX) postX.head.bytes (asBytes "x") rfl
    (by decide +kernel) ⟨[⟨postX.head.bytes, postX.head.bytes_ne_nil⟩], by decide +kernel⟩
  rwa [if_pos (by decide +kernel)] at h

/-! ## Truncated responses -/

/-- A response whose headers frame its body. -/
structure FramedResponse where
  head : ResponseHead
  body : MessageBody head.head.headers

namespace FramedResponse

variable (self : FramedResponse)

/-- The request that has the same bytes. -/
def message : Message := ⟨self.head.head, self.body⟩

def bytes : Bytes := self.message.bytes

end FramedResponse

/-- `parse_header`, and then `parse_body`. -/
def HttpResponse.receive (sock : BufferedSocket) : Except Halt (HttpResponse × BufferedSocket) := do
  let (response, sock) ← parseHeader sock
  response.parseBody sock

theorem HttpResponse.receive_of_header {sock sock' : BufferedSocket} {response : HttpResponse}
    (h : parseHeader sock = .ok (response, sock')) : receive sock = response.parseBody sock' := by
  rw [receive, h]
  rfl

/-- Where the header block is cut, `parse_header` raises. -/
theorem ResponseHead.parseHeader_truncated (head : ResponseHead) {t u : Bytes}
    (ht : head.head.bytes = t ++ u) (hu : u ≠ []) (cut : Segmentation t) :
    HttpResponse.parseHeader ⟨⟨cut.pieces, true⟩, []⟩ =
      .error (.raised .connectionClosedUnexpectedly) := by
  have hunread : BufferedSocket.unread ⟨⟨cut.pieces, true⟩, []⟩ = t := unread_pieces cut true
  obtain ⟨⟨parser, buf⟩, sock', hloop, hdone⟩ := recvLoop_of_truncated head.readsAll.frames
    ⟨rfl, fun _ => rfl⟩ (by rw [List.nil_append, hunread]; exact ht) hu rfl
  have hstate : parser.state ≠ .rcvBody := by
    simpa [Pass.stateIs, ResponseParser.done] using hdone
  rw [HttpResponse.parseHeader, hloop]
  cases hparser : parser.state with
  | start => simp [bind, Except.bind, hparser]
  | rcvHdrs => simp [bind, Except.bind, hparser]
  | rcvBody => exact absurd hparser hstate

/-- Where the body is cut, `parse_body` returns. -/
theorem FramedResponse.parseBody_truncated (r : FramedResponse) {sock : BufferedSocket} {u : Bytes}
    (hbody : r.body.bytes = sock.unread ++ u) (hu : u ≠ [])
    (hclosed : sock.wrappedSocket.closed = true) :
    ∃ response sock', r.head.response.parseBody sock = .ok (response, sock') := by
  obtain ⟨s, s', sock', hfeed, hloop, -⟩ := r.message.parseBody_truncated hbody hu hclosed
  have hfeedBody : r.head.response.feedBody = r.message.head.request.feedBody :=
    r.head.feedBody_eq r.body
  have hfeed' : r.head.response.feedBody ({ body := r.head.response.body, done := false }, []) [] =
      .ok s := by
    rw [hfeedBody]
    exact hfeed
  rw [HttpResponse.parseBody_of_feed hfeed', hfeedBody, hloop]
  exact ⟨_, _, rfl⟩

/-- A beginning of a response is refused if and only if it ends within the header block. -/
theorem truncated_response_iff (r : FramedResponse) (t u : Bytes) (ht : r.bytes = t ++ u)
    (hu : u ≠ []) (cut : Segmentation t) :
    HttpResponse.receive ⟨⟨cut.pieces, true⟩, []⟩ =
        .error (.raised .connectionClosedUnexpectedly) ↔
      t.length < r.head.head.bytes.length := by
  rcases cut_append (show r.head.head.bytes ++ r.body.bytes = t ++ u from ht) with
    ⟨t', rfl, hbody⟩ | ⟨c, hhead, hc⟩
  · obtain ⟨sock, hheader, rfl, hclosed⟩ := r.head.parseHeader t' cut true
    obtain ⟨response, sock', hparse⟩ := r.parseBody_truncated hbody hu hclosed
    refine iff_of_false ?_ (by rw [List.length_append]; omega)
    rw [HttpResponse.receive_of_header hheader, hparse]
    simp
  · have hcpos := List.length_pos_of_ne_nil hc
    refine iff_of_true ?_ (by rw [hhead, List.length_append]; omega)
    rw [HttpResponse.receive, r.head.parseHeader_truncated hhead hc cut]
    rfl

/-- `HTTP/1.1 200 OK`, with a body of two bytes. -/
def okXY : FramedResponse where
  head := {
    version := asBytes "HTTP/1.1"
    statuscode := 200
    status := asBytes "OK"
    fields := [(asBytes "Content-Length", asBytes "2")]
    version_free := okX.version_free
    status_free := okX.status_free
    fields_free := by decide +kernel
    has_body := okX.has_body }
  body := .sized (asBytes "xy") (by unfold Headers.isChunked; decide +kernel) (by decide +kernel)

theorem okXY_refused :
    HttpResponse.receive ⟨⟨[⟨asBytes "HTTP/1.1 200", by decide +kernel⟩], true⟩, []⟩ =
      .error (.raised .connectionClosedUnexpectedly) :=
  (truncated_response_iff okXY (asBytes "HTTP/1.1 200")
    (asBytes " OK\r\nContent-Length: 2\r\n\r\nxy") (by decide +kernel) (by decide +kernel)
    ⟨[⟨asBytes "HTTP/1.1 200", by decide +kernel⟩], by decide +kernel⟩).mpr (by decide +kernel)

/-- Half of the body is returned for the whole. -/
theorem okXY_shortened :
    okXY.bytes = asBytes "HTTP/1.1 200 OK\r\nContent-Length: 2\r\n\r\nx" ++ asBytes "y" ∧
      HttpResponse.receive ⟨⟨[⟨asBytes "HTTP/1.1 200 OK\r\nContent-Length: 2\r\n\r\nx",
          by decide +kernel⟩], true⟩, []⟩ =
        .ok ({ okXY.head.response with body := some (asBytes "x") }, ⟨⟨[], true⟩, []⟩) := by
  constructor <;> decide +kernel

end Siip.Proxy
