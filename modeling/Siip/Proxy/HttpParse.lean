/-
  `httpparse`: URLs and requests.

  The parsers are receive loops over a drained buffer. `headerPass` is one step of the state
  machine of `parse_header` (the request line, or one header line), `chunkPass` one pass of the
  inner loop of `parse_body`. `parse_header` rewinds the socket when it meets the empty line, and
  leaves its loops at once; here the rewinding is the first thing after the loop.
-/
import Siip.Proxy.Socket

namespace Siip.Proxy

open Lib Python

def crlf : Bytes := [13, 10]

/-- `_capitalize`: `b'cOnTeNt-LeNgTh'` becomes `b'Content-Length'`. -/
def capitalize (headerName : Bytes) : Bytes :=
  (asBytes "-").intercalate ((split (asBytes "-") headerName).map Python.capitalize)

/-! ## URLs -/

structure HttpUrl where
  protocol : Bytes
  host : Bytes
  port : Int
  uri : Bytes
  deriving DecidableEq

/-- `[protocol://]host[:port][/uri]` -/
def HttpUrl.parse (string : Bytes) : Except Exn HttpUrl :=
  let (protocol, string) :=
    match splitMax (asBytes "://") 1 string with
    | [protocol, string] => (lower protocol, string)
    | _ => (asBytes "https", string)
  let (host, url) :=
    match splitMax (asBytes "/") 1 string with
    | [host, url] => (host, asBytes "/" ++ url)
    | _ => (string, asBytes "/")
  if (find (asBytes ":") host).isSome then
    match split (asBytes ":") host with
    | [host, port] =>
      match int 10 port with
      | none => .error (.intLiteral 10 port)
      | some port => .ok { protocol, host := lower host, port, uri := url }
    | fields => .error (.unpack 2 fields.length)
  else
    let port := if protocol = asBytes "https" then 443 else 80
    .ok { protocol, host := lower host, port, uri := url }

/-! ## Headers -/

/-- A `dict` of headers, in insertion order. -/
abbrev Headers := List (Bytes × Bytes)

def Headers.get? (self : Headers) (key : Bytes) : Option Bytes :=
  (self.find? fun h => h.1 == key).map Prod.snd

/-- `self[key] = value` -/
def Headers.set (key value : Bytes) : Headers → Headers
  | [] => [(key, value)]
  | h :: self => if h.1 = key then (key, value) :: self else h :: Headers.set key value self

/-- A header line joins the one of the same name. -/
def Headers.add (self : Headers) (key value : Bytes) : Headers :=
  match self.get? key with
  | some old => Headers.set key (old ++ asBytes "," ++ value) self
  | none => Headers.set key value self

/-! ## Requests -/

structure HttpRequest where
  method : Option Bytes := none
  url : Option Bytes := none
  version : Option Bytes := none
  headers : Headers := []
  body : Option Bytes := some []
  deriving DecidableEq

inductive ParseState where
  | start | rcvHdrs | rcvBody
  deriving DecidableEq

structure HeaderParser where
  state : ParseState
  request : HttpRequest
  deriving DecidableEq

def HeaderParser.init : HeaderParser := { state := .start, request := {} }

def HeaderParser.done (self : HeaderParser) : Bool := decide (self.state = .rcvBody)

/-- One line from the front of the buffer. -/
def headerLine (self : HeaderParser) (buf : Bytes) : Except Exn (Option (HeaderParser × Bytes)) :=
  match find crlf buf with
  | none => .ok none
  | some newline =>
    let line := buf.take newline
    let buf := buf.drop (newline + 2)
    match self.state with
    | .start =>
      match splitMax (asBytes " ") 2 line with
      | [method, url, version] =>
        let request := { self.request with
          method := some method, url := some url, version := some version }
        .ok (some ({ state := .rcvHdrs, request }, buf))
      | fields => .error (.unpack 3 fields.length)
    | .rcvHdrs =>
      if line.length = 0 then .ok (some ({ self with state := .rcvBody }, buf))
      else
        match splitMax (asBytes ": ") 1 line with
        | [key, value] =>
          let request := { self.request with
            headers := self.request.headers.add (capitalize key) value }
          .ok (some ({ self with request }, buf))
        | fields => .error (.unpack 2 fields.length)
    | .rcvBody => .ok none

/-- What follows a line is shorter than the buffer. -/
theorem length_drop_of_find {buf : Bytes} {newline : Nat} (h : find crlf buf = some newline) :
    (buf.drop (newline + 2)).length < buf.length := by
  have : newline + 2 ≤ buf.length := find_lt h
  rw [List.length_drop]
  omega

def headerPass : Pass HeaderParser Exn where
  run := headerLine
  shrinks := by
    intro self buf self' buf' h
    unfold headerLine at h
    split at h
    · exact absurd h (by simp)
    · rename_i newline hfind
      have hlt := length_drop_of_find hfind
      dsimp only at h
      split at h
      · split at h
        · obtain ⟨⟩ := h
          exact hlt
        · exact absurd h (by simp)
      · split at h
        · obtain ⟨⟩ := h
          exact hlt
        · split at h
          · obtain ⟨⟩ := h
            exact hlt
          · exact absurd h (by simp)
      · exact absurd h (by simp)

theorem headerPass_run : headerPass.run = headerLine := rfl

/-- `None` when the connection is closed before the end of the request line. -/
def HttpRequest.parseHeader (sock : BufferedSocket) :
    Except Halt (Option HttpRequest × BufferedSocket) := do
  let ((parser, buf), sock) ←
    recvLoop headerPass.feed (Pass.stateIs HeaderParser.done) (HeaderParser.init, []) sock
  match parser.state with
  | .start => .ok (none, sock)
  | .rcvHdrs => .error (.raised .connectionClosedUnexpectedly)
  | .rcvBody => .ok (some parser.request, sock.rewind buf)

/-- `self.body += data` -/
def addBody (body : Option Bytes) (data : Bytes) : Except Exn (Option Bytes) :=
  match body with
  | none => .error .type
  | some body => .ok (some (body ++ data))

structure BodyParser where
  body : Option Bytes
  done : Bool
  deriving DecidableEq

/-- One pass of the loop over the chunks in the buffer. -/
def chunk (self : BodyParser) (buf : Bytes) : Except Exn (Option (BodyParser × Bytes)) :=
  match find crlf buf with
  | none => .ok none
  | some newline =>
    let line := buf.take newline
    match int 16 line with
    | none => .error (.intLiteral 16 line)
    | some chunkSize =>
      let rcvdChunkSize : Int := buf.length - line.length - 2
      if chunkSize + 2 > rcvdChunkSize then .ok none
      else
        let buf := buf.drop (newline + 2)
        match addBody self.body (sliceTo buf chunkSize) with
        | .error e => .error e
        | .ok body =>
          .ok (some ({ body, done := self.done || decide (chunkSize = 0) },
            sliceFrom buf (chunkSize + 2)))

def chunkPass : Pass BodyParser Exn where
  run := chunk
  shrinks := by
    intro self buf self' buf' h
    unfold chunk at h
    split at h
    · exact absurd h (by simp)
    · rename_i newline hfind
      have hlt := length_drop_of_find hfind
      dsimp only at h
      split at h
      · exact absurd h (by simp)
      · split at h
        · exact absurd h (by simp)
        · split at h
          · exact absurd h (by simp)
          · obtain ⟨⟩ := h
            exact Nat.lt_of_le_of_lt (length_sliceFrom_le _ _) hlt

theorem chunkPass_run : chunkPass.run = chunk := rfl

namespace HttpRequest

/-- The body of the loop of `parse_body`, on newly received bytes. -/
def feedBody (self : HttpRequest) (s : BodyParser × Bytes) (rcvd : Bytes) :
    Except Exn (BodyParser × Bytes) :=
  if (self.headers.get? (asBytes "Transfer-Encoding")).map lower = some (asBytes "chunked") then
    chunkPass.feed s rcvd
  else
    let buf := s.2 ++ rcvd
    match self.headers.get? (asBytes "Content-Length") with
    | some value =>
      match int 10 value with
      | none => .error (.intLiteral 10 value)
      | some length =>
        match addBody s.1.body buf with
        | .error e => .error e
        | .ok body =>
          .ok ({ body, done := s.1.done || decide (length ≤ (body.getD []).length) }, [])
    | none => .ok ({ body := none, done := true }, buf)

/-- `parse_body` after its loop. -/
def finishBody (self : HttpRequest) (r : (BodyParser × Bytes) × BufferedSocket) :
    Except Halt (HttpRequest × BufferedSocket) :=
  if r.1.1.done then .ok ({ self with body := r.1.1.body }, r.2)
  else .error (.raised .connectionClosedUnexpectedly)

theorem finishBody_eq_ok {self request : HttpRequest} {r : (BodyParser × Bytes) × BufferedSocket}
    {sock : BufferedSocket} (h : self.finishBody r = .ok (request, sock)) :
    r.1.1.done = true ∧ request = { self with body := r.1.1.body } ∧ sock = r.2 := by
  unfold finishBody at h
  split at h
  · rename_i hdone
    obtain ⟨⟩ := h
    exact ⟨hdone, rfl, rfl⟩
  · exact absurd h (by simp)

/-- The first iteration receives nothing: there may be nothing to receive. -/
def parseBody (self : HttpRequest) (sock : BufferedSocket) :
    Except Halt (HttpRequest × BufferedSocket) :=
  match self.feedBody ({ body := self.body, done := false }, []) [] with
  | .error e => .error (.raised e)
  | .ok s => (recvLoop self.feedBody (Pass.stateIs BodyParser.done) s sock).bind self.finishBody

/-- On a closed connection the body is parsed or refused. -/
theorem parseBody_of_closed (self : HttpRequest) {sock : BufferedSocket}
    (hclosed : sock.wrappedSocket.closed = true) :
    (∃ r, self.parseBody sock = .ok r) ∨ ∃ e, self.parseBody sock = .error (.raised e) := by
  rcases hbody : self.parseBody sock with (e | -) | r
  · exact Or.inr ⟨e, rfl⟩
  · unfold parseBody at hbody
    split at hbody
    · exact absurd hbody (by simp)
    · rcases bind_eq_error_iff.mp hbody with hloop | ⟨r, -, hfinish⟩
      · exact absurd (hclosed.symm.trans (open_of_recvLoop_waiting hloop)) (by decide)
      · unfold finishBody at hfinish
        split at hfinish <;> exact absurd hfinish (by simp)
  · exact Or.inl ⟨r, rfl⟩

def parse (sock : BufferedSocket) : Except Halt (Option HttpRequest × BufferedSocket) := do
  let (request, sock) ← parseHeader sock
  match request with
  | none => .ok (none, sock)
  | some request =>
    let (request, sock) ← request.parseBody sock
    .ok (some request, sock)

theorem parse_of_header {sock sock' : BufferedSocket} {request : HttpRequest}
    (h : parseHeader sock = .ok (some request, sock')) :
    parse sock = (request.parseBody sock').bind fun r => .ok (some r.1, r.2) := by
  rw [parse, h]
  rfl

end HttpRequest

end Siip.Proxy
