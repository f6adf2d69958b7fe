/-
  Where a request ends on a connection.

  `parse_header` gives back to the socket what it received beyond the header block; `parse_body`
  keeps what it received beyond the body. So a request is read exactly, whatever follows it, when
  its body receives nothing, when nothing can follow it, or when its end is the end of what some
  `recv` of the body returned. `message_boundary_iff` says that there is no other case.
-/
import Siip.Proxy.Message

namespace Siip.Proxy

open Lib Python

/-- No piece is longer than what `recv` asks for: 4096 bytes, and right after the header block
    (of length `head`) as many fewer as the rewound socket already holds. -/
def Fits (head : Nat) (pieces : List Piece) : Prop :=
  (∀ p ∈ pieces, p.val.length ≤ 4096) ∧
    ∀ pre p next post, pieces = pre ++ p :: next :: post → (flat pre).length < head →
      head ≤ (flat pre ++ p.val).length →
        (flat pre ++ p.val).length - head + next.val.length ≤ 4096

theorem fits_of_length_le {pieces : List Piece} (h : (flat pieces).length ≤ 4096) (head : Nat) :
    Fits head pieces := by
  constructor
  · intro p hp
    obtain ⟨pre, post, rfl⟩ := List.append_of_mem hp
    rw [flat_append, flat_cons, List.length_append, List.length_append] at h
    omega
  · rintro pre p next post rfl - -
    simp only [flat_append, flat_cons, List.length_append] at h ⊢
    omega

section

/-! The piece `p` completes the header block with its part `u`, and brings `q` of the body. -/

variable {head : Nat} {pre post : List Piece} {p p₁ : Piece} {u q : Bytes}

theorem Fits.header (h : Fits head (pre ++ p :: post)) : ∀ p' ∈ pre ++ [p], p'.val.length ≤ 4096 :=
  fun p' hp' => h.1 p' (by simp at hp' ⊢; tauto)

theorem Fits.length_lt (h : Fits head (pre ++ p :: post)) (hu : u ≠ []) (hp : p.val = u ++ q) :
    q.length < 4096 := by
  have hsize := h.1 p (by simp)
  have hpos := List.length_pos_of_ne_nil hu
  rw [hp, List.length_append] at hsize
  omega

theorem Fits.room (h : Fits head (pre ++ p :: p₁ :: post)) (hu : u ≠ []) (hp : p.val = u ++ q)
    (hhead : head = (flat pre ++ u).length) : q.length + p₁.val.length ≤ 4096 := by
  have hpos := List.length_pos_of_ne_nil hu
  have hpiece : (flat pre ++ p.val).length = head + q.length := by
    rw [hhead, hp, List.length_append, List.length_append, List.length_append, Nat.add_assoc]
  have hnext := h.2 pre p p₁ post rfl (by rw [hhead, List.length_append]; omega) (by omega)
  omega

end

/-- `parse` returns the request that `m` says, and what is left unread is `rest`. -/
def ParsesExactly (m : Message) (rest : Bytes) (pieces : List Piece) (closed : Bool) : Prop :=
  ∃ sock, HttpRequest.parse ⟨⟨pieces, closed⟩, []⟩ = .ok (some m.request, sock) ∧
    sock.unread = rest

/-- The message ends with a piece, and some piece ends within its body or right before it. -/
def EndsWithPiece (m : Message) (pieces : List Piece) : Prop :=
  Boundary pieces m.bytes.length ∧
    ∃ n, Boundary pieces n ∧ m.head.bytes.length ≤ n ∧ n < m.bytes.length

/-! ## The header block -/

theorem RequestHead.bytes_ne_nil (head : RequestHead) : head.bytes ≠ [] := by
  simp [RequestHead.bytes, crlf]

theorem parseHeader_of_completing {head : RequestHead} {pre post : List Piece} {p : Piece}
    {u q : Bytes} {closed : Bool} (hu : u ≠ []) (hhead : head.bytes = flat pre ++ u)
    (hp : p.val = u ++ q) (hsize : ∀ p' ∈ pre ++ [p], p'.val.length ≤ 4096) :
    HttpRequest.parseHeader ⟨⟨pre ++ p :: post, closed⟩, []⟩ =
      .ok (some head.request, ⟨⟨post, closed⟩, q⟩) := by
  have hst : Resumes headerPass.feed (Pass.stateIs HeaderParser.done) (HeaderParser.init, []) []
      (HeaderParser.init, []) := ⟨rfl, fun _ => rfl⟩
  have hdrain : headerPass.feed (HeaderParser.init, []) (head.bytes ++ q) =
      .ok ({ state := .rcvBody, request := head.request }, q) := by
    rw [Pass.feed, List.nil_append, head.readsAll.drain_append]
    exact Pass.drain_of_none (by rw [headerPass_run, headerLine]; split <;> rfl)
  have hloop := recvLoop_of_frames head.readsAll.frames post hst hhead hu hp hsize
    closed
  rw [hdrain] at hloop
  rw [HttpRequest.parseHeader, hloop.trans (recvLoop_of_done rfl)]
  change Except.ok (some head.request, BufferedSocket.rewind q ⟨⟨post, closed⟩, []⟩) = _
  rw [BufferedSocket.rewind, List.append_nil]

/-! ## The body -/

/-- The parser of the body before it has received anything. -/
def BodyParser.init : BodyParser × Bytes := ({ body := some [], done := false }, [])

theorem HttpRequest.feedBody_of_isChunked (self : HttpRequest) (h : self.headers.isChunked) :
    self.feedBody = chunkPass.feed := by
  have hchunked : (self.headers.get? (asBytes "Transfer-Encoding")).map lower =
      some (asBytes "chunked") := h
  funext s rcvd
  rw [feedBody, if_pos hchunked]

/-- The first iteration, on an empty buffer, does nothing. -/
theorem HttpRequest.parseBody_of_isChunked {self : HttpRequest} (hchunked : self.headers.isChunked)
    (sock : BufferedSocket) :
    self.parseBody sock = (recvLoop chunkPass.feed (Pass.stateIs BodyParser.done)
      ({ body := self.body, done := false }, []) sock).bind self.finishBody := by
  have hfirst : self.feedBody ({ body := self.body, done := false }, []) [] =
      .ok ({ body := self.body, done := false }, []) := by
    rw [self.feedBody_of_isChunked hchunked]
    exact Pass.drain_of_none rfl
  rw [parseBody, hfirst, self.feedBody_of_isChunked hchunked]

theorem Chunk.bytes_ne_nil (c : Chunk) : c.bytes ≠ [] := by
  simp [Chunk.bytes, crlf]

/-- Chunks with data, and one of size zero. -/
structure ChunkedBody where
  chunks : List Chunk
  last : Chunk
  nonempty : ∀ c ∈ chunks, c.data ≠ []
  last_empty : last.data = []

namespace ChunkedBody

variable (b : ChunkedBody)

def bytes : Bytes := b.chunks.flatMap Chunk.bytes ++ b.last.bytes

def data : Bytes := b.chunks.flatMap Chunk.data

/-- The parser of the body after the whole of it. -/
def parsed : BodyParser × Bytes := ({ body := some b.data, done := true }, [])

theorem bytes_ne_nil : b.bytes ≠ [] := by
  simp [bytes, b.last.bytes_ne_nil]

theorem frames : Frames chunkPass.feed (Pass.stateIs BodyParser.done) BodyParser.init b.bytes :=
  (readsAll_chunks b.nonempty b.last_empty []).frames

theorem feed_bytes : chunkPass.feed BodyParser.init b.bytes = .ok b.parsed := by
  have hdrain := (readsAll_chunks b.nonempty b.last_empty []).drain_append []
  rw [List.append_nil, List.nil_append] at hdrain
  rw [BodyParser.init, Pass.feed, List.nil_append, bytes, hdrain]
  exact Pass.drain_of_none rfl

end ChunkedBody

namespace Message

variable (m : Message)

theorem feedBody_sized {n : Nat} (plain : ¬ m.head.headers.isChunked)
    (length : (m.head.headers.get? (asBytes "Content-Length")).bind (numeral 10) = some n)
    (s : BodyParser × Bytes) (rcvd acc : Bytes) (hs : s.1.body = some acc) :
    m.head.request.feedBody s rcvd =
      .ok ({ body := some (acc ++ (s.2 ++ rcvd)),
             done := s.1.done || decide (n ≤ (acc ++ (s.2 ++ rcvd)).length) }, []) := by
  obtain ⟨value, hget, hnum⟩ := Option.bind_eq_some_iff.mp length
  have hplain : ¬ (m.head.request.headers.get? (asBytes "Transfer-Encoding")).map lower =
      some (asBytes "chunked") := plain
  have hget' : m.head.request.headers.get? (asBytes "Content-Length") = some value := hget
  rw [HttpRequest.feedBody, if_neg hplain]
  simp only [hget', int_of_numeral (by decide) hnum, hs, addBody, Option.getD_some, Int.ofNat_le]

/-- The parser waits for the whole body. -/
theorem frames_body :
    Frames m.head.request.feedBody (Pass.stateIs BodyParser.done) BodyParser.init m.body.bytes := by
  cases h : m.body with
  | sized body plain length =>
    intro t u ht hu
    have hlt : ¬ body.length ≤ t.length := by
      have := congrArg List.length ht
      have := List.length_pos_of_ne_nil hu
      simp only [MessageBody.bytes, List.length_append] at *
      omega
    have hfeed := m.feedBody_sized plain length
    refine ⟨_, hfeed BodyParser.init t [] rfl, ?_, fun x => ?_⟩
    · simp [Pass.stateIs, BodyParser.init, hlt]
    · rw [hfeed _ x t rfl, hfeed BodyParser.init (t ++ x) [] rfl]
      simp [BodyParser.init, hlt]
  | chunked chunks last isChunked nonempty last_empty =>
    rw [m.head.request.feedBody_of_isChunked isChunked]
    exact ChunkedBody.frames ⟨chunks, last, nonempty, last_empty⟩

/-- Given the whole body at once, it is done and has it all. -/
theorem feedBody_bytes :
    m.head.request.feedBody BodyParser.init m.body.bytes =
      .ok ({ body := some m.body.data, done := true }, []) := by
  cases h : m.body with
  | sized body plain length =>
    rw [m.feedBody_sized plain length BodyParser.init _ [] rfl]
    simp [BodyParser.init, MessageBody.bytes, MessageBody.data]
  | chunked chunks last isChunked nonempty last_empty =>
    rw [m.head.request.feedBody_of_isChunked isChunked]
    exact ChunkedBody.feed_bytes ⟨chunks, last, nonempty, last_empty⟩

theorem parseBody_of_feed {s : BodyParser × Bytes} {sock : BufferedSocket}
    (h : m.head.request.feedBody BodyParser.init [] = .ok s) :
    m.head.request.parseBody sock =
      (recvLoop m.head.request.feedBody (Pass.stateIs BodyParser.done) s sock).bind
        m.head.request.finishBody := by
  have h' : m.head.request.feedBody ({ body := m.head.request.body, done := false }, []) [] =
      .ok s := h
  rw [HttpRequest.parseBody, h']

/-- `parse_body` on a socket that receives as if it held the pieces `pieces`. -/
theorem parseBody_exact_iff {rest : Bytes} {pieces : List Piece} {closed : Bool}
    {sock : BufferedSocket} (hne : m.body.bytes ≠ [])
    (hrecv : sock.recv 4096 = BufferedSocket.recv 4096 ⟨⟨pieces, closed⟩, []⟩)
    (hflat : flat pieces = m.body.bytes ++ rest) (hsize : ∀ p ∈ pieces, p.val.length ≤ 4096) :
    (∃ sock', m.head.request.parseBody sock = .ok (m.request, sock') ∧ sock'.unread = rest) ↔
      Boundary pieces m.body.bytes.length := by
  obtain ⟨st, hfeed, hdone, hresume⟩ := m.frames_body (List.nil_append _).symm hne
  have hexact := recvLoop_exact m.frames_body m.feedBody_bytes rfl ⟨hdone, hresume⟩ hflat hne
    hsize closed
  have hparse : m.head.request.parseBody sock =
      (recvLoop m.head.request.feedBody (Pass.stateIs BodyParser.done) st
        ⟨⟨pieces, closed⟩, []⟩).bind m.head.request.finishBody := by
    rw [m.parseBody_of_feed hfeed]
    exact congrArg (Except.bind · _) (recvLoop_congr hdone hrecv)
  rw [hparse]
  constructor
  · intro h
    obtain ⟨sock', h, hrest⟩ := h
    obtain ⟨⟨s, sock''⟩, hloop, hfinish⟩ := bind_eq_ok_iff.mp h
    obtain ⟨-, -, rfl⟩ := HttpRequest.finishBody_eq_ok hfinish
    exact hexact.2 _ _ hloop hrest
  · intro hbound
    obtain ⟨sock', hloop, hrest⟩ := hexact.1 hbound
    rw [hloop]
    exact ⟨sock', rfl, hrest⟩

end Message

/-! ## Boundaries around the header block -/

/-- The pieces after the one that completes the header block, and brings `q` of the body: the
    message ends with one of them exactly when the body does. -/
theorem endsWithPiece_iff {m : Message} {pre post : List Piece} {p : Piece} {u q : Bytes}
    (hu : u ≠ []) (hhead : m.head.bytes = flat pre ++ u) (hp : p.val = u ++ q) :
    EndsWithPiece m (pre ++ p :: post) ↔
      q.length < m.body.bytes.length ∧ Boundary post (m.body.bytes.length - q.length) := by
  have hupos := List.length_pos_of_ne_nil hu
  have hhlen : m.head.bytes.length = (flat pre).length + u.length := by
    rw [hhead, List.length_append]
  have hplen : p.val.length = u.length + q.length := by rw [hp, List.length_append]
  have hmlen : m.bytes.length = (flat pre).length + (u.length + m.body.bytes.length) := by
    rw [Message.bytes, List.length_append, hhlen, Nat.add_assoc]
  -- a boundary after the beginning of `p` is at the end of `p` or later
  have hafter : ∀ n, 0 < n → (Boundary (pre ++ p :: post) ((flat pre).length + n) ↔
      p.val.length ≤ n ∧ Boundary post (n - p.val.length)) := by
    intro n hn
    rw [boundary_append_iff, boundary_cons_iff hn]
  rw [EndsWithPiece, hmlen, hafter _ (by omega)]
  constructor
  · intro h
    obtain ⟨⟨-, hbody⟩, n, hn, hhead', hlt⟩ := h
    obtain ⟨k, rfl⟩ := Nat.exists_eq_add_of_le (show (flat pre).length ≤ n by omega)
    obtain ⟨hle, -⟩ := (hafter k (by omega)).mp hn
    rw [hplen, Nat.add_sub_add_left] at hbody
    exact ⟨by omega, hbody⟩
  · intro h
    obtain ⟨hlt, hbody⟩ := h
    refine ⟨⟨by omega, ?_⟩, (flat pre).length + p.val.length, ?_, by omega, by omega⟩
    · rw [hplen, Nat.add_sub_add_left]
      exact hbody
    · rw [hafter _ p.length_pos, Nat.sub_self]
      exact ⟨Nat.le_refl _, boundary_zero post⟩

/-! ## The boundary of a request -/

theorem parsesExactly_iff {m : Message} {rest : Bytes} {pieces post : List Piece} {closed : Bool}
    {q : Bytes} (h : HttpRequest.parseHeader ⟨⟨pieces, closed⟩, []⟩ =
      .ok (some m.head.request, ⟨⟨post, closed⟩, q⟩)) :
    ParsesExactly m rest pieces closed ↔ ∃ sock',
      m.head.request.parseBody ⟨⟨post, closed⟩, q⟩ = .ok (m.request, sock') ∧
        sock'.unread = rest := by
  simp only [ParsesExactly, HttpRequest.parse_of_header h, bind_eq_ok_iff, Except.ok.injEq,
    Prod.mk.injEq, Option.some.injEq, Prod.exists]
  constructor
  · intro h
    obtain ⟨sock', ⟨_, _, hbody, rfl, rfl⟩, hrest⟩ := h
    exact ⟨_, hbody, hrest⟩
  · intro h
    obtain ⟨sock', hbody, hrest⟩ := h
    exact ⟨sock', ⟨_, _, hbody, rfl, rfl⟩, hrest⟩

/-- A body of no bytes is read without receiving. -/
theorem Message.parseBody_empty {m : Message} (h : m.body.bytes = []) (sock : BufferedSocket) :
    m.head.request.parseBody sock = .ok (m.request, sock) := by
  have hfeed := m.feedBody_bytes
  rw [h] at hfeed
  rw [m.parseBody_of_feed hfeed, recvLoop_of_done rfl]
  rfl

/-- From a closed connection that holds just the body, the loop of `parse_body` reads it, however
    it is cut. -/
theorem Message.recvLoop_of_closed {m : Message} {sock : BufferedSocket}
    (hunread : sock.unread = m.body.bytes) (hclosed : sock.wrappedSocket.closed = true) :
    ∃ s sock', m.head.request.feedBody BodyParser.init [] = .ok s ∧
      recvLoop m.head.request.feedBody (Pass.stateIs BodyParser.done) s sock =
        .ok (({ body := some m.body.data, done := true }, []), sock') ∧ sock'.unread = [] := by
  by_cases hne : m.body.bytes = []
  · have hfeed := m.feedBody_bytes
    rw [hne] at hfeed
    exact ⟨_, sock, hfeed, recvLoop_of_done rfl, hunread.trans hne⟩
  · obtain ⟨s, hfeed, hdone, hresume⟩ := m.frames_body (List.nil_append _).symm hne
    obtain ⟨sock', hloop, hnil⟩ := recvLoop_of_frame m.frames_body m.feedBody_bytes rfl
      ⟨hdone, hresume⟩ (by rw [hunread, List.nil_append]) (by rwa [hunread]) (Or.inl hclosed)
    exact ⟨s, sock', hfeed, hloop, hnil⟩

theorem Message.parseBody_of_closed {m : Message} {sock : BufferedSocket}
    (hunread : sock.unread = m.body.bytes) (hclosed : sock.wrappedSocket.closed = true) :
    ∃ sock', m.head.request.parseBody sock = .ok (m.request, sock') ∧ sock'.unread = [] := by
  obtain ⟨s, sock', hfeed, hloop, hnil⟩ := m.recvLoop_of_closed hunread hclosed
  refine ⟨sock', ?_, hnil⟩
  rw [m.parseBody_of_feed hfeed, hloop]
  rfl

/-- With nothing to receive on an open connection, a body of some bytes is waited for. -/
theorem Message.parseBody_waiting {m : Message} (hne : m.body.bytes ≠ []) {q : Bytes}
    (hq : q.length < 4096) :
    m.head.request.parseBody ⟨⟨[], false⟩, q⟩ = .error .waiting := by
  obtain ⟨s, hfeed, hdone, -⟩ := m.frames_body (List.nil_append _).symm hne
  rw [m.parseBody_of_feed hfeed, recvLoop_of_waiting hdone (BufferedSocket.recv_nil hq)]
  rfl

/-- Where everything came with the header block, only the end of the connection lets the parser
    go on, and then it takes all. -/
theorem Message.parseBody_nil_iff {m : Message} (hne : m.body.bytes ≠ []) {q rest : Bytes}
    {closed : Bool} (hq : q.length < 4096) (hbody : m.body.bytes ++ rest = q) :
    (∃ sock', m.head.request.parseBody ⟨⟨[], closed⟩, q⟩ = .ok (m.request, sock') ∧
        sock'.unread = rest) ↔ rest = [] ∧ closed = true := by
  cases closed with
  | false => simp [m.parseBody_waiting hne hq]
  | true =>
    have hbpos := List.length_pos_of_ne_nil hne
    have hlen := congrArg List.length hbody
    rw [List.length_append] at hlen
    have hqne : q ≠ [] := by
      rintro rfl
      exact hne (List.append_eq_nil_iff.mp hbody).1
    have hrecv : BufferedSocket.recv 4096 ⟨⟨[], true⟩, q⟩ =
        BufferedSocket.recv 4096 ⟨⟨[⟨q, hqne⟩], true⟩, []⟩ := by
      rw [BufferedSocket.recv_nil hq, BufferedSocket.recv_piece (Nat.le_of_lt hq), if_pos rfl]
    rw [m.parseBody_exact_iff hne hrecv (by simpa using hbody.symm) (by simp; omega),
      boundary_cons_iff hbpos, boundary_nil_iff, ← List.length_eq_zero_iff]
    simp only [and_true]
    omega

/-- Where a piece follows, the first `recv` for the body returns it after `q`, which came with the
    header block. -/
theorem Message.parseBody_cons_iff {m : Message} (hne : m.body.bytes ≠ []) {q rest : Bytes}
    {p : Piece} {post : List Piece} {closed : Bool} (hroom : q.length + p.val.length ≤ 4096)
    (hsize : ∀ p' ∈ post, p'.val.length ≤ 4096)
    (hbody : m.body.bytes ++ rest = q ++ flat (p :: post)) :
    (∃ sock', m.head.request.parseBody ⟨⟨p :: post, closed⟩, q⟩ = .ok (m.request, sock') ∧
        sock'.unread = rest) ↔
      q.length < m.body.bytes.length ∧
        Boundary (p :: post) (m.body.bytes.length - q.length) := by
  have hbpos := List.length_pos_of_ne_nil hne
  have hp := p.length_pos
  have hqne : q ++ p.val ≠ [] := by simp [p.property]
  have hrecv : BufferedSocket.recv 4096 ⟨⟨p :: post, closed⟩, q⟩ =
      BufferedSocket.recv 4096 ⟨⟨⟨q ++ p.val, hqne⟩ :: post, closed⟩, []⟩ := by
    rw [BufferedSocket.recv_cons hroom, BufferedSocket.recv_piece (by simpa using hroom)]
  have hflat : flat (⟨q ++ p.val, hqne⟩ :: post) = m.body.bytes ++ rest := by
    rw [hbody, flat_cons, flat_cons, List.append_assoc]
  have hsize' : ∀ p' ∈ ⟨q ++ p.val, hqne⟩ :: post, p'.val.length ≤ 4096 := by
    intro p' hp'
    rcases List.mem_cons.mp hp' with rfl | hp'
    · simpa using hroom
    · exact hsize p' hp'
  rw [m.parseBody_exact_iff hne hrecv hflat hsize', boundary_cons_iff hbpos, List.length_append]
  constructor
  · intro h
    obtain ⟨hle, hbound⟩ := h
    refine ⟨by omega, (boundary_cons_iff (by omega)).mpr ⟨by omega, ?_⟩⟩
    rw [Nat.sub_sub]
    exact hbound
  · intro h
    obtain ⟨hlt, hbound⟩ := h
    rw [boundary_cons_iff (by omega), Nat.sub_sub] at hbound
    exact ⟨by omega, hbound.2⟩

/-- A request is read exactly, whatever follows it, if and only if its body is empty, nothing
    follows on a closed connection, or it ends with a piece received for its body. -/
theorem message_boundary_iff (m : Message) (rest : Bytes) (stream : Segmentation (m.bytes ++ rest))
    (closed : Bool) (hfits : Fits m.head.bytes.length stream.pieces) :
    ParsesExactly m rest stream.pieces closed ↔
      m.body.bytes = [] ∨ (rest = [] ∧ closed = true) ∨ EndsWithPiece m stream.pieces := by
  obtain ⟨pieces, hflat⟩ := stream
  rw [Message.bytes, List.append_assoc] at hflat
  obtain ⟨pre, p, post, u, q, rfl, hu, hhead, hp, hbody⟩ :=
    exists_completing hflat m.head.bytes_ne_nil
  dsimp only at hfits ⊢
  rw [parsesExactly_iff (parseHeader_of_completing hu hhead hp hfits.header),
    endsWithPiece_iff hu hhead hp]
  by_cases hne : m.body.bytes = []
  · refine iff_of_true ⟨_, m.parseBody_empty hne _, ?_⟩ (Or.inl hne)
    rw [BufferedSocket.unread, ← hbody, hne, List.nil_append]
  simp only [hne, false_or]
  have hlen := congrArg List.length hbody
  rw [List.length_append, List.length_append] at hlen
  cases post with
  | nil =>
    rw [flat_nil] at hlen hbody
    have hends : ¬ (q.length < m.body.bytes.length ∧
        Boundary [] (m.body.bytes.length - q.length)) := by
      rw [boundary_nil_iff]
      omega
    rw [or_iff_left hends]
    exact m.parseBody_nil_iff hne (hfits.length_lt hu hp) (by rw [hbody, List.append_nil])
  | cons p₁ post =>
    have hroom := hfits.room hu hp (congrArg List.length hhead)
    rw [m.parseBody_cons_iff hne hroom (fun p' hp' => hfits.1 p' (by simp [hp'])) hbody]
    -- the end of the stream is the end of a piece
    refine (or_iff_right_of_imp ?_).symm
    intro h
    obtain ⟨rfl, -⟩ := h
    have hp₁ := p₁.length_pos
    rw [flat_cons, List.length_append, List.length_nil] at hlen
    refine ⟨by omega, ?_⟩
    have hend : m.body.bytes.length - q.length = (flat (p₁ :: post)).length := by
      rw [flat_cons, List.length_append]
      omega
    rw [hend]
    exact boundary_flat _

/-- `POST / HTTP/1.1`, with a body of one byte. -/
def postX : Message where
  head := {
    method := asBytes "POST"
    url := asBytes "/"
    version := asBytes "HTTP/1.1"
    fields := [(asBytes "Content-Length", asBytes "1")]
    method_free := by decide +kernel
    url_free := by decide +kernel
    version_free := find_crlf_http11
    fields_free := by decide +kernel }
  body := .sized (asBytes "x") (by unfold Headers.isChunked; decide +kernel) (by decide +kernel)

/-- Header block, body and the next bytes in three pieces. -/
theorem postX_parsesExactly :
    ParsesExactly postX (asBytes "y") [⟨postX.head.bytes, postX.head.bytes_ne_nil⟩,
      ⟨asBytes "x", by decide +kernel⟩, ⟨asBytes "y", by decide +kernel⟩] false := by
  refine (message_boundary_iff postX (asBytes "y") ⟨_, by decide +kernel⟩ false
    (fits_of_length_le (by decide +kernel) _)).mpr (Or.inr (Or.inr ⟨?_, ?_⟩))
  · exact ⟨[_, _], [_], rfl, by decide +kernel⟩
  · exact ⟨postX.head.bytes.length, ⟨[_], [_, _], rfl, by decide +kernel⟩, Nat.le_refl _,
      by decide +kernel⟩

/-- The same bytes in one piece: the body absorbs the next one. -/
theorem postX_absorbs :
    Fits postX.head.bytes.length [⟨postX.bytes ++ asBytes "y", by decide +kernel⟩] ∧
      ¬ ParsesExactly postX (asBytes "y")
        [⟨postX.bytes ++ asBytes "y", by decide +kernel⟩] true := by
  refine ⟨fits_of_length_le (by decide +kernel) _, ?_⟩
  intro h
  obtain ⟨sock, hparse, -⟩ := h
  have habsorb : HttpRequest.parse
      ⟨⟨[⟨postX.bytes ++ asBytes "y", by decide +kernel⟩], true⟩, []⟩ =
      .ok (some { postX.request with body := some (asBytes "xy") }, ⟨⟨[], true⟩, []⟩) := by
    decide +kernel
  have hbody := congrArg HttpRequest.body
    (Option.some.inj (congrArg Prod.fst (Except.ok.inj (habsorb.symm.trans hparse))))
  exact absurd hbody (by decide +kernel)

end Siip.Proxy
