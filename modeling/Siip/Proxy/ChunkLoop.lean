/-
  How often the loop over the chunks is entered.

  `int` reads negative sizes as well, and slices with these. Then `buf[chunk_size + 2:]` may keep
  all that it is given, but the size line has been cut off before, so a pass that goes on leaves a
  shorter buffer. What a pass was waiting for is gone after it (`chunkPass_greedy`): with a size
  that the test on the length held back the last slice is an ordinary one. So `parse_body` makes
  no more passes than it receives bytes (`chunk_loop_ends`).
-/
import Siip.Proxy.Chunked
import Siip.Proxy.Response

namespace Siip.Proxy

open Lib Python

/-! ## One pass -/

/-- `newline >= 0` -/
def chunkEntered (buf : Bytes) : Prop := find crlf buf ≠ none

theorem chunk_of_not_chunkEntered (self : BodyParser) (buf : Bytes) (h : ¬ chunkEntered buf) :
    chunkPass.run self buf = .ok none :=
  chunk_of_find (not_not.mp h) self

theorem ne_nil_of_chunkEntered (buf : Bytes) (h : chunkEntered buf) : buf ≠ [] := by
  rintro rfl
  exact h rfl

/-- A pass that goes on has read a size line and found no fewer bytes after it than announced. -/
theorem chunk_eq_some {self self' : BodyParser} {buf buf' : Bytes}
    (h : chunk self buf = .ok (some (self', buf'))) :
    ∃ line rest size, buf = line ++ crlf ++ rest ∧ find crlf line = none ∧
      int 16 line = some size ∧ size + 2 ≤ rest.length ∧ buf' = sliceFrom rest (size + 2) := by
  cases hfind : find crlf buf with
  | none =>
    rw [chunk_of_find hfind] at h
    exact absurd h (by simp)
  | some newline =>
    obtain ⟨line, rest, rfl, hline⟩ := eq_line_of_find hfind
    rw [chunk_line hline] at h
    cases hsize : int 16 line with
    | none =>
      rw [hsize] at h
      exact absurd h (by simp)
    | some size =>
      rw [hsize] at h
      dsimp only at h
      split at h
      · exact absurd h (by simp)
      · rename_i hwhole
        split at h
        · exact absurd h (by simp)
        · obtain ⟨⟩ := h
          exact ⟨line, rest, size, rfl, hline, hsize, by omega, rfl⟩

/-- A pass that leaves the loop at a size line waits for bytes, be the size negative or not. -/
theorem waits_of_chunk {self : BodyParser} {line rest : Bytes} {size : Int}
    (hline : find crlf line = none) (hsize : int 16 line = some size)
    (h : chunk self (line ++ crlf ++ rest) = .ok none) : rest.length < size + 2 := by
  rw [chunk_line hline, hsize] at h
  dsimp only at h
  split at h
  · rename_i hshort
    exact hshort
  · split at h
    · exact absurd h (by simp)
    · exact absurd h (by simp)

theorem chunkPass_greedy : chunkPass.Greedy := by
  intro self self' buf x buf' hidle hrun
  obtain ⟨line, rest, size, hbuf, hline, hsize, hwhole, rfl⟩ := chunk_eq_some hrun
  -- either the size line was there before `x` came, or its end came with `x`
  rcases cut_append hbuf.symm with ⟨old, rfl, rfl⟩ | ⟨c, hc, hne⟩
  · have hshort := waits_of_chunk hline hsize hidle
    rw [List.length_append] at hwhole
    rw [sliceFrom, if_pos (by omega), List.length_drop, List.length_append]
    omega
  · have hpos := List.length_pos_of_ne_nil hne
    have hlen := congrArg List.length hbuf
    have hlenc := congrArg List.length hc
    simp only [List.length_append] at hlen hlenc
    exact Nat.lt_of_le_of_lt (length_sliceFrom_le rest (size + 2)) (by omega)

/-! ## The receive loop, with its passes counted -/

/-- The loop of `recvLoop` from a state, with the number of times that the body of its inner loop
    is entered, and the bytes that it receives. -/
inductive CountedLoop {σ : Type} (pass : Pass σ Exn) (entered : Bytes → Prop) (done : σ → Bool) :
    σ × Bytes → BufferedSocket → Nat → Bytes → Except Halt ((σ × Bytes) × BufferedSocket) → Prop
  | done {s : σ × Bytes} {sock : BufferedSocket} (h : Pass.stateIs done s = true) :
      CountedLoop pass entered done s sock 0 [] (.ok (s, sock))
  | waits {s : σ × Bytes} {sock : BufferedSocket} (h : Pass.stateIs done s = false)
      (hrecv : sock.recv 4096 = none) :
      CountedLoop pass entered done s sock 0 [] (.error .waiting)
  | closed {s : σ × Bytes} {sock sock' : BufferedSocket} (h : Pass.stateIs done s = false)
      (hrecv : sock.recv 4096 = some ([], sock')) :
      CountedLoop pass entered done s sock 0 [] (.ok (s, sock'))
  | raises {s : σ × Bytes} {sock sock' : BufferedSocket} {rcvd : Bytes} {n : Nat} {e : Exn}
      (h : Pass.stateIs done s = false) (hrecv : sock.recv 4096 = some (rcvd, sock'))
      (hne : rcvd ≠ [])
      (hloop : pass.Loop entered s.1 (s.2 ++ rcvd) n (.error e)) :
      CountedLoop pass entered done s sock n rcvd (.error (.raised e))
  | again {s s' : σ × Bytes} {sock sock' : BufferedSocket} {rcvd more : Bytes} {n m : Nat}
      {r : Except Halt ((σ × Bytes) × BufferedSocket)}
      (h : Pass.stateIs done s = false) (hrecv : sock.recv 4096 = some (rcvd, sock'))
      (hne : rcvd ≠ [])
      (hloop : pass.Loop entered s.1 (s.2 ++ rcvd) n (.ok s'))
      (rest : CountedLoop pass entered done s' sock' m more r) :
      CountedLoop pass entered done s sock (n + m) (rcvd ++ more) r

namespace CountedLoop

variable {σ : Type} {pass : Pass σ Exn} {entered : Bytes → Prop} {done : σ → Bool} {s : σ × Bytes}
  {sock : BufferedSocket} {n : Nat} {rcvd : Bytes}
  {r : Except Halt ((σ × Bytes) × BufferedSocket)}

/-- The loop ends on every stream. -/
theorem exists_countedLoop (pass : Pass σ Exn) (entered : Bytes → Prop) (done : σ → Bool)
    (s : σ × Bytes) (sock : BufferedSocket) :
    ∃ n rcvd r, CountedLoop pass entered done s sock n rcvd r := by
  induction hn : sock.unread.length using Nat.strongRecOn generalizing s sock with
  | ind n ih =>
    subst hn
    cases hdone : Pass.stateIs done s with
    | true => exact ⟨0, [], _, .done hdone⟩
    | false =>
      cases hrecv : sock.recv 4096 with
      | none => exact ⟨0, [], _, .waits hdone hrecv⟩
      | some received =>
        obtain ⟨rcvd, sock'⟩ := received
        by_cases hne : rcvd = []
        · subst hne
          exact ⟨0, [], _, .closed hdone hrecv⟩
        · obtain ⟨n, r, hloop⟩ := Pass.Loop.exists_loop pass entered s.1 (s.2 ++ rcvd)
          cases r with
          | error e => exact ⟨n, rcvd, _, .raises hdone hrecv hne hloop⟩
          | ok s' =>
            have hless : sock'.unread.length < sock.unread.length := by
              have hpos := List.length_pos_of_ne_nil hne
              rw [BufferedSocket.unread_of_recv (by decide) hrecv, List.length_append]
              omega
            obtain ⟨m, more, r, hrest⟩ := ih _ hless s' sock' rfl
            exact ⟨n + m, rcvd ++ more, r, .again hdone hrecv hne hloop hrest⟩

/-- It received what it says from the front of the stream. -/
theorem isPrefix (h : CountedLoop pass entered done s sock n rcvd r) : rcvd <+: sock.unread := by
  induction h with
  | done h => exact List.nil_prefix
  | waits h hrecv => exact List.nil_prefix
  | closed h hrecv => exact List.nil_prefix
  | raises h hrecv hne hloop =>
    rw [BufferedSocket.unread_of_recv (by decide) hrecv]
    exact List.prefix_append _ _
  | again h hrecv hne hloop _ ih =>
    rw [BufferedSocket.unread_of_recv (by decide) hrecv]
    exact (List.prefix_append_right_inj _).mpr ih

section

variable (hends : ∀ st buf, ¬ entered buf → pass.run st buf = .ok none)

include hends

/-- It ends as `recvLoop` does. -/
theorem eq_recvLoop (h : CountedLoop pass entered done s sock n rcvd r) :
    r = recvLoop pass.feed (Pass.stateIs done) s sock := by
  induction h with
  | done h => exact (recvLoop_of_done h).symm
  | waits h hrecv => exact (recvLoop_of_waiting h hrecv).symm
  | closed h hrecv => exact (recvLoop_of_closed h hrecv).symm
  | raises h hrecv hne hloop =>
    rw [recvLoop_of_recv h hrecv hne, Pass.feed, ← hloop.eq_drain hends]
  | again h hrecv hne hloop _ ih =>
    rw [recvLoop_of_recv h hrecv hne, Pass.feed, ← hloop.eq_drain hends]
    exact ih

/-- Where a pass is greedy, one pass at most for each byte received. -/
theorem le_length (hne : ∀ buf, entered buf → buf ≠ []) (hgreedy : pass.Greedy)
    (h : CountedLoop pass entered done s sock n rcvd r) (hidle : pass.run s.1 s.2 = .ok none) :
    n ≤ rcvd.length := by
  induction h with
  | done h => exact Nat.le_refl 0
  | waits h hrecv => exact Nat.le_refl 0
  | closed h hrecv => exact Nat.le_refl 0
  | raises h hrecv hrcvd hloop => exact hloop.le_new hne hgreedy hidle hrcvd
  | @again s s' sock sock' rcvd more n m r h hrecv hrcvd hloop _ ih =>
    -- what is left after the passes is again a buffer that no pass can read from
    have hidle' : pass.run s'.1 s'.2 = .ok none := Pass.run_of_drain (hloop.eq_drain hends).symm
    have hle := hloop.le_new hne hgreedy hidle hrcvd
    have hrest := ih hidle'
    rw [List.length_append]
    omega

end

end CountedLoop

/-! ## `parse_body` -/

/-- The chunked branch of `parse_body`: the loop on the empty buffer of the first iteration, and
    then on what is received. -/
inductive ChunkedBranch (body : Option Bytes) (sock : BufferedSocket) :
    Nat → Bytes → Except Halt ((BodyParser × Bytes) × BufferedSocket) → Prop
  | raises {n : Nat} {e : Exn}
      (hloop : chunkPass.Loop chunkEntered { body, done := false } [] n (.error e)) :
      ChunkedBranch body sock n [] (.error (.raised e))
  | receives {n m : Nat} {s : BodyParser × Bytes} {rcvd : Bytes}
      {r : Except Halt ((BodyParser × Bytes) × BufferedSocket)}
      (hloop : chunkPass.Loop chunkEntered { body, done := false } [] n (.ok s))
      (rest : CountedLoop chunkPass chunkEntered BodyParser.done s sock m rcvd r) :
      ChunkedBranch body sock (n + m) rcvd r

/-- The branch ends as `r`, after no more passes than it has received bytes. -/
structure EndsWithin (body : Option Bytes) (sock : BufferedSocket)
    (r : Except Halt ((BodyParser × Bytes) × BufferedSocket)) : Prop where
  ends : ∃ n rcvd, ChunkedBranch body sock n rcvd r
  bounded : ∀ {n rcvd r'}, ChunkedBranch body sock n rcvd r' →
    r' = r ∧ rcvd <+: sock.unread ∧ n ≤ rcvd.length

theorem chunkEntered_nil : ¬ chunkEntered [] := fun h => h rfl

theorem endsWithin (body : Option Bytes) (sock : BufferedSocket) :
    EndsWithin body sock (recvLoop chunkPass.feed (Pass.stateIs BodyParser.done)
      ({ body, done := false }, []) sock) where
  ends := by
    obtain ⟨n, rcvd, r, h⟩ := CountedLoop.exists_countedLoop chunkPass chunkEntered BodyParser.done
      ({ body, done := false }, []) sock
    rw [← h.eq_recvLoop chunk_of_not_chunkEntered]
    exact ⟨0 + n, rcvd, .receives (.ends chunkEntered_nil) h⟩
  bounded {n rcvd r'} h := by
    -- nothing is entered on the empty buffer
    cases h with
    | raises hloop =>
      cases hloop with
      | raises h _ => exact absurd h chunkEntered_nil
      | again h _ _ => exact absurd h chunkEntered_nil
    | @receives n m s _ _ hloop rest =>
      cases hloop with
      | leaves h _ => exact absurd h chunkEntered_nil
      | again h _ _ => exact absurd h chunkEntered_nil
      | ends _ =>
        refine ⟨rest.eq_recvLoop chunk_of_not_chunkEntered, rest.isPrefix, ?_⟩
        rw [Nat.zero_add]
        exact rest.le_length chunk_of_not_chunkEntered ne_nil_of_chunkEntered chunkPass_greedy
          (chunk_of_not_chunkEntered _ _ chunkEntered_nil)

/-- The status codes that come with no body, whatever the headers say. -/
def NoBody (statuscode : Int) : Prop := statuscode < 200 ∨ statuscode = 204 ∨ statuscode = 304

theorem HttpResponse.feedBody_of_isChunked {self : HttpResponse} {statuscode : Int}
    (hcode : self.statuscode = some statuscode) (hbody : ¬ NoBody statuscode)
    (hchunked : self.headers.isChunked) : self.feedBody = chunkPass.feed := by
  have hte : (self.headers.get? (asBytes "Transfer-Encoding")).map lower =
      some (asBytes "chunked") := hchunked
  rw [NoBody] at hbody
  funext s rcvd
  rw [feedBody, hcode]
  dsimp only
  rw [if_neg hbody, if_pos hte]

theorem HttpResponse.parseBody_of_isChunked {self : HttpResponse} {statuscode : Int}
    (hcode : self.statuscode = some statuscode) (hbody : ¬ NoBody statuscode)
    (hchunked : self.headers.isChunked) (sock : BufferedSocket) :
    self.parseBody sock = (recvLoop chunkPass.feed (Pass.stateIs BodyParser.done)
      ({ body := self.body, done := false }, []) sock).map
        fun (s, sock) => ({ self with body := s.1.body }, sock) := by
  have hfeed := feedBody_of_isChunked hcode hbody hchunked
  have hfirst : self.feedBody ({ body := self.body, done := false }, []) [] =
      .ok ({ body := self.body, done := false }, []) := by
    rw [hfeed]
    exact Pass.drain_of_none rfl
  rw [parseBody, hfirst, hfeed]

/-- A pass leaves the loop, raises or leaves less in the buffer, so that the chunked branches of
    requests and of responses end, after no more passes than they have received bytes. -/
theorem chunk_loop_ends :
    (∀ (self : BodyParser) (buf : Bytes), chunk self buf = .ok none ∨
      (∃ e, chunk self buf = .error e) ∨
      ∃ self' buf', chunk self buf = .ok (some (self', buf')) ∧ buf'.length < buf.length) ∧
    (∀ (self : HttpRequest) (sock : BufferedSocket), self.headers.isChunked →
      ∃ r, EndsWithin self.body sock r ∧ self.parseBody sock = r.bind self.finishBody) ∧
    ∀ (self : HttpResponse) (statuscode : Int) (sock : BufferedSocket),
      self.statuscode = some statuscode → ¬ NoBody statuscode → self.headers.isChunked →
        ∃ r, EndsWithin self.body sock r ∧
          self.parseBody sock = r.map fun (s, sock) => ({ self with body := s.1.body }, sock) := by
  refine ⟨fun self buf => ?_, fun self sock hchunked => ?_,
    fun self statuscode sock hcode hbody hchunked => ?_⟩
  · cases hrun : chunk self buf with
    | error e => exact Or.inr (Or.inl ⟨e, rfl⟩)
    | ok next =>
      cases next with
      | none => exact Or.inl rfl
      | some next => exact Or.inr (Or.inr ⟨next.1, next.2, rfl, chunkPass.shrinks hrun⟩)
  · exact ⟨_, endsWithin self.body sock, HttpRequest.parseBody_of_isChunked hchunked sock⟩
  · exact ⟨_, endsWithin self.body sock,
      HttpResponse.parseBody_of_isChunked hcode hbody hchunked sock⟩

/-- A response that announces chunks. -/
def okChunked : HttpResponse where
  statuscode := some 200
  status := some (asBytes "OK")
  version := some (asBytes "HTTP/1.1")
  headers := [(asBytes "Transfer-Encoding", asBytes "chunked")]

/-- The size is negative: of the two bytes after its line the first is taken for data, and the
    second stays in the buffer. -/
theorem chunk_loop_ends_negative :
    (∃ r, EndsWithin postChunked.body
        ⟨⟨[⟨asBytes "-1\r\nab", by decide +kernel⟩], true⟩, []⟩ r ∧
      postChunked.parseBody ⟨⟨[⟨asBytes "-1\r\nab", by decide +kernel⟩], true⟩, []⟩ =
        r.bind postChunked.finishBody) ∧
    ∃ r, EndsWithin okChunked.body
        ⟨⟨[⟨asBytes "-1\r\nab", by decide +kernel⟩], true⟩, []⟩ r ∧
      okChunked.parseBody ⟨⟨[⟨asBytes "-1\r\nab", by decide +kernel⟩], true⟩, []⟩ =
        r.map fun (s, sock) => ({ okChunked with body := s.1.body }, sock) :=
  ⟨chunk_loop_ends.2.1 postChunked _ (by unfold Headers.isChunked; decide +kernel),
    chunk_loop_ends.2.2 okChunked 200 _ rfl (by unfold NoBody; decide)
      (by unfold Headers.isChunked; decide +kernel)⟩

end Siip.Proxy
