/-
  Sockets: the wrapped socket, the buffered wrapper that supports "rewinding", and the receive
  loop that the parsers share.

  The wrapped socket holds what the peer has sent, in the pieces in which `recv` will return it,
  and whether the peer has closed the connection after it. A `recv` that finds nothing waits; a
  run that waits has no result.
-/
import Siip.Lib.Binascii
import Siip.Lib.Incremental
import Siip.Lib.Python

namespace Siip.Proxy

open Lib Python

/-- The exceptions of the proxy's own code and of what it calls. -/
inductive Exn where
  /-- `not enough values to unpack (expected _, got _)` -/
  | unpack (expected got : Nat)
  /-- `invalid literal for int() with base _: _` -/
  | intLiteral (base : Nat) (text : Bytes)
  /-- `non-hexadecimal number found in fromhex() arg` -/
  | fromHex (text : Str)
  | jsonDecode (text : Str)
  | key (name : Str)
  | unicodeDecode (text : Bytes)
  | binascii (text : Bytes)
  | type
  | attribute
  | assertion
  | os (msg : Str)
  | ssl (msg : Str)
  | substrateRequest (msg : Str)
  | connectionClosedUnexpectedly
  | siipCert (msg : Str)
  deriving DecidableEq

/-- Why a computation on a socket gives no value. -/
inductive Halt where
  | raised (e : Exn)
  | waiting
  deriving DecidableEq

theorem bind_eq_ok_iff {ε α β : Type} {x : Except ε α} {f : α → Except ε β} {b : β} :
    x.bind f = .ok b ↔ ∃ a, x = .ok a ∧ f a = .ok b := by
  cases x with
  | error e => simp [Except.bind]
  | ok a => simp [Except.bind]

theorem bind_eq_error_iff {ε α β : Type} {x : Except ε α} {f : α → Except ε β} {e : ε} :
    x.bind f = .error e ↔ x = .error e ∨ ∃ a, x = .ok a ∧ f a = .error e := by
  cases x with
  | error e' => simp [Except.bind]
  | ok a => simp [Except.bind]

structure WrappedSocket where
  pieces : List Piece
  closed : Bool
  deriving DecidableEq

/-- `recv`: the next piece, or its beginning if that is all that was asked for; `b''` when the
    peer has closed, `none` when it has to wait. -/
def WrappedSocket.recv (bufsize : Nat) (self : WrappedSocket) : Option (Bytes × WrappedSocket) :=
  match self.pieces with
  | [] => if self.closed then some ([], self) else none
  | p :: pieces =>
    if h : bufsize < p.val.length then
      some (p.val.take bufsize,
        { self with
          pieces := ⟨p.val.drop bufsize, by rw [ne_eq, List.drop_eq_nil_iff]; omega⟩ :: pieces })
    else some (p.val, { self with pieces })

structure BufferedSocket where
  wrappedSocket : WrappedSocket
  recvBuffer : Bytes
  deriving DecidableEq

namespace BufferedSocket

def recv (bufsize : Nat) (self : BufferedSocket) : Option (Bytes × BufferedSocket) :=
  let (result, recvBuffer, bufsize) :=
    if self.recvBuffer.length > 0 then
      let resultlen := min bufsize self.recvBuffer.length
      (self.recvBuffer.take resultlen, self.recvBuffer.drop resultlen, bufsize - resultlen)
    else ([], self.recvBuffer, bufsize)
  if bufsize > 0 ∨ result = [] then
    (self.wrappedSocket.recv bufsize).map fun (rcvd, wrappedSocket) =>
      (result ++ rcvd, { wrappedSocket, recvBuffer })
  else some (result, { self with recvBuffer })

def rewind (data : Bytes) (self : BufferedSocket) : BufferedSocket :=
  { self with recvBuffer := data ++ self.recvBuffer }

/-- Everything that was sent and not yet received. -/
def unread (self : BufferedSocket) : Bytes := self.recvBuffer ++ flat self.wrappedSocket.pieces

end BufferedSocket

/-! ## What `recv` returns -/

theorem WrappedSocket.flat_of_recv {bufsize : Nat} {w w' : WrappedSocket} {rcvd : Bytes}
    (h : w.recv bufsize = some (rcvd, w')) : flat w.pieces = rcvd ++ flat w'.pieces := by
  unfold recv at h
  split at h
  · rename_i hnil
    rw [Option.ite_none_right_eq_some] at h
    obtain ⟨-, ⟨⟩⟩ := h
    rfl
  · rename_i p pieces hcons
    rw [hcons, flat_cons]
    split at h
    · obtain ⟨⟩ := h
      rw [flat_cons, ← List.append_assoc, List.take_append_drop]
    · obtain ⟨⟩ := h
      rfl

/-- A connection that the peer has closed stays so. -/
theorem WrappedSocket.closed_of_recv {bufsize : Nat} {w w' : WrappedSocket} {rcvd : Bytes}
    (h : w.recv bufsize = some (rcvd, w')) : w'.closed = w.closed := by
  unfold recv at h
  split at h
  · rw [Option.ite_none_right_eq_some] at h
    obtain ⟨-, ⟨⟩⟩ := h
    rfl
  · split at h
    · obtain ⟨⟩ := h
      rfl
    · obtain ⟨⟩ := h
      rfl

theorem WrappedSocket.flat_of_recv_nil {bufsize : Nat} (hpos : 0 < bufsize)
    {w w' : WrappedSocket} (h : w.recv bufsize = some ([], w')) : flat w.pieces = [] := by
  unfold recv at h
  split at h
  · rename_i hnil
    rw [hnil, flat_nil]
  · rename_i p pieces hcons
    have hp := p.property
    split at h
    · have htake : p.val.take bufsize = [] := congrArg Prod.fst (Option.some.inj h)
      rcases List.take_eq_nil_iff.mp htake with hzero | hnil
      · omega
      · exact absurd hnil hp
    · exact absurd (congrArg Prod.fst (Option.some.inj h)) hp

theorem WrappedSocket.closed_of_recv_nil {bufsize : Nat} (hpos : 0 < bufsize)
    {w w' : WrappedSocket} (h : w.recv bufsize = some ([], w')) : w.closed = true := by
  have hflat := flat_of_recv_nil hpos h
  obtain ⟨pieces, closed⟩ := w
  cases pieces with
  | nil =>
    rw [recv, Option.ite_none_right_eq_some] at h
    exact h.1
  | cons p pieces => exact absurd (List.append_eq_nil_iff.mp hflat).1 p.property

theorem WrappedSocket.waiting_of_recv {bufsize : Nat} {w : WrappedSocket}
    (h : w.recv bufsize = none) : flat w.pieces = [] ∧ w.closed = false := by
  unfold recv at h
  split at h
  · rename_i hnil
    rw [ite_eq_right_iff] at h
    refine ⟨by rw [hnil, flat_nil], ?_⟩
    by_contra hclosed
    exact absurd (h (by simpa using hclosed)) (by simp)
  · split at h
    · exact absurd h (by simp)
    · exact absurd h (by simp)

namespace BufferedSocket

/-- A buffer that does not fill the request: the rest is asked of the wrapped socket. -/
theorem recv_of_lt {bufsize : Nat} {w : WrappedSocket} {buf : Bytes} (h : buf.length < bufsize) :
    recv bufsize ⟨w, buf⟩ =
      (w.recv (bufsize - buf.length)).map fun p => (buf ++ p.1, ⟨p.2, []⟩) := by
  by_cases hbuf : buf.length > 0
  · have hmin : min bufsize buf.length = buf.length := by omega
    have hpos : bufsize - buf.length > 0 := by omega
    simp [recv, hbuf, hmin, hpos]
  · obtain rfl : buf = [] := List.eq_nil_of_length_eq_zero (by omega)
    simp [recv]

theorem recv_of_le {bufsize : Nat} {w : WrappedSocket} {buf : Bytes} (hpos : 0 < bufsize)
    (h : bufsize ≤ buf.length) :
    recv bufsize ⟨w, buf⟩ = some (buf.take bufsize, ⟨w, buf.drop bufsize⟩) := by
  have hbuf : buf.length > 0 := by omega
  have hne : buf ≠ [] := List.ne_nil_of_length_pos hbuf
  have hmin : min bufsize buf.length = bufsize := by omega
  have hread : ¬ (0 > 0 ∨ buf.take bufsize = []) := by
    simp [hne, Nat.pos_iff_ne_zero.mp hpos]
  simp only [recv, if_pos hbuf, hmin, Nat.sub_self, if_neg hread]

/-- `recv` removes from the front of the stream what it returns. -/
theorem unread_of_recv {bufsize : Nat} (hpos : 0 < bufsize) {s s' : BufferedSocket} {rcvd : Bytes}
    (h : s.recv bufsize = some (rcvd, s')) : s.unread = rcvd ++ s'.unread := by
  obtain ⟨w, buf⟩ := s
  rcases Nat.lt_or_ge buf.length bufsize with hlt | hle
  · rw [recv_of_lt hlt] at h
    obtain ⟨⟨r, w'⟩, hrecv, ⟨⟩⟩ := Option.map_eq_some_iff.mp h
    rw [unread, unread, WrappedSocket.flat_of_recv hrecv, List.nil_append, List.append_assoc]
  · rw [recv_of_le hpos hle] at h
    obtain ⟨⟩ := h
    rw [unread, unread, ← List.append_assoc, List.take_append_drop]

theorem closed_of_recv {bufsize : Nat} (hpos : 0 < bufsize) {s s' : BufferedSocket}
    {rcvd : Bytes} (h : s.recv bufsize = some (rcvd, s')) :
    s'.wrappedSocket.closed = s.wrappedSocket.closed := by
  obtain ⟨w, buf⟩ := s
  rcases Nat.lt_or_ge buf.length bufsize with hlt | hle
  · rw [recv_of_lt hlt] at h
    obtain ⟨⟨r, w'⟩, hrecv, ⟨⟩⟩ := Option.map_eq_some_iff.mp h
    exact WrappedSocket.closed_of_recv hrecv
  · rw [recv_of_le hpos hle] at h
    obtain ⟨⟩ := h
    rfl

/-- The wrapped socket is asked for more whenever the buffer does not fill the request, and what
    it gives leaves the buffer empty. -/
theorem recvBuffer_of_recv {bufsize : Nat} {s s' : BufferedSocket} {rcvd : Bytes}
    (hlt : s.recvBuffer.length < bufsize) (h : s.recv bufsize = some (rcvd, s')) :
    s'.recvBuffer = [] := by
  obtain ⟨w, buf⟩ := s
  rw [recv_of_lt hlt] at h
  obtain ⟨r, -, ⟨⟩⟩ := Option.map_eq_some_iff.mp h
  rfl

/-- Only the end of the stream is received as `b''`. -/
theorem unread_of_recv_nil {bufsize : Nat} (hpos : 0 < bufsize) {s s' : BufferedSocket}
    (h : s.recv bufsize = some ([], s')) : s.unread = [] := by
  obtain ⟨w, buf⟩ := s
  rcases Nat.lt_or_ge buf.length bufsize with hlt | hle
  · rw [recv_of_lt hlt] at h
    obtain ⟨⟨r, w'⟩, hrecv, hnil⟩ := Option.map_eq_some_iff.mp h
    obtain ⟨rfl, rfl⟩ := List.append_eq_nil_iff.mp (congrArg Prod.fst hnil)
    have hpos' : 0 < bufsize - ([] : Bytes).length := by rwa [List.length_nil, Nat.sub_zero]
    exact WrappedSocket.flat_of_recv_nil hpos' hrecv
  · rw [recv_of_le hpos hle] at h
    have htake : buf.take bufsize = [] := congrArg Prod.fst (Option.some.inj h)
    rcases List.take_eq_nil_iff.mp htake with hzero | hnil
    · omega
    · subst hnil
      rw [List.length_nil] at hle
      omega

theorem closed_of_recv_nil {bufsize : Nat} (hpos : 0 < bufsize) {s s' : BufferedSocket}
    (h : s.recv bufsize = some ([], s')) : s.wrappedSocket.closed = true := by
  have hunread := unread_of_recv_nil hpos h
  obtain ⟨w, buf⟩ := s
  obtain rfl : buf = [] := (List.append_eq_nil_iff.mp hunread).1
  rw [recv_of_lt hpos] at h
  obtain ⟨⟨r, w'⟩, hrecv, hnil⟩ := Option.map_eq_some_iff.mp h
  obtain rfl : r = [] := congrArg Prod.fst hnil
  exact WrappedSocket.closed_of_recv_nil hpos hrecv

/-- `recv` waits for the peer only when it has sent nothing more, even if the buffer is not
    empty. -/
theorem waiting_of_recv {bufsize : Nat} (hpos : 0 < bufsize) {s : BufferedSocket}
    (h : s.recv bufsize = none) : s.unread = s.recvBuffer ∧ s.wrappedSocket.closed = false := by
  obtain ⟨w, buf⟩ := s
  rcases Nat.lt_or_ge buf.length bufsize with hlt | hle
  · rw [recv_of_lt hlt, Option.map_eq_none_iff] at h
    obtain ⟨hflat, hclosed⟩ := WrappedSocket.waiting_of_recv h
    rw [unread, hflat, List.append_nil]
    exact ⟨rfl, hclosed⟩
  · rw [recv_of_le hpos hle] at h
    exact absurd h (by simp)

/-- The buffer and the next piece, when the two together are no more than was asked for. -/
theorem recv_cons {bufsize : Nat} {buf : Bytes} {p : Piece} {ps : List Piece} {closed : Bool}
    (h : buf.length + p.val.length ≤ bufsize) :
    recv bufsize ⟨⟨p :: ps, closed⟩, buf⟩ = some (buf ++ p.val, ⟨⟨ps, closed⟩, []⟩) := by
  have hp := p.length_pos
  have hfits : ¬ bufsize - buf.length < p.val.length := by omega
  rw [recv_of_lt (by omega), WrappedSocket.recv]
  simp only [dif_neg hfits, Option.map_some]

theorem recv_piece {bufsize : Nat} {p : Piece} (h : p.val.length ≤ bufsize) (ps : List Piece)
    (closed : Bool) :
    recv bufsize ⟨⟨p :: ps, closed⟩, []⟩ = some (p.val, ⟨⟨ps, closed⟩, []⟩) :=
  recv_cons (by simpa using h)

theorem recv_nil {bufsize : Nat} {buf : Bytes} {closed : Bool} (h : buf.length < bufsize) :
    recv bufsize ⟨⟨[], closed⟩, buf⟩ =
      if closed then some (buf, ⟨⟨[], closed⟩, []⟩) else none := by
  rw [recv_of_lt h, WrappedSocket.recv]
  cases closed <;> simp

end BufferedSocket

/-! ## The receive loop -/

variable {σ : Type}

/-- The loop `while not done: rcvd = sock.recv(4096); ...`, left also when the connection is
    closed. `feed` is the rest of its body. -/
def recvLoop (feed : σ → Bytes → Except Exn σ) (done : σ → Bool) (st : σ) (sock : BufferedSocket) :
    Except Halt (σ × BufferedSocket) :=
  if done st then .ok (st, sock)
  else
    match _h : sock.recv 4096 with
    | none => .error .waiting
    | some (rcvd, sock') =>
      if _hrcvd : rcvd = [] then .ok (st, sock')
      else
        match feed st rcvd with
        | .error e => .error (.raised e)
        | .ok st' => recvLoop feed done st' sock'
termination_by sock.unread.length
decreasing_by
  have := congrArg List.length (BufferedSocket.unread_of_recv (by decide) _h)
  have := List.length_pos_of_ne_nil _hrcvd
  rw [List.length_append] at *
  omega

section

variable {feed : σ → Bytes → Except Exn σ} {done : σ → Bool} {st : σ} {sock sock' : BufferedSocket}
  {rcvd : Bytes}

theorem recvLoop_of_done (h : done st = true) : recvLoop feed done st sock = .ok (st, sock) := by
  rw [recvLoop, if_pos h]

theorem recvLoop_of_recv (hdone : done st = false) (hrecv : sock.recv 4096 = some (rcvd, sock'))
    (hrcvd : rcvd ≠ []) :
    recvLoop feed done st sock =
      match feed st rcvd with
      | .error e => .error (.raised e)
      | .ok st' => recvLoop feed done st' sock' := by
  rw [recvLoop, if_neg (by simp [hdone])]
  split
  · rename_i h
    exact absurd (h.symm.trans hrecv) (by simp)
  · rename_i h
    obtain ⟨⟩ := h.symm.trans hrecv
    rw [dif_neg hrcvd]

theorem recvLoop_of_waiting (hdone : done st = false) (hrecv : sock.recv 4096 = none) :
    recvLoop feed done st sock = .error .waiting := by
  rw [recvLoop, if_neg (by simp [hdone])]
  split
  · rfl
  · rename_i h
    exact absurd (h.symm.trans hrecv) (by simp)

theorem recvLoop_of_closed (hdone : done st = false) (hrecv : sock.recv 4096 = some ([], sock')) :
    recvLoop feed done st sock = .ok (st, sock') := by
  rw [recvLoop, if_neg (by simp [hdone])]
  split
  · rename_i h
    exact absurd (h.symm.trans hrecv) (by simp)
  · rename_i h
    obtain ⟨⟩ := h.symm.trans hrecv
    rw [dif_pos rfl]

/-- The loop only receives: what it leaves is the end of the stream that it found. -/
theorem unread_of_recvLoop {st' : σ} (h : recvLoop feed done st sock = .ok (st', sock')) :
    ∃ read, sock.unread = read ++ sock'.unread := by
  induction st, sock using recvLoop.induct feed done with
  | case1 st sock hdone =>
    rw [recvLoop_of_done hdone] at h
    obtain ⟨⟩ := h
    exact ⟨[], rfl⟩
  | case2 st sock hdone hrecv =>
    rw [recvLoop_of_waiting (by simpa using hdone) hrecv] at h
    exact absurd h (by simp)
  | case3 st sock hdone sock'' hrecv =>
    rw [recvLoop_of_closed (by simpa using hdone) hrecv] at h
    obtain ⟨⟩ := h
    exact ⟨[], BufferedSocket.unread_of_recv (by decide) hrecv⟩
  | case4 st sock hdone rcvd sock'' hrecv hrcvd e hfeed =>
    rw [recvLoop_of_recv (by simpa using hdone) hrecv hrcvd, hfeed] at h
    exact absurd h (by simp)
  | case5 st sock hdone rcvd sock'' hrecv hrcvd st'' hfeed ih =>
    rw [recvLoop_of_recv (by simpa using hdone) hrecv hrcvd, hfeed] at h
    obtain ⟨read, hread⟩ := ih h
    exact ⟨rcvd ++ read, by
      rw [BufferedSocket.unread_of_recv (by decide) hrecv, hread, List.append_assoc]⟩

theorem closed_of_recvLoop {st' : σ} (h : recvLoop feed done st sock = .ok (st', sock')) :
    sock'.wrappedSocket.closed = sock.wrappedSocket.closed := by
  induction st, sock using recvLoop.induct feed done with
  | case1 st sock hdone =>
    rw [recvLoop_of_done hdone] at h
    obtain ⟨⟩ := h
    rfl
  | case2 st sock hdone hrecv =>
    rw [recvLoop_of_waiting (by simpa using hdone) hrecv] at h
    exact absurd h (by simp)
  | case3 st sock hdone sock'' hrecv =>
    rw [recvLoop_of_closed (by simpa using hdone) hrecv] at h
    obtain ⟨⟩ := h
    exact BufferedSocket.closed_of_recv (by decide) hrecv
  | case4 st sock hdone rcvd sock'' hrecv hrcvd e hfeed =>
    rw [recvLoop_of_recv (by simpa using hdone) hrecv hrcvd, hfeed] at h
    exact absurd h (by simp)
  | case5 st sock hdone rcvd sock'' hrecv hrcvd st'' hfeed ih =>
    rw [recvLoop_of_recv (by simpa using hdone) hrecv hrcvd, hfeed] at h
    exact (ih h).trans (BufferedSocket.closed_of_recv (by decide) hrecv)

/-- What the loop raises, its body has raised. -/
theorem feed_of_recvLoop_raised {e : Exn} (h : recvLoop feed done st sock = .error (.raised e)) :
    ∃ st' rcvd, feed st' rcvd = .error e := by
  induction st, sock using recvLoop.induct feed done with
  | case1 st sock hdone =>
    rw [recvLoop_of_done hdone] at h
    exact absurd h (by simp)
  | case2 st sock hdone hrecv =>
    rw [recvLoop_of_waiting (by simpa using hdone) hrecv] at h
    exact absurd h (by simp)
  | case3 st sock hdone sock' hrecv =>
    rw [recvLoop_of_closed (by simpa using hdone) hrecv] at h
    exact absurd h (by simp)
  | case4 st sock hdone rcvd sock' hrecv hrcvd e' hfeed =>
    rw [recvLoop_of_recv (by simpa using hdone) hrecv hrcvd, hfeed] at h
    obtain rfl : e' = e := by simpa using h
    exact ⟨st, rcvd, hfeed⟩
  | case5 st sock hdone rcvd sock' hrecv hrcvd st' hfeed ih =>
    rw [recvLoop_of_recv (by simpa using hdone) hrecv hrcvd, hfeed] at h
    exact ih h

/-- The loop waits only for a peer that has not closed the connection. -/
theorem open_of_recvLoop_waiting (h : recvLoop feed done st sock = .error .waiting) :
    sock.wrappedSocket.closed = false := by
  induction st, sock using recvLoop.induct feed done with
  | case1 st sock hdone =>
    rw [recvLoop_of_done hdone] at h
    exact absurd h (by simp)
  | case2 st sock hdone hrecv => exact (BufferedSocket.waiting_of_recv (by decide) hrecv).2
  | case3 st sock hdone sock' hrecv =>
    rw [recvLoop_of_closed (by simpa using hdone) hrecv] at h
    exact absurd h (by simp)
  | case4 st sock hdone rcvd sock' hrecv hrcvd e hfeed =>
    rw [recvLoop_of_recv (by simpa using hdone) hrecv hrcvd, hfeed] at h
    exact absurd h (by simp)
  | case5 st sock hdone rcvd sock' hrecv hrcvd st' hfeed ih =>
    rw [recvLoop_of_recv (by simpa using hdone) hrecv hrcvd, hfeed] at h
    exact (BufferedSocket.closed_of_recv (by decide) hrecv).symm.trans (ih h)

/-- What the body of the loop keeps, the loop keeps. -/
theorem recvLoop_keeps {P : σ → Prop}
    (hfeed : ∀ {st rcvd st'}, feed st rcvd = .ok st' → P st → P st') {st' : σ}
    (h : recvLoop feed done st sock = .ok (st', sock')) (hst : P st) : P st' := by
  induction st, sock using recvLoop.induct feed done with
  | case1 st sock hdone =>
    rw [recvLoop_of_done hdone] at h
    cases h
    exact hst
  | case2 st sock hdone hrecv =>
    rw [recvLoop_of_waiting (by simpa using hdone) hrecv] at h
    exact absurd h (by simp)
  | case3 st sock hdone sock'' hrecv =>
    rw [recvLoop_of_closed (by simpa using hdone) hrecv] at h
    cases h
    exact hst
  | case4 st sock hdone rcvd sock'' hrecv hrcvd e hrun =>
    rw [recvLoop_of_recv (by simpa using hdone) hrecv hrcvd, hrun] at h
    exact absurd h (by simp)
  | case5 st sock hdone rcvd sock'' hrecv hrcvd st'' hrun ih =>
    rw [recvLoop_of_recv (by simpa using hdone) hrecv hrcvd, hrun] at h
    exact ih h (hfeed hrun hst)

/-- A loop that is left before it is done met the end of the stream. -/
theorem ended_of_recvLoop {st' : σ} (h : recvLoop feed done st sock = .ok (st', sock'))
    (hdone : done st' = false) : sock.wrappedSocket.closed = true ∧ sock'.unread = [] := by
  induction st, sock using recvLoop.induct feed done with
  | case1 st sock hst =>
    rw [recvLoop_of_done hst] at h
    cases h
    exact absurd (hdone.symm.trans hst) (by decide)
  | case2 st sock hst hrecv =>
    rw [recvLoop_of_waiting (by simpa using hst) hrecv] at h
    exact absurd h (by simp)
  | case3 st sock hst sock'' hrecv =>
    rw [recvLoop_of_closed (by simpa using hst) hrecv] at h
    cases h
    refine ⟨BufferedSocket.closed_of_recv_nil (by decide) hrecv, ?_⟩
    have hnil := BufferedSocket.unread_of_recv_nil (by decide) hrecv
    rw [BufferedSocket.unread_of_recv (by decide) hrecv] at hnil
    exact hnil
  | case4 st sock hst rcvd sock'' hrecv hrcvd e hfeed =>
    rw [recvLoop_of_recv (by simpa using hst) hrecv hrcvd, hfeed] at h
    exact absurd h (by simp)
  | case5 st sock hst rcvd sock'' hrecv hrcvd st'' hfeed ih =>
    rw [recvLoop_of_recv (by simpa using hst) hrecv hrcvd, hfeed] at h
    obtain ⟨hclosed, hunread⟩ := ih h
    exact ⟨(BufferedSocket.closed_of_recv (by decide) hrecv).symm.trans hclosed, hunread⟩

theorem recvLoop_congr {sock₁ sock₂ : BufferedSocket} (hdone : done st = false)
    (h : sock₁.recv 4096 = sock₂.recv 4096) :
    recvLoop feed done st sock₁ = recvLoop feed done st sock₂ := by
  cases hrecv : sock₂.recv 4096 with
  | none => rw [recvLoop_of_waiting hdone hrecv, recvLoop_of_waiting hdone (h.trans hrecv)]
  | some r =>
    obtain ⟨rcvd, sock'⟩ := r
    by_cases hrcvd : rcvd = []
    · rw [hrcvd] at hrecv
      rw [recvLoop_of_closed hdone hrecv, recvLoop_of_closed hdone (h.trans hrecv)]
    · rw [recvLoop_of_recv hdone hrecv hrcvd, recvLoop_of_recv hdone (h.trans hrecv) hrcvd]

/-! ## Stable passes on a socket -/

/-- What the outcome of a loop over a pass says about `all`, the outcome of draining all the bytes
    at once. -/
def Reflects (done : σ → Bool) (sock : BufferedSocket) (all : Except Exn (σ × Bytes)) :
    Except Halt ((σ × Bytes) × BufferedSocket) → Prop
  | .ok ((st, buf), sock') => all = .ok (st, buf ++ sock'.unread)
  | .error (.raised e) => all = .error e
  | .error .waiting => sock.wrappedSocket.closed = false ∧
      (sock.recvBuffer = [] → ∃ st rest, all = .ok (st, rest) ∧ done st = false)

/-- However the bytes come, a loop over a stable pass ends as if they had all come at once. -/
theorem recvLoop_reflects {pass : Pass σ Exn} {done : σ → Bool} (hpass : pass.Stable)
    (hstop : ∀ st buf, done st = true → pass.run st buf = .ok none) {st : σ} {buf : Bytes}
    (hidle : pass.run st buf = .ok none) (sock : BufferedSocket) :
    Reflects done sock (pass.drain st (buf ++ sock.unread))
      (recvLoop pass.feed (Pass.stateIs done) (st, buf) sock) := by
  generalize hs : (st, buf) = s
  induction s, sock using recvLoop.induct pass.feed (Pass.stateIs done) generalizing st buf with
  | case1 s sock hdone =>
    subst hs
    rw [recvLoop_of_done hdone]
    exact Pass.drain_of_none (hstop st _ hdone)
  | case2 s sock hdone hrecv =>
    subst hs
    have hdone' : done st = false := by simpa [Pass.stateIs] using hdone
    obtain ⟨hunread, hclosed⟩ := BufferedSocket.waiting_of_recv (by decide) hrecv
    rw [recvLoop_of_waiting (by simpa using hdone) hrecv]
    refine ⟨hclosed, fun hbuf => ⟨st, buf, ?_, hdone'⟩⟩
    rw [hunread, hbuf, List.append_nil]
    exact Pass.drain_of_none hidle
  | case3 s sock hdone sock' hrecv =>
    subst hs
    have hunread := BufferedSocket.unread_of_recv_nil (by decide) hrecv
    have hunread' : sock'.unread = [] := by
      have h := BufferedSocket.unread_of_recv (by decide) hrecv
      rw [hunread] at h
      exact h.symm
    rw [recvLoop_of_closed (by simpa using hdone) hrecv]
    show pass.drain st (buf ++ sock.unread) = .ok (st, buf ++ sock'.unread)
    rw [hunread, hunread', List.append_nil]
    exact Pass.drain_of_none hidle
  | case4 s sock hdone rcvd sock' hrecv hrcvd e hfeed =>
    subst hs
    rw [recvLoop_of_recv (by simpa using hdone) hrecv hrcvd, hfeed]
    show pass.drain st (buf ++ sock.unread) = .error e
    rw [BufferedSocket.unread_of_recv (by decide) hrecv, ← List.append_assoc]
    exact hpass.drain_append_of_error hfeed sock'.unread
  | case5 s sock hdone rcvd sock' hrecv hrcvd s' hfeed ih =>
    subst hs
    obtain ⟨st', buf'⟩ := s'
    have hrest := ih (Pass.run_of_drain hfeed) rfl
    have hclosed := BufferedSocket.closed_of_recv (by decide) hrecv
    rw [recvLoop_of_recv (by simpa using hdone) hrecv hrcvd, hfeed,
      BufferedSocket.unread_of_recv (by decide) hrecv, ← List.append_assoc,
      hpass.drain_append hfeed]
    dsimp only
    generalize recvLoop pass.feed (Pass.stateIs done) (st', buf') sock' = r at hrest
    match r, hrest with
    | .ok ((_, _), _), hrest => exact hrest
    | .error (.raised _), hrest => exact hrest
    | .error .waiting, hrest =>
      obtain ⟨hopen, hwait⟩ := hrest
      refine ⟨hclosed.symm.trans hopen, fun hbuf => hwait ?_⟩
      exact BufferedSocket.recvBuffer_of_recv (by rw [hbuf]; decide) hrecv

/-- A loop over a stable pass reads an encoding that ends in a state to stop in, and keeps or
    leaves what follows it. -/
theorem recvLoop_of_readsAll {pass : Pass σ Exn} {done : σ → Bool} (hpass : pass.Stable)
    (hstop : ∀ st buf, done st = true → pass.run st buf = .ok none) {st fin : σ} {e tail : Bytes}
    (hidle : pass.run st [] = .ok none) (hreads : ReadsAll pass done st e fin)
    (hdone : done fin = true) {sock : BufferedSocket} (hunread : sock.unread = e ++ tail)
    (hbuf : sock.recvBuffer = []) :
    ∃ buf sock', recvLoop pass.feed (Pass.stateIs done) (st, []) sock = .ok ((fin, buf), sock') ∧
      buf ++ sock'.unread = tail ∧ sock'.wrappedSocket.closed = sock.wrappedSocket.closed := by
  have hreflects := recvLoop_reflects hpass hstop hidle sock
  have hall : pass.drain st (e ++ tail) = .ok (fin, tail) := by
    rw [hreads.drain_append]
    exact Pass.drain_of_none (hstop fin tail hdone)
  rw [List.nil_append, hunread, hall] at hreflects
  cases hloop : recvLoop pass.feed (Pass.stateIs done) (st, []) sock with
  | error halt =>
    rw [hloop] at hreflects
    cases halt with
    | raised e => exact absurd hreflects (by simp [Reflects])
    | waiting =>
      -- the loop waits only where it has not read the whole encoding
      obtain ⟨st', rest, hdrain, hdone'⟩ := hreflects.2 hbuf
      obtain ⟨⟩ := hdrain
      exact absurd (hdone.symm.trans hdone') (by decide)
  | ok r =>
    obtain ⟨⟨st', buf⟩, sock'⟩ := r
    rw [hloop] at hreflects
    obtain ⟨rfl, rfl⟩ := Prod.mk.inj (Except.ok.inj hreflects)
    exact ⟨buf, sock', rfl, rfl, closed_of_recvLoop hloop⟩

/-! ## Frames on a socket -/

variable {init : σ} {e rest : Bytes}

/-- In `st` the loop goes on as if the bytes `t` had just come in at once. -/
def Resumes (feed : σ → Bytes → Except Exn σ) (done : σ → Bool) (init : σ) (t : Bytes)
    (st : σ) : Prop :=
  done st = false ∧ ∀ x, feed st x = feed init (t ++ x)

/-- The loop hands on the frame with what the piece that completes it brings along. -/
theorem recvLoop_of_frames (hf : Frames feed done init e) {t u x : Bytes}
    {pre : List Piece} {p : Piece} (post : List Piece) (hst : Resumes feed done init t st)
    (he : e = t ++ flat pre ++ u) (hu : u ≠ []) (hp : p.val = u ++ x)
    (hsize : ∀ q ∈ pre ++ [p], q.val.length ≤ 4096) (closed : Bool) :
    recvLoop feed done st ⟨⟨pre ++ p :: post, closed⟩, []⟩ =
      match feed init (e ++ x) with
      | .error exn => .error (.raised exn)
      | .ok st' => recvLoop feed done st' ⟨⟨post, closed⟩, []⟩ := by
  obtain ⟨hdone, hresume⟩ := hst
  induction pre generalizing t st with
  | nil =>
    have hrecv := BufferedSocket.recv_piece (hsize p (by simp)) post closed
    rw [List.nil_append, recvLoop_of_recv hdone hrecv p.property, hresume, hp, he, flat_nil,
      List.append_nil, List.append_assoc]
  | cons p₁ pre ih =>
    have hrecv := BufferedSocket.recv_piece (hsize p₁ (by simp)) (pre ++ p :: post) closed
    have he' : e = (t ++ p₁.val) ++ (flat pre ++ u) := by
      rw [he, flat_cons]
      simp only [List.append_assoc]
    obtain ⟨st₁, hfeed, hdone₁, hresume₁⟩ := hf he' (by simp [hu])
    rw [List.cons_append, recvLoop_of_recv hdone hrecv p₁.property, hresume, hfeed]
    exact ih (by rw [he', ← List.append_assoc]) (fun q hq => hsize q (List.mem_cons_of_mem _ hq))
      hdone₁ hresume₁

/-- From a connection that holds just the rest of the frame, however cut, the loop reads all of
    it. With a rewound socket it may ask for more, and the connection has to be closed. -/
theorem recvLoop_of_frame (hf : Frames feed done init e) {fin : σ}
    (hfin : feed init e = .ok fin) (hdone : done fin = true) {t : Bytes}
    (hst : Resumes feed done init t st) (he : e = t ++ sock.unread) (hne : sock.unread ≠ [])
    (hend : sock.wrappedSocket.closed = true ∨ sock.recvBuffer = []) :
    ∃ sock', recvLoop feed done st sock = .ok (fin, sock') ∧ sock'.unread = [] := by
  induction st, sock using recvLoop.induct feed done generalizing t with
  | case1 st sock hstop => exact absurd (hstop.symm.trans hst.1) (by decide)
  | case2 st sock hstop hrecv =>
    obtain ⟨hunread, hopen⟩ := BufferedSocket.waiting_of_recv (by decide) hrecv
    rcases hend with hclosed | hempty
    · exact absurd (hclosed.symm.trans hopen) (by decide)
    · exact absurd (hunread.trans hempty) hne
  | case3 st sock hstop sock'' hrecv =>
    exact absurd (BufferedSocket.unread_of_recv_nil (by decide) hrecv) hne
  | case4 st sock hstop rcvd sock'' hrecv hrcvd exn hfeed =>
    rw [BufferedSocket.unread_of_recv (by decide) hrecv, ← List.append_assoc] at he
    rw [hst.2] at hfeed
    by_cases hlast : sock''.unread = []
    · rw [hlast, List.append_nil] at he
      exact absurd (hfeed.symm.trans (he ▸ hfin)) (by simp)
    · obtain ⟨mid, hmid, -, -⟩ := hf he hlast
      exact absurd (hfeed.symm.trans hmid) (by simp)
  | case5 st sock hstop rcvd sock'' hrecv hrcvd st'' hfeed ih =>
    rw [BufferedSocket.unread_of_recv (by decide) hrecv, ← List.append_assoc] at he
    have hfeed' := hfeed
    rw [hst.2] at hfeed'
    rw [recvLoop_of_recv hst.1 hrecv hrcvd, hfeed]
    dsimp only
    by_cases hlast : sock''.unread = []
    · rw [hlast, List.append_nil] at he
      obtain rfl : fin = st'' := Except.ok.inj (hfin.symm.trans (he ▸ hfeed'))
      exact ⟨sock'', recvLoop_of_done hdone, hlast⟩
    · obtain ⟨mid, hmid, hmidDone, hresume⟩ := hf he hlast
      obtain rfl : mid = st'' := Except.ok.inj (hmid.symm.trans hfeed')
      refine ih ⟨hmidDone, hresume⟩ he hlast (hend.imp ?_ fun hempty => ?_)
      · exact (BufferedSocket.closed_of_recv (by decide) hrecv).trans
      · exact BufferedSocket.recvBuffer_of_recv (by rw [hempty]; decide) hrecv

/-- What a loop may end with that is never done: it waits on an open connection only, and raises
    only what some part of the stream raises. -/
def NeverDone (feed : σ → Bytes → Except Exn σ) (done : σ → Bool) (init : σ) (stream : Bytes)
    (closed : Bool) : Except Halt (σ × BufferedSocket) → Prop
  | .ok (st, _) => done st = false
  | .error (.raised exn) => ∃ t u, stream = t ++ u ∧ feed init t = .error exn
  | .error .waiting => closed = false

theorem recvLoop_of_unfinished {stream : Bytes} (hf : Unfinished feed done init stream) {t : Bytes}
    (hst : Resumes feed done init t st) (hstream : stream = t ++ sock.unread) :
    NeverDone feed done init stream sock.wrappedSocket.closed (recvLoop feed done st sock) := by
  induction st, sock using recvLoop.induct feed done generalizing t with
  | case1 st sock hstop => exact absurd (hstop.symm.trans hst.1) (by decide)
  | case2 st sock hstop hrecv =>
    rw [recvLoop_of_waiting hst.1 hrecv]
    exact (BufferedSocket.waiting_of_recv (by decide) hrecv).2
  | case3 st sock hstop sock'' hrecv =>
    rw [recvLoop_of_closed hst.1 hrecv]
    exact hst.1
  | case4 st sock hstop rcvd sock'' hrecv hrcvd exn hfeed =>
    rw [BufferedSocket.unread_of_recv (by decide) hrecv, ← List.append_assoc] at hstream
    rw [recvLoop_of_recv hst.1 hrecv hrcvd, hfeed]
    rw [hst.2] at hfeed
    exact ⟨t ++ rcvd, sock''.unread, hstream, hfeed⟩
  | case5 st sock hstop rcvd sock'' hrecv hrcvd st'' hfeed ih =>
    rw [BufferedSocket.unread_of_recv (by decide) hrecv, ← List.append_assoc] at hstream
    rw [recvLoop_of_recv hst.1 hrecv hrcvd, hfeed]
    rw [hst.2] at hfeed
    have hrest := ih (hf hstream hfeed) hstream
    rw [BufferedSocket.closed_of_recv (by decide) hrecv] at hrest
    exact hrest

/-- On a closed connection that holds less than the rest of the frame, the loop ends, and is not
    done. -/
theorem recvLoop_of_truncated (hf : Frames feed done init e) {t u : Bytes}
    (hst : Resumes feed done init t st) (he : e = (t ++ sock.unread) ++ u) (hu : u ≠ [])
    (hclosed : sock.wrappedSocket.closed = true) :
    ∃ st' sock', recvLoop feed done st sock = .ok (st', sock') ∧ done st' = false := by
  have hnever := recvLoop_of_unfinished (hf.unfinished he hu) hst rfl
  rw [hclosed] at hnever
  match hloop : recvLoop feed done st sock, hnever with
  | .ok (st', sock'), hdone => exact ⟨st', sock', rfl, hdone⟩
  | .error .waiting, hopen => exact absurd (show true = false from hopen) (by decide)
  | .error (.raised exn), hraised =>
    obtain ⟨t', u', hcut, hfeed⟩ := hraised
    rw [hcut, List.append_assoc] at he
    obtain ⟨mid, hmid, -, -⟩ := hf he (by simp [hu])
    exact absurd (hfeed.symm.trans hmid) (by simp)

/-- A loop that is to end with the frame, on pieces of at most the requested size, leaves exactly
    what follows the frame if and only if the frame ends where a piece ends. -/
theorem recvLoop_exact (hf : Frames feed done init e) {fin : σ} (hfin : feed init e = .ok fin)
    (hdone : done fin = true) (hst : Resumes feed done init [] st) {pieces : List Piece}
    (hflat : flat pieces = e ++ rest) (he : e ≠ []) (hsize : ∀ p ∈ pieces, p.val.length ≤ 4096)
    (closed : Bool) :
    (Boundary pieces e.length →
      ∃ sock', recvLoop feed done st ⟨⟨pieces, closed⟩, []⟩ = .ok (fin, sock') ∧
        sock'.unread = rest) ∧
      ∀ st' sock', recvLoop feed done st ⟨⟨pieces, closed⟩, []⟩ = .ok (st', sock') →
        sock'.unread = rest → Boundary pieces e.length := by
  obtain ⟨pre, p, post, u, x, rfl, hu, rfl, hp, rfl⟩ := exists_completing hflat he
  have hloop := recvLoop_of_frames hf post hst rfl hu hp
    (fun q hq => hsize q (by simp at hq ⊢; tauto)) closed
  -- the frame ends with the piece `p` exactly when `p` brings nothing more
  have hbound : Boundary (pre ++ p :: post) (flat pre ++ u).length ↔ x = [] := by
    have hlen : p.val.length = u.length + x.length := by rw [hp, List.length_append]
    rw [List.length_append, boundary_append_iff, boundary_cons_iff (List.length_pos_of_ne_nil hu)]
    constructor
    · intro h
      obtain ⟨hle, -⟩ := h
      exact List.eq_nil_of_length_eq_zero (by omega)
    · rintro rfl
      rw [List.length_nil] at hlen
      exact ⟨by omega, by rw [show u.length - p.val.length = 0 by omega]; exact boundary_zero _⟩
  rw [hbound, hloop]
  constructor
  · rintro rfl
    rw [List.append_nil, hfin]
    exact ⟨_, recvLoop_of_done hdone, rfl⟩
  · intro st' sock' h hrest
    split at h
    · exact absurd h (by simp)
    · obtain ⟨read, hread⟩ := unread_of_recvLoop h
      have := congrArg List.length hread
      rw [hrest] at this
      simp only [BufferedSocket.unread, List.nil_append, List.length_append] at this
      exact List.eq_nil_of_length_eq_zero (by omega)

end

end Siip.Proxy
