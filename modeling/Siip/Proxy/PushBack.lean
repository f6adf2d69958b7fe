/-
  `BufferedSocket` as a stream that can be pushed back.

  What is still to be received is the buffer and then what the wrapped socket will deliver. Every
  `recv` takes a beginning of this stream, and `rewind` puts its bytes in front of it
  (`Stream.Step`); so whatever the calls, and however the wrapped socket cuts what it delivers, a
  socket does what a stream does (`runs_stream`).
-/
import Siip.Proxy.Socket

namespace Siip.Proxy

open Lib

inductive SocketCall where
  | recv (bufsize : Nat) (pos : 1 ≤ bufsize)
  | rewind (data : Bytes)

/-! ## The stream -/

namespace Stream

/-- One call on a stream, and what it returns. -/
inductive Step : Bytes → SocketCall → Bytes → Bytes → Prop
  /-- Nothing is received only at the end of the stream. -/
  | recv {bufsize : Nat} {pos : 1 ≤ bufsize} {rcvd rest : Bytes} (short : rcvd.length ≤ bufsize)
      (ended : rcvd = [] → rest = []) : Step (rcvd ++ rest) (.recv bufsize pos) rcvd rest
  | rewind (data stream : Bytes) : Step stream (.rewind data) [] (data ++ stream)

/-- Some calls one after the other, with what each of them returns. -/
inductive Run : Bytes → List SocketCall → List Bytes → Bytes → Prop
  | nil (stream : Bytes) : Run stream [] [] stream
  | cons {stream mid stream' result : Bytes} {call : SocketCall} {calls : List SocketCall}
      {results : List Bytes} (step : Step stream call result mid)
      (rest : Run mid calls results stream') :
      Run stream (call :: calls) (result :: results) stream'

/-- What a call puts in front of the stream. -/
def pushed : SocketCall → Bytes
  | .recv _ _ => []
  | .rewind data => data

theorem Step.perm {stream stream' result : Bytes} {call : SocketCall}
    (h : Step stream call result stream') :
    (pushed call ++ stream).Perm (result ++ stream') := by
  cases h with
  | recv short ended => exact List.Perm.refl _
  | rewind data stream => exact List.Perm.refl _

/-- No byte is lost or repeated: what there was and what was pushed back is what was received and
    what there is. -/
theorem Run.perm {stream stream' : Bytes} {calls : List SocketCall} {results : List Bytes}
    (h : Run stream calls results stream') :
    (calls.flatMap pushed ++ stream).Perm (results.flatten ++ stream') := by
  induction h with
  | nil stream => exact List.Perm.refl _
  | @cons stream mid stream' result call calls results step _ ih =>
    rw [List.flatMap_cons, List.flatten_cons, List.append_assoc, List.append_assoc]
    have hcall : (pushed call ++ (calls.flatMap pushed ++ stream)).Perm
        (calls.flatMap pushed ++ (result ++ mid)) :=
      (List.perm_append_comm_assoc _ _ _).trans (step.perm.append_left _)
    have hcalls : (calls.flatMap pushed ++ (result ++ mid)).Perm
        (result ++ (results.flatten ++ stream')) :=
      (List.perm_append_comm_assoc _ _ _).trans (ih.append_left _)
    exact hcall.trans hcalls

theorem Step.eq_append {stream stream' result : Bytes} {call : SocketCall}
    (h : Step stream call result stream') (hcall : pushed call = []) :
    stream = result ++ stream' := by
  cases h with
  | recv short ended => rfl
  | rewind data stream =>
    obtain rfl : data = [] := hcall
    rfl

/-- What is received without pushing anything back is the stream in its order. -/
theorem Run.eq_append {stream stream' : Bytes} {calls : List SocketCall} {results : List Bytes}
    (h : Run stream calls results stream') (hcalls : ∀ call ∈ calls, pushed call = []) :
    stream = results.flatten ++ stream' := by
  induction h with
  | nil stream => rfl
  | cons step _ ih =>
    obtain ⟨hcall, hcalls⟩ := List.forall_mem_cons.mp hcalls
    rw [step.eq_append hcall, ih hcalls, List.flatten_cons, List.append_assoc]

end Stream

/-! ## The socket -/

/-- The same bytes to be delivered, cut in another way. -/
structure WrappedSocket.Recut (w w' : WrappedSocket) : Prop where
  flat_eq : flat w'.pieces = flat w.pieces
  closed_eq : w'.closed = w.closed

/-- Every beginning that `recv` may return is returned after some cutting. -/
theorem WrappedSocket.exists_recut {w : WrappedSocket} {bufsize : Nat} {rcvd rest : Bytes}
    (h : flat w.pieces = rcvd ++ rest) (hne : rcvd ≠ []) (hlen : rcvd.length ≤ bufsize) :
    ∃ w' w'', w.Recut w' ∧ w'.recv bufsize = some (rcvd, w'') ∧ flat w''.pieces = rest := by
  obtain ⟨pieces, hpieces⟩ : ∃ pieces, flat pieces = rest := by
    cases rest with
    | nil => exact ⟨[], rfl⟩
    | cons b rest => exact ⟨[⟨b :: rest, List.cons_ne_nil _ _⟩], List.append_nil _⟩
  refine ⟨⟨⟨rcvd, hne⟩ :: pieces, w.closed⟩, ⟨pieces, w.closed⟩, ⟨?_, rfl⟩, ?_, hpieces⟩
  · rw [flat_cons, hpieces, h]
  · rw [recv]
    exact dif_neg (Nat.not_lt.mpr hlen)

theorem WrappedSocket.length_of_recv {bufsize : Nat} {w w' : WrappedSocket} {rcvd : Bytes}
    (h : w.recv bufsize = some (rcvd, w')) : rcvd.length ≤ bufsize := by
  unfold recv at h
  split at h
  · rw [Option.ite_none_right_eq_some] at h
    obtain ⟨-, ⟨⟩⟩ := h
    exact Nat.zero_le _
  · split at h
    · obtain ⟨⟩ := h
      exact List.length_take_le _ _
    · rename_i hle
      obtain ⟨⟩ := h
      exact Nat.not_lt.mp hle

namespace BufferedSocket

/-- The buffered and the fresh bytes share the size that was asked for. -/
theorem length_of_recv {bufsize : Nat} (hpos : 0 < bufsize) {s s' : BufferedSocket} {rcvd : Bytes}
    (h : s.recv bufsize = some (rcvd, s')) : rcvd.length ≤ bufsize := by
  obtain ⟨w, buf⟩ := s
  rcases Nat.lt_or_ge buf.length bufsize with hlt | hle
  · rw [recv_of_lt hlt] at h
    obtain ⟨⟨fresh, w'⟩, hrecv, ⟨⟩⟩ := Option.map_eq_some_iff.mp h
    have hfresh : fresh.length ≤ bufsize - buf.length := WrappedSocket.length_of_recv hrecv
    dsimp only
    rw [List.length_append]
    omega
  · rw [recv_of_le hpos hle] at h
    obtain ⟨⟩ := h
    exact List.length_take_le _ _

theorem unread_of_recut {s : BufferedSocket} {w : WrappedSocket} (h : s.wrappedSocket.Recut w) :
    unread { s with wrappedSocket := w } = s.unread := by
  rw [unread, unread, h.flat_eq]

theorem unread_rewind (data : Bytes) (s : BufferedSocket) :
    (s.rewind data).unread = data ++ s.unread := by
  rw [rewind, unread, unread, List.append_assoc]

/-- Calls one after the other. Before each `recv` the wrapped socket may cut anew what it has still
    to deliver. -/
inductive Runs : BufferedSocket → List SocketCall → List Bytes → BufferedSocket → Prop
  | nil (s : BufferedSocket) : Runs s [] [] s
  | recv {s mid s' : BufferedSocket} {w : WrappedSocket} {bufsize : Nat} {pos : 1 ≤ bufsize}
      {rcvd : Bytes} {calls : List SocketCall} {results : List Bytes}
      (cut : s.wrappedSocket.Recut w)
      (received : BufferedSocket.recv bufsize { s with wrappedSocket := w } = some (rcvd, mid))
      (rest : Runs mid calls results s') :
      Runs s (.recv bufsize pos :: calls) (rcvd :: results) s'
  | rewind {s s' : BufferedSocket} {data : Bytes} {calls : List SocketCall} {results : List Bytes}
      (rest : Runs (s.rewind data) calls results s') :
      Runs s (.rewind data :: calls) ([] :: results) s'

/-- One `recv` is one on the stream. -/
theorem step_recv {s s' : BufferedSocket} {w : WrappedSocket} {bufsize : Nat}
    (pos : 1 ≤ bufsize) {rcvd : Bytes} (cut : s.wrappedSocket.Recut w)
    (h : recv bufsize { s with wrappedSocket := w } = some (rcvd, s')) :
    Stream.Step s.unread (.recv bufsize pos) rcvd s'.unread := by
  have hunread := unread_of_recv pos h
  have hstep : Stream.Step (rcvd ++ s'.unread) (.recv bufsize pos) rcvd s'.unread := by
    refine .recv (length_of_recv pos h) fun hnil => ?_
    subst hnil
    have hend := unread_of_recv_nil pos h
    rw [hunread] at hend
    exact hend
  rwa [← hunread, unread_of_recut cut] at hstep

theorem Runs.stream {s s' : BufferedSocket} {calls : List SocketCall} {results : List Bytes}
    (h : Runs s calls results s') : Stream.Run s.unread calls results s'.unread := by
  induction h with
  | nil s => exact .nil _
  | recv cut received _ ih => exact .cons (step_recv _ cut received) ih
  | @rewind s s' data calls results _ ih =>
    rw [unread_rewind] at ih
    exact .cons (.rewind data s.unread) ih

theorem Runs.closed {s s' : BufferedSocket} {calls : List SocketCall} {results : List Bytes}
    (h : Runs s calls results s') : s'.wrappedSocket.closed = s.wrappedSocket.closed := by
  induction h with
  | nil s => rfl
  | @recv s mid s' w bufsize pos rcvd calls results cut received _ ih =>
    rw [ih, closed_of_recv pos received]
    exact cut.closed_eq
  | rewind _ ih => exact ih

end BufferedSocket

/-- Whatever is called on a buffered socket, and however the wrapped socket cuts what it delivers:
    the calls do what they do on a stream, they lose and repeat no byte, and where the wrapped
    socket delivers all it has and then its end, no `recv` fails to return. -/
theorem runs_stream (s s' : BufferedSocket) (calls : List SocketCall) (results : List Bytes)
    (h : BufferedSocket.Runs s calls results s') :
    Stream.Run s.unread calls results s'.unread ∧
      (calls.flatMap Stream.pushed ++ s.unread).Perm (results.flatten ++ s'.unread) ∧
      (s.wrappedSocket.closed = true → ∀ bufsize, 1 ≤ bufsize → ∀ w, s'.wrappedSocket.Recut w →
        ∃ rcvd s'', BufferedSocket.recv bufsize { s' with wrappedSocket := w } =
          some (rcvd, s'')) := by
  refine ⟨h.stream, h.stream.perm, fun hclosed bufsize hpos w hcut => ?_⟩
  cases hrecv : BufferedSocket.recv bufsize { s' with wrappedSocket := w } with
  | some r => exact ⟨r.1, r.2, rfl⟩
  | none =>
    have hopen := (BufferedSocket.waiting_of_recv hpos hrecv).2
    rw [hcut.closed_eq, h.closed, hclosed] at hopen
    exact absurd hopen (by decide)

/-- One byte is received, pushed back, and received again with the next one. -/
theorem runs_stream_ab :
    Stream.Run (asBytes "ab") [.recv 1 (by decide), .rewind (asBytes "a"), .recv 4 (by decide)]
      [asBytes "a", [], asBytes "ab"] [] := by
  have hfirst : BufferedSocket.recv 1 ⟨⟨[⟨asBytes "ab", by decide +kernel⟩], true⟩, []⟩ =
      some (asBytes "a", ⟨⟨[⟨asBytes "b", by decide +kernel⟩], true⟩, []⟩) := by
    decide +kernel
  have hlast : BufferedSocket.recv 4 (BufferedSocket.rewind (asBytes "a")
      ⟨⟨[⟨asBytes "b", by decide +kernel⟩], true⟩, []⟩) =
      some (asBytes "ab", ⟨⟨[], true⟩, []⟩) := by
    decide +kernel
  have hrest : BufferedSocket.Runs (BufferedSocket.rewind (asBytes "a")
      ⟨⟨[⟨asBytes "b", by decide +kernel⟩], true⟩, []⟩) [.recv 4 (by decide)] [asBytes "ab"]
      ⟨⟨[], true⟩, []⟩ :=
    .recv ⟨rfl, rfl⟩ hlast (.nil _)
  have hruns : BufferedSocket.Runs ⟨⟨[⟨asBytes "ab", by decide +kernel⟩], true⟩, []⟩
      [.recv 1 (by decide), .rewind (asBytes "a"), .recv 4 (by decide)]
      [asBytes "a", [], asBytes "ab"] ⟨⟨[], true⟩, []⟩ :=
    .recv ⟨rfl, rfl⟩ hfirst (.rewind hrest)
  exact (runs_stream _ _ _ _ hruns).1

end Siip.Proxy
