/-
  `parse_header` and the pieces in which the stream comes.

  A pass over the buffer reads up to the first CRLF and never looks behind it, so the parser ends
  as if all bytes had come at once (`recvLoop_reflects`). From this: its outcome does not depend
  on how a closed stream is cut (`header_segmentation`), and a well-formed header block is read
  back, with exactly what follows it left to read (`header_roundtrip`).
-/
import Siip.Proxy.Headers

namespace Siip.Proxy

open Lib Python

/-! ## Passes that read lines -/

/-- A pass that takes no more than the first line, and looks at nothing else, is stable. -/
theorem stable_of_lines {σ : Type} {pass : Pass σ Exn}
    (hnone : ∀ st buf, find crlf buf = none → pass.run st buf = .ok none)
    (hline : ∀ st line rest, find crlf line = none → pass.run st (line ++ crlf ++ rest) =
      (pass.run st (line ++ crlf)).map (Option.map fun p => (p.1, p.2 ++ rest))) :
    pass.Stable where
  read {st buf st' buf'} x h := by
    cases hfind : find crlf buf with
    | none => exact absurd ((hnone st buf hfind).symm.trans h) (by simp)
    | some newline =>
      obtain ⟨line, rest, rfl, hfree⟩ := eq_line_of_find hfind
      rw [hline st line rest hfree] at h
      rw [List.append_assoc, hline st line (rest ++ x) hfree]
      cases hrun : pass.run st (line ++ crlf) with
      | error e => simp [hrun, Except.map] at h
      | ok o =>
        rw [hrun] at h
        obtain ⟨p, rfl, ⟨⟩⟩ := Option.map_eq_some_iff.mp (Except.ok.inj h)
        simp only [Except.map, Option.map_some, List.append_assoc]
  fail {st buf e} x h := by
    cases hfind : find crlf buf with
    | none => exact absurd ((hnone st buf hfind).symm.trans h) (by simp)
    | some newline =>
      obtain ⟨line, rest, rfl, hfree⟩ := eq_line_of_find hfind
      rw [hline st line rest hfree] at h
      rw [List.append_assoc, hline st line (rest ++ x) hfree]
      cases hrun : pass.run st (line ++ crlf) with
      | error e' =>
        rw [hrun] at h
        exact h
      | ok o => simp [hrun, Except.map] at h

theorem headerPass_stable : headerPass.Stable := by
  refine stable_of_lines (fun self buf hfind => ?_) (fun self line rest hfree => ?_)
  · rw [headerPass_run, headerLine, hfind]
  · have hfind := find_line hfree []
    have hdrop : (line ++ crlf).drop (line.length + 2) = [] := by
      rw [← List.append_nil (line ++ crlf), drop_line]
    rw [List.append_nil] at hfind
    rw [headerPass_run, headerLine, headerLine, find_line hfree, hfind]
    simp only [take_line, drop_line, List.take_left, hdrop]
    cases self.state with
    | start => dsimp only; split <;> rfl
    | rcvHdrs =>
      dsimp only
      split
      · rfl
      · split <;> rfl
    | rcvBody => rfl

theorem headerPass_stop (self : HeaderParser) (buf : Bytes) (h : self.done = true) :
    headerPass.run self buf = .ok none := by
  have hstate : self.state = .rcvBody := by simpa [HeaderParser.done] using h
  rw [headerPass_run, headerLine, hstate]
  split <;> rfl

/-! ## However the stream is cut -/

/-- What `parse_header` makes of a socket, and what it leaves to read. -/
def headerOutcome (sock : BufferedSocket) : Except Halt (Option (HttpRequest × Bytes)) :=
  (HttpRequest.parseHeader sock).map fun (request, sock) => request.map fun r => (r, sock.unread)

/-- What the drained bytes of a closed connection mean. -/
def drainedOutcome : Except Exn (HeaderParser × Bytes) → Except Halt (Option (HttpRequest × Bytes))
  | .error e => .error (.raised e)
  | .ok (parser, rest) =>
    match parser.state with
    | .start => .ok none
    | .rcvHdrs => .error (.raised .connectionClosedUnexpectedly)
    | .rcvBody => .ok (some (parser.request, rest))

theorem headerOutcome_of_closed {sock : BufferedSocket} (h : sock.wrappedSocket.closed = true) :
    headerOutcome sock = drainedOutcome (headerPass.drain HeaderParser.init sock.unread) := by
  have hreflects := recvLoop_reflects headerPass_stable headerPass_stop
    (show headerPass.run HeaderParser.init [] = .ok none from rfl) sock
  rw [List.nil_append] at hreflects
  rw [headerOutcome, HttpRequest.parseHeader]
  generalize recvLoop headerPass.feed (Pass.stateIs HeaderParser.done) (HeaderParser.init, [])
    sock = r at hreflects
  match r, hreflects with
  | .error (.raised e), hall => rw [hall]; rfl
  | .error .waiting, hwait => exact absurd (h.symm.trans hwait.1) (by decide)
  | .ok ((parser, buf), sock'), hall =>
    rw [hall]
    cases hstate : parser.state with
    | start => simp [drainedOutcome, hstate, bind, Except.bind, Except.map]
    | rcvHdrs => simp [drainedOutcome, hstate, bind, Except.bind, Except.map]
    | rcvBody =>
      simp [drainedOutcome, hstate, bind, Except.bind, Except.map, BufferedSocket.unread,
        BufferedSocket.rewind]

theorem drainedOutcome_ne_waiting (all : Except Exn (HeaderParser × Bytes)) :
    drainedOutcome all ≠ .error .waiting := by
  unfold drainedOutcome
  split
  · simp
  · split <;> simp

theorem unread_pieces {stream : Bytes} (cut : Segmentation stream) (closed : Bool) :
    BufferedSocket.unread ⟨⟨cut.pieces, closed⟩, []⟩ = stream := by
  rw [BufferedSocket.unread, List.nil_append, cut.flat_pieces]

/-- Two ways of cutting a closed stream give the same outcome, and leave the same bytes. -/
theorem header_segmentation (stream : Bytes) (cut cut' : Segmentation stream) :
    headerOutcome ⟨⟨cut.pieces, true⟩, []⟩ = headerOutcome ⟨⟨cut'.pieces, true⟩, []⟩ ∧
      headerOutcome ⟨⟨cut.pieces, true⟩, []⟩ ≠ .error .waiting := by
  rw [headerOutcome_of_closed rfl, headerOutcome_of_closed rfl, unread_pieces, unread_pieces]
  exact ⟨rfl, drainedOutcome_ne_waiting _⟩

/-! ## What the writer of a request has written -/

/-- A well-formed header block is read back, whatever follows it and however the stream is cut. -/
theorem parseHeader_of_head (head : RequestHead) (tail : Bytes)
    (cut : Segmentation (head.bytes ++ tail)) (closed : Bool) :
    ∃ sock, HttpRequest.parseHeader ⟨⟨cut.pieces, closed⟩, []⟩ = .ok (some head.request, sock) ∧
      sock.unread = tail ∧ sock.wrappedSocket.closed = closed := by
  obtain ⟨buf, sock, hloop, htail, hclosed⟩ := recvLoop_of_readsAll headerPass_stable
    headerPass_stop rfl head.readsAll rfl (unread_pieces cut closed) rfl
  refine ⟨sock.rewind buf, ?_, ?_, hclosed⟩
  · rw [HttpRequest.parseHeader, hloop]
    rfl
  · rw [BufferedSocket.rewind, BufferedSocket.unread, List.append_assoc]
    exact htail

/-- The request line is read back; a header is there exactly where some field has its canonical
    name, with their values joined in order; and what follows the block is left to read. -/
theorem header_roundtrip (head : RequestHead) (tail : Bytes)
    (cut : Segmentation (head.bytes ++ tail)) (closed : Bool) :
    ∃ request sock, HttpRequest.parseHeader ⟨⟨cut.pieces, closed⟩, []⟩ = .ok (some request, sock) ∧
      request.method = some head.method ∧ request.url = some head.url ∧
      request.version = some head.version ∧
      (∀ name, request.headers.get? name = Headers.joined (Headers.valuesOf name head.fields)) ∧
      request.headers.names.Nodup ∧ sock.unread = tail := by
  obtain ⟨sock, hparse, htail, -⟩ := parseHeader_of_head head tail cut closed
  exact ⟨head.request, sock, hparse, rfl, rfl, rfl, Headers.get?_addAll head.fields,
    Headers.nodup_addAll head.fields, htail⟩

/-- The values of the lines that have the same name as `name`, ignoring case. -/
theorem valuesOf_capitalize (name : Bytes) (fields : List (Bytes × Bytes)) :
    Headers.valuesOf (capitalize name) fields =
      (fields.filter fun f => lower f.1 = lower name).map Prod.snd := by
  unfold Headers.valuesOf
  exact congrArg _ (List.filter_congr fun f _ => decide_eq_decide.mpr capitalize_eq_iff)

/-- `_capitalize` folds case and nothing else: names fall together just when they are equal
    ignoring case, and only the case of their letters changes. So in the dictionary that
    `parse_header` builds, the entry of a line holds the values of the lines that have its name,
    ignoring case, and no others. -/
theorem capitalize_folds_case :
    (∀ name name' : Bytes, capitalize name = capitalize name' ↔ lower name = lower name') ∧
      (∀ name : Bytes, capitalize (capitalize name) = capitalize name ∧
        (capitalize name).length = name.length ∧
        ∀ i : Nat, (capitalize name)[i]? = some 45 ↔ name[i]? = some 45) ∧
      ∀ (head : RequestHead) (tail : Bytes) (cut : Segmentation (head.bytes ++ tail))
        (closed : Bool), ∃ request sock,
          HttpRequest.parseHeader ⟨⟨cut.pieces, closed⟩, []⟩ = .ok (some request, sock) ∧
          request.headers.names.Nodup ∧
          ∀ f ∈ head.fields, request.headers.get? (capitalize f.1) =
            Headers.joined
              ((head.fields.filter fun f' => lower f'.1 = lower f.1).map Prod.snd) := by
  have hhyphen : ∀ b : UInt8, lowerByte b = 45 ↔ b = 45 := by decide +kernel
  refine ⟨fun _ _ => capitalize_eq_iff, fun name => ⟨capitalize_capitalize name,
    length_capitalize name, getElem?_capitalize hhyphen name⟩, fun head tail cut closed => ?_⟩
  obtain ⟨sock, hparse, -, -⟩ := parseHeader_of_head head tail cut closed
  refine ⟨head.request, sock, hparse, Headers.nodup_addAll head.fields, fun f _ => ?_⟩
  rw [← valuesOf_capitalize]
  exact Headers.get?_addAll head.fields (capitalize f.1)

end Siip.Proxy
